import Pintos.Syscall.Calls

/-! Bytes and strings at user addresses (`lib/string.c`).

Each loop is the source's, over 32-bit addresses that wrap. A string loop is
bounded by the number of addresses: past that it is back at its first byte and
never ends.
-/

set_option autoImplicit false

namespace Pintos.Syscall

def addresses : Nat := 2 ^ 32

def copyIn : Nat → Nat → Routines (List UInt8)
  | 0, _ => pure []
  | size + 1, address => do
    let byte ← load address
    let rest ← copyIn size (ptrAdd address 1)
    pure (byte :: rest)

def copyOut : List UInt8 → Nat → Routines Unit
  | [], _ => pure ()
  | byte :: rest, address => do
    store address byte
    copyOut rest (ptrAdd address 1)

def littleEndian (bytes : List UInt8) : Nat := bytes.foldr (fun byte high => byte.toNat + 256 * high) 0

def loadWord (address : Nat) : Routines Nat := do
  let bytes ← copyIn 4 address
  pure (littleEndian bytes)

def signed (word : Nat) : Int :=
  if word % addresses < 2 ^ 31 then (word % addresses : Nat) else (word % addresses : Nat) - addresses

def strlenLoop : Nat → Nat → Nat → Routines Nat
  | 0, _, _ => hang
  | bound + 1, address, length => do
    let byte ← load address
    if byte = 0 then pure length else strlenLoop bound (ptrAdd address 1) (length + 1)

def strlen (string : Nat) : Routines Nat := strlenLoop addresses string 0

/-- `strcmp` of a user string with a kernel string, given without its terminator. -/
def strcmp : Nat → List UInt8 → Routines Int
  | address, [] => do
    let a ← load address
    pure (if a = 0 then 0 else 1)
  | address, b :: rest => do
    let a ← load address
    if a ≠ 0 ∧ a = b then strcmp (ptrAdd address 1) rest
    else pure (if a < b then -1 else if b < a then 1 else 0)

/-- `strlcpy` out of user memory: the bytes stored before the terminator. -/
def strlcpy (source size : Nat) : Routines (List UInt8) := do
  let length ← strlen source
  if 0 < size then copyIn (min (size - 1) length) source else pure []

end Pintos.Syscall
