import Pintos.Semantics.Transition
import Pintos.Semantics.Computation
import Pintos.Vm.Address
import Pintos.Vm.State
import Pintos.Vm.Frames
import Pintos.Vm.Page
import Pintos.Vm.System
import Pintos.Vm.Effects
import Pintos.Vm.Eviction
import Pintos.Vm.Moves
import Pintos.Vm.Residency
import Pintos.Vm.Slots
import Pintos.Vm.Steps
import Pintos.Vm.Events
import Pintos.Vm.Agreement
import Pintos.Vm.Occupancy
import Pintos.Vm.Progress
import Pintos.Vm.SwapSlots
import Pintos.Vm.Contents
import Pintos.Vm.Transparency
import Pintos.Vm.Interleaving
import Pintos.Vm.Races
import Pintos.Semantics.Procedure
import Pintos.Syscall.Calls
import Pintos.Syscall.Files
import Pintos.Syscall.Handlers
import Pintos.Syscall.Accesses
import Pintos.Syscall.Confinement
import Pintos.Syscall.FilesysLock
import Pintos.Process.Handshake
import Pintos.Process.Status
import Pintos.Process.Registration
import Pintos.Syscall.Descriptors
import Pintos.Syscall.Assertions
import Pintos.Syscall.Reading
import Pintos.Semantics.Noninterference
import Pintos.Vm.FreshPages
import Pintos.Filesys.Bitmap
import Pintos.Filesys.Device
import Pintos.Filesys.Directory
import Pintos.Filesys.Transfer
import Pintos.Filesys.OpenInodes
import Pintos.Filesys.Handles
import Pintos.Filesys.Layout
import Pintos.Devices.Partition
import Pintos.Lib.Ustar
import Pintos.Process.Execute
import Pintos.Process.ExitLoop
import Pintos.Threads.Monitor
import Pintos.Threads.Exclusion
import Pintos.Threads.Conditions
import Pintos.Threads.Releases
import Pintos.Threads.Returns
import Pintos.Threads.Scheduler
import Pintos.Threads.Scheduling
import Pintos.Threads.Turns
import Pintos.Lib.Hash
import Pintos.Lib.HashMap
import Pintos.Semantics.Runs
import Pintos.Threads.Palloc
import Pintos.Threads.Pools
import Pintos.Semantics.Clock
import Pintos.Vm.SecondChance
import Pintos.Vm.FrameTable
import Pintos.Vm.Overlaps
import Pintos.Process.Arguments
import Pintos.Process.StackLayout
import Pintos.Process.SetupStack
import Pintos.Process.Loading
import Pintos.Vm.Placement
import Pintos.Vm.FaultAnswers
import Pintos.Vm.ClearAll
import Pintos.Vm.SwapDevice
import Pintos.Lib.Lists
import Pintos.Lib.ListSort
import Pintos.Filesys.Buffers
import Pintos.Filesys.NewFiles
import Pintos.Lib.Arithmetic
import Pintos.Lib.Search
import Pintos.Lib.Sort
import Pintos.Filesys.BitmapScan
import Pintos.Lib.Printf
import Pintos.Lib.FormatInteger
import Pintos.Lib.Strings
import Pintos.Devices.Rtc
import Pintos.Devices.Intq
import Pintos.Lib.ListOrder
import Pintos.Filesys.FileContents
import Pintos.Devices.Timer
