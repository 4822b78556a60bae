import CrestRtos.Library.ByteMemory
import CrestRtos.Library.CString
import CrestRtos.Library.MemoryAccess
import CrestRtos.Library.Numerals
import CrestRtos.Library.IntrusiveList
import CrestRtos.Library.BlockList
import CrestRtos.Library.MachineWord
import CrestRtos.Heap.Alloc
import CrestRtos.Heap.Tiling
import CrestRtos.Heap.Calls
import CrestRtos.Library.Transition
import CrestRtos.Heap.Runs
import CrestRtos.Heap.Requests
import CrestRtos.Heap.Pair
import CrestRtos.Library.BlockRuns
import CrestRtos.Heap.Space
import CrestRtos.Heap.History
import CrestRtos.Heap.DoubleFree
import CrestRtos.Library.ArmMpu
import CrestRtos.Arch.Port
import CrestRtos.Arch.Uart
import CrestRtos.Kernel.State
import CrestRtos.Kernel.Task
import CrestRtos.Arch.Confinement
import CrestRtos.Kernel.Scheduler
import CrestRtos.Library.CircularOrder
import CrestRtos.Kernel.Rounds
import CrestRtos.Kernel.Kobject
import CrestRtos.Kernel.Sync
import CrestRtos.Kernel.LibcStubs
import CrestRtos.Library.RingBuffer
import CrestRtos.Kernel.Kwork
import CrestRtos.Kernel.Standing
import CrestRtos.Kernel.Removal
import CrestRtos.Library.CriticalSection
import CrestRtos.Kernel.Critical
import CrestRtos.Library.AtomicSteps
import CrestRtos.Kernel.Interrupts
import CrestRtos.System.Machine
import CrestRtos.System.Steps
import CrestRtos.System.WaitLists
import CrestRtos.System.Phases
import CrestRtos.System.Effects
import CrestRtos.System.Placement
import CrestRtos.System.Invariant
import CrestRtos.System.LocalSteps
import CrestRtos.System.CallSteps
import CrestRtos.System.ObjectEffects
import CrestRtos.System.SyncSteps
import CrestRtos.System.WorkSteps
import CrestRtos.System.ObjectSteps
import CrestRtos.System.TaskSteps
import CrestRtos.System.SwitchSteps
import CrestRtos.System.TickSteps
import CrestRtos.System.Boot
import CrestRtos.System.Runs
import CrestRtos.System.Deeds
import CrestRtos.System.Changes
import CrestRtos.System.Clock
import CrestRtos.System.Arrivals
import CrestRtos.System.Spares
import CrestRtos.System.References
import CrestRtos.System.Paths
import CrestRtos.System.OtherRam
import CrestRtos.System.Accesses
import CrestRtos.System.Twins
import CrestRtos.Properties.Waiting
import CrestRtos.Properties.Semaphores
import CrestRtos.Properties.Mutexes
import CrestRtos.Properties.Queues
import CrestRtos.Properties.Wakeups
import CrestRtos.Properties.Syscalls
import CrestRtos.Properties.RoundRobin
import CrestRtos.Properties.Buffers
import CrestRtos.Properties.Creation
import CrestRtos.Properties.Delays
import CrestRtos.Properties.Timeouts
import CrestRtos.Properties.Preemption
import CrestRtos.Properties.Backlog
import CrestRtos.Properties.QueuePaths
import CrestRtos.Properties.Handles
import CrestRtos.Properties.Roster
import CrestRtos.Properties.Rotation
import CrestRtos.Properties.TaskStates
import CrestRtos.Properties.Privilege
import CrestRtos.Properties.IsrGive
import CrestRtos.Properties.TokenCount
import CrestRtos.Properties.Overtaking
import CrestRtos.Properties.Footprint
import CrestRtos.Properties.Balance
import CrestRtos.Properties.StackFrame
import CrestRtos.Properties.GuardRegion
import CrestRtos.Properties.TaskEntry
import CrestRtos.Properties.Selection
import CrestRtos.Properties.ReadyMask
import CrestRtos.Properties.StaleHandles
import CrestRtos.Properties.Undo
import CrestRtos.Properties.Expiry
import CrestRtos.Properties.Removals
import CrestRtos.Properties.SyncPaths
import CrestRtos.Properties.Deletion
import CrestRtos.Properties.StringCopy
import CrestRtos.Properties.Directives
import CrestRtos.Properties.Numbers
import CrestRtos.Properties.Printing
import CrestRtos.Properties.FormatReads
import CrestRtos.Properties.PostedItems
import CrestRtos.Properties.Deputy
import CrestRtos.Heap.Claims
import CrestRtos.System.Estate
import CrestRtos.Properties.WorkerFirst
import CrestRtos.Properties.ServiceTime
import CrestRtos.Properties.MemoryMap
import CrestRtos.Properties.Isolation
import CrestRtos.Properties.Progress
import CrestRtos.Properties.Serial
import CrestRtos.Library.ArmException
import CrestRtos.Arch.Switching
import CrestRtos.Board.Machine
import CrestRtos.Board.Steady
import CrestRtos.Board.Frames
import CrestRtos.Board.Registers
import CrestRtos.Board.Following
import CrestRtos.Board.Calls
