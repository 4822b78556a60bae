import CrestRtos.Kernel.Kobject
import CrestRtos.Kernel.Sync
import CrestRtos.Library.RingBuffer

/-!
# Kernel calls, syscalls and the worker

`Op` names the calls of `kernel/` that tasks and the worker make on existing
objects, `Creation` those that build an object. `svc_handler_c` posts a work
item, and `decode` is the `switch` of `dispatch`: what the worker does for an
item, up to the first critical section of the function it calls. The items
posted by the handler always name a caller.
-/

namespace Crest
open ByteMemory MachineWord Alloc

inductive Op
  | semTake (s ms : Nat)
  | semTryTake (s : Nat) (caller : Tid) (ms : Nat)
  | semGive (s : Nat)
  | mutexLock (m ms : Nat)
  | mutexTryLock (m : Nat) (caller : Tid) (ms : Nat)
  | mutexUnlock (m : Nat)
  | mutexUnlockFor (m : Nat) (owner : Tid)
  | queuePush (q item ms : Nat)
  | queuePop (q item ms : Nat)
  | delay (ticks : Nat)
  deriving DecidableEq, Repr

/-- `z_impl_task_delay`. -/
def zImplTaskDelay (k : Kernel) (cur : Tid) (ticks : Nat) : Kernel × Outcome :=
  if ticks = 0 then (k, .ret 0) else (schedulerSleep k cur ticks, .pend 0)

/-- The critical section of a call; `cur` is `scheduler_get_current()`. -/
def Op.enter (k : Kernel) (cur : Tid) : Op → Kernel × Outcome
  | .semTake s ms => zImplSemTakeTimeout k s cur ms
  | .semTryTake s caller ms => zImplSemTryTakeTimeout k s caller ms
  | .semGive s => zImplSemGive k s
  | .mutexLock m ms => zImplMutexLockTimeout k m cur ms
  | .mutexTryLock m caller ms => zImplMutexTryLockTimeout k m caller ms
  | .mutexUnlock m => zImplMutexUnlock k m cur
  | .mutexUnlockFor m owner => zImplMutexUnlockFor k m owner
  | .queuePush q item ms => zImplQueuePush k q cur item ms
  | .queuePop q item ms => zImplQueuePop k q cur item ms
  | .delay ticks => zImplTaskDelay k cur ticks

inductive Creation
  | sem (initial : Nat)
  | mutex
  | queue (itemSize size : Nat)
  deriving DecidableEq, Repr

def Creation.type : Creation → KobjType
  | .sem _ => .sem
  | .mutex => .mutex
  | .queue _ _ => .queue

/-- The size of each object, as `sizeof` gives it. -/
def Creation.bytes : Creation → Nat
  | .sem _ => 8
  | .mutex => 8
  | .queue _ _ => 32

def Creation.rejected : Creation → Bool
  | .queue itemSize size => itemSize == 0 || size == 0
  | _ => false

/-- A 32-bit word read as a C `int`. -/
def asInt (w : Nat) : Int := toInt32 w

/-- The stores into the fresh object at `p`. -/
def Creation.init (k : Kernel) (p : Nat) : Creation → Kernel
  | .sem initial => k.setSem p ⟨if 0 ≤ asInt initial then asInt initial else 0, none⟩
  | .mutex => k.setMutex p ⟨none, none⟩
  | .queue itemSize size => k.setQueue p
      { k.queue p with
        itemSize := itemSize
        size := size
        slots := wrap (size + 1)
        head := 0
        tail := 0
        sendWait := none
        recvWait := none }

/-- Up to the object's own `malloc` and its stores; the pointer is 0 on failure. -/
def Creation.alloc (L : Layout) (k : Kernel) (c : Creation) : Option (Kernel × Nat) :=
  if c.rejected then some (k, 0)
  else
    (malloc L k.heap c.bytes).map fun (heap, p) =>
      let k := { k with heap := heap }
      if p = 0 then (k, 0) else (c.init k p, p)

/-- The rest of `queue_init`: the overflow check and the buffer. -/
def queueInitBuffer (L : Layout) (k : Kernel) (p : Nat) : Option (Kernel × Bool) :=
  let q := k.queue p
  let total := wrap (q.itemSize * q.slots)
  if q.slots ≠ 0 ∧ total / q.slots ≠ q.itemSize then some (k, false)
  else
    (malloc L k.heap total).map fun (heap, buffer) =>
      let k := { k with heap := heap }.setQueue p { q with buffer := buffer }
      (k, buffer != 0)

/-- `free(queue)` of a failed `z_impl_queue_create`. -/
def queueFree (L : Layout) (k : Kernel) (p : Nat) : Option Kernel :=
  (free L k.heap p).map fun heap => { k with heap := heap }

def kworkPush (k : Kernel) (item : WorkItem) : Kernel × Nat :=
  let next := (k.kworkTail + 1) % kworkQueueSize
  if next = k.kworkHead then (k, minusOne)
  else
    let k := { k with
      kworkBuf := Function.update k.kworkBuf k.kworkTail item
      kworkTail := next }
    match k.kernelTcb with
    | none => (k, 0)
    | some u =>
      if (k.tcb u).state = .waiting then
        (k.setTcb u fun tcb => { tcb with state := .ready }, 0)
      else (k, 0)

def kworkPopLocked (k : Kernel) : Option (Kernel × WorkItem) :=
  if k.kworkHead = k.kworkTail then none
  else
    some ({ k with kworkHead := (k.kworkHead + 1) % kworkQueueSize }, k.kworkBuf k.kworkHead)

/-- `kernel_tcb->state = TASK_WAITING`. -/
def workerWait (k : Kernel) : Kernel :=
  match k.kernelTcb with
  | none => k
  | some u => k.setTcb u fun tcb => { tcb with state := .waiting }

/-- The items of the ring, oldest first. -/
def Kernel.kwork (k : Kernel) : List WorkItem :=
  RingBuffer.contents k.kworkBuf kworkQueueSize k.kworkHead k.kworkTail

/-- `svc_handler_c` on the frame of `caller`, whose stacked R0 is `item.arg0`. -/
def svcHandler (k : Kernel) (item : WorkItem) : Kernel :=
  let k := { k with r0 := item.arg0 }.setTcb item.caller fun tcb =>
    { tcb with svcBlocked := true, state := .waiting }
  let (k, r) := kworkPush k item
  if r ≠ 0 then
    { k with r0 := minusOne }.setTcb item.caller fun tcb =>
      { tcb with svcBlocked := false, state := .ready }
  else portTriggerPendsv k

def syscallDelay : Nat := 0
def syscallQueueSend : Nat := 1
def syscallQueueRecv : Nat := 2
def syscallSemPost : Nat := 3
def syscallSemWait : Nat := 4
def syscallMutexLock : Nat := 5
def syscallMutexUnlock : Nat := 6
def syscallUartWrite : Nat := 7
def syscallQueueCreate : Nat := 8
def syscallSemCreate : Nat := 9
def syscallMutexCreate : Nat := 10

inductive Work
  /-- Write 0 to the caller's R0 and put it to sleep. -/
  | sleep (ticks : Nat)
  /-- `complete(caller, v)`. -/
  | complete (v : Nat)
  /-- `uart_write(s)`, then `complete(caller, 0)`. -/
  | uart (s : Nat)
  | call (op : Op)
  | create (c : Creation)
  deriving DecidableEq, Repr

/-- Look the handle up and go on with the object, or complete with -1. -/
def withObject (k : Kernel) (handle : Nat) (type : KobjType) (f : Nat → Work) : Work :=
  match kObjGet k handle type with
  | none => .complete minusOne
  | some p => f p

def decode (k : Kernel) (item : WorkItem) : Work :=
  if item.id = syscallDelay then .sleep item.arg0
  else if item.id = syscallQueueSend then
    withObject k item.arg0 .queue fun q => .call (.queuePush q item.arg1 0)
  else if item.id = syscallQueueRecv then
    withObject k item.arg0 .queue fun q => .call (.queuePop q item.arg1 0)
  else if item.id = syscallSemPost then
    withObject k item.arg0 .sem fun s => .call (.semGive s)
  else if item.id = syscallSemWait then
    withObject k item.arg0 .sem fun s => .call (.semTryTake s item.caller item.arg1)
  else if item.id = syscallMutexLock then
    withObject k item.arg0 .mutex fun m => .call (.mutexTryLock m item.caller item.arg1)
  else if item.id = syscallMutexUnlock then
    withObject k item.arg0 .mutex fun m => .call (.mutexUnlockFor m item.caller)
  else if item.id = syscallUartWrite then .uart item.arg0
  else if item.id = syscallQueueCreate then .create (.queue item.arg0 item.arg1)
  else if item.id = syscallSemCreate then .create (.sem item.arg0)
  else if item.id = syscallMutexCreate then .create .mutex
  else .complete minusOne

/-- `SYSCALL_DELAY`: the caller leaves the syscall and sleeps. -/
def delaySection (k : Kernel) (caller : Tid) (ticks : Nat) : Kernel :=
  let k := k.setTcb caller fun tcb => { tcb with savedR0 := 0, svcBlocked := false }
  schedulerSleep k caller ticks

end Crest
