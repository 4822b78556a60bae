import CrestRtos.Kernel.Kwork
import CrestRtos.Kernel.Removal
import CrestRtos.Library.CriticalSection

/-!
# The kernel functions instruction by instruction

Every function with a critical section, with each `enter_critical`, `exit_critical`
and `port_trigger_pendsv` where the source has it, on every path. Between two of
them stand the same loads and stores as in the atomic sections. A bit of a flags word
that is changed outside of a section is a load and a store of the word. `n` bounds the
loops that follow links in memory; a run that needs more, or that dereferences
NULL, does not return.
-/

namespace Crest.Critical
open CriticalSection ByteMemory MachineWord Alloc Port

structure State where
  k : Kernel
  userHeap : Heap

abbrev KCode := Code State

def read : KCode Kernel := load State.k

def write (f : Kernel → Kernel) : KCode Unit := store fun s => { s with k := f s.k }

/-- A store of `TASK_WAITING`. -/
def writeWaiting (f : Kernel → Kernel) : KCode Unit := mark fun s => { s with k := f s.k }

def portTriggerPendsv : KCode Unit :=
  request fun s => { s with k := Crest.portTriggerPendsv s.k }

/-- An access through a pointer that may be NULL. -/
def deref {α : Type} : Option α → KCode α
  | none => stuck
  | some v => return v

/-- `t->flags` with some bits changed: a load of the word, and a store. -/
def rewriteFlags (t : Tid) (f : Flags → Flags) : KCode Unit := do
  let flags := ((← read).tcb t).flags
  write fun k => k.setTcb t fun tcb => tcb.setFlags (f flags)

/-! ## `alloc.c` and `user_alloc.c` -/

/-- One of the two heaps. -/
structure HeapRef where
  region : Region
  get : State → Heap
  set : State → Heap → State

def kernelHeap (L : Layout) : HeapRef where
  region := L.heap
  get s := s.k.heap
  set s h := { s with k := { s.k with heap := h } }

def userHeap (L : Layout) : HeapRef where
  region := L.userHeap
  get := State.userHeap
  set s h := { s with userHeap := h }

/-- `if (!heap_inited) heap_init();` -/
def ensureInit (R : Region) (h : Heap) : Heap := if h.heapInited then h else heapInit R h

def mallocFrom (H : HeapRef) (n size : Nat) : KCode Nat := do
  if size = 0 then return 0
  let need := blockNeed size
  let pm ← enterCritical
  store fun s => H.set s (ensureInit H.region (H.get s))
  let h ← load H.get
  match searchFit h.mem need n 0 h.freeList with
  | none => stuck
  | some (prev, curr) =>
    if curr = 0 then
      exitCritical pm
      return 0
    store fun s => H.set s (takeBlock (H.get s) prev curr need)
    exitCritical pm
    return wrap (curr + headerSize)

/-- The stores of `free` behind its last check. -/
def freeInsert (h : Heap) (hdr prev curr : Nat) : Heap :=
  mergePrev (mergeNext ((h.setNext hdr curr).link prev hdr) hdr) prev hdr

def freeTo (H : HeapRef) (n ptr : Nat) : KCode Unit := do
  if ptr = 0 then return
  let hdr := wrap (ptr + (2 ^ 32 - headerSize))
  if hdr < H.region.heapStart ∨ H.region.stop ≤ hdr then return
  let pm ← enterCritical
  let h ← load H.get
  if h.heapInited = false then
    exitCritical pm
    return
  let bsz := hdrSize h.mem hdr
  if bsz < headerSize ∨ H.region.stop < wrap (hdr + bsz) then
    exitCritical pm
    return
  store fun s => H.set s ((H.get s).setSize hdr bsz)
  let h ← load H.get
  match searchSlot h.mem hdr n 0 h.freeList with
  | none => stuck
  | some (prev, curr) =>
    store fun s => H.set s (freeInsert (H.get s) hdr prev curr)
    exitCritical pm

def malloc (L : Layout) (n size : Nat) : KCode Nat := mallocFrom (kernelHeap L) n size
def free (L : Layout) (n ptr : Nat) : KCode Unit := freeTo (kernelHeap L) n ptr
def userMalloc (L : Layout) (n size : Nat) : KCode Nat := mallocFrom (userHeap L) n size
def userFree (L : Layout) (n ptr : Nat) : KCode Unit := freeTo (userHeap L) n ptr

/-! ## `kobject.c` -/

def kObjAlloc (ptr : Nat) (type : KobjType) : KCode Nat := do
  if ptr = 0 then return kobjInvalid
  let pm ← enterCritical
  let k ← read
  match (List.range kobjMax).find? (fun i => !(k.table i).inUse) with
  | some i =>
    let gen := nextGen (k.table i).gen
    write fun k => { k with table := Function.update k.table i ⟨ptr, type, true, gen⟩ }
    exitCritical pm
    return packHandle gen i
  | none =>
    exitCritical pm
    return kobjInvalid

/-- The pointer is 0 for a handle that does not pass. -/
def kObjGet (handle : Nat) (type : KobjType) : KCode Nat := do
  if handle = kobjInvalid then return 0
  let idx := handleIndex handle
  if kobjMax ≤ idx then return 0
  let pm ← enterCritical
  let e := (← read).table idx
  if e.inUse = false then
    exitCritical pm
    return 0
  if e.gen ≠ handleGen handle then
    exitCritical pm
    return 0
  if e.type ≠ type then
    exitCritical pm
    return 0
  exitCritical pm
  return e.ptr

def kObjFree (handle : Nat) : KCode Unit := do
  if handle = kobjInvalid then return
  let idx := handleIndex handle
  if kobjMax ≤ idx then return
  let pm ← enterCritical
  write fun k =>
    let e := k.table idx
    if e.inUse = true ∧ e.gen = handleGen handle then
      { k with table := Function.update k.table idx ⟨0, .queue, false, nextGen e.gen⟩ }
    else k
  exitCritical pm

/-! ## `sched.c` -/

def schedulerInit : KCode Unit :=
  write fun k => { k with
    taskList := fun _ => none
    rrCurrent := fun _ => none
    priorityMask := 0
    currentTask := none }

def schedulerGetFirstReadyPriority : KCode Nat := do
  let mask := (← read).priorityMask
  return if mask = 0 then maxTaskPriorities else ctz mask

def schedulerGetCurrent : KCode (Option Tid) := do return (← read).currentTask

def schedulerSetCurrent (t : Option Tid) : KCode Unit := write fun k => { k with currentTask := t }

def schedulerGetTickCount : KCode Nat := do return (← read).tickCount

def schedulerSleep (t : Tid) (ticks : Nat) : KCode Unit := do
  let pm ← enterCritical
  writeWaiting fun k => Crest.schedulerSleep k t ticks
  exitCritical pm

def schedulerWakeTask (t : Tid) (result : Nat) : KCode Unit := do
  let pm ← enterCritical
  write fun k => wakeSection k t result
  exitCritical pm
  portTriggerPendsv

/-- The stores of `scheduler_add_task`. -/
def linkTask (k : Kernel) (t : Tid) : Kernel :=
  let priority := (k.tcb t).priority
  let k := k.setTcb t fun tcb => { tcb with next := k.taskList priority }
  { k with
    taskList := Function.update k.taskList priority (some t)
    priorityMask := k.priorityMask ||| 1 <<< priority }

/-- The one request inside a critical section. -/
def schedulerAddTask (t : Tid) : KCode Unit := do
  let pm ← enterCritical
  write fun k => linkTask k t
  portTriggerPendsv
  exitCritical pm

def schedulerRemoveTask (t : Tid) : KCode Unit := do
  let pm ← enterCritical
  let priority := ((← read).tcb t).priority
  write fun k => dropCursor k t
  write fun k => unlinkTask k priority t
  write fun k => dropBit k priority
  exitCritical pm

/-- The loop of `scheduler_get_next` over the priorities that are left. -/
def getNextFrom (pm : Bool) : List Nat → KCode (Option Tid)
  | [] => do
    exitCritical pm
    return none
  | pr :: rest => do
    match getNextAt (← read) pr with
    | some (k, t) =>
      write fun _ => k
      exitCritical pm
      return some t
    | none => getNextFrom pm rest

def schedulerGetNext : KCode (Option Tid) := do
  let pm ← enterCritical
  getNextFrom pm (List.range maxTaskPriorities)

/-- `for (t = head; t; t = t->next)`. -/
def forTasks (body : Tid → KCode Unit) : Nat → Option Tid → KCode Unit
  | _, none => return
  | 0, some _ => stuck
  | n + 1, some t => do
    body t
    forTasks body n ((← read).next t)

def forAllTasks (n : Nat) (body : Tid → KCode Unit) : KCode Unit :=
  (List.range maxTaskPriorities).forM fun pr => do forTasks body n ((← read).taskList pr)

/-- The loop body of `sync_tick_all`. -/
def syncTickTask (t : Tid) : KCode Unit := do
  let pm ← enterCritical
  let tcb := (← read).tcb t
  match tcb.blockingWaitList with
  | none => exitCritical pm
  | some w =>
    if tcb.state = .waiting ∧ 0 < tcb.delayTicks then
      write fun k => k.setTcb t fun tcb => { tcb with delayTicks := tcb.delayTicks - 1 }
      if tcb.delayTicks - 1 = 0 then
        write fun k => unlinkWaiter k w t
        write fun k => k.setTcb t fun tcb => { tcb with blockingWaitList := none, timedOut := true }
        exitCritical pm
        schedulerWakeTask t minusOne
      else exitCritical pm
    else exitCritical pm

def syncTickAll (n : Nat) : KCode Unit := forAllTasks n syncTickTask

def schedulerTick (n : Nat) : KCode Unit := do
  write fun k => { k with tickCount := wrap (k.tickCount + 1) }
  forAllTasks n fun t => write fun k => tickDelay k t
  syncTickAll n

def sysTickHandler (n : Nat) : KCode Unit := do
  schedulerTick n
  if (← schedulerGetTickCount) % preemptTickInterval = 0 then portTriggerPendsv

/-! ## `semaphore.c` and `mutex.c` -/

def zImplSemCreate (L : Layout) (n initial : Nat) : KCode Nat := do
  let s ← malloc L n 8
  if s = 0 then return 0
  write fun k => (Creation.sem initial).init k s
  return s

/-- Put the current task on `w`, marked as waiting, and wait for the outcome: the
part that a direct take and a direct lock share. -/
def blockCurrent (w : WaitList) (ms : Nat) (pm : Bool) : KCode Nat := do
  let cur ← deref (← schedulerGetCurrent)
  writeWaiting fun k => markWaiting k cur
  write fun k => pushWaiter k w cur
  write fun k => armTimeout k w cur ms
  exitCritical pm
  portTriggerPendsv
  if ((← read).tcb cur).timedOut then
    rewriteFlags cur fun flags => { flags with timedOut := false }
    return minusOne
  return 0

/-- The wait of `caller`, whom the syscall has marked before. -/
def blockCaller (w : WaitList) (caller : Tid) (ms : Nat) (pm : Bool) : KCode Nat := do
  write fun k => pushWaiter k w caller
  write fun k => armTimeout k w caller ms
  exitCritical pm
  return minusOne

def takeWith (s ms : Nat) (wait : Bool → KCode Nat) : KCode Nat := do
  let pm ← enterCritical
  if 0 < ((← read).sem s).count then
    write fun k => k.setSem s { k.sem s with count := (k.sem s).count - 1 }
    exitCritical pm
    return 0
  if ms = 0 then
    exitCritical pm
    return minusOne
  wait pm

def zImplSemTakeTimeout (s ms : Nat) : KCode Nat := takeWith s ms (blockCurrent (.sem s) ms)

def zImplSemTryTakeTimeout (s : Nat) (caller : Tid) (ms : Nat) : KCode Nat :=
  takeWith s ms (blockCaller (.sem s) caller ms)

def zImplSemGive (s : Nat) : KCode Unit := do
  let pm ← enterCritical
  match ((← read).sem s).waitList with
  | some waiter =>
    write fun k => popWaiter k (.sem s) waiter
    exitCritical pm
    schedulerWakeTask waiter 0
  | none =>
    write fun k => k.setSem s { k.sem s with count := toInt32 ((k.sem s).count + 1) }
    exitCritical pm

def zImplMutexCreate (L : Layout) (n : Nat) : KCode Nat := do
  let m ← malloc L n 8
  if m = 0 then return 0
  write fun k => Creation.mutex.init k m
  return m

/-- NULL is an owner like another here: `t` is what the owner is compared with. -/
def lockWith (m : Nat) (t : Option Tid) (ms : Nat) (pm : Bool) (wait : Bool → KCode Nat) :
    KCode Nat := do
  let owner := ((← read).mutex m).owner
  if owner = t then
    exitCritical pm
    return 0
  if owner = none then
    write fun k => k.setMutex m { k.mutex m with owner := t }
    exitCritical pm
    return 0
  if ms = 0 then
    exitCritical pm
    return minusOne
  wait pm

def zImplMutexLockTimeout (m ms : Nat) : KCode Nat := do
  let pm ← enterCritical
  let cur ← schedulerGetCurrent
  lockWith m cur ms pm (blockCurrent (.mutex m) ms)

def zImplMutexTryLockTimeout (m : Nat) (caller : Tid) (ms : Nat) : KCode Nat := do
  let pm ← enterCritical
  lockWith m (some caller) ms pm (blockCaller (.mutex m) caller ms)

def unlockWith (m : Nat) (t : Option Tid) (pm : Bool) : KCode Unit := do
  let k ← read
  if (k.mutex m).owner ≠ t then
    exitCritical pm
    return
  match (k.mutex m).waitList with
  | some waiter =>
    write fun k => popWaiter k (.mutex m) waiter
    write fun k => k.setMutex m { k.mutex m with owner := some waiter }
    exitCritical pm
    schedulerWakeTask waiter 0
  | none =>
    write fun k => k.setMutex m { k.mutex m with owner := none }
    exitCritical pm
    portTriggerPendsv

def zImplMutexUnlock (m : Nat) : KCode Unit := do
  let pm ← enterCritical
  let cur ← schedulerGetCurrent
  unlockWith m cur pm

def zImplMutexUnlockFor (m : Nat) (owner : Tid) : KCode Unit := do
  let pm ← enterCritical
  unlockWith m (some owner) pm

/-! ## `queue.c` -/

/-- The rest of `queue_init`, behind the stores into the queue. -/
def queueInitBuffer (L : Layout) (n p : Nat) : KCode Bool := do
  let q := (← read).queue p
  let total := wrap (q.itemSize * q.slots)
  if q.slots ≠ 0 ∧ total / q.slots ≠ q.itemSize then return false
  let buffer ← malloc L n total
  write fun k => k.setQueue p { k.queue p with buffer := buffer }
  return buffer != 0

def zImplQueueCreate (L : Layout) (n itemSize size : Nat) : KCode Nat := do
  if itemSize = 0 ∨ size = 0 then return 0
  let queue ← malloc L n 32
  if queue = 0 then return 0
  write fun k => (Creation.queue itemSize size).init k queue
  if (← queueInitBuffer L n queue) = false then
    free L n queue
    return 0
  return queue

/-- After a copy: wake the first task of `w`, if there is one, and return 0. -/
def wakeAndReturn (w : WaitList) (pm : Bool) : KCode Nat := do
  match (← read).head w with
  | some toWake =>
    write fun k => popWaiter k w toWake
    exitCritical pm
    schedulerWakeTask toWake 0
    return 0
  | none =>
    exitCritical pm
    return 0

/-- `while (tail->wait_next) tail = tail->wait_next;`. Behind more links than there are tasks,
one has come twice, and the loop has no end. -/
def lastWaiter : Nat → Tid → KCode Tid
  | 0, _ => stuck
  | n + 1, t => do
    match (← read).waitNext t with
    | none => return t
    | some next => lastWaiter n next

/-- The append of a queue call to its wait list. -/
def appendWaiter (w : WaitList) (cur : Tid) : KCode Unit := do
  write fun k => k.setTcb cur fun tcb => { tcb with waitNext := none }
  match (← read).head w with
  | none => write fun k => k.setHead w (some cur)
  | some first =>
    let tail ← lastWaiter maxTasks first
    write fun k => k.setTcb tail fun tcb => { tcb with waitNext := some cur }

/-- The wait of a queue call, up to the check behind it: whether its time was up. -/
def queueWait (w : WaitList) (ms : Nat) (pm : Bool) : KCode Bool := do
  let cur ← deref (← schedulerGetCurrent)
  writeWaiting fun k => markWaiting k cur
  appendWaiter w cur
  write fun k => armTimeout k w cur ms
  exitCritical pm
  portTriggerPendsv
  return ((← read).tcb cur).timedOut

/-- `for (;;)` of a queue call, which copies its item when it is `ready` to; `pm` is assigned
again before it goes around. -/
def queueLoop (ready : Kernel → Prop) [DecidablePred ready] (copy : Kernel → Kernel)
    (wakes waits : WaitList) (pm : Bool) (ms : Nat) : KCode Nat := do
  if ready (← read) then
    write copy
    wakeAndReturn wakes pm
  else if _h : ms = 0 then
    exitCritical pm
    return minusOne
  else
    if ← queueWait waits ms pm then return minusOne
    let pm ← enterCritical
    queueLoop ready copy wakes waits pm 0
termination_by ms
decreasing_by omega

def zImplQueuePush (a item ms : Nat) : KCode Nat := do
  let pm ← enterCritical
  queueLoop (fun k => (k.queue a).nextIndex (k.queue a).tail ≠ (k.queue a).head)
    (fun k => copyIn k a item) (.recv a) (.send a) pm ms

def zImplQueuePop (a item ms : Nat) : KCode Nat := do
  let pm ← enterCritical
  queueLoop (fun k => (k.queue a).head ≠ (k.queue a).tail) (fun k => copyOut k a item) (.send a)
    (.recv a) pm ms

/-! ## `task.c` -/

def getFreeTcb : KCode (Option Tid) := do
  let pm ← enterCritical
  match Crest.getFreeTcb (← read) with
  | some (k, t) =>
    write fun _ => k
    exitCritical pm
    return some t
  | none =>
    exitCritical pm
    return none

def freeTcb (t : Option Tid) : KCode Unit := do
  let pm ← enterCritical
  match t with
  | some t => write fun k => Crest.freeTcb k t
  | none => pure ()
  exitCritical pm

def taskCreate (L : Layout) (n : Nat) (args : TaskArgs) : KCode Unit := do
  if args.accepted = false then return
  match ← getFreeTcb with
  | none => return
  | some t =>
    let alloc ← malloc L n (stackAllocSize (nextPowerOfTwo args.stackSize))
    if alloc = 0 then
      freeTcb (some t)
      return
    write fun k => initTcb k t alloc args
    schedulerAddTask t

def taskDelete (L : Layout) (n : Nat) : Option Tid → KCode Unit
  | none => return
  | some t => do
    schedulerRemoveTask t
    let alloc := ((← read).tcb t).stackAlloc
    if alloc ≠ 0 then
      free L n alloc
      write fun k => k.setTcb t fun tcb => { tcb with stackAlloc := 0, stackBase := 0 }
    freeTcb (some t)

def taskYield : KCode Unit := portTriggerPendsv

def zImplTaskDelay (ticks : Nat) : KCode Unit := do
  if ticks = 0 then return
  match ← schedulerGetCurrent with
  | none => return
  | some cur =>
    schedulerSleep cur ticks
    portTriggerPendsv

/-! ## The port, the syscall handler and the worker -/

def mpuConfigureForTask (L : Layout) (t : Option Tid) : KCode Unit := do
  match t with
  | none => return
  | some t =>
    let tcb := (← read).tcb t
    if tcb.stackBase = 0 ∨ tcb.stackSize = 0 then return
    let pm ← enterCritical
    write fun k => { k with
      mpu := portMpuConfigureForTask L k.mpu tcb.stackBase tcb.stackSize }
    exitCritical pm

def kworkPush (item : WorkItem) : KCode Nat := do
  let pm ← enterCritical
  let k ← read
  let next := (k.kworkTail + 1) % kworkQueueSize
  if next = k.kworkHead then
    exitCritical pm
    return minusOne
  write fun k => (Crest.kworkPush k item).1
  exitCritical pm
  return 0

/-- `frame[0]` of the caller is the word `r0`. -/
def svcHandlerC (id a0 a1 a2 a3 : Nat) : KCode Unit := do
  match ← schedulerGetCurrent with
  | none => return
  | some caller =>
    let pm ← enterCritical
    writeWaiting fun k => { k with r0 := a0 }.setTcb caller fun tcb =>
      { tcb with svcBlocked := true, state := .waiting }
    exitCritical pm
    if (← kworkPush ⟨id, a0, a1, a2, a3, caller⟩) ≠ 0 then
      let pm2 ← enterCritical
      write fun k => { k with r0 := minusOne }.setTcb caller fun tcb =>
        { tcb with svcBlocked := false, state := .ready }
      exitCritical pm2
      return
    portTriggerPendsv

/-- `complete`, for a caller that is not NULL. -/
def complete (t : Tid) (result : Nat) : KCode Unit := schedulerWakeTask t result

/-- Look the handle up and go on with the object, or complete with -1. -/
def onObject (caller : Tid) (handle : Nat) (type : KobjType) (f : Nat → KCode Unit) :
    KCode Unit := do
  let p ← kObjGet handle type
  if p = 0 then complete caller minusOne else f p

/-- A handle for a new object, or the invalid one. -/
def publish (p : Nat) (type : KobjType) : KCode Nat :=
  if p ≠ 0 then kObjAlloc p type else return kobjInvalid

def dispatch (L : Layout) (n : Nat) (item : WorkItem) : KCode Unit := do
  let caller := item.caller
  if item.id = syscallDelay then
    write fun k => k.setTcb caller fun tcb => { tcb with savedR0 := 0 }
    rewriteFlags caller fun flags => { flags with svcBlocked := false }
    schedulerSleep caller item.arg0
  else if item.id = syscallQueueSend then
    onObject caller item.arg0 .queue fun q => do
      let r ← zImplQueuePush q item.arg1 0
      complete caller r
  else if item.id = syscallQueueRecv then
    onObject caller item.arg0 .queue fun q => do
      let r ← zImplQueuePop q item.arg1 0
      complete caller r
  else if item.id = syscallSemPost then
    onObject caller item.arg0 .sem fun s => do
      zImplSemGive s
      complete caller 0
  else if item.id = syscallSemWait then
    onObject caller item.arg0 .sem fun s => do
      let r ← zImplSemTryTakeTimeout s caller item.arg1
      if r = 0 then complete caller 0
      else if item.arg1 = 0 then complete caller minusOne
  else if item.id = syscallMutexLock then
    onObject caller item.arg0 .mutex fun m => do
      let r ← zImplMutexTryLockTimeout m caller item.arg1
      if r < 2 ^ 31 then complete caller 0
      else if item.arg1 = 0 then complete caller minusOne
  else if item.id = syscallMutexUnlock then
    onObject caller item.arg0 .mutex fun m => do
      zImplMutexUnlockFor m caller
      complete caller 0
  else if item.id = syscallUartWrite then complete caller 0
  else if item.id = syscallQueueCreate then
    let q ← zImplQueueCreate L n item.arg0 item.arg1
    let h ← publish q .queue
    complete caller h
  else if item.id = syscallSemCreate then
    let s ← zImplSemCreate L n item.arg0
    let h ← publish s .sem
    complete caller h
  else if item.id = syscallMutexCreate then
    let m ← zImplMutexCreate L n
    let h ← publish m .mutex
    complete caller h
  else complete caller minusOne

/-- The inner loop of `kernel_task_fn`, up to an empty ring. -/
def drain (L : Layout) (n : Nat) : Nat → KCode Unit
  | 0 => stuck
  | more + 1 => do
    let pm ← enterCritical
    match kworkPopLocked (← read) with
    | none => exitCritical pm
    | some (k, item) =>
      write fun _ => k
      exitCritical pm
      dispatch L n item
      drain L n more

/-- One round of `kernel_task_fn`. -/
def workerRound (L : Layout) (n : Nat) : KCode Unit := do
  drain L n n
  writeWaiting workerWait
  portTriggerPendsv

/-! ## `syscall_api.c`, called from privileged code -/

/-- Look the handle up; a bad one makes the call return at once. -/
def withHandle (handle : Nat) (type : KobjType) (missing : Nat) (f : Nat → KCode Nat) :
    KCode Nat := do
  let p ← kObjGet handle type
  if p = 0 then return missing else f p

def queueCreate (L : Layout) (n itemSize size : Nat) : KCode Nat := do
  publish (← zImplQueueCreate L n itemSize size) .queue

def semCreate (L : Layout) (n initial : Nat) : KCode Nat := do
  publish (← zImplSemCreate L n initial) .sem

def mutexCreate (L : Layout) (n : Nat) : KCode Nat := do
  publish (← zImplMutexCreate L n) .mutex

def queuePush (handle item ms : Nat) : KCode Nat :=
  withHandle handle .queue minusOne fun q => zImplQueuePush q item ms

def queuePop (handle item ms : Nat) : KCode Nat :=
  withHandle handle .queue minusOne fun q => zImplQueuePop q item ms

def semTake (handle ms : Nat) : KCode Nat :=
  withHandle handle .sem minusOne fun s => zImplSemTakeTimeout s ms

def semGive (handle : Nat) : KCode Nat :=
  withHandle handle .sem 0 fun s => do
    zImplSemGive s
    return 0

def mutexLock (handle ms : Nat) : KCode Nat :=
  withHandle handle .mutex minusOne fun m => zImplMutexLockTimeout m ms

def mutexUnlock (handle : Nat) : KCode Nat :=
  withHandle handle .mutex 0 fun m => do
    zImplMutexUnlock m
    return 0

end Crest.Critical
