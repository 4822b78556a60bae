import CrestRtos.Kernel.Kwork

/-!
# The running system

All tasks of the system on one CPU. Each task has a program counter that names
the next piece of kernel code it runs; a critical section, or a store that only
its own thread can observe, is one step. The task on the CPU steps while no
PendSV is pending, SysTick may come at any time, and the exception handlers run
to their end because the repository leaves all of them at one priority. User
tasks enter the kernel through SVC only, and privileged tasks call it directly.
The log records what has happened, newest first; no step reads it.
-/

namespace Crest
open ByteMemory MachineWord Alloc

/-- Who gets the result of a call: the task's own code, or the worker, which
answers the caller of the item it serves. -/
inductive Ret
  | app
  | serve (caller : Tid)
  deriving DecidableEq, Repr

inductive After
  | ret (r : Ret) (v : Nat)
  | loop
  deriving DecidableEq, Repr

inductive Pc
  /-- The task's own code, and the idle task's endless loop. -/
  | app
  | idle
  /-- Behind the `svc` instruction. -/
  | svcRet
  /-- Before a critical section, and before the second pass of a queue's loop. -/
  | enter (op : Op) (r : Ret)
  | retry (op : Op) (r : Ret)
  /-- On a wait list: before `port_trigger_pendsv`, and behind it. -/
  | block (op : Op) (r : Ret)
  | check (op : Op) (r : Ret)
  /-- In `scheduler_wake_task`: its critical section, and the PendSV request. -/
  | wake (t : Tid) (v : Nat) (after : After)
  | pend (after : After)
  | workerStart
  | workerPop
  | workerSleep
  | dispatch (item : WorkItem)
  | create (c : Creation) (r : Ret)
  | queueBuffer (p : Nat) (r : Ret)
  | queueFree (p : Nat) (r : Ret)
  | publish (p : Nat) (type : KobjType) (r : Ret)
  | spawnTcb (args : TaskArgs)
  | spawnStack (t : Tid) (args : TaskArgs)
  | spawnFree (t : Tid)
  | spawnAdd (t : Tid) (alloc : Nat) (args : TaskArgs)
  deriving DecidableEq, Repr

inductive Event
  /-- `t` is put on `w` with the timeout `ms`. -/
  | block (w : WaitList) (t : Tid) (ms : Nat)
  | handoff (w : WaitList) (t : Tid)
  | expire (w : WaitList) (t : Tid)
  /-- The second pass of a queue's loop. -/
  | recheck (w : WaitList) (t : Tid)
  /-- A direct call of `t` returns. -/
  | result (t : Tid) (v : Nat)
  | semCreated (s : Nat) (count : Int)
  | semGiven (s : Nat)
  | semTaken (s : Nat) (t : Tid)
  | mutexCreated (m : Nat)
  | locked (m : Nat) (t : Tid)
  | relocked (m : Nat) (t : Tid)
  | unlocked (m : Nat) (t : Tid)
  | queueCreated (q : Nat)
  | pushed (q : Nat) (item : List UInt8)
  | popped (q : Nat) (item : List UInt8)
  | foundFull (q : Nat)
  | foundEmpty (q : Nat)
  /-- A syscall: its item posted, taken by the worker, the result written to the
  caller's saved R0, and the caller running again with this R0. -/
  | posted (item : WorkItem)
  | taken (item : WorkItem)
  | answered (t : Tid) (v : Nat)
  | resumed (t : Tid) (v : Nat)
  deriving DecidableEq, Repr

structure Sys where
  k : Kernel
  pc : Tid → Pc
  log : List Event

def Sys.setPc (s : Sys) (t : Tid) (p : Pc) : Sys := { s with pc := Function.update s.pc t p }

def Sys.note (s : Sys) (events : List Event) : Sys := { s with log := events ++ s.log }

/-- The list a blocking call waits on. -/
def Op.waitList : Op → Option WaitList
  | .semTake s _ => some (.sem s)
  | .mutexLock m _ => some (.mutex m)
  | .queuePush q _ _ => some (.send q)
  | .queuePop q _ _ => some (.recv q)
  | _ => none

def WaitList.isQueue : WaitList → Bool
  | .send _ => true
  | .recv _ => true
  | _ => false

/-- `timeout_ms = 0` before the loop of a queue call goes around. -/
def Op.again : Op → Op
  | .queuePush q item _ => .queuePush q item 0
  | .queuePop q item _ => .queuePop q item 0
  | op => op

def takeNote (s : Nat) (t : Tid) (ms : Nat) : Outcome → List Event
  | .ret v => if v = 0 then [.semTaken s t] else []
  | .block => [.block (.sem s) t ms]
  | _ => []

def giveNote (s : Nat) : Outcome → List Event
  | .wake t _ => [.semTaken s t, .handoff (.sem s) t, .semGiven s]
  | _ => [.semGiven s]

def lockNote (k : Kernel) (m : Nat) (t : Tid) (ms : Nat) : Outcome → List Event
  | .ret v =>
    if (k.mutex m).owner = some t then [.relocked m t]
    else if v = 0 then [.locked m t] else []
  | .block => [.block (.mutex m) t ms]
  | _ => []

def unlockNote (m : Nat) (t : Tid) : Outcome → List Event
  | .wake next _ => [.locked m next, .handoff (.mutex m) next, .unlocked m t]
  | .pend _ => [.unlocked m t]
  | _ => []

/-- A pass of a queue call notes `copied`, or that it `found` nothing to copy. -/
def passNote (wakes waits : WaitList) (copied found : Event) (t : Tid) (ms : Nat) :
    Outcome → List Event
  | .ret v => if v = 0 then [copied] else [found]
  | .wake next _ => [.handoff wakes next, copied]
  | .block => [.block waits t ms, found]
  | .pend _ => []

/-- The bytes that a push reads, and those that a pop has delivered. -/
def pushNote (k : Kernel) (q : Nat) (t : Tid) (item ms : Nat) : Outcome → List Event :=
  passNote (.recv q) (.send q) (.pushed q (bytesAt k.ram item (k.queue q).itemSize))
    (.foundFull q) t ms

def popNote (k' : Kernel) (q : Nat) (t : Tid) (item ms : Nat) : Outcome → List Event :=
  passNote (.send q) (.recv q) (.popped q (bytesAt k'.ram item (k'.queue q).itemSize))
    (.foundEmpty q) t ms

/-- What a critical section from `k` to `k'` adds to the log. -/
def Op.note (k k' : Kernel) (cur : Tid) (out : Outcome) : Op → List Event
  | .semTake s ms => takeNote s cur ms out
  | .semTryTake s caller ms => takeNote s caller ms out
  | .semGive s => giveNote s out
  | .mutexLock m ms => lockNote k m cur ms out
  | .mutexTryLock m caller ms => lockNote k m caller ms out
  | .mutexUnlock m => unlockNote m cur out
  | .mutexUnlockFor m owner => unlockNote m owner out
  | .queuePush q item ms => pushNote k q cur item ms out
  | .queuePop q item ms => popNote k' q cur item ms out
  | .delay _ => []

/-- The end of a call of `u` with result `v`. -/
def Sys.finish (s : Sys) (u : Tid) (r : Ret) (v : Nat) : Sys :=
  match r with
  | .app => (s.setPc u .app).note [.result u v]
  | .serve caller => s.setPc u (.wake caller v .loop)

/-- Behind a critical section that ended with `out`. A task that blocked itself
goes on with its PendSV request; the worker leaves a blocked caller alone. -/
def Sys.settle (s : Sys) (u : Tid) (op : Op) (r : Ret) : Outcome → Sys
  | .ret v => s.finish u r v
  | .block => s.setPc u (if op.waitList.isSome then .block op r else .workerPop)
  | .wake t v => s.setPc u (.wake t 0 (.ret r v))
  | .pend v => s.setPc u (.pend (.ret r v))

def Sys.runOp (s : Sys) (u : Tid) (op : Op) (r : Ret) : Sys :=
  let (k', out) := op.enter s.k u
  ({ s with k := k' }.note (op.note s.k k' u out)).settle u op r out

/-- Behind the wait: the TIMED_OUT flag decides. -/
def Sys.checkWait (s : Sys) (u : Tid) (op : Op) (r : Ret) : Sys :=
  match op.waitList with
  | none => s
  | some w =>
    if w.isQueue then
      if (s.k.tcb u).timedOut then s.finish u r minusOne else s.setPc u (.retry op r)
    else if (s.k.tcb u).timedOut then
      { s with k := s.k.setTcb u fun tcb => { tcb with timedOut := false } }.finish u r minusOne
    else s.finish u r 0

def answerNote (k : Kernel) (t : Tid) (v : Nat) : List Event :=
  if (k.tcb t).svcBlocked then [.answered t v] else []

def Sys.proceed (s : Sys) (u : Tid) : After → Sys
  | .ret r v => s.finish u r v
  | .loop => s.setPc u .workerPop

def Creation.note (k : Kernel) (p : Nat) : Creation → List Event
  | .sem _ => [.semCreated p (k.sem p).count]
  | .mutex => [.mutexCreated p]
  | .queue _ _ => [.queueCreated p]

def Sys.dispatch (s : Sys) (u : Tid) (item : WorkItem) : Sys :=
  match decode s.k item with
  | .sleep ticks =>
    ({ s with k := delaySection s.k item.caller ticks }.note
      (answerNote s.k item.caller 0)).setPc u .workerPop
  | .complete v => s.setPc u (.wake item.caller v .loop)
  | .uart _ => s.setPc u (.wake item.caller 0 .loop)
  | .call op => s.setPc u (.enter op (.serve item.caller))
  | .create c => s.setPc u (.create c (.serve item.caller))

def Sys.create (L : Layout) (s : Sys) (u : Tid) (c : Creation) (r : Ret) : Option Sys :=
  (c.alloc L s.k).map fun (k, p) =>
    let s := { s with k := k }
    if p = 0 then s.finish u r kobjInvalid
    else
      let s := s.note (c.note k p)
      match c with
      | .queue _ _ => s.setPc u (.queueBuffer p r)
      | _ => s.setPc u (.publish p c.type r)

/-- One step of the code that `u` is in. -/
def Sys.go (L : Layout) (s : Sys) (u : Tid) : Option Sys :=
  match s.pc u with
  | .app => none
  | .idle => none
  | .svcRet => some ((s.setPc u .app).note [.resumed u s.k.r0])
  | .enter op r => some (s.runOp u op r)
  | .retry op r => some ((s.note (op.waitList.toList.map fun w => .recheck w u)).runOp u op.again r)
  | .block op r => some ({ s with k := portTriggerPendsv s.k }.setPc u (.check op r))
  | .check op r => some (s.checkWait u op r)
  | .wake t v after =>
    some (({ s with k := wakeSection s.k t v }.note (answerNote s.k t v)).setPc u (.pend after))
  | .pend after => some ({ s with k := portTriggerPendsv s.k }.proceed u after)
  | .workerStart => some ({ s with k := { s.k with kernelTcb := some u } }.setPc u .workerPop)
  | .workerPop =>
    match kworkPopLocked s.k with
    | none => some (s.setPc u .workerSleep)
    | some (k, item) => some (({ s with k := k }.note [.taken item]).setPc u (.dispatch item))
  | .workerSleep =>
    some ({ s with k := workerWait s.k }.setPc u (.pend .loop))
  | .dispatch item => some (s.dispatch u item)
  | .create c r => s.create L u c r
  | .queueBuffer p r =>
    (queueInitBuffer L s.k p).map fun (k, ok) =>
      { s with k := k }.setPc u (if ok then .publish p .queue r else .queueFree p r)
  | .queueFree p r =>
    (queueFree L s.k p).map fun k => { s with k := k }.finish u r kobjInvalid
  | .publish p type r =>
    let (k, h) := kObjAlloc s.k p type
    some ({ s with k := k }.finish u r h)
  | .spawnTcb args =>
    match getFreeTcb s.k with
    | none => some (s.finish u .app 0)
    | some (k, t) => some ({ s with k := k }.setPc u (.spawnStack t args))
  | .spawnStack t args =>
    (malloc L s.k.heap (stackAllocSize (nextPowerOfTwo args.stackSize))).map fun (heap, alloc) =>
      { s with k := { s.k with heap := heap } }.setPc u
        (if alloc = 0 then .spawnFree t else .spawnAdd t alloc args)
  | .spawnFree t => some ({ s with k := freeTcb s.k t }.finish u .app 0)
  | .spawnAdd t alloc args =>
    some (({ s with k := schedulerAddTask (initTcb s.k t alloc args) t }.setPc t .app).finish u
      .app 0)

/-- The calls of the kernel API, as `kernel/syscall_api.c` offers them. -/
inductive Call
  | semTake (handle ms : Nat)
  | semGive (handle : Nat)
  | mutexLock (handle ms : Nat)
  | mutexUnlock (handle : Nat)
  | queuePush (handle item ms : Nat)
  | queuePop (handle item ms : Nat)
  | taskDelay (ticks : Nat)
  | taskYield
  | create (c : Creation)
  | taskCreate (args : TaskArgs)
  | setUnprivileged
  deriving DecidableEq, Repr

/-- Look the handle up; a bad one makes the call return at once. -/
def Sys.callObject (s : Sys) (u : Tid) (handle : Nat) (type : KobjType) (f : Nat → Op)
    (missing : Nat) : Sys :=
  match kObjGet s.k handle type with
  | none => s.finish u .app missing
  | some p => s.setPc u (.enter (f p) .app)

/-- A call from privileged code. -/
def Sys.call (s : Sys) (u : Tid) : Call → Sys
  | .semTake h ms => s.callObject u h .sem (fun p => .semTake p ms) minusOne
  | .semGive h => s.callObject u h .sem .semGive 0
  | .mutexLock h ms => s.callObject u h .mutex (fun p => .mutexLock p ms) minusOne
  | .mutexUnlock h => s.callObject u h .mutex .mutexUnlock 0
  | .queuePush h item ms => s.callObject u h .queue (fun p => .queuePush p item ms) minusOne
  | .queuePop h item ms => s.callObject u h .queue (fun p => .queuePop p item ms) minusOne
  | .taskDelay ticks => s.setPc u (.enter (.delay ticks) .app)
  | .taskYield => s.setPc u (.pend (.ret .app 0))
  | .create c => s.setPc u (.create c .app)
  | .taskCreate args =>
    if args.accepted then s.setPc u (.spawnTcb args) else s.finish u .app 0
  | .setUnprivileged =>
    { s with k := { s.k.setTcb u (fun tcb => { tcb with user := true }) with nPriv := true } }

inductive Label
  | tick
  | pendSV (oldSp : Nat)
  /-- The task on the CPU: an `svc` with its registers, a direct call, some
  steps of its own code, or one step of the kernel code it is in. -/
  | svc (id arg0 arg1 arg2 arg3 : Nat)
  | call (c : Call)
  | compute (r0 : Nat) (ram : Memory)
  | go

/-- The wait list that the next `sync_tick_all` takes `t` from. -/
def expires (k : Kernel) (t : Tid) : Option WaitList :=
  if (k.tcb t).state = .waiting ∧ (k.tcb t).delayTicks = 1 then (k.tcb t).blockingWaitList
  else none

def Sys.syncTickTask (s : Sys) (t : Tid) : Sys :=
  { s with k := Crest.syncTickTask s.k t }.note
    (match expires s.k t with
      | none => []
      | some w => answerNote s.k t minusOne ++ [Event.expire w t])

/-- `SysTick_Handler`, with the timeouts noted. -/
def Sys.sysTick (s : Sys) : Sys :=
  let k := { s.k with tickCount := wrap (s.k.tickCount + 1) }
  let k := walkAll Kernel.taskList Kernel.next tickDelay k
  let s := walkAll (fun s : Sys => s.k.taskList) (fun s => s.k.next) Sys.syncTickTask
    { s with k := k }
  if s.k.tickCount % preemptTickInterval = 0 then { s with k := portTriggerPendsv s.k } else s

def Sys.thread (L : Layout) (s : Sys) (u : Tid) : Label → Option Sys
  | .svc id a0 a1 a2 a3 =>
    if s.pc u = .app ∧ s.k.nPriv = true then
      let item : WorkItem := ⟨id, a0, a1, a2, a3, u⟩
      some (({ s with k := svcHandler s.k item }.setPc u .svcRet).note [.posted item])
    else none
  | .call c => if s.pc u = .app ∧ s.k.nPriv = false then some (s.call u c) else none
  | .compute r0 ram =>
    if s.pc u = .app then some { s with k := { s.k with r0 := r0, ram := ram } } else none
  | .go => s.go L u
  | _ => none

def Sys.step (L : Layout) (s : Sys) : Label → Option Sys
  | .tick => some s.sysTick
  | .pendSV oldSp =>
    if s.k.pendsv then (portSwitchContext L s.k oldSp).map fun k => { s with k := k } else none
  | l =>
    if s.k.pendsv then none
    else
      match s.k.currentTask with
      | none => none
      | some u => s.thread L u l

end Crest
