import CrestRtos.Kernel.Scheduler

/-!
# Semaphores, mutexes and queues

Each definition is one critical section: the part of a kernel function between
`enter_critical` and the matching `exit_critical`. `Outcome` says what the
function does after it. Functions without a result return 0. The direct and the
worker's variant of a take or a lock differ in whether the section itself marks
the blocked task as waiting.
-/

namespace Crest
open ByteMemory MachineWord IntrusiveList

inductive Outcome
  /-- Return the value. -/
  | ret (v : Nat)
  /-- The task was put on a wait list. -/
  | block
  /-- Call `scheduler_wake_task(t, 0)`, then return the value. -/
  | wake (t : Tid) (v : Nat)
  /-- Call `port_trigger_pendsv()`, then return the value. -/
  | pend (v : Nat)
  deriving DecidableEq, Repr

def markWaiting (k : Kernel) (t : Tid) : Kernel :=
  k.setTcb t fun tcb => { tcb with timedOut := false, state := .waiting }

/-- The timeout fields of a task that was put on `w`. -/
def armTimeout (k : Kernel) (w : WaitList) (t : Tid) (ms : Nat) : Kernel :=
  k.setTcb t fun tcb =>
    if ms ≠ waitForever then { tcb with delayTicks := ms, blockingWaitList := some w }
    else { tcb with delayTicks := 0, blockingWaitList := none }

/-- Put `t` in front of the list. -/
def pushWaiter (k : Kernel) (w : WaitList) (t : Tid) : Kernel :=
  let k := k.setTcb t fun tcb => { tcb with waitNext := k.head w }
  k.setHead w (some t)

/-- Put `t` behind the last task of the list, which has an end. -/
def appendWaiter (k : Kernel) (w : WaitList) (t : Tid) : Kernel :=
  let k := k.setTcb t fun tcb => { tcb with waitNext := none }
  match k.head w with
  | none => k.setHead w (some t)
  | some first =>
    k.setTcb (lastFrom k.waitNext maxTasks first) fun tcb => { tcb with waitNext := some t }

/-- Unlink the first task `t` of the list and clear its wait fields. -/
def popWaiter (k : Kernel) (w : WaitList) (t : Tid) : Kernel :=
  let k := k.setHead w (k.waitNext t)
  k.setTcb t fun tcb =>
    { tcb with waitNext := none, delayTicks := 0, blockingWaitList := none }

/-- A `C` int is 32 bits wide; an increment past the top wraps. -/
def toInt32 (x : Int) : Int := (x + 2 ^ 31) % 2 ^ 32 - 2 ^ 31

def takeSection (direct : Bool) (k : Kernel) (s : Nat) (t : Tid) (ms : Nat) : Kernel × Outcome :=
  if 0 < (k.sem s).count then
    (k.setSem s { k.sem s with count := (k.sem s).count - 1 }, .ret 0)
  else if ms = 0 then (k, .ret minusOne)
  else
    let k := if direct then markWaiting k t else k
    (armTimeout (pushWaiter k (.sem s) t) (.sem s) t ms, .block)

def zImplSemTakeTimeout (k : Kernel) (s : Nat) (cur : Tid) (ms : Nat) : Kernel × Outcome :=
  takeSection true k s cur ms

def zImplSemTryTakeTimeout (k : Kernel) (s : Nat) (caller : Tid) (ms : Nat) : Kernel × Outcome :=
  takeSection false k s caller ms

def zImplSemGive (k : Kernel) (s : Nat) : Kernel × Outcome :=
  match (k.sem s).waitList with
  | some waiter => (popWaiter k (.sem s) waiter, .wake waiter 0)
  | none => (k.setSem s { k.sem s with count := toInt32 ((k.sem s).count + 1) }, .ret 0)

def lockSection (direct : Bool) (k : Kernel) (m : Nat) (t : Tid) (ms : Nat) : Kernel × Outcome :=
  if (k.mutex m).owner = some t then (k, .ret 0)
  else if (k.mutex m).owner = none then
    (k.setMutex m { k.mutex m with owner := some t }, .ret 0)
  else if ms = 0 then (k, .ret minusOne)
  else
    let k := if direct then markWaiting k t else k
    (armTimeout (pushWaiter k (.mutex m) t) (.mutex m) t ms, .block)

def zImplMutexLockTimeout (k : Kernel) (m : Nat) (cur : Tid) (ms : Nat) : Kernel × Outcome :=
  lockSection true k m cur ms

def zImplMutexTryLockTimeout (k : Kernel) (m : Nat) (caller : Tid) (ms : Nat) : Kernel × Outcome :=
  lockSection false k m caller ms

def unlockSection (k : Kernel) (m : Nat) (t : Tid) : Kernel × Outcome :=
  if (k.mutex m).owner ≠ some t then (k, .ret 0)
  else
    match (k.mutex m).waitList with
    | some waiter =>
      let k := popWaiter k (.mutex m) waiter
      (k.setMutex m { k.mutex m with owner := some waiter }, .wake waiter 0)
    | none => (k.setMutex m { k.mutex m with owner := none }, .pend 0)

def zImplMutexUnlock (k : Kernel) (m : Nat) (cur : Tid) : Kernel × Outcome :=
  unlockSection k m cur

def zImplMutexUnlockFor (k : Kernel) (m : Nat) (owner : Tid) : Kernel × Outcome :=
  unlockSection k m owner

/-- The offset of a slot in the buffer, in 32-bit arithmetic. -/
def Queue.offset (q : Queue) (i : Nat) : Nat := wrap (i * q.itemSize)

def Queue.nextIndex (q : Queue) (i : Nat) : Nat := wrap (i + 1) % q.slots

/-- After a copy: hand a wake-up to the first task of `w`, if there is one. -/
def wakeFirst (k : Kernel) (w : WaitList) : Kernel × Outcome :=
  match k.head w with
  | some toWake => (popWaiter k w toWake, .wake toWake 0)
  | none => (k, .ret 0)

/-- The blocking part of a push or a pop. -/
def queueBlock (k : Kernel) (w : WaitList) (cur : Tid) (ms : Nat) : Kernel × Outcome :=
  (armTimeout (appendWaiter (markWaiting k cur) w cur) w cur ms, .block)

/-- The item is copied in, and `tail` moves on. -/
def copyIn (k : Kernel) (a item : Nat) : Kernel :=
  let q := k.queue a
  let bytes := copyBytes q.bytes (q.offset q.tail) k.ram item q.itemSize
  k.setQueue a { q with bytes := bytes, tail := q.nextIndex q.tail }

/-- The item is copied out, and `head` moves on. -/
def copyOut (k : Kernel) (a item : Nat) : Kernel :=
  let q := k.queue a
  let ram := copyBytes k.ram item q.bytes (q.offset q.head) q.itemSize
  { k with ram := ram }.setQueue a { q with head := q.nextIndex q.head }

/-- One pass of the loop of a queue call. -/
def queuePass (ready : Kernel → Prop) [DecidablePred ready] (copy : Kernel → Kernel)
    (wakes waits : WaitList) (k : Kernel) (cur : Tid) (ms : Nat) : Kernel × Outcome :=
  if ready k then wakeFirst (copy k) wakes
  else if ms = 0 then (k, .ret minusOne)
  else queueBlock k waits cur ms

/-- One pass of the loop of `z_impl_queue_push`. -/
def zImplQueuePush (k : Kernel) (a : Nat) (cur : Tid) (item ms : Nat) : Kernel × Outcome :=
  let q := k.queue a
  if q.nextIndex q.tail ≠ q.head then
    let bytes := copyBytes q.bytes (q.offset q.tail) k.ram item q.itemSize
    wakeFirst (k.setQueue a { q with bytes := bytes, tail := q.nextIndex q.tail }) (.recv a)
  else if ms = 0 then (k, .ret minusOne)
  else queueBlock k (.send a) cur ms

/-- One pass of the loop of `z_impl_queue_pop`. -/
def zImplQueuePop (k : Kernel) (a : Nat) (cur : Tid) (item ms : Nat) : Kernel × Outcome :=
  let q := k.queue a
  if q.head ≠ q.tail then
    let ram := copyBytes k.ram item q.bytes (q.offset q.head) q.itemSize
    wakeFirst ({ k with ram := ram }.setQueue a { q with head := q.nextIndex q.head }) (.send a)
  else if ms = 0 then (k, .ret minusOne)
  else queueBlock k (.recv a) cur ms

theorem zImplQueuePush_pass (k : Kernel) (a : Nat) (cur : Tid) (item ms : Nat) :
    zImplQueuePush k a cur item ms =
      queuePass (fun k => (k.queue a).nextIndex (k.queue a).tail ≠ (k.queue a).head)
        (fun k => copyIn k a item) (.recv a) (.send a) k cur ms := rfl

theorem zImplQueuePop_pass (k : Kernel) (a : Nat) (cur : Tid) (item ms : Nat) :
    zImplQueuePop k a cur item ms =
      queuePass (fun k => (k.queue a).head ≠ (k.queue a).tail) (fun k => copyOut k a item)
        (.send a) (.recv a) k cur ms := rfl

end Crest
