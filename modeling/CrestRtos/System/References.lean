import CrestRtos.System.Clock
import CrestRtos.Kernel.Removal

/-!
# References to a control block

`k.Omits t` says that no pointer of the kernel leads to the control block of `t`.
Kernel code gets at control blocks through such pointers alone, so it never comes to
one that is omitted: neither does it write there, nor does a new pointer to it arise.
-/

namespace Crest
open IntrusiveList MachineWord Alloc

structure Kernel.Omits (k : Kernel) (t : Tid) : Prop where
  taskList : ∀ pr, k.taskList pr ≠ some t
  next : ∀ x, k.next x ≠ some t
  cursor : ∀ pr, k.rrCurrent pr ≠ some t
  current : k.currentTask ≠ some t
  head : ∀ w, k.head w ≠ some t
  waitNext : ∀ x, k.waitNext x ≠ some t
  owner : ∀ m, (k.mutex m).owner ≠ some t
  ring : ∀ item ∈ k.kwork, item.caller ≠ t
  kernel : k.kernelTcb ≠ some t

/-- Besides, the control block has the contents `b`, and the ring its bounds. -/
structure Kernel.Rid (k : Kernel) (t : Tid) (b : Tcb) : Prop where
  omits : k.Omits t
  block : k.tcb t = b
  bounds : k.kworkHead < kworkQueueSize ∧ k.kworkTail < kworkQueueSize

/-- What `Rid` speaks about. -/
def Kernel.pointers (k : Kernel) :=
  ((k.tcb, k.taskList, k.rrCurrent, k.currentTask), (k.sem, k.mutex, k.queue), k.ring, k.kernelTcb)

section Stores
variable {k k' : Kernel} {t x : Tid} {b : Tcb} {w : WaitList}

/-- Everything else may change. -/
theorem Kernel.Rid.aside (h : k.Rid t b) (hsame : k'.pointers = k.pointers) : k'.Rid t b := by
  simp only [Kernel.pointers, Kernel.ring, Prod.mk.injEq] at hsame
  obtain ⟨⟨htcb, hlist, hcursor, hcurrent⟩, ⟨hsem, hmutex, hqueue⟩, hring, hkernel⟩ := hsame
  obtain ⟨hbuf, hhead, htail⟩ := hring
  have hnext : k'.next = k.next := by
    funext x
    rw [Kernel.next, Kernel.next, htcb]
  have hwait : k'.waitNext = k.waitNext := by
    funext x
    rw [Kernel.waitNext, Kernel.waitNext, htcb]
  have hheads : ∀ w, k'.head w = k.head w := by
    intro w
    cases w <;> simp only [Kernel.head, hsem, hmutex, hqueue]
  have hring : k'.kwork = k.kwork := by rw [Kernel.kwork, Kernel.kwork, hbuf, hhead, htail]
  refine ⟨⟨?_, ?_, ?_, ?_, fun w => ?_, ?_, ?_, ?_, ?_⟩, ?_, ?_⟩
  · rw [hlist]
    exact h.omits.taskList
  · rw [hnext]
    exact h.omits.next
  · rw [hcursor]
    exact h.omits.cursor
  · rw [hcurrent]
    exact h.omits.current
  · rw [hheads]
    exact h.omits.head w
  · rw [hwait]
    exact h.omits.waitNext
  · rw [hmutex]
    exact h.omits.owner
  · rw [hring]
    exact h.omits.ring
  · rw [hkernel]
    exact h.omits.kernel
  · rw [htcb]
    exact h.block
  · rw [hhead, htail]
    exact h.bounds

/-- A store into another control block that stores no pointer to `t`. -/
theorem Kernel.Rid.setTcb {f : Tcb → Tcb} (h : k.Rid t b) (hx : x ≠ t)
    (hnext : (f (k.tcb x)).next ≠ some t) (hwait : (f (k.tcb x)).waitNext ≠ some t) :
    (k.setTcb x f).Rid t b := by
  refine ⟨⟨h.omits.taskList, fun y => ?_, h.omits.cursor, h.omits.current, fun w => ?_, fun y => ?_,
    h.omits.owner, h.omits.ring, h.omits.kernel⟩, ?_, h.bounds⟩
  · by_cases hy : y = x
    · subst hy
      rw [Kernel.next, setTcb_tcb_same]
      exact hnext
    · rw [Kernel.next, setTcb_tcb_of_ne k f hy]
      exact h.omits.next y
  · rw [setTcb_head]
    exact h.omits.head w
  · by_cases hy : y = x
    · subst hy
      rw [Kernel.waitNext, setTcb_tcb_same]
      exact hwait
    · rw [Kernel.waitNext, setTcb_tcb_of_ne k f hy]
      exact h.omits.waitNext y
  · rw [setTcb_tcb_of_ne k f hx.symm]
    exact h.block

/-- A store that leaves both links alone. -/
theorem Kernel.Rid.touch {f : Tcb → Tcb} (h : k.Rid t b) (hx : x ≠ t)
    (hf : ∀ tcb, (f tcb).next = tcb.next ∧ (f tcb).waitNext = tcb.waitNext) :
    (k.setTcb x f).Rid t b := by
  refine h.setTcb hx ?_ ?_
  · rw [(hf _).1]
    exact h.omits.next x
  · rw [(hf _).2]
    exact h.omits.waitNext x

theorem Kernel.Rid.relink (h : k.Rid t b) (hx : x ≠ t) {v : Option Tid} (hv : v ≠ some t) :
    (k.setTcb x fun tcb => { tcb with waitNext := v }).Rid t b :=
  h.setTcb hx (h.omits.next x) hv

theorem Kernel.Rid.setSem (h : k.Rid t b) (a : Nat) {s : Semaphore} (hs : s.waitList ≠ some t) :
    (k.setSem a s).Rid t b := by
  refine ⟨⟨h.omits.taskList, h.omits.next, h.omits.cursor, h.omits.current, fun w => ?_,
    h.omits.waitNext, h.omits.owner, h.omits.ring, h.omits.kernel⟩, h.block, h.bounds⟩
  cases w with
  | sem c =>
    by_cases hc : c = a
    · subst hc
      simpa [Kernel.head, Kernel.setSem] using hs
    · simpa [Kernel.head, Kernel.setSem, hc] using h.omits.head (.sem c)
  | mutex c => exact h.omits.head (.mutex c)
  | send c => exact h.omits.head (.send c)
  | recv c => exact h.omits.head (.recv c)

theorem Kernel.Rid.setMutex (h : k.Rid t b) (a : Nat) {m : Mutex} (howner : m.owner ≠ some t)
    (hm : m.waitList ≠ some t) : (k.setMutex a m).Rid t b := by
  refine ⟨⟨h.omits.taskList, h.omits.next, h.omits.cursor, h.omits.current, fun w => ?_,
    h.omits.waitNext, fun c => ?_, h.omits.ring, h.omits.kernel⟩, h.block, h.bounds⟩
  · cases w with
    | mutex c =>
      by_cases hc : c = a
      · subst hc
        simpa [Kernel.head, Kernel.setMutex] using hm
      · simpa [Kernel.head, Kernel.setMutex, hc] using h.omits.head (.mutex c)
    | sem c => exact h.omits.head (.sem c)
    | send c => exact h.omits.head (.send c)
    | recv c => exact h.omits.head (.recv c)
  · by_cases hc : c = a
    · subst hc
      simpa [Kernel.setMutex] using howner
    · simpa [Kernel.setMutex, hc] using h.omits.owner c

theorem Kernel.Rid.setQueue (h : k.Rid t b) (a : Nat) {q : Queue} (hsend : q.sendWait ≠ some t)
    (hrecv : q.recvWait ≠ some t) : (k.setQueue a q).Rid t b := by
  refine ⟨⟨h.omits.taskList, h.omits.next, h.omits.cursor, h.omits.current, fun w => ?_,
    h.omits.waitNext, h.omits.owner, h.omits.ring, h.omits.kernel⟩, h.block, h.bounds⟩
  cases w with
  | sem c => exact h.omits.head (.sem c)
  | mutex c => exact h.omits.head (.mutex c)
  | send c =>
    by_cases hc : c = a
    · subst hc
      simpa [Kernel.head, Kernel.setQueue] using hsend
    · simpa [Kernel.head, Kernel.setQueue, hc] using h.omits.head (.send c)
  | recv c =>
    by_cases hc : c = a
    · subst hc
      simpa [Kernel.head, Kernel.setQueue] using hrecv
    · simpa [Kernel.head, Kernel.setQueue, hc] using h.omits.head (.recv c)

theorem Kernel.Rid.setHead (h : k.Rid t b) (w : WaitList) {v : Option Tid} (hv : v ≠ some t) :
    (k.setHead w v).Rid t b := by
  cases w with
  | sem a => exact h.setSem a hv
  | mutex a => exact h.setMutex a (h.omits.owner a) hv
  | send a => exact h.setQueue a hv (h.omits.head (.recv a))
  | recv a => exact h.setQueue a (h.omits.head (.send a)) hv

end Stores

section Loops
variable {t x : Tid} {next : Tid → Option Tid}

theorem lastFrom_ne (hnext : ∀ x, next x ≠ some t) (n : Nat) (hx : x ≠ t) :
    lastFrom next n x ≠ t := by
  induction n generalizing x with
  | zero => exact hx
  | succ n ih =>
    rw [lastFrom]
    cases hy : next x with
    | none => exact hx
    | some y =>
      refine ih ?_
      rintro rfl
      exact hnext x hy

/-- The node before the one that was looked for. -/
theorem searchFrom_prev_ne (hnext : ∀ x, next x ≠ some t) (u : Tid) (n : Nat)
    {cur prev : Option Tid} (hcur : cur ≠ some t) (hprev : prev ≠ some t) :
    (searchFrom next u n cur prev).2 ≠ some t := by
  induction n generalizing cur prev with
  | zero => exact hprev
  | succ n ih =>
    cases cur with
    | none => exact hprev
    | some c =>
      rw [searchFrom]
      by_cases hc : c = u
      · simp only [if_pos hc]
        exact hprev
      · simp only [if_neg hc]
        exact ih (hnext c) hcur

end Loops

section Sections
variable {L : Layout} {k k' : Kernel} {t u x : Tid} {b : Tcb}

theorem Kernel.Rid.wake (h : k.Rid t b) (hx : x ≠ t) (v : Nat) : (wakeSection k x v).Rid t b :=
  h.touch hx fun _ => ⟨rfl, rfl⟩

theorem Kernel.Rid.arm (h : k.Rid t b) (w : WaitList) (hx : x ≠ t) (ms : Nat) :
    (armTimeout k w x ms).Rid t b := by
  refine h.touch hx fun tcb => ?_
  split <;> exact ⟨rfl, rfl⟩

theorem Kernel.Rid.push (h : k.Rid t b) (w : WaitList) (hx : x ≠ t) :
    (pushWaiter k w x).Rid t b :=
  (h.relink hx (h.omits.head w)).setHead w fun heq => hx (Option.some.inj heq)

theorem Kernel.Rid.append (h : k.Rid t b) (w : WaitList) (hx : x ≠ t) :
    (appendWaiter k w x).Rid t b := by
  have hfirst := h.relink hx (v := none) (by simp)
  have hsome : some x ≠ some t := fun heq => hx (Option.some.inj heq)
  rw [appendWaiter]
  split
  · exact hfirst.setHead w hsome
  · rename_i first hhead
    refine hfirst.relink (lastFrom_ne hfirst.omits.waitNext _ ?_) hsome
    rintro rfl
    exact hfirst.omits.head w hhead

theorem Kernel.Rid.pop (h : k.Rid t b) (w : WaitList) (hx : x ≠ t) : (popWaiter k w x).Rid t b := by
  have hhead := h.setHead w (h.omits.waitNext x)
  rw [popWaiter]
  refine hhead.setTcb hx ?_ ?_
  · exact hhead.omits.next x
  · simp

theorem Kernel.Rid.unlink (h : k.Rid t b) (w : WaitList) (hx : x ≠ t) :
    (unlinkWaiter k w x).Rid t b := by
  have hprev := searchFrom_prev_ne h.omits.waitNext x maxTasks (h.omits.head w)
    (show (none : Option Tid) ≠ some t by simp)
  rw [unlinkWaiter]
  generalize searchFrom k.waitNext x maxTasks (k.head w) none = found at hprev
  obtain ⟨cur, prev⟩ := found
  by_cases hcur : cur = some x
  · simp only [if_pos hcur]
    cases prev with
    | none => exact (h.setHead w (h.omits.waitNext x)).relink hx (by simp)
    | some p =>
      have hp : p ≠ t := by
        rintro rfl
        exact hprev rfl
      exact (h.relink hp (h.omits.waitNext x)).relink hx (by simp)
  · simp only [if_neg hcur]
    exact h

/-- A section keeps `Rid`, and whomever it wants to be woken is not `t`. -/
structure Rids (t : Tid) (b : Tcb) (done : Kernel × Outcome) : Prop where
  kernel : done.1.Rid t b
  wakes : ∀ x v, done.2 = .wake x v → x ≠ t

theorem Kernel.Rid.returns (h : k.Rid t b) (v : Nat) : Rids t b (k, .ret v) :=
  ⟨h, fun _ _ heq => by cases heq⟩

theorem Kernel.Rid.pends (h : k.Rid t b) (v : Nat) : Rids t b (k, .pend v) :=
  ⟨h, fun _ _ heq => by cases heq⟩

theorem Kernel.Rid.blocks (h : k.Rid t b) : Rids t b (k, .block) :=
  ⟨h, fun _ _ heq => by cases heq⟩

theorem Kernel.Rid.hands (h : k.Rid t b) (hx : x ≠ t) (v : Nat) : Rids t b (k, .wake x v) := by
  refine ⟨h, fun y n heq => ?_⟩
  obtain ⟨rfl, _⟩ := Outcome.wake.inj heq
  exact hx

theorem Kernel.Rid.mark (h : k.Rid t b) (hx : x ≠ t) : (markWaiting k x).Rid t b :=
  h.touch hx fun _ => ⟨rfl, rfl⟩

theorem Kernel.Rid.park (h : k.Rid t b) (direct : Bool) (w : WaitList) (hx : x ≠ t) (ms : Nat) :
    (armTimeout (pushWaiter (if direct then markWaiting k x else k) w x) w x ms).Rid t b := by
  cases direct with
  | true => exact ((h.mark hx).push w hx).arm w hx ms
  | false => exact (h.push w hx).arm w hx ms

theorem Kernel.Rid.take (h : k.Rid t b) (direct : Bool) (s : Nat) (hx : x ≠ t) (ms : Nat) :
    Rids t b (takeSection direct k s x ms) := by
  rw [takeSection]
  by_cases hcount : 0 < (k.sem s).count
  · rw [if_pos hcount]
    refine Kernel.Rid.returns (h.setSem s ?_) 0
    exact h.omits.head (.sem s)
  by_cases hms : ms = 0
  · rw [if_neg hcount, if_pos hms]
    exact h.returns minusOne
  · rw [if_neg hcount, if_neg hms]
    exact (h.park direct (.sem s) hx ms).blocks

theorem Kernel.Rid.give (h : k.Rid t b) (s : Nat) : Rids t b (zImplSemGive k s) := by
  rw [zImplSemGive]
  cases hlist : (k.sem s).waitList with
  | some waiter =>
    have hne : waiter ≠ t := by
      rintro rfl
      exact h.omits.head (.sem s) hlist
    exact (h.pop (.sem s) hne).hands hne 0
  | none =>
    have hnone : ({ k.sem s with count := toInt32 ((k.sem s).count + 1) } : Semaphore).waitList ≠
        some t := h.omits.head (.sem s)
    exact (h.setSem s hnone).returns 0

theorem Kernel.Rid.lock (h : k.Rid t b) (direct : Bool) (m : Nat) (hx : x ≠ t) (ms : Nat) :
    Rids t b (lockSection direct k m x ms) := by
  rw [lockSection]
  by_cases hagain : (k.mutex m).owner = some x
  · rw [if_pos hagain]
    exact h.returns 0
  by_cases hfree : (k.mutex m).owner = none
  · rw [if_neg hagain, if_pos hfree]
    refine Kernel.Rid.returns (h.setMutex m ?_ ?_) 0
    · exact fun heq => hx (Option.some.inj heq)
    · exact h.omits.head (.mutex m)
  by_cases hms : ms = 0
  · rw [if_neg hagain, if_neg hfree, if_pos hms]
    exact h.returns minusOne
  · rw [if_neg hagain, if_neg hfree, if_neg hms]
    exact (h.park direct (.mutex m) hx ms).blocks

theorem Kernel.Rid.unlock (h : k.Rid t b) (m : Nat) (u : Tid) :
    Rids t b (unlockSection k m u) := by
  rw [unlockSection]
  by_cases howner : (k.mutex m).owner ≠ some u
  · rw [if_pos howner]
    exact h.returns 0
  rw [if_neg howner]
  cases hlist : (k.mutex m).waitList with
  | some waiter =>
    have hne : waiter ≠ t := by
      rintro rfl
      exact h.omits.head (.mutex m) hlist
    have hpop := h.pop (.mutex m) hne
    refine Kernel.Rid.hands (hpop.setMutex m ?_ ?_) hne 0
    · exact fun heq => hne (Option.some.inj heq)
    · exact hpop.omits.head (.mutex m)
  | none =>
    refine Kernel.Rid.pends (h.setMutex m ?_ ?_) 0
    · simp
    · exact h.omits.head (.mutex m)

theorem Kernel.Rid.wakeFirst (h : k.Rid t b) (w : WaitList) : Rids t b (wakeFirst k w) := by
  rw [Crest.wakeFirst]
  cases hhead : k.head w with
  | some x =>
    have hne : x ≠ t := by
      rintro rfl
      exact h.omits.head w hhead
    exact (h.pop w hne).hands hne 0
  | none => exact h.returns 0

theorem Kernel.Rid.queueBlock (h : k.Rid t b) (w : WaitList) (hx : x ≠ t) (ms : Nat) :
    Rids t b (queueBlock k w x ms) :=
  (((h.mark hx).append w hx).arm w hx ms).blocks

theorem Kernel.Rid.queuePush (h : k.Rid t b) (a : Nat) (hx : x ≠ t) (item ms : Nat) :
    Rids t b (zImplQueuePush k a x item ms) := by
  rw [zImplQueuePush]
  by_cases hroom : (k.queue a).nextIndex (k.queue a).tail ≠ (k.queue a).head
  · simp only [if_pos hroom]
    refine Kernel.Rid.wakeFirst (h.setQueue a ?_ ?_) _
    · exact h.omits.head (.send a)
    · exact h.omits.head (.recv a)
  by_cases hms : ms = 0
  · simp only [if_neg hroom, if_pos hms]
    exact h.returns minusOne
  · simp only [if_neg hroom, if_neg hms]
    exact h.queueBlock _ hx ms

theorem Kernel.Rid.queuePop (h : k.Rid t b) (a : Nat) (hx : x ≠ t) (item ms : Nat) :
    Rids t b (zImplQueuePop k a x item ms) := by
  rw [zImplQueuePop]
  by_cases hitem : (k.queue a).head ≠ (k.queue a).tail
  · simp only [if_pos hitem]
    have hram : ∀ ram, ({ k with ram := ram } : Kernel).Rid t b := fun _ => h.aside rfl
    refine Kernel.Rid.wakeFirst ((hram _).setQueue a ?_ ?_) _
    · exact h.omits.head (.send a)
    · exact h.omits.head (.recv a)
  by_cases hms : ms = 0
  · simp only [if_neg hitem, if_pos hms]
    exact h.returns minusOne
  · simp only [if_neg hitem, if_neg hms]
    exact h.queueBlock _ hx ms

/-- The tasks that a call names besides the current one. -/
def Op.names : Op → List Tid
  | .semTryTake _ caller _ => [caller]
  | .mutexTryLock _ caller _ => [caller]
  | .mutexUnlockFor _ owner => [owner]
  | _ => []

/-- A critical section of a call by another task for another task. -/
theorem Kernel.Rid.enter (h : k.Rid t b) {op : Op} (hu : u ≠ t) (hop : t ∉ op.names) :
    Rids t b (op.enter k u) := by
  cases op with
  | semTake s ms => exact h.take true s hu ms
  | semTryTake s caller ms => exact h.take false s (fun heq => hop (by simp [Op.names, heq])) ms
  | semGive s => exact h.give s
  | mutexLock m ms => exact h.lock true m hu ms
  | mutexTryLock m caller ms =>
    exact h.lock false m (fun heq => hop (by simp [Op.names, heq])) ms
  | mutexUnlock m => exact h.unlock m u
  | mutexUnlockFor m owner => exact h.unlock m owner
  | queuePush q item ms => exact h.queuePush q hu item ms
  | queuePop q item ms => exact h.queuePop q hu item ms
  | delay ticks =>
    rw [Op.enter, zImplTaskDelay]
    by_cases hzero : ticks = 0
    · rw [if_pos hzero]
      exact h.returns 0
    · rw [if_neg hzero]
      exact (h.touch (f := fun tcb => { tcb with delayTicks := ticks, state := .waiting }) hu
        fun _ => ⟨rfl, rfl⟩).pends 0

end Sections

section Ticks
variable {k : Kernel} {t x : Tid} {b : Tcb}

theorem Kernel.Rid.tickDelay (h : k.Rid t b) (hx : x ≠ t) : (tickDelay k x).Rid t b := by
  rw [Crest.tickDelay]
  split
  · exact h.touch hx fun _ => ⟨rfl, rfl⟩
  · exact h

theorem Kernel.Rid.syncTickTask (h : k.Rid t b) (hx : x ≠ t) : (syncTickTask k x).Rid t b := by
  have hwaited := h.touch (f := Tcb.waited) hx fun _ => ⟨rfl, rfl⟩
  have hvisit := syncTickTask_visit k x
  generalize Crest.syncTickTask k x = k' at hvisit ⊢
  cases hvisit with
  | passes _ => exact h
  | counts _ _ _ => exact hwaited
  | @expires w _ _ _ =>
    have hflag := (hwaited.unlink w hx).touch
      (f := fun tcb => { tcb with blockingWaitList := none, timedOut := true }) hx
      fun _ => ⟨rfl, rfl⟩
    exact (hflag.wake hx minusOne).aside rfl

/-- A loop over the run lists visits other tasks only. -/
theorem Kernel.Rid.walkAll {f : Kernel → Tid → Kernel}
    (hf : ∀ k x, k.Rid t b → x ≠ t → (f k x).Rid t b) (h : k.Rid t b) :
    (Crest.walkAll Kernel.taskList Kernel.next f k).Rid t b := by
  have hwalk : ∀ (n : Nat) (head : Option Tid) (k : Kernel), head ≠ some t → k.Rid t b →
      (walk Kernel.next f n head k).Rid t b := by
    intro n
    induction n with
    | zero => exact fun _ _ _ h => h
    | succ n ih =>
      intro head k hhead h
      cases head with
      | none => exact h
      | some x =>
        have hstep := hf k x h fun heq => hhead (congrArg some heq)
        exact ih _ _ (hstep.omits.next x) hstep
  rw [Crest.walkAll]
  generalize List.range maxTaskPriorities = prs
  induction prs generalizing k with
  | nil => exact h
  | cons pr prs ih => exact ih (hwalk maxTasks _ k (h.omits.taskList pr) h)

theorem Kernel.Rid.tick (h : k.Rid t b) : (sysTickHandler k).Rid t b := by
  have hclock : ({ k with tickCount := wrap (k.tickCount + 1) } : Kernel).Rid t b := h.aside rfl
  have hfirst := hclock.walkAll fun _ _ h hx => h.tickDelay hx
  have hsecond := hfirst.walkAll fun _ _ h hx => h.syncTickTask hx
  have hdue : ∀ k : Kernel, k.Rid t b →
      (if k.tickCount % preemptTickInterval = 0 then portTriggerPendsv k else k).Rid t b := by
    intro k h
    split
    · exact h.aside rfl
    · exact h
  rw [sysTickHandler, schedulerTick, syncTickAll]
  exact hdue _ hsecond

end Ticks

section Switch
variable {L : Layout} {k k' : Kernel} {t u x : Tid} {b : Tcb}

theorem searchReady_ne (h : k.Rid t b) {list start : Tid} (hlist : list ≠ t) (n : Nat) (hx : x ≠ t)
    (hfound : searchReady k list start n x = some u) : u ≠ t := by
  induction n generalizing x with
  | zero => cases hfound
  | succ n ih =>
    rw [searchReady] at hfound
    by_cases hready : (k.tcb x).state = .ready
    · rw [if_pos hready] at hfound
      obtain rfl := Option.some.inj hfound
      exact hx
    · rw [if_neg hready] at hfound
      have hnext : (k.next x).getD list ≠ t := by
        cases hn : k.next x with
        | none => exact hlist
        | some y =>
          rintro rfl
          exact h.omits.next x hn
      dsimp only at hfound
      split at hfound
      · cases hfound
      · exact ih hnext hfound

/-- The search finds another task, and its cursor comes to another one. -/
theorem Kernel.Rid.getNext (h : k.Rid t b) (hfound : schedulerGetNext k = some (k', u)) :
    k'.Rid t b ∧ u ≠ t := by
  obtain ⟨pr, _, hpr⟩ := List.exists_of_findSome?_eq_some hfound
  rw [getNextAt] at hpr
  cases hlist : k.taskList pr with
  | none =>
    rw [hlist] at hpr
    cases hpr
  | some list =>
    have hne : list ≠ t := by
      rintro rfl
      exact h.omits.taskList pr hlist
    have hstart : (k.rrCurrent pr).getD list ≠ t := by
      cases hc : k.rrCurrent pr with
      | none => exact hne
      | some c =>
        rintro rfl
        exact h.omits.cursor pr hc
    simp only [hlist] at hpr
    cases hsearch : searchReady k list ((k.rrCurrent pr).getD list) maxTasks
        ((k.rrCurrent pr).getD list) with
    | none =>
      rw [hsearch] at hpr
      cases hpr
    | some y =>
      rw [hsearch] at hpr
      obtain ⟨rfl, rfl⟩ := Prod.mk.inj (Option.some.inj hpr)
      have hy := searchReady_ne h hne maxTasks hstart hsearch
      have hnext : some ((k.next y).getD list) ≠ some t := by
        cases hn : k.next y with
        | none => exact fun heq => hne (Option.some.inj heq)
        | some z =>
          have hz := h.omits.next y
          rw [hn] at hz
          exact hz
      refine ⟨⟨⟨h.omits.taskList, h.omits.next, fun q => ?_, h.omits.current, fun w => ?_,
        h.omits.waitNext, h.omits.owner, h.omits.ring, h.omits.kernel⟩, h.block, h.bounds⟩, hy⟩
      · by_cases hq : q = pr
        · subst hq
          simpa using hnext
        · simpa [hq] using h.omits.cursor q
      · have hhead := h.omits.head w
        cases w <;> exact hhead

theorem Kernel.Rid.save (h : k.Rid t b) {oldSp : Nat} (hsave : saveCurrent k oldSp = some k') :
    k'.Rid t b := by
  rcases saveCurrent_cases hsave with ⟨_, rfl⟩ | ⟨cur, hcur, rfl⟩
  · exact h
  · refine h.touch ?_ fun _ => ⟨rfl, rfl⟩
    rintro rfl
    exact h.omits.current hcur

theorem Kernel.Rid.resume (h : k.Rid t b) (hx : x ≠ t) : (resume L k x).Rid t b := by
  have hset := h.touch (f := fun tcb => { tcb with state := .running }) hx fun _ => ⟨rfl, rfl⟩
  rw [Crest.resume]
  refine ⟨⟨hset.omits.taskList, hset.omits.next, hset.omits.cursor, ?_, fun w => ?_,
    hset.omits.waitNext, hset.omits.owner, hset.omits.ring, hset.omits.kernel⟩, hset.block,
    hset.bounds⟩
  · exact fun heq => hx (Option.some.inj heq)
  · have hhead := hset.omits.head w
    cases w <;> exact hhead

/-- A switch goes to another task. -/
theorem Kernel.Rid.switch (h : k.Rid t b) {oldSp : Nat}
    (hrun : portSwitchContext L k oldSp = some k') : k'.Rid t b := by
  obtain ⟨k₁, hsave, hrest⟩ := portSwitchContext_cases hrun
  have hclear : ({ k with pendsv := false } : Kernel).Rid t b := h.aside rfl
  have hfirst := hclear.save hsave
  rcases hrest with ⟨k₂, n, hfound, rfl⟩ | ⟨cur, hcur, rfl⟩ | rfl
  · obtain ⟨hnext, hn⟩ := hfirst.getNext hfound
    exact hnext.resume hn
  · refine hfirst.touch ?_ fun _ => ⟨rfl, rfl⟩
    rintro rfl
    exact hfirst.omits.current hcur
  · exact hfirst

end Switch

section Ring
variable {L : Layout} {k k' : Kernel} {t u x : Tid} {b : Tcb} {item : WorkItem}

theorem Kernel.Rid.rouse (h : k.Rid t b) : (rouseWorker k).Rid t b := by
  rw [rouseWorker]
  split
  · exact h
  · rename_i v hv
    split
    · refine h.touch ?_ fun _ => ⟨rfl, rfl⟩
      rintro rfl
      exact h.omits.kernel hv
    · exact h

/-- The item of another caller is posted, or there is no room for it. -/
theorem Kernel.Rid.svc (h : k.Rid t b) (hcaller : item.caller ≠ t) :
    (svcHandler k item).Rid t b := by
  have hset : (({ k with r0 := item.arg0 } : Kernel).setTcb item.caller fun tcb =>
      { tcb with svcBlocked := true, state := .waiting }).Rid t b :=
    Kernel.Rid.touch (h.aside rfl) hcaller fun _ => ⟨rfl, rfl⟩
  by_cases hroom : (k.kworkTail + 1) % kworkQueueSize = k.kworkHead
  · have hfull : kworkPush (({ k with r0 := item.arg0 } : Kernel).setTcb item.caller fun tcb =>
        { tcb with svcBlocked := true, state := .waiting }) item = (_, minusOne) := if_pos hroom
    rw [svcHandler]
    simp only [hfull]
    rw [if_pos (by decide)]
    exact Kernel.Rid.touch (hset.aside rfl) hcaller fun _ => ⟨rfl, rfl⟩
  · have hpost : (postItem k item).Rid t b := by
      refine ⟨⟨hset.omits.taskList, hset.omits.next, hset.omits.cursor, hset.omits.current,
        fun w => ?_, hset.omits.waitNext, hset.omits.owner, ?_, hset.omits.kernel⟩, hset.block,
        hset.bounds.1, Nat.mod_lt _ (by decide)⟩
      · have hhead := hset.omits.head w
        cases w <;> exact hhead
      · rw [postItem_kwork item h.bounds.1 h.bounds.2 hroom]
        intro x hx
        rcases List.mem_append.mp hx with hold | hnew
        · exact h.omits.ring x hold
        · rw [List.mem_singleton.mp hnew]
          exact hcaller
    rw [svcHandler_room hroom]
    exact hpost.rouse.aside rfl

theorem Kernel.Rid.kworkPop (h : k.Rid t b) (hpop : kworkPopLocked k = some (k', item)) :
    k'.Rid t b ∧ item.caller ≠ t := by
  obtain ⟨rfl, hitems⟩ := kworkPop_some h.bounds.1 h.bounds.2 hpop
  refine ⟨⟨⟨h.omits.taskList, h.omits.next, h.omits.cursor, h.omits.current, fun w => ?_,
    h.omits.waitNext, h.omits.owner, fun x hx => ?_, h.omits.kernel⟩, h.block,
    Nat.mod_lt _ (by decide), h.bounds.2⟩, ?_⟩
  · have hhead := h.omits.head w
    cases w <;> exact hhead
  · exact h.omits.ring x (hitems ▸ List.mem_cons_of_mem item hx)
  · exact h.omits.ring item (hitems ▸ List.mem_cons_self)

theorem Kernel.Rid.rest (h : k.Rid t b) : (workerWait k).Rid t b := by
  rw [workerWait]
  split
  · exact h
  · rename_i v hv
    refine h.touch ?_ fun _ => ⟨rfl, rfl⟩
    rintro rfl
    exact h.omits.kernel hv

theorem Kernel.Rid.delay (h : k.Rid t b) (hx : x ≠ t) (ticks : Nat) :
    (delaySection k x ticks).Rid t b := by
  rw [delaySection, schedulerSleep, setTcb_setTcb]
  exact h.touch hx fun _ => ⟨rfl, rfl⟩

end Ring

section Creations
variable {L : Layout} {k k' : Kernel} {t x : Tid} {b : Tcb}

theorem Kernel.Rid.alloc (h : k.Rid t b) {c : Creation} {p : Nat}
    (hrun : c.alloc L k = some (k', p)) : k'.Rid t b := by
  rcases alloc_cases hrun with ⟨_, rfl⟩ | ⟨heap, _, _, rfl⟩
  · exact h
  · have hheap : ({ k with heap := heap } : Kernel).Rid t b := h.aside rfl
    by_cases hp : p = 0
    · rw [if_pos hp]
      exact hheap
    · rw [if_neg hp]
      cases c with
      | sem initial => exact hheap.setSem p (by simp)
      | mutex => exact hheap.setMutex p (by simp) (by simp)
      | queue itemSize size => exact hheap.setQueue p (by simp) (by simp)

theorem Kernel.Rid.queueBuffer (h : k.Rid t b) {p : Nat} {ok : Bool}
    (hrun : queueInitBuffer L k p = some (k', ok)) : k'.Rid t b := by
  rw [queueInitBuffer] at hrun
  split at hrun
  · obtain ⟨rfl, _⟩ := Prod.mk.inj (Option.some.inj hrun)
    exact h
  · obtain ⟨⟨heap, buffer⟩, _, heq⟩ := Option.map_eq_some_iff.mp hrun
    obtain ⟨rfl, _⟩ := Prod.mk.inj heq
    have hheap : ({ k with heap := heap } : Kernel).Rid t b := h.aside rfl
    exact hheap.setQueue p (h.omits.head (.send p)) (h.omits.head (.recv p))

theorem Kernel.Rid.queueFree (h : k.Rid t b) {p : Nat} (hrun : queueFree L k p = some k') :
    k'.Rid t b := by
  obtain ⟨heap, _, rfl⟩ := Option.map_eq_some_iff.mp hrun
  exact h.aside rfl

theorem Kernel.Rid.publish (h : k.Rid t b) (p : Nat) (type : KobjType) :
    (kObjAlloc k p type).1.Rid t b := by
  rw [kObjAlloc]
  split
  · exact h
  · split
    · exact h
    · exact h.aside rfl

/-- Another task comes into being. -/
theorem Kernel.Rid.addTask (h : k.Rid t b) (hx : x ≠ t) (alloc : Nat) (args : TaskArgs) :
    (schedulerAddTask (initTcb k x alloc args) x).Rid t b := by
  have hinit : (initTcb k x alloc args).Rid t b := by
    rw [initTcb]
    refine Kernel.Rid.setTcb (h.aside rfl) hx ?_ ?_ <;> simp [Tcb.zero]
  generalize initTcb k x alloc args = k at hinit ⊢
  have hlink := hinit.setTcb (f := fun tcb =>
    { tcb with next := k.taskList (k.tcb x).priority }) hx
    (hinit.omits.taskList _) (hinit.omits.waitNext x)
  rw [schedulerAddTask]
  refine ⟨⟨fun pr => ?_, hlink.omits.next, hlink.omits.cursor, hlink.omits.current, fun w => ?_,
    hlink.omits.waitNext, hlink.omits.owner, hlink.omits.ring, hlink.omits.kernel⟩, hlink.block,
    hlink.bounds⟩
  · by_cases hpr : pr = (k.tcb x).priority
    · subst hpr
      simpa [portTriggerPendsv, Kernel.setTcb] using hx
    · simpa [portTriggerPendsv, Kernel.setTcb, hpr] using hinit.omits.taskList pr
  · have hhead := hlink.omits.head w
    cases w <;> exact hhead

end Creations

end Crest
