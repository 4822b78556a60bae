import CrestRtos.Kernel.Kwork

/-!
# What critical sections leave as it is

Blocking, waking and ticking change the state of tasks and of the objects they
wait on. They leave the run lists alone, and with them the TCB pool, the heap,
the handle table, privilege and each task's stack and priority. `standing`
keeps exactly that much of a kernel.
-/

namespace Crest
open IntrusiveList MachineWord

def Tcb.standing (tcb : Tcb) : Tcb :=
  { tcb with
    stackPointer := 0
    savedR0 := 0
    state := .ready
    svcBlocked := false
    timedOut := false
    waitNext := none
    delayTicks := 0
    blockingWaitList := none }

def Kernel.standing (k : Kernel) : Kernel :=
  { k with
    tcb := fun t => (k.tcb t).standing
    tickCount := 0
    sem := fun _ => ⟨0, none⟩
    mutex := fun _ => ⟨none, none⟩
    queue := fun _ => ⟨0, 0, 0, 0, 0, 0, fun _ => 0, none, none⟩
    kworkBuf := fun _ => ⟨0, 0, 0, 0, 0, 0⟩
    kworkHead := 0
    kworkTail := 0
    ram := fun _ => 0
    pendsv := false
    r0 := 0 }

variable {k k' : Kernel} {t : Tid}

theorem standing_setTcb {f : Tcb → Tcb} (hf : (f (k.tcb t)).standing = (k.tcb t).standing) :
    (k.setTcb t f).standing = k.standing := by
  have htcb : (fun u => ((k.setTcb t f).tcb u).standing) = k.standing.tcb := by
    funext u
    by_cases hu : u = t
    · subst hu
      rw [setTcb_tcb_same]
      exact hf
    · rw [setTcb_tcb_of_ne k f hu]
      rfl
  exact congrArg (fun g => { k.standing with tcb := g }) htcb

@[simp] theorem standing_setHead (w : WaitList) (v : Option Tid) :
    (k.setHead w v).standing = k.standing := by
  cases w <;> rfl

@[simp] theorem standing_portTriggerPendsv : (portTriggerPendsv k).standing = k.standing := rfl

@[simp] theorem standing_schedulerSleep (ticks : Nat) :
    (schedulerSleep k t ticks).standing = k.standing := standing_setTcb rfl

@[simp] theorem standing_wakeSection (v : Nat) : (wakeSection k t v).standing = k.standing :=
  standing_setTcb rfl

@[simp] theorem standing_markWaiting : (markWaiting k t).standing = k.standing :=
  standing_setTcb rfl

@[simp] theorem standing_armTimeout (w : WaitList) (ms : Nat) :
    (armTimeout k w t ms).standing = k.standing := by
  refine standing_setTcb ?_
  by_cases hms : ms ≠ waitForever
  · simp only [if_pos hms]
    rfl
  · simp only [if_neg hms]
    rfl

@[simp] theorem standing_pushWaiter (w : WaitList) : (pushWaiter k w t).standing = k.standing := by
  rw [pushWaiter, standing_setHead]
  exact standing_setTcb rfl

@[simp] theorem standing_appendWaiter (w : WaitList) :
    (appendWaiter k w t).standing = k.standing := by
  have hfirst : (k.setTcb t fun tcb => { tcb with waitNext := none }).standing = k.standing :=
    standing_setTcb rfl
  rw [appendWaiter]
  split
  · rw [standing_setHead]
    exact hfirst
  · exact (standing_setTcb rfl).trans hfirst

@[simp] theorem standing_popWaiter (w : WaitList) : (popWaiter k w t).standing = k.standing := by
  rw [popWaiter]
  exact (standing_setTcb rfl).trans (standing_setHead w _)

@[simp] theorem standing_unlinkWaiter (w : WaitList) :
    (unlinkWaiter k w t).standing = k.standing := by
  rw [unlinkWaiter]
  generalize searchFrom k.waitNext t maxTasks (k.head w) none = found
  obtain ⟨cur, prev⟩ := found
  by_cases hcur : cur = some t
  · simp only [if_pos hcur]
    refine (standing_setTcb rfl).trans ?_
    cases prev with
    | none => exact standing_setHead w _
    | some p => exact standing_setTcb rfl
  · simp only [if_neg hcur]

theorem standing_wakeFirst (w : WaitList) : (wakeFirst k w).1.standing = k.standing := by
  rw [wakeFirst]
  split
  · exact standing_popWaiter w
  · rfl

theorem standing_queueBlock (w : WaitList) (ms : Nat) :
    (queueBlock k w t ms).1.standing = k.standing := by
  simp [queueBlock]

theorem standing_takeSection (direct : Bool) (s ms : Nat) :
    (takeSection direct k s t ms).1.standing = k.standing := by
  rw [takeSection]
  split
  · rfl
  · split
    · rfl
    · cases direct <;> simp

theorem standing_zImplSemGive (s : Nat) : (zImplSemGive k s).1.standing = k.standing := by
  rw [zImplSemGive]
  split
  · exact standing_popWaiter _
  · rfl

theorem standing_lockSection (direct : Bool) (m ms : Nat) :
    (lockSection direct k m t ms).1.standing = k.standing := by
  rw [lockSection]
  split
  · rfl
  · split
    · rfl
    · split
      · rfl
      · cases direct <;> simp

theorem standing_unlockSection (m : Nat) : (unlockSection k m t).1.standing = k.standing := by
  rw [unlockSection]
  split
  · rfl
  · split
    · exact standing_popWaiter (k := k) (.mutex m)
    · rfl

theorem standing_zImplQueuePush (a item ms : Nat) :
    (zImplQueuePush k a t item ms).1.standing = k.standing := by
  rw [zImplQueuePush]
  split
  · exact standing_wakeFirst (.recv a)
  · split
    · rfl
    · exact standing_queueBlock _ ms

theorem standing_zImplQueuePop (a item ms : Nat) :
    (zImplQueuePop k a t item ms).1.standing = k.standing := by
  rw [zImplQueuePop]
  split
  · exact standing_wakeFirst (.send a)
  · split
    · rfl
    · exact standing_queueBlock _ ms

/-- No kernel call on an existing object goes further than its wait lists. -/
theorem standing_enter (op : Op) (cur : Tid) : (op.enter k cur).1.standing = k.standing := by
  cases op with
  | semTake s ms => exact standing_takeSection true s ms
  | semTryTake s caller ms => exact standing_takeSection false s ms
  | semGive s => exact standing_zImplSemGive s
  | mutexLock m ms => exact standing_lockSection true m ms
  | mutexTryLock m caller ms => exact standing_lockSection false m ms
  | mutexUnlock m => exact standing_unlockSection m
  | mutexUnlockFor m owner => exact standing_unlockSection m
  | queuePush q item ms => exact standing_zImplQueuePush q item ms
  | queuePop q item ms => exact standing_zImplQueuePop q item ms
  | delay ticks =>
    simp only [Op.enter, zImplTaskDelay]
    split
    · rfl
    · exact standing_schedulerSleep ticks

@[simp] theorem standing_tickDelay : (tickDelay k t).standing = k.standing := by
  simp only [tickDelay]
  split
  · exact standing_setTcb rfl
  · rfl

@[simp] theorem standing_syncTickTask : (syncTickTask k t).standing = k.standing := by
  have hcount : ∀ f : Tcb → Nat, (k.setTcb t fun tcb =>
      { tcb with delayTicks := f tcb }).standing = k.standing := fun f => standing_setTcb rfl
  rw [syncTickTask]
  split
  · rfl
  · split
    · simp only
      split
      · refine (standing_wakeSection minusOne).trans ((standing_setTcb rfl).trans ?_)
        exact (standing_unlinkWaiter _).trans (hcount _)
      · exact hcount _
    · rfl

theorem standing_walk {f : Kernel → Tid → Kernel}
    (hf : ∀ k t, (f k t).standing = k.standing) (n : Nat) (h : Option Tid) :
    (walk Kernel.next f n h k).standing = k.standing := by
  induction n generalizing k h with
  | zero => rfl
  | succ n ih =>
    cases h with
    | none => rfl
    | some t => exact (ih _).trans (hf k t)

theorem standing_walkAll {f : Kernel → Tid → Kernel}
    (hf : ∀ k t, (f k t).standing = k.standing) :
    (walkAll Kernel.taskList Kernel.next f k).standing = k.standing := by
  have hfold : ∀ (prs : List Nat) (k : Kernel),
      (prs.foldl (fun k pr => walk Kernel.next f maxTasks (k.taskList pr) k) k).standing =
        k.standing := by
    intro prs
    induction prs with
    | nil => exact fun _ => rfl
    | cons pr prs ih => exact fun k => (ih _).trans (standing_walk hf _ _)
  exact hfold _ k

theorem standing_schedulerTick : (schedulerTick k).standing = k.standing := by
  rw [schedulerTick, syncTickAll, standing_walkAll fun _ _ => standing_syncTickTask,
    standing_walkAll fun _ _ => standing_tickDelay]
  rfl

theorem standing_sysTickHandler : (sysTickHandler k).standing = k.standing := by
  have htick := standing_schedulerTick (k := k)
  rw [sysTickHandler]
  generalize schedulerTick k = k' at htick ⊢
  split <;> exact htick

theorem standing_kworkPush (item : WorkItem) : (kworkPush k item).1.standing = k.standing := by
  have hwake : ∀ (k : Kernel) (u : Tid),
      (k.setTcb u fun tcb => { tcb with state := .ready }).standing = k.standing :=
    fun _ _ => standing_setTcb rfl
  simp only [kworkPush]
  split
  · rfl
  · split
    · rfl
    · split
      · dsimp only
        rw [hwake]
        rfl
      · rfl

theorem standing_workerWait : (workerWait k).standing = k.standing := by
  rw [workerWait]
  split
  · rfl
  · exact standing_setTcb rfl

theorem standing_delaySection (ticks : Nat) : (delaySection k t ticks).standing = k.standing := by
  rw [delaySection, standing_schedulerSleep]
  exact standing_setTcb rfl

theorem standing_svcHandler (item : WorkItem) : (svcHandler k item).standing = k.standing := by
  have hmark : ({ k with r0 := item.arg0 }.setTcb item.caller fun tcb =>
      { tcb with svcBlocked := true, state := .waiting }).standing = k.standing :=
    (standing_setTcb rfl).trans rfl
  have hpush := (standing_kworkPush item).trans hmark
  rw [svcHandler]
  simp only
  split
  · exact (standing_setTcb rfl).trans hpush
  · exact hpush

section Kept
variable (h : k'.standing = k.standing)
include h

theorem standing_tcb (t : Tid) : (k'.tcb t).standing = (k.tcb t).standing :=
  (congrFun (congrArg Kernel.tcb h) t :)

theorem standing_next : k'.next = k.next :=
  funext fun t => (congrArg Tcb.next (standing_tcb h t) :)

theorem standing_priority (t : Tid) : (k'.tcb t).priority = (k.tcb t).priority :=
  (congrArg Tcb.priority (standing_tcb h t) :)

theorem standing_user (t : Tid) : (k'.tcb t).user = (k.tcb t).user :=
  (congrArg Tcb.user (standing_tcb h t) :)

theorem standing_stackAlloc (t : Tid) : (k'.tcb t).stackAlloc = (k.tcb t).stackAlloc :=
  (congrArg Tcb.stackAlloc (standing_tcb h t) :)

theorem standing_tcbUsed : k'.tcbUsed = k.tcbUsed := (congrArg Kernel.tcbUsed h :)

theorem standing_taskList : k'.taskList = k.taskList := (congrArg Kernel.taskList h :)

theorem standing_rrCurrent : k'.rrCurrent = k.rrCurrent := (congrArg Kernel.rrCurrent h :)

theorem standing_currentTask : k'.currentTask = k.currentTask := (congrArg Kernel.currentTask h :)

theorem standing_priorityMask : k'.priorityMask = k.priorityMask :=
  (congrArg Kernel.priorityMask h :)

theorem standing_heap : k'.heap = k.heap := (congrArg Kernel.heap h :)

theorem standing_nPriv : k'.nPriv = k.nPriv := (congrArg Kernel.nPriv h :)

end Kept

end Crest
