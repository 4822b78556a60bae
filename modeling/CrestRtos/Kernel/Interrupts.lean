import CrestRtos.Kernel.Critical
import CrestRtos.Library.AtomicSteps

/-!
# Interrupts between the atomic sections

The code of the kernel calls under any interrupts. Interrupts and other tasks come between
its sections and its stores, never inside a section, so what one call does is a sequence of
the atomic steps that the running system is made of.
-/

namespace Crest.Critical
open CriticalSection IntrusiveList MachineWord Alloc Relation

def State.onKernel (f : Kernel → Kernel) (s : State) : State := { s with k := f s.k }

/-- `port_trigger_pendsv` before the return of `v`. -/
def pendSteps (v : Nat) : Atomic State Nat :=
  .step (State.onKernel Crest.portTriggerPendsv) fun _ => .ret v

/-- `scheduler_wake_task(t, 0)` before the return of `v`. -/
def wakeSteps (t : Tid) (v : Nat) : Atomic State Nat :=
  .step (State.onKernel fun k => wakeSection k t 0) fun _ => pendSteps v

/-- What comes behind a section; `blocked` when it has put the task on a wait list. -/
def outcomeSteps (blocked : Atomic State Nat) : Outcome → Atomic State Nat
  | .ret v => .ret v
  | .block => blocked
  | .wake t v => wakeSteps t v
  | .pend v => pendSteps v

def sectionSteps (cur : Tid) (blocked : Atomic State Nat) (op : Op) : Atomic State Nat :=
  .step (State.onKernel fun k => (op.enter k cur).1)
    fun s => outcomeSteps blocked (op.enter s.k cur).2

/-- The flag that tells a timeout is cleared in the word that is loaded, and what others do to
that word in between is lost. -/
def clearSteps (cur : Tid) : Atomic State Nat :=
  .step id fun s =>
    .step (State.onKernel fun k => k.setTcb cur fun tcb =>
        tcb.setFlags { (s.k.tcb cur).flags with timedOut := false })
      fun _ => .ret minusOne

/-- The flag that tells a timeout, read and then cleared. -/
def checkSteps (cur : Tid) : Atomic State Nat :=
  .step id fun s => if (s.k.tcb cur).timedOut then clearSteps cur else .ret 0

/-- The flag, and the second pass of a queue's loop, which does not wait. -/
def retrySteps (cur : Tid) (op : Op) : Atomic State Nat :=
  .step id fun s =>
    if (s.k.tcb cur).timedOut then .ret minusOne else sectionSteps cur (.ret 0) op

/-- From the wait list on. The worker does not wait for its callers. -/
def blockedSteps (cur : Tid) : Op → Atomic State Nat
  | .semTake _ _ => .step (State.onKernel Crest.portTriggerPendsv) fun _ => checkSteps cur
  | .mutexLock _ _ => .step (State.onKernel Crest.portTriggerPendsv) fun _ => checkSteps cur
  | .queuePush q item _ => .step (State.onKernel Crest.portTriggerPendsv) fun _ =>
      retrySteps cur (.queuePush q item 0)
  | .queuePop q item _ => .step (State.onKernel Crest.portTriggerPendsv) fun _ =>
      retrySteps cur (.queuePop q item 0)
  | .semTryTake _ _ _ => .ret minusOne
  | .mutexTryLock _ _ _ => .ret minusOne
  | _ => .ret 0

/-- The atomic steps of a call by `cur`. -/
def callSteps (cur : Tid) (op : Op) : Atomic State Nat := sectionSteps cur (blockedSteps cur op) op

/-- The code of a call; functions without a result return 0. -/
def callCode : Op → KCode Nat
  | .semTake s ms => zImplSemTakeTimeout s ms
  | .semTryTake s caller ms => zImplSemTryTakeTimeout s caller ms
  | .semGive s => do zImplSemGive s; return 0
  | .mutexLock m ms => zImplMutexLockTimeout m ms
  | .mutexTryLock m caller ms => zImplMutexTryLockTimeout m caller ms
  | .mutexUnlock m => do zImplMutexUnlock m; return 0
  | .mutexUnlockFor m owner => do zImplMutexUnlockFor m owner; return 0
  | .queuePush q item ms => zImplQueuePush q item ms
  | .queuePop q item ms => zImplQueuePop q item ms
  | .delay ticks => do zImplTaskDelay ticks; return 0

section Rules
variable {env : Env State} {s s₁ : State} {w : WaitList} {cur t : Tid} {ms : Nat}
  {blocked : Atomic State Nat} {wait : Bool → KCode Nat} {f : Kernel → Kernel}

theorem read_does : Does read State.k id := load_does _

theorem write_does : Does (write f) (fun _ => ()) (State.onKernel f) := store_does

theorem waiting_does : Does (writeWaiting f) (fun _ => ()) (State.onKernel f) := mark_does

theorem pendsv_does :
    Does portTriggerPendsv (fun _ => ()) (State.onKernel Crest.portTriggerPendsv) := request_does

theorem wakeTask_unmasked (v : Nat) :
    Unmasked env (schedulerWakeTask t 0 >>= fun _ => pure v) s (wakeSteps t v) := by
  simp only [schedulerWakeTask, code_bind_assoc]
  exact unmasked_enter fun _ _ => write_does.masked
    (masked_exit (pendsv_does.unmasked fun _ _ => unmasked_pure v _))

/-- The section that puts the task on the CPU on a list, and its wait. -/
theorem blockCurrent_masked (hcur : s.k.currentTask = some cur) :
    Masked env (blockCurrent w ms false) s
      (s.onKernel fun k => armTimeout (pushWaiter (markWaiting k cur) w cur) w cur ms)
      (.step (State.onKernel Crest.portTriggerPendsv) fun _ => checkSteps cur) := by
  simp only [blockCurrent, schedulerGetCurrent, code_bind_assoc, code_pure_bind]
  refine read_does.masked ?_
  rw [hcur]
  simp only [deref, code_pure_bind]
  refine waiting_does.masked (write_does.masked (write_does.masked (masked_exit ?_)))
  refine pendsv_does.unmasked fun s₂ _ => read_does.unmasked fun s₃ _ => ?_
  by_cases hout : (s₃.k.tcb cur).timedOut = true
  · simp only [if_pos hout, rewriteFlags, code_bind_assoc]
    exact read_does.unmasked fun _ _ => write_does.unmasked fun _ _ => unmasked_pure minusOne _
  · simp only [if_neg hout]
    exact unmasked_pure 0 _

theorem blockCaller_masked :
    Masked env (blockCaller w t ms false) s
      (s.onKernel fun k => armTimeout (pushWaiter k w t) w t ms) (.ret minusOne) :=
  write_does.masked (write_does.masked (masked_exit (unmasked_pure minusOne _)))

theorem takeWith_unmasked {direct : Bool} {a : Nat}
    (hwait : ∀ s₁, ReflTransGen (Others env) s s₁ → Masked env (wait false) s₁
      (s₁.onKernel fun k => armTimeout (pushWaiter (if direct then markWaiting k t else k)
        (.sem a) t) (.sem a) t ms) blocked) :
    Unmasked env (takeWith a ms wait) s
      (.step (State.onKernel fun k => (takeSection direct k a t ms).1)
        fun s => outcomeSteps blocked (takeSection direct s.k a t ms).2) := by
  refine unmasked_enter fun s₁ hothers => read_does.masked ?_
  have hblock := hwait s₁ hothers
  simp only [State.onKernel, takeSection] at hblock ⊢
  by_cases hcount : 0 < (s₁.k.sem a).count
  · simp only [if_pos hcount]
    exact write_does.masked (masked_exit (unmasked_pure 0 _))
  by_cases hms : ms = 0
  · simp only [if_neg hcount, if_pos hms]
    exact masked_exit (unmasked_pure minusOne _)
  · simp only [if_neg hcount, if_neg hms]
    exact hblock

theorem lockWith_masked {direct : Bool} {m : Nat}
    (hwait : Masked env (wait false) s
      (s.onKernel fun k => armTimeout (pushWaiter (if direct then markWaiting k t else k)
        (.mutex m) t) (.mutex m) t ms) blocked) :
    Masked env (lockWith m (some t) ms false wait) s
      (s.onKernel fun k => (lockSection direct k m t ms).1)
      (outcomeSteps blocked (lockSection direct s.k m t ms).2) := by
  refine read_does.masked ?_
  simp only [State.onKernel, lockSection] at hwait ⊢
  by_cases howner : (s.k.mutex m).owner = some t
  · simp only [if_pos howner]
    exact masked_exit (unmasked_pure 0 _)
  by_cases hfree : (s.k.mutex m).owner = none
  · simp only [if_neg howner, if_pos hfree]
    exact write_does.masked (masked_exit (unmasked_pure 0 _))
  by_cases hms : ms = 0
  · simp only [if_neg howner, if_neg hfree, if_pos hms]
    exact masked_exit (unmasked_pure minusOne _)
  · simp only [if_neg howner, if_neg hfree, if_neg hms]
    exact hwait

theorem unlockWith_masked {m : Nat} :
    Masked env (unlockWith m (some t) false >>= fun _ => pure 0) s
      (s.onKernel fun k => (unlockSection k m t).1)
      (outcomeSteps blocked (unlockSection s.k m t).2) := by
  simp only [unlockWith, code_bind_assoc]
  refine read_does.masked ?_
  simp only [State.onKernel, unlockSection]
  by_cases howner : (s.k.mutex m).owner ≠ some t
  · simp only [if_pos howner, code_bind_assoc, code_pure_bind]
    exact masked_exit (unmasked_pure 0 _)
  simp only [if_neg howner]
  cases hwaiters : (s.k.mutex m).waitList with
  | some waiter =>
    simp only [code_bind_assoc]
    exact write_does.masked (write_does.masked (masked_exit (wakeTask_unmasked 0)))
  | none =>
    have hstore : (s.onKernel fun k => k.setMutex m { k.mutex m with owner := none }) =
        { s with k := s.k.setMutex m ⟨none, none⟩ } := by
      simp only [State.onKernel, hwaiters]
    rw [← hstore]
    simp only [code_bind_assoc]
    exact write_does.masked (masked_exit (pendsv_does.unmasked fun _ _ => unmasked_pure 0 _))

theorem semGive_unmasked {a : Nat} :
    Unmasked env (zImplSemGive a >>= fun _ => pure 0) s
      (.step (State.onKernel fun k => (Crest.zImplSemGive k a).1)
        fun s => outcomeSteps blocked (Crest.zImplSemGive s.k a).2) := by
  simp only [zImplSemGive, code_bind_assoc]
  refine unmasked_enter fun s₁ _ => read_does.masked ?_
  simp only [State.onKernel, Crest.zImplSemGive]
  cases hwaiters : (s₁.k.sem a).waitList with
  | some waiter =>
    simp only [code_bind_assoc]
    exact write_does.masked (masked_exit (wakeTask_unmasked 0))
  | none =>
    have hstore : (s₁.onKernel fun k =>
        k.setSem a { k.sem a with count := toInt32 ((k.sem a).count + 1) }) =
        { s₁ with k := s₁.k.setSem a ⟨toInt32 ((s₁.k.sem a).count + 1), none⟩ } := by
      simp only [State.onKernel, hwaiters]
    rw [← hstore]
    simp only [code_bind_assoc]
    exact write_does.masked (masked_exit (unmasked_pure 0 _))

/-- After a copy. -/
theorem wakeAndReturn_masked :
    Masked env (wakeAndReturn w false) s (s.onKernel fun k => (wakeFirst k w).1)
      (outcomeSteps blocked (wakeFirst s.k w).2) := by
  refine read_does.masked ?_
  simp only [State.onKernel, wakeFirst]
  cases hwaiters : s.k.head w with
  | some toWake =>
    exact write_does.masked (masked_exit (wakeTask_unmasked 0))
  | none => exact masked_exit (unmasked_pure 0 _)

/-- The walk to the end of a list that has one. -/
theorem lastWaiter_masked {n : Nat} {a : Tid} {l : List Tid} {c : Tid → KCode Nat}
    (hl : Linked s.k.waitNext (s.k.waitNext a) l) (enough : l.length < n)
    (h : Masked env (c ((a :: l).getLast (List.cons_ne_nil a l))) s s₁ blocked) :
    Masked env (lastWaiter n a >>= c) s s₁ blocked := by
  induction n generalizing a l with
  | zero => exact absurd enough (Nat.not_lt_zero _)
  | succ n ih =>
    simp only [lastWaiter, code_bind_assoc]
    refine read_does.masked ?_
    cases l with
    | nil =>
      rw [linked_nil.mp hl]
      simp only [code_pure_bind]
      exact h
    | cons b l =>
      obtain ⟨hb, hrest⟩ := linked_cons.mp hl
      rw [hb]
      exact ih hrest (Nat.lt_of_succ_lt_succ enough) h

/-- The append does what its atomic definition says where the wait list ends. -/
theorem appendWaiter_masked {l : List Tid} {c : Unit → KCode Nat}
    (hl : Linked s.k.waitNext (s.k.head w) l)
    (h : Masked env (c ()) (s.onKernel fun k => Crest.appendWaiter k w cur) s₁ blocked) :
    Masked env (appendWaiter w cur >>= c) s s₁ blocked := by
  obtain ⟨r, hr⟩ := linked_cut cur hl
  have hnext : (s.k.setTcb cur fun tcb => { tcb with waitNext := none }).waitNext =
      Function.update s.k.waitNext cur none := by
    funext x
    by_cases hx : x = cur
    · subst hx
      simp [Kernel.waitNext]
    · simp [Kernel.waitNext, setTcb_tcb_of_ne _ _ hx, hx]
  rw [← hnext, ← setTcb_head s.k cur (fun tcb => { tcb with waitNext := none }) w] at hr
  simp only [appendWaiter, code_bind_assoc]
  refine write_does.masked (read_does.masked ?_)
  simp only [State.onKernel, Crest.appendWaiter, id] at h ⊢
  generalize s.k.setTcb cur (fun tcb => { tcb with waitNext := none }) = k at hr h ⊢
  cases hhead : k.head w with
  | none =>
    simp only [hhead] at h
    exact write_does.masked h
  | some first =>
    rw [hhead] at hr
    simp only [hhead] at h
    obtain ⟨l', rfl, hrest⟩ := linked_some_iff.mp hr
    have hlength : (first :: l').length ≤ maxTasks := (linked_nodup hr).length_le_card
    simp only [code_bind_assoc]
    refine lastWaiter_masked hrest (Nat.lt_of_succ_le hlength) (write_does.masked ?_)
    rw [← lastFrom_eq maxTasks hrest (Nat.le_of_succ_le hlength)]
    exact h

/-- The section that puts the task on the CPU on a list of a queue, and its wait. -/
theorem queueWait_masked {retry : Code State Nat} {op : Op} {l : List Tid}
    (hcur : s.k.currentTask = some cur) (hl : Linked s.k.waitNext (s.k.head w) l)
    (hretry : ∀ s₁, Unmasked env retry s₁ (sectionSteps cur (.ret 0) op)) :
    Masked env (queueWait w ms false >>= fun out => if out then pure minusOne else retry) s
      (s.onKernel fun k => (queueBlock k w cur ms).1)
      (.step (State.onKernel Crest.portTriggerPendsv) fun _ => retrySteps cur op) := by
  simp only [queueWait, schedulerGetCurrent, code_bind_assoc, code_pure_bind]
  refine read_does.masked ?_
  rw [hcur]
  simp only [deref, code_pure_bind]
  have hmarked : Linked (markWaiting s.k cur).waitNext ((markWaiting s.k cur).head w) l := by
    have hnext : (markWaiting s.k cur).waitNext = s.k.waitNext := by
      funext x
      by_cases hx : x = cur
      · subst hx
        simp [Kernel.waitNext, markWaiting]
      · simp [Kernel.waitNext, markWaiting, setTcb_tcb_of_ne _ _ hx]
    rw [hnext, markWaiting, setTcb_head]
    exact hl
  refine waiting_does.masked (appendWaiter_masked hmarked (write_does.masked (masked_exit ?_)))
  refine pendsv_does.unmasked fun s₂ _ => read_does.unmasked fun s₃ _ => ?_
  by_cases hout : (s₃.k.tcb cur).timedOut = true
  · simp only [if_pos hout]
    exact unmasked_pure minusOne _
  · simp only [if_neg hout]
    exact hretry s₃

/-- A pass of a queue call and what comes behind it. The loop goes around with the timeout 0,
so at most once. -/
theorem queueLoop_masked {ready : Kernel → Prop} [DecidablePred ready] {copy : Kernel → Kernel}
    {wakes : WaitList} (again : Op)
    (hcur : ms ≠ 0 → s.k.currentTask = some cur ∧ ∃ l, Linked s.k.waitNext (s.k.head w) l)
    (hagain : ∀ k, again.enter k cur = queuePass ready copy wakes w k cur 0)
    (hblocked : ms ≠ 0 → blocked =
      .step (State.onKernel Crest.portTriggerPendsv) fun _ => retrySteps cur again) :
    Masked env (queueLoop ready copy wakes w false ms) s
      (s.onKernel fun k => (queuePass ready copy wakes w k cur ms).1)
      (outcomeSteps blocked (queuePass ready copy wakes w s.k cur ms).2) := by
  induction ms using Nat.strongRecOn generalizing s blocked with
  | ind ms ih =>
    rw [queueLoop]
    refine read_does.masked ?_
    simp only [State.onKernel, queuePass]
    by_cases hready : ready s.k
    · simp only [if_pos hready]
      exact write_does.masked wakeAndReturn_masked
    by_cases hms : ms = 0
    · simp only [if_neg hready, if_pos hms, dif_pos hms]
      exact masked_exit (unmasked_pure minusOne _)
    · simp only [if_neg hready, if_neg hms, dif_neg hms]
      obtain ⟨hcurrent, l, hl⟩ := hcur hms
      rw [hblocked hms]
      refine queueWait_masked hcurrent hl fun _ => ?_
      simp only [sectionSteps, hagain]
      exact unmasked_enter fun _ _ => ih 0 (Nat.pos_of_ne_zero hms) (absurd rfl) (absurd rfl)

theorem zImplTaskDelay_unmasked {ticks : Nat}
    (hcur : ∀ s₁, ReflTransGen (Others env) s s₁ → s₁.k.currentTask = some cur) :
    Unmasked env (zImplTaskDelay ticks >>= fun _ => pure 0) s
      (sectionSteps cur blocked (.delay ticks)) := by
  rw [zImplTaskDelay]
  by_cases hticks : ticks = 0
  · simp only [if_pos hticks, code_pure_bind]
    refine Unmasked.idle ?_ ?_
    · simp only [Op.enter, Crest.zImplTaskDelay, if_pos hticks]
      exact unmasked_pure 0 s
    · simp only [State.onKernel, Op.enter, Crest.zImplTaskDelay, if_pos hticks]
  simp only [if_neg hticks, schedulerGetCurrent, code_bind_assoc, code_pure_bind]
  refine read_does.read fun s₁ hothers => ?_
  rw [hcur s₁ hothers]
  simp only [schedulerSleep, code_bind_assoc]
  refine unmasked_enter fun s₂ _ => ?_
  simp only [State.onKernel, Op.enter, Crest.zImplTaskDelay, if_neg hticks]
  exact waiting_does.masked (masked_exit (pendsv_does.unmasked fun _ _ => unmasked_pure 0 _))

end Rules

/-- The wait list that a call may have to walk to its end. -/
def appendsTo : Op → Option WaitList
  | .queuePush q _ _ => some (.send q)
  | .queuePop q _ _ => some (.recv q)
  | _ => none

/-- What a call of `cur` relies on, whatever others do to the memory `s` before its section. -/
structure Relies (env : Env State) (cur : Tid) (op : Op) (s : State) : Prop where
  current : ∀ s₁, ReflTransGen (Others env) s s₁ → s₁.k.currentTask = some cur
  ends : ∀ s₁ w, ReflTransGen (Others env) s s₁ → appendsTo op = some w →
    ∃ l, Linked s₁.k.waitNext (s₁.k.head w) l

/-- A call of `cur`, whatever interrupts it: it returns, and has done one atomic step for its
critical section, as the section's definition has it, and one for each section, load and store
behind it. In between, others may do anything with the memory, as long as `cur` is the current
task when its code goes on to its section and the wait list of its queue has an end then. -/
theorem calls_serial {env : Env State} {cur : Tid} (op : Op) (cpu : Cpu State)
    (hclear : cpu.primask = false) (hrelies : Relies env cur op cpu.mem) :
    ∃ r, callCode op env cpu = some r ∧ r.cpu.primask = false ∧
      (callSteps cur op).Serial env cpu.mem r.value r.cpu.mem := by
  have hstays := hrelies.current
  suffices h : Unmasked env (callCode op) cpu.mem (callSteps cur op) from h cpu hclear rfl
  cases op with
  | semTake s ms =>
    exact takeWith_unmasked fun s₁ hothers => blockCurrent_masked (hstays s₁ hothers)
  | semTryTake s caller ms => exact takeWith_unmasked fun _ _ => blockCaller_masked
  | semGive s => exact semGive_unmasked
  | mutexLock m ms =>
    simp only [callCode, zImplMutexLockTimeout, schedulerGetCurrent, code_bind_assoc,
      code_pure_bind]
    refine unmasked_enter fun s₁ hothers => read_does.masked ?_
    rw [hstays s₁ hothers]
    exact lockWith_masked (blockCurrent_masked (hstays s₁ hothers))
  | mutexTryLock m caller ms =>
    exact unmasked_enter fun _ _ => lockWith_masked blockCaller_masked
  | mutexUnlock m =>
    simp only [callCode, zImplMutexUnlock, schedulerGetCurrent, code_bind_assoc, code_pure_bind]
    refine unmasked_enter fun s₁ hothers => read_does.masked ?_
    rw [hstays s₁ hothers]
    exact unlockWith_masked
  | mutexUnlockFor m owner =>
    simp only [callCode, zImplMutexUnlockFor, code_bind_assoc]
    exact unmasked_enter fun _ _ => unlockWith_masked
  | queuePush q item ms =>
    refine unmasked_enter fun s₁ hothers => ?_
    exact queueLoop_masked (.queuePush q item 0)
      (fun _ => ⟨hstays s₁ hothers, hrelies.ends s₁ _ hothers rfl⟩)
      (fun k => zImplQueuePush_pass k q cur item 0) fun _ => rfl
  | queuePop q item ms =>
    refine unmasked_enter fun s₁ hothers => ?_
    exact queueLoop_masked (.queuePop q item 0)
      (fun _ => ⟨hstays s₁ hothers, hrelies.ends s₁ _ hothers rfl⟩)
      (fun k => zImplQueuePop_pass k q cur item 0) fun _ => rfl
  | delay ticks => exact zImplTaskDelay_unmasked hstays

/-- Others count a tick before each instruction outside of a section. -/
def ticking : Env State :=
  fun _ => State.onKernel fun k => { k with tickCount := wrap (k.tickCount + 1) }

/-- The CPU of a task that nothing else is known of. -/
def callerCpu : Cpu State where
  mem := ⟨{ Kernel.reset (fun _ => 0) (fun _ => 0) with currentTask := some 2 },
    ⟨fun _ => 0, 0, false⟩⟩
  primask := false
  clock := 0

/-- Ticks leave task 2 on the CPU, and every wait list empty. -/
theorem calls_serial_ticking : ∃ r, callCode (.queuePop 0 0x20005000 5) ticking callerCpu = some r ∧
    r.cpu.primask = false ∧
    (callSteps 2 (.queuePop 0 0x20005000 5)).Serial ticking callerCpu.mem r.value r.cpu.mem := by
  have hticks : ∀ s, ReflTransGen (Others ticking) callerCpu.mem s →
      s.k.currentTask = some 2 ∧ ∀ a, (s.k.queue a).recvWait = none := by
    intro s hothers
    induction hothers with
    | refl => exact ⟨rfl, fun _ => rfl⟩
    | tail _ hstep ih =>
      obtain ⟨n, rfl⟩ := hstep
      exact ih
  refine @calls_serial ticking 2 _ callerCpu rfl ⟨fun s hs => (hticks s hs).1, fun s w hs hw => ?_⟩
  obtain rfl := Option.some.inj hw
  exact ⟨[], (hticks s hs).2 0⟩

end Crest.Critical
