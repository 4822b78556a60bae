import CrestRtos.Kernel.Interrupts
import CrestRtos.Properties.Progress

/-!
# The code of a call in the running system

What a task does in a direct call, from its first critical section to its return, are the
atomic steps of the call's code, in this order. What others do comes between them.
-/

namespace Crest
open MachineWord Alloc Transition
open CriticalSection (Atomic)
open Critical (State callSteps sectionSteps blockedSteps outcomeSteps checkSteps retrySteps
  wakeSteps pendSteps)

/-- Behind the wait of a call. -/
def waitedSteps (u : Tid) : Op → Atomic State Nat
  | .semTake _ _ => checkSteps u
  | .mutexLock _ _ => checkSteps u
  | .queuePush q item _ => retrySteps u (.queuePush q item 0)
  | .queuePop q item _ => retrySteps u (.queuePop q item 0)
  | _ => .ret 0

/-- What is left of a direct call. -/
def Pc.left (u : Tid) : Pc → Option (Atomic State Nat)
  | .enter op .app => some (callSteps u op)
  | .block op .app => some (blockedSteps u op)
  | .check op .app => some (waitedSteps u op)
  | .retry op .app => some (sectionSteps u (.ret 0) op.again)
  | .wake t _ (.ret .app v) => some (wakeSteps t v)
  | .pend (.ret .app v) => some (pendSteps v)
  | _ => none

/-- The steps `a` are left to `u`, or `u` has just returned from its call. -/
def Sys.Continues (s : Sys) (u : Tid) (a : Atomic State Nat) : Prop :=
  (s.pc u).left u = some a ∨
    ∃ v, a = .ret v ∧ s.pc u = .app ∧ s.log.head? = some (.result u v)

/-- The steps that `u` takes in a run, each with the memory before and behind it; `h` is the
user heap. -/
def ownStates (L : Layout) (u : Tid) (h : Heap) : Sys → List Label → List (State × State)
  | _, [] => []
  | s, l :: labels =>
    match s.step L l with
    | none => []
    | some s' =>
      if l.isThread = true ∧ s.k.currentTask = some u then
        (⟨s.k, h⟩, ⟨s'.k, h⟩) :: ownStates L u h s' labels
      else ownStates L u h s' labels

section Serial
variable {L : Layout} {s s' : Sys} {g : Ghost} {u : Tid} {op : Op} {labels : List Label}
  {a blocked : Atomic State Nat}

theorem finish_continues (s : Sys) (u : Tid) (v : Nat) :
    (s.finish u .app v).Continues u (.ret v) := by
  right
  refine ⟨v, rfl, ?_, rfl⟩
  exact Function.update_self _ _ _

/-- Only calls that wait put their own task on a list. -/
theorem enter_waits (hop : op.fits .app) {k : Kernel} (hout : (op.enter k u).2 = .block) :
    op.waitList.isSome = true := by
  cases op with
  | semTake a ms => rfl
  | mutexLock m ms => rfl
  | queuePush q item ms => rfl
  | queuePop q item ms => rfl
  | semTryTake a caller ms => exact absurd hop id
  | mutexTryLock m caller ms => exact absurd hop id
  | mutexUnlockFor m owner => exact absurd hop id
  | semGive a =>
    rw [Op.enter, zImplSemGive] at hout
    split at hout <;> cases hout
  | mutexUnlock m =>
    rw [Op.enter, zImplMutexUnlock, unlockSection] at hout
    split at hout
    · cases hout
    · split at hout <;> cases hout
  | delay ticks =>
    rw [Op.enter, zImplTaskDelay] at hout
    split at hout <;> cases hout

/-- A critical section is one atomic step. -/
theorem runOp_continues (s : Sys) (hblock : (op.enter s.k u).2 = .block →
      op.waitList.isSome = true ∧ blocked = blockedSteps u op) :
    (s.runOp u op .app).Continues u (outcomeSteps blocked (op.enter s.k u).2) := by
  rw [runOp_eq]
  cases hout : (op.enter s.k u).2 with
  | ret v => exact finish_continues _ u v
  | block =>
    obtain ⟨hsome, rfl⟩ := hblock hout
    left
    rw [Sys.settle, if_pos hsome, pc_setPc]
    rfl
  | wake t v =>
    left
    rw [Sys.settle, pc_setPc]
    rfl
  | pend v =>
    left
    rw [Sys.settle, pc_setPc]
    rfl

/-- Behind the wait for a semaphore or a mutex. -/
theorem check_continues {w : WaitList} (hw : op.waitList = some w) (hqueue : w.isQueue = false)
    (h : Heap) : ∃ a', (checkSteps u).Own ⟨s.k, h⟩ a' ⟨(s.checkWait u op .app).k, h⟩ ∧
      (s.checkWait u op .app).Continues u a' := by
  rw [Sys.checkWait, hw]
  simp only [hqueue, Bool.false_eq_true, if_false]
  have hread : (checkSteps u).Own ⟨s.k, h⟩ _ ⟨s.k, h⟩ := .step _ _ _
  by_cases hout : (s.k.tcb u).timedOut = true
  · rw [if_pos hout] at hread ⊢
    exact ⟨_, hread.more.more, finish_continues _ u minusOne⟩
  · rw [if_neg hout] at hread ⊢
    exact ⟨_, hread, finish_continues s u 0⟩

/-- Behind the wait for a queue. -/
theorem retry_continues {w : WaitList} (hw : op.waitList = some w) (hqueue : w.isQueue = true)
    (h : Heap) : ∃ a', (retrySteps u op.again).Own ⟨s.k, h⟩ a' ⟨(s.checkWait u op .app).k, h⟩ ∧
      (s.checkWait u op .app).Continues u a' := by
  rw [Sys.checkWait, hw]
  simp only [hqueue, if_true]
  have hread : (retrySteps u op.again).Own ⟨s.k, h⟩ _ ⟨s.k, h⟩ := .step _ _ _
  by_cases hout : (s.k.tcb u).timedOut = true
  · rw [if_pos hout] at hread ⊢
    exact ⟨_, hread, finish_continues s u minusOne⟩
  · rw [if_neg hout] at hread ⊢
    refine ⟨_, hread, Or.inl ?_⟩
    rw [pc_setPc]
    rfl

/-- Each step of a task in a direct call is the next atomic step of its code. -/
theorem go_left (hfits : (s.pc u).fits False) (hleft : (s.pc u).left u = some a)
    (hstep : s.go L u = some s') (h : Heap) :
    ∃ a', a.Own ⟨s.k, h⟩ a' ⟨s'.k, h⟩ ∧ s'.Continues u a' := by
  have happ : ∀ {r : Ret}, r.fits False → r = .app := by
    intro r hr
    cases r with
    | app => rfl
    | serve c => exact absurd hr id
  cases go_cases hstep with
  | enter op r hpc =>
    rw [hpc] at hfits hleft
    obtain rfl := happ hfits.2
    obtain rfl := Option.some.inj hleft
    refine ⟨_, ?_, runOp_continues s fun hout => ⟨enter_waits hfits.1 hout, rfl⟩⟩
    rw [runOp_k]
    exact .step _ _ _
  | retry op r hpc =>
    rw [hpc] at hfits hleft
    obtain ⟨hop, rfl, _, w, hw, hqueue⟩ := hfits
    obtain rfl := Option.some.inj hleft
    refine ⟨_, ?_, @runOp_continues u op.again (.ret 0) _
      fun hout => absurd hout (again_runs hop hw hqueue _)⟩
    rw [runOp_k]
    exact .step _ _ _
  | block op r hpc =>
    rw [hpc] at hfits hleft
    obtain ⟨hop, rfl, _, hsome⟩ := hfits
    obtain rfl := Option.some.inj hleft
    have hleft' : (({ s with k := portTriggerPendsv s.k }.setPc u (.check op .app)).pc u).left u =
        some (waitedSteps u op) := by
      rw [pc_setPc]
      rfl
    refine ⟨_, ?_, Or.inl hleft'⟩
    cases op with
    | semTake a ms => exact .step _ _ _
    | mutexLock m ms => exact .step _ _ _
    | queuePush q item ms => exact .step _ _ _
    | queuePop q item ms => exact .step _ _ _
    | _ => cases hsome
  | check op r hpc =>
    rw [hpc] at hfits hleft
    obtain ⟨hop, rfl, _, hsome⟩ := hfits
    obtain rfl := Option.some.inj hleft
    cases op with
    | semTake a ms => exact check_continues rfl rfl h
    | mutexLock m ms => exact check_continues rfl rfl h
    | queuePush q item ms => exact @retry_continues s u (.queuePush q item ms) _ rfl rfl h
    | queuePop q item ms => exact @retry_continues s u (.queuePop q item ms) _ rfl rfl h
    | _ => cases hsome
  | wake t v after hpc =>
    rw [hpc] at hfits hleft
    cases after with
    | loop => cases hleft
    | ret r v' =>
      obtain ⟨rfl, hr⟩ := hfits
      obtain rfl := happ hr
      obtain rfl := Option.some.inj hleft
      refine ⟨_, .step _ _ _, Or.inl ?_⟩
      rw [pc_setPc]
      rfl
  | pend after hpc =>
    rw [hpc] at hfits hleft
    cases after with
    | loop => cases hleft
    | ret r v =>
      obtain rfl := happ hfits
      obtain rfl := Option.some.inj hleft
      exact ⟨_, .step _ _ _, finish_continues _ u v⟩
  | _ => simp only [*, Pc.left, reduceCtorEq] at hleft

/-- A step of anybody else leaves a call where it is. -/
theorem step_left {l : Label} (hi : Inv L s g) (hleft : (s.pc u).left u = some a)
    (hnot : ¬ (l.isThread = true ∧ s.k.currentTask = some u)) (hstep : s.step L l = some s') :
    (s'.pc u).left u = some a := by
  rcases step_cases hstep with ⟨_, htick⟩ | ⟨oldSp, k, _, _, _, rfl⟩ | ⟨x, hpend, hcur, hthr⟩
  · rw [htick, (sysTick_frame s).1]
    exact hleft
  · exact hleft
  · have hne : u ≠ x := by
      rintro rfl
      have hth : l.isThread = true := by
        cases l <;> first | rfl | cases hthr
      exact hnot ⟨hth, hcur⟩
    have hlive : g.place u ≠ .fresh := by
      intro hfresh
      have hok := hi.placed.task u
      rw [hfresh] at hok
      have happ : s.pc u = .app := hok.pc
      rw [happ] at hleft
      cases hleft
    rw [(hi.change hcur hpend hthr).pc hi hne hlive]
    exact hleft

/-- By induction on the run: each step of `u` is the next one, all others pass it by. -/
theorem run_left (hL : L.heap.Placed) (hi : Inv L s g) (hu : u ≠ g.worker) (h : Heap)
    (hleft : (s.pc u).left u = some a) (hrun : run (Sys.step L) s labels = some s') :
    ∃ before after v a', labels = before ++ after ∧ run (Sys.step L) s before = some v ∧
      a.Trace (ownStates L u h s before) a' ∧
      ((after = [] ∧ (v.pc u).left u = some a') ∨
        ∃ n, a' = .ret n ∧ v.pc u = .app ∧ v.log.head? = some (.result u n)) := by
  induction labels generalizing s g a with
  | nil =>
    obtain rfl := Option.some.inj hrun
    exact ⟨[], [], s, a, rfl, rfl, .nil a, Or.inl ⟨rfl, hleft⟩⟩
  | cons l labels ih =>
    obtain ⟨v, hv, hrest⟩ := run_cons.mp hrun
    obtain ⟨g', hi', hworker⟩ := hi.step hL hv
    by_cases hown : l.isThread = true ∧ s.k.currentTask = some u
    · have hfits := hi.coded.pcs u
      rw [eq_false hu] at hfits
      obtain happ | ⟨_, hgo⟩ := own_step hown.1 hown.2 hv
      · rw [happ] at hleft
        cases hleft
      obtain ⟨a₁, hstep, hnow | hdone⟩ := go_left hfits hleft hgo h
      · obtain ⟨before, after, x, a', rfl, hbefore, htrace, hend⟩ :=
          ih hi' (by rwa [hworker]) hnow hrest
        refine ⟨l :: before, after, x, a', rfl, run_cons.mpr ⟨v, hv, hbefore⟩, ?_, hend⟩
        simp only [ownStates, hv, if_pos hown]
        exact .cons hstep htrace
      · refine ⟨[l], labels, v, a₁, rfl, run_cons.mpr ⟨v, hv, rfl⟩, ?_, Or.inr hdone⟩
        simp only [ownStates, hv, if_pos hown]
        exact .cons hstep (.nil a₁)
    · have hnow := step_left hi hleft hown hv
      obtain ⟨before, after, x, a', rfl, hbefore, htrace, hend⟩ :=
        ih hi' (by rwa [hworker]) hnow hrest
      refine ⟨l :: before, after, x, a', rfl, run_cons.mpr ⟨v, hv, hbefore⟩, ?_, hend⟩
      simp only [ownStates, hv, if_neg hown]
      exact htrace

end Serial

/-- In every run, a task in a direct call goes through the atomic steps of the call's code one
by one until it returns with their result; what ticks, switches and other tasks do comes
between them. -/
theorem calls_traced {L : Layout} {s s' : Sys} {labels : List Label} (u : Tid) (op : Op)
    (h : Heap) (hL : L.heap.Placed) (hreach : s.Reached L) (hpc : s.pc u = .enter op .app)
    (hrun : run (Sys.step L) s labels = some s') :
    ∃ before after v a, labels = before ++ after ∧ run (Sys.step L) s before = some v ∧
      (callSteps u op).Trace (ownStates L u h s before) a ∧
      ((after = [] ∧ (v.pc u).left u = some a) ∨
        ∃ n, a = .ret n ∧ v.pc u = .app ∧ v.log.head? = some (.result u n)) := by
  obtain ⟨g, hi⟩ := hreach.inv hL
  have hfits := hi.coded.pcs u
  rw [hpc] at hfits
  have hleft : (s.pc u).left u = some (callSteps u op) := by
    rw [hpc]
    rfl
  exact run_left hL hi hfits.2 h hleft hrun

/-- Task 1 delays itself while the tick comes twice: the section and the PendSV request. -/
theorem calls_traced_board : ∃ s s' : Sys, s.Reached boardLayout ∧
    s.pc 1 = .enter (.delay 3) .app ∧
    run (Sys.step boardLayout) s [.tick, .go, .tick, .go] = some s' ∧ s'.pc 1 = .app ∧
    ∃ before after v a, [.tick, .go, .tick, .go] = before ++ after ∧
      run (Sys.step boardLayout) s before = some v ∧
      (callSteps 1 (.delay 3)).Trace (ownStates boardLayout 1 ⟨fun _ => 0, 0, false⟩ s before) a ∧
      ((after = [] ∧ (v.pc 1).left 1 = some a) ∨
        ∃ n, a = .ret n ∧ v.pc 1 = .app ∧ v.log.head? = some (.result 1 n)) := by
  obtain ⟨s, hboard, hpc, hs⟩ := boardRun_comes (boardReady ++ [.call (.taskDelay 3)])
    (P := fun s => s.pc 1 = .enter (.delay 3) .app) (by decide +kernel) fun _ hs => hs
  obtain ⟨s', _, hrun, hend⟩ := boardRun_append [.tick, .go, .tick, .go]
    (P := fun s => s.pc 1 = .app) hboard (by decide +kernel)
  exact ⟨s, s', hs, hpc, hrun, hend,
    calls_traced 1 (.delay 3) _ boardLayout_placed hs hpc hrun⟩

end Crest
