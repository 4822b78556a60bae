import CrestRtos.Properties.MemoryMap
import CrestRtos.Properties.ServiceTime

/-!
# Calls come to an end

Kernel code always has a next step: both searches of the heap end, and a switch is refused
for a stack overflow only. What a task runs inside the kernel has a rank that each of its
own steps lowers and that nobody else's step touches, so a call takes a bounded number of
them. The loop of a queue call goes around once, since its timeout is then 0.
-/

namespace Crest
open IntrusiveList MachineWord Alloc Transition

/-- The own steps that a call still takes, waiting apart. The worker's code has none. -/
def Pc.rank : Pc → Nat
  | .svcRet => 1
  | .spawnFree _ => 1
  | .spawnAdd _ _ _ => 1
  | .pend (.ret _ _) => 1
  | .queueFree _ _ => 1
  | .publish _ _ _ => 1
  | .spawnStack _ _ => 2
  | .wake _ _ (.ret _ _) => 2
  | .queueBuffer _ _ => 2
  | .spawnTcb _ => 3
  | .retry _ _ => 3
  | .create _ _ => 3
  | .check _ _ => 4
  | .block _ _ => 5
  | .enter _ _ => 6
  | _ => 0

/-- The steps of `labels` from `s` that `u` takes. -/
def ownSteps (L : Layout) (u : Tid) : Sys → List Label → Nat
  | _, [] => 0
  | s, l :: labels =>
    (if l.isThread = true ∧ s.k.currentTask = some u then 1 else 0) +
      match s.step L l with
      | none => 0
      | some s' => ownSteps L u s' labels

section Ranks
variable {L : Layout} {s s' : Sys} {g : Ghost} {u t : Tid} {op : Op} {labels : List Label}

theorem finish_rank (s : Sys) (u : Tid) (v : Nat) : (s.finish u .app v).pc u = .app := by
  simp [Sys.finish, Sys.setPc, Sys.note]

theorem setPc_rank (s : Sys) (u : Tid) (p : Pc) : ((s.setPc u p).pc u).rank = p.rank := by
  simp [Sys.setPc]

/-- The second pass of a queue call does not block. -/
theorem again_runs (hop : op.fits .app) {w : WaitList} (hw : op.waitList = some w)
    (hqueue : w.isQueue = true) (k : Kernel) : (op.again.enter k u).2 ≠ .block := by
  have hwake : ∀ k w, (wakeFirst k w).2 ≠ .block := by
    intro k w
    rw [wakeFirst]
    split <;> simp
  cases op with
  | queuePush q item ms =>
    rw [Op.again, Op.enter, zImplQueuePush]
    split
    · exact hwake _ _
    · simp
  | queuePop q item ms =>
    rw [Op.again, Op.enter, zImplQueuePop]
    split
    · exact hwake _ _
    · simp
  | semTake a ms =>
    obtain rfl := Option.some.inj hw
    cases hqueue
  | mutexLock m ms =>
    obtain rfl := Option.some.inj hw
    cases hqueue
  | semTryTake a caller ms => exact absurd hop id
  | mutexTryLock m caller ms => exact absurd hop id
  | mutexUnlockFor m owner => exact absurd hop id
  | semGive a => cases hw
  | mutexUnlock m => cases hw
  | delay ticks => cases hw

theorem runOp_rank (s : Sys) (u : Tid) (op : Op) : ((s.runOp u op .app).pc u).rank ≤ 5 := by
  rw [runOp_pc_self]
  cases (op.enter s.k u).2 with
  | ret v => exact Nat.zero_le _
  | block =>
    simp only
    split <;> simp [Pc.rank]
  | wake t v => simp [Pc.rank]
  | pend v => simp [Pc.rank]

theorem runOp_rank_again (s : Sys) (u : Tid) (hnot : (op.enter s.k u).2 ≠ .block) :
    ((s.runOp u op .app).pc u).rank ≤ 2 := by
  rw [runOp_pc_self]
  cases hout : (op.enter s.k u).2 with
  | ret v => exact Nat.zero_le _
  | block => exact absurd hout hnot
  | wake t v => simp [Pc.rank]
  | pend v => simp [Pc.rank]

/-- Each step of a task's own kernel code lowers its rank. -/
theorem go_rank (hfits : (s.pc u).fits False) (hstep : s.go L u = some s') :
    (s'.pc u).rank < (s.pc u).rank := by
  have happ : ∀ {r : Ret}, r.fits False → r = .app := by
    intro r hr
    cases r with
    | app => rfl
    | serve c => exact absurd hr id
  cases go_cases hstep with
  | svcRet hpc =>
    rw [hpc]
    change ((s.setPc u .app).pc u).rank < _
    rw [setPc_rank]
    exact Nat.zero_lt_succ _
  | enter op r hpc =>
    rw [hpc] at hfits ⊢
    obtain rfl := happ hfits.2
    exact Nat.lt_succ_of_le (runOp_rank s u op)
  | retry op r hpc =>
    rw [hpc] at hfits ⊢
    obtain ⟨hop, rfl, _, w, hw, hqueue⟩ := hfits
    exact Nat.lt_succ_of_le (runOp_rank_again _ u (again_runs hop hw hqueue _))
  | block op r hpc =>
    rw [hpc, setPc_rank]
    exact Nat.lt_succ_self _
  | check op r hpc =>
    rw [hpc] at hfits ⊢
    obtain ⟨_, rfl, _, hsome⟩ := hfits
    rw [Sys.checkWait]
    cases hw : op.waitList with
    | none =>
      rw [hw] at hsome
      cases hsome
    | some w =>
      simp only
      split
      · split
        · rw [finish_rank]
          exact Nat.zero_lt_succ _
        · rw [setPc_rank]
          exact Nat.lt_succ_self _
      · split
        · rw [finish_rank]
          exact Nat.zero_lt_succ _
        · rw [finish_rank]
          exact Nat.zero_lt_succ _
  | wake t v after hpc =>
    rw [hpc] at hfits ⊢
    rw [setPc_rank]
    cases after with
    | ret r v => exact Nat.lt_succ_self _
    | loop => exact absurd hfits id
  | pend after hpc =>
    rw [hpc] at hfits ⊢
    cases after with
    | ret r v =>
      obtain rfl := happ hfits
      change ((Sys.finish _ u .app v).pc u).rank < _
      rw [finish_rank]
      exact Nat.zero_lt_succ _
    | loop => exact absurd hfits id
  | create c r s' hpc hrun =>
    rw [hpc] at hfits ⊢
    obtain rfl := happ hfits
    rw [Sys.create] at hrun
    obtain ⟨⟨k, p⟩, halloc, rfl⟩ := Option.map_eq_some_iff.mp hrun
    simp only
    split
    · rw [finish_rank]
      exact Nat.zero_lt_succ _
    · cases c <;> rw [setPc_rank] <;> simp [Pc.rank]
  | queueBuffer p r k ok hpc hrun =>
    rw [hpc, setPc_rank]
    cases ok <;> exact Nat.lt_succ_self _
  | queueFree p r k hpc hrun =>
    rw [hpc] at hfits ⊢
    obtain rfl := happ hfits
    rw [finish_rank]
    exact Nat.zero_lt_succ _
  | publish p type r hpc =>
    rw [hpc] at hfits ⊢
    obtain rfl := happ hfits
    rw [finish_rank]
    exact Nat.zero_lt_succ _
  | spawnNone args hpc hfree =>
    rw [hpc, finish_rank]
    exact Nat.zero_lt_succ _
  | spawnTcb args k t hpc hfree =>
    rw [hpc, setPc_rank]
    exact Nat.lt_succ_self _
  | spawnStack t args heap alloc hpc hrun =>
    rw [hpc, setPc_rank]
    split <;> exact Nat.lt_succ_self _
  | spawnFree t hpc =>
    rw [hpc, finish_rank]
    exact Nat.zero_lt_succ _
  | spawnAdd t alloc args hpc =>
    rw [hpc, finish_rank]
    exact Nat.zero_lt_succ _
  | workerStart hpc =>
    rw [hpc] at hfits
    exact absurd hfits id
  | popNone hpc hpop =>
    rw [hpc] at hfits
    exact absurd hfits id
  | popSome k item hpc hpop =>
    rw [hpc] at hfits
    exact absurd hfits id
  | workerSleep hpc =>
    rw [hpc] at hfits
    exact absurd hfits id
  | dispatch item hpc =>
    rw [hpc] at hfits
    exact absurd hfits id

/-- The steps that a task takes are those of its own code, system calls with them, and those of
the kernel code it is in. -/
theorem own_step {l : Label} (hth : l.isThread = true) (hcur : s.k.currentTask = some u)
    (hstep : s.step L l = some s') : s.pc u = .app ∨ l = .go ∧ s.go L u = some s' := by
  rcases step_cases hstep with ⟨rfl, _⟩ | ⟨oldSp, k, rfl, _⟩ | ⟨x, _, hx, hthr⟩
  · cases hth
  · cases hth
  obtain rfl := Option.some.inj (hcur.symm.trans hx)
  cases l with
  | go => exact Or.inr ⟨rfl, hthr⟩
  | tick => cases hth
  | pendSV oldSp => cases hth
  | _ =>
    rw [Sys.thread] at hthr
    split at hthr
    · rename_i hc
      exact Or.inl (by first | exact hc.1 | exact hc)
    · cases hthr

/-- A step of a task that is in the kernel is its code's, everybody else's passes it by. -/
theorem step_rank {l : Label} (hfits : (s.pc u).fits False) (hinside : s.pc u ≠ .app)
    (hstep : s.step L l = some s') : s'.pc u = .app ∨
      (if l.isThread = true ∧ s.k.currentTask = some u then 1 else 0) +
        (s'.pc u).rank ≤ (s.pc u).rank := by
  obtain ⟨hl, htick⟩ | ⟨oldSp, k, hl, _, _, rfl⟩ | ⟨v, hpend, hcur, hthread⟩ := step_cases hstep
  · right
    rw [if_neg (by simp [hl, Label.isThread]), htick, (sysTick_frame s).1]
    omega
  · right
    rw [if_neg (by simp [hl, Label.isThread])]
    exact le_of_eq (Nat.zero_add _)
  · by_cases hv : v = u
    · subst hv
      have hth : l.isThread = true := by
        cases l <;> first | rfl | cases hthread
      obtain happ | ⟨rfl, hgo⟩ := own_step hth hcur hstep
      · exact absurd happ hinside
      · right
        have hless := go_rank hfits hgo
        rw [if_pos ⟨rfl, hcur⟩]
        omega
    · have hne : ¬ s.k.currentTask = some u := by
        rw [hcur]
        exact fun heq => hv (Option.some.inj heq)
      rw [if_neg fun h => hne h.2, Nat.zero_add]
      have hkeep : ∀ {s₁ : Sys} {p : Pc}, (s₁.setPc v p).pc u = s₁.pc u := fun {_ _} =>
        Function.update_of_ne (Ne.symm hv) _ _
      cases l with
      | tick => cases hthread
      | pendSV oldSp => cases hthread
      | go =>
        rcases go_pc_other hthread (Ne.symm hv) with hsame | happ
        · exact Or.inr (by rw [hsame])
        · exact Or.inl happ
      | svc id a0 a1 a2 a3 =>
        rw [Sys.thread] at hthread
        split at hthread
        · obtain rfl := Option.some.inj hthread
          exact Or.inr (le_of_eq (congrArg Pc.rank hkeep))
        · cases hthread
      | call c =>
        rw [Sys.thread] at hthread
        split at hthread
        · obtain rfl := Option.some.inj hthread
          exact Or.inr (le_of_eq (congrArg Pc.rank (call_pc_other s c (Ne.symm hv))))
        · cases hthread
      | compute r0 ram =>
        rw [Sys.thread] at hthread
        split at hthread
        · obtain rfl := Option.some.inj hthread
          exact Or.inr (Nat.le_refl _)
        · cases hthread

/-- A run either comes to the end of the call, or the steps that `u` takes in it are paid
for by its rank. -/
theorem run_rank (hL : L.heap.Placed) (h : Inv L s g) (hu : u ≠ g.worker)
    (hrun : run (Sys.step L) s labels = some s') :
    (∃ before after v, labels = before ++ after ∧ run (Sys.step L) s before = some v ∧
      v.pc u = .app) ∨ ownSteps L u s labels + (s'.pc u).rank ≤ (s.pc u).rank := by
  induction labels generalizing s g with
  | nil =>
    obtain rfl := Option.some.inj hrun
    exact Or.inr (by simp [ownSteps])
  | cons l labels ih =>
    by_cases happ : s.pc u = .app
    · exact Or.inl ⟨[], l :: labels, s, rfl, rfl, happ⟩
    obtain ⟨v, hv, hrest⟩ := run_cons.mp hrun
    obtain ⟨g', hg', hworker⟩ := h.step hL hv
    have hfits := h.coded.pcs u
    rw [eq_false hu] at hfits
    rcases step_rank hfits happ hv with hdone | hless
    · exact Or.inl ⟨[l], labels, v, rfl, run_cons.mpr ⟨v, hv, rfl⟩, hdone⟩
    · rcases ih hg' (by rwa [hworker]) hrest with ⟨before, after, x, rfl, hbefore, hx⟩ | hcount
      · exact Or.inl ⟨l :: before, after, x, rfl, run_cons.mpr ⟨v, hv, hbefore⟩, hx⟩
      · right
        simp only [ownSteps, hv]
        omega

theorem rank_le (p : Pc) : p.rank ≤ 6 := by
  cases p with
  | wake t v after => cases after <;> simp [Pc.rank]
  | pend after => cases after <;> simp [Pc.rank]
  | _ => simp [Pc.rank]

/-- A switch takes place unless the saved stack pointer lies below the stack. -/
theorem portSwitchContext_some (hcur : s.k.currentTask = some u) (oldSp : Nat) :
    (∃ k, portSwitchContext L s.k oldSp = some k) ↔ (s.k.tcb u).stackBase ≤ oldSp := by
  constructor
  · rintro ⟨k, hk⟩
    obtain ⟨k₁, hsave, _⟩ := portSwitchContext_cases hk
    rw [saveCurrent] at hsave
    simp only [hcur] at hsave
    by_contra hlow
    rw [if_pos (Nat.lt_of_not_le hlow)] at hsave
    cases hsave
  · intro hle
    rw [portSwitchContext, saveCurrent]
    simp only [hcur, if_neg (Nat.not_lt.mpr hle)]
    split
    · exact ⟨_, rfl⟩
    · split <;> exact ⟨_, rfl⟩

end Ranks

/-- Whatever the other tasks and the interrupts do in between, a task that is inside the
kernel, the worker apart, is back in its own code before it takes a seventh step there. -/
theorem calls_end {L : Layout} {s s' : Sys} {labels : List Label} (u : Tid)
    (hL : L.heap.Placed) (h : s.Reached L) (hu : s.k.kernelTcb ≠ some u)
    (hstart : s.pc u ≠ .workerStart) (hrun : run (Sys.step L) s labels = some s') :
    (∃ before after v, labels = before ++ after ∧ run (Sys.step L) s before = some v ∧
      v.pc u = .app) ∨ ownSteps L u s labels ≤ 6 := by
  obtain ⟨g, hg⟩ := h.inv hL
  have hworker : u ≠ g.worker := by
    rintro rfl
    apply hu
    rw [hg.coded.kernel, if_neg hstart]
  rcases run_rank hL hg hworker hrun with hdone | hcount
  · exact Or.inl hdone
  · have hrank := rank_le (s.pc u)
    exact Or.inr (by omega)

/-- Task 1 makes a queue while the tick comes twice: three steps of its own. -/
theorem calls_end_board : ∃ s s' : Sys, s.Reached boardLayout ∧
    s.pc 1 = .create (.queue 4 2) .app ∧
    run (Sys.step boardLayout) s [.go, .tick, .go, .tick, .go] = some s' ∧ s'.pc 1 = .app ∧
    ((∃ before after v, [.go, .tick, .go, .tick, .go] = before ++ after ∧
      run (Sys.step boardLayout) s before = some v ∧ v.pc 1 = .app) ∨
      ownSteps boardLayout 1 s [.go, .tick, .go, .tick, .go] ≤ 6) := by
  obtain ⟨s, hboard, ⟨hkernel, hpc⟩, hs⟩ :=
    boardRun_comes (boardReady ++ [.call (.create (.queue 4 2))]) (P := fun s =>
      s.k.kernelTcb ≠ some 1 ∧ s.pc 1 = .create (.queue 4 2) .app)
      (by decide +kernel) fun _ hs => hs
  obtain ⟨s', _, hrun, hend⟩ := boardRun_append [.go, .tick, .go, .tick, .go]
    (P := fun s => s.pc 1 = .app) hboard (by decide +kernel)
  have hinside : s.pc 1 ≠ .workerStart := by
    rw [hpc]
    simp
  exact ⟨s, s', hs, hpc, hrun, hend, calls_end 1 boardLayout_placed hs hkernel hinside hrun⟩

end Crest
