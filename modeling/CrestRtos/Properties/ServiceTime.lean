import CrestRtos.Properties.WorkerFirst

/-!
# How soon a syscall is served

Every piece of the worker's code has a rank, and an item in the ring counts for more
than all of them. A step of the worker lowers the sum, so the worker comes to rest
after a bounded number of its own steps, whatever ticks and switches come in between.
-/

namespace Crest
open IntrusiveList MachineWord Alloc Transition

/-- How far the code is from the worker's next sleep, items in the ring apart. -/
def Pc.work : Pc → Nat
  | .workerSleep => 1
  | .workerPop => 2
  | .workerStart => 3
  | .pend .loop => 3
  | .wake _ _ .loop => 4
  | .pend (.ret _ _) => 5
  | .queueFree _ _ => 5
  | .publish _ _ _ => 5
  | .wake _ _ (.ret _ _) => 6
  | .queueBuffer _ _ => 6
  | .create _ _ => 7
  | .enter _ _ => 7
  | .dispatch _ => 8
  | _ => 0

def Sys.work (s : Sys) (w : Tid) : Nat := 7 * s.k.kwork.length + (s.pc w).work

/-- A step of the task on the CPU. -/
def Label.isThread : Label → Bool
  | .tick => false
  | .pendSV _ => false
  | _ => true

section Work
variable {L : Layout} {s s' : Sys} {g : Ghost} {u t w : Tid} {l : Label} {labels : List Label}

theorem finish_work (s : Sys) (u : Tid) (r : Ret) (v : Nat) :
    ((s.finish u r v).pc u).work ≤ 4 := by
  cases r <;> simp [Sys.finish, Sys.setPc, Sys.note, Pc.work]

theorem setPc_work (s : Sys) (u : Tid) (p : Pc) : ((s.setPc u p).pc u).work = p.work := by
  simp [Sys.setPc]

theorem runOp_work (s : Sys) (u : Tid) (op : Op) (r : Ret) :
    ((s.runOp u op r).pc u).work ≤ 6 := by
  rw [runOp_pc_self]
  cases (op.enter s.k u).2 with
  | ret v => cases r <;> simp [Ret.next, Pc.work]
  | block =>
    simp only
    split <;> simp [Pc.work]
  | wake t v => simp [Pc.work]
  | pend v => simp [Pc.work]

/-- The worker's code is always some steps from its sleep. -/
theorem work_pos {p : Pc} (hfits : p.fits True) : 1 ≤ p.work := by
  cases p with
  | app => exact absurd trivial hfits
  | idle => exact absurd trivial hfits
  | svcRet => exact absurd trivial hfits
  | retry op r => exact absurd trivial hfits.2.2.1
  | block op r => exact absurd trivial hfits.2.2.1
  | check op r => exact absurd trivial hfits.2.2.1
  | wake t v after => cases after <;> simp [Pc.work]
  | pend after => cases after <;> simp [Pc.work]
  | spawnTcb args => exact absurd trivial hfits.1
  | spawnStack t args => exact absurd trivial hfits.1
  | spawnFree t => exact absurd trivial hfits
  | spawnAdd t alloc args => exact absurd trivial hfits.1
  | _ => simp [Pc.work]

/-- Apart from the pop and the sleep, a step of the worker's code lowers its rank. -/
theorem go_work (hfits : (s.pc u).fits True) (hpop : s.pc u ≠ .workerPop)
    (hsleep : s.pc u ≠ .workerSleep) (hstep : s.go L u = some s') :
    (s'.pc u).work < (s.pc u).work := by
  cases go_cases hstep with
  | svcRet hpc =>
    rw [hpc] at hfits
    exact absurd trivial hfits
  | enter op r hpc =>
    rw [hpc]
    exact Nat.lt_succ_of_le (runOp_work s u op r)
  | retry op r hpc =>
    rw [hpc] at hfits
    exact absurd trivial hfits.2.2.1
  | block op r hpc =>
    rw [hpc] at hfits
    exact absurd trivial hfits.2.2.1
  | check op r hpc =>
    rw [hpc] at hfits
    exact absurd trivial hfits.2.2.1
  | wake t v after hpc =>
    rw [hpc, setPc_work]
    cases after <;> simp [Pc.work]
  | pend after hpc =>
    rw [hpc]
    cases after with
    | ret r v => exact Nat.lt_succ_of_le (finish_work _ u r v)
    | loop =>
      change ((Sys.setPc _ u .workerPop).pc u).work < _
      rw [setPc_work]
      simp [Pc.work]
  | workerStart hpc =>
    rw [hpc, setPc_work]
    simp [Pc.work]
  | popNone hpc _ => exact absurd hpc hpop
  | popSome k item hpc _ => exact absurd hpc hpop
  | workerSleep hpc => exact absurd hpc hsleep
  | dispatch item hpc =>
    rw [hpc, Sys.dispatch]
    cases decode s.k item <;> simp only [setPc_work] <;> simp [Pc.work]
  | create c r s' hpc hrun =>
    rw [Sys.create] at hrun
    obtain ⟨⟨k, p⟩, halloc, rfl⟩ := Option.map_eq_some_iff.mp hrun
    rw [hpc]
    simp only
    split
    · have hend := finish_work { s with k := k } u r kobjInvalid
      exact Nat.lt_of_le_of_lt hend (by simp [Pc.work])
    · cases c <;> simp only [setPc_work] <;> simp [Pc.work]
  | queueBuffer p r k ok hpc hrun =>
    rw [hpc, setPc_work]
    cases ok <;> simp [Pc.work]
  | queueFree p r k hpc hrun =>
    rw [hpc]
    exact Nat.lt_succ_of_le (finish_work _ u r _)
  | publish p type r hpc =>
    rw [hpc]
    exact Nat.lt_succ_of_le (finish_work _ u r _)
  | spawnNone args hpc hfree =>
    rw [hpc] at hfits
    exact absurd trivial hfits.1
  | spawnTcb args k t hpc hfree =>
    rw [hpc] at hfits
    exact absurd trivial hfits.1
  | spawnStack t args heap alloc hpc hrun =>
    rw [hpc] at hfits
    exact absurd trivial hfits.1
  | spawnFree t hpc =>
    rw [hpc] at hfits
    exact absurd trivial hfits
  | spawnAdd t alloc args hpc =>
    rw [hpc] at hfits
    exact absurd trivial hfits.1

/-- A step that leaves the worker awake is the worker's own, and lowers its rank. -/
theorem Sys.Served.thread_work (h : s.Served L w) (hawake : (s.k.tcb w).state ≠ .waiting)
    (hcur : s.k.currentTask = some u) (hpend : s.k.pendsv = false)
    (hstep : s.thread L u l = some s') :
    u = w ∧ ((s'.k.tcb w).state = .waiting ∨ s'.work w < s.work w) := by
  obtain ⟨g, hg, rfl, hw, hf⟩ := h
  have hu : u = g.worker := by
    by_contra hne
    exact hawake (hf.first u hcur hne hpend)
  subst hu
  refine ⟨rfl, ?_⟩
  have hfits := hg.coded.pcs g.worker
  rw [eq_self] at hfits
  have hgo : l = .go := by
    cases l with
    | go => rfl
    | tick => cases hstep
    | pendSV oldSp => cases hstep
    | _ =>
      rw [Sys.thread] at hstep
      split at hstep
      · rename_i hc
        rw [show s.pc g.worker = .app from by first | exact hc.1 | exact hc] at hfits
        exact absurd trivial hfits
      · cases hstep
  subst hgo
  by_cases hsleep : s.pc g.worker = .workerSleep
  · left
    have hkernel := hg.coded.kernel
    rw [hsleep, if_neg (by simp)] at hkernel
    simp only [Sys.thread, Sys.go, hsleep, Option.some.injEq] at hstep
    subst hstep
    simp [Sys.setPc, workerWait, hkernel]
  · right
    rw [Sys.work, Sys.work]
    by_cases hpop : s.pc g.worker = .workerPop
    · cases hring : kworkPopLocked s.k with
      | none =>
        simp only [Sys.thread, Sys.go, hpop, hring, Option.some.injEq] at hstep
        subst hstep
        change 7 * s.k.kwork.length + ((s.setPc g.worker .workerSleep).pc g.worker).work < _
        rw [setPc_work, hpop]
        simp [Pc.work]
      | some found =>
        obtain ⟨k, item⟩ := found
        simp only [Sys.thread, Sys.go, hpop, hring, Option.some.injEq] at hstep
        subst hstep
        obtain ⟨_, hitems⟩ := kworkPop_some hg.coded.head hg.coded.tail hring
        rw [setPc_work, hpop, hitems, List.length_cons]
        change 7 * k.kwork.length + 8 < 7 * (k.kwork.length + 1) + 2
        omega
    · have hless := go_work hfits hpop hsleep hstep
      rcases hg.go_kwork hstep with hsame | ⟨item, hpc, _, _⟩
      · rw [hsame]
        omega
      · exact absurd hpc hpop

/-- Interrupts leave the rank alone. -/
theorem interrupt_work (w : Tid) (hl : l.isThread = false)
    (hstep : s.step L l = some s') : s'.work w = s.work w := by
  have hboth : s'.pc = s.pc ∧ s.k.Spares s'.k w := by
    obtain ⟨_, htick⟩ | ⟨oldSp, k', _, _, hrun, rfl⟩ | ⟨u, _, _, hthread⟩ := step_cases hstep
    · have hspares := spares_sysTick s w
      have hpc := (sysTick_frame s).1
      rw [← htick] at hspares hpc
      exact ⟨hpc, hspares⟩
    · exact ⟨rfl, spares_switch hrun⟩
    · cases l with
      | tick => cases hthread
      | pendSV oldSp => cases hthread
      | _ => cases hl
  rw [Sys.work, Sys.work, hboth.1, kwork_of_ring hboth.2.ring]

/-- Steps of `labels` from `s` that tasks take, and `w` takes all of them. -/
structure OwnSteps (L : Layout) (w : Tid) (s : Sys) (labels : List Label) : Prop where
  own : ∀ before l after v, labels = before ++ l :: after →
    run (Sys.step L) s before = some v → l.isThread = true → v.k.currentTask = some w

theorem ownSteps_nil : OwnSteps L w s [] := by
  constructor
  intro before l after v hsplit
  simp at hsplit

theorem OwnSteps.cons (h : OwnSteps L w s' labels) (hstep : s.step L l = some s')
    (hown : l.isThread = true → s.k.currentTask = some w) : OwnSteps L w s (l :: labels) := by
  constructor
  intro before l' after v hsplit hrun hl'
  cases before with
  | nil =>
    obtain ⟨rfl, rfl⟩ := List.cons.inj hsplit
    obtain rfl := Option.some.inj hrun
    exact hown hl'
  | cons m before =>
    obtain ⟨rfl, hrest⟩ := List.cons.inj hsplit
    obtain ⟨v', hv', hrun'⟩ := run_cons.mp hrun
    obtain rfl := Option.some.inj (hstep.symm.trans hv')
    exact h.own before l' after v hrest hrun' hl'

/-- A run either stays with the worker, its rank falling with every step that a task takes, or
comes to a state in which the worker rests. -/
theorem Sys.Served.rests (hL : L.heap.Placed) (h : s.Served L w)
    (hawake : (s.k.tcb w).state ≠ .waiting) (hbelow : ∀ l ∈ labels, l.below = true)
    (hrun : run (Sys.step L) s labels = some s') :
    (labels.countP Label.isThread + s'.work w ≤ s.work w ∧ s'.Served L w) ∨
    ∃ before after v, labels = before ++ after ∧ run (Sys.step L) s before = some v ∧
      (v.k.tcb w).state = .waiting ∧ v.Served L w ∧
      before.countP Label.isThread ≤ s.work w ∧ OwnSteps L w s before := by
  induction labels generalizing s with
  | nil =>
    obtain rfl := Option.some.inj hrun
    exact Or.inl ⟨by simp, h⟩
  | cons l labels ih =>
    obtain ⟨v, hv, hrest⟩ := run_cons.mp hrun
    have hnext := h.step hL (hbelow l List.mem_cons_self) hv
    have hpos : 1 ≤ s.work w := by
      obtain ⟨g, hg, rfl, _, _⟩ := h
      have hfits := hg.coded.pcs g.worker
      rw [eq_self] at hfits
      exact (work_pos hfits).trans (Nat.le_add_left _ _)
    have hcost : (l.isThread = true → s.k.currentTask = some w) ∧
        ((v.k.tcb w).state ≠ .waiting → [l].countP Label.isThread + v.work w ≤ s.work w) := by
      cases hl : l.isThread with
      | false =>
        have hsame := interrupt_work w hl hv
        refine ⟨fun hbad => absurd hbad (by simp), fun _ => ?_⟩
        simp [hl, hsame]
      | true =>
        obtain ⟨rfl, _⟩ | ⟨_, _, rfl, _⟩ | ⟨u, hpend, hcur, hthread⟩ := step_cases hv
        · cases hl
        · cases hl
        · obtain ⟨rfl, hless⟩ := h.thread_work hawake hcur hpend hthread
          refine ⟨fun _ => hcur, fun hstill => ?_⟩
          have := hless.resolve_left hstill
          simp only [List.countP_cons, List.countP_nil, hl, if_true]
          omega
    by_cases hwait : (v.k.tcb w).state = .waiting
    · right
      refine ⟨[l], labels, v, rfl, run_cons.mpr ⟨v, hv, rfl⟩, hwait, hnext, ?_,
        ownSteps_nil.cons hv hcost.1⟩
      exact List.countP_le_length.trans hpos
    · have hless := hcost.2 hwait
      rw [show [l].countP Label.isThread = if l.isThread = true then 1 else 0 from by
        simp [List.countP_cons]] at hless
      rcases ih hnext hwait (fun x hx => hbelow x (List.mem_cons_of_mem l hx)) hrest with
        ⟨hcount, hend⟩ | ⟨before, after, x, rfl, hbefore, hx, hxs, hcount, hown⟩
      · left
        rw [List.countP_cons]
        exact ⟨by omega, hend⟩
      · right
        refine ⟨l :: before, after, x, rfl, run_cons.mpr ⟨v, hv, hbefore⟩, hx, hxs, ?_,
          hown.cons hv hcost.1⟩
        rw [List.countP_cons]
        omega

/-- Behind the gate the worker is awake and ten steps at most from its next rest. -/
theorem Sys.Served.posted {id a0 a1 a2 a3 : Nat} (hL : L.heap.Placed) (h : s.Served L w)
    (hstep : s.step L (.svc id a0 a1 a2 a3) = some s') :
    s'.Served L w ∧ (s'.k.tcb w).state ≠ .waiting ∧ s'.work w ≤ 10 := by
  have h' := h.step hL rfl hstep
  refine ⟨h', ?_⟩
  obtain ⟨g, hg, rfl, hw, hf⟩ := h
  obtain ⟨hl, _⟩ | ⟨_, _, hl, _⟩ | ⟨u, hpend, hcur, hthread⟩ := step_cases hstep
  · cases hl
  · cases hl
  · rw [Sys.thread] at hthread
    split at hthread
    · rename_i hc
      obtain rfl := Option.some.inj hthread
      have hne : u ≠ g.worker := hg.app_not_worker hc.1
      have hwait := hf.first u hcur hne hpend
      have hring := (@Inv.svc_posted _ _ _ ⟨id, a0, a1, a2, a3, u⟩ hg hc.1).kwork
      rw [hw.asleep hwait] at hring
      constructor
      · intro hbad
        obtain ⟨_, _, _, hw', _⟩ := h'
        have hempty : (svcHandler s.k ⟨id, a0, a1, a2, a3, u⟩).kwork = [] := hw'.asleep hbad
        rw [hempty] at hring
        cases hring
      · have hrest := hf.resting hwait
        have hpc : Function.update s.pc u .svcRet g.worker = s.pc g.worker :=
          Function.update_of_ne hne.symm _ _
        change 7 * (svcHandler s.k _).kwork.length + (Function.update s.pc u .svcRet g.worker).work
          ≤ 10
        rw [hring, hpc]
        rcases hrest with hpc | hpc <;> rw [hpc] <;> simp [Pc.work]
    · cases hthread

end Work

/-- After a syscall the tasks take at most ten steps before the worker rests on an empty ring
again, all of them the worker's own. By then every syscall has been answered or has brought its
caller to a wait list. -/
theorem syscall_served {L : Layout} {s s₁ s' : Sys} {w : Tid} {id a0 a1 a2 a3 : Nat}
    {labels : List Label} (hL : L.heap.Placed) (h : s.ReachedBelow L w)
    (hpost : s.step L (.svc id a0 a1 a2 a3) = some s₁) (hbelow : ∀ l ∈ labels, l.below = true)
    (hrun : run (Sys.step L) s₁ labels = some s')
    (hlong : 10 ≤ labels.countP Label.isThread) :
    ∃ before after t, labels = before ++ after ∧ run (Sys.step L) s₁ before = some t ∧
      before.countP Label.isThread ≤ 10 ∧ OwnSteps L w s₁ before ∧
      (t.k.tcb w).state = .waiting ∧ t.k.kwork = [] ∧ ∃ W, Lists t.k W ∧
        ∀ x, (t.k.tcb x).svcBlocked = true →
          (∃ list, x ∈ W list) ∨ ∃ v, v ≠ w ∧ (t.pc v).wakes = some x := by
  obtain ⟨hs₁, hawake, hten⟩ := (h.served hL).posted hL hpost
  rcases hs₁.rests hL hawake hbelow hrun with
    ⟨hcount, g, hg, rfl, _, _⟩ | ⟨before, after, t, hsplit, hbefore, hwait, ht, hcount, hown⟩
  · have hfits := hg.coded.pcs g.worker
    rw [eq_self] at hfits
    have hpos : 1 ≤ s'.work g.worker := (work_pos hfits).trans (Nat.le_add_left _ _)
    omega
  · obtain ⟨g, hg, rfl, hw, hf⟩ := ht
    exact ⟨before, after, t, hsplit, hbefore, hcount.trans hten, hown, hwait, hw.asleep hwait,
      g.lists, hg.placed.lists, fun x hx => hf.blocked hg hw hwait hx⟩

/-- A delay of task 1: the worker pops it, puts the caller to sleep and rests, and task 2 goes
on. -/
theorem syscall_served_board : ∃ s s₁ : Sys, s.ReachedBelow boardLayout 0 ∧
    s.step boardLayout (.svc syscallDelay 5 0 0 0) = some s₁ ∧
    ∃ before after t, [.pendSV 0x2001F000, .go, .go, .go, .go, .go, .pendSV 0x2001F000] ++
        List.replicate 5 (Label.compute 0 fun _ => 0) = before ++ after ∧
      run (Sys.step boardLayout) s₁ before = some t ∧ before.countP Label.isThread ≤ 10 ∧
      OwnSteps boardLayout 0 s₁ before ∧ (t.k.tcb 0).state = .waiting := by
  obtain ⟨s, hs, _⟩ := boardRun_comes (boardReady ++ [.call .setUnprivileged])
    (P := fun _ => True) (by decide +kernel) fun _ hs => hs
  obtain ⟨s₁, hs₁, hpost, _⟩ := boardRun_snoc (l := .svc syscallDelay 5 0 0 0)
    (P := fun _ => True) hs (by decide +kernel)
  obtain ⟨_, _, hrun, _⟩ := boardRun_append ([.pendSV 0x2001F000, .go, .go, .go, .go, .go,
    .pendSV 0x2001F000] ++ List.replicate 5 (Label.compute 0 fun _ => 0)) (P := fun _ => True) hs₁
    (by decide +kernel)
  obtain ⟨before, after, t, hsplit, hbefore, hcount, hown, hwait, _⟩ :=
    syscall_served boardLayout_placed (boardRun_below hs (by decide)) hpost
      (List.all_eq_true.mp (by decide)) hrun (by decide)
  exact ⟨s, s₁, boardRun_below hs (by decide), hpost, before, after, t, hsplit, hbefore,
    hcount, hown, hwait⟩

end Crest
