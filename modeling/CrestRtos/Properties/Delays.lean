import CrestRtos.System.Changes
import CrestRtos.System.Clock

/-!
# Delays

A task that sleeps with `d` ticks to go stays asleep through every step but the
tick, and each tick takes one off. `task_delay(n)` called directly returns at
once for 0; through the syscall it sleeps with 0 ticks to go, which no tick ends.
-/

namespace Crest
open MachineWord Alloc Transition

/-- `t` sleeps, with `d` ticks to go. -/
structure Asleep (s : Sys) (t : Tid) (d : Nat) : Prop where
  state : (s.k.tcb t).state = .waiting
  left : (s.k.tcb t).delayTicks = d
  list : (s.k.tcb t).blockingWaitList = none
  svc : (s.k.tcb t).svcBlocked = false
  pc : s.pc t = .svcRet ∨ s.pc t = .app ∨ ∃ v, s.pc t = .pend (.ret .app v)

section Asleep
variable {L : Layout} {s s' : Sys} {g : Ghost} {t u : Tid} {d : Nat}

theorem Asleep.own (ha : Asleep s t d) (h : Inv L s g) : g.place t = .own := by
  have hview := h.placed.task t
  have hroute : ∀ w, ¬ (s.view t).Route w := by
    rintro w (⟨hsvc, _⟩ | ⟨_, hwaits, _⟩)
    · exact absurd (ha.svc.symm.trans hsvc) (by simp)
    · have hpc : (s.pc t).waits = some w := hwaits
      rcases ha.pc with hp | hp | ⟨v, hp⟩ <;> rw [hp] at hpc <;> cases hpc
  cases hplace : g.place t with
  | own => rfl
  | fresh =>
    rw [hplace] at hview
    exact absurd (ha.state.symm.trans hview.state) (by simp)
  | ring =>
    rw [hplace] at hview
    exact absurd (ha.svc.symm.trans hview.svc) (by simp)
  | served u =>
    rw [hplace] at hview
    exact absurd (ha.svc.symm.trans hview.svc) (by simp)
  | listed w =>
    rw [hplace] at hview
    exact absurd hview.route (hroute w)
  | waking u =>
    rw [hplace] at hview
    obtain ⟨w, hw⟩ := hview
    exact absurd hw.route (hroute w)

theorem Asleep.not_worker (ha : Asleep s t d) (h : Inv L s g) : t ≠ g.worker := by
  have hfits := h.coded.pcs t
  rcases ha.pc with hp | hp | ⟨v, hp⟩ <;> rw [hp] at hfits <;> exact hfits

/-- The fields that a sleep depends on. -/
theorem Asleep.of_tcb (ha : Asleep s t d) (htcb : s'.k.tasks.tcb t = s.k.tasks.tcb t)
    (hpc : s'.pc t = .svcRet ∨ s'.pc t = .app ∨ ∃ v, s'.pc t = .pend (.ret .app v)) :
    Asleep s' t d :=
  ⟨(congrArg Tcb.state htcb).trans ha.state, (congrArg Tcb.delayTicks htcb).trans ha.left,
    (congrArg Tcb.blockingWaitList htcb).trans ha.list,
    (congrArg Tcb.svcBlocked htcb).trans ha.svc, hpc⟩

/-- A sleeping task on the CPU has only its PendSV request to make. -/
theorem Asleep.own_step (ha : Asleep s t d) (h : Inv L s g) (hcur : s.k.currentTask = some t)
    (hpend : s.k.pendsv = false) {l : Label} (hstep : s.thread L t l = some s') :
    Asleep s' t d := by
  have hyields : (s.pc t).yields = true := by
    cases hy : (s.pc t).yields with
    | true => rfl
    | false => exact absurd (ha.state.symm.trans (h.running_of hcur hpend hy)) (by simp)
  obtain ⟨v, hpc⟩ : ∃ v, s.pc t = .pend (.ret .app v) := by
    rcases ha.pc with hp | hp | hp
    · rw [hp] at hyields
      cases hyields
    · rw [hp] at hyields
      cases hyields
    · exact hp
  have hnot : ¬ s.pc t = .app := by
    rw [hpc]
    simp
  cases l with
  | go =>
    simp only [Sys.thread, Sys.go, hpc, Option.some.injEq] at hstep
    subst hstep
    exact ha.of_tcb rfl (Or.inr (Or.inl (Function.update_self _ _ _)))
  | svc id a0 a1 a2 a3 => simp [Sys.thread, hnot] at hstep
  | call c => simp [Sys.thread, hnot] at hstep
  | compute r0 ram => simp [Sys.thread, hnot] at hstep
  | tick => cases hstep
  | pendSV oldSp => cases hstep

/-- Every step but the tick leaves a sleeping task alone. -/
theorem Asleep.step (ha : Asleep s t d) (h : Inv L s g) {l : Label} (hl : l.isTick = false)
    (hstep : s.step L l = some s') : Asleep s' t d := by
  have hown := ha.own h
  obtain ⟨rfl, _⟩ | ⟨oldSp, k, rfl, _, hrun, rfl⟩ | ⟨u, hpend, hcur, hthread⟩ := step_cases hstep
  · cases hl
  · obtain ⟨n, hn⟩ := h.switched hrun
    obtain ⟨hst, hne⟩ := hn.state_of_waiting ha.state
    obtain ⟨sp, r0, htcb⟩ := hn.tcb t
    have hfield : ∀ {β : Type} (f : Tcb → β), (∀ tcb b, f (Tcb.switched tcb b sp r0) = f tcb) →
        f (k.tcb t) = f (s.k.tcb t) := fun f hf => by rw [htcb, hf]
    exact ⟨hst, (hfield Tcb.delayTicks fun _ _ => rfl).trans ha.left,
      (hfield Tcb.blockingWaitList fun _ _ => rfl).trans ha.list,
      (hfield Tcb.svcBlocked fun _ _ => rfl).trans ha.svc, ha.pc⟩
  · by_cases htu : t = u
    · subst htu
      exact ha.own_step h hcur hpend hthread
    · have hchange := h.change hcur hpend hthread
      have hpc := hchange.pc h htu (by rw [hown]; simp)
      have hkeep : s'.k.tasks.tcb t = s.k.tasks.tcb t := by
        cases hchange.touch h htu with
        | same htcb => exact htcb
        | roused ht htcb => exact absurd ht (ha.not_worker h)
        | served hplace => rw [hown] at hplace; cases hplace
        | unlinked hplace htcb => rw [hown] at hplace; cases hplace
        | woken hplace htcb => rw [hown] at hplace; cases hplace
        | born hplace => rw [hown] at hplace; cases hplace
      exact ha.of_tcb hkeep (by rw [hpc]; exact ha.pc)

theorem Asleep.slept (ha : Asleep s t (d + 1)) (hpc : s'.pc t = s.pc t)
    (htcb : s'.k.tasks.tcb t = (s.k.tasks.tcb t).slept) :
    if d = 0 then (s'.k.tcb t).state = .ready else Asleep s' t d := by
  have hleft : (s.k.tasks.tcb t).delayTicks - 1 = d := by
    rw [show (s.k.tasks.tcb t).delayTicks = d + 1 from ha.left]
    rfl
  by_cases hd : d = 0
  · rw [if_pos hd]
    refine (congrArg Tcb.state htcb).trans ?_
    exact if_pos (hleft.trans hd)
  · rw [if_neg hd]
    refine ⟨(congrArg Tcb.state htcb).trans ?_, (congrArg Tcb.delayTicks htcb).trans hleft,
      (congrArg Tcb.blockingWaitList htcb).trans ha.list,
      (congrArg Tcb.svcBlocked htcb).trans ha.svc, ?_⟩
    · exact (if_neg (by rw [hleft]; exact hd)).trans ha.state
    · rw [hpc]
      exact ha.pc

/-- A tick takes one off, and ends the sleep with the last one. -/
theorem Asleep.tick (ha : Asleep s t (d + 1)) (h : Inv L s g) :
    if d = 0 then (s.sysTick.k.tcb t).state = .ready else Asleep s.sysTick t d := by
  have hlive : g.place t ≠ .fresh := by
    rw [ha.own h]
    simp
  refine ha.slept (congrFun (sysTick_frame s).1 t) ((h.scheduled.sysTick_tcb hlive).trans ?_)
  have hpos : 0 < (s.k.tasks.tcb t).delayTicks := by
    rw [show (s.k.tasks.tcb t).delayTicks = d + 1 from ha.left]
    exact Nat.succ_pos d
  rw [Tcb.ticked, Tcb.delayTicked, if_pos ⟨ha.state, hpos, ha.list⟩, Tcb.syncTicked]
  exact if_neg fun hcond => hcond.2.2 ha.list

/-- No tick ends a sleep with nothing to count. -/
theorem Asleep.tick_zero (ha : Asleep s t 0) (h : Inv L s g) : Asleep s.sysTick t 0 := by
  have htick := h.scheduled.sysTick_tcb (t := t) (by rw [ha.own h]; simp)
  have hsame : (s.k.tasks.tcb t).ticked = s.k.tasks.tcb t := by
    have hzero : ¬ 0 < (s.k.tasks.tcb t).delayTicks := by
      rw [show (s.k.tasks.tcb t).delayTicks = 0 from ha.left]
      exact Nat.lt_irrefl 0
    rw [Tcb.ticked, Tcb.delayTicked, if_neg fun hcond => hzero hcond.2.1, Tcb.syncTicked,
      if_neg fun hcond => hzero hcond.2.1]
  rw [hsame] at htick
  refine ha.of_tcb htick ?_
  rw [(sysTick_frame s).1]
  exact ha.pc

/-- A run with fewer ticks than are left does not end the sleep. -/
theorem Asleep.through {labels : List Label} (hL : L.heap.Placed) (ha : Asleep s t d)
    (hs : s.Reached L) (hrun : run (Sys.step L) s labels = some s') (hlt : ticks labels < d) :
    Asleep s' t (d - ticks labels) := by
  refine permitted_countdown (I := fun s => s.Reached L) (C := fun s d => Asleep s t d)
    (fun _ _ _ hs hl => hs.step hl) ?_ ?_ hs ha (permitted_always fun _ _ => trivial) hrun hlt
  · intro s l s' d hs ha hd hl hstep
    obtain ⟨g, hg⟩ := hs.inv hL
    obtain rfl := Label.eq_tick hl
    obtain rfl := Option.some.inj hstep
    have hnext := ha.tick hg
    rwa [if_neg hd] at hnext
  · intro s l s' d hs ha hl _ hstep
    obtain ⟨g, hg⟩ := hs.inv hL
    exact ha.step hg hl hstep

theorem Asleep.forever {labels : List Label} (hL : L.heap.Placed) (ha : Asleep s t 0)
    (hs : s.Reached L) (hrun : run (Sys.step L) s labels = some s') : Asleep s' t 0 := by
  have hboth := run_invariant (I := fun s => s.Reached L ∧ Asleep s t 0) (fun s l s' hs hl => by
    obtain ⟨hreach, hzero⟩ := hs
    obtain ⟨g, hg⟩ := hreach.inv hL
    refine ⟨hreach.step hl, ?_⟩
    by_cases htick : l.isTick = true
    · obtain rfl := Label.eq_tick htick
      obtain rfl := Option.some.inj hl
      exact hzero.tick_zero hg
    · rw [Bool.not_eq_true] at htick
      exact hzero.step hg htick hl) ⟨hs, ha⟩ hrun
  exact hboth.2

end Asleep

/-- The next step of the running task puts `t` to sleep for `n` ticks: `t` itself
inside `task_delay`, or the worker for the syscall of `t`. -/
inductive Delaying (s : Sys) (t : Tid) (n : Nat) : Bool → Prop
  | direct (hcur : s.k.currentTask = some t) (hpc : s.pc t = .enter (.delay n) .app) :
      Delaying s t n true
  | syscall {u : Tid} {item : WorkItem} (hcur : s.k.currentTask = some u)
      (hpc : s.pc u = .dispatch item) (hid : item.id = syscallDelay) (hcaller : item.caller = t)
      (harg : item.arg0 = n) : Delaying s t n false

/-- From `s` on `t` waits for `n` ticks, whatever else happens, and no longer. -/
structure HonoursDelay (L : Layout) (s : Sys) (t : Tid) (n : Nat) : Prop where
  asleep : ∀ labels s', run (Sys.step L) s labels = some s' → ticks labels < n →
    (s'.k.tcb t).state = .waiting
  wakes : ∀ labels s', run (Sys.step L) s (labels ++ [.tick]) = some s' → ticks labels + 1 = n →
    (s'.k.tcb t).state = .ready
  zero : n = 0 → (s.k.tcb t).state = .ready ∨ (s.k.tcb t).state = .running
  ends : ∃ labels s', run (Sys.step L) s labels = some s' ∧ ticks labels = n ∧
    (s'.k.tcb t).state ≠ .waiting

section Delay
variable {L : Layout} {s s' : Sys} {t : Tid} {n : Nat} {direct : Bool}

theorem step_go_cases (hstep : s.step L .go = some s') :
    ∃ u, s.k.pendsv = false ∧ s.k.currentTask = some u ∧ s.go L u = some s' := by
  obtain ⟨hl, _⟩ | ⟨_, _, hl, _⟩ | ⟨u, hpend, hcur, hthread⟩ := step_cases hstep
  · cases hl
  · cases hl
  · exact ⟨u, hpend, hcur, hthread⟩

theorem Delaying.asleep (hL : L.heap.Placed) (hs : s.Reached L) (hd : Delaying s t n direct)
    (hn : direct = true → n ≠ 0) (hstep : s.step L .go = some s') : Asleep s' t n := by
  obtain ⟨g, hg⟩ := hs.inv hL
  obtain ⟨u, hpend, hcur, hgo⟩ := step_go_cases hstep
  cases hd with
  | direct hcur' hpc =>
    obtain rfl := Option.some.inj (hcur.symm.trans hcur')
    have hown := hg.own hcur hpend (Or.inr (by rw [hpc]; rfl))
    obtain ⟨hlist, hsvc, _⟩ := hg.own_tcb hown
    simp only [Sys.go, hpc, Option.some.injEq] at hgo
    have henter : Op.enter s.k u (.delay n) = (schedulerSleep s.k u n, .pend 0) :=
      if_neg (hn rfl)
    rw [runOp_eq, henter] at hgo
    subst hgo
    have htcb : (schedulerSleep s.k u n).tcb u = (s.k.tcb u).asleep n := setTcb_tcb_same _ _ _
    refine ⟨?_, ?_, ?_, ?_, Or.inr (Or.inr ⟨0, Function.update_self _ _ _⟩)⟩
    · exact congrArg Tcb.state htcb
    · exact congrArg Tcb.delayTicks htcb
    · exact (congrArg Tcb.blockingWaitList htcb).trans hlist
    · exact (congrArg Tcb.svcBlocked htcb).trans hsvc
  | @syscall v item hcur' hpc hid hcaller harg =>
    obtain rfl := Option.some.inj (hcur.symm.trans hcur')
    have hserved := (hg.placed.serves_iff u item.caller).mp (by rw [hpc]; rfl)
    have hview := hg.placed.task item.caller
    rw [hserved] at hview
    have hne : item.caller ≠ u := by
      rintro heq
      have hret : s.pc item.caller = .svcRet := hview.pc
      rw [heq, hpc] at hret
      cases hret
    have hdec : decode s.k item = .sleep n := by
      rw [decode, if_pos hid, harg]
    simp only [Sys.go, hpc, Sys.dispatch, hdec, Option.some.injEq] at hgo
    subst hgo
    have htcb : (delaySection s.k item.caller n).tcb item.caller =
        (s.k.tcb item.caller).delayed n := by
      rw [delaySection, schedulerSleep, setTcb_setTcb, setTcb_tcb_same]
      rfl
    rw [← hcaller]
    refine ⟨?_, ?_, ?_, ?_, Or.inl ?_⟩
    · exact congrArg Tcb.state htcb
    · exact congrArg Tcb.delayTicks htcb
    · exact (congrArg Tcb.blockingWaitList htcb).trans hview.list
    · exact congrArg Tcb.svcBlocked htcb
    · exact (Function.update_of_ne hne _ _).trans hview.pc

theorem run_ticks (s : Sys) (n : Nat) :
    ∃ s', run (Sys.step L) s (List.replicate n .tick) = some s' := by
  induction n generalizing s with
  | zero => exact ⟨s, rfl⟩
  | succ n ih =>
    obtain ⟨s', hrun⟩ := ih s.sysTick
    exact ⟨s', run_cons.mpr ⟨s.sysTick, rfl, hrun⟩⟩

theorem Asleep.honours (hL : L.heap.Placed) (hs : s.Reached L) (ha : Asleep s t n) (hn : n ≠ 0) :
    HonoursDelay L s t n := by
  have hwakes : ∀ labels s', run (Sys.step L) s (labels ++ [.tick]) = some s' →
      ticks labels + 1 = n → (s'.k.tcb t).state = .ready := by
    intro labels s' hrun hcount
    obtain ⟨m, hfirst, hlast⟩ := run_append.mp hrun
    obtain ⟨m', hstep, hend⟩ := run_cons.mp hlast
    obtain rfl := Option.some.inj hend
    obtain rfl := Option.some.inj hstep
    have hm := ha.through hL hs hfirst (by omega)
    obtain ⟨g, hg⟩ := (hs.run hfirst).inv hL
    rw [show n - ticks labels = 0 + 1 by omega] at hm
    have htick := hm.tick hg
    rwa [if_pos rfl] at htick
  refine ⟨?_, hwakes, fun hzero => absurd hzero hn, ?_⟩
  · intro labels s' hrun hlt
    exact (ha.through hL hs hrun hlt).state
  · obtain ⟨m, rfl⟩ : ∃ m, n = m + 1 := ⟨n - 1, by omega⟩
    obtain ⟨s', hrun⟩ := run_ticks (L := L) s (m + 1)
    have hcount : ∀ j, ticks (List.replicate j .tick) = j := by
      intro j
      simp [ticks, List.countP_replicate, Label.isTick]
    refine ⟨_, s', hrun, hcount _, ?_⟩
    rw [List.replicate_succ'] at hrun
    rw [hwakes _ s' hrun (by rw [hcount])]
    simp

/-- `task_delay(n)` means `n` ticks, but for a syscall with 0. -/
theorem task_delay_iff (hL : L.heap.Placed) (hs : s.Reached L) (hd : Delaying s t n direct)
    (hstep : s.step L .go = some s') : HonoursDelay L s' t n ↔ direct = true ∨ n ≠ 0 := by
  have hs' := hs.step hstep
  constructor
  · intro hdelay
    by_contra hnot
    obtain ⟨hdirect, hzero⟩ := not_or.mp hnot
    have hn : n = 0 := not_not.mp hzero
    have ha := hd.asleep hL hs (fun h => absurd h hdirect) hstep
    rcases hdelay.zero hn with hst | hst <;> rw [ha.state] at hst <;> cases hst
  · intro hcond
    by_cases hn : n = 0
    · subst hn
      obtain ⟨g, hg⟩ := hs.inv hL
      obtain ⟨u, hpend, hcur, hgo⟩ := step_go_cases hstep
      rcases hcond with rfl | hne
      · cases hd with
        | direct hcur' hpc =>
          obtain rfl := Option.some.inj (hcur.symm.trans hcur')
          have hrun := hg.running_of hcur hpend (by rw [hpc]; rfl)
          simp only [Sys.go, hpc, Option.some.injEq] at hgo
          subst hgo
          refine ⟨fun _ _ _ hlt => absurd hlt (Nat.not_lt_zero _), fun _ _ _ h => by omega,
            fun _ => Or.inr hrun, [], _, rfl, rfl, ?_⟩
          rw [show ((s.runOp u (.delay 0) .app).k.tcb u).state = .running from hrun]
          simp
      · exact absurd rfl hne
    · exact (hd.asleep hL hs (fun _ => hn) hstep).honours hL hs' hn

/-- Task 1 of the small system calls `task_delay(2)`. -/
theorem task_delay_two : ∃ s s' : Sys, Delaying s 1 2 true ∧ s.step boardLayout .go = some s' ∧
    HonoursDelay boardLayout s' 1 2 := by
  obtain ⟨s, hrun, ⟨hcur, hpc⟩, hs⟩ := boardRun_comes
    (boardReady ++ [.call (.taskDelay 2)])
    (P := fun s => s.k.currentTask = some 1 ∧ s.pc 1 = .enter (.delay 2) .app)
    (by decide +kernel) fun _ hs => hs
  obtain ⟨s', _, hstep, _⟩ := boardRun_snoc (l := .go) (P := fun _ => True) hrun (by decide +kernel)
  have hd := Delaying.direct hcur hpc
  exact ⟨s, s', hd, hstep, (task_delay_iff boardLayout_placed hs hd hstep).mpr (Or.inl rfl)⟩

/-- Task 1, unprivileged, delays for 0 ticks and never wakes up. -/
theorem syscall_delay_zero_forever : ∃ s s' : Sys, s.Reached boardLayout ∧ Delaying s 1 0 false ∧
    s.step boardLayout .go = some s' ∧ ¬ HonoursDelay boardLayout s' 1 0 ∧
    ∀ labels s'', run (Sys.step boardLayout) s' labels = some s'' →
      (s''.k.tcb 1).state = .waiting := by
  obtain ⟨s, hrun, ⟨hcur, hpc⟩, hs⟩ := boardRun_comes
    (boardReady ++ [.call .setUnprivileged, .svc syscallDelay 0 0 0 0,
      .pendSV 0x2001F000, .go])
    (P := fun s => s.k.currentTask = some 0 ∧ s.pc 0 = .dispatch ⟨syscallDelay, 0, 0, 0, 0, 1⟩)
    (by decide +kernel) fun _ hs => hs
  obtain ⟨s', _, hstep, _⟩ := boardRun_snoc (l := .go) (P := fun _ => True) hrun (by decide +kernel)
  have hd : Delaying s 1 0 false := .syscall hcur hpc rfl rfl rfl
  have ha := hd.asleep boardLayout_placed hs (fun h => by cases h) hstep
  refine ⟨s, s', hs, hd, hstep, fun hdelay => ?_, fun labels s'' hrun => ?_⟩
  · rcases hdelay.zero rfl with hst | hst <;> rw [ha.state] at hst <;> cases hst
  · exact (ha.forever boardLayout_placed (hs.step hstep) hrun).state

end Delay

end Crest
