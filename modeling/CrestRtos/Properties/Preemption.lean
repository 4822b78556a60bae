import CrestRtos.Properties.RoundRobin
import CrestRtos.System.Changes
import CrestRtos.System.Clock

/-!
# Preemption

Whoever makes a task READY goes on to request a PendSV, and so does a task that
blocks itself; a switch then takes the most urgent READY task. The exception is
the delay loop of `scheduler_tick`, which wakes a sleeping task and requests
nothing.
-/

namespace Crest
open IntrusiveList MachineWord Alloc Transition

/-- Some READY task comes before the one on the CPU, or that one cannot go on. -/
def Kernel.Outranked (k : Kernel) : Prop :=
  ∃ c, k.currentTask = some c ∧
    (((k.tcb c).state ≠ .ready ∧ (k.tcb c).state ≠ .running) ∨
      ∃ t, k.Has (k.tcb t).priority t ∧ (k.tcb t).state = .ready ∧
        (k.tcb t).priority < (k.tcb c).priority)

/-- The next tick requests a PendSV: one is pending, it is a 50th tick, or the time
of a task on a wait list is up. -/
def Kernel.TickRequests (k : Kernel) : Prop :=
  k.pendsv = true ∨ wrap (k.tickCount + 1) % preemptTickInterval = 0 ∨
    ∃ t, k.Has (k.tcb t).priority t ∧ (k.tcb t).state = .waiting ∧ (k.tcb t).delayTicks = 1 ∧
      (k.tcb t).blockingWaitList ≠ none

/-- The next tick ends the delay of a task that comes before the one on the CPU. -/
def Kernel.DelayEnds (k : Kernel) : Prop :=
  ∃ c t, k.currentTask = some c ∧ k.Has (k.tcb t).priority t ∧
    (k.tcb t).priority < (k.tcb c).priority ∧ (k.tcb t).state = .waiting ∧
    (k.tcb t).delayTicks = 1 ∧ (k.tcb t).blockingWaitList = none

/-- The code on the CPU is between a change of a task's state and the request for it. -/
def Sys.Requesting (s : Sys) : Prop := ∃ c, s.k.currentTask = some c ∧ (s.pc c).yields = true

/-- A tick that does not come at a bad moment. -/
def Timely (s : Sys) (l : Label) : Prop :=
  l.isTick = true → s.k.TickRequests ∨
    (¬ s.k.DelayEnds ∧ (s.Requesting → ¬ s.k.Outranked))

section Scheduling
variable {L : Layout} {s s' : Sys} {g g' : Ghost} {k k' : Kernel} {oldSp : Nat} {t u n : Tid}

theorem Scheduled.ordered (h : Scheduled s g) : Ordered s.k g.runs :=
  ⟨h.linked, fun pr t ht => (h.rank pr t ht).1, h.cursor⟩

theorem Scheduled.has_iff (h : Scheduled s g) :
    s.k.Has (s.k.tcb t).priority t ↔ g.place t ≠ .fresh :=
  h.ordered.has_iff.trans (h.alive t).symm

/-- The search starts with the most urgent tasks. -/
theorem schedulerGetNext_highest {runs : Nat → List Tid} {pr : Nat}
    (hl : ∀ pr, Linked k.next (k.taskList pr) (runs pr))
    (hcursor : ∀ pr c, k.rrCurrent pr = some c → c ∈ runs pr)
    (hnext : schedulerGetNext k = some (k', n)) (ht : t ∈ runs pr)
    (hready : (k.tcb t).state = .ready) : ∃ q, q ≤ pr ∧ n ∈ runs q := by
  obtain ⟨pre, q, post, hrange, hq, hpre⟩ := List.findSome?_eq_some_iff.mp hnext
  obtain ⟨hn, _⟩ := getNextAt_some (hl q) (hcursor q) hq
  refine ⟨q, ?_, hn⟩
  by_contra hlt
  have hmem : pr ∈ pre := by
    have hsorted := List.pairwise_lt_range (n := maxTaskPriorities)
    have hin : pr ∈ List.range maxTaskPriorities := by
      have hqin : q ∈ List.range maxTaskPriorities := by
        rw [hrange]
        simp
      exact List.mem_range.mpr (by have := List.mem_range.mp hqin; omega)
    rw [hrange] at hsorted hin
    rcases List.mem_append.mp hin with hmem | hmem
    · exact hmem
    · have hle := (List.pairwise_append.mp hsorted).2.1
      rcases List.mem_cons.mp hmem with rfl | hpost
      · omega
      · have := (List.pairwise_cons.mp hle).1 pr hpost
        omega
  exact getNextAt_none (hl pr) (hcursor pr) (hpre pr hmem) ht hready

/-- Behind a switch no READY task comes before the one on the CPU. -/
theorem Inv.switch_highest (h : Inv L s g) (hrun : portSwitchContext L s.k oldSp = some k')
    (hcur : k'.currentTask = some n) {pr : Nat} (ht : t ∈ g.runs pr)
    (hready : (k'.tcb t).state = .ready) : (k'.tcb n).priority ≤ pr := by
  obtain ⟨c, hc, _⟩ := h.running.current
  rw [portSwitchContext] at hrun
  cases hsave : saveCurrent { s.k with pendsv := false } oldSp with
  | none =>
    rw [hsave] at hrun
    cases hrun
  | some k₁ =>
    rw [hsave] at hrun
    have hk₁ := saveCurrent_some (k := { s.k with pendsv := false }) hc hsave
    have hnext : k₁.next = s.k.next := by
      funext x
      rw [hk₁]
      by_cases hx : x = c
      · subst hx
        simp [Kernel.next]
      · simp [Kernel.next, setTcb_tcb_of_ne _ _ hx]
    have hprio : ∀ x, (k₁.tcb x).priority = (s.k.tcb x).priority := by
      intro x
      rw [hk₁]
      by_cases hx : x = c
      · subst hx
        simp
      · simp [setTcb_tcb_of_ne _ _ hx]
    have hlinked : ∀ pr, Linked k₁.next (k₁.taskList pr) (g.runs pr) := by
      rw [hnext, hk₁]
      exact h.scheduled.linked
    have hcursor : ∀ pr c, k₁.rrCurrent pr = some c → c ∈ g.runs pr := by
      rw [hk₁]
      exact h.scheduled.cursor
    cases hfound : schedulerGetNext k₁ with
    | none =>
      have hnone := List.findSome?_eq_none_iff.mp hfound pr
        (List.mem_range.mpr (h.scheduled.rank pr t ht).2)
      have hcur₁ : k₁.currentTask = some c := by
        rw [hk₁]
        exact hc
      simp only [hfound, hcur₁, Option.some.injEq] at hrun
      subst hrun
      by_cases htc : t = c
      · subst htc
        rw [setTcb_tcb_same] at hready
        cases hready
      · rw [setTcb_tcb_of_ne _ _ htc] at hready
        exact absurd hready (getNextAt_none (hlinked pr) (hcursor pr) hnone ht)
    | some found =>
      obtain ⟨k₂, x⟩ := found
      simp only [hfound, Option.some.injEq] at hrun
      subst hrun
      obtain rfl : x = n := Option.some.inj hcur
      obtain ⟨q, hq⟩ := List.exists_of_findSome?_eq_some hfound
      obtain ⟨_, _, c', _, hk₂⟩ := getNextAt_some (hlinked q) (hcursor q) hq.2
      have hself : (resume L k₂ x).tcb x = { k₁.tcb x with state := .running } := by
        rw [hk₂]
        simp [resume]
      have hne : t ≠ x := by
        rintro rfl
        rw [hself] at hready
        cases hready
      have hother : (resume L k₂ x).tcb t = k₁.tcb t := by
        rw [hk₂]
        simp [resume, setTcb_tcb_of_ne _ _ hne]
      rw [hother] at hready
      obtain ⟨q', hle, hx⟩ := schedulerGetNext_highest hlinked hcursor hfound ht hready
      rw [hself]
      exact ((hprio x).trans (h.scheduled.rank q' x hx).1).trans_le hle

/-- Every READY task that comes before the one on the CPU did so before. -/
theorem outranked_of (h' : Inv L s' g') (hpend : s'.k.pendsv = false) (hreq : ¬ s'.Requesting)
    (hout : s'.k.Outranked) : ∃ c t, s'.k.currentTask = some c ∧
      s'.k.Has (s'.k.tcb t).priority t ∧ (s'.k.tcb t).state = .ready ∧
      (s'.k.tcb t).priority < (s'.k.tcb c).priority := by
  obtain ⟨c, hc, hstate | ⟨t, ht⟩⟩ := hout
  · obtain ⟨_, hrun | hp | hy⟩ := h'.pendsv_or hc
    · exact absurd hrun hstate.2
    · rw [hpend] at hp
      cases hp
    · exact absurd ⟨c, hc, hy⟩ hreq
  · exact ⟨c, t, hc, ht⟩

/-- What the preemption of a task depends on. -/
def Tcb.row (tcb : Tcb) := (tcb.next, tcb.priority)

theorem has_congr {pr : Nat} (hlist : k'.taskList = k.taskList)
    (hrow : ∀ t, (k'.tcb t).row = (k.tcb t).row) : k'.Has pr t ↔ k.Has pr t := by
  have hnext : k'.next = k.next := funext fun x => congrArg Prod.fst (hrow x)
  rw [Kernel.Has, Kernel.Has, hnext, hlist]

/-- A step that makes no task READY puts none before the one on the CPU. -/
theorem outranked_keep (h' : Inv L s' g') (hpend : s'.k.pendsv = false) (hreq : ¬ s'.Requesting)
    (hframe : s'.k.frame = s.k.frame) (hrow : ∀ t, (s'.k.tcb t).row = (s.k.tcb t).row)
    (hstate : ∀ t, (s'.k.tcb t).state = .ready → (s.k.tcb t).state = .ready)
    (hout : s'.k.Outranked) : s.k.Outranked := by
  obtain ⟨c, t, hc, hhas, hready, hlt⟩ := outranked_of h' hpend hreq hout
  have hprio : ∀ x, (s'.k.tcb x).priority = (s.k.tcb x).priority := fun x =>
    congrArg Prod.snd (hrow x)
  refine ⟨c, (congrArg (fun f => f.2.2) hframe).symm.trans hc, Or.inr ⟨t, ?_, hstate t hready, ?_⟩⟩
  · rw [← hprio]
    exact (has_congr (congrArg Prod.fst hframe) hrow).mp hhas
  · rwa [← hprio, ← hprio]

theorem Only.outranked {x : Tid} {f : Tcb → Tcb} (ho : Only s s' u x f) (h' : Inv L s' g')
    (hpend : s'.k.pendsv = false) (hreq : ¬ s'.Requesting) (hrow : ∀ tcb, (f tcb).row = tcb.row)
    (hstate : (f (s.k.tasks.tcb x)).state = .ready → (s.k.tcb x).state = .ready)
    (hout : s'.k.Outranked) : s.k.Outranked := by
  refine outranked_keep h' hpend hreq ho.frame (fun t => ?_) (fun t ht => ?_) hout
  · by_cases htx : t = x
    · subst htx
      exact (congrArg Tcb.row ho.self :).trans (hrow _)
    · exact (congrArg Tcb.row (ho.other htx) :)
  · by_cases htx : t = x
    · subst htx
      exact hstate ((congrArg Tcb.state ho.self :).symm.trans ht)
    · exact (congrArg Tcb.state (ho.other htx) :).symm.trans ht

/-- A PendSV is pending or about to be requested, or nobody is to be preempted. -/
def Sys.Prompt (s : Sys) : Prop := s.k.pendsv = true ∨ s.Requesting ∨ ¬ s.k.Outranked

theorem Change.prompt (hc : Change s g u s') (h' : Inv L s' g')
    (hcur : s.k.currentTask = some u) (hpend : s.k.pendsv = false) (hp : s.Prompt) : s'.Prompt := by
  by_cases hpend' : s'.k.pendsv = true
  · exact Or.inl hpend'
  by_cases hreq : s'.Requesting
  · exact Or.inr (Or.inl hreq)
  rw [Bool.not_eq_true] at hpend'
  have hcalm : (s.pc u).yields = false → ¬ s.k.Outranked := by
    intro hyields
    rcases hp with hp | ⟨c, hc, hy⟩ | hno
    · rw [hpend] at hp
      cases hp
    · obtain rfl := Option.some.inj (hc.symm.trans hcur)
      rw [hyields] at hy
      cases hy
    · exact hno
  have hyield : ∀ {x f}, Only s s' u x f → (s'.pc u).yields ≠ true := fun ho hy =>
    hreq ⟨u, (congrArg (fun f => f.2.2) ho.frame).trans hcur, hy⟩
  refine Or.inr (Or.inr fun hout => ?_)
  cases hc with
  | quiet ho =>
    cases hy : (s.pc u).yields with
    | true =>
      have hasked := ho.asks hy
      rw [hpend'] at hasked
      cases hasked
    | false => exact hcalm hy (ho.outranked h' hpend' hreq (fun _ => rfl) id hout)
  | sleep hpc hn ho hpc' => exact hyield ho (by rw [hpc']; rfl)
  | @park op _ w hpc htarget hms ho hpc' =>
    refine hcalm (by rw [hpc]; rfl) (ho.outranked h' hpend' hreq (fun tcb => ?_) (fun hst => ?_)
      hout)
    · rw [Tcb.parked]
      split <;> split <;> rfl
    · cases hdirect : op.waitList.isSome with
      | true =>
        rw [hdirect, if_pos rfl] at hpc'
        exact absurd (by rw [hpc']; rfl) (hyield ho)
      | false =>
        have hkept : ∀ tcb, (Tcb.parked false w op.timeout tcb).state = tcb.state := by
          intro tcb
          rw [Tcb.parked]
          split <;> rfl
        rw [hdirect, hkept] at hst
        exact hst
  | unlink hpc hsource hx ho hpc' =>
    refine hcalm ?_ (ho.outranked h' hpend' hreq (fun _ => rfl) id hout)
    rcases hpc with hpc | ⟨op', hpc, _⟩ <;> rw [hpc] <;> rfl
  | check hpc ho =>
    exact hcalm (by rw [hpc]; rfl) (ho.outranked h' hpend' hreq (fun _ => rfl) id hout)
  | wake hpc ho hpc' => exact hyield ho (by rw [hpc']; rfl)
  | rest hpc hu ho hpc' => exact hyield ho (by rw [hpc']; rfl)
  | delay hpc hid ho hpc' =>
    exact hcalm (by rw [hpc]; rfl) (ho.outranked h' hpend' hreq (fun _ => rfl)
      (fun hst => by cases hst) hout)
  | unprivileged hpc ho =>
    exact hcalm (by rw [hpc]; rfl) (ho.outranked h' hpend' hreq (fun _ => rfl) id hout)
  | post hpc hpc' hcaller hu hposted =>
    have hrequest := hposted.pendsv
    rw [hpend'] at hrequest
    cases hrequest
  | born hpc hk hj hpc' =>
    have hrequest := hj.pendsv
    rw [hpend'] at hrequest
    cases hrequest

/-- After a switch nobody is to be preempted. -/
theorem Inv.pendSV_calm (h : Inv L s g) (hrun : portSwitchContext L s.k oldSp = some k') :
    ¬ k'.Outranked := by
  obtain ⟨x, hx⟩ := h.switched hrun
  have h' := h.pendSV hrun
  rintro ⟨c, hc, hstate | ⟨t, hhas, hready, hlt⟩⟩
  · obtain rfl := Option.some.inj (hx.current.symm.trans hc)
    obtain ⟨sp, r0, htcb⟩ := hx.tcb x
    exact hstate.2 (by rw [htcb]; simp [Tcb.switched])
  · have hmem := (h'.scheduled.alive t).mp (h'.scheduled.has_iff.mp hhas)
    have hle := h.switch_highest hrun hc hmem hready
    exact absurd hlt (Nat.not_lt.mpr hle)

theorem Tcb.ticked_of_awake {tcb : Tcb} (h : tcb.state ≠ .waiting) : tcb.ticked = tcb := by
  have hdelay : tcb.delayTicked = tcb := if_neg fun hcond => h hcond.1
  rw [Tcb.ticked, hdelay]
  exact if_neg fun hcond => h hcond.1

/-- A tick wakes the tasks whose last tick it is. -/
theorem Tcb.ticked_ready {tcb : Tcb} (h : tcb.ticked.state = .ready) :
    tcb.state = .ready ∨ (tcb.state = .waiting ∧ tcb.delayTicks = 1) := by
  by_cases hwait : tcb.state = .waiting
  · right
    refine ⟨hwait, ?_⟩
    by_contra hone
    have hdelay : tcb.delayTicked.state = .waiting ∧ tcb.delayTicked.delayTicks ≠ 1 ∨
        tcb.delayTicked.blockingWaitList = none ∧ tcb.delayTicked.state = .waiting := by
      rw [Tcb.delayTicked]
      split
      · rename_i hcond
        have hmore : tcb.delayTicks - 1 ≠ 0 := by omega
        refine Or.inr ⟨hcond.2.2, ?_⟩
        simp [Tcb.slept, hmore, hwait]
      · exact Or.inl ⟨hwait, hone⟩
    have hsync : tcb.ticked.state = .waiting := by
      rw [Tcb.ticked, Tcb.syncTicked]
      rcases hdelay with ⟨hst, hmore⟩ | ⟨hlist, hst⟩
      · split
        · exact hst
        · exact hst
      · rw [if_neg fun hcond => hcond.2.2 hlist]
        exact hst
    rw [h] at hsync
    cases hsync
  · rw [Tcb.ticked_of_awake hwait] at h
    exact Or.inl h

theorem Tcb.ticked_row (tcb : Tcb) : tcb.ticked.row = tcb.row := by
  have hdelay : tcb.delayTicked.row = tcb.row := by
    rw [Tcb.delayTicked]
    split <;> rfl
  rw [Tcb.ticked, Tcb.syncTicked]
  split
  · split <;> exact hdelay
  · exact hdelay

/-- A tick that requests no PendSV and ends no delay leaves nobody to preempt. -/
theorem Inv.tick_calm (h : Inv L s g)
    (htick : ∀ t, g.place t ≠ .fresh → s'.k.tasks.tcb t = (s.k.tasks.tcb t).ticked)
    (hframe : s'.k.frame = s.k.frame) (hcalm : ¬ s.k.Outranked) (hdelays : ¬ s.k.DelayEnds)
    (hrequests : ¬ s.k.TickRequests) : ¬ s'.k.Outranked := by
  have hrow : ∀ t, g.place t ≠ .fresh → (s'.k.tcb t).row = (s.k.tcb t).row := fun t ht =>
    (congrArg Tcb.row (htick t ht) :).trans (Tcb.ticked_row _)
  have hmem : ∀ pr, ∀ t ∈ g.runs pr, g.place t ≠ .fresh := fun pr t ht =>
    (h.scheduled.alive t).mpr ((h.scheduled.rank pr t ht).1 ▸ ht)
  rintro ⟨c, hc, hout⟩
  have hcur : s.k.currentTask = some c := (congrArg (fun f => f.2.2) hframe).symm.trans hc
  obtain ⟨hlive, _⟩ := h.pendsv_or hcur
  rcases hout with hstate | ⟨t, hhas, hready, hlt⟩
  · have hold : (s.k.tcb c).state = .ready ∨ (s.k.tcb c).state = .running := by
      by_contra hnot
      exact hcalm ⟨c, hcur, Or.inl (not_or.mp hnot)⟩
    have hawake : (s.k.tcb c).state ≠ .waiting := by
      rcases hold with hst | hst <;> rw [hst] <;> simp
    have hsame := (htick c hlive).trans (Tcb.ticked_of_awake hawake)
    have hkept : (s'.k.tcb c).state = (s.k.tcb c).state := (congrArg Tcb.state hsame :)
    rw [hkept] at hstate
    exact hold.elim hstate.1 hstate.2
  · -- the lists are as before the tick, so `t` is a task of theirs
    obtain ⟨l, hl, htl⟩ := hhas
    have hlist : s'.k.taskList = s.k.taskList := congrArg Prod.fst hframe
    have hlinked : Linked s'.k.next (s'.k.taskList (s'.k.tcb t).priority)
        (g.runs (s'.k.tcb t).priority) := by
      rw [hlist]
      refine (linked_congr fun x hx => ?_).mpr (h.scheduled.linked _)
      exact congrArg Prod.fst (hrow x (hmem _ x hx))
    rw [linked_unique hl hlinked] at htl
    have htlive := hmem _ t htl
    have hhas : s.k.Has (s.k.tcb t).priority t := h.scheduled.has_iff.mpr htlive
    have hkeep : ∀ x, g.place x ≠ .fresh → (s'.k.tcb x).priority = (s.k.tcb x).priority :=
      fun x hx => congrArg Prod.snd (hrow x hx)
    have hprio : (s.k.tcb t).priority < (s.k.tcb c).priority := by
      rwa [hkeep t htlive, hkeep c hlive] at hlt
    rcases Tcb.ticked_ready ((congrArg Tcb.state (htick t htlive) :).symm.trans hready) with
      hst | ⟨hst, hone⟩
    · exact hcalm ⟨c, hcur, Or.inr ⟨t, hhas, hst, hprio⟩⟩
    · by_cases hwait : (s.k.tcb t).blockingWaitList = none
      · exact hdelays ⟨c, t, hcur, hhas, hprio, hst, hone, hwait⟩
      · exact hrequests (Or.inr (Or.inr ⟨t, hhas, hst, hone, hwait⟩))

/-- A timely tick requests a PendSV, or leaves nobody to preempt. -/
theorem Inv.tick_prompt (h : Inv L s g) (hp : s.Prompt) (htimely : Timely s .tick) :
    s.sysTick.k.pendsv = true ∨ ¬ s.sysTick.k.Outranked := by
  by_cases hrequests : s.k.TickRequests
  · left
    rcases hrequests with hpend | hcount | ⟨t, hhas, hstate, hone, hlist⟩
    · exact sysTick_pendsv s (Or.inl hpend)
    · exact sysTick_pendsv s (Or.inr hcount)
    · exact h.scheduled.sysTick_expired (h.scheduled.has_iff.mp hhas) hstate hone hlist
  · obtain ⟨hdelays, hreq⟩ := (htimely rfl).resolve_left hrequests
    have hcalm : ¬ s.k.Outranked := by
      rcases hp with hpend | hr | hno
      · exact absurd (Or.inl hpend) hrequests
      · exact hreq hr
      · exact hno
    exact Or.inr (h.tick_calm (fun t ht => h.scheduled.sysTick_tcb ht) (sysTick_frame s).2 hcalm
      hdelays hrequests)

/-- Every timely step keeps the system prompt. -/
theorem Inv.prompt {l : Label} (h : Inv L s g) (h' : Inv L s' g') (hp : s.Prompt)
    (htimely : Timely s l) (hstep : s.step L l = some s') : s'.Prompt := by
  obtain ⟨rfl, htick⟩ | ⟨oldSp, k, _, _, hrun, rfl⟩ | ⟨u, hpend, hcur, hthread⟩ :=
    step_cases hstep
  · have hends := h.tick_prompt hp htimely
    rw [← htick] at hends
    exact hends.imp_right Or.inr
  · exact Or.inr (Or.inr (h.pendSV_calm hrun))
  · exact (h.change hcur hpend hthread).prompt h' hcur hpend hp

/-- The first `task_create` requests a PendSV, which waits for the scheduler. -/
theorem bootTasks_pendsv {tasks : List (Entry × TaskArgs)} (hrun : s.bootTasks L tasks = some s')
    (h : s.k.pendsv = true ∨ ∀ t, s.pc t = .app) :
    s'.k.pendsv = true ∨ ∀ t, s'.pc t = .app := by
  refine bootTasks_induction (P := fun s => s.k.pendsv = true ∨ ∀ t, s.pc t = .app)
    (fun s task s' hs hstep => ?_) h hrun
  obtain ⟨⟨k, created⟩, hcreate, rfl⟩ := Option.map_eq_some_iff.mp hstep
  rcases taskCreate_cases hcreate with
    ⟨_, rfl, rfl⟩ | ⟨t, heap, alloc, _, _, _, ⟨_, rfl, rfl⟩ | ⟨_, rfl, rfl⟩⟩
  · exact hs
  · exact hs
  · exact Or.inl rfl

theorem Sys.Started.pendsv (h : s.Started L) : s.k.pendsv = true := by
  obtain ⟨heapMem, ram, tasks, s₁, hboot, hstart, _, i, hi⟩ := h
  obtain ⟨⟨k, first⟩, hnext, rfl⟩ := Option.map_eq_some_iff.mp hstart
  have hboot' : s₁.k.pendsv = true := by
    rcases bootTasks_pendsv hboot (Or.inr fun _ => rfl) with hp | happ
    · exact hp
    · rw [happ i] at hi
      cases hi
  obtain ⟨pr, c, rfl⟩ := schedulerGetNext_cursor hnext
  exact hboot'

end Scheduling

/-- An exception handler has run to its end. -/
def Label.ends : Label → Bool
  | .tick => true
  | .svc _ _ _ _ _ => true
  | _ => false

/-- At the end of a handler, and whenever the code on the CPU has no request left to
make, a PendSV is pending if a task is to be preempted, as long as ticks come in time. -/
theorem preemption_requested {L : Layout} {s₀ s : Sys} {labels : List Label} {l : Label}
    (hL : L.heap.Placed) (h₀ : s₀.Started L)
    (hp : Permitted Timely (Sys.step L) s₀ (labels ++ [l]))
    (hrun : run (Sys.step L) s₀ (labels ++ [l]) = some s)
    (hend : l.ends = true ∨ ¬ s.Requesting) (hout : s.k.Outranked) : s.k.pendsv = true := by
  obtain ⟨s₁, hfirst, hlast⟩ := run_append.mp hrun
  obtain ⟨hbefore, htimely, _⟩ := permitted_append hp hfirst
  obtain ⟨s₂, hstep, hsame⟩ := run_cons.mp hlast
  obtain rfl := Option.some.inj hsame
  obtain ⟨⟨g, hg⟩, hprompt⟩ := permitted_invariant
    (I := fun s => (∃ g, Inv L s g) ∧ s.Prompt) (fun s l s' hs hallowed hl => by
      obtain ⟨⟨g, hg⟩, hps⟩ := hs
      obtain ⟨g', hg', _⟩ := hg.step hL hl
      exact ⟨⟨g', hg'⟩, hg.prompt hg' hps hallowed hl⟩)
    ⟨h₀.inv hL, Or.inl h₀.pendsv⟩ hbefore hfirst
  obtain ⟨g', hg', _⟩ := hg.step hL hstep
  have hafter := hg.prompt hg' hprompt htimely hstep
  have hcalls : ¬ s₂.Requesting → s₂.k.pendsv = true := by
    intro hnot
    rcases hafter with hpend | hreq | hno
    · exact hpend
    · exact absurd hreq hnot
    · exact absurd hout hno
  rcases hend with hhandler | hnot
  · cases l with
    | tick =>
      have htick : s₁.sysTick = s₂ := Option.some.inj hstep
      have hends := hg.tick_prompt hprompt htimely
      rw [htick] at hends
      exact hends.resolve_right fun hno => hno hout
    | svc id a0 a1 a2 a3 =>
      obtain ⟨hl, _⟩ | ⟨_, _, hl, _⟩ | ⟨u, _, _, hthread⟩ := step_cases hstep
      · cases hl
      · cases hl
      · rw [Sys.thread] at hthread
        by_cases hc : s₁.pc u = .app ∧ s₁.k.nPriv = true
        · rw [if_pos hc] at hthread
          obtain rfl := Option.some.inj hthread
          exact (@Inv.svc_posted _ _ _ ⟨id, a0, a1, a2, a3, u⟩ hg hc.1).pendsv
        · rw [if_neg hc] at hthread
          cases hthread
    | _ => cases hhandler
  · exact hcalls hnot

/-- `t`, alone in the list of its priority, comes before the task on the CPU. -/
def Kernel.Beats (k : Kernel) (t c : Tid) : Prop :=
  k.currentTask = some c ∧ k.taskList (k.tcb t).priority = some t ∧ k.next t = none ∧
    (k.tcb t).state = .ready ∧ (k.tcb t).priority < (k.tcb c).priority

instance (k : Kernel) (t c : Tid) : Decidable (k.Beats t c) :=
  inferInstanceAs (Decidable (_ ∧ _ ∧ _ ∧ _ ∧ _))

theorem Kernel.Beats.outranked {k : Kernel} {t c : Tid} (h : k.Beats t c) : k.Outranked := by
  obtain ⟨hc, hhead, hnext, hready, hlt⟩ := h
  refine ⟨c, hc, Or.inr ⟨t, ⟨[t], ?_, List.mem_singleton_self t⟩, hready, hlt⟩⟩
  exact linked_cons.mpr ⟨hhead, linked_nil.mpr hnext⟩

/-- Task 1 delays for one tick and task 2 comes to run. -/
def delaysOneTick : List Label :=
  boardReady ++ [.call (.taskDelay 1), .go, .go, .pendSV 0x2001F000]

/-- A tick while a PendSV is pending, and task 1 becomes unprivileged. -/
def tickFirst : List Label := .tick :: boardReady ++ [.call .setUnprivileged]

/-- A syscall wakes the worker. -/
theorem preemption_requested_board : ∃ s₀ s : Sys, s₀.Started boardLayout ∧
    run (Sys.step boardLayout) s₀ (tickFirst ++ [.svc syscallDelay 5 0 0 0]) = some s ∧
    s.k.Beats 0 1 ∧ s.k.pendsv = true := by
  obtain ⟨s, hboard, hbeats, _⟩ := boardRun_comes
    (tickFirst ++ [.svc syscallDelay 5 0 0 0])
    (P := fun s => s.k.Beats 0 1) (by decide +kernel) fun _ hs => hs
  obtain ⟨s₀, hnil, hs₀, hrun⟩ := boardRun_started hboard
  obtain ⟨s₁, hstart, hp, _⟩ := boardRun_comes []
    (P := fun s => Permitted (fun s l => l.isTick = true → s.k.pendsv = true)
      (Sys.step boardLayout) s (tickFirst ++ [.svc syscallDelay 5 0 0 0]))
    (by decide +kernel) fun _ hs => hs
  obtain rfl := Option.some.inj (hnil.symm.trans hstart)
  have htimely : Permitted Timely _ _ _ := hp.mono fun _ _ hl htick => Or.inl (Or.inl (hl htick))
  exact ⟨s₀, s, hs₀, hrun, hbeats, preemption_requested boardLayout_placed hs₀ htimely hrun
    (Or.inl rfl) hbeats.outranked⟩

/-- The delay of task 1 ends in a tick, and task 2 keeps the CPU behind it. -/
theorem tick_requests_nothing : ∃ s₀ s : Sys, s₀.Started boardLayout ∧
    run (Sys.step boardLayout) s₀ (delaysOneTick ++ [.tick]) = some s ∧ s.k.Outranked ∧
    s.k.pendsv = false := by
  obtain ⟨s, hboard, ⟨hbeats, hpend⟩, _⟩ := boardRun_comes (delaysOneTick ++ [.tick])
    (P := fun s => s.k.Beats 1 2 ∧ s.k.pendsv = false) (by decide +kernel) fun _ hs => hs
  obtain ⟨s₀, _, hs₀, hrun⟩ := boardRun_started hboard
  exact ⟨s₀, s, hs₀, hrun, hbeats.outranked, hpend⟩

end Crest
