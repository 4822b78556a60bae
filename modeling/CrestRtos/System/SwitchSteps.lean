import CrestRtos.Kernel.Rounds
import CrestRtos.System.TaskSteps

/-!
# The context switch

`scheduler_get_next` goes round the list of each priority from its cursor and
stops at a READY task. The idle task is READY whenever it is not on the CPU, so
the search always finds one, and PendSV puts it on the CPU.
-/

namespace Crest
open IntrusiveList MachineWord Alloc

/-- `scheduler_get_next` finds a READY task as long as there is one. -/
theorem schedulerGetNext_spec {k : Kernel} (runs : Nat → List Tid) {i : Tid}
    (hl : ∀ pr, Linked k.next (k.taskList pr) (runs pr))
    (hcursor : ∀ pr c, k.rrCurrent pr = some c → c ∈ runs pr)
    (hi : ∃ pr, pr < maxTaskPriorities ∧ i ∈ runs pr) (hready : (k.tcb i).state = .ready) :
    ∃ pr t c, t ∈ runs pr ∧ (k.tcb t).state = .ready ∧ c ∈ runs pr ∧
      schedulerGetNext k =
        some ({ k with rrCurrent := Function.update k.rrCurrent pr (some c) }, t) := by
  cases hfound : schedulerGetNext k with
  | none =>
    obtain ⟨pr, hpr, hmem⟩ := hi
    have hnone := List.findSome?_eq_none_iff.mp hfound pr (List.mem_range.mpr hpr)
    exact absurd hready (getNextAt_none (hl pr) (hcursor pr) hnone hmem)
  | some found =>
    obtain ⟨k', t⟩ := found
    obtain ⟨pr, _, hpr⟩ := List.exists_of_findSome?_eq_some hfound
    obtain ⟨ht, hst, c, hc, rfl⟩ := getNextAt_some (hl pr) (hcursor pr) hpr
    exact ⟨pr, t, c, ht, hst, hc, rfl⟩

/-- The control block of a task when `n` is put on the CPU. -/
def Tcb.switched (tcb : Tcb) (next : Bool) (sp r0 : Nat) : Tcb :=
  { tcb with
    stackPointer := sp
    savedR0 := r0
    state := if next then .running else if tcb.state = .running then .ready else tcb.state }

/-- The kernel once `n` is on the CPU. -/
structure Switched (k k' : Kernel) (runs : Nat → List Tid) (n : Tid) : Prop where
  tcb : ∀ t, ∃ sp r0, k'.tcb t = (k.tcb t).switched (t = n) sp r0
  reply : ∀ t, k'.reply t = k.reply t
  state : (k.tcb n).state = .ready ∨ (k.tcb n).state = .running
  mem : ∃ pr, n ∈ runs pr
  current : k'.currentTask = some n
  cursor : ∃ pr c, c ∈ runs pr ∧ k'.rrCurrent = Function.update k.rrCurrent pr (some c)
  rest : { k' with
    tcb := k.tcb
    rrCurrent := k.rrCurrent
    currentTask := k.currentTask
    pendsv := k.pendsv
    nPriv := k.nPriv
    r0 := k.r0
    mpu := k.mpu } = k

/-- A switch relinks nothing. -/
theorem Switched.lists {k k' : Kernel} {W : WaitMap} {runs : Nat → List Tid} {x : Tid}
    (hsw : Switched k k' runs x) (h : Lists k W) : Lists k' W := by
  refine lists_of_same ?_ (fun w => ?_) h
  · funext t
    obtain ⟨sp, r0, htcb⟩ := hsw.tcb t
    rw [Kernel.waitNext, htcb]
    rfl
  · have hrest := congrArg (fun k : Kernel => k.head w) hsw.rest
    rw [← hrest]
    cases w <;> rfl

section Switch
variable {L : Layout} {s s' : Sys} {g : Ghost} {k' : Kernel} {n : Tid} {oldSp : Nat}

theorem saveCurrent_some {k : Kernel} {c : Tid} (hcur : k.currentTask = some c)
    (hsave : saveCurrent k oldSp = some k') :
    k' = k.setTcb c fun tcb : Tcb =>
      { tcb with
        stackPointer := oldSp
        savedR0 := k.r0
        state := if tcb.state = .running then .ready else tcb.state } := by
  rcases saveCurrent_cases hsave with ⟨hnone, _⟩ | ⟨cur, hcur', rfl⟩
  · rw [hcur] at hnone
    cases hnone
  · obtain rfl := Option.some.inj (hcur.symm.trans hcur')
    rfl

/-- Saving the context of `c`, choosing a cursor and resuming `n`. -/
theorem resume_switched {runs : Nat → List Tid} {k : Kernel} {c x : Tid} {pr : Nat}
    (hcur : k.currentTask = some c) (honly : ∀ t, (k.tcb t).state = .running → t = c)
    (hsave : saveCurrent { k with pendsv := false } oldSp = some k')
    (hn : n ∈ runs pr) (hready : (k'.tcb n).state = .ready) (hx : x ∈ runs pr) :
    Switched k
      (resume L { k' with rrCurrent := Function.update k'.rrCurrent pr (some x) } n) runs n := by
  obtain rfl := saveCurrent_some (k := { k with pendsv := false }) hcur hsave
  constructor
  · intro t
    by_cases hc : t = c
    · subst hc
      refine ⟨oldSp, k.r0, ?_⟩
      by_cases htn : t = n
      · subst htn
        simp [resume, Tcb.switched]
      · simp [resume, Tcb.switched, htn, setTcb_tcb_of_ne]
    · have hst : (k.tcb t).state ≠ .running := fun hrun => hc (honly t hrun)
      refine ⟨(k.tcb t).stackPointer, (k.tcb t).savedR0, ?_⟩
      by_cases htn : t = n
      · subst htn
        simp [resume, Tcb.switched, setTcb_tcb_of_ne _ _ hc]
      · simp [resume, Tcb.switched, htn, setTcb_tcb_of_ne, hc, hst]
  · intro t
    by_cases htn : t = n
    · subst htn
      by_cases hc : t = c
      · subst hc
        simp [resume, Kernel.reply, hcur]
      · simp [resume, Kernel.reply, hcur, setTcb_tcb_of_ne _ _ hc, Ne.symm hc]
    · have hne : ¬ n = t := fun heq => htn heq.symm
      by_cases hc : t = c
      · subst hc
        simp [resume, Kernel.reply, hcur, setTcb_tcb_of_ne _ _ htn, hne]
      · simp [resume, Kernel.reply, hcur, setTcb_tcb_of_ne, htn, hc, hne, Ne.symm hc]
  · by_cases hc : n = c
    · subst hc
      rw [setTcb_tcb_same] at hready
      by_cases hrun : (k.tcb n).state = .running
      · exact Or.inr hrun
      · simp only [if_neg hrun] at hready
        exact Or.inl hready
    · rw [setTcb_tcb_of_ne _ _ hc] at hready
      exact Or.inl hready
  · exact ⟨pr, hn⟩
  · rfl
  · exact ⟨pr, x, hx, rfl⟩
  · rfl

/-- PendSV always finds a task to run, the idle task if no other. -/
theorem Inv.switched (h : Inv L s g) (hrun : portSwitchContext L s.k oldSp = some k') :
    ∃ n, Switched s.k k' g.runs n := by
  obtain ⟨c, hc, hcf, _⟩ := h.running.current
  obtain ⟨i, hi, hif⟩ := h.running.idle
  have honly : ∀ t, (s.k.tcb t).state = .running → t = c := fun t ht =>
    (Option.some.inj (hc.symm.trans (h.running.only t ht))).symm
  have hiown : g.place i = .own :=
    h.placed.own_of_pc hif (by rw [hi]; simp) (by rw [hi]; rfl)
  have hview := h.placed.task i
  rw [hiown] at hview
  rw [portSwitchContext] at hrun
  cases hsave : saveCurrent { s.k with pendsv := false } oldSp with
  | none =>
    rw [hsave] at hrun
    cases hrun
  | some k₁ =>
    rw [hsave] at hrun
    have hk₁ := saveCurrent_some (k := { s.k with pendsv := false }) hc hsave
    have hnext : k₁.next = s.k.next := by
      funext t
      rw [hk₁]
      by_cases ht : t = c
      · subst ht
        simp [Kernel.next]
      · simp [Kernel.next, setTcb_tcb_of_ne _ _ ht]
    have hready : (k₁.tcb i).state = .ready := by
      rw [hk₁]
      by_cases hic : i = c
      · subst hic
        rw [setTcb_tcb_same]
        rcases hview.awake hi with hst | hst
        · have hst' : (s.k.tcb i).state = .ready := hst
          simp [hst']
        · have hst' : (s.k.tcb i).state = .running := hst
          simp [hst']
      · rw [setTcb_tcb_of_ne _ _ hic]
        rcases hview.awake hi with hst | hst
        · exact hst
        · exact absurd (honly i hst) hic
    obtain ⟨pr, n, x, hn, hst, hx, hfound⟩ := schedulerGetNext_spec g.runs (k := k₁) (i := i)
      (by rw [hnext, hk₁]; exact h.scheduled.linked)
      (by rw [hk₁]; exact h.scheduled.cursor)
      ⟨_, (h.scheduled.rank _ i ((h.scheduled.alive i).mp hif)).2, (h.scheduled.alive i).mp hif⟩
      hready
    simp only [hfound] at hrun
    obtain rfl := Option.some.inj hrun
    exact ⟨n, resume_switched hc honly hsave hn hst hx⟩

/-- A switch changes what a waiting task looks like in no way that matters. -/
theorem View.Ok.switched {v v' : View} {p : Place} (h : v.Ok p)
    (htcb : ∃ sp r0, v'.tcb = v.tcb.switched false sp r0) (hpc : v'.pc = v.pc)
    (hphase : v'.phase = v.phase) (hsys : v'.sys = v.sys) (hreply : v'.reply = v.reply) :
    v'.Ok p := by
  obtain ⟨sp, r0, htcb⟩ := htcb
  have hstate : ∀ st, st ≠ .running → v.tcb.state = st → v'.tcb.state = st := by
    intro st hst heq
    rw [htcb]
    simp [Tcb.switched, heq, hst]
  have hsame : v'.tcb.delayTicks = v.tcb.delayTicks ∧
      v'.tcb.blockingWaitList = v.tcb.blockingWaitList ∧
      v'.tcb.svcBlocked = v.tcb.svcBlocked ∧ v'.tcb.timedOut = v.tcb.timedOut := by
    rw [htcb]
    exact ⟨rfl, rfl, rfl, rfl⟩
  obtain ⟨hdelay, hlist, hsvc, hto⟩ := hsame
  have hroute : ∀ w, v.Route w → v'.Route w := by
    intro w hw
    simpa only [View.Route, hsvc, hpc, hsys, hto] using hw
  cases p with
  | fresh =>
    exact ⟨hstate _ (by simp) h.state, hdelay.trans h.delay, hlist.trans h.list,
      hsvc.trans h.svc, hpc.trans h.pc, hphase.trans h.phase, hsys.trans h.sys⟩
  | own =>
    refine ⟨hlist.trans h.list, hsvc.trans h.svc, ?_, ?_, ?_, ?_⟩
    · intro hne
      exact hdelay.trans (h.delay fun heq => hne (hstate _ (by simp) heq))
    · intro hidle
      rcases h.awake (hpc.symm.trans hidle) with hst | hst
      · exact Or.inl (hstate _ (by simp) hst)
      · rw [htcb]
        simp [Tcb.switched, hst]
    · rw [hphase, hpc, hto]
      exact h.phase
    · rw [hsys, hpc, hreply]
      exact h.sys
  | ring =>
    exact ⟨hstate _ (by simp) h.state, hdelay.trans h.delay, hlist.trans h.list,
      hsvc.trans h.svc, hpc.trans h.pc, hphase.trans h.phase, hsys.trans h.sys⟩
  | served u =>
    exact ⟨hstate _ (by simp) h.state, hdelay.trans h.delay, hlist.trans h.list,
      hsvc.trans h.svc, hpc.trans h.pc, hphase.trans h.phase, hsys.trans h.sys⟩
  | listed w =>
    obtain ⟨ms, hwaiting, harmed⟩ := h.phase
    exact ⟨hstate _ (by simp) h.state, hroute w h.route, ms, hphase.trans hwaiting,
      harmed.of_same hdelay hlist⟩
  | waking u =>
    obtain ⟨w, hw⟩ := h
    exact ⟨w, hstate _ (by simp) hw.state, hdelay.trans hw.delay, hlist.trans hw.list,
      hroute w hw.route, hphase.trans hw.phase⟩

/-- A field of a control block that a switch never writes. -/
theorem Switched.field {runs : Nat → List Tid} (hs : Switched s.k k' runs n) {α : Type}
    (f : Tcb → α) (hf : ∀ tcb b sp r0, f (Tcb.switched tcb b sp r0) = f tcb) (t : Tid) :
    f (k'.tcb t) = f (s.k.tcb t) := by
  obtain ⟨sp, r0, heq⟩ := hs.tcb t
  rw [heq, hf]

theorem Switched.running {runs : Nat → List Tid} (hs : Switched s.k k' runs n) (t : Tid) :
    (k'.tcb t).state = .running ↔ t = n := by
  obtain ⟨sp, r0, heq⟩ := hs.tcb t
  rw [heq]
  by_cases ht : t = n
  · simp [Tcb.switched, ht]
  · by_cases hst : (s.k.tcb t).state = .running
    · simp [Tcb.switched, ht, hst]
    · simp [Tcb.switched, ht, hst]

theorem Inv.switched_fresh (h : Inv L s g) (hs : Switched s.k k' g.runs n) :
    g.place n ≠ .fresh := by
  obtain ⟨pr, hmem⟩ := hs.mem
  exact (h.scheduled.alive n).mpr ((h.scheduled.rank pr n hmem).1 ▸ hmem)

theorem Switched.not_waiting {runs : Nat → List Tid} (hs : Switched s.k k' runs n) :
    (s.k.tcb n).state ≠ .waiting := by
  rcases hs.state with hst | hst <;> rw [hst] <;> simp

/-- The task put on the CPU was in its own code. -/
theorem Inv.switched_own (h : Inv L s g) (hs : Switched s.k k' g.runs n) : g.place n = .own :=
  h.placed.own_of_state (h.switched_fresh hs) hs.not_waiting

theorem Inv.switched_view (h : Inv L s g) (hs : Switched s.k k' g.runs n) (t : Tid) :
    (({ s with k := k' } : Sys).view t).Ok (g.place t) := by
  have hreply : ∀ t, (({ s with k := k' } : Sys).view t).reply = (s.view t).reply := hs.reply
  obtain ⟨sp, r0, heq⟩ := hs.tcb t
  have htcb : (({ s with k := k' } : Sys).view t).tcb =
      (s.view t).tcb.switched (t = n) sp r0 := by
    change (k'.tcb t).plain = (s.k.tcb t).plain.switched (t = n) sp r0
    rw [heq]
    rfl
  by_cases ht : t = n
  · subst ht
    have hview := h.placed.task t
    rw [h.switched_own hs] at hview ⊢
    rw [decide_eq_true rfl] at htcb
    constructor
    · rw [htcb]
      exact hview.list
    · rw [htcb]
      exact hview.svc
    · intro _
      rw [htcb]
      exact hview.delay hs.not_waiting
    · intro _
      rw [htcb]
      exact Or.inr rfl
    · rw [htcb]
      exact hview.phase
    · rw [hreply t]
      exact hview.sys
  · rw [decide_eq_false ht] at htcb
    exact (h.placed.task t).switched ⟨sp, r0, htcb⟩ rfl rfl rfl (hreply t)

theorem Inv.switched_placed (h : Inv L s g) (hs : Switched s.k k' g.runs n) :
    Placed { s with k := k' } g.lists g.place := by
  have hwork : k'.kwork = s.k.kwork := kwork_of_ring (congrArg Kernel.ring hs.rest :)
  constructor
  · exact hs.lists h.placed.lists
  · intro t p hp
    have hsame : ({ s with k := k' } : Sys).occupants g.lists p = s.occupants g.lists p :=
      occupants_same (u := t) hwork (fun _ _ => rfl) (fun _ => rfl) (fun _ => rfl)
        fun _ _ => rfl
    rw [hsame]
    exact h.placed.home t p hp
  · exact hwork ▸ h.placed.once
  · exact h.switched_view hs

/-- The task put on the CPU, and no other, is RUNNING. -/
theorem Inv.switched_running (h : Inv L s g) (hs : Switched s.k k' g.runs n) :
    Running { s with k := k' } g := by
  constructor
  · exact ⟨n, hs.current, h.switched_fresh hs, Or.inl ((hs.running n).mpr rfl)⟩
  · intro t ht
    obtain rfl := (hs.running t).mp ht
    exact hs.current
  · intro c hc hb
    obtain rfl : n = c := Option.some.inj (hs.current.symm.trans hc)
    have hview := h.placed.task n
    rw [h.switched_own hs] at hview
    have hsvc : (s.k.tcb n).svcBlocked = false := hview.svc
    have hb' := (hs.field Tcb.svcBlocked (fun _ _ _ _ => rfl) n).symm.trans hb
    rw [hsvc] at hb'
    cases hb'
  · exact h.running.idle

/-- A switch leaves the run lists alone and moves one cursor. -/
theorem Inv.switched_scheduled (h : Inv L s g) (hs : Switched s.k k' g.runs n) :
    Scheduled { s with k := k' } g := by
  have hlist : k'.taskList = s.k.taskList := (congrArg Kernel.taskList hs.rest :)
  have hused : k'.tcbUsed = s.k.tcbUsed := (congrArg Kernel.tcbUsed hs.rest :)
  have hnext : k'.next = s.k.next := funext (hs.field Tcb.next fun _ _ _ _ => rfl)
  have hprio : ∀ t, (k'.tcb t).priority = (s.k.tcb t).priority :=
    hs.field Tcb.priority fun _ _ _ _ => rfl
  constructor
  · intro pr
    change Linked k'.next (k'.taskList pr) _
    rw [hnext, hlist]
    exact h.scheduled.linked pr
  · intro t
    change _ ↔ t ∈ g.runs (k'.tcb t).priority
    rw [hprio]
    exact h.scheduled.alive t
  · intro pr t
    change _ → (k'.tcb t).priority = pr ∧ _
    rw [hprio]
    exact h.scheduled.rank pr t
  · intro pr t ht
    obtain ⟨pr', x, hx, hcursor⟩ := hs.cursor
    change k'.rrCurrent pr = some t at ht
    rw [hcursor] at ht
    by_cases hp : pr = pr'
    · subst hp
      rw [Function.update_self] at ht
      exact Option.some.inj ht ▸ hx
    · rw [Function.update_of_ne hp] at ht
      exact h.scheduled.cursor pr t ht
  · change ∀ t, k'.tcbUsed t = false → _
    rw [hused]
    exact h.scheduled.used
  · change ∀ u t, _ → _ ∧ k'.tcbUsed t = true
    rw [hused]
    exact h.scheduled.spawns
  · exact h.scheduled.spawner

theorem Inv.pendSV (h : Inv L s g) (hrun : portSwitchContext L s.k oldSp = some k') :
    Inv L { s with k := k' } g := by
  obtain ⟨n, hs⟩ := h.switched hrun
  constructor
  · exact h.switched_placed hs
  · have hring : k'.ring = s.k.ring := (congrArg Kernel.ring hs.rest :)
    have hkernel : k'.kernelTcb = s.k.kernelTcb := (congrArg Kernel.kernelTcb hs.rest :)
    refine h.coded.frame (u := n) rfl h.coded.worker (fun _ _ => rfl) (h.coded.pcs n) ?_ ?_
      (h.ring_bounds hring).1 (h.ring_bounds hring).2
    · exact hkernel.trans h.coded.kernel
    · exact (hs.field Tcb.delayTicks (fun _ _ _ _ => rfl) _).trans h.coded.rested
  · exact h.switched_running hs
  · exact h.switched_scheduled hs
  · have hheap : k'.heap = s.k.heap := (congrArg Kernel.heap hs.rest :)
    have htable : k'.table = s.k.table := (congrArg Kernel.table hs.rest :)
    have hqueue : k'.queue = s.k.queue := (congrArg Kernel.queue hs.rest :)
    have hplain : k'.plain.queue = s.k.plain.queue := by
      funext a
      simp only [Kernel.plain, hqueue]
    exact h.objects.same hheap htable hplain rfl h.objects.lists

end Switch

end Crest
