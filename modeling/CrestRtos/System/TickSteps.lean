import CrestRtos.System.SwitchSteps

/-!
# The tick

SysTick may come between any two steps. It counts down the delays of sleeping
tasks and the timeouts of waiting ones, one task after the other, and a task
whose time is up is taken off its list and made READY.
-/

namespace Crest
open IntrusiveList MachineWord Alloc

section Walk
variable {σ : Type} {f : σ → Tid → σ} {P : σ → Prop}

theorem walk_induction (hf : ∀ s t, P s → P (f s t)) (next : σ → Tid → Option Tid) (n : Nat)
    (h : Option Tid) (s : σ)
    (hs : P s) : P (walk next f n h s) := by
  induction n generalizing h s with
  | zero => exact hs
  | succ n ih =>
    cases h with
    | none => exact hs
    | some t => exact ih _ _ (hf s t hs)

/-- What each task's turn keeps, the whole tick keeps. -/
theorem walkAll_induction (hf : ∀ s t, P s → P (f s t)) (s : σ) (hs : P s)
    (next : σ → Tid → Option Tid) (heads : σ → Nat → Option Tid) :
    P (walkAll heads next f s) := by
  rw [walkAll]
  generalize List.range maxTaskPriorities = prs
  induction prs generalizing s with
  | nil => exact hs
  | cons pr prs ih => exact ih _ (walk_induction hf next maxTasks (heads s pr) s hs)

/-- What the clock, each task's turn in either loop and the request keep, a tick keeps. -/
theorem sysTick_induction {P : Sys → Prop} (s : Sys)
    (hclock : P { s with k := { s.k with tickCount := wrap (s.k.tickCount + 1) } })
    (hdelay : ∀ s t, P s → P { s with k := Crest.tickDelay s.k t })
    (hsync : ∀ s t, P s → P (s.syncTickTask t))
    (hdue : ∀ s, P s → P { s with k := portTriggerPendsv s.k }) : P s.sysTick := by
  have hfirst := walkAll_induction (P := fun k => P { s with k := k }) (f := Crest.tickDelay)
    (fun k t hk => hdelay { s with k := k } t hk) _ hclock
  have hsecond := walkAll_induction (P := P) hsync _ (hfirst Kernel.next Kernel.taskList)
  have hlast : ∀ s' : Sys, P s' → P (if s'.k.tickCount % preemptTickInterval = 0 then
      { s' with k := portTriggerPendsv s'.k } else s') := by
    intro s' hs'
    split
    · exact hdue s' hs'
    · exact hs'
  rw [Sys.sysTick]
  exact hlast _ (hsecond (fun s => s.k.next) fun s => s.k.taskList)

end Walk

section Interrupt
variable {L : Layout} {s s' : Sys} {g : Ghost} {t : Tid}

/-- A handler changes control blocks and lists behind the back of the code. -/
theorem Inv.interrupt {W : WaitMap} {p : Tid → Place} (h : Inv L s g) (hpc : s'.pc = s.pc)
    (hplaced : Placed s' W p) (hfresh : ∀ t, p t = .fresh ↔ g.place t = .fresh)
    (hkeeps : s.k.Keeps s'.k) (hring : s'.k.ring = s.k.ring)
    (hstate : ∀ t, (s'.k.tcb t).state = .running ↔ (s.k.tcb t).state = .running)
    (hpend : s.k.pendsv = true → s'.k.pendsv = true)
    (hgate : ∀ t, (s'.k.tcb t).svcBlocked = true →
      (s.k.tcb t).svcBlocked = true ∧ p t = g.place t)
    (hrested : (s'.k.tcb g.worker).delayTicks = 0) (hheap : s'.k.heap = s.k.heap)
    (htable : s'.k.table = s.k.table) (hqueue : s'.k.plain.queue = s.k.plain.queue)
    (hlists : ∀ w, W w ≠ [] → g.objs w.addr = some w.kind) :
    Inv L s' { g with lists := W, place := p } := by
  have hcurrent : s'.k.currentTask = s.k.currentTask := congrArg (fun f => f.2.2) hkeeps.frame
  constructor
  · exact hplaced
  · refine h.coded.frame (u := g.worker) rfl ?_ (fun t _ => congrFun hpc t) ?_ ?_ hrested
      (h.ring_bounds hring).1 (h.ring_bounds hring).2
    · exact fun hf => h.coded.worker ((hfresh g.worker).mp hf)
    · rw [hpc]
      exact h.coded.pcs g.worker
    · rw [hkeeps.kernel, hpc]
      exact h.coded.kernel
  · obtain ⟨c, hc, hcf, hnow⟩ := h.running.current
    obtain ⟨i, hi, hif⟩ := h.running.idle
    constructor
    · refine ⟨c, hcurrent.trans hc, fun hf => hcf ((hfresh c).mp hf), ?_⟩
      rw [hpc]
      rcases hnow with hst | hp | hy
      · exact Or.inl ((hstate c).mpr hst)
      · exact Or.inr (Or.inl (hpend hp))
      · exact Or.inr (Or.inr hy)
    · intro t ht
      exact hcurrent.trans (h.running.only t ((hstate t).mp ht))
    · intro c hc hb
      obtain ⟨hold, hplace⟩ := hgate c hb
      exact hplace.trans (h.running.gate c (hcurrent.symm.trans hc) hold)
    · exact ⟨i, (congrFun hpc i).trans hi, fun hf => hif ((hfresh i).mp hf)⟩
  · refine h.scheduled.frame rfl hfresh hkeeps.frame hkeeps.rank hkeeps.used fun t => ?_
    rw [hpc]
  · exact h.objects.same hheap htable hqueue hpc hlists

/-- The time and the pending PendSV are nobody's state. -/
theorem Inv.clock {n : Nat} {p : Bool} (h : Inv L s g) (hp : s.k.pendsv = true → p = true) :
    Inv L { s with k := { s.k with tickCount := n, pendsv := p } } g := by
  refine h.interrupt (W := g.lists) (p := g.place) rfl ?_ (fun _ => Iff.rfl)
    ⟨rfl, fun _ => rfl, rfl, rfl⟩ rfl (fun _ => Iff.rfl) hp (fun _ hb => ⟨hb, rfl⟩)
    h.coded.rested rfl rfl rfl h.objects.lists
  exact ⟨h.placed.lists, h.placed.home, h.placed.once, h.placed.task⟩

/-- A task that a handler does not touch. -/
theorem view_untouched (htcb : s'.k.tasks.tcb t = s.k.tasks.tcb t) (hpc : s'.pc t = s.pc t)
    (hcurrent : s'.k.currentTask = s.k.currentTask) (hr0 : s'.k.r0 = s.k.r0)
    (hphase : waitPhase s'.log t = waitPhase s.log t)
    (hsys : sysPhase s'.log t = sysPhase s.log t) : s'.view t = s.view t := by
  have hreply : s'.k.reply t = s.k.reply t := by
    have hsaved := congrArg Tcb.savedR0 htcb
    change (s'.k.tcb t).savedR0 = (s.k.tcb t).savedR0 at hsaved
    rw [Kernel.reply, Kernel.reply, hcurrent, hr0, hsaved]
  simp only [Sys.view, htcb, hpc, hphase, hsys, hreply]

theorem view_setTcb {f : Tcb → Tcb} (hplain : (f (s.k.tcb t)).plain = f (s.k.tcb t).plain)
    (hsaved : (f (s.k.tcb t)).savedR0 = (s.k.tcb t).savedR0) :
    ({ s with k := s.k.setTcb t f } : Sys).view t = { s.view t with tcb := f (s.view t).tcb } := by
  have htcb : (s.k.setTcb t f).tasks.tcb t = f (s.k.tasks.tcb t) := by
    rw [tasks_setTcb hplain, setTcb_tcb_same]
  have hreply : (s.k.setTcb t f).reply t = s.k.reply t := by
    rw [Kernel.reply, Kernel.reply, setTcb_tcb_same, hsaved]
    rfl
  simp only [Sys.view, htcb, hreply]

/-- A tick changes the control block of `t` only, and `t` stays where it is. -/
theorem Inv.count {f : Tcb → Tcb} (h : Inv L s g)
    (hf : ∀ tcb, (f tcb).next = tcb.next ∧ (f tcb).priority = tcb.priority)
    (hsame : ∀ tcb, (f tcb).waitNext = tcb.waitNext ∧ (f tcb).svcBlocked = tcb.svcBlocked)
    (hplain : (f (s.k.tcb t)).plain = f (s.k.tcb t).plain)
    (hstate : (f (s.k.tcb t)).state ≠ .running) (hold : (s.k.tcb t).state ≠ .running)
    (hworker : t ≠ g.worker)
    (hview : (({ s with k := s.k.setTcb t f } : Sys).view t).Ok (g.place t)) :
    Inv L { s with k := s.k.setTcb t f } g := by
  have htasks : (s.k.setTcb t f).tasks = s.k.tasks.setTcb t f := tasks_setTcb hplain
  refine h.interrupt (W := g.lists) (p := g.place) rfl ?_ (fun _ => Iff.rfl)
    (keeps_of_setTcb htasks hf) (ring_of_setTcb htasks) ?_ id ?_ ?_ rfl rfl rfl h.objects.lists
  · constructor
    · exact lists_setTcb (hsame _).1 h.placed.lists
    · exact h.placed.home
    · exact h.placed.once
    · intro x
      by_cases hx : x = t
      · subst hx
        exact hview
      · have hsamev : ({ s with k := s.k.setTcb t f } : Sys).view x = s.view x := by
          refine view_untouched ?_ rfl rfl rfl rfl rfl
          change (s.k.setTcb t f).tasks.tcb x = _
          rw [htasks, setTcb_tcb_of_ne _ _ hx]
        rw [hsamev]
        exact h.placed.task x
  · intro x
    by_cases hx : x = t
    · subst hx
      change ((s.k.setTcb x f).tcb x).state = _ ↔ _
      rw [setTcb_tcb_same]
      exact ⟨fun hr => absurd hr hstate, fun hr => absurd hr hold⟩
    · change ((s.k.setTcb t f).tcb x).state = _ ↔ _
      rw [setTcb_tcb_of_ne _ _ hx]
  · intro x hb
    refine ⟨?_, rfl⟩
    change ((s.k.setTcb t f).tcb x).svcBlocked = true at hb
    by_cases hx : x = t
    · subst hx
      rw [setTcb_tcb_same, (hsame _).2] at hb
      exact hb
    · rw [setTcb_tcb_of_ne _ _ hx] at hb
      exact hb
  · change ((s.k.setTcb t f).tcb g.worker).delayTicks = 0
    rw [setTcb_tcb_of_ne _ _ (Ne.symm hworker)]
    exact h.coded.rested

/-- A task with ticks to go waits on a list or sleeps. -/
theorem Inv.counting (h : Inv L s g) (hdelay : 0 < (s.k.tcb t).delayTicks) :
    t ≠ g.worker ∧ (g.place t = .own ∧ (s.k.tcb t).blockingWaitList = none ∨
      ∃ w, g.place t = .listed w ∧ (s.k.tcb t).blockingWaitList = some w) := by
  have hview := h.placed.task t
  have hne : (s.view t).tcb.delayTicks ≠ 0 := Nat.pos_iff_ne_zero.mp hdelay
  refine ⟨?_, ?_⟩
  · rintro rfl
    exact hne h.coded.rested
  · cases hp : g.place t with
    | fresh =>
      rw [hp] at hview
      exact absurd hview.delay hne
    | own =>
      rw [hp] at hview
      exact Or.inl ⟨rfl, hview.list⟩
    | ring =>
      rw [hp] at hview
      exact absurd hview.delay hne
    | served u =>
      rw [hp] at hview
      exact absurd hview.delay hne
    | listed w =>
      rw [hp] at hview
      rcases hview.timeout with ⟨_, hlist⟩ | ⟨hzero, _⟩
      · exact Or.inr ⟨w, rfl, hlist⟩
      · exact absurd hzero hne
    | waking u =>
      rw [hp] at hview
      obtain ⟨w, hw⟩ := hview
      exact absurd hw.delay hne

/-- A tick of a sleeping task, and of one that waits with a timeout. -/
def Tcb.slept (tcb : Tcb) : Tcb :=
  { tcb with
    delayTicks := tcb.delayTicks - 1
    state := if tcb.delayTicks - 1 = 0 then .ready else tcb.state }

def Tcb.waited (tcb : Tcb) : Tcb := { tcb with delayTicks := tcb.delayTicks - 1 }

/-- A sleeping task counts down, and wakes up at zero. -/
theorem Inv.tickDelay (h : Inv L s g) : Inv L { s with k := Crest.tickDelay s.k t } g := by
  rw [Crest.tickDelay]
  by_cases hcond : (s.k.tcb t).state = .waiting ∧ 0 < (s.k.tcb t).delayTicks ∧
      (s.k.tcb t).blockingWaitList = none
  · rw [if_pos hcond]
    obtain ⟨hst, hdelay, hnone⟩ := hcond
    obtain ⟨hworker, hplace⟩ := h.counting hdelay
    have hown : g.place t = .own := by
      rcases hplace with ⟨hown, _⟩ | ⟨w, _, hw⟩
      · exact hown
      · rw [hnone] at hw
        cases hw
    have hview := h.placed.task t
    rw [hown] at hview
    have hidle : s.pc t ≠ .idle := by
      intro hi
      rcases hview.awake hi with hs | hs
      · exact absurd (hst.symm.trans hs) (by simp)
      · exact absurd (hst.symm.trans hs) (by simp)
    refine h.count (f := Tcb.slept) (fun _ => ⟨rfl, rfl⟩) (fun _ => ⟨rfl, rfl⟩) rfl ?_
      (by rw [hst]; simp) hworker ?_
    · by_cases hzero : (s.k.tcb t).delayTicks - 1 = 0
      · simp [Tcb.slept, hzero]
      · simp [Tcb.slept, hzero, hst]
    · rw [view_setTcb (f := Tcb.slept) rfl rfl, hown]
      refine ⟨hview.list, hview.svc, ?_, fun hi => absurd hi hidle, hview.phase, hview.sys⟩
      intro hne
      by_contra hzero
      have hsame : (s.view t).tcb.slept.state = (s.k.tcb t).state := if_neg hzero
      exact hne (hsame.trans hst)
  · rw [if_neg hcond]
    exact h

/-- The control block of a task whose time on a list is up. -/
def Tcb.expired (tcb : Tcb) : Tcb :=
  { tcb with
    delayTicks := tcb.delayTicks - 1
    blockingWaitList := none
    timedOut := true
    savedR0 := if tcb.svcBlocked then minusOne else tcb.savedR0
    svcBlocked := false
    state := .ready }

/-- The branch of `sync_tick_all` for such a task. -/
def expireWaiter (k : Kernel) (w : WaitList) (t : Tid) : Kernel :=
  schedulerWakeTask ((unlinkWaiter (k.setTcb t Tcb.waited) w t).setTcb t fun tcb =>
    { tcb with blockingWaitList := none, timedOut := true }) t minusOne

theorem tasks_expireWaiter (k : Kernel) (w : WaitList) (t : Tid) :
    (expireWaiter k w t).tasks = portTriggerPendsv (k.tasks.setTcb t Tcb.expired) := by
  have hcount : (k.setTcb t Tcb.waited).tasks = k.tasks.setTcb t Tcb.waited := tasks_setTcb rfl
  have hunlink : (unlinkWaiter (k.setTcb t Tcb.waited) w t).tasks =
      k.tasks.setTcb t Tcb.waited := by
    rw [← hcount]
    exact tasks_of_plain (plain_unlinkWaiter _ w t)
  have hflag : ((unlinkWaiter (k.setTcb t Tcb.waited) w t).setTcb t fun tcb =>
      { tcb with blockingWaitList := none, timedOut := true }).tasks =
      (k.tasks.setTcb t Tcb.waited).setTcb t fun tcb =>
        { tcb with blockingWaitList := none, timedOut := true } := by
    rw [← hunlink]
    refine tasks_setTcb ?_
    rfl
  have hwake := tasks_wakeSection ((unlinkWaiter (k.setTcb t Tcb.waited) w t).setTcb t fun tcb =>
    { tcb with blockingWaitList := none, timedOut := true }) t minusOne
  rw [hflag, setTcb_setTcb, setTcb_setTcb] at hwake
  exact congrArg portTriggerPendsv hwake

/-- Apart from tasks and list heads a timeout changes nothing. -/
theorem expireWaiter_store (k : Kernel) (w : WaitList) (t : Tid) :
    (expireWaiter k w t).heap = k.heap ∧ (expireWaiter k w t).table = k.table ∧
      (expireWaiter k w t).plain.sem = k.plain.sem ∧
      (expireWaiter k w t).plain.mutex = k.plain.mutex ∧
      (expireWaiter k w t).plain.queue = k.plain.queue := by
  have hplain := plain_unlinkWaiter (k.setTcb t Tcb.waited) w t
  exact ⟨(congrArg Kernel.heap hplain :), (congrArg Kernel.table hplain :),
    (congrArg Kernel.sem hplain :), (congrArg Kernel.mutex hplain :),
    (congrArg Kernel.queue hplain :)⟩

theorem lists_expireWaiter {k : Kernel} {W : WaitMap} {w : WaitList} {l r : List Tid}
    (h : Lists k W) (hd : Apart W) (hw : W w = l ++ t :: r) :
    Lists (expireWaiter k w t) (Function.update W w (l ++ r)) := by
  have hcount : Lists (k.setTcb t Tcb.waited) W := lists_setTcb rfl h
  have hunlink := lists_unlinkWaiter hcount hd hw
  have hflag : Lists ((unlinkWaiter (k.setTcb t Tcb.waited) w t).setTcb t fun tcb =>
      { tcb with blockingWaitList := none, timedOut := true })
      (Function.update W w (l ++ r)) := lists_setTcb rfl hunlink
  exact lists_wakeSection t minusOne hflag

theorem mem_unlinked {l r : List Tid} (hnd : (l ++ t :: r).Nodup) (x : Tid) :
    x ∈ l ++ r ↔ x ∈ l ++ t :: r ∧ x ≠ t := by
  have hout : t ∉ l ++ r := (List.nodup_cons.mp (List.nodup_middle.mp hnd)).1
  rw [List.perm_middle.mem_iff, List.mem_cons]
  constructor
  · intro hx
    refine ⟨Or.inr hx, ?_⟩
    rintro rfl
    exact hout hx
  · rintro ⟨rfl | hx, hne⟩
    · exact absurd rfl hne
    · exact hx

/-- How a wait looks once its time is up. -/
theorem View.Parked.expired {v v' : View} {w : WaitList} (h : v.Parked w)
    (hdelay : v.tcb.delayTicks = 1) (htcb : v'.tcb = v.tcb.expired) (hpc : v'.pc = v.pc)
    (hphase : v'.phase = if v.tcb.svcBlocked = true then WaitPhase.conclude minusOne (.expired w)
      else .expired w)
    (hsys : v'.sys = if v.tcb.svcBlocked = true then .answered minusOne else v.sys)
    (hreply : v.tcb.svcBlocked = true → v'.reply = minusOne) : v'.Own := by
  have hidle : v.pc ≠ .idle := by
    rcases h.route with ⟨_, hsvc, _⟩ | ⟨_, hwaits, _⟩
    · rw [hsvc]
      simp
    · intro hi
      rw [hi] at hwaits
      cases hwaits
  constructor
  · rw [htcb]
    rfl
  · rw [htcb]
    rfl
  · intro _
    rw [htcb]
    change v.tcb.delayTicks - 1 = 0
    rw [hdelay]
  · rw [hpc]
    exact fun hi => absurd hi hidle
  · rw [hphase, hpc, htcb]
    change _ = v.pc.settled true
    rcases h.route with ⟨hsvc, hret, _⟩ | ⟨hsvc, hwaits, _⟩
    · rw [if_pos hsvc, hret]
      rfl
    · rw [if_neg (by rw [hsvc]; simp)]
      cases hp : v.pc with
      | block op r =>
        rw [hp] at hwaits
        simp [Pc.settled, show op.waitList = some w from hwaits]
      | check op r =>
        rw [hp] at hwaits
        simp [Pc.settled, show op.waitList = some w from hwaits]
      | _ =>
        rw [hp] at hwaits
        cases hwaits
  · rw [hsys, hpc]
    rcases h.route with ⟨hsvc, hret, _⟩ | ⟨hsvc, hwaits, hs, _⟩
    · rw [if_pos hsvc, if_pos hret, hreply hsvc]
    · have hnot : v.pc ≠ .svcRet := by
        intro hret
        rw [hret] at hwaits
        cases hwaits
      rw [if_neg (by rw [hsvc]; simp), if_neg hnot, hs]

theorem expireWaiter_other (k : Kernel) (w : WaitList) {x : Tid} (hx : x ≠ t) :
    (expireWaiter k w t).tasks.tcb x = k.tasks.tcb x := by
  rw [tasks_expireWaiter]
  exact setTcb_tcb_of_ne _ _ hx

theorem expireWaiter_self (k : Kernel) (w : WaitList) :
    (expireWaiter k w t).tasks.tcb t = (k.tasks.tcb t).expired := by
  rw [tasks_expireWaiter]
  exact setTcb_tcb_same _ _ _

theorem expireWaiter_keeps (k : Kernel) (w : WaitList) : k.Keeps (expireWaiter k w t) := by
  have hset : k.Keeps (k.setTcb t Tcb.expired) :=
    keeps_of_setTcb (f := Tcb.expired) (tasks_setTcb rfl) fun _ => ⟨rfl, rfl⟩
  have hk : (portTriggerPendsv (k.setTcb t Tcb.expired)).tasks = (expireWaiter k w t).tasks := by
    rw [tasks_expireWaiter]
    exact congrArg portTriggerPendsv (tasks_setTcb (f := Tcb.expired) rfl)
  constructor
  · exact (frame_of_tasks hk.symm).trans hset.frame
  · exact fun x => (rank_of_tasks hk.symm x).trans (hset.rank x)
  · have hused := congrArg Kernel.tcbUsed hk
    exact hused.symm
  · have hkernel := congrArg Kernel.kernelTcb hk
    exact hkernel.symm

theorem expireWaiter_ring (k : Kernel) (w : WaitList) : (expireWaiter k w t).ring = k.ring := by
  have heq := congrArg Kernel.ring (tasks_expireWaiter k w t)
  exact heq

theorem waitPhase_expire (k : Kernel) (w : WaitList) (log : List Event) (x : Tid) :
    waitPhase ((answerNote k t minusOne ++ [Event.expire w t]) ++ log) x =
      if (k.tcb t).svcBlocked = true ∧ t = x
        then ((waitPhase log x).next x (.expire w t)).conclude minusOne
        else (waitPhase log x).next x (.expire w t) := by
  rw [List.append_assoc, waitPhase_answerNote]
  rfl

theorem sysPhase_expire (k : Kernel) (w : WaitList) (log : List Event) (x : Tid) :
    sysPhase ((answerNote k t minusOne ++ [Event.expire w t]) ++ log) x =
      if (k.tcb t).svcBlocked = true ∧ t = x then
        (if sysPhase log x = .posted then .answered minusOne else .broken)
      else sysPhase log x := by
  rw [List.append_assoc, sysPhase_answerNote]
  rfl

/-- The task whose time is up has its own code again. -/
theorem Inv.expired_view {w : WaitList} (h : Inv L s g) (hplace : g.place t = .listed w)
    (hdelay : (s.k.tcb t).delayTicks = 1) :
    (({ s with k := expireWaiter s.k w t }.note
      (answerNote s.k t minusOne ++ [Event.expire w t])).view t).Own := by
  have hview := h.placed.task t
  rw [hplace] at hview
  have hself := expireWaiter_self (t := t) s.k w
  have hcurrent : (expireWaiter s.k w t).currentTask = s.k.currentTask :=
    congrArg (fun f => f.2.2) (expireWaiter_keeps s.k w).frame
  obtain ⟨ms, hphase, _⟩ := hview.phase
  have hphase : waitPhase s.log t = .waiting w ms := hphase
  refine hview.expired hdelay hself rfl ?_ ?_ ?_
  · refine (waitPhase_expire s.k w s.log t).trans ?_
    rw [hphase]
    simp only [WaitPhase.next, WaitPhase.leave, if_true, and_true]
    rfl
  · refine (sysPhase_expire s.k w s.log t).trans ?_
    by_cases hsvc : (s.k.tcb t).svcBlocked = true
    · rw [if_pos ⟨hsvc, rfl⟩, if_pos (show (s.view t).tcb.svcBlocked = true from hsvc)]
      rcases hview.route with ⟨_, _, hposted, _⟩ | ⟨hnot, _⟩
      · exact if_pos hposted
      · exact absurd (hsvc.symm.trans hnot) (by simp)
    · rw [if_neg fun hc => hsvc hc.1,
        if_neg (show ¬ (s.view t).tcb.svcBlocked = true from hsvc)]
      rfl
  · intro hsvc
    change (expireWaiter s.k w t).reply t = minusOne
    have hnot : (expireWaiter s.k w t).currentTask ≠ some t := by
      intro hcur
      have hring := h.running.gate t (hcurrent.symm.trans hcur) hsvc
      rw [hplace] at hring
      cases hring
    rw [Kernel.reply, if_neg hnot]
    have hsaved := congrArg Tcb.savedR0 hself
    exact hsaved.trans (if_pos hsvc)

theorem Inv.expired_placed {w : WaitList} {l r : List Tid} (h : Inv L s g)
    (hw : g.lists w = l ++ t :: r) (hplace : g.place t = .listed w)
    (hdelay : (s.k.tcb t).delayTicks = 1) :
    Placed ({ s with k := expireWaiter s.k w t }.note
      (answerNote s.k t minusOne ++ [Event.expire w t]))
      (Function.update g.lists w (l ++ r)) (Function.update g.place t .own) := by
  have hring := expireWaiter_ring (t := t) s.k w
  have hnd := linked_nodup (h.placed.lists w)
  refine h.placed.move (u := t) (lists_expireWaiter h.placed.lists h.placed.apart hw) ?_ ?_
    (fun heq => by cases heq) ?_ ?_ (h.expired_view hplace hdelay) fun hx => absurd rfl hx
  · have hwork : (expireWaiter s.k w t).kwork = s.k.kwork := kwork_of_ring hring
    exact hwork ▸ h.placed.once
  · intro _ _ x
    rw [hplace]
    change x ∈ Function.update g.lists w (l ++ r) w ↔ x ∈ g.lists w ∧ x ≠ t
    rw [hw] at hnd ⊢
    rw [Function.update_self]
    exact mem_unlinked hnd x
  · intro p _ hpx _
    refine occupants_same (u := t) (kwork_of_ring hring) (fun _ _ => rfl) (fun _ => rfl)
      (fun _ => rfl) ?_
    rintro w' rfl
    refine Function.update_of_ne ?_ _ _
    rintro rfl
    exact hpx hplace.symm
  · intro x hx _
    refine view_untouched (expireWaiter_other s.k w hx) rfl
      (congrArg (fun f => f.2.2) (expireWaiter_keeps s.k w).frame)
      (congrArg Kernel.r0 (tasks_expireWaiter s.k w t) :) ?_ ?_
    · refine (waitPhase_expire s.k w s.log x).trans ?_
      rw [if_neg fun hc => hx hc.2.symm]
      simp [WaitPhase.next, Ne.symm hx]
    · refine (sysPhase_expire s.k w s.log x).trans ?_
      rw [if_neg fun hc => hx hc.2.symm]

/-- A task whose timeout has come is taken off its list and made READY. -/
theorem Inv.expire {w : WaitList} (h : Inv L s g) (hplace : g.place t = .listed w)
    (hdelay : (s.k.tcb t).delayTicks = 1) :
    ∃ g', Inv L ({ s with k := expireWaiter s.k w t }.note
      (answerNote s.k t minusOne ++ [Event.expire w t])) g' ∧ g'.worker = g.worker := by
  have hmem := (h.placed.mem_list t w).mpr hplace
  obtain ⟨l, r, hw⟩ := List.append_of_mem hmem
  obtain ⟨hheap, htable, _, _, hqueue⟩ := expireWaiter_store s.k w t
  have hview := h.placed.task t
  rw [hplace] at hview
  have hself := expireWaiter_self (t := t) s.k w
  have hst : (s.k.tcb t).state = .waiting := hview.state
  refine ⟨{ g with
    lists := Function.update g.lists w (l ++ r), place := Function.update g.place t .own }, ?_, rfl⟩
  refine h.interrupt rfl (h.expired_placed hw hplace hdelay) ?_ (expireWaiter_keeps s.k w)
    (expireWaiter_ring s.k w) ?_ (fun _ => rfl) ?_ ?_ hheap htable hqueue ?_
  · intro x
    by_cases hx : x = t
    · subst hx
      rw [Function.update_self, hplace]
      simp
    · rw [Function.update_of_ne hx]
  · intro x
    by_cases hx : x = t
    · subst hx
      have hst' : ((expireWaiter s.k w x).tcb x).state = .ready :=
        (congrArg Tcb.state hself :)
      change ((expireWaiter s.k w x).tcb x).state = _ ↔ _
      rw [hst', hst]
      simp
    · have heq : ((expireWaiter s.k w t).tcb x).state = (s.k.tcb x).state :=
        (congrArg Tcb.state (expireWaiter_other s.k w hx) :)
      change ((expireWaiter s.k w t).tcb x).state = _ ↔ _
      rw [heq]
  · intro x hb
    have hx : x ≠ t := by
      rintro rfl
      have hfalse : ((expireWaiter s.k w x).tcb x).svcBlocked = false :=
        (congrArg Tcb.svcBlocked hself :)
      exact absurd (hb.symm.trans hfalse) (by simp)
    have heq := congrArg Tcb.svcBlocked (expireWaiter_other s.k w hx)
    exact ⟨heq.symm.trans hb, Function.update_of_ne hx _ _⟩
  · have hworker : g.worker ≠ t := by
      rintro rfl
      rw [h.worker_own] at hplace
      cases hplace
    have heq := congrArg Tcb.delayTicks (expireWaiter_other s.k w hworker)
    exact heq.trans h.coded.rested
  · intro w' hne
    by_cases hw' : w' = w
    · subst hw'
      exact h.objects.lists w' (List.ne_nil_of_mem hmem)
    · rw [Function.update_of_ne hw'] at hne
      exact h.objects.lists w' hne

/-- The visit of `sync_tick_all` passes a task, counts down, or ends its wait. -/
inductive Visit (k : Kernel) (t : Tid) : Kernel → Prop
  | passes (hnot : ¬ ((k.tcb t).state = .waiting ∧ 0 < (k.tcb t).delayTicks ∧
      (k.tcb t).blockingWaitList ≠ none)) : Visit k t k
  | counts {w : WaitList} (hst : (k.tcb t).state = .waiting) (hmore : 1 < (k.tcb t).delayTicks)
      (hlist : (k.tcb t).blockingWaitList = some w) : Visit k t (k.setTcb t Tcb.waited)
  | expires {w : WaitList} (hst : (k.tcb t).state = .waiting) (hone : (k.tcb t).delayTicks = 1)
      (hlist : (k.tcb t).blockingWaitList = some w) : Visit k t (expireWaiter k w t)

theorem syncTickTask_visit (k : Kernel) (t : Tid) : Visit k t (Crest.syncTickTask k t) := by
  cases hlist : (k.tcb t).blockingWaitList with
  | none =>
    have hsame : Crest.syncTickTask k t = k := by simp [Crest.syncTickTask, hlist]
    rw [hsame]
    exact .passes fun hcond => hcond.2.2 hlist
  | some w =>
    by_cases hcond : (k.tcb t).state = .waiting ∧ 0 < (k.tcb t).delayTicks
    · by_cases hlast : (k.tcb t).delayTicks = 1
      · have hexp : Crest.syncTickTask k t = expireWaiter k w t := by
          simp [Crest.syncTickTask, hlist, hcond.1, hlast]
          rfl
        rw [hexp]
        exact .expires hcond.1 hlast hlist
      · have hwait : Crest.syncTickTask k t = k.setTcb t Tcb.waited := by
          have hmore : (k.tcb t).delayTicks - 1 ≠ 0 := by omega
          simp [Crest.syncTickTask, hlist, hcond, hmore]
          rfl
        rw [hwait]
        exact .counts hcond.1 (by omega) hlist
    · have hsame : Crest.syncTickTask k t = k := by simp [Crest.syncTickTask, hlist, hcond]
      rw [hsame]
      exact .passes fun hall => hcond ⟨hall.1, hall.2.1⟩

theorem expires_eq_some {k : Kernel} {w : WaitList} : expires k t = some w ↔
    (k.tcb t).state = .waiting ∧ (k.tcb t).delayTicks = 1 ∧
      (k.tcb t).blockingWaitList = some w := by
  rw [expires]
  split
  · rename_i hcond
    exact ⟨fun h => ⟨hcond.1, hcond.2, h⟩, fun h => h.2.2⟩
  · rename_i hcond
    exact ⟨fun h => (nomatch h), fun h => absurd ⟨h.1, h.2.1⟩ hcond⟩

theorem expires_of_passes {k : Kernel} (hnot : ¬ ((k.tcb t).state = .waiting ∧
    0 < (k.tcb t).delayTicks ∧ (k.tcb t).blockingWaitList ≠ none)) : expires k t = none := by
  by_contra hne
  obtain ⟨w, hw⟩ := Option.ne_none_iff_exists'.mp hne
  obtain ⟨hst, hone, hlist⟩ := expires_eq_some.mp hw
  exact hnot ⟨hst, by omega, by rw [hlist]; simp⟩

theorem Inv.syncTickTask (h : Inv L s g) (t : Tid) :
    ∃ g', Inv L (s.syncTickTask t) g' ∧ g'.worker = g.worker := by
  have hvisit := syncTickTask_visit s.k t
  rw [Sys.syncTickTask]
  generalize Crest.syncTickTask s.k t = k' at hvisit ⊢
  cases hvisit with
  | passes hnot =>
    rw [expires_of_passes hnot]
    exact ⟨g, h, rfl⟩
  | @counts w hst hmore hlist =>
    have hnone : Crest.expires s.k t = none := if_neg fun hcond => by omega
    obtain ⟨hworker, ⟨_, hbad⟩ | ⟨w', hplace, _⟩⟩ := h.counting (t := t) (by omega)
    · rw [hlist] at hbad
      cases hbad
    have hview := h.placed.task t
    rw [hplace] at hview
    rw [hnone]
    refine ⟨g, h.count (fun _ => ⟨rfl, rfl⟩) (fun _ => ⟨rfl, rfl⟩) rfl ?_ (by rw [hst]; simp)
      hworker ?_, rfl⟩
    · change (s.k.tcb t).state ≠ .running
      rw [hst]
      simp
    · rw [view_setTcb (f := Tcb.waited) rfl rfl, hplace]
      obtain ⟨ms, hphase, ⟨hfinite, _, hlist'⟩ | ⟨_, hzero, _⟩⟩ := hview.phase
      · refine ⟨hview.state, hview.route, ms, hphase, Or.inl ⟨hfinite, ?_, hlist'⟩⟩
        change 0 < (s.k.tcb t).delayTicks - 1
        omega
      · exact absurd (show (s.k.tcb t).delayTicks = 0 from hzero) (by omega)
  | @expires w hst hone hlist =>
    have hsome : Crest.expires s.k t = some w := expires_eq_some.mpr ⟨hst, hone, hlist⟩
    obtain ⟨_, ⟨_, hbad⟩ | ⟨w', hplace, hlist'⟩⟩ := h.counting (t := t) (by omega)
    · rw [hlist] at hbad
      cases hbad
    obtain rfl := Option.some.inj (hlist'.symm.trans hlist)
    rw [hsome]
    exact h.expire hplace hone

/-- SysTick keeps the invariant. -/
theorem Inv.sysTick (h : Inv L s g) : ∃ g', Inv L s.sysTick g' ∧ g'.worker = g.worker := by
  refine sysTick_induction (P := fun s => ∃ g', Inv L s g' ∧ g'.worker = g.worker) s
    ⟨g, h.clock id, rfl⟩ (fun s' t hs' => ?_) (fun s' t hs' => ?_) fun s' hs' => ?_
  · obtain ⟨g', hg', hw'⟩ := hs'
    exact ⟨g', hg'.tickDelay, hw'⟩
  · obtain ⟨g', hg', hw'⟩ := hs'
    obtain ⟨g'', hg'', hw''⟩ := hg'.syncTickTask t
    exact ⟨g'', hg'', hw''.trans hw'⟩
  · obtain ⟨g', hg', hw'⟩ := hs'
    exact ⟨g', hg'.clock fun _ => rfl, hw'⟩

end Interrupt

end Crest
