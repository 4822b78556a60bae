import CrestRtos.System.Invariant

/-!
# Steps that move no task

Most steps change the code and the control block of the running task only.
`Inv.local` says what such a step owes the invariant: how its code goes on
(`Follows`), what it does to the kernel (`Kernel.Local`), what its own task looks
like afterwards, and what happens to objects.
-/

namespace Crest
open IntrusiveList MachineWord Alloc

/-- The code `p'` goes on from `p` with the same responsibilities. -/
structure Follows (worker : Prop) (p p' : Pc) : Prop where
  idle : p ≠ .idle
  fits : p'.fits worker
  serves : p'.serves = p.serves
  wakes : p'.wakes = p.wakes
  begun : p ≠ .workerStart
  begun' : p' ≠ .workerStart

/-- At most the control block of `u` changes, and PendSV. -/
structure Kernel.Near (k k' : Kernel) (u : Tid) : Prop where
  frame : k'.frame = k.frame
  ring : k'.ring = k.ring
  other : ∀ t, t ≠ u → k'.tasks.tcb t = k.tasks.tcb t
  rank : k'.rank u = k.rank u
  kernel : k'.kernelTcb = k.kernelTcb

/-- And the choice of free control blocks stays. -/
structure Kernel.Local (k k' : Kernel) (u : Tid) : Prop extends k.Near k' u where
  used : k'.tcbUsed = k.tcbUsed

/-- The run lists, the CPU and the choice of control blocks stay. -/
structure Kernel.Keeps (k k' : Kernel) : Prop where
  frame : k'.frame = k.frame
  rank : ∀ t, k'.rank t = k.rank t
  used : k'.tcbUsed = k.tcbUsed
  kernel : k'.kernelTcb = k.kernelTcb

section Local
variable {L : Layout} {s s' : Sys} {g : Ghost} {u : Tid} {k k' : Kernel}

theorem Kernel.Local.refl (k : Kernel) (u : Tid) : k.Local k u :=
  ⟨⟨rfl, rfl, fun _ _ => rfl, rfl, rfl⟩, rfl⟩

theorem frame_of_tasks (h : k'.tasks = k.tasks) : k'.frame = k.frame :=
  show k'.tasks.frame = k.tasks.frame from congrArg Kernel.frame h

theorem rank_of_tasks (h : k'.tasks = k.tasks) (t : Tid) : k'.rank t = k.rank t :=
  show k'.tasks.rank t = k.tasks.rank t from congrArg (Kernel.rank · t) h

theorem Kernel.Local.of_tasks (h : k'.tasks = k.tasks) (u : Tid) : k.Local k' u := by
  have hring := congrArg Kernel.ring h
  have hused := congrArg Kernel.tcbUsed h
  have hkernel := congrArg Kernel.kernelTcb h
  refine ⟨⟨frame_of_tasks h, hring, fun t _ => ?_, rank_of_tasks h u, hkernel⟩, hused⟩
  rw [h]

/-- The control block of `u` changes to `f` of it. -/
theorem Kernel.Local.of_setTcb {f : Tcb → Tcb} (h : k'.tasks = k.tasks.setTcb u f)
    (hnext : ∀ tcb, (f tcb).next = tcb.next) (hprio : ∀ tcb, (f tcb).priority = tcb.priority) :
    k.Local k' u := by
  have hframe := congrArg Kernel.frame h
  have hring := congrArg Kernel.ring h
  have hused := congrArg Kernel.tcbUsed h
  have hkernel := congrArg Kernel.kernelTcb h
  refine ⟨⟨hframe, hring, fun t ht => ?_, ?_, hkernel⟩, hused⟩
  · rw [h, setTcb_tcb_of_ne _ f ht]
  · change k'.tasks.rank u = k.tasks.rank u
    rw [h]
    simp only [Kernel.rank, setTcb_tcb_same, hnext, hprio]

theorem keeps_of_setTcb {x : Tid} {f : Tcb → Tcb} (h : k'.tasks = k.tasks.setTcb x f)
    (hf : ∀ tcb, (f tcb).next = tcb.next ∧ (f tcb).priority = tcb.priority) : k.Keeps k' := by
  constructor
  · have hframe := congrArg Kernel.frame h
    exact hframe
  · intro t
    change k'.tasks.rank t = k.tasks.rank t
    rw [h]
    by_cases ht : t = x
    · subst ht
      simp only [Kernel.rank, setTcb_tcb_same, (hf _).1, (hf _).2]
    · simp only [Kernel.rank, setTcb_tcb_of_ne _ f ht]
  · have hused := congrArg Kernel.tcbUsed h
    exact hused
  · have hkernel := congrArg Kernel.kernelTcb h
    exact hkernel

theorem ring_of_setTcb {x : Tid} {f : Tcb → Tcb} (h : k'.tasks = k.tasks.setTcb x f) :
    k'.ring = k.ring := by
  have hring := congrArg Kernel.ring h
  exact hring

theorem Kernel.Near.current (h : k.Near k' u) : k'.currentTask = k.currentTask :=
  congrArg (fun f => f.2.2) h.frame

theorem kwork_of_ring (h : k'.ring = k.ring) : k'.kwork = k.kwork := by
  have hb : k'.kworkBuf = k.kworkBuf := congrArg Prod.fst h
  have hh : k'.kworkHead = k.kworkHead := congrArg (fun f => f.2.1) h
  have ht : k'.kworkTail = k.kworkTail := congrArg (fun f => f.2.2) h
  rw [Kernel.kwork, hb, hh, ht]
  rfl

theorem reply_of_ne {t : Tid} (hcur : k.currentTask = some u) (ht : t ≠ u) :
    k.reply t = (k.tasks.tcb t).savedR0 := by
  have hne : k.currentTask ≠ some t := by
    rw [hcur]
    exact fun heq => ht (Option.some.inj heq).symm
  rw [Kernel.reply, if_neg hne]
  rfl

theorem reply_current (hcur : k.currentTask = some u) : k.reply u = k.r0 := by
  rw [Kernel.reply, if_pos hcur]

theorem Kernel.Near.view (h : s.k.Near s'.k u) (hcur : s.k.currentTask = some u)
    (hpc : ∀ t, t ≠ u → s'.pc t = s.pc t)
    (hphase : ∀ t, t ≠ u → waitPhase s'.log t = waitPhase s.log t)
    (hsys : ∀ t, t ≠ u → sysPhase s'.log t = sysPhase s.log t) {t : Tid} (ht : t ≠ u) :
    s'.view t = s.view t := by
  have hcur' : s'.k.currentTask = some u := h.current.trans hcur
  have hreply : s'.k.reply t = s.k.reply t := by
    rw [reply_of_ne hcur' ht, reply_of_ne hcur ht, h.other t ht]
  simp only [Sys.view, h.other t ht, hpc t ht, hphase t ht, hsys t ht, hreply]

/-- A step that moves no task keeps the invariant; `l` and `o` are the memory
and the objects it leaves behind. -/
theorem Inv.local_of {p : Pc} {l : List Nat} {o : Nat → Option KobjType} (h : Inv L s g)
    (hcur : s.k.currentTask = some u) (hk : s.k.Near s'.k u)
    (hpc : s'.pc = Function.update s.pc u p) (hfollows : Follows (u = g.worker) (s.pc u) p)
    (hphase : ∀ t, t ≠ u → waitPhase s'.log t = waitPhase s.log t)
    (hsys : ∀ t, t ≠ u → sysPhase s'.log t = sysPhase s.log t)
    (hsvc : p ≠ .svcRet) (hlists : Lists s'.k g.lists) (hview : (s'.view u).Ok (g.place u))
    (hnow : (s'.k.tcb u).state = .running ∨ s'.k.pendsv = true ∨ p.yields = true)
    (hrested : u = g.worker → (s'.k.tcb u).delayTicks = 0) (hscheduled : Scheduled s' g)
    (hobjects : Objects L s' { g with live := l, objs := o }) :
    Inv L s' { g with live := l, objs := o } := by
  have hother : ∀ t, t ≠ u → s'.pc t = s.pc t := fun t ht => by
    rw [hpc, Function.update_of_ne ht]
  have hself : s'.pc u = p := by
    rw [hpc, Function.update_self]
  have htcb : ∀ t, t ≠ u → (s'.k.tcb t).plain = (s.k.tcb t).plain := hk.other
  have hworker := h.coded.kernel
  have hrest := h.coded.rested
  constructor
  · refine h.placed.stay hlists (kwork_of_ring hk.ring) hother ?_ ?_
      (fun t ht => hk.view hcur hother hphase hsys ht) hview
    · rw [hself]
      exact hfollows.serves
    · rw [hself]
      exact hfollows.wakes
  · refine h.coded.frame rfl h.coded.worker hother ?_ ?_ ?_ ?_ ?_
    · rw [hself]
      exact hfollows.fits
    · rw [hk.kernel, hworker]
      by_cases hw : g.worker = u
      · rw [hw, hself, if_neg hfollows.begun, if_neg hfollows.begun']
      · rw [hother _ hw]
    · by_cases hw : g.worker = u
      · rw [hw]
        exact hrested hw.symm
      · have hdelay := congrArg Tcb.delayTicks (htcb _ hw)
        exact hdelay.trans hrest
    · have hhead : s'.k.kworkHead = s.k.kworkHead := congrArg (fun f => f.2.1) hk.ring
      rw [hhead]
      exact h.coded.head
    · have htail : s'.k.kworkTail = s.k.kworkTail := congrArg (fun f => f.2.2) hk.ring
      rw [htail]
      exact h.coded.tail
  · refine h.running.frame hcur (hk.current.trans hcur) (fun t ht => ht) hother hfollows.idle ?_ ?_
      fun hb => ?_
    · intro t ht hst
      have hsame := congrArg Tcb.state (htcb t ht)
      exact hsame.symm.trans hst
    · rw [hself]
      exact hnow
    · have hsvc' := hview.gate (fun heq => hsvc (hself.symm.trans heq))
      exact absurd (hb.symm.trans hsvc') (by simp)
  · exact ⟨hscheduled.linked, hscheduled.alive, hscheduled.rank, hscheduled.cursor,
      hscheduled.used, hscheduled.spawns, hscheduled.spawner⟩
  · exact hobjects

theorem Scheduled.local {p : Pc} (h : Scheduled s g) (hk : s.k.Local s'.k u)
    (hpc : s'.pc = Function.update s.pc u p) (hspawns : p.spawns = (s.pc u).spawns) :
    Scheduled s' g := by
  refine h.frame rfl (fun _ => Iff.rfl) hk.frame ?_ hk.used ?_
  · intro t
    by_cases ht : t = u
    · rw [ht]
      exact hk.rank
    · have hsame := congrArg (fun tcb : Tcb => (tcb.next, tcb.priority)) (hk.other t ht)
      exact hsame
  · intro t
    by_cases ht : t = u
    · rw [ht, hpc, Function.update_self]
      exact hspawns
    · rw [hpc, Function.update_of_ne ht]

theorem Inv.ring_bounds (h : Inv L s g) (hring : k'.ring = s.k.ring) :
    k'.kworkHead < kworkQueueSize ∧ k'.kworkTail < kworkQueueSize := by
  have hhead : k'.kworkHead = s.k.kworkHead := congrArg (fun f => f.2.1) hring
  have htail : k'.kworkTail = s.k.kworkTail := congrArg (fun f => f.2.2) hring
  rw [hhead, htail]
  exact ⟨h.coded.head, h.coded.tail⟩

/-- A step of `u` that moves the task `x` to `q`. -/
theorem Inv.move {W : WaitMap} {x : Tid} {q : Place} {p : Pc} (h : Inv L s g)
    (hcur : s.k.currentTask = some u) (hpc : s'.pc = Function.update s.pc u p)
    (hplaced : Placed s' W (Function.update g.place x q)) (hx : g.place x ≠ .fresh)
    (hq : q ≠ .fresh) (hgate : p = .svcRet → Function.update g.place x q u = .ring)
    (hkeeps : s.k.Keeps s'.k) (hidle : s.pc u ≠ .idle)
    (hbegun : s.pc u ≠ .workerStart) (hbegun' : p ≠ .workerStart)
    (hfits : p.fits (u = g.worker)) (hspawns : p.spawns = (s.pc u).spawns)
    (hstate : ∀ t, t ≠ u → (s'.k.tcb t).state = .running → (s.k.tcb t).state = .running)
    (hnow : (s'.k.tcb u).state = .running ∨ s'.k.pendsv = true ∨ p.yields = true)
    (hrested : (s'.k.tcb g.worker).delayTicks = 0) (hhead : s'.k.kworkHead < kworkQueueSize)
    (htail : s'.k.kworkTail < kworkQueueSize)
    (hobjects : Objects L s' { g with lists := W, place := Function.update g.place x q }) :
    Inv L s' { g with lists := W, place := Function.update g.place x q } := by
  have hother : ∀ t, t ≠ u → s'.pc t = s.pc t := fun t ht => by
    rw [hpc, Function.update_of_ne ht]
  have hself : s'.pc u = p := by
    rw [hpc, Function.update_self]
  have hfresh : ∀ t, Function.update g.place x q t = .fresh ↔ g.place t = .fresh := by
    intro t
    by_cases ht : t = x
    · subst ht
      rw [Function.update_self]
      exact ⟨fun hf => absurd hf hq, fun hf => absurd hf hx⟩
    · rw [Function.update_of_ne ht]
  constructor
  · exact hplaced
  · refine h.coded.frame (u := u) rfl ?_ hother ?_ ?_ hrested hhead htail
    · exact fun hf => h.coded.worker ((hfresh g.worker).mp hf)
    · rw [hself]
      exact hfits
    · rw [hkeeps.kernel, h.coded.kernel]
      by_cases hw : g.worker = u
      · rw [hw, hself, if_neg hbegun, if_neg hbegun']
      · rw [hother _ hw]
  · refine h.running.frame hcur ?_ (fun t => (hfresh t).mp) hother hidle hstate ?_ fun hb => ?_
    · have hc : s'.k.currentTask = s.k.currentTask := congrArg (fun f => f.2.2) hkeeps.frame
      exact hc.trans hcur
    · rw [hself]
      exact hnow
    · by_contra hring
      have hsvc : p ≠ .svcRet := fun heq => hring (hgate heq)
      have hsvc' := (hplaced.task u).gate (fun heq => hsvc (hself.symm.trans heq))
      exact absurd (hb.symm.trans hsvc') (by simp)
  · refine h.scheduled.frame rfl hfresh hkeeps.frame hkeeps.rank hkeeps.used fun t => ?_
    by_cases ht : t = u
    · rw [ht, hself]
      exact hspawns
    · rw [hother t ht]
  · exact hobjects

/-- What a step that leaves objects and memory alone owes `Objects`. -/
theorem Objects.local {p : Pc} (h : Objects L s g) (hheap : s'.k.heap = s.k.heap)
    (htable : s'.k.table = s.k.table) (hqueue : s'.k.queue = s.k.queue)
    (hpc : s'.pc = Function.update s.pc u p)
    (hrefs : ∀ a type, p.object = some (a, type) → g.objs a = some type)
    (hbuilds : p.builds = none) : Objects L s' g := by
  have hself : s'.pc u = p := by
    rw [hpc, Function.update_self]
  refine h.frame (u := u) rfl rfl hheap htable h.lists ?_ ?_ ?_ ?_ ?_
  · intro t ht
    rw [hpc, Function.update_of_ne ht]
  · rw [hself]
    exact hrefs
  · rw [hself]
    exact hbuilds
  · intro a
    rw [hqueue]
    exact id
  · intro a _
    rw [hqueue]
    exact id

end Local

end Crest
