import CrestRtos.Board.Machine
import CrestRtos.Properties.MemoryMap
import CrestRtos.Properties.Progress

/-!
# What steps leave of the tasks off the CPU

Where a task's registers are saved and how its stack lies changes when the task itself is
switched out, and at its creation. Its saved R0 changes with the flag of its syscall only.
-/

namespace Crest
open IntrusiveList MachineWord Alloc

structure Tcb.Stays (tcb tcb' : Tcb) : Prop where
  pointer : tcb'.stackPointer = tcb.stackPointer
  lasting : tcb'.lasting = tcb.lasting

/-- Somebody else's step. -/
structure Tcb.Steady (tcb tcb' : Tcb) : Prop extends tcb.Stays tcb' where
  saved : tcb'.savedR0 = tcb.savedR0 ∨ tcb.svcBlocked = true ∧ tcb'.svcBlocked = false
  gate : tcb'.svcBlocked = true → tcb.svcBlocked = true

section Blocks
variable {tcb tcb' tcb'' : Tcb}

theorem Tcb.Stays.refl (tcb : Tcb) : tcb.Stays tcb := ⟨rfl, rfl⟩

theorem Tcb.Steady.refl (tcb : Tcb) : tcb.Steady tcb := ⟨⟨rfl, rfl⟩, Or.inl rfl, id⟩

theorem Tcb.Steady.of_eq (h : tcb'.plain = tcb.plain) : tcb.Steady tcb' := by
  have hsame := Tcb.Steady.refl tcb.plain
  nth_rewrite 2 [← h] at hsame
  exact ⟨⟨hsame.pointer, hsame.lasting⟩, hsame.saved, hsame.gate⟩

theorem Tcb.Steady.trans (h : tcb.Steady tcb') (h' : tcb'.Steady tcb'') : tcb.Steady tcb'' := by
  refine ⟨⟨h'.pointer.trans h.pointer, h'.lasting.trans h.lasting⟩, ?_, fun hg =>
    h.gate (h'.gate hg)⟩
  rcases h'.saved with hsame | ⟨hset, hclear⟩
  · rcases h.saved with hsame' | ⟨hset, hclear⟩
    · exact Or.inl (hsame.trans hsame')
    · refine Or.inr ⟨hset, ?_⟩
      cases hg : tcb''.svcBlocked with
      | false => rfl
      | true =>
        rw [h'.gate hg] at hclear
        cases hclear
  · exact Or.inr ⟨h.gate hset, hclear⟩

/-- A function that writes R0 only where it takes the flag away. -/
theorem Tcb.Steady.clear {v : Nat} (hstays : tcb.Stays tcb')
    (hsaved : tcb'.savedR0 = if tcb.svcBlocked then v else tcb.savedR0)
    (hclear : tcb'.svcBlocked = false) : tcb.Steady tcb' := by
  refine ⟨hstays, ?_, fun hg => ?_⟩
  · cases hb : tcb.svcBlocked with
    | false =>
      rw [hb] at hsaved
      exact Or.inl hsaved
    | true => exact Or.inr ⟨rfl, hclear⟩
  · rw [hclear] at hg
    cases hg

theorem asleep_steady (n : Nat) (tcb : Tcb) : tcb.Steady (tcb.asleep n) :=
  ⟨⟨rfl, rfl⟩, Or.inl rfl, id⟩

theorem parked_steady (direct : Bool) (w : WaitList) (ms : Nat) (tcb : Tcb) :
    tcb.Steady (tcb.parked direct w ms) := by
  rw [Tcb.parked]
  cases direct
  · split <;> exact ⟨⟨rfl, rfl⟩, Or.inl rfl, id⟩
  · simp only [if_true]
    split <;> exact ⟨⟨rfl, rfl⟩, Or.inl rfl, id⟩

theorem unlinked_steady (tcb : Tcb) : tcb.Steady tcb.unlinked := ⟨⟨rfl, rfl⟩, Or.inl rfl, id⟩

theorem woken_steady (v : Nat) (tcb : Tcb) : tcb.Steady (tcb.woken v) :=
  .clear ⟨rfl, rfl⟩ rfl rfl

theorem delayTicked_steady (tcb : Tcb) : tcb.Steady tcb.delayTicked := by
  rw [Tcb.delayTicked]
  split
  · exact ⟨⟨rfl, rfl⟩, Or.inl rfl, id⟩
  · exact .refl tcb

theorem syncTicked_steady (tcb : Tcb) : tcb.Steady tcb.syncTicked := by
  rw [Tcb.syncTicked]
  split
  · split
    · exact .clear ⟨rfl, rfl⟩ rfl rfl
    · exact ⟨⟨rfl, rfl⟩, Or.inl rfl, id⟩
  · exact .refl tcb

end Blocks

section Steps
variable {L : Layout} {s s' : Sys} {g : Ghost} {u t x : Tid} {l : Label}

theorem Only.steady {f : Tcb → Tcb} (ho : Only s s' u x f)
    (hf : (s.k.tasks.tcb x).Steady (f (s.k.tasks.tcb x))) (t : Tid) :
    (s.k.tcb t).Steady (s'.k.tcb t) := by
  have hplain : (s.k.tasks.tcb t).Steady (s'.k.tasks.tcb t) := by
    by_cases ht : t = x
    · subst ht
      rw [ho.self]
      exact hf
    · rw [ho.other ht]
      exact .refl _
  exact ⟨⟨hplain.pointer, hplain.lasting⟩, hplain.saved, hplain.gate⟩

/-- A step of `u` adds a task to its run list, or leaves the run lists and saved registers of
the others alone. -/
theorem Change.split (hc : Change s g u s') (h : Inv L s g) :
    (s'.k.taskList = s.k.taskList ∧
      ∀ t, (s.k.tcb t).Stays (s'.k.tcb t) ∧ (t ≠ u → (s.k.tcb t).Steady (s'.k.tcb t))) ∨
    ∃ x alloc args, s.pc u = .spawnAdd x alloc args ∧
      s'.pc x = .app ∧ s'.k = schedulerAddTask (initTcb s.k x alloc args) x := by
  have hboth : ∀ {f : Tcb → Tcb} {x : Tid}, Only s s' u x f →
      (s.k.tasks.tcb x).Steady (f (s.k.tasks.tcb x)) → s'.k.taskList = s.k.taskList ∧
      ∀ t, (s.k.tcb t).Stays (s'.k.tcb t) ∧ (t ≠ u → (s.k.tcb t).Steady (s'.k.tcb t)) := by
    intro f x ho hf
    refine ⟨(congrArg Prod.fst ho.frame :), fun t => ?_⟩
    have hsteady := ho.steady hf t
    exact ⟨hsteady.toStays, fun _ => hsteady⟩
  cases hc with
  | quiet ho => exact Or.inl (hboth ho (.refl _))
  | sleep hpc hn ho hpc' => exact Or.inl (hboth ho (asleep_steady _ _))
  | park hpc htarget hms ho hpc' => exact Or.inl (hboth ho (parked_steady _ _ _ _))
  | unlink hpc hsource hx ho hpc' => exact Or.inl (hboth ho (unlinked_steady _))
  | check hpc ho => exact Or.inl (hboth ho ⟨⟨rfl, rfl⟩, Or.inl rfl, id⟩)
  | wake hpc ho hpc' => exact Or.inl (hboth ho (woken_steady _ _))
  | rest hpc hu ho hpc' => exact Or.inl (hboth ho ⟨⟨rfl, rfl⟩, Or.inl rfl, id⟩)
  | @delay item hpc hid ho hpc' =>
    have hserves : (s.pc u).serves = some item.caller := by
      rw [hpc]
      rfl
    have hview := h.placed.task item.caller
    rw [(h.placed.serves_iff u item.caller).mp hserves] at hview
    exact Or.inl (hboth ho ⟨⟨rfl, rfl⟩, Or.inr ⟨hview.svc, rfl⟩, fun hg => by cases hg⟩)
  | unprivileged hpc ho => exact Or.inl (hboth ho ⟨⟨rfl, rfl⟩, Or.inl rfl, id⟩)
  | @post item hpc hpc' hcaller hu hp =>
    refine Or.inl ⟨(congrArg Prod.fst hp.frame :), fun t => ?_⟩
    by_cases ht : t = item.caller
    · subst ht
      rw [hp.caller]
      exact ⟨⟨rfl, rfl⟩, fun hne => absurd hcaller hne⟩
    · have hsteady : (s.k.tcb t).Steady (s'.k.tcb t) := by
        by_cases hw : t = g.worker
        · subst hw
          rcases hp.worker with hsame | hroused
          · exact .of_eq (congrArg Tcb.plain hsame)
          · rw [hroused]
            exact ⟨⟨rfl, rfl⟩, Or.inl rfl, id⟩
        · exact .of_eq (congrArg Tcb.plain (hp.other t ht hw))
      exact ⟨hsteady.toStays, fun _ => hsteady⟩
  | @born x alloc args hpc hk hj hpc' =>
    refine Or.inr ⟨x, alloc, args, hpc, ?_, hk⟩
    rw [hpc']
    by_cases hx : x = u
    · subst hx
      rw [Function.update_self]
    · rw [Function.update_of_ne hx, Function.update_self]

theorem live_of_lists (hlist : s'.k.taskList = s.k.taskList) (hnext : s'.k.next = s.k.next) :
    s'.Live t ↔ s.Live t := by
  rw [Sys.Live, Sys.Live, hlist, hnext]

theorem live_of_estate (h : s'.k.estate = s.k.estate) : s'.Live t ↔ s.Live t := by
  apply live_of_lists
  · exact (congrArg (fun e => e.2.2.1) h :)
  · funext x
    exact (congrArg (fun e => (e.2.2.2.1 x).2.2.2) h :)

/-- A task that is being created is on no list. -/
theorem Inv.unborn (h : Inv L s g) {alloc : Nat} {args : TaskArgs}
    (hpc : s.pc u = .spawnAdd t alloc args) : ¬ s.Live t := by
  intro hlive
  apply h.live hlive
  apply (h.scheduled.spawns u t _).1
  rw [hpc]
  rfl

/-- Tasks stay on their lists, and a new one comes to its list by `task_create`. -/
theorem Change.live (hc : Change s g u s') (h : Inv L s g) (t : Tid) :
    (s.Live t → s'.Live t) ∧ (s'.Live t → s.Live t ∨ ∃ alloc args,
      s.pc u = .spawnAdd t alloc args ∧ s'.pc t = .app ∧
        s'.k = schedulerAddTask (initTcb s.k t alloc args) t) := by
  rcases hc.split h with ⟨hlist, hstays⟩ | ⟨x, alloc, args, hpc, happ, hk⟩
  · have hnext : s'.k.next = s.k.next := by
      funext x
      exact (congrArg (fun e => e.2.2.2) (hstays x).1.lasting :)
    have hiff := live_of_lists (t := t) hlist hnext
    exact ⟨hiff.mpr, fun hlive => Or.inl (hiff.mp hlive)⟩
  · have hj := schedulerAddTask_joined s.k x alloc args
    rw [← hk] at hj
    have hfresh : ∀ pr, x ∉ g.runs pr := by
      intro pr hmem
      exact h.unborn hpc ⟨pr, g.runs pr, h.scheduled.linked pr, hmem⟩
    have hold : ∀ pr, Linked s'.k.next (s.k.taskList pr) (g.runs pr) := by
      intro pr
      apply (linked_congr _).mp (h.scheduled.linked pr)
      intro a ha
      have hne : a ≠ x := by
        rintro rfl
        exact hfresh pr ha
      exact (congrArg Tcb.next (hj.other a hne)).symm
    have hnew : Linked s'.k.next (s'.k.taskList args.priority) (x :: g.runs args.priority) := by
      rw [hj.taskList, Function.update_self, linked_some_iff]
      refine ⟨g.runs args.priority, rfl, ?_⟩
      have hnext : s'.k.next x = s.k.taskList args.priority := hj.next
      rw [hnext]
      exact hold _
    constructor
    · intro hlive
      obtain ⟨pr, l, hl, hmem⟩ := hlive
      obtain rfl := linked_unique hl (h.scheduled.linked pr)
      by_cases hpr : pr = args.priority
      · subst hpr
        exact ⟨_, _, hnew, List.mem_cons_of_mem _ hmem⟩
      · refine ⟨pr, g.runs pr, ?_, hmem⟩
        rw [hj.taskList, Function.update_of_ne hpr]
        exact hold pr
    · intro hlive
      obtain ⟨pr, l, hl, hmem⟩ := hlive
      by_cases hpr : pr = args.priority
      · subst hpr
        obtain rfl := linked_unique hl hnew
        rcases List.mem_cons.mp hmem with rfl | hmem
        · exact Or.inr ⟨alloc, args, hpc, happ, hk⟩
        · exact Or.inl ⟨_, _, h.scheduled.linked _, hmem⟩
      · rw [hj.taskList, Function.update_of_ne hpr] at hl
        obtain rfl := linked_unique hl (hold pr)
        exact Or.inl ⟨pr, _, h.scheduled.linked pr, hmem⟩

/-- What a step of `u` leaves of the tasks that are there. -/
theorem Change.steady (hc : Change s g u s') (h : Inv L s g) (hlive : s.Live t) :
    (s.k.tcb t).Stays (s'.k.tcb t) ∧ (t ≠ u → (s.k.tcb t).Steady (s'.k.tcb t)) := by
  rcases hc.split h with ⟨_, hstays⟩ | ⟨x, alloc, args, hpc, happ, hk⟩
  · exact hstays t
  · have hj := schedulerAddTask_joined s.k x alloc args
    rw [← hk] at hj
    have hne : t ≠ x := by
      rintro rfl
      exact h.unborn hpc hlive
    have hsteady : (s.k.tcb t).Steady (s'.k.tcb t) :=
      .of_eq (congrArg Tcb.plain (hj.other t hne))
    exact ⟨hsteady.toStays, fun _ => hsteady⟩

theorem Change.current (hc : Change s g u s') : s'.k.currentTask = s.k.currentTask := by
  have hframe : ∀ {k k' : Kernel}, k'.frame = k.frame → k'.currentTask = k.currentTask :=
    fun h => (congrArg (fun f => f.2.2) h :)
  cases hc with
  | quiet ho => exact hframe ho.frame
  | sleep hpc hn ho hpc' => exact hframe ho.frame
  | park hpc htarget hms ho hpc' => exact hframe ho.frame
  | unlink hpc hsource hx ho hpc' => exact hframe ho.frame
  | check hpc ho => exact hframe ho.frame
  | wake hpc ho hpc' => exact hframe ho.frame
  | rest hpc hu ho hpc' => exact hframe ho.frame
  | delay hpc hid ho hpc' => exact hframe ho.frame
  | unprivileged hpc ho => exact hframe ho.frame
  | post hpc hpc' hcaller hu hp => exact hframe hp.frame
  | born hpc hk hj hpc' =>
    rw [hk]
    rfl

/-- A step of kernel code or of the task's own does not end behind the gate. -/
theorem go_not_svcRet (hstep : s.go L u = some s') : s'.pc u ≠ .svcRet := by
  have hfinish : ∀ (s : Sys) (r : Ret) (v : Nat), (s.finish u r v).pc u ≠ .svcRet := by
    intro s r v
    cases r <;> simp [Sys.finish, Sys.setPc, Sys.note]
  have hset : ∀ (s : Sys) (p : Pc), p ≠ .svcRet → (s.setPc u p).pc u ≠ .svcRet := by
    intro s p hp
    simpa [Sys.setPc] using hp
  have hop : ∀ (s : Sys) (op : Op) (r : Ret), (s.runOp u op r).pc u ≠ .svcRet := by
    intro s op r
    rw [runOp_pc_self]
    cases (op.enter s.k u).2 with
    | ret v => cases r <;> simp [Ret.next]
    | block =>
      simp only
      split <;> simp
    | wake t v => simp
    | pend v => simp
  cases go_cases hstep with
  | svcRet hpc => exact hset s .app (by simp)
  | enter op r hpc => exact hop s op r
  | retry op r hpc => exact hop _ op.again r
  | block op r hpc => exact hset _ _ (by simp)
  | check op r hpc =>
    rw [Sys.checkWait]
    cases op.waitList with
    | none => simp [hpc]
    | some w =>
      simp only
      split
      · split
        · exact hfinish _ _ _
        · exact hset _ _ (by simp)
      · split
        · exact hfinish _ _ _
        · exact hfinish _ _ _
  | wake t v after hpc => exact hset _ _ (by simp)
  | pend after hpc =>
    cases after with
    | ret r v => exact hfinish _ _ _
    | loop => exact hset _ _ (by simp)
  | workerStart hpc => exact hset _ _ (by simp)
  | popNone hpc hpop => exact hset _ _ (by simp)
  | popSome k item hpc hpop => exact hset _ _ (by simp)
  | workerSleep hpc => exact hset _ _ (by simp)
  | dispatch item hpc =>
    rw [Sys.dispatch]
    cases decode s.k item <;> exact hset _ _ (by simp)
  | create c r s' hpc hrun =>
    rw [Sys.create] at hrun
    obtain ⟨⟨k, p⟩, halloc, rfl⟩ := Option.map_eq_some_iff.mp hrun
    simp only
    split
    · exact hfinish _ _ _
    · cases c <;> exact hset _ _ (by simp)
  | queueBuffer p r k ok hpc hrun =>
    apply hset
    split <;> simp
  | queueFree p r k hpc hrun => exact hfinish _ _ _
  | publish p type r hpc => exact hfinish _ _ _
  | spawnNone args hpc hfree => exact hfinish _ _ _
  | spawnTcb args k t hpc hfree => exact hset _ _ (by simp)
  | spawnStack t args heap alloc hpc hrun =>
    apply hset
    split <;> simp
  | spawnFree t hpc => exact hfinish _ _ _
  | spawnAdd t alloc args hpc => exact hfinish _ _ _

theorem sysTick_r0 (s : Sys) : s.sysTick.k.r0 = s.k.r0 := by
  apply sysTick_induction (P := fun s' => s'.k.r0 = s.k.r0)
  · rfl
  · intro s' y hs'
    exact (congrArg Kernel.r0 (tasks_tickDelay s'.k y) :).trans hs'
  · intro s' y hs'
    rcases syncTickTask_cases s'.k y with ⟨h, _⟩ | h
    · exact (congrArg Kernel.r0 h :).trans hs'
    · exact (congrArg Kernel.r0 h :).trans hs'
  · intro s' hs'
    exact hs'

/-- A tick answers nobody who is on no wait list. -/
theorem sysTick_gate (hnone : (s.k.tcb t).blockingWaitList = none) :
    (s.sysTick.k.tcb t).svcBlocked = (s.k.tcb t).svcBlocked := by
  have hkeeps : ∀ {k k' : Kernel} {y : Tid} {f : Tcb → Tcb},
      (∀ tcb : Tcb, tcb.blockingWaitList = none →
        (f tcb).blockingWaitList = none ∧ (f tcb).svcBlocked = tcb.svcBlocked) →
      k'.tasks.tcb = Function.update k.tasks.tcb y (f (k.tasks.tcb y)) →
      (k.tcb t).blockingWaitList = none →
      (k'.tcb t).blockingWaitList = none ∧ (k'.tcb t).svcBlocked = (k.tcb t).svcBlocked := by
    intro k k' y f hf hk hold
    have htcb : (k'.tasks.tcb t).blockingWaitList = none ∧
        (k'.tasks.tcb t).svcBlocked = (k.tasks.tcb t).svcBlocked := by
      rw [hk]
      by_cases ht : t = y
      · subst ht
        rw [Function.update_self]
        exact hf _ hold
      · rw [Function.update_of_ne ht]
        exact ⟨hold, rfl⟩
    exact htcb
  have hboth := sysTick_induction (P := fun s' => (s'.k.tcb t).blockingWaitList = none ∧
    (s'.k.tcb t).svcBlocked = (s.k.tcb t).svcBlocked) s ⟨hnone, rfl⟩
    (fun s' y hs' => by
      have hstep := hkeeps (fun tcb htcb => ?_) (tickDelay_frame s'.k y).1 hs'.1
      · exact ⟨hstep.1, hstep.2.trans hs'.2⟩
      · rw [Tcb.delayTicked]
        split
        · exact ⟨htcb, rfl⟩
        · exact ⟨htcb, rfl⟩)
    (fun s' y hs' => by
      have hstep := hkeeps (fun tcb htcb => ?_) (syncTickTask_frame s'.k y).1 hs'.1
      · exact ⟨hstep.1, hstep.2.trans hs'.2⟩
      · rw [Tcb.syncTicked, if_neg fun hcond => hcond.2.2 htcb]
        exact ⟨htcb, rfl⟩) fun s' hs' => hs'
  exact hboth.2

theorem sysTick_steady (s : Sys) (t : Tid) : (s.k.tcb t).Steady (s.sysTick.k.tcb t) := by
  have hturn : ∀ {k k' : Kernel} {y : Tid} {f : Tcb → Tcb}, (∀ tcb : Tcb, tcb.Steady (f tcb)) →
      k'.tasks.tcb = Function.update k.tasks.tcb y (f (k.tasks.tcb y)) →
      (k.tcb t).Steady (k'.tcb t) := by
    intro k k' y f hf hk
    have hplain : (k.tasks.tcb t).Steady (k'.tasks.tcb t) := by
      rw [hk]
      by_cases ht : t = y
      · subst ht
        rw [Function.update_self]
        exact hf _
      · rw [Function.update_of_ne ht]
        exact .refl _
    exact ⟨⟨hplain.pointer, hplain.lasting⟩, hplain.saved, hplain.gate⟩
  apply sysTick_induction (P := fun s' => (s.k.tcb t).Steady (s'.k.tcb t))
  · exact .refl _
  · intro s' y hs'
    exact hs'.trans (hturn delayTicked_steady (tickDelay_frame s'.k y).1)
  · intro s' y hs'
    exact hs'.trans (hturn syncTicked_steady (syncTickTask_frame s'.k y).1)
  · intro s' hs'
    exact hs'

/-- A switch stores the stack pointer of the task it takes off the CPU. -/
theorem switch_pointer {k k' : Kernel} {oldSp : Nat} (hcur : k.currentTask = some u)
    (hrun : portSwitchContext L k oldSp = some k') :
    k.estate = k'.estate ∧ (k.tcb u).stackBase ≤ oldSp ∧
      ∀ t, (k'.tcb t).stackPointer = if t = u then oldSp else (k.tcb t).stackPointer := by
  refine ⟨(estate_switch hrun).symm, ?_, fun t => ?_⟩
  · exact (portSwitchContext_some (s := ⟨k, fun _ => .app, []⟩) hcur oldSp).mp ⟨k', hrun⟩
  · obtain ⟨k₁, hsave, hrest⟩ := portSwitchContext_cases hrun
    have hfirst : (k₁.tcb t).stackPointer = if t = u then oldSp else (k.tcb t).stackPointer := by
      rcases saveCurrent_cases hsave with ⟨hnone, _⟩ | ⟨cur, hc, rfl⟩
      · rw [hcur] at hnone
        cases hnone
      · obtain rfl := Option.some.inj (hcur.symm.trans hc)
        by_cases ht : t = u
        · subst ht
          rw [setTcb_tcb_same, if_pos rfl]
        · rw [setTcb_tcb_of_ne _ _ ht, if_neg ht]
    rw [← hfirst]
    have hstate : ∀ (k : Kernel) (y : Tid),
        ((k.setTcb y fun tcb => { tcb with state := .running }).tcb t).stackPointer =
          (k.tcb t).stackPointer := by
      intro k y
      by_cases ht : t = y
      · subst ht
        rw [setTcb_tcb_same]
      · rw [setTcb_tcb_of_ne _ _ ht]
    rcases hrest with ⟨k₂, next, hnext, rfl⟩ | ⟨cur, _, rfl⟩ | rfl
    · obtain ⟨pr, c, rfl⟩ := schedulerGetNext_cursor hnext
      exact hstate _ _
    · exact hstate _ _
    · rfl

end Steps

end Crest
