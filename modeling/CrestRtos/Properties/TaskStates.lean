import CrestRtos.Properties.Preemption

/-!
# Task states

Nobody but the task on the CPU is RUNNING, and a switch takes READY tasks only. A
task that is WAITING stays so, also while it is still on the CPU, until a tick, the
end of a call, or an item for the worker makes it READY.
-/

namespace Crest
open MachineWord Alloc Transition

/-- The steps that make the WAITING task `t` READY. -/
inductive WakeUp (s : Sys) (t : Tid) : Label → Prop
  /-- Its last tick, of a delay or of a wait. -/
  | expired (h : (s.k.tcb t).delayTicks = 1) : WakeUp s t .tick
  /-- `scheduler_wake_task`, for a give, an unlock, a queue's wake-up or a completion. -/
  | woken {u : Tid} {v : Nat} {after : After} (hcur : s.k.currentTask = some u)
      (hpc : s.pc u = .wake t v after) : WakeUp s t .go
  /-- `kwork_push` for the worker. -/
  | pushed {id a0 a1 a2 a3 : Nat} (h : s.k.kernelTcb = some t) : WakeUp s t (.svc id a0 a1 a2 a3)

section States
variable {L : Layout} {s s' : Sys} {g : Ghost} {t u : Tid} {l : Label}

theorem Tcb.parked_state {direct : Bool} {w : WaitList} {ms : Nat} {tcb : Tcb}
    (h : tcb.state = .waiting) : (tcb.parked direct w ms).state = .waiting := by
  rw [Tcb.parked]
  cases direct <;> split <;> first | rfl | exact h

theorem Only.waiting {x : Tid} {f : Tcb → Tcb} (ho : Only s s' u x f)
    (hf : (s.k.tasks.tcb x).state = .waiting → (f (s.k.tasks.tcb x)).state = .waiting)
    (hwait : (s.k.tcb t).state = .waiting) : (s'.k.tcb t).state = .waiting := by
  by_cases ht : t = x
  · subst ht
    exact (congrArg Tcb.state ho.self :).trans (hf hwait)
  · exact (congrArg Tcb.state (ho.other ht) :).trans hwait

/-- Behind the gate the caller is WAITING, and the worker may be READY. -/
theorem Posted.waiting {k k' : Kernel} {item : WorkItem} {w : Tid} (hp : Posted k k' item w)
    (hwait : (k.tcb t).state = .waiting) :
    (k'.tcb t).state = .waiting ∨ ((k'.tcb t).state = .ready ∧ t = w) := by
  by_cases hcaller : t = item.caller
  · subst hcaller
    rw [hp.caller]
    exact Or.inl rfl
  · by_cases hw : t = w
    · subst hw
      rcases hp.worker with hsame | hready
      · rw [hsame]
        exact Or.inl hwait
      · rw [hready]
        exact Or.inr ⟨rfl, rfl⟩
    · rw [hp.other t hcaller hw]
      exact Or.inl hwait

theorem call_not_svcRet (s : Sys) (u : Tid) (c : Call) (hpc : s.pc u = .app) :
    (s.call u c).pc u ≠ .svcRet := by
  cases c <;> simp only [Sys.call, Sys.callObject, Sys.finish, Sys.setPc, Sys.note] <;>
    repeat' split
  all_goals simp [hpc]

theorem kworkPush_tcb {k : Kernel} (item : WorkItem) (hk : k.kernelTcb ≠ some t) :
    (kworkPush k item).1.tcb t = k.tcb t := by
  simp only [kworkPush]
  split
  · rfl
  · split
    · rfl
    · rename_i w hw
      have ht : t ≠ w := by
        rintro rfl
        exact hk hw
      split
      · dsimp only
        rw [setTcb_tcb_of_ne _ _ ht]
      · rfl

/-- The gate rouses nobody but the worker that has told its name. -/
theorem svcHandler_tcb {k : Kernel} {item : WorkItem} (ht : t ≠ item.caller)
    (hk : k.kernelTcb ≠ some t) : (svcHandler k item).tcb t = k.tcb t := by
  have hpush := kworkPush_tcb (t := t) (k := { k with r0 := item.arg0 }.setTcb item.caller
    fun tcb => { tcb with svcBlocked := true, state := .waiting }) item hk
  rw [setTcb_tcb_of_ne _ _ ht] at hpush
  rw [svcHandler]
  dsimp only
  split
  · rw [setTcb_tcb_of_ne _ _ ht]
    exact hpush
  · exact hpush

theorem Inv.thread_waiting (h : Inv L s g) (hcur : s.k.currentTask = some u)
    (hpend : s.k.pendsv = false) (hstep : s.thread L u l = some s')
    (hwait : (s.k.tcb t).state = .waiting) :
    (s'.k.tcb t).state = .waiting ∨ ((s'.k.tcb t).state = .ready ∧ WakeUp s t l) := by
  have hgo : s.pc u ≠ .app → l = .go := by
    intro hpc
    cases l with
    | go => rfl
    | tick => cases hstep
    | pendSV oldSp => cases hstep
    | _ => simp [Sys.thread, hpc] at hstep
  cases h.change hcur hpend hstep with
  | quiet ho => exact Or.inl (ho.waiting id hwait)
  | sleep hpc hn ho hpc' => exact Or.inl (ho.waiting (fun _ => rfl) hwait)
  | park hpc htarget hms ho hpc' => exact Or.inl (ho.waiting Tcb.parked_state hwait)
  | unlink hpc hsource hx ho hpc' => exact Or.inl (ho.waiting id hwait)
  | check hpc ho => exact Or.inl (ho.waiting id hwait)
  | @wake x v after hpc ho hpc' =>
    by_cases ht : t = x
    · subst ht
      obtain rfl := hgo (by rw [hpc]; simp)
      exact Or.inr ⟨(congrArg Tcb.state ho.self :), .woken hcur hpc⟩
    · exact Or.inl ((congrArg Tcb.state (ho.other ht) :).trans hwait)
  | rest hpc hu ho hpc' => exact Or.inl (ho.waiting (fun _ => rfl) hwait)
  | delay hpc hid ho hpc' => exact Or.inl (ho.waiting (fun _ => rfl) hwait)
  | unprivileged hpc ho => exact Or.inl (ho.waiting id hwait)
  | @post item hpc hpc' hcaller hu hp =>
    rcases hp.waiting hwait with hstill | ⟨hready, rfl⟩
    · exact Or.inl hstill
    · refine Or.inr ⟨hready, ?_⟩
      cases l with
      | svc id a0 a1 a2 a3 =>
        rw [Sys.thread] at hstep
        split at hstep
        · obtain rfl := Option.some.inj hstep
          refine .pushed ?_
          by_contra hk
          have hsame := @svcHandler_tcb _ s.k ⟨id, a0, a1, a2, a3, u⟩ hu.symm hk
          exact absurd (hready.symm.trans ((congrArg Tcb.state hsame :).trans hwait)) (by simp)
        · cases hstep
      | tick => cases hstep
      | pendSV oldSp => cases hstep
      | go => simp [Sys.thread, Sys.go, hpc] at hstep
      | call c =>
        rw [Sys.thread] at hstep
        split at hstep
        · obtain rfl := Option.some.inj hstep
          exact absurd (by rw [hpc', Function.update_self]) (call_not_svcRet s u c hpc)
        · cases hstep
      | compute r0 ram =>
        rw [Sys.thread, if_pos hpc] at hstep
        obtain rfl := Option.some.inj hstep
        have hpc'' := congrFun hpc' u
        rw [Function.update_self, hpc] at hpc''
        cases hpc''
  | @born x alloc args hpc hk hj hpc' =>
    have ht : t ≠ x := by
      rintro rfl
      have hview := h.placed.task t
      rw [(h.scheduled.spawns u t (by rw [hpc]; rfl)).1] at hview
      exact absurd (hview.state.symm.trans hwait) (by simp)
    rw [hj.other t ht]
    exact Or.inl hwait

theorem Tcb.delayTicked_state {tcb : Tcb} (h : tcb.state = .waiting) :
    tcb.delayTicked.state = .waiting ∨ tcb.delayTicked.state = .ready := by
  rw [Tcb.delayTicked]
  split
  · rw [Tcb.slept]
    dsimp only
    split
    · exact Or.inr rfl
    · exact Or.inl h
  · exact Or.inl h

theorem Tcb.ticked_waiting {tcb : Tcb} (h : tcb.state = .waiting) :
    tcb.ticked.state = .waiting ∨ (tcb.ticked.state = .ready ∧ tcb.delayTicks = 1) := by
  have hboth : tcb.ticked.state = .waiting ∨ tcb.ticked.state = .ready := by
    have hfirst := Tcb.delayTicked_state h
    rw [Tcb.ticked, Tcb.syncTicked]
    split
    · split
      · exact Or.inr rfl
      · exact hfirst
    · exact hfirst
  refine hboth.imp_right fun hready => ⟨hready, ?_⟩
  rcases Tcb.ticked_ready hready with hnow | ⟨_, hone⟩
  · rw [h] at hnow
    cases hnow
  · exact hone

/-- A task stays WAITING until it is woken. -/
theorem Inv.waiting_step (h : Inv L s g) (hstep : s.step L l = some s')
    (hwait : (s.k.tcb t).state = .waiting) :
    (s'.k.tcb t).state = .waiting ∨ ((s'.k.tcb t).state = .ready ∧ WakeUp s t l) := by
  obtain ⟨hl, htick⟩ | ⟨oldSp, k', _, _, hrun, rfl⟩ | ⟨u, hpend, hcur, hthread⟩ :=
    step_cases hstep
  · rw [hl, htick]
    have hlive : g.place t ≠ .fresh := by
      intro hfresh
      have hview := h.placed.task t
      rw [hfresh] at hview
      exact absurd (hview.state.symm.trans hwait) (by simp)
    have htcb := h.scheduled.sysTick_tcb hlive
    generalize s.sysTick = after at htcb ⊢
    have hstate : (after.k.tcb t).state = (s.k.tasks.tcb t).ticked.state :=
      (congrArg Tcb.state htcb :)
    have hwait' : (s.k.tasks.tcb t).state = .waiting := hwait
    rcases Tcb.ticked_waiting hwait' with hstill | ⟨hready, hone⟩
    · exact Or.inl (hstate.trans hstill)
    · exact Or.inr ⟨hstate.trans hready, .expired hone⟩
  · obtain ⟨n, hn⟩ := h.switched hrun
    exact Or.inl (hn.state_of_waiting hwait).1
  · exact h.thread_waiting hcur hpend hthread hwait

end States

/-- At any time only the task on the CPU is RUNNING, a switch takes a most urgent task
that is not WAITING, and a WAITING task stays so until a step wakes it. -/
theorem task_states {L : Layout} {s : Sys} (hL : L.heap.Placed) (hs : s.Reached L) :
    (∀ t u, (s.k.tcb t).state = .running → (s.k.tcb u).state = .running → t = u) ∧
    (∀ t, (s.k.tcb t).state = .running → s.k.currentTask = some t) ∧
    (∀ oldSp s', s.step L (.pendSV oldSp) = some s' → ∃ c, s'.k.currentTask = some c ∧
      (s'.k.tcb c).state = .running ∧ (s.k.tcb c).state ≠ .waiting ∧
      ∀ t, s'.k.Has (s'.k.tcb t).priority t → (s'.k.tcb t).state = .ready →
        (s'.k.tcb c).priority ≤ (s'.k.tcb t).priority) ∧
    ∀ t labels s', (s.k.tcb t).state = .waiting → run (Sys.step L) s labels = some s' →
      (s'.k.tcb t).state = .waiting ∨ ∃ before l after s₁ s₂, labels = before ++ l :: after ∧
        run (Sys.step L) s before = some s₁ ∧ (s₁.k.tcb t).state = .waiting ∧ WakeUp s₁ t l ∧
        s₁.step L l = some s₂ ∧ (s₂.k.tcb t).state = .ready := by
  obtain ⟨g, hg⟩ := hs.inv hL
  refine ⟨fun t u ht hu => ?_, hg.running.only, fun oldSp s' hstep => ?_,
    fun t labels s' hwait hrun => ?_⟩
  · exact Option.some.inj ((hg.running.only t ht).symm.trans (hg.running.only u hu))
  · obtain ⟨hl, _⟩ | ⟨_, k', hl, _, hrun, rfl⟩ | ⟨u, hpend, _, hthread⟩ := step_cases hstep
    · cases hl
    · obtain ⟨n, hn⟩ := hg.switched hrun
      refine ⟨n, hn.current, ?_, fun hwait => (hn.state_of_waiting hwait).2 rfl,
        fun t hhas hready => ?_⟩
      · obtain ⟨sp, r0, htcb⟩ := hn.tcb n
        rw [htcb]
        simp [Tcb.switched]
      · by_contra hlt
        exact hg.pendSV_calm hrun ⟨n, hn.current, Or.inr ⟨t, hhas, hready, Nat.lt_of_not_le hlt⟩⟩
    · cases hthread
  · rcases run_leaves (I := fun s => (s.k.tcb t).state = .waiting) hwait hrun with
      hstill | ⟨before, l, after, s₁, s₂, rfl, hbefore, hwait₁, hstep, hleft⟩
    · exact Or.inl hstill
    · right
      obtain ⟨g₁, hg₁⟩ := (hs.run hbefore).inv hL
      obtain ⟨hready, hwake⟩ := (hg₁.waiting_step hstep hwait₁).resolve_left hleft
      exact ⟨before, l, after, s₁, s₂, rfl, hbefore, hwait₁, hwake, hstep, hready⟩

/-- The worker sleeps, and the first syscall of task 1 rouses it. -/
theorem task_states_board : ∃ s s' : Sys, s.Reached boardLayout ∧
    (s.k.tcb 0).state = .waiting ∧
    run (Sys.step boardLayout) s [.call .setUnprivileged, .svc syscallDelay 5 0 0 0] = some s' ∧
    ∃ before l after s₁ s₂,
      [.call .setUnprivileged, .svc syscallDelay 5 0 0 0] = before ++ l :: after ∧
      run (Sys.step boardLayout) s before = some s₁ ∧ (s₁.k.tcb 0).state = .waiting ∧
      WakeUp s₁ 0 l ∧ s₁.step boardLayout l = some s₂ ∧ (s₂.k.tcb 0).state = .ready := by
  obtain ⟨s, hboard, hwait, hs⟩ := boardRun_comes boardReady
    (P := fun s => (s.k.tcb 0).state = .waiting) (by decide +kernel) fun _ hs => hs
  obtain ⟨s', _, hrun, hready⟩ := boardRun_append
    [.call .setUnprivileged, .svc syscallDelay 5 0 0 0]
    (P := fun s => (s.k.tcb 0).state = .ready) hboard (by decide +kernel)
  refine ⟨s, s', hs, hwait, hrun, ?_⟩
  rcases (task_states boardLayout_placed hs).2.2.2 0 _ s' hwait hrun with hstill | hwoken
  · rw [hready] at hstill
    cases hstill
  · exact hwoken

end Crest
