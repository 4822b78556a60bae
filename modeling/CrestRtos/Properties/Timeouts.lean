import CrestRtos.Properties.Queues
import CrestRtos.Properties.Delays

/-!
# Timeouts of blocking queue calls

While a push or a pop waits, its remaining ticks and those that have passed add up
to its timeout, so a wait that ends by itself has lasted long enough. A woken call
makes a second pass with no timeout, and fails at once if another task has been
faster.
-/

namespace Crest
open MachineWord Alloc Transition

/-- The queue has a slot for the push, or an item for the pop. -/
def Op.finds (k : Kernel) : Op → Bool
  | .queuePush q _ _ => (k.queue q).nextIndex (k.queue q).tail ≠ (k.queue q).head
  | .queuePop q _ _ => (k.queue q).head ≠ (k.queue q).tail
  | _ => false

def Op.isQueue : Op → Bool
  | .queuePush _ _ _ => true
  | .queuePop _ _ _ => true
  | _ => false

/-- A second pass over a queue is about to succeed. -/
def Pc.finds (k : Kernel) : Pc → Bool
  | .retry op _ => op.finds k
  | _ => true

def Label.isGo : Label → Bool
  | .go => true
  | _ => false

/-- The call of `t` is still going on, and if the next step is its second pass over
the queue, that pass succeeds. -/
def Undisturbed (t : Tid) (s : Sys) (l : Label) : Prop :=
  s.pc t ≠ .app ∧
    (l.isGo = true → s.k.currentTask = some t → (s.pc t).finds s.k = true)

instance (t : Tid) (s : Sys) (l : Label) : Decidable (Undisturbed t s l) :=
  inferInstanceAs (Decidable (_ ∧ _))

/-- The call of `t` has just returned `v`. -/
def Sys.Returned (s : Sys) (t : Tid) (v : Nat) : Prop :=
  s.pc t = .app ∧ s.log.head? = some (.result t v)

/-- The call `op` of `t` goes on, `c` ticks after it was put on the wait list. -/
inductive Blocked (s : Sys) (t : Tid) (op : Op) (c : Nat) : Prop
  | waits (hpc : s.pc t = .block op .app ∨ s.pc t = .check op .app)
      (hexpired : (s.k.tcb t).timedOut = true → op.timeout ≠ waitForever ∧ op.timeout ≤ c)
      (hcounts : (s.k.tcb t).blockingWaitList ≠ none →
        op.timeout ≠ waitForever ∧ (s.k.tcb t).delayTicks + c = op.timeout)
  | again (hpc : s.pc t = .retry op .app)
  | done (hpc : (∃ x, s.pc t = .wake x 0 (.ret .app 0)) ∨ s.pc t = .pend (.ret .app 0))

section Sections
variable {k : Kernel} {t : Tid} {op : Op}

/-- A pass over the queue succeeds when it finds what it needs. -/
theorem finds_outcome (hop : op.isQueue = true) (hfinds : op.finds k = true) :
    (op.enter k t).2 = .ret 0 ∨ ∃ x, (op.enter k t).2 = .wake x 0 := by
  cases op with
  | queuePush q item ms =>
    have hroom : (k.queue q).nextIndex (k.queue q).tail ≠ (k.queue q).head :=
      of_decide_eq_true hfinds
    simp only [Op.enter, zImplQueuePush, if_pos hroom]
    exact wakeFirst_outcome _ _
  | queuePop q item ms =>
    have hitem : (k.queue q).head ≠ (k.queue q).tail := of_decide_eq_true hfinds
    simp only [Op.enter, zImplQueuePop, if_pos hitem]
    exact wakeFirst_outcome _ _
  | _ => cases hop

/-- Otherwise it fails at once or blocks. -/
theorem misses_outcome (hop : op.isQueue = true) (hmiss : ¬ op.finds k = true) :
    (op.timeout = 0 ∧ (op.enter k t).2 = .ret minusOne) ∨
      (op.timeout ≠ 0 ∧ (op.enter k t).2 = .block) := by
  cases op with
  | queuePush q item ms =>
    have hfull : ¬ (k.queue q).nextIndex (k.queue q).tail ≠ (k.queue q).head := fun h =>
      hmiss (decide_eq_true h)
    simp only [Op.enter, zImplQueuePush, if_neg hfull]
    by_cases hms : ms = 0
    · exact Or.inl ⟨hms, by rw [if_pos hms]⟩
    · exact Or.inr ⟨hms, by rw [if_neg hms]; rfl⟩
  | queuePop q item ms =>
    have hempty : ¬ (k.queue q).head ≠ (k.queue q).tail := fun h => hmiss (decide_eq_true h)
    simp only [Op.enter, zImplQueuePop, if_neg hempty]
    by_cases hms : ms = 0
    · exact Or.inl ⟨hms, by rw [if_pos hms]⟩
    · exact Or.inr ⟨hms, by rw [if_neg hms]; rfl⟩
  | _ => cases hop

theorem again_finds (hop : op.isQueue = true) : op.again.isQueue = true ∧
    op.again.finds k = op.finds k := by
  cases op with
  | queuePush q item ms => exact ⟨rfl, rfl⟩
  | queuePop q item ms => exact ⟨rfl, rfl⟩
  | _ => cases hop

theorem isQueue_waitList (hop : op.isQueue = true) :
    ∃ w, op.waitList = some w ∧ w.isQueue = true := by
  cases op with
  | queuePush q item ms => exact ⟨_, rfl, rfl⟩
  | queuePop q item ms => exact ⟨_, rfl, rfl⟩
  | _ => cases hop

end Sections

section Steps
variable {L : Layout} {s s' : Sys} {g : Ghost} {t u : Tid} {op : Op} {c : Nat}

/-- Only a task on a list has a list to be taken from. -/
theorem Inv.waiting_of_list (h : Inv L s g) (hlist : (s.k.tcb t).blockingWaitList ≠ none) :
    (s.k.tcb t).state = .waiting ∧ 0 < (s.k.tcb t).delayTicks := by
  have hview := h.placed.task t
  cases hplace : g.place t with
  | fresh => rw [hplace] at hview; exact absurd hview.list hlist
  | own => rw [hplace] at hview; exact absurd hview.list hlist
  | ring => rw [hplace] at hview; exact absurd hview.list hlist
  | served u => rw [hplace] at hview; exact absurd hview.list hlist
  | listed w =>
    rw [hplace] at hview
    rcases hview.timeout with ⟨hpos, _⟩ | ⟨_, hnone⟩
    · exact ⟨hview.state, hpos⟩
    · exact absurd hnone hlist
  | waking u =>
    rw [hplace] at hview
    obtain ⟨w, hw⟩ := hview
    exact absurd hw.list hlist

/-- The code that a call on its way can be in. -/
theorem Blocked.pc (hb : Blocked s t op c) : (s.pc t = .block op .app ∨ s.pc t = .check op .app) ∨
    s.pc t = .retry op .app ∨
    (∃ x, s.pc t = .wake x 0 (.ret .app 0)) ∨ s.pc t = .pend (.ret .app 0) := by
  cases hb with
  | waits hpc _ _ => exact Or.inl hpc
  | again hpc => exact Or.inr (Or.inl hpc)
  | done hpc => exact Or.inr (Or.inr hpc)

theorem Blocked.not_app (hb : Blocked s t op c) : s.pc t ≠ .app ∧ s.pc t ≠ .svcRet := by
  rcases hb.pc with (hp | hp) | hp | ⟨x, hp⟩ | hp <;> rw [hp] <;> simp

/-- The call survives what changes none of the fields it depends on. -/
theorem Blocked.of_tcb {c' : Nat} (hb : Blocked s t op c) (hpc : s'.pc t = s.pc t) (hc : c ≤ c')
    (hflag : (s'.k.tcb t).timedOut = (s.k.tcb t).timedOut)
    (hlist : (s'.k.tcb t).blockingWaitList ≠ none → c' = c ∧
      (s.k.tcb t).blockingWaitList ≠ none ∧ (s'.k.tcb t).delayTicks = (s.k.tcb t).delayTicks) :
    Blocked s' t op c' := by
  cases hb with
  | waits hp hexpired hcounts =>
    refine .waits (by rw [hpc]; exact hp) ?_ ?_
    · rw [hflag]
      intro hflag'
      obtain ⟨hne, hle⟩ := hexpired hflag'
      exact ⟨hne, hle.trans hc⟩
    · intro hne
      obtain ⟨rfl, hold, hdelay⟩ := hlist hne
      rw [hdelay]
      exact hcounts hold
  | again hp => exact .again (hpc.trans hp)
  | done hp => exact .done (by rw [hpc]; exact hp)

theorem Blocked.of_same (hb : Blocked s t op c) (hpc : s'.pc t = s.pc t)
    (htcb : s'.k.tasks.tcb t = s.k.tasks.tcb t) : Blocked s' t op c :=
  hb.of_tcb hpc le_rfl (congrArg Tcb.timedOut htcb :) fun hne =>
    ⟨rfl, by rwa [← show (s'.k.tcb t).blockingWaitList = (s.k.tcb t).blockingWaitList from
      (congrArg Tcb.blockingWaitList htcb :)], (congrArg Tcb.delayTicks htcb :)⟩

/-- A step of another task. -/
theorem Blocked.other (hb : Blocked s t op c) (h : Inv L s g) (hc : Change s g u s')
    (ht : t ≠ u) : Blocked s' t op c := by
  obtain ⟨hnapp, hnret⟩ := hb.not_app
  have hview := h.placed.task t
  have hlive : g.place t ≠ .fresh := by
    intro hplace
    rw [hplace] at hview
    exact hnapp hview.pc
  have hpc := hc.pc h ht hlive
  cases hc.touch h ht with
  | same htcb => exact hb.of_same hpc htcb
  | roused hw htcb =>
    exact hb.of_tcb hpc le_rfl (congrArg Tcb.timedOut htcb :) fun hne =>
      ⟨rfl, by rwa [← show (s'.k.tcb t).blockingWaitList = (s.k.tcb t).blockingWaitList from
        (congrArg Tcb.blockingWaitList htcb :)], (congrArg Tcb.delayTicks htcb :)⟩
  | served hplace =>
    rw [hplace] at hview
    exact absurd hview.pc hnret
  | unlinked hplace htcb =>
    exact hb.of_tcb hpc le_rfl (congrArg Tcb.timedOut htcb :) fun hne =>
      absurd (congrArg Tcb.blockingWaitList htcb :) hne
  | woken hplace htcb =>
    exact hb.of_tcb hpc le_rfl (congrArg Tcb.timedOut htcb :) fun hne =>
      ⟨rfl, by rwa [← show (s'.k.tcb t).blockingWaitList = (s.k.tcb t).blockingWaitList from
        (congrArg Tcb.blockingWaitList htcb :)], (congrArg Tcb.delayTicks htcb :)⟩
  | born hplace => exact absurd hplace hlive

/-- The end of a call with result 0. -/
theorem returned_zero {n : Nat} (hend : s'.log.head? = some (.result t 0)) :
    s'.Returned t minusOne → op.timeout ≠ waitForever ∧ op.timeout ≤ n := by
  rintro ⟨_, hlog⟩
  rw [hend] at hlog
  cases hlog

/-- A step of the caller: the call goes on, or it returns, and not too early. -/
theorem Blocked.own (hb : Blocked s t op c) (hop : op.isQueue = true)
    (hfinds : (s.pc t).finds s.k = true) (hstep : s.go L t = some s') :
    Blocked s' t op c ∨ (s'.pc t = .app ∧ (s'.Returned t minusOne →
      op.timeout ≠ waitForever ∧ op.timeout ≤ c)) := by
  have hself : ∀ (s : Sys) p, (s.setPc t p).pc t = p := fun s p => Function.update_self _ _ _
  cases hb with
  | waits hpc hexpired hcounts =>
    rcases hpc with hpc | hpc
    · simp only [Sys.go, hpc, Option.some.injEq] at hstep
      subst hstep
      exact Or.inl (.waits (Or.inr (hself _ _)) hexpired hcounts)
    · obtain ⟨w, hw, hqueue⟩ := isQueue_waitList hop
      simp only [Sys.go, hpc, Sys.checkWait, hw, hqueue, if_true, Option.some.injEq] at hstep
      by_cases hflag : (s.k.tcb t).timedOut = true
      · rw [if_pos hflag] at hstep
        subst hstep
        exact Or.inr ⟨hself _ _, fun _ => hexpired hflag⟩
      · rw [if_neg hflag] at hstep
        subst hstep
        exact Or.inl (.again (hself _ _))
  | again hpc =>
    simp only [Sys.go, hpc, Option.some.injEq] at hstep
    rw [hpc] at hfinds
    obtain ⟨hagain, hfind⟩ := again_finds (k := s.k) hop
    have hout := finds_outcome (t := t) hagain (hfind.trans hfinds)
    generalize hs₀ : s.note (op.waitList.toList.map fun w => .recheck w t) = s₀ at hstep
    have hk : s₀.k = s.k := by
      rw [← hs₀]
      rfl
    rw [← hk] at hout
    subst hstep
    rw [runOp_eq]
    rcases hout with hret | ⟨x, hwake⟩
    · rw [hret]
      exact Or.inr ⟨hself _ _, returned_zero rfl⟩
    · rw [hwake]
      exact Or.inl (.done (Or.inl ⟨x, hself _ _⟩))
  | done hpc =>
    rcases hpc with ⟨x, hpc⟩ | hpc
    · simp only [Sys.go, hpc, Option.some.injEq] at hstep
      subst hstep
      exact Or.inl (.done (Or.inr (hself _ _)))
    · simp only [Sys.go, hpc, Option.some.injEq] at hstep
      subst hstep
      exact Or.inr ⟨hself _ _, returned_zero rfl⟩

theorem Blocked.tick (hb : Blocked s t op c) (h : Inv L s g) (hpc : s'.pc t = s.pc t)
    (htcb : s'.k.tasks.tcb t = (s.k.tasks.tcb t).ticked) : Blocked s' t op (c + 1) := by
  by_cases hlist : (s.k.tcb t).blockingWaitList = none
  · have hticked : (s.k.tasks.tcb t).ticked = (s.k.tasks.tcb t).delayTicked := by
      rw [Tcb.ticked, Tcb.syncTicked, if_neg]
      rintro ⟨_, _, hne⟩
      refine hne ?_
      rw [Tcb.delayTicked]
      split <;> exact hlist
    rw [hticked, Tcb.delayTicked] at htcb
    refine hb.of_tcb hpc (Nat.le_succ c) ?_ fun hne => absurd ?_ hne
    · refine (congrArg Tcb.timedOut htcb :).trans ?_
      split <;> rfl
    · refine (congrArg Tcb.blockingWaitList htcb :).trans ?_
      split <;> exact hlist
  · obtain ⟨hst, hpos⟩ := h.waiting_of_list hlist
    have hfirst : (s.k.tasks.tcb t).delayTicked = s.k.tasks.tcb t :=
      if_neg fun hcond => hlist hcond.2.2
    rw [Tcb.ticked, hfirst, Tcb.syncTicked, if_pos ⟨hst, hpos, hlist⟩] at htcb
    cases hb with
    | again hp => exact .again (hpc.trans hp)
    | done hp => exact .done (by rw [hpc]; exact hp)
    | waits hp hexpired hcounts =>
      obtain ⟨hne, hsum⟩ := hcounts hlist
      by_cases hone : (s.k.tcb t).delayTicks = 1
      · have hexp : s'.k.tasks.tcb t = (s.k.tasks.tcb t).expired := htcb.trans (if_pos hone)
        refine .waits (by rw [hpc]; exact hp) (fun _ => ⟨hne, by omega⟩) fun hsome => ?_
        exact absurd (congrArg Tcb.blockingWaitList hexp :) hsome
      · have hwait : s'.k.tasks.tcb t = (s.k.tasks.tcb t).waited := htcb.trans (if_neg hone)
        have hleft : (s'.k.tcb t).delayTicks = (s.k.tcb t).delayTicks - 1 :=
          (congrArg Tcb.delayTicks hwait :)
        refine .waits (by rw [hpc]; exact hp) (fun hflag => ?_) fun _ => ⟨hne, by omega⟩
        have hold := hexpired ((congrArg Tcb.timedOut hwait :).symm.trans hflag)
        exact ⟨hold.1, by omega⟩

/-- Any step under the condition. -/
theorem Blocked.step {l : Label} (hb : Blocked s t op c) (h : Inv L s g) (hop : op.isQueue = true)
    (hok : Undisturbed t s l) (hstep : s.step L l = some s') :
    Blocked s' t op (c + if l.isTick then 1 else 0) ∨ (s'.pc t = .app ∧
      (s'.Returned t minusOne → op.timeout ≠ waitForever ∧ op.timeout ≤ c)) := by
  have hnapp := hb.not_app.1
  obtain ⟨rfl, htick⟩ | ⟨oldSp, k, rfl, _, hrun, rfl⟩ | ⟨u, hpend, hcur, hthread⟩ :=
    step_cases hstep
  · have hlive : g.place t ≠ .fresh := by
      intro hplace
      have hview := h.placed.task t
      rw [hplace] at hview
      exact hnapp hview.pc
    refine Or.inl (hb.tick h ?_ ?_)
    · rw [htick, (sysTick_frame s).1]
    · rw [htick, h.scheduled.sysTick_tcb hlive]
  · obtain ⟨n, hn⟩ := h.switched hrun
    obtain ⟨sp, r0, htcb⟩ := hn.tcb t
    have hlist : (k.tcb t).blockingWaitList = (s.k.tcb t).blockingWaitList := by
      rw [htcb]
      rfl
    refine Or.inl (hb.of_tcb rfl le_rfl ?_ fun hne => ⟨rfl, by rwa [← hlist], ?_⟩)
    · exact (congrArg Tcb.timedOut htcb :)
    · exact (congrArg Tcb.delayTicks htcb :)
  · have htick : l.isTick = false := by
      cases l with
      | tick => cases hthread
      | _ => rfl
    rw [htick]
    by_cases htu : t = u
    · subst htu
      cases l with
      | go => exact hb.own hop (hok.2 rfl hcur) hthread
      | svc id a0 a1 a2 a3 => simp [Sys.thread, hnapp] at hthread
      | call c => simp [Sys.thread, hnapp] at hthread
      | compute r0 ram => simp [Sys.thread, hnapp] at hthread
      | tick => cases htick
      | pendSV oldSp => cases hthread
    · exact Or.inl (hb.other h (h.change hcur hpend hthread) htu)

/-- From the wait on, until the call returns. -/
theorem Blocked.through {labels : List Label} {l : Label} (hL : L.heap.Placed)
    (hb : Blocked s t op c) (hs : s.Reached L) (hop : op.isQueue = true)
    (hp : Permitted (Undisturbed t) (Sys.step L) s (labels ++ [l]))
    (hrun : run (Sys.step L) s (labels ++ [l]) = some s') (hret : s'.Returned t minusOne) :
    op.timeout ≠ waitForever ∧ op.timeout ≤ c + ticks labels := by
  induction labels generalizing s c with
  | nil =>
    obtain ⟨g, hg⟩ := hs.inv hL
    obtain ⟨m, hstep, hend⟩ := run_cons.mp hrun
    obtain rfl := Option.some.inj hend
    rcases hb.step hg hop hp.1 hstep with hgo | ⟨_, hbound⟩
    · exact absurd hret.1 hgo.not_app.1
    · exact hbound hret
  | cons l' ls ih =>
    obtain ⟨g, hg⟩ := hs.inv hL
    obtain ⟨m, hstep, hrest⟩ := run_cons.mp hrun
    have hp' := hp.2 m hstep
    rcases hb.step hg hop hp.1 hstep with hgo | ⟨hend, _⟩
    · have hlater := ih hgo (hs.step hstep) hp' hrest
      rw [ticks_cons]
      exact ⟨hlater.1, by omega⟩
    · cases ls with
      | nil => exact absurd hend hp'.1.1
      | cons l'' ls => exact absurd hend hp'.1.1

/-- The first pass of a call. -/
theorem first_pass (hL : L.heap.Placed) (hs : s.Reached L) (hcur : s.k.currentTask = some t)
    (hpc : s.pc t = .enter op .app) (hop : op.isQueue = true) (hstep : s.step L .go = some s') :
    (s'.Returned t minusOne → op.timeout = 0) ∧ (s'.pc t ≠ .app → Blocked s' t op 0) := by
  obtain ⟨g, hg⟩ := hs.inv hL
  obtain ⟨u, hpend, hcur', hgo⟩ := step_go_cases hstep
  obtain rfl := Option.some.inj (hcur'.symm.trans hcur)
  have hself : ∀ (s : Sys) p, (s.setPc u p).pc u = p := fun s p => Function.update_self _ _ _
  simp only [Sys.go, hpc, Option.some.injEq] at hgo
  subst hgo
  have hrefs := hg.objects.refs u
  rw [hpc] at hrefs
  have hready := hg.ready_enter hcur hpend hrefs hpc
  have hnext := runOp_pc_self s u op .app
  by_cases hfinds : op.finds s.k = true
  · rcases finds_outcome (t := u) hop hfinds with hout | ⟨x, hout⟩
    · rw [runOp_eq, hout]
      refine ⟨?_, fun hne => absurd (hself _ _) hne⟩
      rintro ⟨_, hlog⟩
      cases hlog
    · rw [hout] at hnext
      refine ⟨?_, fun _ => .done (Or.inl ⟨x, hnext⟩)⟩
      rintro ⟨happ, _⟩
      rw [hnext] at happ
      cases happ
  · obtain ⟨w, hw, hqueue⟩ := isQueue_waitList hop
    have hself' : op.blocker u = u := by
      cases op with
      | queuePush q item ms => rfl
      | queuePop q item ms => rfl
      | _ => cases hop
    rcases misses_outcome (t := u) hop hfinds with ⟨hms, hout⟩ | ⟨hms, hout⟩
    · rw [runOp_eq, hout]
      exact ⟨fun _ => hms, fun hne => absurd (hself _ _) hne⟩
    · obtain ⟨W', heff⟩ := enter_effect op hready.lists hready.apart hready.blocker
      have hk := runOp_k s u op .app
      rw [hout, hw] at hnext
      rw [hout] at heff
      have hpc' : (s.runOp u op .app).pc u = .block op .app := hnext
      generalize s.runOp u op .app = s' at hk hpc' ⊢
      generalize (op.enter s.k u).1 = k' at heff hk
      generalize op.note s.k _ _ _ = notes at heff
      refine ⟨?_, fun _ => ?_⟩
      · rintro ⟨happ, _⟩
        rw [hpc'] at happ
        cases happ
      · cases heff with
        | @block _ _ w' l htarget htimeout htasks hlists hmem hnotes =>
          have htcb : s'.k.tasks.tcb u = Tcb.parked true w' op.timeout (s.k.tasks.tcb u) := by
            rw [hk, htasks, hself', setTcb_tcb_same, hw]
            rfl
          have hflag : (s'.k.tcb u).timedOut = false := by
            refine (congrArg Tcb.timedOut htcb :).trans ?_
            simp only [Tcb.parked]
            split <;> rfl
          refine .waits (Or.inl hpc') (fun hset => ?_) fun hne => ?_
          · rw [hflag] at hset
            cases hset
          · by_cases hforever : op.timeout = waitForever
            · refine absurd ((congrArg Tcb.blockingWaitList htcb :).trans ?_) hne
              simp [Tcb.parked, hforever]
            · refine ⟨hforever, (congrArg Tcb.delayTicks htcb :).trans ?_⟩
              simp [Tcb.parked, hforever]

/-- A queue call with `CREST_WAIT_FOREVER` does not return -1, and one with a finite
timeout does so only after as many ticks, if the second pass finds what it needs. -/
theorem queue_timeout_honoured {s₁ : Sys} (hL : L.heap.Placed) (hs : s.Reached L)
    (hcur : s.k.currentTask = some t) (hpc : s.pc t = .enter op .app) (hop : op.isQueue = true)
    (hfirst : s.step L .go = some s₁) :
    (s₁.Returned t minusOne → op.timeout = 0) ∧
    ∀ labels l s', Permitted (Undisturbed t) (Sys.step L) s₁ (labels ++ [l]) →
      run (Sys.step L) s₁ (labels ++ [l]) = some s' → s'.Returned t minusOne →
      op.timeout ≠ waitForever ∧ op.timeout ≤ ticks labels := by
  obtain ⟨hreturn, hblocked⟩ := first_pass hL hs hcur hpc hop hfirst
  refine ⟨hreturn, fun labels l s' hp hrun hret => ?_⟩
  have hgoing : s₁.pc t ≠ .app := by
    cases labels with
    | nil => exact hp.1.1
    | cons l' ls => exact hp.1.1
  have hbound := (hblocked hgoing).through hL (hs.step hfirst) hop hp hrun hret
  rwa [Nat.zero_add] at hbound

/-- A pop of task 1 with a timeout of one tick, up to its return. -/
def waitsOneTick : List Label := [.go, .pendSV 0x2001F000, .tick, .pendSV 0x2001F000]

theorem queue_timeout_one_tick : ∃ s s₁ s' : Sys, s.Reached boardLayout ∧
    s.pc 1 = .enter (.queuePop 0x20006428 0x20000100 1) .app ∧
    s.step boardLayout .go = some s₁ ∧
    run (Sys.step boardLayout) s₁ (waitsOneTick ++ [.go]) = some s' ∧ s'.Returned 1 minusOne ∧
    1 ≤ ticks waitsOneTick := by
  obtain ⟨s, hboard, ⟨hcur, hpc⟩, hs⟩ := boardRun_comes
    (boardReady ++ [.call (.create (.queue 4 1)), .go, .go, .go,
      .call (.queuePop 0x10000 0x20000100 1)])
    (P := fun s => s.k.currentTask = some 1 ∧
      s.pc 1 = .enter (.queuePop 0x20006428 0x20000100 1) .app)
    (by decide +kernel) fun _ hs => hs
  obtain ⟨s₁, hfirst, hstep, hp⟩ := boardRun_snoc (l := .go)
    (P := fun s => Permitted (Undisturbed 1) (Sys.step boardLayout) s (waitsOneTick ++ [.go]))
    hboard (by decide +kernel)
  obtain ⟨s', _, hrun, hret⟩ := boardRun_append (waitsOneTick ++ [.go])
    (P := fun s => s.pc 1 = .app ∧ s.log.head? = some (.result 1 minusOne)) hfirst
    (by decide +kernel)
  obtain ⟨_, hbound⟩ := queue_timeout_honoured boardLayout_placed hs hcur hpc rfl hstep
  exact ⟨s, s₁, s', hs, hpc, hstep, hrun, hret, (hbound _ _ s' hp hrun hret).2⟩

/-- Task 1 pushes an item, which wakes task 2, and takes it back before task 2 runs. -/
def takesItBack : List Label :=
  [.go, .pendSV 0x2001F000, .tick, .pendSV 0x2001F000, .go,
    .call (.queuePush 0x10000 0x20000200 0), .go, .go, .go, .pendSV 0x2001F000,
    .call (.queuePop 0x10000 0x20000100 0), .go, .call (.taskDelay 5), .go, .go,
    .pendSV 0x2001F000, .go]

/-- A pop with `CREST_WAIT_FOREVER` returns -1. -/
theorem wait_forever_fails : ∃ s s₁ s₂ s' : Sys, s.Reached boardLayout ∧
    s.k.currentTask = some 2 ∧
    s.pc 2 = .enter (.queuePop 0x20006428 0x20000100 waitForever) .app ∧
    s.step boardLayout .go = some s₁ ∧ run (Sys.step boardLayout) s₁ takesItBack = some s₂ ∧
    s₂.pc 2 = .retry (.queuePop 0x20006428 0x20000100 waitForever) .app ∧
    s₂.step boardLayout .go = some s' ∧ s'.Returned 2 minusOne := by
  obtain ⟨s, hboard, ⟨hcur, hpc⟩, hs⟩ := boardRun_comes
    (boardReady ++ [.call (.create (.queue 4 1)), .go, .go, .go,
      .call (.queuePop 0x10000 0x20000100 1), .go, .go, .pendSV 0x2001F000,
      .call (.queuePop 0x10000 0x20000100 waitForever)])
    (P := fun s => s.k.currentTask = some 2 ∧
      s.pc 2 = .enter (.queuePop 0x20006428 0x20000100 waitForever) .app)
    (by decide +kernel) fun _ hs => hs
  obtain ⟨s₁, hfirst, hstep, _⟩ := boardRun_snoc (l := .go) (P := fun _ => True) hboard
    (by decide +kernel)
  obtain ⟨s₂, hsecond, hrun, hretry⟩ := boardRun_append takesItBack
    (P := fun s => s.pc 2 = .retry (.queuePop 0x20006428 0x20000100 waitForever) .app) hfirst
    (by decide +kernel)
  obtain ⟨s', _, hlast, hret⟩ := boardRun_snoc (l := .go)
    (P := fun s => s.pc 2 = .app ∧ s.log.head? = some (.result 2 minusOne)) hsecond
    (by decide +kernel)
  exact ⟨s, s₁, s₂, s', hs, hcur, hpc, hstep, hrun, hretry, hlast, hret⟩

end Steps

end Crest
