import CrestRtos.Properties.Overtaking
import CrestRtos.Properties.Timeouts
import CrestRtos.Properties.Waiting

/-!
# When a wait is over

A task that sleeps for `n` ticks, or waits with timeout `n` and is woken by nobody, becomes
READY with the `n`-th tick from then on. The ticks before take one off its counter each,
although two loops come to it. One that waits with `CREST_WAIT_FOREVER` waits through any
number of ticks.
-/

namespace Crest
open MachineWord Alloc Transition

def Event.timesOut : Event → Bool
  | .expire _ _ => true
  | _ => false

/-- The log has grown by events other than timeouts. -/
def Onward (s s' : Sys) : Prop :=
  ∃ n, s'.log = n ++ s.log ∧ ∀ e ∈ n, e.timesOut = false

section Onward
variable {L : Layout} {s s' m : Sys} {u : Tid}

theorem Onward.same {k : Kernel} {pc : Tid → Pc} : Onward s ⟨k, pc, s.log⟩ :=
  ⟨[], rfl, fun _ he => (List.not_mem_nil he).elim⟩

theorem Onward.note {n : List Event} {k : Kernel} {pc : Tid → Pc} (h : Onward s m)
    (hn : ∀ e ∈ n, e.timesOut = false) : Onward s ⟨k, pc, n ++ m.log⟩ := by
  obtain ⟨n', hlog, hn'⟩ := h
  refine ⟨n ++ n', by rw [hlog, List.append_assoc], fun e he => ?_⟩
  rcases List.mem_append.mp he with hmem | hmem
  · exact hn e hmem
  · exact hn' e hmem

theorem Onward.finish (h : Onward s m) (r : Ret) (v : Nat) : Onward s (m.finish u r v) := by
  cases r with
  | app => exact h.note (n := [.result u v]) (by simp [Event.timesOut])
  | serve caller => exact h

theorem Onward.settle (h : Onward s m) (op : Op) (r : Ret) (out : Outcome) :
    Onward s (m.settle u op r out) := by
  cases out with
  | ret v => exact h.finish r v
  | _ => exact h

theorem answerNote_timesOut (k : Kernel) (t : Tid) (v : Nat) :
    ∀ e ∈ answerNote k t v, e.timesOut = false := by
  rw [answerNote]
  split <;> simp [Event.timesOut]

/-- No critical section of a call ends a wait by timeout. -/
theorem opNote_timesOut (op : Op) (k k' : Kernel) (out : Outcome) :
    ∀ e ∈ op.note k k' u out, e.timesOut = false := by
  have htake : ∀ s t ms, ∀ e ∈ takeNote s t ms out, e.timesOut = false := by
    intro s t ms
    cases out with
    | ret v =>
      rw [takeNote]
      split <;> simp [Event.timesOut]
    | _ => simp [takeNote, Event.timesOut]
  have hlock : ∀ m t ms, ∀ e ∈ lockNote k m t ms out, e.timesOut = false := by
    intro m t ms
    cases out with
    | ret v =>
      rw [lockNote]
      split
      · simp [Event.timesOut]
      · split <;> simp [Event.timesOut]
    | _ => simp [lockNote, Event.timesOut]
  have hunlock : ∀ m t, ∀ e ∈ unlockNote m t out, e.timesOut = false := by
    intro m t
    cases out <;> simp [unlockNote, Event.timesOut]
  cases op with
  | semTake s ms => exact htake s u ms
  | semTryTake s caller ms => exact htake s caller ms
  | semGive s => cases out <;> simp [Op.note, giveNote, Event.timesOut]
  | mutexLock m ms => exact hlock m u ms
  | mutexTryLock m caller ms => exact hlock m caller ms
  | mutexUnlock m => exact hunlock m u
  | mutexUnlockFor m owner => exact hunlock m owner
  | queuePush q item ms =>
    cases out with
    | ret v =>
      simp only [Op.note, pushNote, passNote]
      split <;> simp [Event.timesOut]
    | _ => simp [Op.note, pushNote, passNote, Event.timesOut]
  | queuePop q item ms =>
    cases out with
    | ret v =>
      simp only [Op.note, popNote, passNote]
      split <;> simp [Event.timesOut]
    | _ => simp [Op.note, popNote, passNote, Event.timesOut]
  | delay ticks => simp [Op.note]

theorem Onward.runOp (h : Onward s m) (op : Op) (r : Ret) : Onward s (m.runOp u op r) := by
  rw [runOp_eq]
  refine Onward.settle ?_ op r _
  exact h.note (opNote_timesOut op _ _ _)

theorem Onward.checkWait (op : Op) (r : Ret) : Onward s (s.checkWait u op r) := by
  rw [Sys.checkWait]
  cases op.waitList with
  | none => exact .same
  | some w =>
    simp only
    split
    · split
      · exact Onward.finish .same r _
      · exact .same
    · split
      · exact Onward.finish .same r _
      · exact Onward.finish .same r _

theorem Onward.create {c : Creation} {r : Ret} (h : s.create L u c r = some s') : Onward s s' := by
  obtain ⟨⟨k, p⟩, _, rfl⟩ := Option.map_eq_some_iff.mp h
  dsimp only
  split
  · exact Onward.finish .same r _
  · have hnote : ∀ e ∈ c.note k p, e.timesOut = false := by
      cases c <;> simp [Creation.note, Event.timesOut]
    cases c with
    | queue a b => exact Onward.note .same hnote
    | _ => exact Onward.note .same hnote

theorem Onward.go (h : s.go L u = some s') : Onward s s' := by
  cases go_cases h with
  | enter op r hpc => exact Onward.runOp .same op r
  | retry op r hpc =>
    refine Onward.runOp (Onward.note .same ?_) op.again r
    simp [Event.timesOut]
  | check op r hpc => exact Onward.checkWait op r
  | create c r s' hpc hrun => exact Onward.create hrun
  | svcRet hpc => exact Onward.note (n := [_]) .same (by simp [Event.timesOut])
  | block op r hpc => exact .same
  | wake t v after hpc => exact Onward.note .same (answerNote_timesOut _ _ _)
  | pend after hpc =>
    cases after with
    | ret r v => exact Onward.finish .same r v
    | loop => exact .same
  | workerStart hpc => exact .same
  | popNone hpc hpop => exact .same
  | popSome k item hpc hpop => exact Onward.note (n := [_]) .same (by simp [Event.timesOut])
  | workerSleep hpc => exact .same
  | dispatch item hpc =>
    rw [Sys.dispatch]
    cases decode s.k item with
    | sleep ticks => exact Onward.note .same (answerNote_timesOut _ _ _)
    | _ => exact .same
  | queueBuffer p r k ok hpc hrun => exact .same
  | queueFree p r k hpc hrun => exact Onward.finish .same r _
  | publish p type r hpc => exact Onward.finish .same r _
  | spawnNone args hpc hfree => exact Onward.finish .same .app _
  | spawnTcb args k t hpc hfree => exact .same
  | spawnStack t args heap alloc hpc hrun => exact .same
  | spawnFree t hpc => exact Onward.finish .same .app _
  | spawnAdd t alloc args hpc => exact Onward.finish .same .app _

theorem Onward.callObject (handle : Nat) (type : KobjType) (f : Nat → Op) (missing : Nat) :
    Onward s (s.callObject u handle type f missing) := by
  rw [Sys.callObject]
  cases kObjGet s.k handle type with
  | none => exact Onward.finish .same .app missing
  | some p => exact .same

theorem Onward.call (c : Call) : Onward s (s.call u c) := by
  cases c with
  | semTake handle ms => exact Onward.callObject _ _ _ _
  | semGive handle => exact Onward.callObject _ _ _ _
  | mutexLock handle ms => exact Onward.callObject _ _ _ _
  | mutexUnlock handle => exact Onward.callObject _ _ _ _
  | queuePush handle item ms => exact Onward.callObject _ _ _ _
  | queuePop handle item ms => exact Onward.callObject _ _ _ _
  | taskCreate args =>
    simp only [Sys.call]
    split
    · exact .same
    · exact Onward.finish .same .app 0
  | _ => exact .same

/-- Only the tick ends a wait by timeout. -/
theorem step_onward {l : Label} (hl : l.isTick = false) (hstep : s.step L l = some s') :
    Onward s s' := by
  obtain ⟨rfl, _⟩ | ⟨oldSp, k, _, _, _, rfl⟩ | ⟨u, _, _, hthread⟩ := step_cases hstep
  · cases hl
  · exact .same
  · cases l with
    | tick => cases hl
    | pendSV oldSp => cases hthread
    | svc id a0 a1 a2 a3 =>
      rw [Sys.thread] at hthread
      split at hthread
      · obtain rfl := Option.some.inj hthread
        exact Onward.note (n := [_]) .same (by simp [Event.timesOut])
      · cases hthread
    | call c =>
      rw [Sys.thread] at hthread
      split at hthread
      · obtain rfl := Option.some.inj hthread
        exact Onward.call c
      · cases hthread
    | compute r0 ram =>
      rw [Sys.thread] at hthread
      split at hthread
      · obtain rfl := Option.some.inj hthread
        exact .same
      · cases hthread
    | go => exact Onward.go hthread

end Onward

/-- What ends a wait of `t`: a hand-over or a timeout. -/
def Event.frees (t : Tid) : Event → Bool
  | .handoff _ u => u = t
  | .expire _ u => u = t
  | _ => false

/-- Without such an event a wait goes on. -/
theorem waiting_append {n log : List Event} {t : Tid} {w : WaitList} {ms : Nat}
    (hphase : waitPhase log t = .waiting w ms) (hn : ∀ e ∈ n, e.frees t = false)
    (hok : waitPhase (n ++ log) t ≠ .broken) : waitPhase (n ++ log) t = .waiting w ms := by
  induction n with
  | nil => exact hphase
  | cons e n ih =>
    have he := hn e List.mem_cons_self
    rw [List.cons_append, waitPhase_cons] at hok ⊢
    have hbefore : waitPhase (n ++ log) t ≠ .broken := by
      intro hbroken
      rw [hbroken, next_broken] at hok
      exact hok rfl
    rw [ih (fun x hx => hn x (List.mem_cons_of_mem e hx)) hbefore] at hok ⊢
    cases e with
    | handoff v x =>
      have hx : ¬ x = t := of_decide_eq_false he
      simp [WaitPhase.next, hx]
    | expire v x =>
      have hx : ¬ x = t := of_decide_eq_false he
      simp [WaitPhase.next, hx]
    | block v x ms' => simpa [WaitPhase.next] using hok
    | recheck v x => simpa [WaitPhase.next] using hok
    | result x v => simpa [WaitPhase.next, WaitPhase.conclude] using hok
    | answered x v => simpa [WaitPhase.next, WaitPhase.conclude] using hok
    | _ => rfl

/-- The next step hands `t` over to nobody's give, unlock, push or pop. -/
def Unwoken (t : Tid) (s : Sys) (l : Label) : Prop := (s.handsOff l).map Prod.snd ≠ some t

instance (t : Tid) (s : Sys) (l : Label) : Decidable (Unwoken t s l) :=
  inferInstanceAs (Decidable (_ ≠ _))

section Waiting
variable {L : Layout} {s s' : Sys} {g : Ghost} {t : Tid} {w : WaitList} {ms d : Nat} {l : Label}

theorem Inv.parked (h : Inv L s g) (hphase : waitPhase s.log t = .waiting w ms) :
    g.place t = .listed w ∧ (s.view t).Parked w ∧ (s.view t).Armed w ms := by
  have hplace := (h.placed.task t).listed hphase
  have hview := h.placed.task t
  rw [hplace] at hview
  refine ⟨hplace, hview, ?_⟩
  obtain ⟨ms', hphase', harmed⟩ := hview.phase
  obtain ⟨_, rfl⟩ := WaitPhase.waiting.inj (hphase.symm.trans hphase')
  exact harmed

/-- A task in a wait that is on the CPU has only its PendSV request to make. -/
theorem Inv.own_wait (h : Inv L s g) (hcur : s.k.currentTask = some t) (hpend : s.k.pendsv = false)
    (hplace : g.place t = .listed w) (hstep : s.thread L t l = some s') :
    s'.k.tasks.tcb t = s.k.tasks.tcb t := by
  have hnot : ¬ ((s.pc t).waits = none ∨ (s.pc t).yields = false) := fun hown => by
    rw [h.own hcur hpend hown] at hplace
    cases hplace
  obtain ⟨hwaits, hyields⟩ := not_or.mp hnot
  have happ : ¬ s.pc t = .app := by
    intro hpc
    rw [hpc] at hwaits
    exact hwaits rfl
  cases l with
  | go =>
    cases hpc : s.pc t with
    | block op r =>
      simp only [Sys.thread, Sys.go, hpc, Option.some.injEq] at hstep
      subst hstep
      rfl
    | check op r =>
      rw [hpc] at hyields
      exact absurd rfl hyields
    | _ =>
      rw [hpc] at hwaits
      exact absurd rfl hwaits
  | svc id a0 a1 a2 a3 => simp [Sys.thread, happ] at hstep
  | call c => simp [Sys.thread, happ] at hstep
  | compute r0 ram => simp [Sys.thread, happ] at hstep
  | tick => cases hstep
  | pendSV oldSp => cases hstep

/-- Steps other than the tick leave a wait alone, unless they wake the task up. -/
theorem Inv.wait_step (hL : L.heap.Placed) (h : Inv L s g)
    (hphase : waitPhase s.log t = .waiting w ms) (hfree : Unwoken t s l) (hl : l.isTick = false)
    (hstep : s.step L l = some s') :
    waitPhase s'.log t = .waiting w ms ∧ (s'.k.tcb t).delayTicks = (s.k.tcb t).delayTicks := by
  obtain ⟨g', hg', _⟩ := h.step hL hstep
  obtain ⟨n, hlog, _, hhand⟩ := h.shift hL hstep
  obtain ⟨n', hlog', hn⟩ := step_onward hl hstep
  obtain rfl := List.append_cancel_right (hlog'.symm.trans hlog)
  have hnext : waitPhase s'.log t = .waiting w ms := by
    have hok := ((hg'.placed.task t).unbroken).1
    change waitPhase s'.log t ≠ .broken at hok
    rw [hlog] at hok ⊢
    refine waiting_append hphase (fun e he => ?_) hok
    cases e with
    | handoff v x =>
      refine decide_eq_false ?_
      rintro rfl
      exact hfree (by rw [(hhand v x).mp he]; rfl)
    | expire v x =>
      have hbad := hn _ he
      cases hbad
    | _ => rfl
  refine ⟨hnext, ?_⟩
  obtain ⟨hplace, hview, harmed⟩ := h.parked hphase
  obtain ⟨_, _, harmed'⟩ := hg'.parked hnext
  by_cases hms : ms = waitForever
  · -- nobody counts for a wait without end
    obtain ⟨hbad, _⟩ | ⟨_, hzero, _⟩ := harmed
    · exact absurd hms hbad
    · obtain ⟨hbad, _⟩ | ⟨_, hzero', _⟩ := harmed'
      · exact absurd hms hbad
      · exact hzero'.trans hzero.symm
  · have hkept : s'.k.tasks.tcb t = s.k.tasks.tcb t → (s'.k.tcb t).delayTicks =
        (s.k.tcb t).delayTicks := fun htcb => (congrArg Tcb.delayTicks htcb :)
    obtain ⟨rfl, _⟩ | ⟨oldSp, k, rfl, _, hrun, rfl⟩ | ⟨u, hpend, hcur, hthread⟩ :=
      step_cases hstep
    · cases hl
    · obtain ⟨x, hx⟩ := h.switched hrun
      obtain ⟨sp, r0, htcb⟩ := hx.tcb t
      change (k.tcb t).delayTicks = _
      rw [htcb]
      rfl
    · by_cases htu : t = u
      · subst htu
        exact hkept (h.own_wait hcur hpend hplace hthread)
      · cases (h.change hcur hpend hthread).touch h htu with
        | same htcb => exact hkept htcb
        | roused ht htcb => exact (congrArg Tcb.delayTicks htcb :)
        | served hbad => rw [hplace] at hbad; cases hbad
        | woken hbad htcb => rw [hplace] at hbad; cases hbad
        | born hbad => rw [hplace] at hbad; cases hbad
        | unlinked _ htcb =>
          have hzero : (s'.k.tcb t).delayTicks = 0 := (congrArg Tcb.delayTicks htcb :)
          obtain ⟨_, hpos, _⟩ | ⟨hbad, _⟩ := harmed'
          · exact absurd hzero (Nat.pos_iff_ne_zero.mp hpos)
          · exact absurd hbad hms

/-- A tick is not the end of a wait whose counter stands at 0. -/
theorem sysTick_forever (hphase : waitPhase s.log t = .waiting w ms)
    (hzero : (s.k.tcb t).delayTicks = 0) : waitPhase s.sysTick.log t = .waiting w ms ∧
      (s.sysTick.k.tcb t).delayTicks = 0 := by
  have hidle : ∀ tcb : Tcb, tcb.delayTicks = 0 → tcb.delayTicked = tcb ∧ tcb.syncTicked = tcb := by
    intro tcb htcb
    have hnot : ¬ 0 < tcb.delayTicks := by rw [htcb]; exact Nat.lt_irrefl 0
    exact ⟨if_neg fun hcond => hnot hcond.2.1, if_neg fun hcond => hnot hcond.2.1⟩
  refine sysTick_induction (P := fun s => waitPhase s.log t = .waiting w ms ∧
    (s.k.tcb t).delayTicks = 0) s ⟨hphase, hzero⟩ ?_ ?_ fun s' hs' => hs'
  · rintro s' x ⟨hwait, hd⟩
    refine ⟨hwait, ?_⟩
    have htcb := congrFun (tickDelay_frame s'.k x).1 t
    by_cases hx : t = x
    · subst hx
      rw [Function.update_self, (hidle (s'.k.tasks.tcb t) hd).1] at htcb
      exact (congrArg Tcb.delayTicks htcb :).trans hd
    · rw [Function.update_of_ne hx] at htcb
      exact (congrArg Tcb.delayTicks htcb :).trans hd
  · rintro s' x ⟨hwait, hd⟩
    have htcb := congrFun (syncTickTask_frame s'.k x).1 t
    by_cases hx : t = x
    · subst hx
      have hnone : expires s'.k t = none := if_neg fun hcond => by
        rw [hd] at hcond
        cases hcond.2
      rw [Function.update_self, (hidle (s'.k.tasks.tcb t) hd).2] at htcb
      refine ⟨?_, (congrArg Tcb.delayTicks htcb :).trans hd⟩
      simpa [Sys.syncTickTask, Sys.note, hnone] using hwait
    · rw [Function.update_of_ne hx] at htcb
      refine ⟨?_, (congrArg Tcb.delayTicks htcb :).trans hd⟩
      rw [Sys.syncTickTask]
      cases expires s'.k x with
      | none => exact hwait
      | some v =>
        simp only [Sys.note, List.append_assoc, waitPhase_answerNote]
        rw [if_neg fun hcond => hx hcond.2.symm]
        simp [WaitPhase.next, Ne.symm hx, hwait]

/-- A tick of a task with `d + 1` ticks to go on a list. -/
theorem Inv.wait_tick (h : Inv L s g) (hphase : waitPhase s.log t = .waiting w ms)
    (hms : ms ≠ waitForever) (hleft : (s.k.tcb t).delayTicks = d + 1)
    (htick : s'.k.tasks.tcb t = (s.k.tasks.tcb t).ticked) :
    (s'.k.tcb t).delayTicks = d ∧
      if d = 0 then (s'.k.tcb t).state = .ready else (s'.k.tcb t).blockingWaitList = some w := by
  obtain ⟨_, hview, harmed⟩ := h.parked hphase
  obtain ⟨_, hpos, hlist⟩ | ⟨hbad, _⟩ := harmed
  · have hlist : (s.k.tasks.tcb t).blockingWaitList = some w := hlist
    have hbefore : (s.k.tasks.tcb t).delayTicks = d + 1 := hleft
    have hsome : (s.k.tasks.tcb t).blockingWaitList ≠ none := by
      rw [hlist]
      simp
    have hfirst : (s.k.tasks.tcb t).delayTicked = s.k.tasks.tcb t :=
      if_neg fun hcond => hsome hcond.2.2
    rw [Tcb.ticked, hfirst, Tcb.syncTicked, if_pos ⟨hview.state, hpos, hsome⟩, hbefore] at htick
    by_cases hd : d = 0
    · rw [if_pos (by rw [hd])] at htick
      rw [if_pos hd]
      refine ⟨(congrArg Tcb.delayTicks htick :).trans ?_, (congrArg Tcb.state htick :)⟩
      exact congrArg (· - 1) hbefore
    · rw [if_neg (by omega)] at htick
      rw [if_neg hd]
      refine ⟨(congrArg Tcb.delayTicks htick :).trans ?_,
        (congrArg Tcb.blockingWaitList htick :).trans hlist⟩
      exact congrArg (· - 1) hbefore
  · exact absurd hbad hms

/-- `t` waits on `w` with a timeout, and has `d` ticks to go. -/
structure Counting (s : Sys) (t : Tid) (w : WaitList) (d : Nat) : Prop where
  phase : ∃ ms, ms ≠ waitForever ∧ waitPhase s.log t = .waiting w ms
  left : (s.k.tcb t).delayTicks = d

/-- The fields of such a task. -/
theorem Counting.fields (hc : Counting s t w d) (h : Inv L s g) :
    (s.k.tcb t).state = .waiting ∧ (s.k.tcb t).delayTicks = d ∧
      (s.k.tcb t).blockingWaitList = some w := by
  obtain ⟨ms, hms, hphase⟩ := hc.phase
  obtain ⟨_, hview, ⟨_, _, hlist⟩ | ⟨hbad, _⟩⟩ := h.parked hphase
  · exact ⟨hview.state, hc.left, hlist⟩
  · exact absurd hbad hms

/-- A tick takes one off, and who has ticks to go on a list is still on it. -/
theorem Counting.tick (hL : L.heap.Placed) (hc : Counting s t w (d + 1)) (h : Inv L s g) :
    if d = 0 then (s.sysTick.k.tcb t).state = .ready ∧ (s.sysTick.k.tcb t).delayTicks = 0
    else Counting s.sysTick t w d := by
  obtain ⟨ms, hms, hphase⟩ := hc.phase
  obtain ⟨hplace, _⟩ := h.parked hphase
  obtain ⟨g', hg', _⟩ := h.step hL (l := .tick) rfl
  have htick := h.scheduled.sysTick_tcb (t := t) (by rw [hplace]; simp)
  generalize s.sysTick = s' at hg' htick ⊢
  obtain ⟨hleft, hend⟩ := h.wait_tick hphase hms hc.left htick
  by_cases hd : d = 0
  · rw [if_pos hd] at hend ⊢
    exact ⟨hend, hleft.trans hd⟩
  · rw [if_neg hd] at hend ⊢
    obtain ⟨_, ⟨_, hnone⟩ | ⟨w', hlisted, hsome⟩⟩ :=
      hg'.counting (Nat.pos_iff_ne_zero.mpr (by rw [hleft]; exact hd))
    · rw [hend] at hnone
      cases hnone
    · obtain rfl := Option.some.inj (hend.symm.trans hsome)
      have hmem := (hg'.placed.mem_list t w).mpr hlisted
      obtain ⟨ms', hphase'⟩ := (hg'.placed.waiting_iff t w).mp hmem
      obtain ⟨_, _, ⟨hms', _⟩ | ⟨_, _, hnone⟩⟩ := hg'.parked hphase'
      · exact ⟨⟨ms', hms', hphase'⟩, hleft⟩
      · exact absurd (hend.symm.trans hnone) (by simp)

/-- A run with fewer ticks than are left, in which nobody wakes the task. -/
theorem Counting.through {labels : List Label} (hL : L.heap.Placed) (hc : Counting s t w d)
    (hs : s.Reached L) (hp : Permitted (Unwoken t) (Sys.step L) s labels)
    (hrun : run (Sys.step L) s labels = some s') (hlt : ticks labels < d) :
    Counting s' t w (d - ticks labels) := by
  refine permitted_countdown (I := fun s => s.Reached L) (C := fun s d => Counting s t w d)
    (fun _ _ _ hs hl => hs.step hl) ?_ ?_ hs hc hp hrun hlt
  · intro s l s' d hs hc hd hl hstep
    obtain ⟨g, hg⟩ := hs.inv hL
    obtain rfl := Label.eq_tick hl
    obtain rfl := Option.some.inj hstep
    have hnext := hc.tick hL hg
    rwa [if_neg hd] at hnext
  · intro s l s' d hs hc hl hfree hstep
    obtain ⟨g, hg⟩ := hs.inv hL
    obtain ⟨ms, hms, hphase⟩ := hc.phase
    obtain ⟨hnext, hsame⟩ := hg.wait_step hL hphase hfree hl hstep
    exact ⟨⟨ms, hms, hnext⟩, hsame.trans hc.left⟩

/-- A wait without end, through ticks and everything else. -/
theorem waits_through {labels : List Label} (hL : L.heap.Placed)
    (hphase : waitPhase s.log t = .waiting w waitForever) (hs : s.Reached L)
    (hp : Permitted (Unwoken t) (Sys.step L) s labels)
    (hrun : run (Sys.step L) s labels = some s') :
    waitPhase s'.log t = .waiting w waitForever := by
  induction labels generalizing s with
  | nil =>
    obtain rfl := Option.some.inj hrun
    exact hphase
  | cons l ls ih =>
    obtain ⟨m, hstep, hrest⟩ := run_cons.mp hrun
    obtain ⟨g, hg⟩ := hs.inv hL
    refine ih ?_ (hs.step hstep) (hp.2 m hstep) hrest
    by_cases hl : l.isTick = true
    · obtain rfl := Label.eq_tick hl
      obtain rfl := Option.some.inj hstep
      obtain ⟨_, _, ⟨hbad, _⟩ | ⟨_, hzero, _⟩⟩ := hg.parked hphase
      · exact absurd rfl hbad
      · exact (sysTick_forever hphase hzero).1
    · rw [Bool.not_eq_true] at hl
      exact (hg.wait_step hL hphase hp.1 hl hstep).1

end Waiting

/-- The next step of the running task stops `t` for `n` ticks: a delay, or a call that puts it
on the list `w`, by `t` itself or by the worker that serves it. -/
inductive Stopping (s : Sys) (t : Tid) : Option WaitList → Nat → Prop
  | sleeps {n : Nat} {direct : Bool} (h : Delaying s t n direct) : Stopping s t none n
  | waits {u : Tid} {op : Op} {r : Ret} {w : WaitList} (hcur : s.k.currentTask = some u)
      (hpc : s.pc u = .enter op r) (htarget : op.target = some w) (hblocker : op.blocker u = t)
      (hout : (op.enter s.k u).2 = .block) : Stopping s t (some w) op.timeout

/-- A sleep is left alone by every step, a wait on a list by those that do not wake `t`. -/
def LeavesOut (t : Tid) (w : Option WaitList) (s : Sys) (l : Label) : Prop :=
  w.isSome = true → Unwoken t s l

/-- From `s` on `t` waits for `n` ticks, and each takes one off its counter, unless the
primitive wakes it. -/
structure WaitsOut (L : Layout) (s : Sys) (t : Tid) (w : Option WaitList) (n : Nat) : Prop where
  counts : ∀ labels s', Permitted (LeavesOut t w) (Sys.step L) s labels →
    run (Sys.step L) s labels = some s' → ticks labels < n →
    (s'.k.tcb t).state = .waiting ∧ (s'.k.tcb t).delayTicks = n - ticks labels ∧
      (s'.k.tcb t).blockingWaitList = w
  ends : ∀ labels s', Permitted (LeavesOut t w) (Sys.step L) s labels →
    run (Sys.step L) s (labels ++ [.tick]) = some s' → ticks labels + 1 = n →
    (s'.k.tcb t).state = .ready ∧ (s'.k.tcb t).delayTicks = 0

/-- No number of ticks wakes `t`. -/
def WaitsForever (L : Layout) (s : Sys) (t : Tid) : Prop :=
  ∀ labels s', Permitted (Unwoken t) (Sys.step L) s labels →
    run (Sys.step L) s labels = some s' → (s'.k.tcb t).state = .waiting

section Expiry
variable {L : Layout} {s s' : Sys} {g : Ghost} {t u : Tid} {w : WaitList} {n : Nat} {op : Op}
  {r : Ret}

/-- How a wait begins. -/
theorem Inv.wait_begins (h : Inv L s g) (hcur : s.k.currentTask = some u)
    (hpend : s.k.pendsv = false) (hpc : s.pc u = .enter op r) (htarget : op.target = some w)
    (hblocker : op.blocker u = t) (hout : (op.enter s.k u).2 = .block)
    (hgo : s.go L u = some s') : waitPhase s'.log t = .waiting w op.timeout ∧
      (op.timeout ≠ waitForever → (s'.k.tcb t).delayTicks = op.timeout) := by
  simp only [Sys.go, hpc, Option.some.injEq] at hgo
  subst hgo
  have hrefs := h.objects.refs u
  rw [hpc] at hrefs
  have hready := h.ready_enter hcur hpend hrefs hpc
  obtain ⟨W', heff⟩ := enter_effect op hready.lists hready.apart hready.blocker
  have hidle : waitPhase s.log t = .idle := hblocker ▸ hready.idle
  rw [runOp_eq, hout]
  rw [hout] at heff
  generalize (op.enter s.k u).1 = k' at heff ⊢
  generalize op.note s.k k' u .block = notes at heff ⊢
  cases heff with
  | @block _ _ w' l hop hms htasks hlists hmem hnotes =>
    obtain rfl := Option.some.inj (htarget.symm.trans hop)
    constructor
    · refine (hnotes s.log t).trans ?_
      rw [hidle, hblocker]
      simp [WaitPhase.next]
    · intro hfinite
      have htcb := congrArg (fun k : Kernel => k.tcb (op.blocker u)) htasks
      rw [setTcb_tcb_same, hblocker] at htcb
      refine (congrArg Tcb.delayTicks htcb :).trans ?_
      simp [Tcb.parked, hfinite]

theorem Counting.waitsOut (hL : L.heap.Placed) (hs : s.Reached L) (hc : Counting s t w n) :
    WaitsOut L s t (some w) n := by
  constructor
  · intro labels s' hp hrun hlt
    obtain ⟨g, hg⟩ := (hs.run hrun).inv hL
    exact (hc.through hL hs (hp.mono fun _ _ h => h rfl) hrun hlt).fields hg
  · intro labels s' hp hrun hn
    obtain ⟨m, hfirst, hlast⟩ := run_append.mp hrun
    obtain ⟨m', hstep, hend⟩ := run_cons.mp hlast
    obtain rfl := Option.some.inj hend
    obtain rfl := Option.some.inj hstep
    obtain ⟨g, hg⟩ := (hs.run hfirst).inv hL
    have hm := hc.through hL hs (hp.mono fun _ _ h => h rfl) hfirst (by omega)
    rw [show n - ticks labels = 0 + 1 by omega] at hm
    have htick := hm.tick hL hg
    rwa [if_pos rfl] at htick

theorem Asleep.waitsOut (hL : L.heap.Placed) (hs : s.Reached L) (ha : Asleep s t n) :
    WaitsOut L s t none n := by
  constructor
  · intro labels s' _ hrun hlt
    have hend := ha.through hL hs hrun hlt
    exact ⟨hend.state, hend.left, hend.list⟩
  · intro labels s' _ hrun hn
    obtain ⟨m, hfirst, hlast⟩ := run_append.mp hrun
    obtain ⟨m', hstep, hend⟩ := run_cons.mp hlast
    obtain rfl := Option.some.inj hend
    obtain rfl := Option.some.inj hstep
    obtain ⟨g, hg⟩ := (hs.run hfirst).inv hL
    have hm := ha.through hL hs hfirst (by omega)
    rw [show n - ticks labels = 0 + 1 by omega] at hm
    have htick := hm.tick hg
    rw [if_pos rfl] at htick
    obtain ⟨g', hg', _⟩ := hg.step hL (l := .tick) rfl
    refine ⟨htick, hg'.placed.awake_delay ?_⟩
    rw [htick]
    simp

/-- A task that is stopped for `n` ticks becomes READY with the `n`-th one, and one that
waits with `CREST_WAIT_FOREVER` with none. -/
theorem expires_on_time {w : Option WaitList} (hL : L.heap.Placed) (hs : s.Reached L)
    (hstop : Stopping s t w n) (hn : n ≠ 0) (hstep : s.step L .go = some s') :
    (w = none ∨ n ≠ waitForever → WaitsOut L s' t w n) ∧
      (w ≠ none → n = waitForever → WaitsForever L s' t) := by
  have hs' := hs.step hstep
  obtain ⟨g, hg⟩ := hs.inv hL
  obtain ⟨u, hpend, hcur, hgo⟩ := step_go_cases hstep
  cases hstop with
  | sleeps hdelay =>
    have hasleep := hdelay.asleep hL hs (fun _ => hn) hstep
    exact ⟨fun _ => hasleep.waitsOut hL hs', fun hw => absurd rfl hw⟩
  | @waits u' op r w hcur' hpc htarget hblocker hout =>
    obtain rfl := Option.some.inj (hcur'.symm.trans hcur)
    obtain ⟨hphase, hleft⟩ := hg.wait_begins hcur hpend hpc htarget hblocker hout hgo
    constructor
    · rintro (hnone | hfinite)
      · cases hnone
      · have hcounting : Counting s' t w op.timeout := ⟨⟨_, hfinite, hphase⟩, hleft hfinite⟩
        exact hcounting.waitsOut hL hs'
    · rintro _ hforever labels m hp hrun
      rw [hforever] at hphase
      obtain ⟨g', hg'⟩ := (hs'.run hrun).inv hL
      obtain ⟨_, hview, _⟩ := hg'.parked (waits_through hL hphase hs' hp hrun)
      exact hview.state

/-- The worker is about to block task 1 on a semaphore with a timeout of two ticks. -/
theorem expires_on_time_second : ∃ s s' : Sys, s.Reached boardLayout ∧
    Stopping s 1 (some (.sem 0x20006428)) 2 ∧ s.step boardLayout .go = some s' ∧
    WaitsOut boardLayout s' 1 (some (.sem 0x20006428)) 2 := by
  obtain ⟨s, hrun, ⟨hcur, hpc, hout⟩, hs⟩ := boardRun_comes
    (boardReady ++ [.call (.create (.sem 0)), .go, .go, .call .setUnprivileged,
      .svc syscallSemWait 0x10000 2 0 0, .pendSV 0x2001F000, .go, .go])
    (P := fun s => s.k.currentTask = some 0 ∧
      s.pc 0 = .enter (.semTryTake 0x20006428 1 2) (.serve 1) ∧
      (Op.enter s.k 0 (.semTryTake 0x20006428 1 2)).2 = .block)
    (by decide +kernel) fun _ hs => hs
  obtain ⟨s', _, hstep, _⟩ := boardRun_snoc (l := .go) (P := fun _ => True) hrun (by decide +kernel)
  have hstop : Stopping s 1 (some (.sem 0x20006428)) 2 := .waits hcur hpc rfl rfl hout
  have hboth := expires_on_time boardLayout_placed hs hstop (by decide) hstep
  exact ⟨s, s', hs, hstop, hstep, hboth.1 (Or.inr (by decide))⟩

end Expiry

end Crest
