import CrestRtos.System.Machine

/-!
# What the log says about one task

Two small automata read the log. `WaitPhase` follows the waits of a task: it is
put on a list, taken off by another task's call or by its timeout, and learns
the outcome. `SysPhase` follows its syscalls: posted, answered, running again.
An event out of turn, or a result that does not fit the way a wait ended, leads
to `broken`, which no event leaves.
-/

namespace Crest

inductive WaitPhase
  | idle
  | waiting (w : WaitList) (ms : Nat)
  | handed (w : WaitList)
  | expired (w : WaitList)
  | broken
  deriving DecidableEq, Repr

/-- The end of a wait on `w`. -/
def WaitPhase.leave (p : WaitPhase) (w : WaitList) (q : WaitPhase) : WaitPhase :=
  match p with
  | .waiting w' _ => if w' = w then q else .broken
  | _ => .broken

/-- A call or syscall of the task ends with result `v`. -/
def WaitPhase.conclude (v : Nat) : WaitPhase → WaitPhase
  | .idle => .idle
  | .handed w => if w.isQueue = false ∧ v = 0 then .idle else .broken
  | .expired _ => if v = minusOne then .idle else .broken
  | _ => .broken

def WaitPhase.next (t : Tid) (p : WaitPhase) : Event → WaitPhase
  | .block w u ms => if u = t then (if p = .idle then .waiting w ms else .broken) else p
  | .handoff w u => if u = t then p.leave w (.handed w) else p
  | .expire w u => if u = t then p.leave w (.expired w) else p
  | .recheck w u =>
    if u = t then (if p = .handed w ∧ w.isQueue then .idle else .broken) else p
  | .result u v => if u = t then p.conclude v else p
  | .answered u v => if u = t then p.conclude v else p
  | _ => p

def waitPhase (log : List Event) (t : Tid) : WaitPhase :=
  log.foldr (fun e p => p.next t e) .idle

inductive SysPhase
  | idle
  | posted
  | answered (v : Nat)
  | broken
  deriving DecidableEq, Repr

def SysPhase.next (t : Tid) (p : SysPhase) : Event → SysPhase
  | .posted item => if item.caller = t then (if p = .idle then .posted else .broken) else p
  | .answered u v => if u = t then (if p = .posted then .answered v else .broken) else p
  | .resumed u v => if u = t then (if p = .answered v then .idle else .broken) else p
  | _ => p

def sysPhase (log : List Event) (t : Tid) : SysPhase :=
  log.foldr (fun e p => p.next t e) .idle

@[simp] theorem waitPhase_nil (t : Tid) : waitPhase [] t = .idle := rfl

@[simp] theorem waitPhase_cons (e : Event) (log : List Event) (t : Tid) :
    waitPhase (e :: log) t = (waitPhase log t).next t e := rfl

@[simp] theorem sysPhase_nil (t : Tid) : sysPhase [] t = .idle := rfl

@[simp] theorem sysPhase_cons (e : Event) (log : List Event) (t : Tid) :
    sysPhase (e :: log) t = (sysPhase log t).next t e := rfl

/-- Events that say nothing about any task's waits. -/
def Event.offWait : Event → Bool
  | .block _ _ _ => false
  | .handoff _ _ => false
  | .expire _ _ => false
  | .recheck _ _ => false
  | .result _ _ => false
  | .answered _ _ => false
  | _ => true

theorem waitPhase_append_of_offWait {events log : List Event} (t : Tid)
    (h : ∀ e ∈ events, e.offWait = true) : waitPhase (events ++ log) t = waitPhase log t := by
  induction events with
  | nil => rfl
  | cons e events ih =>
    have hrest := ih fun x hx => h x (List.mem_cons_of_mem e hx)
    have he := h e List.mem_cons_self
    rw [List.cons_append, waitPhase_cons, hrest]
    cases e <;> first | rfl | cases he

/-- Events that say nothing about any task's syscalls. -/
def Event.offSys : Event → Bool
  | .posted _ => false
  | .taken _ => false
  | .answered _ _ => false
  | .resumed _ _ => false
  | _ => true

theorem sysPhase_append_of_offSys {events log : List Event} (t : Tid)
    (h : ∀ e ∈ events, e.offSys = true) : sysPhase (events ++ log) t = sysPhase log t := by
  induction events with
  | nil => rfl
  | cons e events ih =>
    have hrest := ih fun x hx => h x (List.mem_cons_of_mem e hx)
    have he := h e List.mem_cons_self
    rw [List.cons_append, sysPhase_cons, hrest]
    cases e <;> first | rfl | cases he

def WaitList.addr : WaitList → Nat
  | .sem a => a
  | .mutex a => a
  | .send a => a
  | .recv a => a

def WaitList.kind : WaitList → KobjType
  | .sem _ => .sem
  | .mutex _ => .mutex
  | .send _ => .queue
  | .recv _ => .queue

/-- The object that an event is about. -/
def Event.object : Event → Option (Nat × KobjType)
  | .semCreated s _ => some (s, .sem)
  | .semGiven s => some (s, .sem)
  | .semTaken s _ => some (s, .sem)
  | .mutexCreated m => some (m, .mutex)
  | .locked m _ => some (m, .mutex)
  | .relocked m _ => some (m, .mutex)
  | .unlocked m _ => some (m, .mutex)
  | .queueCreated q => some (q, .queue)
  | .pushed q _ => some (q, .queue)
  | .popped q _ => some (q, .queue)
  | .foundFull q => some (q, .queue)
  | .foundEmpty q => some (q, .queue)
  | .block w _ _ => some (w.addr, w.kind)
  | .handoff w _ => some (w.addr, w.kind)
  | _ => none

/-- The history of an object depends on the events about it alone. -/
theorem foldr_skip {α : Type} {next : Event → α → α} {x : α} {o : Nat × KobjType}
    {events log : List Event} (hskip : ∀ e y, e.object ≠ some o → next e y = y)
    (h : ∀ e ∈ events, e.object ≠ some o) :
    (events ++ log).foldr next x = log.foldr next x := by
  induction events with
  | nil => rfl
  | cons e events ih =>
    rw [List.cons_append, List.foldr_cons, ih fun y hy => h y (List.mem_cons_of_mem e hy)]
    exact hskip e _ (h e List.mem_cons_self)

/-- Only an event about its object puts a task on a list. -/
theorem waiting_before {n log : List Event} {t : Tid} {w : WaitList} {ms : Nat}
    (h : ∀ e ∈ n, e.object ≠ some (w.addr, w.kind))
    (hphase : waitPhase (n ++ log) t = .waiting w ms) : waitPhase log t = .waiting w ms := by
  induction n with
  | nil => exact hphase
  | cons e n ih =>
    refine ih (fun x hx => h x (List.mem_cons_of_mem e hx)) ?_
    have he := h e List.mem_cons_self
    rw [List.cons_append, waitPhase_cons] at hphase
    generalize waitPhase (n ++ log) t = p at hphase ⊢
    have hleave : ∀ w' q, (∀ v n, q ≠ .waiting v n) → p.leave w' q ≠ .waiting w ms := by
      intro w' q hq hleave
      cases p with
      | waiting v n =>
        simp only [WaitPhase.leave] at hleave
        split at hleave
        · exact hq w ms hleave
        · cases hleave
      | _ => cases hleave
    have hconclude : ∀ v, p.conclude v ≠ .waiting w ms := by
      intro v hv
      cases p with
      | handed w' =>
        simp only [WaitPhase.conclude] at hv
        split at hv <;> cases hv
      | expired w' =>
        simp only [WaitPhase.conclude] at hv
        split at hv <;> cases hv
      | _ => cases hv
    cases e with
    | block w' x n =>
      simp only [WaitPhase.next] at hphase
      split at hphase
      · split at hphase
        · obtain ⟨rfl, _⟩ := WaitPhase.waiting.inj hphase
          exact absurd rfl he
        · cases hphase
      · exact hphase
    | handoff w' x =>
      simp only [WaitPhase.next] at hphase
      split at hphase
      · exact absurd hphase (hleave w' _ (by simp))
      · exact hphase
    | expire w' x =>
      simp only [WaitPhase.next] at hphase
      split at hphase
      · exact absurd hphase (hleave w' _ (by simp))
      · exact hphase
    | recheck w' x =>
      simp only [WaitPhase.next] at hphase
      split at hphase
      · split at hphase <;> cases hphase
      · exact hphase
    | result x v =>
      simp only [WaitPhase.next] at hphase
      split at hphase
      · exact absurd hphase (hconclude v)
      · exact hphase
    | answered x v =>
      simp only [WaitPhase.next] at hphase
      split at hphase
      · exact absurd hphase (hconclude v)
      · exact hphase
    | _ => exact hphase

/-- An event that a critical section on `o` can note. -/
structure Event.Within (o : Option (Nat × KobjType)) (e : Event) : Prop where
  sys : e.offSys = true
  object : e.object = none ∨ e.object = o

/-- A call of a task in this phase may end with `v`: `handed` ends with 0,
`expired` with -1, and a task that still waits ends no call. -/
def WaitPhase.EndsWith (v : Nat) : WaitPhase → Prop
  | .idle => True
  | .handed w => w.isQueue = false ∧ v = 0
  | .expired _ => v = minusOne
  | _ => False

/-- Every wait is ended by one event, and its call gets the result that fits it. -/
structure Outcomes (log : List Event) : Prop where
  unlinked : ∀ post e pre w t, log = post ++ e :: pre → e = .handoff w t ∨ e = .expire w t →
    ∃ ms, waitPhase pre t = .waiting w ms
  result : ∀ post e pre t v, log = post ++ e :: pre → e = .result t v ∨ e = .answered t v →
    (waitPhase pre t).EndsWith v

theorem next_broken (t : Tid) (e : Event) : WaitPhase.broken.next t e = .broken := by
  cases e <;> simp [WaitPhase.next, WaitPhase.leave, WaitPhase.conclude]

theorem waitPhase_of_append {events log : List Event} {t : Tid}
    (h : waitPhase (events ++ log) t ≠ .broken) : waitPhase log t ≠ .broken := by
  induction events with
  | nil => exact h
  | cons e events ih =>
    refine ih fun hbroken => h ?_
    rw [List.cons_append, waitPhase_cons, hbroken, next_broken]

theorem WaitPhase.endsWith {p : WaitPhase} {v : Nat} (h : p.conclude v ≠ .broken) :
    p.EndsWith v := by
  cases p with
  | idle => trivial
  | handed w =>
    by_contra hnot
    exact h (if_neg hnot)
  | expired w =>
    by_contra hnot
    exact h (if_neg hnot)
  | waiting w ms => exact h rfl
  | broken => exact h rfl

theorem WaitPhase.waiting_of_leave {p q : WaitPhase} {w : WaitList}
    (h : p.leave w q ≠ .broken) : ∃ ms, p = .waiting w ms := by
  cases p with
  | waiting w' ms =>
    by_cases hw : w' = w
    · subst hw
      exact ⟨ms, rfl⟩
    · exact absurd (if_neg hw) h
  | _ => exact absurd rfl h

/-- A log that breaks no task's phase gives every wait its outcome. -/
theorem outcomes_of_unbroken {log : List Event} (h : ∀ t, waitPhase log t ≠ .broken) :
    Outcomes log := by
  have hlast : ∀ {post pre : List Event} {e : Event} (t : Tid), log = post ++ e :: pre →
      (waitPhase pre t).next t e ≠ .broken := by
    intro post pre e t hlog
    exact waitPhase_of_append (hlog ▸ h t)
  constructor
  · intro post e pre w t hlog he
    have hnext := hlast t hlog
    rcases he with rfl | rfl
    · exact WaitPhase.waiting_of_leave (by simpa [WaitPhase.next] using hnext)
    · exact WaitPhase.waiting_of_leave (by simpa [WaitPhase.next] using hnext)
  · intro post e pre t v hlog he
    have hnext := hlast t hlog
    rcases he with rfl | rfl
    · exact WaitPhase.endsWith (by simpa [WaitPhase.next] using hnext)
    · exact WaitPhase.endsWith (by simpa [WaitPhase.next] using hnext)

end Crest
