import CrestRtos.Properties.Timeouts
import CrestRtos.System.Paths

/-!
# Pushes and pops on both paths

The worker runs a push or a pop of its caller with no timeout, whatever timeout
the caller asked for. So the two paths agree as long as the call need not wait;
where a direct call blocks, the system call fails at once.
-/

namespace Crest
open MachineWord Alloc Transition

inductive QueueCall
  | push (handle item ms : Nat)
  | pop (handle item ms : Nat)

namespace QueueCall

def call : QueueCall → Call
  | .push h item ms => .queuePush h item ms
  | .pop h item ms => .queuePop h item ms

def handle : QueueCall → Nat
  | .push h _ _ => h
  | .pop h _ _ => h

def ms : QueueCall → Nat
  | .push _ _ ms => ms
  | .pop _ _ ms => ms

/-- The call on the queue that the handle stands for. -/
def op (q : Nat) : QueueCall → Op
  | .push _ item ms => .queuePush q item ms
  | .pop _ item ms => .queuePop q item ms

/-- The work item of the caller `t`. -/
def item (t : Tid) : QueueCall → WorkItem
  | .push h item ms => ⟨syscallQueueSend, h, item, ms, 0, t⟩
  | .pop h item ms => ⟨syscallQueueRecv, h, item, ms, 0, t⟩

/-- From `k`, the direct call of `t` and its system call served by `w` do the same to
the queue, to memory and to every task, and are bound to return the same value. -/
structure PathsAgree (c : QueueCall) (k : Kernel) (t w : Tid) : Prop where
  effect : (served k w (c.item t)).1 = (c.call.direct k t).1
  result : ∃ v, (served k w (c.item t)).2.result = some v ∧ (c.call.direct k t).2.result = some v

/-- The handle is bad, or the queue has the slot or the item that the call needs. -/
def Settles (c : QueueCall) (k : Kernel) : Prop :=
  ∀ q, kObjGet k c.handle .queue = some q → (c.op q).finds k = true

section Paths
variable (c : QueueCall) (k : Kernel) (t w : Tid)

theorem item_eq : c.call.item t = some (c.item t) := by
  cases c <;> rfl

theorem onObject : c.call.onObject = true := by
  cases c <;> rfl

theorem direct_eq : c.call.direct k t = match kObjGet k c.handle .queue with
    | none => (k, .ret minusOne)
    | some q => (c.op q).enter k t := by
  cases c <;> rfl

/-- The worker drops the timeout. -/
theorem served_eq : served k w (c.item t) = match kObjGet k c.handle .queue with
    | none => (k, .ret minusOne)
    | some q => (c.op q).again.enter k w := by
  have hdec : decode k (c.item t) =
      withObject k c.handle .queue fun q => .call (c.op q).again := by
    cases c <;> rfl
  rw [served, hdec, withObject]
  cases kObjGet k c.handle .queue <;> rfl

theorem op_isQueue (q : Nat) : (c.op q).isQueue = true := by
  cases c <;> rfl

theorem op_timeout (q : Nat) : (c.op q).timeout = c.ms := by
  cases c <;> rfl

end Paths

end QueueCall

section Agreement
variable {k : Kernel} {t w : Tid} {op : Op}

/-- A pass that finds what it needs depends neither on the task nor on the timeout. -/
theorem enter_finds (hop : op.isQueue = true) (hfinds : op.finds k = true) :
    op.again.enter k w = op.enter k t := by
  cases op with
  | queuePush q item ms =>
    have hroom : (k.queue q).nextIndex (k.queue q).tail ≠ (k.queue q).head :=
      of_decide_eq_true hfinds
    simp only [Op.again, Op.enter, zImplQueuePush, if_pos hroom]
  | queuePop q item ms =>
    have hitem : (k.queue q).head ≠ (k.queue q).tail := of_decide_eq_true hfinds
    simp only [Op.again, Op.enter, zImplQueuePop, if_pos hitem]
  | _ => cases hop

/-- One that does not find it leaves everything alone when it has no timeout. -/
theorem enter_misses (hop : op.isQueue = true) (hmiss : ¬ op.finds k = true)
    (hms : op.timeout = 0) : op.enter k t = (k, .ret minusOne) := by
  cases op with
  | queuePush q item ms =>
    have hfull : ¬ (k.queue q).nextIndex (k.queue q).tail ≠ (k.queue q).head := fun h =>
      hmiss (decide_eq_true h)
    obtain rfl : ms = 0 := hms
    simp only [Op.enter, zImplQueuePush, if_neg hfull, if_true]
  | queuePop q item ms =>
    have hempty : ¬ (k.queue q).head ≠ (k.queue q).tail := fun h => hmiss (decide_eq_true h)
    obtain rfl : ms = 0 := hms
    simp only [Op.enter, zImplQueuePop, if_neg hempty, if_true]
  | _ => cases hop

end Agreement

/-- Both paths agree if and only if the call has no timeout or need not wait. -/
theorem queue_paths_agree_iff (c : QueueCall) (k : Kernel) (t w : Tid) :
    c.PathsAgree k t w ↔ c.ms = 0 ∨ c.Settles k := by
  have hdirect := c.direct_eq k t
  have hserved := c.served_eq k t w
  cases hget : kObjGet k c.handle .queue with
  | none =>
    rw [hget] at hdirect hserved
    have hsettles : c.Settles k := fun q hq => by
      rw [hget] at hq
      cases hq
    refine iff_of_true ⟨?_, minusOne, ?_, ?_⟩ (Or.inr hsettles)
    · rw [hserved, hdirect]
    · rw [hserved]
      rfl
    · rw [hdirect]
      rfl
  | some q =>
    rw [hget] at hdirect hserved
    change c.call.direct k t = (c.op q).enter k t at hdirect
    change served k w (c.item t) = (c.op q).again.enter k w at hserved
    have hqueue := c.op_isQueue q
    have htimeout := c.op_timeout q
    by_cases hfinds : (c.op q).finds k = true
    · have hsettles : c.Settles k := fun q' hq' => by
        obtain rfl := Option.some.inj (hget.symm.trans hq')
        exact hfinds
      have hsame := enter_finds (t := t) (w := w) hqueue hfinds
      refine iff_of_true ⟨?_, 0, ?_, ?_⟩ (Or.inr hsettles)
      · rw [hserved, hdirect, hsame]
      · rw [hserved, hsame]
        rcases finds_outcome (t := t) hqueue hfinds with hout | ⟨x, hout⟩ <;> rw [hout] <;> rfl
      · rw [hdirect]
        rcases finds_outcome (t := t) hqueue hfinds with hout | ⟨x, hout⟩ <;> rw [hout] <;> rfl
    · have hagain : (c.op q).again.enter k w = (k, .ret minusOne) := by
        obtain ⟨hop, hsame⟩ := again_finds (k := k) hqueue
        refine enter_misses hop (by rw [hsame]; exact hfinds) ?_
        cases c <;> rfl
      rw [hagain] at hserved
      rcases misses_outcome (t := t) hqueue hfinds with ⟨hms, hout⟩ | ⟨hms, hout⟩
      · refine iff_of_true ⟨?_, minusOne, ?_, ?_⟩ (Or.inl (htimeout.symm.trans hms))
        · rw [hserved, hdirect, enter_misses hqueue hfinds hms]
        · rw [hserved]
          rfl
        · rw [hdirect, hout]
          rfl
      · refine iff_of_false ?_ ?_
        · rintro ⟨_, v, _, hresult⟩
          rw [hdirect] at hresult
          rw [hout] at hresult
          cases hresult
        · rintro (hzero | hsettles)
          · exact hms (htimeout.trans hzero)
          · exact hfinds (hsettles q hget)

/-- Where the paths agree, the code of either comes to the same kernel state and is
bound to the same result. -/
theorem QueueCall.PathsAgree.bound {L : Layout} {c : QueueCall} {s : Sys} {t w : Tid}
    (h : c.PathsAgree s.k t w) : ∃ v d e,
      Goes L t (s.call t c.call) d ∧ Goes L w (s.dispatch w (c.item t)) e ∧ e.k = d.k ∧
      d.BoundTo t .app v ∧ e.BoundTo w (.serve t) v := by
  obtain ⟨heffect, v, hserved, hdirect⟩ := h
  obtain ⟨d, hgo, hd⟩ := direct_goes (L := L) (s := s) (t := t) c.onObject
  obtain ⟨e, hgo', he⟩ := served_goes (L := L) (s := s) (w := w) c.onObject (c.item_eq t)
  exact ⟨v, d, e, hgo, hgo', he.k_eq.trans (heffect.trans hd.k_eq.symm), hd.boundTo hdirect,
    he.boundTo hserved⟩

/-- A pop with a timeout of 5 on an empty queue: the direct call of task 1 blocks, and
its system call returns -1. -/
theorem syscall_pop_fails_at_once : ∃ s : Sys, s.Reached boardLayout ∧
    s.k.currentTask = some 1 ∧ s.pc 1 = .app ∧
    ¬ (QueueCall.pop 0x10000 0x20000100 5).PathsAgree s.k 1 0 ∧
    ((QueueCall.pop 0x10000 0x20000100 5).call.direct s.k 1).2 = .block ∧
    (served s.k 0 ((QueueCall.pop 0x10000 0x20000100 5).item 1)).2 = .ret minusOne := by
  obtain ⟨s, hs, hcur, hpc, hdirect, hserved⟩ := boardRun_at
    (boardReady ++ [.call (.create (.queue 4 1)), .go, .go, .go])
    (P := fun s => s.k.currentTask = some 1 ∧ s.pc 1 = .app ∧
      ((QueueCall.pop 0x10000 0x20000100 5).call.direct s.k 1).2 = .block ∧
      (served s.k 0 ((QueueCall.pop 0x10000 0x20000100 5).item 1)).2 = .ret minusOne)
    (by decide +kernel)
  refine ⟨s, hs, hcur, hpc, ?_, hdirect, hserved⟩
  rintro ⟨_, v, _, hresult⟩
  rw [hdirect] at hresult
  cases hresult

end Crest
