import CrestRtos.Kernel.Removal
import CrestRtos.Kernel.Standing
import CrestRtos.System.TaskSteps

/-!
# The structure behind the scheduler

TCB pool, priority lists, priority mask and round-robin cursors under every
sequence of creations, deletions, selections, sleeps, wake-ups and ticks.
Deletion takes any control block of the pool, also one that is free already.
Every allocation of a stack is one that `task_delete` can give back, so none of
these calls gets stuck.
-/

namespace Crest
open IntrusiveList MachineWord Alloc Transition

inductive RosterOp
  | create (args : TaskArgs)
  | delete (t : Tid)
  | getNext
  | sleep (t : Tid) (ticks : Nat)
  | wake (t : Tid) (result : Nat)
  /-- A critical section that can put tasks on wait lists or take them off. -/
  | enter (op : Op) (cur : Tid)
  | tick

def RosterOp.perform (L : Layout) (k : Kernel) : RosterOp → Option Kernel
  | .create args => (taskCreate L k args).map Prod.fst
  | .delete t => taskDelete L k t
  | .getNext => some ((schedulerGetNext k).elim k Prod.fst)
  | .sleep t ticks => some (schedulerSleep k t ticks)
  | .wake t result => some (schedulerWakeTask k t result)
  | .enter op cur => some (op.enter k cur).1
  | .tick => some (sysTickHandler k)

/-- What the rest of the scheduler relies on. -/
structure Kernel.Structured (k : Kernel) (runs : Nat → List Tid) : Prop where
  finite : ∀ pr, pr < maxTaskPriorities → Linked k.next (k.taskList pr) (runs pr)
  acyclic : ∀ pr, pr < maxTaskPriorities → (runs pr).Nodup
  apart : ∀ pr pr', pr < maxTaskPriorities → pr' < maxTaskPriorities → pr ≠ pr' →
    (runs pr).Disjoint (runs pr')
  used : ∀ t, k.tcbUsed t = true ↔
    (k.tcb t).priority < maxTaskPriorities ∧ (runs (k.tcb t).priority).count t = 1
  elsewhere : ∀ pr t, pr < maxTaskPriorities → t ∈ runs pr → (k.tcb t).priority = pr
  mask : ∀ pr, pr < maxTaskPriorities →
    (k.priorityMask.testBit pr = true ↔ k.taskList pr ≠ none)
  cursor : ∀ pr t, pr < maxTaskPriorities → k.rrCurrent pr = some t → t ∈ runs pr

/-- The invariant of the runs, with the stacks and the heap they come from. -/
structure Roster (L : Layout) (k : Kernel) (runs : Nat → List Tid) (live : List Nat) : Prop where
  linked : ∀ pr, Linked k.next (k.taskList pr) (runs pr)
  rank : ∀ pr t, t ∈ runs pr → (k.tcb t).priority = pr
  bounded : ∀ t, (k.tcb t).priority < maxTaskPriorities
  used : ∀ t, k.tcbUsed t = true ↔ t ∈ runs (k.tcb t).priority
  cursor : ∀ pr t, k.rrCurrent pr = some t → t ∈ runs pr
  byte : k.priorityMask < 2 ^ 8
  mask : ∀ pr, pr < maxTaskPriorities → (k.priorityMask.testBit pr = true ↔ runs pr ≠ [])
  heap : HeapOwns L k.heap live
  stack : ∀ t, k.tcbUsed t = true → (k.tcb t).stackAlloc ∈ live
  bare : ∀ t, k.tcbUsed t = false → (k.tcb t).stackAlloc = 0
  own : ∀ t u, k.tcbUsed t = true → k.tcbUsed u = true →
    (k.tcb t).stackAlloc = (k.tcb u).stackAlloc → t = u

section Roster
variable {L : Layout} {k k' : Kernel} {runs : Nat → List Tid} {live : List Nat} {t : Tid}

theorem Roster.taskList_none (h : Roster L k runs live) (pr : Nat) :
    k.taskList pr = none ↔ runs pr = [] := by
  have hl := h.linked pr
  constructor
  · intro hnone
    rw [hnone] at hl
    exact linked_none_iff.mp hl
  · intro hnil
    rw [hnil] at hl
    exact linked_nil.mp hl

theorem Roster.structured (h : Roster L k runs live) : k.Structured runs := by
  have hnodup : ∀ pr, (runs pr).Nodup := fun pr => linked_nodup (h.linked pr)
  refine ⟨fun pr _ => h.linked pr, fun pr _ => hnodup pr, ?_, ?_, fun pr t _ => h.rank pr t, ?_,
    fun pr t _ => h.cursor pr t⟩
  · intro pr pr' _ _ hne t ht ht'
    exact hne ((h.rank pr t ht).symm.trans (h.rank pr' t ht'))
  · intro t
    rw [h.used]
    constructor
    · intro hmem
      exact ⟨h.bounded t, List.count_eq_one_of_mem (hnodup _) hmem⟩
    · rintro ⟨_, hcount⟩
      exact List.count_pos_iff.mp (by omega)
  · intro pr hpr
    rw [h.mask pr hpr, Ne, Ne, h.taskList_none]

/-- Nothing that a critical section changes is part of the structure. -/
theorem Roster.standing (h : Roster L k runs live) (hs : k'.standing = k.standing) :
    Roster L k' runs live := by
  have hused := standing_tcbUsed hs
  constructor
  · rw [standing_next hs, standing_taskList hs]
    exact h.linked
  · intro pr t ht
    rw [standing_priority hs]
    exact h.rank pr t ht
  · intro t
    rw [standing_priority hs]
    exact h.bounded t
  · intro t
    rw [hused, standing_priority hs]
    exact h.used t
  · rw [standing_rrCurrent hs]
    exact h.cursor
  · rw [standing_priorityMask hs]
    exact h.byte
  · rw [standing_priorityMask hs]
    exact h.mask
  · rw [standing_heap hs]
    exact h.heap
  · intro t
    rw [hused, standing_stackAlloc hs]
    exact h.stack t
  · intro t
    rw [hused, standing_stackAlloc hs]
    exact h.bare t
  · intro t u
    rw [hused, standing_stackAlloc hs, standing_stackAlloc hs]
    exact h.own t u

/-- A selection moves one cursor inside its list. -/
theorem Roster.getNext (h : Roster L k runs live) {next : Tid}
    (hget : schedulerGetNext k = some (k', next)) : Roster L k' runs live := by
  obtain ⟨pr, _, hat⟩ := List.exists_of_findSome?_eq_some hget
  obtain ⟨_, _, c, hc, rfl⟩ := getNextAt_some (h.linked pr) (h.cursor pr) hat
  refine ⟨h.linked, h.rank, h.bounded, h.used, ?_, h.byte, h.mask, h.heap, h.stack, h.bare, h.own⟩
  intro pr' t ht
  change Function.update k.rrCurrent pr (some c) pr' = some t at ht
  by_cases hpr : pr' = pr
  · subst hpr
    rw [Function.update_self] at ht
    obtain rfl := Option.some.inj ht
    exact hc
  · rw [Function.update_of_ne hpr] at ht
    exact h.cursor pr' t ht

/-- `task_create` without a stack gives its control block back. -/
theorem Roster.giveBack (h : Roster L k runs live) {heap : Heap} (hheap : HeapOwns L heap live)
    (ht : k.tcbUsed t = false) :
    Roster L (freeTcb { k with tcbUsed := Function.update k.tcbUsed t true, heap := heap } t)
      runs live := by
  have hused : Function.update (Function.update k.tcbUsed t true) t false = k.tcbUsed := by
    rw [Function.update_idem, ← ht, Function.update_eq_self]
  have hk : freeTcb { k with tcbUsed := Function.update k.tcbUsed t true, heap := heap } t =
      { k with heap := heap } := by
    rw [freeTcb]
    exact congrArg (fun used => { k with tcbUsed := used, heap := heap }) hused
  rw [hk]
  exact ⟨h.linked, h.rank, h.bounded, h.used, h.cursor, h.byte, h.mask, hheap, h.stack, h.bare,
    h.own⟩

/-- The bit of the list that a task is linked into. -/
theorem testBit_setMask (m : Nat) {pr q : Nat} :
    (m ||| 1 <<< pr).testBit q = (m.testBit q || decide (q = pr)) := by
  rw [Nat.testBit_or, Nat.testBit_shiftLeft]
  by_cases hq : q = pr
  · subst hq
    simp
  · have hbit : Nat.testBit 1 (q - pr) = true → ¬ pr ≤ q := by
      rw [Nat.testBit_one_eq_true_iff_self_eq_zero]
      omega
    cases hone : Nat.testBit 1 (q - pr) with
    | false => simp [hq]
    | true => simp [hq, hbit hone]

/-- The bits of the mask once one has been cleared. -/
theorem testBit_clearMask {m pr q : Nat} (hm : m < 2 ^ 8) (hpr : pr < maxTaskPriorities)
    (hq : q < maxTaskPriorities) :
    (andNot m (1 <<< pr)).testBit q = (m.testBit q && decide (q ≠ pr)) := by
  have hall : ∀ (m : Fin 256) (pr q : Fin 8),
      (andNot m.val (1 <<< pr.val)).testBit q.val = (m.val.testBit q.val && decide (q ≠ pr)) := by
    decide +kernel
  have hone := hall ⟨m, hm⟩ ⟨pr, hpr⟩ ⟨q, hq⟩
  simpa [Fin.ext_iff] using hone

/-- A new task comes in front of its list. -/
theorem Roster.join (h : Roster L k runs live) {heap : Heap} {alloc : Nat} {args : TaskArgs}
    (hheap : HeapOwns L heap (alloc :: live)) (hfresh : alloc ∉ live)
    (hpr : args.priority < maxTaskPriorities) (ht : k.tcbUsed t = false) :
    Roster L (schedulerAddTask (initTcb
        { k with tcbUsed := Function.update k.tcbUsed t true, heap := heap } t alloc args) t)
      (Function.update runs args.priority (t :: runs args.priority)) (alloc :: live) := by
  have hj := schedulerAddTask_joined
    { k with tcbUsed := Function.update k.tcbUsed t true, heap := heap } t alloc args
  have hmask : (schedulerAddTask (initTcb { k with
      tcbUsed := Function.update k.tcbUsed t true, heap := heap } t alloc args) t).priorityMask =
      k.priorityMask ||| 1 <<< args.priority := by
    simp [schedulerAddTask, initTcb, portTriggerPendsv, Kernel.setTcb]
  have hstack : ((schedulerAddTask (initTcb { k with
      tcbUsed := Function.update k.tcbUsed t true, heap := heap } t alloc args) t).tcb
      t).stackAlloc = alloc := by
    simp [schedulerAddTask, initTcb, portTriggerPendsv]
  generalize schedulerAddTask (initTcb { k with
    tcbUsed := Function.update k.tcbUsed t true, heap := heap } t alloc args) t = k' at *
  have hused : k'.tcbUsed = Function.update k.tcbUsed t true := (congrArg Kernel.tcbUsed hj.rest :)
  have hheap' : k'.heap = heap := (congrArg Kernel.heap hj.rest :)
  have hcursor : k'.rrCurrent = k.rrCurrent := (congrArg Kernel.rrCurrent hj.rest :)
  have hother : ∀ x, x ≠ t → k'.tcb x = k.tcb x := hj.other
  have husedx : ∀ x, x ≠ t → k'.tcbUsed x = k.tcbUsed x := fun x hx => by
    rw [hused, Function.update_of_ne hx]
  have hnot : ∀ pr, t ∉ runs pr := by
    intro pr hmem
    have hin := (h.used t).mpr ((h.rank pr t hmem).symm ▸ hmem)
    rw [ht] at hin
    cases hin
  have hmem : ∀ pr x, x ∈ Function.update runs args.priority (t :: runs args.priority) pr ↔
      (x = t ∧ pr = args.priority) ∨ x ∈ runs pr := by
    intro pr x
    by_cases hp : pr = args.priority
    · subst hp
      rw [Function.update_self, List.mem_cons]
      simp
    · rw [Function.update_of_ne hp]
      simp [hp]
  constructor
  · intro pr
    have hnext : k'.next = Function.update k.next t (k.taskList args.priority) := by
      funext x
      by_cases hx : x = t
      · subst hx
        rw [Function.update_self]
        exact hj.next
      · rw [Function.update_of_ne hx, Kernel.next, hother x hx]
        rfl
    have hlist : k'.taskList = Function.update k.taskList args.priority (some t) := hj.taskList
    rw [hnext, hlist]
    by_cases hp : pr = args.priority
    · subst hp
      rw [Function.update_self, Function.update_self]
      exact linked_push_front (hnot _) (h.linked _)
    · rw [Function.update_of_ne hp, Function.update_of_ne hp]
      exact (linked_update_of_notMem (hnot pr)).mpr (h.linked pr)
  · intro pr x hx
    rcases (hmem pr x).mp hx with ⟨rfl, rfl⟩ | hold
    · exact hj.priority
    · have hxt : x ≠ t := fun heq => hnot pr (heq ▸ hold)
      rw [hother x hxt]
      exact h.rank pr x hold
  · intro x
    by_cases hx : x = t
    · rw [hx, hj.priority]
      exact hpr
    · rw [hother x hx]
      exact h.bounded x
  · intro x
    rw [hmem]
    by_cases hx : x = t
    · subst hx
      rw [hused, Function.update_self]
      simp [hj.priority]
    · rw [husedx x hx, hother x hx, h.used]
      simp [hx]
  · intro pr x hx
    rw [hcursor] at hx
    exact (hmem pr x).mpr (Or.inr (h.cursor pr x hx))
  · rw [hmask]
    refine Nat.or_lt_two_pow h.byte ?_
    rw [Nat.one_shiftLeft]
    exact Nat.pow_lt_pow_right (by decide) hpr
  · intro pr hp
    rw [hmask, testBit_setMask, Bool.or_eq_true, h.mask pr hp, decide_eq_true_eq]
    by_cases hpa : pr = args.priority
    · subst hpa
      rw [Function.update_self]
      simp
    · rw [Function.update_of_ne hpa]
      simp [hpa]
  · rw [hheap']
    exact hheap
  · intro x hx
    by_cases hxt : x = t
    · subst hxt
      rw [hstack]
      exact List.mem_cons_self
    · rw [husedx x hxt] at hx
      rw [hother x hxt]
      exact List.mem_cons_of_mem _ (h.stack x hx)
  · intro x hx
    by_cases hxt : x = t
    · subst hxt
      rw [hused, Function.update_self] at hx
      cases hx
    · rw [husedx x hxt] at hx
      rw [hother x hxt]
      exact h.bare x hx
  · have hold : ∀ x, x ≠ t → k'.tcbUsed x = true → (k'.tcb x).stackAlloc ≠ alloc := by
      intro x hxt hx heq
      rw [husedx x hxt] at hx
      rw [hother x hxt] at heq
      exact hfresh (heq ▸ h.stack x hx)
    intro x y hx hy heq
    by_cases hxt : x = t
    · by_cases hyt : y = t
      · rw [hxt, hyt]
      · rw [hxt, hstack] at heq
        exact absurd heq.symm (hold y hyt hy)
    · by_cases hyt : y = t
      · rw [hyt, hstack] at heq
        exact absurd heq (hold x hxt hx)
      · rw [husedx x hxt] at hx
        rw [husedx y hyt] at hy
        rw [hother x hxt, hother y hyt] at heq
        exact h.own x y hx hy heq

theorem Roster.create (hL : L.heap.Placed) (h : Roster L k runs live) (args : TaskArgs) :
    ∃ k' made, taskCreate L k args = some (k', made) ∧ ∃ runs' live', Roster L k' runs' live' := by
  rw [taskCreate]
  by_cases hacc : args.accepted = false
  · rw [if_pos hacc]
    exact ⟨k, none, rfl, runs, live, h⟩
  rw [if_neg hacc]
  have hpr : args.priority < maxTaskPriorities := by
    simp only [TaskArgs.accepted, Bool.not_eq_false, Bool.and_eq_true, decide_eq_true_eq] at hacc
    exact hacc.1.1
  cases hfree : getFreeTcb k with
  | none => exact ⟨k, none, rfl, runs, live, h⟩
  | some found =>
    obtain ⟨k₁, t⟩ := found
    obtain ⟨ht, rfl⟩ := getFreeTcb_some hfree
    obtain ⟨heap, alloc, hrun⟩ :=
      h.heap.malloc_some hL (stackAllocSize (nextPowerOfTwo args.stackSize))
    have hown := h.heap.malloc hL hrun
    simp only [hrun]
    by_cases hnull : alloc = 0
    · rw [if_pos hnull] at hown
      simp only [if_pos hnull]
      exact ⟨_, none, rfl, runs, live, h.giveBack hown ht⟩
    · rw [if_neg hnull] at hown
      simp only [if_neg hnull]
      exact ⟨_, some t, rfl, _, _, h.join hown (h.heap.fresh hL hrun hnull) hpr ht⟩

theorem Roster.nodup (h : Roster L k runs live) (pr : Nat) : (runs pr).Nodup :=
  linked_nodup (h.linked pr)

theorem Roster.mem_removed (h : Roster L k runs live) (pr : Nat) (x : Tid) :
    x ∈ Function.update runs (k.tcb t).priority ((runs (k.tcb t).priority).erase t) pr ↔
      x ∈ runs pr ∧ x ≠ t := by
  by_cases hp : pr = (k.tcb t).priority
  · subst hp
    rw [Function.update_self, (h.nodup _).mem_erase_iff, and_comm]
  · rw [Function.update_of_ne hp]
    refine ⟨fun hx => ⟨hx, ?_⟩, And.left⟩
    rintro rfl
    exact hp (h.rank pr x hx).symm

/-- A task leaves its list, the pool gets its control block back, and the heap
its stack. -/
theorem Roster.leave (h : Roster L k runs live) {k₁ : Kernel} {live' : List Nat} (heap : Heap)
    (tcb : Tid → Tcb) (hr : Removed k k₁ t (k.tcb t).priority runs)
    (htcb : ∀ x, x ≠ t → tcb x = k₁.tcb x) (hnext : (tcb t).next = (k₁.tcb t).next)
    (hprio : (tcb t).priority = (k₁.tcb t).priority) (hbare : (tcb t).stackAlloc = 0)
    (hheap : HeapOwns L heap live')
    (hlive : ∀ x, x ≠ t → k.tcbUsed x = true → (k.tcb x).stackAlloc ∈ live') :
    Roster L (freeTcb { k₁ with heap := heap, tcb := tcb } t)
      (Function.update runs (k.tcb t).priority ((runs (k.tcb t).priority).erase t)) live' := by
  have hused₁ : k₁.tcbUsed = k.tcbUsed := (congrArg Kernel.tcbUsed hr.rest :)
  have hpriority : ∀ x, (tcb x).priority = (k.tcb x).priority := by
    intro x
    have hold := (congrArg Tcb.priority (hr.tcb x) :)
    by_cases hx : x = t
    · subst hx
      exact hprio.trans hold
    · rw [htcb x hx]
      exact hold
  have hstack : ∀ x, x ≠ t → (tcb x).stackAlloc = (k.tcb x).stackAlloc := fun x hx => by
    rw [htcb x hx]
    exact (congrArg Tcb.stackAlloc (hr.tcb x) :)
  have hused : ∀ x, (freeTcb { k₁ with heap := heap, tcb := tcb } t).tcbUsed x = true ↔
      x ≠ t ∧ k.tcbUsed x = true := by
    intro x
    change Function.update k₁.tcbUsed t false x = true ↔ _
    rw [hused₁]
    by_cases hx : x = t
    · subst hx
      simp
    · simp [hx]
  constructor
  · intro pr
    have hlinks : (freeTcb { k₁ with heap := heap, tcb := tcb } t).next = k₁.next := by
      funext x
      by_cases hx : x = t
      · subst hx
        exact hnext
      · exact congrArg Tcb.next (htcb x hx)
    rw [hlinks]
    exact hr.linked pr
  · intro pr x hx
    exact (hpriority x).trans (h.rank pr x ((h.mem_removed pr x).mp hx).1)
  · intro x
    exact lt_of_eq_of_lt (hpriority x) (h.bounded x)
  · intro x
    change _ ↔ x ∈ Function.update runs (k.tcb t).priority _ (tcb x).priority
    rw [hused, h.mem_removed, hpriority, h.used, and_comm]
  · intro pr x hx
    have hcursor : (if pr = (k.tcb t).priority ∧ k.rrCurrent pr = some t then none
        else k.rrCurrent pr) = some x := (hr.cursor pr).symm.trans hx
    by_cases hc : pr = (k.tcb t).priority ∧ k.rrCurrent pr = some t
    · rw [if_pos hc] at hcursor
      cases hcursor
    · rw [if_neg hc] at hcursor
      refine (h.mem_removed pr x).mpr ⟨h.cursor pr x hcursor, ?_⟩
      rintro rfl
      exact hc ⟨(h.rank pr x (h.cursor pr x hcursor)).symm, hcursor⟩
  · change k₁.priorityMask < _
    rw [hr.mask]
    split
    · exact lt_of_le_of_lt (andNot_le _ _) h.byte
    · exact h.byte
  · intro pr hpr
    change k₁.priorityMask.testBit pr = true ↔ _
    rw [hr.mask]
    by_cases hp : pr = (k.tcb t).priority
    · subst hp
      rw [Function.update_self]
      by_cases hnil : (runs (k.tcb t).priority).erase t = []
      · rw [if_pos hnil, testBit_clearMask h.byte hpr hpr]
        simp [hnil]
      · rw [if_neg hnil, h.mask _ hpr]
        refine ⟨fun _ => hnil, fun _ hempty => hnil ?_⟩
        rw [hempty]
        rfl
    · rw [Function.update_of_ne hp]
      split
      · rw [testBit_clearMask h.byte (h.bounded t) hpr, ← h.mask pr hpr]
        simp [hp]
      · exact h.mask pr hpr
  · exact hheap
  · intro x hx
    obtain ⟨hxt, hx⟩ := (hused x).mp hx
    exact (hstack x hxt).symm ▸ hlive x hxt hx
  · intro x hx
    by_cases hxt : x = t
    · subst hxt
      exact hbare
    · refine (hstack x hxt).trans (h.bare x ?_)
      cases hold : k.tcbUsed x with
      | false => rfl
      | true =>
        rw [(hused x).mpr ⟨hxt, hold⟩] at hx
        cases hx
  · intro x y hx hy heq
    obtain ⟨hxt, hx⟩ := (hused x).mp hx
    obtain ⟨hyt, hy⟩ := (hused y).mp hy
    exact h.own x y hx hy ((hstack x hxt).symm.trans (heq.trans (hstack y hyt)))

theorem Roster.removed (h : Roster L k runs live) (t : Tid) :
    Removed k (schedulerRemoveTask k t) t (k.tcb t).priority runs :=
  schedulerRemoveTask_removed h.linked fun p q x hp hq =>
    (h.rank p x hp).symm.trans (h.rank q x hq)

theorem Roster.delete (hL : L.heap.Placed) (h : Roster L k runs live) (t : Tid) :
    ∃ k', taskDelete L k t = some k' ∧ ∃ runs' live', Roster L k' runs' live' := by
  have hr := h.removed t
  rw [taskDelete]
  generalize schedulerRemoveTask k t = k₁ at hr
  have hstack : (k₁.tcb t).stackAlloc = (k.tcb t).stackAlloc :=
    (congrArg Tcb.stackAlloc (hr.tcb t) :)
  have hheap : k₁.heap = k.heap := (congrArg Kernel.heap hr.rest :)
  by_cases hnull : (k₁.tcb t).stackAlloc ≠ 0
  · have hused : k.tcbUsed t = true := by
      cases hu : k.tcbUsed t with
      | true => rfl
      | false => exact absurd (hstack.trans (h.bare t hu)) hnull
    have hmem := h.stack t hused
    obtain ⟨heap, hrun⟩ := h.heap.free_some hL hmem
    rw [← hstack, ← hheap] at hrun
    simp only [if_pos hnull, hrun, Option.map_some]
    have hown : HeapOwns L heap (live.erase (k.tcb t).stackAlloc) := by
      refine h.heap.free hL hmem ?_
      rw [← hstack, ← hheap]
      exact hrun
    have hothers : ∀ x, x ≠ t → k.tcbUsed x = true →
        (k.tcb x).stackAlloc ∈ live.erase (k.tcb t).stackAlloc := by
      intro x hxt hx
      refine (List.mem_erase_of_ne fun heq => hxt ?_).mpr (h.stack x hx)
      exact h.own x t hx hused heq
    have hgone := h.leave heap
      (Function.update k₁.tcb t { k₁.tcb t with stackAlloc := 0, stackBase := 0 }) hr
      (fun x hx => Function.update_of_ne hx _ _) (by rw [Function.update_self])
      (by rw [Function.update_self]) (by rw [Function.update_self]) hown hothers
    exact ⟨_, rfl, _, _, hgone⟩
  · have hzero := not_not.mp hnull
    simp only [if_neg hnull]
    have hgone := h.leave k₁.heap k₁.tcb hr (fun _ _ => rfl) rfl rfl hzero (hheap ▸ h.heap)
      fun x _ hx => h.stack x hx
    exact ⟨_, rfl, _, _, hgone⟩

/-- Every call comes to its end and keeps the structure. -/
theorem Roster.perform (hL : L.heap.Placed) (h : Roster L k runs live) (op : RosterOp) :
    ∃ k', op.perform L k = some k' ∧ ∃ runs' live', Roster L k' runs' live' := by
  cases op with
  | create args =>
    obtain ⟨k', made, hrun, hr⟩ := h.create hL args
    exact ⟨k', by rw [RosterOp.perform, hrun]; rfl, hr⟩
  | delete t => exact h.delete hL t
  | getNext =>
    refine ⟨_, rfl, ?_⟩
    cases hget : schedulerGetNext k with
    | none => exact ⟨runs, live, h⟩
    | some found =>
      obtain ⟨k', next⟩ := found
      exact ⟨runs, live, h.getNext hget⟩
  | sleep t ticks => exact ⟨_, rfl, runs, live, h.standing (standing_schedulerSleep ticks)⟩
  | wake t result => exact ⟨_, rfl, runs, live, h.standing (standing_wakeSection result)⟩
  | enter op cur => exact ⟨_, rfl, runs, live, h.standing (standing_enter op cur)⟩
  | tick => exact ⟨_, rfl, runs, live, h.standing standing_sysTickHandler⟩

end Roster

theorem roster_reset (L : Layout) (heapMem ram : ByteMemory.Memory) :
    Roster L (Kernel.reset heapMem ram) (fun _ => []) [] := by
  constructor
  · exact fun _ => rfl
  · intro _ t ht
    cases ht
  · exact fun _ => Nat.zero_lt_succ 7
  · exact fun _ => iff_of_false Bool.false_ne_true List.not_mem_nil
  · intro _ t ht
    cases ht
  · exact Nat.two_pow_pos 8
  · intro pr _
    exact ⟨fun hbit => by simp [Kernel.reset] at hbit, fun hne => absurd rfl hne⟩
  · exact Or.inl ⟨rfl, rfl⟩
  · intro t ht
    cases ht
  · exact fun _ _ => rfl
  · intro t _ ht
    cases ht

theorem roster_run {L : Layout} (hL : L.heap.Placed) {k : Kernel} {runs : Nat → List Tid}
    {live : List Nat} (h : Roster L k runs live) (ops : List RosterOp) :
    ∃ k', run (RosterOp.perform L) k ops = some k' ∧ ∃ runs' live', Roster L k' runs' live' := by
  induction ops generalizing k runs live with
  | nil => exact ⟨k, rfl, runs, live, h⟩
  | cons op ops ih =>
    obtain ⟨k₁, hstep, runs₁, live₁, h₁⟩ := h.perform hL op
    obtain ⟨k₂, hrun, hr⟩ := ih h₁
    exact ⟨k₂, run_cons.mpr ⟨k₁, hstep, hrun⟩, hr⟩

/-- Every run of these calls after `task_init` goes through, and ends with a pool,
lists, a mask and cursors that agree with each other. -/
theorem scheduler_structure (L : Layout) (hL : L.heap.Placed) (heapMem ram : ByteMemory.Memory)
    (ops : List RosterOp) :
    ∃ k, run (RosterOp.perform L) (Kernel.reset heapMem ram) ops = some k ∧
      ∃ runs, k.Structured runs := by
  obtain ⟨k, hrun, runs, live, hr⟩ := roster_run hL (roster_reset L heapMem ram) ops
  exact ⟨k, hrun, runs, hr.structured⟩

/-- A rejected creation, two tasks of one priority, and the first of them deleted twice. -/
theorem scheduler_structure_deleted_twice :
    ∃ k, run (RosterOp.perform (linkerLayout 0x20001000)) (Kernel.reset (fun _ => 0) fun _ => 0)
        [.create ⟨0x08001000, 9, 512, 0⟩, .create ⟨0x08001000, 1, 512, 0⟩,
          .create ⟨0x08002000, 1, 64, 0⟩, .getNext, .sleep 1 5, .delete 0, .delete 0, .tick] =
        some k ∧ ∃ runs, k.Structured runs :=
  scheduler_structure (linkerLayout 0x20001000)
    (linkerLayout_placed 0x20001000 (by decide) (by decide)).1 _ _ _

end Crest
