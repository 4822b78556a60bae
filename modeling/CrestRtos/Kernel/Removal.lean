import CrestRtos.Kernel.Rounds

/-!
# Task removal

`scheduler_remove_task` and `task_delete`. The control block of a deleted task
goes back to the pool with its fields as they are, apart from its link and its
stack, and can be deleted again without effect.
-/

namespace Crest
open IntrusiveList MachineWord Alloc

/-- Take `t` off the priority list, looking for it from the head. -/
def unlinkTask (k : Kernel) (pr : Nat) (t : Tid) : Kernel :=
  let (cur, prev) := searchFrom k.next t maxTasks (k.taskList pr) none
  if cur = some t then
    let k := match prev with
      | some p => k.setTcb p fun tcb => { tcb with next := k.next t }
      | none => { k with taskList := Function.update k.taskList pr (k.next t) }
    k.setTcb t fun tcb => { tcb with next := none }
  else k

/-- A cursor that points to `t` is cleared, and the next search starts at the head. -/
def dropCursor (k : Kernel) (t : Tid) : Kernel :=
  let priority := (k.tcb t).priority
  if k.rrCurrent priority = some t then
    { k with rrCurrent := Function.update k.rrCurrent priority none }
  else k

/-- The bit of an empty list is cleared. -/
def dropBit (k : Kernel) (pr : Nat) : Kernel :=
  if k.taskList pr = none then { k with priorityMask := andNot k.priorityMask (1 <<< pr) } else k

def schedulerRemoveTask (k : Kernel) (t : Tid) : Kernel :=
  let priority := (k.tcb t).priority
  dropBit (unlinkTask (dropCursor k t) priority t) priority

def taskDelete (L : Layout) (k : Kernel) (t : Tid) : Option Kernel :=
  let k := schedulerRemoveTask k t
  if (k.tcb t).stackAlloc ≠ 0 then
    (free L k.heap (k.tcb t).stackAlloc).map fun heap =>
      let k := { k with heap := heap }.setTcb t fun tcb =>
        { tcb with stackAlloc := 0, stackBase := 0 }
      freeTcb k t
  else some (freeTcb k t)

/-- The links of the run lists left out. -/
def Kernel.offLists (k : Kernel) : Kernel :=
  { k with tcb := fun t => { k.tcb t with next := none }, taskList := fun _ => none }

section Unlink
variable {k : Kernel} {t : Tid} {pr : Nat} {runs : Nat → List Tid}

theorem next_setTcb (k : Kernel) (t : Tid) (v : Option Tid) :
    (k.setTcb t fun tcb => { tcb with next := v }).next = Function.update k.next t v := by
  funext u
  by_cases hu : u = t
  · subst hu
    rw [Function.update_self, Kernel.next, setTcb_tcb_same]
  · rw [Function.update_of_ne hu, Kernel.next, setTcb_tcb_of_ne k _ hu]
    rfl

theorem offLists_setNext (k : Kernel) (t : Tid) (v : Option Tid) :
    (k.setTcb t fun tcb => { tcb with next := v }).offLists = k.offLists := by
  have htcb : (fun u => ({ (k.setTcb t fun tcb => { tcb with next := v }).tcb u with
      next := none } : Tcb)) = k.offLists.tcb := by
    funext u
    by_cases hu : u = t
    · subst hu
      rw [setTcb_tcb_same]
      rfl
    · rw [setTcb_tcb_of_ne k _ hu]
      rfl
  exact congrArg (fun g => { k.offLists with tcb := g }) htcb

theorem offLists_unlinkTask (k : Kernel) (pr : Nat) (t : Tid) :
    (unlinkTask k pr t).offLists = k.offLists := by
  rw [unlinkTask]
  generalize searchFrom k.next t maxTasks (k.taskList pr) none = found
  obtain ⟨cur, prev⟩ := found
  by_cases hcur : cur = some t
  · simp only [if_pos hcur]
    rw [offLists_setNext]
    cases prev with
    | none => rfl
    | some p => exact offLists_setNext k p _
  · simp only [if_neg hcur]

theorem runs_length (hl : Linked k.next (k.taskList pr) (runs pr)) :
    (runs pr).length ≤ maxTasks := by
  have hcard := (linked_nodup hl).length_le_card
  simpa [maxTasks] using hcard

/-- The list loses `t`, and the other lists stay as they are. -/
theorem linked_unlinkTask (pr : Nat) (t : Tid) (hl : ∀ p, Linked k.next (k.taskList p) (runs p))
    (hapart : ∀ p q x, x ∈ runs p → x ∈ runs q → p = q) (p : Nat) :
    Linked (unlinkTask k pr t).next ((unlinkTask k pr t).taskList p)
      (Function.update runs pr ((runs pr).erase t) p) := by
  by_cases ht : t ∈ runs pr
  · obtain ⟨front, back, hsplit⟩ := List.append_of_mem ht
    have hlist := hl pr
    rw [hsplit] at hlist
    have hlen := runs_length (hl pr)
    rw [hsplit, List.length_append, List.length_cons] at hlen
    have hfront : t ∉ front := fun hmem =>
      (List.nodup_append.mp (linked_nodup hlist)).2.2 t hmem t List.mem_cons_self rfl
    have herase : (runs pr).erase t = front ++ back := by
      rw [hsplit, List.erase_append_right _ hfront, List.erase_cons_head]
    have hother : ∀ x, x ∈ runs pr → ∀ q, q ≠ pr → x ∉ runs q :=
      fun x hx q hq hin => hq (hapart q pr x hin hx)
    have hsplice := linked_splice hlist
    rw [unlinkTask, searchFrom_found maxTasks none hlist (by omega), herase]
    simp only [if_true, next_setTcb]
    cases hprev : front.getLast? with
    | none =>
      simp only [lastOr, hprev, Option.or_none] at hsplice ⊢
      change Linked (Function.update k.next t none)
        (Function.update k.taskList pr (k.next t) p) _
      by_cases hp : p = pr
      · subst hp
        rw [Function.update_self, Function.update_self]
        exact hsplice
      · rw [Function.update_of_ne hp, Function.update_of_ne hp,
          linked_update_of_notMem (hother t ht p hp)]
        exact hl p
    | some q =>
      have hq : q ∈ runs pr := hsplit ▸ List.mem_append_left _ (List.mem_of_getLast? hprev)
      simp only [lastOr, hprev, Option.some_or, next_setTcb] at hsplice ⊢
      change Linked (Function.update (Function.update k.next q (k.next t)) t none)
        (k.taskList p) _
      by_cases hp : p = pr
      · subst hp
        rw [Function.update_self]
        exact hsplice
      · rw [Function.update_of_ne hp, linked_update_of_notMem (hother t ht p hp),
          linked_update_of_notMem (hother q hq p hp)]
        exact hl p
  · have hmissing := searchFrom_missing maxTasks none (hl pr) ht (runs_length (hl pr))
    have hsame : unlinkTask k pr t = k := by
      rw [unlinkTask]
      generalize searchFrom k.next t maxTasks (k.taskList pr) none = found at hmissing
      obtain ⟨cur, prev⟩ := found
      obtain rfl : cur = none := hmissing
      rfl
    rw [hsame, List.erase_of_not_mem ht, Function.update_eq_self]
    exact hl p

/-- The kernel once `t` has been taken off the list `runs pr` of its priority. -/
structure Removed (k k' : Kernel) (t : Tid) (pr : Nat) (runs : Nat → List Tid) : Prop where
  linked : ∀ p, Linked k'.next (k'.taskList p) (Function.update runs pr ((runs pr).erase t) p)
  tcb : ∀ x, ({ k'.tcb x with next := none } : Tcb) = { k.tcb x with next := none }
  cursor : ∀ p, k'.rrCurrent p = if p = pr ∧ k.rrCurrent p = some t then none else k.rrCurrent p
  mask : k'.priorityMask =
    if (runs pr).erase t = [] then andNot k.priorityMask (1 <<< pr) else k.priorityMask
  rest : { k' with
    tcb := k.tcb
    taskList := k.taskList
    rrCurrent := k.rrCurrent
    priorityMask := k.priorityMask } = k

theorem dropCursor_rrCurrent (k : Kernel) (t : Tid) (p : Nat) :
    (dropCursor k t).rrCurrent p =
      if p = (k.tcb t).priority ∧ k.rrCurrent p = some t then none else k.rrCurrent p := by
  rw [dropCursor]
  by_cases hc : k.rrCurrent (k.tcb t).priority = some t
  · rw [if_pos hc]
    by_cases hp : p = (k.tcb t).priority
    · subst hp
      simp [hc]
    · simp [hp]
  · rw [if_neg hc]
    by_cases hp : p = (k.tcb t).priority
    · subst hp
      simp [hc]
    · simp [hp]

theorem schedulerRemoveTask_removed (hl : ∀ p, Linked k.next (k.taskList p) (runs p))
    (hapart : ∀ p q x, x ∈ runs p → x ∈ runs q → p = q) :
    Removed k (schedulerRemoveTask k t) t (k.tcb t).priority runs := by
  have hdrop : (dropCursor k t).next = k.next ∧ (dropCursor k t).taskList = k.taskList ∧
      (dropCursor k t).tcb = k.tcb ∧ { dropCursor k t with rrCurrent := k.rrCurrent } = k := by
    rw [dropCursor]
    by_cases hc : k.rrCurrent (k.tcb t).priority = some t
    · rw [if_pos hc]
      exact ⟨rfl, rfl, rfl, rfl⟩
    · rw [if_neg hc]
      exact ⟨rfl, rfl, rfl, rfl⟩
  have hcursor := dropCursor_rrCurrent k t
  obtain ⟨hnext, hlist, htcb, hrest⟩ := hdrop
  rw [schedulerRemoveTask]
  generalize dropCursor k t = k₁ at *
  have hlinked := linked_unlinkTask (k := k₁) (k.tcb t).priority t
    (by rw [hnext, hlist]; exact hl) hapart
  have hoff := offLists_unlinkTask k₁ (k.tcb t).priority t
  generalize unlinkTask k₁ (k.tcb t).priority t = k₂ at *
  have hempty : k₂.taskList (k.tcb t).priority = none ↔ (runs (k.tcb t).priority).erase t = [] := by
    have hpr := hlinked (k.tcb t).priority
    rw [Function.update_self] at hpr
    constructor
    · intro hnone
      rw [hnone] at hpr
      exact linked_none_iff.mp hpr
    · intro hnil
      rw [hnil] at hpr
      exact linked_nil.mp hpr
  have htcb₂ : ∀ x, ({ k₂.tcb x with next := none } : Tcb) = { k.tcb x with next := none } := by
    intro x
    rw [← htcb]
    exact (congrFun (congrArg Kernel.tcb hoff) x :)
  have hrr : k₂.rrCurrent = k₁.rrCurrent := (congrArg Kernel.rrCurrent hoff :)
  have hmask : k₂.priorityMask = k.priorityMask := by
    rw [← (congrArg Kernel.priorityMask hrest :)]
    exact (congrArg Kernel.priorityMask hoff :)
  have hkeep : ∀ m, ({ k₂ with
      tcb := k.tcb
      taskList := k.taskList
      rrCurrent := k.rrCurrent
      priorityMask := m } : Kernel) =
      { k with priorityMask := m } := by
    intro m
    have h₂ := congrArg (fun k' : Kernel => ({ k' with
      tcb := k.tcb, taskList := k.taskList, rrCurrent := k.rrCurrent, priorityMask := m } : Kernel))
      hoff
    have h₁ := congrArg (fun k' : Kernel => ({ k' with
      tcb := k.tcb, taskList := k.taskList, rrCurrent := k.rrCurrent, priorityMask := m } : Kernel))
      hrest
    exact h₂.trans h₁
  rw [dropBit]
  by_cases hnone : k₂.taskList (k.tcb t).priority = none
  · rw [if_pos hnone]
    refine ⟨hlinked, htcb₂, fun p => ?_, ?_, hkeep k.priorityMask⟩
    · exact (congrFun hrr p).trans (hcursor p)
    · rw [if_pos (hempty.mp hnone), ← hmask]
  · rw [if_neg hnone]
    refine ⟨hlinked, htcb₂, fun p => ?_, ?_, hkeep k.priorityMask⟩
    · exact (congrFun hrr p).trans (hcursor p)
    · rw [if_neg fun hnil => hnone (hempty.mpr hnil), hmask]

end Unlink

end Crest
