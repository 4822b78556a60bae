import CrestRtos.Kernel.State
import Mathlib.Data.List.FinRange

/-!
# Task creation

`task_create` in the order of the source: a free control block, one allocation
for guard, slack and stack, the initial frame, and the insertion into the
priority list. The task's name is left out. The parts are separate definitions
because other tasks can run between them.
-/

namespace Crest
open ByteMemory MachineWord Alloc Port

structure TaskArgs where
  taskFunction : Nat
  priority : Nat
  stackSize : Nat
  arg : Nat
  deriving DecidableEq, Repr

/-- The first slot of `tcb_used` that is clear, now set. -/
def getFreeTcb (k : Kernel) : Option (Kernel × Tid) :=
  match (List.finRange 8).find? (fun i => !k.tcbUsed i) with
  | none => none
  | some t => some ({ k with tcbUsed := Function.update k.tcbUsed t true }, t)

def freeTcb (k : Kernel) (t : Tid) : Kernel :=
  { k with tcbUsed := Function.update k.tcbUsed t false }

def nextPowerOfTwo (v : Nat) : Nat :=
  if v = 0 then 32
  else if v ≤ 32 then 32
  else
    let v := v - 1
    let v := v ||| v >>> 1
    let v := v ||| v >>> 2
    let v := v ||| v >>> 4
    let v := v ||| v >>> 8
    let v := v ||| v >>> 16
    wrap (v + 1)

/-- `*(--sp) = v` for each word in turn. -/
def pushWords (ram : Memory) (sp : Nat) : List Nat → Memory × Nat
  | [] => (ram, sp)
  | v :: vs => pushWords (write32 ram (sp - 4) v) (sp - 4) vs

/-- The exception frame, then R4-R11 as zeros. -/
def stackInit (ram : Memory) (stackBase stackSize taskFn arg : Nat) : Memory × Nat :=
  let top := andNot (wrap (stackBase + stackSize)) 7
  pushWords ram top ([0x01000000, taskFn, 0xFFFFFFFD, 0, 0, 0, 0, arg] ++ List.replicate 8 0)

/-- The bytes requested for a stack of `size` with guard and alignment slack. -/
def stackAllocSize (size : Nat) : Nat := size + portStackGuardSize + (size - 1)

def stackBaseFor (alloc size : Nat) : Nat :=
  andNot (wrap (alloc + portStackGuardSize + (size - 1))) (size - 1)

/-- Canary, cleared control block and its fields, for the allocation `alloc`. -/
def initTcb (k : Kernel) (t : Tid) (alloc : Nat) (args : TaskArgs) : Kernel :=
  let size := nextPowerOfTwo args.stackSize
  let base := stackBaseFor alloc size
  let (ram, sp) := stackInit (write32 k.ram alloc 0xDEADBEEF) base size args.taskFunction args.arg
  { k with ram := ram }.setTcb t fun _ =>
    { Tcb.zero with
      stackBase := base
      stackAlloc := alloc
      stackSize := size
      stackPointer := sp
      savedR0 := args.arg
      state := .ready
      priority := args.priority
      taskFunction := args.taskFunction
      arg := args.arg }

def schedulerAddTask (k : Kernel) (t : Tid) : Kernel :=
  let priority := (k.tcb t).priority
  let k := k.setTcb t fun tcb => { tcb with next := k.taskList priority }
  portTriggerPendsv { k with
    taskList := Function.update k.taskList priority (some t)
    priorityMask := k.priorityMask ||| 1 <<< priority }

/-- The arguments that are not rejected at once. -/
def TaskArgs.accepted (args : TaskArgs) : Bool :=
  args.priority < maxTaskPriorities && args.stackSize ≠ 0 &&
    args.stackSize ≤ maxTaskStackSize

/-- The call gets as far as its request for memory. -/
def Kernel.AsksMemory (k : Kernel) (args : TaskArgs) : Prop :=
  args.accepted = true ∧ ∃ t, k.tcbUsed t = false

def taskCreate (L : Layout) (k : Kernel) (args : TaskArgs) : Option (Kernel × Option Tid) :=
  if args.accepted = false then some (k, none)
  else
    match getFreeTcb k with
    | none => some (k, none)
    | some (k, t) =>
      match malloc L k.heap (stackAllocSize (nextPowerOfTwo args.stackSize)) with
      | none => none
      | some (heap, alloc) =>
        let k := { k with heap := heap }
        if alloc = 0 then some (freeTcb k t, none)
        else some (schedulerAddTask (initTcb k t alloc args) t, some t)

/-- Every accepted stack size is rounded up to one of five powers of two. -/
theorem nextPowerOfTwo_spec {v : Nat} (hv : v ≤ maxTaskStackSize) :
    ∃ n, 5 ≤ n ∧ n ≤ 9 ∧ nextPowerOfTwo v = 2 ^ n ∧ v ≤ 2 ^ n := by
  have hall : ∀ w : Fin 513, ∃ n : Fin 10, 5 ≤ n.val ∧ nextPowerOfTwo w.val = 2 ^ n.val ∧
      w.val ≤ 2 ^ n.val := by decide +kernel
  obtain ⟨n, hlo, heq, hle⟩ := hall ⟨v, Nat.lt_succ_of_le hv⟩
  exact ⟨n.val, hlo, by omega, heq, hle⟩

theorem getFreeTcb_some {k k' : Kernel} {t : Tid} (h : getFreeTcb k = some (k', t)) :
    k.tcbUsed t = false ∧ k' = { k with tcbUsed := Function.update k.tcbUsed t true } := by
  rw [getFreeTcb] at h
  cases hfind : (List.finRange 8).find? (fun i => !k.tcbUsed i) with
  | none =>
    rw [hfind] at h
    cases h
  | some x =>
    rw [hfind] at h
    obtain ⟨rfl, rfl⟩ := Prod.mk.inj (Option.some.inj h)
    have hfree := List.find?_some hfind
    exact ⟨by simpa using hfree, rfl⟩

theorem getFreeTcb_none {k : Kernel} (h : getFreeTcb k = none) (t : Tid) : k.tcbUsed t = true := by
  rw [getFreeTcb] at h
  cases hfind : (List.finRange 8).find? (fun i => !k.tcbUsed i) with
  | none => simpa using List.find?_eq_none.mp hfind t (List.mem_finRange t)
  | some x =>
    rw [hfind] at h
    cases h

/-- A call changes nothing, or the heap alone, or it links a new task in. -/
theorem taskCreate_cases {L : Layout} {k k' : Kernel} {args : TaskArgs} {created : Option Tid}
    (h : taskCreate L k args = some (k', created)) :
    (¬ k.AsksMemory args ∧ created = none ∧ k' = k) ∨
    ∃ t heap alloc, args.accepted = true ∧ k.tcbUsed t = false ∧
      malloc L k.heap (stackAllocSize (nextPowerOfTwo args.stackSize)) = some (heap, alloc) ∧
      ((alloc = 0 ∧ created = none ∧ k' = { k with heap := heap }) ∨
        (alloc ≠ 0 ∧ created = some t ∧ k' = schedulerAddTask (initTcb { k with
          heap := heap
          tcbUsed := Function.update k.tcbUsed t true } t alloc args) t)) := by
  rw [taskCreate] at h
  by_cases hacc : args.accepted = false
  · rw [if_pos hacc] at h
    obtain ⟨rfl, rfl⟩ := Prod.mk.inj (Option.some.inj h)
    refine Or.inl ⟨?_, rfl, rfl⟩
    rintro ⟨hyes, _⟩
    rw [hacc] at hyes
    cases hyes
  rw [if_neg hacc] at h
  cases hfree : getFreeTcb k with
  | none =>
    rw [hfree] at h
    obtain ⟨rfl, rfl⟩ := Prod.mk.inj (Option.some.inj h)
    refine Or.inl ⟨?_, rfl, rfl⟩
    rintro ⟨_, t, ht⟩
    rw [getFreeTcb_none hfree t] at ht
    cases ht
  | some found =>
    obtain ⟨k₁, t⟩ := found
    obtain ⟨hunused, rfl⟩ := getFreeTcb_some hfree
    simp only [hfree] at h
    cases hmalloc : malloc L k.heap (stackAllocSize (nextPowerOfTwo args.stackSize)) with
    | none =>
      rw [hmalloc] at h
      cases h
    | some r =>
      obtain ⟨heap, alloc⟩ := r
      simp only [hmalloc] at h
      refine Or.inr ⟨t, heap, alloc, by simpa using hacc, hunused, rfl, ?_⟩
      by_cases hnull : alloc = 0
      · rw [if_pos hnull] at h
        obtain ⟨rfl, rfl⟩ := Prod.mk.inj (Option.some.inj h)
        refine Or.inl ⟨hnull, rfl, ?_⟩
        rw [freeTcb, Function.update_idem, ← hunused, Function.update_eq_self]
      · rw [if_neg hnull] at h
        obtain ⟨rfl, rfl⟩ := Prod.mk.inj (Option.some.inj h)
        exact Or.inr ⟨hnull, rfl, rfl⟩

/-- What a successful call has done: the control block is the one built by
`initTcb` for the payload that `malloc` returned. -/
theorem taskCreate_some {L : Layout} {k k' : Kernel} {args : TaskArgs} {t : Tid}
    (h : taskCreate L k args = some (k', some t)) :
    args.accepted = true ∧ ∃ heap alloc,
      malloc L k.heap (stackAllocSize (nextPowerOfTwo args.stackSize)) = some (heap, alloc) ∧
      alloc ≠ 0 ∧ (k'.tcb t).stackSize = nextPowerOfTwo args.stackSize ∧
      (k'.tcb t).stackBase = stackBaseFor alloc (nextPowerOfTwo args.stackSize) := by
  rcases taskCreate_cases h with ⟨_, hnone, _⟩ | ⟨u, heap, alloc, hacc, _, hmalloc, hrest⟩
  · cases hnone
  · rcases hrest with ⟨_, hnone, _⟩ | ⟨hnull, hu, rfl⟩
    · cases hnone
    · obtain rfl := Option.some.inj hu
      refine ⟨hacc, heap, alloc, hmalloc, hnull, ?_, ?_⟩ <;>
        simp [schedulerAddTask, initTcb, portTriggerPendsv]

end Crest
