import CrestRtos.System.Machine

/-!
# Steps of kernel code

`GoStep` has one case for every piece of code that a task can be in, with the state it
leads to. Every fact about all the kernel's code is one case analysis over it.
-/

namespace Crest
open Alloc

inductive GoStep (L : Layout) (s : Sys) (u : Tid) : Sys → Prop
  | svcRet (hpc : s.pc u = .svcRet) : GoStep L s u ((s.setPc u .app).note [.resumed u s.k.r0])
  | enter (op : Op) (r : Ret) (hpc : s.pc u = .enter op r) : GoStep L s u (s.runOp u op r)
  | retry (op : Op) (r : Ret) (hpc : s.pc u = .retry op r) : GoStep L s u
      ((s.note (op.waitList.toList.map fun w => .recheck w u)).runOp u op.again r)
  | block (op : Op) (r : Ret) (hpc : s.pc u = .block op r) : GoStep L s u
      ({ s with k := portTriggerPendsv s.k }.setPc u (.check op r))
  | check (op : Op) (r : Ret) (hpc : s.pc u = .check op r) : GoStep L s u (s.checkWait u op r)
  | wake (t : Tid) (v : Nat) (after : After) (hpc : s.pc u = .wake t v after) : GoStep L s u
      (({ s with k := wakeSection s.k t v }.note (answerNote s.k t v)).setPc u (.pend after))
  | pend (after : After) (hpc : s.pc u = .pend after) : GoStep L s u
      ({ s with k := portTriggerPendsv s.k }.proceed u after)
  | workerStart (hpc : s.pc u = .workerStart) : GoStep L s u
      ({ s with k := { s.k with kernelTcb := some u } }.setPc u .workerPop)
  | popNone (hpc : s.pc u = .workerPop) (hpop : kworkPopLocked s.k = none) :
      GoStep L s u (s.setPc u .workerSleep)
  | popSome (k : Kernel) (item : WorkItem) (hpc : s.pc u = .workerPop)
      (hpop : kworkPopLocked s.k = some (k, item)) : GoStep L s u
      (({ s with k := k }.note [.taken item]).setPc u (.dispatch item))
  | workerSleep (hpc : s.pc u = .workerSleep) : GoStep L s u
      ({ s with k := workerWait s.k }.setPc u (.pend .loop))
  | dispatch (item : WorkItem) (hpc : s.pc u = .dispatch item) : GoStep L s u (s.dispatch u item)
  | create (c : Creation) (r : Ret) (s' : Sys) (hpc : s.pc u = .create c r)
      (hrun : s.create L u c r = some s') : GoStep L s u s'
  | queueBuffer (p : Nat) (r : Ret) (k : Kernel) (ok : Bool) (hpc : s.pc u = .queueBuffer p r)
      (hrun : queueInitBuffer L s.k p = some (k, ok)) : GoStep L s u
      ({ s with k := k }.setPc u (if ok then .publish p .queue r else .queueFree p r))
  | queueFree (p : Nat) (r : Ret) (k : Kernel) (hpc : s.pc u = .queueFree p r)
      (hrun : queueFree L s.k p = some k) : GoStep L s u ({ s with k := k }.finish u r kobjInvalid)
  | publish (p : Nat) (type : KobjType) (r : Ret) (hpc : s.pc u = .publish p type r) :
      GoStep L s u ({ s with k := (kObjAlloc s.k p type).1 }.finish u r (kObjAlloc s.k p type).2)
  | spawnNone (args : TaskArgs) (hpc : s.pc u = .spawnTcb args) (hfree : getFreeTcb s.k = none) :
      GoStep L s u (s.finish u .app 0)
  | spawnTcb (args : TaskArgs) (k : Kernel) (t : Tid) (hpc : s.pc u = .spawnTcb args)
      (hfree : getFreeTcb s.k = some (k, t)) : GoStep L s u
      ({ s with k := k }.setPc u (.spawnStack t args))
  | spawnStack (t : Tid) (args : TaskArgs) (heap : Heap) (alloc : Nat)
      (hpc : s.pc u = .spawnStack t args)
      (hrun : malloc L s.k.heap (stackAllocSize (nextPowerOfTwo args.stackSize)) =
        some (heap, alloc)) : GoStep L s u
      ({ s with k := { s.k with heap := heap } }.setPc u
        (if alloc = 0 then .spawnFree t else .spawnAdd t alloc args))
  | spawnFree (t : Tid) (hpc : s.pc u = .spawnFree t) : GoStep L s u
      ({ s with k := freeTcb s.k t }.finish u .app 0)
  | spawnAdd (t : Tid) (alloc : Nat) (args : TaskArgs) (hpc : s.pc u = .spawnAdd t alloc args) :
      GoStep L s u (({ s with k := schedulerAddTask (initTcb s.k t alloc args) t }.setPc t
        .app).finish u .app 0)

theorem go_cases {L : Layout} {s s' : Sys} {u : Tid} (hstep : s.go L u = some s') :
    GoStep L s u s' := by
  cases hpc : s.pc u with
  | app =>
    simp only [Sys.go, hpc] at hstep
    cases hstep
  | idle =>
    simp only [Sys.go, hpc] at hstep
    cases hstep
  | svcRet =>
    simp only [Sys.go, hpc, Option.some.injEq] at hstep
    subst hstep
    exact .svcRet hpc
  | enter op r =>
    simp only [Sys.go, hpc, Option.some.injEq] at hstep
    subst hstep
    exact .enter op r hpc
  | retry op r =>
    simp only [Sys.go, hpc, Option.some.injEq] at hstep
    subst hstep
    exact .retry op r hpc
  | block op r =>
    simp only [Sys.go, hpc, Option.some.injEq] at hstep
    subst hstep
    exact .block op r hpc
  | check op r =>
    simp only [Sys.go, hpc, Option.some.injEq] at hstep
    subst hstep
    exact .check op r hpc
  | wake t v after =>
    simp only [Sys.go, hpc, Option.some.injEq] at hstep
    subst hstep
    exact .wake t v after hpc
  | pend after =>
    simp only [Sys.go, hpc, Option.some.injEq] at hstep
    subst hstep
    exact .pend after hpc
  | workerStart =>
    simp only [Sys.go, hpc, Option.some.injEq] at hstep
    subst hstep
    exact .workerStart hpc
  | workerPop =>
    cases hpop : kworkPopLocked s.k with
    | none =>
      simp only [Sys.go, hpc, hpop, Option.some.injEq] at hstep
      subst hstep
      exact .popNone hpc hpop
    | some found =>
      obtain ⟨k, item⟩ := found
      simp only [Sys.go, hpc, hpop, Option.some.injEq] at hstep
      subst hstep
      exact .popSome k item hpc hpop
  | workerSleep =>
    simp only [Sys.go, hpc, Option.some.injEq] at hstep
    subst hstep
    exact .workerSleep hpc
  | dispatch item =>
    simp only [Sys.go, hpc, Option.some.injEq] at hstep
    subst hstep
    exact .dispatch item hpc
  | create c r =>
    simp only [Sys.go, hpc] at hstep
    exact .create c r s' hpc hstep
  | queueBuffer p r =>
    simp only [Sys.go, hpc] at hstep
    obtain ⟨⟨k, ok⟩, hrun, rfl⟩ := Option.map_eq_some_iff.mp hstep
    exact .queueBuffer p r k ok hpc hrun
  | queueFree p r =>
    simp only [Sys.go, hpc] at hstep
    obtain ⟨k, hrun, rfl⟩ := Option.map_eq_some_iff.mp hstep
    exact .queueFree p r k hpc hrun
  | publish p type r =>
    simp only [Sys.go, hpc, Option.some.injEq] at hstep
    subst hstep
    exact .publish p type r hpc
  | spawnTcb args =>
    cases hfree : getFreeTcb s.k with
    | none =>
      simp only [Sys.go, hpc, hfree, Option.some.injEq] at hstep
      subst hstep
      exact .spawnNone args hpc hfree
    | some found =>
      obtain ⟨k, t⟩ := found
      simp only [Sys.go, hpc, hfree, Option.some.injEq] at hstep
      subst hstep
      exact .spawnTcb args k t hpc hfree
  | spawnStack t args =>
    simp only [Sys.go, hpc] at hstep
    obtain ⟨⟨heap, alloc⟩, hrun, rfl⟩ := Option.map_eq_some_iff.mp hstep
    exact .spawnStack t args heap alloc hpc hrun
  | spawnFree t =>
    simp only [Sys.go, hpc, Option.some.injEq] at hstep
    subst hstep
    exact .spawnFree t hpc
  | spawnAdd t alloc args =>
    simp only [Sys.go, hpc, Option.some.injEq] at hstep
    subst hstep
    exact .spawnAdd t alloc args hpc

theorem finish_k (s : Sys) (u : Tid) (r : Ret) (v : Nat) : (s.finish u r v).k = s.k := by
  cases r <;> rfl

theorem settle_k (s : Sys) (u : Tid) (op : Op) (r : Ret) (out : Outcome) :
    (s.settle u op r out).k = s.k := by
  cases out with
  | ret v => exact finish_k s u r v
  | _ => rfl

theorem runOp_eq (s : Sys) (u : Tid) (op : Op) (r : Ret) :
    s.runOp u op r =
      ({ s with k := (op.enter s.k u).1 }.note
        (op.note s.k (op.enter s.k u).1 u (op.enter s.k u).2)).settle u op r
        (op.enter s.k u).2 := rfl

theorem runOp_k (s : Sys) (u : Tid) (op : Op) (r : Ret) :
    (s.runOp u op r).k = (op.enter s.k u).1 := settle_k _ u op r _

theorem finish_pc (s : Sys) (r : Ret) (v : Nat) {u x : Tid} (hx : x ≠ u) :
    (s.finish u r v).pc x = s.pc x := by
  cases r <;> exact Function.update_of_ne hx _ _

theorem settle_pc (s : Sys) (op : Op) (r : Ret) (out : Outcome) {u x : Tid} (hx : x ≠ u) :
    (s.settle u op r out).pc x = s.pc x := by
  cases out with
  | ret v => exact finish_pc s r v hx
  | _ => exact Function.update_of_ne hx _ _

theorem runOp_pc (s : Sys) (op : Op) (r : Ret) {u x : Tid} (hx : x ≠ u) :
    (s.runOp u op r).pc x = s.pc x :=
  (settle_pc _ op r _ hx).trans rfl

/-- The code of another task stays, unless a new task begins. -/
theorem go_pc_other {L : Layout} {s s' : Sys} {u x : Tid} (hstep : s.go L u = some s')
    (hx : x ≠ u) : s'.pc x = s.pc x ∨ s'.pc x = .app := by
  have hgo : ∀ {s : Sys} (p : Pc), (s.setPc u p).pc x = s.pc x := fun p =>
    Function.update_of_ne hx _ _
  cases go_cases hstep with
  | svcRet hpc => exact Or.inl (hgo _)
  | enter op r hpc => exact Or.inl (runOp_pc s op r hx)
  | retry op r hpc => exact Or.inl (runOp_pc _ _ r hx)
  | block op r hpc => exact Or.inl (hgo _)
  | check op r hpc =>
    left
    rw [Sys.checkWait]
    cases op.waitList with
    | none => rfl
    | some w =>
      simp only
      split
      · split
        · apply finish_pc _ _ _ hx
        · apply hgo
      · split
        · apply finish_pc _ _ _ hx
        · apply finish_pc _ _ _ hx
  | wake t v after hpc => exact Or.inl (hgo _)
  | pend after hpc =>
    left
    cases after with
    | ret r v => apply finish_pc _ _ _ hx
    | loop => apply hgo
  | workerStart hpc => exact Or.inl (hgo _)
  | popNone hpc hpop => exact Or.inl (hgo _)
  | popSome k item hpc hpop => exact Or.inl (hgo _)
  | workerSleep hpc => exact Or.inl (hgo _)
  | dispatch item hpc =>
    left
    rw [Sys.dispatch]
    cases decode s.k item <;> apply hgo
  | create c r s' hpc hrun =>
    left
    rw [Sys.create] at hrun
    obtain ⟨⟨k, p⟩, halloc, rfl⟩ := Option.map_eq_some_iff.mp hrun
    simp only
    split
    · apply finish_pc _ _ _ hx
    · cases c <;> apply hgo
  | queueBuffer p r k ok hpc hrun => exact Or.inl (hgo _)
  | queueFree p r k hpc hrun => exact Or.inl (finish_pc _ _ _ hx)
  | publish p type r hpc => exact Or.inl (finish_pc _ _ _ hx)
  | spawnNone args hpc hfree => exact Or.inl (finish_pc _ _ _ hx)
  | spawnTcb args k t hpc hfree => exact Or.inl (hgo _)
  | spawnStack t args heap alloc hpc hrun => exact Or.inl (hgo _)
  | spawnFree t hpc => exact Or.inl (finish_pc _ _ _ hx)
  | spawnAdd t alloc args hpc =>
    rw [finish_pc _ _ _ hx]
    by_cases hxt : x = t
    · subst hxt
      exact Or.inr (Function.update_self _ _ _)
    · exact Or.inl (Function.update_of_ne hxt _ _)

theorem call_pc_other (s : Sys) (c : Call) {u x : Tid} (hx : x ≠ u) :
    (s.call u c).pc x = s.pc x := by
  have hobject : ∀ handle type f missing,
      (s.callObject u handle type f missing).pc x = s.pc x := by
    intro handle type f missing
    rw [Sys.callObject]
    cases kObjGet s.k handle type with
    | none => apply finish_pc _ _ _ hx
    | some p => exact Function.update_of_ne hx _ _
  cases c with
  | semTake handle ms => apply hobject
  | semGive handle => apply hobject
  | mutexLock handle ms => apply hobject
  | mutexUnlock handle => apply hobject
  | queuePush handle item ms => apply hobject
  | queuePop handle item ms => apply hobject
  | taskCreate args =>
    rw [Sys.call]
    split
    · exact Function.update_of_ne hx _ _
    · apply finish_pc _ _ _ hx
  | setUnprivileged => rfl
  | _ => exact Function.update_of_ne hx _ _

end Crest
