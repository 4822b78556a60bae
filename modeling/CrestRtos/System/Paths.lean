import CrestRtos.System.Changes
import CrestRtos.System.Clock

/-!
# Two paths of a call

Privileged code runs the kernel function itself; unprivileged code traps, and the
worker runs it for the caller. `Call.direct` and `served` are the critical
sections that the two paths come to, each from the same kernel state.
-/

namespace Crest
open MachineWord Alloc

/-- The system call of a stub in `syscall_api.c`, with its registers. -/
def Call.item (t : Tid) : Call → Option WorkItem
  | .semTake h ms => some ⟨syscallSemWait, h, ms, 0, 0, t⟩
  | .semGive h => some ⟨syscallSemPost, h, 0, 0, 0, t⟩
  | .mutexLock h ms => some ⟨syscallMutexLock, h, ms, 0, 0, t⟩
  | .mutexUnlock h => some ⟨syscallMutexUnlock, h, 0, 0, 0, t⟩
  | .queuePush h item ms => some ⟨syscallQueueSend, h, item, ms, 0, t⟩
  | .queuePop h item ms => some ⟨syscallQueueRecv, h, item, ms, 0, t⟩
  | .taskDelay ticks => some ⟨syscallDelay, ticks, 0, 0, 0, t⟩
  | .create (.queue itemSize size) => some ⟨syscallQueueCreate, itemSize, size, 0, 0, t⟩
  | .create (.sem initial) => some ⟨syscallSemCreate, initial, 0, 0, 0, t⟩
  | .create .mutex => some ⟨syscallMutexCreate, 0, 0, 0, 0, t⟩
  | _ => none

/-- A lookup, and the section of the call if there is an object. -/
def objectSection (k : Kernel) (u : Tid) (handle : Nat) (type : KobjType) (f : Nat → Op)
    (missing : Nat) : Kernel × Outcome :=
  match kObjGet k handle type with
  | none => (k, .ret missing)
  | some p => (f p).enter k u

/-- A call of `t` on an object, made directly. -/
def Call.direct (k : Kernel) (t : Tid) : Call → Kernel × Outcome
  | .semTake h ms => objectSection k t h .sem (fun p => .semTake p ms) minusOne
  | .semGive h => objectSection k t h .sem .semGive 0
  | .mutexLock h ms => objectSection k t h .mutex (fun p => .mutexLock p ms) minusOne
  | .mutexUnlock h => objectSection k t h .mutex .mutexUnlock 0
  | .queuePush h item ms => objectSection k t h .queue (fun p => .queuePush p item ms) minusOne
  | .queuePop h item ms => objectSection k t h .queue (fun p => .queuePop p item ms) minusOne
  | _ => (k, .ret 0)

/-- An item that asks for a call on an object, served by `w`. -/
def served (k : Kernel) (w : Tid) (item : WorkItem) : Kernel × Outcome :=
  match decode k item with
  | .complete v => (k, .ret v)
  | .call op => op.enter k w
  | _ => (k, .ret 0)

/-- The result that a call is bound to return behind its section; a blocked call has
none yet. -/
def Outcome.result : Outcome → Option Nat
  | .ret v => some v
  | .wake _ v => some v
  | .pend v => some v
  | .block => none

/-- The calls that begin with the lookup of a handle. -/
def Call.onObject : Call → Bool
  | .semTake _ _ => true
  | .semGive _ => true
  | .mutexLock _ _ => true
  | .mutexUnlock _ => true
  | .queuePush _ _ _ => true
  | .queuePop _ _ _ => true
  | _ => false

/-- The code of `u` runs on without interruption. -/
inductive Goes (L : Layout) (u : Tid) : Sys → Sys → Prop
  | refl (s : Sys) : Goes L u s s
  | step {s s' s'' : Sys} (h : s.go L u = some s') (hrest : Goes L u s' s'') : Goes L u s s''

section Paths
variable {L : Layout} {s : Sys} {t u w : Tid}

/-- Behind a section with this outcome, in the call of `u` for `r`. -/
def Sys.Behind (s : Sys) (u : Tid) (r : Ret) (done : Kernel × Outcome) (s' : Sys) : Prop :=
  ∃ op notes, s' = (({ s with k := done.1 } : Sys).note notes).settle u op r done.2

theorem callObject_goes (handle : Nat) (type : KobjType) (f : Nat → Op) (missing : Nat) :
    ∃ s', Goes L u (s.callObject u handle type f missing) s' ∧
      s.Behind u .app (objectSection s.k u handle type f missing) s' := by
  rw [Sys.callObject, objectSection]
  cases kObjGet s.k handle type with
  | none => exact ⟨_, .refl _, f 0, [], rfl⟩
  | some p =>
    refine ⟨_, .step ?_ (.refl _), f p, _, runOp_eq s u (f p) .app⟩
    have hgo : (s.setPc u (.enter (f p) .app)).go L u =
        some ((s.setPc u (.enter (f p) .app)).runOp u (f p) .app) := by
      simp only [Sys.go, Sys.setPc, Function.update_self]
    rw [hgo, runOp_setPc]

/-- A direct call comes to its section. -/
theorem direct_goes {c : Call} (hc : c.onObject = true) :
    ∃ s', Goes L t (s.call t c) s' ∧ s.Behind t .app (c.direct s.k t) s' := by
  cases c with
  | semTake h ms => exact callObject_goes _ _ _ _
  | semGive h => exact callObject_goes _ _ _ _
  | mutexLock h ms => exact callObject_goes _ _ _ _
  | mutexUnlock h => exact callObject_goes _ _ _ _
  | queuePush h item ms => exact callObject_goes _ _ _ _
  | queuePop h item ms => exact callObject_goes _ _ _ _
  | _ => cases hc

/-- What the worker makes of a system call on an object. -/
theorem decode_item {k : Kernel} {c : Call} {item : WorkItem} (hc : c.onObject = true)
    (hitem : c.item t = some item) :
    item.caller = t ∧ ((∃ v, decode k item = .complete v) ∨ ∃ op, decode k item = .call op) := by
  have hlook : ∀ handle type f, (∀ p, ∃ op, f p = .call op) →
      (∃ v, withObject k handle type f = .complete v) ∨
        ∃ op, withObject k handle type f = .call op := by
    intro handle type f hf
    rw [withObject]
    cases kObjGet k handle type with
    | none => exact Or.inl ⟨_, rfl⟩
    | some p => exact Or.inr (hf p)
  cases c with
  | semTake h ms =>
    cases hitem
    exact ⟨rfl, hlook _ _ _ fun _ => ⟨_, rfl⟩⟩
  | semGive h =>
    cases hitem
    exact ⟨rfl, hlook _ _ _ fun _ => ⟨_, rfl⟩⟩
  | mutexLock h ms =>
    cases hitem
    exact ⟨rfl, hlook _ _ _ fun _ => ⟨_, rfl⟩⟩
  | mutexUnlock h =>
    cases hitem
    exact ⟨rfl, hlook _ _ _ fun _ => ⟨_, rfl⟩⟩
  | queuePush h item ms =>
    cases hitem
    exact ⟨rfl, hlook _ _ _ fun _ => ⟨_, rfl⟩⟩
  | queuePop h item ms =>
    cases hitem
    exact ⟨rfl, hlook _ _ _ fun _ => ⟨_, rfl⟩⟩
  | _ => cases hc

/-- The worker comes to the same section for the caller of a system call. -/
theorem served_goes {c : Call} {item : WorkItem} (hc : c.onObject = true)
    (hitem : c.item t = some item) :
    ∃ s', Goes L w (s.dispatch w item) s' ∧ s.Behind w (.serve t) (served s.k w item) s' := by
  obtain ⟨rfl, hdec⟩ := decode_item (k := s.k) hc hitem
  rw [Sys.dispatch, served]
  rcases hdec with ⟨v, hdec⟩ | ⟨op, hdec⟩
  · rw [hdec]
    exact ⟨_, .refl _, .delay 0, [], rfl⟩
  · rw [hdec]
    refine ⟨_, .step ?_ (.refl _), op, _, runOp_eq s w op _⟩
    have hgo : (s.setPc w (.enter op (.serve item.caller))).go L w =
        some ((s.setPc w (.enter op (.serve item.caller))).runOp w op (.serve item.caller)) := by
      simp only [Sys.go, Sys.setPc, Function.update_self]
    rw [hgo, runOp_setPc]

theorem Sys.Behind.k_eq {s' : Sys} {r : Ret} {done : Kernel × Outcome}
    (h : s.Behind u r done s') : s'.k = done.1 := by
  obtain ⟨op, notes, rfl⟩ := h
  exact settle_k _ u op r done.2

/-- The call of `u` for `r` is over with `v`, or comes to that end. -/
def Sys.BoundTo (s : Sys) (u : Tid) (r : Ret) (v : Nat) : Prop :=
  s.pc u = r.next v ∨ (∃ x, s.pc u = .wake x 0 (.ret r v)) ∨ s.pc u = .pend (.ret r v)

theorem Sys.Behind.boundTo {s' : Sys} {r : Ret} {done : Kernel × Outcome} {v : Nat}
    (h : s.Behind u r done s') (hv : done.2.result = some v) : s'.BoundTo u r v := by
  obtain ⟨op, notes, rfl⟩ := h
  cases hout : done.2 with
  | ret v' =>
    rw [hout] at hv
    obtain rfl := Option.some.inj hv
    rw [Sys.settle, finish_eq]
    exact Or.inl (pc_setPc _ _ _)
  | wake x v' =>
    rw [hout] at hv
    obtain rfl := Option.some.inj hv
    exact Or.inr (Or.inl ⟨x, pc_setPc _ _ _⟩)
  | pend v' =>
    rw [hout] at hv
    obtain rfl := Option.some.inj hv
    exact Or.inr (Or.inr (pc_setPc _ _ _))
  | block =>
    rw [hout] at hv
    cases hv

/-- No step on the way to the end of a call changes its result. -/
theorem Sys.BoundTo.step {s' : Sys} {g : Ghost} {l : Label} {r : Ret} {v : Nat}
    (hb : s.BoundTo u r v) (h : Inv L s g) (hgoing : s.pc u ≠ r.next v)
    (hstep : s.step L l = some s') : s'.BoundTo u r v := by
  have hcode : (∃ x, s.pc u = .wake x 0 (.ret r v)) ∨ s.pc u = .pend (.ret r v) :=
    hb.resolve_left hgoing
  have hkeep : s'.pc u = s.pc u → s'.BoundTo u r v := fun hpc => by
    rw [Sys.BoundTo, hpc]
    exact hb
  obtain ⟨_, htick⟩ | ⟨oldSp, k, _, _, hrun, rfl⟩ | ⟨x, hpend, hcur, hthread⟩ := step_cases hstep
  · have hpc := (sysTick_frame s).1
    rw [← htick] at hpc
    exact hkeep (congrFun hpc u)
  · exact hkeep rfl
  · have hnot : s.pc u ≠ .app := by
      rcases hcode with ⟨x, hpc⟩ | hpc <;> rw [hpc] <;> simp
    by_cases hux : u = x
    · subst hux
      cases l with
      | go =>
        rw [Sys.thread] at hthread
        rcases hcode with ⟨y, hpc⟩ | hpc
        · simp only [Sys.go, hpc, Option.some.injEq] at hthread
          subst hthread
          exact Or.inr (Or.inr (Function.update_self _ _ _))
        · simp only [Sys.go, hpc, Option.some.injEq] at hthread
          subst hthread
          rw [Sys.proceed, finish_eq]
          exact Or.inl (Function.update_self _ _ _)
      | tick => cases hthread
      | pendSV oldSp => cases hthread
      | svc id a0 a1 a2 a3 => simp [Sys.thread, hnot] at hthread
      | call c => simp [Sys.thread, hnot] at hthread
      | compute r0 ram => simp [Sys.thread, hnot] at hthread
    · refine hkeep ((h.change hcur hpend hthread).pc h hux fun hfresh => hnot ?_)
      have hview := h.placed.task u
      rw [hfresh] at hview
      exact hview.pc

end Paths

end Crest
