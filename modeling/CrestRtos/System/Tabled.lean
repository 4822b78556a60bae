import CrestRtos.System.Clock
import CrestRtos.System.Estate
import CrestRtos.System.Runs

/-!
# Objects in use are in the handle table

Kernel code comes to an object by its handle and keeps it for the length of a call, and no
step takes an entry out of the table.
-/

namespace Crest
open Alloc Transition

/-- A handle leads to the object. -/
def Kernel.Enlists (k : Kernel) (a : Nat) (type : KobjType) : Prop :=
  ∃ i, (k.table i).inUse = true ∧ (k.table i).ptr = a ∧ (k.table i).type = type

/-- Code uses objects of the handle table only. -/
def Tabled (s : Sys) : Prop :=
  ∀ u a type, (s.pc u).object = some (a, type) → s.k.Enlists a type

section Tables
variable {P : Placement} {L : Layout} {s s' : Sys} {l : Label} {u : Tid} {k : Kernel} {a : Nat}
  {type : KobjType}

theorem Kernel.Enlists.publish (h : k.Enlists a type) (p : Nat) (type' : KobjType) :
    (kObjAlloc k p type').1.Enlists a type := by
  rcases kObjAlloc_cases k p type' with hk | ⟨j, hfree, hk⟩
  · rw [hk]
    exact h
  · obtain ⟨i, huse, hentry⟩ := h
    have hne : i ≠ j := by
      rintro rfl
      rw [huse] at hfree
      cases hfree
    rw [hk]
    refine ⟨i, ?_⟩
    simp only [Kernel.enlist, Function.update_of_ne hne]
    exact ⟨huse, hentry⟩

theorem kObjGet_enlists {handle : Nat} (h : kObjGet k handle type = some a) :
    k.Enlists a type := by
  obtain ⟨i, _, huse, htype, hptr⟩ := kObjGet_some h
  exact ⟨i, huse, hptr, htype⟩

/-- The table keeps its entries, and the code of `u` goes on with one of its objects. -/
theorem Tabled.frame (h : Tabled s) (hkeep : ∀ a type, s.k.Enlists a type → s'.k.Enlists a type)
    (hother : ∀ v, v ≠ u → s'.pc v = s.pc v ∨ s'.pc v = .app)
    (hself : ∀ a type, (s'.pc u).object = some (a, type) → s.k.Enlists a type) : Tabled s' := by
  intro v a type hv
  by_cases hvu : v = u
  · subst hvu
    exact hkeep a type (hself a type hv)
  · rcases hother v hvu with hsame | happ
    · rw [hsame] at hv
      exact hkeep a type (h v a type hv)
    · rw [happ] at hv
      cases hv

theorem Ret.next_object (r : Ret) (v : Nat) : (r.next v).object = none := by
  cases r <;> rfl

theorem finish_object (s : Sys) (u : Tid) (r : Ret) (v : Nat) :
    ((s.finish u r v).pc u).object = none := by
  rw [finish_eq]
  change (Function.update s.pc u (r.next v) u).object = none
  rw [Function.update_self]
  exact r.next_object v

theorem setPc_object (s : Sys) (u : Tid) (p : Pc) : ((s.setPc u p).pc u).object = p.object :=
  congrArg Pc.object (pc_setPc s u p)

theorem runOp_object (s : Sys) (u : Tid) (op : Op) (r : Ret) :
    ((s.runOp u op r).pc u).object = none ∨ ((s.runOp u op r).pc u).object = op.object := by
  rw [runOp_pc_self]
  cases (op.enter s.k u).2 with
  | ret v => exact Or.inl (r.next_object v)
  | block =>
    simp only
    split
    · exact Or.inr rfl
    · exact Or.inl rfl
  | wake t v => exact Or.inl rfl
  | pend v => exact Or.inl rfl

/-- Kernel code goes on with the object it is at, or with one that it looks up. -/
theorem go_object (hstep : s.go L u = some s') : (s'.pc u).object = none ∨
    (s'.pc u).object = (s.pc u).object ∨
    ∃ handle a type, kObjGet s.k handle type = some a ∧ (s'.pc u).object = some (a, type) := by
  have hmoved : ∀ {s : Sys} {p : Pc}, p.object = none → ((s.setPc u p).pc u).object = none :=
    fun {s p} hp => (setPc_object s u p).trans hp
  cases go_cases hstep with
  | enter op r hpc =>
    rw [hpc]
    exact (runOp_object s u op r).imp_right Or.inl
  | retry op r hpc =>
    rw [hpc]
    refine (runOp_object _ u op.again r).imp_right fun h => Or.inl (h.trans ?_)
    exact again_object op
  | block op r hpc =>
    rw [hpc]
    exact Or.inr (Or.inl (setPc_object _ u _))
  | check op r hpc =>
    rw [hpc, Sys.checkWait]
    cases op.waitList with
    | none => exact Or.inr (Or.inl (congrArg Pc.object hpc))
    | some w =>
      simp only
      split
      · split
        · exact Or.inl (finish_object s u r _)
        · exact Or.inr (Or.inl (setPc_object s u _))
      · split
        · exact Or.inl (finish_object _ u r _)
        · exact Or.inl (finish_object s u r _)
  | pend after hpc =>
    left
    cases after with
    | ret r v => exact finish_object _ u r v
    | loop => exact hmoved rfl
  | dispatch item hpc =>
    rw [Sys.dispatch]
    cases hdec : decode s.k item with
    | call op =>
      obtain ⟨_, handle, a, type, hget, hop⟩ := decode_call hdec
      exact Or.inr (Or.inr ⟨handle, a, type, hget, (setPc_object s u _).trans hop⟩)
    | _ => exact Or.inl (hmoved rfl)
  | create c r s' hpc hrun =>
    left
    rw [Sys.create] at hrun
    obtain ⟨⟨k, p⟩, halloc, rfl⟩ := Option.map_eq_some_iff.mp hrun
    simp only
    split
    · exact finish_object _ u r _
    · cases c <;> exact hmoved rfl
  | queueBuffer p r k ok hpc hrun =>
    left
    cases ok <;> exact hmoved rfl
  | queueFree p r k hpc hrun => exact Or.inl (finish_object _ u r _)
  | publish p type r hpc => exact Or.inl (finish_object _ u r _)
  | spawnNone args hpc hfree => exact Or.inl (finish_object s u .app 0)
  | spawnStack t args heap alloc hpc hrun =>
    left
    apply hmoved
    split <;> rfl
  | spawnFree t hpc => exact Or.inl (finish_object _ u .app 0)
  | spawnAdd t alloc args hpc => exact Or.inl (finish_object _ u .app 0)
  | _ => exact Or.inl (hmoved rfl)

/-- No kernel code takes an object out of the table. -/
theorem go_enlists (hstep : s.go L u = some s') (h : s.k.Enlists a type) :
    s'.k.Enlists a type := by
  have hkeep : s'.k.table = s.k.table → s'.k.Enlists a type := by
    intro htable
    rw [Kernel.Enlists, htable]
    exact h
  rcases go_estate hstep with halloc | ⟨hk, _⟩
  · cases go_cases hstep with
    | create c r s' hpc hrun =>
      rw [Sys.create] at hrun
      obtain ⟨⟨k, p⟩, hgot, rfl⟩ := Option.map_eq_some_iff.mp hrun
      apply hkeep
      have hk : k.table = s.k.table := by
        rcases alloc_cases hgot with ⟨_, rfl⟩ | ⟨heap, _, _, rfl⟩
        · rfl
        · split
          · rfl
          · cases c <;> rfl
      simp only
      split
      · rw [finish_k]
        exact hk
      · cases c <;> exact hk
    | queueBuffer p r k ok hpc hrun =>
      rcases queueInitBuffer_split hrun with ⟨_, rfl⟩ | ⟨heap, buffer, _, rfl, _⟩
      · exact hkeep rfl
      · exact hkeep rfl
    | queueFree p r k hpc hrun =>
      obtain ⟨heap, _, rfl⟩ := Option.map_eq_some_iff.mp hrun
      apply hkeep
      rw [finish_k]
    | publish p type' r hpc =>
      rw [finish_k]
      exact h.publish p type'
    | spawnStack t args heap alloc hpc hrun => exact hkeep rfl
    | spawnAdd t alloc args hpc =>
      apply hkeep
      rw [finish_k]
      rfl
    | popNone hpc hpop =>
      rw [hpc] at halloc
      cases halloc
    | popSome k item hpc hpop =>
      rw [hpc] at halloc
      cases halloc
    | spawnNone args hpc hfree =>
      rw [hpc] at halloc
      cases halloc
    | spawnTcb args k t hpc hfree =>
      rw [hpc] at halloc
      cases halloc
    | _ =>
      rename_i hpc
      rw [hpc] at halloc
      cases halloc
  · exact hkeep (congrArg (fun f => f.2.1) hk :)

/-- A call begins with an object that its handle leads to. -/
theorem call_object (s : Sys) (u : Tid) (c : Call) {a : Nat} {type : KobjType}
    (hpc : s.pc u = .app) (h : ((s.call u c).pc u).object = some (a, type)) :
    s.k.Enlists a type := by
  have hmoved : ∀ {p : Pc}, p.object = none → ((s.setPc u p).pc u).object = some (a, type) →
      s.k.Enlists a type := by
    intro p hp hobject
    rw [setPc_object, hp] at hobject
    cases hobject
  have hend : ∀ w, ((s.finish u .app w).pc u).object = some (a, type) → s.k.Enlists a type := by
    intro w hobject
    rw [finish_object] at hobject
    cases hobject
  have hobject : ∀ handle type' f w, (∀ p, (f p).object = some (p, type')) →
      ((s.callObject u handle type' f w).pc u).object = some (a, type) → s.k.Enlists a type := by
    intro handle type' f w hf hobject
    rw [Sys.callObject] at hobject
    cases hget : kObjGet s.k handle type' with
    | none =>
      rw [hget] at hobject
      exact hend w hobject
    | some p =>
      rw [hget] at hobject
      have hp := hobject.symm.trans ((setPc_object s u (.enter (f p) .app)).trans (hf p))
      obtain ⟨rfl, rfl⟩ := Prod.mk.inj (Option.some.inj hp)
      exact kObjGet_enlists hget
  cases c with
  | semTake handle ms => exact hobject _ _ _ _ (fun _ => rfl) h
  | semGive handle => exact hobject _ _ _ _ (fun _ => rfl) h
  | mutexLock handle ms => exact hobject _ _ _ _ (fun _ => rfl) h
  | mutexUnlock handle => exact hobject _ _ _ _ (fun _ => rfl) h
  | queuePush handle item ms => exact hobject _ _ _ _ (fun _ => rfl) h
  | queuePop handle item ms => exact hobject _ _ _ _ (fun _ => rfl) h
  | taskDelay ticks => exact hmoved rfl h
  | taskYield => exact hmoved rfl h
  | create c => exact hmoved rfl h
  | taskCreate args =>
    rw [Sys.call] at h
    split at h
    · exact hmoved rfl h
    · exact hend 0 h
  | setUnprivileged =>
    have hobject : (s.pc u).object = some (a, type) := h
    rw [hpc] at hobject
    cases hobject

/-- Steps that leave the heap's contents alone leave the table alone. -/
theorem Tabled.quiet (h : Tabled s) (hk : s'.k.estate = s.k.estate)
    (hother : ∀ v, v ≠ u → s'.pc v = s.pc v ∨ s'.pc v = .app)
    (hself : ∀ a type, (s'.pc u).object = some (a, type) → s.k.Enlists a type) : Tabled s' := by
  have htable : s'.k.table = s.k.table := (congrArg (fun f => f.2.1) hk :)
  refine h.frame (fun a type ha => ?_) hother hself
  rw [Kernel.Enlists, htable]
  exact ha

theorem Tabled.step (h : Tabled s) (hstep : s.step L l = some s') : Tabled s' := by
  obtain ⟨_, htick⟩ | ⟨oldSp, k, _, _, hrun, rfl⟩ | ⟨u, _, _, hthread⟩ := step_cases hstep
  · have hpc := (sysTick_frame s).1
    rw [← htick] at hpc
    refine h.quiet (u := 0) ?_ (fun v _ => Or.inl (congrFun hpc v)) fun a type ha => ?_
    · rw [htick, sysTick_k]
      exact estate_sysTickHandler s.k
    · rw [hpc] at ha
      exact h 0 a type ha
  · exact h.quiet (u := 0) (estate_switch hrun) (fun _ _ => Or.inl rfl) (h 0)
  · cases l with
    | tick => cases hthread
    | pendSV oldSp => cases hthread
    | svc id a0 a1 a2 a3 =>
      rw [Sys.thread] at hthread
      split at hthread
      · obtain rfl := Option.some.inj hthread
        refine h.quiet (u := u) (estate_svcHandler _ _)
          (fun v hv => Or.inl (Function.update_of_ne hv _ _)) fun a type ha => ?_
        have hnone := ha.symm.trans (setPc_object { s with k := svcHandler s.k _ } u .svcRet)
        cases hnone
      · cases hthread
    | call c =>
      rw [Sys.thread] at hthread
      split at hthread
      · rename_i happ
        obtain rfl := Option.some.inj hthread
        exact h.quiet (u := u) (call_estate s u c).1
          (fun v hv => Or.inl (call_pc_other s c hv)) fun a type => call_object s u c happ.1
      · cases hthread
    | compute r0 ram =>
      rw [Sys.thread] at hthread
      split at hthread
      · obtain rfl := Option.some.inj hthread
        exact h.quiet (u := u) rfl (fun _ _ => Or.inl rfl) (h u)
      · cases hthread
    | go =>
      refine h.frame (u := u) (fun a type => go_enlists hthread)
        (fun v hv => go_pc_other hthread hv) fun a type ha => ?_
      rcases go_object hthread with hnone | hsame | ⟨handle, a', type', hget, hobject⟩
      · rw [hnone] at ha
        cases ha
      · exact h u a type (hsame.symm.trans ha)
      · obtain ⟨rfl, rfl⟩ := Prod.mk.inj (Option.some.inj (ha.symm.trans hobject))
        exact kObjGet_enlists hget

theorem Sys.Started.tabled (h : s.Started L) : Tabled s := by
  obtain ⟨heapMem, ram, tasks, s₁, hboot, hstart, _⟩ := h
  have hnone : ∀ t, (s₁.pc t).object = none := by
    refine bootTasks_induction (P := fun s => ∀ t, (s.pc t).object = none)
      (fun s task s' hs hl t => ?_) (fun _ => rfl) hboot
    obtain ⟨⟨k, created⟩, _, rfl⟩ := Option.map_eq_some_iff.mp hl
    cases created with
    | none => exact hs t
    | some x =>
      by_cases hx : t = x
      · subst hx
        refine (congrArg Pc.object (Function.update_self _ _ _)).trans ?_
        cases task.1 <;> rfl
      · exact (congrArg Pc.object (Function.update_of_ne hx _ _)).trans (hs t)
  obtain ⟨⟨k, first⟩, _, rfl⟩ := Option.map_eq_some_iff.mp hstart
  intro t a type ht
  rw [hnone t] at ht
  cases ht

end Tables

end Crest
