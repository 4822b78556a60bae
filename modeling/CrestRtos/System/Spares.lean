import CrestRtos.System.Clock
import CrestRtos.System.Steps

/-!
# Code that leaves a task awake

`k.Spares k' w` says that nothing between `k` and `k'` touches the work ring or
puts `w` to sleep. It needs no invariant, so it holds of kernel code in any
state, even one that a stray work item has left behind.
-/

namespace Crest
open MachineWord Alloc IntrusiveList

/-- The ring stays, `w` stays in use and is not put to sleep. -/
structure Kernel.Spares (k k' : Kernel) (w : Tid) : Prop where
  ring : k'.ring = k.ring
  kernel : k'.kernelTcb = k.kernelTcb
  used : k.tcbUsed w = true → k'.tcbUsed w = true
  asleep : (k'.tcb w).state = .waiting → (k.tcb w).state = .waiting

section Spares
variable {L : Layout} {k k' k'' : Kernel} {w t u : Tid}

theorem Kernel.Spares.refl (k : Kernel) (w : Tid) : k.Spares k w := ⟨rfl, rfl, id, id⟩

theorem Kernel.Spares.trans (h : k.Spares k' w) (h' : k'.Spares k'' w) : k.Spares k'' w :=
  ⟨h'.ring.trans h.ring, h'.kernel.trans h.kernel, fun hu => h'.used (h.used hu),
    fun hs => h.asleep (h'.asleep hs)⟩

theorem spares_setTcb {f : Tcb → Tcb}
    (hf : t = w → (f (k.tcb t)).state = .waiting → (k.tcb t).state = .waiting) :
    k.Spares (k.setTcb t f) w := by
  refine ⟨rfl, rfl, id, fun hst => ?_⟩
  by_cases htw : t = w
  · subst htw
    rw [setTcb_tcb_same] at hst
    exact hf rfl hst
  · rwa [setTcb_tcb_of_ne _ _ (Ne.symm htw)] at hst

theorem spares_setHead (l : WaitList) (v : Option Tid) : k.Spares (k.setHead l v) w := by
  cases l <;> exact ⟨rfl, rfl, id, id⟩

theorem spares_of_tasks {f : Tcb → Tcb} (h : k'.tasks = k.tasks.setTcb t f)
    (hf : (f (k.tasks.tcb t)).state = .waiting → (k.tcb t).state = .waiting) :
    k.Spares k' w := by
  refine ⟨(congrArg Kernel.ring h :), (congrArg Kernel.kernelTcb h :), fun hu => ?_, fun hst => ?_⟩
  · exact (congrFun (congrArg Kernel.tcbUsed h) w :).trans hu
  · have htcb : k'.tasks.tcb w = (k.tasks.setTcb t f).tcb w := congrFun (congrArg Kernel.tcb h) w
    have hst' : ((k.tasks.setTcb t f).tcb w).state = .waiting := htcb ▸ hst
    by_cases hwt : w = t
    · subst hwt
      rw [setTcb_tcb_same] at hst'
      exact hf hst'
    · rw [setTcb_tcb_of_ne _ _ hwt] at hst'
      exact hst'

theorem spares_markWaiting (ht : t ≠ w) : k.Spares (markWaiting k t) w :=
  spares_setTcb fun htw => absurd htw ht

theorem spares_armTimeout (l : WaitList) (t : Tid) (ms : Nat) :
    k.Spares (armTimeout k l t ms) w := by
  refine spares_setTcb fun _ hst => ?_
  split at hst <;> exact hst

theorem spares_pushWaiter (l : WaitList) (t : Tid) : k.Spares (pushWaiter k l t) w :=
  (spares_setTcb fun _ hst => hst).trans (spares_setHead l _)

theorem spares_appendWaiter (l : WaitList) (t : Tid) : k.Spares (appendWaiter k l t) w := by
  have hfirst : k.Spares (k.setTcb t fun tcb => { tcb with waitNext := none }) w :=
    spares_setTcb fun _ hst => hst
  rw [appendWaiter]
  split
  · exact hfirst.trans (spares_setHead l _)
  · exact hfirst.trans (spares_setTcb fun _ hst => hst)

theorem spares_popWaiter (l : WaitList) (t : Tid) : k.Spares (popWaiter k l t) w := by
  rw [popWaiter]
  exact (spares_setHead l _).trans (spares_setTcb fun _ hst => hst)

theorem spares_wakeFirst (l : WaitList) : k.Spares (wakeFirst k l).1 w := by
  rw [wakeFirst]
  split
  · exact spares_popWaiter l _
  · exact .refl k w

theorem spares_queueBlock (l : WaitList) (ms : Nat) (ht : t ≠ w) :
    k.Spares (queueBlock k l t ms).1 w :=
  ((spares_markWaiting ht).trans (spares_appendWaiter l t)).trans (spares_armTimeout l t ms)

/-- A task that is put in front of a list, by itself or by the worker. -/
theorem spares_park (direct : Bool) (l : WaitList) (ms : Nat) (ht : direct = true → t ≠ w) :
    k.Spares (armTimeout (pushWaiter (if direct then markWaiting k t else k) l t) l t ms) w := by
  refine Kernel.Spares.trans ?_ (spares_armTimeout l t ms)
  refine Kernel.Spares.trans ?_ (spares_pushWaiter l t)
  cases direct with
  | true => exact spares_markWaiting (ht rfl)
  | false => exact .refl k w

theorem spares_take (direct : Bool) (s ms : Nat) (ht : direct = true → t ≠ w) :
    k.Spares (takeSection direct k s t ms).1 w := by
  rw [takeSection]
  split
  · exact ⟨rfl, rfl, id, id⟩
  · split
    · exact .refl k w
    · exact spares_park direct _ ms ht

theorem spares_give (s : Nat) : k.Spares (zImplSemGive k s).1 w := by
  rw [zImplSemGive]
  split
  · exact spares_popWaiter _ _
  · exact ⟨rfl, rfl, id, id⟩

theorem spares_lock (direct : Bool) (m ms : Nat) (ht : direct = true → t ≠ w) :
    k.Spares (lockSection direct k m t ms).1 w := by
  rw [lockSection]
  split
  · exact .refl k w
  · split
    · exact ⟨rfl, rfl, id, id⟩
    · split
      · exact .refl k w
      · exact spares_park direct _ ms ht

theorem spares_unlock (m : Nat) (t : Tid) : k.Spares (unlockSection k m t).1 w := by
  have hstore : ∀ (k : Kernel) v, k.Spares (k.setMutex m v) w := fun k v => ⟨rfl, rfl, id, id⟩
  rw [unlockSection]
  split
  · exact .refl k w
  · split
    · exact (spares_popWaiter _ _).trans (hstore _ _)
    · exact hstore k _

theorem spares_push (q item ms : Nat) (ht : ms = 0 ∨ t ≠ w) :
    k.Spares (zImplQueuePush k q t item ms).1 w := by
  have hstore : ∀ v, k.Spares (k.setQueue q v) w := fun v => ⟨rfl, rfl, id, id⟩
  rw [zImplQueuePush]
  split
  · exact (hstore _).trans (spares_wakeFirst _)
  · split
    · exact .refl k w
    · rename_i hms
      exact spares_queueBlock _ ms (ht.resolve_left hms)

theorem spares_pop (q item ms : Nat) (ht : ms = 0 ∨ t ≠ w) :
    k.Spares (zImplQueuePop k q t item ms).1 w := by
  have hstore : ∀ ram v, k.Spares ({ k with ram := ram }.setQueue q v) w := fun ram v =>
    ⟨rfl, rfl, id, id⟩
  rw [zImplQueuePop]
  split
  · exact (hstore _ _).trans (spares_wakeFirst _)
  · split
    · exact .refl k w
    · rename_i hms
      exact spares_queueBlock _ ms (ht.resolve_left hms)

/-- A critical section of another task, or one that the worker enters for a caller. -/
theorem spares_enter {op : Op} (h : u ≠ w ∨ ∃ c, op.fits (.serve c)) :
    k.Spares (op.enter k u).1 w := by
  have hself : op.fits .app → (∀ c, ¬ op.fits (.serve c)) → u ≠ w := fun _ hnot =>
    h.resolve_right fun ⟨c, hc⟩ => hnot c hc
  cases op with
  | semTake s ms => exact spares_take true s ms fun _ => hself trivial fun _ => id
  | semTryTake s caller ms => exact spares_take false s ms fun hd => by cases hd
  | semGive s => exact spares_give s
  | mutexLock m ms => exact spares_lock true m ms fun _ => hself trivial fun _ => id
  | mutexTryLock m caller ms => exact spares_lock false m ms fun hd => by cases hd
  | mutexUnlock m => exact spares_unlock m u
  | mutexUnlockFor m owner => exact spares_unlock m owner
  | queuePush q item ms => exact spares_push q item ms (h.symm.imp_left fun ⟨_, hc⟩ => hc)
  | queuePop q item ms => exact spares_pop q item ms (h.symm.imp_left fun ⟨_, hc⟩ => hc)
  | delay ticks =>
    rw [Op.enter, zImplTaskDelay]
    split
    · exact .refl k w
    · have hne := hself trivial fun _ => id
      change k.Spares (schedulerSleep k u ticks) w
      exact spares_setTcb fun huw => absurd huw hne

theorem spares_wakeSection (t : Tid) (v : Nat) : k.Spares (wakeSection k t v) w :=
  spares_setTcb fun _ hst => by cases hst

theorem spares_delaySection {c : Tid} (n : Nat) (hc : c ≠ w) :
    k.Spares (delaySection k c n) w := by
  have hanswer :
      k.Spares (k.setTcb c fun tcb => { tcb with savedR0 := 0, svcBlocked := false }) w :=
    spares_setTcb fun hcw => absurd hcw hc
  rw [delaySection, schedulerSleep]
  exact hanswer.trans (spares_setTcb fun hcw => absurd hcw hc)

theorem spares_alloc {c : Creation} {p : Nat} (h : c.alloc L k = some (k', p)) :
    k.Spares k' w := by
  rcases alloc_cases h with ⟨_, hk⟩ | ⟨heap, _, _, rfl⟩
  · rw [hk]
    exact .refl k w
  · by_cases hp : p = 0
    · rw [if_pos hp]
      exact ⟨rfl, rfl, id, id⟩
    · rw [if_neg hp]
      cases c <;> exact ⟨rfl, rfl, id, id⟩

theorem spares_queueBuffer {p : Nat} {ok : Bool} (h : queueInitBuffer L k p = some (k', ok)) :
    k.Spares k' w := by
  rw [queueInitBuffer] at h
  split at h
  · obtain ⟨rfl, _⟩ := Prod.mk.inj (Option.some.inj h)
    exact .refl k w
  · obtain ⟨⟨heap, buffer⟩, _, heq⟩ := Option.map_eq_some_iff.mp h
    obtain ⟨rfl, _⟩ := Prod.mk.inj heq
    exact ⟨rfl, rfl, id, id⟩

theorem spares_queueFree {p : Nat} (h : queueFree L k p = some k') : k.Spares k' w := by
  obtain ⟨heap, _, rfl⟩ := Option.map_eq_some_iff.mp h
  exact ⟨rfl, rfl, id, id⟩

theorem spares_kObjAlloc (p : Nat) (type : KobjType) : k.Spares (kObjAlloc k p type).1 w := by
  rw [kObjAlloc]
  split
  · exact .refl k w
  · split
    · exact .refl k w
    · exact ⟨rfl, rfl, id, id⟩

theorem spares_getFreeTcb (h : getFreeTcb k = some (k', t)) : k.Spares k' w := by
  obtain ⟨_, rfl⟩ := getFreeTcb_some h
  refine ⟨rfl, rfl, fun hu => ?_, id⟩
  by_cases hwt : w = t
  · subst hwt
    exact Function.update_self _ _ _
  · exact (Function.update_of_ne hwt _ _).trans hu

theorem spares_freeTcb (ht : t ≠ w) : k.Spares (freeTcb k t) w :=
  ⟨rfl, rfl, fun hu => (Function.update_of_ne ht.symm _ _).trans hu, id⟩

theorem spares_addTask (alloc : Nat) (args : TaskArgs) (ht : t ≠ w) :
    k.Spares (schedulerAddTask (initTcb k t alloc args) t) w := by
  have hinit : k.Spares (initTcb k t alloc args) w :=
    ⟨rfl, rfl, id, fun hst => by rwa [initTcb, setTcb_tcb_of_ne _ _ ht.symm] at hst⟩
  refine hinit.trans ?_
  have hlink : (initTcb k t alloc args).Spares
      ((initTcb k t alloc args).setTcb t fun tcb =>
        { tcb with
          next := (initTcb k t alloc args).taskList
            ((initTcb k t alloc args).tcb t).priority })
      w := spares_setTcb fun htw => absurd htw ht
  exact hlink.trans ⟨rfl, rfl, id, id⟩

theorem spares_tickDelay (t : Tid) : k.Spares (tickDelay k t) w := by
  rw [tickDelay]
  split
  · rename_i hcond
    exact spares_setTcb fun _ _ => hcond.1
  · exact .refl k w

theorem spares_syncTickTask (t : Tid) : k.Spares (syncTickTask k t) w := by
  have hticked : (k.tasks.tcb t).syncTicked.state = .waiting → (k.tcb t).state = .waiting := by
    rw [Tcb.syncTicked]
    split
    · rename_i hcond
      exact fun _ => hcond.1
    · exact id
  rcases syncTickTask_cases k t with ⟨h, _⟩ | h
  · exact spares_of_tasks h hticked
  · have hset : k.tasks.Spares (k.tasks.setTcb t Tcb.syncTicked) w := spares_setTcb fun _ => hticked
    refine ⟨(congrArg Kernel.ring h :), (congrArg Kernel.kernelTcb h :), fun hu => ?_,
      fun hst => ?_⟩
    · exact (congrFun (congrArg Kernel.tcbUsed h) w :).trans (hset.used hu)
    · exact hset.asleep ((congrArg (fun k => (k.tcb w).state) h :).symm.trans hst)

theorem spares_saveCurrent {oldSp : Nat} (h : saveCurrent k oldSp = some k') : k.Spares k' w := by
  rcases saveCurrent_cases h with ⟨_, rfl⟩ | ⟨cur, _, rfl⟩
  · exact .refl k' w
  · refine spares_setTcb fun _ hst => ?_
    simp only at hst
    split at hst
    · cases hst
    · exact hst

theorem spares_getNext (h : schedulerGetNext k = some (k', t)) : k.Spares k' w := by
  obtain ⟨pr, c, rfl⟩ := schedulerGetNext_cursor h
  exact ⟨rfl, rfl, id, id⟩

theorem spares_resume (t : Tid) : k.Spares (resume L k t) w := by
  have hset : k.Spares (k.setTcb t fun tcb => { tcb with state := .running }) w :=
    spares_setTcb fun _ hst => by cases hst
  exact hset.trans ⟨rfl, rfl, id, id⟩

theorem spares_switch {oldSp : Nat} (h : portSwitchContext L k oldSp = some k') :
    k.Spares k' w := by
  have hclear : k.Spares { k with pendsv := false } w := ⟨rfl, rfl, id, id⟩
  obtain ⟨k₁, hsave, hrest⟩ := portSwitchContext_cases h
  have hfirst := hclear.trans (spares_saveCurrent hsave)
  rcases hrest with ⟨k₂, x, hfound, rfl⟩ | ⟨cur, _, rfl⟩ | rfl
  · exact (hfirst.trans (spares_getNext hfound)).trans (spares_resume x)
  · exact hfirst.trans (spares_setTcb fun _ hst => by cases hst)
  · exact hfirst

end Spares

/-- Kernel code leaves the ring alone, but for the worker's pop. -/
theorem Inv.go_kwork {L : Layout} {s s' : Sys} {g : Ghost} {u : Tid} (h : Inv L s g)
    (hstep : s.go L u = some s') :
    s'.k.kwork = s.k.kwork ∨ ∃ item, s.pc u = .workerPop ∧ s'.pc u = .dispatch item ∧
      s.k.kwork = item :: s'.k.kwork := by
  obtain ⟨x, hx⟩ := exists_ne u
  have hkeep : ∀ {k : Kernel}, s.k.Spares k x → k.kwork = s.k.kwork := fun hk =>
    kwork_of_ring hk.ring
  have hend : ∀ {k : Kernel} (r : Ret) (v : Nat) (log : List Event), s.k.Spares k x →
      ((⟨k, s.pc, log⟩ : Sys).finish u r v).k.kwork = s.k.kwork := fun r v log hk => by
    rw [finish_k]
    exact hkeep hk
  cases go_cases hstep with
  | svcRet hpc => exact Or.inl rfl
  | enter op r hpc =>
    left
    rw [runOp_k]
    exact hkeep (spares_enter (Or.inl hx.symm))
  | retry op r hpc =>
    left
    rw [runOp_k]
    exact hkeep (spares_enter (Or.inl hx.symm))
  | block op r hpc => exact Or.inl rfl
  | check op r hpc =>
    left
    rw [Sys.checkWait]
    cases op.waitList with
    | none => rfl
    | some w =>
      simp only
      split
      · split
        · exact hend r _ _ (.refl _ _)
        · rfl
      · split
        · rw [finish_k]
          rfl
        · exact hend r _ _ (.refl _ _)
  | wake t v after hpc => exact Or.inl (hkeep (spares_wakeSection t v))
  | pend after hpc =>
    left
    cases after with
    | ret r v => exact hend r v _ ⟨rfl, rfl, id, id⟩
    | loop => rfl
  | workerStart hpc => exact Or.inl rfl
  | popNone hpc hpop => exact Or.inl rfl
  | popSome k item hpc hpop =>
    exact Or.inr ⟨item, hpc, Function.update_self _ _ _,
      (kworkPop_some h.coded.head h.coded.tail hpop).2⟩
  | workerSleep hpc =>
    left
    change (workerWait s.k).kwork = s.k.kwork
    rw [workerWait]
    split <;> rfl
  | dispatch item hpc =>
    left
    rw [Sys.dispatch]
    cases decode s.k item <;> rfl
  | create c r s' hpc hrun =>
    left
    rw [Sys.create] at hrun
    obtain ⟨⟨k, p⟩, halloc, rfl⟩ := Option.map_eq_some_iff.mp hrun
    have hk := spares_alloc (w := x) halloc
    simp only
    split
    · exact hend r _ _ hk
    · cases c <;> exact hkeep hk
  | queueBuffer p r k ok hpc hrun => exact Or.inl (hkeep (spares_queueBuffer hrun))
  | queueFree p r k hpc hrun => exact Or.inl (hend r _ _ (spares_queueFree hrun))
  | publish p type r hpc => exact Or.inl (hend r _ _ (spares_kObjAlloc p type))
  | spawnNone args hpc hfree => exact Or.inl rfl
  | spawnTcb args k t hpc hfree => exact Or.inl (hkeep (spares_getFreeTcb hfree))
  | spawnStack t args heap alloc hpc hrun => exact Or.inl rfl
  | spawnFree t hpc => exact Or.inl rfl
  | spawnAdd t alloc args hpc => exact Or.inl rfl

end Crest
