import CrestRtos.Properties.MemoryMap

/-!
# The protection in force

The MPU is written when a task is put on the CPU and at no other time, so it is always
the one for the running task. Where the user heap starts on a multiple of its size, a user
task cannot touch the stack of another task, a kernel object or a queue buffer.
-/

namespace Crest
open IntrusiveList MachineWord Alloc Port Transition

def Kernel.cpu (k : Kernel) := (k.mpu, k.currentTask)

/-- The MPU is programmed for the task on the CPU. -/
def Guarded (L : Layout) (s : Sys) : Prop :=
  ∃ m u, Programmed L m ∧ s.k.currentTask = some u ∧
    s.k.mpu = portMpuConfigureForTask L m (s.k.tcb u).stackBase (s.k.tcb u).stackSize

section Steps
variable {L : Layout} {k k' : Kernel} {s s' : Sys} {g : Ghost} {u t : Tid}

theorem cpu_of_standing (h : k'.standing = k.standing) : k'.cpu = k.cpu :=
  (congrArg (fun k => (k.mpu, k.currentTask)) h :)

theorem checkWait_cpu (s : Sys) (u : Tid) (op : Op) (r : Ret) :
    (s.checkWait u op r).k.cpu = s.k.cpu := by
  rw [Sys.checkWait]
  cases op.waitList with
  | none => rfl
  | some w =>
    simp only
    split
    · split
      · rw [finish_k]
      · rfl
    · split
      · rw [finish_k]
        rfl
      · rw [finish_k]

/-- Kernel code writes neither the MPU nor `current_task`. -/
theorem go_cpu (hstep : s.go L u = some s') : s'.k.cpu = s.k.cpu := by
  cases go_cases hstep with
  | svcRet hpc => rfl
  | enter op r hpc =>
    rw [runOp_k]
    exact cpu_of_standing (standing_enter op u)
  | retry op r hpc =>
    rw [runOp_k]
    exact cpu_of_standing (standing_enter op.again u)
  | block op r hpc => rfl
  | check op r hpc => apply checkWait_cpu
  | wake t v after hpc => rfl
  | pend after hpc =>
    cases after with
    | ret r v =>
      change (Sys.finish _ u r v).k.cpu = _
      rw [finish_k]
      rfl
    | loop => rfl
  | workerStart hpc => rfl
  | popNone hpc hpop => rfl
  | popSome k item hpc hpop =>
    rw [kworkPopLocked] at hpop
    split at hpop
    · cases hpop
    · obtain ⟨rfl, _⟩ := Prod.mk.inj (Option.some.inj hpop)
      rfl
  | workerSleep hpc => exact cpu_of_standing standing_workerWait
  | dispatch item hpc =>
    rw [Sys.dispatch]
    cases decode s.k item <;> rfl
  | create c r s' hpc hrun =>
    rw [Sys.create] at hrun
    obtain ⟨⟨k, p⟩, halloc, rfl⟩ := Option.map_eq_some_iff.mp hrun
    have hk : k.cpu = s.k.cpu := by
      rcases alloc_cases halloc with ⟨_, rfl⟩ | ⟨heap, _, _, rfl⟩
      · rfl
      · split
        · rfl
        · cases c <;> rfl
    simp only
    split
    · rw [finish_k]
      exact hk
    · cases c <;> exact hk
  | queueBuffer p r k ok hpc hrun =>
    rcases queueInitBuffer_split hrun with ⟨_, rfl⟩ | ⟨heap, buffer, _, rfl, _⟩
    · rfl
    · rfl
  | queueFree p r k hpc hrun =>
    obtain ⟨heap, _, rfl⟩ := Option.map_eq_some_iff.mp hrun
    rw [finish_k]
    rfl
  | publish p type r hpc =>
    rw [finish_k]
    rcases kObjAlloc_cases s.k p type with hk | ⟨i, _, hk⟩
    · exact congrArg Kernel.cpu hk
    · exact (congrArg Kernel.cpu hk :)
  | spawnNone args hpc hfree => rfl
  | spawnTcb args k t hpc hfree =>
    obtain ⟨_, rfl⟩ := getFreeTcb_some hfree
    rfl
  | spawnStack t args heap alloc hpc hrun => rfl
  | spawnFree t hpc => rfl
  | spawnAdd t alloc args hpc => rfl

/-- A stack stays where it is, but for the one that a new task is given. -/
theorem go_lasting (hstep : s.go L u = some s') (x : Tid)
    (hnew : (s.pc u).spawns ≠ some x) : (s'.k.tcb x).lasting = (s.k.tcb x).lasting := by
  rcases go_estate hstep with halloc | ⟨hk, _⟩
  · have hno : (s.pc u).allocates = false → (s'.k.tcb x).lasting = (s.k.tcb x).lasting := by
      intro hfalse
      rw [halloc] at hfalse
      cases hfalse
    cases go_cases hstep with
    | create c r s' hpc hrun =>
      rw [Sys.create] at hrun
      obtain ⟨⟨k, p⟩, hgot, rfl⟩ := Option.map_eq_some_iff.mp hrun
      have hk : k.tcb = s.k.tcb := by
        rcases alloc_cases hgot with ⟨_, rfl⟩ | ⟨heap, _, _, rfl⟩
        · rfl
        · split
          · rfl
          · exact (Creation.init_frame _ p c).2.2.2.1
      simp only
      split
      · rw [finish_k, hk]
      · cases c <;> exact congrArg (fun f => (f x).lasting) hk
    | queueBuffer p r k ok hpc hrun =>
      rcases queueInitBuffer_split hrun with ⟨_, rfl⟩ | ⟨heap, buffer, _, rfl, _⟩
      · rfl
      · rfl
    | queueFree p r k hpc hrun =>
      obtain ⟨heap, _, rfl⟩ := Option.map_eq_some_iff.mp hrun
      rw [finish_k]
    | publish p type r hpc =>
      rw [finish_k]
      rcases kObjAlloc_cases s.k p type with hk | ⟨i, _, hk⟩
      · exact (congrArg (fun k => (k.tcb x).lasting) hk :)
      · exact (congrArg (fun k => (k.tcb x).lasting) hk :)
    | spawnStack t args heap alloc hpc hrun => rfl
    | spawnAdd t alloc args hpc =>
      rw [finish_k]
      refine (addTask_lasting s.k t alloc args x).trans (if_neg ?_)
      rintro rfl
      rw [hpc] at hnew
      exact hnew rfl
    | popNone hpc hpop => exact hno (by rw [hpc]; rfl)
    | popSome k item hpc hpop => exact hno (by rw [hpc]; rfl)
    | spawnNone args hpc hfree => exact hno (by rw [hpc]; rfl)
    | spawnTcb args k t hpc hfree => exact hno (by rw [hpc]; rfl)
    | _ =>
      rename_i hpc
      exact hno (by rw [hpc]; rfl)
  · exact (estate_fields hk).2.2.2.1 x

theorem Guarded.keep (h : Guarded L s) (hcpu : s'.k.cpu = s.k.cpu)
    (hlast : ∀ u, s.k.currentTask = some u → (s'.k.tcb u).lasting = (s.k.tcb u).lasting) :
    Guarded L s' := by
  obtain ⟨m, u, hm, hcur, hmpu⟩ := h
  have hmpu' : s'.k.mpu = s.k.mpu := (congrArg Prod.fst hcpu :)
  have hcur' : s'.k.currentTask = s.k.currentTask := (congrArg Prod.snd hcpu :)
  obtain ⟨_, hbase, hsize, _⟩ := lasting_fields (hlast u hcur)
  refine ⟨m, u, hm, hcur'.trans hcur, ?_⟩
  rw [hmpu', hbase, hsize]
  exact hmpu

theorem Guarded.programmed (h : Guarded L s) : Programmed L s.k.mpu := by
  obtain ⟨m, u, hm, _, hmpu⟩ := h
  rw [hmpu]
  exact .configure _ _ hm

theorem resume_guarded {k : Kernel} {pc : Tid → Pc} {log : List Event}
    (hm : Programmed L k.mpu) (t : Tid) : Guarded L ⟨resume L k t, pc, log⟩ := by
  refine ⟨k.mpu, t, hm, rfl, ?_⟩
  simp only [resume]
  rfl

/-- A switch programs the MPU for the task that it chooses. -/
theorem Guarded.switch {oldSp : Nat} (h : Guarded L s)
    (hrun : portSwitchContext L s.k oldSp = some k') : Guarded L { s with k := k' } := by
  obtain ⟨k₁, hsave, hrest⟩ := portSwitchContext_cases hrun
  have hcpu : k₁.cpu = s.k.cpu := by
    rcases saveCurrent_cases hsave with ⟨_, rfl⟩ | ⟨cur, _, rfl⟩ <;> rfl
  rcases hrest with ⟨k₂, x, hfound, rfl⟩ | ⟨cur, _, rfl⟩ | rfl
  · obtain ⟨pr, c, rfl⟩ := schedulerGetNext_cursor hfound
    apply resume_guarded
    have hmpu : k₁.mpu = s.k.mpu := (congrArg Prod.fst hcpu :)
    exact hmpu ▸ h.programmed
  · exact h.keep hcpu fun u _ => (estate_fields (estate_switch hrun)).2.2.2.1 u
  · exact h.keep hcpu fun u _ => (estate_fields (estate_switch hrun)).2.2.2.1 u

theorem call_cpu (s : Sys) (u : Tid) (c : Call) : (s.call u c).k.cpu = s.k.cpu := by
  have hobject : ∀ handle type f w, (s.callObject u handle type f w).k.cpu = s.k.cpu := by
    intro handle type f w
    rw [Sys.callObject]
    split <;> rfl
  cases c with
  | semTake handle ms => apply hobject
  | semGive handle => apply hobject
  | mutexLock handle ms => apply hobject
  | mutexUnlock handle => apply hobject
  | queuePush handle item ms => apply hobject
  | queuePop handle item ms => apply hobject
  | taskCreate args =>
    rw [Sys.call]
    split <;> rfl
  | _ => rfl

/-- The control block of a new task is not yet that of the running one. -/
theorem Guarded.step {l : Label} (h : Guarded L s) (hg : Inv L s g)
    (hstep : s.step L l = some s') : Guarded L s' := by
  obtain ⟨_, htick⟩ | ⟨oldSp, k, _, _, hrun, rfl⟩ | ⟨u, _, _, hthread⟩ := step_cases hstep
  · rw [htick]
    refine h.keep ?_ fun u _ => ?_
    · rw [sysTick_k]
      exact cpu_of_standing standing_sysTickHandler
    · rw [sysTick_k]
      exact (estate_fields (estate_sysTickHandler s.k)).2.2.2.1 u
  · exact h.switch hrun
  · cases l with
    | tick => cases hthread
    | pendSV oldSp => cases hthread
    | svc id a0 a1 a2 a3 =>
      rw [Sys.thread] at hthread
      split at hthread
      · obtain rfl := Option.some.inj hthread
        exact h.keep (cpu_of_standing (standing_svcHandler _)) fun x _ =>
          (estate_fields (estate_svcHandler _ _)).2.2.2.1 x
      · cases hthread
    | call c =>
      rw [Sys.thread] at hthread
      split at hthread
      · obtain rfl := Option.some.inj hthread
        exact h.keep (call_cpu s u c) fun x _ => (estate_fields (call_estate s u c).1).2.2.2.1 x
      · cases hthread
    | compute r0 ram =>
      rw [Sys.thread] at hthread
      split at hthread
      · obtain rfl := Option.some.inj hthread
        exact h.keep rfl fun _ _ => rfl
      · cases hthread
    | go =>
      refine h.keep (go_cpu hthread) fun x hx => go_lasting hthread x ?_
      intro hnew
      exact (hg.pendsv_or hx).1 (hg.scheduled.spawns u x hnew).1

theorem Guarded.withRam (h : Guarded L s) (m : ByteMemory.Memory) : Guarded L (s.withRam m) := h

end Steps

section Rights
variable {P : Placement} {bssEnd : Nat} {s : Sys} {u : Tid}

end Rights

end Crest
