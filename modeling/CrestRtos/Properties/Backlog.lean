import CrestRtos.System.Changes
import CrestRtos.System.Spares

/-!
# The worker and its backlog

The worker looks at the ring in a critical section and marks itself WAITING
behind it. An item pushed in between finds a worker that is not WAITING, rouses
nobody, and stays in the ring while the worker sleeps. In every run without such
a push the worker sleeps on an empty ring only. Items are pushed by the syscall
gate, and by interrupts in any state and for any caller but the worker.
-/

namespace Crest
open MachineWord Alloc Transition

/-- What moves the system: its own steps, and interrupts that push an item. -/
inductive Input
  | system (l : Label)
  | isr (item : WorkItem)

def Sys.accept (L : Layout) (s : Sys) : Input → Option Sys
  | .system l => s.step L l
  | .isr item => some { s with k := (kworkPush s.k item).1 }

def Label.isSvc : Label → Bool
  | .svc _ _ _ _ _ => true
  | _ => false

/-- No item is pushed between the worker's last look at the ring and its store of
TASK_WAITING, and none in its own name. -/
def Orderly (w : Tid) (s : Sys) : Input → Prop
  | .system l => l.isSvc = true → s.pc w ≠ .workerSleep
  | .isr item => s.pc w ≠ .workerSleep ∧ item.caller ≠ w

/-- What holds of the worker `w` in every orderly run, whatever items it gets. -/
structure AtWork (s : Sys) (w : Tid) : Prop where
  pcs : ∀ t, (s.pc t).fits (t = w)
  spawns : ∀ t, (s.pc t).spawns ≠ some w
  serves : (s.pc w).serves ≠ some w
  items : ∀ item ∈ s.k.kwork, item.caller ≠ w
  used : s.k.tcbUsed w = true
  kernel : s.k.kernelTcb = if s.pc w = .workerStart then none else some w
  head : s.k.kworkHead < kworkQueueSize
  tail : s.k.kworkTail < kworkQueueSize
  begun : s.pc w = .workerStart → (s.k.tcb w).state ≠ .waiting
  asleep : (s.k.tcb w).state = .waiting → s.k.kwork = []
  falling : s.pc w = .workerSleep → s.k.kwork = []

section AtWork
variable {L : Layout} {s s' : Sys} {w u : Tid} {p : Pc}

theorem AtWork.bounds {k : Kernel} (h : AtWork s w) (hring : k.ring = s.k.ring) :
    k.kworkHead < kworkQueueSize ∧ k.kworkTail < kworkQueueSize := by
  have hh : k.kworkHead = s.k.kworkHead := congrArg (fun f => f.2.1) hring
  have ht : k.kworkTail = s.k.kworkTail := congrArg (fun f => f.2.2) hring
  rw [hh, ht]
  exact ⟨h.head, h.tail⟩

/-- No code goes on, and the kernel leaves the worker alone. -/
theorem AtWork.same (h : AtWork s w) (hk : s.k.Spares s'.k w) (hpc : s'.pc = s.pc) :
    AtWork s' w := by
  have hwork : s'.k.kwork = s.k.kwork := kwork_of_ring hk.ring
  obtain ⟨hhead, htail⟩ := h.bounds hk.ring
  refine ⟨?_, ?_, ?_, ?_, hk.used h.used, ?_, hhead, htail, ?_, ?_, ?_⟩
  · rw [hpc]
    exact h.pcs
  · rw [hpc]
    exact h.spawns
  · rw [hpc]
    exact h.serves
  · rw [hwork]
    exact h.items
  · rw [hpc, hk.kernel]
    exact h.kernel
  · rw [hpc]
    exact fun hp hst => h.begun hp (hk.asleep hst)
  · rw [hwork]
    exact fun hst => h.asleep (hk.asleep hst)
  · rw [hpc, hwork]
    exact h.falling

/-- The code of `u` goes on at `p`, which is not a step of the worker's own loop. -/
theorem AtWork.goto (h : AtWork s w) (hk : s.k.Spares s'.k w)
    (hpc : s'.pc = Function.update s.pc u p) (hfits : p.fits (u = w))
    (hspawns : p.spawns ≠ some w)
    (hserves : u = w → p.serves = none ∨ p.serves = (s.pc u).serves)
    (hbegun : s.pc u ≠ .workerStart) (hbegun' : p ≠ .workerStart)
    (hfalling : u = w → p = .workerSleep → s.k.kwork = []) : AtWork s' w := by
  have hwork : s'.k.kwork = s.k.kwork := kwork_of_ring hk.ring
  obtain ⟨hhead, htail⟩ := h.bounds hk.ring
  have hself : s'.pc u = p := by
    rw [hpc, Function.update_self]
  have hother : ∀ t, t ≠ u → s'.pc t = s.pc t := fun t ht => by
    rw [hpc, Function.update_of_ne ht]
  have hstart : s'.pc w = .workerStart ↔ s.pc w = .workerStart := by
    by_cases huw : w = u
    · subst huw
      rw [hself]
      exact iff_of_false hbegun' hbegun
    · rw [hother w huw]
  refine ⟨fun t => ?_, fun t => ?_, ?_, ?_, hk.used h.used, ?_, hhead, htail, ?_, ?_, ?_⟩
  · by_cases ht : t = u
    · subst ht
      rw [hself]
      exact hfits
    · rw [hother t ht]
      exact h.pcs t
  · by_cases ht : t = u
    · subst ht
      rw [hself]
      exact hspawns
    · rw [hother t ht]
      exact h.spawns t
  · by_cases huw : w = u
    · subst huw
      rw [hself]
      rcases hserves rfl with hnone | hsame
      · rw [hnone]
        simp
      · rw [hsame]
        exact h.serves
    · rw [hother w huw]
      exact h.serves
  · rw [hwork]
    exact h.items
  · rw [hk.kernel, h.kernel, if_congr hstart rfl rfl]
  · rw [hstart]
    exact fun hp hst => h.begun hp (hk.asleep hst)
  · rw [hwork]
    exact fun hst => h.asleep (hk.asleep hst)
  · rw [hwork]
    by_cases huw : w = u
    · subst huw
      rw [hself]
      exact hfalling rfl
    · rw [hother w huw]
      exact h.falling

/-- A call of `u` ends. -/
theorem AtWork.finish {r : Ret} (v : Nat) (h : AtWork s w) (hk : s.k.Spares s'.k w)
    (hpc : s'.pc = Function.update s.pc u (r.next v)) (hr : r.fits (u = w))
    (hserves : (s.pc u).serves = r.caller) (hbegun : s.pc u ≠ .workerStart) : AtWork s' w := by
  refine h.goto hk hpc ?_ ?_ (fun _ => Or.inr ?_) hbegun ?_ ?_
  · cases r <;> exact hr
  · cases r <;> simp [Ret.next, Pc.spawns]
  · rw [hserves]
    cases r <;> rfl
  · cases r <;> simp [Ret.next]
  · cases r <;> simp [Ret.next]

/-- Nobody is put on a list without a timeout. -/
theorem enter_block {k : Kernel} {op : Op} (h : (op.enter k u).2 = .block) : op.timeout ≠ 0 := by
  intro hms
  have hwake : ∀ k l, (wakeFirst k l).2 ≠ .block := by
    intro k l
    rw [wakeFirst]
    split <;> simp
  cases op with
  | semTake s ms =>
    obtain rfl : ms = 0 := hms
    simp only [Op.enter, zImplSemTakeTimeout, takeSection] at h
    split at h <;> cases h
  | semTryTake s caller ms =>
    obtain rfl : ms = 0 := hms
    simp only [Op.enter, zImplSemTryTakeTimeout, takeSection] at h
    split at h <;> cases h
  | semGive s =>
    simp only [Op.enter, zImplSemGive] at h
    split at h <;> cases h
  | mutexLock m ms =>
    obtain rfl : ms = 0 := hms
    simp only [Op.enter, zImplMutexLockTimeout, lockSection] at h
    split at h
    · cases h
    · split at h <;> cases h
  | mutexTryLock m caller ms =>
    obtain rfl : ms = 0 := hms
    simp only [Op.enter, zImplMutexTryLockTimeout, lockSection] at h
    split at h
    · cases h
    · split at h <;> cases h
  | mutexUnlock m =>
    simp only [Op.enter, zImplMutexUnlock, unlockSection] at h
    split at h
    · cases h
    · split at h <;> cases h
  | mutexUnlockFor m owner =>
    simp only [Op.enter, zImplMutexUnlockFor, unlockSection] at h
    split at h
    · cases h
    · split at h <;> cases h
  | queuePush q item ms =>
    obtain rfl : ms = 0 := hms
    simp only [Op.enter, zImplQueuePush] at h
    split at h
    · exact hwake _ _ h
    · cases h
  | queuePop q item ms =>
    obtain rfl : ms = 0 := hms
    simp only [Op.enter, zImplQueuePop] at h
    split at h
    · exact hwake _ _ h
    · cases h
  | delay ticks =>
    simp only [Op.enter, zImplTaskDelay] at h
    split at h <;> cases h

/-- A critical section. -/
theorem AtWork.runOp {op : Op} {r : Ret} (events : List Event) (h : AtWork s w)
    (hfits : op.fits r) (hr : r.fits (u = w)) (hserves : (s.pc u).serves = r.caller)
    (hbegun : s.pc u ≠ .workerStart) : AtWork ((s.note events).runOp u op r) w := by
  have hk : s.k.Spares ((s.note events).runOp u op r).k w := by
    rw [runOp_k]
    refine spares_enter ?_
    cases r with
    | app => exact Or.inl hr
    | serve c => exact Or.inr ⟨c, hfits⟩
  have hgo : ∀ {p}, ((s.note events).runOp u op r).pc = Function.update s.pc u p →
      p.fits (u = w) → p.spawns = none → (p.serves = none ∨ p.serves = (s.pc u).serves) →
      p ≠ .workerStart → p ≠ .workerSleep → AtWork ((s.note events).runOp u op r) w :=
    fun hpc hp hspawns hcaller hstart hsleep => h.goto hk hpc hp (by rw [hspawns]; simp)
      (fun _ => hcaller) hbegun hstart fun _ heq => absurd heq hsleep
  have hrun := runOp_eq (s.note events) u op r
  cases hout : (op.enter s.k u).2 with
  | ret v =>
    refine h.finish v hk ?_ hr hserves hbegun
    rw [hrun, show (op.enter (s.note events).k u).2 = .ret v from hout, Sys.settle, finish_eq]
    rfl
  | block =>
    rw [show (op.enter (s.note events).k u).2 = .block from hout] at hrun
    have hms := enter_block hout
    cases hdirect : op.waitList with
    | none =>
      refine hgo (p := .workerPop) ?_ ?_ rfl (Or.inl rfl) (by simp) (by simp)
      · rw [hrun, Sys.settle, hdirect]
        rfl
      · -- a direct call that blocks has a wait list of its own
        cases r with
        | serve c => exact hr
        | app =>
          cases op <;> first | cases hdirect; done | cases hfits; done | exact absurd rfl hms
    | some l =>
      have happ : r = .app ∧ op.fits .app := by
        cases r with
        | app => exact ⟨rfl, hfits⟩
        | serve c =>
          cases op with
          | queuePush q item ms => exact absurd hfits hms
          | queuePop q item ms => exact absurd hfits hms
          | semTake s ms => cases hfits
          | mutexLock m ms => cases hfits
          | _ => cases hdirect
      obtain ⟨rfl, happ⟩ := happ
      refine hgo (p := .block op .app) ?_ ⟨happ, rfl, hr, by rw [hdirect]; rfl⟩ rfl
        (Or.inl rfl) (by simp) (by simp)
      rw [hrun, Sys.settle, hdirect]
      rfl
  | wake t v =>
    refine hgo (p := .wake t 0 (.ret r v)) ?_ ⟨rfl, hr⟩ rfl (Or.inr hserves.symm) (by simp)
      (by simp)
    rw [hrun, show (op.enter (s.note events).k u).2 = .wake t v from hout]
    rfl
  | pend v =>
    refine hgo (p := .pend (.ret r v)) ?_ hr rfl (Or.inr hserves.symm) (by simp) (by simp)
    rw [hrun, show (op.enter (s.note events).k u).2 = .pend v from hout]
    rfl

/-- A lookup, the allocation of an object, and what follows it. -/
theorem AtWork.create {c : Creation} {r : Ret} (h : AtWork s w) (hr : r.fits (u = w))
    (hserves : (s.pc u).serves = r.caller) (hbegun : s.pc u ≠ .workerStart)
    (hstep : s.create L u c r = some s') : AtWork s' w := by
  rw [Sys.create] at hstep
  obtain ⟨⟨k, q⟩, halloc, heq⟩ := Option.map_eq_some_iff.mp hstep
  have hk : s.k.Spares k w := spares_alloc halloc
  by_cases hq : q = 0
  · simp only [if_pos hq] at heq
    subst heq
    refine h.finish kobjInvalid ?_ ?_ hr hserves hbegun
    · rw [finish_k]
      exact hk
    · rw [finish_eq]
      rfl
  · simp only [if_neg hq] at heq
    subst heq
    have hgo : ∀ {s' : Sys} {p : Pc}, s'.k = k → s'.pc = Function.update s.pc u p →
        p.fits (u = w) → p.spawns = none → p.serves = (s.pc u).serves → p ≠ .workerStart →
        p ≠ .workerSleep → AtWork s' w :=
      fun hk' hpc hp hspawns hcaller hstart hsleep => h.goto (hk' ▸ hk) hpc hp
        (by rw [hspawns]; simp) (fun _ => Or.inr hcaller) hbegun hstart
        fun _ heq => absurd heq hsleep
    cases c with
    | queue itemSize size =>
      exact hgo rfl rfl hr rfl hserves.symm (by simp) (by simp)
    | sem initial => exact hgo rfl rfl hr rfl hserves.symm (by simp) (by simp)
    | mutex => exact hgo rfl rfl hr rfl hserves.symm (by simp) (by simp)

/-- The code that the worker goes on with for an item. -/
theorem AtWork.dispatch {item : WorkItem} (h : AtWork s w) (hpc : s.pc u = .dispatch item) :
    AtWork (s.dispatch u item) w := by
  have hfits := h.pcs u
  rw [hpc] at hfits
  obtain rfl : u = w := hfits
  have hbegun : s.pc u ≠ .workerStart := by
    rw [hpc]
    simp
  have hcaller : item.caller ≠ u := by
    have hserves := h.serves
    rw [hpc] at hserves
    exact fun heq => hserves (congrArg some heq)
  have hgo : ∀ p : Pc, p.fits (u = u) → p.spawns = none → p.serves = some item.caller →
      p ≠ .workerStart → p ≠ .workerSleep → AtWork (s.setPc u p) u :=
    fun p hp hspawns hs hstart hsleep => h.goto (.refl s.k u) rfl hp (by rw [hspawns]; simp)
      (fun _ => Or.inr (by rw [hpc]; exact hs)) hbegun hstart fun _ heq => absurd heq hsleep
  rw [Sys.dispatch]
  cases hdec : decode s.k item with
  | sleep n =>
    exact h.goto (spares_delaySection n hcaller) rfl rfl (by simp [Pc.spawns])
      (fun _ => Or.inl rfl) hbegun (by simp) (by simp)
  | complete v => exact hgo _ rfl rfl rfl (by simp) (by simp)
  | uart a => exact hgo _ rfl rfl rfl (by simp) (by simp)
  | call op => exact hgo _ ⟨(decode_call hdec).1, rfl⟩ rfl rfl (by simp) (by simp)
  | create c => exact hgo _ rfl rfl rfl (by simp) (by simp)

/-- Behind a wait. -/
theorem AtWork.check {op : Op} {r : Ret} (h : AtWork s w) (hpc : s.pc u = .check op r) :
    AtWork (s.checkWait u op r) w := by
  have hfits := h.pcs u
  rw [hpc] at hfits
  obtain ⟨hop, rfl, hnot, hlist⟩ := hfits
  have hbegun : s.pc u ≠ .workerStart := by
    rw [hpc]
    simp
  have hend : ∀ (k : Kernel) v, s.k.Spares k w →
      AtWork (({ s with k := k } : Sys).finish u .app v) w := fun k v hk =>
    h.finish (r := .app) v hk rfl hnot (by rw [hpc]; rfl) hbegun
  rw [Sys.checkWait]
  cases hw : op.waitList with
  | none => exact h
  | some l =>
    simp only
    split
    · rename_i hqueue
      split
      · exact hend s.k _ (.refl s.k w)
      · exact h.goto (.refl s.k w) rfl ⟨hop, rfl, hnot, l, hw, hqueue⟩ (by simp [Pc.spawns])
          (fun _ => Or.inl rfl) hbegun (by simp) (by simp)
    · split
      · exact hend _ _ (spares_setTcb fun _ hst => hst)
      · exact hend s.k _ (.refl s.k w)

/-- The worker takes an item, or finds none and is about to sleep. -/
theorem AtWork.pop (h : AtWork s w) (hpc : s.pc u = .workerPop) (hstep : s.go L u = some s') :
    AtWork s' w := by
  have hfits := h.pcs u
  rw [hpc] at hfits
  obtain rfl : u = w := hfits
  have hbegun : s.pc u ≠ .workerStart := by
    rw [hpc]
    simp
  cases hpop : kworkPopLocked s.k with
  | none =>
    simp only [Sys.go, hpc, hpop, Option.some.injEq] at hstep
    subst hstep
    refine h.goto (.refl s.k u) rfl rfl (by simp [Pc.spawns]) (fun _ => Or.inl rfl) hbegun
      (by simp) fun _ _ => ?_
    rw [kworkPopLocked] at hpop
    split at hpop
    · rename_i hempty
      exact (RingBuffer.contents_eq_nil_iff h.head h.tail).mpr hempty
    · cases hpop
  | some found =>
    obtain ⟨k, item⟩ := found
    simp only [Sys.go, hpc, hpop, Option.some.injEq] at hstep
    subst hstep
    obtain ⟨rfl, hwork⟩ := kworkPop_some h.head h.tail hpop
    have hother : ∀ t, t ≠ u → Function.update s.pc u (.dispatch item) t = s.pc t := fun t ht =>
      Function.update_of_ne ht _ _
    have hself : Function.update s.pc u (.dispatch item) u = .dispatch item :=
      Function.update_self _ _ _
    have hitem := h.items item (by rw [hwork]; exact List.mem_cons_self)
    have hkernel := h.kernel
    rw [if_neg hbegun] at hkernel
    refine ⟨fun t => ?_, fun t => ?_, ?_, fun x hx => ?_, h.used, ?_, ?_, h.tail, ?_, ?_, ?_⟩
    · change (Function.update s.pc u (.dispatch item) t).fits (t = u)
      by_cases ht : t = u
      · subst ht
        rw [hself]
        rfl
      · rw [hother t ht]
        exact h.pcs t
    · change (Function.update s.pc u (.dispatch item) t).spawns ≠ some u
      by_cases ht : t = u
      · subst ht
        rw [hself]
        simp [Pc.spawns]
      · rw [hother t ht]
        exact h.spawns t
    · change (Function.update s.pc u (.dispatch item) u).serves ≠ some u
      rw [hself]
      exact fun heq => hitem (Option.some.inj heq)
    · exact h.items x (by rw [hwork]; exact List.mem_cons_of_mem _ hx)
    · change s.k.kernelTcb = if Function.update s.pc u (.dispatch item) u = _ then none else some u
      rw [hself, if_neg (by simp)]
      exact hkernel
    · exact Nat.mod_lt _ (by decide)
    · change Function.update s.pc u (.dispatch item) u = _ → _
      rw [hself]
      exact fun heq => by cases heq
    · intro hst
      have hnil := h.asleep hst
      rw [hwork] at hnil
      cases hnil
    · change Function.update s.pc u (.dispatch item) u = _ → _
      rw [hself]
      exact fun heq => by cases heq

/-- The worker marks itself WAITING, with nothing in the ring. Apart from its own state this is
a step like any other. -/
theorem AtWork.rest (h : AtWork s w) (hpc : s.pc w = .workerSleep)
    (hpc' : s'.pc = Function.update s.pc w (.pend .loop)) (hk : s'.k = workerWait s.k) :
    AtWork s' w := by
  have hkernel := h.kernel
  rw [hpc, if_neg (by simp)] at hkernel
  have hwork : s'.k.kwork = [] := by
    rw [hk, workerWait, hkernel]
    exact h.falling hpc
  have hstep : AtWork ⟨s.k, s'.pc, s'.log⟩ w :=
    h.goto (p := .pend .loop) (.refl s.k w) hpc' rfl (by simp [Pc.spawns]) (fun _ => Or.inl rfl)
      (by rw [hpc]; simp) (by simp) (by simp)
  have hused : s'.k.tcbUsed w = true := by
    rw [hk, workerWait, hkernel]
    exact h.used
  have hring : s'.k.ring = s.k.ring := by
    rw [hk, workerWait, hkernel]
    rfl
  have hsame : s'.k.kernelTcb = s.k.kernelTcb := by
    rw [hk]
    simp only [workerWait, hkernel]
    exact hkernel
  obtain ⟨hhead, htail⟩ := h.bounds hring
  have hself : s'.pc w = .pend .loop := by
    rw [hpc', Function.update_self]
  refine ⟨hstep.pcs, hstep.spawns, hstep.serves, ?_, hused, hsame.trans hstep.kernel, hhead, htail,
    ?_, fun _ => hwork, ?_⟩
  · rw [hwork]
    simp
  · rw [hself]
    exact fun heq => by cases heq
  · rw [hself]
    exact fun heq => by cases heq

/-- The worker records its own control block. -/
theorem AtWork.start (h : AtWork s w) (hpc : s.pc w = .workerStart)
    (hpc' : s'.pc = Function.update s.pc w .workerPop)
    (hk : s'.k = { s.k with kernelTcb := some w }) : AtWork s' w := by
  have hself : s'.pc w = .workerPop := by
    rw [hpc', Function.update_self]
  have hother : ∀ t, t ≠ w → s'.pc t = s.pc t := fun t ht => by
    rw [hpc', Function.update_of_ne ht]
  have hwork : s'.k.kwork = s.k.kwork := by
    rw [hk]
    rfl
  refine ⟨fun t => ?_, fun t => ?_, ?_, ?_, ?_, ?_, ?_, ?_, ?_, ?_, ?_⟩
  · by_cases ht : t = w
    · subst ht
      rw [hself]
      rfl
    · rw [hother t ht]
      exact h.pcs t
  · by_cases ht : t = w
    · subst ht
      rw [hself]
      simp [Pc.spawns]
    · rw [hother t ht]
      exact h.spawns t
  · rw [hself]
    simp [Pc.serves]
  · rw [hwork]
    exact h.items
  · rw [hk]
    exact h.used
  · rw [hk, hself]
    rfl
  · rw [hk]
    exact h.head
  · rw [hk]
    exact h.tail
  · rw [hself]
    exact fun heq => by cases heq
  · rw [hwork, hk]
    exact h.asleep
  · rw [hself]
    exact fun heq => by cases heq

/-- `task_create` never gets the worker's control block. -/
theorem AtWork.free_ne {k : Kernel} {t : Tid} (h : AtWork s w)
    (hfree : getFreeTcb s.k = some (k, t)) : t ≠ w := by
  rintro rfl
  have hunused := (getFreeTcb_some hfree).1
  rw [h.used] at hunused
  cases hunused

/-- The new task `t` begins, and the call of `u` ends. -/
theorem AtWork.born {k : Kernel} {t : Tid} {log : List Event} (h : AtWork s w) (hu : ¬ u = w)
    (ht : t ≠ w) (hk : s.k.Spares k w) :
    AtWork (((⟨k, s.pc, log⟩ : Sys).setPc t .app).finish u .app 0) w := by
  have hnew : AtWork (⟨k, Function.update s.pc t .app, log⟩ : Sys) w := by
    by_cases hstart : s.pc t = .workerStart
    · have hfits := h.pcs t
      rw [hstart] at hfits
      exact absurd hfits ht
    · exact h.goto hk rfl ht (by simp [Pc.spawns]) (fun htw => absurd htw ht) hstart (by simp)
        (by simp)
  have hbegun : Function.update s.pc t .app u ≠ .workerStart := by
    intro hpc
    have hfits : (Function.update s.pc t .app u).fits (u = w) := hnew.pcs u
    rw [hpc] at hfits
    exact hu hfits
  exact hnew.goto (.refl k w) rfl hu (by simp [Pc.spawns]) (fun huw => absurd huw hu) hbegun
    (by simp) (by simp)

theorem AtWork.go (h : AtWork s w) (hstep : s.go L u = some s') : AtWork s' w := by
  have hfits := h.pcs u
  have hgo : ∀ {k : Kernel} {p : Pc} {log : List Event}, s.k.Spares k w → p.fits (u = w) →
      p.spawns = none → p.serves = none ∨ p.serves = (s.pc u).serves → s.pc u ≠ .workerStart →
      p ≠ .workerStart → p ≠ .workerSleep → AtWork ⟨k, Function.update s.pc u p, log⟩ w :=
    fun hk hp hspawns hserves hbegun hbegun' hsleep =>
      h.goto hk rfl hp (by rw [hspawns]; simp) (fun _ => hserves) hbegun hbegun'
        fun _ heq => absurd heq hsleep
  have hend : ∀ {k : Kernel} {r : Ret} {log : List Event} (v : Nat), s.k.Spares k w →
      r.fits (u = w) → (s.pc u).serves = r.caller → s.pc u ≠ .workerStart →
      AtWork ((⟨k, s.pc, log⟩ : Sys).finish u r v) w := by
    intro k r log v hk hr hserves hbegun
    refine h.finish v ?_ ?_ hr hserves hbegun
    · rw [finish_k]
      exact hk
    · rw [finish_eq]
      rfl
  have hkeep : s.k.Spares s.k w := .refl s.k w
  have htrigger : s.k.Spares (portTriggerPendsv s.k) w := ⟨rfl, rfl, id, id⟩
  cases go_cases hstep with
  | svcRet hpc =>
    rw [hpc] at hfits
    exact hgo hkeep hfits rfl (Or.inl rfl) (by rw [hpc]; simp) (by simp) (by simp)
  | enter op r hpc =>
    rw [hpc] at hfits
    exact h.runOp [] hfits.1 hfits.2 (by rw [hpc]; rfl) (by rw [hpc]; simp)
  | retry op r hpc =>
    rw [hpc] at hfits
    obtain ⟨hop, rfl, hnot, _⟩ := hfits
    exact h.runOp _ (again_fits hop) hnot (by rw [hpc]; rfl) (by rw [hpc]; simp)
  | block op r hpc =>
    rw [hpc] at hfits
    exact hgo htrigger hfits rfl (Or.inr (by rw [hpc]; rfl)) (by rw [hpc]; simp) (by simp)
      (by simp)
  | check op r hpc => exact h.check hpc
  | wake t v after hpc =>
    rw [hpc] at hfits
    cases after with
    | ret r v' =>
      exact hgo (spares_wakeSection t v) hfits.2 rfl (Or.inr (by rw [hpc]; rfl))
        (by rw [hpc]; simp) (by simp) (by simp)
    | loop =>
      exact hgo (spares_wakeSection t v) hfits rfl (Or.inl rfl) (by rw [hpc]; simp) (by simp)
        (by simp)
  | pend after hpc =>
    rw [hpc] at hfits
    cases after with
    | ret r v => exact hend v htrigger hfits (by rw [hpc]; rfl) (by rw [hpc]; simp)
    | loop =>
      exact hgo htrigger hfits rfl (Or.inl rfl) (by rw [hpc]; simp) (by simp) (by simp)
  | workerStart hpc =>
    rw [hpc] at hfits
    obtain rfl : u = w := hfits
    exact h.start hpc rfl rfl
  | popNone hpc hpop => exact h.pop hpc hstep
  | popSome k item hpc hpop => exact h.pop hpc hstep
  | workerSleep hpc =>
    rw [hpc] at hfits
    obtain rfl : u = w := hfits
    exact h.rest hpc rfl rfl
  | dispatch item hpc => exact h.dispatch hpc
  | create c r s' hpc hrun =>
    rw [hpc] at hfits
    exact h.create hfits (by rw [hpc]; rfl) (by rw [hpc]; simp) hrun
  | queueBuffer p r k ok hpc hrun =>
    rw [hpc] at hfits
    cases ok with
    | true =>
      exact hgo (spares_queueBuffer hrun) hfits rfl (Or.inr (by rw [hpc]; rfl)) (by rw [hpc]; simp)
        (by simp) (by simp)
    | false =>
      exact hgo (spares_queueBuffer hrun) hfits rfl (Or.inr (by rw [hpc]; rfl)) (by rw [hpc]; simp)
        (by simp) (by simp)
  | queueFree p r k hpc hrun =>
    rw [hpc] at hfits
    exact hend _ (spares_queueFree hrun) hfits (by rw [hpc]; rfl) (by rw [hpc]; simp)
  | publish p type r hpc =>
    rw [hpc] at hfits
    exact hend _ (spares_kObjAlloc p type) hfits (by rw [hpc]; rfl) (by rw [hpc]; simp)
  | spawnNone args hpc hfree =>
    rw [hpc] at hfits
    exact hend (r := .app) 0 hkeep hfits.1 (by rw [hpc]; rfl) (by rw [hpc]; simp)
  | spawnTcb args k t hpc hfree =>
    rw [hpc] at hfits
    refine h.goto (spares_getFreeTcb hfree) rfl hfits ?_ (fun _ => Or.inl rfl) (by rw [hpc]; simp)
      (by simp) (by simp)
    exact fun heq => h.free_ne hfree (Option.some.inj heq)
  | spawnStack t args heap alloc hpc hrun =>
    rw [hpc] at hfits
    have hspawns := h.spawns u
    rw [hpc] at hspawns
    have hheap : s.k.Spares { s.k with heap := heap } w := ⟨rfl, rfl, id, id⟩
    by_cases hnull : alloc = 0
    · exact h.goto hheap rfl (by rw [if_pos hnull]; exact hfits.1)
        (by rw [if_pos hnull]; exact hspawns)
        (fun _ => Or.inl (by rw [if_pos hnull]; rfl)) (by rw [hpc]; simp)
        (by rw [if_pos hnull]; simp) (by rw [if_pos hnull]; simp)
    · exact h.goto hheap rfl (by rw [if_neg hnull]; exact hfits)
        (by rw [if_neg hnull]; exact hspawns)
        (fun _ => Or.inl (by rw [if_neg hnull]; rfl)) (by rw [hpc]; simp)
        (by rw [if_neg hnull]; simp) (by rw [if_neg hnull]; simp)
  | spawnFree t hpc =>
    rw [hpc] at hfits
    have hspawns := h.spawns u
    rw [hpc] at hspawns
    have hne : t ≠ w := fun heq => hspawns (congrArg some heq)
    exact hend (r := .app) 0 (spares_freeTcb hne) hfits (by rw [hpc]; rfl) (by rw [hpc]; simp)
  | spawnAdd t alloc args hpc =>
    rw [hpc] at hfits
    have hspawns := h.spawns u
    rw [hpc] at hspawns
    have hne : t ≠ w := fun heq => hspawns (congrArg some heq)
    exact h.born hfits.1 hne (spares_addTask alloc args hne)

theorem AtWork.callObject (handle : Nat) (type : KobjType) (f : Nat → Op) (missing : Nat)
    (h : AtWork s w) (hpc : s.pc u = .app) (hf : ∀ a, (f a).fits .app) :
    AtWork (s.callObject u handle type f missing) w := by
  have hfits := h.pcs u
  rw [hpc] at hfits
  rw [Sys.callObject]
  cases kObjGet s.k handle type with
  | none =>
    exact h.finish (r := .app) missing (.refl s.k w) rfl hfits (by rw [hpc]; rfl)
      (by rw [hpc]; simp)
  | some a =>
    exact h.goto (.refl s.k w) rfl ⟨hf a, hfits⟩ (by simp [Pc.spawns]) (fun _ => Or.inl rfl)
      (by rw [hpc]; simp) (by simp) (by simp)

theorem AtWork.call (c : Call) (h : AtWork s w) (hpc : s.pc u = .app) :
    AtWork (s.call u c) w := by
  have hfits := h.pcs u
  rw [hpc] at hfits
  have hgo : ∀ p : Pc, p.fits (u = w) → p.spawns = none → p.serves = none → p ≠ .workerStart →
      p ≠ .workerSleep → AtWork (s.setPc u p) w :=
    fun p hp hspawns hserves hstart hsleep => h.goto (.refl s.k w) rfl hp
      (by rw [hspawns]; simp) (fun _ => Or.inl hserves) (by rw [hpc]; simp) hstart
      fun _ heq => absurd heq hsleep
  cases c with
  | semTake handle ms => exact h.callObject _ _ _ _ hpc fun _ => trivial
  | semGive handle => exact h.callObject _ _ _ _ hpc fun _ => trivial
  | mutexLock handle ms => exact h.callObject _ _ _ _ hpc fun _ => trivial
  | mutexUnlock handle => exact h.callObject _ _ _ _ hpc fun _ => trivial
  | queuePush handle item ms => exact h.callObject _ _ _ _ hpc fun _ => trivial
  | queuePop handle item ms => exact h.callObject _ _ _ _ hpc fun _ => trivial
  | taskDelay ticks => exact hgo _ ⟨trivial, hfits⟩ rfl rfl (by simp) (by simp)
  | taskYield => exact hgo _ hfits rfl rfl (by simp) (by simp)
  | create c => exact hgo _ hfits rfl rfl (by simp) (by simp)
  | taskCreate args =>
    rw [Sys.call]
    by_cases hacc : args.accepted = true
    · rw [if_pos hacc]
      exact hgo _ ⟨hfits, hacc⟩ rfl rfl (by simp) (by simp)
    · rw [if_neg hacc]
      exact h.finish (r := .app) 0 (.refl s.k w) rfl hfits (by rw [hpc]; rfl) (by rw [hpc]; simp)
  | setUnprivileged =>
    refine h.same ?_ rfl
    have hset : s.k.Spares (s.k.setTcb u fun tcb => { tcb with user := true }) w :=
      spares_setTcb fun _ hst => hst
    exact hset.trans ⟨rfl, rfl, id, id⟩

/-- An item is pushed while the worker is not about to sleep. -/
theorem AtWork.push {item : WorkItem} (h : AtWork s w) (hcaller : item.caller ≠ w)
    (hpc : s.pc w ≠ .workerSleep) :
    AtWork ⟨(kworkPush s.k item).1, s.pc, s.log⟩ w := by
  by_cases hroom : (s.k.kworkTail + 1) % kworkQueueSize ≠ s.k.kworkHead
  · rw [kworkPush_room item hroom]
    have hcontents : RingBuffer.contents (Function.update s.k.kworkBuf s.k.kworkTail item)
        kworkQueueSize s.k.kworkHead ((s.k.kworkTail + 1) % kworkQueueSize) =
        s.k.kwork ++ [Function.update s.k.kworkBuf s.k.kworkTail item s.k.kworkTail] :=
      RingBuffer.contents_push _ h.head h.tail hroom fun i _ hi => Function.update_of_ne hi _ _
    rw [Function.update_self] at hcontents
    generalize hk₁ : { s.k with
      kworkBuf := Function.update s.k.kworkBuf s.k.kworkTail item
      kworkTail := (s.k.kworkTail + 1) % kworkQueueSize } = k₁
    have hwork : k₁.kwork = s.k.kwork ++ [item] := by
      rw [← hk₁]
      exact hcontents
    have hkernel : k₁.kernelTcb = if s.pc w = .workerStart then none else some w := by
      rw [← hk₁]
      exact h.kernel
    have hstate : (k₁.tcb w).state = (s.k.tcb w).state := by
      rw [← hk₁]
    have hrouse : k₁.Spares (rouseWorker k₁) w ∧ ((rouseWorker k₁).tcb w).state ≠ .waiting := by
      by_cases hstart : s.pc w = .workerStart
      · rw [if_pos hstart] at hkernel
        simp only [rouseWorker, hkernel]
        exact ⟨.refl k₁ w, by rw [hstate]; exact h.begun hstart⟩
      · rw [if_neg hstart] at hkernel
        simp only [rouseWorker, hkernel]
        split
        · refine ⟨spares_setTcb fun _ hst => (by cases hst), ?_⟩
          rw [setTcb_tcb_same]
          simp
        · exact ⟨.refl k₁ w, ‹_›⟩
    obtain ⟨hspare, hawake⟩ := hrouse
    have hring : (rouseWorker k₁).kwork = s.k.kwork ++ [item] :=
      (kwork_of_ring hspare.ring).trans hwork
    have hhead : (rouseWorker k₁).kworkHead = k₁.kworkHead :=
      congrArg (fun f => f.2.1) hspare.ring
    have htail : (rouseWorker k₁).kworkTail = k₁.kworkTail :=
      congrArg (fun f => f.2.2) hspare.ring
    refine ⟨h.pcs, h.spawns, h.serves, fun x hx => ?_, hspare.used ?_, hspare.kernel.trans hkernel,
      ?_, ?_, fun _ => hawake, fun hst => absurd hst hawake, fun hp => absurd hp hpc⟩
    · rw [hring, List.mem_append, List.mem_singleton] at hx
      rcases hx with hx | rfl
      · exact h.items x hx
      · exact hcaller
    · rw [← hk₁]
      exact h.used
    · rw [hhead, ← hk₁]
      exact h.head
    · rw [htail, ← hk₁]
      exact Nat.mod_lt _ (by decide)
  · have hfull : kworkPush s.k item = (s.k, minusOne) := by
      rw [kworkPush, if_pos (not_not.mp hroom)]
    rw [hfull]
    exact h.same (.refl s.k w) rfl

/-- The syscall gate. -/
theorem AtWork.svc {item : WorkItem} {log : List Event} (h : AtWork s w)
    (happ : s.pc item.caller = .app) (hpc : s.pc w ≠ .workerSleep) :
    AtWork ⟨svcHandler s.k item, Function.update s.pc item.caller .svcRet, log⟩ w := by
  have hfits := h.pcs item.caller
  rw [happ] at hfits
  have hcaller : item.caller ≠ w := hfits
  generalize hk₁ : ({ s.k with r0 := item.arg0 }.setTcb item.caller fun tcb =>
    { tcb with svcBlocked := true, state := .waiting }) = k₁
  have hfirst : s.k.Spares k₁ w := by
    rw [← hk₁]
    exact (⟨rfl, rfl, id, id⟩ : s.k.Spares { s.k with r0 := item.arg0 } w).trans
      (spares_setTcb fun heq => absurd heq hcaller)
  have hblocked : AtWork ⟨k₁, s.pc, s.log⟩ w := h.same hfirst rfl
  have hpush := hblocked.push hcaller hpc
  have hlast : (kworkPush k₁ item).1.Spares (svcHandler s.k item) w := by
    rw [svcHandler]
    simp only [hk₁]
    split
    · refine Kernel.Spares.trans (⟨rfl, rfl, id, id⟩ :
        (kworkPush k₁ item).1.Spares { (kworkPush k₁ item).1 with r0 := minusOne } w) ?_
      exact spares_setTcb fun heq => absurd heq hcaller
    · exact ⟨rfl, rfl, id, id⟩
  exact hpush.goto hlast rfl hfits (by simp [Pc.spawns]) (fun _ => Or.inl rfl)
    (by rw [happ]; simp) (by simp) (by simp)

theorem spares_sysTick (s : Sys) (w : Tid) : s.k.Spares s.sysTick.k w :=
  sysTick_induction (P := fun s' => s.k.Spares s'.k w) s ⟨rfl, rfl, id, id⟩
    (fun _ t hs' => hs'.trans (spares_tickDelay t))
    (fun _ t hs' => hs'.trans (spares_syncTickTask t))
    fun _ hs' => hs'.trans ⟨rfl, rfl, id, id⟩

/-- Every orderly step keeps the worker at work. -/
theorem AtWork.accept {i : Input} (h : AtWork s w) (horder : Orderly w s i)
    (hstep : s.accept L i = some s') : AtWork s' w := by
  cases i with
  | isr item =>
    obtain rfl := Option.some.inj hstep
    exact h.push horder.2 horder.1
  | system l =>
    obtain ⟨_, htick⟩ | ⟨oldSp, k, _, _, hrun, rfl⟩ | ⟨u, _, _, hthread⟩ := step_cases hstep
    · have hspares := spares_sysTick s w
      have hpc := (sysTick_frame s).1
      rw [← htick] at hspares hpc
      exact h.same hspares hpc
    · exact h.same (spares_switch hrun) rfl
    · cases l with
      | tick => cases hthread
      | pendSV oldSp => cases hthread
      | svc id a0 a1 a2 a3 =>
        rw [Sys.thread] at hthread
        by_cases hc : s.pc u = .app ∧ s.k.nPriv = true
        · rw [if_pos hc] at hthread
          obtain rfl := Option.some.inj hthread
          exact @AtWork.svc _ _ ⟨id, a0, a1, a2, a3, u⟩ _ h hc.1 (horder rfl)
        · rw [if_neg hc] at hthread
          cases hthread
      | call c =>
        rw [Sys.thread] at hthread
        by_cases hc : s.pc u = .app ∧ s.k.nPriv = false
        · rw [if_pos hc] at hthread
          obtain rfl := Option.some.inj hthread
          exact h.call c hc.1
        · rw [if_neg hc] at hthread
          cases hthread
      | compute r0 ram =>
        rw [Sys.thread] at hthread
        by_cases hc : s.pc u = .app
        · rw [if_pos hc] at hthread
          obtain rfl := Option.some.inj hthread
          exact h.same ⟨rfl, rfl, id, id⟩ rfl
        · rw [if_neg hc] at hthread
          cases hthread
      | go => exact h.go hthread

theorem Sys.Started.awake (hL : L.heap.Placed) (h : s.Started L) (t : Tid) :
    (s.k.tcb t).state ≠ .waiting := by
  obtain ⟨heapMem, ram, tasks, s₁, hboot, hstart, ⟨x, _⟩, _⟩ := h
  obtain ⟨⟨k, first⟩, hnext, rfl⟩ := Option.map_eq_some_iff.mp hstart
  obtain ⟨g, hg, _⟩ := booting_tasks hL (booting_reset L heapMem ram x) hboot
  intro hst
  have hold := ((spares_getNext hnext).trans (spares_resume first)).asleep hst
  rw [(hg.tcbs t).state] at hold
  cases hold

theorem Sys.Started.atWork (hL : L.heap.Placed) (h : s.Started L) (hw : s.pc w = .workerStart) :
    AtWork s w := by
  obtain ⟨g, hg⟩ := h.inv hL
  have hfits := hg.coded.pcs w
  rw [hw] at hfits
  obtain rfl : w = g.worker := hfits
  obtain ⟨_, _, hhead, htail⟩ := h.bare
  have hwork : s.k.kwork = [] := by
    rw [Kernel.kwork, hhead, htail]
    rfl
  refine ⟨hg.coded.pcs, fun t ht => hg.coded.worker (hg.scheduled.spawns t _ ht).1, ?_, ?_, ?_,
    hg.coded.kernel, hg.coded.head, hg.coded.tail, fun _ => h.awake hL _, fun _ => hwork,
    fun _ => hwork⟩
  · rw [hw]
    simp [Pc.serves]
  · rw [hwork]
    simp
  · by_contra hfree
    exact hg.coded.worker (hg.scheduled.used _ (Bool.eq_false_iff.mpr hfree))

end AtWork

/-- The worker sleeps only when the ring is empty. -/
theorem worker_sleeps_on_empty_ring {L : Layout} {s₀ s : Sys} {w : Tid} {inputs : List Input}
    (hL : L.heap.Placed) (h₀ : s₀.Started L) (hw : s₀.pc w = .workerStart)
    (hp : Permitted (Orderly w) (Sys.accept L) s₀ inputs)
    (hrun : run (Sys.accept L) s₀ inputs = some s) (hst : (s.k.tcb w).state = .waiting) :
    s.k.kwork = [] := by
  have hend := permitted_invariant (I := fun s => AtWork s w)
    (fun _ _ _ hs horder hl => hs.accept horder hl) (h₀.atWork hL hw) hp hrun
  exact hend.asleep hst

instance (w : Tid) (s : Sys) : (i : Input) → Decidable (Orderly w s i)
  | .system l => inferInstanceAs (Decidable (l.isSvc = true → s.pc w ≠ .workerSleep))
  | .isr item => inferInstanceAs (Decidable (s.pc w ≠ .workerSleep ∧ item.caller ≠ w))

/-- An interrupt posts an item of an unknown kind before the worker first runs. -/
def postsFirst : List Input :=
  .isr ⟨99, 0, 0, 0, 0, 1⟩ :: ([.pendSV 0x2001F000, .go, .go, .go, .go, .go, .pendSV 0x2001F000,
    .go, .go] : List Label).map .system

/-- The worker serves the item and then goes to sleep. -/
theorem worker_sleeps_board : ∃ s₀ s : Sys, s₀.Started boardLayout ∧
    run (Sys.accept boardLayout) s₀ postsFirst = some s ∧ (s.k.tcb 0).state = .waiting ∧
    s.k.kwork = [] := by
  obtain ⟨s₀, hnil, ⟨hw, hp, hend⟩, _⟩ := boardRun_comes []
    (P := fun s => s.pc 0 = .workerStart ∧
      Permitted (Orderly 0) (Sys.accept boardLayout) s postsFirst ∧
      (run (Sys.accept boardLayout) s postsFirst).any
        (fun s => decide ((s.k.tcb 0).state = .waiting)) = true) (by decide +kernel) fun _ hs => hs
  obtain ⟨s₁, hnil', hs₀, _⟩ := boardRun_started hnil
  obtain rfl := Option.some.inj (hnil.symm.trans hnil')
  obtain ⟨s, hrun, hst⟩ := (Option.any_eq_true _ _).mp hend
  have hst' := of_decide_eq_true hst
  exact ⟨s₀, s, hs₀, hrun, hst', worker_sleeps_on_empty_ring boardLayout_placed hs₀ hw hp hrun hst'⟩

/-- The worker, a task beside it at priority 0, and the idle task. -/
def twinTasks : List (Entry × TaskArgs) :=
  [(.worker, ⟨0x08001000, 0, 512, 0⟩), (.app, ⟨0x08002000, 0, 512, 0⟩),
    (.idle, ⟨0x08004000, 7, 512, 0⟩)]

/-- The 50th tick takes the CPU from the worker behind its last look at the ring, and
the other task posts an item. -/
def postsLate : List Label :=
  List.replicate 49 .tick ++ [.pendSV 0x2001F000, .go, .go, .tick, .pendSV 0x2001F000,
    .call .setUnprivileged, .svc syscallDelay 5 0 0 0, .pendSV 0x2001F000, .go]

theorem worker_sleeps_on_item : ∃ s₀ s : Sys, s₀.Started boardLayout ∧ s₀.pc 0 = .workerStart ∧
    run (Sys.accept boardLayout) s₀ (postsLate.map .system) = some s ∧
    (s.k.tcb 0).state = .waiting ∧ s.k.kwork ≠ [] := by
  have hall : (((Sys.reset (fun _ => 0) fun _ => 0).bootTasks boardLayout twinTasks).any fun s₁ =>
      decide ((∀ t : Fin 8, s₁.pc t = .workerStart ↔ t = 0) ∧ s₁.pc 2 = .idle) &&
      (s₁.start boardLayout).any fun s₀ => decide (s₀.pc 0 = .workerStart) &&
      (run (Sys.accept boardLayout) s₀ (postsLate.map .system)).any fun s =>
        decide ((s.k.tcb 0).state = .waiting ∧ s.k.kwork ≠ [])) = true := by decide +kernel
  obtain ⟨s₁, hboot, hall⟩ := (Option.any_eq_true _ _).mp hall
  obtain ⟨hcode, hall⟩ := Bool.and_eq_true_iff.mp hall
  obtain ⟨s₀, hstart, hall⟩ := (Option.any_eq_true _ _).mp hall
  obtain ⟨hw, hall⟩ := Bool.and_eq_true_iff.mp hall
  obtain ⟨s, hrun, hend⟩ := (Option.any_eq_true _ _).mp hall
  obtain ⟨hworker, hidle⟩ := of_decide_eq_true hcode
  exact ⟨s₀, s, ⟨_, _, twinTasks, s₁, hboot, hstart, ⟨0, hworker⟩, 2, hidle⟩,
    of_decide_eq_true hw, hrun, of_decide_eq_true hend⟩

end Crest
