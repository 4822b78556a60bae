import CrestRtos.System.Boot
import CrestRtos.Library.Transition
import CrestRtos.System.Steps

/-!
# Runs of the system

Every step keeps the invariant, so it holds in every state that a started system
reaches, whatever the order of calls, syscalls, interrupts and switches.
-/

namespace Crest
open IntrusiveList MachineWord Alloc Transition

section Steps
variable {L : Layout} {s s' : Sys} {g : Ghost} {u : Tid}

/-- One step of the kernel code that the running task is in. -/
theorem Inv.go (hL : L.heap.Placed) (h : Inv L s g) (hcur : s.k.currentTask = some u)
    (hpend : s.k.pendsv = false) (hstep : s.go L u = some s') :
    ∃ g', Inv L s' g' ∧ g'.worker = g.worker := by
  cases go_cases hstep with
  | svcRet hpc => exact ⟨g, h.svcRet hcur hpend hpc, rfl⟩
  | enter op r hpc => exact h.runOp hcur hpend hpc
  | retry op r hpc => exact h.retry hcur hpend hpc
  | block op r hpc => exact ⟨g, h.block hcur hpc, rfl⟩
  | check op r hpc => exact ⟨g, h.check hcur hpend hpc, rfl⟩
  | wake t v after hpc => exact ⟨_, h.wake hcur hpend hpc, rfl⟩
  | pend after hpc => exact ⟨g, h.pend hcur hpend hpc, rfl⟩
  | workerStart hpc => exact ⟨g, h.workerStart hcur hpend hpc, rfl⟩
  | popNone hpc hpop => exact ⟨g, h.popNone hcur hpend hpc, rfl⟩
  | popSome k item hpc hpop => exact ⟨_, h.popSome hcur hpend hpc hpop, rfl⟩
  | workerSleep hpc => exact ⟨g, h.workerSleep hcur hpend hpc, rfl⟩
  | dispatch item hpc => exact h.dispatch hcur hpend hpc
  | create c r s' hpc hrun => exact h.create hL hcur hpend hpc hrun
  | queueBuffer p r k ok hpc hrun => exact h.queueBuffer hL hcur hpend hpc hrun
  | queueFree p r k hpc hrun => exact h.queueFree hL hcur hpend hpc hrun
  | publish p type r hpc => exact h.publish hcur hpend hpc
  | spawnNone args hpc hfree =>
    have hspawn := h.spawnTcb hcur hpend hpc
    rw [hfree] at hspawn
    exact ⟨g, hspawn, rfl⟩
  | spawnTcb args k t hpc hfree =>
    have hspawn := h.spawnTcb hcur hpend hpc
    rw [hfree] at hspawn
    exact ⟨g, hspawn, rfl⟩
  | spawnStack t args heap alloc hpc hrun => exact h.spawnStack hL hcur hpend hpc hrun
  | spawnFree t hpc =>
    refine ⟨g, h.spawnEnd hcur hpend (by rw [hpc]; rfl) (by rw [hpc]; rfl)
      (by rw [hpc]; exact fun _ => rfl) ?_, rfl⟩
    exact fun x hx => Function.update_of_ne hx _ _
  | spawnAdd t alloc args hpc => exact h.spawnAdd hcur hpend hpc

/-- One step of the task on the CPU. -/
theorem Inv.thread {l : Label} (hL : L.heap.Placed) (h : Inv L s g)
    (hcur : s.k.currentTask = some u) (hpend : s.k.pendsv = false)
    (hstep : s.thread L u l = some s') : ∃ g', Inv L s' g' ∧ g'.worker = g.worker := by
  cases l with
  | tick => cases hstep
  | pendSV oldSp => cases hstep
  | svc id a0 a1 a2 a3 =>
    rw [Sys.thread] at hstep
    by_cases hc : s.pc u = .app ∧ s.k.nPriv = true
    · rw [if_pos hc] at hstep
      obtain rfl := Option.some.inj hstep
      have hcaller : s.k.currentTask = some (⟨id, a0, a1, a2, a3, u⟩ : WorkItem).caller := hcur
      have hpost := Inv.post h hcaller hpend hc.1
      exact ⟨_, hpost, rfl⟩
    · rw [if_neg hc] at hstep
      cases hstep
  | call c =>
    rw [Sys.thread] at hstep
    by_cases hc : s.pc u = .app ∧ s.k.nPriv = false
    · rw [if_pos hc] at hstep
      obtain rfl := Option.some.inj hstep
      exact ⟨g, h.call c hcur hpend hc.1, rfl⟩
    · rw [if_neg hc] at hstep
      cases hstep
  | compute r0 ram =>
    rw [Sys.thread] at hstep
    by_cases hc : s.pc u = .app
    · rw [if_pos hc] at hstep
      obtain rfl := Option.some.inj hstep
      exact ⟨g, h.compute r0 ram hcur hpend hc, rfl⟩
    · rw [if_neg hc] at hstep
      cases hstep
  | go => exact h.go hL hcur hpend hstep

/-- What a step can be: an interrupt, or a step of the task on the CPU. -/
theorem step_cases {l : Label} (hstep : s.step L l = some s') :
    (l = .tick ∧ s' = s.sysTick) ∨
    (∃ oldSp k, l = .pendSV oldSp ∧ s.k.pendsv = true ∧
      portSwitchContext L s.k oldSp = some k ∧ s' = { s with k := k }) ∨
    ∃ u, s.k.pendsv = false ∧ s.k.currentTask = some u ∧ s.thread L u l = some s' := by
  cases l with
  | tick =>
    rw [Sys.step] at hstep
    exact Or.inl ⟨rfl, (Option.some.inj hstep).symm⟩
  | pendSV oldSp =>
    rw [Sys.step] at hstep
    cases hp : s.k.pendsv with
    | false =>
      rw [hp] at hstep
      cases hstep
    | true =>
      rw [hp, if_pos rfl] at hstep
      obtain ⟨k, hrun, rfl⟩ := Option.map_eq_some_iff.mp hstep
      exact Or.inr (Or.inl ⟨oldSp, k, rfl, rfl, hrun, rfl⟩)
  | _ =>
    simp only [Sys.step] at hstep
    split at hstep
    · cases hstep
    · rename_i hp
      split at hstep
      · cases hstep
      · rename_i u hcur
        exact Or.inr (Or.inr ⟨u, Bool.eq_false_iff.mpr hp, hcur, hstep⟩)

theorem Inv.step {l : Label} (hL : L.heap.Placed) (h : Inv L s g) (hstep : s.step L l = some s') :
    ∃ g', Inv L s' g' ∧ g'.worker = g.worker := by
  obtain ⟨_, htick⟩ | ⟨oldSp, k, _, _, hrun, rfl⟩ | ⟨u, hpend, hcur, hthread⟩ := step_cases hstep
  · rw [htick]
    exact h.sysTick
  · exact ⟨g, h.pendSV hrun, rfl⟩
  · exact h.thread hL hcur hpend hthread

end Steps

/-- The states of a system that has started. -/
def Sys.Reached (L : Layout) (s : Sys) : Prop :=
  ∃ s₀, s₀.Started L ∧ Reachable (Sys.step L) s₀ s

theorem Sys.Started.reached {L : Layout} {s : Sys} (h : s.Started L) : s.Reached L :=
  ⟨s, h, [], rfl⟩

theorem Sys.Reached.step {L : Layout} {s s' : Sys} {l : Label} (h : s.Reached L)
    (hstep : s.step L l = some s') : s'.Reached L := by
  obtain ⟨s₀, hs₀, ls, hrun⟩ := h
  exact ⟨s₀, hs₀, ls ++ [l], run_append.mpr ⟨s, hrun, run_cons.mpr ⟨s', hstep, rfl⟩⟩⟩

/-- A reachable state reaches only reachable states. -/
theorem Sys.Reached.run {L : Layout} {s s' : Sys} {labels : List Label} (h : s.Reached L)
    (hrun : Transition.run (Sys.step L) s labels = some s') : s'.Reached L := by
  obtain ⟨s₀, hs₀, before, hbefore⟩ := h
  exact ⟨s₀, hs₀, before ++ labels, run_append.mpr ⟨s, hbefore, hrun⟩⟩

/-- A predicate that holds at the start and is kept by every step, from states
that satisfy the invariant, holds in every state of the system. -/
theorem Sys.Reached.induction {L : Layout} {P : Sys → Prop} (hL : L.heap.Placed)
    (hstart : ∀ s, s.Started L → P s)
    (hstep : ∀ s g l s', Inv L s g → P s → s.step L l = some s' → P s') {s : Sys}
    (h : s.Reached L) : P s := by
  obtain ⟨s₀, hs₀, hreach⟩ := h
  have hboth := reachable_invariant (I := fun s => (∃ g, Inv L s g) ∧ P s)
    (fun s l s' hs hl => by
      obtain ⟨⟨g, hg⟩, hp⟩ := hs
      obtain ⟨g', hg', _⟩ := hg.step hL hl
      exact ⟨⟨g', hg'⟩, hstep s g l s' hg hp hl⟩) ⟨hs₀.inv hL, hstart s₀ hs₀⟩ hreach
  exact hboth.2

theorem Sys.Reached.inv {L : Layout} {s : Sys} (hL : L.heap.Placed) (h : s.Reached L) :
    ∃ g, Inv L s g :=
  h.induction hL (fun _ hs => hs.inv hL) fun _ _ _ _ hg _ hl => by
    obtain ⟨g', hg', _⟩ := hg.step hL hl
    exact ⟨g', hg'⟩

/-! ## A small system

One worker, two application tasks and the idle task, with `.bss` ending at
0x20001000. Its runs are the concrete states that the general results are tried
on. -/

def boardLayout : Layout := linkerLayout 0x20001000

def boardTasks : List (Entry × TaskArgs) :=
  [(.worker, ⟨0x08001000, 0, 512, 0⟩), (.app, ⟨0x08002000, 1, 512, 0⟩),
    (.app, ⟨0x08003000, 2, 512, 0⟩), (.idle, ⟨0x08004000, 7, 512, 0⟩)]

def boardBoot : Option Sys :=
  (Sys.reset (fun _ => 0) (fun _ => 0)).bootTasks boardLayout boardTasks

/-- The worker finds no work and sleeps, and task 1 comes to run. -/
def boardReady : List Label :=
  [.pendSV 0x2001F000, .go, .go, .go, .go, .pendSV 0x2001F000]

/-- The state after a run of the small system. -/
def boardRun (labels : List Label) : Option Sys :=
  (boardBoot.bind (Sys.start boardLayout)).bind fun s => run (Sys.step boardLayout) s labels

theorem boardLayout_placed : boardLayout.heap.Placed :=
  (linkerLayout_placed 0x20001000 (by decide) (by decide)).1

theorem boardRun_started {labels : List Label} {s : Sys} (h : boardRun labels = some s) :
    ∃ s₀, boardRun [] = some s₀ ∧ s₀.Started boardLayout ∧
      run (Sys.step boardLayout) s₀ labels = some s := by
  obtain ⟨s₀, hstart, hrun⟩ := Option.bind_eq_some_iff.mp h
  obtain ⟨s₁, hboot, hfirst⟩ := Option.bind_eq_some_iff.mp hstart
  have hcode : (boardBoot.all fun s => decide ((∀ t : Fin 8, s.pc t = .workerStart ↔ t = 0) ∧
      s.pc 3 = .idle)) = true := by decide +kernel
  rw [hboot] at hcode
  obtain ⟨hworker, hidle⟩ := of_decide_eq_true hcode
  exact ⟨s₀, Option.bind_eq_some_iff.mpr ⟨s₀, hstart, rfl⟩,
    ⟨_, _, boardTasks, s₁, hboot, hfirst, ⟨0, hworker⟩, 3, hidle⟩, hrun⟩

theorem boardRun_reached {labels : List Label} {s : Sys} (h : boardRun labels = some s) :
    s.Reached boardLayout := by
  obtain ⟨s₀, _, hs₀, hrun⟩ := boardRun_started h
  exact ⟨s₀, hs₀, labels, hrun⟩

/-- A run of the small system by evaluation, with what holds of every state. -/
theorem boardRun_comes (labels : List Label) {P Q : Sys → Prop} [DecidablePred P]
    (h : (boardRun labels).any (fun s => decide (P s)) = true)
    (hall : ∀ s, s.Reached boardLayout → Q s) : ∃ s, boardRun labels = some s ∧ P s ∧ Q s := by
  cases hrun : boardRun labels with
  | none =>
    rw [hrun] at h
    cases h
  | some s =>
    rw [hrun] at h
    exact ⟨s, rfl, of_decide_eq_true h, hall s (boardRun_reached hrun)⟩

/-- The run goes on from the state it has come to. -/
theorem boardRun_append {labels : List Label} (more : List Label) {s : Sys} {P : Sys → Prop}
    [DecidablePred P]
    (hs : boardRun labels = some s)
    (h : (boardRun (labels ++ more)).any (fun s => decide (P s)) = true) :
    ∃ s', boardRun (labels ++ more) = some s' ∧ run (Sys.step boardLayout) s more = some s' ∧
      P s' := by
  obtain ⟨s', hrun, hp, _⟩ := boardRun_comes _ h fun _ hs => hs
  obtain ⟨s₀, hstart, hlabels⟩ := Option.bind_eq_some_iff.mp hrun
  obtain ⟨t, hfirst, hlast⟩ := run_append.mp hlabels
  have ht : boardRun labels = some t := Option.bind_eq_some_iff.mpr ⟨s₀, hstart, hfirst⟩
  obtain rfl := Option.some.inj (hs.symm.trans ht)
  exact ⟨s', hrun, hlast, hp⟩

/-- One label more. -/
theorem boardRun_snoc {labels : List Label} {l : Label} {s : Sys} {P : Sys → Prop}
    [DecidablePred P] (hs : boardRun labels = some s)
    (h : (boardRun (labels ++ [l])).any (fun s => decide (P s)) = true) :
    ∃ s', boardRun (labels ++ [l]) = some s' ∧ s.step boardLayout l = some s' ∧ P s' := by
  obtain ⟨s', hrun, hlast, hp⟩ := boardRun_append _ hs h
  obtain ⟨t', hstep, hend⟩ := run_cons.mp hlast
  obtain rfl := Option.some.inj hend
  exact ⟨t', hrun, hstep, hp⟩

theorem boardRun_at (labels : List Label) {P : Sys → Prop} [DecidablePred P]
    (h : (boardRun labels).any (fun s => decide (P s)) = true) :
    ∃ s, s.Reached boardLayout ∧ P s := by
  obtain ⟨s, _, hp, hs⟩ := boardRun_comes _ h fun _ hs => hs
  exact ⟨s, hs, hp⟩

end Crest
