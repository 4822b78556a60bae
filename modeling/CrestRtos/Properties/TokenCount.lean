import CrestRtos.Properties.IsrGive

/-!
# The counter of a semaphore at its bounds

A give of a semaphore that nobody waits for adds one to an `int`. As long as no give finds
the counter at its largest value the counter is initial count and gives less the takes; a
give that does leaves it at the most negative value.
-/

namespace Crest
open MachineWord Alloc Transition

def Pc.gives : Pc → Option Nat
  | .enter (.semGive a) _ => some a
  | _ => none

/-- The running task is about to give a semaphore whose counter is full. -/
def Sys.Spills (s : Sys) : Prop :=
  ∃ u ∈ s.k.currentTask, ∃ a ∈ (s.pc u).gives,
    (s.k.sem a).count = intMax ∧ (s.k.sem a).waitList = none

instance (s : Sys) : Decidable s.Spills :=
  inferInstanceAs (Decidable (∃ u ∈ s.k.currentTask, ∃ a ∈ (s.pc u).gives,
    (s.k.sem a).count = intMax ∧ (s.k.sem a).waitList = none))

/-- The counter is in its range and exact, and a take is granted while a token is there. -/
structure Account.Counted (x : Account) (k : Kernel) (a : Nat) : Prop where
  range : 0 ≤ (k.sem a).count ∧ (k.sem a).count ≤ intMax
  tokens : x.initial + x.gives = (k.sem a).count + x.takes
  granted : x.takes < x.initial + x.gives →
    ∀ direct t ms, (takeSection direct k a t ms).2 = .ret 0

theorem lasting_true : Account.Lasting fun _ => True := ⟨fun _ h => h, fun _ h => h⟩

/-- What a run without a spilling give keeps of objects and log. -/
def Metered (k : Kernel) (log : List Event) : Prop := ∀ a, TokensWhile (fun _ => True) k log a

section Step
variable {L : Layout} {s s' : Sys} {g g' : Ghost} {l : Label}

/-- A step that comes to a give is a step of the giving task. -/
theorem go_of_enter {u : Tid} {op : Op} {r : Ret} (hpend : s.k.pendsv = false)
    (hcur : s.k.currentTask = some u) (hpc : s.pc u = .enter op r) (hl : l ≠ .tick)
    (hstep : s.step L l = some s') : l = .go := by
  obtain ⟨htick, _⟩ | ⟨_, _, _, hset, _⟩ | ⟨v, _, hv, hthread⟩ := step_cases hstep
  · exact absurd htick hl
  · rw [hpend] at hset
    cases hset
  · obtain rfl : u = v := Option.some.inj (hcur.symm.trans hv)
    cases l with
    | tick => exact absurd rfl hl
    | go => rfl
    | pendSV oldSp => cases hthread
    | svc id a0 a1 a2 a3 => simp [Sys.thread, hpc] at hthread
    | call c => simp [Sys.thread, hpc] at hthread
    | compute r0 ram => simp [Sys.thread, hpc] at hthread

theorem Metered.quiet {k k' : Kernel} {n log : List Event} (h : Metered k log)
    (hquiet : k.Quiet k') (hn : ∀ e ∈ n, e.object = none) : Metered k' (n ++ log) :=
  fun a => (h a).quiet hquiet hn

theorem Metered.step (hL : L.heap.Placed) (hg : Inv L s g) (hfit : s.k.CountsFit)
    (h : Metered s.k s.log) (hspill : ¬ (l = .go ∧ s.Spills)) (hstep : s.step L l = some s') :
    Metered s'.k s'.log := by
  by_cases htick : l = .tick
  · subst htick
    obtain rfl : s.sysTick = s' := Option.some.inj hstep
    obtain ⟨⟨n, hlog, hn⟩, hquiet⟩ := passed_tick s
    rw [hlog]
    exact h.quiet hquiet fun e he => object_none (hn e he)
  obtain ⟨g', hg', _⟩ := hg.step hL hstep
  refine (hg.deed hL hstep).keeps hg hg' ?_ ?_ ?_ h
  · exact fun k k' n log hm hquiet hn _ => hm.quiet hquiet fun e he => object_none (hn e he)
  · intro u op op' r pre hcur hpend hpc hpass hready hm a
    have hnoted := hm.quiet (Kernel.Quiet.refl s.k) hpass.object
    refine (hnoted a).enter lasting_true ?_ hready
    rintro rfl _ _ _ _ hnone
    refine lt_of_le_of_ne (hfit a).2 fun hfull => hspill ?_
    rcases hpc with hpc | ⟨_, w, hw⟩
    · exact ⟨go_of_enter hpend hcur hpc htick hstep, u, hcur, a, by rw [hpc]; rfl, hfull, hnone⟩
    · cases hw
  · exact fun k c p log hm _ _ a => (hm a).create

end Step

theorem Account.Balanced.counted {x : Account} {k : Kernel} {a : Nat} (h : x.Balanced k a)
    (hfit : (k.sem a).count ≤ intMax) : x.Counted k a := by
  refine ⟨⟨h.nonneg, hfit⟩, h.tokens, fun hleft direct t ms => ?_⟩
  have htokens := h.tokens
  have hpos : 0 < (k.sem a).count := by omega
  rw [takeSection, if_pos hpos]

/-- In a run without a give at the largest value every counter is exact. -/
theorem semaphore_counted {L : Layout} {s₀ s : Sys} {labels : List Label} (hL : L.heap.Placed)
    (hs₀ : s₀.Started L)
    (hp : Permitted (fun s l => ¬ (l = .go ∧ s.Spills)) (Sys.step L) s₀ labels)
    (hrun : run (Sys.step L) s₀ labels = some s) :
    ∀ a x, account s.log a = some x → x.Counted s.k a := by
  obtain ⟨hlog, hobjects, _⟩ := hs₀.bare
  have hstart : Metered s₀.k s₀.log := by
    rw [hlog]
    intro a x hx
    cases hx
  have hfit₀ : s₀.k.CountsFit := by
    simp only [Kernel.objects, Prod.mk.injEq] at hobjects
    intro a
    rw [← hobjects.1]
    exact (by decide : (-2 ^ 31 : Int) ≤ 0 ∧ (0 : Int) ≤ intMax)
  have hend := permitted_invariant
    (I := fun s => (∃ g, Inv L s g) ∧ s.k.CountsFit ∧ Metered s.k s.log)
    (fun s l s' hs hl hstep => by
      obtain ⟨⟨g, hg⟩, hfit, hm⟩ := hs
      obtain ⟨g', hg', _⟩ := hg.step hL hstep
      exact ⟨⟨g', hg'⟩, step_fits hfit hstep, hm.step hL hg hfit hl hstep⟩)
    ⟨hs₀.inv hL, hfit₀, hstart⟩ hp hrun
  intro a x hx
  exact (hend.2.2 a x hx trivial).counted (hend.2.1 a).2

/-- Task 1 creates a semaphore. -/
def createSem (initial : Nat) : List Label :=
  boardReady ++ [.call (.create (.sem initial)), .go, .go]

/-- A counter one below the largest value takes one give. -/
theorem semaphore_counted_full : ∃ s₀ s : Sys, s₀.Started boardLayout ∧
    run (Sys.step boardLayout) s₀ (createSem 0x7FFFFFFE ++ [.call (.semGive 0x10000), .go]) =
      some s ∧
    account s.log 0x20006428 = some ⟨0x7FFFFFFE, 1, 0⟩ ∧
    ∀ a x, account s.log a = some x → x.Counted s.k a := by
  obtain ⟨s₀, hstart, hperm, _⟩ := boardRun_comes [] (P := fun s₀ =>
    Permitted (fun s _ => ¬ s.Spills) (Sys.step boardLayout) s₀
      (createSem 0x7FFFFFFE ++ [.call (.semGive 0x10000), .go]))
    (by decide +kernel) fun _ hs => hs
  obtain ⟨s, hend, hacc, _⟩ := boardRun_comes
    (createSem 0x7FFFFFFE ++ [.call (.semGive 0x10000), .go])
    (P := fun s => account s.log 0x20006428 = some ⟨0x7FFFFFFE, 1, 0⟩)
    (by decide +kernel) fun _ hs => hs
  obtain ⟨s₁, hstart₁, hs₁, hrun⟩ := boardRun_started hend
  obtain rfl := Option.some.inj (hstart.symm.trans hstart₁)
  exact ⟨s₀, s, hs₁, hrun, hacc, semaphore_counted boardLayout_placed hs₁
    (hperm.mono fun s l hnot hspill => hnot hspill.2) hrun⟩

/-- A semaphore created with the largest value and given once is negative, and a take blocks. -/
theorem semaphore_spilled : ∃ (s : Sys) (x : Account), s.Reached boardLayout ∧
    account s.log 0x20006428 = some x ∧ x.takes < x.initial + x.gives ∧
    (s.k.sem 0x20006428).count = -2 ^ 31 ∧
    (takeSection true s.k 0x20006428 1 waitForever).2 = .block ∧
    ¬ x.Counted s.k 0x20006428 := by
  obtain ⟨s, hs, hacc, hcount, hblock⟩ := boardRun_at
    (createSem 0x7FFFFFFF ++ [.call (.semGive 0x10000), .go])
    (P := fun s => account s.log 0x20006428 = some ⟨0x7FFFFFFF, 1, 0⟩ ∧
      (s.k.sem 0x20006428).count = -2 ^ 31 ∧
      (takeSection true s.k 0x20006428 1 waitForever).2 = .block) (by decide +kernel)
  refine ⟨s, _, hs, hacc, by decide, hcount, hblock, fun h => ?_⟩
  have hnonneg := h.range.1
  rw [hcount] at hnonneg
  exact absurd hnonneg (by decide)

end Crest
