import Mathlib.Logic.Basic
import Mathlib.Data.List.Basic

/-!
# Code with critical sections

Straight-line code on a CPU with an interrupt mask, over any memory `σ`. While the
mask is clear, whatever else runs may change the memory before each instruction.
The interrupted code finds the mask as it left it, since only a clear mask lets
anything else run. A run lists the points at which the code marks a task as waiting
and requests the switch interrupt.

`Runs e p m c Q` is the rule format: from the mask `p`, with a task marked before
when `m` holds, every return of `c` meets `Q`, and no request that comes after a
mark is made under a mask other than `e`.
-/

namespace CriticalSection

inductive Action
  | marked
  | requested (masked : Bool)
  deriving DecidableEq, Repr

structure Cpu (σ : Type) where
  mem : σ
  primask : Bool
  clock : Nat

/-- The end of a run: its result, and its actions, newest first. -/
structure Ran (σ α : Type) where
  value : α
  cpu : Cpu σ
  acts : List Action

/-- What everything else does to the memory before the instruction at a clock value. -/
abbrev Env (σ : Type) := Nat → σ → σ

/-- `none` is a run that does not return. -/
def Code (σ α : Type) := Env σ → Cpu σ → Option (Ran σ α)

variable {σ α β : Type}

/-- The CPU as the next instruction finds it. -/
def Cpu.fetch (env : Env σ) (cpu : Cpu σ) : Cpu σ where
  mem := if cpu.primask then cpu.mem else env cpu.clock cpu.mem
  primask := cpu.primask
  clock := cpu.clock + 1

def Code.pure (v : α) : Code σ α := fun _ cpu => some ⟨v, cpu, []⟩

def Code.bind (c : Code σ α) (f : α → Code σ β) : Code σ β := fun env cpu =>
  match c env cpu with
  | none => none
  | some r =>
    match f r.value env r.cpu with
    | none => none
    | some r' => some ⟨r'.value, r'.cpu, r'.acts ++ r.acts⟩

instance : Monad (Code σ) where
  pure := Code.pure
  bind := Code.bind

/-- A fault, or a loop without end. -/
def stuck : Code σ α := fun _ _ => none

/-- Read the mask and set it. -/
def enterCritical : Code σ Bool := fun env cpu =>
  let cpu := cpu.fetch env
  some ⟨cpu.primask, { cpu with primask := true }, []⟩

/-- Write a mask value back. -/
def exitCritical (pm : Bool) : Code σ Unit := fun env cpu =>
  some ⟨(), { cpu.fetch env with primask := pm }, []⟩

def currentMask : Code σ Bool := fun env cpu =>
  let cpu := cpu.fetch env
  some ⟨cpu.primask, cpu, []⟩

def load (f : σ → α) : Code σ α := fun env cpu =>
  let cpu := cpu.fetch env
  some ⟨f cpu.mem, cpu, []⟩

def store (f : σ → σ) : Code σ Unit := fun env cpu =>
  let cpu := cpu.fetch env
  some ⟨(), { cpu with mem := f cpu.mem }, []⟩

/-- A store that marks a task as waiting. -/
def mark (f : σ → σ) : Code σ Unit := fun env cpu =>
  let cpu := cpu.fetch env
  some ⟨(), { cpu with mem := f cpu.mem }, [.marked]⟩

/-- The store that requests the switch interrupt. -/
def request (f : σ → σ) : Code σ Unit := fun env cpu =>
  let cpu := cpu.fetch env
  some ⟨(), { cpu with mem := f cpu.mem }, [.requested cpu.primask]⟩

/-- Every request that comes after a mark is made under the mask `e`. -/
def Calm (e : Bool) : List Action → Prop
  | [] => True
  | .marked :: before => Calm e before
  | .requested masked :: before => (.marked ∈ before → masked = e) ∧ Calm e before

def hasMark (acts : List Action) : Bool := decide (Action.marked ∈ acts)

/-- `c` under `d` critical sections of its caller, and the masks that the caller
finds when control comes back to each of them, the innermost last. -/
def nested (c : Code σ α) : Nat → Code σ (List Bool)
  | 0 => do
    let _ ← c
    return []
  | d + 1 => do
    let pm ← enterCritical
    let inner ← nested c d
    let now ← currentMask
    exitCritical pm
    return now :: inner

/-! ## Rules -/

def Runs (e p m : Bool) (c : Code σ α) (Q : α → Bool → Bool → Prop) : Prop :=
  ∀ env cpu past r, cpu.primask = p → hasMark past = m → Calm e past → c env cpu = some r →
    Calm e (r.acts ++ past) ∧ Q r.value r.cpu.primask (hasMark (r.acts ++ past))

section Rules
variable {e p m pm : Bool} {c : Code σ α} {f : α → Code σ β}
  {Q Q' : α → Bool → Bool → Prop} {R : β → Bool → Bool → Prop}

theorem Runs.mono (h : Runs e p m c Q) (hQ : ∀ v p m, Q v p m → Q' v p m) : Runs e p m c Q' := by
  intro env cpu past r hp hm hcalm hrun
  obtain ⟨hacts, hpost⟩ := h env cpu past r hp hm hcalm hrun
  exact ⟨hacts, hQ _ _ _ hpost⟩

theorem Runs.bind (h : Runs e p m c Q) (hf : ∀ v p m, Q v p m → Runs e p m (f v) R) :
    Runs e p m (c >>= f) R := by
  intro env cpu past r hp hm hcalm hrun
  change Code.bind c f env cpu = some r at hrun
  rw [Code.bind] at hrun
  cases hfirst : c env cpu with
  | none =>
    rw [hfirst] at hrun
    cases hrun
  | some r₁ =>
    rw [hfirst] at hrun
    obtain ⟨hacts, hmid⟩ := h env cpu past r₁ hp hm hcalm hfirst
    cases hsecond : f r₁.value env r₁.cpu with
    | none =>
      simp only [hsecond] at hrun
      cases hrun
    | some r₂ =>
      simp only [hsecond] at hrun
      obtain rfl := Option.some.inj hrun
      have hlast := hf _ _ _ hmid env r₁.cpu (r₁.acts ++ past) r₂ rfl rfl hacts hsecond
      rw [← List.append_assoc] at hlast
      exact hlast

theorem runs_pure {v : α} (h : Q v p m) : Runs e p m (pure v : Code σ α) Q := by
  intro env cpu past r hp hm hcalm hrun
  obtain rfl := Option.some.inj hrun
  subst hp hm
  exact ⟨hcalm, h⟩

theorem runs_stuck : Runs e p m (stuck : Code σ α) Q := by
  intro env cpu past r _ _ _ hrun
  cases hrun

theorem runs_enter {Q : Bool → Bool → Bool → Prop} (h : Q p true m) :
    Runs e p m (enterCritical : Code σ Bool) Q := by
  intro env cpu past r hp hm hcalm hrun
  obtain rfl := Option.some.inj hrun
  subst hp hm
  exact ⟨hcalm, h⟩

theorem runs_exit {Q : Unit → Bool → Bool → Prop} (h : Q () pm m) :
    Runs e p m (exitCritical pm : Code σ Unit) Q := by
  intro env cpu past r hp hm hcalm hrun
  obtain rfl := Option.some.inj hrun
  subst hm
  exact ⟨hcalm, h⟩

theorem runs_load {g : σ → α} (h : ∀ s, Q (g s) p m) : Runs e p m (load g) Q := by
  intro env cpu past r hp hm hcalm hrun
  obtain rfl := Option.some.inj hrun
  subst hp hm
  exact ⟨hcalm, h _⟩

theorem runs_store {g : σ → σ} {Q : Unit → Bool → Bool → Prop} (h : Q () p m) :
    Runs e p m (store g) Q := by
  intro env cpu past r hp hm hcalm hrun
  obtain rfl := Option.some.inj hrun
  subst hp hm
  exact ⟨hcalm, h⟩

theorem runs_mark {g : σ → σ} {Q : Unit → Bool → Bool → Prop} (h : Q () p true) :
    Runs e p m (mark g) Q := by
  intro env cpu past r hp hm hcalm hrun
  obtain rfl := Option.some.inj hrun
  subst hp
  have hmark : hasMark ([.marked] ++ past) = true := decide_eq_true List.mem_cons_self
  rw [hmark]
  exact ⟨hcalm, h⟩

/-- The one rule with a condition: after a mark, the mask has to be back at `e`. -/
theorem runs_request {g : σ → σ} {Q : Unit → Bool → Bool → Prop} (hcalm : m = true → p = e)
    (h : Q () p m) : Runs e p m (request g) Q := by
  intro env cpu past r hp hm hpast hrun
  obtain rfl := Option.some.inj hrun
  subst hp hm
  have hmark : hasMark ([.requested cpu.primask] ++ past) = hasMark past := by
    simp [hasMark]
  refine ⟨⟨fun hin => hcalm (decide_eq_true hin), hpast⟩, ?_⟩
  change Q () cpu.primask (hasMark ([.requested cpu.primask] ++ past))
  rw [hmark]
  exact h

end Rules

/-- Returns with the mask `e`. -/
abbrev Returns (e : Bool) : α → Bool → Bool → Prop := fun _ p _ => p = e

/-- Returns with the mask `e` and has marked nobody. -/
abbrev Keeps (e m : Bool) : α → Bool → Bool → Prop := fun _ p m' => p = e ∧ m' = m

/-- Called with any mask, the code returns with it, and it requests the switch that
follows a mark under no other. -/
def Balanced (c : Code σ α) : Prop := ∀ e, Runs e e false c (Returns e)

/-- Balanced, also where the caller has marked a task before. -/
def Steady (c : Code σ α) : Prop := ∀ e m, Runs e e m c (Returns e)

/-- Steady, and the code marks nobody itself. -/
def Quiet (c : Code σ α) : Prop := ∀ e m, Runs e e m c (Keeps e m)

section Steps
variable {e p m pm : Bool} {f : α → Code σ β} {g : Unit → Code σ β} {v : α}
  {R : β → Bool → Bool → Prop} {Q : α → Bool → Bool → Prop}

theorem enter_then {f : Bool → Code σ β} (h : Runs e true m (f p) R) :
    Runs e p m (enterCritical >>= f) R :=
  (runs_enter (Q := fun v p m => Runs e p m (f v) R) h).bind fun _ _ _ hnext => hnext

theorem exit_then (h : Runs e pm m (g ()) R) : Runs e p m (exitCritical pm >>= g) R :=
  (runs_exit (Q := fun v p m => Runs e p m (g v) R) h).bind fun _ _ _ hnext => hnext

theorem load_then {l : σ → α} (h : ∀ s, Runs e p m (f (l s)) R) :
    Runs e p m (load l >>= f) R :=
  (runs_load (Q := fun v p m => Runs e p m (f v) R) h).bind fun _ _ _ hnext => hnext

theorem store_then {s : σ → σ} (h : Runs e p m (g ()) R) : Runs e p m (store s >>= g) R :=
  (runs_store (Q := fun v p m => Runs e p m (g v) R) h).bind fun _ _ _ hnext => hnext

theorem mark_then {s : σ → σ} (h : Runs e p true (g ()) R) : Runs e p m (mark s >>= g) R :=
  (runs_mark (Q := fun v p m => Runs e p m (g v) R) h).bind fun _ _ _ hnext => hnext

theorem request_then {s : σ → σ} (hcalm : m = true → p = e) (h : Runs e p m (g ()) R) :
    Runs e p m (request s >>= g) R :=
  (runs_request (Q := fun v p m => Runs e p m (g v) R) hcalm h).bind fun _ _ _ hnext => hnext

/-- The end of a path: `exit_critical(pm); return v;` -/
theorem exit_return (h : Q v pm m) :
    Runs e p m (exitCritical pm >>= fun _ => (pure v : Code σ α)) Q :=
  exit_then (runs_pure h)

end Steps

section Calls
variable {e m : Bool} {c : Code σ α} {f : α → Code σ β} {R : β → Bool → Bool → Prop}

theorem Quiet.steady (h : Quiet c) : Steady c :=
  fun e m => (h e m).mono fun _ _ _ hkeep => hkeep.1

theorem Steady.balanced (h : Steady c) : Balanced c := fun e => h e false

theorem Quiet.then (h : Quiet c) (hf : ∀ v, Runs e e m (f v) R) : Runs e e m (c >>= f) R := by
  refine (h e m).bind fun v p m' hkeep => ?_
  obtain ⟨rfl, rfl⟩ := hkeep
  exact hf v

theorem Steady.then (h : Steady c) (hf : ∀ v m, Runs e e m (f v) R) :
    Runs e e m (c >>= f) R := by
  refine (h e m).bind fun v p m' hreturn => ?_
  obtain rfl := hreturn
  exact hf v m'

theorem quiet_pure (v : α) : Quiet (pure v : Code σ α) := fun _ _ => runs_pure ⟨rfl, rfl⟩

theorem quiet_stuck : Quiet (stuck : Code σ α) := fun _ _ => runs_stuck

theorem quiet_load (g : σ → α) : Quiet (load g) := fun _ _ => runs_load fun _ => ⟨rfl, rfl⟩

theorem quiet_store (g : σ → σ) : Quiet (store g) := fun _ _ => runs_store ⟨rfl, rfl⟩

theorem quiet_request (g : σ → σ) : Quiet (request g) :=
  fun _ _ => runs_request (fun _ => rfl) ⟨rfl, rfl⟩

theorem quiet_bind (h : Quiet c) (hf : ∀ v, Quiet (f v)) : Quiet (c >>= f) :=
  fun e m => h.then fun v => hf v e m

theorem steady_bind (h : Steady c) (hf : ∀ v, Steady (f v)) : Steady (c >>= f) :=
  fun e _ => h.then fun v m => hf v e m

theorem steady_ite {cond : Prop} [Decidable cond] {c' : Code σ α} (h : Steady c)
    (h' : Steady c') : Steady (if cond then c else c') := by
  split
  · exact h
  · exact h'

theorem quiet_forM {l : List β} {body : β → Code σ PUnit} (h : ∀ x, Quiet (body x)) :
    Quiet (l.forM body) := by
  induction l with
  | nil => exact quiet_pure PUnit.unit
  | cons x l ih => exact quiet_bind (h x) fun _ => ih

/-- What a run of balanced code gives. -/
theorem Balanced.run (h : Balanced c) {env : Env σ} {cpu : Cpu σ} {r : Ran σ α}
    (hrun : c env cpu = some r) : r.cpu.primask = cpu.primask ∧ Calm cpu.primask r.acts := by
  obtain ⟨hcalm, hmask⟩ := h cpu.primask env cpu [] r rfl rfl trivial hrun
  rw [List.append_nil] at hcalm
  exact ⟨hmask, hcalm⟩

/-- In a caller's own critical sections the mask is still set when the code returns,
at each depth, and comes back at the end. -/
theorem Balanced.nested (h : Balanced c) (d : Nat) {env : Env σ} {cpu : Cpu σ}
    {r : Ran σ (List Bool)} (hrun : nested c d env cpu = some r) :
    r.value = List.replicate d true ∧ r.cpu.primask = cpu.primask := by
  induction d generalizing cpu r with
  | zero =>
    change Code.bind c (fun _ => Code.pure []) env cpu = some r at hrun
    simp only [Code.bind, Code.pure] at hrun
    cases hin : c env cpu with
    | none =>
      rw [hin] at hrun
      cases hrun
    | some r₁ =>
      rw [hin] at hrun
      obtain rfl := Option.some.inj hrun
      exact ⟨rfl, (h.run hin).1⟩
  | succ d ih =>
    change Code.bind enterCritical (fun pm => Code.bind (CriticalSection.nested c d) fun inner =>
      Code.bind currentMask fun now => Code.bind (exitCritical pm) fun _ =>
        Code.pure (now :: inner)) env cpu = some r at hrun
    simp only [Code.bind, enterCritical, currentMask, exitCritical, Code.pure] at hrun
    cases hin : CriticalSection.nested c d env { cpu.fetch env with primask := true } with
    | none =>
      rw [hin] at hrun
      cases hrun
    | some r₁ =>
      rw [hin] at hrun
      obtain rfl := Option.some.inj hrun
      obtain ⟨hvalue, hmask⟩ := ih hin
      refine ⟨?_, rfl⟩
      simp only [Cpu.fetch, hvalue, hmask, List.replicate_succ]

end Calls

end CriticalSection
