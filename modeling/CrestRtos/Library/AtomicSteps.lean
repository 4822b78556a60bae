import CrestRtos.Library.CriticalSection
import Mathlib.Logic.Relation

/-!
# Interrupted code as a sequence of atomic steps

To everything else that runs, code between `enterCritical` and `exitCritical` is one step.
Whatever interrupts it, the code does its atomic steps one after the other, with steps of
others in between.
-/

namespace CriticalSection
open Relation

/-- Atomic steps, one after the other. What comes behind a step depends on the memory that the
step finds. -/
inductive Atomic (σ α : Type)
  | ret (v : α)
  | step (f : σ → σ) (next : σ → Atomic σ α)

variable {σ α β : Type}

def Others (env : Env σ) (s s' : σ) : Prop := ∃ n, s' = env n s

/-- From `s` the steps come to `s'` and return `v`, with any steps of others before each of
them and behind the last. -/
inductive Atomic.Serial (env : Env σ) : Atomic σ α → σ → α → σ → Prop
  | ret {s s' : σ} (v : α) (h : ReflTransGen (Others env) s s') : Serial env (.ret v) s v s'
  | step {s s₁ s' : σ} {f : σ → σ} {next : σ → Atomic σ α} {v : α}
      (h : ReflTransGen (Others env) s s₁) (hrest : Serial env (next s₁) (f s₁) v s') :
      Serial env (.step f next) s v s'

/-- Steps from `s` to `s'` with nothing of others in between, and what is left behind them. -/
inductive Atomic.Own : Atomic σ α → σ → Atomic σ α → σ → Prop
  | step (f : σ → σ) (next : σ → Atomic σ α) (s : σ) : Own (.step f next) s (next s) (f s)
  | more {a : Atomic σ α} {s s₁ : σ} {f : σ → σ} {next : σ → Atomic σ α}
      (h : Own a s (.step f next) s₁) : Own a s (next s₁) (f s₁)

/-- The steps of `a` up to `a'`, each with the memory before and behind it. -/
inductive Atomic.Trace : Atomic σ α → List (σ × σ) → Atomic σ α → Prop
  | nil (a : Atomic σ α) : Trace a [] a
  | cons {a a₁ a' : Atomic σ α} {s s₁ : σ} {l : List (σ × σ)} (h : a.Own s a₁ s₁)
      (hrest : Trace a₁ l a') : Trace a ((s, s₁) :: l) a'

/-- `c`, begun with a clear mask at the memory `s`, does the steps `a` and returns with a
clear mask. -/
def Unmasked (env : Env σ) (c : Code σ α) (s : σ) (a : Atomic σ α) : Prop :=
  ∀ cpu, cpu.primask = false → cpu.mem = s → ∃ r, c env cpu = some r ∧
    r.cpu.primask = false ∧ a.Serial env s r.value r.cpu.mem

/-- `c`, begun under a mask at `s`, leaves its section with the memory `s'`, and does the
steps `a` behind it. -/
def Masked (env : Env σ) (c : Code σ α) (s s' : σ) (a : Atomic σ α) : Prop :=
  ∀ cpu, cpu.primask = true → cpu.mem = s → ∃ r, c env cpu = some r ∧
    r.cpu.primask = false ∧ a.Serial env s' r.value r.cpu.mem

/-- One instruction that leaves the mask alone: its value, and what it makes of the memory. -/
def Does (c : Code σ α) (val : σ → α) (g : σ → σ) : Prop :=
  ∀ env cpu, ∃ r, c env cpu = some r ∧ r.value = val (cpu.fetch env).mem ∧
    r.cpu.mem = g (cpu.fetch env).mem ∧ r.cpu.primask = cpu.primask

section Instructions
variable {g : σ → σ}

theorem load_does (val : σ → α) : Does (load val) val id :=
  fun _ _ => ⟨_, rfl, rfl, rfl, rfl⟩

theorem store_does : Does (store g) (fun _ => ()) g :=
  fun _ _ => ⟨_, rfl, rfl, rfl, rfl⟩

theorem mark_does : Does (mark g) (fun _ => ()) g :=
  fun _ _ => ⟨_, rfl, rfl, rfl, rfl⟩

theorem request_does : Does (request g) (fun _ => ()) g :=
  fun _ _ => ⟨_, rfl, rfl, rfl, rfl⟩

end Instructions

section Steps
variable {env : Env σ} {a : Atomic σ α} {b : Atomic σ β} {s s₁ s' : σ} {v : α} {c : Code σ α}
  {f : α → Code σ β} {next : σ → Atomic σ β} {val : σ → α} {g : σ → σ}

theorem Atomic.Serial.before (h : ReflTransGen (Others env) s s₁) (ha : a.Serial env s₁ v s') :
    a.Serial env s v s' := by
  cases ha with
  | ret v hlast => exact .ret v (h.trans hlast)
  | step hfirst hrest => exact .step (h.trans hfirst) hrest

theorem bind_run {cpu : Cpu σ} {r₁ : Ran σ α} {r₂ : Ran σ β} (h₁ : c env cpu = some r₁)
    (h₂ : f r₁.value env r₁.cpu = some r₂) :
    (c >>= f) env cpu = some ⟨r₂.value, r₂.cpu, r₂.acts ++ r₁.acts⟩ := by
  change Code.bind c f env cpu = _
  rw [Code.bind, h₁]
  simp only [h₂]

theorem code_pure_bind (v : α) (f : α → Code σ β) : (pure v : Code σ α) >>= f = f v := by
  funext env cpu
  change Code.bind (Code.pure v) f env cpu = f v env cpu
  simp only [Code.bind, Code.pure, List.append_nil]
  cases f v env cpu <;> rfl

theorem code_bind_assoc {γ : Type} (c : Code σ α) (f : α → Code σ β) (g : β → Code σ γ) :
    c >>= f >>= g = c >>= fun v => f v >>= g := by
  funext env cpu
  change Code.bind (Code.bind c f) g env cpu = Code.bind c (fun v => Code.bind (f v) g) env cpu
  simp only [Code.bind]
  cases c env cpu with
  | none => rfl
  | some r =>
    simp only
    cases f r.value env r.cpu with
    | none => rfl
    | some r₁ =>
      simp only
      cases g r₁.value env r₁.cpu with
      | none => rfl
      | some r₂ => simp only [List.append_assoc]

/-- An instruction outside of a section finds what others have done. -/
theorem fetch_clear {cpu : Cpu σ} (hclear : cpu.primask = false) :
    ReflTransGen (Others env) cpu.mem (cpu.fetch env).mem := by
  rw [Cpu.fetch, hclear]
  exact .single ⟨cpu.clock, rfl⟩

theorem fetch_masked {cpu : Cpu σ} (hmask : cpu.primask = true) :
    (cpu.fetch env).mem = cpu.mem := by
  rw [Cpu.fetch, hmask]
  rfl

theorem unmasked_pure (v : α) (s : σ) : Unmasked env (pure v : Code σ α) s (.ret v) := by
  rintro cpu hclear rfl
  exact ⟨_, rfl, hclear, .ret v .refl⟩

theorem unmasked_enter {f : Bool → Code σ β}
    (h : ∀ s₁, ReflTransGen (Others env) s s₁ → Masked env (f false) s₁ (g s₁) (next s₁)) :
    Unmasked env (enterCritical >>= f) s (.step g next) := by
  rintro cpu hclear rfl
  have hmask : (cpu.fetch env).primask = false := hclear
  obtain ⟨r, hrun, hend, hserial⟩ := h _ (fetch_clear hclear)
    { cpu.fetch env with primask := true } rfl rfl
  rw [← hmask] at hrun
  exact ⟨_, bind_run rfl hrun, hend, .step (fetch_clear hclear) hserial⟩

/-- An empty step. -/
theorem Unmasked.idle {c : Code σ β} (h : Unmasked env c s (next s)) (hg : g s = s) :
    Unmasked env c s (.step g next) := by
  rintro cpu hclear rfl
  obtain ⟨r, hrun, hend, hserial⟩ := h cpu hclear rfl
  refine ⟨r, hrun, hend, .step .refl ?_⟩
  rw [hg]
  exact hserial

/-- An instruction outside of a section is an atomic step. -/
theorem Does.unmasked (hc : Does c val g)
    (h : ∀ s₁, ReflTransGen (Others env) s s₁ → Unmasked env (f (val s₁)) (g s₁) (next s₁)) :
    Unmasked env (c >>= f) s (.step g next) := by
  rintro cpu hclear rfl
  obtain ⟨r₁, hfirst, hval, hmem, hmask⟩ := hc env cpu
  obtain ⟨r, hrun, hend, hserial⟩ :=
    h _ (fetch_clear hclear) r₁.cpu (hmask.trans hclear) hmem
  rw [← hval] at hrun
  exact ⟨_, bind_run hfirst hrun, hend, .step (fetch_clear hclear) hserial⟩

/-- A load whose value others do not change is none. -/
theorem Does.read (hc : Does c val id)
    (h : ∀ s₁, ReflTransGen (Others env) s s₁ → Unmasked env (f (val s₁)) s₁ b) :
    Unmasked env (c >>= f) s b := by
  rintro cpu hclear rfl
  obtain ⟨r₁, hfirst, hval, hmem, hmask⟩ := hc env cpu
  obtain ⟨r, hrun, hend, hserial⟩ :=
    h _ (fetch_clear hclear) r₁.cpu (hmask.trans hclear) hmem
  rw [← hval] at hrun
  exact ⟨_, bind_run hfirst hrun, hend, hserial.before (fetch_clear hclear)⟩

theorem Does.masked (hc : Does c val g) (h : Masked env (f (val s)) (g s) s' b) :
    Masked env (c >>= f) s s' b := by
  rintro cpu hmask rfl
  obtain ⟨r₁, hfirst, hval, hmem, hsame⟩ := hc env cpu
  rw [fetch_masked hmask] at hval hmem
  obtain ⟨r, hrun, hend⟩ := h r₁.cpu (hsame.trans hmask) hmem
  rw [← hval] at hrun
  exact ⟨_, bind_run hfirst hrun, hend⟩

theorem masked_exit {f : Unit → Code σ β} (h : Unmasked env (f ()) s b) :
    Masked env (exitCritical false >>= f) s s b := by
  rintro cpu hmask rfl
  obtain ⟨r, hrun, hend⟩ :=
    h { cpu.fetch env with primask := false } rfl (fetch_masked hmask)
  exact ⟨_, bind_run rfl hrun, hend⟩

end Steps

end CriticalSection
