import CrestRtos.Library.ByteMemory
import Mathlib.Data.Set.Image

/-!
# Accesses to memory

An action takes a memory to the outcomes it can have, each a memory and a result. It
writes a byte that can come out different from what it was, and reads a byte that anything
else depends on.
-/

namespace MemoryAccess
open ByteMemory

universe u
variable {R : Type u}

abbrev Action (R : Type u) := Memory → Set (Memory × R)

def setByte (x : Nat) (b : UInt8) (o : Memory × R) : Memory × R := (Function.update o.1 x b, o.2)

def Writes (f : Action R) (m : Memory) (x : Nat) : Prop :=
  ∃ b, ∃ o ∈ f (Function.update m x b), o.1 x ≠ b

/-- Some other value of the byte makes a difference, apart from the byte itself. -/
def Reads (f : Action R) (m : Memory) (x : Nat) : Prop :=
  ∃ b, Set.image (setByte x 0) (f (Function.update m x b)) ≠ Set.image (setByte x 0) (f m)

/-- Whatever the byte is, it stays and makes no difference. -/
def Ignores (f : Action R) (m : Memory) (x : Nat) : Prop :=
  ∀ b, f (Function.update m x b) = Set.image (setByte x b) (f m)

section Rules
variable {f : Action R} {m : Memory} {x : Nat} {b c : UInt8} {o : Memory × R}

theorem setByte_setByte : setByte x c (setByte x b o) = setByte x c o := by
  simp only [setByte, Function.update_idem]

theorem Ignores.not_writes (h : Ignores f m x) : ¬ Writes f m x := by
  rintro ⟨b, o, ho, hne⟩
  rw [h b] at ho
  obtain ⟨o', _, rfl⟩ := ho
  exact hne (Function.update_self _ _ _)

theorem Ignores.not_reads (h : Ignores f m x) : ¬ Reads f m x := by
  rintro ⟨b, hne⟩
  refine hne ?_
  rw [h b, Set.image_image]
  exact Set.image_congr fun o _ => setByte_setByte

/-- The memory stays as it is, and the result does not depend on it. -/
theorem ignores_of_still (results : Set R) (h : ∀ m, f m = Set.image (Prod.mk m) results) :
    Ignores f m x := by
  intro b
  rw [h, h, Set.image_image]
  rfl

theorem not_writes_of_kept (h : ∀ m, ∀ o ∈ f m, o.1 = m) : ¬ Writes f m x := by
  rintro ⟨b, o, ho, hne⟩
  refine hne ?_
  rw [h _ o ho]
  exact Function.update_self _ _ _

/-- A byte that is overwritten without a look at it. -/
theorem not_reads_of_same (h : ∀ b, f (Function.update m x b) = f m) : ¬ Reads f m x := by
  rintro ⟨b, hne⟩
  exact hne (by rw [h b])

/-- With the byte changed there is an outcome whose result was not possible before. -/
theorem reads_of_new (ho : o ∈ f (Function.update m x b)) (hnew : ∀ o' ∈ f m, o'.2 ≠ o.2) :
    Reads f m x := by
  refine ⟨b, fun heq => ?_⟩
  have hmem := Set.mem_image_of_mem (setByte x 0) ho
  rw [heq] at hmem
  obtain ⟨o', ho', hsame⟩ := hmem
  have hresult := congrArg Prod.snd hsame
  exact hnew o' ho' hresult

/-- A result is lost when the byte is changed. -/
theorem reads_of_lost (ho : o ∈ f m) (hlost : ∀ o' ∈ f (Function.update m x b), o'.2 ≠ o.2) :
    Reads f m x := by
  refine ⟨b, fun heq => ?_⟩
  have hmem := Set.mem_image_of_mem (setByte x 0) ho
  rw [← heq] at hmem
  obtain ⟨o', ho', hsame⟩ := hmem
  have hresult := congrArg Prod.snd hsame
  exact hlost o' ho' hresult

end Rules

end MemoryAccess
