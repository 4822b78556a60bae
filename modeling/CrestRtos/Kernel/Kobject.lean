import CrestRtos.Kernel.State

/-!
# Handle table

`kernel/kobject.c`. A handle packs the generation of a slot over its index.
-/

namespace Crest

def packHandle (gen idx : Nat) : Nat := gen <<< 16 ||| idx
def handleIndex (h : Nat) : Nat := h % 2 ^ 16
def handleGen (h : Nat) : Nat := h / 2 ^ 16 % 2 ^ 16

/-- The generation after `gen`: 16 bits, and never 0. -/
def nextGen (gen : Nat) : Nat :=
  let gen := (gen + 1) % 2 ^ 16
  if gen = 0 then 1 else gen

def kObjAlloc (k : Kernel) (ptr : Nat) (type : KobjType) : Kernel × Nat :=
  if ptr = 0 then (k, kobjInvalid)
  else
    match (List.range kobjMax).find? (fun i => !(k.table i).inUse) with
    | none => (k, kobjInvalid)
    | some i =>
      let gen := nextGen (k.table i).gen
      ({ k with table := Function.update k.table i ⟨ptr, type, true, gen⟩ }, packHandle gen i)

def kObjGet (k : Kernel) (handle : Nat) (type : KobjType) : Option Nat :=
  if handle = kobjInvalid then none
  else
    let idx := handleIndex handle
    if kobjMax ≤ idx then none
    else
      let e := k.table idx
      if e.inUse = false then none
      else if e.gen ≠ handleGen handle then none
      else if e.type ≠ type then none
      else if e.ptr = 0 then none
      else some e.ptr

def kObjFree (k : Kernel) (handle : Nat) : Kernel :=
  if handle = kobjInvalid then k
  else
    let idx := handleIndex handle
    if kobjMax ≤ idx then k
    else
      let e := k.table idx
      if e.inUse = true ∧ e.gen = handleGen handle then
        { k with table := Function.update k.table idx ⟨0, .queue, false, nextGen e.gen⟩ }
      else k

theorem handleIndex_packHandle {gen i : Nat} (hi : i < 2 ^ 16) :
    handleIndex (packHandle gen i) = i := by
  rw [handleIndex, packHandle, Nat.or_mod_two_pow, Nat.shiftLeft_eq, Nat.mul_mod_left, Nat.zero_or,
    Nat.mod_eq_of_lt hi]

theorem packHandle_eq {gen i : Nat} (hi : i < 2 ^ 16) : packHandle gen i = gen * 2 ^ 16 + i := by
  rw [packHandle, ← Nat.shiftLeft_add_eq_or_of_lt hi, Nat.shiftLeft_eq]

theorem handleGen_packHandle {gen i : Nat} (hgen : gen < 2 ^ 16) (hi : i < 2 ^ 16) :
    handleGen (packHandle gen i) = gen := by
  rw [packHandle_eq hi, handleGen]
  omega

theorem packHandle_lt {gen i : Nat} (hgen : gen < 2 ^ 16) (hi : i < 2 ^ 16) :
    packHandle gen i < 2 ^ 32 := by
  rw [packHandle_eq hi]
  omega

/-- A word is packed from its two halves. -/
theorem packHandle_halves {h : Nat} (hh : h < 2 ^ 32) :
    packHandle (handleGen h) (handleIndex h) = h := by
  rw [packHandle_eq (show handleIndex h < 2 ^ 16 from Nat.mod_lt h (by decide)), handleGen,
    handleIndex]
  omega

theorem packHandle_valid {gen i : Nat} (hi : i < kobjMax) : packHandle gen i ≠ kobjInvalid := by
  intro heq
  have hlow : handleIndex (packHandle gen i) = i := handleIndex_packHandle (hi.trans (by decide))
  rw [heq] at hlow
  exact absurd (hlow ▸ hi) (by decide)

theorem nextGen_lt (gen : Nat) : nextGen gen < 2 ^ 16 := by
  simp only [nextGen]
  by_cases hzero : (gen + 1) % 2 ^ 16 = 0
  · rw [if_pos hzero]
    decide
  · rw [if_neg hzero]
    exact Nat.mod_lt _ (by decide)

/-- What a successful lookup has checked. -/
theorem kObjGet_checks {k : Kernel} {h a : Nat} {type : KobjType}
    (hget : kObjGet k h type = some a) :
    handleIndex h < kobjMax ∧ (k.table (handleIndex h)).inUse = true ∧
      (k.table (handleIndex h)).gen = handleGen h ∧ (k.table (handleIndex h)).type = type ∧
      (k.table (handleIndex h)).ptr = a := by
  simp only [kObjGet] at hget
  by_cases hinv : h = kobjInvalid
  · rw [if_pos hinv] at hget
    cases hget
  rw [if_neg hinv] at hget
  by_cases hidx : kobjMax ≤ handleIndex h
  · rw [if_pos hidx] at hget
    cases hget
  rw [if_neg hidx] at hget
  by_cases huse : (k.table (handleIndex h)).inUse = false
  · rw [if_pos huse] at hget
    cases hget
  rw [if_neg huse] at hget
  by_cases hgen : (k.table (handleIndex h)).gen ≠ handleGen h
  · rw [if_pos hgen] at hget
    cases hget
  rw [if_neg hgen] at hget
  by_cases htype : (k.table (handleIndex h)).type ≠ type
  · rw [if_pos htype] at hget
    cases hget
  rw [if_neg htype] at hget
  by_cases hptr : (k.table (handleIndex h)).ptr = 0
  · rw [if_pos hptr] at hget
    cases hget
  rw [if_neg hptr] at hget
  exact ⟨Nat.lt_of_not_le hidx, by simpa using huse, not_not.mp hgen, not_not.mp htype,
    Option.some.inj hget⟩

theorem kObjGet_some {k : Kernel} {h a : Nat} {type : KobjType} (hget : kObjGet k h type = some a) :
    ∃ i, i < kobjMax ∧ (k.table i).inUse = true ∧ (k.table i).type = type ∧
      (k.table i).ptr = a := by
  obtain ⟨hidx, huse, _, htype, hptr⟩ := kObjGet_checks hget
  exact ⟨handleIndex h, hidx, huse, htype, hptr⟩

end Crest
