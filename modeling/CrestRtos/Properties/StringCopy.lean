import CrestRtos.Kernel.LibcStubs

/-!
# The bytes that `strncpy` stores

Both loops of `strncpy` count with `n`. The first one leaves before the decrement when it has
copied the NUL, so the second one stores a byte more than there is room for.
-/

namespace Crest
open ByteMemory CString

/-- The first `n` characters, or all of them and NULs. -/
def padded (n : Nat) (cs : List UInt8) : List UInt8 :=
  cs.take n ++ List.replicate (n - cs.length) 0

/-- Exactly the `n` bytes from `dest` on are stored. -/
structure CopiesExactly (m : Memory) (dest n : Nat) (cs : List UInt8) (r : Memory × Nat) :
    Prop where
  bytes : BytesAt r.1 dest (padded n cs)
  last : r.2 ≤ dest + n
  outside : ∀ x, x < dest ∨ dest + n ≤ x → r.1 x = m x

section Loops
variable {m : Memory} {dest src n : Nat} {cs : List UInt8}

theorem padLoop_eq (m : Memory) (d n : Nat) :
    padLoop m d n = (storeBytes m d (List.replicate n 0), d + n) := by
  induction n generalizing m d with
  | zero => simp [padLoop]
  | succ n ih =>
    rw [padLoop, ih, List.replicate_succ, storeBytes_cons]
    congr 1
    omega

/-- A string that is at least `n` long is cut off. -/
theorem copyLoop_long (hsrc : StringAt m src cs) (hsep : Separate dest n src (cs.length + 1))
    (hn : n ≤ cs.length) :
    copyLoop m dest src n = ⟨storeBytes m dest (cs.take n), dest + n, 0⟩ := by
  induction n generalizing m dest src cs with
  | zero => simp [copyLoop]
  | succ n ih =>
    cases cs with
    | nil => simp at hn
    | cons c cs =>
      simp only [List.length_cons, Separate] at hn hsep
      obtain ⟨rfl, hc, hrest⟩ := stringAt_cons.mp hsrc
      have hkept : StringAt (Function.update m dest (m src)) (src + 1) cs :=
        hrest.congr fun x hlo hhi => Function.update_of_ne (by omega) _ m
      rw [copyLoop, if_neg hc, ih hkept (by rw [Separate]; omega) (by omega), List.take_succ_cons,
        storeBytes_cons]
      congr 1
      omega

/-- A shorter one is copied with its NUL, which the counter does not see. -/
theorem copyLoop_short (hsrc : StringAt m src cs) (hsep : Separate dest n src (cs.length + 1))
    (hn : cs.length < n) :
    copyLoop m dest src n =
      ⟨storeBytes m dest (cs ++ [0]), dest + cs.length + 1, n - cs.length⟩ := by
  induction n generalizing m dest src cs with
  | zero => cases hn
  | succ n ih =>
    cases cs with
    | nil =>
      rw [copyLoop, stringAt_nil.mp hsrc]
      simp [storeBytes_cons]
    | cons c cs =>
      simp only [List.length_cons, Separate] at hn hsep
      obtain ⟨rfl, hc, hrest⟩ := stringAt_cons.mp hsrc
      have hkept : StringAt (Function.update m dest (m src)) (src + 1) cs :=
        hrest.congr fun x hlo hhi => Function.update_of_ne (by omega) _ m
      rw [copyLoop, if_neg hc, ih hkept (by rw [Separate]; omega) (by omega), List.cons_append,
        storeBytes_cons, List.length_cons]
      congr 1 <;> omega

theorem strncpy_long (hsrc : StringAt m src cs) (hsep : Separate dest n src (cs.length + 1))
    (hn : n ≤ cs.length) :
    strncpy m dest src n = (storeBytes m dest (cs.take n), dest + n) := by
  rw [strncpy, copyLoop_long hsrc hsep hn, padLoop_eq]
  simp

/-- `n + 1` bytes are stored. -/
theorem strncpy_short (hsrc : StringAt m src cs) (hsep : Separate dest n src (cs.length + 1))
    (hn : cs.length < n) : (strncpy m dest src n).2 = dest + n + 1 := by
  rw [strncpy, copyLoop_short hsrc hsep hn, padLoop_eq]
  dsimp only
  omega

end Loops

/-- `strncpy` keeps to its `n` bytes if and only if the string has at least `n` characters. -/
theorem strncpy_exact_iff {m : Memory} {dest src n : Nat} {cs : List UInt8}
    (hsrc : StringAt m src cs) (hsep : Separate dest n src (cs.length + 1)) :
    CopiesExactly m dest n cs (strncpy m dest src n) ↔ n ≤ cs.length := by
  constructor
  · intro h
    by_contra hlt
    have hlast := h.last
    rw [strncpy_short hsrc hsep (by omega)] at hlast
    omega
  · intro hn
    have hlen : (cs.take n).length = n := List.length_take_of_le hn
    have hpadded : padded n cs = cs.take n := by simp [padded, Nat.sub_eq_zero_of_le hn]
    rw [strncpy_long hsrc hsep hn]
    refine ⟨?_, le_rfl, fun x hx => storeBytes_outside (by omega)⟩
    rw [hpadded]
    exact bytesAt_storeBytes m dest (cs.take n)

/-- "A" at 100, and 7 everywhere else. -/
def letterA : Memory := storeBytes (fun _ => 7) 100 [65, 0]

theorem letterA_string : StringAt letterA 100 [65] :=
  stringAt_iff.mpr ⟨bytesAt_storeBytes _ 100 [65, 0], by simp⟩

theorem strncpy_exact_one :
    CopiesExactly letterA 200 1 [65] (strncpy letterA 200 100 1) ↔ 1 ≤ 1 :=
  strncpy_exact_iff letterA_string (Or.inr (by decide))

/-- With room for two bytes a third one is stored. -/
theorem strncpy_third_byte : StringAt letterA 100 [65] ∧ Separate 200 2 100 2 ∧
    letterA 202 = 7 ∧ (strncpy letterA 200 100 2).1 202 = 0 ∧
    ¬ CopiesExactly letterA 200 2 [65] (strncpy letterA 200 100 2) := by
  have hstored : (strncpy letterA 200 100 2).1 202 = 0 := by decide
  refine ⟨letterA_string, Or.inr (by decide), by decide, hstored, fun h => ?_⟩
  have hkept := hstored.symm.trans (h.outside 202 (Or.inr (by decide)))
  exact absurd hkept (by decide)

end Crest
