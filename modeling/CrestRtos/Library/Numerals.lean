import Mathlib.Data.Nat.Digits.Lemmas
import Mathlib.Tactic.Lemma

/-!
# Numerals in ASCII

The canonical text of a number in a base of at most 16, and reading a text back.
-/

namespace Numerals

/-- What an ASCII character counts as a digit, in either case. -/
def digitValue (c : UInt8) : Option Nat :=
  if 48 ≤ c ∧ c ≤ 57 then some (c.toNat - 48)
  else if 97 ≤ c ∧ c ≤ 102 then some (c.toNat - 87)
  else if 65 ≤ c ∧ c ≤ 70 then some (c.toNat - 55)
  else none

/-- One digit more. -/
def readDigit (base acc : Nat) (c : UInt8) : Option Nat :=
  (digitValue c).bind fun d => if d < base then some (base * acc + d) else none

/-- The value of a text of digits. -/
def readNumber (base : Nat) (cs : List UInt8) : Option Nat := cs.foldlM (readDigit base) 0

/-- The text of a number with the given digits, the lowest digit last. -/
def numeral (digits : List UInt8) (base v : Nat) : List UInt8 :=
  if v = 0 then [48] else ((Nat.digits base v).map fun d => digits.getD d 0).reverse

/-- No digit is superfluous. -/
def NoLeadingZero (cs : List UInt8) : Prop := cs ≠ [] ∧ (cs.head? = some 48 → cs = [48])

/-- A list of ASCII digits for a base. -/
structure DigitList (digits : List UInt8) (base : Nat) : Prop where
  oneLt : 1 < base
  value : ∀ d < base, digitValue (digits.getD d 0) = some d

section Numeral
variable {digits : List UInt8} {base v acc : Nat} {l : List Nat}

theorem readDigits (h : DigitList digits base) (hl : ∀ d ∈ l, d < base) :
    ((l.map fun d => digits.getD d 0).reverse).foldlM (readDigit base) acc =
      some (base ^ l.length * acc + Nat.ofDigits base l) := by
  induction l with
  | nil => simp [Nat.ofDigits]
  | cons d l ih =>
    have hd := hl d List.mem_cons_self
    have hstep : ∀ x, readDigit base x (digits.getD d 0) = some (base * x + d) := fun x => by
      rw [readDigit, h.value d hd, Option.bind_some, if_pos hd]
    rw [List.map_cons, List.reverse_cons, List.foldlM_append,
      ih fun x hx => hl x (List.mem_cons_of_mem d hx)]
    simp only [Option.bind_eq_bind, Option.bind_some, List.foldlM_cons, List.foldlM_nil, hstep,
      List.length_cons, Nat.ofDigits_cons]
    congr 1
    ring

/-- Reading back gives the number. -/
theorem readNumber_numeral (h : DigitList digits base) (v : Nat) :
    readNumber base (numeral digits base v) = some v := by
  rw [numeral]
  by_cases hv : v = 0
  · rw [if_pos hv, hv]
    have hbase := h.oneLt
    have hzero : readDigit base 0 48 = some 0 := by
      have hdigit : digitValue 48 = some 0 := rfl
      simp only [readDigit, hdigit, Option.bind_some, Nat.mul_zero, Nat.add_zero]
      exact if_pos (by omega)
    simp [readNumber, hzero]
  · rw [if_neg hv, readNumber, readDigits h fun d hd => Nat.digits_lt_base h.oneLt hd,
      Nat.ofDigits_digits, Nat.mul_zero, Nat.zero_add]

/-- The first character is the highest digit, which is not zero. -/
theorem numeral_noLeadingZero (h : DigitList digits base) (v : Nat) :
    NoLeadingZero (numeral digits base v) := by
  rw [numeral]
  by_cases hv : v = 0
  · rw [if_pos hv]
    exact ⟨by simp, fun _ => rfl⟩
  · rw [if_neg hv]
    have hne : Nat.digits base v ≠ [] := Nat.digits_ne_nil_iff_ne_zero.mpr hv
    refine ⟨by simpa using hne, fun hhead => ?_⟩
    rw [List.head?_reverse, List.getLast?_map, List.getLast?_eq_getLast_of_ne_nil hne] at hhead
    have hlast : digits.getD ((Nat.digits base v).getLast hne) 0 = 48 := Option.some.inj hhead
    have hlt := Nat.digits_lt_base h.oneLt (List.getLast_mem hne)
    have hvalue := h.value _ hlt
    rw [hlast] at hvalue
    have hzero : digitValue 48 = some 0 := rfl
    rw [hzero] at hvalue
    exact absurd (Option.some.inj hvalue).symm (Nat.getLast_digit_ne_zero base hv)

end Numeral

end Numerals
