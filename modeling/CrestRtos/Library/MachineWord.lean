import Mathlib.Data.Nat.Bitwise
import Mathlib.Tactic.Lemma

/-!
# 32-bit words as natural numbers

Unsigned arithmetic is done on naturals and reduced where the hardware wraps.
`andNot x y` is the C expression `x & ~y`.
-/

namespace MachineWord

def wrap (x : Nat) : Nat := x % 2 ^ 32

def andNot (x y : Nat) : Nat := x - (x &&& y)

theorem wrap_lt (x : Nat) : wrap x < 2 ^ 32 := Nat.mod_lt x (by decide)

theorem wrap_of_lt {x : Nat} (h : x < 2 ^ 32) : wrap x = x := Nat.mod_eq_of_lt h

theorem andNot_le (x y : Nat) : andNot x y ≤ x := Nat.sub_le x _

/-- Clearing the low `k` bits rounds down to a multiple of `2 ^ k`. -/
theorem andNot_two_pow (x k : Nat) : andNot x (2 ^ k - 1) = x - x % 2 ^ k := by
  rw [andNot, Nat.and_two_pow_sub_one_eq_mod]

theorem andNot_one (x : Nat) : andNot x 1 = x - x % 2 := andNot_two_pow x 1

theorem andNot_seven (x : Nat) : andNot x 7 = x - x % 8 := andNot_two_pow x 3

theorem or_one_of_even {x : Nat} (h : x % 2 = 0) : x ||| 1 = x + 1 := by
  have hx : x = 2 ^ 1 * (x / 2) := by omega
  have hor := Nat.two_pow_add_eq_or_of_lt (i := 1) (b := 1) (by decide) (x / 2)
  rw [← hx] at hor
  exact hor.symm

/-- Trailing zero bits, at most `n` of them. -/
def trailingZeros : Nat → Nat → Nat
  | 0, _ => 0
  | n + 1, x => if x % 2 = 0 then trailingZeros n (x / 2) + 1 else 0

/-- `__builtin_ctz`. -/
def ctz (x : Nat) : Nat := trailingZeros 32 x

theorem trailingZeros_two_pow {n k : Nat} (h : k < n) : trailingZeros n (2 ^ k) = k := by
  induction k generalizing n with
  | zero =>
    obtain ⟨m, rfl⟩ : ∃ m, n = m + 1 := ⟨n - 1, by omega⟩
    simp [trailingZeros]
  | succ k ih =>
    obtain ⟨m, rfl⟩ : ∃ m, n = m + 1 := ⟨n - 1, by omega⟩
    have hhalf : 2 ^ (k + 1) / 2 = 2 ^ k := by rw [Nat.pow_succ]; omega
    have heven : 2 ^ (k + 1) % 2 = 0 := by rw [Nat.pow_succ]; omega
    rw [trailingZeros, if_pos heven, hhalf, ih (by omega)]

/-- The position of the lowest bit that is set. -/
theorem trailingZeros_eq {n x i : Nat} (hi : x.testBit i = true)
    (hlow : ∀ j, j < i → x.testBit j = false) (hn : i < n) : trailingZeros n x = i := by
  induction i generalizing n x with
  | zero =>
    obtain ⟨m, rfl⟩ : ∃ m, n = m + 1 := ⟨n - 1, by omega⟩
    have hodd : x % 2 = 1 := Nat.mod_two_eq_one_iff_testBit_zero.mpr hi
    rw [trailingZeros, if_neg (by omega)]
  | succ i ih =>
    obtain ⟨m, rfl⟩ : ∃ m, n = m + 1 := ⟨n - 1, by omega⟩
    have heven : x % 2 = 0 := by
      have hzero := hlow 0 (by omega)
      rw [Nat.testBit_zero, decide_eq_false_iff_not] at hzero
      omega
    have hhalf := ih (n := m) (x := x / 2) (by rw [← Nat.testBit_succ]; exact hi)
      (fun j hj => by rw [← Nat.testBit_succ]; exact hlow (j + 1) (by omega)) (by omega)
    rw [trailingZeros, if_pos heven, hhalf]

theorem ctz_two_pow {k : Nat} (h : k < 32) : ctz (2 ^ k) = k := trailingZeros_two_pow h

end MachineWord
