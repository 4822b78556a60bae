import Mathlib.Data.List.Basic
import Mathlib.Data.List.Range
import Mathlib.Logic.Function.Basic
import Mathlib.Tactic.Lemma

/-!
# Ring buffers with one sacrificial cell

A ring of `n` cells holds the items from index `head` up to, but excluding,
index `tail`, both taken modulo `n`. It is empty when the indices agree and full
when advancing `tail` would make them agree, so it holds at most `n - 1` items.
-/

namespace RingBuffer

universe u
variable {α : Type u}

def count (n head tail : Nat) : Nat := (tail + n - head) % n

/-- The items from the oldest to the newest. -/
def contents (cell : Nat → α) (n head tail : Nat) : List α :=
  (List.range (count n head tail)).map fun i => cell ((head + i) % n)

section Index
variable {n head tail : Nat}

theorem count_eq (hh : head < n) (ht : tail < n) :
    count n head tail = if head ≤ tail then tail - head else tail + n - head := by
  by_cases hle : head ≤ tail
  · have hsum : tail + n - head = tail - head + n := by omega
    rw [count, if_pos hle, hsum, Nat.add_mod_right, Nat.mod_eq_of_lt (by omega)]
  · rw [count, if_neg hle, Nat.mod_eq_of_lt (by omega)]

theorem succ_mod (ht : tail < n) : (tail + 1) % n = if tail + 1 = n then 0 else tail + 1 := by
  by_cases hlast : tail + 1 = n
  · rw [if_pos hlast, hlast, Nat.mod_self]
  · rw [if_neg hlast, Nat.mod_eq_of_lt (by omega)]

theorem count_lt (head : Nat) (ht : tail < n) : count n head tail < n :=
  Nat.mod_lt _ (by omega)

theorem count_eq_zero_iff (hh : head < n) (ht : tail < n) :
    count n head tail = 0 ↔ head = tail := by
  rw [count_eq hh ht]
  split <;> omega

/-- The test for a full ring. -/
theorem full_iff (hh : head < n) (ht : tail < n) :
    (tail + 1) % n = head ↔ count n head tail = n - 1 := by
  rw [succ_mod ht, count_eq hh ht]
  split <;> split <;> omega

theorem count_push (hh : head < n) (ht : tail < n) (hroom : (tail + 1) % n ≠ head) :
    count n head ((tail + 1) % n) = count n head tail + 1 := by
  rw [succ_mod ht] at hroom ⊢
  by_cases hlast : tail + 1 = n
  · rw [if_pos hlast] at hroom ⊢
    rw [count_eq hh (by omega), count_eq hh ht]
    split <;> split <;> omega
  · rw [if_neg hlast] at hroom ⊢
    rw [count_eq hh (by omega), count_eq hh ht]
    split <;> split <;> omega

theorem count_pop (hh : head < n) (ht : tail < n) (hitem : head ≠ tail) :
    count n head tail = count n ((head + 1) % n) tail + 1 := by
  rw [succ_mod hh]
  by_cases hlast : head + 1 = n
  · rw [if_pos hlast, count_eq hh ht, count_eq (by omega) ht]
    split <;> split <;> omega
  · rw [if_neg hlast, count_eq hh ht, count_eq (by omega) ht]
    split <;> split <;> omega

/-- The tail index is where the next item goes. -/
theorem index_tail (hh : head < n) (ht : tail < n) : (head + count n head tail) % n = tail := by
  rw [count_eq hh ht]
  by_cases hle : head ≤ tail
  · have hsum : head + (tail - head) = tail := by omega
    rw [if_pos hle, hsum, Nat.mod_eq_of_lt ht]
  · have hsum : head + (tail + n - head) = tail + n := by omega
    rw [if_neg hle, hsum, Nat.add_mod_right, Nat.mod_eq_of_lt ht]

theorem index_ne_tail (hh : head < n) (ht : tail < n) {i : Nat} (hi : i < count n head tail) :
    (head + i) % n ≠ tail := by
  have hlt := count_lt head ht
  rw [count_eq hh ht] at hi hlt
  by_cases hwrap : head + i < n
  · rw [Nat.mod_eq_of_lt hwrap]
    split at hi <;> omega
  · have hmod : (head + i) % n = head + i - n := by
      rw [Nat.mod_eq_sub_mod (by omega), Nat.mod_eq_of_lt (by split at hi <;> omega)]
    rw [hmod]
    split at hi <;> omega

end Index

section Contents
variable {n head tail : Nat} {cell : Nat → α}

theorem length_contents : (contents cell n head tail).length = count n head tail := by
  simp [contents]

theorem contents_eq_nil_iff (hh : head < n) (ht : tail < n) :
    contents cell n head tail = [] ↔ head = tail := by
  rw [← List.length_eq_zero_iff, length_contents, count_eq_zero_iff hh ht]

/-- Writing the cell at the tail and advancing the tail appends an item. -/
theorem contents_push (cell' : Nat → α) (hh : head < n) (ht : tail < n)
    (hroom : (tail + 1) % n ≠ head) (hsame : ∀ i, i < n → i ≠ tail → cell' i = cell i) :
    contents cell' n head ((tail + 1) % n) = contents cell n head tail ++ [cell' tail] := by
  have hlast : (head + count n head tail) % n = tail := index_tail hh ht
  rw [contents, count_push hh ht hroom, List.range_succ, List.map_append, List.map_singleton,
    hlast]
  congr 1
  refine List.map_congr_left fun i hi => ?_
  have hlt := List.mem_range.mp hi
  exact hsame _ (Nat.mod_lt _ (by omega)) (index_ne_tail hh ht hlt)

/-- Advancing the head removes the item found there. -/
theorem contents_pop (hh : head < n) (ht : tail < n) (hitem : head ≠ tail) :
    contents cell n head tail = cell head :: contents cell n ((head + 1) % n) tail := by
  rw [contents, count_pop hh ht hitem, List.range_succ_eq_map, List.map_cons, List.map_map,
    Nat.add_zero, Nat.mod_eq_of_lt hh, contents]
  congr 1
  refine List.map_congr_left fun i _ => ?_
  have hsum : head + (i + 1) = head + 1 + i := by omega
  simp only [Function.comp_apply, Nat.succ_eq_add_one, hsum, Nat.mod_add_mod]

end Contents

end RingBuffer
