import CrestRtos.Library.ByteMemory
import Mathlib.Data.List.GetD

/-!
# Strings and runs of bytes in memory

A `C` string is its characters up to the first NUL. `storeBytes` puts a run of bytes
at an address.
-/

namespace CString
open ByteMemory

/-- The bytes from `a` on. -/
def BytesAt (m : Memory) (a : Nat) (bs : List UInt8) : Prop :=
  ∀ i (h : i < bs.length), m (a + i) = bs[i]

/-- The string at `a` has the characters `cs`. -/
structure StringAt (m : Memory) (a : Nat) (cs : List UInt8) : Prop where
  chars : BytesAt m a cs
  nonzero : ∀ c ∈ cs, c ≠ 0
  nul : m (a + cs.length) = 0

/-- The `n` bytes from `a` and the `k` bytes from `b` have no byte in common. -/
def Separate (a n b k : Nat) : Prop := a + n ≤ b ∨ b + k ≤ a

def storeBytes (m : Memory) (a : Nat) (bs : List UInt8) : Memory := fun x =>
  if a ≤ x then bs.getD (x - a) (m x) else m x

section Bytes
variable {m m' : Memory} {a b n k x : Nat} {bs cs : List UInt8} {c : UInt8}

@[simp] theorem bytesAt_nil : BytesAt m a [] := fun _ h => (Nat.not_lt_zero _ h).elim

theorem bytesAt_cons : BytesAt m a (c :: bs) ↔ m a = c ∧ BytesAt m (a + 1) bs := by
  constructor
  · intro h
    refine ⟨h 0 (by simp), fun i hi => ?_⟩
    have hnext := h (i + 1) (by simpa using hi)
    rw [List.getElem_cons_succ] at hnext
    rw [← hnext]
    congr 1
    omega
  · rintro ⟨hc, hrest⟩ i hi
    cases i with
    | zero => exact hc
    | succ i =>
      rw [List.getElem_cons_succ, ← hrest i (by simpa using hi)]
      congr 1
      omega

theorem bytesAt_append : BytesAt m a (bs ++ cs) ↔ BytesAt m a bs ∧
    BytesAt m (a + bs.length) cs := by
  induction bs generalizing a with
  | nil => simp
  | cons b bs ih =>
    have hlen : a + 1 + bs.length = a + (b :: bs).length := by
      rw [List.length_cons]
      omega
    rw [List.cons_append, bytesAt_cons, bytesAt_cons, ih, hlen, and_assoc]

theorem BytesAt.congr (h : BytesAt m a bs)
    (hsame : ∀ x, a ≤ x → x < a + bs.length → m' x = m x) : BytesAt m' a bs :=
  fun i hi => (hsame (a + i) (by omega) (by omega)).trans (h i hi)

theorem stringAt_iff : StringAt m a cs ↔ BytesAt m a (cs ++ [0]) ∧ ∀ c ∈ cs, c ≠ 0 := by
  rw [bytesAt_append, bytesAt_cons]
  exact ⟨fun h => ⟨⟨h.chars, h.nul, bytesAt_nil⟩, h.nonzero⟩, fun h => ⟨h.1.1, h.2, h.1.2.1⟩⟩

theorem StringAt.congr (h : StringAt m a cs)
    (hsame : ∀ x, a ≤ x → x < a + (cs.length + 1) → m' x = m x) : StringAt m' a cs := by
  rw [stringAt_iff] at h ⊢
  exact ⟨h.1.congr fun x hlo hhi => hsame x hlo (by simpa using hhi), h.2⟩

theorem stringAt_nil : StringAt m a [] ↔ m a = 0 := by
  simp [stringAt_iff, bytesAt_cons]

theorem stringAt_cons : StringAt m a (c :: cs) ↔ m a = c ∧ c ≠ 0 ∧ StringAt m (a + 1) cs := by
  simp only [stringAt_iff, List.cons_append, bytesAt_cons, List.forall_mem_cons, and_assoc,
    and_left_comm]

/-- The bytes up to the first NUL are a string. -/
theorem stringAt_bytesAt (hne : ∀ y, a ≤ y → y < a + n → m y ≠ 0) (hnul : m (a + n) = 0) :
    StringAt m a (bytesAt m a n) := by
  have hlen : (bytesAt m a n).length = n := by simp [bytesAt]
  refine ⟨fun i hi => by simp [bytesAt], fun c hc => ?_, by rw [hlen]; exact hnul⟩
  obtain ⟨i, hi, rfl⟩ := List.mem_map.mp hc
  have hlt := List.mem_range.mp hi
  exact hne (a + i) (by omega) (by omega)

/-- A string goes on behind bytes that are not NUL. -/
theorem StringAt.beyond (h : StringAt m a cs) (hne : ∀ y, a ≤ y → y ≤ a + n → m y ≠ 0) :
    ∃ c rest, cs = bytesAt m a n ++ c :: rest := by
  have hlen : n < cs.length := by
    by_contra hle
    exact hne (a + cs.length) (by omega) (by omega) h.nul
  have htake : cs.take n = bytesAt m a n := by
    refine List.ext_getElem (by simp [bytesAt]; omega) fun i hi hi' => ?_
    have hlt : i < cs.length := by
      rw [List.length_take] at hi
      omega
    simp [bytesAt, h.chars i hlt]
  refine ⟨cs[n], cs.drop (n + 1), ?_⟩
  rw [← htake, ← List.drop_eq_getElem_cons hlen, List.take_append_drop]

@[simp] theorem storeBytes_nil (m : Memory) (a : Nat) : storeBytes m a [] = m := by
  funext x
  simp [storeBytes]

theorem storeBytes_outside (h : x < a ∨ a + bs.length ≤ x) : storeBytes m a bs x = m x := by
  rw [storeBytes]
  split
  · rw [List.getD_eq_default _ _ (by omega)]
  · rfl

theorem bytesAt_storeBytes (m : Memory) (a : Nat) (bs : List UInt8) :
    BytesAt (storeBytes m a bs) a bs := by
  intro i hi
  have hoff : a + i - a = i := by omega
  rw [storeBytes, if_pos (by omega), hoff, List.getD_eq_getElem _ _ hi]

theorem storeBytes_cons (m : Memory) (a : Nat) (c : UInt8) (bs : List UInt8) :
    storeBytes m a (c :: bs) = storeBytes (Function.update m a c) (a + 1) bs := by
  funext x
  by_cases hx : x = a
  · subst hx
    rw [storeBytes_outside (Or.inl (Nat.lt_succ_self x)), Function.update_self, storeBytes,
      if_pos (Nat.le_refl x), Nat.sub_self, List.getD_cons_zero]
  · rw [storeBytes, storeBytes, Function.update_of_ne hx]
    by_cases ha : a ≤ x
    · have hoff : x - a = x - (a + 1) + 1 := by omega
      rw [if_pos ha, if_pos (by omega), hoff, List.getD_cons_succ]
    · rw [if_neg ha, if_neg (by omega)]

/-- One byte more, behind the others. -/
theorem storeBytes_snoc (m : Memory) (a : Nat) (bs : List UInt8) (c : UInt8) :
    storeBytes m a (bs ++ [c]) = Function.update (storeBytes m a bs) (a + bs.length) c := by
  funext x
  by_cases hx : x = a + bs.length
  · subst hx
    have hoff : a + bs.length - a = bs.length := by omega
    rw [Function.update_self, storeBytes, if_pos (by omega), hoff]
    simp
  · rw [Function.update_of_ne hx, storeBytes, storeBytes]
    by_cases ha : a ≤ x
    · rw [if_pos ha, if_pos ha]
      by_cases hin : x - a < bs.length
      · rw [List.getD_append _ _ _ _ hin]
      · rw [List.getD_eq_default _ _ (by simp; omega), List.getD_eq_default _ _ (by omega)]
    · rw [if_neg ha, if_neg ha]

end Bytes

end CString
