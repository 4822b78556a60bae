import Mathlib.Algebra.Group.Nat.Defs
import Mathlib.Logic.Function.Basic
import Mathlib.Tactic.Lemma

/-!
# Byte-addressed memory with 32-bit little-endian words

A memory maps every address to a byte. Words are read and written at an
arbitrary address, low byte first. Nothing here depends on what the bytes are
used for.
-/

namespace ByteMemory

abbrev Memory := Nat → UInt8

def read32 (m : Memory) (a : Nat) : Nat :=
  (m a).toNat + 256 * (m (a + 1)).toNat + 65536 * (m (a + 2)).toNat +
    16777216 * (m (a + 3)).toNat

def write32 (m : Memory) (a v : Nat) : Memory := fun x =>
  if x = a then UInt8.ofNat v
  else if x = a + 1 then UInt8.ofNat (v / 256)
  else if x = a + 2 then UInt8.ofNat (v / 65536)
  else if x = a + 3 then UInt8.ofNat (v / 16777216)
  else m x

/-- `memcpy` between two memories: `n` bytes from `s` of `src` to `d` of `dst`. -/
def copyBytes (dst : Memory) (d : Nat) (src : Memory) (s n : Nat) : Memory := fun x =>
  if d ≤ x ∧ x < d + n then src (s + (x - d)) else dst x

def wordsAt (m : Memory) (a n : Nat) : List Nat := (List.range n).map fun i => read32 m (a + 4 * i)

def bytesAt (m : Memory) (a n : Nat) : List UInt8 := (List.range n).map fun i => m (a + i)

theorem bytesAt_congr {m m' : Memory} {a n : Nat} (h : ∀ x, a ≤ x → x < a + n → m x = m' x) :
    bytesAt m a n = bytesAt m' a n := by
  refine List.map_congr_left fun i hi => ?_
  have hlt := List.mem_range.mp hi
  exact h (a + i) (by omega) (by omega)

theorem copyBytes_congr (dst : Memory) (d : Nat) {src src' : Memory} {s n : Nat}
    (h : ∀ x, s ≤ x → x < s + n → src x = src' x) :
    copyBytes dst d src s n = copyBytes dst d src' s n := by
  funext x
  simp only [copyBytes]
  split
  · exact h _ (by omega) (by omega)
  · rfl

theorem bytesAt_copyBytes_same (dst src : Memory) (d s n : Nat) :
    bytesAt (copyBytes dst d src s n) d n = bytesAt src s n := by
  refine List.map_congr_left fun i hi => ?_
  have hlt := List.mem_range.mp hi
  have hin : d ≤ d + i ∧ d + i < d + n := by omega
  have hoff : d + i - d = i := by omega
  simp only [copyBytes, if_pos hin, hoff]

theorem bytesAt_copyBytes_of_disjoint (dst src : Memory) {d s n a k : Nat}
    (h : a + k ≤ d ∨ d + n ≤ a) : bytesAt (copyBytes dst d src s n) a k = bytesAt dst a k := by
  refine bytesAt_congr fun x hlo hhi => ?_
  have hout : ¬ (d ≤ x ∧ x < d + n) := by omega
  simp only [copyBytes, if_neg hout]

theorem read32_lt (m : Memory) (a : Nat) : read32 m a < 2 ^ 32 := by
  have h0 := (m a).toNat_lt
  have h1 := (m (a + 1)).toNat_lt
  have h2 := (m (a + 2)).toNat_lt
  have h3 := (m (a + 3)).toNat_lt
  simp only [read32]
  omega

theorem read32_congr {m m' : Memory} {a : Nat}
    (h : ∀ x, a ≤ x → x < a + 4 → m x = m' x) : read32 m a = read32 m' a := by
  simp only [read32, h a (by omega) (by omega), h (a + 1) (by omega) (by omega),
    h (a + 2) (by omega) (by omega), h (a + 3) (by omega) (by omega)]

theorem write32_of_outside (m : Memory) {a v x : Nat} (h : x < a ∨ a + 4 ≤ x) :
    write32 m a v x = m x := by
  simp only [write32]
  rw [if_neg (by omega), if_neg (by omega), if_neg (by omega), if_neg (by omega)]

@[simp] theorem read32_write32_same (m : Memory) {a v : Nat} (hv : v < 2 ^ 32) :
    read32 (write32 m a v) a = v := by
  simp [read32, write32]
  omega

theorem read32_write32_of_disjoint (m : Memory) {a b v : Nat} (h : a + 4 ≤ b ∨ b + 4 ≤ a) :
    read32 (write32 m a v) b = read32 m b :=
  read32_congr fun x _ _ => write32_of_outside m (by omega)

@[simp] theorem wordsAt_length {m : Memory} {a n : Nat} : (wordsAt m a n).length = n := by
  simp [wordsAt]

theorem wordsAt_congr {m m' : Memory} {a n : Nat} (h : ∀ x, a ≤ x → x < a + 4 * n → m x = m' x) :
    wordsAt m a n = wordsAt m' a n := by
  refine List.map_congr_left fun i hi => ?_
  have hlt := List.mem_range.mp hi
  exact read32_congr fun x _ _ => h x (by omega) (by omega)

theorem wordsAt_add (m : Memory) (a n k : Nat) :
    wordsAt m a (n + k) = wordsAt m a n ++ wordsAt m (a + 4 * n) k := by
  have hshift : ∀ i, a + 4 * (n + i) = a + 4 * n + 4 * i := fun i => by omega
  simp only [wordsAt, List.range_add, List.map_append, List.map_map, Function.comp_def, hshift]

theorem wordsAt_succ (m : Memory) (a n : Nat) :
    wordsAt m a (n + 1) = wordsAt m a n ++ [read32 m (a + 4 * n)] := by
  rw [wordsAt_add]
  simp [wordsAt]

/-- A byte stored outside a word leaves the word alone. -/
theorem read32_update_of_outside (m : Memory) {a x : Nat} (v : UInt8)
    (h : x < a ∨ a + 4 ≤ x) : read32 (Function.update m x v) a = read32 m a :=
  read32_congr fun y _ _ => Function.update_of_ne (by omega) v m

end ByteMemory
