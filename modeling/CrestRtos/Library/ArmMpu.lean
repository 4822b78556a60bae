import Mathlib.Algebra.Group.Nat.Defs
import Mathlib.Data.List.Basic
import Mathlib.Tactic.Lemma

/-!
# The ARMv7-M memory protection unit

Eight regions, each a base and an attribute word. A region of size field `s`
covers `2 ^ (s + 1)` bytes; the address bits below that size are ignored. The
highest-numbered enabled region that contains an address decides, and code
without privilege faults where no region matches. Subregions are not used.
-/

namespace ArmMpu

structure RegionRegs where
  rbar : Nat
  rasr : Nat

structure Mpu where
  ctrl : Nat
  regs : Nat → RegionRegs

def reset : Mpu := ⟨0, fun _ => ⟨0, 0⟩⟩

/-- Select a region and write its two registers. -/
def Mpu.program (m : Mpu) (rnr rbar rasr : Nat) : Mpu :=
  { m with regs := fun i => if i = rnr then ⟨rbar, rasr⟩ else m.regs i }

def RegionRegs.enabled (r : RegionRegs) : Bool := r.rasr % 2 == 1
def RegionRegs.size (r : RegionRegs) : Nat := 2 ^ (r.rasr / 2 % 32 + 1)
def RegionRegs.ap (r : RegionRegs) : Nat := r.rasr / 2 ^ 24 % 8

def RegionRegs.contains (r : RegionRegs) (a : Nat) : Bool :=
  r.enabled && a / r.size == r.rbar / r.size

def Mpu.hit (m : Mpu) (a : Nat) : Option Nat :=
  [7, 6, 5, 4, 3, 2, 1, 0].find? fun i => (m.regs i).contains a

def userReads (ap : Nat) : Bool := ap == 2 || ap == 3 || ap == 6 || ap == 7
def userWrites (ap : Nat) : Bool := ap == 3

def Mpu.enabled (m : Mpu) : Bool := m.ctrl % 2 == 1

/-- What unprivileged code may do at an address; everything while the unit is off. -/
def Mpu.userMay (m : Mpu) (right : Nat → Bool) (a : Nat) : Bool :=
  !m.enabled || (match m.hit a with
    | none => false
    | some i => right (m.regs i).ap)

def Mpu.userMayRead (m : Mpu) (a : Nat) : Bool := m.userMay userReads a
def Mpu.userMayWrite (m : Mpu) (a : Nat) : Bool := m.userMay userWrites a

theorem program_regs_other (m : Mpu) {n i : Nat} (b s : Nat) (h : i ≠ n) :
    (m.program n b s).regs i = m.regs i := if_neg h

/-- A disabled region contains nothing. -/
theorem not_contains_of_disabled {r : RegionRegs} (h : r.rasr = 0) (a : Nat) :
    r.contains a = false := by
  simp [RegionRegs.contains, RegionRegs.enabled, h]

/-- The register word of an enabled region with size field `s`, access field
`p` and execute-never bit `x`. -/
def attributes (s p x : Nat) : Nat := 1 <<< 0 ||| s <<< 1 ||| p <<< 24 ||| x <<< 28

theorem attributes_eq {s p x : Nat} (hs : s < 32) (hp : p < 8) :
    attributes s p x = 2 ^ 28 * x + (2 ^ 24 * p + (2 * s + 1)) := by
  have hlow : 1 ||| s <<< 1 = 2 * s + 1 := by
    have h := Nat.two_pow_add_eq_or_of_lt (i := 1) (b := 1) (by decide) s
    rw [Nat.or_comm, Nat.shiftLeft_eq, Nat.mul_comm s]
    omega
  have hmid : (2 * s + 1) ||| p <<< 24 = 2 ^ 24 * p + (2 * s + 1) := by
    have hb : 2 * s + 1 < 2 ^ 24 := by omega
    rw [Nat.or_comm, Nat.shiftLeft_eq, Nat.mul_comm p]
    exact (Nat.two_pow_add_eq_or_of_lt hb p).symm
  have hb : 2 ^ 24 * p + (2 * s + 1) < 2 ^ 28 := by omega
  have hhigh := Nat.two_pow_add_eq_or_of_lt hb x
  rw [attributes, Nat.shiftLeft_zero, hlow, hmid, Nat.or_comm, Nat.shiftLeft_eq, Nat.mul_comm x]
  exact hhigh.symm

theorem region_decode {b s p x : Nat} (hs : s < 32) (hp : p < 8) :
    (RegionRegs.mk b (attributes s p x)).enabled = true ∧
    (RegionRegs.mk b (attributes s p x)).size = 2 ^ (s + 1) ∧
    (RegionRegs.mk b (attributes s p x)).ap = p := by
  have hword := attributes_eq (x := x) hs hp
  have hodd : attributes s p x % 2 = 1 := by omega
  have hsize : attributes s p x / 2 % 32 = s := by omega
  have hap : attributes s p x / 2 ^ 24 % 8 = p := by omega
  refine ⟨?_, ?_, hap⟩
  · simp [RegionRegs.enabled, hodd]
  · simp only [RegionRegs.size, hsize]

/-- An aligned region is the interval of its size that starts at its base. -/
theorem contains_iff {b s p x a : Nat} (hs : s < 32) (hp : p < 8) (hb : b % 2 ^ (s + 1) = 0) :
    (RegionRegs.mk b (attributes s p x)).contains a = true ↔ b ≤ a ∧ a < b + 2 ^ (s + 1) := by
  obtain ⟨hen, hsize, _⟩ := region_decode (b := b) (x := x) hs hp
  have hpos : 0 < 2 ^ (s + 1) := Nat.two_pow_pos (s + 1)
  obtain ⟨c, rfl⟩ := Nat.dvd_of_mod_eq_zero hb
  simp only [RegionRegs.contains, hen, hsize, Bool.true_and, beq_iff_eq]
  rw [Nat.mul_div_cancel_left c hpos, Nat.div_eq_iff hpos]
  constructor
  · intro h
    constructor
    · rw [Nat.mul_comm]
      exact h.1
    · have := h.2
      rw [Nat.mul_comm]
      omega
  · intro h
    rw [Nat.mul_comm] at h
    omega

end ArmMpu
