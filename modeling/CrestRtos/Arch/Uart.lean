import CrestRtos.Library.CString

/-!
# The console

`uart_write` of `boards/stm32f446/uart.c`: the characters that go to the data register.
-/

namespace Crest
open ByteMemory CString

/-- A newline goes out as CR LF. -/
def uartChar (c : UInt8) : List UInt8 := if c = 10 then [13, c] else [c]

/-- `while (*s)`, or `none` when the fuel is used up before the NUL. -/
def uartWrite (m : Memory) : Nat → Nat → Option (List UInt8)
  | 0, _ => none
  | fuel + 1, s =>
    if m s = 0 then some [] else (uartWrite m fuel (s + 1)).map fun cs => uartChar (m s) ++ cs

section Write
variable {m m' : Memory} {fuel a x : Nat} {cs text : List UInt8}

theorem uartWrite_sound (h : uartWrite m fuel a = some cs) :
    ∃ text, StringAt m a text ∧ cs = text.flatMap uartChar := by
  induction fuel generalizing a cs with
  | zero => cases h
  | succ fuel ih =>
    rw [uartWrite] at h
    by_cases hnul : m a = 0
    · rw [if_pos hnul] at h
      exact ⟨[], stringAt_nil.mpr hnul, (Option.some.inj h).symm⟩
    · rw [if_neg hnul] at h
      obtain ⟨cs', hrest, rfl⟩ := Option.map_eq_some_iff.mp h
      obtain ⟨text, htext, rfl⟩ := ih hrest
      exact ⟨m a :: text, stringAt_cons.mpr ⟨rfl, hnul, htext⟩, rfl⟩

theorem uartWrite_complete (h : StringAt m a text) :
    uartWrite m (text.length + 1) a = some (text.flatMap uartChar) := by
  induction text generalizing a with
  | nil => rw [List.length_nil, uartWrite, if_pos (stringAt_nil.mp h), List.flatMap_nil]
  | cons c text ih =>
    obtain ⟨rfl, hne, hrest⟩ := stringAt_cons.mp h
    rw [List.length_cons, uartWrite, if_neg hne, ih hrest, Option.map_some, List.flatMap_cons]

/-- The call sends the string at its argument. -/
theorem uartWrite_iff : (∃ fuel, uartWrite m fuel a = some cs) ↔
    ∃ text, StringAt m a text ∧ cs = text.flatMap uartChar := by
  constructor
  · rintro ⟨fuel, h⟩
    exact uartWrite_sound h
  · rintro ⟨text, h, rfl⟩
    exact ⟨_, uartWrite_complete h⟩

theorem uartChar_pos (c : UInt8) : 0 < (uartChar c).length := by
  rw [uartChar]
  split <;> exact Nat.succ_pos _

/-- When the one string ends where the other one goes on, different characters are sent. -/
theorem uartWrite_differs {n : Nat} (hsame : ∀ y, a ≤ y → y < a + n → m y = m' y)
    (hne : ∀ y, a ≤ y → y < a + n → m y ≠ 0) (hnul : m (a + n) = 0) (hmore : m' (a + n) ≠ 0) :
    (∃ fuel, uartWrite m fuel a = some ((bytesAt m a n).flatMap uartChar)) ∧
      ∀ fuel cs, uartWrite m' fuel a = some cs → cs ≠ (bytesAt m a n).flatMap uartChar := by
  refine ⟨uartWrite_iff.mpr ⟨_, stringAt_bytesAt hne hnul, rfl⟩, fun fuel cs hrun => ?_⟩
  obtain ⟨text, htext, rfl⟩ := uartWrite_sound hrun
  have hbeyond : ∀ y, a ≤ y → y ≤ a + n → m' y ≠ 0 := by
    intro y hlo hhi
    by_cases hlast : y = a + n
    · rw [hlast]
      exact hmore
    · rw [← hsame y hlo (by omega)]
      exact hne y hlo (by omega)
  obtain ⟨c, rest, rfl⟩ := htext.beyond hbeyond
  intro heq
  have hlen := congrArg List.length heq
  have hpos := uartChar_pos c
  rw [List.flatMap_append, List.flatMap_cons, List.length_append, List.length_append,
    ← bytesAt_congr hsame] at hlen
  omega

/-- Only the bytes of the string and its NUL matter. -/
theorem uartWrite_congr (hsame : ∀ y, a ≤ y → (∀ z, a ≤ z → z < y → m z ≠ 0) → m' y = m y)
    (h : uartWrite m fuel a = some cs) : uartWrite m' fuel a = some cs := by
  induction fuel generalizing a cs with
  | zero => cases h
  | succ fuel ih =>
    have hfirst : m' a = m a := hsame a (Nat.le_refl a) fun z hlo hhi => by omega
    rw [uartWrite] at h ⊢
    rw [hfirst]
    by_cases hnul : m a = 0
    · rw [if_pos hnul] at h ⊢
      exact h
    · rw [if_neg hnul] at h ⊢
      obtain ⟨cs', hrest, rfl⟩ := Option.map_eq_some_iff.mp h
      rw [ih (fun y hlo hz => hsame y (by omega) fun z hz₁ hz₂ => ?_) hrest, Option.map_some]
      by_cases hza : z = a
      · rw [hza]
        exact hnul
      · exact hz z (by omega) hz₂

end Write

end Crest
