import CrestRtos.Properties.Directives

/-!
# Numbers in the output of `vsnprintf`

`emit_unsigned` divides until nothing is left and prints its scratch buffer backwards, which
gives the canonical text. A signed value is printed as its magnitude behind a sign; for the
most negative value the negation changes nothing and the magnitude is right nevertheless.
-/

namespace Crest
open ByteMemory CString Numerals

/-- The text of a number in the digits of a base. -/
structure Canonical (digits : List UInt8) (base v : Nat) (t : List UInt8) : Prop where
  value : readNumber base t = some v
  noZero : NoLeadingZero t
  chars : ∀ c ∈ t, c ∈ digits

/-- What each of the specifiers prints for a word. -/
inductive NumberText (w : UInt32) : UInt8 → List UInt8 → Prop
  | positive {spec : UInt8} {t : List UInt8} (hspec : spec = 'd'.toUInt8 ∨ spec = 'i'.toUInt8)
      (hv : 0 ≤ toInt32 w.toNat)
      (ht : Canonical (ascii "0123456789") 10 (toInt32 w.toNat).toNat t) : NumberText w spec t
  | negative {spec : UInt8} {t : List UInt8} (hspec : spec = 'd'.toUInt8 ∨ spec = 'i'.toUInt8)
      (hv : toInt32 w.toNat < 0)
      (ht : Canonical (ascii "0123456789") 10 (-toInt32 w.toNat).toNat t) :
      NumberText w spec ('-'.toUInt8 :: t)
  | unsigned {t : List UInt8} (ht : Canonical (ascii "0123456789") 10 w.toNat t) :
      NumberText w 'u'.toUInt8 t
  | lower {t : List UInt8} (ht : Canonical (ascii "0123456789abcdef") 16 w.toNat t) :
      NumberText w 'x'.toUInt8 t
  | upper {t : List UInt8} (ht : Canonical (ascii "0123456789ABCDEF") 16 w.toNat t) :
      NumberText w 'X'.toUInt8 t
  | pointer {t : List UInt8} (ht : Canonical (ascii "0123456789abcdef") 16 w.toNat t) :
      NumberText w 'p'.toUInt8 (ascii "0x" ++ t)

def numberSpecs : List UInt8 := ascii "diuxXp"

@[simp] theorem emitAll_cons (c : UInt8) (cs : List UInt8) (o : Out) :
    emitAll (c :: cs) o = emitAll cs (emitChar c o) := rfl

theorem emitAll_append (cs ds : List UInt8) (o : Out) :
    emitAll (cs ++ ds) o = emitAll ds (emitAll cs o) := List.foldl_append

section Digits
variable {digits buf : List UInt8} {base val room : Nat} {o : Out}

/-- With room for all digits the loop ends because nothing is left of the value. -/
theorem digitLoop_eq (hbase : 1 < base) (hroom : (Nat.digits base val).length ≤ room) :
    digitLoop base digits room val buf =
      (0, buf ++ (Nat.digits base val).map fun d => digits.getD d 0) := by
  induction room generalizing val buf with
  | zero =>
    have hnil : Nat.digits base val = [] := List.length_eq_zero_iff.mp (Nat.le_zero.mp hroom)
    rw [digitLoop, hnil, Nat.digits_eq_nil_iff_eq_zero.mp hnil]
    simp
  | succ room ih =>
    rw [digitLoop]
    by_cases hval : val = 0
    · rw [if_pos hval, hval]
      simp
    · have hdigits := Nat.digits_def' hbase (Nat.pos_of_ne_zero hval)
      rw [hdigits, List.length_cons] at hroom
      rw [if_neg hval, ih (by omega), hdigits]
      simp

theorem scratch_room (hbase : 10 ≤ base) (hval : val < 2 ^ 32) :
    (Nat.digits base val).length ≤ 10 := by
  rw [Nat.digits_length_le_iff (by omega)]
  calc val < 10 ^ 10 := by omega
    _ ≤ base ^ 10 := Nat.pow_le_pow_left hbase 10

/-- The loop ends before the 32 bytes are full. -/
theorem scratch_unexhausted (hbase : 10 ≤ base) (hval : val < 2 ^ 32) :
    (digitLoop base digits 32 val []).1 = 0 ∧ (digitLoop base digits 32 val []).2.length ≤ 10 := by
  have hroom := scratch_room hbase hval
  rw [digitLoop_eq (by omega) (by omega)]
  simpa using hroom

theorem emitUnsigned_eq (hbase : 10 ≤ base) (hval : val < 2 ^ 32) :
    emitUnsigned val base digits o = emitAll (numeral digits base val) o := by
  have hroom := scratch_room hbase hval
  rw [emitUnsigned, numeral]
  by_cases hzero : val = 0
  · rw [if_pos hzero, if_pos hzero]
    rfl
  · rw [if_neg hzero, if_neg hzero, digitLoop_eq (by omega) (by omega)]
    rfl

theorem digitList_decimal : DigitList (ascii "0123456789") 10 := ⟨by decide, by decide⟩

theorem digitList_lower : DigitList (ascii "0123456789abcdef") 16 := ⟨by decide, by decide⟩

theorem digitList_upper : DigitList (ascii "0123456789ABCDEF") 16 := ⟨by decide, by decide⟩

theorem numeral_canonical (h : DigitList digits base) (hlen : digits.length = base)
    (hzero : 48 ∈ digits) (v : Nat) : Canonical digits base v (numeral digits base v) := by
  refine ⟨readNumber_numeral h v, numeral_noLeadingZero h v, fun c hc => ?_⟩
  rw [numeral] at hc
  split at hc
  · rw [List.mem_singleton.mp hc]
    exact hzero
  · obtain ⟨d, hd, rfl⟩ := List.mem_map.mp (List.mem_reverse.mp hc)
    have hlt : d < digits.length := by
      rw [hlen]
      exact Nat.digits_lt_base h.oneLt hd
    rw [List.getD_eq_getElem _ _ hlt]
    exact List.getElem_mem hlt

theorem canonical_decimal (v : Nat) :
    Canonical (ascii "0123456789") 10 v (numeral (ascii "0123456789") 10 v) :=
  numeral_canonical digitList_decimal (by decide) (by decide) v

theorem canonical_lower (v : Nat) :
    Canonical (ascii "0123456789abcdef") 16 v (numeral (ascii "0123456789abcdef") 16 v) :=
  numeral_canonical digitList_lower (by decide) (by decide) v

theorem canonical_upper (v : Nat) :
    Canonical (ascii "0123456789ABCDEF") 16 v (numeral (ascii "0123456789ABCDEF") 16 v) :=
  numeral_canonical digitList_upper (by decide) (by decide) v

end Digits

/-- A signed value between two unsigned conversions. -/
theorem toInt32_range (x : Int) : -2 ^ 31 ≤ toInt32 x ∧ toInt32 x < 2 ^ 31 := by
  simp only [toInt32]
  omega

/-- What is printed as the magnitude is the magnitude, also of the most negative value. -/
theorem magnitude_eq {v : Int} (hv : v < 0) (hlo : -2 ^ 31 ≤ v) :
    (toInt32 (-v) % 2 ^ 32).toNat = (-v).toNat := by
  simp only [toInt32]
  omega

theorem emitSigned_eq (w : UInt32) (o : Out) : emitSigned w o = emitAll (signedText w) o := by
  have hrange := toInt32_range w.toNat
  rw [emitSigned, signedText]
  by_cases hneg : toInt32 w.toNat < 0
  · have hmag := magnitude_eq hneg hrange.1
    simp only [if_pos hneg, hmag]
    rw [emitUnsigned_eq le_rfl (by omega), emitAll_cons]
  · have hval : (toInt32 w.toNat % 2 ^ 32).toNat = (toInt32 w.toNat).toNat := by omega
    simp only [if_neg hneg, hval]
    exact emitUnsigned_eq le_rfl (by omega)

theorem signedText_number (w : UInt32) {spec : UInt8}
    (hspec : spec = 'd'.toUInt8 ∨ spec = 'i'.toUInt8) : NumberText w spec (signedText w) := by
  rw [signedText]
  by_cases hneg : toInt32 w.toNat < 0
  · simp only [if_pos hneg]
    exact .negative hspec hneg (canonical_decimal _)
  · simp only [if_neg hneg]
    exact .positive hspec (not_lt.mp hneg) (canonical_decimal _)

section Conversion
variable {va : Nat → UInt32} {fuel arg : Nat} {o : Out} {spec : UInt8} {w : UInt32}

theorem numberSpecs_cases (hspec : spec ∈ numberSpecs) :
    (spec = 'd'.toUInt8 ∨ spec = 'i'.toUInt8) ∨ spec = 'u'.toUInt8 ∨ spec = 'x'.toUInt8 ∨
      spec = 'X'.toUInt8 ∨ spec = 'p'.toUInt8 := by
  have hlist : numberSpecs = ['d'.toUInt8, 'i'.toUInt8, 'u'.toUInt8, 'x'.toUInt8, 'X'.toUInt8,
    'p'.toUInt8] := rfl
  rw [hlist] at hspec
  simpa [or_assoc] using hspec

theorem specText_signed (hspec : spec = 'd'.toUInt8 ∨ spec = 'i'.toUInt8) (t : List UInt8) :
    specText w t spec = signedText w := by
  have hother : spec ≠ 's'.toUInt8 ∧ spec ≠ 'c'.toUInt8 := by
    rcases hspec with rfl | rfl <;> decide
  rw [specText, if_neg hother.1, if_neg hother.2, if_pos hspec]

theorem conversion_signed (hspec : spec = 'd'.toUInt8 ∨ spec = 'i'.toUInt8) :
    conversion va fuel spec arg o = some (arg + 1, emitAll (signedText (va arg)) o) := by
  have hother : spec ≠ 's'.toUInt8 ∧ spec ≠ 'c'.toUInt8 := by
    rcases hspec with rfl | rfl <;> decide
  simp only [conversion, if_neg hother.1, if_neg hother.2, if_pos hspec, emitSigned_eq]

/-- A conversion of a number takes a word and emits its text. -/
theorem conversion_number (hspec : spec ∈ numberSpecs) :
    conversion va fuel spec arg o = some (arg + 1, emitAll (specText (va arg) [] spec) o) := by
  have hlt := (va arg).toNat_lt
  rcases numberSpecs_cases hspec with hsigned | rfl | rfl | rfl | rfl
  · rw [specText_signed hsigned]
    exact conversion_signed hsigned
  · exact congrArg (fun o => some (arg + 1, o)) (emitUnsigned_eq (by decide) hlt)
  · exact congrArg (fun o => some (arg + 1, o)) (emitUnsigned_eq (by decide) hlt)
  · exact congrArg (fun o => some (arg + 1, o)) (emitUnsigned_eq (by decide) hlt)
  · refine congrArg (fun o => some (arg + 1, o)) ((emitUnsigned_eq (by decide) hlt).trans ?_)
    exact (emitAll_append _ _ _).symm

theorem specText_number (hspec : spec ∈ numberSpecs) : NumberText w spec (specText w [] spec) := by
  rcases numberSpecs_cases hspec with hsigned | rfl | rfl | rfl | rfl
  · rw [specText_signed hsigned]
    exact signedText_number w hsigned
  · exact .unsigned (canonical_decimal _)
  · exact .lower (canonical_lower _)
  · exact .upper (canonical_upper _)
  · exact .pointer (canonical_lower _)

end Conversion

/-- The pass of `vsnprintf` over a number directive emits the canonical text of the word it
takes, whatever the word, and the scratch buffer of `emit_unsigned` always has room. -/
theorem number_round_trip {va : Nat → UInt32} {fuel : Nat} {s : Scan} {long : Bool} {spec : UInt8}
    (hspec : spec ∈ numberSpecs)
    (hbytes : BytesAt s.out.mem s.format (Directive.conv long spec).text) :
    (∃ t s', NumberText (va s.arg) spec t ∧ s.pass va fuel = some s' ∧
      s'.out = emitAll t s.out ∧ s'.arg = s.arg + 1) ∧
    ∀ digits base val, (base = 10 ∨ base = 16) → val < 2 ^ 32 →
      (digitLoop base digits 32 val []).1 = 0 ∧
      (digitLoop base digits 32 val []).2.length ≤ 10 := by
  constructor
  · have hother : long = false → spec ≠ '%'.toUInt8 ∧ spec ≠ 'l'.toUInt8 := by
      intro _
      rcases numberSpecs_cases hspec with (rfl | rfl) | rfl | rfl | rfl | rfl <;> decide
    have hpass : s.pass va fuel = _ := pass_conv hbytes hother
    rw [conversion_number hspec, Option.map_some] at hpass
    exact ⟨specText (va s.arg) [] spec, _, specText_number hspec, hpass, rfl, rfl⟩
  · exact fun digits base val hbase hval => scratch_unexhausted (by omega) hval

/-- The most negative value with `%ld`. -/
theorem number_round_trip_least : ∃ t s',
    NumberText 0x80000000 'd'.toUInt8 t ∧
    (⟨0, 0, ⟨storeBytes (fun _ => 0) 0 (ascii "%ld"), 100, 20, 0⟩, []⟩ : Scan).pass
      (fun _ => 0x80000000) 0 = some s' ∧
    s'.out = emitAll t ⟨storeBytes (fun _ => 0) 0 (ascii "%ld"), 100, 20, 0⟩ ∧ s'.arg = 1 :=
  (@number_round_trip (fun _ => 0x80000000) 0
    ⟨0, 0, ⟨storeBytes (fun _ => 0) 0 (ascii "%ld"), 100, 20, 0⟩, []⟩ true 'd'.toUInt8 (by decide)
    (bytesAt_storeBytes (fun _ => 0) 0 (ascii "%ld"))).1

end Crest
