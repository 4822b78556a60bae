import CrestRtos.Kernel.LibcStubs
import CrestRtos.Library.Numerals

/-!
# Format strings as directives

A format is a list of directives and at most one that its end cuts off. This is what the
passes of the loop of `vsnprintf` see, without memory and pointers.
-/

namespace Crest
open ByteMemory CString Numerals

inductive Directive
  | plain (c : UInt8)
  | percent
  | conv (long : Bool) (spec : UInt8)
  deriving DecidableEq, Repr

def Directive.text : Directive → List UInt8
  | .plain c => [c]
  | .percent => ascii "%%"
  | .conv true spec => '%'.toUInt8 :: 'l'.toUInt8 :: [spec]
  | .conv false spec => '%'.toUInt8 :: [spec]

def Directive.Ok : Directive → Prop
  | .plain c => c ≠ 0 ∧ c ≠ '%'.toUInt8
  | .percent => True
  | .conv true spec => spec ≠ 0
  | .conv false spec => spec ≠ 0 ∧ spec ≠ '%'.toUInt8 ∧ spec ≠ 'l'.toUInt8

/-- The directives of a format, and what is left of an incomplete one at its end. -/
def directives : List UInt8 → List Directive × List UInt8
  | [] => ([], [])
  | c :: cs =>
    if c = '%'.toUInt8 then
      match cs with
      | [] => ([], [c])
      | d :: ds =>
        if d = '%'.toUInt8 then ((directives ds).map (.percent :: ·) id)
        else if d = 'l'.toUInt8 then
          match ds with
          | [] => ([], [c, d])
          | e :: es => (directives es).map (.conv true e :: ·) id
        else (directives ds).map (.conv false d :: ·) id
    else (directives cs).map (.plain c :: ·) id

def Complete (cs : List UInt8) : Prop := (directives cs).2 = []

instance (cs : List UInt8) : Decidable (Complete cs) :=
  inferInstanceAs (Decidable ((directives cs).2 = []))

/-! ## What the directives stand for -/

def signedText (w : UInt32) : List UInt8 :=
  let v := toInt32 w.toNat
  if v < 0 then '-'.toUInt8 :: numeral (ascii "0123456789") 10 (-v).toNat
  else numeral (ascii "0123456789") 10 v.toNat

/-- The text for the argument word `w`, when its string says `t`. -/
def specText (w : UInt32) (t : List UInt8) (spec : UInt8) : List UInt8 :=
  if spec = 's'.toUInt8 then if w = 0 then ascii "(null)" else t
  else if spec = 'c'.toUInt8 then [w.toUInt8]
  else if spec = 'd'.toUInt8 ∨ spec = 'i'.toUInt8 then signedText w
  else if spec = 'u'.toUInt8 then numeral (ascii "0123456789") 10 w.toNat
  else if spec = 'x'.toUInt8 then numeral (ascii "0123456789abcdef") 16 w.toNat
  else if spec = 'X'.toUInt8 then numeral (ascii "0123456789ABCDEF") 16 w.toNat
  else if spec = 'p'.toUInt8 then ascii "0x" ++ numeral (ascii "0123456789abcdef") 16 w.toNat
  else ['%'.toUInt8, spec]

/-- The number of words it takes. -/
def specArgs (spec : UInt8) : Nat := if spec ∈ ascii "scdiuxXp" then 1 else 0

def Directive.args : Directive → Nat
  | .conv _ spec => specArgs spec
  | _ => 0

/-- The words of the `%s` directives. -/
def stringArgs : List Directive → Nat → List Nat
  | [], _ => []
  | d :: ds, i =>
    (match d with
      | .conv _ spec => if spec = 's'.toUInt8 then [i] else []
      | _ => []) ++ stringArgs ds (i + d.args)

def Directive.expand (va : Nat → UInt32) (texts : Nat → List UInt8) (i : Nat) :
    Directive → List UInt8
  | .plain c => [c]
  | .percent => ascii "%"
  | .conv _ spec => specText (va i) (texts i) spec

/-- The text of all directives, from the argument `i` on. -/
def expansion (va : Nat → UInt32) (texts : Nat → List UInt8) : List Directive → Nat → List UInt8
  | [], _ => []
  | d :: ds, i => d.expand va texts i ++ expansion va texts ds (i + d.args)

/-- The parts are the format, and they are what they should be. -/
structure Parsed (cs : List UInt8) (ds : List Directive) (rest : List UInt8) : Prop where
  text : cs = ds.flatMap Directive.text ++ rest
  ok : ∀ d ∈ ds, d.Ok
  rest : rest = [] ∨ rest = ascii "%" ∨ rest = ascii "%l"

theorem Parsed.cons {cs rest : List UInt8} {ds : List Directive} (h : Parsed cs ds rest)
    {d : Directive} (hd : d.Ok) : Parsed (d.text ++ cs) (d :: ds) rest := by
  refine ⟨?_, List.forall_mem_cons.mpr ⟨hd, h.ok⟩, h.rest⟩
  rw [List.flatMap_cons, List.append_assoc, ← h.text]

theorem directives_parsed {cs : List UInt8} (hcs : ∀ c ∈ cs, c ≠ 0) :
    Parsed cs (directives cs).1 (directives cs).2 := by
  fun_induction directives cs with
  | case1 => exact ⟨rfl, by simp, Or.inl rfl⟩
  | case2 => exact ⟨rfl, by simp, Or.inr (Or.inl rfl)⟩
  | case3 es ih =>
    simp only [List.forall_mem_cons] at hcs
    exact (ih hcs.2.2).cons (d := .percent) trivial
  | case4 => exact ⟨rfl, by simp, Or.inr (Or.inr rfl)⟩
  | case5 e es _ ih =>
    simp only [List.forall_mem_cons] at hcs
    exact (ih hcs.2.2.2).cons (d := .conv true e) hcs.2.2.1
  | case6 e es hpercent hlong ih =>
    simp only [List.forall_mem_cons] at hcs
    exact (ih hcs.2.2).cons (d := .conv false e) ⟨hcs.2.1, hpercent, hlong⟩
  | case7 e es hpercent ih =>
    simp only [List.forall_mem_cons] at hcs
    exact (ih hcs.2).cons (d := .plain e) ⟨hcs.1, hpercent⟩

/-! ## The passes of the loop -/

section Pass
variable {va : Nat → UInt32} {fuel : Nat} {s : Scan} {c spec : UInt8}

theorem pass_plain (hc : s.out.mem s.format = c) (hpercent : c ≠ '%'.toUInt8) :
    s.pass va fuel = some { s with format := s.format + 1, out := emitChar c s.out } := by
  rw [Scan.pass]
  simp only [hc, if_pos hpercent]

theorem pass_percent (hc : s.out.mem s.format = '%'.toUInt8)
    (hnext : s.out.mem (s.format + 1) = '%'.toUInt8) :
    s.pass va fuel = some { s with
      format := s.format + 2
      out := emitChar '%'.toUInt8 s.out
      reads := (s.format + 1) :: s.reads } := by
  rw [Scan.pass]
  simp only [hc, hnext, ne_eq, not_true_eq_false, if_false, if_true, Scan.read]

/-- Behind `%`, and perhaps `l`. -/
theorem pass_conv {long : Bool}
    (hbytes : BytesAt s.out.mem s.format (Directive.conv long spec).text)
    (hspec : long = false → spec ≠ '%'.toUInt8 ∧ spec ≠ 'l'.toUInt8) :
    s.pass va fuel = (conversion va fuel spec s.arg s.out).map fun (arg, out) =>
      ⟨s.format + (Directive.conv long spec).text.length, arg, out,
        (s.format + (Directive.conv long spec).text.length - 1) :: (s.format + 1) :: s.reads⟩ := by
  cases long with
  | false =>
    obtain ⟨hpercent, hlong⟩ := hspec rfl
    simp only [Directive.text, bytesAt_cons] at hbytes
    obtain ⟨hfirst, hnext, _⟩ := hbytes
    rw [Scan.pass]
    simp only [hfirst, hnext, ne_eq, not_true_eq_false, if_false, if_neg hpercent, if_neg hlong,
      Scan.read, Directive.text]
    rfl
  | true =>
    simp only [Directive.text, bytesAt_cons] at hbytes
    obtain ⟨hfirst, hnext, hlast, _⟩ := hbytes
    have hne : 'l'.toUInt8 ≠ '%'.toUInt8 := by decide
    rw [Scan.pass]
    simp only [hfirst, hnext, hlast, ne_eq, not_true_eq_false, if_false, if_neg hne, if_true,
      Scan.read, Directive.text]
    rfl

end Pass

end Crest
