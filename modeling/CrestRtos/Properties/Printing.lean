import CrestRtos.Properties.Numbers

/-!
# `vsnprintf` and its unbounded text

Every directive goes through `emit_char`, which counts every character and stores those
that fit. So after any number of directives the buffer holds the beginning of the text so
far, and the count is its length.
-/

namespace Crest
open ByteMemory CString Numerals

/-- The buffer holds the longest beginning of the text that fits, and a NUL. -/
structure Truncates (m m' : Memory) (str size : Nat) (t : List UInt8) : Prop where
  text : 0 < size → BytesAt m' str (t.take (size - 1) ++ [0])
  outside : ∀ x, x < str ∨ str + size ≤ x → m' x = m x

/-- Each `%s` has NULL or a string outside the buffer, which says what `texts` says. -/
def ArgsReadable (m : Memory) (str size : Nat) (va : Nat → UInt32) (texts : Nat → List UInt8)
    (is : List Nat) : Prop :=
  ∀ i ∈ is, va i ≠ 0 → StringAt m (va i).toNat (texts i) ∧
    Separate str size (va i).toNat ((texts i).length + 1)

/-- `t` has been emitted to the `size` bytes from `str` on. -/
structure Emitted (m : Memory) (str size : Nat) (t : List UInt8) (o : Out) : Prop where
  mem : o.mem = storeBytes m str (t.take (size - 1))
  dst : o.dst = str + min t.length (size - 1)
  avail : o.avail = size - 1 - min t.length (size - 1)
  total : o.total = toInt32 t.length

section Emit
variable {m : Memory} {str size : Nat} {t cs : List UInt8} {o : Out} {c : UInt8} {x : Nat}

theorem toInt32_add_one (x : Int) : toInt32 (toInt32 x + 1) = toInt32 (x + 1) := by
  simp only [toInt32]
  omega

theorem toInt32_of_lt {n : Nat} (h : n < 2 ^ 31) : toInt32 n = n := by
  simp only [toInt32]
  omega

theorem Emitted.start (m : Memory) (str size : Nat) :
    Emitted m str size [] ⟨m, str, if 0 < size then size - 1 else 0, 0⟩ := by
  refine ⟨by simp, by simp, ?_, rfl⟩
  simp only [List.length_nil, Nat.zero_min, Nat.sub_zero]
  split <;> omega

/-- One character more, stored if there is room. -/
theorem Emitted.char (h : Emitted m str size t o) (c : UInt8) :
    Emitted m str size (t ++ [c]) (emitChar c o) := by
  have havail := h.avail
  by_cases hroom : t.length < size - 1
  · have hpos : 0 < o.avail := by omega
    have htake : t.take (size - 1) = t := List.take_of_length_le (by omega)
    have htake' : (t ++ [c]).take (size - 1) = t ++ [c] :=
      List.take_of_length_le (by simpa using hroom)
    have hdst : o.dst = str + t.length := by
      rw [h.dst]
      omega
    rw [emitChar]
    simp only [if_pos hpos]
    refine ⟨?_, ?_, ?_, ?_⟩
    · rw [h.mem, htake, htake', storeBytes_snoc, hdst]
    · simp only [List.length_append, List.length_singleton]
      omega
    · simp only [List.length_append, List.length_singleton]
      omega
    · rw [h.total, toInt32_add_one]
      simp
  · have hpos : ¬ 0 < o.avail := by omega
    rw [emitChar]
    simp only [if_neg hpos]
    refine ⟨?_, ?_, ?_, ?_⟩
    · rw [h.mem, List.take_append_of_le_length (by omega)]
    · rw [h.dst, List.length_append]
      omega
    · rw [h.avail, List.length_append]
      omega
    · rw [h.total, toInt32_add_one]
      simp

theorem Emitted.all (h : Emitted m str size t o) (cs : List UInt8) :
    Emitted m str size (t ++ cs) (emitAll cs o) := by
  induction cs generalizing t o with
  | nil =>
    rw [List.append_nil]
    exact h
  | cons c cs ih =>
    rw [emitAll_cons, List.append_cons]
    exact ih (h.char c)

/-- Outside the buffer the memory is as it was. -/
theorem Emitted.outside (h : Emitted m str size t o) (hx : x < str ∨ str + size ≤ x) :
    o.mem x = m x := by
  rw [h.mem]
  refine storeBytes_outside ?_
  rw [List.length_take]
  omega

theorem Emitted.string (h : Emitted m str size t o) {a : Nat} (hs : StringAt m a cs)
    (hsep : Separate str size a (cs.length + 1)) : StringAt o.mem a cs :=
  hs.congr fun x hlo hhi => h.outside (by rw [Separate] at hsep; omega)

/-- The loop of `emit_string` ends at the NUL. -/
theorem emitLoop_eq {fuel a : Nat} (h : Emitted m str size t o) (hs : StringAt m a cs)
    (hsep : Separate str size a (cs.length + 1)) (hfuel : cs.length < fuel) :
    emitLoop fuel a o = some (emitAll cs o) := by
  induction cs generalizing fuel a o t with
  | nil =>
    obtain ⟨fuel, rfl⟩ : ∃ n, fuel = n + 1 := ⟨fuel - 1, by omega⟩
    have hnul := stringAt_nil.mp (h.string hs hsep)
    rw [emitLoop, if_pos hnul]
    rfl
  | cons c cs ih =>
    obtain ⟨fuel, rfl⟩ : ∃ n, fuel = n + 1 := ⟨fuel - 1, by omega⟩
    obtain ⟨hc, hne, _⟩ := stringAt_cons.mp (h.string hs hsep)
    rw [List.length_cons] at hfuel hsep
    rw [emitLoop, hc, if_neg hne, emitAll_cons]
    exact ih (h.char c) (stringAt_cons.mp hs).2.2 (by rw [Separate] at hsep ⊢; omega) (by omega)

end Emit

section Conversion
variable {m : Memory} {str size arg : Nat} {t : List UInt8} {o : Out} {va : Nat → UInt32}
  {texts : Nat → List UInt8} {spec : UInt8}

theorem specText_congr (hspec : spec ≠ 's'.toUInt8) (w : UInt32) (t t' : List UInt8) :
    specText w t spec = specText w t' spec := by
  rw [specText, specText, if_neg hspec, if_neg hspec]

theorem specArgs_number (hspec : spec ∈ numberSpecs) : specArgs spec = 1 := by
  rcases numberSpecs_cases hspec with (rfl | rfl) | rfl | rfl | rfl | rfl <;> rfl

/-- A specifier that is none of the known ones is printed behind the percent sign. -/
theorem conversion_other (fuel : Nat) (hs : spec ≠ 's'.toUInt8) (hc : spec ≠ 'c'.toUInt8)
    (hnumber : spec ∉ numberSpecs) : conversion va fuel spec arg o =
      some (arg + specArgs spec, emitAll (specText (va arg) t spec) o) := by
  have hlist : numberSpecs = ['d'.toUInt8, 'i'.toUInt8, 'u'.toUInt8, 'x'.toUInt8, 'X'.toUInt8,
    'p'.toUInt8] := rfl
  have hall : ascii "scdiuxXp" = 's'.toUInt8 :: 'c'.toUInt8 :: numberSpecs := rfl
  have hargs : specArgs spec = 0 := by
    rw [specArgs, hall, if_neg]
    simp only [List.mem_cons, not_or]
    exact ⟨hs, hc, hnumber⟩
  rw [hlist] at hnumber
  simp only [List.mem_cons, List.not_mem_nil, or_false, not_or] at hnumber
  obtain ⟨hd, hi, hu, hx, hX, hp⟩ := hnumber
  have hsigned : ¬ (spec = 'd'.toUInt8 ∨ spec = 'i'.toUInt8) := fun h => h.elim hd hi
  rw [hargs, conversion, specText]
  simp only [if_neg hs, if_neg hc, if_neg hsigned, if_neg hu, if_neg hx, if_neg hX, if_neg hp]
  rfl

/-- Every conversion emits its text and takes its words. -/
theorem conversion_eq (h : Emitted m str size t o)
    (hargs : ArgsReadable m str size va texts (if spec = 's'.toUInt8 then [arg] else [])) :
    ∃ n, ∀ fuel, n ≤ fuel → conversion va fuel spec arg o =
      some (arg + specArgs spec, emitAll (specText (va arg) (texts arg) spec) o) := by
  by_cases hs : spec = 's'.toUInt8
  · subst hs
    rw [if_pos rfl] at hargs
    refine ⟨(texts arg).length + 1, fun fuel hfuel => ?_⟩
    by_cases hnull : va arg = 0
    · rw [conversion, specText, if_pos rfl, if_pos rfl, if_pos hnull, hnull]
      rfl
    · obtain ⟨hstring, hsep⟩ := hargs arg (List.mem_singleton_self arg) hnull
      have haddr : (va arg).toNat ≠ 0 := fun hzero => hnull (UInt32.toNat_inj.mp hzero)
      rw [conversion, specText, if_pos rfl, if_pos rfl, if_neg hnull, emitString, if_neg haddr,
        emitLoop_eq h hstring hsep hfuel]
      rfl
  refine ⟨0, fun fuel _ => ?_⟩
  by_cases hc : spec = 'c'.toUInt8
  · subst hc
    rw [conversion, specText, if_neg hs, if_neg hs, if_pos rfl, if_pos rfl]
    rfl
  by_cases hnumber : spec ∈ numberSpecs
  · rw [conversion_number hnumber, specArgs_number hnumber, specText_congr hs (va arg) (texts arg)]
  · exact conversion_other fuel hs hc hnumber

end Conversion

/-- From `s` the loop comes to `s'`, whatever it does then. -/
def Leads (va : Nat → UInt32) (s s' : Scan) : Prop :=
  ∃ k n, ∀ fuel, n ≤ fuel → Scan.loop va (fuel + k) s = Scan.loop va fuel s'

section Loop
variable {va : Nat → UInt32} {s s' s'' : Scan}

theorem Leads.refl (va : Nat → UInt32) (s : Scan) : Leads va s s := ⟨0, 0, fun _ _ => rfl⟩

theorem Leads.trans (h : Leads va s s') (h' : Leads va s' s'') : Leads va s s'' := by
  obtain ⟨k, n, hrun⟩ := h
  obtain ⟨k', n', hrun'⟩ := h'
  refine ⟨k' + k, max n n', fun fuel hfuel => ?_⟩
  rw [← Nat.add_assoc, hrun _ (by omega), hrun' _ (by omega)]

/-- A pass that works with enough fuel. -/
theorem leads_of_pass {n : Nat} (hchar : s.out.mem s.format ≠ 0)
    (hpass : ∀ fuel, n ≤ fuel → (s.read s.format).pass va fuel = some s') : Leads va s s' := by
  refine ⟨1, n, fun fuel hfuel => ?_⟩
  have hread : (s.read s.format).out.mem (s.read s.format).format ≠ 0 := hchar
  rw [Scan.loop]
  simp only [if_neg hread, hpass fuel hfuel, Option.bind_some]

end Loop

/-- After `t` has been emitted, at the address `f` of the format and the word `i`; only bytes
of the format up to `f` have been looked at. -/
structure Scan.At (s : Scan) (m : Memory) (str size lo f i : Nat) (t : List UInt8) : Prop where
  format : s.format = f
  arg : s.arg = i
  emitted : Emitted m str size t s.out
  reads : ∀ a ∈ s.reads, lo ≤ a ∧ a < f

section Directive
variable {m : Memory} {str size lo f i : Nat} {t : List UInt8} {va : Nat → UInt32}
  {texts : Nat → List UInt8} {s : Scan} {d : Directive} {ds : List Directive}

theorem Directive.text_ne_nil (d : Directive) : 0 < d.text.length := by
  cases d with
  | plain c => exact Nat.one_pos
  | percent => decide
  | conv long spec => cases long <;> exact Nat.succ_pos _

theorem Directive.head_ne_zero (hd : d.Ok) : ∃ c cs, d.text = c :: cs ∧ c ≠ 0 := by
  cases d with
  | plain c => exact ⟨c, [], rfl, hd.1⟩
  | percent => exact ⟨_, _, rfl, by decide⟩
  | conv long spec => cases long <;> exact ⟨_, _, rfl, by decide⟩

theorem Directive.conv_ok {long : Bool} {spec : UInt8} (hd : (Directive.conv long spec).Ok) :
    long = false → spec ≠ '%'.toUInt8 ∧ spec ≠ 'l'.toUInt8 := by
  rintro rfl
  exact hd.2

/-- One pass over a directive that the memory still has. -/
theorem pass_directive (hd : d.Ok) (hbytes : BytesAt s.out.mem s.format d.text)
    (hemitted : Emitted m str size t s.out)
    (hargs : ArgsReadable m str size va texts (stringArgs [d] s.arg)) :
    ∃ n r, (∀ fuel, n ≤ fuel → s.pass va fuel = some ⟨s.format + d.text.length, s.arg + d.args,
      emitAll (d.expand va texts s.arg) s.out, r ++ s.reads⟩) ∧
      ∀ a ∈ r, s.format ≤ a ∧ a < s.format + d.text.length := by
  cases d with
  | plain c =>
    exact ⟨0, [], fun fuel _ => pass_plain (bytesAt_cons.mp hbytes).1 hd.2, by simp⟩
  | percent =>
    obtain ⟨hfirst, hnext, _⟩ := bytesAt_cons.mp hbytes |>.imp_right bytesAt_cons.mp
    refine ⟨0, [s.format + 1], fun fuel _ => pass_percent hfirst hnext, fun a ha => ?_⟩
    rw [List.mem_singleton.mp ha]
    exact ⟨by omega, Nat.lt_succ_self _⟩
  | conv long spec =>
    have hspec : ArgsReadable m str size va texts
        (if spec = 's'.toUInt8 then [s.arg] else []) := by
      simpa [stringArgs] using hargs
    obtain ⟨n, hconv⟩ := conversion_eq hemitted hspec
    refine ⟨n, [s.format + (Directive.conv long spec).text.length - 1, s.format + 1],
      fun fuel hfuel => ?_, fun a ha => ?_⟩
    · rw [pass_conv hbytes (Directive.conv_ok hd), hconv fuel hfuel]
      rfl
    · have hlen : 2 ≤ (Directive.conv long spec).text.length := by
        cases long <;> simp [Directive.text]
      simp only [List.mem_cons, List.not_mem_nil, or_false] at ha
      omega

/-- One directive. -/
theorem Scan.At.directive (h : s.At m str size lo f i t) (hlo : lo ≤ f) (hd : d.Ok)
    (hbytes : BytesAt m f d.text) (hsep : Separate str size f d.text.length)
    (hargs : ArgsReadable m str size va texts (stringArgs [d] i)) :
    ∃ s', Leads va s s' ∧
      s'.At m str size lo (f + d.text.length) (i + d.args) (t ++ d.expand va texts i) := by
  obtain ⟨rfl, rfl, hemitted, hreads⟩ := h
  have hmem : BytesAt s.out.mem s.format d.text :=
    hbytes.congr fun x hlo hhi => hemitted.outside (by rw [Separate] at hsep; omega)
  obtain ⟨n, r, hpass, hr⟩ := pass_directive (s := s.read s.format) hd hmem hemitted hargs
  have hchar : s.out.mem s.format ≠ 0 := by
    obtain ⟨c, cs, htext, hc⟩ := Directive.head_ne_zero hd
    rw [htext] at hmem
    rw [(bytesAt_cons.mp hmem).1]
    exact hc
  have hlen := d.text_ne_nil
  refine ⟨_, leads_of_pass hchar hpass, rfl, rfl, hemitted.all _, fun a ha => ?_⟩
  rcases List.mem_append.mp ha with hmem | hmem
  · have hin := hr a hmem
    exact ⟨Nat.le_trans hlo hin.1, hin.2⟩
  · rcases List.mem_cons.mp hmem with rfl | hold
    · exact ⟨hlo, by omega⟩
    · have hin := hreads a hold
      exact ⟨hin.1, by omega⟩

/-- All directives, one after the other. -/
theorem Scan.At.directives (h : s.At m str size lo f i t) (hlo : lo ≤ f) (hds : ∀ d ∈ ds, d.Ok)
    (hbytes : BytesAt m f (ds.flatMap Directive.text))
    (hsep : Separate str size f (ds.flatMap Directive.text).length)
    (hargs : ArgsReadable m str size va texts (stringArgs ds i)) :
    ∃ s' i', Leads va s s' ∧ s'.At m str size lo (f + (ds.flatMap Directive.text).length) i'
      (t ++ expansion va texts ds i) := by
  induction ds generalizing s f i t with
  | nil => exact ⟨s, i, .refl va s, by simpa [expansion] using h⟩
  | cons d ds ih =>
    rw [List.flatMap_cons, bytesAt_append] at hbytes
    rw [List.flatMap_cons, List.length_append, Separate] at hsep
    have hhead : ArgsReadable m str size va texts (stringArgs [d] i) := fun j hj =>
      hargs j (List.mem_append.mpr (Or.inl (by simpa [stringArgs] using hj)))
    have hrest : ArgsReadable m str size va texts (stringArgs ds (i + d.args)) := fun j hj =>
      hargs j (List.mem_append.mpr (Or.inr hj))
    obtain ⟨s₁, hfirst, hs₁⟩ := h.directive hlo (hds d List.mem_cons_self) hbytes.1
      (by rw [Separate]; omega) hhead
    obtain ⟨s₂, j, hlast, hs₂⟩ := ih hs₁ (by omega)
      (fun e he => hds e (List.mem_cons_of_mem d he)) hbytes.2 (by rw [Separate]; omega) hrest
    refine ⟨s₂, j, hfirst.trans hlast, ?_⟩
    rw [List.flatMap_cons, List.length_append, ← Nat.add_assoc, expansion, ← List.append_assoc]
    exact hs₂

end Directive

/-- The directives of a format are behind the loop, and what is left of it is next. -/
theorem scan_directives {m : Memory} {str size format : Nat} {cs : List UInt8}
    {va : Nat → UInt32} {texts : Nat → List UInt8} (hfmt : StringAt m format cs)
    (hsep : Separate str size format (cs.length + 1))
    (hargs : ArgsReadable m str size va texts (stringArgs (directives cs).1 0)) :
    ∃ s f i, Leads va ⟨format, 0, ⟨m, str, if 0 < size then size - 1 else 0, 0⟩, []⟩ s ∧
      s.At m str size format f i (expansion va texts (directives cs).1 0) ∧
      format ≤ f ∧ f + (directives cs).2.length = format + cs.length ∧
      BytesAt m f ((directives cs).2 ++ [0]) := by
  have hparsed := directives_parsed hfmt.nonzero
  have hbytes := (stringAt_iff.mp hfmt).1
  have hlen := congrArg List.length hparsed.text
  rw [List.length_append] at hlen
  rw [hparsed.text, List.append_assoc, bytesAt_append] at hbytes
  have hstart : (⟨format, 0, ⟨m, str, if 0 < size then size - 1 else 0, 0⟩, []⟩ : Scan).At m str
      size format format 0 [] := ⟨rfl, rfl, .start m str size, by simp⟩
  obtain ⟨s, i, hleads, hs⟩ := hstart.directives le_rfl hparsed.ok hbytes.1
    (by rw [Separate] at hsep ⊢; omega) hargs
  rw [List.nil_append] at hs
  exact ⟨s, _, i, hleads, hs, Nat.le_add_right _ _, by omega, hbytes.2⟩

theorem Leads.ends {va : Nat → UInt32} {s s' : Scan} (h : Leads va s s')
    (hnul : s'.out.mem s'.format = 0) :
    ∃ n, ∀ fuel, n ≤ fuel → Scan.loop va fuel s = some (s'.read s'.format) := by
  obtain ⟨k, n, hrun⟩ := h
  refine ⟨n + 1 + k, fun fuel hfuel => ?_⟩
  obtain ⟨rest, rfl⟩ : ∃ rest, fuel = rest + 1 + k := ⟨fuel - k - 1, by omega⟩
  have hread : (s'.read s'.format).out.mem (s'.read s'.format).format = 0 := hnul
  rw [hrun _ (by omega), Scan.loop]
  simp only [if_pos hread]

/-- The last byte of a complete format that is looked at is its NUL. -/
theorem vsnprintf_run {m : Memory} {str size format : Nat} {cs : List UInt8}
    {va : Nat → UInt32} {texts : Nat → List UInt8} (hfmt : StringAt m format cs)
    (hcomplete : Complete cs) (hsep : Separate str size format (cs.length + 1))
    (hargs : ArgsReadable m str size va texts (stringArgs (directives cs).1 0)) :
    ∃ (n : Nat) (s : Scan) (i : Nat), (∀ fuel, n ≤ fuel → vsnprintf fuel m str size format va =
      some ⟨if 0 < size then Function.update s.out.mem s.out.dst 0 else s.out.mem, s.out.total,
        (format + cs.length) :: s.reads⟩) ∧
      s.At m str size format (format + cs.length) i (expansion va texts (directives cs).1 0) := by
  obtain ⟨s, f, i, hleads, hs, _, hend, _⟩ := scan_directives hfmt hsep hargs
  rw [hcomplete, List.length_nil, Nat.add_zero] at hend
  subst hend
  have hformat := hs.format
  have hnul : s.out.mem s.format = 0 := by
    rw [hformat, hs.emitted.outside (by rw [Separate] at hsep; omega)]
    exact hfmt.nul
  obtain ⟨n, hloop⟩ := hleads.ends hnul
  refine ⟨n, s, i, fun fuel hfuel => ?_, hs⟩
  rw [vsnprintf]
  simp only [hloop fuel hfuel, Option.map_some, Scan.read, hformat]

/-- For every complete format and every buffer the text is cut off where it has to be, and the
result is the length of the whole text. -/
theorem vsnprintf_truncates {m : Memory} {str size format : Nat} {cs : List UInt8}
    {va : Nat → UInt32} {texts : Nat → List UInt8} (hfmt : StringAt m format cs)
    (hcomplete : Complete cs) (hsep : Separate str size format (cs.length + 1))
    (hargs : ArgsReadable m str size va texts (stringArgs (directives cs).1 0))
    (hlen : (expansion va texts (directives cs).1 0).length < 2 ^ 31) :
    ∃ n r, (∀ fuel, n ≤ fuel → vsnprintf fuel m str size format va = some r) ∧
      Truncates m r.mem str size (expansion va texts (directives cs).1 0) ∧
      r.ret = (expansion va texts (directives cs).1 0).length := by
  obtain ⟨n, s, i, hrun, hs⟩ := vsnprintf_run hfmt hcomplete hsep hargs
  have hemitted := hs.emitted
  generalize expansion va texts (directives cs).1 0 = t at *
  refine ⟨n, _, hrun, ?_, hemitted.total.trans (toInt32_of_lt hlen)⟩
  by_cases hsize : 0 < size
  · have hmem : Function.update s.out.mem s.out.dst 0 =
        storeBytes m str (t.take (size - 1) ++ [0]) := by
      rw [storeBytes_snoc, hemitted.mem, hemitted.dst, List.length_take, Nat.min_comm]
    simp only [if_pos hsize, hmem]
    refine ⟨fun _ => bytesAt_storeBytes _ _ _, fun x hx => storeBytes_outside ?_⟩
    simp only [List.length_append, List.length_take, List.length_singleton]
    omega
  · simp only [if_neg hsize]
    exact ⟨fun hpos => absurd hpos hsize, fun x hx => hemitted.outside hx⟩

/-- `"%s=%d"` into eight bytes, for "pi" and -314. -/
def samplePrint : Memory :=
  storeBytes (storeBytes (fun _ => 0) 100 (ascii "%s=%d" ++ [0])) 200 (ascii "pi" ++ [0])

def sampleArgs (i : Nat) : UInt32 := if i = 0 then 200 else 0xFFFFFEC6

theorem samplePrint_strings : StringAt samplePrint 100 (ascii "%s=%d") ∧
    StringAt samplePrint 200 (ascii "pi") := by
  refine ⟨stringAt_iff.mpr ⟨?_, List.forall_iff_forall_mem.mp (by decide)⟩,
    stringAt_iff.mpr ⟨bytesAt_storeBytes _ _ _, List.forall_iff_forall_mem.mp (by decide)⟩⟩
  exact (bytesAt_storeBytes _ 100 (ascii "%s=%d" ++ [0])).congr fun x _ hhi =>
    storeBytes_outside (Or.inl (Nat.lt_of_lt_of_le hhi (by decide)))

theorem sampleArgs_readable : ArgsReadable samplePrint 300 7 sampleArgs (fun _ => ascii "pi")
    (stringArgs (directives (ascii "%s=%d")).1 0) := by
  intro i hi _
  have hwords : stringArgs (directives (ascii "%s=%d")).1 0 = [0] := by decide +kernel
  rw [hwords, List.mem_singleton] at hi
  subst hi
  exact ⟨samplePrint_strings.2, Or.inr (by decide)⟩

theorem vsnprintf_truncates_seven :
    ∃ n r, (∀ fuel, n ≤ fuel → vsnprintf fuel samplePrint 300 7 100 sampleArgs = some r) ∧
      Truncates samplePrint r.mem 300 7 (ascii "pi=-314") ∧ r.ret = 7 := by
  have htext : expansion sampleArgs (fun _ => ascii "pi") (directives (ascii "%s=%d")).1 0 =
      ascii "pi=-314" := by decide +kernel
  have hrun := vsnprintf_truncates samplePrint_strings.1 (by decide) (Or.inr (by decide))
    sampleArgs_readable (by rw [htext]; decide)
  rw [htext] at hrun
  exact hrun

end Crest
