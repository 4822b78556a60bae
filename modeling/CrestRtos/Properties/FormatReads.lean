import CrestRtos.Properties.Printing

/-!
# How far `vsnprintf` reads its format

The loop looks for the NUL only where a directive begins. A format that ends inside a
directive has its NUL taken for the specifier, and the loop goes on behind it.
-/

namespace Crest
open ByteMemory CString

/-- The call returns, having looked at the bytes of the format alone and at its NUL last. -/
def StaysInside (m : Memory) (str size format : Nat) (va : Nat → UInt32) (cs : List UInt8) : Prop :=
  ∃ n r, (∀ fuel, n ≤ fuel → vsnprintf fuel m str size format va = some r) ∧
    (∀ a ∈ r.reads, format ≤ a ∧ a ≤ format + cs.length) ∧
    r.reads.head? = some (format + cs.length)

section Reads
variable {va : Nat → UInt32} {fuel a : Nat} {s s' : Scan}

theorem pass_reads (h : s.pass va fuel = some s') (ha : a ∈ s.reads) : a ∈ s'.reads := by
  rw [Scan.pass] at h
  by_cases hplain : s.out.mem s.format ≠ '%'.toUInt8
  · simp only [if_pos hplain, Option.some.injEq] at h
    subst h
    exact ha
  · simp only [if_neg hplain] at h
    by_cases hpercent : s.out.mem (s.format + 1) = '%'.toUInt8
    · simp only [if_pos hpercent, Option.some.injEq] at h
      subst h
      exact List.mem_cons_of_mem _ ha
    · simp only [if_neg hpercent] at h
      obtain ⟨r, _, rfl⟩ := Option.map_eq_some_iff.mp h
      exact List.mem_cons_of_mem _ (List.mem_cons_of_mem _ ha)

/-- What has been looked at stays so, and where the loop is it looks. -/
theorem loop_reads (h : Scan.loop va fuel s = some s') :
    s.format ∈ s'.reads ∧ ∀ a ∈ s.reads, a ∈ s'.reads := by
  induction fuel generalizing s with
  | zero => cases h
  | succ fuel ih =>
    have hread : ∀ a ∈ (s.read s.format).reads, a ∈ s'.reads := by
      rw [Scan.loop] at h
      intro a ha
      by_cases hnul : (s.read s.format).out.mem (s.read s.format).format = 0
      · simp only [if_pos hnul, Option.some.injEq] at h
        subst h
        exact ha
      · simp only [if_neg hnul] at h
        obtain ⟨s₁, hpass, hloop⟩ := Option.bind_eq_some_iff.mp h
        exact (ih hloop).2 a (pass_reads hpass ha)
    exact ⟨hread _ List.mem_cons_self, fun a ha => hread a (List.mem_cons_of_mem _ ha)⟩

end Reads

section Incomplete
variable {m : Memory} {str size f lo i : Nat} {t rest : List UInt8} {s : Scan}

/-- An incomplete directive and the NUL look like a conversion with the specifier NUL. -/
theorem incomplete_text (h : rest = ascii "%" ∨ rest = ascii "%l") :
    ∃ long, rest ++ [0] = (Directive.conv long 0).text := by
  rcases h with rfl | rfl
  · exact ⟨false, rfl⟩
  · exact ⟨true, rfl⟩

/-- The loop steps over the NUL behind an incomplete directive. -/
theorem Scan.At.over (va : Nat → UInt32) (h : s.At m str size lo f i t)
    (hrest : rest = ascii "%" ∨ rest = ascii "%l") (hbytes : BytesAt m f (rest ++ [0]))
    (hsep : Separate str size f (rest.length + 1)) :
    ∃ s', Leads va s s' ∧ s'.format = f + rest.length + 1 := by
  obtain ⟨long, htext⟩ := incomplete_text hrest
  obtain ⟨rfl, rfl, hemitted, _⟩ := h
  have hmem : BytesAt s.out.mem s.format (Directive.conv long 0).text := by
    rw [← htext]
    refine hbytes.congr fun x hlo hhi => hemitted.outside ?_
    rw [List.length_append, List.length_singleton] at hhi
    rw [Separate] at hsep
    omega
  have hlen : (Directive.conv long 0).text.length = rest.length + 1 := by
    rw [← htext, List.length_append, List.length_singleton]
  have hchar : s.out.mem s.format ≠ 0 := by
    have hfirst : s.out.mem s.format = '%'.toUInt8 := by
      cases long <;> exact (bytesAt_cons.mp hmem).1
    rw [hfirst]
    decide
  have hspec : long = false → (0 : UInt8) ≠ '%'.toUInt8 ∧ (0 : UInt8) ≠ 'l'.toUInt8 :=
    fun _ => by decide
  have hpass : ∀ fuel, 0 ≤ fuel → (s.read s.format).pass va fuel = _ := fun fuel _ =>
    (pass_conv (s := s.read s.format) hmem hspec).trans (congrArg _
      (conversion_other (t := []) fuel (by decide) (by decide) (by decide)))
  refine ⟨_, leads_of_pass hchar hpass, ?_⟩
  change s.format + (Directive.conv long 0).text.length = _
  rw [hlen, Nat.add_assoc]

end Incomplete

section Format
variable {m : Memory} {str size format : Nat} {cs : List UInt8} {va : Nat → UInt32}
  {texts : Nat → List UInt8}

theorem StaysInside.complete (h : StaysInside m str size format va cs) (hfmt : StringAt m format cs)
    (hsep : Separate str size format (cs.length + 1))
    (hargs : ArgsReadable m str size va texts (stringArgs (directives cs).1 0)) : Complete cs := by
  obtain ⟨n, r, hrun, hreads, _⟩ := h
  by_contra hincomplete
  obtain ⟨s, f, i, hleads, hs, hle, hend, hrest⟩ := scan_directives hfmt hsep hargs
  have htail := (directives_parsed hfmt.nonzero).rest.resolve_left hincomplete
  obtain ⟨s', hover, hformat⟩ := hs.over va htail hrest (by rw [Separate] at hsep ⊢; omega)
  obtain ⟨k, n', hloop⟩ := hleads.trans hover
  have hcall := hrun (max n n' + k) (by omega)
  rw [vsnprintf] at hcall
  obtain ⟨s'', hscan, rfl⟩ := Option.map_eq_some_iff.mp hcall
  rw [hloop _ (by omega)] at hscan
  have hbad := hreads s'.format (loop_reads hscan).1
  omega

/-- The reads of `vsnprintf` stay inside its format if and only if the last directive is
complete. -/
theorem format_reads_iff (hfmt : StringAt m format cs)
    (hsep : Separate str size format (cs.length + 1))
    (hargs : ArgsReadable m str size va texts (stringArgs (directives cs).1 0)) :
    StaysInside m str size format va cs ↔ Complete cs := by
  refine ⟨fun h => h.complete hfmt hsep hargs, fun hcomplete => ?_⟩
  obtain ⟨n, s, i, hrun, hs⟩ := vsnprintf_run hfmt hcomplete hsep hargs
  refine ⟨n, _, hrun, fun a ha => ?_, rfl⟩
  rcases List.mem_cons.mp ha with rfl | hold
  · exact ⟨by omega, le_rfl⟩
  · have hin := hs.reads a hold
    exact ⟨hin.1, by omega⟩

end Format

theorem format_reads_iff_complete :
    StaysInside samplePrint 300 7 100 sampleArgs (ascii "%s=%d") ↔ Complete (ascii "%s=%d") :=
  format_reads_iff samplePrint_strings.1 (Or.inr (by decide)) sampleArgs_readable

/-- "%" at 100, and other text behind its NUL. -/
def lonePercent : Memory := storeBytes (fun _ => 0) 100 (ascii "%" ++ [0] ++ ascii "AB")

/-- The NUL is taken for the specifier and the text behind the format is printed. -/
theorem format_overrun : StringAt lonePercent 100 (ascii "%") ∧
    (vsnprintf 10 lonePercent 300 10 100 fun _ => 0).any (fun r =>
      decide (r.reads = [104, 103, 102, 101, 101, 100] ∧ r.ret = 4)) = true ∧
    ¬ StaysInside lonePercent 300 10 100 (fun _ => 0) (ascii "%") := by
  have hstored := bytesAt_storeBytes (fun _ => 0) 100 (ascii "%" ++ [0] ++ ascii "AB")
  have hfmt : StringAt lonePercent 100 (ascii "%") :=
    stringAt_iff.mpr ⟨(bytesAt_append.mp hstored).1, List.forall_iff_forall_mem.mp (by decide)⟩
  refine ⟨hfmt, by decide +kernel, fun h => ?_⟩
  have hreadable : ArgsReadable lonePercent 300 10 (fun _ => 0) (fun _ => [])
      (stringArgs (directives (ascii "%")).1 0) := by
    intro i hi
    cases hi
  exact absurd (h.complete hfmt (Or.inr (by decide)) hreadable) (by decide)

end Crest
