import CrestRtos.Library.ArmCore

/-!
# Exceptions of an ARMv7-M core

Thread code on the process stack is interrupted: the core pushes eight words, with room above
them if the code has used the floating-point registers, and puts the old alignment of the stack
pointer into bit 9 of the last. Any code that leaves these words and the other registers alone
comes back by its own exception return as if nothing had happened.
-/

namespace ArmCore
open ByteMemory MachineWord

/-- The stacked xPSR, with bit 9 for a word of padding. -/
def stackedXpsr (xpsr : Nat) (pad : Bool) : Nat :=
  (xpsr &&& 0xFFFFFDFF) ||| (if pad then 0x200 else 0)

/-- Entry from thread mode on the process stack. `pc` holds the return address; the vector that
is fetched and the flags are left out. The core stores floating-point registers in their room
when a handler uses them, and no handler does. -/
def Cpu.exceptionEntry (c : Cpu) (xpsr : Nat) : Cpu :=
  let frame := andNot (minus c.psp (frameSize c.fpca)) 4
  { c with
    regs := Function.update c.regs .lr (excReturn c.fpca)
    psp := frame
    handler := true
    fpca := false
    spsel := false
    mem := storeWords c.mem frame
      (frameRegs.map c.regs ++ [stackedXpsr xpsr (c.psp % 8 == 4)]) }

def Cpu.mov (c : Cpu) (rd rm : Fin 13) : Cpu :=
  { c with regs := Function.update c.regs (.r rd) (c.regs (.r rm)) }

/-- What registers and stack pointers can hold. -/
structure Sound (regs : Reg → Nat) (sp : Nat) : Prop where
  lt : ∀ r, regs r < 2 ^ 32
  even : regs .pc % 2 = 0
  aligned : sp % 4 = 0
  top : sp < 2 ^ 32

/-- The frame at `a` of code with these registers whose stack pointer was `sp`. -/
structure Stacked (m : Memory) (a : Nat) (extended : Bool) (regs : Reg → Nat) (sp : Nat) :
    Prop where
  words : (frameRegs.zip (wordsAt m a 7)).map (fun p => p.1.land p.2) = frameRegs.map regs
  top : sp = a + frameSize extended + if (read32 m (a + 28)).testBit 9 then 4 else 0

theorem read32_write32 (m : Memory) (a v : Nat) : read32 (write32 m a v) a = wrap v := by
  have hbyte : ∀ n, (UInt8.ofNat n).toNat = n % 256 := fun n => rfl
  simp only [read32, write32, if_true, if_neg (show ¬ a + 1 = a by omega),
    if_neg (show ¬ a + 2 = a by omega), if_neg (show ¬ a + 2 = a + 1 by omega),
    if_neg (show ¬ a + 3 = a by omega), if_neg (show ¬ a + 3 = a + 1 by omega),
    if_neg (show ¬ a + 3 = a + 2 by omega), hbyte, wrap]
  omega

theorem wordsAt_storeWords (m : Memory) (a : Nat) {ws : List Nat} (h : ∀ w ∈ ws, w < 2 ^ 32) :
    wordsAt (storeWords m a ws) a ws.length = ws := by
  induction ws generalizing m a with
  | nil => rfl
  | cons w ws ih =>
    have hfirst : read32 (storeWords (write32 m a w) (a + 4) ws) a = w := by
      rw [read32_congr fun x _ _ => storeWords_of_outside (by omega)]
      exact read32_write32_same m (h w (List.mem_cons_self ..))
    have hsplit := wordsAt_add (storeWords m a (w :: ws)) a 1 ws.length
    have hone : wordsAt (storeWords m a (w :: ws)) a 1 = [w] := by
      change [read32 (storeWords m a (w :: ws)) (a + 4 * 0)] = [w]
      exact congrArg (fun x => [x]) hfirst
    rw [List.length_cons, Nat.add_comm, hsplit, hone]
    exact congrArg (w :: ·) (ih (write32 m a w) (a + 4) fun x hx => h x (List.mem_cons_of_mem _ hx))

/-- Loading words that leave `g` in the registers. -/
theorem fill_zip {f g : Reg → Nat} {rs : List Reg} {ws : List Nat}
    (h : (rs.zip ws).map (fun p => p.1.land p.2) = rs.map g) :
    fill f (rs.zip ws) = fun r => if r ∈ rs then g r else f r := by
  induction rs generalizing f ws with
  | nil => simp [fill]
  | cons r rs ih =>
    cases ws with
    | nil => cases h
    | cons w ws =>
      obtain ⟨hw, hrest⟩ := List.cons.inj h
      change r.land w = g r at hw
      rw [List.zip_cons_cons, fill, ih hrest, hw]
      funext x
      by_cases hx : x ∈ rs
      · rw [if_pos hx, if_pos (List.mem_cons_of_mem _ hx)]
      · rw [if_neg hx]
        by_cases hxr : x = r
        · subst hxr
          rw [Function.update_self, if_pos (List.mem_cons_self ..)]
        · rw [Function.update_of_ne hxr, if_neg (by simp [hx, hxr])]

theorem zip_map_land {g : Reg → Nat} {rs : List Reg} (h : ∀ r ∈ rs, r.land (g r) = g r) :
    (rs.zip (rs.map g)).map (fun p => p.1.land p.2) = rs.map g := by
  induction rs with
  | nil => rfl
  | cons r rs ih =>
    rw [List.map_cons, List.zip_cons_cons, List.map_cons,
      ih fun x hx => h x (List.mem_cons_of_mem _ hx), h r (List.mem_cons_self ..)]

/-- Loading a list of different registers. -/
theorem map_fill {f : Reg → Nat} {rs : List Reg} {ws : List Nat} (hnodup : rs.Nodup)
    (hlen : rs.length = ws.length) :
    rs.map (fill f (rs.zip ws)) = (rs.zip ws).map fun p => p.1.land p.2 := by
  induction rs generalizing f ws with
  | nil => rfl
  | cons r rs ih =>
    cases ws with
    | nil => cases hlen
    | cons w ws =>
      obtain ⟨hr, hrs⟩ := List.nodup_cons.mp hnodup
      have hfst : (rs.zip ws).map Prod.fst = rs := List.map_fst_zip (by simpa using hlen.le)
      have hfirst : fill (Function.update f r (r.land w)) (rs.zip ws) r = r.land w := by
        rw [fill_of_notMem (by rw [hfst]; exact hr), Function.update_self]
      rw [List.zip_cons_cons, List.map_cons, List.map_cons, fill, hfirst]
      exact congrArg _ (ih hrs (by simpa using hlen))

/-- What holds of all words that are loaded, and held before, holds of the registers. -/
theorem fill_holds {P : Reg → Nat → Prop} {f : Reg → Nat} {ps : List (Reg × Nat)}
    (hf : ∀ r, P r (f r)) (hps : ∀ p ∈ ps, P p.1 (p.1.land p.2)) (r : Reg) :
    P r (fill f ps r) := by
  induction ps generalizing f with
  | nil => exact hf r
  | cons p ps ih =>
    apply ih
    · intro x
      by_cases hx : x = p.1
      · subst hx
        rw [Function.update_self]
        exact hps p (List.mem_cons_self ..)
      · rw [Function.update_of_ne hx]
        exact hf x
    · intro q hq
      exact hps q (List.mem_cons_of_mem _ hq)

section Frames
variable {c : Cpu} {m m' : Memory} {a sp : Nat} {extended : Bool} {regs : Reg → Nat}

theorem Sound.land (h : Sound regs sp) (r : Reg) : r.land (regs r) = regs r := by
  cases r with
  | pc =>
    have heven := h.even
    rw [Reg.land, andNot_one]
    omega
  | r i => rfl
  | lr => rfl

theorem Stacked.congr (h : Stacked m a extended regs sp)
    (hsame : ∀ x, a ≤ x → x < a + 32 → m' x = m x) : Stacked m' a extended regs sp := by
  constructor
  · rw [wordsAt_congr fun x hlo hhi => hsame x hlo (by omega)]
    exact h.words
  · rw [read32_congr fun x hlo hhi => hsame x (by omega) (by omega)]
    exact h.top

/-- The five words that a handler takes its arguments from. -/
theorem Stacked.args (h : Stacked m a extended regs sp) : read32 m a = regs (.r 0) ∧
    read32 m (a + 4) = regs (.r 1) ∧ read32 m (a + 8) = regs (.r 2) ∧
    read32 m (a + 12) = regs (.r 3) ∧ read32 m (a + 16) = regs (.r 12) := by
  obtain ⟨h0, hrest⟩ := List.cons.inj h.words
  obtain ⟨h1, hrest⟩ := List.cons.inj hrest
  obtain ⟨h2, hrest⟩ := List.cons.inj hrest
  obtain ⟨h3, hrest⟩ := List.cons.inj hrest
  exact ⟨h0, h1, h2, h3, (List.cons.inj hrest).1⟩

theorem stackedXpsr_pad (xpsr : Nat) (pad : Bool) :
    (stackedXpsr xpsr pad).testBit 9 = pad := by
  rw [stackedXpsr, Nat.testBit_or, Nat.testBit_and,
    show (0xFFFFFDFF : Nat).testBit 9 = false by decide, Bool.and_false, Bool.false_or]
  cases pad <;> decide

theorem stackedXpsr_lt (xpsr : Nat) (pad : Bool) : stackedXpsr xpsr pad < 2 ^ 32 := by
  apply Nat.or_lt_two_pow
  · exact Nat.lt_of_le_of_lt Nat.and_le_right (by decide)
  · cases pad <;> decide

/-- The frame is pushed below the stack pointer, at a multiple of 8. -/
theorem exceptionEntry_psp (xpsr : Nat) (hsound : Sound c.regs c.psp)
    (hroom : frameSize c.fpca + 4 ≤ c.psp) : (c.exceptionEntry xpsr).psp % 8 = 0 ∧
      c.psp = (c.exceptionEntry xpsr).psp + frameSize c.fpca +
        if c.psp % 8 == 4 then 4 else 0 := by
  have hsp := hsound.aligned
  have htop := hsound.top
  have hsize := frameSize_mod c.fpca
  have hminus : minus c.psp (frameSize c.fpca) = c.psp - frameSize c.fpca := by
    simp only [minus, wrap]
    omega
  have hbit : (c.psp - frameSize c.fpca) &&& 4 = if c.psp % 8 = 4 then 4 else 0 := by
    have hand : (c.psp - frameSize c.fpca) &&& 2 ^ 2 =
        ((c.psp - frameSize c.fpca).testBit 2).toNat * 2 ^ 2 := Nat.and_two_pow _ _
    rw [Nat.testBit_eq_decide_div_mod_eq] at hand
    apply hand.trans
    by_cases hpad : c.psp % 8 = 4
    · rw [if_pos hpad, decide_eq_true (by omega)]
      rfl
    · rw [if_neg hpad, decide_eq_false (by omega)]
      rfl
  have hframe : (c.exceptionEntry xpsr).psp =
      c.psp - frameSize c.fpca - if c.psp % 8 = 4 then 4 else 0 := by
    simp only [Cpu.exceptionEntry, andNot, hminus, hbit]
  rw [hframe]
  by_cases hpad : c.psp % 8 = 4
  · simp only [hpad, if_true, beq_self_eq_true]
    omega
  · simp only [if_neg hpad, beq_iff_eq]
    omega

theorem exceptionEntry_mem (c : Cpu) (xpsr : Nat) : (c.exceptionEntry xpsr).mem =
    storeWords c.mem (c.exceptionEntry xpsr).psp
      (frameRegs.map c.regs ++ [stackedXpsr xpsr (c.psp % 8 == 4)]) := rfl

theorem exceptionEntry_outside (xpsr : Nat) {x : Nat}
    (h : x < (c.exceptionEntry xpsr).psp ∨ (c.exceptionEntry xpsr).psp + 32 ≤ x) :
    (c.exceptionEntry xpsr).mem x = c.mem x := by
  apply storeWords_of_outside
  exact h

theorem exceptionEntry_stacked (xpsr : Nat) (hsound : Sound c.regs c.psp)
    (hroom : frameSize c.fpca + 4 ≤ c.psp) :
    Stacked (c.exceptionEntry xpsr).mem (c.exceptionEntry xpsr).psp c.fpca c.regs c.psp := by
  have hwords := @wordsAt_storeWords c.mem (c.exceptionEntry xpsr).psp
    (frameRegs.map c.regs ++ [stackedXpsr xpsr (c.psp % 8 == 4)]) (by
      intro w hw
      rcases List.mem_append.mp hw with hreg | hxpsr
      · obtain ⟨r, _, rfl⟩ := List.mem_map.mp hreg
        exact hsound.lt r
      · rw [List.mem_singleton.mp hxpsr]
        exact stackedXpsr_lt xpsr _)
  rw [← exceptionEntry_mem, List.length_append, List.length_map, List.length_singleton] at hwords
  rw [wordsAt_succ] at hwords
  obtain ⟨hregs, hlast⟩ := List.append_inj' hwords (by simp only [List.length_singleton])
  refine ⟨?_, ?_⟩
  · have hwords : wordsAt (c.exceptionEntry xpsr).mem (c.exceptionEntry xpsr).psp 7 =
        frameRegs.map c.regs := hregs
    rw [hwords]
    exact zip_map_land fun r _ => hsound.land r
  have hxpsr : read32 (c.exceptionEntry xpsr).mem ((c.exceptionEntry xpsr).psp + 28) =
      stackedXpsr xpsr (c.psp % 8 == 4) := (List.cons.inj hlast).1
  rw [hxpsr, stackedXpsr_pad]
  exact (exceptionEntry_psp xpsr hsound hroom).2

/-- The exception return takes up the frame that is at the process stack pointer, and goes up by
the size of the one that EXC_RETURN tells of. -/
theorem exceptionReturn_stacked {popped : Bool} (h : Stacked c.mem c.psp extended regs sp)
    (hal : c.psp % 8 = 0) (hlt : sp + frameSize popped < 2 ^ 32 + frameSize extended) :
    c.exceptionReturn popped = { c with
      regs := fun r => if r ∈ frameRegs then regs r else c.regs r
      psp := sp + frameSize popped - frameSize extended
      handler := false
      fpca := popped
      spsel := true } := by
  have hregs : fill c.regs (frameRegs.zip (wordsAt c.mem c.psp 7)) =
      fun r => if r ∈ frameRegs then regs r else c.regs r := fill_zip h.words
  have hsp : wrap (c.psp + frameSize popped) |||
      (if (read32 c.mem (c.psp + 28)).testBit 9 then 4 else 0) =
        sp + frameSize popped - frameSize extended := by
    have htop := h.top
    have hsize := frameSize_mod popped
    have hor : ∀ n, 8 * n ||| 4 = 8 * n + 4 := fun n =>
      (Nat.two_pow_add_eq_or_of_lt (i := 3) (b := 4) (by decide) n).symm
    rw [wrap_of_lt (by omega)]
    split at htop
    · rw [if_pos ‹_›, show c.psp + frameSize popped =
        8 * ((c.psp + frameSize popped) / 8) by omega, hor]
      omega
    · rw [if_neg ‹_›, Nat.or_zero]
      omega
  simp only [Cpu.exceptionReturn, Cpu.load, hsp]
  rw [show frameRegs.length = 7 from rfl, hregs]

/-- Code that keeps the frame, the registers beside it and the process stack pointer. -/
structure Preserves (e d : Cpu) : Prop where
  handler : d.handler = true
  psp : d.psp = e.psp
  regs : ∀ i : Fin 13, Reg.r i ∉ frameRegs → d.regs (.r i) = e.regs (.r i)
  frame : ∀ x, e.psp ≤ x → x < e.psp + 32 → d.mem x = e.mem x

/-- An exception is transparent to what it interrupts. -/
theorem exception_transparent {d : Cpu} (xpsr : Nat) (hsound : Sound c.regs c.psp)
    (hroom : frameSize c.fpca + 4 ≤ c.psp) (h : Preserves (c.exceptionEntry xpsr) d) :
    d.exceptionReturn c.fpca = { d with
      regs := c.regs
      psp := c.psp
      handler := false
      fpca := c.fpca
      spsel := true } := by
  have hstacked := (exceptionEntry_stacked xpsr hsound hroom).congr h.frame
  have hal := (exceptionEntry_psp xpsr hsound hroom).1
  rw [← h.psp] at hstacked hal
  have hregs : (fun r => if r ∈ frameRegs then c.regs r else d.regs r) = c.regs := by
    funext r
    split
    · rfl
    · rename_i hr
      cases r with
      | r i =>
        have hne : Reg.r i ≠ Reg.lr := fun heq => by cases heq
        refine (h.regs i hr).trans ?_
        simp only [Cpu.exceptionEntry]
        exact Function.update_of_ne hne _ c.regs
      | lr => exact absurd (by decide) hr
      | pc => exact absurd (by decide) hr
  have htop := hsound.top
  rw [exceptionReturn_stacked hstacked hal (by omega), hregs, Nat.add_sub_cancel]

end Frames

end ArmCore
