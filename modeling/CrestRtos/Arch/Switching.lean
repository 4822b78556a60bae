import CrestRtos.Library.ArmException
import CrestRtos.Properties.TaskEntry

/-!
# A task's registers on its stack

PendSV pushes the eight callee-saved registers below the frame that the core has pushed, and
pops them again for the next task. What it has stored for a task is all of the task's
registers and its stack pointer, so long as no task uses the floating-point registers: the
handler takes EXC_RETURN from the task that it leaves. The SVC gate gives every register back.
-/

namespace Crest
open ByteMemory MachineWord ArmCore

/-- What a task is to find when it runs again. -/
structure Context where
  regs : Reg → Nat
  sp : Nat

/-- The answer to a syscall. -/
def Context.answer (x : Context) (v : Nat) : Context :=
  { x with regs := Function.update x.regs (.r 0) (wrap v) }

/-- The sixteen words from `stack_pointer` on hold the context, with a basic frame. -/
structure Suspended (m : Memory) (a : Nat) (x : Context) : Prop where
  callee : wordsAt m a 8 = calleeSaved.map x.regs
  frame : Stacked m (a + 32) false x.regs x.sp

/-- `SVC_Handler` for a task on the process stack; `f` is what `svc_handler_c` does. -/
def svcVector (f : Cpu → Cpu) : List Instr :=
  [.mrsPsp 0,
    .push [.lr],
    .bl f,
    .pop [.lr],
    .bxLr]

/-- A call of compiled code from a handler: it comes back with the callee-saved registers, the
stack pointers and the word that the handler has pushed. -/
structure Returns (f : Cpu → Cpu) (d : Cpu) : Prop where
  handler : (f d).handler = d.handler
  psp : (f d).psp = d.psp
  msp : (f d).msp = d.msp
  regs : ∀ i : Fin 13, Reg.r i ∉ frameRegs → (f d).regs (.r i) = d.regs (.r i)
  pushed : ∀ x, d.msp ≤ x → x < d.msp + 4 → (f d).mem x = d.mem x

section Contexts
variable {m m' : Memory} {a v : Nat} {x : Context} {c d : Cpu} {f : Cpu → Cpu}

@[simp] theorem answer_r0 (x : Context) (v : Nat) : (x.answer v).regs (.r 0) = wrap v := by
  simp only [Context.answer, Function.update_self]

theorem answer_of_ne (x : Context) (v : Nat) {r : Reg} (hr : r ≠ .r 0) :
    (x.answer v).regs r = x.regs r := Function.update_of_ne hr _ _

@[simp] theorem answer_sp (x : Context) (v : Nat) : (x.answer v).sp = x.sp := rfl

theorem Suspended.congr (h : Suspended m a x) (hsame : ∀ y, a ≤ y → y < a + 64 → m' y = m y) :
    Suspended m' a x := by
  constructor
  · rw [wordsAt_congr fun y hlo hhi => hsame y hlo (by omega)]
    exact h.callee
  · apply h.frame.congr
    intro y hlo hhi
    apply hsame
    · omega
    · omega

/-- The context begins 64 bytes above, or 68. -/
theorem Suspended.below (h : Suspended m a x) : a + 64 ≤ x.sp ∧ x.sp ≤ a + 68 := by
  have htop := h.frame.top
  have hsize : frameSize false = 32 := rfl
  split at htop <;> omega

/-- A word stored at `stack_pointer[8]` is the R0 that the task goes on with. -/
theorem Suspended.answer (h : Suspended m a x) (v : Nat) :
    Suspended (write32 m (a + 32) v) a (x.answer v) := by
  have hcallee : calleeSaved.map (x.answer v).regs = calleeSaved.map x.regs := by
    apply List.map_congr_left
    intro r hr
    apply answer_of_ne
    rintro rfl
    exact absurd hr (by decide)
  have hrest : [Reg.r 1, .r 2, .r 3, .r 12, .lr, .pc].map (x.answer v).regs =
      [Reg.r 1, .r 2, .r 3, .r 12, .lr, .pc].map x.regs := by
    apply List.map_congr_left
    intro r hr
    apply answer_of_ne
    rintro rfl
    exact absurd hr (by decide)
  constructor
  · rw [hcallee, ← h.callee]
    apply wordsAt_congr
    intro y hlo hhi
    exact write32_of_outside m (by omega)
  constructor
  · have hold := h.frame.words
    rw [show (7 : Nat) = 1 + 6 from rfl, wordsAt_add] at hold ⊢
    obtain ⟨_, htail⟩ := List.cons.inj hold
    have hkeep : wordsAt (write32 m (a + 32) v) (a + 32 + 4 * 1) 6 =
        wordsAt m (a + 32 + 4 * 1) 6 := by
      apply wordsAt_congr
      intro y hlo hhi
      exact write32_of_outside m (by omega)
    have hhead : wordsAt (write32 m (a + 32) v) (a + 32) 1 = [wrap v] := by
      change [read32 (write32 m (a + 32) v) (a + 32 + 4 * 0)] = _
      rw [Nat.mul_zero, Nat.add_zero, read32_write32]
    rw [hhead, hkeep]
    change wrap v :: _ = (x.answer v).regs (.r 0) :: _
    rw [answer_r0]
    exact congrArg (wrap v :: ·) (htail.trans hrest.symm)
  · rw [read32_write32_of_disjoint m (by omega)]
    exact h.frame.top

theorem Sound.answer (h : Sound x.regs x.sp) (v : Nat) :
    Sound (x.answer v).regs (x.answer v).sp := by
  constructor
  · intro r
    by_cases hr : r = .r 0
    · subst hr
      rw [answer_r0]
      exact wrap_lt v
    · rw [answer_of_ne x v hr]
      exact h.lt r
  · rw [answer_of_ne x v (by decide)]
    exact h.even
  · exact h.aligned
  · exact h.top

end Contexts

section Save
variable {c : Cpu} {f : Cpu → Cpu}

/-- What `PendSV_Handler` does before the call, from thread mode on: the context of the task
is below its stack pointer, and nothing else has changed but the word for EXC_RETURN. -/
theorem save_suspended (f : Cpu → Cpu) (xpsr : Nat) (hplain : c.fpca = false)
    (hsound : Sound c.regs c.psp) (hroom : 68 ≤ c.psp) (hmain : c.psp + 4 ≤ c.msp)
    (hmsp : c.msp < 2 ^ 32) :
    ∃ d, execAll (c.exceptionEntry xpsr) ((pendSVHandler f).take 3) = d ∧ d.handler = true ∧
      d.regs (.r 0) % 8 = 0 ∧ d.msp = c.msp - 4 ∧ read32 d.mem d.msp = excReturnThread ∧
      Suspended d.mem (d.regs (.r 0)) ⟨c.regs, c.psp⟩ ∧
      ∀ x, x < d.regs (.r 0) ∨ c.psp ≤ x → x < c.msp - 4 ∨ c.msp ≤ x → d.mem x = c.mem x := by
  have hsize : frameSize c.fpca = 32 := by rw [hplain]; rfl
  obtain ⟨hmod, hpsp⟩ := exceptionEntry_psp xpsr hsound (by omega)
  have hstacked := exceptionEntry_stacked xpsr hsound (by omega)
  rw [hsize] at hpsp
  rw [hplain] at hstacked
  have houtside := fun x => @exceptionEntry_outside c xpsr x
  have hcallee : ∀ r ∈ calleeSaved, (c.exceptionEntry xpsr).regs r = c.regs r := by
    intro r hr
    apply Function.update_of_ne
    rintro rfl
    exact absurd hr (by decide)
  have hlr : (c.exceptionEntry xpsr).regs .lr = excReturnThread := by
    simp only [Cpu.exceptionEntry, Function.update_self, hplain]
    rfl
  have hmspe : (c.exceptionEntry xpsr).msp = c.msp := rfl
  have hhandler : (c.exceptionEntry xpsr).handler = true := rfl
  generalize c.exceptionEntry xpsr = e at *
  have htop : c.psp ≤ e.psp + 36 := by
    split at hpsp <;> omega
  have hbelow : e.psp + 32 ≤ c.psp := by omega
  have hminus : minus e.psp 32 = e.psp - 32 := by
    have hlt := hsound.top
    simp only [minus, wrap]
    omega
  have hmsp4 : minus e.msp 4 = c.msp - 4 := by
    simp only [minus, wrap]
    omega
  have hregs : calleeSaved.map (Function.update e.regs (.r 0) e.psp) =
      calleeSaved.map c.regs := by
    apply List.map_congr_left
    intro r hr
    rw [← hcallee r hr]
    apply Function.update_of_ne
    rintro rfl
    exact absurd hr (by decide)
  have hrun : execAll e ((pendSVHandler f).take 3) = { e with
      regs := Function.update (Function.update e.regs (.r 0) e.psp) (.r 0) (e.psp - 32)
      msp := c.msp - 4
      mem := write32 (storeWords e.mem (e.psp - 32) (calleeSaved.map c.regs)) (c.msp - 4)
        excReturnThread } := by
    have hlen : 4 * calleeSaved.length = 32 := rfl
    simp only [pendSVHandler, List.take_succ_cons, List.take_zero, execAll, List.foldl_cons,
      List.foldl_nil, exec, Cpu.store, Cpu.sp, Cpu.setSp, hhandler, Bool.not_true,
      Bool.false_and, Bool.false_eq_true, if_false, Function.update_self, hlen, hminus, hregs,
      List.length_singleton, Nat.mul_one, hmsp4, List.map_cons, List.map_nil, storeWords]
    rw [Function.update_of_ne (by decide), Function.update_of_ne (by decide), hlr]
  have hsaved : wordsAt (storeWords e.mem (e.psp - 32) (calleeSaved.map c.regs)) (e.psp - 32) 8 =
      calleeSaved.map c.regs := by
    apply wordsAt_storeWords
    intro w hw
    obtain ⟨r, _, rfl⟩ := List.mem_map.mp hw
    exact hsound.lt r
  have hkeep : ∀ x, x < e.psp - 32 ∨ e.psp ≤ x →
      storeWords e.mem (e.psp - 32) (calleeSaved.map c.regs) x = e.mem x := by
    intro x hx
    apply storeWords_of_outside
    rw [List.length_map, show calleeSaved.length = 8 from rfl]
    omega
  obtain ⟨d, hd, hdh, hr0, hdmsp, hdmem⟩ : ∃ d, execAll e ((pendSVHandler f).take 3) = d ∧
      d.handler = true ∧ d.regs (.r 0) = e.psp - 32 ∧ d.msp = c.msp - 4 ∧
      d.mem = write32 (storeWords e.mem (e.psp - 32) (calleeSaved.map c.regs)) (c.msp - 4)
        excReturnThread :=
    ⟨_, hrun, hhandler, by simp only [Function.update_self], rfl, rfl⟩
  refine ⟨d, hd, hdh, by omega, hdmsp, ?_, ?_, ?_⟩
  · rw [hdmem, hdmsp]
    exact read32_write32_same _ (by decide)
  · rw [hr0, hdmem]
    constructor
    · refine (wordsAt_congr fun x hlo hhi => ?_).trans hsaved
      apply write32_of_outside
      omega
    · rw [show e.psp - 32 + 32 = e.psp by omega]
      apply hstacked.congr
      intro x hlo hhi
      rw [write32_of_outside _ (by omega)]
      exact hkeep x (by omega)
  · intro x hx hmainx
    rw [hr0] at hx
    rw [hdmem, write32_of_outside _ (by omega), hkeep x (by omega)]
    exact houtside x (by omega)

/-- `bx lr` in a handler, with a frame of either kind. -/
theorem exec_bxLr {e : Cpu} {extended : Bool} (hhandler : e.handler = true)
    (hlr : e.regs .lr = excReturn extended) : exec e .bxLr = e.exceptionReturn extended := by
  cases extended with
  | false => exact if_pos ⟨hhandler, hlr⟩
  | true =>
    have hnot : ¬ (e.handler = true ∧ e.regs .lr = excReturnThread) := by
      rintro ⟨_, hthread⟩
      exact absurd (hthread.symm.trans hlr) (by decide)
    exact (if_neg hnot).trans (if_pos ⟨hhandler, hlr⟩)

/-- What it does after the call: the task whose `stack_pointer` comes back in R0 goes on. Its
stack pointer depends on the frame of the task before it. -/
theorem restore_suspended {d : Cpu} {x : Context} {extended : Bool} (hhandler : d.handler = true)
    (hlr : read32 d.mem d.msp = excReturn extended) (hal : d.regs (.r 0) % 8 = 0)
    (hsaved : Suspended d.mem (d.regs (.r 0)) x) (hsound : Sound x.regs x.sp)
    (hlt : x.sp + frameSize extended < 2 ^ 32 + 32) :
    execAll d [.pop [.lr], .ldmia 0 calleeSaved, .msrPsp 0, .bxLr] = { d with
      regs := x.regs
      msp := wrap (d.msp + 4)
      psp := x.sp + frameSize extended - 32
      handler := false
      fpca := extended
      spsel := true } := by
  have hbelow := hsaved.below
  have htop := hsound.top
  have hpop : exec d (.pop [.lr]) = { d with
      regs := Function.update d.regs .lr (excReturn extended)
      msp := wrap (d.msp + 4) } := by
    simp [exec, Cpu.sp, Cpu.setSp, Cpu.load, hhandler, wordsAt, hlr, fill, Reg.land]
  have halign : andNot (d.regs (.r 0) + 32) 3 = d.regs (.r 0) + 32 := by
    rw [show 3 = 2 ^ 2 - 1 from rfl, andNot_two_pow]
    omega
  have hload : fill (Function.update d.regs .lr (excReturn extended))
      (calleeSaved.zip (wordsAt d.mem (d.regs (.r 0)) 8)) = fun r =>
        if r ∈ calleeSaved then x.regs r
        else Function.update d.regs .lr (excReturn extended) r := by
    apply fill_zip
    rw [hsaved.callee]
    exact zip_map_land fun r _ => hsound.land r
  let e : Cpu := { d with
    regs := Function.update (fun r => if r ∈ calleeSaved then x.regs r else
      Function.update d.regs .lr (excReturn extended) r) (.r 0) (d.regs (.r 0) + 32)
    msp := wrap (d.msp + 4)
    psp := d.regs (.r 0) + 32 }
  have hmoved : execAll (exec d (.pop [.lr])) [.ldmia 0 calleeSaved, .msrPsp 0] = e := by
    rw [hpop]
    have hend : wrap (d.regs (.r 0) + 32) = d.regs (.r 0) + 32 := wrap_of_lt (by omega)
    have hlen : calleeSaved.length = 8 := rfl
    have hr0 : Function.update d.regs .lr (excReturn extended) (.r 0) = d.regs (.r 0) :=
      Function.update_of_ne (by decide) _ _
    simp only [execAll, List.foldl_cons, List.foldl_nil, exec, Cpu.load, hlen, hr0, hload,
      Nat.reduceMul, hend, Function.update_self, halign, e]
  have hexc : e.regs .lr = excReturn extended := by
    have hne : Reg.lr ∉ calleeSaved := by decide
    simp only [e]
    rw [Function.update_of_ne (by decide), if_neg hne, Function.update_self]
  have hsplit : execAll d [.pop [.lr], .ldmia 0 calleeSaved, .msrPsp 0, .bxLr] =
      exec (execAll (exec d (.pop [.lr])) [.ldmia 0 calleeSaved, .msrPsp 0]) .bxLr := rfl
  have hmod : e.psp % 8 = 0 := by
    simp only [e]
    omega
  rw [hsplit, hmoved, exec_bxLr (e := e) hhandler hexc,
    exceptionReturn_stacked (c := e) hsaved.frame hmod hlt]
  have hregs : (fun r => if r ∈ frameRegs then x.regs r else e.regs r) = x.regs := by
    funext r
    split
    · rfl
    · rename_i hr
      have hcallee : r ∈ calleeSaved ∧ r ≠ .r 0 := by
        cases r with
        | r i => revert i; decide
        | lr => exact absurd (by decide) hr
        | pc => exact absurd (by decide) hr
      simp only [e]
      rw [Function.update_of_ne hcallee.2, if_pos hcallee.1]
  rw [hregs]
  rfl

/-- Behind a task that has used the floating-point registers the next one goes on 18 words too
far up its stack. -/
theorem restore_skewed {d : Cpu} {x : Context} (hhandler : d.handler = true)
    (hlr : read32 d.mem d.msp = excReturnExtended) (hal : d.regs (.r 0) % 8 = 0)
    (hsaved : Suspended d.mem (d.regs (.r 0)) x) (hsound : Sound x.regs x.sp)
    (hlt : x.sp + 72 < 2 ^ 32) :
    (execAll d [.pop [.lr], .ldmia 0 calleeSaved, .msrPsp 0, .bxLr]).psp = x.sp + 72 := by
  have hsize : frameSize true = 104 := rfl
  have hrun := @restore_suspended d x true hhandler hlr hal hsaved hsound (by omega)
  rw [hrun, hsize]
  change x.sp + 104 - 32 = x.sp + 72
  omega

/-- `SVC_Handler` up to the call. -/
theorem svcVector_begin (f : Cpu → Cpu) (xpsr : Nat) (hroom : 4 ≤ c.msp)
    (hmsp : c.msp < 2 ^ 32) :
    execAll (c.exceptionEntry xpsr) ((svcVector f).take 2) = { c.exceptionEntry xpsr with
      regs := Function.update (c.exceptionEntry xpsr).regs (.r 0) (c.exceptionEntry xpsr).psp
      msp := c.msp - 4
      mem := write32 (c.exceptionEntry xpsr).mem (c.msp - 4) (excReturn c.fpca) } := by
  have hlr : (c.exceptionEntry xpsr).regs .lr = excReturn c.fpca := by
    simp only [Cpu.exceptionEntry, Function.update_self]
  have hmspe : (c.exceptionEntry xpsr).msp = c.msp := rfl
  have hhandler : (c.exceptionEntry xpsr).handler = true := rfl
  generalize c.exceptionEntry xpsr = e at *
  have hmsp4 : minus e.msp 4 = c.msp - 4 := by
    simp only [minus, wrap]
    omega
  simp only [svcVector, List.take_succ_cons, List.take_zero, execAll, List.foldl_cons,
    List.foldl_nil, exec, Cpu.store, Cpu.sp, Cpu.setSp, hhandler, Bool.not_true,
    Bool.false_and, Bool.false_eq_true, if_false, List.length_singleton, Nat.mul_one, hmsp4,
    List.map_cons, List.map_nil, storeWords]
  rw [Function.update_of_ne (by decide), hlr]

/-- What the call finds. -/
theorem svcVector_frame (xpsr : Nat) (hsound : Sound c.regs c.psp)
    (hroom : frameSize c.fpca + 4 ≤ c.psp) (hmain : c.psp + 4 ≤ c.msp) (hmsp : c.msp < 2 ^ 32)
    {d : Cpu}
    (hd : execAll (c.exceptionEntry xpsr) ((svcVector f).take 2) = d) :
    d.psp = (c.exceptionEntry xpsr).psp ∧ d.msp = c.msp - 4 ∧
      Stacked d.mem d.psp c.fpca c.regs c.psp ∧
      d.mem = write32 (c.exceptionEntry xpsr).mem (c.msp - 4) (excReturn c.fpca) := by
  obtain ⟨_, hpsp⟩ := exceptionEntry_psp xpsr hsound hroom
  have hstacked := exceptionEntry_stacked xpsr hsound hroom
  have hbegin := svcVector_begin f xpsr (c := c) (by omega) hmsp
  rw [hd] at hbegin
  rw [hbegin]
  have hsize := frameSize_ge c.fpca
  refine ⟨rfl, rfl, hstacked.congr fun x hlo hhi => ?_, rfl⟩
  exact write32_of_outside _ (by omega)

/-- The SVC gate gives the task back all its registers, so long as the call leaves the frame
as it is. -/
theorem svc_transparent (xpsr : Nat) (hsound : Sound c.regs c.psp)
    (hroom : frameSize c.fpca + 4 ≤ c.psp) (hmain : c.psp + 4 ≤ c.msp) (hmsp : c.msp < 2 ^ 32)
    {d : Cpu}
    (hd : execAll (c.exceptionEntry xpsr) ((svcVector f).take 2) = d) (hf : Returns f d)
    (hframe : ∀ x, d.psp ≤ x → x < d.psp + 32 → (f d).mem x = d.mem x) :
    execAll (c.exceptionEntry xpsr) (svcVector f) = { f d with
      regs := c.regs
      msp := c.msp
      psp := c.psp
      handler := false
      fpca := c.fpca
      spsel := true } := by
  obtain ⟨hmod, hpsp⟩ := exceptionEntry_psp xpsr hsound hroom
  have htransparent := fun d' => @exception_transparent c d' xpsr hsound hroom
  have hsize := frameSize_ge c.fpca
  have hbegin := svcVector_begin f xpsr (c := c) (by omega) hmsp
  rw [hd] at hbegin
  have hhandler : (c.exceptionEntry xpsr).handler = true := rfl
  have hsplit : execAll (c.exceptionEntry xpsr) (svcVector f) =
      execAll (f (execAll (c.exceptionEntry xpsr) ((svcVector f).take 2))) [.pop [.lr], .bxLr] := by
    simp only [svcVector, execAll, List.foldl_cons, List.take_succ_cons, List.take_zero,
      List.foldl_nil, exec_bl]
  rw [hsplit, hd]
  generalize c.exceptionEntry xpsr = e at *
  have hdmsp : d.msp = c.msp - 4 := by rw [hbegin]
  have hdpsp : d.psp = e.psp := by rw [hbegin]
  have hdmem : d.mem = write32 e.mem (c.msp - 4) (excReturn c.fpca) := by rw [hbegin]
  have hdh : d.handler = true := by rw [hbegin]; exact hhandler
  have hword : read32 (f d).mem (f d).msp = excReturn c.fpca := by
    rw [hf.msp, read32_congr hf.pushed, hdmem, hdmsp]
    exact read32_write32_same _ (excReturn_lt _)
  have hpop : exec (f d) (.pop [.lr]) = { f d with
      regs := Function.update (f d).regs .lr (excReturn c.fpca)
      msp := wrap ((f d).msp + 4) } := by
    simp [exec, Cpu.sp, Cpu.setSp, Cpu.load, hf.handler.trans hdh, wordsAt, hword, fill, Reg.land]
  have hend : wrap ((f d).msp + 4) = c.msp := by
    rw [hf.msp, hdmsp, wrap]
    omega
  rw [hend] at hpop
  have hkept : Preserves e (exec (f d) (.pop [.lr])) := by
    rw [hpop]
    refine ⟨hf.handler.trans hdh, hf.psp.trans hdpsp, fun i hi => ?_, fun x hlo hhi => ?_⟩
    · have hne : Reg.r i ≠ .lr := fun heq => by cases heq
      have hne0 : Reg.r i ≠ .r 0 := by
        rintro heq
        rw [heq] at hi
        exact absurd (by decide) hi
      simp only
      rw [Function.update_of_ne hne, hf.regs i hi, hbegin]
      exact Function.update_of_ne hne0 _ _
    · rw [← hdpsp] at hlo hhi
      simp only
      rw [hframe x hlo hhi, hdmem, write32_of_outside _ (by omega)]
  have hlrd : (exec (f d) (.pop [.lr])).regs .lr = excReturn c.fpca := by
    rw [hpop]
    simp only [Function.update_self]
  have hlast : exec (exec (f d) (.pop [.lr])) .bxLr =
      (exec (f d) (.pop [.lr])).exceptionReturn c.fpca := exec_bxLr hkept.handler hlrd
  change exec (exec (f d) (.pop [.lr])) .bxLr = _
  rw [hlast, htransparent _ hkept, hpop]

end Save

end Crest
