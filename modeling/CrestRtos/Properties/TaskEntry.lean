import CrestRtos.Library.ArmCore
import CrestRtos.Properties.StackFrame
import Mathlib.Tactic.FinCases

/-!
# The two ways into a new task

`port_start_first_task` pops the frame of `stack_init` with three `pop` instructions,
`PendSV_Handler` loads half of it and leaves the rest to the exception return. Both fill
the registers alike. The exception return also takes the xPSR off the stack, and the
first task starts four bytes lower than all others.
-/

namespace Crest
open ByteMemory MachineWord ArmCore

def calleeSaved : List Reg := [.r 4, .r 5, .r 6, .r 7, .r 8, .r 9, .r 10, .r 11]

/-- The assembly of `port_start_first_task`, with the stack pointer in `rn`. -/
def portStartFirstTask (rn : Fin 13) : List Instr :=
  [.msrPsp rn,
    .movs 1 2,
    .msrControl 1,
    .isb,
    .pop calleeSaved,
    .pop [.r 0, .r 1, .r 2, .r 3, .r 12, .lr],
    .cpsie,
    .pop [.pc]]

/-- `PendSV_Handler`; `f` is what the call of `port_switch_context` does. -/
def pendSVHandler (f : Cpu → Cpu) : List Instr :=
  [.mrsPsp 0,
    .stmdb 0 calleeSaved,
    .push [.lr],
    .bl f,
    .pop [.lr],
    .ldmia 0 calleeSaved,
    .msrPsp 0,
    .bxLr]

def stackTop (base size : Nat) : Nat := andNot (wrap (base + size)) 7

/-- `stack_init` has left its frame in memory and returned `sp`. -/
def Framed (m : Memory) (sp base size fn arg : Nat) : Prop :=
  ∃ ram, (stackInit ram base size fn arg).2 = sp ∧
    ∀ x, sp ≤ x → x < stackTop base size → m x = (stackInit ram base size fn arg).1 x

/-- The registers of a task that is about to run its first instruction. -/
structure FreshAt (c : Cpu) (fn arg sp : Nat) : Prop where
  thread : c.handler = false
  arg : c.regs (.r 0) = arg
  zeros : ∀ i : Fin 13, i ≠ 0 → c.regs (.r i) = 0
  lr : c.regs .lr = excReturnThread
  pc : c.regs .pc = andNot fn 1
  sp : c.sp = sp

/-- Both begin with the argument, the zeros of the frame and the top of the stack. -/
def StartsAlike (first switched : Cpu) (base size fn arg : Nat) : Prop :=
  FreshAt first fn arg (stackTop base size) ∧ FreshAt switched fn arg (stackTop base size)

/-- Before the assembly of `port_start_first_task`: privileged code, with the stack pointer of
the new task in `rn`. -/
structure StartsFirst (c : Cpu) (rn : Fin 13) (base size fn arg : Nat) : Prop where
  handler : c.handler = false
  nPriv : c.nPriv = false
  framed : Framed c.mem (c.regs (.r rn)) base size fn arg

/-- `f` is a call that returns the stack pointer of the new task in R0, and leaves that task's
frame and the word on top of the main stack alone, as the calling convention has it. -/
structure SwitchesTo (f : Cpu → Cpu) (c : Cpu) (base size fn arg : Nat) : Prop where
  handler : (f c).handler = c.handler
  msp : (f c).msp = c.msp
  stacked : ∀ x, c.msp ≤ x → x < c.msp + 4 → (f c).mem x = c.mem x
  framed : Framed (f c).mem ((f c).regs (.r 0)) base size fn arg

/-- At the first instruction of `PendSV_Handler`, for a task on the process stack. -/
structure Pending (f : Cpu → Cpu) (c : Cpu) (base size fn arg : Nat) : Prop where
  handler : c.handler = true
  lr : c.regs .lr = excReturnThread
  switches : SwitchesTo f (execAll c ((pendSVHandler f).take 3)) base size fn arg

def startRegs : List Reg := calleeSaved ++ frameRegs

section Frame
variable {m : Memory} {sp base size fn arg : Nat} {g : Reg → Nat} {c : Cpu}

theorem stackTop_mod (base size : Nat) : stackTop base size % 8 = 0 := by
  rw [stackTop, andNot_seven]
  omega

theorem stackTop_lt (base size : Nat) : stackTop base size < 2 ^ 32 :=
  Nat.lt_of_le_of_lt (andNot_le _ _) (wrap_lt _)

theorem Framed.pointer (h : Framed m sp base size fn arg) : sp = stackTop base size - 64 := by
  obtain ⟨ram, rfl, _⟩ := h
  exact pushWords_pointer _ _ _

theorem Framed.words (h : Framed m sp base size fn arg) (hfn : fn < 2 ^ 32) (harg : arg < 2 ^ 32)
    (hroom : 64 ≤ stackTop base size) : wordsAt m sp 15 =
      List.replicate 8 0 ++ [arg, 0, 0, 0, 0, 0xFFFFFFFD, fn] ∧
      read32 m (sp + 60) = 0x01000000 := by
  obtain rfl := h.pointer
  obtain ⟨ram, _, hsame⟩ := h
  have hpushed := @pushWords_words (stackTop base size)
    ([0x01000000, fn, 0xFFFFFFFD, 0, 0, 0, 0, arg] ++ List.replicate 8 0) ram
    (by simpa using hroom) (by simp; omega)
  have hwords : wordsAt m (stackTop base size - 64) 16 =
      (List.replicate 8 0 ++ [arg, 0, 0, 0, 0, 0xFFFFFFFD, fn]) ++ [0x01000000] := by
    rw [wordsAt_congr fun x hlo hhi => hsame x hlo (by omega)]
    exact hpushed
  rw [wordsAt_succ] at hwords
  obtain ⟨hinit, hlast⟩ := List.append_inj' hwords rfl
  exact ⟨hinit, (List.cons.inj hlast).1⟩

/-- The registers after the first fifteen words of the frame have gone to them. -/
theorem Framed.fresh (h : Framed m sp base size fn arg) (hfn : fn < 2 ^ 32) (harg : arg < 2 ^ 32)
    (hroom : 64 ≤ stackTop base size)
    (hregs : c.regs = fill g (startRegs.zip (wordsAt m sp 15))) (hthread : c.handler = false) :
    FreshAt c fn arg c.sp := by
  rw [(h.words hfn harg hroom).1] at hregs
  refine ⟨hthread, ?_, ?_, ?_, ?_, rfl⟩
  · rw [hregs]
    rfl
  · intro i hi
    rw [hregs]
    fin_cases i <;> first | exact absurd rfl hi | rfl
  · rw [hregs]
    rfl
  · rw [hregs]
    rfl

end Frame

section First
variable {c : Cpu} {rn : Fin 13} {sp base size fn arg : Nat}

/-- Fifteen of the sixteen words are popped. -/
theorem pops_run (hthread : c.handler = false) (hsel : c.spsel = true)
    (hlt : c.psp + 60 < 2 ^ 32) :
    execAll c [.pop calleeSaved, .pop [.r 0, .r 1, .r 2, .r 3, .r 12, .lr], .cpsie, .pop [.pc]] =
      { c with
        regs := fill c.regs (startRegs.zip (wordsAt c.mem c.psp 15))
        psp := c.psp + 60
        primask := false } := by
  have hpops : exec (exec c (.pop calleeSaved)) (.pop [.r 0, .r 1, .r 2, .r 3, .r 12, .lr]) =
      exec c (.pop (calleeSaved ++ [.r 0, .r 1, .r 2, .r 3, .r 12, .lr])) :=
    exec_pop_pop hthread hsel (show c.psp + 4 * 8 < 2 ^ 32 by omega)
  have hlast : exec (exec c (.pop (calleeSaved ++ [.r 0, .r 1, .r 2, .r 3, .r 12, .lr])))
      (.pop [.pc]) = exec c (.pop startRegs) :=
    exec_pop_pop hthread hsel (show c.psp + 4 * 14 < 2 ^ 32 by omega)
  have hmask : exec (exec (exec c (.pop (calleeSaved ++ [.r 0, .r 1, .r 2, .r 3, .r 12, .lr])))
      .cpsie) (.pop [.pc]) = exec (exec c (.pop startRegs)) .cpsie := by
    rw [← hlast]
    refine exec_cpsie_pop ?_ ?_ <;> rw [exec_pop hthread hsel]
    · exact hthread
    · exact hsel
  simp only [execAll, List.foldl_cons, List.foldl_nil]
  rw [hpops, hmask, exec_pop hthread hsel]
  have hend : wrap (c.psp + 4 * 15) = c.psp + 60 := wrap_of_lt (by omega)
  simp only [exec, startRegs, calleeSaved, frameRegs, List.length_append, List.length_cons,
    List.length_nil, Nat.reduceAdd, hend]

theorem portStartFirstTask_run (hthread : c.handler = false) (hpriv : c.nPriv = false)
    (hal : c.regs (.r rn) % 8 = 0) (hlt : c.regs (.r rn) + 60 < 2 ^ 32) :
    execAll c (portStartFirstTask rn) = { c with
      regs := fill c.regs (startRegs.zip (wordsAt c.mem (c.regs (.r rn)) 15))
      psp := c.regs (.r rn) + 60
      fpca := false
      spsel := true
      nPriv := false
      primask := false } := by
  have halign : andNot (c.regs (.r rn)) 3 = c.regs (.r rn) := by
    rw [show 3 = 2 ^ 2 - 1 from rfl, andNot_two_pow]
    omega
  have hready : execAll c [.msrPsp rn, .movs 1 2, .msrControl 1, .isb] = { c with
      regs := Function.update c.regs (.r 1) 2
      psp := c.regs (.r rn)
      fpca := false
      spsel := true
      nPriv := false } := by
    simp [execAll, exec, hthread, hpriv, halign, show Nat.testBit 2 1 = true by decide,
      show Nat.testBit 2 2 = false by decide]
  have hsplit : execAll c (portStartFirstTask rn) =
      execAll (execAll c [.msrPsp rn, .movs 1 2, .msrControl 1, .isb]) [.pop calleeSaved,
        .pop [.r 0, .r 1, .r 2, .r 3, .r 12, .lr], .cpsie, .pop [.pc]] := rfl
  have hcovered : fill (Function.update c.regs (.r 1) 2)
      (startRegs.zip (wordsAt c.mem (c.regs (.r rn)) 15)) =
      fill c.regs (startRegs.zip (wordsAt c.mem (c.regs (.r rn)) 15)) :=
    fill_update 2 ((zip_fst _ _ startRegs).symm ▸ by decide)
  rw [hsplit, hready]
  refine (pops_run ?_ ?_ ?_).trans ?_
  · exact hthread
  · rfl
  · exact hlt
  · simp only [hcovered]

end First

section Switched
variable {c : Cpu} {f : Cpu → Cpu} {rn : Fin 13} {sp base size fn arg : Nat}

/-- What the handler does after the call, with the saved LR on the main stack. -/
theorem restore_run (hhandler : c.handler = true) (hlr : read32 c.mem c.msp = excReturnThread)
    (hal : c.regs (.r 0) % 8 = 0) (hlt : c.regs (.r 0) + 64 < 2 ^ 32)
    (hxpsr : (read32 c.mem (c.regs (.r 0) + 60)).testBit 9 = false) :
    execAll c [.pop [.lr], .ldmia 0 calleeSaved, .msrPsp 0, .bxLr] = { c with
      regs := fill c.regs (startRegs.zip (wordsAt c.mem (c.regs (.r 0)) 15))
      msp := wrap (c.msp + 4)
      psp := c.regs (.r 0) + 64
      handler := false
      fpca := false
      spsel := true } := by
  have hpop : exec c (.pop [.lr]) = { c with
      regs := Function.update c.regs .lr excReturnThread
      msp := wrap (c.msp + 4) } := by
    simp [exec, Cpu.sp, Cpu.setSp, Cpu.load, hhandler, wordsAt, hlr, fill, Reg.land]
  have halign : andNot (c.regs (.r 0) + 32) 3 = c.regs (.r 0) + 32 := by
    rw [show 3 = 2 ^ 2 - 1 from rfl, andNot_two_pow]
    omega
  let saved := fill (Function.update c.regs .lr excReturnThread)
    (calleeSaved.zip (wordsAt c.mem (c.regs (.r 0)) 8))
  have hload : execAll (exec c (.pop [.lr])) [.ldmia 0 calleeSaved, .msrPsp 0] = { c with
      regs := Function.update saved (.r 0) (c.regs (.r 0) + 32)
      msp := wrap (c.msp + 4)
      psp := c.regs (.r 0) + 32 } := by
    rw [hpop]
    have hend : wrap (c.regs (.r 0) + 4 * 8) = c.regs (.r 0) + 32 := wrap_of_lt (by omega)
    simp [execAll, exec, Cpu.load, calleeSaved, saved, hend, halign]
  have hexc : Function.update saved (.r 0) (c.regs (.r 0) + 32) .lr = excReturnThread := by
    rw [Function.update_of_ne (by decide)]
    refine (fill_of_notMem ?_).trans (Function.update_self _ _ _)
    exact (zip_fst _ _ calleeSaved).symm ▸ by decide
  have hsplit : execAll c [.pop [.lr], .ldmia 0 calleeSaved, .msrPsp 0, .bxLr] =
      exec (execAll (exec c (.pop [.lr])) [.ldmia 0 calleeSaved, .msrPsp 0]) .bxLr := rfl
  rw [hsplit, hload, exec]
  rw [if_pos ⟨hhandler, hexc⟩, exceptionReturn_eq _ (by simpa using hxpsr)]
  have hregs : fill (Function.update saved (.r 0) (c.regs (.r 0) + 32))
      (frameRegs.zip (wordsAt c.mem (c.regs (.r 0) + 32) frameRegs.length)) =
      fill c.regs (startRegs.zip (wordsAt c.mem (c.regs (.r 0)) 15)) := by
    rw [fill_update _ ((zip_fst _ _ frameRegs).symm ▸ by decide)]
    refine (fill_load _ _ _ calleeSaved frameRegs).trans ?_
    exact fill_update _ ((zip_fst _ _ startRegs).symm ▸ by decide)
  have hend : wrap (c.regs (.r 0) + 32 + 32) = c.regs (.r 0) + 64 := wrap_of_lt (by omega)
  simp only [hregs, hend]

end Switched

section Entry
variable {c c' : Cpu} {f : Cpu → Cpu} {rn : Fin 13} {base size fn arg : Nat}

theorem StartsFirst.fresh (h : StartsFirst c rn base size fn arg) (hfn : fn < 2 ^ 32)
    (harg : arg < 2 ^ 32) (hroom : 64 ≤ stackTop base size) :
    FreshAt (execAll c (portStartFirstTask rn)) fn arg (stackTop base size - 4) := by
  have hpointer := h.framed.pointer
  have hmod := stackTop_mod base size
  have hlt := stackTop_lt base size
  have hrun : execAll c (portStartFirstTask rn) = _ :=
    portStartFirstTask_run h.handler h.nPriv (by omega) (by omega)
  have hfresh := h.framed.fresh (c := execAll c (portStartFirstTask rn)) (g := c.regs) hfn harg
    hroom (by rw [hrun]) (by rw [hrun]; exact h.handler)
  have hsp : (execAll c (portStartFirstTask rn)).sp = stackTop base size - 4 := by
    rw [hrun]
    simp only [Cpu.sp, h.handler, Bool.not_false, Bool.and_self, if_true]
    omega
  rw [hsp] at hfresh
  exact hfresh

/-- What the handler does before the call. -/
theorem save_run (f : Cpu → Cpu) (c : Cpu) (hhandler : c.handler = true) :
    (execAll c ((pendSVHandler f).take 3)).handler = true ∧
      ∃ m, (execAll c ((pendSVHandler f).take 3)).mem =
        write32 m (execAll c ((pendSVHandler f).take 3)).msp (c.regs .lr) := by
  let stored := exec (exec c (.mrsPsp 0)) (.stmdb 0 calleeSaved)
  have hpush : execAll c ((pendSVHandler f).take 3) = exec stored (.push [.lr]) := rfl
  have hkept : stored.handler = true ∧ stored.regs .lr = c.regs .lr := by
    simp [stored, exec, Cpu.store, hhandler]
  have hdone : exec stored (.push [.lr]) = { stored with
      msp := minus stored.msp 4
      mem := write32 stored.mem (minus stored.msp 4) (stored.regs .lr) } := by
    simp [exec, Cpu.store, Cpu.sp, Cpu.setSp, hkept.1, storeWords]
  rw [hpush, hdone, hkept.2]
  exact ⟨hkept.1, _, rfl⟩

theorem pendSVHandler_split (f : Cpu → Cpu) (c : Cpu) : execAll c (pendSVHandler f) =
    execAll (f (execAll c ((pendSVHandler f).take 3)))
      [.pop [.lr], .ldmia 0 calleeSaved, .msrPsp 0, .bxLr] := by
  simp only [pendSVHandler, execAll, List.foldl_cons, List.take_succ_cons, List.take_zero,
    List.foldl_nil, exec_bl]

theorem Pending.fresh (h : Pending f c base size fn arg) (hfn : fn < 2 ^ 32)
    (harg : arg < 2 ^ 32) (hroom : 64 ≤ stackTop base size) :
    FreshAt (execAll c (pendSVHandler f)) fn arg (stackTop base size) := by
  have hsplit := pendSVHandler_split f c
  obtain ⟨hhandler, m, hmem⟩ := save_run f c h.handler
  have hcall := h.switches
  generalize execAll c ((pendSVHandler f).take 3) = d at *
  have hlr : read32 (f d).mem (f d).msp = excReturnThread := by
    rw [hcall.msp, read32_congr hcall.stacked, hmem, h.lr]
    exact read32_write32_same _ (by decide)
  have hpointer := hcall.framed.pointer
  have hmod := stackTop_mod base size
  have hlt := stackTop_lt base size
  have hxpsr := (hcall.framed.words hfn harg hroom).2
  have hrun := restore_run (hcall.handler.trans hhandler) hlr (by omega) (by omega)
    (by rw [hxpsr]; decide)
  rw [← hsplit] at hrun
  have hfresh := hcall.framed.fresh (c := execAll c (pendSVHandler f)) (g := (f d).regs) hfn harg
    hroom (by rw [hrun]) (by rw [hrun])
  have hsp : (execAll c (pendSVHandler f)).sp = stackTop base size := by
    rw [hrun]
    simp only [Cpu.sp, Bool.not_false, Bool.and_self, if_true]
    omega
  rw [hsp] at hfresh
  exact hfresh

/-- The two ways into a new task never agree: the first task begins one word lower. -/
theorem starts_skewed (hfn : fn < 2 ^ 32) (harg : arg < 2 ^ 32) (hroom : 64 ≤ stackTop base size)
    (hfirst : StartsFirst c rn base size fn arg) (hswitch : Pending f c' base size fn arg) :
    FreshAt (execAll c' (pendSVHandler f)) fn arg (stackTop base size) ∧
      FreshAt (execAll c (portStartFirstTask rn)) fn arg (stackTop base size - 4) ∧
      ¬ StartsAlike (execAll c (portStartFirstTask rn)) (execAll c' (pendSVHandler f)) base size
        fn arg := by
  have hskewed := hfirst.fresh hfn harg hroom
  refine ⟨hswitch.fresh hfn harg hroom, hskewed, fun halike => ?_⟩
  have hsp := hskewed.sp.symm.trans halike.1.sp
  omega

end Entry

/-- 256 bytes of stack at 0x20004400. -/
def sampleRam : Memory := (stackInit (fun _ => 0) 0x20004400 256 0x08001001 7).1

def sampleFirst : Cpu where
  regs := fun r => if r = .r 4 then 0x200044C0 else 0
  msp := 0x2001FF00
  psp := 0
  handler := false
  fpca := false
  spsel := false
  nPriv := false
  primask := true
  mem := sampleRam

/-- PendSV has interrupted another task. -/
def samplePending : Cpu where
  regs := fun r => if r = .lr then excReturnThread else 0
  msp := 0x2001FF00
  psp := 0x20005000
  handler := true
  fpca := false
  spsel := true
  nPriv := false
  primask := false
  mem := sampleRam

def sampleSwitch (c : Cpu) : Cpu := { c with regs := Function.update c.regs (.r 0) 0x200044C0 }

theorem sample_starts : StartsFirst sampleFirst 4 0x20004400 256 0x08001001 7 ∧
    Pending sampleSwitch samplePending 0x20004400 256 0x08001001 7 := by
  have hpointer : (stackInit (fun _ => 0) 0x20004400 256 0x08001001 7).2 = 0x200044C0 := rfl
  refine ⟨⟨rfl, rfl, fun _ => 0, hpointer, fun x _ _ => rfl⟩, ⟨rfl, rfl, ?_⟩⟩
  refine ⟨rfl, rfl, fun x _ _ => rfl, fun _ => 0, hpointer, fun x hlo hhi => ?_⟩
  have htop : stackTop 0x20004400 256 = 0x20004500 := rfl
  have hlo : 0x200044C0 ≤ x := hlo
  rw [htop] at hhi
  refine (write32_of_outside _ (a := 0x2001FEFC) (by omega)).trans ?_
  exact storeWords_of_outside (a := 0x20004FE0) (by simp [calleeSaved]; omega)

theorem starts_skewed_256 :
    FreshAt (execAll samplePending (pendSVHandler sampleSwitch)) 0x08001001 7 0x20004500 ∧
      FreshAt (execAll sampleFirst (portStartFirstTask 4)) 0x08001001 7 0x200044FC ∧
      ¬ StartsAlike (execAll sampleFirst (portStartFirstTask 4))
        (execAll samplePending (pendSVHandler sampleSwitch)) 0x20004400 256 0x08001001 7 :=
  starts_skewed (by decide) (by decide) (by decide) sample_starts.1 sample_starts.2

/-- The stack pointer of the first task is not even a multiple of 8. -/
theorem first_task_below_top :
    (StartsFirst sampleFirst 4 0x20004400 256 0x08001001 7 ∧
      Pending sampleSwitch samplePending 0x20004400 256 0x08001001 7) ∧
    (execAll sampleFirst (portStartFirstTask 4)).sp = 0x200044FC ∧
    (execAll samplePending (pendSVHandler sampleSwitch)).sp = 0x20004500 ∧
    ¬ StartsAlike (execAll sampleFirst (portStartFirstTask 4))
      (execAll samplePending (pendSVHandler sampleSwitch)) 0x20004400 256 0x08001001 7 := by
  have hfirst : (execAll sampleFirst (portStartFirstTask 4)).sp = 0x200044FC := by decide +kernel
  refine ⟨sample_starts, hfirst, by decide +kernel, fun halike => ?_⟩
  have hsp := hfirst.symm.trans halike.1.sp
  exact absurd hsp (by decide)

end Crest
