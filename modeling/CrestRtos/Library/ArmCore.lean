import CrestRtos.Library.ByteMemory
import CrestRtos.Library.MachineWord

/-!
# The registers of an ARMv7-M core

Straight-line code that moves words between registers and stacks, and the return
from an exception. Register lists go to ascending addresses in the order in which
they are written here. Flags and the Thumb bit are left out; a word that goes to
the PC loses its bit 0.
-/

namespace ArmCore
open ByteMemory MachineWord

instance reg_neZero : NeZero (13 : Nat) := ⟨by decide⟩

inductive Reg
  | r (i : Fin 13)
  | lr
  | pc
  deriving DecidableEq, Repr

/-- `fpca`, `spsel` and `nPriv` are bits 2, 1 and 0 of CONTROL. Code that uses the floating-point
registers sets the first. -/
structure Cpu where
  regs : Reg → Nat
  msp : Nat
  psp : Nat
  handler : Bool
  fpca : Bool
  spsel : Bool
  nPriv : Bool
  primask : Bool
  mem : Memory

def Cpu.sp (c : Cpu) : Nat := if !c.handler && c.spsel then c.psp else c.msp

def Cpu.setSp (c : Cpu) (a : Nat) : Cpu :=
  if !c.handler && c.spsel then { c with psp := a } else { c with msp := a }

/-- What is left of a word in a register. -/
def Reg.land : Reg → Nat → Nat
  | .pc, w => andNot w 1
  | _, w => w

def fill (f : Reg → Nat) : List (Reg × Nat) → Reg → Nat
  | [] => f
  | (r, w) :: ps => fill (Function.update f r (r.land w)) ps

def Cpu.load (c : Cpu) (a : Nat) (rs : List Reg) : Cpu :=
  { c with regs := fill c.regs (rs.zip (wordsAt c.mem a rs.length)) }

def storeWords (m : Memory) (a : Nat) : List Nat → Memory
  | [] => m
  | w :: ws => storeWords (write32 m a w) (a + 4) ws

def Cpu.store (c : Cpu) (a : Nat) (rs : List Reg) : Cpu :=
  { c with mem := storeWords c.mem a (rs.map c.regs) }

/-- `x - n` in 32 bits. -/
def minus (x n : Nat) : Nat := wrap (x + (2 ^ 32 - n))

def frameRegs : List Reg := [.r 0, .r 1, .r 2, .r 3, .r 12, .lr, .pc]

/-- The extended frame has room for S0 to S15 and FPSCR above the basic one. -/
def frameSize (extended : Bool) : Nat := if extended then 104 else 32

/-- Return to thread mode with a frame on the process stack. Bit 9 of the stacked xPSR says
that the frame was pushed below a word of padding. -/
def Cpu.exceptionReturn (c : Cpu) (extended : Bool) : Cpu :=
  let pad := if (read32 c.mem (c.psp + 28)).testBit 9 then 4 else 0
  { c.load c.psp frameRegs with
    psp := wrap (c.psp + frameSize extended) ||| pad
    handler := false
    fpca := extended
    spsel := true }

/-- EXC_RETURN for thread mode, process stack and basic frame. -/
def excReturnThread : Nat := 0xFFFFFFFD

/-- The same with an extended frame. -/
def excReturnExtended : Nat := 0xFFFFFFED

def excReturn (extended : Bool) : Nat := if extended then excReturnExtended else excReturnThread

theorem frameSize_mod (extended : Bool) : frameSize extended % 8 = 0 := by
  cases extended <;> rfl

theorem frameSize_ge (extended : Bool) : 32 ≤ frameSize extended := by
  cases extended <;> decide

theorem excReturn_lt (extended : Bool) : excReturn extended < 2 ^ 32 := by
  cases extended <;> decide

inductive Instr
  | msrPsp (rn : Fin 13)
  | mrsPsp (rd : Fin 13)
  | movs (rd : Fin 13) (imm : Nat)
  | msrControl (rn : Fin 13)
  | isb
  | cpsie
  | pop (rs : List Reg)
  | push (rs : List Reg)
  | ldmia (rn : Fin 13) (rs : List Reg)
  | stmdb (rn : Fin 13) (rs : List Reg)
  /-- A call of compiled code, from call to return. -/
  | bl (f : Cpu → Cpu)
  | bxLr

/-- A write of CONTROL does nothing without privilege, and keeps the stack in handler mode. -/
def exec (c : Cpu) : Instr → Cpu
  | .msrPsp rn => { c with psp := andNot (c.regs (.r rn)) 3 }
  | .mrsPsp rd => { c with regs := Function.update c.regs (.r rd) c.psp }
  | .movs rd imm => { c with regs := Function.update c.regs (.r rd) imm }
  | .msrControl rn =>
    if !c.handler && c.nPriv then c
    else { c with
      nPriv := (c.regs (.r rn)).testBit 0
      fpca := (c.regs (.r rn)).testBit 2
      spsel := if c.handler then c.spsel else (c.regs (.r rn)).testBit 1 }
  | .isb => c
  | .cpsie => { c with primask := false }
  | .pop rs => (c.load c.sp rs).setSp (wrap (c.sp + 4 * rs.length))
  | .push rs => (c.store (minus c.sp (4 * rs.length)) rs).setSp (minus c.sp (4 * rs.length))
  | .ldmia rn rs =>
    let a := c.regs (.r rn)
    let c := c.load a rs
    { c with regs := Function.update c.regs (.r rn) (wrap (a + 4 * rs.length)) }
  | .stmdb rn rs =>
    let a := minus (c.regs (.r rn)) (4 * rs.length)
    let c := c.store a rs
    { c with regs := Function.update c.regs (.r rn) a }
  | .bl f => f c
  | .bxLr =>
    if c.handler = true ∧ c.regs .lr = excReturnThread then c.exceptionReturn false
    else if c.handler = true ∧ c.regs .lr = excReturnExtended then c.exceptionReturn true
    else { c with regs := Function.update c.regs .pc (andNot (c.regs .lr) 1) }

def execAll (c : Cpu) (code : List Instr) : Cpu := code.foldl exec c

theorem fill_append (f : Reg → Nat) (ps qs : List (Reg × Nat)) :
    fill f (ps ++ qs) = fill (fill f ps) qs := by
  induction ps generalizing f with
  | nil => rfl
  | cons p ps ih => exact ih _

/-- A register that is loaded has lost its old value. -/
theorem fill_covered {f g : Reg → Nat} {r : Reg} {ps : List (Reg × Nat)}
    (h : r ∈ ps.map Prod.fst ∨ f r = g r) : fill f ps r = fill g ps r := by
  induction ps generalizing f g with
  | nil => simpa [fill] using h
  | cons p ps ih =>
    refine ih ?_
    by_cases hr : r = p.1
    · subst hr
      exact Or.inr (by simp)
    · refine h.imp (fun hmem => ?_) fun heq => ?_
      · rw [List.map_cons, List.mem_cons] at hmem
        exact hmem.resolve_left hr
      · rw [Function.update_of_ne hr, Function.update_of_ne hr, heq]

theorem fill_update {f : Reg → Nat} {r : Reg} {ps : List (Reg × Nat)} (v : Nat)
    (h : r ∈ ps.map Prod.fst) : fill (Function.update f r v) ps = fill f ps := by
  funext x
  refine fill_covered ?_
  by_cases hx : x = r
  · exact Or.inl (hx ▸ h)
  · exact Or.inr (Function.update_of_ne hx v f)

theorem fill_of_notMem {f : Reg → Nat} {r : Reg} {ps : List (Reg × Nat)}
    (h : r ∉ ps.map Prod.fst) : fill f ps r = f r := by
  induction ps generalizing f with
  | nil => rfl
  | cons p ps ih =>
    rw [List.map_cons, List.mem_cons, not_or] at h
    exact (ih h.2).trans (Function.update_of_ne h.1 _ f)

theorem zip_fst (m : Memory) (a : Nat) (rs : List Reg) :
    (rs.zip (wordsAt m a rs.length)).map Prod.fst = rs :=
  List.map_fst_zip (by simp)

/-- Two loads from adjoining words are one load. -/
theorem fill_load (f : Reg → Nat) (m : Memory) (a : Nat) (rs rs' : List Reg) :
    fill (fill f (rs.zip (wordsAt m a rs.length)))
      (rs'.zip (wordsAt m (a + 4 * rs.length) rs'.length)) =
      fill f ((rs ++ rs').zip (wordsAt m a (rs ++ rs').length)) := by
  rw [List.length_append, wordsAt_add, List.zip_append (by simp), fill_append]

theorem storeWords_of_outside {m : Memory} {a x : Nat} {ws : List Nat}
    (h : x < a ∨ a + 4 * ws.length ≤ x) : storeWords m a ws x = m x := by
  induction ws generalizing m a with
  | nil => rfl
  | cons w ws ih =>
    rw [List.length_cons] at h
    rw [storeWords, ih (by omega)]
    exact write32_of_outside m (by omega)

/-- `bx lr` outside a handler is a jump. -/
theorem exec_bxLr_thread {c : Cpu} (h : c.handler = false) : exec c .bxLr =
    { c with regs := Function.update c.regs .pc (andNot (c.regs .lr) 1) } := by
  simp [exec, h]

@[simp] theorem exec_bl (c : Cpu) (f : Cpu → Cpu) : exec c (.bl f) = f c := rfl

section Pop
variable {c : Cpu} {rs rs' : List Reg}

/-- In thread mode on the process stack. -/
theorem exec_pop (hthread : c.handler = false) (hsel : c.spsel = true) (rs : List Reg) :
    exec c (.pop rs) = { c with
      regs := fill c.regs (rs.zip (wordsAt c.mem c.psp rs.length))
      psp := wrap (c.psp + 4 * rs.length) } := by
  simp [exec, Cpu.sp, Cpu.setSp, Cpu.load, hthread, hsel]

/-- Two pops in a row are one. -/
theorem exec_pop_pop (hthread : c.handler = false) (hsel : c.spsel = true)
    (hlt : c.psp + 4 * rs.length < 2 ^ 32) :
    exec (exec c (.pop rs)) (.pop rs') = exec c (.pop (rs ++ rs')) := by
  have hend : c.psp + 4 * rs.length + 4 * rs'.length = c.psp + 4 * (rs ++ rs').length := by
    rw [List.length_append]
    omega
  rw [exec_pop hthread hsel rs, exec_pop hthread hsel (rs ++ rs')]
  refine (exec_pop ?_ ?_ rs').trans ?_
  · exact hthread
  · exact hsel
  · simp only [wrap_of_lt hlt, fill_load, hend]

theorem exec_cpsie_pop (hthread : c.handler = false) (hsel : c.spsel = true) :
    exec (exec c .cpsie) (.pop rs) = exec (exec c (.pop rs)) .cpsie := by
  rw [exec_pop hthread hsel rs]
  refine (exec_pop ?_ ?_ rs).trans rfl
  · exact hthread
  · exact hsel

end Pop

theorem exceptionReturn_eq (c : Cpu) (h : (read32 c.mem (c.psp + 28)).testBit 9 = false) :
    c.exceptionReturn false = { c with
      regs := fill c.regs (frameRegs.zip (wordsAt c.mem c.psp frameRegs.length))
      psp := wrap (c.psp + 32)
      handler := false
      fpca := false
      spsel := true } := by
  simp [Cpu.exceptionReturn, Cpu.load, frameSize, h]

end ArmCore
