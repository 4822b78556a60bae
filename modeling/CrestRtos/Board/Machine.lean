import CrestRtos.Arch.Switching
import CrestRtos.Properties.Deletion
import CrestRtos.Properties.ServiceTime
import CrestRtos.System.OneMemory

/-!
# The system on its core

The running system together with the registers of the core, which work in the system's RAM.
Each step of the system comes with what the core does in it: interrupts push and pop frames,
PendSV changes stacks, and the code of a task does with its registers what it likes.
`Board.Tame` names the steps in which nobody overwrites what the kernel knows or has saved, no
task uses the floating-point registers, and every task keeps its stack pointer in its stack.
-/

namespace Crest
open ByteMemory MachineWord ArmCore Alloc

structure Board where
  sys : Sys
  cpu : Cpu
  oneMemory : cpu.mem = sys.k.ram

/-- The system in the memory that the core leaves. -/
def Board.on (s : Sys) (c : Cpu) : Board := ⟨s.withRam c.mem, c, rfl⟩

/-- A register of `t`, which is off the CPU, is saved at `x`. -/
def Sys.Saves (s : Sys) (x : Nat) (t : Tid) : Prop :=
  s.Live t ∧ s.k.currentTask ≠ some t ∧ (s.k.tcb t).stackPointer ≤ x ∧
    x < (s.k.tcb t).stackPointer + 64

/-- `stack_pointer[8] = result`, with which a step clears TASK_FLAG_SVC_BLOCKED. -/
def answerStore (s s' : Sys) (t : Tid) (m : Memory) : Memory :=
  if (s.k.tcb t).svcBlocked && !(s'.k.tcb t).svcBlocked then
    write32 m ((s.k.tcb t).stackPointer + 32) (s'.k.tcb t).savedR0
  else m

/-- What a step stores where registers are saved, beside what it stores there for a client: the
answers to syscalls, and the frame that `stack_init` lays out for a new task. -/
structure Stores (s : Sys) (l : Label) (s' : Sys) (m m' : Memory) : Prop where
  saved : ∀ x t, s.Saves x t → (∀ c, ¬ s.Stored l c x) → m' x = answerStore s s' t m x
  born : ∀ t, ¬ s.Live t → s'.Live t → ∀ x, (s'.k.tcb t).stackPointer ≤ x →
    x < (s'.k.tcb t).stackPointer + 64 → m' x = s'.k.ram x

/-- The same when nothing is stored there for a client. -/
structure SavedKept (s s' : Sys) (m m' : Memory) : Prop where
  saved : ∀ x t, s.Saves x t → m' x = answerStore s s' t m x
  born : ∀ t, ¬ s.Live t → s'.Live t → ∀ x, (s'.k.tcb t).stackPointer ≤ x →
    x < (s'.k.tcb t).stackPointer + 64 → m' x = s'.k.ram x

/-- The gate's `frame[0] = -1`, when the ring is full. -/
def gateStore (k : Kernel) (item : WorkItem) (d : Cpu) : Memory :=
  if (kworkPush k item).2 = 0 then d.mem else write32 d.mem d.psp minusOne

/-- Thread code, from one step of the model to the next. -/
structure Runs (b : Board) (l : Label) (s' : Sys) (c : Cpu) : Prop where
  handler : c.handler = false
  spsel : c.spsel = true
  msp : c.msp = b.cpu.msp
  sound : Sound c.regs c.psp
  stores : Stores b.sys l s' b.cpu.mem c.mem
  own : ∀ r0 ram, l = .compute r0 ram → r0 = c.regs (.r 0) ∧ ram = c.mem

/-- The call of `port_switch_context` at `d`: it returns the `stack_pointer` of the next task
and leaves saved registers alone. -/
structure Switches (f : Cpu → Cpu) (d : Cpu) (s' : Sys) (n : Tid) : Prop where
  handler : (f d).handler = d.handler
  msp : (f d).msp = d.msp
  pushed : ∀ x, d.msp ≤ x → x < d.msp + 4 → (f d).mem x = d.mem x
  result : (f d).regs (.r 0) = (s'.k.tcb n).stackPointer
  saved : ∀ t, s'.Live t → ∀ x, (s'.k.tcb t).stackPointer ≤ x →
    x < (s'.k.tcb t).stackPointer + 64 → (f d).mem x = d.mem x

/-- The item that `svc_handler_c` reads from the frame. `syscall_id_t` is one byte wide. -/
def frameItem (m : Memory) (frame : Nat) (u : Tid) : WorkItem :=
  ⟨read32 m (frame + 16) % 256, read32 m frame, read32 m (frame + 4), read32 m (frame + 8),
    read32 m (frame + 12), u⟩

def WorkItem.label (item : WorkItem) : Label := .svc item.id item.arg0 item.arg1 item.arg2 item.arg3

/-- A task's own code and the kernel's code in it, the gate apart. -/
def Label.isCode : Label → Bool
  | .call _ => true
  | .compute _ _ => true
  | .go => true
  | _ => false

/-- What the core does in a step of the system to `s'`. -/
inductive Board.Step (L : Layout) (b : Board) : Label → Sys → Cpu → Prop
  | tick (xpsr : Nat) (f : Cpu → Cpu) (d : Cpu) (s' : Sys)
      (hd : b.cpu.exceptionEntry xpsr = d)
      (hstep : b.sys.step L .tick = some s') (hf : Returns f d)
      (hframe : ∀ u, b.sys.k.currentTask = some u → ∀ x, d.psp ≤ x → x < d.psp + 32 →
        (f d).mem x = answerStore b.sys s' u d.mem x)
      (hmem : Stores b.sys .tick s' d.mem (f d).mem) :
      Step L b .tick s' ((f d).exceptionReturn b.cpu.fpca)
  | svc (xpsr : Nat) (f : Cpu → Cpu) (d : Cpu) (s' : Sys) (item : WorkItem) (u : Tid)
      (hd : execAll (b.cpu.exceptionEntry xpsr) ((svcVector f).take 2) = d)
      (hcur : b.sys.k.currentTask = some u) (hitem : item = frameItem d.mem d.psp u)
      (hstep : b.sys.step L item.label = some s') (hf : Returns f d)
      (hframe : ∀ x, d.psp ≤ x → x < d.psp + 32 →
        (f d).mem x = gateStore b.sys.k item d x)
      (hmem : Stores b.sys item.label s' d.mem (f d).mem) :
      Step L b item.label s' (execAll (b.cpu.exceptionEntry xpsr) (svcVector f))
  | pendSV (xpsr : Nat) (f : Cpu → Cpu) (d : Cpu) (s' : Sys) (n : Tid)
      (hd : execAll (b.cpu.exceptionEntry xpsr) ((pendSVHandler f).take 3) = d)
      (hstep : b.sys.step L (.pendSV (d.regs (.r 0))) = some s')
      (hn : s'.k.currentTask = some n) (hf : Switches f d s' n) :
      Step L b (.pendSV (d.regs (.r 0))) s'
        (execAll (b.cpu.exceptionEntry xpsr) (pendSVHandler f))
  /-- `bx lr` behind the `svc`. -/
  | back (u : Tid) (s' : Sys) (hcur : b.sys.k.currentTask = some u)
      (hpc : b.sys.pc u = .svcRet) (hstep : b.sys.step L .go = some s') :
      Step L b .go s' (exec b.cpu .bxLr)
  | code (l : Label) (u : Tid) (s' : Sys) (c : Cpu) (hl : l.isCode = true)
      (hcur : b.sys.k.currentTask = some u) (hpc : b.sys.pc u ≠ .svcRet)
      (hstep : b.sys.step L l = some s') (hc : Runs b l s' c) : Step L b l s' c

/-- A step in one memory. Nothing is said of a board whose kernel data is overwritten. -/
inductive Board.Moves (P : Placement) (L : Layout) (b : Board) (l : Label) : Board → Prop
  | keeps (s' : Sys) (c : Cpu) (h : b.Step L l s' c) :
      Board.Moves P L b l (.on (b.sys.reload P l s') c)
  | strays (s' : Sys) (b' : Board) (hstep : b.sys.step L l = some s')
      (hstrays : b.sys.Strays P L l) : Board.Moves P L b l b'

/-- Clients write neither in the kernel's memory nor where registers are saved, frames fit into
the stack below the stack pointer, and the code of a task keeps its stack pointer in its stack
and the floating-point registers unused. -/
structure Board.Tame (P : Placement) (L : Layout) (b : Board) (l : Label) (b' : Board) : Prop
    extends b.sys.Tame P L l where
  saved : ∀ c x t, b.sys.Stored l c x → ¬ b.sys.Saves x t
  frame : l.isCode = false → ∀ u, b.sys.k.currentTask = some u →
    (b.sys.k.tcb u).stackBase ≤ (b.cpu.exceptionEntry 0).psp
  stack : l.isCode = true → ∀ u, b'.sys.k.currentTask = some u →
    (b'.sys.k.tcb u).stackBase ≤ b'.cpu.psp ∧
      b'.cpu.psp ≤ (b'.sys.k.tcb u).stackBase + (b'.sys.k.tcb u).stackSize
  plain : l.isCode = true → b'.cpu.fpca = false

def Board.TameMoves (P : Placement) (L : Layout) (l : Label) (b b' : Board) : Prop :=
  b.Tame P L l b' ∧ b.Moves P L l b'

def Board.TameStep (P : Placement) (L : Layout) (b b' : Board) : Prop :=
  ∃ l, Board.TameMoves P L l b b'

/-- A step that is none of `u`'s own. -/
def Board.StepAside (P : Placement) (L : Layout) (u : Tid) (b b' : Board) : Prop :=
  ∃ l, ¬ (l.isThread = true ∧ b.sys.k.currentTask = some u) ∧ Board.TameMoves P L l b b'

/-- The core behind `port_start_first_task`, in the memory that `main` has made. -/
structure Board.Boots (L : Layout) (b : Board) : Prop where
  started : b.sys.Started L
  main : L.heap.stop + 4 ≤ b.cpu.msp
  mainTop : b.cpu.msp < 2 ^ 32
  first : ∃ c rn u, b.cpu = execAll c (portStartFirstTask rn) ∧ c.handler = false ∧
    c.nPriv = false ∧ b.sys.k.currentTask = some u ∧
    c.regs (.r rn) = (b.sys.k.tcb u).stackPointer

/-- The boards that tame steps lead to from the start. -/
def Board.TameReached (P : Placement) (L : Layout) (b : Board) : Prop :=
  ∃ b₀, b₀.Boots L ∧ Relation.ReflTransGen (Board.TameStep P L) b₀ b

section Steps
variable {P : Placement} {L : Layout} {b b' : Board} {l : Label} {s s' : Sys} {c : Cpu}
  {m m' : Memory}

/-- The core apart, a step of the board is one of the system. -/
theorem Board.Step.sys (h : b.Step L l s' c) : b.sys.step L l = some s' := by
  cases h with
  | tick xpsr f d s' hd hstep => exact hstep
  | svc xpsr f d s' item u hd hcur hitem hstep => exact hstep
  | pendSV xpsr f d s' n hd hstep => exact hstep
  | back u s' hcur hpc hstep => exact hstep
  | code l u s' c hl hcur hpc hstep => exact hstep

theorem Board.Tame.moves (h : b.Tame P L l (.on s' c)) (hstep : b.Step L l s' c) :
    Board.TameMoves P L l b (.on s' c) := by
  have hmoves : b.Moves P L l _ := .keeps s' c hstep
  rw [h.toTame.reload] at hmoves
  exact ⟨h, hmoves⟩

theorem Stores.savedKept (h : Stores s l s' m m')
    (hnone : ∀ c x t, s.Stored l c x → ¬ s.Saves x t) : SavedKept s s' m m' := by
  constructor
  · intro x t hx
    exact h.saved x t hx fun c hstored => hnone c x t hstored hx
  · exact h.born

end Steps

end Crest
