import CrestRtos.Arch.Port
import Mathlib.Data.Fintype.Basic

/-!
# Kernel data

The static data of the kernel and the objects it allocates. A task control
block is named by its index in `tcb_pool`. Semaphores, mutexes and queues are
typed records found by address, a queue owns the bytes of its buffer, and the
word at `stack_pointer[8]` of a task that is switched out is the field
`savedR0`. Words are natural numbers, and a C `int` result is its word.

Client memory `ram` is apart from all of this, and so are a queue's bytes: what the
kernel computes does not depend on where its data lies. What a store through a client
pointer, or an item that does not fit into its buffer, does to that data in the one
memory of the machine is said by the steps of `System/OneMemory`.
-/

namespace Crest
open ByteMemory MachineWord Alloc

def maxTasks : Nat := 8
def maxTaskPriorities : Nat := 8
def maxTaskStackSize : Nat := 512
def kworkQueueSize : Nat := maxTasks * 2
def kobjMax : Nat := 32
def kobjInvalid : Nat := 0xFFFFFFFF
def waitForever : Nat := 0xFFFFFFFF
def minusOne : Nat := 0xFFFFFFFF

abbrev Tid := Fin 8

instance tid_neZero : NeZero (8 : Nat) := ⟨by decide⟩

inductive TaskState
  | ready
  | running
  | waiting
  | suspended
  deriving DecidableEq, Repr

/-- The list heads that `blocking_wait_list` can point to. -/
inductive WaitList
  | sem (a : Nat)
  | mutex (a : Nat)
  | send (a : Nat)
  | recv (a : Nat)
  deriving DecidableEq, Repr

structure Tcb where
  stackBase : Nat
  stackSize : Nat
  stackPointer : Nat
  stackAlloc : Nat
  savedR0 : Nat
  state : TaskState
  priority : Nat
  user : Bool
  svcBlocked : Bool
  timedOut : Bool
  next : Option Tid
  waitNext : Option Tid
  delayTicks : Nat
  blockingWaitList : Option WaitList
  taskFunction : Nat
  arg : Nat
  deriving DecidableEq, Repr

/-- The bits of `flags` as a load of the word finds them. -/
structure Flags where
  user : Bool
  svcBlocked : Bool
  timedOut : Bool
  deriving DecidableEq

def Tcb.flags (tcb : Tcb) : Flags := ⟨tcb.user, tcb.svcBlocked, tcb.timedOut⟩

def Tcb.setFlags (tcb : Tcb) (flags : Flags) : Tcb :=
  { tcb with user := flags.user, svcBlocked := flags.svcBlocked, timedOut := flags.timedOut }

/-- `memset(tcb, 0, sizeof(*tcb))`. -/
def Tcb.zero : Tcb where
  stackBase := 0
  stackSize := 0
  stackPointer := 0
  stackAlloc := 0
  savedR0 := 0
  state := .ready
  priority := 0
  user := false
  svcBlocked := false
  timedOut := false
  next := none
  waitNext := none
  delayTicks := 0
  blockingWaitList := none
  taskFunction := 0
  arg := 0

structure Semaphore where
  count : Int
  waitList : Option Tid

structure Mutex where
  owner : Option Tid
  waitList : Option Tid

/-- `bytes` is the buffer, indexed from its start. -/
structure Queue where
  itemSize : Nat
  size : Nat
  slots : Nat
  head : Nat
  tail : Nat
  buffer : Nat
  bytes : Memory
  sendWait : Option Tid
  recvWait : Option Tid

inductive KobjType
  | queue
  | sem
  | mutex
  deriving DecidableEq, Repr

structure KobjEntry where
  ptr : Nat
  type : KobjType
  inUse : Bool
  gen : Nat

structure WorkItem where
  id : Nat
  arg0 : Nat
  arg1 : Nat
  arg2 : Nat
  arg3 : Nat
  caller : Tid
  deriving DecidableEq, Repr

structure Kernel where
  tcb : Tid → Tcb
  tcbUsed : Tid → Bool
  taskList : Nat → Option Tid
  rrCurrent : Nat → Option Tid
  currentTask : Option Tid
  tickCount : Nat
  priorityMask : Nat
  heap : Heap
  table : Nat → KobjEntry
  sem : Nat → Semaphore
  mutex : Nat → Mutex
  queue : Nat → Queue
  kworkBuf : Nat → WorkItem
  kworkHead : Nat
  kworkTail : Nat
  kernelTcb : Option Tid
  ram : Memory
  /-- PendSV pending, CONTROL.nPRIV, R0 of the running thread, and the MPU. -/
  pendsv : Bool
  nPriv : Bool
  r0 : Nat
  mpu : ArmMpu.Mpu

/-- `.bss` cleared and the CPU as reset leaves it, over arbitrary RAM contents. -/
def Kernel.reset (heapMem ram : Memory) : Kernel where
  tcb := fun _ => Tcb.zero
  tcbUsed := fun _ => false
  taskList := fun _ => none
  rrCurrent := fun _ => none
  currentTask := none
  tickCount := 0
  priorityMask := 0
  heap := ⟨heapMem, 0, false⟩
  table := fun _ => ⟨0, .queue, false, 0⟩
  sem := fun _ => ⟨0, none⟩
  mutex := fun _ => ⟨none, none⟩
  queue := fun _ => ⟨0, 0, 0, 0, 0, 0, fun _ => 0, none, none⟩
  kworkBuf := fun _ => ⟨0, 0, 0, 0, 0, 0⟩
  kworkHead := 0
  kworkTail := 0
  kernelTcb := none
  ram := ram
  pendsv := false
  nPriv := false
  r0 := 0
  mpu := ArmMpu.reset

def Kernel.setTcb (k : Kernel) (t : Tid) (f : Tcb → Tcb) : Kernel :=
  { k with tcb := Function.update k.tcb t (f (k.tcb t)) }

def Kernel.head (k : Kernel) : WaitList → Option Tid
  | .sem a => (k.sem a).waitList
  | .mutex a => (k.mutex a).waitList
  | .send a => (k.queue a).sendWait
  | .recv a => (k.queue a).recvWait

def Kernel.setSem (k : Kernel) (a : Nat) (s : Semaphore) : Kernel :=
  { k with sem := Function.update k.sem a s }

def Kernel.setMutex (k : Kernel) (a : Nat) (m : Mutex) : Kernel :=
  { k with mutex := Function.update k.mutex a m }

def Kernel.setQueue (k : Kernel) (a : Nat) (q : Queue) : Kernel :=
  { k with queue := Function.update k.queue a q }

def Kernel.setHead (k : Kernel) (w : WaitList) (v : Option Tid) : Kernel :=
  match w with
  | .sem a => k.setSem a { k.sem a with waitList := v }
  | .mutex a => k.setMutex a { k.mutex a with waitList := v }
  | .send a => k.setQueue a { k.queue a with sendWait := v }
  | .recv a => k.setQueue a { k.queue a with recvWait := v }

/-- `wait_next` as a map, the link that wait lists are threaded through. -/
def Kernel.waitNext (k : Kernel) (t : Tid) : Option Tid := (k.tcb t).waitNext

def portTriggerPendsv (k : Kernel) : Kernel := { k with pendsv := true }

@[simp] theorem setTcb_tcb_same (k : Kernel) (t : Tid) (f : Tcb → Tcb) :
    (k.setTcb t f).tcb t = f (k.tcb t) := Function.update_self t _ k.tcb

theorem setTcb_tcb_of_ne (k : Kernel) {t u : Tid} (f : Tcb → Tcb) (h : u ≠ t) :
    (k.setTcb t f).tcb u = k.tcb u := Function.update_of_ne h _ k.tcb

@[simp] theorem setTcb_head (k : Kernel) (t : Tid) (f : Tcb → Tcb) (w : WaitList) :
    (k.setTcb t f).head w = k.head w := by
  cases w <;> rfl

@[simp] theorem setHead_head_same (k : Kernel) (w : WaitList) (v : Option Tid) :
    (k.setHead w v).head w = v := by
  cases w <;> simp [Kernel.setHead, Kernel.head, Kernel.setSem, Kernel.setMutex, Kernel.setQueue]

theorem setHead_head_of_ne (k : Kernel) {w w' : WaitList} (v : Option Tid) (h : w' ≠ w) :
    (k.setHead w v).head w' = k.head w' := by
  cases w with
  | sem a =>
    cases w' with
    | sem b =>
      have hne : b ≠ a := fun heq => h (congrArg WaitList.sem heq)
      simp [Kernel.setHead, Kernel.head, Kernel.setSem, hne]
    | mutex b => rfl
    | send b => rfl
    | recv b => rfl
  | mutex a =>
    cases w' with
    | mutex b =>
      have hne : b ≠ a := fun heq => h (congrArg WaitList.mutex heq)
      simp [Kernel.setHead, Kernel.head, Kernel.setMutex, hne]
    | sem b => rfl
    | send b => rfl
    | recv b => rfl
  | send a =>
    cases w' with
    | send b =>
      have hne : b ≠ a := fun heq => h (congrArg WaitList.send heq)
      simp [Kernel.setHead, Kernel.head, Kernel.setQueue, hne]
    | recv b =>
      by_cases hba : b = a
      · subst hba
        simp [Kernel.setHead, Kernel.head, Kernel.setQueue]
      · simp [Kernel.setHead, Kernel.head, Kernel.setQueue, hba]
    | sem b => rfl
    | mutex b => rfl
  | recv a =>
    cases w' with
    | recv b =>
      have hne : b ≠ a := fun heq => h (congrArg WaitList.recv heq)
      simp [Kernel.setHead, Kernel.head, Kernel.setQueue, hne]
    | send b =>
      by_cases hba : b = a
      · subst hba
        simp [Kernel.setHead, Kernel.head, Kernel.setQueue]
      · simp [Kernel.setHead, Kernel.head, Kernel.setQueue, hba]
    | sem b => rfl
    | mutex b => rfl

end Crest
