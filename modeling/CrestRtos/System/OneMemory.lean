import CrestRtos.Arch.Confinement
import CrestRtos.Heap.Claims
import CrestRtos.System.Estate
import CrestRtos.System.OtherRam
import CrestRtos.System.Runs
import Mathlib.Logic.Relation

/-!
# One memory

The kernel's data and its heap lie in the RAM that its clients use. A step of the system as
such keeps them apart; `Sys.Moves` is the same step in one memory: a flags word that is
stored to is read from there, other kernel data that is stored to may be anything, and what
the RAM holds in the kernel's part of it is nobody's to know. `Sys.Tame` names the steps in
which no client and no item of a queue gets there, and only these keep what the kernel knows.
-/

namespace Crest
open ByteMemory MachineWord Alloc Port Transition

/-- The three bits in use are in the word's first byte. -/
def Flags.ofByte (b : UInt8) : Flags :=
  ⟨b.toNat.testBit 0, b.toNat.testBit 1, b.toNat.testBit 2⟩

def sizeofTcb : Nat := 68
def offsetofFlags : Nat := 40

/-- Where the linker puts the static data of the kernel, `tcb_pool` in it. The registers of
the core that lie among the addresses count as static data. -/
structure Placement where
  static : Nat → Prop
  tcbPool : Nat
  inside : ∀ x, tcbPool ≤ x → x < tcbPool + sizeofTcb * maxTasks → static x

def Placement.flagsAt (P : Placement) (t : Tid) : Nat := P.tcbPool + sizeofTcb * t + offsetofFlags

def inHeap (L : Layout) (x : Nat) : Prop := L.heap.start ≤ x ∧ x < L.heap.stop

/-- What `c` may write in without harm: its own stack, and what is not the kernel's. -/
def Sys.Open (P : Placement) (L : Layout) (s : Sys) (c : Tid) (x : Nat) : Prop :=
  ¬ P.static x ∧ (inHeap L x → inStack (s.k.tcb c) x)

def Ret.client (u : Tid) : Ret → Tid
  | .app => u
  | .serve caller => caller

def Pc.passes : Pc → Option (Op × Ret)
  | .enter op r => some (op, r)
  | .retry op r => some (op, r)
  | _ => none

/-- An item on its way from a queue to the memory of a client. -/
structure Delivery where
  client : Tid
  dest : Nat
  size : Nat

/-- What the next step of `u` copies out. -/
def Sys.delivery (s : Sys) (u : Tid) : Option Delivery :=
  match (s.pc u).passes with
  | some (.queuePop q item _, r) =>
    if (s.k.queue q).head ≠ (s.k.queue q).tail then
      some ⟨r.client u, item, (s.k.queue q).itemSize⟩
    else none
  | _ => none

/-- The queue that the next step of `u` copies an item into. -/
def Sys.filling (s : Sys) (u : Tid) : Option Nat :=
  match (s.pc u).passes with
  | some (.queuePush q _ _, _) =>
    if (s.k.queue q).nextIndex (s.k.queue q).tail ≠ (s.k.queue q).head then some q else none
  | _ => none

/-- The step stores to `x` for `c`: its own code does, or the copy of a pop. -/
def Sys.Stored (s : Sys) (l : Label) (c : Tid) (x : Nat) : Prop :=
  match l with
  | .compute _ ram => s.k.currentTask = some c ∧ ram x ≠ s.k.ram x
  | .go => ∃ d ∈ s.k.currentTask.bind s.delivery, d.client = c ∧ d.dest ≤ x ∧ x < d.dest + d.size
  | _ => False

instance decidableStored (s : Sys) (l : Label) (c : Tid) (x : Nat) :
    Decidable (s.Stored l c x) :=
  match l with
  | .compute _ ram =>
    inferInstanceAs (Decidable (s.k.currentTask = some c ∧ ram x ≠ s.k.ram x))
  | .go =>
    inferInstanceAs (Decidable (∃ d ∈ s.k.currentTask.bind s.delivery,
      d.client = c ∧ d.dest ≤ x ∧ x < d.dest + d.size))
  | .tick | .pendSV _ | .svc _ _ _ _ _ | .call _ => inferInstanceAs (Decidable False)

/-- The control block of `t` behind a step to `k`: where its flags word has been stored to, the
flags are what the memory now holds. -/
def Sys.reloadTcb (P : Placement) (s : Sys) (l : Label) (k : Kernel) (t : Tid) : Tcb :=
  if ∃ c, s.Stored l c (P.flagsAt t) then
    (k.tcb t).setFlags (Flags.ofByte (k.ram (P.flagsAt t)))
  else k.tcb t

def Sys.reload (P : Placement) (s : Sys) (l : Label) (s' : Sys) : Sys :=
  { s' with k := { s'.k with tcb := s.reloadTcb P l s'.k } }

/-- The slot that the item goes to is in the payload of the queue's buffer. -/
def Kernel.SlotHeld (L : Layout) (k : Kernel) (q : Nat) : Prop :=
  ∃ m, LiveBlock L.heap k.heap (k.queue q).buffer m ∧
    (k.queue q).itemSize * ((k.queue q).tail + 1) + headerSize ≤ m

/-- The step stores to data of the kernel other than the flags words: for a client, or with an
item that does not fit into its queue's buffer. -/
def Sys.Strays (P : Placement) (L : Layout) (s : Sys) (l : Label) : Prop :=
  (∃ c x, s.Stored l c x ∧ ¬ s.Open P L c x ∧
    ∀ t, ¬ (P.flagsAt t ≤ x ∧ x < P.flagsAt t + 4)) ∨
  (l = .go ∧ ∃ q ∈ s.k.currentTask.bind s.filling, ¬ s.k.SlotHeld L q)

/-- A step in one memory. Nothing is said of a system whose kernel data is overwritten. -/
inductive Sys.Moves (P : Placement) (L : Layout) (s : Sys) (l : Label) : Sys → Prop
  | keeps (s' : Sys) (m : Memory) (hstep : s.step L l = some s')
      (hm : ∀ x, m x ≠ s'.k.ram x → P.static x ∨ inHeap L x) :
      Sys.Moves P L s l ((s.reload P l s').withRam m)
  | strays (s' t : Sys) (hstep : s.step L l = some s') (hstrays : s.Strays P L l) :
      Sys.Moves P L s l t

/-- Stores for a client stay in its own stack or outside the kernel's memory, and items go
only into queues whose buffers were asked for without a wrap. -/
structure Sys.Tame (P : Placement) (L : Layout) (s : Sys) (l : Label) : Prop where
  stores : ∀ c x, s.Stored l c x → s.Open P L c x
  queues : l = .go → ∀ q ∈ s.k.currentTask.bind s.filling,
    (s.k.queue q).itemSize * ((s.k.queue q).size + 1) + 15 < 2 ^ 32

def Sys.TameStep (P : Placement) (L : Layout) (s s' : Sys) : Prop :=
  ∃ l, s.Tame P L l ∧ s.Moves P L l s'

/-- The states that a started system comes to in one memory by tame steps. -/
def Sys.TameReached (P : Placement) (L : Layout) (s : Sys) : Prop :=
  ∃ s₀, s₀.Started L ∧ Relation.ReflTransGen (Sys.TameStep P L) s₀ s

/-- A step in one memory that leaves the RAM as it has written it. -/
def Sys.follow (P : Placement) (L : Layout) (s : Sys) (l : Label) : Option Sys :=
  (s.step L l).map (s.reload P l)

/-- Steps that store nothing for a client and fill no queue. -/
def Sys.Still (s : Sys) : Label → Bool
  | .compute _ _ => false
  | .go => (s.k.currentTask.bind s.delivery).isNone && (s.k.currentTask.bind s.filling).isNone
  | _ => true

section Steps
variable {P : Placement} {L : Layout} {s s' t : Sys} {g : Ghost} {l : Label} {u : Tid}

theorem Placement.flags_static (P : Placement) (t : Tid) : P.static (P.flagsAt t) := by
  have ht := t.isLt
  refine P.inside _ ?_ ?_ <;> simp only [Placement.flagsAt, sizeofTcb, offsetofFlags, maxTasks] <;>
    omega

/-- The invariant says nothing about what the RAM holds. -/
theorem Inv.withRam (h : Inv L s g) (m : Memory) : Inv L (s.withRam m) g := by
  obtain ⟨⟨hlists, hhome, honce, htask⟩, hc, hr, hs, ho⟩ := h
  exact ⟨⟨hlists, hhome, honce, htask⟩, ⟨hc.1, hc.2, hc.3, hc.4, hc.5, hc.6⟩,
    ⟨hr.1, hr.2, hr.3, hr.4⟩, ⟨hs.1, hs.2, hs.3, hs.4, hs.5, hs.6, hs.7⟩,
    ⟨ho.1, ho.2, ho.3, ho.4, ho.5, ho.6, ho.7, ho.8, ho.9, ho.10⟩⟩

theorem Sys.Tame.reload (h : s.Tame P L l) (s' : Sys) : s.reload P l s' = s' := by
  have hsame : s.reloadTcb P l s'.k = s'.k.tcb := by
    funext t
    refine if_neg ?_
    rintro ⟨c, hc⟩
    exact (h.stores c _ hc).1 (P.flags_static t)
  rw [Sys.reload, hsame]

/-- Code that has nothing to do with the RAM. -/
theorem still_of_bare (hcur : s.k.currentTask = some u) (hpc : (s.pc u).usesRam = false) :
    s.Still .go = true := by
  have hbare : ∀ op r, (s.pc u).passes = some (op, r) → op.copies = false := by
    intro op r hpasses
    cases hcode : s.pc u with
    | enter op' r' =>
      rw [hcode] at hpasses hpc
      obtain ⟨rfl, rfl⟩ := Prod.mk.inj (Option.some.inj hpasses)
      exact hpc
    | retry op' r' =>
      rw [hcode] at hpasses hpc
      obtain ⟨rfl, rfl⟩ := Prod.mk.inj (Option.some.inj hpasses)
      exact hpc
    | _ =>
      rw [hcode] at hpasses
      cases hpasses
  simp only [Sys.Still, hcur, Option.bind_some, Sys.delivery, Sys.filling]
  cases hpasses : (s.pc u).passes with
  | none => rfl
  | some done =>
    obtain ⟨op, r⟩ := done
    have hop := hbare op r hpasses
    cases op <;> first | rfl | cases hop

theorem not_stored (h : s.Still l = true) (c : Tid) (x : Nat) : ¬ s.Stored l c x := by
  cases l with
  | compute r0 ram => cases h
  | go =>
    simp only [Sys.Still, Bool.and_eq_true, Option.isNone_iff_eq_none] at h
    rintro ⟨d, hd, _⟩
    rw [h.1] at hd
    cases hd
  | _ => exact fun hno => hno.elim

theorem tame_of_still (h : s.Still l = true) : s.Tame P L l := by
  constructor
  · intro c x hstored
    exact absurd hstored (not_stored h c x)
  · rintro rfl q hq
    simp only [Sys.Still, Bool.and_eq_true, Option.isNone_iff_eq_none] at h
    rw [h.2] at hq
    cases hq

theorem follow_moves (h : s.follow P L l = some s') : s.Moves P L l s' := by
  obtain ⟨t, hstep, rfl⟩ := Option.map_eq_some_iff.mp h
  exact .keeps t t.k.ram hstep fun x hx => absurd rfl hx

theorem Sys.Tame.moves (h : s.Tame P L l) (hstep : s.step L l = some s') : s.Moves P L l s' := by
  refine follow_moves ?_
  rw [Sys.follow, hstep, Option.map_some, h.reload]

end Steps

/-- The kernel's static data in the small system: all of .bss, and the registers of the core. -/
def boardPlacement : Placement where
  static x := (0x20000000 ≤ x ∧ x < 0x20001000) ∨ (0xE000E000 ≤ x ∧ x < 0xE000F000)
  tcbPool := 0x20000100
  inside x hlo hhi := by
    simp only [sizeofTcb, maxTasks] at hhi
    omega

end Crest
