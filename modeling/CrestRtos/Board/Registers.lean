import CrestRtos.Board.Frames

/-!
# Registers across interrupts and switches

What every task is to find on the CPU when it goes on: the registers that the core holds for
the task on the CPU, and for all others the context that stands on their stacks. Each step
of the board keeps it for all tasks but the one whose code runs.
-/

namespace Crest
open IntrusiveList ByteMemory MachineWord ArmCore Alloc Port Transition

/-- The context of `t` after a step that may have answered its syscall. -/
def answered (s s' : Sys) (t : Tid) (x : Context) : Context :=
  if (s.k.tcb t).svcBlocked && !(s'.k.tcb t).svcBlocked then x.answer (s'.k.tcb t).savedR0 else x

/-- `t` is to go on with `x`. -/
structure Board.Holds (b : Board) (t : Tid) (x : Context) : Prop where
  sound : Sound x.regs x.sp
  low : (b.sys.k.tcb t).stackBase ≤ x.sp
  high : x.sp ≤ (b.sys.k.tcb t).stackBase + (b.sys.k.tcb t).stackSize
  reply : b.sys.pc t = .svcRet → x.regs (.r 0) = wrap (b.sys.k.reply t)
  onCpu : b.sys.k.currentTask = some t → b.cpu.regs = x.regs ∧ b.cpu.psp = x.sp
  away : b.sys.k.currentTask ≠ some t → (b.sys.k.tcb t).stackPointer % 8 = 0 ∧
    Suspended b.cpu.mem (b.sys.k.tcb t).stackPointer x

/-- No code has used the floating-point registers. -/
structure Board.Matches (L : Layout) (b : Board) (v : Tid → Context) : Prop where
  plain : b.cpu.fpca = false
  main : L.heap.stop + 4 ≤ b.cpu.msp
  mainTop : b.cpu.msp < 2 ^ 32
  thread : b.cpu.handler = false
  process : b.cpu.spsel = true
  task : ∀ t, b.sys.Live t → b.Holds t (v t)

section Contexts
variable {L : Layout} {b : Board} {s s' : Sys} {c : Cpu} {g : Ghost} {t u : Tid} {x : Context}
  {m m' : Memory}

theorem answerStore_congr {y : Nat} (h : m y = m' y) :
    answerStore s s' t m y = answerStore s s' t m' y := by
  rw [answerStore, answerStore]
  split
  · simp only [write32]
    split
    · rfl
    · split
      · rfl
      · split
        · rfl
        · split
          · rfl
          · exact h
  · exact h

theorem answerStore_of_gate (hgate : (s'.k.tcb t).svcBlocked = (s.k.tcb t).svcBlocked ∨
    (s.k.tcb t).svcBlocked = false) : answerStore s s' t m = m := by
  rw [answerStore, if_neg]
  rcases hgate with hkeep | hclear
  · rw [hkeep]
    simp
  · rw [hclear]
    simp

/-- Memory may have changed before, where no saved registers are. -/
theorem SavedKept.before {m₁ : Memory} (h : SavedKept s s' m₁ m')
    (hsame : ∀ x t, s.Saves x t → m₁ x = m x) : SavedKept s s' m m' := by
  constructor
  · intro y t hy
    rw [h.saved y t hy]
    exact answerStore_congr (hsame y t hy)
  · exact h.born

/-- A task off the CPU, when another one's code or a handler has run. -/
theorem Board.Holds.elsewhere (h : b.Holds t x) (hcur : b.sys.k.currentTask ≠ some t)
    (hcur' : s'.k.currentTask ≠ some t) (hsteady : (b.sys.k.tcb t).Steady (s'.k.tcb t))
    (hpc : s'.pc t = b.sys.pc t)
    (hmem : ∀ y, (b.sys.k.tcb t).stackPointer ≤ y → y < (b.sys.k.tcb t).stackPointer + 64 →
      c.mem y = answerStore b.sys s' t b.cpu.mem y) :
    (Board.on s' c).Holds t (answered b.sys s' t x) := by
  obtain ⟨hal, hsaved⟩ := h.away hcur
  have hpointer := hsteady.pointer
  obtain ⟨_, hbase, hsize, _⟩ := lasting_fields hsteady.lasting
  have hreply : b.sys.k.reply t = (b.sys.k.tcb t).savedR0 := if_neg hcur
  have hreply' : s'.k.reply t = (s'.k.tcb t).savedR0 := if_neg hcur'
  have hkeep : Suspended (answerStore b.sys s' t b.cpu.mem) (b.sys.k.tcb t).stackPointer
      (answered b.sys s' t x) := by
    rw [answerStore, answered]
    split
    · exact hsaved.answer _
    · exact hsaved
  have hsp : (answered b.sys s' t x).sp = x.sp := by
    rw [answered]
    split <;> rfl
  constructor
  · rw [answered]
    split
    · exact Sound.answer h.sound _
    · exact h.sound
  · rw [hsp]
    change (s'.k.tcb t).stackBase ≤ x.sp
    rw [hbase]
    exact h.low
  · rw [hsp]
    change x.sp ≤ (s'.k.tcb t).stackBase + (s'.k.tcb t).stackSize
    rw [hbase, hsize]
    exact h.high
  · intro hret
    change s'.pc t = .svcRet at hret
    change (answered b.sys s' t x).regs (.r 0) = wrap (s'.k.reply t)
    rw [hreply', answered]
    split
    · rw [answer_r0]
    · rename_i hclear
      rcases hsteady.saved with hsame | ⟨hset, hgone⟩
      · rw [hsame, ← hreply]
        exact h.reply (hpc.symm.trans hret)
      · rw [hset, hgone] at hclear
        exact absurd rfl hclear
  · exact fun hnow => absurd hnow hcur'
  · intro _
    change (s'.k.tcb t).stackPointer % 8 = 0 ∧ Suspended c.mem (s'.k.tcb t).stackPointer _
    rw [hpointer]
    exact ⟨hal, hkeep.congr hmem⟩

/-- A task that has not run yet. -/
theorem Tcb.Prepared.holds (hprep : (b.sys.k.tcb t).Prepared b.cpu.mem)
    (hcur : b.sys.k.currentTask ≠ some t) (hpc : b.sys.pc t ≠ .svcRet)
    (hguard : portStackGuardSize ≤ (b.sys.k.tcb t).stackBase)
    (hal : ((b.sys.k.tcb t).stackBase + (b.sys.k.tcb t).stackSize) % 8 = 0)
    (hlt : (b.sys.k.tcb t).stackBase + (b.sys.k.tcb t).stackSize + 4 < 2 ^ 32) :
    b.Holds t (Context.read b.cpu.mem (b.sys.k.tcb t).stackPointer) := by
  have htop := hprep.top
  have hsp := hprep.read_sp
  rw [portStackGuardSize] at hguard
  constructor
  · exact read_sound (by omega) (by omega)
  · rw [hsp]
    exact Nat.le_add_right _ _
  · rw [hsp]
  · exact fun hret => absurd hret hpc
  · exact fun hnow => absurd hnow hcur
  · intro _
    exact ⟨by omega, read_suspended _ _⟩

/-- The registers of a task off the CPU are saved above its allocation. -/
theorem Board.Holds.inside (hL : L.heap.Placed) (hmap : Mapped L b.sys) (h : b.Holds t x)
    (hcur : b.sys.k.currentTask ≠ some t) (hlive : b.sys.Live t) {y : Nat}
    (hlo : (b.sys.k.tcb t).stackPointer ≤ y) (hhi : y < (b.sys.k.tcb t).stackPointer + 64) :
    (b.sys.k.tcb t).stackAlloc ≤ y ∧
      y < (b.sys.k.tcb t).stackBase + (b.sys.k.tcb t).stackSize := by
  obtain ⟨hguard, _, _⟩ := hmap.bounds hL (hmap.onList hlive)
  obtain ⟨hbelow, habove⟩ := (h.away hcur).2.below
  have hlow := h.low
  have hhigh := h.high
  rw [portStackGuardSize] at hguard
  omega

/-- Where the registers of a task are saved, other tasks' stacks are not. -/
theorem Board.Holds.apart (hL : L.heap.Placed) (hmap : Mapped L b.sys) (h : b.Holds t x)
    (hcur : b.sys.k.currentTask ≠ some t) (hlive : b.sys.Live t) (hlive' : b.sys.Live u)
    (hne : t ≠ u) {y : Nat} (hlo : (b.sys.k.tcb t).stackPointer ≤ y)
    (hhi : y < (b.sys.k.tcb t).stackPointer + 64) :
    y < L.heap.stop ∧ (y < (b.sys.k.tcb u).stackAlloc ∨
      (b.sys.k.tcb u).stackBase + (b.sys.k.tcb u).stackSize ≤ y) := by
  have ht := hmap.onList hlive
  have hu := hmap.onList hlive'
  obtain ⟨_, hstop, _⟩ := hmap.bounds hL ht
  obtain ⟨hfrom, hto⟩ := h.inside hL hmap hcur hlive hlo hhi
  have hapart := hmap.stacksApart hL ht hu hne
  omega

end Contexts

/-- What a step with `u` on the CPU leaves of the tasks, `u` apart. -/
structure Passes (s : Sys) (u : Tid) (s' : Sys) : Prop where
  before : s.k.currentTask = some u
  current : s'.k.currentTask = some u
  live : ∀ t, s'.Live t → s.Live t ∨ ∃ alloc args, s'.pc t = .app ∧
    s'.k = schedulerAddTask (initTcb s.k t alloc args) t
  steady : ∀ t, s.Live t → t ≠ u → (s.k.tcb t).Steady (s'.k.tcb t) ∧ s'.pc t = s.pc t

/-- What it leaves of the core. -/
structure Leaves (b : Board) (u : Tid) (s' : Sys) (c : Cpu) : Prop where
  msp : c.msp = b.cpu.msp
  thread : c.handler = false
  process : c.spsel = true
  plain : c.fpca = false
  savedKept : SavedKept b.sys s' b.cpu.mem c.mem
  sound : Sound c.regs c.psp
  low : (s'.k.tcb u).stackBase ≤ c.psp
  high : c.psp ≤ (s'.k.tcb u).stackBase + (s'.k.tcb u).stackSize
  reply : s'.pc u = .svcRet → c.regs (.r 0) = wrap s'.k.r0

section Steps
variable {P : Placement} {L : Layout} {b b' : Board} {s' : Sys} {c : Cpu} {g : Ghost} {t u : Tid}
  {l : Label} {v : Tid → Context}

/-- `u` has its registers on the CPU, the others have been passed by, and a new task begins. -/
theorem Board.Matches.advance (hL : L.heap.Placed) (hm : b.Matches L v) (hmap' : Mapped L s')
    (hp : Passes b.sys u s') (ha : Leaves b u s' c) :
    ∃ v', (Board.on s' c).Matches L v' ∧ v' u = ⟨c.regs, c.psp⟩ ∧
      ∀ t, b.sys.Live t → t ≠ u → v' t = answered b.sys s' t (v t) := by
  classical
  let v' : Tid → Context := fun t => if t = u then ⟨c.regs, c.psp⟩
    else if b.sys.Live t then answered b.sys s' t (v t)
    else Context.read c.mem (s'.k.tcb t).stackPointer
  have hself : v' u = ⟨c.regs, c.psp⟩ := if_pos rfl
  have hother : ∀ t, b.sys.Live t → t ≠ u → v' t = answered b.sys s' t (v t) := by
    intro t hlive hne
    exact (if_neg hne).trans (if_pos hlive)
  refine ⟨v', ⟨ha.plain, ?_, ?_, ha.thread, ha.process, ?_⟩, hself, hother⟩
  · exact hm.main.trans_eq ha.msp.symm
  · exact ha.msp.trans_lt hm.mainTop
  intro t hlive'
  by_cases hne : t = u
  · subst hne
    rw [hself]
    refine ⟨ha.sound, ha.low, ha.high, ?_, fun _ => ⟨rfl, rfl⟩, fun hoff => absurd hp.current hoff⟩
    intro hret
    rw [show (Board.on s' c).sys.k.reply t = s'.k.r0 from reply_current hp.current]
    exact ha.reply hret
  have hoff : ∀ {k : Kernel}, k.currentTask = some u → k.currentTask ≠ some t := by
    intro k hk heq
    rw [hk] at heq
    exact hne (Option.some.inj heq).symm
  by_cases hlive : b.sys.Live t
  · rw [hother t hlive hne]
    obtain ⟨hsteady, hpc⟩ := hp.steady t hlive hne
    apply (hm.task t hlive).elsewhere (hoff hp.before) (hoff hp.current) hsteady hpc
    intro y hlo hhi
    exact ha.savedKept.saved y t ⟨hlive, hoff hp.before, hlo, hhi⟩
  · have hnew : v' t = Context.read c.mem (s'.k.tcb t).stackPointer :=
      (if_neg hne).trans (if_neg hlive)
    rw [hnew]
    obtain ⟨alloc, args, happ, hk⟩ := (hp.live t hlive').resolve_left hlive
    obtain ⟨hguard, hstop, hal⟩ := hmap'.bounds hL (hmap'.onList hlive')
    have hmain := hm.main
    have hbound := hm.mainTop
    rw [portStackGuardSize] at hguard
    have hprep := (addTask_prepared b.sys.k t alloc args hk rfl hal (by omega) (by omega)).1
    have htop := hprep.top
    have hcopy : (s'.k.tcb t).Prepared c.mem := by
      apply hprep.congr
      · rfl
      · rfl
      · rfl
      · intro y hlo hhi
        exact ha.savedKept.born t hlive hlive' y (by omega) hhi
    apply Tcb.Prepared.holds (b := .on s' c) hcopy (hoff hp.current)
    · change s'.pc t ≠ .svcRet
      rw [happ]
      intro heq
      cases heq
    · change 256 ≤ (s'.k.tcb t).stackBase
      omega
    · exact hal
    · change (s'.k.tcb t).stackBase + (s'.k.tcb t).stackSize + 4 < 2 ^ 32
      omega

theorem Inv.live_current {s : Sys} (h : Inv L s g) (hcur : s.k.currentTask = some u) :
    s.Live u :=
  ⟨_, _, h.scheduled.linked _, (h.scheduled.alive u).mp (h.pendsv_or hcur).1⟩

theorem Change.passes {s : Sys} (hc : Change s g u s') (h : Inv L s g)
    (hcur : s.k.currentTask = some u) : Passes s u s' := by
  constructor
  · exact hcur
  · exact hc.current.trans hcur
  · intro t hlive
    rcases (hc.live h t).2 hlive with hold | ⟨alloc, args, _, happ, hk⟩
    · exact Or.inl hold
    · exact Or.inr ⟨alloc, args, happ, hk⟩
  · intro t hlive hne
    exact ⟨(hc.steady h hlive).2 hne, hc.pc h hne (h.live hlive)⟩

theorem sysTick_live {s : Sys} : s.sysTick.Live t ↔ s.Live t := by
  have hlists : ∀ {k k' : Kernel}, k'.frame = k.frame → k'.taskList = k.taskList :=
    fun h => (congrArg Prod.fst h :)
  apply live_of_lists (hlists (sysTick_frame s).2)
  funext x
  exact (lasting_fields (sysTick_steady s x).lasting).2.2.2

theorem sysTick_passes {s : Sys} (hcur : s.k.currentTask = some u) : Passes s u s.sysTick := by
  obtain ⟨hpc, hframe⟩ := sysTick_frame s
  have hnow : ∀ {k k' : Kernel}, k'.frame = k.frame → k'.currentTask = k.currentTask :=
    fun h => (congrArg (fun f => f.2.2) h :)
  constructor
  · exact hcur
  · exact (hnow hframe).trans hcur
  · intro t hlive
    exact Or.inl (sysTick_live.mp hlive)
  · intro t _ _
    exact ⟨sysTick_steady s t, congrFun hpc t⟩

/-- While `u` is on the CPU, frames go on its stack and save no other task's registers. -/
theorem Board.Matches.saved_apart (hL : L.heap.Placed) (hmap : Mapped L b.sys)
    (hm : b.Matches L v) (hlive : b.sys.Live u) (hcur : b.sys.k.currentTask = some u)
    {m m' : Memory} (hsame : ∀ y, (y < (b.sys.k.tcb u).stackBase ∨
      (b.sys.k.tcb u).stackBase + (b.sys.k.tcb u).stackSize ≤ y) →
      y < L.heap.stop → m y = m' y) {y : Nat} (hy : b.sys.Saves y t) : m y = m' y := by
  obtain ⟨hlive', hoff, hlo, hhi⟩ := hy
  have hne : t ≠ u := by
    rintro rfl
    exact hoff hcur
  obtain ⟨hstop, hout⟩ := (hm.task t hlive').apart hL hmap hoff hlive' hlive hne hlo hhi
  obtain ⟨hguard, _, _⟩ := hmap.bounds hL (hmap.onList hlive)
  exact hsame y (hout.imp_left fun hlt => by omega) hstop

/-- Where the stack pointer of the task on the CPU is. -/
theorem Board.Matches.room (hL : L.heap.Placed) (hmap : Mapped L b.sys) (hm : b.Matches L v)
    (hlive : b.sys.Live u) (hcur : b.sys.k.currentTask = some u) :
    Sound b.cpu.regs b.cpu.psp ∧ 68 ≤ b.cpu.psp ∧ b.cpu.psp + 4 ≤ b.cpu.msp ∧
      (b.sys.k.tcb u).stackBase ≤ b.cpu.psp ∧
      b.cpu.psp ≤ (b.sys.k.tcb u).stackBase + (b.sys.k.tcb u).stackSize := by
  obtain ⟨hguard, hstop, _⟩ := hmap.bounds hL (hmap.onList hlive)
  have hu := hm.task u hlive
  obtain ⟨hregs, hpsp⟩ := hu.onCpu hcur
  have hlow := hu.low
  have hhigh := hu.high
  have hmain := hm.main
  rw [portStackGuardSize] at hguard
  rw [hregs, hpsp]
  exact ⟨hu.sound, by omega, by omega, hlow, hhigh⟩

/-- A tick answers the task on the CPU nothing. -/
theorem tick_gate {s : Sys} (h : Inv L s g) (hcur : s.k.currentTask = some u) :
    (s.sysTick.k.tcb u).svcBlocked = (s.k.tcb u).svcBlocked ∨
      (s.k.tcb u).svcBlocked = false := by
  cases hb : (s.k.tcb u).svcBlocked with
  | false => exact Or.inr rfl
  | true =>
    have hview := h.placed.task u
    rw [h.running.gate u hcur hb] at hview
    exact Or.inl ((sysTick_gate hview.list).trans hb)

/-- `SysTick_Handler` gives the task on the CPU its registers back. -/
theorem tick_leaves {xpsr : Nat} {f : Cpu → Cpu} {d : Cpu} (hL : L.heap.Placed)
    (h : Inv L b.sys g) (hmap : Mapped L b.sys) (hm : b.Matches L v)
    (hcur : b.sys.k.currentTask = some u) (hd : b.cpu.exceptionEntry xpsr = d)
    (hstart : (b.sys.k.tcb u).stackBase ≤ d.psp) (hf : Returns f d)
    (hframe : ∀ x, d.psp ≤ x → x < d.psp + 32 →
      (f d).mem x = answerStore b.sys b.sys.sysTick u d.mem x)
    (hmem : SavedKept b.sys b.sys.sysTick d.mem (f d).mem) :
    Leaves b u b.sys.sysTick ((f d).exceptionReturn b.cpu.fpca) ∧
      ((f d).exceptionReturn b.cpu.fpca).regs = b.cpu.regs ∧
      ((f d).exceptionReturn b.cpu.fpca).psp = b.cpu.psp := by
  have hlive := h.live_current hcur
  obtain ⟨hsound, hroom, hmain, hlow, hhigh⟩ := hm.room hL hmap hlive hcur
  have hquiet : answerStore b.sys b.sys.sysTick u d.mem = d.mem :=
    answerStore_of_gate (tick_gate h hcur)
  have hframed : frameSize b.cpu.fpca = 32 := by rw [hm.plain]; rfl
  obtain ⟨hmod, hpsp⟩ := exceptionEntry_psp xpsr hsound (by omega)
  have houtside := fun x => @exceptionEntry_outside b.cpu xpsr x
  have hmsp : d.msp = b.cpu.msp := by rw [← hd]; rfl
  have hkept : Preserves (b.cpu.exceptionEntry xpsr) (f d) := by
    rw [hd]
    refine ⟨?_, hf.psp, hf.regs, ?_⟩
    · rw [hf.handler, ← hd]
      rfl
    · intro x hlo hhi
      rw [hframe x hlo hhi, hquiet]
  rw [exception_transparent xpsr hsound (by omega) hkept]
  rw [hd] at hmod hpsp houtside
  obtain ⟨_, hbase, hsize, _⟩ := lasting_fields (sysTick_steady b.sys u).lasting
  refine ⟨⟨?_, rfl, rfl, hm.plain, ?_, hsound, ?_, ?_, ?_⟩, rfl, rfl⟩
  · exact hf.msp.trans hmsp
  · apply hmem.before
    intro y t hy
    apply hm.saved_apart hL hmap hlive hcur ?_ hy
    intro y hout _
    apply houtside
    omega
  · rw [hbase]
    exact hlow
  · rw [hbase, hsize]
    exact hhigh
  · intro hret
    rw [(sysTick_frame b.sys).1] at hret
    have hreply := (hm.task u hlive).reply hret
    rw [reply_current hcur, ← ((hm.task u hlive).onCpu hcur).1] at hreply
    rw [sysTick_r0]
    exact hreply

theorem svcHandler_r0 {k : Kernel} {item : WorkItem}
    (hroom : (k.kworkTail + 1) % kworkQueueSize ≠ k.kworkHead) :
    (svcHandler k item).r0 = item.arg0 := by
  rw [svcHandler_room hroom, rouseWorker]
  split
  · rfl
  · split <;> rfl

theorem thread_svc {s : Sys} {item : WorkItem} (hcaller : item.caller = u)
    (hthread : s.thread L u item.label = some s') : s.pc u = .app ∧
      s' = ({ s with k := svcHandler s.k item }.setPc u .svcRet).note [.posted item] := by
  subst hcaller
  rw [WorkItem.label, Sys.thread] at hthread
  split at hthread
  · rename_i hcond
    exact ⟨hcond.1, (Option.some.inj hthread).symm⟩
  · cases hthread

/-- The gate gives the caller its registers back. -/
theorem svc_leaves {xpsr : Nat} {f : Cpu → Cpu} {d : Cpu} {item : WorkItem}
    (hL : L.heap.Placed) (h : Inv L b.sys g) (hmap : Mapped L b.sys) (hm : b.Matches L v)
    (hd : execAll (b.cpu.exceptionEntry xpsr) ((svcVector f).take 2) = d)
    (hstart : (b.sys.k.tcb u).stackBase ≤ (b.cpu.exceptionEntry xpsr).psp)
    (hcur : b.sys.k.currentTask = some u)
    (hitem : item = frameItem d.mem d.psp u)
    (hthread : b.sys.thread L u item.label = some s') (hf : Returns f d)
    (hframe : ∀ x, d.psp ≤ x → x < d.psp + 32 → (f d).mem x = gateStore b.sys.k item d x)
    (hmem : SavedKept b.sys s' d.mem (f d).mem) :
    Leaves b u s' (execAll (b.cpu.exceptionEntry xpsr) (svcVector f)) ∧
      (execAll (b.cpu.exceptionEntry xpsr) (svcVector f)).regs = b.cpu.regs ∧
      (execAll (b.cpu.exceptionEntry xpsr) (svcVector f)).psp = b.cpu.psp := by
  have hlive := h.live_current hcur
  obtain ⟨hsound, hroom, hmain, hlow, hhigh⟩ := hm.room hL hmap hlive hcur
  have hfree := kwork_room h.coded.head h.coded.tail h.placed.once
  have hkept : ∀ x, d.psp ≤ x → x < d.psp + 32 → (f d).mem x = d.mem x := by
    intro x hlo hhi
    rw [hframe x hlo hhi, gateStore, kworkPush_room item hfree]
    rfl
  have hcaller : item.caller = u := by rw [hitem]; rfl
  obtain ⟨happ, rfl⟩ := thread_svc hcaller hthread
  have hframed : frameSize b.cpu.fpca = 32 := by rw [hm.plain]; rfl
  obtain ⟨hmod, hpsp⟩ := exceptionEntry_psp xpsr hsound (by omega)
  have houtside := fun x => @exceptionEntry_outside b.cpu xpsr x
  obtain ⟨hdpsp, _, hstacked, hdmem⟩ :=
    svcVector_frame xpsr hsound (by omega) hmain hm.mainTop hd
  rw [svc_transparent xpsr hsound (by omega) hmain hm.mainTop hd hf hkept]
  obtain ⟨_, hstop, _⟩ := hmap.bounds hL (hmap.onList hlive)
  have hheap := hm.main
  have htcb : (svcHandler b.sys.k item).tcb u =
      { b.sys.k.tcb u with svcBlocked := true, state := .waiting } := by
    rw [← hcaller]
    exact (h.svc_posted (by rw [hcaller]; exact happ)).caller
  have harg : item.arg0 = b.cpu.regs (.r 0) := by
    rw [hitem, ← hstacked.args.1]
    rfl
  refine ⟨⟨rfl, rfl, rfl, hm.plain, ?_, hsound, ?_, ?_, ?_⟩, rfl, rfl⟩
  · apply hmem.before
    intro y t hy
    apply hm.saved_apart hL hmap hlive hcur ?_ hy
    intro y hout hend
    rw [hdmem, write32_of_outside _ (by omega)]
    apply houtside
    omega
  · change ((svcHandler b.sys.k item).tcb u).stackBase ≤ b.cpu.psp
    rw [htcb]
    exact hlow
  · change b.cpu.psp ≤ ((svcHandler b.sys.k item).tcb u).stackBase +
      ((svcHandler b.sys.k item).tcb u).stackSize
    rw [htcb]
    exact hhigh
  · intro _
    change b.cpu.regs (.r 0) = wrap (svcHandler b.sys.k item).r0
    rw [svcHandler_r0 hfree, harg, wrap_of_lt (hsound.lt _)]

/-- `bx lr` after the answer. -/
theorem back_leaves (hL : L.heap.Placed) (h : Inv L b.sys g) (hmap : Mapped L b.sys)
    (hm : b.Matches L v) (hcur : b.sys.k.currentTask = some u) (hpc : b.sys.pc u = .svcRet)
    (hthread : b.sys.go L u = some s') : Leaves b u s' (exec b.cpu .bxLr) := by
  have hlive := h.live_current hcur
  obtain ⟨hsound, hroom, hmain, hlow, hhigh⟩ := hm.room hL hmap hlive hcur
  have hle := andNot_le (b.cpu.regs .lr) 1
  have hlr := hsound.lt .lr
  obtain rfl : s' = (b.sys.setPc u .app).note [.resumed u b.sys.k.r0] := by
    rw [Sys.go, hpc] at hthread
    exact (Option.some.inj hthread).symm
  rw [exec_bxLr_thread hm.thread]
  refine ⟨rfl, hm.thread, hm.process, hm.plain, ⟨?_, ?_⟩,
    ⟨?_, ?_, hsound.aligned, hsound.top⟩, hlow, hhigh, ?_⟩
  · intro y t _
    have hsame := @answerStore_of_gate b.sys
      ((b.sys.setPc u .app).note [.resumed u b.sys.k.r0]) t b.cpu.mem (Or.inl rfl)
    exact (congrFun hsame y).symm
  · intro t hold hnew
    exact absurd hnew hold
  · intro r
    by_cases hr : r = .pc
    · subst hr
      simp only [Function.update_self]
      omega
    · simp only [Function.update_of_ne hr]
      exact hsound.lt r
  · simp only [Function.update_self, andNot_one]
    omega
  · intro hret
    simp [Sys.setPc, Sys.note] at hret

/-- The code of a task. -/
theorem code_leaves {c : Cpu} (hl : l.isCode = true) (hcur : s'.k.currentTask = some u)
    (hpc : b.sys.pc u ≠ .svcRet) (hthread : b.sys.thread L u l = some s') (hc : Runs b l s' c)
    (htame : b.Tame P L l (.on s' c)) : Leaves b u s' c := by
  obtain ⟨hlow, hhigh⟩ := htame.stack hl u hcur
  refine ⟨hc.msp, hc.handler, hc.spsel, htame.plain hl, hc.stores.savedKept htame.saved,
    hc.sound, hlow, hhigh, fun hret => ?_⟩
  cases l with
  | tick => cases hl
  | pendSV oldSp => cases hl
  | svc id a0 a1 a2 a3 => cases hl
  | go => exact absurd hret (go_not_svcRet hthread)
  | compute r0 ram =>
    rw [Sys.thread] at hthread
    split at hthread
    · obtain rfl := Option.some.inj hthread
      exact absurd hret hpc
    · cases hthread
  | call c =>
    rw [Sys.thread] at hthread
    split at hthread
    · rename_i hcond
      obtain rfl := Option.some.inj hthread
      exact absurd hret (call_not_svcRet b.sys u c hcond.1)
    · cases hthread

/-- A switch stores the registers of one task and takes up those of another. -/
theorem Board.Matches.switch {xpsr : Nat} {f : Cpu → Cpu} {d : Cpu} {n : Tid} {k : Kernel}
    (hL : L.heap.Placed) (h : Inv L b.sys g) (hmap : Mapped L b.sys) (hm : b.Matches L v)
    (hd : execAll (b.cpu.exceptionEntry xpsr) ((pendSVHandler f).take 3) = d)
    (hrun : portSwitchContext L b.sys.k (d.regs (.r 0)) = some k)
    (hn : k.currentTask = some n) (hf : Switches f d { b.sys with k := k } n) :
    (Board.on { b.sys with k := k }
      (execAll (b.cpu.exceptionEntry xpsr) (pendSVHandler f))).Matches L v := by
  obtain ⟨u, hcur, _⟩ := h.running.current
  have hlive := h.live_current hcur
  obtain ⟨hsound, hroom, hmain, hlow, hhigh⟩ := hm.room hL hmap hlive hcur
  obtain ⟨hestate, hbase, hpointer⟩ := switch_pointer hcur hrun
  obtain ⟨n', hsw⟩ := h.switched hrun
  obtain rfl : n = n' := Option.some.inj (hn.symm.trans hsw.current)
  obtain ⟨d', hd', hhandler, hmod, hmsp, hword, hsaved, hkeep⟩ :=
    save_suspended f xpsr hm.plain hsound hroom hmain hm.mainTop
  obtain rfl : d = d' := hd.symm.trans hd'
  have hlives : ∀ t, Sys.Live { b.sys with k := k } t ↔ b.sys.Live t :=
    fun t => @live_of_estate b.sys { b.sys with k := k } t hestate.symm
  obtain ⟨_, hstop, _⟩ := hmap.bounds hL (hmap.onList hlive)
  have hheap := hm.main
  obtain ⟨hregs, hpsp⟩ := (hm.task u hlive).onCpu hcur
  have hself : (⟨b.cpu.regs, b.cpu.psp⟩ : Context) = v u := by rw [hregs, hpsp]
  have haway : ∀ t, b.sys.Live t → (k.tcb t).stackPointer % 8 = 0 ∧
      Suspended (f d).mem (k.tcb t).stackPointer (v t) := by
    intro t hlive'
    have hsame : ∀ y, (k.tcb t).stackPointer ≤ y → y < (k.tcb t).stackPointer + 64 →
        (f d).mem y = d.mem y := hf.saved t ((hlives t).mpr hlive')
    by_cases htu : t = u
    · subst htu
      rw [hpointer, if_pos rfl] at hsame ⊢
      rw [← hself]
      exact ⟨hmod, hsaved.congr hsame⟩
    · have hoff : b.sys.k.currentTask ≠ some t := by
        rw [hcur]
        exact fun heq => htu (Option.some.inj heq).symm
      obtain ⟨hal, hold⟩ := (hm.task t hlive').away hoff
      rw [hpointer, if_neg htu] at hsame ⊢
      refine ⟨hal, hold.congr fun y hlo hhi => ?_⟩
      rw [hsame y hlo hhi]
      apply hm.saved_apart hL hmap hlive hcur ?_ ⟨hlive', hoff, hlo, hhi⟩
      intro y hout hend
      apply hkeep
      · omega
      · omega
  have hnlive : b.sys.Live n := by
    obtain ⟨pr, hmem⟩ := hsw.mem
    exact ⟨pr, _, h.scheduled.linked pr, hmem⟩
  have hr0 : (f d).regs (.r 0) = (k.tcb n).stackPointer := hf.result
  obtain ⟨hal, hnext⟩ := haway n hnlive
  rw [← hr0] at hal hnext
  have hlr : read32 (f d).mem (f d).msp = excReturnThread := by
    rw [hf.msp, read32_congr hf.pushed]
    exact hword
  have hend : wrap ((f d).msp + 4) = b.cpu.msp := by
    have htop := hm.mainTop
    rw [hf.msp, hmsp, wrap]
    omega
  have hsplit : execAll (b.cpu.exceptionEntry xpsr) (pendSVHandler f) =
      execAll (f (execAll (b.cpu.exceptionEntry xpsr) ((pendSVHandler f).take 3)))
        [.pop [.lr], .ldmia 0 calleeSaved, .msrPsp 0, .bxLr] := by
    simp only [pendSVHandler, execAll, List.foldl_cons, List.take_succ_cons, List.take_zero,
      List.foldl_nil, exec_bl]
  have hsound' := (hm.task n hnlive).sound
  have hbasic : frameSize false = 32 := rfl
  have htop := hsound'.top
  rw [hsplit, hd, @restore_suspended _ _ false (hf.handler.trans hhandler) hlr hal hnext hsound'
    (by omega), hend, hbasic, Nat.add_sub_cancel]
  refine ⟨rfl, hm.main, hm.mainTop, rfl, rfl, fun t hlive' => ?_⟩
  have hlive' := (hlives t).mp hlive'
  have ht := hm.task t hlive'
  have htcb : (k.tcb t).stackBase = (b.sys.k.tcb t).stackBase ∧
      (k.tcb t).stackSize = (b.sys.k.tcb t).stackSize := by
    obtain ⟨sp, r0, hsame⟩ := hsw.tcb t
    rw [hsame]
    exact ⟨rfl, rfl⟩
  refine ⟨ht.sound, ?_, ?_, ?_, ?_, fun _ => haway t hlive'⟩
  · change (k.tcb t).stackBase ≤ (v t).sp
    rw [htcb.1]
    exact ht.low
  · change (v t).sp ≤ (k.tcb t).stackBase + (k.tcb t).stackSize
    rw [htcb.1, htcb.2]
    exact ht.high
  · intro hret
    change (v t).regs (.r 0) = wrap (k.reply t)
    rw [hsw.reply t]
    exact ht.reply hret
  · intro hnow
    obtain rfl : t = n := Option.some.inj (hnow.symm.trans hn)
    exact ⟨rfl, rfl⟩

theorem answered_of_gate {s : Sys} {x : Context}
    (hgate : (s'.k.tcb t).svcBlocked = (s.k.tcb t).svcBlocked ∨ (s.k.tcb t).svcBlocked = false) :
    answered s s' t x = x := by
  rw [answered, if_neg]
  rcases hgate with hkeep | hclear
  · rw [hkeep]
    simp
  · rw [hclear]
    simp

/-- A step changes the context of the task whose step it is, and the R0 of a task whose
syscall it answers. -/
theorem Board.Matches.step (hL : L.heap.Placed) (h : Inv L b.sys g) (hmap : Mapped L b.sys)
    (hm : b.Matches L v) (hstep : b.Step L l s' c) (htame : b.Tame P L l (.on s' c)) :
    ∃ v', (Board.on s' c).Matches L v' ∧
      ∀ t, b.sys.Live t → ¬ (l.isThread = true ∧ b.sys.k.currentTask = some t) →
        v' t = answered b.sys s' t (v t) := by
  have hmap' := hmap.step hL h hstep.sys
  have hthread : ∀ {u s'}, b.sys.k.currentTask = some u → l.isThread = true →
      b.sys.step L l = some s' → b.sys.thread L u l = some s' ∧ Passes b.sys u s' := by
    intro u s' hcur hl hrun
    rcases step_cases hrun with ⟨rfl, _⟩ | ⟨oldSp, k, rfl, _⟩ | ⟨u', hpend, hcur', hthr⟩
    · cases hl
    · cases hl
    · obtain rfl := Option.some.inj (hcur.symm.trans hcur')
      exact ⟨hthr, (h.change hcur hpend hthr).passes h hcur⟩
  have hcode : ∀ {u}, b.sys.k.currentTask = some u → l.isThread = true →
      Passes b.sys u s' → Leaves b u s' c → ∃ v', (Board.on s' c).Matches L v' ∧
        ∀ t, b.sys.Live t → ¬ (l.isThread = true ∧ b.sys.k.currentTask = some t) →
          v' t = answered b.sys s' t (v t) := by
    intro u hcur hl hp ha
    obtain ⟨v', hm', _, hothers⟩ := hm.advance hL hmap' hp ha
    refine ⟨v', hm', fun t hlive hnot => hothers t hlive ?_⟩
    rintro rfl
    exact hnot ⟨hl, hcur⟩
  cases hstep with
  | tick xpsr f d s' hd hrun hf hframe hmem =>
    obtain ⟨u, hcur, _⟩ := h.running.current
    have hstart := htame.frame rfl u hcur
    rw [show (b.cpu.exceptionEntry 0).psp = d.psp by rw [← hd]; rfl] at hstart
    obtain rfl : b.sys.sysTick = s' := Option.some.inj hrun
    obtain ⟨hleaves, hregs, hpsp⟩ := tick_leaves hL h hmap hm hcur hd hstart hf (hframe u hcur)
      (hmem.savedKept htame.saved)
    obtain ⟨v', hm', hself, hothers⟩ := hm.advance hL hmap' (sysTick_passes hcur) hleaves
    refine ⟨v', hm', fun t hlive _ => ?_⟩
    by_cases htu : t = u
    · subst htu
      obtain ⟨hold, hpsp'⟩ := (hm.task t hlive).onCpu hcur
      rw [hself, hregs, hpsp, hold, hpsp', answered_of_gate (tick_gate h hcur)]
    · exact hothers t hlive htu
  | svc xpsr f d s' item u hd hcur hitem hrun hf hframe hmem =>
    obtain ⟨hthr, hp⟩ := hthread hcur rfl hrun
    have hleaves := (svc_leaves hL h hmap hm hd (htame.frame rfl u hcur) hcur hitem hthr hf hframe
      (hmem.savedKept htame.saved)).1
    exact hcode hcur rfl hp hleaves
  | pendSV xpsr f d s' n hd hrun hn hf =>
    obtain ⟨k, hk, rfl⟩ : ∃ k, portSwitchContext L b.sys.k (d.regs (.r 0)) = some k ∧
        s' = { b.sys with k := k } := by
      rcases step_cases hrun with ⟨hl, _⟩ | ⟨oldSp, k, hl, _, hk, rfl⟩ | ⟨u, _, _, hthr⟩
      · cases hl
      · obtain rfl : d.regs (.r 0) = oldSp := Label.pendSV.inj hl
        exact ⟨k, hk, rfl⟩
      · cases hthr
    refine ⟨v, hm.switch hL h hmap hd hk hn hf, fun t hlive _ => ?_⟩
    obtain ⟨x, hsw⟩ := h.switched hk
    obtain ⟨sp, r0, htcb⟩ := hsw.tcb t
    refine (answered_of_gate (Or.inl ?_)).symm
    change (k.tcb t).svcBlocked = _
    rw [htcb]
    rfl
  | back u s' hcur hpc hrun =>
    obtain ⟨hthr, hp⟩ := hthread hcur rfl hrun
    exact hcode hcur rfl hp (back_leaves hL h hmap hm hcur hpc hthr)
  | code l u s' c hl hcur hpc hrun hc =>
    have hth : l.isThread = true := by
      cases l <;> first | rfl | cases hl
    obtain ⟨hthr, hp⟩ := hthread hcur hth hrun
    exact hcode hcur hth hp (code_leaves hl hp.current hpc hthr hc htame)

end Steps

/-- What steps of others leave of a task. -/
structure Kept (s s' : Sys) (t : Tid) (x x' : Context) : Prop where
  live : s'.Live t
  pc : s'.pc t = s.pc t
  sp : x'.sp = x.sp
  regs : ∀ r, r ≠ .r 0 → x'.regs r = x.regs r
  same : s.pc t ≠ .svcRet → x' = x

theorem Kept.trans {s s' s'' : Sys} {t : Tid} {x x' x'' : Context} (h : Kept s s' t x x')
    (h' : Kept s' s'' t x' x'') : Kept s s'' t x x'' := by
  constructor
  · exact h'.live
  · exact h'.pc.trans h.pc
  · exact h'.sp.trans h.sp
  · intro r hr
    exact (h'.regs r hr).trans (h.regs r hr)
  · intro hpc
    rw [← h.same hpc]
    apply h'.same
    rw [h.pc]
    exact hpc

section Runs
variable {P : Placement} {L : Layout} {b b' : Board} {g : Ghost} {t u : Tid} {l : Label}
  {v : Tid → Context}

theorem Sys.Started.not_svcRet {s : Sys} (h : s.Started L) (t : Tid) : s.pc t ≠ .svcRet := by
  obtain ⟨heapMem, ram, tasks, s₁, hboot, hstart, _⟩ := h
  have hboth := bootTasks_induction (P := fun s => ∀ t, s.pc t ≠ .svcRet)
    (fun s task s' hs hl => by
      obtain ⟨⟨k, created⟩, _, rfl⟩ := Option.map_eq_some_iff.mp hl
      cases created with
      | none => exact hs
      | some x =>
        intro t
        simp only [Sys.setPc]
        by_cases ht : t = x
        · subst ht
          rw [Function.update_self]
          cases task.1 <;> simp [Entry.pc]
        · rw [Function.update_of_ne ht]
          exact hs t)
    (fun t => by simp [Sys.reset]) hboot
  obtain ⟨⟨k, first⟩, _, rfl⟩ := Option.map_eq_some_iff.mp hstart
  exact hboth t

/-- The board starts with every task about to run its first instruction, at the top of its
stack or four bytes below. -/
theorem Board.Boots.matches (hL : L.heap.Placed) (h : b.Boots L) : ∃ v, b.Matches L v ∧
    ∀ t, b.sys.Live t → (v t).sp + (if b.sys.k.currentTask = some t then 4 else 0) =
      (b.sys.k.tcb t).stackBase + (b.sys.k.tcb t).stackSize := by
  have hmap := h.started.mapped hL
  obtain ⟨g, hg⟩ := h.started.inv hL
  obtain ⟨c, rn, u, hcpu, hthread, hpriv, hcur, hrn⟩ := h.first
  have hprep : ∀ t, b.sys.Live t → (b.sys.k.tcb t).Prepared b.cpu.mem := by
    intro t hlive
    have hready := h.started.prepared hL hlive
    have htop := hready.top
    apply hready.congr
    · rfl
    · rfl
    · rfl
    · intro y hlo hhi
      rw [b.oneMemory]
  have hlive := hg.live_current hcur
  obtain ⟨hguard, hstop, hal⟩ := hmap.bounds hL (hmap.onList hlive)
  have htop := (hprep u hlive).top
  have hmain := h.main
  have hbound := h.mainTop
  rw [portStackGuardSize] at hguard
  have hrun := @portStartFirstTask_run c rn hthread hpriv (by rw [hrn]; omega)
    (by rw [hrn]; omega)
  rw [← hcpu, hrn] at hrun
  have hmem : b.cpu.mem = c.mem := by rw [hrun]
  have hpsp : b.cpu.psp = (b.sys.k.tcb u).stackPointer + 60 := by rw [hrun]
  have hregs : b.cpu.regs = (Context.read b.cpu.mem (b.sys.k.tcb u).stackPointer).regs := by
    rw [hmem, hrun, Context.read]
    funext r
    apply fill_covered
    rw [show (15 : Nat) = startRegs.length from rfl, zip_fst]
    left
    cases r with
    | r i => revert i; decide
    | lr => decide
    | pc => decide
  have hsize := hmap.size_ge (hmap.onList hlive)
  have hsound := read_sound (m := b.cpu.mem) (a := (b.sys.k.tcb u).stackPointer) (by omega)
    (by omega)
  have hstart : ∀ t, b.sys.Live t → b.Holds t (if b.sys.k.currentTask = some t then
      ⟨b.cpu.regs, b.cpu.psp⟩ else Context.read b.cpu.mem (b.sys.k.tcb t).stackPointer) := by
    intro t hlive'
    have hnot := h.started.not_svcRet t
    by_cases hnow : b.sys.k.currentTask = some t
    · obtain rfl : u = t := Option.some.inj (hcur.symm.trans hnow)
      rw [if_pos hnow]
      refine ⟨⟨?_, ?_, ?_, ?_⟩, ?_, ?_, fun hret => absurd hret hnot, fun _ => ⟨rfl, rfl⟩,
        fun hoff => absurd hnow hoff⟩
      · intro r
        rw [hregs]
        exact hsound.lt r
      · rw [hregs]
        exact hsound.even
      · simp only [hpsp]
        omega
      · simp only [hpsp]
        omega
      · simp only [hpsp]
        omega
      · simp only [hpsp]
        omega
    · rw [if_neg hnow]
      obtain ⟨hguard', hstop', hal'⟩ := hmap.bounds hL (hmap.onList hlive')
      exact (hprep t hlive').holds hnow hnot (by omega) hal' (by omega)
  refine ⟨fun t => if b.sys.k.currentTask = some t then ⟨b.cpu.regs, b.cpu.psp⟩
    else Context.read b.cpu.mem (b.sys.k.tcb t).stackPointer, ⟨?_, hmain, hbound, ?_, ?_, ?_⟩, ?_⟩
  · rw [hrun]
  · rw [hrun]
    exact hthread
  · rw [hrun]
  · intro t hlive'
    exact hstart t hlive'
  · intro t hlive'
    by_cases hnow : b.sys.k.currentTask = some t
    · obtain rfl : u = t := Option.some.inj (hcur.symm.trans hnow)
      simp only [if_pos hnow, hpsp]
      omega
    · simp only [if_neg hnow]
      exact (hprep t hlive').read_sp

/-- Where a task's own code is, other tasks and handlers do not change. -/
theorem step_stays {s s' : Sys} {l : Label} (h : Inv L s g) (hlive : s.Live t)
    (hnot : ¬ (l.isThread = true ∧ s.k.currentTask = some t)) (hstep : s.step L l = some s') :
    s'.Live t ∧ s'.pc t = s.pc t := by
  rcases step_cases hstep with ⟨_, htick⟩ | ⟨oldSp, k, _, _, hk, rfl⟩ | ⟨u, hpend, hcur, hthr⟩
  · rw [htick]
    constructor
    · exact sysTick_live.mpr hlive
    · rw [(sysTick_frame s).1]
  · obtain ⟨u, hcur, _⟩ := h.running.current
    have hestate := (switch_pointer hcur hk).1
    exact ⟨(@live_of_estate s { s with k := k } t hestate.symm).mpr hlive, rfl⟩
  · have hne : t ≠ u := by
      rintro rfl
      have hth : l.isThread = true := by
        cases l <;> first | rfl | cases hthr
      exact hnot ⟨hth, hcur⟩
    have hc := h.change hcur hpend hthr
    exact ⟨(hc.live h t).1 hlive, hc.pc h hne (h.live hlive)⟩

/-- What holds of a board in tame runs. -/
structure Board.Orderly (L : Layout) (b : Board) (v : Tid → Context) : Prop where
  inv : ∃ g, Inv L b.sys g
  mapped : Mapped L b.sys
  tabled : Tabled b.sys
  matched : b.Matches L v

/-- A tame step is one of the core, and keeps the contexts of the tasks whose step it is not. -/
theorem Board.Orderly.moves (hL : L.heap.Placed) (ho : b.Orderly L v)
    (hmoves : Board.TameMoves P L l b b') : ∃ s' c v', b' = .on s' c ∧ b.Step L l s' c ∧
      b.Tame P L l (.on s' c) ∧ b'.Orderly L v' ∧
      ∀ t, b.sys.Live t → ¬ (l.isThread = true ∧ b.sys.k.currentTask = some t) →
        Kept b.sys b'.sys t (v t) (v' t) := by
  obtain ⟨g, h⟩ := ho.inv
  obtain ⟨htame, hmoves⟩ := hmoves
  cases hmoves with
  | strays s' b' hrun hstrays =>
    exact absurd hstrays (ho.mapped.not_strays h ho.tabled htame.toTame)
  | keeps s' c hstep =>
    rw [htame.toTame.reload] at htame ⊢
    obtain ⟨v', hm', hothers⟩ := ho.matched.step hL h ho.mapped hstep htame
    obtain ⟨g', h', _⟩ := h.step hL hstep.sys
    refine ⟨s', c, v', rfl, hstep, htame, ⟨⟨g', h'.withRam _⟩,
      (ho.mapped.step hL h hstep.sys).withRam _, (ho.tabled.step hstep.sys : Tabled s'), hm'⟩,
      fun t hlive hnot => ?_⟩
    obtain ⟨hlive', hpc⟩ := step_stays h hlive hnot hstep.sys
    rw [hothers t hlive hnot]
    constructor
    · exact hlive'
    · exact hpc
    · rw [answered]
      split <;> rfl
    · intro r hr
      rw [answered]
      split
      · exact answer_of_ne _ _ hr
      · rfl
    · intro hpc
      exact answered_of_gate (Or.inr ((h.placed.task t).gate hpc))

/-- What holds of a board that tame steps have led to from its start. -/
theorem Board.TameReached.orderly (hL : L.heap.Placed) (h : b.TameReached P L) :
    ∃ v, b.Orderly L v := by
  obtain ⟨b₀, hboot, hsteps⟩ := h
  induction hsteps with
  | refl =>
    obtain ⟨v, hm, _⟩ := hboot.matches hL
    exact ⟨v, hboot.started.inv hL, hboot.started.mapped hL, hboot.started.tabled, hm⟩
  | tail _ hlast ih =>
    obtain ⟨v, ho⟩ := ih
    obtain ⟨l, hmoves⟩ := hlast
    obtain ⟨_, _, v', _, _, _, ho', _⟩ := ho.moves hL hmoves
    exact ⟨v', ho'⟩

/-- What a step keeps, a run keeps for the task that takes no step in it. -/
theorem Board.Orderly.aside (hL : L.heap.Placed) (ho : b.Orderly L v) (hlive : b.sys.Live t)
    (hrun : Relation.ReflTransGen (Board.StepAside P L t) b b') :
    ∃ v', b'.Orderly L v' ∧ Kept b.sys b'.sys t (v t) (v' t) := by
  induction hrun with
  | refl => exact ⟨v, ho, hlive, rfl, rfl, fun _ _ => rfl, fun _ => rfl⟩
  | tail _ hlast ih =>
    obtain ⟨v₁, ho₁, hkept⟩ := ih
    obtain ⟨l, hnot, hmoves⟩ := hlast
    obtain ⟨_, _, v', _, _, _, ho', hothers⟩ := ho₁.moves hL hmoves
    exact ⟨v', ho', hkept.trans (hothers t hkept.live hnot)⟩

end Runs

end Crest
