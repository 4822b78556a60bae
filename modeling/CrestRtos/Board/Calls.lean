import CrestRtos.Board.Following

/-!
# What a task finds when it goes on

A task is interrupted, switched out and back in, or waits behind its `svc` for the worker. It
goes on with its own registers, and `port_syscall_invoke` returns the answer.
-/

namespace Crest
open IntrusiveList ByteMemory MachineWord ArmCore Alloc Port Transition

/-- `port_syscall_invoke` up to its `svc`. -/
def portSyscallMoves (c : Cpu) : Cpu := (((c.mov 12 0).mov 0 1).mov 1 2).mov 2 3

section Steps
variable {P : Placement} {L : Layout} {b b' : Board} {s' : Sys} {c : Cpu} {u : Tid} {g : Ghost}
  {v : Tid → Context} {l : Label} {id a0 a1 a2 a3 : Nat}

theorem portSyscallMoves_regs (c : Cpu) : (portSyscallMoves c).regs (.r 12) = c.regs (.r 0) ∧
    (portSyscallMoves c).regs (.r 0) = c.regs (.r 1) ∧
    (portSyscallMoves c).regs (.r 1) = c.regs (.r 2) ∧
    (portSyscallMoves c).regs (.r 2) = c.regs (.r 3) ∧
    (portSyscallMoves c).regs (.r 3) = c.regs (.r 3) ∧
    ∀ r ∈ Reg.lr :: calleeSaved, (portSyscallMoves c).regs r = c.regs r := by
  simp [portSyscallMoves, Cpu.mov, calleeSaved, Function.update]

/-- The gate posts what it finds in the caller's registers. -/
theorem Board.Matches.svc_posts (hL : L.heap.Placed) (h : Inv L b.sys g) (hmap : Mapped L b.sys)
    (hm : b.Matches L v) (hcur : b.sys.k.currentTask = some u) (hl : l = .svc id a0 a1 a2 a3)
    (hstep : b.Step L l s' c) (htame : b.Tame P L l (.on s' c)) :
    c.regs = b.cpu.regs ∧ c.psp = b.cpu.psp ∧ s'.pc u = .svcRet ∧ s'.k.currentTask = some u ∧
      s'.log = .posted ⟨b.cpu.regs (.r 12) % 256, b.cpu.regs (.r 0), b.cpu.regs (.r 1),
        b.cpu.regs (.r 2), b.cpu.regs (.r 3), u⟩ :: b.sys.log := by
  have hlive := h.live_current hcur
  obtain ⟨hsound, _, hmain, _⟩ := hm.room hL hmap hlive hcur
  cases hstep with
  | tick xpsr f d s' hd hrun => cases hl
  | pendSV xpsr f d s' n hd hrun => cases hl
  | back u' s' hcur' hpc hrun => cases hl
  | code l u' s' c hcode =>
    rw [hl] at hcode
    cases hcode
  | svc xpsr f d s' item u' hd hcur' hitem hrun hf hframe hmem =>
    obtain rfl := Option.some.inj (hcur.symm.trans hcur')
    have hframed : frameSize b.cpu.fpca = 32 := by rw [hm.plain]; rfl
    obtain ⟨_, _, hstacked, _⟩ :=
      svcVector_frame xpsr hsound (by omega) hmain hm.mainTop hd
    obtain ⟨h0, h1, h2, h3, h12⟩ := hstacked.args
    rcases step_cases hrun with ⟨hl, _⟩ | ⟨oldSp, k, hl, _⟩ | ⟨u', hpend, hu, hthr⟩
    · cases hl
    · cases hl
    obtain rfl := Option.some.inj (hcur.symm.trans hu)
    obtain ⟨_, hregs, hpsp⟩ := svc_leaves hL h hmap hm hd (htame.frame rfl u hcur) hcur hitem hthr
      hf hframe (hmem.savedKept htame.saved)
    have hnow := (h.change hcur hpend hthr).current.trans hcur
    have hcaller : item.caller = u := by rw [hitem]; rfl
    obtain ⟨_, rfl⟩ := thread_svc hcaller hthr
    refine ⟨hregs, hpsp, ?_, hnow, ?_⟩
    · simp [Sys.setPc, Sys.note]
    · rw [hitem, frameItem, h0, h1, h2, h3, h12]
      rfl

/-- The caller's next step is the `bx lr` behind its `svc`. -/
theorem Board.Matches.back_returns (hm : b.Matches L v) (hcur : b.sys.k.currentTask = some u)
    (hpc : b.sys.pc u = .svcRet) (hl : l = .go) (hstep : b.Step L l s' c) :
    c.regs .pc = andNot (b.cpu.regs .lr) 1 ∧ c.psp = b.cpu.psp ∧
      (∀ r, r ≠ .pc → c.regs r = b.cpu.regs r) ∧
      s'.log = .resumed u b.sys.k.r0 :: b.sys.log := by
  cases hstep with
  | tick xpsr f d s' hd hrun => cases hl
  | pendSV xpsr f d s' n hd hrun => cases hl
  | svc xpsr f d s' item u' hd hcur' hitem hrun => cases hl
  | code l u' s' c hcode hcur' hnot =>
    obtain rfl := Option.some.inj (hcur.symm.trans hcur')
    exact absurd hpc hnot
  | back u' s' hcur' hpc' hrun =>
    obtain rfl := Option.some.inj (hcur.symm.trans hcur')
    rcases step_cases hrun with ⟨hl, _⟩ | ⟨oldSp, k, hl, _⟩ | ⟨u', hpend, hu, hthr⟩
    · cases hl
    · cases hl
    obtain rfl := Option.some.inj (hcur.symm.trans hu)
    obtain rfl : s' = (b.sys.setPc u .app).note [.resumed u b.sys.k.r0] := by
      rw [Sys.thread, Sys.go, hpc] at hthr
      exact (Option.some.inj hthr).symm
    rw [exec_bxLr_thread hm.thread]
    refine ⟨?_, rfl, fun r hr => ?_, rfl⟩
    · simp only [Function.update_self]
    · exact Function.update_of_ne hr _ _

/-- A task on the CPU at both ends of a run that it takes no step of its own in. -/
theorem Board.Orderly.comes_back (hL : L.heap.Placed) (ho : b.Orderly L v)
    (hrun : Relation.ReflTransGen (Board.StepAside P L u) b b')
    (hcur : b.sys.k.currentTask = some u) (hcur' : b'.sys.k.currentTask = some u) :
    (∃ v', b'.Orderly L v') ∧ b'.cpu.psp = b.cpu.psp ∧ b'.sys.pc u = b.sys.pc u ∧
      (∀ r, r ≠ .r 0 → b'.cpu.regs r = b.cpu.regs r) ∧
      (b.sys.pc u ≠ .svcRet → b'.cpu.regs (.r 0) = b.cpu.regs (.r 0)) ∧
      (b.sys.pc u = .svcRet → b'.cpu.regs (.r 0) = wrap b'.sys.k.r0) := by
  obtain ⟨g, h⟩ := ho.inv
  have hlive := h.live_current hcur
  obtain ⟨v', ho', hu⟩ := ho.aside hL hlive hrun
  obtain ⟨hregs, hpsp⟩ := (ho.matched.task u hlive).onCpu hcur
  obtain ⟨hregs', hpsp'⟩ := (ho'.matched.task u hu.live).onCpu hcur'
  refine ⟨⟨v', ho'⟩, ?_, hu.pc, fun r hr => ?_, fun hpc => ?_, fun hpc => ?_⟩
  · rw [hpsp', hpsp, hu.sp]
  · rw [hregs', hregs, hu.regs r hr]
  · rw [hregs', hregs, hu.same hpc]
  · rw [hregs', (ho'.matched.task u hu.live).reply (hu.pc.trans hpc), reply_current hcur']

end Steps

/-! ## The small system on its core -/

/-- Where the stack pointers of the four tasks are at first. -/
def boardTops (t : Tid) : Nat :=
  if t = 0 then 0x200053FC
  else if t = 1 then 0x20005A00
  else if t = 2 then 0x20005E00
  else if t = 3 then 0x20006400
  else 0

/-- Task 1 comes to run, and gives its privilege up. -/
def beforeCall : List Label :=
  [.pendSV (savedBelow (boardTops 0)), .go, .go, .go, .go, .pendSV (savedBelow (boardTops 0)),
    .call .setUnprivileged]

/-- The worker takes an item that is none of its own, and sleeps again. -/
def behindCall : List Label :=
  [.pendSV (savedBelow (boardTops 1)), .go, .go, .go, .go, .pendSV (savedBelow (boardTops 0)),
    .go, .go, .go, .pendSV (savedBelow (boardTops 0))]

/-- The arguments of the call, and zeros. -/
def callRegs (r : Reg) : Nat :=
  if r = .r 0 then 99 else if r = .r 1 then 5 else if r = .r 2 then 6 else if r = .r 3 then 7
  else 0

def callCpu : Cpu := ⟨callRegs, 0, 0, false, false, false, false, false, fun _ => 0⟩

section Small
variable {P : Placement}

theorem boardBoots : ∃ (b₀ : Board) (s₀ : Sys), boardRun [] = some s₀ ∧ b₀.Boots boardLayout ∧
    b₀.Stands boardLayout s₀ boardTops := by
  obtain ⟨s₀, hrun, ⟨hcur, hsp, htops⟩, _⟩ := boardRun_comes []
    (P := fun s => s.k.currentTask = some 0 ∧ (s.k.tcb 0).stackPointer = 0x200053C0 ∧
      ∀ t : Fin 8, boardTops t + (if t = 0 then 4 else 0) =
        (s.k.tcb t).stackBase + (s.k.tcb t).stackSize) (by decide +kernel) fun _ hs => hs
  obtain ⟨s₁, hfirst, hstarted, _⟩ := boardRun_started hrun
  obtain rfl := Option.some.inj (hrun.symm.trans hfirst)
  obtain ⟨c, hthread, hpriv, hmsp, hmem, hr0⟩ : ∃ c : Cpu, c.handler = false ∧ c.nPriv = false ∧
      c.msp = 0x20020000 ∧ c.mem = s₀.k.ram ∧ c.regs (.r 0) = (s₀.k.tcb 0).stackPointer :=
    ⟨⟨fun _ => (s₀.k.tcb 0).stackPointer, 0x20020000, 0, false, false, false, false, true,
      s₀.k.ram⟩, rfl, rfl, rfl, rfl, rfl⟩
  have hstart := @portStartFirstTask_run c 0 hthread hpriv (by rw [hr0, hsp])
    (by rw [hr0, hsp]; decide)
  have hcpu : (execAll c (portStartFirstTask 0)).msp = 0x20020000 ∧
      (execAll c (portStartFirstTask 0)).mem = s₀.k.ram := by
    rw [hstart]
    exact ⟨hmsp, hmem⟩
  let b₀ : Board := ⟨s₀, execAll c (portStartFirstTask 0), hcpu.2⟩
  have hboots : b₀.Boots boardLayout := by
    constructor
    · exact hstarted
    · rw [hcpu.1]
      decide
    · rw [hcpu.1]
      decide
    · exact ⟨c, 0, 0, rfl, hthread, hpriv, hcur, hr0⟩
  obtain ⟨v, hm, hsps⟩ := hboots.matches boardLayout_placed
  refine ⟨b₀, s₀, hrun, hboots, ?_, v, ⟨hstarted.inv boardLayout_placed,
    hstarted.mapped boardLayout_placed, hstarted.tabled, hm⟩, fun t hlive => ?_⟩
  · rw [b₀.oneMemory]
    rfl
  · have hsum := (hsps t hlive).trans (htops t).symm
    change (v t).sp + (if s₀.k.currentTask = some t then 4 else 0) = _ at hsum
    rw [hcur] at hsum
    by_cases ht : t = 0
    · subst ht
      exact Nat.add_right_cancel hsum
    · rw [if_neg (fun heq => ht (Option.some.inj heq).symm), if_neg ht] at hsum
      exact hsum

/-- The system's run goes on from the state it has come to. -/
theorem boardRun_of_run {before more : List Label} {s s' : Sys} (h : boardRun before = some s)
    (hrun : run (Sys.step boardLayout) s more = some s') : boardRun (before ++ more) = some s' := by
  obtain ⟨s₀, hstart, hbefore⟩ := Option.bind_eq_some_iff.mp h
  exact Option.bind_eq_some_iff.mpr ⟨s₀, hstart, run_append.mpr ⟨s, hbefore, hrun⟩⟩

theorem boardRun_has {labels : List Label} {s : Sys} {Q : Sys → Prop} [DecidablePred Q]
    (hs : boardRun labels = some s)
    (h : (boardRun labels).any (fun s => decide (Q s)) = true) : Q s := by
  rw [hs] at h
  exact of_decide_eq_true h

/-- A run of the small system that its board can follow. -/
theorem boardFollows (P : Placement) {before more : List Label} {b : Board} {s : Sys}
    (hs : boardRun before = some s) (hst : b.Stands boardLayout s boardTops)
    (hl : (boardRun before).any (fun s => s.mayFollowAll boardLayout boardTops more) = true) :
    ∃ b' s', b'.Stands boardLayout s' boardTops ∧ boardRun (before ++ more) = some s' ∧
      Relation.ReflTransGen (Board.TameStep P boardLayout) b b' ∧
      ∀ u, ownSteps boardLayout u s more = 0 →
        Relation.ReflTransGen (Board.StepAside P boardLayout u) b b' := by
  rw [hs] at hl
  obtain ⟨b', s', hrun, hst', hsteps, haside⟩ := hst.follow_run P boardLayout_placed hl
  exact ⟨b', s', hst', boardRun_of_run hs hrun, hsteps, haside⟩

/-- Task 1 on the CPU, at the `svc` of a call. -/
theorem boardAsks (P : Placement) : ∃ (b : Board) (s : Sys) (c : Cpu),
    b.TameReached P boardLayout ∧ b.Stands boardLayout s boardTops ∧
    b.cpu = portSyscallMoves c ∧ c.regs = callRegs ∧
    boardRun (beforeCall ++ [.compute 5 fun _ => 0]) = some s := by
  obtain ⟨b₀, s₀, hs₀, hboots, hst₀⟩ := boardBoots
  obtain ⟨b, s, hst, hs, hsteps, _⟩ := @boardFollows P _ beforeCall _ _ hs₀ hst₀
    (by decide +kernel)
  obtain ⟨s', hs', hstep, _⟩ := boardRun_snoc (l := .compute 5 fun _ => 0)
    (P := fun s => s.k.currentTask = some 1) hs (by decide +kernel)
  have hrun : b.sys.step boardLayout (.compute 5 b.cpu.mem) = some (s'.withRam b.cpu.mem) := by
    rw [hst.runs, compute_withRam 5 (fun _ => 0), hstep]
    rfl
  have hcur₀ : s.k.currentTask = some 1 := boardRun_has
    (Q := fun s => s.k.currentTask = some 1) hs (by decide +kernel)
  have hcur : b.sys.k.currentTask = some 1 := by
    rw [hst.runs]
    exact hcur₀
  have hpc := step_app hcur rfl (fun heq => by cases heq) hrun
  have hnew : ∀ t alloc args, b.sys.pc 1 ≠ .spawnAdd t alloc args := by
    intro t alloc args heq
    rw [hpc] at heq
    cases heq
  obtain ⟨v, ho, _⟩ := hst.good
  obtain ⟨g, h⟩ := ho.inv
  have hm := ho.matched
  obtain ⟨hsound, _⟩ := hm.room boardLayout_placed ho.mapped (h.live_current hcur) hcur
  have hregs : Sound (portSyscallMoves callCpu).regs b.cpu.psp := by
    constructor
    · intro r
      cases r with
      | r i => revert i; decide
      | lr => decide
      | pc => decide
    · decide
    · exact hsound.aligned
    · exact hsound.top
  have hnone : ∀ c x, ¬ b.sys.Stored (.compute 5 b.cpu.mem) c x := by
    rintro c x ⟨_, hother⟩
    exact hother (congrFun b.oneMemory x)
  obtain ⟨_, hthread, _, hborn⟩ := h.no_births hcur rfl hnew hrun
  rw [Sys.thread, if_pos hpc] at hthread
  have htcb : (s'.withRam b.cpu.mem).k.tcb = b.sys.k.tcb := by
    rw [← Option.some.inj hthread]
  have hsame : ∀ t, answerStore b.sys (s'.withRam b.cpu.mem) t b.cpu.mem = b.cpu.mem := by
    intro t
    apply answerStore_of_gate
    rw [htcb]
    left
    rfl
  have hcode : b.Step boardLayout (.compute 5 b.cpu.mem) (s'.withRam b.cpu.mem)
      { b.cpu with regs := (portSyscallMoves callCpu).regs } := by
    refine .code _ 1 _ _ rfl hcur (by rw [hpc]; simp) hrun ⟨hm.thread, hm.process, rfl, hregs,
      ⟨fun x t _ _ => (congrFun (hsame t) x).symm, fun t hold hnew => absurd (hborn t hnew) hold⟩,
      fun r0 ram heq => ?_⟩
    obtain ⟨rfl, rfl⟩ := Label.compute.inj heq
    exact ⟨rfl, rfl⟩
  have htame := hm.tame_code (P := P) (c := { b.cpu with regs := (portSyscallMoves callCpu).regs })
    boardLayout_placed h ho.mapped ⟨fun c x hc => absurd hc (hnone c x), fun hgo => by cases hgo⟩
    hnone hcur rfl hrun rfl hm.plain
  refine ⟨_, s', { b.cpu with regs := callRegs },
    ⟨b₀, hboots, hsteps.tail ⟨_, htame.moves hcode⟩⟩,
    hst.step boardLayout_placed hcode htame hborn fun _ => rfl, rfl, rfl, hs'⟩

/-- The call of task 1, from its `svc` to the step behind it. -/
theorem boardCalls (P : Placement) : ∃ (b b₁ b₂ b₃ : Board) (c : Cpu),
    b.TameReached P boardLayout ∧ b.cpu = portSyscallMoves c ∧ c.regs = callRegs ∧
    b.sys.k.currentTask = some 1 ∧ Board.TameMoves P boardLayout (.svc 99 5 6 7 7) b b₁ ∧
    b₁.sys.k.currentTask = some 1 ∧ b₁.sys.pc 1 = .svcRet ∧
    Relation.ReflTransGen (Board.StepAside P boardLayout 1) b₁ b₂ ∧
    b₂.sys.k.currentTask = some 1 ∧ b₂.sys.k.r0 = minusOne ∧
    Board.TameMoves P boardLayout .go b₂ b₃ := by
  obtain ⟨b, s, c, hreached, hst, hcpu, hc, hs⟩ := boardAsks P
  have hcur₀ : s.k.currentTask = some 1 := boardRun_has
    (Q := fun s => s.k.currentTask = some 1) hs (by decide +kernel)
  have hcur : b.sys.k.currentTask = some 1 := by
    rw [hst.runs]
    exact hcur₀
  obtain ⟨s₁, hs₁, hstep, hcur₁, hpc₁⟩ := boardRun_snoc (l := .svc 99 5 6 7 7)
    (P := fun s => s.k.currentTask = some 1 ∧ s.pc 1 = .svcRet) hs (by decide +kernel)
  obtain ⟨v, ho, htops⟩ := hst.good
  obtain ⟨g, h⟩ := ho.inv
  have hm := ho.matched
  have hlive := h.live_current hcur
  have hbase₀ : (s.k.tcb 1).stackBase + 36 ≤ boardTops 1 := boardRun_has
    (Q := fun s => (s.k.tcb 1).stackBase + 36 ≤ boardTops 1) hs (by decide +kernel)
  have hroom : (b.sys.k.tcb 1).stackBase + 36 ≤ b.cpu.psp := by
    rw [((hm.task 1 hlive).onCpu hcur).2, htops 1 hlive, hst.runs]
    exact hbase₀
  obtain ⟨h12, h0, h1, h2, h3, _⟩ := portSyscallMoves_regs c
  rw [← hcpu, hc] at h12 h0 h1 h2 h3
  have hlabel : Cpu.svcLabel b.cpu = .svc 99 5 6 7 7 := by
    rw [Cpu.svcLabel, h12, h0, h1, h2, h3]
    rfl
  have hrun := hst.runs_step (svc_withRam _ _ _ _ _ _) hstep
  rw [← hlabel] at hrun
  obtain ⟨cpu₁, hsvc, htame⟩ :=
    hm.follow_svc (P := P) boardLayout_placed h ho.mapped hcur hroom hrun
  rw [hlabel] at hsvc htame hrun
  have happ := step_app hcur rfl (fun heq => by cases heq) hrun
  obtain ⟨_, _, _, hborn⟩ := h.no_births hcur rfl
    (fun t alloc args heq => by rw [happ] at heq; cases heq) hrun
  have hst₁ := hst.step boardLayout_placed hsvc htame hborn
    fun _ => (hm.svc_posts boardLayout_placed h ho.mapped hcur rfl hsvc htame).2.1
  obtain ⟨b₂, s₂, hst₂, hs₂, _, haside⟩ := @boardFollows P _ behindCall _ _ hs₁ hst₁
    (by decide +kernel)
  have hown : ownSteps boardLayout 1 s₁ behindCall = 0 := boardRun_has
    (Q := fun s => ownSteps boardLayout 1 s behindCall = 0) hs₁ (by decide +kernel)
  have hend : s₂.k.currentTask = some 1 ∧ s₂.k.r0 = minusOne := boardRun_has
    (Q := fun s => s.k.currentTask = some 1 ∧ s.k.r0 = minusOne) hs₂ (by decide +kernel)
  obtain ⟨s₃, _, hlast, _⟩ := boardRun_snoc (l := .go) (P := fun s => s.pc 1 = .app) hs₂
    (by decide +kernel)
  obtain ⟨b₃, hgo, _⟩ := hst₂.follow P boardLayout_placed
    (boardRun_has (Q := fun s => s.mayFollow boardTops .go = true) hs₂ (by decide +kernel)) hlast
  refine ⟨b, _, b₂, b₃, c, hreached, hcpu, hc, hcur, htame.moves hsvc, hcur₁, hpc₁,
    haside 1 hown, ?_, ?_, hgo⟩
  · rw [hst₂.runs]
    exact hend.1
  · rw [hst₂.runs]
    exact hend.2

end Small

section Calls
variable {P : Placement} {L : Layout} {b b' b₁ b₂ b₃ : Board} {u : Tid} {id a0 a1 a2 a3 : Nat}

/-- A task that is on the CPU again, without a step of its own in between, finds its stack
pointer and all its registers as it has left them, whatever interrupts, switches, new tasks
and other tasks' code have been in between, so long as all steps are tame. Only R0 of a task
that has made a syscall may have changed, and then it is the answer. -/
theorem registers_kept (hL : L.heap.Placed) (h : b.TameReached P L)
    (hrun : Relation.ReflTransGen (Board.StepAside P L u) b b')
    (hcur : b.sys.k.currentTask = some u) (hcur' : b'.sys.k.currentTask = some u) :
    b'.cpu.psp = b.cpu.psp ∧ b'.sys.pc u = b.sys.pc u ∧
      (∀ r, r ≠ .r 0 → b'.cpu.regs r = b.cpu.regs r) ∧
      (b.sys.pc u ≠ .svcRet → b'.cpu.regs (.r 0) = b.cpu.regs (.r 0)) ∧
      (b.sys.pc u = .svcRet → b'.cpu.regs (.r 0) = wrap b'.sys.k.r0) := by
  obtain ⟨v, ho⟩ := h.orderly hL
  exact (ho.comes_back hL hrun hcur hcur').2

theorem registers_kept_board : ∃ b₁ b₂ : Board, b₁.sys.pc 1 = .svcRet ∧
    Relation.ReflTransGen (Board.StepAside boardPlacement boardLayout 1) b₁ b₂ ∧
    b₂.cpu.psp = b₁.cpu.psp ∧ (∀ r, r ≠ .r 0 → b₂.cpu.regs r = b₁.cpu.regs r) ∧
    b₂.cpu.regs (.r 0) = minusOne := by
  obtain ⟨b, b₁, b₂, b₃, c, hreached, _, _, _, hsvc, hcur₁, hpc₁, hrun, hcur₂, hr0, _⟩ :=
    boardCalls boardPlacement
  obtain ⟨b₀, hboots, hsteps⟩ := hreached
  obtain ⟨hpsp, _, hregs, _, hanswer⟩ := registers_kept boardLayout_placed
    ⟨b₀, hboots, hsteps.tail ⟨_, hsvc⟩⟩ hrun hcur₁ hcur₂
  refine ⟨b₁, b₂, hpc₁, hrun, hpsp, hregs, ?_⟩
  rw [hanswer hpc₁, hr0]
  rfl

/-- `port_syscall_invoke`, from its first instruction to its return, with whatever tame steps come
between the gate and the `bx lr`. The worker is given the low byte of the id and the first three
arguments, with the third one in place of the fourth too, which is on the stack. The caller comes
back behind its call with its callee-saved registers and its stack, and with the answer in R0. -/
theorem syscall_abi {c : Cpu} (hL : L.heap.Placed) (h : b.TameReached P L)
    (hcur : b.sys.k.currentTask = some u) (hinvoke : b.cpu = portSyscallMoves c)
    (hsvc : Board.TameMoves P L (.svc id a0 a1 a2 a3) b b₁)
    (hrun : Relation.ReflTransGen (Board.StepAside P L u) b₁ b₂)
    (hcur₂ : b₂.sys.k.currentTask = some u) (hgo : Board.TameMoves P L .go b₂ b₃) :
    b₁.sys.log = .posted ⟨c.regs (.r 0) % 256, c.regs (.r 1), c.regs (.r 2), c.regs (.r 3),
      c.regs (.r 3), u⟩ :: b.sys.log ∧
    b₃.cpu.regs .pc = andNot (c.regs .lr) 1 ∧ b₃.cpu.psp = c.psp ∧
    (∀ r ∈ Reg.lr :: calleeSaved, b₃.cpu.regs r = c.regs r) ∧
    ∃ v, b₃.sys.log = .resumed u v :: b₂.sys.log ∧ b₃.cpu.regs (.r 0) = wrap v := by
  obtain ⟨v, ho⟩ := h.orderly hL
  obtain ⟨g, hg⟩ := ho.inv
  obtain ⟨s₁, c₁, v₁, rfl, hstep, htame, ho₁, _⟩ := ho.moves hL hsvc
  obtain ⟨hregs, hpsp, hret, hcur₁, hlog⟩ :=
    ho.matched.svc_posts hL hg ho.mapped hcur rfl hstep htame
  obtain ⟨⟨v₂, ho₂⟩, hpsp₂, hpc₂, hregs₂, _, hanswer⟩ := ho₁.comes_back hL hrun hcur₁ hcur₂
  obtain ⟨h12, h0, h1, h2, h3, hsaved⟩ := portSyscallMoves_regs c
  have hsame : ∀ r, r ≠ .r 0 → b₂.cpu.regs r = (portSyscallMoves c).regs r := by
    intro r hr
    rw [hregs₂ r hr, ← hinvoke, ← hregs]
    rfl
  rw [hinvoke, h12, h0, h1, h2, h3] at hlog
  obtain ⟨s₃, c₃, v₃, rfl, hback, _⟩ := ho₂.moves hL hgo
  obtain ⟨hpc₃, hpsp₃, hothers₃, hlog₃⟩ :=
    ho₂.matched.back_returns hcur₂ (hpc₂.trans hret) rfl hback
  refine ⟨hlog, ?_, ?_, fun r hr => ?_, _, hlog₃, ?_⟩
  · change c₃.regs .pc = _
    rw [hpc₃, hsame .lr (by decide), hsaved .lr (by decide)]
  · change c₃.psp = _
    rw [hpsp₃, hpsp₂]
    exact hpsp.trans (by rw [hinvoke]; rfl)
  · have hne : r ≠ .pc ∧ r ≠ .r 0 := by
      constructor
      · rintro rfl
        exact absurd hr (by decide)
      · rintro rfl
        exact absurd hr (by decide)
    change c₃.regs r = _
    rw [hothers₃ r hne.1, hsame r hne.2, hsaved r hr]
  · change c₃.regs (.r 0) = _
    rw [hothers₃ (.r 0) (by decide)]
    exact hanswer hret

theorem syscall_abi_board : ∃ (b b₁ b₂ b₃ : Board) (c : Cpu), c.regs = callRegs ∧
    Board.TameMoves boardPlacement boardLayout (.svc 99 5 6 7 7) b b₁ ∧
    Board.TameMoves boardPlacement boardLayout .go b₂ b₃ ∧
    b₁.sys.log = .posted ⟨99, 5, 6, 7, 7, 1⟩ :: b.sys.log ∧ b₃.cpu.psp = c.psp ∧
    ∃ v, b₃.sys.log = .resumed 1 v :: b₂.sys.log ∧ b₃.cpu.regs (.r 0) = wrap v := by
  obtain ⟨b, b₁, b₂, b₃, c, hreached, hcpu, hc, hcur, hsvc, _, _, hrun, hcur₂, _, hgo⟩ :=
    boardCalls boardPlacement
  obtain ⟨hposted, _, hpsp, _, hanswer⟩ := syscall_abi boardLayout_placed hreached hcur hcpu hsvc
    hrun hcur₂ hgo
  rw [hc] at hposted
  exact ⟨b, b₁, b₂, b₃, c, hc, hsvc, hgo, hposted, hpsp, hanswer⟩

end Calls

end Crest
