import CrestRtos.Board.Registers

/-!
# The board follows the system

For a step of the system there is one of the board, with any registers for the task whose
code runs. The kernel's code then stores what it has to and nothing else, so the step is a
tame one.
-/

namespace Crest
open IntrusiveList ByteMemory MachineWord ArmCore Alloc Port Transition

/-- What `stmdb` stores below the frame is behind this address. -/
def savedBelow (psp : Nat) : Nat := psp - 64 - psp % 8

section Following
variable {P : Placement} {L : Layout} {b : Board} {s' : Sys} {c : Cpu} {g : Ghost} {t u : Tid}
  {l : Label} {v : Tid → Context} {regs : Reg → Nat}

theorem Board.Matches.saves_unique (hL : L.heap.Placed) (hmap : Mapped L b.sys)
    (hm : b.Matches L v) {x : Nat} (h : b.sys.Saves x t) (h' : b.sys.Saves x u) : t = u := by
  obtain ⟨hlive, hoff, hlo, hhi⟩ := h
  obtain ⟨hlive', hoff', hlo', hhi'⟩ := h'
  by_contra hne
  have hout := ((hm.task t hlive).apart hL hmap hoff hlive hlive' hne hlo hhi).2
  have hin := (hm.task u hlive').inside hL hmap hoff' hlive' hlo' hhi'
  omega

/-- Stores that answer all the syscalls that a step answers. -/
theorem Board.Matches.stores_exist (hL : L.heap.Placed) (hmap : Mapped L b.sys)
    (hm : b.Matches L v) (hborn : ∀ t, s'.Live t → b.sys.Live t) (m : Memory) :
    ∃ m', SavedKept b.sys s' m m' ∧ ∀ x, (∀ t, ¬ b.sys.Saves x t) → m' x = m x := by
  classical
  refine ⟨fun x => if h : ∃ t, b.sys.Saves x t then answerStore b.sys s' h.choose m x else m x,
    ⟨?_, ?_⟩, ?_⟩
  · intro x t hsaves
    have hex : ∃ t, b.sys.Saves x t := ⟨t, hsaves⟩
    simp only [dif_pos hex]
    rw [hm.saves_unique hL hmap hex.choose_spec hsaves]
  · intro t hold hnew
    exact absurd (hborn t hnew) hold
  · intro x hnone
    have hnot : ¬ ∃ t, b.sys.Saves x t := by
      rintro ⟨t, ht⟩
      exact hnone t ht
    simp only [dif_neg hnot]

theorem Board.Matches.saves_below (hL : L.heap.Placed) (hmap : Mapped L b.sys)
    (hm : b.Matches L v) {x : Nat} (h : b.sys.Saves x t) : x < L.heap.stop := by
  obtain ⟨hlive, hoff, hlo, hhi⟩ := h
  have hin := (hm.task t hlive).inside hL hmap hoff hlive hlo hhi
  obtain ⟨_, hstop, _⟩ := hmap.bounds hL (hmap.onList hlive)
  omega

/-- On the stack of the task that is on the CPU no registers are saved. -/
theorem Board.Matches.not_saves (hL : L.heap.Placed) (hmap : Mapped L b.sys)
    (hm : b.Matches L v) (hlive : b.sys.Live u) (hcur : b.sys.k.currentTask = some u) {x : Nat}
    (hlo : (b.sys.k.tcb u).stackBase ≤ x)
    (hhi : x < (b.sys.k.tcb u).stackBase + (b.sys.k.tcb u).stackSize) (t : Tid) :
    ¬ b.sys.Saves x t := by
  rintro ⟨hlive', hoff, hlo', hhi'⟩
  have hne : t ≠ u := by
    rintro rfl
    exact hoff hcur
  have hout := ((hm.task t hlive').apart hL hmap hoff hlive' hlive hne hlo' hhi').2
  obtain ⟨hguard, _, _⟩ := hmap.bounds hL (hmap.onList hlive)
  omega

/-- A thread step that creates no task. -/
theorem Inv.no_births {s : Sys} (h : Inv L s g) (hcur : s.k.currentTask = some u)
    (hth : l.isThread = true) (hnew : ∀ t alloc args, s.pc u ≠ .spawnAdd t alloc args)
    (hstep : s.step L l = some s') : s.k.pendsv = false ∧ s.thread L u l = some s' ∧
      Change s g u s' ∧ ∀ t, s'.Live t → s.Live t := by
  rcases step_cases hstep with ⟨rfl, _⟩ | ⟨oldSp, k, rfl, _⟩ | ⟨u', hpend, hu, hthr⟩
  · cases hth
  · cases hth
  obtain rfl := Option.some.inj (hcur.symm.trans hu)
  have hc := h.change hcur hpend hthr
  refine ⟨hpend, hthr, hc, fun t hlive => ?_⟩
  rcases (hc.live h t).2 hlive with hold | ⟨alloc, args, hspawn, _⟩
  · exact hold
  · exact absurd hspawn (hnew t alloc args)

/-- A task's own code makes system calls of both kinds. -/
theorem step_app {s : Sys} (hcur : s.k.currentTask = some u) (hth : l.isThread = true)
    (hgo : l ≠ .go) (hstep : s.step L l = some s') : s.pc u = .app :=
  (own_step hth hcur hstep).resolve_right fun h => hgo h.1

theorem Label.isCode_thread (hl : l.isCode = true) : l.isThread = true := by
  cases l <;> first | rfl | cases hl

/-- Steps of code that store nothing for a client and leave the stack pointer where it is. -/
theorem Board.Matches.tame_code (hL : L.heap.Placed) (h : Inv L b.sys g) (hmap : Mapped L b.sys)
    (hm : b.Matches L v) (htame : b.sys.Tame P L l) (hnone : ∀ c x, ¬ b.sys.Stored l c x)
    (hcur : b.sys.k.currentTask = some u) (hl : l.isCode = true)
    (hstep : b.sys.step L l = some s') (hpsp : c.psp = b.cpu.psp) (hplain : c.fpca = false) :
    b.Tame P L l (.on s' c) := by
  have hlive := h.live_current hcur
  obtain ⟨_, _, _, hlow, hhigh⟩ := hm.room hL hmap hlive hcur
  refine ⟨htame, fun c x _ hc => absurd hc (hnone c x), fun hno => ?_, fun _ u' hcur' => ?_,
    fun _ => hplain⟩
  · rw [hl] at hno
    cases hno
  · rcases step_cases hstep with ⟨rfl, _⟩ | ⟨oldSp, k, rfl, _⟩ | ⟨w, hpend, hw, hthr⟩
    · cases hl
    · cases hl
    obtain rfl := Option.some.inj (hcur.symm.trans hw)
    have hc := h.change hcur hpend hthr
    obtain rfl : u = u' := Option.some.inj ((hc.current.trans hcur).symm.trans hcur')
    obtain ⟨_, hbase, hsize, _⟩ := lasting_fields (hc.steady h hlive).1.lasting
    change (s'.k.tcb u).stackBase ≤ c.psp ∧
      c.psp ≤ (s'.k.tcb u).stackBase + (s'.k.tcb u).stackSize
    rw [hbase, hsize, hpsp]
    exact ⟨hlow, hhigh⟩

theorem Board.Matches.follow_code (hL : L.heap.Placed) (h : Inv L b.sys g)
    (hmap : Mapped L b.sys) (hm : b.Matches L v) (hcur : b.sys.k.currentTask = some u)
    (hpc : b.sys.pc u ≠ .svcRet) (hnew : ∀ t alloc args, b.sys.pc u ≠ .spawnAdd t alloc args)
    (hl : l.isCode = true) (hstep : b.sys.step L l = some s') (hsound : Sound regs b.cpu.psp)
    (hnot : ∀ r0 ram, l ≠ .compute r0 ram) :
    ∃ m, b.Step L l s' { b.cpu with regs := regs, mem := m } := by
  obtain ⟨_, _, _, hborn⟩ := h.no_births hcur (Label.isCode_thread hl) hnew hstep
  obtain ⟨m, hstores, _⟩ := hm.stores_exist hL hmap hborn b.cpu.mem
  refine ⟨m, .code l u s' _ hl hcur hpc hstep ⟨hm.thread, hm.process, rfl, hsound,
    ⟨fun x t hx _ => hstores.saved x t hx, hstores.born⟩, fun r0 ram heq => ?_⟩⟩
  exact absurd heq (hnot r0 ram)

theorem Board.Matches.follow_switch (hL : L.heap.Placed) (h : Inv L b.sys g)
    (hmap : Mapped L b.sys) (hm : b.Matches L v)
    (hstep : b.sys.step L (.pendSV (savedBelow b.cpu.psp)) = some s') :
    ∃ c, b.Step L (.pendSV (savedBelow b.cpu.psp)) s' c ∧
      b.Tame P L (.pendSV (savedBelow b.cpu.psp)) (.on s' c) := by
  obtain ⟨u, hcur, _⟩ := h.running.current
  have hlive := h.live_current hcur
  obtain ⟨hsound, hroom, hmain, _, _⟩ := hm.room hL hmap hlive hcur
  obtain ⟨k, hk, rfl⟩ : ∃ k, portSwitchContext L b.sys.k (savedBelow b.cpu.psp) = some k ∧
      s' = { b.sys with k := k } := by
    rcases step_cases hstep with ⟨hl, _⟩ | ⟨oldSp, k, hl, _, hk, rfl⟩ | ⟨u, _, _, hthr⟩
    · cases hl
    · obtain rfl : savedBelow b.cpu.psp = oldSp := Label.pendSV.inj hl
      exact ⟨k, hk, rfl⟩
    · cases hthr
  obtain ⟨n, hsw⟩ := h.switched hk
  let f : Cpu → Cpu := fun d =>
    { d with regs := Function.update d.regs (.r 0) (k.tcb n).stackPointer }
  obtain ⟨d, hd, _, hmod, _, _, hsaved, _⟩ :=
    save_suspended f 0 hm.plain hsound hroom hmain hm.mainTop
  have hpoint : d.regs (.r 0) = savedBelow b.cpu.psp := by
    have hbelow := hsaved.below
    have hal := hsound.aligned
    simp only at hbelow
    rw [savedBelow]
    omega
  have hframed : frameSize b.cpu.fpca = 32 := by rw [hm.plain]; rfl
  obtain ⟨_, hpsp⟩ := exceptionEntry_psp 0 hsound (by omega)
  have hbase := (switch_pointer hcur hk).2.1
  refine ⟨execAll (b.cpu.exceptionEntry 0) (pendSVHandler f), ?_, tame_of_still rfl,
    fun _ _ _ hno => hno.elim, fun _ w hw => ?_, (fun hno => by cases hno),
    (fun hno => by cases hno)⟩
  · rw [← hpoint] at hstep ⊢
    refine .pendSV 0 f d _ n hd hstep hsw.current ⟨rfl, rfl, fun _ _ _ => rfl, ?_,
      fun _ _ _ _ _ => rfl⟩
    simp only [f, Function.update_self]
  · obtain rfl := Option.some.inj (hcur.symm.trans hw)
    rw [savedBelow] at hbase
    split at hpsp <;> omega

/-- The call from a core with such registers. -/
def Cpu.svcLabel (c : Cpu) : Label :=
  .svc (c.regs (.r 12) % 256) (c.regs (.r 0)) (c.regs (.r 1)) (c.regs (.r 2)) (c.regs (.r 3))

theorem Board.Matches.follow_svc (hL : L.heap.Placed) (h : Inv L b.sys g)
    (hmap : Mapped L b.sys) (hm : b.Matches L v) (hcur : b.sys.k.currentTask = some u)
    (hroom : (b.sys.k.tcb u).stackBase + 36 ≤ b.cpu.psp)
    (hstep : b.sys.step L (Cpu.svcLabel b.cpu) = some s') :
    ∃ c, b.Step L (Cpu.svcLabel b.cpu) s' c ∧ b.Tame P L (Cpu.svcLabel b.cpu) (.on s' c) := by
  have hlive := h.live_current hcur
  obtain ⟨hsound, _, hmain, hlow, hhigh⟩ := hm.room hL hmap hlive hcur
  have hframed : frameSize b.cpu.fpca = 32 := by rw [hm.plain]; rfl
  obtain ⟨_, hpsp⟩ := exceptionEntry_psp 0 hsound (by omega)
  have hfree := kwork_room h.coded.head h.coded.tail h.placed.once
  obtain ⟨_, hstop, _⟩ := hmap.bounds hL (hmap.onList hlive)
  have hheap := hm.main
  have happ := step_app hcur rfl (fun heq => by cases heq) hstep
  obtain ⟨_, _, _, hborn⟩ := h.no_births hcur rfl
    (fun t alloc args heq => by rw [happ] at heq; cases heq) hstep
  obtain ⟨d, hd⟩ : ∃ d, ∀ f, execAll (b.cpu.exceptionEntry 0) ((svcVector f).take 2) = d :=
    ⟨_, fun f => svcVector_begin f 0 (by omega) hm.mainTop⟩
  obtain ⟨hdsp, hdmsp, hframe, _⟩ :=
    svcVector_frame 0 hsound (by omega) hmain hm.mainTop (hd id)
  obtain ⟨m', hstores, hsame⟩ := hm.stores_exist hL hmap hborn d.mem
  obtain ⟨h0, h1, h2, h3, h12⟩ := hframe.args
  have hlabel : (frameItem d.mem d.psp u).label = Cpu.svcLabel b.cpu := by
    rw [WorkItem.label, Cpu.svcLabel]
    simp only [frameItem, h0, h1, h2, h3, h12]
  have hstart : (b.sys.k.tcb u).stackBase ≤ (b.cpu.exceptionEntry 0).psp := by
    split at hpsp <;> omega
  refine ⟨execAll (b.cpu.exceptionEntry 0) (svcVector fun d => { d with mem := m' }), ?_,
    tame_of_still rfl, fun _ _ _ hno => hno.elim, fun _ w hw => ?_, (fun hno => by cases hno),
    (fun hno => by cases hno)⟩
  · rw [← hlabel] at hstep ⊢
    refine .svc 0 (fun d => { d with mem := m' }) d s' (frameItem d.mem d.psp u) u (hd _) hcur rfl
      hstep ⟨rfl, rfl, rfl, fun _ _ => rfl, ?_⟩ ?_
      ⟨fun x t hx _ => hstores.saved x t hx, hstores.born⟩
    · intro x hlo _
      apply hsame
      intro t ht
      have hbelow := hm.saves_below hL hmap ht
      omega
    · intro x hlo hhi
      rw [gateStore, kworkPush_room _ hfree]
      refine hsame x (hm.not_saves hL hmap hlive hcur ?_ ?_)
      · rw [hdsp] at hlo
        omega
      · split at hpsp <;> omega
  · obtain rfl := Option.some.inj (hcur.symm.trans hw)
    exact hstart

end Following

/-- A board in good order that runs `s`, with the tasks' stack pointers where they are. -/
structure Board.Stands (L : Layout) (b : Board) (s : Sys) (tops : Tid → Nat) : Prop where
  runs : b.sys = s.withRam b.cpu.mem
  good : ∃ v, b.Orderly L v ∧ ∀ t, b.sys.Live t → (v t).sp = tops t

/-- Kernel code that has nothing to do with the RAM, a direct call, or a switch from where
`tops` has it. -/
def Sys.mayFollow (tops : Tid → Nat) (s : Sys) : Label → Bool
  | .go => s.k.currentTask.any fun u => !(s.pc u).usesRam
  | .call _ => true
  | .pendSV oldSp => s.k.currentTask.any fun u => oldSp == savedBelow (tops u)
  | _ => false

def Sys.mayFollowAll (L : Layout) (tops : Tid → Nat) : Sys → List Label → Bool
  | _, [] => true
  | s, l :: labels => s.mayFollow tops l &&
    (s.step L l).any fun s' => s'.mayFollowAll L tops labels

section Standing
variable {P : Placement} {L : Layout} {b b' : Board} {s s' : Sys} {tops : Tid → Nat} {l : Label}
  {u : Tid}

theorem follow_withRam (hl : s.mayFollow tops l = true) (m : Memory) :
    (s.withRam m).step L l = (s.step L l).map (·.withRam m) := by
  have hsame : (s.withRam m).k.pendsv = s.k.pendsv ∧
      (s.withRam m).k.currentTask = s.k.currentTask := ⟨rfl, rfl⟩
  cases l with
  | tick => cases hl
  | svc id a0 a1 a2 a3 => cases hl
  | compute r0 ram => cases hl
  | pendSV oldSp =>
    have hswitch : portSwitchContext L (s.withRam m).k oldSp = _ := switch_withRam oldSp
    simp only [Sys.step, hsame, hswitch]
    split_ifs
    · rw [Option.map_map, Option.map_map]
      rfl
    · rfl
  | call call =>
    simp only [Sys.step, hsame]
    split_ifs
    · rfl
    · cases s.k.currentTask with
      | none => rfl
      | some u =>
        have hcond : ((s.withRam m).pc u = .app ∧ (s.withRam m).k.nPriv = false) =
            (s.pc u = .app ∧ s.k.nPriv = false) := rfl
        simp only [Sys.thread, hcond, call_withRam]
        split_ifs <;> rfl
  | go =>
    simp only [Sys.step, hsame]
    split_ifs
    · rfl
    · cases hcur : s.k.currentTask with
      | none => rfl
      | some u =>
        simp only [Sys.mayFollow, hcur, Option.any_some, Bool.not_eq_true'] at hl
        exact go_alike hl

theorem svc_withRam (id a0 a1 a2 a3 : Nat) (m : Memory) :
    (s.withRam m).step L (.svc id a0 a1 a2 a3) =
      (s.step L (.svc id a0 a1 a2 a3)).map (·.withRam m) := by
  have hsame : (s.withRam m).k.pendsv = s.k.pendsv ∧
      (s.withRam m).k.currentTask = s.k.currentTask := ⟨rfl, rfl⟩
  simp only [Sys.step, hsame]
  split_ifs
  · rfl
  · cases s.k.currentTask with
    | none => rfl
    | some u =>
      have hcond : ((s.withRam m).pc u = .app ∧ (s.withRam m).k.nPriv = true) =
          (s.pc u = .app ∧ s.k.nPriv = true) := rfl
      have hpost := @svcHandler_withRam m s.k ⟨id, a0, a1, a2, a3, u⟩
      change svcHandler (s.withRam m).k _ = _ at hpost
      simp only [Sys.thread, hcond, hpost]
      split_ifs <;> rfl

theorem compute_withRam (r0 : Nat) (ram m : Memory) : (s.withRam m).step L (.compute r0 m) =
    (s.step L (.compute r0 ram)).map (·.withRam m) := by
  have hsame : (s.withRam m).k.pendsv = s.k.pendsv ∧
      (s.withRam m).k.currentTask = s.k.currentTask := ⟨rfl, rfl⟩
  simp only [Sys.step, hsame]
  split_ifs
  · rfl
  · cases s.k.currentTask with
    | none => rfl
    | some u =>
      have hcond : ((s.withRam m).pc u = .app) = (s.pc u = .app) := rfl
      simp only [Sys.thread, hcond]
      split_ifs <;> rfl

/-- What the board runs, the system runs in any memory. -/
theorem Board.Stands.runs_step (hst : b.Stands L s tops)
    (halike : (s.withRam b.cpu.mem).step L l = (s.step L l).map (·.withRam b.cpu.mem))
    (hstep : s.step L l = some s') : b.sys.step L l = some (s'.withRam b.cpu.mem) := by
  rw [hst.runs, halike, hstep]
  rfl

theorem Board.Stands.step {c : Cpu} (hL : L.heap.Placed) (hst : b.Stands L s tops)
    (hstep : b.Step L l (s'.withRam b.cpu.mem) c)
    (htame : b.Tame P L l (.on (s'.withRam b.cpu.mem) c)) (hborn : ∀ t, s'.Live t → b.sys.Live t)
    (hpsp : l.isThread = true → c.psp = b.cpu.psp) :
    (Board.on (s'.withRam b.cpu.mem) c).Stands L s' tops := by
  obtain ⟨v, ho, htops⟩ := hst.good
  obtain ⟨_, _, v', _, _, _, ho', hothers⟩ := ho.moves hL (htame.moves hstep)
  obtain ⟨g, h⟩ := ho.inv
  refine ⟨rfl, v', ho', fun t hlive' => ?_⟩
  have hlive := hborn t hlive'
  by_cases hmine : l.isThread = true ∧ b.sys.k.currentTask = some t
  · obtain ⟨hth, hcur⟩ := hmine
    have hcur' : s'.k.currentTask = some t := by
      rcases step_cases hstep.sys with ⟨rfl, _⟩ | ⟨oldSp, k, rfl, _⟩ | ⟨u, hpend, hu, hthr⟩
      · cases hth
      · cases hth
      · obtain rfl := Option.some.inj (hcur.symm.trans hu)
        exact (h.change hcur hpend hthr).current.trans hcur
    rw [← htops t hlive, ← ((ho.matched.task t hlive).onCpu hcur).2,
      ← ((ho'.matched.task t hlive').onCpu hcur').2]
    exact hpsp hth
  · exact (hothers t hlive hmine).sp.trans (htops t hlive)

theorem Board.Stands.follow (P : Placement) (hL : L.heap.Placed) (hst : b.Stands L s tops)
    (hl : s.mayFollow tops l = true) (hstep : s.step L l = some s') :
    ∃ b', Board.TameMoves P L l b b' ∧ b'.Stands L s' tops := by
  have hrun := hst.runs_step (follow_withRam hl _) hstep
  obtain ⟨v, ho, htops⟩ := hst.good
  obtain ⟨g, h⟩ := ho.inv
  have hm := ho.matched
  have hmap := ho.mapped
  obtain ⟨u, hcur, _⟩ := h.running.current
  have hlive := h.live_current hcur
  obtain ⟨hsound, _⟩ := hm.room hL hmap hlive hcur
  have hpsp : b.cpu.psp = tops u := by
    rw [((hm.task u hlive).onCpu hcur).2, htops u hlive]
  have hcur₀ : s.k.currentTask = some u := by
    rw [hst.runs] at hcur
    exact hcur
  have hpc₀ : b.sys.pc u = s.pc u := by
    rw [hst.runs]
    rfl
  have hstill : l.isCode = true → b.sys.Still l = true := by
    intro hcode
    cases l with
    | tick => cases hcode
    | svc id a0 a1 a2 a3 => cases hcode
    | pendSV oldSp => cases hcode
    | compute r0 ram => cases hl
    | call call => rfl
    | go =>
      simp only [Sys.mayFollow, hcur₀, Option.any_some, Bool.not_eq_true'] at hl
      rw [← hpc₀] at hl
      exact still_of_bare hcur hl
  have hcode : ∀ c, l.isCode = true → b.Step L l (s'.withRam b.cpu.mem) c →
      (∀ t alloc args, b.sys.pc u ≠ .spawnAdd t alloc args) → c.psp = b.cpu.psp →
      c.fpca = false → ∃ b', Board.TameMoves P L l b b' ∧ b'.Stands L s' tops := by
    intro c hl hs hnew hsp hplain
    have htame := hm.tame_code hL h hmap (tame_of_still (P := P) (hstill hl))
      (not_stored (hstill hl)) hcur hl hrun hsp hplain
    obtain ⟨_, _, _, hborn⟩ := h.no_births hcur (Label.isCode_thread hl) hnew hrun
    exact ⟨_, htame.moves hs, hst.step hL hs htame hborn fun _ => hsp⟩
  cases l with
  | tick => cases hl
  | svc id a0 a1 a2 a3 => cases hl
  | compute r0 ram => cases hl
  | call call =>
    have happ := step_app hcur rfl (fun heq => by cases heq) hrun
    have hnew : ∀ t alloc args, b.sys.pc u ≠ .spawnAdd t alloc args := by
      intro t alloc args heq
      rw [happ] at heq
      cases heq
    obtain ⟨m, hs⟩ := hm.follow_code hL h hmap hcur (by rw [happ]; simp) hnew rfl hrun hsound
      fun r0 ram heq => by cases heq
    exact hcode _ rfl hs hnew rfl hm.plain
  | go =>
    simp only [Sys.mayFollow, hcur₀, Option.any_some, Bool.not_eq_true'] at hl
    have hnew : ∀ t alloc args, b.sys.pc u ≠ .spawnAdd t alloc args := by
      intro t alloc args heq
      rw [← hpc₀, heq] at hl
      cases hl
    by_cases hret : b.sys.pc u = .svcRet
    · refine hcode (exec b.cpu .bxLr) rfl (.back u _ hcur hret hrun) hnew ?_ ?_
      · rw [exec_bxLr_thread hm.thread]
      · rw [exec_bxLr_thread hm.thread]
        exact hm.plain
    · obtain ⟨m, hs⟩ := hm.follow_code hL h hmap hcur hret hnew rfl hrun hsound
        fun r0 ram heq => by cases heq
      exact hcode _ rfl hs hnew rfl hm.plain
  | pendSV oldSp =>
    simp only [Sys.mayFollow, hcur₀, Option.any_some, beq_iff_eq] at hl
    subst hl
    rw [← hpsp] at hrun ⊢
    obtain ⟨c, hs, htame⟩ := hm.follow_switch (P := P) hL h hmap hrun
    refine ⟨_, htame.moves hs, hst.step hL hs htame ?_ fun hth => by cases hth⟩
    intro t hlive'
    rcases step_cases hrun with ⟨hl, _⟩ | ⟨oldSp, k, hl, _, hk, hsys⟩ | ⟨u', _, _, hthr⟩
    · cases hl
    · have hestate := (switch_pointer hcur hk).1
      refine (@live_of_estate b.sys { b.sys with k := k } t hestate.symm).mp ?_
      rw [← hsys]
      exact hlive'
    · cases hthr

/-- A run of the system that the board may follow is one of the board. -/
theorem Board.Stands.follow_run (P : Placement) (hL : L.heap.Placed) {labels : List Label}
    (hst : b.Stands L s tops) (hl : s.mayFollowAll L tops labels = true) :
    ∃ b' s', run (Sys.step L) s labels = some s' ∧ b'.Stands L s' tops ∧
      Relation.ReflTransGen (Board.TameStep P L) b b' ∧ ∀ u, ownSteps L u s labels = 0 →
        Relation.ReflTransGen (Board.StepAside P L u) b b' := by
  induction labels generalizing b s with
  | nil => exact ⟨b, s, rfl, hst, .refl, fun _ _ => .refl⟩
  | cons l labels ih =>
    rw [Sys.mayFollowAll, Bool.and_eq_true] at hl
    obtain ⟨hfirst, hrest⟩ := hl
    cases hstep : s.step L l with
    | none =>
      rw [hstep] at hrest
      cases hrest
    | some s₁ =>
      obtain ⟨b₁, hmoves, hst₁⟩ := hst.follow P hL hfirst hstep
      rw [hstep] at hrest
      obtain ⟨b', s', hrun, hst', hsteps, haside⟩ := ih hst₁ hrest
      refine ⟨b', s', run_cons.mpr ⟨s₁, hstep, hrun⟩, hst', .head ⟨l, hmoves⟩ hsteps,
        fun u hown => ?_⟩
      simp only [ownSteps, hstep] at hown
      refine .head ⟨l, fun hmine => ?_, hmoves⟩ (haside u (by omega))
      rw [hst.runs] at hmine
      rw [if_pos (show l.isThread = true ∧ s.k.currentTask = some u from hmine)] at hown
      omega

end Standing

end Crest
