import CrestRtos.Properties.Syscalls
import CrestRtos.System.Changes
import CrestRtos.System.Clock

/-!
# The items behind the worker's sections

Whenever the worker is about to look at an item, or to enter the section that the item asks
for, the item has come from an `svc`.
-/

namespace Crest
open MachineWord Alloc

/-- The code that goes on with an item: before the look at it, and before the section that it
asks for. -/
def Pc.asks : Pc → Bool
  | .dispatch _ => true
  | .enter _ (.serve _) => true
  | _ => false

/-- `u` works on an item that an `svc` has posted. -/
def Sys.WorksOn (s : Sys) (u : Tid) (item : WorkItem) : Prop :=
  .posted item ∈ s.log ∧ (s.pc u = .dispatch item ∨
    ∃ k op, decode k item = .call op ∧ s.pc u = .enter op (.serve item.caller))

section Items
variable {L : Layout} {s s' : Sys} {g : Ghost} {u c : Tid} {r : Ret} {item : WorkItem} {op : Op}

theorem finish_asks (r : Ret) (v : Nat) : ((s.finish u r v).pc u).asks = false := by
  cases r <;> simp [Sys.finish, Sys.setPc, Sys.note, Pc.asks]

theorem setPc_asks {p : Pc} (hp : p.asks = false) : ((s.setPc u p).pc u).asks = false := by
  rw [pc_setPc]
  exact hp

theorem settle_asks (r : Ret) (out : Outcome) : ((s.settle u op r out).pc u).asks = false := by
  cases out with
  | ret v => exact finish_asks r v
  | block =>
    refine setPc_asks ?_
    split <;> rfl
  | wake t v => exact setPc_asks rfl
  | pend v => exact setPc_asks rfl

theorem checkWait_asks (hpc : s.pc u = .check op r) :
    ((s.checkWait u op r).pc u).asks = false := by
  rw [Sys.checkWait]
  split
  · rw [hpc]
    rfl
  · split_ifs
    · exact finish_asks r _
    · exact setPc_asks rfl
    · exact finish_asks r _
    · exact finish_asks r _

theorem create_asks {cr : Creation} (hstep : s.create L u cr r = some s') :
    (s'.pc u).asks = false := by
  obtain ⟨⟨k, p⟩, _, rfl⟩ := Option.map_eq_some_iff.mp hstep
  by_cases hp : p = 0
  · simp only [if_pos hp]
    exact finish_asks r _
  · simp only [if_neg hp]
    cases cr <;> exact setPc_asks rfl

/-- The worker comes to an item from the ring, and to a section from an item. -/
theorem go_asks (hstep : s.go L u = some s') :
    (s'.pc u).asks = false ∨
    (∃ k item, kworkPopLocked s.k = some (k, item) ∧ s'.pc u = .dispatch item) ∨
    ∃ item op, s.pc u = .dispatch item ∧ decode s.k item = .call op ∧
      s'.pc u = .enter op (.serve item.caller) := by
  cases go_cases hstep with
  | enter op r hpc => exact Or.inl (settle_asks r _)
  | retry op r hpc => exact Or.inl (settle_asks r _)
  | check op r hpc => exact Or.inl (checkWait_asks hpc)
  | pend after hpc =>
    cases after with
    | ret r v => exact Or.inl (finish_asks r v)
    | loop => exact Or.inl (setPc_asks rfl)
  | popNone hpc hpop => exact Or.inl (setPc_asks rfl)
  | popSome k item hpc hpop => exact Or.inr (Or.inl ⟨k, item, hpop, pc_setPc _ _ _⟩)
  | dispatch item hpc =>
    rw [Sys.dispatch]
    cases hdec : decode s.k item with
    | call op => exact Or.inr (Or.inr ⟨item, op, hpc, hdec, pc_setPc _ _ _⟩)
    | _ => exact Or.inl (setPc_asks rfl)
  | create cr r s' hpc hrun => exact Or.inl (create_asks hrun)
  | queueBuffer p r k ok hpc hrun =>
    refine Or.inl (setPc_asks ?_)
    split <;> rfl
  | queueFree p r k hpc hrun => exact Or.inl (finish_asks r _)
  | publish p type r hpc => exact Or.inl (finish_asks r _)
  | spawnNone args hpc hfree => exact Or.inl (finish_asks .app _)
  | spawnTcb args k t hpc hfree => exact Or.inl (setPc_asks rfl)
  | spawnStack t args heap alloc hpc hrun =>
    refine Or.inl (setPc_asks ?_)
    split <;> rfl
  | spawnFree t hpc => exact Or.inl (finish_asks .app _)
  | spawnAdd t alloc args hpc => exact Or.inl (finish_asks .app _)
  | _ hpc => exact Or.inl (setPc_asks rfl)

theorem posted_of_mem {log : List Event} (h : item ∈ postedItems log) : .posted item ∈ log := by
  induction log with
  | nil => cases h
  | cons e log ih =>
    cases e with
    | posted item' =>
      rcases List.mem_append.mp h with hold | hnew
      · exact List.mem_cons_of_mem _ (ih hold)
      · rw [List.mem_singleton.mp hnew]
        exact List.mem_cons_self
    | _ => exact List.mem_cons_of_mem _ (ih h)

theorem Inv.log_grows {l : Label} (h : Inv L s g) (hstep : s.step L l = some s') :
    ∃ n, s'.log = n ++ s.log := by
  cases h.ringStep hstep with
  | kept _ hlog _ => exact ⟨_, hlog⟩
  | post _ hlog => exact ⟨[_], hlog⟩
  | take _ hlog => exact ⟨[_], hlog⟩

/-- Whenever the worker goes on with an item, somebody has posted it. -/
def Sys.Asked (s : Sys) : Prop :=
  ∀ u, (s.pc u).asks = true → ∃ item, s.WorksOn u item

theorem Sys.WorksOn.later (h : s.WorksOn u item) {n : List Event} (hpc : s'.pc u = s.pc u)
    (hlog : s'.log = n ++ s.log) : s'.WorksOn u item := by
  rw [Sys.WorksOn, hpc, hlog]
  exact ⟨List.mem_append_right n h.1, h.2⟩

/-- The worker's own step. -/
theorem Sys.Asked.go {n : List Event} (h : s.Asked) (hL : L.heap.Placed) (hreach : s.Reached L)
    (hg : Inv L s g) (hstep : s.go L u = some s') (hlog : s'.log = n ++ s.log)
    (hasks : (s'.pc u).asks = true) : ∃ item, s'.WorksOn u item := by
  obtain hnot | ⟨k, item, hpop, hpc'⟩ | ⟨item, op, hpc, hdec, hpc'⟩ := go_asks hstep
  · rw [hnot] at hasks
    cases hasks
  · obtain ⟨_, hring⟩ := kworkPop_some hg.coded.head hg.coded.tail hpop
    have hmem : item ∈ postedItems s.log := by
      rw [hreach.fifo hL, hring]
      exact List.mem_append_right _ List.mem_cons_self
    refine ⟨item, ?_, Or.inl hpc'⟩
    rw [hlog]
    exact List.mem_append_right n (posted_of_mem hmem)
  · obtain ⟨item', hposted, hwork⟩ := h u (by rw [hpc]; rfl)
    obtain rfl : item' = item := by
      rcases hwork with hold | ⟨k, op', _, hold⟩
      · rw [hpc] at hold
        exact (Pc.dispatch.inj hold).symm
      · rw [hpc] at hold
        cases hold
    refine ⟨item', ?_, Or.inr ⟨s.k, op, hdec, hpc'⟩⟩
    rw [hlog]
    exact List.mem_append_right n hposted

theorem asks_worker {worker : Prop} {p : Pc} (h : p.fits worker) (hasks : p.asks = true) :
    worker := by
  cases p with
  | dispatch item => exact h
  | enter op r =>
    cases r with
    | app => cases hasks
    | serve c => exact h.2
  | _ => cases hasks

theorem Sys.Asked.step {l : Label} (h : s.Asked) (hL : L.heap.Placed) (hreach : s.Reached L)
    (hg : Inv L s g) (hstep : s.step L l = some s') : s'.Asked := by
  intro u hasks
  obtain ⟨n, hlog⟩ := hg.log_grows hstep
  obtain ⟨g', hg', hworker⟩ := hg.step hL hstep
  obtain rfl : u = g.worker := (asks_worker (hg'.coded.pcs u) hasks).trans hworker
  have hkeep : s'.pc g.worker = s.pc g.worker → ∃ item, s'.WorksOn g.worker item := by
    intro hpc
    rw [hpc] at hasks
    obtain ⟨item, hitem⟩ := h _ hasks
    exact ⟨item, hitem.later hpc hlog⟩
  obtain ⟨_, htick⟩ | ⟨oldSp, k, _, _, hrun, rfl⟩ | ⟨x, hpend, hcur, hthread⟩ := step_cases hstep
  · refine hkeep ?_
    rw [htick, (sysTick_frame s).1]
  · exact hkeep rfl
  · by_cases hux : g.worker = x
    · subst hux
      have hnot : s.pc g.worker ≠ .app := by
        intro hpc
        have hfits := hg.coded.pcs g.worker
        rw [hpc] at hfits
        exact hfits rfl
      cases l with
      | go => exact h.go hL hreach hg hthread hlog hasks
      | tick => cases hthread
      | pendSV oldSp => cases hthread
      | svc id a0 a1 a2 a3 => simp [Sys.thread, hnot] at hthread
      | call c => simp [Sys.thread, hnot] at hthread
      | compute r0 ram => simp [Sys.thread, hnot] at hthread
    · exact hkeep ((hg.change hcur hpend hthread).pc hg hux hg.coded.worker)

theorem Sys.Reached.asked (hL : L.heap.Placed) (h : s.Reached L) : s.Asked := by
  refine (h.induction (P := fun s => s.Reached L ∧ s.Asked) hL (fun s hs => ?_)
    fun s g l s' hg hp hl => ⟨hp.1.step hl, hp.2.step hL hp.1 hg hl⟩).2
  refine ⟨hs.reached, fun u hasks => ?_⟩
  obtain ⟨g, hg⟩ := hs.inv hL
  obtain ⟨_, _, _, s₁, _, hstart, ⟨w, hw⟩, _⟩ := hs
  obtain ⟨⟨k, first⟩, _, rfl⟩ := Option.map_eq_some_iff.mp hstart
  have hbegin : s₁.pc w = .workerStart := (hw w).mpr rfl
  have hworker : w = g.worker := by
    have hfits := hg.coded.pcs w
    change (s₁.pc w).fits _ at hfits
    rw [hbegin] at hfits
    exact hfits
  obtain rfl : u = w := (asks_worker (hg.coded.pcs u) hasks).trans hworker.symm
  change (s₁.pc u).asks = true at hasks
  rw [hbegin] at hasks
  cases hasks

end Items

end Crest
