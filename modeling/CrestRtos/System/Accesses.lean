import CrestRtos.Arch.Uart
import CrestRtos.Library.MemoryAccess
import CrestRtos.System.Deeds
import CrestRtos.System.OtherRam

/-!
# What a step reads and writes

A step of kernel code as an action on the RAM. A push reads the bytes of its item, a pop
writes them, and a write to the console reads a string; nothing else is touched.
-/

namespace Crest
open ByteMemory CString MachineWord MemoryAccess Alloc

/-- What the next step of `u` sends through the UART. -/
def Sys.Sends (s : Sys) (u : Tid) (cs : List UInt8) : Prop :=
  match s.pc u with
  | .dispatch item =>
    match decode s.k item with
    | .uart a => ∃ fuel, uartWrite s.k.ram fuel a = some cs
    | _ => cs = []
  | _ => cs = []

/-- The system without its RAM, and what was sent, are the result. -/
def Sys.seen (s : Sys) (cs : List UInt8) : Memory × Sys × List UInt8 :=
  (s.k.ram, s.withRam fun _ => 0, cs)

/-- The next step of `u` as an action on the RAM. -/
def Sys.action (L : Layout) (s : Sys) (u : Tid) : Action (Sys × List UInt8) := fun m =>
  {o | ∃ s' cs, (s.withRam m).go L u = some s' ∧ (s.withRam m).Sends u cs ∧ o = s'.seen cs}

section Actions
variable {L : Layout} {s : Sys} {m : Memory} {u : Tid} {r : Ret} {q a x : Nat} {b : UInt8}
  {o : Memory × Sys × List UInt8}

/-- A step that runs alike on every RAM and sends nothing. -/
theorem action_ignores (hgo : ∀ m, (s.withRam m).go L u = (s.go L u).map (·.withRam m))
    (hsends : ∀ m cs, (s.withRam m).Sends u cs ↔ cs = []) : Ignores (s.action L u) m x := by
  refine ignores_of_still {o | ∃ s', s.go L u = some s' ∧ o = (s'.withRam fun _ => 0, [])}
    fun m => Set.ext fun o => ?_
  constructor
  · rintro ⟨s', cs, hrun, hcs, rfl⟩
    rw [hgo] at hrun
    obtain ⟨s'', hfirst, rfl⟩ := Option.map_eq_some_iff.mp hrun
    obtain rfl := (hsends m cs).mp hcs
    exact ⟨_, ⟨s'', hfirst, rfl⟩, rfl⟩
  · rintro ⟨_, ⟨s', hrun, rfl⟩, rfl⟩
    refine ⟨s'.withRam m, [], ?_, (hsends m []).mpr rfl, rfl⟩
    rw [hgo, hrun]
    rfl

theorem action_enter {op : Op} (hpc : s.pc u = .enter op r) (m : Memory) :
    s.action L u m = {((s.withRam m).runOp u op r).seen []} := by
  have hsame : (s.withRam m).pc u = .enter op r := hpc
  have hgo : (s.withRam m).go L u = some ((s.withRam m).runOp u op r) := by
    simp only [Sys.go, hsame]
  have hsends : ∀ cs, (s.withRam m).Sends u cs ↔ cs = [] := by
    intro cs
    simp only [Sys.Sends, hsame]
  refine Set.ext fun o => ?_
  constructor
  · rintro ⟨s', cs, hrun, hcs, rfl⟩
    obtain rfl := Option.some.inj (hgo.symm.trans hrun)
    obtain rfl := (hsends cs).mp hcs
    rfl
  · rintro rfl
    exact ⟨_, [], hgo, (hsends []).mpr rfl, rfl⟩

theorem other_byte (c : UInt8) : ∃ b, b ≠ c := by
  by_cases hc : c = 0
  · exact ⟨1, by rw [hc]; decide⟩
  · exact ⟨0, fun heq => hc heq.symm⟩

/-! ### A push -/

theorem push_keeps : ((s.withRam m).runOp u (.queuePush q a 0) r).k.ram = m := by
  have hself : (s.withRam m).runOp u (.queuePush q a 0) r = _ :=
    runOp_push (s := s.withRam m) (m := m) (r := r) fun _ _ _ _ => rfl
  rw [hself]
  rfl

/-- The byte at `x` comes to its place in the queue. -/
theorem push_stores {k : Kernel} (hroom : (k.queue q).nextIndex (k.queue q).tail ≠ (k.queue q).head)
    (hlo : a ≤ x) (hhi : x < a + (k.queue q).itemSize) :
    ((zImplQueuePush k q u a 0).1.queue q).bytes
      ((k.queue q).offset (k.queue q).tail + (x - a)) = k.ram x := by
  have hstore := congrFun (congrArg Store.queue (push_store k u 0 q a)) q
  rw [if_pos hroom] at hstore
  have hbytes := congrArg Queue.bytes (hstore.trans (Function.update_self q _ k.store.queue))
  have hoff : a + ((k.queue q).offset (k.queue q).tail + (x - a) -
      (k.queue q).offset (k.queue q).tail) = x := by omega
  exact (congrFun hbytes _).trans ((if_pos ⟨by omega, by omega⟩).trans (congrArg k.ram hoff))

theorem push_reads (hpc : s.pc u = .enter (.queuePush q a 0) r)
    (hroom : (s.k.queue q).nextIndex (s.k.queue q).tail ≠ (s.k.queue q).head)
    (hlo : a ≤ x) (hhi : x < a + (s.k.queue q).itemSize) : Reads (s.action L u) m x := by
  have hbyte : ∀ m, (((s.withRam m).runOp u (.queuePush q a 0) r).k.queue q).bytes
      ((s.k.queue q).offset (s.k.queue q).tail + (x - a)) = m x := by
    intro m
    rw [runOp_k]
    exact push_stores (k := (s.withRam m).k) hroom hlo hhi
  obtain ⟨b, hb⟩ := other_byte (m x)
  refine reads_of_new (b := b) (by rw [action_enter hpc]; rfl) fun o' ho' heq => ?_
  rw [action_enter hpc] at ho'
  obtain rfl := Set.mem_singleton_iff.mp ho'
  have hqueue := congrArg (fun o : Sys × List UInt8 => (o.1.k.queue q).bytes
    ((s.k.queue q).offset (s.k.queue q).tail + (x - a))) heq
  have hsame := ((hbyte m).symm.trans hqueue).trans (hbyte _)
  rw [Function.update_self] at hsame
  exact hb hsame.symm

theorem push_not_writes (hpc : s.pc u = .enter (.queuePush q a 0) r) :
    ¬ Writes (s.action L u) m x := by
  refine not_writes_of_kept fun m o ho => ?_
  rw [action_enter hpc] at ho
  obtain rfl := Set.mem_singleton_iff.mp ho
  exact push_keeps

theorem push_ignores (hpc : s.pc u = .enter (.queuePush q a 0) r)
    (hout : (s.k.queue q).nextIndex (s.k.queue q).tail ≠ (s.k.queue q).head →
      x < a ∨ a + (s.k.queue q).itemSize ≤ x) : Ignores (s.action L u) s.k.ram x := by
  intro b
  have hrun : (s.withRam (Function.update s.k.ram x b)).runOp u (.queuePush q a 0) r =
      (s.runOp u (.queuePush q a 0) r).withRam (Function.update s.k.ram x b) := by
    refine runOp_push fun hroom y hlo hhi => Function.update_of_ne ?_ _ _
    have hx := hout hroom
    omega
  have hkeep : (s.runOp u (.queuePush q a 0) r).k.ram = s.k.ram := push_keeps
  rw [action_enter hpc, action_enter hpc, hrun, Set.image_singleton]
  refine congrArg (fun m => ({(m, _, [])} : Set (Memory × Sys × List UInt8))) ?_
  exact congrArg (Function.update · x b) hkeep.symm

/-! ### A pop -/

theorem action_pop (hpc : s.pc u = .enter (.queuePop q a 0) r) (m : Memory) : s.action L u m =
    {((s.runOp u (.queuePop q a 0) r).withRam (popRam s.k q a m)).seen []} := by
  rw [action_enter hpc, runOp_pop]

theorem pop_ignores (hpc : s.pc u = .enter (.queuePop q a 0) r)
    (hout : (s.k.queue q).head ≠ (s.k.queue q).tail → x < a ∨ a + (s.k.queue q).itemSize ≤ x) :
    Ignores (s.action L u) m x := by
  intro b
  have hram : popRam s.k q a (Function.update m x b) =
      Function.update (popRam s.k q a m) x b := by
    by_cases hitem : (s.k.queue q).head ≠ (s.k.queue q).tail
    · have hx := hout hitem
      rw [popRam, popRam, if_pos hitem, if_pos hitem]
      funext y
      by_cases hy : y = x
      · rw [hy, Function.update_self, copyBytes, if_neg (by omega), Function.update_self]
      · rw [Function.update_of_ne hy]
        simp only [copyBytes, Function.update_of_ne hy]
    · rw [popRam, popRam, if_neg hitem, if_neg hitem]
  rw [action_pop hpc, action_pop hpc, hram, Set.image_singleton]
  rfl

theorem pop_not_reads (hpc : s.pc u = .enter (.queuePop q a 0) r) :
    ¬ Reads (s.action L u) m x := by
  by_cases hin : (s.k.queue q).head ≠ (s.k.queue q).tail ∧ a ≤ x ∧ x < a + (s.k.queue q).itemSize
  · obtain ⟨hitem, hlo, hhi⟩ := hin
    refine not_reads_of_same fun b => ?_
    have hram : popRam s.k q a (Function.update m x b) = popRam s.k q a m := by
      rw [popRam, popRam, if_pos hitem, if_pos hitem]
      funext y
      by_cases hy : a ≤ y ∧ y < a + (s.k.queue q).itemSize
      · rw [copyBytes, copyBytes, if_pos hy, if_pos hy]
      · rw [copyBytes, copyBytes, if_neg hy, if_neg hy, Function.update_of_ne (by omega)]
    rw [action_pop hpc, action_pop hpc, hram]
  · exact (pop_ignores hpc fun hitem => by
      by_contra hx
      exact hin ⟨hitem, by omega, by omega⟩).not_reads

theorem pop_writes (hpc : s.pc u = .enter (.queuePop q a 0) r)
    (hitem : (s.k.queue q).head ≠ (s.k.queue q).tail) (hlo : a ≤ x)
    (hhi : x < a + (s.k.queue q).itemSize) : Writes (s.action L u) m x := by
  have hbyte : ∀ m, popRam s.k q a m x =
      (s.k.queue q).bytes ((s.k.queue q).offset (s.k.queue q).head + (x - a)) := by
    intro m
    rw [popRam, if_pos hitem, copyBytes, if_pos ⟨hlo, hhi⟩]
  obtain ⟨b, hb⟩ := other_byte
    ((s.k.queue q).bytes ((s.k.queue q).offset (s.k.queue q).head + (x - a)))
  refine ⟨b, _, by rw [action_pop hpc]; rfl, fun heq => ?_⟩
  exact hb (heq.symm.trans (hbyte _))

/-! ### A write to the console -/

theorem action_dispatch {item : WorkItem} (hpc : s.pc u = .dispatch item) (m : Memory) :
    s.action L u m = {o | ∃ cs, (s.withRam m).Sends u cs ∧
      o = ((s.dispatch u item).withRam m).seen cs} := by
  have hsame : (s.withRam m).pc u = .dispatch item := hpc
  have hgo : (s.withRam m).go L u = some ((s.dispatch u item).withRam m) := by
    simp only [Sys.go, hsame, dispatch_withRam]
  refine Set.ext fun o => ?_
  constructor
  · rintro ⟨s', cs, hrun, hcs, rfl⟩
    obtain rfl := Option.some.inj (hgo.symm.trans hrun)
    exact ⟨cs, hcs, rfl⟩
  · rintro ⟨cs, hcs, rfl⟩
    exact ⟨_, cs, hgo, hcs, rfl⟩

section Console
variable {item : WorkItem}

theorem sends_uart (hpc : s.pc u = .dispatch item) (hdec : decode s.k item = .uart a)
    (m : Memory) (cs : List UInt8) :
    (s.withRam m).Sends u cs ↔ ∃ fuel, uartWrite m fuel a = some cs := by
  have hsame : (s.withRam m).pc u = .dispatch item := hpc
  have hdecode : decode (s.withRam m).k item = .uart a := hdec
  simp only [Sys.Sends, hsame, hdecode]
  rfl

theorem uart_not_writes (hpc : s.pc u = .dispatch item) : ¬ Writes (s.action L u) m x := by
  refine not_writes_of_kept fun m o ho => ?_
  rw [action_dispatch hpc] at ho
  obtain ⟨cs, _, rfl⟩ := ho
  rfl

/-- A string that ends before another one goes on leads to an outcome of its own. -/
theorem uart_differs {m' : Memory} {n : Nat} (hpc : s.pc u = .dispatch item)
    (hdec : decode s.k item = .uart a) (hsame : ∀ y, a ≤ y → y < a + n → m y = m' y)
    (hne : ∀ y, a ≤ y → y < a + n → m y ≠ 0) (hnul : m (a + n) = 0) (hmore : m' (a + n) ≠ 0) :
    ∃ o ∈ s.action L u m, ∀ o' ∈ s.action L u m', o'.2 ≠ o.2 := by
  obtain ⟨hsent, hother⟩ := uartWrite_differs hsame hne hnul hmore
  rw [action_dispatch hpc, action_dispatch hpc]
  refine ⟨_, ⟨_, (sends_uart hpc hdec m _).mpr hsent, rfl⟩, fun o' ho' heq => ?_⟩
  obtain ⟨cs, hcs, rfl⟩ := ho'
  obtain ⟨fuel, hrun⟩ := (sends_uart hpc hdec m' cs).mp hcs
  have hsent' := congrArg Prod.snd heq
  exact hother fuel cs hrun hsent'

/-- The string is read up to its NUL. -/
theorem uart_reads (hpc : s.pc u = .dispatch item) (hdec : decode s.k item = .uart a)
    (hlo : a ≤ x) (hne : ∀ y, a ≤ y → y < x → m y ≠ 0) : Reads (s.action L u) m x := by
  obtain ⟨n, rfl⟩ := Nat.exists_eq_add_of_le hlo
  have hsame : ∀ b y, a ≤ y → y < a + n → Function.update m (a + n) b y = m y := fun b y _ hy =>
    Function.update_of_ne (by omega) _ _
  by_cases hnul : m (a + n) = 0
  · -- a character in place of the NUL
    have hmore : Function.update m (a + n) 1 (a + n) ≠ 0 := by
      rw [Function.update_self]
      decide
    obtain ⟨o, ho, hlost⟩ := uart_differs (L := L) hpc hdec
      (fun y hlo hhi => (hsame 1 y hlo hhi).symm) hne hnul hmore
    exact reads_of_lost ho hlost
  · -- a NUL in place of the character
    obtain ⟨o, ho, hnew⟩ := uart_differs (L := L) hpc hdec (hsame 0)
      (fun y hlo hhi => by rw [hsame 0 y hlo hhi]; exact hne y hlo hhi)
      (Function.update_self _ _ _) hnul
    exact reads_of_new ho hnew

theorem uart_ignores (hpc : s.pc u = .dispatch item) (hdec : decode s.k item = .uart a)
    (hout : x < a ∨ ∃ y, a ≤ y ∧ y < x ∧ m y = 0) : Ignores (s.action L u) m x := by
  intro b
  have hother : ∀ y, y ≠ x → Function.update m x b y = m y := fun y hy =>
    Function.update_of_ne hy _ _
  have hsends : ∀ cs, (s.withRam (Function.update m x b)).Sends u cs ↔
      (s.withRam m).Sends u cs := by
    intro cs
    rw [sends_uart hpc hdec, sends_uart hpc hdec]
    refine exists_congr fun fuel => ⟨fun h => uartWrite_congr ?_ h, fun h => uartWrite_congr ?_ h⟩
    · intro y hlo hne
      refine (hother y ?_).symm
      rintro rfl
      obtain hx | ⟨z, hz, hzx, hnul⟩ := hout
      · omega
      · exact hne z hz hzx ((hother z (by omega)).trans hnul)
    · intro y hlo hne
      refine hother y ?_
      rintro rfl
      obtain hx | ⟨z, hz, hzx, hnul⟩ := hout
      · omega
      · exact hne z hz hzx hnul
  rw [action_dispatch hpc, action_dispatch hpc]
  refine Set.ext fun o => ?_
  constructor
  · rintro ⟨cs, hcs, rfl⟩
    exact ⟨_, ⟨cs, (hsends cs).mp hcs, rfl⟩, rfl⟩
  · rintro ⟨_, ⟨cs, hcs, rfl⟩, rfl⟩
    exact ⟨cs, (hsends cs).mpr hcs, rfl⟩

end Console

end Actions

end Crest
