import SmartDoorLock.Firmware.DeviceTable

/-!
# Eviction from `bt_lst`

An addition goes to the slot at the cursor, so an entry waits for the cursor to
come round. But the cursor moves with every call of `add_bt_device`, and also
when the device is rejected as a duplicate. Each rejected call thus brings the
loss of the waiting entries closer by one.

The machine below is that of the two tables, with a count kept for each waiting
entry. An entry is overwritten by the fifth addition after it or a later one if
and only if, up to then, no more calls were rejected than the full rounds of
the cursor allow.
-/

namespace SmartDoorLock

open CText WrapClock Machine

/-! ## Counting the calls -/

/-- The calls of `add_bt_device` since an entry was accepted; `rounds` are the
rejected ones that found the cursor at its slot. -/
structure Watch where
  accepted : ℕ := 0
  rejected : ℕ := 0
  rounds : ℕ := 0
deriving DecidableEq, Repr

def Watch.accept (w : Watch) : Watch := { w with accepted := w.accepted + 1 }

def Watch.reject (atCursor : Bool) (w : Watch) : Watch :=
  { w with rejected := w.rejected + 1, rounds := w.rounds + atCursor.toNat }

structure EvictState where
  tables : TableState := {}
  /-- for each slot, the count of the entry that waits in it -/
  watch : Fin BT_LST_SIZE → Option Watch := fun _ => none
  /-- the counts of the entries overwritten before they were published, each
  without the call that overwrote it; the latest first -/
  evicted : List Watch := []

/-- What the call of `add_bt_device` returns. -/
def addReturns (s : TableState) (address : BdAddr) (gap : ℕ → ℕ) : ℤ :=
  (addBtDevice (fun k => stamp (reading s.now gap k)) s.btLst address).2

/-- The slot the next iteration of `send_device` publishes. -/
def nextPublished (s : TableState) : Option (Fin BT_LST_SIZE) :=
  match s.pass with
  | none => none
  | some p =>
      if h : p.i < BT_LST_SIZE then
        if sendDue (stamp s.now) s.sentLst p.lastIndex (s.btLst.deviceLst ⟨p.i, h⟩) then
          some ⟨p.i, h⟩
        else none
      else none

/-- The counts after an action of the tables. -/
def count (s : EvictState) (tables : TableState) : TableAct → EvictState
  | .add address gap =>
      let k := s.tables.btLst.i
      if addReturns s.tables address gap = -1 then
        { s with tables := tables, watch := fun j => (s.watch j).map (Watch.reject (j = k)) }
      else
        { tables := tables
          watch := Function.update (fun j => (s.watch j).map Watch.accept) k (some {})
          evicted := (s.watch k).toList ++ s.evicted }
  | .sendNext =>
      match nextPublished s.tables with
      | some k => { s with tables := tables, watch := Function.update s.watch k none }
      | none => { s with tables := tables }
  | _ => { s with tables := tables }

def evictStep (s : EvictState) (a : TableAct) : Option EvictState :=
  (tableStep s.tables a).map fun t => count s t a

/-! ## The property and the condition -/

/-- An entry was overwritten by the fifth addition accepted after it, or a later
one. -/
def EvictedLate (s : EvictState) : Prop := ∀ w ∈ s.evicted, BT_LST_SIZE ≤ w.accepted + 1

/-- When a call is accepted at the slot of a waiting entry, then at most five
calls were rejected since for each round the entry has outlived; on the first
return of the cursor there was none. -/
def FewRejected (s : EvictState) (a : TableAct) : Prop :=
  ∀ address gap, a = .add address gap → addReturns s.tables address gap ≠ -1 →
    ∀ w, s.watch s.tables.btLst.i = some w → w.rejected ≤ BT_LST_SIZE * w.rounds

/-! ## The cursor -/

/-- The calls after which the cursor stands at slot `k`. -/
def ahead (k c : Fin BT_LST_SIZE) : ℕ := (k.val + BT_LST_SIZE - c.val) % BT_LST_SIZE

theorem ahead_self (k : Fin BT_LST_SIZE) : ahead k k = 0 := by
  revert k
  decide

theorem ahead_nextIdx_self (k : Fin BT_LST_SIZE) : ahead k (nextIdx k) = BT_LST_SIZE - 1 := by
  revert k
  decide

theorem ahead_nextIdx {k c : Fin BT_LST_SIZE} (h : k ≠ c) :
    ahead k (nextIdx c) + 1 = ahead k c := by
  revert k c
  decide

/-- The calls since an entry was accepted fill its rounds, up to the part of the
present one that is still ahead; a slot without a count is empty. -/
structure WatchInv (s : EvictState) : Prop where
  rounds : ∀ k w, s.watch k = some w →
    w.accepted + w.rejected + ahead k s.tables.btLst.i = BT_LST_SIZE * w.rounds + (BT_LST_SIZE - 1)
  empty : ∀ k, s.watch k = none → s.tables.btLst.deviceLst k = {}

theorem watchInv_init : WatchInv {} where
  rounds k w h := by cases h
  empty k h := rfl

/-! ## One step -/

/-- **What a step does to the counts.** It leaves them and `bt_lst` alone, or it
publishes a slot, or it is a call of `add_bt_device`, rejected or accepted. -/
theorem evictStep_cases {s t : EvictState} {a : TableAct} (h : evictStep s a = some t) :
    ((∀ address gap, a ≠ .add address gap) ∧ t.watch = s.watch ∧ t.evicted = s.evicted ∧
      t.tables.btLst = s.tables.btLst) ∨
    (∃ k, (∀ address gap, a ≠ .add address gap) ∧ t.watch = Function.update s.watch k none ∧
      t.evicted = s.evicted ∧ t.tables.btLst = s.tables.btLst.clear k) ∨
    (∃ address gap, a = .add address gap ∧ addReturns s.tables address gap = -1 ∧
      t.watch = (fun j => (s.watch j).map (Watch.reject (j = s.tables.btLst.i))) ∧
      t.evicted = s.evicted ∧
      t.tables.btLst = { s.tables.btLst with i := nextIdx s.tables.btLst.i }) ∨
    (∃ address gap device, a = .add address gap ∧ addReturns s.tables address gap ≠ -1 ∧
      t.watch = Function.update (fun j => (s.watch j).map Watch.accept) s.tables.btLst.i
        (some {}) ∧
      t.evicted = (s.watch s.tables.btLst.i).toList ++ s.evicted ∧
      t.tables.btLst = {
        deviceLst := Function.update s.tables.btLst.deviceLst s.tables.btLst.i device
        i := nextIdx s.tables.btLst.i }) := by
  obtain ⟨x, hx, rfl⟩ := Option.map_eq_some_iff.mp h
  rcases tableStep_cases hx with ⟨d, rfl, rfl⟩ | ⟨address, gap, rfl, -, rfl⟩ | ⟨rfl, -, rfl⟩ |
    ⟨p, hp, rfl, hpass, rfl⟩ | ⟨p, rfl, hpass, hp, rfl⟩
  · exact Or.inl ⟨(fun _ _ heq => by cases heq), rfl, rfl, rfl⟩
  · rcases addBtDevice_cases (fun k => stamp (reading s.tables.now gap k)) s.tables.btLst address
      with ⟨-, heq⟩ | ⟨-, heq⟩
    · have hreturns : addReturns s.tables address gap = -1 := by rw [addReturns, heq]
      refine Or.inr (Or.inr (Or.inl ⟨address, gap, rfl, hreturns, ?_⟩))
      simp only [count, hreturns, if_true, heq, and_self]
    · have hreturns : addReturns s.tables address gap ≠ -1 := by
        rw [addReturns, heq]
        exact fun hneg => by cases hneg
      refine Or.inr (Or.inr (Or.inr ⟨address, gap,
        { timestamp := stamp (reading s.tables.now gap BT_LST_SIZE), addr := address }, rfl,
        hreturns, ?_⟩))
      simp only [count, hreturns, if_false, heq, and_self]
  · exact Or.inl ⟨(fun _ _ heq => by cases heq), rfl, rfl, rfl⟩
  · have hadd : ∀ address gap, TableAct.sendNext ≠ .add address gap :=
      fun _ _ heq => by cases heq
    by_cases hdue : sendDue (stamp s.tables.now) s.tables.sentLst p.lastIndex
        (s.tables.btLst.deviceLst ⟨p.i, hp⟩) = true
    · have hnext : nextPublished s.tables = some ⟨p.i, hp⟩ := by
        simp [nextPublished, hpass, hp, hdue]
      refine Or.inr (Or.inl ⟨⟨p.i, hp⟩, hadd, ?_⟩)
      simp [count, hnext, sendSlot, hdue]
    · have hnext : nextPublished s.tables = none := by
        simp [nextPublished, hpass, hp, hdue]
      refine Or.inl ⟨hadd, ?_⟩
      simp [count, hnext, sendSlot, hdue]
  · have hnext : nextPublished s.tables = none := by
      simp [nextPublished, hpass, hp]
    refine Or.inl ⟨(fun _ _ heq => by cases heq), ?_⟩
    simp [count, hnext]

theorem watchInv_step (s : EvictState) (a : TableAct) (t : EvictState) (hinv : WatchInv s)
    (h : evictStep s a = some t) : WatchInv t := by
  rcases evictStep_cases h with ⟨-, hw, -, hbt⟩ | ⟨k, -, hw, -, hbt⟩ |
    ⟨address, gap, -, -, hw, -, hbt⟩ | ⟨address, gap, device, -, -, hw, -, hbt⟩
  · refine ⟨?_, ?_⟩
    · rw [hw, hbt]
      exact hinv.rounds
    · rw [hw, hbt]
      exact hinv.empty
  · refine ⟨fun j w hj => ?_, fun j hj => ?_⟩
    · rw [hw] at hj
      rw [hbt]
      by_cases hjk : j = k
      · rw [hjk, Function.update_self] at hj
        cases hj
      · rw [Function.update_of_ne hjk] at hj
        exact hinv.rounds j w hj
    · rw [hw] at hj
      rw [hbt]
      by_cases hjk : j = k
      · rw [hjk]
        exact Function.update_self _ _ _
      · rw [Function.update_of_ne hjk] at hj
        exact (Function.update_of_ne hjk _ _).trans (hinv.empty j hj)
  · refine ⟨fun j w hj => ?_, fun j hj => ?_⟩
    · rw [hw] at hj
      rw [hbt]
      obtain ⟨v, hv, rfl⟩ := Option.map_eq_some_iff.mp hj
      have hrounds := hinv.rounds j v hv
      by_cases hjk : j = s.tables.btLst.i
      · -- the round of this entry ends, and a new one begins
        rw [hjk, ahead_self] at hrounds
        rw [hjk, ahead_nextIdx_self]
        simp only [Watch.reject, decide_true, Bool.toNat_true, Nat.mul_succ]
        omega
      · rw [← ahead_nextIdx hjk] at hrounds
        simp only [Watch.reject, hjk, decide_false, Bool.toNat_false, Nat.add_zero]
        omega
    · rw [hw] at hj
      rw [hbt]
      exact hinv.empty j (Option.map_eq_none_iff.mp hj)
  · refine ⟨fun j w hj => ?_, fun j hj => ?_⟩
    · rw [hw] at hj
      rw [hbt]
      by_cases hjk : j = s.tables.btLst.i
      · rw [hjk, Function.update_self] at hj
        obtain rfl := Option.some.inj hj
        rw [hjk, ahead_nextIdx_self]
        rfl
      · rw [Function.update_of_ne hjk] at hj
        obtain ⟨v, hv, rfl⟩ := Option.map_eq_some_iff.mp hj
        have hrounds := hinv.rounds j v hv
        rw [← ahead_nextIdx hjk] at hrounds
        simp only [Watch.accept]
        omega
    · rw [hw] at hj
      rw [hbt]
      by_cases hjk : j = s.tables.btLst.i
      · rw [hjk, Function.update_self] at hj
        cases hj
      · rw [Function.update_of_ne hjk] at hj
        exact (Function.update_of_ne hjk _ _).trans (hinv.empty j (Option.map_eq_none_iff.mp hj))

/-- At the cursor the additions accepted since are four or more exactly when the
calls rejected since fit the rounds. -/
theorem late_iff {s : EvictState} (hinv : WatchInv s) {w : Watch}
    (hw : s.watch s.tables.btLst.i = some w) :
    BT_LST_SIZE ≤ w.accepted + 1 ↔ w.rejected ≤ BT_LST_SIZE * w.rounds := by
  have hrounds := hinv.rounds _ w hw
  rw [ahead_self] at hrounds
  omega

theorem evictedLate_step (s : EvictState) (a : TableAct) (t : EvictState) (hinv : WatchInv s)
    (h : evictStep s a = some t) : EvictedLate t ↔ EvictedLate s ∧ FewRejected s a := by
  unfold EvictedLate
  rcases evictStep_cases h with ⟨hadd, -, he, -⟩ | ⟨k, hadd, -, he, -⟩ |
    ⟨address, gap, rfl, hreturns, -, he, -⟩ | ⟨address, gap, device, rfl, hreturns, -, he, -⟩
  · rw [he]
    exact (and_iff_left fun address gap heq => absurd heq (hadd address gap)).symm
  · rw [he]
    exact (and_iff_left fun address gap heq => absurd heq (hadd address gap)).symm
  · rw [he]
    refine (and_iff_left fun address' gap' heq hreturns' => ?_).symm
    cases heq
    exact absurd hreturns hreturns'
  · have hfew : FewRejected s (.add address gap) ↔
        ∀ w ∈ (s.watch s.tables.btLst.i).toList, BT_LST_SIZE ≤ w.accepted + 1 := by
      constructor
      · intro hcond w hw
        have hw : s.watch s.tables.btLst.i = some w := by simpa using hw
        exact (late_iff hinv hw).mpr (hcond address gap rfl hreturns w hw)
      · intro hlate address' gap' _ _ w hw
        exact (late_iff hinv hw).mp (hlate w (by simp [hw]))
    rw [he, List.forall_mem_append, and_comm, hfew]

/-- **Eviction order.** In every run of calls of `add_bt_device` and
`send_device`, at any times, the entries overwritten before they were published
were overwritten by the fifth addition accepted after them, or a later one, if
and only if no eviction came after more rejected calls than five for each full
round of the cursor. -/
theorem evicted_late_iff {as : List TableAct} {u : EvictState}
    (hrun : run evictStep {} as = some u) : EvictedLate u ↔ Along evictStep FewRejected {} as := by
  have hstart : EvictedLate {} := fun w hw => by cases hw
  exact iff_along_of_along (D := fun _ _ => True)
    (fun s a t hinv _ h => watchInv_step s a t hinv h)
    (fun s a t hinv _ h => evictedLate_step s a t hinv h) watchInv_init hstart
    (fun _ _ _ _ _ _ => trivial) hrun

/-! ## A duplicate that keeps coming -/

def tag : BdAddr := #v[0x51, 0x62, 0x73, 0x84, 0x95, 0xA6]

def passerBy : BdAddr := #v[0x17, 0x28, 0x39, 0x4A, 0x5B, 0x6C]

/-- A device is found and reported four more times, then another one comes. -/
def duplicateRun : List TableAct :=
  [.wait 1, .add tag fun _ => 0] ++ List.replicate 4 (.add tag fun _ => 0) ++
    [.add passerBy fun _ => 0]

theorem duplicateRun_result :
    (run evictStep {} duplicateRun).map EvictState.evicted =
      some [{ accepted := 0, rejected := 4, rounds := 0 }] := by
  decide +kernel

/-- The first addition accepted after it overwrites the waiting device. -/
theorem evicted_by_first : ∃ u, run evictStep {} duplicateRun = some u ∧ ¬ EvictedLate u := by
  obtain ⟨u, hu, he⟩ := Option.map_eq_some_iff.mp duplicateRun_result
  refine ⟨u, hu, fun hlate => ?_⟩
  have hfirst := hlate { accepted := 0, rejected := 4, rounds := 0 } (by rw [he]; simp)
  revert hfirst
  decide

/-- A device is found, and five others after it. -/
def crowdRun : List TableAct :=
  [.wait 1, .add tag fun _ => 0] ++
    [0x01, 0x02, 0x03, 0x04].map (fun b => .add #v[b, 0x62, 0x73, 0x84, 0x95, 0xA6] fun _ => 0) ++
    [.add passerBy fun _ => 0]

theorem crowdRun_result :
    (run evictStep {} crowdRun).map EvictState.evicted =
      some [{ accepted := 4, rejected := 0, rounds := 0 }] := by
  decide +kernel

theorem duplicateRun_rejected : ¬ Along evictStep FewRejected {} duplicateRun ∧
    Along evictStep FewRejected {} crowdRun := by
  constructor
  · obtain ⟨u, hu, he⟩ := Option.map_eq_some_iff.mp duplicateRun_result
    intro halong
    have hlate := (evicted_late_iff hu).mpr halong { accepted := 0, rejected := 4, rounds := 0 }
      (by rw [he]; simp)
    revert hlate
    decide
  · obtain ⟨u, hu, he⟩ := Option.map_eq_some_iff.mp crowdRun_result
    apply (evicted_late_iff hu).mp
    unfold EvictedLate
    rw [he]
    decide

end SmartDoorLock
