import SmartDoorLock.Firmware.Dedup

/-!
# One live entry for an address

`add_bt_device` looks for the address in every slot of `bt_lst` before it writes to
the slot at its cursor, whatever that slot holds. So an address may come to stand in
two slots, but not before the older entry is `BT_DEVICE_LIFETIME` old.

The table here is that of the source, with a byte for the cursor and memory behind
the five slots. It is matched by the one with its slots and its cursor in `Fin`, for
which the invariant is proved.
-/

namespace SmartDoorLock

open WrapClock Machine

/-! ## The table in memory -/

/-- `struct _bt_device_lst`: an index past the last slot is a place of its own. -/
structure BtMem where
  deviceLst : ℕ → BtDevice := fun _ => {}
  i : UInt8 := 0

/-- `add_bt_device`, with the readings of `cur_time()` as in `addBtDevice`. -/
def BtMem.addBtDevice (clk : ℕ → UInt32) (btLst : BtMem) (address : BdAddr) : BtMem × ℤ :=
  let idx := btLst.i.toNat
  let btLst := { btLst with i := UInt8.ofNat ((idx + 1) % BT_LST_SIZE) }
  if (List.range BT_LST_SIZE).any fun k => !isAvailable (clk k) (btLst.deviceLst k) address then
    (btLst, -1)
  else
    ({ btLst with
        deviceLst := Function.update btLst.deviceLst idx
          { timestamp := clk BT_LST_SIZE, addr := address } },
      idx)

structure MemState where
  now : ℕ := 0
  btLst : BtMem := {}
  sentLst : SentLst := fun _ => {}
  pass : Option Pass := none

/-- One iteration of the loop of `send_device`. -/
def MemState.sendSlot (s : MemState) (i : ℕ) (lastIndex : Option (Fin SENT_LST_SIZE)) : MemState :=
  let cur := s.btLst.deviceLst i
  if sendDue (stamp s.now) s.sentLst lastIndex cur then
    { s with
      btLst := { s.btLst with deviceLst := Function.update s.btLst.deviceLst i {} }
      sentLst := Function.update s.sentLst (sentIdx cur.addr) cur
      pass := some ⟨i + 1, some (sentIdx cur.addr)⟩ }
  else { s with pass := some ⟨i + 1, lastIndex⟩ }

/-- The calls of the two functions, as in `tableStep`. -/
def memStep (s : MemState) : TableAct → Option MemState
  | .wait d => some { s with now := s.now + d }
  | .add address gap =>
      match s.pass with
      | none => some { s with
          now := reading s.now gap BT_LST_SIZE
          btLst := (s.btLst.addBtDevice (fun k => stamp (reading s.now gap k)) address).1 }
      | some _ => none
  | .sendStart =>
      match s.pass with
      | none => some { s with pass := some ⟨0, none⟩ }
      | some _ => none
  | .sendNext =>
      match s.pass with
      | none => none
      | some p =>
          if p.i < BT_LST_SIZE then some (s.sendSlot p.i p.lastIndex)
          else some { s with pass := none }

/-! ## The property -/

/-- The address of an empty slot. -/
def noAddr : BdAddr := Vector.replicate 6 0

/-- Two time stamps are a lifetime apart. -/
def Apart (t t' : UInt32) : Prop :=
  t.toNat + BT_DEVICE_LIFETIME.toNat ≤ t'.toNat ∨ t'.toNat + BT_DEVICE_LIFETIME.toNat ≤ t.toNat

theorem Apart.symm {t t' : UInt32} (h : Apart t t') : Apart t' t := Or.symm h

/-- Two slots with one address are a lifetime apart. -/
def SlotsApart (btLst : BtLst) : Prop :=
  ∀ j k, j ≠ k → (btLst.deviceLst j).addr = (btLst.deviceLst k).addr →
    (btLst.deviceLst j).addr ≠ noAddr →
    Apart (btLst.deviceLst j).timestamp (btLst.deviceLst k).timestamp

/-! ## The invariant -/

theorem addr_of_not_available {curTime : UInt32} {device : BtDevice} {addr : BdAddr}
    (h : isAvailable curTime device addr = false) : device.addr = addr := by
  by_contra hne
  rw [isAvailable, if_pos ((any_byte_ne_iff _ _).mpr hne)] at h
  cases h

/-- A slot that was found free while it held the address is a lifetime older than
what is stored then. -/
theorem apart_of_available {now : ℕ} {gap : ℕ → ℕ} {device : BtDevice} {address : BdAddr}
    {k : ℕ} (hk : k ≤ BT_LST_SIZE) (hB : reading now gap BT_LST_SIZE < 2 ^ 32)
    (hle : device.timestamp.toNat ≤ now) (haddr : device.addr = address)
    (hfree : isAvailable (stamp (reading now gap k)) device address = true) :
    Apart device.timestamp (stamp (reading now gap BT_LST_SIZE)) := by
  have hlater := reading_mono now gap hk
  subst haddr
  have hold := (isAvailable_iff_lifetime (hlater.trans_lt hB)
    (hle.trans (le_reading now gap k))).mp hfree
  left
  rw [toNat_stamp_of_lt hB]
  exact hold.trans hlater

/-- An accepted device stands in one slot, and the other slots are as before. -/
theorem slotsApart_update {btLst : BtLst} (hapart : SlotsApart btLst) (i : Fin BT_LST_SIZE)
    (device : BtDevice)
    (hnew : ∀ k, k ≠ i → (btLst.deviceLst k).addr = device.addr →
      Apart (btLst.deviceLst k).timestamp device.timestamp) :
    SlotsApart { btLst with deviceLst := Function.update btLst.deviceLst i device } := by
  intro j k hjk haddr hne
  simp only at haddr hne ⊢
  by_cases hj : j = i
  · subst hj
    rw [Function.update_self, Function.update_of_ne (Ne.symm hjk)] at haddr ⊢
    exact (hnew k (Ne.symm hjk) haddr.symm).symm
  · rw [Function.update_of_ne hj] at haddr hne ⊢
    by_cases hk : k = i
    · subst hk
      rw [Function.update_self] at haddr ⊢
      exact hnew j hj haddr
    · rw [Function.update_of_ne hk] at haddr ⊢
      exact hapart j k hjk haddr hne

/-- A slot that is cleared has no address. -/
theorem slotsApart_clear {btLst : BtLst} (hapart : SlotsApart btLst) (i : Fin BT_LST_SIZE) :
    SlotsApart (btLst.clear i) := by
  intro j k hjk haddr hne
  rcases clear_slot btLst i j with hj | hj
  · rcases clear_slot btLst i k with hk | hk
    · rw [hj, hk] at haddr
      rw [hj] at hne
      rw [hj, hk]
      exact hapart j k hjk haddr hne
    · rw [haddr, hk] at hne
      exact absurd rfl hne
  · rw [hj] at hne
    exact absurd rfl hne

theorem slotsApart_add {s : TableState} (hinv : TableInv s) (hapart : SlotsApart s.btLst)
    (address : BdAddr) (gap : ℕ → ℕ) (hB : reading s.now gap BT_LST_SIZE < 2 ^ 32) :
    SlotsApart (addBtDevice (fun k => stamp (reading s.now gap k)) s.btLst address).1 := by
  rcases addBtDevice_cases (fun k => stamp (reading s.now gap k)) s.btLst address with
    ⟨-, heq⟩ | ⟨hfree, heq⟩
  · rw [heq]
    exact hapart
  · rw [heq]
    apply slotsApart_update hapart
    intro k hk haddr
    exact apart_of_available k.isLt.le hB (hinv.slot_le k) haddr (hfree k)

theorem slotsApart_sendSlot {s : TableState} (hapart : SlotsApart s.btLst) (i : Fin BT_LST_SIZE)
    (lastIndex : Option (Fin SENT_LST_SIZE)) : SlotsApart (sendSlot s i lastIndex).btLst := by
  unfold sendSlot
  simp only
  split
  · exact slotsApart_clear hapart i
  · exact hapart

/-- **One step** keeps equal addresses apart. -/
theorem slotsApart_step {s t : TableState} {a : TableAct} (hinv : TableInv s)
    (hapart : SlotsApart s.btLst) (hB : t.now < 2 ^ 32) (h : tableStep s a = some t) :
    SlotsApart t.btLst := by
  rcases tableStep_cases h with ⟨d, -, rfl⟩ | ⟨address, gap, -, -, rfl⟩ | ⟨-, -, rfl⟩ |
    ⟨p, hi, -, -, rfl⟩ | ⟨p, -, -, -, rfl⟩
  · exact hapart
  · exact slotsApart_add hinv hapart address gap hB
  · exact hapart
  · exact slotsApart_sendSlot hapart _ _
  · exact hapart

/-- **Every run** does. -/
theorem slotsApart_run {acts : List TableAct} {s : TableState} (hB : s.now < 2 ^ 32)
    (hrun : run tableStep {} acts = some s) : TableInv s ∧ SlotsApart s.btLst := by
  refine run_inv_within (B := fun s => s.now < 2 ^ 32)
    (P := fun s => TableInv s ∧ SlotsApart s.btLst) ?_ ?_ ?_ hB hrun
  · intro s a t ht hstep
    exact (tableStep_now_le hstep).trans_lt ht
  · rintro s a t ⟨hinv, hapart⟩ ht hstep
    exact ⟨tableInv_step s a t hinv ht hstep, slotsApart_step hinv hapart ht hstep⟩
  · refine ⟨tableInv_init, fun j k _ _ hne => ?_⟩
    exact absurd rfl hne

/-! ## The table in memory is that table -/

/-- The memory holds the table, and nothing was written behind it. -/
structure BtMem.Holds (m : BtMem) (btLst : BtLst) : Prop where
  slot : ∀ k : Fin BT_LST_SIZE, m.deviceLst k = btLst.deviceLst k
  cursor : m.i.toNat = btLst.i
  beyond : ∀ k, BT_LST_SIZE ≤ k → m.deviceLst k = {}

structure Represents (r : MemState) (s : TableState) : Prop where
  now_eq : r.now = s.now
  sent_eq : r.sentLst = s.sentLst
  pass_eq : r.pass = s.pass
  holds : r.btLst.Holds s.btLst

theorem represents_init : Represents {} {} where
  now_eq := rfl
  sent_eq := rfl
  pass_eq := rfl
  holds := ⟨fun _ => rfl, rfl, fun _ _ => rfl⟩

/-- A slot is written in both. -/
theorem holds_update {m : BtMem} {btLst : BtLst} (h : m.Holds btLst) (i : Fin BT_LST_SIZE)
    (device : BtDevice) :
    BtMem.Holds { m with deviceLst := Function.update m.deviceLst i device }
      { btLst with deviceLst := Function.update btLst.deviceLst i device } where
  slot := by
    intro k
    simp only
    by_cases hk : k = i
    · subst hk
      rw [Function.update_self, Function.update_self]
    · rw [Function.update_of_ne hk, Function.update_of_ne (Fin.val_ne_of_ne hk)]
      exact h.slot k
  cursor := h.cursor
  beyond := by
    intro k hk
    simp only
    rw [Function.update_of_ne (Nat.ne_of_gt (i.isLt.trans_le hk))]
    exact h.beyond k hk

/-- The cursor moves in both. -/
theorem holds_nextIdx {m : BtMem} {btLst : BtLst} (h : m.Holds btLst) :
    BtMem.Holds { m with i := UInt8.ofNat ((m.i.toNat + 1) % BT_LST_SIZE) }
      { btLst with i := nextIdx btLst.i } where
  slot := h.slot
  cursor := by
    have hlt : (btLst.i.val + 1) % BT_LST_SIZE < 5 := Nat.mod_lt _ (by decide)
    simp only
    rw [h.cursor, UInt8.toNat_ofNat', Nat.mod_eq_of_lt (hlt.trans (by decide))]
    rfl
  beyond := h.beyond

theorem holds_add {m : BtMem} {btLst : BtLst} (h : m.Holds btLst) (clk : ℕ → UInt32)
    (address : BdAddr) :
    (m.addBtDevice clk address).1.Holds (addBtDevice clk btLst address).1 := by
  have hany : ((List.range BT_LST_SIZE).any fun k =>
        !isAvailable (clk k) (m.deviceLst k) address) =
      (List.finRange BT_LST_SIZE).any fun k =>
        !isAvailable (clk k) (btLst.deviceLst k) address := by
    rw [← List.map_coe_finRange_eq_range, List.any_map]
    congr 1
    funext k
    rw [Function.comp_apply, h.slot k]
  have hnext := holds_nextIdx h
  unfold BtMem.addBtDevice addBtDevice
  simp only [hany]
  split
  · exact hnext
  · have hwrite := holds_update hnext btLst.i { timestamp := clk BT_LST_SIZE, addr := address }
    simp only at hwrite ⊢
    rwa [h.cursor] at hwrite ⊢

theorem represents_sendSlot {r : MemState} {s : TableState} (h : Represents r s)
    (i : Fin BT_LST_SIZE) (lastIndex : Option (Fin SENT_LST_SIZE)) :
    Represents (r.sendSlot i lastIndex) (sendSlot s i lastIndex) := by
  unfold MemState.sendSlot sendSlot
  simp only [h.now_eq, h.sent_eq, h.holds.slot i]
  split
  · exact ⟨rfl, rfl, rfl, holds_update h.holds i {}⟩
  · exact ⟨rfl, rfl, rfl, h.holds⟩

/-- **A step in memory** is the same step of the table. -/
theorem represents_step {r r' : MemState} {s : TableState} {a : TableAct} (h : Represents r s)
    (hstep : memStep r a = some r') : ∃ s', tableStep s a = some s' ∧ Represents r' s' := by
  cases a with
  | wait d =>
      cases hstep
      exact ⟨_, rfl, congrArg (· + d) h.now_eq, h.sent_eq, h.pass_eq, h.holds⟩
  | add address gap =>
      rw [memStep, h.pass_eq] at hstep
      rw [tableStep]
      cases hpass : s.pass with
      | none =>
          rw [hpass] at hstep
          cases hstep
          refine ⟨_, rfl, ?_, h.sent_eq, rfl, ?_⟩
          · exact congrArg (reading · gap BT_LST_SIZE) h.now_eq
          · simp only [h.now_eq]
            exact holds_add h.holds _ address
      | some p => simp [hpass] at hstep
  | sendStart =>
      rw [memStep, h.pass_eq] at hstep
      rw [tableStep]
      cases hpass : s.pass with
      | none =>
          rw [hpass] at hstep
          cases hstep
          exact ⟨_, rfl, h.now_eq, h.sent_eq, rfl, h.holds⟩
      | some p => simp [hpass] at hstep
  | sendNext =>
      rw [memStep, h.pass_eq] at hstep
      rw [tableStep]
      cases hpass : s.pass with
      | none => simp [hpass] at hstep
      | some p =>
          rw [hpass] at hstep
          by_cases hi : p.i < BT_LST_SIZE
          · simp only [if_pos hi, Option.some.injEq] at hstep
            subst hstep
            refine ⟨_, dif_pos hi, represents_sendSlot h ⟨p.i, hi⟩ p.lastIndex⟩
          · simp only [if_neg hi, Option.some.injEq] at hstep
            subst hstep
            exact ⟨_, dif_neg hi, h.now_eq, h.sent_eq, rfl, h.holds⟩

/-- **A run in memory** is a run of the table. -/
theorem represents_run {acts : List TableAct} {r : MemState} (hrun : run memStep {} acts = some r) :
    ∃ s, run tableStep {} acts = some s ∧ Represents r s := by
  refine run_lockstep (C := fun _ _ => True) (R := Represents) ?_ represents_init
    (fun _ _ _ _ _ _ => trivial) hrun
  intro r a r' s h _ hstep
  exact represents_step h hstep

/-! ## The pending table -/

/-- Two live entries of an address stand in one slot. -/
theorem live_unique {btLst : BtLst} (hapart : SlotsApart btLst) {now time : ℕ}
    (hle : ∀ k, (btLst.deviceLst k).timestamp.toNat ≤ now) (hnow : now ≤ time)
    (htime : time < 2 ^ 32) {addr : BdAddr} (haddr : addr ≠ noAddr) {j k : Fin BT_LST_SIZE}
    (hj : isAvailable (stamp time) (btLst.deviceLst j) addr = false)
    (hk : isAvailable (stamp time) (btLst.deviceLst k) addr = false) : j = k := by
  have hyoung : ∀ l, isAvailable (stamp time) (btLst.deviceLst l) addr = false →
      time < (btLst.deviceLst l).timestamp.toNat + BT_DEVICE_LIFETIME.toNat := by
    intro l hl
    obtain rfl := addr_of_not_available hl
    refine Nat.lt_of_not_le fun hold => ?_
    rw [(isAvailable_iff_lifetime htime ((hle l).trans hnow)).mpr hold] at hl
    cases hl
  by_contra hjk
  have hjaddr := addr_of_not_available hj
  have hsame := hjaddr.trans (addr_of_not_available hk).symm
  rw [← hjaddr] at haddr
  rcases hapart j k hjk hsame haddr with hold | hold
  · exact absurd (hyoung j hj) (Nat.not_lt.mpr (hold.trans ((hle k).trans hnow)))
  · exact absurd (hyoung k hk) (Nat.not_lt.mpr (hold.trans ((hle j).trans hnow)))

/-- **The pending table.** In every state of every run of calls while the clock has
not wrapped: the cursor stands at a slot, two slots with one address have time stamps
a lifetime apart, and so at most one of them holds a live entry, now or later. -/
theorem pending_unique (acts : List TableAct) (r : MemState) (hrun : run memStep {} acts = some r)
    (hnow : r.now < 2 ^ 32) :
    r.btLst.i.toNat < BT_LST_SIZE ∧
    (∀ j < BT_LST_SIZE, ∀ k < BT_LST_SIZE, j ≠ k →
      (r.btLst.deviceLst j).addr = (r.btLst.deviceLst k).addr →
      (r.btLst.deviceLst j).addr ≠ noAddr →
      Apart (r.btLst.deviceLst j).timestamp (r.btLst.deviceLst k).timestamp) ∧
    ∀ time, r.now ≤ time → time < 2 ^ 32 → ∀ addr, addr ≠ noAddr →
      ∀ j < BT_LST_SIZE, ∀ k < BT_LST_SIZE,
        isAvailable (stamp time) (r.btLst.deviceLst j) addr = false →
        isAvailable (stamp time) (r.btLst.deviceLst k) addr = false → j = k := by
  obtain ⟨s, hs, hrep⟩ := represents_run hrun
  have hbound := hnow
  rw [hrep.now_eq] at hbound
  obtain ⟨hinv, hapart⟩ := slotsApart_run hbound hs
  have hslot : ∀ k (hk : k < BT_LST_SIZE), r.btLst.deviceLst k = s.btLst.deviceLst ⟨k, hk⟩ :=
    fun k hk => hrep.holds.slot ⟨k, hk⟩
  refine ⟨?_, ?_, ?_⟩
  · rw [hrep.holds.cursor]
    exact s.btLst.i.isLt
  · intro j hj k hk hjk
    rw [hslot j hj, hslot k hk]
    exact hapart ⟨j, hj⟩ ⟨k, hk⟩ (Fin.ne_of_val_ne hjk)
  · intro time hle htime addr haddr j hj k hk
    rw [hslot j hj, hslot k hk]
    rw [hrep.now_eq] at hle
    intro hlive hlive'
    exact congrArg Fin.val (live_unique hapart hinv.slot_le hle htime haddr hlive hlive')

/-! A device that is found again: while its entry is live, and when it is a lifetime
old. -/

def caller : BdAddr := #v[0x1A, 0x2B, 0x3C, 0x4D, 0x5E, 0x6F]

def foundAgain : List TableAct :=
  [.wait 1000, .add caller fun _ => 0, .wait 33999, .add caller fun _ => 0, .wait 1,
    .add caller fun _ => 0]

theorem foundAgain_result : (run memStep {} foundAgain).map (fun r =>
      (r.now, r.btLst.deviceLst 0, r.btLst.deviceLst 2)) =
    some (35000, ⟨1000, caller⟩, ⟨35000, caller⟩) := by
  decide +kernel

theorem foundAgain_unique : ∃ r, run memStep {} foundAgain = some r ∧
    (r.btLst.deviceLst 0).addr = (r.btLst.deviceLst 2).addr ∧
    Apart (r.btLst.deviceLst 0).timestamp (r.btLst.deviceLst 2).timestamp := by
  obtain ⟨r, hrun, hresult⟩ := Option.map_eq_some_iff.mp foundAgain_result
  obtain ⟨hnow, hfirst, hthird⟩ : r.now = 35000 ∧ r.btLst.deviceLst 0 = ⟨1000, caller⟩ ∧
      r.btLst.deviceLst 2 = ⟨35000, caller⟩ := by
    simpa using hresult
  have haddr : (r.btLst.deviceLst 0).addr = (r.btLst.deviceLst 2).addr := by
    rw [hfirst, hthird]
  have hne : (r.btLst.deviceLst 0).addr ≠ noAddr := by
    rw [hfirst]
    decide
  refine ⟨r, hrun, haddr, ?_⟩
  exact (pending_unique foundAgain r hrun (by omega)).2.1 0 (by decide) 2 (by decide) (by decide)
    haddr hne

end SmartDoorLock
