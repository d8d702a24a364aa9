import SmartDoorLock.Lib.Machine
import SmartDoorLock.Lib.WrapClock
import SmartDoorLock.Lib.CText
import Mathlib.Data.List.FinRange
import Mathlib.Logic.Function.Basic

/-!
# The two device tables

`bt_lst` holds up to five devices found by the scanner and not yet reported;
`sent_lst` is a hash table of the devices reported last, by the low five bits
of `addr[0]`. `add_bt_device` fills the first, `send_device` moves entries
from the first to the second and publishes them. Both read `cur_time()`
several times, and the clock may advance between two readings.

The last section is the machine of all runs of calls of the two functions,
with one iteration of the loop of `send_device` as a step.
-/

namespace SmartDoorLock

open CText WrapClock

/-! ## Entries -/

abbrev BT_LST_SIZE : ℕ := 5
abbrev SENT_LST_SIZE : ℕ := 32
def BT_DEVICE_LIFETIME : UInt32 := 34000

/-- `bd_addr`, `addr[0]` first. -/
abbrev BdAddr : Type := Vector UInt8 6

/-- `struct bt_device`; the default is the zeroed entry. -/
structure BtDevice where
  timestamp : UInt32 := 0
  addr : BdAddr := Vector.replicate 6 0
deriving DecidableEq, Repr

/-- `struct _bt_device_lst`: the slots and the cursor. -/
structure BtLst where
  deviceLst : Fin BT_LST_SIZE → BtDevice := fun _ => {}
  i : Fin BT_LST_SIZE := 0

abbrev SentLst : Type := Fin SENT_LST_SIZE → BtDevice

/-- `is_available`: the entry is another device, or its lifetime is over. -/
def isAvailable (curTime : UInt32) (device : BtDevice) (addr : BdAddr) : Bool :=
  if (List.finRange 6).any fun i => device.addr[i] != addr[i] then true
  else BT_DEVICE_LIFETIME ≤ curTime - device.timestamp

theorem any_byte_ne_iff (a b : BdAddr) :
    ((List.finRange 6).any fun i => a[i] != b[i]) = true ↔ a ≠ b := by
  rw [List.any_eq_true]
  constructor
  · rintro ⟨i, -, hi⟩ rfl
    simp at hi
  · intro hne
    by_contra hall
    apply hne
    apply Vector.ext
    intro i hi
    by_contra hbyte
    exact hall ⟨⟨i, hi⟩, List.mem_finRange _, by simpa using hbyte⟩

theorem isAvailable_of_eq {device : BtDevice} {addr : BdAddr} (h : device.addr = addr)
    (curTime : UInt32) :
    isAvailable curTime device addr = decide (BT_DEVICE_LIFETIME ≤ curTime - device.timestamp) := by
  rw [isAvailable, if_neg]
  exact fun hany => (any_byte_ne_iff _ _).mp hany h

/-- On the clock: an entry of the same device frees its place once it is
`BT_DEVICE_LIFETIME` old. -/
theorem isAvailable_iff_lifetime {now : ℕ} (hnow : now < 2 ^ 32) {device : BtDevice}
    (hle : device.timestamp.toNat ≤ now) :
    isAvailable (stamp now) device device.addr = true ↔
      device.timestamp.toNat + 34000 ≤ now := by
  rw [isAvailable_of_eq rfl, decide_eq_true_eq, ← stamp_toNat device.timestamp]
  rw [le_elapsed_iff _ hle (by omega), stamp_toNat]
  rfl

/-! ## `add_bt_device` -/

/-- The cursor after `bt_lst.i = (bt_lst.i + 1) % BT_LST_SIZE`. -/
def nextIdx (i : Fin BT_LST_SIZE) : Fin BT_LST_SIZE :=
  ⟨(i.val + 1) % BT_LST_SIZE, Nat.mod_lt _ (by decide)⟩

/-- `add_bt_device`; `clk k` is the `cur_time()` of the test of slot `k`, and
`clk BT_LST_SIZE` the one stored. The cursor moves even when the device is
rejected, and the local `contains` is never used. -/
def addBtDevice (clk : ℕ → UInt32) (btLst : BtLst) (address : BdAddr) : BtLst × Int :=
  let idx := btLst.i
  let btLst := { btLst with i := nextIdx idx }
  if (List.finRange BT_LST_SIZE).any fun k => !isAvailable (clk k) (btLst.deviceLst k) address then
    (btLst, -1)
  else
    ({ btLst with
        deviceLst := Function.update btLst.deviceLst idx
          { timestamp := clk BT_LST_SIZE, addr := address } },
      idx.val)

/-- **What `add_bt_device` does**: the cursor moves on, and the entry it stood
at is replaced or nothing is. -/
theorem addBtDevice_cases (clk : ℕ → UInt32) (btLst : BtLst) (address : BdAddr) :
    ((∃ k : Fin BT_LST_SIZE, isAvailable (clk k) (btLst.deviceLst k) address = false) ∧
        addBtDevice clk btLst address = ({ btLst with i := nextIdx btLst.i }, -1)) ∨
      ((∀ k : Fin BT_LST_SIZE, isAvailable (clk k) (btLst.deviceLst k) address = true) ∧
        addBtDevice clk btLst address =
          ({ btLst with
              deviceLst := Function.update btLst.deviceLst btLst.i
                { timestamp := clk BT_LST_SIZE, addr := address }
              i := nextIdx btLst.i }, (btLst.i.val : ℤ))) := by
  by_cases h : ∃ k : Fin BT_LST_SIZE, isAvailable (clk k) (btLst.deviceLst k) address = false
  · refine Or.inl ⟨h, ?_⟩
    obtain ⟨k, hk⟩ := h
    rw [addBtDevice, if_pos]
    exact List.any_eq_true.mpr ⟨k, List.mem_finRange k, by simpa using hk⟩
  · refine Or.inr ⟨fun k => by simpa using fun hk => h ⟨k, hk⟩, ?_⟩
    rw [addBtDevice, if_neg]
    intro hany
    obtain ⟨k, -, hk⟩ := List.any_eq_true.mp hany
    exact h ⟨k, by simpa using hk⟩

/-- Every slot after the call is an old one, or the device just found. -/
theorem addBtDevice_slot (clk : ℕ → UInt32) (btLst : BtLst) (address : BdAddr)
    (k : Fin BT_LST_SIZE) :
    (addBtDevice clk btLst address).1.deviceLst k = btLst.deviceLst k ∨
      (addBtDevice clk btLst address).1.deviceLst k =
        { timestamp := clk BT_LST_SIZE, addr := address } := by
  rcases addBtDevice_cases clk btLst address with ⟨-, heq⟩ | ⟨-, heq⟩
  · exact Or.inl (by rw [heq])
  · rw [heq]
    by_cases hk : k = btLst.i
    · exact Or.inr (by rw [hk]; exact Function.update_self btLst.i _ _)
    · exact Or.inl (Function.update_of_ne hk _ _)

/-! ## `send_device` -/

/-- `cur.addr[0] & (SENT_LST_SIZE - 1)`. -/
def sentIdx (addr : BdAddr) : Fin SENT_LST_SIZE :=
  ⟨addr[0].toNat &&& (SENT_LST_SIZE - 1), Nat.and_lt_two_pow (n := 5) _ (by decide)⟩

/-- The condition of the loop body; `lastIndex` is `none` for `-1`. -/
def sendDue (curTime : UInt32) (sentLst : SentLst) (lastIndex : Option (Fin SENT_LST_SIZE))
    (cur : BtDevice) : Bool :=
  some (sentIdx cur.addr) ≠ lastIndex && cur.timestamp ≠ 0 &&
    isAvailable curTime (sentLst (sentIdx cur.addr)) cur.addr

theorem sendDue_iff {curTime : UInt32} {sentLst : SentLst}
    {lastIndex : Option (Fin SENT_LST_SIZE)} {cur : BtDevice} :
    sendDue curTime sentLst lastIndex cur = true ↔
      some (sentIdx cur.addr) ≠ lastIndex ∧ cur.timestamp ≠ 0 ∧
        isAvailable curTime (sentLst (sentIdx cur.addr)) cur.addr = true := by
  simp [sendDue, and_assoc]

/-- `bzero(bt_lst.device_lst + i, sizeof(bt_device))`. -/
def BtLst.clear (btLst : BtLst) (i : Fin BT_LST_SIZE) : BtLst :=
  { btLst with deviceLst := Function.update btLst.deviceLst i {} }

theorem clear_slot (btLst : BtLst) (i k : Fin BT_LST_SIZE) :
    (btLst.clear i).deviceLst k = btLst.deviceLst k ∨ (btLst.clear i).deviceLst k = {} := by
  by_cases hk : k = i
  · exact Or.inr (by rw [hk]; exact Function.update_self i _ _)
  · exact Or.inl (Function.update_of_ne hk _ _)

/-- The text of a device, `addr[5]` first: `%02X:%02X:%02X:%02X:%02X:%02X`. -/
def deviceText (addr : BdAddr) : List UInt8 :=
  hex2 addr[5] ++ ascii ":" ++ hex2 addr[4] ++ ascii ":" ++ hex2 addr[3] ++ ascii ":" ++
    hex2 addr[2] ++ ascii ":" ++ hex2 addr[1] ++ ascii ":" ++ hex2 addr[0]

/-! ## Runs of calls of the two functions -/

/-- One publication: the address, the time stamp its entry was found with, and
the true time at which it was handed over. -/
structure Publication where
  addr : BdAddr
  found : UInt32
  time : ℕ
deriving DecidableEq, Repr

/-- A call of `send_device` in progress: its loop variables. -/
structure Pass where
  i : ℕ
  lastIndex : Option (Fin SENT_LST_SIZE)
deriving DecidableEq, Repr

structure TableState where
  now : ℕ := 0
  btLst : BtLst := {}
  sentLst : SentLst := fun _ => {}
  pass : Option Pass := none
  /-- every publication since boot, the latest first -/
  published : List Publication := []

inductive TableAct where
  /-- `d` ms pass, between two calls or two iterations -/
  | wait (d : ℕ)
  /-- a call of `add_bt_device`; `gap k` ms pass before its `k`-th reading -/
  | add (address : BdAddr) (gap : ℕ → ℕ)
  /-- `send_device` is called -/
  | sendStart
  /-- the next iteration of its loop, or its return -/
  | sendNext

/-- One iteration of the loop of `send_device` on slot `i`. -/
def sendSlot (s : TableState) (i : Fin BT_LST_SIZE) (lastIndex : Option (Fin SENT_LST_SIZE)) :
    TableState :=
  let cur := s.btLst.deviceLst i
  if sendDue (stamp s.now) s.sentLst lastIndex cur then
    { s with
      btLst := s.btLst.clear i
      sentLst := Function.update s.sentLst (sentIdx cur.addr) cur
      pass := some ⟨i + 1, some (sentIdx cur.addr)⟩
      published := ⟨cur.addr, cur.timestamp, s.now⟩ :: s.published }
  else
    { s with pass := some ⟨i + 1, lastIndex⟩ }

def tableStep (s : TableState) : TableAct → Option TableState
  | .wait d => some { s with now := s.now + d }
  | .add address gap =>
      match s.pass with
      | none => some { s with
          now := reading s.now gap BT_LST_SIZE
          btLst := (addBtDevice (fun k => stamp (reading s.now gap k)) s.btLst address).1 }
      | some _ => none
  | .sendStart =>
      match s.pass with
      | none => some { s with pass := some ⟨0, none⟩ }
      | some _ => none
  | .sendNext =>
      match s.pass with
      | none => none
      | some p =>
          if h : p.i < BT_LST_SIZE then some (sendSlot s ⟨p.i, h⟩ p.lastIndex)
          else some { s with pass := none }

/-- **What a step does to the tables.** Time passes, a device is added, a pass
starts, an iteration publishes its slot, or it goes on without doing so. -/
theorem tableStep_cases {s t : TableState} {a : TableAct} (h : tableStep s a = some t) :
    (∃ d, a = .wait d ∧ t = { s with now := s.now + d }) ∨
    (∃ address gap, a = .add address gap ∧ s.pass = none ∧
      t = { s with
        now := reading s.now gap BT_LST_SIZE
        btLst := (addBtDevice (fun k => stamp (reading s.now gap k)) s.btLst address).1 }) ∨
    (a = .sendStart ∧ s.pass = none ∧ t = { s with pass := some ⟨0, none⟩ }) ∨
    (∃ p h, a = .sendNext ∧ s.pass = some p ∧ t = sendSlot s ⟨p.i, h⟩ p.lastIndex) ∨
    (∃ p, a = .sendNext ∧ s.pass = some p ∧ ¬ p.i < BT_LST_SIZE ∧
      t = { s with pass := none }) := by
  cases a with
  | wait d => exact Or.inl ⟨d, rfl, (Option.some.inj h).symm⟩
  | add address gap =>
      cases hpass : s.pass with
      | none =>
          rw [tableStep, hpass] at h
          exact Or.inr (Or.inl ⟨address, gap, rfl, rfl, (Option.some.inj h).symm⟩)
      | some p => simp [tableStep, hpass] at h
  | sendStart =>
      cases hpass : s.pass with
      | none =>
          rw [tableStep, hpass] at h
          exact Or.inr (Or.inr (Or.inl ⟨rfl, rfl, (Option.some.inj h).symm⟩))
      | some p => simp [tableStep, hpass] at h
  | sendNext =>
      cases hpass : s.pass with
      | none => simp [tableStep, hpass] at h
      | some p =>
          rw [tableStep, hpass] at h
          by_cases hi : p.i < BT_LST_SIZE
          · simp only [hi, ↓reduceDIte] at h
            exact Or.inr (Or.inr (Or.inr (Or.inl ⟨p, hi, rfl, rfl, (Option.some.inj h).symm⟩)))
          · simp only [hi, ↓reduceDIte] at h
            exact Or.inr (Or.inr (Or.inr (Or.inr ⟨p, rfl, rfl, hi, (Option.some.inj h).symm⟩)))

@[simp] theorem sendSlot_now (s : TableState) (i : Fin BT_LST_SIZE)
    (lastIndex : Option (Fin SENT_LST_SIZE)) : (sendSlot s i lastIndex).now = s.now := by
  unfold sendSlot
  simp only
  split <;> rfl

theorem tableStep_now_le {s t : TableState} {a : TableAct} (h : tableStep s a = some t) :
    s.now ≤ t.now := by
  rcases tableStep_cases h with ⟨d, -, rfl⟩ | ⟨address, gap, -, -, rfl⟩ | ⟨-, -, rfl⟩ |
    ⟨p, hi, -, -, rfl⟩ | ⟨p, -, -, -, rfl⟩
  · exact Nat.le_add_right _ _
  · exact le_reading _ _ _
  · exact le_rfl
  · rw [sendSlot_now]
  · exact le_rfl

end SmartDoorLock
