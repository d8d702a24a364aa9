import Mathlib.Data.Int.Basic
import Mathlib.Logic.Function.Basic
import Mathlib.Order.Basic

/-!
# The device database

`db.py` keeps one record for a `bluetooth_id`. A record with an `until` counts
as absent from that time on, and `get_bt_device` deletes it when it meets it.
The other functions of the module leave such a record where it is.
-/

namespace SmartDoorLock

/-- A record of `Device`, without its key. Times are microseconds. -/
structure Device where
  name : String
  until? : Option ℕ := none
deriving DecidableEq, Repr

/-- The table, by `bluetooth_id`. -/
abbrev Db : Type := String → Option Device

/-- `Device.timeout`. -/
def Device.timeout (now : ℕ) (device : Device) : Bool :=
  match device.until? with
  | none => false
  | some limit => limit ≤ now

/-- `get_bt_device`; a record past its time is deleted on the way. -/
def getBtDevice (now : ℕ) (db : Db) (btId : String) : Db × Option Device :=
  match db btId with
  | none => (db, none)
  | some device =>
      if device.timeout now then (Function.update db btId none, none) else (db, some device)

/-- What is found is stored, and the table is then unchanged. -/
theorem getBtDevice_eq_some {now : ℕ} {db : Db} {btId : String} {device : Device}
    (h : (getBtDevice now db btId).2 = some device) :
    db btId = some device ∧ (getBtDevice now db btId).1 = db := by
  unfold getBtDevice at h ⊢
  cases hdb : db btId with
  | none => simp [hdb] at h
  | some d =>
      by_cases hout : d.timeout now = true
      · simp [hdb, hout] at h
      · simp only [hdb, hout] at h ⊢
        exact ⟨h, rfl⟩

theorem getBtDevice_of_ne {now : ℕ} {db : Db} {btId key : String} (h : key ≠ btId) :
    (getBtDevice now db btId).1 key = db key := by
  unfold getBtDevice
  cases hdb : db btId with
  | none => rfl
  | some device =>
      by_cases hout : device.timeout now = true
      · simp only [hout, if_true]
        exact Function.update_of_ne h _ _
      · simp only [hout]
        rfl

/-! ## The functions that write -/

/-- An exception raised by a function of the database. -/
inductive DbError where
  | overflowError
deriving DecidableEq, Repr

/-- `add_device`: an old record keeps its `until`, expired or not. -/
def addDevice (db : Db) (btId name : String) : Db :=
  match db btId with
  | some device => Function.update db btId (some { device with name := name })
  | none => Function.update db btId (some { name := name })

/-- The microseconds of a day. -/
def DAY : ℤ := 86400000000

/-- The first moment past `datetime.max`, counted from `datetime.min`. -/
def DATETIME_END : ℤ := 315537897600000000

/-- `d.until or datetime.now()`. -/
def Device.extendFrom (now : ℕ) (device : Device) : ℤ := (device.until?.getD now : ℕ)

/-- A `timedelta` has at most 999999999 days, and the sum has to be a
`datetime`. -/
def Overflows (days limit : ℤ) : Prop :=
  999999999 < days.natAbs ∨ limit < 0 ∨ DATETIME_END ≤ limit

instance (days limit : ℤ) : Decidable (Overflows days limit) :=
  inferInstanceAs (Decidable (_ ∨ _ ∨ _))

/-- `update_until_time`. -/
def updateUntilTime (now : ℕ) (db : Db) (days : ℤ) (btId : String) : Except DbError Db :=
  match db btId with
  | none => .ok db
  | some device =>
      if days = 0 then .ok (Function.update db btId (some { device with until? := none }))
      else
        let limit := device.extendFrom now + days * DAY
        if Overflows days limit then .error .overflowError
        else .ok (Function.update db btId (some { device with until? := some limit.toNat }))

/-- The `remove` branch of `callback_handler`, one transaction. -/
def removeDevice (now : ℕ) (db : Db) (btId : String) : Db :=
  match getBtDevice now db btId with
  | (db', some _) => Function.update db' btId none
  | (db', none) => db'

/-- `list_devices`: name and `until` of each device shown. -/
def listDevices (now : ℕ) (db : Db) (btId : String) : Option (String × Option ℕ) :=
  match db btId with
  | none => none
  | some device => if device.timeout now then none else some (device.name, device.until?)

/-! ## The functions by the record they touch -/

/-- The record, unless it is past its time. -/
def live (now : ℕ) (record : Option Device) : Option Device :=
  record.filter fun device => !device.timeout now

@[simp] theorem live_none (now : ℕ) : live now none = none := rfl

theorem live_some (now : ℕ) (device : Device) :
    live now (some device) = if device.timeout now then none else some device := by
  cases hout : device.timeout now <;> simp [live, hout]

theorem getBtDevice_eq (now : ℕ) (db : Db) (btId : String) :
    getBtDevice now db btId =
      (Function.update db btId (live now (db btId)), live now (db btId)) := by
  unfold getBtDevice
  cases hdb : db btId with
  | none =>
      show (db, none) = _
      rw [live_none, ← hdb, Function.update_eq_self, hdb]
  | some device =>
      rw [live_some]
      cases hout : device.timeout now with
      | true => simp [hout]
      | false =>
          have hsame : Function.update db btId (some device) = db := by
            rw [← hdb, Function.update_eq_self]
          simp [hout, hsame]

theorem addDevice_eq (db : Db) (btId name : String) :
    addDevice db btId name =
      Function.update db btId (some { name := name, until? := (db btId).bind Device.until? }) := by
  unfold addDevice
  cases db btId <;> rfl

/-- After `remove` the key is free, whatever was found. -/
theorem removeDevice_eq (now : ℕ) (db : Db) (btId : String) :
    removeDevice now db btId = Function.update db btId none := by
  unfold removeDevice
  rw [getBtDevice_eq]
  cases hlive : live now (db btId) with
  | none => rfl
  | some device => exact Function.update_idem _ _ _

theorem listDevices_eq (now : ℕ) (db : Db) (btId : String) :
    listDevices now db btId = (live now (db btId)).map fun d => (d.name, d.until?) := by
  unfold listDevices
  cases hdb : db btId with
  | none => rfl
  | some device =>
      rw [live_some]
      cases hout : device.timeout now <;> simp [hout]

/-- The record `update_until_time` writes; `none` when it raises. -/
def extended (now : ℕ) (days : ℤ) (device : Device) : Option Device :=
  if days = 0 then some { device with until? := none }
  else
    let limit := device.extendFrom now + days * DAY
    if Overflows days limit then none else some { device with until? := some limit.toNat }

theorem updateUntilTime_eq (now : ℕ) (db : Db) (days : ℤ) (btId : String) :
    updateUntilTime now db days btId =
      match db btId with
      | none => .ok db
      | some device =>
          match extended now days device with
          | some device' => .ok (Function.update db btId (some device'))
          | none => .error .overflowError := by
  unfold updateUntilTime extended
  cases db btId with
  | none => rfl
  | some device =>
      by_cases hdays : days = 0
      · simp [hdays]
      · by_cases hover : Overflows days (device.extendFrom now + days * DAY)
        · simp [hdays, hover]
        · simp [hdays, hover]

/-- `update_until_time` leaves the other records as they are. -/
theorem updateUntilTime_of_ne {now : ℕ} {db db' : Db} {days : ℤ} {btId key : String}
    (h : updateUntilTime now db days btId = .ok db') (hkey : key ≠ btId) : db' key = db key := by
  rw [updateUntilTime_eq] at h
  split at h
  · cases h
    rfl
  · split at h
    · cases h
      exact Function.update_of_ne hkey _ _
    · cases h

end SmartDoorLock
