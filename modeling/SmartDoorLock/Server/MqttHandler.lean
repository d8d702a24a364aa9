import SmartDoorLock.Lib.CText
import SmartDoorLock.Server.Db

/-!
# The message handler of the server

`on_mqtt_message` of `main.py` as a function from a message and the database
to the calls it makes, in order. It makes them from its own thread; here they
are taken one after the other.
-/

namespace SmartDoorLock

open CText

/-- `subscribe` in `config.ini`, read as `mqtt.topic_subscribe`. -/
def topicSubscribe : List UInt8 := ascii "smart_door_lock/iot/device_send"

/-- A call made by the handler. -/
inductive ServerCall where
  /-- `telegram.send_message`, to the log channel -/
  | sendMessage (text : String)
  /-- `db.get_bt_device` -/
  | getBtDevice (btId : String)
  /-- `mqtt.open_door` -/
  | openDoor
  /-- `telegram_client.send_message` to the owner, with `get_new_device_kb` -/
  | askOwner (text : String) (btId : String)
deriving DecidableEq, Repr

/-- An exception that leaves the handler. -/
inductive ServerError where
  | unicodeDecodeError
  | objectNotFound (key : String)
deriving DecidableEq, Repr

def connectedNotice : String := "--**The door lock device is connected**--"

def disconnectedNotice : String := "--**The door lock device is disconnected**--‼"

/-- The part of `on_mqtt_message` after `device = db.get_bt_device(msg)`. -/
def onDevice (db : Db) (msg : String) : Option Device → Except ServerError (List ServerCall)
  | some _ =>
      match db msg with
      | some record =>
          .ok [.sendMessage ("The door unlocked now by: `" ++ record.name ++ "`"), .openDoor]
      | none => .error (.objectNotFound msg)
  | none =>
      .ok [.sendMessage ("Unknown device is near the door (" ++ msg ++ ")"),
        .askOwner ("New device is near the door `" ++ msg ++ "`\nWhat would you like to do?") msg]

/-- `on_mqtt_message`. -/
def onMqttMessage (now : ℕ) (db : Db) (topic payload : List UInt8) :
    Except ServerError (Db × List ServerCall) :=
  if topic ≠ topicSubscribe then .ok (db, [])
  else
    match decode payload with
    | none => .error .unicodeDecodeError
    | some msg =>
        if startswith msg "connected" then .ok (db, [.sendMessage connectedNotice])
        else if startswith msg "disconnected" then .ok (db, [.sendMessage disconnectedNotice])
        else
          let r := getBtDevice now db msg
          (onDevice r.1 msg r.2).map fun calls => (r.1, .getBtDevice msg :: calls)

/-! ## What the handler does -/

/-- In one thread a record that was found is still there. -/
theorem onDevice_getBtDevice (now : ℕ) (db : Db) (msg : String) :
    ∃ calls, onDevice (getBtDevice now db msg).1 msg (getBtDevice now db msg).2 = .ok calls ∧
      ∀ key, .getBtDevice key ∉ calls := by
  cases hfound : (getBtDevice now db msg).2 with
  | none => exact ⟨_, rfl, by simp⟩
  | some device =>
      obtain ⟨hdb, hsame⟩ := getBtDevice_eq_some hfound
      refine ⟨[.sendMessage ("The door unlocked now by: `" ++ device.name ++ "`"), .openDoor], ?_, ?_⟩
      · unfold onDevice
        rw [hsame, hdb]
      · simp

/-- **The device branch.** A text that starts with neither word is looked up,
once, under itself. -/
theorem onMqttMessage_device (now : ℕ) (db : Db) {payload : List UInt8} {msg : String}
    (hdecode : decode payload = some msg) (hconn : startswith msg "connected" = false)
    (hdisc : startswith msg "disconnected" = false) :
    ∃ db' calls, onMqttMessage now db topicSubscribe payload =
        .ok (db', .getBtDevice msg :: calls) ∧ ∀ key, .getBtDevice key ∉ calls := by
  obtain ⟨calls, hcalls, hnone⟩ := onDevice_getBtDevice now db msg
  refine ⟨(getBtDevice now db msg).1, calls, ?_, hnone⟩
  simp only [onMqttMessage, hdecode, hconn, hdisc, hcalls]
  rfl

theorem onMqttMessage_connected (now : ℕ) (db : Db) {payload : List UInt8} {msg : String}
    (hdecode : decode payload = some msg) (hconn : startswith msg "connected" = true) :
    onMqttMessage now db topicSubscribe payload = .ok (db, [.sendMessage connectedNotice]) := by
  simp [onMqttMessage, hdecode, hconn]

end SmartDoorLock
