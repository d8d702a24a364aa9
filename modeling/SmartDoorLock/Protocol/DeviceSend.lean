import Mathlib.Data.Bool.AllAny
import Mathlib.Tactic.IntervalCases
import SmartDoorLock.Firmware.DeviceTable
import SmartDoorLock.Server.MqttHandler

/-!
# The topic `device_send`

Three kinds of payload come from the door: the announcement of `run_mqtt`, the
addresses of `send_device`, and the last will, which the broker publishes when
the door is gone. The server tells them apart by prefix. The first two arrive
at their branches, every address under its own text; the text of the last will
is no `disconnected`, so it is taken for a device.
-/

namespace SmartDoorLock

open CText

/-! ## What the door puts on the topic -/

def TOPIC_SEND : List UInt8 := ascii "smart_door_lock/iot/device_send"

def LWT : List UInt8 := ascii "\x7b\n    \"DisconnectedGracefully\":false\n\x7d"

/-- What of an `MqttMessage` goes over the network. -/
structure MqttMessage where
  topicName : List UInt8
  payload : List UInt8
deriving DecidableEq, Repr

/-- The message `publish_msg` hands to `MqttClient_Publish`: `total_len` is the
`XSTRLEN` of `msg`. -/
def publishMsg (topic msg : List UInt8) : MqttMessage := { topicName := topic, payload := cstr msg }

/-- The will registered by `lwt_connect`. -/
def lwtConnect : MqttMessage := { topicName := TOPIC_SEND, payload := cstr LWT }

/-- `buf` in `send_device`: 17 characters and the terminator. -/
def deviceBuf (addr : BdAddr) : List UInt8 := deviceText addr ++ [0]

inductive DoorPayload where
  | connected
  | device (addr : BdAddr)
  | lastWill
deriving DecidableEq, Repr

/-- The message of each kind, as its publish site builds it. -/
def DoorPayload.message : DoorPayload → MqttMessage
  | .connected => publishMsg TOPIC_SEND (ascii "connected")
  | .device addr => publishMsg TOPIC_SEND (deviceBuf addr)
  | .lastWill => lwtConnect

/-! ## The text of an address -/

theorem hexDigit_range {n : ℕ} (h : n < 16) : 48 ≤ hexDigit n ∧ hexDigit n ≤ 70 := by
  interval_cases n <;> decide

theorem hex2_range {b x : UInt8} (h : x ∈ hex2 b) : 48 ≤ x ∧ x ≤ 70 := by
  have hb : b.toNat < 256 := b.toNat_lt
  rcases List.mem_pair.mp h with rfl | rfl
  · exact hexDigit_range (by omega)
  · exact hexDigit_range (by omega)

/-- Every character of the text is a digit, a letter up to `F`, or the colon. -/
theorem deviceText_range {addr : BdAddr} {x : UInt8} (h : x ∈ deviceText addr) :
    48 ≤ x ∧ x ≤ 70 := by
  have hcolon : ∀ y ∈ ascii ":", (48 : UInt8) ≤ y ∧ y ≤ 70 :=
    List.all_iff_forall_prop.mp (by decide)
  simp only [deviceText, List.mem_append] at h
  rcases h with (((((((((h | h) | h) | h) | h) | h) | h) | h) | h) | h) | h
  all_goals first | exact hex2_range h | exact hcolon x h

theorem deviceText_ascii {addr : BdAddr} {x : UInt8} (h : x ∈ deviceText addr) : x < 128 := by
  have hle : x.toNat ≤ 70 := (deviceText_range h).2
  show x.toNat < 128
  omega

theorem cstr_deviceBuf (addr : BdAddr) : cstr (deviceBuf addr) = deviceText addr := by
  rw [deviceBuf, cstr_append_zero]
  apply List.takeWhile_eq_self_iff.mpr
  intro x hx
  have hrange := (deviceText_range hx).1
  simp only [decide_eq_true_eq]
  rintro rfl
  exact absurd hrange (by decide)

theorem decode_deviceText (addr : BdAddr) :
    decode (deviceText addr) = some (asciiText (deviceText addr)) :=
  decode_ascii fun _ hx => deviceText_ascii hx

/-- The text of an address starts with no word of the server. -/
theorem startswith_deviceText (addr : BdAddr) {d : Char} {p : List Char} (hd : 70 < d.toNat) :
    startswith (asciiText (deviceText addr)) (String.ofList (d :: p)) = false := by
  have hhead : (deviceText addr).head? = some (hexDigit (addr[5].toNat / 16)) := rfl
  have hmem : hexDigit (addr[5].toNat / 16) ∈ deviceText addr := List.mem_of_head? hhead
  have hchar := asciiChar_toNat (deviceText_ascii hmem)
  apply @startswith_of_head_ne _ (Char.ofNat (hexDigit (addr[5].toNat / 16)).toNat)
  · rw [asciiText, String.toList_ofList, List.head?_map, hhead, Option.map_some]
  · intro heq
    have hle : (hexDigit (addr[5].toNat / 16)).toNat ≤ 70 := (deviceText_range hmem).2
    rw [heq, hchar] at hd
    omega

/-! ## Dispatch -/

/-- The calls are those of the branch made for the payload. -/
def Dispatched : DoorPayload → List ServerCall → Prop
  | .connected, calls => calls = [.sendMessage connectedNotice]
  | .device addr, calls =>
      ∃ rest, calls = .getBtDevice (asciiText (deviceText addr)) :: rest ∧
        ∀ key, .getBtDevice key ∉ rest
  | .lastWill, calls => calls = [.sendMessage disconnectedNotice]

/-- The server handles the payload, and in the branch made for it. -/
def HandledAs (now : ℕ) (db : Db) (p : DoorPayload) : Prop :=
  ∃ db' calls, onMqttMessage now db p.message.topicName p.message.payload = .ok (db', calls) ∧
    Dispatched p calls

theorem decode_lwt : decode LWT = some (asciiText LWT) :=
  decode_ascii (List.all_iff_forall_prop.mp (by decide))

/-- The last will is looked up as a device. -/
theorem onMqttMessage_lastWill (now : ℕ) (db : Db) :
    ∃ db' calls, onMqttMessage now db TOPIC_SEND lwtConnect.payload =
      .ok (db', .getBtDevice (asciiText LWT) :: calls) := by
  have hpayload : lwtConnect.payload = LWT := by decide
  rw [hpayload]
  obtain ⟨db', calls, heq, -⟩ := onMqttMessage_device now db decode_lwt (by decide) (by decide)
  exact ⟨db', calls, heq⟩

theorem not_handledAs_lastWill (now : ℕ) (db : Db) : ¬ HandledAs now db .lastWill := by
  rintro ⟨db', calls, heq, hcalls⟩
  obtain ⟨db'', calls', heq'⟩ := onMqttMessage_lastWill now db
  have hcalls : calls = [.sendMessage disconnectedNotice] := hcalls
  have hsame : Except.ok (db', calls) = Except.ok (db'', .getBtDevice (asciiText LWT) :: calls') :=
    heq.symm.trans heq'
  simp [hcalls] at hsame

/-- **Door and server agree, up to the last will.** For every database and
time, a payload of the door is dispatched to its own branch, an address under
exactly its text, if and only if it is not the last will. -/
theorem handled_as_iff (now : ℕ) (db : Db) (p : DoorPayload) :
    HandledAs now db p ↔ p ≠ .lastWill := by
  constructor
  · rintro hhandled rfl
    exact not_handledAs_lastWill now db hhandled
  · intro hp
    cases p with
    | connected =>
        have hdecode : decode (cstr (ascii "connected")) = some (asciiText (ascii "connected")) :=
          decode_ascii (List.all_iff_forall_prop.mp (by decide))
        exact ⟨db, _, onMqttMessage_connected now db hdecode (by decide), rfl⟩
    | device addr =>
        have hdecode : decode (cstr (deviceBuf addr)) = some (asciiText (deviceText addr)) := by
          rw [cstr_deviceBuf]
          exact decode_deviceText addr
        obtain ⟨db', calls, heq, hrest⟩ := onMqttMessage_device now db hdecode
          (startswith_deviceText addr (by decide)) (startswith_deviceText addr (by decide))
        exact ⟨db', _, heq, calls, rfl, hrest⟩
    | lastWill => exact absurd rfl hp

/-- With no device registered, the end of the connection is announced as an
unknown device at the door, and the owner is asked whether to add it. -/
theorem last_will_prompts :
    onMqttMessage 0 (fun _ => none) DoorPayload.lastWill.message.topicName
        DoorPayload.lastWill.message.payload =
      .ok (fun _ => none, [.getBtDevice (asciiText LWT),
        .sendMessage ("Unknown device is near the door (" ++ asciiText LWT ++ ")"),
        .askOwner ("New device is near the door `" ++ asciiText LWT ++
          "`\nWhat would you like to do?") (asciiText LWT)]) ∧
    ¬ ∀ now db p, HandledAs now db p := by
  constructor
  · have hpayload : DoorPayload.lastWill.message.payload = LWT := by decide
    have hconn : startswith (asciiText LWT) "connected" = false := by decide
    have hdisc : startswith (asciiText LWT) "disconnected" = false := by decide
    rw [hpayload]
    simp only [onMqttMessage, decode_lwt, hconn, hdisc]
    rfl
  · intro hall
    exact not_handledAs_lastWill 0 (fun _ => none) (hall _ _ _)

end SmartDoorLock
