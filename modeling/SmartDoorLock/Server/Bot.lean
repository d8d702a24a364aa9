import SmartDoorLock.Lib.Machine
import SmartDoorLock.Server.Callback
import SmartDoorLock.Server.MqttHandler

/-!
# The server

Two threads share the database. The MQTT thread runs `on_mqtt_message`, the
Telegram thread runs the handlers of the bot: `callback_handler` for the
buttons, `get_device_name` for the name of a new device and `list_devices`.
Each `db_session` is one transaction, and a step of the machine; the handlers
that open two of them may be overtaken in between, and `on_mqtt_message` also
between the second one and `open_door`.
-/

namespace SmartDoorLock

open CText

/-- The values the text of a message is filled with. -/
inductive Shown where
  /-- the question of `on_mqtt_message` -/
  | newDevice (btId : String)
  /-- the text of `_device_settings` -/
  | settings (btId name : String) (until? : Option ℕ)
  /-- the confirmation of `get_device_name` -/
  | chosen (btId name : String)
  /-- the menu of `list_devices` -/
  | devices (items : List (Option (String × Option ℕ)))
deriving DecidableEq, Repr

/-- A message with buttons; of a button only its `callback_data`, by rows. -/
structure Message where
  shown : Shown
  keyboard : List (List String)
deriving DecidableEq, Repr

/-- The MQTT thread: waiting for a message, between its two sessions, or behind
them with the name it has read. -/
inductive MqttPc where
  | idle
  | found (btId : String)
  | named (btId name : String)
deriving DecidableEq, Repr

/-- The Telegram thread: waiting, or before the session of `_device_settings`,
with the message whose button was pressed and whether it may be deleted. -/
inductive BotPc where
  | idle
  | settings (btId : String) (message : ℕ) (deletable : Bool)
deriving DecidableEq, Repr

/-- How a handler ended. -/
inductive Outcome where
  /-- `open_door`, after the notice by which device; `send_message` goes on when
  the notice fails -/
  | opened (btId name : String)
  /-- the question what to do with an unknown device -/
  | prompted (btId : String)
  /-- the notice that the door is connected, or not -/
  | announced (text : String)
  | mqttRaised (e : ServerError)
  | botRaised (e : BotError)
  /-- `open_door`, by a button -/
  | openedByOwner
deriving DecidableEq, Repr

structure ServerState where
  now : ℕ
  db : Db
  /-- the ids that have had a record, each once; rows of `db` are among them -/
  ids : List String := []
  /-- the ids that wait for a name, the latest last -/
  deviceWhitForSave : List String := []
  /-- the messages on display, the latest last -/
  messages : List Message := []
  mqtt : MqttPc := .idle
  bot : BotPc := .idle
  /-- the latest first -/
  outcomes : List Outcome := []
  /-- the ids `on_mqtt_message` looked up and whether a device was found, the
  latest first -/
  lookups : List (String × Bool) := []

/-! ## `on_mqtt_message` -/

/-- Up to the end of `db.get_bt_device(msg)`, or of the handler. -/
def mqttLookup (s : ServerState) (msg : String) : ServerState :=
  if startswith msg "connected" then
    { s with outcomes := .announced connectedNotice :: s.outcomes }
  else if startswith msg "disconnected" then
    { s with outcomes := .announced disconnectedNotice :: s.outcomes }
  else
    match getBtDevice s.now s.db msg with
    | (db, some _) => { s with db := db, mqtt := .found msg, lookups := (msg, true) :: s.lookups }
    | (db, none) =>
        { s with
          db := db
          messages := s.messages ++ [⟨.newDevice msg, getNewDeviceKb msg⟩]
          outcomes := .prompted msg :: s.outcomes
          lookups := (msg, false) :: s.lookups }

/-- `name = db.Device[msg].name`, the second session. -/
def mqttName (s : ServerState) (msg : String) : ServerState :=
  match s.db msg with
  | some device => { s with mqtt := .named msg device.name }
  | none =>
      { s with mqtt := .idle, outcomes := .mqttRaised (.objectNotFound msg) :: s.outcomes }

/-- The notice and `mqtt.open_door()`, whatever has become of the record. -/
def mqttOpen (s : ServerState) (msg name : String) : ServerState :=
  { s with mqtt := .idle, outcomes := .opened msg name :: s.outcomes }

/-! ## The handlers of the bot -/

def botRaise (s : ServerState) (e : BotError) : ServerState :=
  { s with outcomes := .botRaised e :: s.outcomes }

/-- `q.message.delete()`; the message stays when that is forbidden. -/
def deleteMessage (s : ServerState) (message : ℕ) (deletable : Bool) : ServerState :=
  if deletable then { s with messages := s.messages.eraseIdx message } else s

/-- `callback_handler` on a button of a message, up to the session of
`_device_settings`. -/
def callbackHandler (tbl : CharTable) (s : ServerState) (message : ℕ) (data : String)
    (deletable : Bool) : ServerState :=
  match callbackOf tbl data with
  | .error e => botRaise s e
  | .ok .ignore => deleteMessage s message deletable
  | .ok .openDoor =>
      { s with
        messages := s.messages.modify message fun m => { m with keyboard := m.keyboard.tail }
        outcomes := .openedByOwner :: s.outcomes }
  | .ok (.add btId) =>
      deleteMessage { s with deviceWhitForSave := s.deviceWhitForSave ++ [btId] } message deletable
  | .ok (.new btId name) =>
      deleteMessage { s with db := addDevice s.db btId name, ids := s.ids.insert btId }
        message deletable
  | .ok (.remove btId) =>
      deleteMessage { s with db := removeDevice s.now s.db btId } message deletable
  | .ok (.until days btId) =>
      match updateUntilTime s.now s.db days btId with
      | .ok db => deleteMessage { s with db := db } message deletable
      | .error .overflowError => botRaise s .overflowError
  | .ok (.device btId) =>
      match getBtDevice s.now s.db btId with
      | (db, some _) => { s with db := db, bot := .settings btId message deletable }
      | (db, none) => deleteMessage { s with db := db } message deletable

/-- `_device_settings`, the reply with it, and the rest of `callback_handler`. -/
def deviceSettings (s : ServerState) (btId : String) (message : ℕ) (deletable : Bool) :
    ServerState :=
  match s.db btId with
  | some device =>
      deleteMessage
        { s with
          bot := .idle
          messages := s.messages ++
            [⟨.settings btId device.name device.until?, deviceSettingsKb btId⟩] }
        message deletable
  | none => botRaise { s with bot := .idle } (.objectNotFound btId)

/-- `get_device_name`: the last id waiting gets the name. -/
def getDeviceName (tbl : CharTable) (s : ServerState) (text : String) : ServerState :=
  if startswith text "/" then s
  else
    match s.deviceWhitForSave.getLast? with
    | none => s
    | some btId =>
        if isalnum tbl text then
          { s with
            deviceWhitForSave := s.deviceWhitForSave.dropLast
            messages := s.messages ++ [⟨.chosen btId text, chosenNameKb btId text⟩] }
        else s

/-! ## `list_devices` -/

/-- The ids `db.list_devices()` shows: those with a record that has not expired. -/
def listedIds (s : ServerState) : List String :=
  s.ids.filter fun btId => (listDevices s.now s.db btId).isSome

/-- The reply, with the ids in the order in which the database has them. -/
def listReply (s : ServerState) (ids : List String) : ServerState :=
  { s with
    messages := s.messages ++ [⟨.devices (ids.map (listDevices s.now s.db)), listDevicesKb ids⟩] }

theorem listed_of_perm {s : ServerState} {ids : List String} (h : ids.Perm (listedIds s)) :
    ∀ btId ∈ ids, (listDevices s.now s.db btId).isSome :=
  fun _ hbt => (List.mem_filter.mp (h.mem_iff.mp hbt)).2

/-! ## The machine -/

inductive ServerAct where
  | wait (d : ℕ)
  /-- a message on the topic of the door, decoded -/
  | mqttMessage (msg : String)
  /-- the second session of `on_mqtt_message` -/
  | mqttName
  /-- the end of `on_mqtt_message` -/
  | mqttOpen
  /-- the owner presses a button of the message; it may be deleted then or not -/
  | press (message : ℕ) (data : String) (deletable : Bool)
  /-- the session of `_device_settings` -/
  | deviceSettings
  /-- the owner sends a text -/
  | text (text : String)
  /-- the owner asks for the list; the order of the ids is that of the database -/
  | listDevices (ids : List String)
deriving DecidableEq, Repr

def serverStep (tbl : CharTable) (s : ServerState) : ServerAct → Option ServerState
  | .wait d => some { s with now := s.now + d }
  | .mqttMessage msg =>
      match s.mqtt with
      | .idle => some (mqttLookup s msg)
      | _ => none
  | .mqttName =>
      match s.mqtt with
      | .found msg => some (mqttName s msg)
      | _ => none
  | .mqttOpen =>
      match s.mqtt with
      | .named msg name => some (mqttOpen s msg name)
      | _ => none
  | .press message data deletable =>
      match s.bot, s.messages[message]? with
      | .idle, some m =>
          if data ∈ m.keyboard.flatten then
            some (callbackHandler tbl s message data deletable)
          else none
      | _, _ => none
  | .deviceSettings =>
      match s.bot with
      | .idle => none
      | .settings btId message deletable => some (deviceSettings s btId message deletable)
  | .text text =>
      match s.bot with
      | .idle => some (getDeviceName tbl s text)
      | .settings _ _ _ => none
  | .listDevices ids =>
      match s.bot with
      | .idle => if ids.Perm (listedIds s) then some (listReply s ids) else none
      | .settings _ _ _ => none

/-- The steps, each with what it is enabled by. -/
inductive ServerStep (tbl : CharTable) (s : ServerState) : ServerAct → ServerState → Prop where
  | wait (d : ℕ) : ServerStep tbl s (.wait d) { s with now := s.now + d }
  | mqttMessage (msg : String) (hidle : s.mqtt = .idle) :
      ServerStep tbl s (.mqttMessage msg) (mqttLookup s msg)
  | mqttName (msg : String) (hfound : s.mqtt = .found msg) :
      ServerStep tbl s .mqttName (mqttName s msg)
  | mqttOpen (msg name : String) (hnamed : s.mqtt = .named msg name) :
      ServerStep tbl s .mqttOpen (mqttOpen s msg name)
  | press (message : ℕ) (data : String) (deletable : Bool) (m : Message) (hidle : s.bot = .idle)
      (hm : s.messages[message]? = some m) (hdata : data ∈ m.keyboard.flatten) :
      ServerStep tbl s (.press message data deletable)
        (callbackHandler tbl s message data deletable)
  | deviceSettings (btId : String) (message : ℕ) (deletable : Bool)
      (hbot : s.bot = .settings btId message deletable) :
      ServerStep tbl s .deviceSettings (deviceSettings s btId message deletable)
  | text (text : String) (hidle : s.bot = .idle) :
      ServerStep tbl s (.text text) (getDeviceName tbl s text)
  | listDevices (ids : List String) (hidle : s.bot = .idle) (hids : ids.Perm (listedIds s)) :
      ServerStep tbl s (.listDevices ids) (listReply s ids)

/-- **What a step can do**: each action has one way to go. -/
theorem serverStep_cases {tbl : CharTable} {s t : ServerState} {a : ServerAct}
    (ht : serverStep tbl s a = some t) : ServerStep tbl s a t := by
  cases a with
  | wait d =>
      obtain rfl := Option.some.inj ht
      exact .wait d
  | mqttMessage msg =>
      simp only [serverStep] at ht
      split at ht
      · rename_i hidle
        obtain rfl := Option.some.inj ht
        exact .mqttMessage msg hidle
      · cases ht
  | mqttName =>
      simp only [serverStep] at ht
      split at ht
      · rename_i msg hfound
        obtain rfl := Option.some.inj ht
        exact .mqttName msg hfound
      · cases ht
  | mqttOpen =>
      simp only [serverStep] at ht
      split at ht
      · rename_i msg name hnamed
        obtain rfl := Option.some.inj ht
        exact .mqttOpen msg name hnamed
      · cases ht
  | press message data deletable =>
      simp only [serverStep] at ht
      split at ht
      · rename_i m hidle hm
        split at ht
        · rename_i hdata
          obtain rfl := Option.some.inj ht
          exact .press message data deletable m hidle hm hdata
        · cases ht
      · cases ht
  | deviceSettings =>
      simp only [serverStep] at ht
      split at ht
      · cases ht
      · rename_i btId message deletable hbot
        obtain rfl := Option.some.inj ht
        exact .deviceSettings btId message deletable hbot
  | text text =>
      simp only [serverStep] at ht
      split at ht
      · rename_i hidle
        obtain rfl := Option.some.inj ht
        exact .text text hidle
      · cases ht
  | listDevices ids =>
      simp only [serverStep] at ht
      split at ht
      · rename_i hidle
        split at ht
        · rename_i hids
          obtain rfl := Option.some.inj ht
          exact .listDevices ids hidle hids
        · cases ht
      · cases ht

end SmartDoorLock
