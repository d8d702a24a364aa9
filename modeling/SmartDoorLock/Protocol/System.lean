import SmartDoorLock.Firmware.DoorHistory
import SmartDoorLock.Firmware.MainLoop
import SmartDoorLock.Server.Buttons

/-!
# Door, server and broker

The door and the server know each other through two topics only. The door
publishes the addresses it has found on one of them and obeys what arrives on
the other; the server publishes a command when a device is found in its
database, when the owner presses the button, and when the owner gives an order.

A call that publishes may fail, and a message whose call has failed may have
reached the broker or not. The broker keeps what it gets and delivers it when it
likes: late, in any order, more than once, or never. On the topic of the door it
may also publish the last will.
-/

namespace SmartDoorLock

open CText Machine

/-! ## What the server publishes -/

/-- `publish` in `config.ini`, read as `mqtt.topic_publish`. -/
def topicPublish : List UInt8 := ascii "smart_door_lock/iot/device_recv"

/-- The topic the door subscribes to. -/
def TOPIC_RECV : List UInt8 := ascii "smart_door_lock/iot/device_recv"

/-- `mqtt.publish`, for a command. -/
def publish (c : Command) : MqttMessage := { topicName := topicPublish, payload := c.text }

/-- How a call of `mqtt.publish` ends: the result, and whether the broker gets
the message. -/
structure PublishCall where
  rc : ℤ
  arrives : Bool
deriving DecidableEq, Repr

/-- What the broker gets of a message. -/
def sentIf (arrives : Bool) (ms : List MqttMessage) : List MqttMessage :=
  if arrives then ms else []

/-- `mqtt.open_door`, on the ends of its calls of `publish`: what the broker has got
when one of them returns 0. -/
def openDoor : List PublishCall → Option (List MqttMessage)
  | [] => none
  | call :: calls =>
      if call.rc = 0 then some (sentIf call.arrives [publish .openDoor])
      else (openDoor calls).map (sentIf call.arrives [publish .openDoor] ++ ·)

/-- The commands of the bot. -/
inductive OwnerCommand where
  | lock
  | unlock
  | auto
  | «open»
deriving DecidableEq, Repr

/-- The command that `force_lock_or_open` publishes. -/
def OwnerCommand.command : OwnerCommand → Command
  | .unlock => .unlock
  | .lock => .lock
  | .open => .openDoor
  | .auto => .normal

/-- `force_lock_or_open`: what is published, and the notice in the log channel. -/
def forceLockOrOpen (c : OwnerCommand) : MqttMessage × Option String :=
  (publish c.command,
    match c with
    | .unlock => some "**--Status:-- door is Unlocked**"
    | .lock => some "**--Status:-- door is locked**"
    | .open => none
    | .auto => some "**--Status:-- the system is back to normal**")

/-- The handler that ended so has called `open_door`. -/
def Outcome.opens : Outcome → Bool
  | .opened _ _ => true
  | .openedByOwner => true
  | _ => false

/-! ## The parties together -/

structure System where
  server : ServerState
  door : App := {}
  /-- what the broker has got so far, the latest first -/
  published : List MqttMessage := []
  /-- the notices of `force_lock_or_open` that the log channel shows, the latest
  first -/
  statusNotices : List String := []

/-- What a list has grown by at its head. -/
def grown {α : Type} (old new : List α) : List α := new.take (new.length - old.length)

/-- What the server publishes in a step; `calls` are those that `open_door` makes. -/
def serverPublishes (calls : List PublishCall) (s t : ServerState) :
    Option (List MqttMessage) :=
  if (grown s.outcomes t.outcomes).any Outcome.opens then openDoor calls else some []

/-- What an event of the main loop puts on a topic. -/
def LoopEvent.message? : LoopEvent → Option MqttMessage
  | .handed address _ => some (DoorPayload.device address).message
  | _ => none

/-- What the door hands over to be published in a step. -/
def doorPublishes (s t : App) : List MqttMessage :=
  (grown s.hist t.hist).filterMap LoopEvent.message?

inductive SystemAct where
  /-- the server goes on, without a message from the broker -/
  | server (a : ServerAct) (calls : List PublishCall)
  /-- the owner gives an order; whether it reaches the broker, and whether the
  notice reaches the log channel -/
  | command (c : OwnerCommand) (arrives shown : Bool)
  /-- the door goes on, without a message from the broker; whether what it
  publishes, if it does, reaches the broker -/
  | door (a : AppAct) (arrives : Bool)
  /-- the last call of `run_mqtt`, when it reaches the broker -/
  | announce
  /-- the broker publishes the last will of the door -/
  | lastWill
  /-- the broker delivers a message to the server -/
  | toServer (m : MqttMessage)
  /-- the broker delivers a message to the door -/
  | toDoor (m : MqttMessage)

def ServerAct.isMessage : ServerAct → Bool
  | .mqttMessage _ => true
  | _ => false

def AppAct.isMessage : AppAct → Bool
  | .message _ => true
  | _ => false

def systemStep (tbl : CharTable) (s : System) : SystemAct → Option System
  | .server a calls =>
      if a.isMessage then none
      else
        (serverStep tbl s.server a).bind fun t =>
          (serverPublishes calls s.server t).map fun ms =>
            { s with server := t, published := ms ++ s.published }
  | .command c arrives shown =>
      -- the thread of the bot is free; `send_message` prints its exceptions only
      if s.server.bot = .idle then
        some { s with
          published := sentIf arrives [(forceLockOrOpen c).1] ++ s.published
          statusNotices :=
            (if shown then (forceLockOrOpen c).2.toList else []) ++ s.statusNotices }
      else none
  | .door a arrives =>
      if a.isMessage then none
      else
        -- `send_device` goes on in the same way when `publish_msg` returns -1
        (appStep s.door a).map fun t =>
          { s with door := t, published := sentIf arrives (doorPublishes s.door t) ++ s.published }
  | .announce =>
      if s.door.pc = .runMqtt then
        some { s with published := DoorPayload.connected.message :: s.published }
      else none
  | .lastWill => some { s with published := DoorPayload.lastWill.message :: s.published }
  | .toServer m =>
      if m ∈ s.published ∧ m.topicName = topicSubscribe then
        match decode m.payload with
        | some msg =>
            (serverStep tbl s.server (.mqttMessage msg)).map fun t => { s with server := t }
        | none => some s
      else none
  | .toDoor m =>
      if m ∈ s.published ∧ m.topicName = TOPIC_RECV then
        (appStep s.door (.message m.payload)).map fun t => { s with door := t }
      else none

/-! ## What a step does -/

theorem grown_append {α : Type} (news old : List α) : grown old (news ++ old) = news := by
  unfold grown
  rw [List.length_append, Nat.add_sub_cancel_right, List.take_left]

theorem grown_self {α : Type} (old : List α) : grown old old = [] := grown_append [] old

theorem mem_sentIf {arrives : Bool} {ms : List MqttMessage} {m : MqttMessage} :
    m ∈ sentIf arrives ms ↔ arrives = true ∧ m ∈ ms := by
  unfold sentIf
  split <;> simp_all

/-- `open_door` publishes nothing but the command. -/
theorem openDoor_only {calls : List PublishCall} {ms : List MqttMessage}
    (h : openDoor calls = some ms) : ∀ m ∈ ms, m = publish .openDoor := by
  have hsent : ∀ arrives, ∀ m ∈ sentIf arrives [publish .openDoor], m = publish .openDoor :=
    fun _ m hm => List.mem_singleton.mp (mem_sentIf.mp hm).2
  induction calls generalizing ms with
  | nil => cases h
  | cons call calls ih =>
      rw [openDoor] at h
      split at h
      · cases h
        exact hsent _
      · obtain ⟨rest, hrest, rfl⟩ := Option.map_eq_some_iff.mp h
        intro m hm
        rcases List.mem_append.mp hm with hm | hm
        · exact hsent _ m hm
        · exact ih hrest m hm

/-- The steps, each with what it is enabled by. -/
inductive SystemStep (tbl : CharTable) (s : System) : SystemAct → System → Prop where
  | server (a : ServerAct) (calls : List PublishCall) (t : ServerState) (ms : List MqttMessage)
      (hmsg : a.isMessage = false) (ht : serverStep tbl s.server a = some t)
      (hms : serverPublishes calls s.server t = some ms) :
      SystemStep tbl s (.server a calls) { s with server := t, published := ms ++ s.published }
  | command (c : OwnerCommand) (arrives shown : Bool) (hidle : s.server.bot = .idle) :
      SystemStep tbl s (.command c arrives shown) { s with
        published := sentIf arrives [(forceLockOrOpen c).1] ++ s.published
        statusNotices :=
          (if shown then (forceLockOrOpen c).2.toList else []) ++ s.statusNotices }
  | door (a : AppAct) (arrives : Bool) (t : App) (hmsg : a.isMessage = false)
      (ht : appStep s.door a = some t) :
      SystemStep tbl s (.door a arrives)
        { s with door := t, published := sentIf arrives (doorPublishes s.door t) ++ s.published }
  | announce (hpc : s.door.pc = .runMqtt) :
      SystemStep tbl s .announce
        { s with published := DoorPayload.connected.message :: s.published }
  | lastWill :
      SystemStep tbl s .lastWill
        { s with published := DoorPayload.lastWill.message :: s.published }
  | toServer (m : MqttMessage) (msg : String) (t : ServerState) (hm : m ∈ s.published)
      (htopic : m.topicName = topicSubscribe) (hmsg : decode m.payload = some msg)
      (ht : serverStep tbl s.server (.mqttMessage msg) = some t) :
      SystemStep tbl s (.toServer m) { s with server := t }
  | toServerRaised (m : MqttMessage) (hm : m ∈ s.published)
      (htopic : m.topicName = topicSubscribe) (hmsg : decode m.payload = none) :
      SystemStep tbl s (.toServer m) s
  | toDoor (m : MqttMessage) (t : App) (hm : m ∈ s.published) (htopic : m.topicName = TOPIC_RECV)
      (ht : appStep s.door (.message m.payload) = some t) :
      SystemStep tbl s (.toDoor m) { s with door := t }

/-- **What a step of the system can do.** -/
theorem systemStep_cases {tbl : CharTable} {s t : System} {a : SystemAct}
    (h : systemStep tbl s a = some t) : SystemStep tbl s a t := by
  cases a with
  | server a calls =>
      simp only [systemStep] at h
      split at h
      · cases h
      · rename_i hmsg
        obtain ⟨v, hv, h⟩ := Option.bind_eq_some_iff.mp h
        obtain ⟨ms, hms, rfl⟩ := Option.map_eq_some_iff.mp h
        exact .server a calls v ms (Bool.eq_false_iff.mpr hmsg) hv hms
  | command c arrives shown =>
      simp only [systemStep] at h
      split at h
      · rename_i hidle
        cases h
        exact .command c arrives shown hidle
      · cases h
  | door a arrives =>
      simp only [systemStep] at h
      split at h
      · cases h
      · rename_i hmsg
        obtain ⟨v, hv, rfl⟩ := Option.map_eq_some_iff.mp h
        exact .door a arrives v (Bool.eq_false_iff.mpr hmsg) hv
  | announce =>
      simp only [systemStep] at h
      split at h
      · rename_i hpc
        cases h
        exact .announce hpc
      · cases h
  | lastWill =>
      cases h
      exact .lastWill
  | toServer m =>
      simp only [systemStep] at h
      split at h
      · rename_i hm
        split at h
        · rename_i msg hmsg
          obtain ⟨v, hv, rfl⟩ := Option.map_eq_some_iff.mp h
          exact .toServer m msg v hm.1 hm.2 hmsg hv
        · rename_i hmsg
          cases h
          exact .toServerRaised m hm.1 hm.2 hmsg
      · cases h
  | toDoor m =>
      simp only [systemStep] at h
      split at h
      · rename_i hm
        obtain ⟨v, hv, rfl⟩ := Option.map_eq_some_iff.mp h
        exact .toDoor m v hm.1 hm.2 hv
      · cases h

end SmartDoorLock
