import SmartDoorLock.Lib.CText

/-!
# The door: incoming messages and the status timer

`smart_door.c` keeps the door in `dr_iot`. Two handlers write it: the MQTT
callback `mqtt_message_cb` and the sleeptimer callback `periodic_timeout`.
Both are translated below, and compared with a small automaton over the four
commands of the protocol.
-/

namespace SmartDoorLock

open CText

/-! ## `dr_iot`, LED0 and the two handlers -/

/-- `doorStatus`; `opened` is the source's `open`. -/
inductive DoorStatus where
  | closed
  | opened
  | unlocked
  | locked
deriving DecidableEq, Repr

/-- `struct door`. -/
structure Door where
  stat : DoorStatus := .closed
  openTime : UInt32 := 0
deriving DecidableEq, Repr

def MQTT_MAX_PACKET_SZ : ℕ := 512
def OPEN_DOOR_CMD : List UInt8 := ascii "open_door"
def LOCK_DOOR_CMD : List UInt8 := ascii "lock"
def UNLOCK_DOOR_CMD : List UInt8 := ascii "unlock"
def NORMAL_DOOR_STAT : List UInt8 := ascii "normal"

/-- The local `buf` of `mqtt_message_cb`: at most `MQTT_MAX_PACKET_SZ` bytes of
`msg->buffer`, closed by a NUL. -/
def msgBuf (buffer : List UInt8) : List UInt8 := buffer.take MQTT_MAX_PACKET_SZ ++ [0]

/-- `mqtt_message_cb`, on the payload `msg->buffer` of `msg->buffer_len` bytes;
`curTime` is what `cur_time()` returns. Every path returns `0`. -/
def mqttMessageCb (curTime : UInt32) (buffer : List UInt8) (drIot : Door) : Door × Int :=
  let buf := msgBuf buffer
  if (drIot.stat ≠ .locked ∧ strcmp buf OPEN_DOOR_CMD = 0) ∨
      (drIot.stat = .unlocked ∧ strcmp buf NORMAL_DOOR_STAT = 0) then
    ({ stat := .opened, openTime := curTime }, 0)
  else if strcmp buf UNLOCK_DOOR_CMD = 0 then
    ({ drIot with stat := .unlocked }, 0)
  else if drIot.stat = .locked ∧ strcmp buf NORMAL_DOOR_STAT = 0 then
    ({ drIot with stat := .closed }, 0)
  else if strcmp buf LOCK_DOOR_CMD = 0 then
    ({ drIot with stat := .locked }, 0)
  else
    (drIot, 0)

/-- `periodic_timeout`: the door afterwards, and whether LED0 is on. -/
def periodicTimeout (curTime : UInt32) (drIot : Door) : Door × Bool :=
  if drIot.stat = .opened ∧ curTime - drIot.openTime < 30000 then (drIot, true)
  else if drIot.stat = .locked then (drIot, false)
  else if drIot.stat = .unlocked then (drIot, true)
  else ({ drIot with stat := .closed }, false)

/-! ## The commands of the protocol

What a payload means, and what each command does to the status. This is the
statement of purpose that the two handlers are compared with. -/

/-- The messages from the server to the door. -/
inductive Command where
  | openDoor
  | lock
  | unlock
  | normal
deriving DecidableEq, Repr

def Command.text : Command → List UInt8
  | .openDoor => OPEN_DOOR_CMD
  | .lock => LOCK_DOOR_CMD
  | .unlock => UNLOCK_DOOR_CMD
  | .normal => NORMAL_DOOR_STAT

/-- The command a payload is, as `mqtt_message_cb` compares it. -/
def commandOf (buffer : List UInt8) : Option Command :=
  [Command.openDoor, .lock, .unlock, .normal].find? fun c => strcmp (msgBuf buffer) c.text = 0

/-- The command a payload is, when it is one of lock / unlock / normal. -/
def modeOf (buffer : List UInt8) : Option Command := (commandOf buffer).filter (· ≠ .openDoor)

theorem modeOf_eq_some_iff {buffer : List UInt8} {c : Command} :
    modeOf buffer = some c ↔ commandOf buffer = some c ∧ c ≠ .openDoor := by
  simp [modeOf, Option.filter_eq_some_iff]

theorem modeOf_eq_none_iff {buffer : List UInt8} :
    modeOf buffer = none ↔ commandOf buffer = none ∨ commandOf buffer = some .openDoor := by
  rcases h : commandOf buffer with _ | c
  · simp [modeOf, h]
  · by_cases hc : c = .openDoor <;> simp [modeOf, h, hc, Option.filter]

/-- What a command does to the status of the door. -/
def DoorStatus.obey : DoorStatus → Command → DoorStatus
  | .locked, .openDoor => .locked
  | _, .openDoor => .opened
  | _, .lock => .locked
  | _, .unlock => .unlocked
  | .unlocked, .normal => .opened
  | .locked, .normal => .closed
  | s, .normal => s

theorem obey_openDoor_eq_locked_iff (s : DoorStatus) :
    s.obey .openDoor = .locked ↔ s = .locked := by
  cases s <;> simp [DoorStatus.obey]

theorem obey_openDoor_ne_unlocked (s : DoorStatus) : s.obey .openDoor ≠ .unlocked := by
  cases s <;> simp [DoorStatus.obey]

/-- The mode commands decide whether the door is locked or unlocked, whatever
status they find. -/
theorem obey_eq_locked_iff {c : Command} (hc : c ≠ .openDoor) (s : DoorStatus) :
    s.obey c = .locked ↔ c = .lock := by
  cases c <;> cases s <;> simp [DoorStatus.obey] at hc ⊢

theorem obey_eq_unlocked_iff {c : Command} (hc : c ≠ .openDoor) (s : DoorStatus) :
    s.obey c = .unlocked ↔ c = .unlock := by
  cases c <;> cases s <;> simp [DoorStatus.obey] at hc ⊢

theorem cstr_text (c : Command) : cstr c.text = c.text := by
  cases c <;> decide

theorem text_injective {c d : Command} (h : c.text = d.text) : c = d := by
  revert h
  cases c <;> cases d <;> decide

theorem strcmp_text_iff (buffer : List UInt8) (c : Command) :
    strcmp (msgBuf buffer) c.text = 0 ↔ commandOf buffer = some c := by
  -- the four texts differ, so at most one of them compares equal
  have hone : ∀ d : Command, strcmp (msgBuf buffer) d.text = 0 →
      strcmp (msgBuf buffer) c.text = 0 → d = c := by
    intro d hd hc
    rw [strcmp_eq_zero_iff, cstr_text] at hd hc
    exact text_injective (hd.symm.trans hc)
  constructor
  · intro h
    have hsome : (commandOf buffer).isSome := by
      rw [commandOf, List.find?_isSome]
      exact ⟨c, by cases c <;> simp, by simpa using h⟩
    obtain ⟨d, hd⟩ := Option.isSome_iff_exists.mp hsome
    have hdtext : strcmp (msgBuf buffer) d.text = 0 := by
      simpa using List.find?_some hd
    rw [hd, hone d hdtext h]
  · intro h
    simpa using List.find?_some h

/-- **The callback obeys.** The status after a message is that of the command
the payload is; any other payload leaves the door alone. -/
theorem mqttMessageCb_stat (curTime : UInt32) (buffer : List UInt8) (d : Door) :
    (mqttMessageCb curTime buffer d).1.stat =
      match commandOf buffer with
      | some c => d.stat.obey c
      | none => d.stat := by
  have hopen := strcmp_text_iff buffer .openDoor
  have hlock := strcmp_text_iff buffer .lock
  have hunlock := strcmp_text_iff buffer .unlock
  have hnormal := strcmp_text_iff buffer .normal
  simp only [Command.text] at hopen hlock hunlock hnormal
  simp only [mqttMessageCb, hopen, hlock, hunlock, hnormal]
  rcases commandOf buffer with _ | c
  · simp
  · rcases d with ⟨stat, openTime⟩
    cases c <;> cases stat <;> simp [DoorStatus.obey]

/-- Lock locks the door, unlock and normal take it out of locked, and every
other payload leaves it locked or not locked. -/
theorem mqttMessageCb_locked_iff (curTime : UInt32) (buffer : List UInt8) (d : Door) :
    (mqttMessageCb curTime buffer d).1.stat = .locked ↔
      modeOf buffer = some .lock ∨ (modeOf buffer = none ∧ d.stat = .locked) := by
  rw [mqttMessageCb_stat]
  cases hmode : modeOf buffer with
  | some c =>
      obtain ⟨hc, hne⟩ := modeOf_eq_some_iff.mp hmode
      simp [hc, obey_eq_locked_iff hne]
  | none =>
      rcases modeOf_eq_none_iff.mp hmode with hc | hc
      · simp [hc]
      · simp [hc, obey_openDoor_eq_locked_iff]

/-- **What a tick does.** It closes an opened door and moves no other status;
LED0 shows the status it leaves. -/
theorem periodicTimeout_cases (curTime : UInt32) (d : Door) :
    (d.stat = .opened ∧ ¬ curTime - d.openTime < 30000 ∧
        periodicTimeout curTime d = ({ d with stat := .closed }, false)) ∨
      ((d.stat = .opened → curTime - d.openTime < 30000) ∧
        periodicTimeout curTime d =
          (d, decide (d.stat = .opened ∨ d.stat = .unlocked))) := by
  rcases d with ⟨stat, openTime⟩
  by_cases h : curTime - openTime < 30000 <;> cases stat <;>
    simp [periodicTimeout, h]

theorem periodicTimeout_stat_iff {s : DoorStatus} (hopen : s ≠ .opened) (hclosed : s ≠ .closed)
    (curTime : UInt32) (d : Door) :
    (periodicTimeout curTime d).1.stat = s ↔ d.stat = s := by
  rcases periodicTimeout_cases curTime d with ⟨hstat, -, heq⟩ | ⟨-, heq⟩
  · rw [heq, hstat]
    exact iff_of_false hclosed.symm hopen.symm
  · rw [heq]

/-- LED0 after a tick is the status after the tick. -/
theorem periodicTimeout_led (curTime : UInt32) (d : Door) :
    (periodicTimeout curTime d).2 = true ↔
      (periodicTimeout curTime d).1.stat = .opened ∨
        (periodicTimeout curTime d).1.stat = .unlocked := by
  rcases periodicTimeout_cases curTime d with ⟨-, -, heq⟩ | ⟨-, heq⟩
  · simp [heq]
  · simp [heq]

end SmartDoorLock
