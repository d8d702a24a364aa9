import SmartDoorLock.Firmware.Door
import SmartDoorLock.Firmware.DeviceTable

/-!
# The main loop

`run_app` connects, starts the status timer and then loops: while the door is
closed it lets the Bluetooth stack deliver events and calls `send_device`, and
in every round it waits for messages in `read_msg`. wolfMQTT may call
`mqtt_message_cb` before `MqttClient_Publish`, `MqttClient_WaitMessage` or the
handshakes of `run_mqtt` return, so a message can be handled between two
publications of one pass of `send_device`. The timer may interrupt anywhere.

The history of a run is kept with the latest event first.
-/

namespace SmartDoorLock

open CText WrapClock

/-! ## State -/

/-- Where the main line stands. -/
inductive AppPc where
  /-- in `run_mqtt`, repeated until it succeeds -/
  | runMqtt
  /-- at the head of `while(1)` -/
  | loopHead
  /-- in the `for` loop, with `left` calls of `sl_bt_step` to go -/
  | btStep (left : ℕ)
  /-- in `send_device`, before iteration `i` -/
  | sendDevice (i : ℕ) (lastIndex : Option (Fin SENT_LST_SIZE))
  /-- in the `MqttClient_Publish` of entry `cur`, taken from slot `i` -/
  | publishing (i : Fin BT_LST_SIZE) (cur : BtDevice)
  /-- in `read_msg` -/
  | readMsg
deriving DecidableEq, Repr

inductive LoopEvent where
  /-- a scan report was handled -/
  | report (address : BdAddr) (rssi : ℤ) (time : ℕ)
  /-- `mqtt_message_cb` handled a message -/
  | message (buffer : List UInt8)
  /-- `send_device` was called -/
  | passStart
  /-- the text of an address was handed to `MqttClient_Publish` -/
  | handed (address : BdAddr) (time : ℕ)
deriving DecidableEq, Repr

structure App where
  now : ℕ := 0
  drIot : Door := {}
  led0 : Bool := false
  btLst : BtLst := {}
  sentLst : SentLst := fun _ => {}
  pc : AppPc := .runMqtt
  hist : List LoopEvent := []

/-- A Bluetooth event, as `sl_bt_on_event` tells them apart. -/
inductive BtEvent where
  | systemBoot
  | scanReport (rssi : ℤ) (address : BdAddr)
  | other
deriving DecidableEq, Repr

inductive AppAct where
  /-- `d` ms pass -/
  | elapse (d : ℕ)
  /-- the timer runs `periodic_timeout` -/
  | tick
  /-- wolfMQTT calls `mqtt_message_cb` -/
  | message (buffer : List UInt8)
  /-- `sl_bt_step` calls `sl_bt_on_event`; `gap k` ms pass before the `k`-th
  reading of the clock in it -/
  | btEvent (evt : BtEvent) (gap : ℕ → ℕ)
  /-- the main line goes on -/
  | next

/-! ## Steps -/

/-- `sl_bt_on_event`. -/
def slBtOnEvent (s : App) (evt : BtEvent) (gap : ℕ → ℕ) : App :=
  match evt with
  | .scanReport rssi address =>
      let now := reading s.now gap BT_LST_SIZE
      { s with
        now := now
        btLst :=
          if rssi > -50 then
            (addBtDevice (fun k => stamp (reading s.now gap k)) s.btLst address).1
          else s.btLst
        hist := .report address rssi now :: s.hist }
  | .systemBoot => s
  | .other => s

/-- May wolfMQTT call the message callback here? -/
def AppPc.mayCall : AppPc → Bool
  | .runMqtt => true
  | .publishing _ _ => true
  | .readMsg => true
  | _ => false

/-- One iteration of the loop of `send_device`, up to the publication. -/
def sendIteration (s : App) (i : Fin BT_LST_SIZE) (lastIndex : Option (Fin SENT_LST_SIZE)) : App :=
  let cur := s.btLst.deviceLst i
  if sendDue (stamp s.now) s.sentLst lastIndex cur then
    { s with
      btLst := s.btLst.clear i
      pc := .publishing i cur
      hist := .handed cur.addr s.now :: s.hist }
  else
    { s with pc := .sendDevice (i + 1) lastIndex }

/-- The next step of the main line. -/
def nextStep (s : App) : App :=
  match s.pc with
  | .runMqtt => { s with pc := .loopHead }
  | .loopHead => { s with pc := if s.drIot.stat = .closed then .btStep 10 else .readMsg }
  | .btStep 0 => { s with pc := .sendDevice 0 none, hist := .passStart :: s.hist }
  | .btStep (left + 1) => { s with pc := .btStep left }
  | .sendDevice i lastIndex =>
      if h : i < BT_LST_SIZE then sendIteration s ⟨i, h⟩ lastIndex
      else { s with pc := .readMsg }
  | .publishing i cur =>
      -- `publish_msg` has returned, with either result; the entry is recorded
      { s with
        sentLst := Function.update s.sentLst (sentIdx cur.addr) cur
        pc := .sendDevice (i + 1) (some (sentIdx cur.addr)) }
  | .readMsg => { s with pc := .loopHead }

def appStep (s : App) : AppAct → Option App
  | .elapse d => some { s with now := s.now + d }
  | .tick =>
      if s.pc = .runMqtt then none
      else
        let r := periodicTimeout (stamp s.now) s.drIot
        some { s with drIot := r.1, led0 := r.2 }
  | .message buffer =>
      if s.pc.mayCall then
        some { s with
          drIot := (mqttMessageCb (stamp s.now) buffer s.drIot).1
          hist := .message buffer :: s.hist }
      else none
  | .btEvent evt gap =>
      match s.pc with
      | .btStep (_ + 1) => some (slBtOnEvent s evt gap)
      | _ => none
  | .next => some (nextStep s)

/-! ## Histories -/

/-- A demand `Q` on every address handed over, with what was before it, taken
over one more event. -/
theorem forall_handed_cons {Q : BdAddr → ℕ → List LoopEvent → Prop} {e : LoopEvent}
    {hist : List LoopEvent} :
    (∀ newer address time older, e :: hist = newer ++ .handed address time :: older →
      Q address time older) ↔
    (∀ newer address time older, hist = newer ++ .handed address time :: older →
      Q address time older) ∧ ∀ address time, e = .handed address time → Q address time hist := by
  constructor
  · intro h
    refine ⟨fun newer address time older hsplit => ?_, fun address time he => ?_⟩
    · exact h (e :: newer) address time older (by rw [hsplit, List.cons_append])
    · exact h [] address time hist (by rw [he, List.nil_append])
  · rintro ⟨hall, he⟩ newer address time older hsplit
    cases newer with
    | nil =>
        rw [List.nil_append, List.cons.injEq] at hsplit
        obtain ⟨rfl, rfl⟩ := hsplit
        exact he address time rfl
    | cons x newer =>
        rw [List.cons_append, List.cons.injEq] at hsplit
        exact hall newer address time older hsplit.2

/-! ## What one step does -/

/-- The steps of the main line, by where it stands. -/
theorem nextStep_cases (s : App) :
    (s.pc = .runMqtt ∧ nextStep s = { s with pc := .loopHead }) ∨
    (s.pc = .loopHead ∧ s.drIot.stat = .closed ∧ nextStep s = { s with pc := .btStep 10 }) ∨
    (s.pc = .loopHead ∧ nextStep s = { s with pc := .readMsg }) ∨
    (s.pc = .btStep 0 ∧
      nextStep s = { s with pc := .sendDevice 0 none, hist := .passStart :: s.hist }) ∨
    (∃ left, s.pc = .btStep (left + 1) ∧ nextStep s = { s with pc := .btStep left }) ∨
    (∃ i h lastIndex, s.pc = .sendDevice i lastIndex ∧
      nextStep s = sendIteration s ⟨i, h⟩ lastIndex) ∨
    (∃ i lastIndex, s.pc = .sendDevice i lastIndex ∧ ¬ i < BT_LST_SIZE ∧
      nextStep s = { s with pc := .readMsg }) ∨
    (∃ i cur, s.pc = .publishing i cur ∧ nextStep s = { s with
      sentLst := Function.update s.sentLst (sentIdx cur.addr) cur
      pc := .sendDevice (i + 1) (some (sentIdx cur.addr)) }) ∨
    (s.pc = .readMsg ∧ nextStep s = { s with pc := .loopHead }) := by
  unfold nextStep
  cases hpc : s.pc with
  | runMqtt => simp
  | loopHead => by_cases hclosed : s.drIot.stat = .closed <;> simp [hclosed]
  | btStep left => cases left <;> simp
  | sendDevice i lastIndex =>
      by_cases hi : i < BT_LST_SIZE
      · simp [hi]
      · simp [hi, Nat.not_lt.mp hi]
  | publishing i cur => simp
  | readMsg => simp

theorem slBtOnEvent_now_le (s : App) (evt : BtEvent) (gap : ℕ → ℕ) :
    s.now ≤ (slBtOnEvent s evt gap).now := by
  cases evt with
  | scanReport rssi address => exact le_reading _ _ _
  | systemBoot => exact le_rfl
  | other => exact le_rfl

/-- The clock never runs backwards. -/
theorem appStep_now_le {s t : App} {a : AppAct} (h : appStep s a = some t) : s.now ≤ t.now := by
  cases a with
  | elapse d =>
      cases h
      exact Nat.le_add_right _ _
  | tick =>
      simp only [appStep] at h
      split at h <;> cases h
      exact le_rfl
  | message buffer =>
      simp only [appStep] at h
      split at h <;> cases h
      exact le_rfl
  | btEvent evt gap =>
      simp only [appStep] at h
      split at h <;> cases h
      exact slBtOnEvent_now_le s evt gap
  | next =>
      cases h
      refine le_of_eq ?_
      unfold nextStep
      split <;> try rfl
      split
      · unfold sendIteration
        simp only
        split <;> rfl
      · rfl

end SmartDoorLock
