import SmartDoorLock.Protocol.System
import SmartDoorLock.Server.Sessions

/-!
# Whom the door opens for

Whatever the broker does with the messages, and however the threads of the
server and the door take turns, the door changes its status for the owner or
for a device the owner has accepted. Each link of the chain is a step at which
something came to hold: the door has published the address because it pended,
it pended because it was reported near, the server has found its record because
it was stored, and it was stored because the owner pressed the button.
-/

namespace SmartDoorLock

open CText Machine Words WrapClock

/-! ## Where the server's records and outcomes come from -/

/-- The owner presses the button that stores a name under the id. -/
def Accepts (tbl : CharTable) (btId : String) (a : ServerAct) : Prop :=
  ∃ message data deletable name, a = .press message data deletable ∧
    callbackOf tbl data = .ok (.new btId name)

section

variable {tbl : CharTable} {s t : ServerState}

/-- The id has a record with the name. -/
def Named (s : ServerState) (btId name : String) : Prop :=
  ∃ device, s.db btId = some device ∧ device.name = name

theorem named_of_live (now : ℕ) {db : Db} (btId : String) {key name : String} {device : Device}
    (h : (getBtDevice now db btId).1 key = some device) (hname : device.name = name) :
    ∃ device, db key = some device ∧ device.name = name := by
  rw [getBtDevice_eq] at h
  by_cases hkey : key = btId
  · subst hkey
    simp only [Function.update_self] at h
    exact ⟨device, (Option.filter_eq_some_iff.mp h).1, hname⟩
  · simp only [Function.update_of_ne hkey] at h
    exact ⟨device, h, hname⟩

theorem extended_name {now : ℕ} {days : ℤ} {device device' : Device}
    (h : extended now days device = some device') : device'.name = device.name := by
  unfold extended at h
  split at h
  · cases h
    rfl
  · simp only at h
    split at h <;> cases h
    rfl

theorem named_of_update {now : ℕ} {db db' : Db} {days : ℤ} {btId key name : String}
    {device : Device} (hupdate : updateUntilTime now db days btId = .ok db')
    (h : db' key = some device) (hname : device.name = name) :
    ∃ device, db key = some device ∧ device.name = name := by
  by_cases hkey : key = btId
  · subst hkey
    rw [updateUntilTime_eq] at hupdate
    cases hold : db key with
    | none =>
        rw [hold] at hupdate
        cases hupdate
        rw [hold] at h
        cases h
    | some old =>
        rw [hold] at hupdate
        simp only at hupdate
        split at hupdate <;> cases hupdate
        rename_i new hext
        simp only [Function.update_self, Option.some.injEq] at h
        exact ⟨old, rfl, (extended_name hext).symm.trans (h ▸ hname)⟩
  · rw [updateUntilTime_of_ne hupdate hkey] at h
    exact ⟨device, h, hname⟩

theorem named_callbackHandler {message : ℕ} {data btId name : String} {deletable : Bool}
    (h : Named (callbackHandler tbl s message data deletable) btId name) :
    Named s btId name ∨ callbackOf tbl data = .ok (.new btId name) := by
  obtain ⟨device, hdb, hname⟩ := h
  unfold callbackHandler at hdb
  split at hdb
  · exact Or.inl ⟨device, hdb, hname⟩
  · rw [deleteMessage_db] at hdb
    exact Or.inl ⟨device, hdb, hname⟩
  · exact Or.inl ⟨device, hdb, hname⟩
  · rw [deleteMessage_db] at hdb
    exact Or.inl ⟨device, hdb, hname⟩
  · rename_i id text hdata
    rw [deleteMessage_db, addDevice_eq] at hdb
    by_cases hkey : btId = id
    · subst hkey
      simp only [Function.update_self, Option.some.injEq] at hdb
      obtain rfl : text = name := by rw [← hname, ← hdb]
      exact Or.inr hdata
    · simp only [Function.update_of_ne hkey] at hdb
      exact Or.inl ⟨device, hdb, hname⟩
  · rename_i id hdata
    rw [deleteMessage_db, removeDevice_eq] at hdb
    by_cases hkey : btId = id
    · subst hkey
      simp at hdb
    · simp only [Function.update_of_ne hkey] at hdb
      exact Or.inl ⟨device, hdb, hname⟩
  · split at hdb
    · rename_i db hupdate
      rw [deleteMessage_db] at hdb
      exact Or.inl (named_of_update hupdate hdb hname)
    · exact Or.inl ⟨device, hdb, hname⟩
  · rename_i id hdata
    refine Or.inl (named_of_live s.now id ?_ hname)
    split at hdb
    · rename_i db found hget
      rw [hget]
      exact hdb
    · rename_i db hget
      rw [deleteMessage_db] at hdb
      rw [hget]
      exact hdb

theorem mqttLookup_db (s : ServerState) (msg : String) :
    (mqttLookup s msg).db = s.db ∨ (mqttLookup s msg).db = (getBtDevice s.now s.db msg).1 := by
  unfold mqttLookup
  split
  · exact Or.inl rfl
  · split
    · exact Or.inl rfl
    · split <;> rename_i hget <;> exact Or.inr (by rw [hget])

/-- **A record gets its name** by the press of the button with the name. -/
theorem named_by_step {a : ServerAct} {btId name : String} (ht : serverStep tbl s a = some t)
    (h : Named t btId name) :
    Named s btId name ∨ ∃ message data deletable, a = .press message data deletable ∧
      callbackOf tbl data = .ok (.new btId name) := by
  by_cases hpress : ∃ message data deletable, a = .press message data deletable
  · obtain ⟨message, data, deletable, rfl⟩ := hpress
    cases serverStep_cases ht with
    | press message data deletable m hidle hm hdata =>
        rcases named_callbackHandler h with hold | hnew
        · exact Or.inl hold
        · exact Or.inr ⟨message, data, deletable, rfl, hnew⟩
  · left
    obtain ⟨device, hdb, hname⟩ := h
    by_cases hmsg : ∃ msg, a = .mqttMessage msg
    · obtain ⟨msg, rfl⟩ := hmsg
      cases serverStep_cases ht with
      | mqttMessage msg hidle =>
          rcases mqttLookup_db s msg with hsame | hsame
          · rw [hsame] at hdb
            exact ⟨device, hdb, hname⟩
          · rw [hsame] at hdb
            exact named_of_live _ _ hdb hname
    · rw [db_of_no_press ht (fun message data deletable heq =>
        hpress ⟨message, data, deletable, heq⟩) fun msg heq => hmsg ⟨msg, heq⟩] at hdb
      exact ⟨device, hdb, hname⟩

/-- A record appears when the owner accepts the device, and never otherwise. -/
theorem stored_by_step {a : ServerAct} {key : String} (ht : serverStep tbl s a = some t)
    (hnone : s.db key = none) (hsome : t.db key ≠ none) : Accepts tbl key a := by
  obtain ⟨device, hdevice⟩ := Option.ne_none_iff_exists'.mp hsome
  rcases named_by_step ht ⟨device, hdevice, rfl⟩ with ⟨old, hold, -⟩ |
    ⟨message, data, deletable, ha, hnew⟩
  · rw [hnone] at hold
    cases hold
  · exact ⟨message, data, deletable, device.name, ha, hnew⟩

/-- **The MQTT thread comes between its sessions** by finding a live record. -/
theorem found_by_step {a : ServerAct} {btId : String} (ht : serverStep tbl s a = some t)
    (hnot : s.mqtt ≠ .found btId) (hfound : t.mqtt = .found btId) :
    a = .mqttMessage btId ∧ startswith btId "connected" = false ∧
      ∃ device, live s.now (s.db btId) = some device := by
  rcases serverStep_log ht with ⟨hquiet, -⟩ | ⟨msg, rfl, hidle, hm, -, -⟩ |
    ⟨msg, -, hidle, hm, -, -⟩ | ⟨msg, device, -, -, -, hm, -, -⟩ | ⟨msg, name, -, -, hm, -, -⟩ |
    ⟨msg, -, -, -, hm, -, -⟩ | ⟨id, message, deletable, -, -, -, hm, -, -⟩
  · exact absurd (hquiet.mqtt.symm.trans hfound) hnot
  · have hmsg : msg = btId := MqttPc.found.inj (hm.symm.trans hfound)
    subst hmsg
    refine ⟨rfl, ?_⟩
    cases serverStep_cases ht with
    | mqttMessage msg hidle =>
        unfold mqttLookup at hfound
        rw [getBtDevice_eq] at hfound
        split at hfound
        · exact absurd hfound hnot
        · rename_i hconn
          split at hfound
          · exact absurd hfound hnot
          · cases hlive : live s.now (s.db msg) with
            | some device => exact ⟨Bool.eq_false_iff.mpr hconn, device, rfl⟩
            | none =>
                rw [hlive] at hfound
                exact absurd hfound hnot
  · exact absurd (hm.symm.trans hfound) (by rw [hidle] at hnot; exact hnot)
  · rw [hm] at hfound
    cases hfound
  · rw [hm] at hfound
    cases hfound
  · rw [hm] at hfound
    cases hfound
  · exact absurd (hm.symm.trans hfound) hnot

/-- **It comes behind them** by reading the name in the record. -/
theorem read_by_step {a : ServerAct} {btId name : String} (ht : serverStep tbl s a = some t)
    (hnot : s.mqtt ≠ .named btId name) (hread : t.mqtt = .named btId name) :
    a = .mqttName ∧ s.mqtt = .found btId ∧ Named s btId name := by
  rcases serverStep_log ht with ⟨hquiet, -⟩ | ⟨msg, -, -, hm, -, -⟩ | ⟨msg, -, -, hm, -, -⟩ |
    ⟨msg, device, rfl, hfound, hdb, hm, -, -⟩ | ⟨msg, name', -, -, hm, -, -⟩ |
    ⟨msg, -, -, -, hm, -, -⟩ | ⟨id, message, deletable, -, -, -, hm, -, -⟩
  · exact absurd (hquiet.mqtt.symm.trans hread) hnot
  · rw [hm] at hread
    cases hread
  · rw [hm] at hread
    cases hread
  · obtain ⟨rfl, hname⟩ := MqttPc.named.inj (hm.symm.trans hread)
    exact ⟨rfl, hfound, device, hdb, hname⟩
  · rw [hm] at hread
    cases hread
  · rw [hm] at hread
    cases hread
  · exact absurd (hm.symm.trans hread) hnot

theorem deleteMessage_outcomes (s : ServerState) (message : ℕ) (deletable : Bool) :
    (deleteMessage s message deletable).outcomes = s.outcomes := by
  unfold deleteMessage
  split <;> rfl

theorem callbackHandler_outcomes (message : ℕ) (data : String) (deletable : Bool) :
    (callbackHandler tbl s message data deletable).outcomes = s.outcomes ∨
      (∃ e, (callbackHandler tbl s message data deletable).outcomes = .botRaised e :: s.outcomes) ∨
      (callbackOf tbl data = .ok .openDoor ∧
        (callbackHandler tbl s message data deletable).outcomes =
          .openedByOwner :: s.outcomes) := by
  unfold callbackHandler
  split
  · exact Or.inr (Or.inl ⟨_, rfl⟩)
  · exact Or.inl (deleteMessage_outcomes _ _ _)
  · rename_i hdata
    exact Or.inr (Or.inr ⟨hdata, rfl⟩)
  · exact Or.inl (deleteMessage_outcomes _ _ _)
  · exact Or.inl (deleteMessage_outcomes _ _ _)
  · exact Or.inl (deleteMessage_outcomes _ _ _)
  · split
    · exact Or.inl (deleteMessage_outcomes _ _ _)
    · exact Or.inr (Or.inl ⟨_, rfl⟩)
  · split
    · exact Or.inl rfl
    · exact Or.inl (deleteMessage_outcomes _ _ _)

/-- The step after which `o` is the latest outcome calls `open_door`: for the
device whose name has been read, or for the button of the owner. -/
inductive Opens (tbl : CharTable) (s : ServerState) : ServerAct → Outcome → Prop where
  | device (btId name : String) (hread : s.mqtt = .named btId name) :
      Opens tbl s .mqttOpen (.opened btId name)
  | owner (message : ℕ) (data : String) (deletable : Bool)
      (hdata : callbackOf tbl data = .ok .openDoor) :
      Opens tbl s (.press message data deletable) .openedByOwner

/-- **A step adds one outcome at most**, and what opens the door is called for. -/
theorem outcome_by_step {a : ServerAct} (ht : serverStep tbl s a = some t) :
    t.outcomes = s.outcomes ∨
      ∃ o, t.outcomes = o :: s.outcomes ∧ (o.opens = true → Opens tbl s a o) := by
  cases serverStep_cases ht with
  | wait d => exact Or.inl rfl
  | mqttMessage msg hidle =>
      unfold mqttLookup
      split
      · exact Or.inr ⟨_, rfl, fun h => by cases h⟩
      · split
        · exact Or.inr ⟨_, rfl, fun h => by cases h⟩
        · split
          · exact Or.inl rfl
          · exact Or.inr ⟨_, rfl, fun h => by cases h⟩
  | mqttName msg hfound =>
      unfold mqttName
      split
      · exact Or.inl rfl
      · exact Or.inr ⟨_, rfl, fun h => by cases h⟩
  | mqttOpen msg name hnamed => exact Or.inr ⟨_, rfl, fun _ => .device msg name hnamed⟩
  | press message data deletable m hidle hm hdata =>
      rcases @callbackHandler_outcomes tbl s message data deletable with
        hsame | ⟨e, hraised⟩ | ⟨hopen, hopened⟩
      · exact Or.inl hsame
      · exact Or.inr ⟨_, hraised, fun h => by cases h⟩
      · exact Or.inr ⟨_, hopened, fun _ => .owner message data deletable hopen⟩
  | deviceSettings btId message deletable hbot =>
      unfold deviceSettings
      split
      · exact Or.inl (deleteMessage_outcomes _ _ _)
      · exact Or.inr ⟨_, rfl, fun h => by cases h⟩
  | text text hidle =>
      refine Or.inl ?_
      unfold getDeviceName
      split
      · rfl
      · split
        · rfl
        · split <;> rfl
  | listDevices ids hidle hids => exact Or.inl rfl

end

/-! ## Where the door's publications come from -/

/-- The address pends in `bt_lst`. -/
def Pends (addr : BdAddr) (s : App) : Prop :=
  ∃ k, (s.btLst.deviceLst k).timestamp ≠ 0 ∧ (s.btLst.deviceLst k).addr = addr

/-- A scan report names the address as near enough. -/
def Nearby (addr : BdAddr) (a : AppAct) : Prop :=
  ∃ rssi gap, a = .btEvent (.scanReport rssi addr) gap ∧ rssi > -50

section

variable {s t : App} {a : AppAct}

theorem not_pends_init (addr : BdAddr) : ¬ Pends addr {} := by
  rintro ⟨k, hpending, -⟩
  exact hpending rfl

/-- Slots that are kept or emptied. -/
theorem Pends.of_slots {addr : BdAddr} (h : Pends addr t)
    (hslot : ∀ k, t.btLst.deviceLst k = s.btLst.deviceLst k ∨ t.btLst.deviceLst k = {}) :
    Pends addr s := by
  obtain ⟨k, hpending, haddr⟩ := h
  rcases hslot k with hk | hk
  · rw [hk] at hpending haddr
    exact ⟨k, hpending, haddr⟩
  · rw [hk] at hpending
    exact absurd rfl hpending

/-- **A step of the main loop adds one event at most**, and an address handed
over pends before. -/
theorem event_by_step (h : appStep s a = some t) :
    t.hist = s.hist ∨ ∃ e, t.hist = e :: s.hist ∧
      ∀ addr time, e = .handed addr time → a = .next ∧ Pends addr s := by
  cases a with
  | elapse d =>
      cases h
      exact Or.inl rfl
  | tick =>
      simp only [appStep] at h
      split at h <;> cases h
      exact Or.inl rfl
  | message buffer =>
      simp only [appStep] at h
      split at h <;> cases h
      exact Or.inr ⟨_, rfl, fun addr time he => by cases he⟩
  | btEvent evt gap =>
      simp only [appStep] at h
      split at h <;> cases h
      cases evt with
      | scanReport rssi address => exact Or.inr ⟨_, rfl, fun addr time he => by cases he⟩
      | systemBoot => exact Or.inl rfl
      | other => exact Or.inl rfl
  | next =>
      cases h
      rcases nextStep_cases s with ⟨-, h⟩ | ⟨-, -, h⟩ | ⟨-, h⟩ | ⟨-, h⟩ | ⟨left, -, h⟩ |
        ⟨i, hi, lastIndex, hpc, h⟩ | ⟨i, lastIndex, -, -, h⟩ | ⟨i, cur, -, h⟩ | ⟨-, h⟩ <;> rw [h]
      case inr.inr.inr.inl => exact Or.inr ⟨_, rfl, fun addr time he => by cases he⟩
      case inr.inr.inr.inr.inr.inl =>
        unfold sendIteration
        simp only
        split
        · rename_i hdue
          refine Or.inr ⟨_, rfl, fun addr time he => ⟨trivial, ⟨i, hi⟩, ?_, ?_⟩⟩
          · exact (sendDue_iff.mp hdue).2.1
          · exact (LoopEvent.handed.inj he).1
        · exact Or.inl rfl
      all_goals exact Or.inl rfl

/-- **An address comes to pend** because it was reported near. -/
theorem pends_by_step {addr : BdAddr} (h : appStep s a = some t) (hnot : ¬ Pends addr s)
    (hpends : Pends addr t) : Nearby addr a := by
  cases a with
  | elapse d =>
      cases h
      exact absurd (hpends.of_slots fun k => Or.inl rfl) hnot
  | tick =>
      simp only [appStep] at h
      split at h <;> cases h
      exact absurd (hpends.of_slots fun k => Or.inl rfl) hnot
  | message buffer =>
      simp only [appStep] at h
      split at h <;> cases h
      exact absurd (hpends.of_slots fun k => Or.inl rfl) hnot
  | btEvent evt gap =>
      simp only [appStep] at h
      split at h <;> cases h
      cases evt with
      | scanReport rssi address =>
          obtain ⟨k, hpending, haddr⟩ := hpends
          by_cases hrssi : rssi > -50
          · simp only [slBtOnEvent, if_pos hrssi] at hpending haddr
            rcases addBtDevice_slot (fun k => stamp (reading s.now gap k)) s.btLst address k with
              hk | hk
            · rw [hk] at hpending haddr
              exact absurd ⟨k, hpending, haddr⟩ hnot
            · rw [hk] at haddr
              exact ⟨rssi, gap, by rw [← haddr], hrssi⟩
          · simp only [slBtOnEvent, if_neg hrssi] at hpending haddr
            exact absurd ⟨k, hpending, haddr⟩ hnot
      | systemBoot => exact absurd hpends hnot
      | other => exact absurd hpends hnot
  | next =>
      cases h
      refine absurd (hpends.of_slots fun k => ?_) hnot
      rcases nextStep_cases s with ⟨-, h⟩ | ⟨-, -, h⟩ | ⟨-, h⟩ | ⟨-, h⟩ | ⟨left, -, h⟩ |
        ⟨i, hi, lastIndex, hpc, h⟩ | ⟨i, lastIndex, -, -, h⟩ | ⟨i, cur, -, h⟩ | ⟨-, h⟩ <;> rw [h]
      case inr.inr.inr.inr.inr.inl =>
        unfold sendIteration
        simp only
        split
        · exact clear_slot s.btLst ⟨i, hi⟩ k
        · exact Or.inl rfl
      all_goals exact Or.inl rfl

end

/-! ## The parties of the system -/

section

variable {tbl : CharTable} {s t : System} {a : SystemAct}

/-- The server is left alone, goes on, or handles a message. -/
theorem server_by_step (h : systemStep tbl s a = some t) :
    t.server = s.server ∨
      (∃ b calls, a = .server b calls ∧ b.isMessage = false ∧
        serverStep tbl s.server b = some t.server) ∨
      ∃ m msg, a = .toServer m ∧ m ∈ s.published ∧ m.topicName = topicSubscribe ∧
        decode m.payload = some msg ∧
        serverStep tbl s.server (.mqttMessage msg) = some t.server := by
  cases systemStep_cases h with
  | server b calls v ms hmsg hv hms => exact Or.inr (Or.inl ⟨b, calls, rfl, hmsg, hv⟩)
  | toServer m msg v hm htopic hmsg hv =>
      exact Or.inr (Or.inr ⟨m, msg, rfl, hm, htopic, hmsg, hv⟩)
  | _ => exact Or.inl rfl

/-- The door is left alone, goes on, or handles a message. -/
theorem door_by_step (h : systemStep tbl s a = some t) :
    t.door = s.door ∨
      (∃ b arrives, a = .door b arrives ∧ b.isMessage = false ∧
        appStep s.door b = some t.door) ∨
      ∃ m, a = .toDoor m ∧ m ∈ s.published ∧ m.topicName = TOPIC_RECV ∧
        appStep s.door (.message m.payload) = some t.door := by
  cases systemStep_cases h with
  | door b arrives v hmsg hv => exact Or.inr (Or.inl ⟨b, arrives, rfl, hmsg, hv⟩)
  | toDoor m v hm htopic hv => exact Or.inr (Or.inr ⟨m, rfl, hm, htopic, hv⟩)
  | _ => exact Or.inl rfl

/-- What the broker gets in a step, and why. -/
inductive Publishes (tbl : CharTable) (s : System) : SystemAct → MqttMessage → Prop where
  | opened (b : ServerAct) (calls : List PublishCall) (o : Outcome)
      (hopens : Opens tbl s.server b o) :
      Publishes tbl s (.server b calls) (publish .openDoor)
  | order (c : OwnerCommand) (shown : Bool) :
      Publishes tbl s (.command c true shown) (publish c.command)
  | handed (addr : BdAddr) (hpends : Pends addr s.door) :
      Publishes tbl s (.door .next true) (DoorPayload.device addr).message
  | connected : Publishes tbl s .announce DoorPayload.connected.message
  | lastWill : Publishes tbl s .lastWill DoorPayload.lastWill.message

theorem publishes_by_step {m : MqttMessage} (h : systemStep tbl s a = some t)
    (hnot : m ∉ s.published) (hm : m ∈ t.published) : Publishes tbl s a m := by
  cases systemStep_cases h with
  | server b calls v ms hmsg hv hms =>
      have hms' : m ∈ ms := (List.mem_append.mp hm).resolve_right hnot
      unfold serverPublishes at hms
      rcases outcome_by_step hv with hsame | ⟨o, ho, hopens⟩
      · rw [hsame, grown_self] at hms
        cases hms
        cases hms'
      · have hone : grown s.server.outcomes v.outcomes = [o] := by
          rw [ho]
          exact grown_append [o] _
        rw [hone] at hms
        split at hms
        · rename_i hany
          obtain rfl := openDoor_only hms m hms'
          exact .opened b calls o (hopens (by simpa using hany))
        · cases hms
          cases hms'
  | command c arrives shown hidle =>
      obtain ⟨rfl, hms⟩ := mem_sentIf.mp ((List.mem_append.mp hm).resolve_right hnot)
      rw [List.mem_singleton.mp hms]
      exact .order c shown
  | door b arrives v hmsg hv =>
      obtain ⟨rfl, hms⟩ := mem_sentIf.mp ((List.mem_append.mp hm).resolve_right hnot)
      unfold doorPublishes at hms
      rcases event_by_step hv with hsame | ⟨e, he, hhanded⟩
      · rw [hsame, grown_self] at hms
        cases hms
      · have hone : grown s.door.hist v.hist = [e] := by
          rw [he]
          exact grown_append [e] _
        rw [hone] at hms
        cases e with
        | handed addr time =>
            obtain rfl := List.mem_singleton.mp hms
            obtain ⟨rfl, hpends⟩ := hhanded addr time rfl
            exact .handed addr hpends
        | _ => cases hms
  | announce hpc =>
      obtain rfl := (List.mem_cons.mp hm).resolve_right hnot
      exact .connected
  | lastWill =>
      obtain rfl := (List.mem_cons.mp hm).resolve_right hnot
      exact .lastWill
  | _ => exact absurd hm hnot

end

/-! ## The two topics -/

theorem topics_differ : TOPIC_SEND ≠ topicPublish := by decide

/-- The payload is no text of an address. -/
theorem ne_deviceText {bytes : List UInt8} {b : UInt8} (hmem : b ∈ bytes) (hb : 70 < b)
    (addr : BdAddr) : bytes ≠ deviceText addr := by
  intro h
  rw [h] at hmem
  exact absurd hb (UInt8.not_lt.mpr (deviceText_range hmem).2)

theorem device_message (addr : BdAddr) :
    (DoorPayload.device addr).message =
      { topicName := TOPIC_SEND, payload := deviceText addr } := by
  rw [← cstr_deviceBuf addr]
  rfl

/-- The messages of the door are told apart by their payloads. -/
theorem eq_device_of_payload {p : DoorPayload} {addr : BdAddr}
    (h : p.message.payload = deviceText addr) : p = .device addr := by
  cases p with
  | connected => exact absurd h (ne_deviceText (b := 99) (by decide) (by decide) addr)
  | device addr' =>
      rw [device_message] at h
      rw [deviceText_injective h]
  | lastWill => exact absurd h (ne_deviceText (b := 123) (by decide) (by decide) addr)

section

variable {tbl : CharTable} {s t : System} {a : SystemAct}

theorem topic_of_publishes {m : MqttMessage} (h : Publishes tbl s a m) :
    (∃ c : Command, m = publish c) ∨
      ∃ p : DoorPayload, m = p.message ∧ m.topicName = TOPIC_SEND := by
  cases h with
  | opened b calls o hopens => exact Or.inl ⟨_, rfl⟩
  | order c shown => exact Or.inl ⟨_, rfl⟩
  | handed addr hpends => exact Or.inr ⟨_, rfl, rfl⟩
  | connected => exact Or.inr ⟨_, rfl, rfl⟩
  | lastWill => exact Or.inr ⟨_, rfl, rfl⟩

/-- An address is published by the door, and pends then. -/
theorem handed_of_publishes {addr : BdAddr}
    (h : Publishes tbl s a (DoorPayload.device addr).message) :
    a = .door .next true ∧ Pends addr s.door := by
  generalize hmsg : (DoorPayload.device addr).message = m at h
  have hpayload : m.payload = deviceText addr := by rw [← hmsg, device_message]
  have htopic : m.topicName ≠ topicPublish := by
    rw [← hmsg]
    exact topics_differ
  cases h with
  | opened b calls o hopens => exact absurd rfl htopic
  | order c shown => exact absurd rfl htopic
  | handed addr' hpends =>
      obtain rfl := DoorPayload.device.inj (eq_device_of_payload hpayload)
      exact ⟨rfl, hpends⟩
  | connected => cases eq_device_of_payload hpayload
  | lastWill => cases eq_device_of_payload hpayload

end

/-! ## The chain -/

/-- Both sides have just been started: no message is on the way, the threads of
the server wait, and the keys of the database are words. -/
structure Booted (s : System) : Prop where
  idle : Idle s.server
  keys : ∀ key, s.server.db key ≠ none → IsWord isspace key.toList
  door : s.door = {}
  published : s.published = []

section

variable (tbl : CharTable) (s : System)

/-- An earlier step of the run of the system. -/
abbrev Before (C : List SystemAct → System → SystemAct → Prop) (pre : List SystemAct) : Prop :=
  Earlier (systemStep tbl) C s pre

/-- The door hears the address from near. -/
def HeardAt (addr : BdAddr) (_ : List SystemAct) (_ : System) (a : SystemAct) : Prop :=
  ∃ b arrives, a = .door b arrives ∧ Nearby addr b

/-- The door publishes the address, which pends since it was heard. -/
def HandedAt (addr : BdAddr) (pre : List SystemAct) (v : System) (a : SystemAct) : Prop :=
  a = .door .next true ∧ Pends addr v.door ∧ Before tbl s (HeardAt addr) pre

/-- The owner presses the button that stores the device. -/
def AcceptedAt (btId : String) (_ : List SystemAct) (_ : System) (a : SystemAct) : Prop :=
  ∃ b calls, a = .server b calls ∧ Accepts tbl btId b

/-- The server is asked for the address and finds a live record, which the owner
has accepted unless it was there from the start; the door has published the
address. -/
def FoundAt (addr : BdAddr) (pre : List SystemAct) (v : System) (a : SystemAct) : Prop :=
  a = .toServer (DoorPayload.device addr).message ∧
    (∃ device, live v.server.now (v.server.db (deviceId addr)) = some device) ∧
    (s.server.db (deviceId addr) ≠ none ∨ Before tbl s (AcceptedAt tbl (deviceId addr)) pre) ∧
    Before tbl s (HandedAt tbl s addr) pre

/-- The owner presses the button `open`. -/
def PressedOpenAt (_ : List SystemAct) (_ : System) (a : SystemAct) : Prop :=
  ∃ message data deletable calls, a = .server (.press message data deletable) calls ∧
    callbackOf tbl data = .ok .openDoor

/-- The owner gives the order, and the broker gets it. -/
def OrderedAt (c : OwnerCommand) (_ : List SystemAct) (_ : System) (a : SystemAct) : Prop :=
  ∃ shown, a = .command c true shown

section

variable (F : List SystemAct → System → SystemAct → Prop)

/-- The server reads the name in the record of the device, which it has found at a
step that meets `F`. -/
def ReadAt (btId name : String) (pre : List SystemAct) (v : System) (a : SystemAct) : Prop :=
  (∃ calls, a = .server .mqttName calls) ∧ Named v.server btId name ∧
    v.server.mqtt = .found btId ∧
    Since (systemStep tbl) (fun x => x.server.mqtt = .found btId) F s pre

/-- The server calls `open_door` for the device, which it has found at a step that
meets `F`, in the same run of `on_mqtt_message`. -/
def OpenedAt (btId name : String) (pre : List SystemAct) (v : System) (a : SystemAct) : Prop :=
  (∃ calls, a = .server .mqttOpen calls) ∧ v.server.mqtt = .named btId name ∧
    Since (systemStep tbl) (fun x => x.server.mqtt = .named btId name)
      (ReadAt tbl s F btId name) s pre

end

end

section

variable {tbl : CharTable} {s u : System} {as : List SystemAct}

theorem ReadAt.mono {F G : List SystemAct → System → SystemAct → Prop} {btId name : String}
    {pre : List SystemAct} {v : System} {a : SystemAct} (h : ReadAt tbl s F btId name pre v a)
    (hFG : ∀ pre v a, run (systemStep tbl) s pre = some v → F pre v a → G pre v a) :
    ReadAt tbl s G btId name pre v a :=
  ⟨h.1, h.2.1, h.2.2.1, h.2.2.2.mono hFG⟩

/-! ## Links of the chain -/

theorem isWord_of_mem_split {data w : String} (hw : w ∈ split data) : IsWord isspace w.toList := by
  obtain ⟨cs, hcs, rfl⟩ := List.mem_map.mp hw
  rw [String.toList_ofList]
  exact isWord_of_mem_words hcs

theorem split_of_new {data btId name : String} (h : callbackOf tbl data = .ok (.new btId name)) :
    startswith data "new" = true ∧ (split data).drop 1 = [btId, name] := by
  unfold callbackOf at h
  repeat' split at h
  all_goals cases h
  rename_i hnew _ hdrop
  exact ⟨hnew, hdrop⟩

theorem isWord_of_new {data btId name : String} (h : callbackOf tbl data = .ok (.new btId name)) :
    IsWord isspace btId.toList := by
  apply isWord_of_mem_split
  exact List.drop_subset 1 _ ((split_of_new h).2 ▸ List.mem_cons_self)

/-- Every key is a word, in every state of a run. -/
theorem keys_are_words (hs : Booted s) (hrun : run (systemStep tbl) s as = some u) :
    ∀ key, u.server.db key ≠ none → IsWord isspace key.toList := by
  refine run_inv (P := fun v => ∀ key, v.server.db key ≠ none → IsWord isspace key.toList)
    ?_ hs.keys hrun
  intro v a w hv hw key hkey
  by_cases hold : v.server.db key = none
  · have hstored : ∀ b, serverStep tbl v.server b = some w.server → IsWord isspace key.toList := by
      intro b hb
      obtain ⟨message, data, deletable, name, -, hdata⟩ := stored_by_step hb hold hkey
      exact isWord_of_new hdata
    rcases server_by_step hw with hsame | ⟨b, rcs, -, -, hb⟩ | ⟨m, msg, -, -, -, -, hb⟩
    · rw [hsame] at hkey
      exact absurd hold hkey
    · exact hstored b hb
    · exact hstored _ hb
  · exact hv key hold

theorem heard_of_pends (hs : Booted s) (hrun : run (systemStep tbl) s as = some u)
    {addr : BdAddr} (hpends : Pends addr u.door) : Before tbl s (HeardAt addr) as := by
  refine earlier_of_becomes (P := fun v => Pends addr v.door) ?_ hpends hrun ?_
  · rw [hs.door]
    exact not_pends_init addr
  · intro pre v a w _ hw hnot hpends
    rcases door_by_step hw with hsame | ⟨b, arrives, rfl, -, hb⟩ | ⟨m, -, -, -, hb⟩
    · rw [hsame] at hpends
      exact absurd hpends hnot
    · exact ⟨b, arrives, rfl, pends_by_step hb hnot hpends⟩
    · obtain ⟨rssi, gap, h, -⟩ := pends_by_step hb hnot hpends
      cases h

/-- What was published, was published at a step that had reason to. -/
theorem published_before (hs : Booted s) (hrun : run (systemStep tbl) s as = some u)
    {m : MqttMessage} (hm : m ∈ u.published) :
    Before tbl s (fun _ v a => Publishes tbl v a m) as := by
  refine earlier_of_becomes (P := fun v => m ∈ v.published) ?_ hm hrun ?_
  · rw [hs.published]
    exact List.not_mem_nil
  · intro pre v a w _ hw hnot hm
    exact publishes_by_step hw hnot hm

theorem published_topic (hs : Booted s) (hrun : run (systemStep tbl) s as = some u)
    {m : MqttMessage} (hm : m ∈ u.published) :
    (∃ c : Command, m = publish c) ∨
      ∃ p : DoorPayload, m = p.message ∧ m.topicName = TOPIC_SEND := by
  obtain ⟨pre, a, post, v, -, -, hpub⟩ := published_before hs hrun hm
  exact topic_of_publishes hpub

theorem handed_of_published (hs : Booted s) (hrun : run (systemStep tbl) s as = some u)
    {addr : BdAddr} (hm : (DoorPayload.device addr).message ∈ u.published) :
    Before tbl s (HandedAt tbl s addr) as := by
  refine (published_before hs hrun hm).mono fun pre v a hv hpub => ?_
  obtain ⟨rfl, hpends⟩ := handed_of_publishes hpub
  exact ⟨rfl, hpends, heard_of_pends hs hv hpends⟩

theorem accepted_of_stored (hrun : run (systemStep tbl) s as = some u) {key : String}
    (hkey : u.server.db key ≠ none) :
    s.server.db key ≠ none ∨ Before tbl s (AcceptedAt tbl key) as := by
  by_cases hstart : s.server.db key = none
  · refine Or.inr (earlier_of_becomes (P := fun v => v.server.db key ≠ none)
      (fun hne => hne hstart) hkey hrun ?_)
    intro pre v a w _ hw hnone hsome
    have hnone : v.server.db key = none := not_not.mp hnone
    rcases server_by_step hw with hsame | ⟨b, calls, rfl, -, hb⟩ |
      ⟨m, msg, -, -, -, -, hb⟩
    · rw [hsame] at hsome
      exact absurd hnone hsome
    · exact ⟨b, calls, rfl, stored_by_step hb hnone hsome⟩
    · obtain ⟨message, data, deletable, name, h, -⟩ := stored_by_step hb hnone hsome
      cases h
  · exact Or.inl hstart

/-- The last will is no word. -/
theorem lastWill_not_word : ¬ IsWord isspace (asciiText LWT).toList := by
  intro h
  have hspace := h.no_sep ' ' (by decide)
  exact absurd hspace (by decide)

/-- What the server may be told: the announcement of the door, an address the
door has published, or its last will. -/
theorem text_of_published (hs : Booted s) (hrun : run (systemStep tbl) s as = some u)
    {m : MqttMessage} {msg : String} (hm : m ∈ u.published) (htopic : m.topicName = topicSubscribe)
    (hdecode : decode m.payload = some msg) :
    msg = "connected" ∨ (∃ addr, msg = deviceId addr ∧ m = (DoorPayload.device addr).message) ∨
      msg = asciiText LWT := by
  rcases published_topic hs hrun hm with ⟨c, rfl⟩ | ⟨p, rfl, -⟩
  · exact absurd htopic.symm topics_differ
  · cases p with
    | connected =>
        have htext : decode (cstr (ascii "connected")) = some "connected" := by decide
        exact Or.inl (Option.some.inj (hdecode.symm.trans htext))
    | device addr =>
        have hpayload := hdecode
        rw [device_message] at hpayload
        obtain rfl := Option.some.inj ((decode_deviceText addr).symm.trans hpayload)
        exact Or.inr (Or.inl ⟨addr, rfl, rfl⟩)
    | lastWill =>
        have htext : decode (cstr LWT) = some (asciiText LWT) := by
          have hpayload : cstr LWT = LWT := by decide
          rw [hpayload]
          exact decode_lwt
        exact Or.inr (Or.inr (Option.some.inj (hdecode.symm.trans htext)))

/-- **The MQTT thread has found a device**, by a report of an address that the door has
heard and published, and whose record the owner has accepted. -/
theorem found_since (hs : Booted s) (hrun : run (systemStep tbl) s as = some u) {btId : String}
    (hfound : u.server.mqtt = .found btId) :
    ∃ addr, btId = deviceId addr ∧ Since (systemStep tbl) (fun x => x.server.mqtt = .found btId)
      (FoundAt tbl s addr) s as := by
  have hstep : Since (systemStep tbl) (fun x => x.server.mqtt = .found btId)
      (fun pre v a => ∃ addr, btId = deviceId addr ∧ FoundAt tbl s addr pre v a) s as := by
    refine since_of_becomes ?_ hfound hrun ?_
    · rw [hs.idle.mqtt]
      exact MqttPc.noConfusion
    · intro pre v a w hv hw hnot hfound
      rcases server_by_step hw with hsame | ⟨b, calls, rfl, hother, hb⟩ |
        ⟨m, msg, rfl, hm, htopic, hdecode, hb⟩
      · rw [hsame] at hfound
        exact absurd hfound hnot
      · obtain ⟨rfl, -⟩ := found_by_step hb hnot hfound
        cases hother
      · obtain ⟨hmsg, hconn, device, hlive⟩ := found_by_step hb hnot hfound
        obtain rfl := ServerAct.mqttMessage.inj hmsg
        have hstored : v.server.db msg ≠ none := by
          intro hnone
          rw [hnone, live_none] at hlive
          cases hlive
        rcases text_of_published hs hv hm htopic hdecode with rfl | ⟨addr, rfl, rfl⟩ | rfl
        · exact absurd hconn (by decide)
        · exact ⟨addr, rfl, rfl, ⟨device, hlive⟩, accepted_of_stored hv hstored,
            handed_of_published hs hv hm⟩
        · exact absurd (keys_are_words hs hv _ hstored) lastWill_not_word
  obtain ⟨pre, a, post, v, w, hsplit, hv, hw, ⟨addr, rfl, hat⟩, hsince⟩ := hstep
  exact ⟨addr, rfl, pre, a, post, v, w, hsplit, hv, hw, hat, hsince⟩

/-- **It has read the name** of such a device, in the same run of the handler. -/
theorem read_since (hs : Booted s) (hrun : run (systemStep tbl) s as = some u)
    {btId name : String} (hread : u.server.mqtt = .named btId name) :
    ∃ addr, btId = deviceId addr ∧
      Since (systemStep tbl) (fun x => x.server.mqtt = .named btId name)
        (ReadAt tbl s (FoundAt tbl s addr) btId name) s as := by
  have hstep : Since (systemStep tbl) (fun x => x.server.mqtt = .named btId name)
      (fun pre v a => ∃ addr, btId = deviceId addr ∧
        ReadAt tbl s (FoundAt tbl s addr) btId name pre v a) s as := by
    refine since_of_becomes ?_ hread hrun ?_
    · rw [hs.idle.mqtt]
      exact MqttPc.noConfusion
    · intro pre v a w hv hw hnot hread
      rcases server_by_step hw with hsame | ⟨b, calls, rfl, -, hb⟩ | ⟨m, msg, -, -, -, -, hb⟩
      · rw [hsame] at hread
        exact absurd hread hnot
      · obtain ⟨rfl, hfound, hnamed⟩ := read_by_step hb hnot hread
        obtain ⟨addr, haddr, hsince⟩ := found_since hs hv hfound
        exact ⟨addr, haddr, ⟨calls, rfl⟩, hnamed, hfound, hsince⟩
      · obtain ⟨heq, -⟩ := read_by_step hb hnot hread
        cases heq
  obtain ⟨pre, a, post, v, w, hsplit, hv, hw, ⟨addr, haddr, hat⟩, hsince⟩ := hstep
  exact ⟨addr, haddr, pre, a, post, v, w, hsplit, hv, hw, hat, hsince⟩

/-- **An opening is noted once**: at the step that calls `open_door`, before which the
log was the older part. -/
theorem opening_noted (hs : Booted s) (hrun : run (systemStep tbl) s as = some u)
    {btId name : String} {newer older : List Outcome}
    (hopened : u.server.outcomes = newer ++ .opened btId name :: older) :
    Before tbl s (fun _ v a => v.server.outcomes = older ∧
      (∃ calls, a = .server .mqttOpen calls) ∧ v.server.mqtt = .named btId name) as := by
  refine earlier_of_becomes (P := fun v => .opened btId name :: older <:+ v.server.outcomes) ?_
    ⟨newer, hopened.symm⟩ hrun ?_
  · rw [hs.idle.outcomes, List.suffix_nil]
    exact List.cons_ne_nil _ older
  · intro pre v a w hv hw hnot hsuffix
    have hgrows : ∀ b, serverStep tbl v.server b = some w.server →
        v.server.outcomes = older ∧ Opens tbl v.server b (.opened btId name) := by
      intro b hb
      rcases outcome_by_step hb with hsame | ⟨o, ho, hopens⟩
      · rw [hsame] at hsuffix
        exact absurd hsuffix hnot
      · rw [ho, List.suffix_cons_iff] at hsuffix
        obtain ⟨rfl, rfl⟩ := List.cons.inj (hsuffix.resolve_right hnot)
        exact ⟨rfl, hopens rfl⟩
    rcases server_by_step hw with hsame | ⟨b, calls, rfl, -, hb⟩ | ⟨m, msg, -, -, -, -, hb⟩
    · rw [hsame] at hsuffix
      exact absurd hsuffix hnot
    · obtain ⟨hold, hopens⟩ := hgrows b hb
      cases hopens with
      | device _ _ hread => exact ⟨hold, ⟨calls, rfl⟩, hread⟩
    · obtain ⟨-, hopens⟩ := hgrows _ hb
      cases hopens

theorem commandOf_text (c : Command) : commandOf c.text = some c := by
  cases c <;> decide

/-- The main line and the timer open, lock and unlock nothing. -/
theorem stat_by_appStep {d e : App} {b : AppAct} (h : appStep d b = some e)
    (hmsg : b.isMessage = false) :
    e.drIot.stat = d.drIot.stat ∨ (d.drIot.stat = .opened ∧ e.drIot.stat = .closed) := by
  cases b with
  | elapse d =>
      cases h
      exact Or.inl rfl
  | tick =>
      simp only [appStep] at h
      split at h <;> cases h
      rcases periodicTimeout_cases (stamp d.now) d.drIot with ⟨hopen, -, heq⟩ | ⟨-, heq⟩
      · exact Or.inr ⟨hopen, by rw [heq]⟩
      · exact Or.inl (by rw [heq])
  | message buffer => cases hmsg
  | btEvent evt gap =>
      simp only [appStep] at h
      split at h <;> cases h
      cases evt <;> exact Or.inl rfl
  | next =>
      cases h
      refine Or.inl ?_
      rcases nextStep_cases d with ⟨-, h⟩ | ⟨-, -, h⟩ | ⟨-, h⟩ | ⟨-, h⟩ | ⟨left, -, h⟩ |
        ⟨i, hi, lastIndex, hpc, h⟩ | ⟨i, lastIndex, -, -, h⟩ | ⟨i, cur, -, h⟩ | ⟨-, h⟩ <;> rw [h]
      unfold sendIteration
      simp only
      split <;> rfl

theorem stat_by_message {d e : App} {c : Command} (h : appStep d (.message c.text) = some e) :
    e.drIot.stat = d.drIot.stat.obey c := by
  simp only [appStep] at h
  split at h
  · cases h
    have hstat := mqttMessageCb_stat (stamp d.now) c.text d.drIot
    rw [commandOf_text] at hstat
    exact hstat
  · cases h

/-- The door is in a status, but for closed, since it has handled a command that leads
to it. -/
theorem stat_since (hs : Booted s) (hrun : run (systemStep tbl) s as = some u) {x : DoorStatus}
    (hx : x ≠ .closed) (hstat : u.door.drIot.stat = x) :
    Since (systemStep tbl) (fun v => v.door.drIot.stat = x) (fun _ v a => ∃ c,
      a = .toDoor (publish c) ∧ publish c ∈ v.published ∧ v.door.drIot.stat ≠ x ∧
        v.door.drIot.stat.obey c = x) s as := by
  refine since_of_becomes ?_ hstat hrun ?_
  · rw [hs.door]
    exact hx.symm
  · intro pre v a w hv hw hnot hstat
    rcases door_by_step hw with hsame | ⟨b, -, -, hmsg, hb⟩ | ⟨m, rfl, hm, htopic, hb⟩
    · rw [hsame] at hstat
      exact absurd hstat hnot
    · rcases stat_by_appStep hb hmsg with hsame | ⟨-, hclosed⟩
      · exact absurd (hsame.symm.trans hstat) hnot
      · exact absurd (hstat.symm.trans hclosed) hx
    · rcases published_topic hs hv hm with ⟨c, rfl⟩ | ⟨p, -, hsend⟩
      · exact ⟨c, rfl, hm, hnot, (stat_by_message hb).symm.trans hstat⟩
      · exact absurd (hsend.symm.trans htopic) topics_differ

/-- Why a command was published. -/
theorem published_command (hs : Booted s) (hrun : run (systemStep tbl) s as = some u) {c : Command}
    (hm : publish c ∈ u.published) :
    (∃ o : OwnerCommand, o.command = c ∧ Before tbl s (OrderedAt o) as) ∨
      (c = .openDoor ∧ (Before tbl s (PressedOpenAt tbl) as ∨ ∃ addr name,
        Before tbl s (OpenedAt tbl s (FoundAt tbl s addr) (deviceId addr) name) as)) := by
  obtain ⟨pre, a, post, v, hsplit, hv, hpub⟩ := published_before hs hrun hm
  generalize hmsg : publish c = m at hpub
  have hpayload : ∀ c' : Command, m = publish c' → c' = c := by
    rintro c' rfl
    exact (text_injective (congrArg MqttMessage.payload hmsg)).symm
  have htopic : m.topicName ≠ TOPIC_SEND := by
    rw [← hmsg]
    exact topics_differ.symm
  cases hpub with
  | opened b calls o hopens =>
      refine Or.inr ⟨(hpayload _ rfl).symm, ?_⟩
      cases hopens with
      | device btId name hread =>
          obtain ⟨addr, rfl, hsince⟩ := read_since hs hv hread
          exact Or.inr ⟨addr, name, pre, _, post, v, hsplit, hv, ⟨calls, rfl⟩, hread, hsince⟩
      | owner message data deletable hdata =>
          exact Or.inl ⟨pre, _, post, v, hsplit, hv, message, data, deletable, calls, rfl, hdata⟩
  | order o shown => exact Or.inl ⟨o, hpayload _ rfl, pre, _, post, v, hsplit, hv, shown, rfl⟩
  | handed addr hpends => exact absurd rfl htopic
  | connected => exact absurd rfl htopic
  | lastWill => exact absurd rfl htopic

/-- An order that only the owner gives. -/
theorem ordered_before (hs : Booted s) (hrun : run (systemStep tbl) s as = some u)
    (o : OwnerCommand) (ho : o.command ≠ .openDoor) (hm : publish o.command ∈ u.published) :
    Before tbl s (OrderedAt o) as := by
  rcases published_command hs hrun hm with ⟨o', heq, hbefore⟩ | ⟨hopen, -⟩
  · have hsame : o' = o := by
      revert heq
      cases o <;> cases o' <;> decide
    rwa [hsame] at hbefore
  · exact absurd hopen ho

theorem obey_eq_opened {x : DoorStatus} {c : Command} (hx : x ≠ .opened)
    (h : x.obey c = .opened) : c = .openDoor ∨ (c = .normal ∧ x = .unlocked) := by
  revert hx h
  cases x <;> cases c <;> decide

section

variable (tbl : CharTable) (s : System)

/-- The door handles an order of the owner. -/
def ObeyedAt (o : OwnerCommand) (pre : List SystemAct) (_ : System) (a : SystemAct) : Prop :=
  a = .toDoor (publish o.command) ∧ Before tbl s (OrderedAt o) pre

/-- The door is unlocked, since it has handled the order to. -/
def UnlockedSince (pre : List SystemAct) : Prop :=
  Since (systemStep tbl) (fun v => v.door.drIot.stat = .unlocked) (ObeyedAt tbl s .unlock) s pre

/-- The door handles `open_door`, by an order of the owner, a press of the button or
for a device; or it handles the order `normal` while it is unlocked. -/
def OpensAt (pre : List SystemAct) (v : System) (a : SystemAct) : Prop :=
  (a = .toDoor (publish .openDoor) ∧
    (Before tbl s (OrderedAt .open) pre ∨ Before tbl s (PressedOpenAt tbl) pre ∨ ∃ addr name,
      Before tbl s (OpenedAt tbl s (FoundAt tbl s addr) (deviceId addr) name) pre)) ∨
  (ObeyedAt tbl s .auto pre v a ∧ v.door.drIot.stat = .unlocked ∧ UnlockedSince tbl s pre)

end

/-- The door is in the mode that only this order leads to. -/
theorem mode_since (hs : Booted s) (hrun : run (systemStep tbl) s as = some u) {x : DoorStatus}
    (hx : x ≠ .closed) (o : OwnerCommand) (ho : o.command ≠ .openDoor)
    (honly : ∀ y c, y ≠ x → y.obey c = x → c = o.command) (hstat : u.door.drIot.stat = x) :
    Since (systemStep tbl) (fun v => v.door.drIot.stat = x) (ObeyedAt tbl s o) s as := by
  refine (stat_since hs hrun hx hstat).mono ?_
  rintro pre v a hv ⟨c, rfl, hm, hnot, hobey⟩
  obtain rfl := honly _ _ hnot hobey
  exact ⟨rfl, ordered_before hs hv o ho hm⟩

/-- **Nobody else moves the door.** In every run from the start, whatever the
broker delivers and in whatever order: a door that is locked, or unlocked, is so
since it has handled the order of the owner. A door that is open is so since it has
handled `open_door`, published for an order or a press of the owner or for an
accepted device near it; or since it has handled the owner's order to go back to
normal while it was unlocked, as it had been since the order for that. -/
theorem door_moved_by_owner_or_device (hs : Booted s)
    (hrun : run (systemStep tbl) s as = some u) :
    (u.door.drIot.stat = .locked →
      Since (systemStep tbl) (fun v => v.door.drIot.stat = .locked) (ObeyedAt tbl s .lock) s as) ∧
    (u.door.drIot.stat = .unlocked → UnlockedSince tbl s as) ∧
    (u.door.drIot.stat = .opened →
      Since (systemStep tbl) (fun v => v.door.drIot.stat = .opened) (OpensAt tbl s) s as) := by
  have hlocked : ∀ y c, y ≠ DoorStatus.locked → y.obey c = .locked → c = .lock := by
    intro y c
    cases y <;> cases c <;> decide
  have hunlocked : ∀ y c, y ≠ DoorStatus.unlocked → y.obey c = .unlocked → c = .unlock := by
    intro y c
    cases y <;> cases c <;> decide
  refine ⟨mode_since hs hrun (by decide) .lock (by decide) hlocked,
    mode_since hs hrun (by decide) .unlock (by decide) hunlocked, fun hstat => ?_⟩
  refine (stat_since hs hrun (by decide) hstat).mono ?_
  rintro pre v a hv ⟨c, rfl, hm, hnot, hobey⟩
  rcases obey_eq_opened hnot hobey with rfl | ⟨rfl, hunlock⟩
  · refine Or.inl ⟨rfl, ?_⟩
    rcases published_command hs hv hm with ⟨o, ho, hbefore⟩ | ⟨-, hpressed | hopened⟩
    · have hsame : o = .open := by
        revert ho
        cases o <;> decide
      rw [hsame] at hbefore
      exact Or.inl hbefore
    · exact Or.inr (Or.inl hpressed)
    · exact Or.inr (Or.inr hopened)
  · refine Or.inr ⟨⟨rfl, ordered_before hs hv .auto (by decide) hm⟩, hunlock, ?_⟩
    exact mode_since hs hv (by decide) .unlock (by decide) hunlocked hunlock

end

/-! ## A device that is let in -/

/-- The host is registered at a server that is just started. -/
def house (door : App) : System where
  server :=
    { now := 0
      db := Function.update (fun _ => none) (deviceId host) (some { name := "Ann" })
      ids := [deviceId host] }
  door := door

theorem booted_house : Booted (house {}) where
  idle := ⟨rfl, rfl, rfl, rfl⟩
  keys key h := by
    by_cases hkey : key = deviceId host
    · rw [hkey]
      exact deviceId_word host
    · have hnone : (house {}).server.db key = none := by simp [house, hkey]
      exact absurd hnone h
  door := rfl
  published := rfl

/-- The host is heard and published, found, and let in. -/
def letInRun : List SystemAct :=
  [.door (.elapse 1000) true, .door .next true, .door .next true,
    .door (.btEvent (.scanReport (-40) host) fun _ => 0) true] ++
  List.replicate 12 (.door .next true) ++
  [.toServer (DoorPayload.device host).message, .server .mqttName [],
    .server .mqttOpen [⟨4, false⟩, ⟨0, true⟩], .toDoor (publish .openDoor)]

theorem letInRun_result :
    (run (systemStep asciiTable) (house {}) letInRun).map
      (fun u => (u.server.outcomes, u.door.drIot.stat)) =
      some ([.opened (deviceId host) "Ann"], .opened) := by
  decide +kernel

/-- Nobody gave an order in this run, so the door is open for a device. -/
theorem letInRun_moved : ∃ u, run (systemStep asciiTable) (house {}) letInRun = some u ∧
    u.door.drIot.stat = .opened ∧
    Since (systemStep asciiTable) (fun v => v.door.drIot.stat = .opened)
      (OpensAt asciiTable (house {})) (house {}) letInRun := by
  obtain ⟨u, hu, hresult⟩ := Option.map_eq_some_iff.mp letInRun_result
  have hstat : u.door.drIot.stat = .opened := (Prod.mk.inj hresult).2
  exact ⟨u, hu, hstat, (door_moved_by_owner_or_device booted_house hu).2.2 hstat⟩

end SmartDoorLock
