import SmartDoorLock.Server.Bot

/-!
# Two sessions in one handler

`on_mqtt_message` and the last branch of `callback_handler` look a device up in
one transaction and read its record by key in a second one. The branch `remove`
does both in one. In between the other thread may remove the device, or delete
its record because it has expired, and `db.Device[key]` then raises.

The handlers end as they should if and only if no second session meets a key
without a record.
-/

namespace SmartDoorLock

open CText Machine

/-! ## How the runs of a handler end -/

/-- The lookup of `on_mqtt_message` that ended so, in one of the two ways: the
door opened for a device that was found, or the question for one that was not. -/
def endOf : Outcome → Option (String × Bool)
  | .opened btId _ => some (btId, true)
  | .prompted btId => some (btId, false)
  | _ => none

/-- The lookup whose run has not ended. -/
def MqttPc.pending : MqttPc → List (String × Bool)
  | .idle => []
  | .found btId => [(btId, true)]
  | .named btId _ => [(btId, true)]

/-- No handler raised for a record that was gone. -/
def NoRaise (s : ServerState) : Prop :=
  ∀ key, .mqttRaised (.objectNotFound key) ∉ s.outcomes ∧
    .botRaised (.objectNotFound key) ∉ s.outcomes

/-- Every run of `on_mqtt_message` that looked a device up, but the one in
progress, ended in the way that belongs to what it found; no handler raised for
a record that was gone. -/
def EndsWell (s : ServerState) : Prop :=
  s.lookups = s.mqtt.pending ++ s.outcomes.filterMap endOf ∧ NoRaise s

/-- A second session meets the record of the first. -/
def StillStored (s : ServerState) : ServerAct → Prop
  | .mqttName => ∀ btId, s.mqtt = .found btId → s.db btId ≠ none
  | .deviceSettings =>
      ∀ btId message deletable, s.bot = .settings btId message deletable → s.db btId ≠ none
  | _ => True

instance (s : ServerState) : (a : ServerAct) → Decidable (StillStored s a)
  | .mqttName =>
      match h : s.mqtt with
      | .idle => isTrue fun btId hfound => by rw [h] at hfound; cases hfound
      | .found btId => decidable_of_iff (s.db btId ≠ none) (by simp [StillStored, h])
      | .named _ _ => isTrue fun btId hfound => by rw [h] at hfound; cases hfound
  | .deviceSettings =>
      match h : s.bot with
      | .idle => isTrue fun btId message deletable hbot => by rw [h] at hbot; cases hbot
      | .settings btId _ _ => decidable_of_iff (s.db btId ≠ none) (by simp [StillStored, h])
  | .wait _ => isTrue trivial
  | .mqttMessage _ => isTrue trivial
  | .mqttOpen => isTrue trivial
  | .press _ _ _ => isTrue trivial
  | .text _ => isTrue trivial
  | .listDevices _ => isTrue trivial

/-- The step deletes no record that a handler in progress has looked up. -/
def Undisturbed (tbl : CharTable) (s : ServerState) (a : ServerAct) : Prop :=
  ∀ t key, serverStep tbl s a = some t → s.db key ≠ none → t.db key = none →
    s.mqtt ≠ .found key ∧ ∀ message deletable, s.bot ≠ .settings key message deletable

/-- The device that `on_mqtt_message` looks up in a step, and whether it has a record
that has not expired. -/
def lookupBy (s : ServerState) : ServerAct → List (String × Bool)
  | .mqttMessage msg =>
      if startswith msg "connected" || startswith msg "disconnected" then []
      else [(msg, (live s.now (s.db msg)).isSome)]
  | _ => []

/-- Both threads wait, and nothing has been recorded. -/
structure Idle (s : ServerState) : Prop where
  mqtt : s.mqtt = .idle
  bot : s.bot = .idle
  outcomes : s.outcomes = []
  lookups : s.lookups = []

/-! ## The account of the lookups -/

/-- As `endOf`, with the runs that raised. -/
def finished : Outcome → Option (String × Bool)
  | .mqttRaised (.objectNotFound btId) => some (btId, true)
  | o => endOf o

/-- Every lookup is accounted for. -/
def Accounted (s : ServerState) : Prop :=
  s.lookups = s.mqtt.pending ++ s.outcomes.filterMap finished

theorem endsWell_iff {s : ServerState} (h : Accounted s) : EndsWell s ↔ NoRaise s := by
  refine ⟨And.right, fun hno => ⟨?_, hno⟩⟩
  have hsame : s.outcomes.filterMap finished = s.outcomes.filterMap endOf := by
    apply List.filterMap_congr
    intro o ho
    unfold finished
    split
    · rename_i btId
      exact absurd ho (hno btId).1
    · rfl
  rw [← hsame]
  exact h

/-- An outcome that ends no lookup and is no missing record. -/
def Outcome.Plain (o : Outcome) : Prop :=
  finished o = none ∧ ∀ key, o ≠ .botRaised (.objectNotFound key)

/-- The step ends no lookup and meets no missing record. -/
structure Quiet (s t : ServerState) : Prop where
  lookups : t.lookups = s.lookups
  mqtt : t.mqtt = s.mqtt
  outcomes : ∃ news, t.outcomes = news ++ s.outcomes ∧ ∀ o ∈ news, o.Plain

theorem Quiet.same {s t : ServerState} (hl : t.lookups = s.lookups) (hm : t.mqtt = s.mqtt)
    (ho : t.outcomes = s.outcomes) : Quiet s t :=
  ⟨hl, hm, [], ho, fun _ h => by cases h⟩

theorem Quiet.one {s t : ServerState} {o : Outcome} (hl : t.lookups = s.lookups)
    (hm : t.mqtt = s.mqtt) (ho : t.outcomes = o :: s.outcomes) (hplain : o.Plain) : Quiet s t :=
  ⟨hl, hm, [o], ho, fun _ h => List.mem_singleton.mp h ▸ hplain⟩

theorem Quiet.delete {s t : ServerState} {message : ℕ} {deletable : Bool}
    (hl : t.lookups = s.lookups) (hm : t.mqtt = s.mqtt) (ho : t.outcomes = s.outcomes) :
    Quiet s (deleteMessage t message deletable) := by
  unfold deleteMessage
  split <;> exact Quiet.same hl hm ho

/-- A text that is not understood is not a missing record. -/
theorem callbackOf_error {tbl : CharTable} {data : String} {e : BotError}
    (h : callbackOf tbl data = .error e) (key : String) : e ≠ .objectNotFound key := by
  rintro rfl
  unfold callbackOf at h
  repeat' split at h
  all_goals cases h

theorem quiet_callbackHandler (tbl : CharTable) (s : ServerState) (message : ℕ) (data : String)
    (deletable : Bool) : Quiet s (callbackHandler tbl s message data deletable) := by
  unfold callbackHandler
  split
  · rename_i e hdata
    refine Quiet.one rfl rfl rfl ⟨rfl, fun key heq => ?_⟩
    cases heq
    exact callbackOf_error hdata key rfl
  · exact Quiet.delete rfl rfl rfl
  · exact Quiet.one rfl rfl rfl ⟨rfl, fun key heq => by cases heq⟩
  · exact Quiet.delete rfl rfl rfl
  · exact Quiet.delete rfl rfl rfl
  · exact Quiet.delete rfl rfl rfl
  · split
    · exact Quiet.delete rfl rfl rfl
    · exact Quiet.one rfl rfl rfl ⟨rfl, fun key heq => by cases heq⟩
  · split
    · exact Quiet.same rfl rfl rfl
    · exact Quiet.delete rfl rfl rfl

theorem quiet_getDeviceName (tbl : CharTable) (s : ServerState) (text : String) :
    Quiet s (getDeviceName tbl s text) := by
  unfold getDeviceName
  split
  · exact Quiet.same rfl rfl rfl
  · split
    · exact Quiet.same rfl rfl rfl
    · split <;> exact Quiet.same rfl rfl rfl

/-- **What a step adds to the log.** It is quiet; or a device was found, or it
was not; or a second session meets the record, or none; or the door is opened. -/
theorem serverStep_log {tbl : CharTable} {s t : ServerState} {a : ServerAct}
    (ht : serverStep tbl s a = some t) :
    (Quiet s t ∧ StillStored s a) ∨
    (∃ msg, a = .mqttMessage msg ∧ s.mqtt = .idle ∧ t.mqtt = .found msg ∧
      t.lookups = (msg, true) :: s.lookups ∧ t.outcomes = s.outcomes) ∨
    (∃ msg, a = .mqttMessage msg ∧ s.mqtt = .idle ∧ t.mqtt = .idle ∧
      t.lookups = (msg, false) :: s.lookups ∧ t.outcomes = .prompted msg :: s.outcomes) ∨
    (∃ msg device, a = .mqttName ∧ s.mqtt = .found msg ∧ s.db msg = some device ∧
      t.mqtt = .named msg device.name ∧ t.lookups = s.lookups ∧ t.outcomes = s.outcomes) ∨
    (∃ msg name, a = .mqttOpen ∧ s.mqtt = .named msg name ∧ t.mqtt = .idle ∧
      t.lookups = s.lookups ∧ t.outcomes = .opened msg name :: s.outcomes) ∨
    (∃ msg, a = .mqttName ∧ s.mqtt = .found msg ∧ s.db msg = none ∧ t.mqtt = .idle ∧
      t.lookups = s.lookups ∧ t.outcomes = .mqttRaised (.objectNotFound msg) :: s.outcomes) ∨
    (∃ btId message deletable, a = .deviceSettings ∧ s.bot = .settings btId message deletable ∧
      s.db btId = none ∧ t.mqtt = s.mqtt ∧ t.lookups = s.lookups ∧
      t.outcomes = .botRaised (.objectNotFound btId) :: s.outcomes) := by
  cases serverStep_cases ht with
  | wait d => exact Or.inl ⟨Quiet.same rfl rfl rfl, trivial⟩
  | mqttMessage msg hidle =>
      unfold mqttLookup
      split
      · exact Or.inl ⟨Quiet.one rfl rfl rfl ⟨rfl, fun key heq => by cases heq⟩, trivial⟩
      · split
        · exact Or.inl ⟨Quiet.one rfl rfl rfl ⟨rfl, fun key heq => by cases heq⟩, trivial⟩
        · split
          · exact Or.inr (Or.inl ⟨msg, rfl, hidle, rfl, rfl, rfl⟩)
          · exact Or.inr (Or.inr (Or.inl ⟨msg, rfl, hidle, hidle, rfl, rfl⟩))
  | mqttName msg hfound =>
      unfold mqttName
      split
      · rename_i device hdb
        exact Or.inr (Or.inr (Or.inr (Or.inl ⟨msg, device, rfl, hfound, hdb, rfl, rfl, rfl⟩)))
      · rename_i hdb
        exact Or.inr (Or.inr (Or.inr (Or.inr (Or.inr
          (Or.inl ⟨msg, rfl, hfound, hdb, rfl, rfl, rfl⟩)))))
  | mqttOpen msg name hnamed =>
      exact Or.inr (Or.inr (Or.inr (Or.inr (Or.inl ⟨msg, name, rfl, hnamed, rfl, rfl, rfl⟩))))
  | press message data deletable m hidle hm hdata =>
      exact Or.inl ⟨quiet_callbackHandler _ _ _ _ _, trivial⟩
  | deviceSettings btId message deletable hbot =>
      unfold deviceSettings
      split
      · rename_i device hdb
        refine Or.inl ⟨Quiet.delete rfl rfl rfl, ?_⟩
        intro btId' message' deletable' hbot'
        rw [hbot] at hbot'
        cases hbot'
        rw [hdb]
        exact Option.some_ne_none device
      · rename_i hdb
        exact Or.inr (Or.inr (Or.inr (Or.inr (Or.inr (Or.inr
          ⟨btId, message, deletable, rfl, hbot, hdb, rfl, rfl, rfl⟩)))))
  | text text hidle => exact Or.inl ⟨quiet_getDeviceName _ _ _, trivial⟩
  | listDevices ids hidle hids => exact Or.inl ⟨Quiet.same rfl rfl rfl, trivial⟩

/-! ## One step -/

theorem filterMap_plain {news : List Outcome} (h : ∀ o ∈ news, o.Plain) :
    news.filterMap finished = [] :=
  List.filterMap_eq_nil_iff.mpr fun o ho => (h o ho).1

theorem accounted_step {tbl : CharTable} (s : ServerState) (a : ServerAct) (t : ServerState)
    (h : Accounted s) (ht : serverStep tbl s a = some t) : Accounted t := by
  unfold Accounted at h ⊢
  rcases serverStep_log ht with ⟨hquiet, -⟩ | ⟨msg, -, hidle, hm, hl, ho⟩ |
    ⟨msg, -, hidle, hm, hl, ho⟩ | ⟨msg, device, -, hfound, -, hm, hl, ho⟩ |
    ⟨msg, name, -, hnamed, hm, hl, ho⟩ | ⟨msg, -, hfound, -, hm, hl, ho⟩ |
    ⟨btId, message, deletable, -, -, -, hm, hl, ho⟩
  · obtain ⟨news, ho, hplain⟩ := hquiet.outcomes
    rw [hquiet.lookups, hquiet.mqtt, ho, List.filterMap_append, filterMap_plain hplain,
      List.nil_append, h]
  · rw [hidle] at h
    rw [hm, hl, ho, h]
    rfl
  · rw [hidle] at h
    rw [hm, hl, ho, h]
    rfl
  · rw [hfound] at h
    rw [hm, hl, ho, h]
    rfl
  · rw [hnamed] at h
    rw [hm, hl, ho, h]
    rfl
  · rw [hfound] at h
    rw [hm, hl, ho, h]
    rfl
  · rw [hm, hl, ho, h]
    rfl

theorem noRaise_cons {s t : ServerState} {o : Outcome} (ho : t.outcomes = o :: s.outcomes) :
    NoRaise t ↔ NoRaise s ∧
      ∀ key, o ≠ .mqttRaised (.objectNotFound key) ∧ o ≠ .botRaised (.objectNotFound key) := by
  unfold NoRaise
  rw [ho]
  simp only [List.mem_cons, not_or]
  constructor
  · intro h
    exact ⟨fun key => ⟨(h key).1.2, (h key).2.2⟩,
      fun key => ⟨Ne.symm (h key).1.1, Ne.symm (h key).2.1⟩⟩
  · rintro ⟨hold, hnew⟩ key
    exact ⟨⟨(hnew key).1.symm, (hold key).1⟩, (hnew key).2.symm, (hold key).2⟩

theorem noRaise_quiet {s t : ServerState} (h : Quiet s t) : NoRaise t ↔ NoRaise s := by
  obtain ⟨news, ho, hplain⟩ := h.outcomes
  unfold NoRaise
  rw [ho]
  refine forall_congr' fun key => ?_
  have hmqtt : .mqttRaised (.objectNotFound key) ∉ news := fun hmem => by
    have hfin := (hplain _ hmem).1
    cases hfin
  have hbot : .botRaised (.objectNotFound key) ∉ news := fun hmem => (hplain _ hmem).2 key rfl
  simp [hmqtt, hbot]

/-- A step keeps the handlers alive if and only if its session meets a record. -/
theorem noRaise_step {tbl : CharTable} (s : ServerState) (a : ServerAct) (t : ServerState)
    (ht : serverStep tbl s a = some t) : NoRaise t ↔ NoRaise s ∧ StillStored s a := by
  rcases serverStep_log ht with ⟨hquiet, hstored⟩ | ⟨msg, rfl, -, -, -, ho⟩ |
    ⟨msg, rfl, -, -, -, ho⟩ | ⟨msg, device, rfl, hfound, hdb, -, -, ho⟩ |
    ⟨msg, name, rfl, -, -, -, ho⟩ | ⟨msg, rfl, hfound, hdb, -, -, ho⟩ |
    ⟨btId, message, deletable, rfl, hbot, hdb, -, -, ho⟩
  · rw [noRaise_quiet hquiet]
    exact (and_iff_left hstored).symm
  · unfold NoRaise
    rw [ho]
    exact (and_iff_left trivial).symm
  · rw [noRaise_cons ho]
    exact and_congr_right fun _ => iff_of_true (by simp) trivial
  · unfold NoRaise
    rw [ho]
    refine (and_iff_left fun btId hfound' => ?_).symm
    rw [hfound] at hfound'
    cases hfound'
    rw [hdb]
    exact Option.some_ne_none device
  · rw [noRaise_cons ho]
    exact and_congr_right fun _ => iff_of_true (by simp) trivial
  · rw [noRaise_cons ho]
    refine and_congr_right fun _ => iff_of_false (fun h => (h msg).1 rfl) fun h => ?_
    exact h msg hfound hdb
  · rw [noRaise_cons ho]
    refine and_congr_right fun _ => iff_of_false (fun h => (h btId).2 rfl) fun h => ?_
    exact h btId message deletable hbot hdb

/-- The log of the lookups is that of what they met. -/
theorem lookups_step {tbl : CharTable} (s : ServerState) (a : ServerAct) (t : ServerState)
    (ht : serverStep tbl s a = some t) : t.lookups = lookupBy s a ++ s.lookups := by
  have hquiet : ∀ b, (∀ msg, b ≠ .mqttMessage msg) → lookupBy s b = [] := by
    intro b hb
    cases b with
    | mqttMessage msg => exact absurd rfl (hb msg)
    | _ => rfl
  by_cases hmsg : ∃ msg, a = .mqttMessage msg
  · obtain ⟨msg, rfl⟩ := hmsg
    cases serverStep_cases ht with
    | mqttMessage msg hidle =>
        simp only [mqttLookup, lookupBy, getBtDevice_eq, Bool.or_eq_true]
        by_cases hconn : startswith msg "connected" = true
        · simp [hconn]
        by_cases hdisc : startswith msg "disconnected" = true
        · simp [hconn, hdisc]
        cases live s.now (s.db msg) <;> simp [hconn, hdisc]
  · rw [hquiet a fun msg h => hmsg ⟨msg, h⟩, List.nil_append]
    rcases serverStep_log ht with ⟨hquiet, -⟩ | ⟨msg, rfl, -⟩ | ⟨msg, rfl, -⟩ |
      ⟨msg, device, -, -, -, -, hl, -⟩ | ⟨msg, name, -, -, -, hl, -⟩ |
      ⟨msg, -, -, -, -, hl, -⟩ | ⟨btId, message, deletable, -, -, -, -, hl, -⟩
    · exact hquiet.lookups
    · exact absurd ⟨msg, rfl⟩ hmsg
    · exact absurd ⟨msg, rfl⟩ hmsg
    · exact hl
    · exact hl
    · exact hl
    · exact hl

/-! ## Whole runs -/

theorem Idle.accounted {s : ServerState} (h : Idle s) : Accounted s := by
  unfold Accounted
  rw [h.mqtt, h.outcomes, h.lookups]
  rfl

theorem Idle.noRaise {s : ServerState} (h : Idle s) : NoRaise s := by
  intro key
  rw [h.outcomes]
  exact ⟨List.not_mem_nil, List.not_mem_nil⟩

/-! ## Handlers in progress -/

/-- A handler is between its two sessions, with this key. -/
def InProgress (s : ServerState) (key : String) : Prop :=
  s.mqtt = .found key ∨ ∃ message deletable, s.bot = .settings key message deletable

theorem InProgress.of_same {s t : ServerState} {key : String} (h : InProgress t key)
    (hm : t.mqtt = s.mqtt) (hb : t.bot = s.bot ∨ t.bot = .idle) : InProgress s key := by
  rcases h with h | ⟨message, deletable, h⟩
  · exact Or.inl (hm.symm.trans h)
  · rcases hb with hb | hb
    · exact Or.inr ⟨message, deletable, hb.symm.trans h⟩
    · rw [hb] at h
      cases h

theorem found_stored {now : ℕ} {db db' : Db} {btId : String} {device : Device}
    (h : getBtDevice now db btId = (db', some device)) : db' btId ≠ none := by
  have hfound : (getBtDevice now db btId).2 = some device := by rw [h]
  obtain ⟨hdb, hsame⟩ := getBtDevice_eq_some hfound
  rw [h] at hsame
  have hsame : db' = db := hsame
  rw [hsame, hdb]
  exact Option.some_ne_none device

theorem deleteMessage_bot (s : ServerState) (message : ℕ) (deletable : Bool) :
    (deleteMessage s message deletable).bot = s.bot := by
  unfold deleteMessage
  split <;> rfl

theorem callbackHandler_bot (tbl : CharTable) (s : ServerState) (message : ℕ) (data : String)
    (deletable : Bool) :
    (callbackHandler tbl s message data deletable).bot = s.bot ∨
      ∃ btId, (callbackHandler tbl s message data deletable).bot =
          .settings btId message deletable ∧
        (callbackHandler tbl s message data deletable).db btId ≠ none := by
  unfold callbackHandler
  split
  · exact Or.inl rfl
  · exact Or.inl (deleteMessage_bot _ _ _)
  · exact Or.inl rfl
  · exact Or.inl (deleteMessage_bot _ _ _)
  · exact Or.inl (deleteMessage_bot _ _ _)
  · exact Or.inl (deleteMessage_bot _ _ _)
  · split
    · exact Or.inl (deleteMessage_bot _ _ _)
    · exact Or.inl rfl
  · rename_i btId hdata
    split
    · rename_i db device hfound
      exact Or.inr ⟨btId, rfl, found_stored hfound⟩
    · exact Or.inl (deleteMessage_bot _ _ _)

/-- A handler that comes between its sessions has just met the record. -/
theorem inProgress_step {tbl : CharTable} {s t : ServerState} {a : ServerAct} {key : String}
    (ht : serverStep tbl s a = some t) (h : InProgress t key) :
    InProgress s key ∨ t.db key ≠ none := by
  cases serverStep_cases ht with
  | wait d => exact Or.inl h
  | mqttMessage msg hidle =>
      unfold mqttLookup at h ⊢
      split at h
      · exact Or.inl (h.of_same rfl (Or.inl rfl))
      · rename_i hconn
        rw [if_neg hconn]
        split at h
        · exact Or.inl (h.of_same rfl (Or.inl rfl))
        · rename_i hdisc
          rw [if_neg hdisc]
          split at h
          · rename_i db device hfound
            rcases h with h | h
            · cases h
              exact Or.inr (found_stored hfound)
            · exact Or.inl (Or.inr h)
          · exact Or.inl (h.of_same rfl (Or.inl rfl))
  | mqttName msg hfound =>
      unfold mqttName at h
      rcases h with h | h
      · split at h <;> cases h
      · split at h <;> exact Or.inl (Or.inr h)
  | mqttOpen msg name hnamed =>
      rcases h with h | h
      · cases h
      · exact Or.inl (Or.inr h)
  | press message data deletable m hidle hm hdata =>
      have hmqtt := (quiet_callbackHandler tbl s message data deletable).mqtt
      rcases callbackHandler_bot tbl s message data deletable with hb | ⟨btId, hb, hdb⟩
      · exact Or.inl (h.of_same hmqtt (Or.inl hb))
      · rcases h with h | ⟨message', deletable', h⟩
        · exact Or.inl (Or.inl (hmqtt.symm.trans h))
        · rw [hb] at h
          cases h
          exact Or.inr hdb
  | deviceSettings btId message deletable hbot =>
      unfold deviceSettings at h
      split at h
      · refine Or.inl (h.of_same ?_ (Or.inr (deleteMessage_bot _ _ _)))
        unfold deleteMessage
        split <;> rfl
      · exact Or.inl (h.of_same rfl (Or.inr rfl))
  | text text hidle =>
      refine Or.inl (h.of_same (quiet_getDeviceName _ _ _).mqtt (Or.inl ?_))
      unfold getDeviceName
      repeat' split
      all_goals rfl
  | listDevices ids hidle hids => exact Or.inl (h.of_same rfl (Or.inl rfl))

/-- Every handler in progress has its record. -/
def Held (s : ServerState) : Prop := ∀ key, InProgress s key → s.db key ≠ none

theorem held_step {tbl : CharTable} (s : ServerState) (a : ServerAct) (t : ServerState)
    (h : Held s) (ha : Undisturbed tbl s a) (ht : serverStep tbl s a = some t) : Held t := by
  intro key hkey
  rcases inProgress_step ht hkey with hold | hnew
  · intro hgone
    obtain ⟨hmqtt, hbot⟩ := ha t key ht (h key hold) hgone
    rcases hold with hold | ⟨message, deletable, hold⟩
    · exact hmqtt hold
    · exact hbot message deletable hold
  · exact hnew

theorem Held.stillStored {s : ServerState} (h : Held s) (a : ServerAct) : StillStored s a := by
  cases a with
  | mqttName => exact fun btId hfound => h btId (Or.inl hfound)
  | deviceSettings =>
      exact fun btId message deletable hbot => h btId (Or.inr ⟨message, deletable, hbot⟩)
  | _ => trivial

/-- **Concurrent removal.** On every store and for every interleaving, the
handlers end as they should if and only if every second session meets a record;
it does when no step of the other thread deletes the record in between. A lookup
is one of a found device exactly when it met a record that had not expired. -/
theorem handlers_survive_iff {tbl : CharTable} {s u : ServerState} {as : List ServerAct}
    (hs : Idle s) (hrun : run (serverStep tbl) s as = some u) :
    (EndsWell u ↔ Along (serverStep tbl) StillStored s as) ∧
      (Along (serverStep tbl) (Undisturbed tbl) s as → EndsWell u) ∧
      u.lookups = noted (serverStep tbl) lookupBy s as := by
  have haccounted : Accounted u := run_inv accounted_step hs.accounted hrun
  have hiff : EndsWell u ↔ Along (serverStep tbl) StillStored s as := by
    rw [endsWell_iff haccounted]
    exact iff_along_of_along (P := fun _ => True) (D := fun _ _ => True)
      (fun _ _ _ _ _ _ => trivial) (fun s a t _ _ ht => noRaise_step s a t ht) trivial hs.noRaise
      (fun _ _ _ _ _ _ => trivial) hrun
  have hlookups : u.lookups = noted (serverStep tbl) lookupBy s as := by
    have hall : u.lookups = noted (serverStep tbl) lookupBy s as ++ s.lookups :=
      log_eq_noted lookups_step hrun
    rwa [hs.lookups, List.append_nil] at hall
  refine ⟨hiff, fun hundisturbed => hiff.mpr ?_, hlookups⟩
  have hheld : Held s := by
    rintro key (hkey | ⟨message, deletable, hkey⟩)
    · rw [hs.mqtt] at hkey
      cases hkey
    · rw [hs.bot] at hkey
      cases hkey
  rintro pre a post v rfl hpre
  exact (run_inv_of_along held_step hheld hundisturbed.of_append hpre).stillStored a

/-! ## Left alone -/

/-- The calls of `on_mqtt_message` that belong to an end of it. -/
def Outcome.calls : Outcome → List ServerCall
  | .opened _ name => [.sendMessage ("The door unlocked now by: `" ++ name ++ "`"), .openDoor]
  | .prompted btId =>
      [.sendMessage ("Unknown device is near the door (" ++ btId ++ ")"),
        .askOwner ("New device is near the door `" ++ btId ++ "`\nWhat would you like to do?") btId]
  | _ => []

/-- The steps of the thread one after the other are `on_mqtt_message`. -/
theorem mqttMessage_alone (tbl : CharTable) {s : ServerState} (hidle : s.mqtt = .idle)
    {payload : List UInt8} {msg : String} (hdecode : decode payload = some msg)
    (hconn : startswith msg "connected" = false)
    (hdisc : startswith msg "disconnected" = false) :
    ∃ as u o, run (serverStep tbl) s as = some u ∧ u.mqtt = .idle ∧
      u.outcomes = o :: s.outcomes ∧
      onMqttMessage s.now s.db topicSubscribe payload =
        .ok (u.db, .getBtDevice msg :: o.calls) := by
  have hfirst : serverStep tbl s (.mqttMessage msg) = some (mqttLookup s msg) := by
    simp only [serverStep, hidle]
  cases hget : getBtDevice s.now s.db msg with
  | mk db found =>
      cases found with
      | none =>
          have hlookup : mqttLookup s msg = { s with
              db := db
              messages := s.messages ++ [⟨.newDevice msg, getNewDeviceKb msg⟩]
              outcomes := .prompted msg :: s.outcomes
              lookups := (msg, false) :: s.lookups } := by
            simp only [mqttLookup, hconn, hdisc, hget, Bool.false_eq_true, if_false]
          refine ⟨[.mqttMessage msg], mqttLookup s msg, .prompted msg, ?_, ?_, ?_, ?_⟩
          · rw [run_cons, hfirst]
            rfl
          · rw [hlookup]
            exact hidle
          · rw [hlookup]
          · rw [hlookup]
            simp only [onMqttMessage, hdecode, hconn, hdisc, hget]
            rfl
      | some device =>
          have hlookup : mqttLookup s msg = { s with
              db := db, mqtt := .found msg, lookups := (msg, true) :: s.lookups } := by
            simp only [mqttLookup, hconn, hdisc, hget, Bool.false_eq_true, if_false]
          obtain ⟨record, hrecord⟩ := Option.ne_none_iff_exists'.mp (found_stored hget)
          have hname : mqttName (mqttLookup s msg) msg =
              { mqttLookup s msg with mqtt := .named msg record.name } := by
            rw [hlookup]
            simp only [mqttName, hrecord]
          refine ⟨[.mqttMessage msg, .mqttName, .mqttOpen],
            mqttOpen (mqttName (mqttLookup s msg) msg) msg record.name,
            .opened msg record.name, ?_, rfl, ?_, ?_⟩
          · have hsecond : serverStep tbl (mqttLookup s msg) .mqttName =
                some (mqttName (mqttLookup s msg) msg) := by
              rw [hlookup]
              rfl
            have hthird : serverStep tbl (mqttName (mqttLookup s msg) msg) .mqttOpen =
                some (mqttOpen (mqttName (mqttLookup s msg) msg) msg record.name) := by
              rw [hname]
              rfl
            rw [run_cons, hfirst, Option.bind_some, run_cons, hsecond, Option.bind_some, run_cons,
              hthird]
            rfl
          all_goals rw [hname, hlookup]
          · rfl
          · simp only [mqttOpen, onMqttMessage, hdecode, hconn, hdisc, hget, onDevice, hrecord]
            rfl

/-! ## Removed in between -/

/-- A device is registered, until a time, and its settings are on display. -/
def settingsServer : ServerState where
  now := 0
  db := Function.update (fun _ => none) "3C" (some { name := "Eve", until? := some 5 })
  messages := [⟨.devices [some ("Eve", some 5)], [["3C"]]⟩,
    ⟨.settings "3C" "Eve" (some 5), deviceSettingsKb "3C"⟩]

theorem idle_settingsServer : Idle settingsServer := ⟨rfl, rfl, rfl, rfl⟩

/-- The owner removes the device while the door is about to be opened for it. -/
def removedRun : List ServerAct :=
  [.mqttMessage "3C", .press 1 "remove 3C" true, .mqttName]

/-- The device expires, and its next report deletes the record while the owner
opens its settings. -/
def expiredRun : List ServerAct :=
  [.press 0 "3C" true, .wait 5, .mqttMessage "3C", .deviceSettings]

theorem removedRun_outcomes :
    (run (serverStep asciiTable) settingsServer removedRun).map ServerState.outcomes =
      some [.mqttRaised (.objectNotFound "3C")] := by
  decide +kernel

theorem expiredRun_outcomes :
    (run (serverStep asciiTable) settingsServer expiredRun).map ServerState.outcomes =
      some [.botRaised (.objectNotFound "3C"), .prompted "3C"] := by
  decide +kernel

/-- Both handlers raise for a record that was there when they looked. -/
theorem removed_between_sessions :
    (∃ u, run (serverStep asciiTable) settingsServer removedRun = some u ∧ ¬ EndsWell u) ∧
      ∃ u, run (serverStep asciiTable) settingsServer expiredRun = some u ∧ ¬ EndsWell u := by
  constructor
  · obtain ⟨u, hu, ho⟩ := Option.map_eq_some_iff.mp removedRun_outcomes
    refine ⟨u, hu, fun hwell => (hwell.2 "3C").1 ?_⟩
    rw [ho]
    exact List.mem_cons_self
  · obtain ⟨u, hu, ho⟩ := Option.map_eq_some_iff.mp expiredRun_outcomes
    refine ⟨u, hu, fun hwell => (hwell.2 "3C").2 ?_⟩
    rw [ho]
    exact List.mem_cons_self

/-- The owner gives the device a day more between the sessions, and removes it when the
second one is over. -/
def openedRun : List ServerAct :=
  [.mqttMessage "3C", .press 1 "until 1 3C" false, .mqttName, .press 1 "remove 3C" true,
    .mqttOpen]

theorem openedRun_outcomes :
    (run (serverStep asciiTable) settingsServer openedRun).map ServerState.outcomes =
      some [.opened "3C" "Eve"] := by
  decide +kernel

/-- In the first of these runs a second session meets no record. In the last one it
does, and the handler ends with the opening. -/
theorem removedRun_not_stored :
    ¬ Along (serverStep asciiTable) StillStored settingsServer removedRun ∧
      ∃ u, run (serverStep asciiTable) settingsServer openedRun = some u ∧ EndsWell u ∧
        u.outcomes = [.opened "3C" "Eve"] ∧ u.lookups = [("3C", true)] := by
  constructor
  · obtain ⟨u, hu, ho⟩ := Option.map_eq_some_iff.mp removedRun_outcomes
    intro hstored
    have hwell := (handlers_survive_iff idle_settingsServer hu).1.mpr hstored
    refine (hwell.2 "3C").1 ?_
    rw [ho]
    exact List.mem_cons_self
  · obtain ⟨u, hu, ho⟩ := Option.map_eq_some_iff.mp openedRun_outcomes
    obtain ⟨hiff, -, hlookups⟩ := handlers_survive_iff idle_settingsServer hu
    have hstored : Along (serverStep asciiTable) StillStored settingsServer openedRun := by
      decide +kernel
    refine ⟨u, hu, hiff.mpr hstored, ho, ?_⟩
    rw [hlookups]
    decide +kernel

end SmartDoorLock
