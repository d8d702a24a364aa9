import SmartDoorLock.Server.Bot
import SmartDoorLock.Server.Expiry

/-!
# Deleting an expired record is not seen

The database deletes an expired record when somebody asks for it, which may be early or
never. Neither thread of the server tells the difference: with the records deleted or
left, every handler looks up, asks, shows and raises the same, as long as none stores to
an expired record or reads one in its second session.
-/

namespace SmartDoorLock

open Machine

/-! ## What may tell the difference -/

/-- The key has no record that has expired at `t`. -/
def Unexpired (t : ℕ) (db : Db) (btId : String) : Prop :=
  ∀ device, db btId = some device → device.timeout t = false

instance (t : ℕ) (db : Db) (btId : String) : Decidable (Unexpired t db btId) :=
  match h : db btId with
  | none => isTrue fun device hdb => by rw [h] at hdb; cases hdb
  | some device =>
      decidable_of_iff (device.timeout t = false)
        ⟨fun hout other hdb => by rw [h] at hdb; cases hdb; exact hout, fun hall => hall device h⟩

/-- The keys a step writes to, or reads without a look at the time. -/
def touches (tbl : CharTable) (s : ServerState) : ServerAct → Option String
  | .mqttName =>
      match s.mqtt with
      | .found btId => some btId
      | _ => none
  | .deviceSettings =>
      match s.bot with
      | .settings btId _ _ => some btId
      | .idle => none
  | .press _ data _ =>
      match callbackOf tbl data with
      | .ok (.new btId _) => some btId
      | .ok (.until _ btId) => some btId
      | _ => none
  | _ => none

/-- The step touches no expired record. -/
def SparesExpired (tbl : CharTable) (t : ℕ) (s : ServerState) (a : ServerAct) : Prop :=
  ∀ btId ∈ touches tbl s a, Unexpired t s.db btId

instance (tbl : CharTable) (t : ℕ) (s : ServerState) (a : ServerAct) :
    Decidable (SparesExpired tbl t s a) :=
  inferInstanceAs (Decidable (∀ btId ∈ touches tbl s a, Unexpired t s.db btId))

/-! ## One handler on two databases -/

section

variable {tbl : CharTable} {t : ℕ} {s : ServerState} {db' : Db}

theorem FadedDb.eq_of_unexpired {db : Db} (h : FadedDb t db db') {btId : String}
    (hlive : Unexpired t db btId) : db' btId = db btId := by
  rcases h btId with hsame | ⟨-, device, hdb, hout⟩
  · exact hsame
  · rw [hlive device hdb] at hout
    cases hout

/-- The same state but for expired records. -/
def AlikeBut (t : ℕ) (s x : ServerState) : Prop :=
  ∃ db', x = { s with db := db' } ∧ FadedDb t s.db db'

theorem deleteMessage_setDb (db' : Db) (message : ℕ) (deletable : Bool) :
    deleteMessage { s with db := db' } message deletable =
      { deleteMessage s message deletable with db := db' } := by
  unfold deleteMessage
  split <;> rfl

theorem AlikeBut.delete {x : ServerState} (h : AlikeBut t s x) (message : ℕ) (deletable : Bool) :
    AlikeBut t (deleteMessage s message deletable) (deleteMessage x message deletable) := by
  obtain ⟨db', rfl, hdb⟩ := h
  refine ⟨db', deleteMessage_setDb db' message deletable, ?_⟩
  have hsame : (deleteMessage s message deletable).db = s.db := by
    unfold deleteMessage
    split <;> rfl
  rw [hsame]
  exact hdb

theorem alike_mqttLookup (hle : t ≤ s.now) (hdb : FadedDb t s.db db') (msg : String) :
    AlikeBut t (mqttLookup s msg) (mqttLookup { s with db := db' } msg) := by
  unfold mqttLookup
  split
  · exact ⟨db', rfl, hdb⟩
  · split
    · exact ⟨db', rfl, hdb⟩
    · obtain ⟨hget, hfound⟩ := fadedDb_get hdb hle msg
      cases hold : getBtDevice s.now s.db msg with
      | mk after found =>
          cases hnew : getBtDevice s.now db' msg with
          | mk after' found' =>
              rw [hold, hnew] at hget hfound
              obtain rfl : found' = found := hfound
              cases found' with
              | none => exact ⟨after', rfl, hget⟩
              | some device => exact ⟨after', rfl, hget⟩

theorem alike_mqttName (hdb : FadedDb t s.db db') {msg : String}
    (hlive : Unexpired t s.db msg) :
    AlikeBut t (mqttName s msg) (mqttName { s with db := db' } msg) := by
  simp only [mqttName, hdb.eq_of_unexpired hlive]
  split <;> exact ⟨db', rfl, hdb⟩

theorem alike_deviceSettings (hdb : FadedDb t s.db db') {btId : String}
    (hlive : Unexpired t s.db btId) (message : ℕ) (deletable : Bool) :
    AlikeBut t (deviceSettings s btId message deletable)
      (deviceSettings { s with db := db' } btId message deletable) := by
  simp only [deviceSettings, hdb.eq_of_unexpired hlive]
  split
  · refine AlikeBut.delete ?_ message deletable
    exact ⟨db', rfl, hdb⟩
  · exact ⟨db', rfl, hdb⟩

theorem alike_getDeviceName (hdb : FadedDb t s.db db') (text : String) :
    AlikeBut t (getDeviceName tbl s text) (getDeviceName tbl { s with db := db' } text) := by
  unfold getDeviceName
  split
  · exact ⟨db', rfl, hdb⟩
  · simp only
    split
    · exact ⟨db', rfl, hdb⟩
    · split <;> exact ⟨db', rfl, hdb⟩

theorem alike_callbackHandler (hle : t ≤ s.now) (hdb : FadedDb t s.db db') {message : ℕ}
    {data : String} {deletable : Bool}
    (hspares : SparesExpired tbl t s (.press message data deletable)) :
    AlikeBut t (callbackHandler tbl s message data deletable)
      (callbackHandler tbl { s with db := db' } message data deletable) := by
  unfold callbackHandler
  cases hdata : callbackOf tbl data with
  | error e => exact ⟨db', rfl, hdb⟩
  | ok c =>
      have hlive : ∀ btId, touches tbl s (.press message data deletable) = some btId →
          Unexpired t s.db btId := hspares
      rw [touches, hdata] at hlive
      cases c with
      | ignore => exact AlikeBut.delete ⟨db', rfl, hdb⟩ message deletable
      | openDoor => exact ⟨db', rfl, hdb⟩
      | add btId =>
          refine AlikeBut.delete ?_ message deletable
          exact ⟨db', rfl, hdb⟩
      | new btId name =>
          exact AlikeBut.delete ⟨_, rfl, fadedDb_add hdb name (hlive btId rfl)⟩ message deletable
      | remove btId => exact AlikeBut.delete ⟨_, rfl, fadedDb_remove hdb btId⟩ message deletable
      | «until» days btId =>
          simp only [updateUntilTime_eq, hdb.eq_of_unexpired (hlive btId rfl)]
          cases hold : s.db btId with
          | none => exact AlikeBut.delete ⟨db', rfl, hdb⟩ message deletable
          | some device =>
              cases hnew : extended s.now days device with
              | none =>
                  simp only [hnew]
                  exact ⟨db', rfl, hdb⟩
              | some device' =>
                  simp only [hnew]
                  exact AlikeBut.delete ⟨_, rfl, hdb.update btId (Or.inl rfl)⟩ message deletable
      | device btId =>
          obtain ⟨hget, hfound⟩ := fadedDb_get hdb hle btId
          cases hold : getBtDevice s.now s.db btId with
          | mk after found =>
              cases hnew : getBtDevice s.now db' btId with
              | mk after' found' =>
                  rw [hold, hnew] at hget hfound
                  obtain rfl : found' = found := hfound
                  simp only [hold, hnew]
                  cases found' with
                  | none => exact AlikeBut.delete ⟨after', rfl, hget⟩ message deletable
                  | some device => exact ⟨after', rfl, hget⟩

/-! ## Whole runs -/

theorem deleteMessage_now (s : ServerState) (message : ℕ) (deletable : Bool) :
    (deleteMessage s message deletable).now = s.now := by
  unfold deleteMessage
  split <;> rfl

theorem serverStep_now_le {u : ServerState} {a : ServerAct} (hu : serverStep tbl s a = some u) :
    s.now ≤ u.now := by
  cases serverStep_cases hu with
  | wait d => exact Nat.le_add_right _ _
  | mqttMessage msg hidle =>
      unfold mqttLookup
      split
      · rfl
      · split
        · rfl
        · split <;> rfl
  | mqttName msg hfound =>
      unfold mqttName
      split <;> rfl
  | mqttOpen msg name hnamed => rfl
  | press message data deletable m hidle hm hdata =>
      unfold callbackHandler
      repeat' split
      all_goals first
        | rfl
        | rw [deleteMessage_now]
  | deviceSettings btId message deletable hbot =>
      unfold deviceSettings
      split
      · rw [deleteMessage_now]
      · rfl
  | text text hidle =>
      unfold getDeviceName
      split
      · rfl
      · split
        · rfl
        · split <;> rfl
  | listDevices ids hidle hids => rfl

theorem serverStep_alike {u x : ServerState} {a : ServerAct} (hle : t ≤ s.now)
    (h : AlikeBut t s x) (hspares : SparesExpired tbl t s a) (hu : serverStep tbl s a = some u) :
    ∃ y, serverStep tbl x a = some y ∧ AlikeBut t u y := by
  obtain ⟨db', rfl, hdb⟩ := h
  cases serverStep_cases hu with
  | wait d => exact ⟨_, rfl, db', rfl, hdb⟩
  | mqttMessage msg hidle =>
      refine ⟨_, ?_, alike_mqttLookup hle hdb msg⟩
      simp only [serverStep, hidle]
  | mqttName msg hfound =>
      have hlive : Unexpired t s.db msg := hspares msg (by simp [touches, hfound])
      refine ⟨_, ?_, alike_mqttName hdb hlive⟩
      simp only [serverStep, hfound]
  | mqttOpen msg name hnamed =>
      refine ⟨mqttOpen { s with db := db' } msg name, ?_, db', rfl, hdb⟩
      simp only [serverStep, hnamed]
  | press message data deletable m hidle hm hdata =>
      refine ⟨_, ?_, alike_callbackHandler hle hdb hspares⟩
      simp only [serverStep, hidle, hm, if_pos hdata]
  | deviceSettings btId message deletable hbot =>
      have hlive : Unexpired t s.db btId := hspares btId (by simp [touches, hbot])
      refine ⟨_, ?_, alike_deviceSettings hdb hlive message deletable⟩
      simp only [serverStep, hbot]
  | text text hidle =>
      refine ⟨_, ?_, alike_getDeviceName hdb text⟩
      simp only [serverStep, hidle]
  | listDevices ids hidle hids =>
      refine ⟨_, ?_, db', rfl, hdb⟩
      simp only [serverStep, hidle, listedIds, listReply, fadedDb_list hdb hle] at hids ⊢
      rw [if_pos hids]

/-- **Deleting is not seen.** Take any run of the two threads from a time `t` on, in which
no step stores to a record that had expired at `t`, or reads one in a second session.
With any of the expired records deleted beforehand the same run is possible and ends in
the same state, but for such records: the same lookups, questions, openings, messages on
display, exceptions and devices waiting for a name. -/
theorem deletion_not_seen {u : ServerState} {as : List ServerAct} (hle : t ≤ s.now)
    (hdb : FadedDb t s.db db') (hspares : Along (serverStep tbl) (SparesExpired tbl t) s as)
    (hrun : run (serverStep tbl) s as = some u) :
    ∃ after, run (serverStep tbl) { s with db := db' } as = some { u with db := after } ∧
      FadedDb t u.db after := by
  have hstep : ∀ v a w x, (t ≤ v.now ∧ AlikeBut t v x) → SparesExpired tbl t v a →
      serverStep tbl v a = some w →
      ∃ y, serverStep tbl x a = some y ∧ t ≤ w.now ∧ AlikeBut t w y := by
    rintro v a w x ⟨hlater, halike⟩ ha hw
    obtain ⟨y, hy, halike'⟩ := serverStep_alike hlater halike ha hw
    exact ⟨y, hy, hlater.trans (serverStep_now_le hw), halike'⟩
  have hstart : t ≤ s.now ∧ AlikeBut t s { s with db := db' } := ⟨hle, db', rfl, hdb⟩
  obtain ⟨y, hy, -, after, rfl, hafter⟩ := run_lockstep hstep hstart hspares hrun
  exact ⟨after, hy, hafter⟩

end

/-! A guest whose day is over comes again, and is added anew. -/

/-- At time 5 both records have expired. -/
def expiredServer : ServerState where
  now := 5
  db := fun key =>
    if key = "AA" then some { name := "Guest", until? := some 3 }
    else if key = "BB" then some { name := "Child", until? := some 4 }
    else none

def guestAgain : List ServerAct :=
  [.mqttMessage "AA", .press 0 "add: AA" true, .text "Guest", .press 0 "new AA Guest" true,
    .wait 10, .mqttMessage "AA", .mqttName, .mqttOpen]

theorem guestAgain_runs :
    (run (serverStep asciiTable) expiredServer guestAgain).map (fun u => u.outcomes) =
      some [.opened "AA" "Guest", .prompted "AA"] := by
  decide +kernel

theorem guestAgain_alike : ∃ u after,
    run (serverStep asciiTable) expiredServer guestAgain = some u ∧
      run (serverStep asciiTable) { expiredServer with db := deleteExpired 5 expiredServer.db }
        guestAgain = some { u with db := after } ∧
      FadedDb 5 u.db after := by
  obtain ⟨u, hu, -⟩ := Option.map_eq_some_iff.mp guestAgain_runs
  have hspares : Along (serverStep asciiTable) (SparesExpired asciiTable 5) expiredServer
      guestAgain := by
    decide +kernel
  obtain ⟨after, hafter, hfaded⟩ :=
    deletion_not_seen (le_refl 5) (fun key => faded_live 5 (expiredServer.db key)) hspares hu
  exact ⟨u, after, hu, hafter, hfaded⟩

end SmartDoorLock
