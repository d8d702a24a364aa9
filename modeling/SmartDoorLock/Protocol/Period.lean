import SmartDoorLock.Protocol.Authorisation

/-!
# For how long a device is let in

The owner lets a device in for a number of days: each press of such a button moves
the end of its period, and the first one counts from the time of the press. The
records are only asked when a report arrives, which the broker may deliver late,
and two threads write them. Still no device is let in on a report that the server
handles after the days it was granted.
-/

namespace SmartDoorLock

open CText Machine

/-! ## The end of a period -/

/-- The `until` of a record. -/
def limitIn (db : Db) (btId : String) : Option ℕ := (db btId).bind Device.until?

/-- The microseconds of some days. -/
def daysLong (days : ℕ) : ℕ := 86400000000 * days

theorem limitIn_update (db : Db) (btId key : String) (record : Option Device) :
    limitIn (Function.update db btId record) key =
      if key = btId then record.bind Device.until? else limitIn db key := by
  unfold limitIn
  by_cases hkey : key = btId
  · rw [hkey, Function.update_self, if_pos rfl]
  · rw [Function.update_of_ne hkey, if_neg hkey]

/-- A lookup may delete a record, and changes none. -/
theorem limitIn_get (now : ℕ) {limit : ℕ} {db : Db} (btId : String) {key : String}
    (h : limitIn (getBtDevice now db btId).1 key = some limit) : limitIn db key = some limit := by
  rw [getBtDevice_eq, limitIn_update] at h
  split at h
  · rename_i hkey
    obtain ⟨device, hlive, hlimit⟩ := Option.bind_eq_some_iff.mp h
    rw [limitIn, hkey, (Option.filter_eq_some_iff.mp hlive).1]
    exact hlimit
  · exact h

/-- A new name leaves the period as it is. -/
theorem limitIn_add (db : Db) (btId name key : String) :
    limitIn (addDevice db btId name) key = limitIn db key := by
  rw [addDevice_eq, limitIn_update]
  split
  · rename_i hkey
    rw [hkey]
    rfl
  · rfl

theorem limitIn_remove {now limit : ℕ} {db : Db} {btId key : String}
    (h : limitIn (removeDevice now db btId) key = some limit) : limitIn db key = some limit := by
  rw [removeDevice_eq, limitIn_update] at h
  split at h
  · cases h
  · exact h

/-- The period of an extended record ends no more than the days later. -/
theorem extended_limit {now limit : ℕ} {days : ℤ} {device device' : Device}
    (h : extended now days device = some device') (hlimit : device'.until? = some limit) :
    limit ≤ device.until?.getD now + daysLong days.toNat := by
  unfold extended at h
  split at h
  · cases h
    cases hlimit
  · simp only at h
    split at h
    · cases h
    · cases h
      obtain rfl := Option.some.inj hlimit
      have hdays := Int.self_le_toNat days
      unfold Device.extendFrom DAY daysLong
      omega

theorem limitIn_extend {now limit : ℕ} {db db' : Db} {days : ℤ} {btId key : String}
    (hupdate : updateUntilTime now db days btId = .ok db') (h : limitIn db' key = some limit) :
    limitIn db key = some limit ∨
      (key = btId ∧ limit ≤ (limitIn db key).getD now + daysLong days.toNat) := by
  rw [updateUntilTime_eq] at hupdate
  split at hupdate
  · cases hupdate
    exact Or.inl h
  · rename_i device hdb
    split at hupdate
    · rename_i device' hext
      cases hupdate
      rw [limitIn_update] at h
      split at h
      · rename_i hkey
        refine Or.inr ⟨hkey, ?_⟩
        rw [limitIn, hkey, hdb]
        exact extended_limit hext h
      · exact Or.inl h
    · cases hupdate

/-! ## Steps of the server -/

/-- The days a press grants the device. -/
def grantedDays (tbl : CharTable) (btId : String) : ServerAct → ℕ
  | .press _ data _ =>
      match callbackOf tbl data with
      | .ok (.until days key) => if key = btId then days.toNat else 0
      | _ => 0
  | _ => 0

/-- The owner presses a button for the period of the device. -/
def Grants (tbl : CharTable) (btId : String) (a : ServerAct) : Prop :=
  ∃ message data deletable days, a = .press message data deletable ∧
    callbackOf tbl data = .ok (.until days btId)

section

variable {tbl : CharTable} {s t : ServerState}

theorem limitIn_callbackHandler {message : ℕ} {data btId : String} {deletable : Bool} {limit : ℕ}
    (h : limitIn (callbackHandler tbl s message data deletable).db btId = some limit) :
    limitIn s.db btId = some limit ∨ ∃ days, callbackOf tbl data = .ok (.until days btId) ∧
      limit ≤ (limitIn s.db btId).getD s.now + daysLong days.toNat := by
  unfold callbackHandler at h
  split at h
  · exact Or.inl h
  · rw [deleteMessage_db] at h
    exact Or.inl h
  · exact Or.inl h
  · rw [deleteMessage_db] at h
    exact Or.inl h
  · rw [deleteMessage_db, limitIn_add] at h
    exact Or.inl h
  · rw [deleteMessage_db] at h
    exact Or.inl (limitIn_remove h)
  · rename_i days key hdata
    split at h
    · rename_i db hupdate
      rw [deleteMessage_db] at h
      rcases limitIn_extend hupdate h with hsame | ⟨rfl, hle⟩
      · exact Or.inl hsame
      · exact Or.inr ⟨days, hdata, hle⟩
    · exact Or.inl h
  · rename_i key hdata
    refine Or.inl (limitIn_get s.now key ?_)
    split at h
    · rename_i db found hget
      rw [hget]
      exact h
    · rename_i db hget
      rw [deleteMessage_db] at h
      rw [hget]
      exact h

/-- **A period is set or moved** by the press of a button for it, and by no more than
the days of the button. -/
theorem limit_by_step {a : ServerAct} {btId : String} {limit : ℕ}
    (ht : serverStep tbl s a = some t) (h : limitIn t.db btId = some limit) :
    limitIn s.db btId = some limit ∨ (Grants tbl btId a ∧
      limit ≤ (limitIn s.db btId).getD s.now + daysLong (grantedDays tbl btId a)) := by
  by_cases hpress : ∃ message data deletable, a = .press message data deletable
  · obtain ⟨message, data, deletable, rfl⟩ := hpress
    cases serverStep_cases ht with
    | press message data deletable m hidle hm hdata =>
        rcases limitIn_callbackHandler h with hsame | ⟨days, hcall, hle⟩
        · exact Or.inl hsame
        · refine Or.inr ⟨⟨message, data, deletable, days, rfl, hcall⟩, ?_⟩
          rw [grantedDays, hcall]
          simp only [if_true]
          exact hle
  · left
    by_cases hmsg : ∃ msg, a = .mqttMessage msg
    · obtain ⟨msg, rfl⟩ := hmsg
      cases serverStep_cases ht with
      | mqttMessage msg hidle =>
          rcases mqttLookup_db s msg with hsame | hsame
          · rw [hsame] at h
            exact h
          · rw [hsame] at h
            exact limitIn_get _ _ h
    · rw [db_of_no_press ht (fun message data deletable heq =>
        hpress ⟨message, data, deletable, heq⟩) fun msg heq => hmsg ⟨msg, heq⟩] at h
      exact h

end

/-! ## Steps of the system -/

/-- The record of the device has an end. -/
def Limited (btId : String) (s : System) : Prop := limitIn s.server.db btId ≠ none

/-- The server goes on with a press that grants the device days, none perhaps. -/
def GrantsIn (tbl : CharTable) (btId : String) (a : SystemAct) : Prop :=
  ∃ b calls, a = .server b calls ∧ Grants tbl btId b

/-- The days that the presses of a run grant the device. -/
def granted (tbl : CharTable) (btId : String) (as : List SystemAct) : ℕ :=
  (as.map fun
    | .server b _ => grantedDays tbl btId b
    | _ => 0).sum

section

variable {tbl : CharTable} {s t u : System} {as : List SystemAct} {btId : String}

theorem granted_append (as bs : List SystemAct) :
    granted tbl btId (as ++ bs) = granted tbl btId as + granted tbl btId bs := by
  rw [granted, List.map_append, List.sum_append]
  rfl

theorem limit_by_systemStep {a : SystemAct} {limit : ℕ} (h : systemStep tbl s a = some t)
    (hlimit : limitIn t.server.db btId = some limit) :
    limitIn s.server.db btId = some limit ∨ (GrantsIn tbl btId a ∧
      limit ≤ (limitIn s.server.db btId).getD s.server.now + daysLong (granted tbl btId [a])) := by
  rcases server_by_step h with hsame | ⟨b, calls, rfl, -, hb⟩ | ⟨m, msg, rfl, -, -, -, hb⟩
  · rw [hsame] at hlimit
    exact Or.inl hlimit
  · rcases limit_by_step hb hlimit with hold | ⟨hgrants, hle⟩
    · exact Or.inl hold
    · exact Or.inr ⟨⟨b, calls, rfl, hgrants⟩, hle⟩
  · rcases limit_by_step hb hlimit with hold | ⟨⟨message, data, deletable, days, heq, -⟩, -⟩
    · exact Or.inl hold
    · cases heq

/-- **While a record has an end**, it moves by the days granted and by nothing else. -/
theorem limit_while_limited {limit₀ limit : ℕ} (hstart : limitIn s.server.db btId = some limit₀)
    (hrun : run (systemStep tbl) s as = some u)
    (hsince : Throughout (systemStep tbl) (Limited btId) s as)
    (hlimit : limitIn u.server.db btId = some limit) :
    limit ≤ limit₀ + daysLong (granted tbl btId as) := by
  induction as using List.reverseRecOn generalizing u limit with
  | nil =>
      cases hrun
      obtain rfl := Option.some.inj (hstart.symm.trans hlimit)
      exact Nat.le_add_right _ _
  | append_singleton as a ih =>
      obtain ⟨v, hv, ha⟩ := run_snoc_eq_some.mp hrun
      have hbefore := hsince.of_append
      obtain ⟨limit₁, hlimit₁⟩ := Option.ne_none_iff_exists'.mp (hbefore as [] v (by simp) hv)
      have hle := ih hv hbefore hlimit₁
      rw [granted_append]
      unfold daysLong at hle ⊢
      rcases limit_by_systemStep ha hlimit with hsame | ⟨-, hmoved⟩
      · obtain rfl := Option.some.inj (hlimit₁.symm.trans hsame)
        omega
      · rw [hlimit₁] at hmoved
        unfold daysLong at hmoved
        simp only [Option.getD_some] at hmoved
        omega

/-- Up to `limit` the device has been granted days after the actions `pre`: its record
has had an end from the start, or since a press of the owner that gave it one. -/
inductive GrantedUntil (tbl : CharTable) (s : System) (btId : String) (pre : List SystemAct) :
    ℕ → Prop where
  | fromStart (limit₀ : ℕ) (hstart : limitIn s.server.db btId = some limit₀)
      (hsince : Throughout (systemStep tbl) (Limited btId) s pre) :
      GrantedUntil tbl s btId pre (limit₀ + daysLong (granted tbl btId pre))
  | sincePress (front : List SystemAct) (a : SystemAct) (post : List SystemAct) (v w : System)
      (hsplit : pre = front ++ a :: post) (hv : run (systemStep tbl) s front = some v)
      (hw : systemStep tbl v a = some w) (hgrants : GrantsIn tbl btId a) (hnot : ¬ Limited btId v)
      (hsince : Throughout (systemStep tbl) (Limited btId) w post) :
      GrantedUntil tbl s btId pre (v.server.now + daysLong (granted tbl btId (a :: post)))

/-- **The end of a period** is the time of the press it began with and the days
granted since, at the latest. -/
theorem limit_grantedUntil {limit : ℕ} (hrun : run (systemStep tbl) s as = some u)
    (hlimit : limitIn u.server.db btId = some limit) :
    ∃ bound, GrantedUntil tbl s btId as bound ∧ limit ≤ bound := by
  have hend : Limited btId u := by
    rw [Limited, hlimit]
    exact Option.some_ne_none limit
  by_cases hall : Throughout (systemStep tbl) (Limited btId) s as
  · obtain ⟨limit₀, hstart⟩ := Option.ne_none_iff_exists'.mp (hall [] as s rfl rfl)
    exact ⟨_, .fromStart limit₀ hstart hall, limit_while_limited hstart hrun hall hlimit⟩
  · obtain ⟨pre, a, post, v, w, rfl, hv, hw, hnot, hlimited, hsince, hrest⟩ :=
      run_becomes hall hend hrun
    obtain ⟨limit₁, hlimit₁⟩ := Option.ne_none_iff_exists'.mp hlimited
    have hnone : limitIn v.server.db btId = none := not_not.mp hnot
    rcases limit_by_systemStep hw hlimit₁ with hsame | ⟨hgrants, hle⟩
    · rw [hnone] at hsame
      cases hsame
    · refine ⟨_, .sincePress pre a post v w rfl hv hw hgrants hnot hsince, ?_⟩
      have hlast := limit_while_limited hlimit₁ hrest hsince hlimit
      rw [hnone] at hle
      have hsum : granted tbl btId (a :: post) = granted tbl btId [a] + granted tbl btId post :=
        granted_append [a] post
      rw [hsum]
      unfold daysLong at hle hlast ⊢
      simp only [Option.getD_none] at hle
      omega

/-- A report of the address is handled, and finds a live record: one without an end, or
one whose device has been granted days up to a later time. -/
def FoundInPeriod (tbl : CharTable) (s : System) (addr : BdAddr) (pre : List SystemAct)
    (v : System) (a : SystemAct) : Prop :=
  a = .toServer (DoorPayload.device addr).message ∧
    ∃ device, live v.server.now (v.server.db (deviceId addr)) = some device ∧
      (device.until? = none ∨
        ∃ bound, GrantedUntil tbl s (deviceId addr) pre bound ∧ v.server.now < bound)

/-- A record is live until its end. -/
theorem lt_of_live {now limit : ℕ} {db : Db} {btId : String} {device : Device}
    (h : live now (db btId) = some device) (hlimit : device.until? = some limit) :
    limitIn db btId = some limit ∧ now < limit := by
  obtain ⟨hdb, hlive⟩ := Option.filter_eq_some_iff.mp h
  rw [limitIn, hdb]
  refine ⟨hlimit, ?_⟩
  simpa [Device.timeout, hlimit] using hlive

/-- What is found, is found in its period. -/
theorem FoundAt.inPeriod {addr : BdAddr} {a : SystemAct} (hrun : run (systemStep tbl) s as = some u)
    (h : FoundAt tbl s addr as u a) : FoundInPeriod tbl s addr as u a := by
  obtain ⟨rfl, ⟨device, hlive⟩, -⟩ := h
  refine ⟨rfl, device, hlive, ?_⟩
  cases huntil : device.until? with
  | none => exact Or.inl rfl
  | some limit =>
      obtain ⟨hlimit, hlt⟩ := lt_of_live hlive huntil
      obtain ⟨bound, hbound, hle⟩ := limit_grantedUntil hrun hlimit
      exact Or.inr ⟨bound, hbound, hlt.trans_le hle⟩

/-- **Within the days granted.** In every run from the start: each time `open_door` is
called for a device, the run of `on_mqtt_message` that calls it has handled a report of
the device while its record had no end, or before the time that the owner's presses have
granted it: the days of all presses since the record was last without an end, counted
from the first of them. Late and repeated deliveries change nothing about that. -/
theorem opened_within_days (hs : Booted s) (hrun : run (systemStep tbl) s as = some u)
    {name : String} {newer older : List Outcome}
    (hopened : u.server.outcomes = newer ++ .opened btId name :: older) :
    ∃ addr, btId = deviceId addr ∧ Before tbl s (fun pre v a => v.server.outcomes = older ∧
      OpenedAt tbl s (FoundInPeriod tbl s addr) btId name pre v a) as := by
  obtain ⟨pre, a, post, v, hsplit, hv, hold, hopen, hread⟩ := opening_noted hs hrun hopened
  obtain ⟨addr, haddr, hsince⟩ := read_since hs hv hread
  refine ⟨addr, haddr, pre, a, post, v, hsplit, hv, hold, hopen, hread, hsince.mono ?_⟩
  intro front w b _ hb
  exact hb.mono fun start x c hx hc => hc.inPeriod hx

end

/-! ## A day for the host -/

/-- The owner lets the host in for one day, and it comes an hour later. -/
def oneDayRun : List SystemAct :=
  [.server (.listDevices [deviceId host]) [],
    .server (.press 0 (Button.device host).data true) [], .server .deviceSettings [],
    .server (.press 0 (Button.until 1 host).data true) [],
    .server (.wait 3600000000) []] ++ letInRun

theorem oneDayRun_result :
    (run (systemStep asciiTable) (house {}) oneDayRun).map (fun u => u.server.outcomes) =
      some [.opened (deviceId host) "Ann"] := by
  decide +kernel

theorem oneDayRun_opened : ∃ u, run (systemStep asciiTable) (house {}) oneDayRun = some u ∧
    u.server.outcomes = [.opened (deviceId host) "Ann"] ∧
    ∃ addr, deviceId host = deviceId addr ∧
      Before asciiTable (house {}) (fun pre v a => v.server.outcomes = [] ∧
        OpenedAt asciiTable (house {}) (FoundInPeriod asciiTable (house {}) addr)
          (deviceId host) "Ann" pre v a) oneDayRun := by
  obtain ⟨u, hu, hresult⟩ := Option.map_eq_some_iff.mp oneDayRun_result
  have hopened : u.server.outcomes = [] ++ [.opened (deviceId host) "Ann"] := hresult
  exact ⟨u, hu, hresult, opened_within_days booted_house hu hopened⟩

end SmartDoorLock
