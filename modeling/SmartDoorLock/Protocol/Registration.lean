import SmartDoorLock.Protocol.Authorisation

/-!
# Registering a device and letting it in

The way of a device through the whole system. An unknown device is brought
before the owner, who names and accepts it in three steps; from then on a report
of it opens the door, unless the door is locked or the report is lost; and once it
is removed no report opens the door any more, until it is accepted again, but for
the one whose handler is about to.
-/

namespace SmartDoorLock

open CText Machine WrapClock

/-! ## The dialogue with the owner -/

section

variable {tbl : CharTable} {s : ServerState}

/-- A message that may be deleted, or stays. -/
def keptMessage (deletable : Bool) (m : Message) : List Message := if deletable then [] else [m]

theorem deleteMessage_last (s : ServerState) (ms : List Message) (m : Message) (deletable : Bool)
    (hms : s.messages = ms ++ [m]) :
    deleteMessage s ms.length deletable = { s with messages := ms ++ keptMessage deletable m } := by
  unfold deleteMessage keptMessage
  cases deletable with
  | true =>
      simp only [if_true, hms, List.append_nil]
      rw [List.eraseIdx_append_of_length_le le_rfl, Nat.sub_self, List.eraseIdx_zero]
      simp
  | false =>
      simp only [Bool.false_eq_true, if_false]
      rw [← hms]

/-- The latest message is pressed. -/
theorem press_last {ms : List Message} {m : Message} {data : String} (deletable : Bool)
    (hbot : s.bot = .idle) (hms : s.messages = ms ++ [m]) (hdata : data ∈ m.keyboard.flatten) :
    serverStep tbl s (.press ms.length data deletable) =
      some (callbackHandler tbl s ms.length data deletable) := by
  have hlast : s.messages[ms.length]? = some m := by
    rw [hms, List.getElem?_append_right le_rfl, Nat.sub_self]
    rfl
  simp only [serverStep, hbot, hlast, if_pos hdata]

/-- The question about a new device. -/
def promptMessage (addr : BdAddr) : Message :=
  ⟨.newDevice (deviceId addr), getNewDeviceKb (deviceId addr)⟩

/-- The confirmation of a name. -/
def chosenMessage (addr : BdAddr) (name : String) : Message :=
  ⟨.chosen (deviceId addr) name, chosenNameKb (deviceId addr) name⟩

/-- A report of a device without a live record brings it before the owner; a
record that has expired is deleted. -/
theorem prompt_step (addr : BdAddr) (hmqtt : s.mqtt = .idle)
    (hgone : live s.now (s.db (deviceId addr)) = none) :
    ∃ t, serverStep tbl s (.mqttMessage (deviceId addr)) = some t ∧
      t.db = Function.update s.db (deviceId addr) none ∧
      t.messages = s.messages ++ [promptMessage addr] ∧
      t.deviceWhitForSave = s.deviceWhitForSave ∧ t.mqtt = .idle ∧ t.bot = s.bot ∧
      t.now = s.now ∧ t.outcomes = .prompted (deviceId addr) :: s.outcomes := by
  have hconn : startswith (deviceId addr) "connected" = false :=
    startswith_deviceText addr (by decide)
  have hdisc : startswith (deviceId addr) "disconnected" = false :=
    startswith_deviceText addr (by decide)
  have hlookup : getBtDevice s.now s.db (deviceId addr) =
      (Function.update s.db (deviceId addr) none, none) := by
    rw [getBtDevice_eq, hgone]
  refine ⟨mqttLookup s (deviceId addr), ?_, ?_⟩
  · simp only [serverStep, hmqtt]
  · simp only [mqttLookup, hconn, hdisc, Bool.false_eq_true, if_false, hlookup]
    exact ⟨trivial, rfl, trivial, hmqtt, trivial, trivial, trivial⟩

/-- `Add device` on the latest message. -/
theorem add_step (addr : BdAddr) (deletable : Bool) {ms : List Message} {m : Message}
    (hbot : s.bot = .idle) (hms : s.messages = ms ++ [m])
    (hdata : (Button.add addr).data ∈ m.keyboard.flatten) :
    ∃ t, serverStep tbl s (.press ms.length (Button.add addr).data deletable) = some t ∧
      t.db = s.db ∧ t.messages = ms ++ keptMessage deletable m ∧
      t.deviceWhitForSave = s.deviceWhitForSave ++ [deviceId addr] ∧ t.mqtt = s.mqtt ∧
      t.bot = s.bot ∧ t.now = s.now ∧ t.outcomes = s.outcomes := by
  have hfits : (Button.add addr).Fits tbl := trivial
  rw [press_last deletable hbot hms hdata, callbackHandler, callbackOf_data tbl hfits]
  exact ⟨_, congrArg some (deleteMessage_last
    { s with deviceWhitForSave := s.deviceWhitForSave ++ [deviceId addr] } ms m deletable hms),
    rfl, rfl, rfl, rfl, rfl, rfl, rfl⟩

/-- The text after it names the device. -/
theorem name_step (addr : BdAddr) {name : String} {waiting : List String} (hbot : s.bot = .idle)
    (hwaiting : s.deviceWhitForSave = waiting ++ [deviceId addr])
    (hname : isalnum tbl name = true) (hslash : startswith name "/" = false) :
    ∃ t, serverStep tbl s (.text name) = some t ∧ t.db = s.db ∧
      t.messages = s.messages ++ [chosenMessage addr name] ∧ t.deviceWhitForSave = waiting ∧
      t.mqtt = s.mqtt ∧ t.bot = s.bot ∧ t.now = s.now ∧ t.outcomes = s.outcomes := by
  have hstep : serverStep tbl s (.text name) = some { s with
      deviceWhitForSave := waiting
      messages := s.messages ++ [chosenMessage addr name] } := by
    simp only [serverStep, hbot, getDeviceName, hslash, Bool.false_eq_true, if_false, hwaiting,
      List.getLast?_concat, hname, if_true, List.dropLast_concat, chosenMessage]
  exact ⟨_, hstep, rfl, rfl, rfl, rfl, rfl, rfl, rfl⟩

/-- `Accept` on the latest message. -/
theorem accept_step (addr : BdAddr) {name : String} (deletable : Bool) {ms : List Message}
    {m : Message} (hbot : s.bot = .idle) (hms : s.messages = ms ++ [m])
    (hname : isalnum tbl name = true) (hdata : (Button.new addr name).data ∈ m.keyboard.flatten) :
    ∃ t, serverStep tbl s (.press ms.length (Button.new addr name).data deletable) = some t ∧
      t.db = addDevice s.db (deviceId addr) name ∧ t.messages = ms ++ keptMessage deletable m ∧
      t.deviceWhitForSave = s.deviceWhitForSave ∧ t.mqtt = s.mqtt ∧ t.bot = s.bot ∧
      t.now = s.now ∧ t.outcomes = s.outcomes := by
  have hfits : (Button.new addr name).Fits tbl := hname
  rw [press_last deletable hbot hms hdata, callbackHandler, callbackOf_data tbl hfits]
  exact ⟨_, congrArg some (deleteMessage_last
    { s with db := addDevice s.db (deviceId addr) name, ids := s.ids.insert (deviceId addr) }
    ms m deletable hms),
    rfl, rfl, rfl, rfl, rfl, rfl, rfl⟩

/-- The report, the three steps of the owner, and the times between them. -/
def registration (s : ServerState) (addr : BdAddr) (name : String) (d₁ d₂ d₃ : ℕ)
    (del₁ del₂ : Bool) : List ServerAct :=
  [.mqttMessage (deviceId addr), .wait d₁,
    .press s.messages.length (Button.add addr).data del₁, .wait d₂, .text name, .wait d₃,
    .press (s.messages ++ keptMessage del₁ (promptMessage addr)).length
      (Button.new addr name).data del₂]

theorem add_mem_prompt (addr : BdAddr) :
    (Button.add addr).data ∈ (promptMessage addr).keyboard.flatten := by
  simp [promptMessage, getNewDeviceKb, Button.data]

theorem new_mem_chosen (addr : BdAddr) (name : String) :
    (Button.new addr name).data ∈ (chosenMessage addr name).keyboard.flatten := by
  simp [chosenMessage, chosenNameKb, Button.data]

/-- **Registration.** In every state of the server in which both threads wait, a
device without a live record is stored after its report and three steps of the
owner, without an end and under the name given; no other record changes, nor
what waits for a name, and the messages it took are gone if they may be. -/
theorem registration_stores (addr : BdAddr) {name : String} (d₁ d₂ d₃ : ℕ) (del₁ del₂ : Bool)
    (hmqtt : s.mqtt = .idle) (hbot : s.bot = .idle)
    (hgone : live s.now (s.db (deviceId addr)) = none) (hname : isalnum tbl name = true)
    (hslash : startswith name "/" = false) :
    ∃ u, run (serverStep tbl) s (registration s addr name d₁ d₂ d₃ del₁ del₂) = some u ∧
      u.db = Function.update s.db (deviceId addr) (some { name := name }) ∧
      u.deviceWhitForSave = s.deviceWhitForSave ∧ u.mqtt = .idle ∧ u.bot = .idle ∧
      u.now = s.now + d₁ + d₂ + d₃ ∧ u.outcomes = .prompted (deviceId addr) :: s.outcomes ∧
      (del₁ = true → del₂ = true → u.messages = s.messages) := by
  obtain ⟨t₁, ht₁, hdb₁, hms₁, hwait₁, hmqtt₁, hbot₁, hnow₁, hout₁⟩ :=
    @prompt_step tbl s addr hmqtt hgone
  obtain ⟨t₂, ht₂, hdb₂, hms₂, hwait₂, hmqtt₂, hbot₂, hnow₂, hout₂⟩ :=
    @add_step tbl { t₁ with now := t₁.now + d₁ } addr del₁ _ _ (hbot₁.trans hbot) hms₁
      (add_mem_prompt addr)
  obtain ⟨t₃, ht₃, hdb₃, hms₃, hwait₃, hmqtt₃, hbot₃, hnow₃, hout₃⟩ :=
    @name_step tbl { t₂ with now := t₂.now + d₂ } addr name _
      (hbot₂.trans (hbot₁.trans hbot)) hwait₂ hname hslash
  obtain ⟨t₄, ht₄, hdb₄, hms₄, hwait₄, hmqtt₄, hbot₄, hnow₄, hout₄⟩ :=
    @accept_step tbl { t₃ with now := t₃.now + d₃ } addr name del₂ _ _
      (hbot₃.trans (hbot₂.trans (hbot₁.trans hbot))) hms₃ hname (new_mem_chosen addr name)
  refine ⟨t₄, ?_, ?_, ?_, ?_, ?_, ?_, ?_, ?_⟩
  · have hindex : s.messages ++ keptMessage del₁ (promptMessage addr) = t₂.messages := hms₂.symm
    unfold registration
    rw [run_cons_of_step ht₁, run_cons_of_step rfl, run_cons_of_step ht₂, run_cons_of_step rfl,
      run_cons_of_step ht₃, run_cons_of_step rfl, hindex, run_cons_of_step ht₄, run_nil]
  · rw [hdb₄]
    show addDevice t₃.db _ _ = _
    rw [hdb₃]
    show addDevice t₂.db _ _ = _
    rw [hdb₂]
    show addDevice t₁.db _ _ = _
    rw [hdb₁, addDevice_eq, Function.update_self, Function.update_idem]
    rfl
  · exact hwait₄.trans (hwait₃.trans hwait₁)
  · exact hmqtt₄.trans (hmqtt₃.trans (hmqtt₂.trans hmqtt₁))
  · exact hbot₄.trans (hbot₃.trans (hbot₂.trans (hbot₁.trans hbot)))
  · rw [hnow₄]
    show t₃.now + d₃ = _
    rw [hnow₃]
    show t₂.now + d₂ + d₃ = _
    rw [hnow₂]
    show t₁.now + d₁ + d₂ + d₃ = _
    rw [hnow₁]
  · exact hout₄.trans (hout₃.trans (hout₂.trans hout₁))
  · rintro rfl rfl
    have hlast : t₄.messages = t₂.messages ++ [] := hms₄
    rw [hlast, hms₂]
    simp [keptMessage]

end

/-! ## From the report to the door -/

section

variable {tbl : CharTable} {s t u : System} {a : SystemAct} {as : List SystemAct}

/-- The owner does not accept the device. -/
def NotAccepted (tbl : CharTable) (btId : String) (_ : System) (a : SystemAct) : Prop :=
  ∀ b calls, a = .server b calls → ¬ Accepts tbl btId b

/-- 1 when the MQTT thread has read the name of the device and is about to call
`open_door`. -/
def aboutToOpen (s : ServerState) (btId name : String) : ℕ :=
  if s.mqtt = .named btId name then 1 else 0

theorem server_of_step {b : ServerAct} {calls : List PublishCall}
    (h : systemStep tbl s (.server b calls) = some t) :
    serverStep tbl s.server b = some t.server := by
  simp only [systemStep] at h
  split at h
  · cases h
  · obtain ⟨v, hv, h⟩ := Option.bind_eq_some_iff.mp h
    obtain ⟨ms, -, rfl⟩ := Option.map_eq_some_iff.mp h
    exact hv

theorem handler_of_press {s v : ServerState} {message : ℕ} {data : String} {deletable : Bool}
    (h : serverStep tbl s (.press message data deletable) = some v) :
    v = callbackHandler tbl s message data deletable := by
  cases serverStep_cases h with
  | press message data deletable m hidle hm hdata => rfl

theorem Quiet.opens_nothing {s v : ServerState} (h : Quiet s v) (btId : String) :
    ∃ news, v.outcomes = news ++ s.outcomes ∧ ∀ name,
      news.count (.opened btId name) + aboutToOpen v btId name = aboutToOpen s btId name := by
  obtain ⟨news, hnews, hplain⟩ := h.outcomes
  refine ⟨news, hnews, fun name => ?_⟩
  have hnone : .opened btId name ∉ news := fun hmem => by cases (hplain _ hmem).1
  rw [List.count_eq_zero.mpr hnone, Nat.zero_add, aboutToOpen, aboutToOpen, h.mqtt]

/-- Without a record, the only opening is the one about to be called. -/
theorem unstored_serverStep {s v : ServerState} {b : ServerAct} {btId : String}
    (hv : serverStep tbl s b = some v) (hnone : s.db btId = none) :
    ∃ news, v.outcomes = news ++ s.outcomes ∧ ∀ name,
      news.count (.opened btId name) + aboutToOpen v btId name = aboutToOpen s btId name := by
  rcases serverStep_log hv with ⟨hquiet, -⟩ | ⟨msg, -, hm, hm', -, ho⟩ |
    ⟨msg, -, hm, hm', -, ho⟩ | ⟨msg, device, -, hm, hdb, hm', -, ho⟩ |
    ⟨msg, name', -, hm, hm', -, ho⟩ | ⟨msg, -, hm, -, hm', -, ho⟩ |
    ⟨id, message, deletable, -, -, -, hm', -, ho⟩
  · exact hquiet.opens_nothing btId
  · exact ⟨[], ho, fun name => by simp [aboutToOpen, hm, hm']⟩
  · exact ⟨[.prompted msg], ho, fun name => by simp [aboutToOpen, hm, hm']⟩
  · have hne : msg ≠ btId := by
      rintro rfl
      rw [hnone] at hdb
      cases hdb
    exact ⟨[], ho, fun name => by simp [aboutToOpen, hm, hm', hne]⟩
  · refine ⟨[.opened msg name'], ho, fun name => ?_⟩
    simp [aboutToOpen, hm, hm', List.count_singleton]
  · exact ⟨[.mqttRaised (.objectNotFound msg)], ho, fun name => by simp [aboutToOpen, hm, hm']⟩
  · exact ⟨[.botRaised (.objectNotFound id)], ho, fun name => by simp [aboutToOpen, hm']⟩

/-- An id without a record stays without one, and is not opened for but by the handler
that is about to. -/
theorem unstored_step {btId : String} (h : systemStep tbl s a = some t)
    (hnone : s.server.db btId = none) (ha : NotAccepted tbl btId s a) :
    t.server.db btId = none ∧ ∃ news, t.server.outcomes = news ++ s.server.outcomes ∧
      ∀ name, news.count (.opened btId name) + aboutToOpen t.server btId name =
        aboutToOpen s.server btId name := by
  have hserver : ∀ b, ¬ Accepts tbl btId b → serverStep tbl s.server b = some t.server →
      t.server.db btId = none := by
    intro b hb ht
    by_contra hsome
    exact hb (stored_by_step ht hnone hsome)
  rcases server_by_step h with hsame | ⟨b, calls, rfl, -, hb⟩ | ⟨m, msg, -, -, -, -, hb⟩
  · rw [hsame]
    exact ⟨hnone, [], rfl, fun name => Nat.zero_add _⟩
  · exact ⟨hserver b (ha b calls rfl) hb, unstored_serverStep hb hnone⟩
  · have hmsg : ¬ Accepts tbl btId (.mqttMessage msg) := by
      rintro ⟨message, data, deletable, name, heq, -⟩
      cases heq
    exact ⟨hserver _ hmsg hb, unstored_serverStep hb hnone⟩

/-- **Removal revokes.** After the owner has removed a device, in every run in
which it is not accepted again, its record stays away, and `open_door` is called for
it no more, whatever reports of it are still on the way: but for the one call that
the handler of a report was about to make when the button was pressed. -/
theorem removed_not_opened {addr : BdAddr} {message : ℕ} {deletable : Bool}
    {calls : List PublishCall}
    (hremove : systemStep tbl s
      (.server (.press message (Button.remove addr).data deletable) calls) = some t)
    (has : Along (systemStep tbl) (NotAccepted tbl (deviceId addr)) t as)
    (hrun : run (systemStep tbl) t as = some u) :
    u.server.db (deviceId addr) = none ∧
      ∃ news, u.server.outcomes = news ++ s.server.outcomes ∧
        ∀ name, news.count (.opened (deviceId addr) name) +
          aboutToOpen u.server (deviceId addr) name =
            aboutToOpen s.server (deviceId addr) name := by
  have hfits : (Button.remove addr).Fits tbl := trivial
  have hstart : t.server.db (deviceId addr) = none ∧
      ∃ news, t.server.outcomes = news ++ s.server.outcomes ∧
        ∀ name, news.count (.opened (deviceId addr) name) +
          aboutToOpen t.server (deviceId addr) name =
            aboutToOpen s.server (deviceId addr) name := by
    rw [handler_of_press (server_of_step hremove)]
    constructor
    · rw [callbackHandler_db tbl s.server message hfits, Button.write, removeDevice_eq,
        Function.update_self]
    · exact (quiet_callbackHandler tbl s.server message (Button.remove addr).data
        deletable).opens_nothing (deviceId addr)
  refine run_inv_of_along (P := fun v => v.server.db (deviceId addr) = none ∧
    ∃ news, v.server.outcomes = news ++ s.server.outcomes ∧
      ∀ name, news.count (.opened (deviceId addr) name) +
        aboutToOpen v.server (deviceId addr) name =
          aboutToOpen s.server (deviceId addr) name) ?_ hstart has hrun
  rintro v a w ⟨hnone, news, hnews, hopens⟩ ha hw
  obtain ⟨hgone, more, hmore, hopens'⟩ := unstored_step hw hnone ha
  refine ⟨hgone, more ++ news, ?_, fun name => ?_⟩
  · rw [hmore, hnews, List.append_assoc]
  · have hbefore := hopens name
    have hnow := hopens' name
    rw [List.count_append]
    omega

end

/-! ## Ann, registered, let in and removed -/

theorem ann_stored : ∃ u,
    run (serverStep asciiTable) emptyServer
        (registration emptyServer host "Ann" 3 60 5 true true) = some u ∧
      u.db (deviceId host) = some { name := "Ann" } ∧ u.now = 68 ∧ u.messages = [] := by
  obtain ⟨u, hu, hdb, -, -, -, hnow, -, hms⟩ :=
    @registration_stores asciiTable emptyServer host "Ann" 3 60 5 true true rfl rfl rfl
      (by decide) (by decide)
  refine ⟨u, hu, ?_, hnow, hms rfl rfl⟩
  rw [hdb, Function.update_self]

/-- The host is heard, and the door comes to its entry. -/
def heardRun : List SystemAct :=
  [.door (.elapse 1000) true, .door .next true, .door .next true,
    .door (.btEvent (.scanReport (-40) host) fun _ => 0) true] ++
    List.replicate 11 (.door .next true)

/-- The host is found, and the owner comes to its settings. -/
def settingsRun : List SystemAct :=
  heardRun ++ [.door .next true, .toServer (DoorPayload.device host).message,
    .server (.listDevices [deviceId host]) [],
    .server (.press 0 (Button.device host).data false) [], .server .deviceSettings []]

/-- The owner removes the host before its name is read, or after that. -/
theorem settingsRun_removed :
    ((run (systemStep asciiTable) (house {}) settingsRun).bind fun s =>
      (systemStep asciiTable s (.server (.press 1 (Button.remove host).data true) [])).bind fun t =>
        (run (systemStep asciiTable) t [.server .mqttName []]).map fun u =>
          (s.server.mqtt, u.server.mqtt)) = some (.found (deviceId host), .idle) ∧
    ((run (systemStep asciiTable) (house {}) (settingsRun ++ [.server .mqttName []])).bind
      fun s => (systemStep asciiTable s
        (.server (.press 1 (Button.remove host).data true) [])).bind fun t =>
          (run (systemStep asciiTable) t [.server .mqttOpen [⟨0, true⟩]]).map fun u =>
            (s.server.mqtt, u.server.mqtt)) = some (.named (deviceId host) "Ann", .idle) := by
  decide +kernel

theorem notAccepted_of_mqtt {b : ServerAct} {calls : List PublishCall} {s : System}
    (hb : ∀ message data deletable, b ≠ .press message data deletable) :
    Along (systemStep asciiTable) (NotAccepted asciiTable (deviceId host)) s
      [.server b calls] := by
  refine along_of_mem fun a ha v b' calls' heq => ?_
  obtain rfl := List.mem_singleton.mp ha
  obtain ⟨rfl, -⟩ := SystemAct.server.inj heq
  rintro ⟨message, data, deletable, name, hpress, -⟩
  exact hb message data deletable hpress

theorem ann_removed :
    (∃ s t u, systemStep asciiTable s (.server (.press 1 (Button.remove host).data true) []) =
        some t ∧ run (systemStep asciiTable) t [.server .mqttName []] = some u ∧
      u.server.db (deviceId host) = none ∧ ∃ news, u.server.outcomes = news ++ s.server.outcomes ∧
        news.count (.opened (deviceId host) "Ann") = 0) ∧
    ∃ s t u, systemStep asciiTable s (.server (.press 1 (Button.remove host).data true) []) =
        some t ∧ run (systemStep asciiTable) t [.server .mqttOpen [⟨0, true⟩]] = some u ∧
      u.server.db (deviceId host) = none ∧ ∃ news, u.server.outcomes = news ++ s.server.outcomes ∧
        news.count (.opened (deviceId host) "Ann") = 1 := by
  constructor
  · obtain ⟨s, -, h⟩ := Option.bind_eq_some_iff.mp settingsRun_removed.1
    obtain ⟨t, ht, h⟩ := Option.bind_eq_some_iff.mp h
    obtain ⟨u, hu, hmqtt⟩ := Option.map_eq_some_iff.mp h
    obtain ⟨hfound, hidle⟩ := Prod.mk.inj hmqtt
    obtain ⟨hgone, news, hnews, hcount⟩ := removed_not_opened ht
      (notAccepted_of_mqtt fun _ _ _ heq => by cases heq) hu
    have hann := hcount "Ann"
    simp only [aboutToOpen, hfound, hidle, reduceCtorEq, if_false, Nat.add_zero] at hann
    exact ⟨s, t, u, ht, hu, hgone, news, hnews, hann⟩
  · obtain ⟨s, -, h⟩ := Option.bind_eq_some_iff.mp settingsRun_removed.2
    obtain ⟨t, ht, h⟩ := Option.bind_eq_some_iff.mp h
    obtain ⟨u, hu, hmqtt⟩ := Option.map_eq_some_iff.mp h
    obtain ⟨hread, hidle⟩ := Prod.mk.inj hmqtt
    obtain ⟨hgone, news, hnews, hcount⟩ := removed_not_opened ht
      (notAccepted_of_mqtt fun _ _ _ heq => by cases heq) hu
    have hann := hcount "Ann"
    simp only [aboutToOpen, hread, hidle, reduceCtorEq, if_false, if_true, Nat.add_zero] at hann
    exact ⟨s, t, u, ht, hu, hgone, news, hnews, hann⟩

end SmartDoorLock
