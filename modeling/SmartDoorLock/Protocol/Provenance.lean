import SmartDoorLock.Protocol.Authorisation
import SmartDoorLock.Server.Naming

/-!
# Where a record comes from

A record is made by one press, but the press is the last link of a dialogue: the
button was shown with the confirmation of a name, the name was sent while the
device was the last one waiting, the device waited because the owner had pressed
`Add device`, and that was offered because the door had reported it and the
server had no live record of it. Buttons stay on display, the owner may press
them in any order and more than once, and the last will of the door is taken for
an address; none of it makes a record under an address in another way.
-/

namespace SmartDoorLock

open CText Machine Words WrapClock

/-! ## What is on display -/

/-- A message with the text shows a button. -/
def Offered (s : ServerState) (shown : Shown) (data : String) : Prop :=
  ∃ m ∈ s.messages, m.shown = shown ∧ data ∈ m.keyboard.flatten

/-- The step shows a message with the text and the button. -/
inductive Displays (tbl : CharTable) (s : ServerState) (data : String) :
    Shown → ServerAct → Prop where
  | prompt (msg : String) (hconn : startswith msg "connected" = false)
      (hgone : live s.now (s.db msg) = none) (hdata : data ∈ (getNewDeviceKb msg).flatten) :
      Displays tbl s data (.newDevice msg) (.mqttMessage msg)
  | chosen (btId name : String) (hlast : s.deviceWhitForSave.getLast? = some btId)
      (hname : isalnum tbl name = true) (hdata : data ∈ (chosenNameKb btId name).flatten) :
      Displays tbl s data (.chosen btId name) (.text name)
  | settings (btId name : String) (until? : Option ℕ)
      (hdata : data ∈ (deviceSettingsKb btId).flatten) :
      Displays tbl s data (.settings btId name until?) .deviceSettings
  | devices (ids : List String) (items : List (Option (String × Option ℕ)))
      (hids : ∀ btId ∈ ids, s.db btId ≠ none) (hdata : data ∈ ids) :
      Displays tbl s data (.devices items) (.listDevices ids)

section

variable {tbl : CharTable} {s t : ServerState}

theorem Offered.of_delete {message : ℕ} {deletable : Bool} {shown : Shown} {data : String}
    (h : Offered (deleteMessage s message deletable) shown data) : Offered s shown data := by
  obtain ⟨m, hm, hdata⟩ := h
  unfold deleteMessage at hm
  split at hm
  · exact ⟨m, List.mem_of_mem_eraseIdx hm, hdata⟩
  · exact ⟨m, hm, hdata⟩

theorem Offered.of_show {messages : List Message} {shown shown' : Shown}
    {keyboard : List (List String)} {data : String}
    (h : ∃ m ∈ messages ++ [⟨shown', keyboard⟩], m.shown = shown ∧ data ∈ m.keyboard.flatten) :
    (∃ m ∈ messages, m.shown = shown ∧ data ∈ m.keyboard.flatten) ∨
      (shown' = shown ∧ data ∈ keyboard.flatten) := by
  obtain ⟨m, hm, hdata⟩ := h
  rcases List.mem_append.mp hm with hold | hnew
  · exact Or.inl ⟨m, hold, hdata⟩
  · obtain rfl := List.mem_singleton.mp hnew
    exact Or.inr hdata

/-- A press shows no new button. -/
theorem offered_callbackHandler {message : ℕ} {pressed data : String} {deletable : Bool}
    {shown : Shown} (h : Offered (callbackHandler tbl s message pressed deletable) shown data) :
    Offered s shown data := by
  unfold callbackHandler at h
  split at h
  · exact h
  · exact h.of_delete
  · obtain ⟨m, hm, hshown, hdata⟩ := h
    -- the message whose first row is taken away, or another one
    obtain ⟨j, hj⟩ := List.mem_iff_getElem?.mp hm
    rw [List.getElem?_modify, Option.map_eq_map, Option.map_eq_some_iff] at hj
    obtain ⟨m', hm', rfl⟩ := hj
    refine ⟨m', List.mem_of_getElem? hm', ?_⟩
    split at hdata
    · rename_i heq
      rw [if_pos heq] at hshown
      obtain ⟨row, hrow, hdata⟩ := List.mem_flatten.mp hdata
      exact ⟨hshown, List.mem_flatten.mpr ⟨row, List.mem_of_mem_tail hrow, hdata⟩⟩
    · rename_i hne
      rw [if_neg hne] at hshown
      exact ⟨hshown, hdata⟩
  · exact h.of_delete
  · exact h.of_delete
  · exact h.of_delete
  · split at h
    · exact h.of_delete
    · exact h
  · split at h
    · exact h
    · exact h.of_delete

/-- **A button is shown** by a step that shows a message with it. -/
theorem offered_by_step {a : ServerAct} {shown : Shown} {data : String}
    (ht : serverStep tbl s a = some t) (h : Offered t shown data) :
    Offered s shown data ∨ Displays tbl s data shown a := by
  cases serverStep_cases ht with
  | wait d => exact Or.inl h
  | mqttMessage msg hidle =>
      unfold mqttLookup at h
      split at h
      · exact Or.inl h
      · rename_i hconn
        split at h
        · exact Or.inl h
        · rw [getBtDevice_eq] at h
          cases hlive : live s.now (s.db msg) with
          | some device =>
              rw [hlive] at h
              exact Or.inl h
          | none =>
              rw [hlive] at h
              refine (Offered.of_show h).imp id ?_
              rintro ⟨rfl, hdata⟩
              exact .prompt msg (Bool.eq_false_iff.mpr hconn) hlive hdata
  | mqttName msg hfound =>
      unfold mqttName at h
      split at h <;> exact Or.inl h
  | mqttOpen msg name hnamed => exact Or.inl h
  | press message pressed deletable m hidle hm hpressed => exact Or.inl (offered_callbackHandler h)
  | deviceSettings btId message deletable hbot =>
      unfold deviceSettings at h
      split at h
      · refine (Offered.of_show h.of_delete).imp id ?_
        rintro ⟨rfl, hdata⟩
        exact .settings btId _ _ hdata
      · exact Or.inl h
  | text text hidle =>
      unfold getDeviceName at h
      split at h
      · exact Or.inl h
      · split at h
        · exact Or.inl h
        · rename_i btId hlast
          split at h
          · rename_i hname
            refine (Offered.of_show h).imp id ?_
            rintro ⟨rfl, hdata⟩
            exact .chosen btId text hlast hname hdata
          · exact Or.inl h
  | listDevices ids hidle hids =>
      refine (Offered.of_show h).imp id ?_
      rintro ⟨rfl, hdata⟩
      rw [listDevicesKb_flatten] at hdata
      refine .devices ids _ (fun btId hbt hnone => ?_) hdata
      have hlisted := listed_of_perm hids btId hbt
      rw [listDevices_eq, hnone] at hlisted
      cases hlisted

/-! ## What waits for a name, and what is named -/

/-- A press of a button of a message on display, which is read as the callback. -/
def Presses (tbl : CharTable) (s : ServerState) (a : ServerAct) (c : Callback) : Prop :=
  ∃ message data deletable m, a = .press message data deletable ∧
    s.messages[message]? = some m ∧ data ∈ m.keyboard.flatten ∧ callbackOf tbl data = .ok c

theorem presses_of_press {message : ℕ} {data : String} {deletable : Bool} {c : Callback}
    (ht : serverStep tbl s (.press message data deletable) = some t)
    (hdata : callbackOf tbl data = .ok c) :
    Presses tbl s (.press message data deletable) c := by
  cases serverStep_cases ht with
  | press message data deletable m hidle hm hmem =>
      exact ⟨message, data, deletable, m, rfl, hm, hmem, hdata⟩

/-- **An id waits** since the owner pressed the button that adds it. -/
theorem waiting_by_step {a : ServerAct} {btId : String} (ht : serverStep tbl s a = some t)
    (h : btId ∈ t.deviceWhitForSave) :
    btId ∈ s.deviceWhitForSave ∨ Presses tbl s a (.add btId) := by
  cases waiting_step ht with
  | kept a t hsame hpress htext => exact Or.inl (hsame ▸ h)
  | added message data deletable key t hadd hpush =>
      rw [hpush] at h
      rcases List.mem_append.mp h with hold | hnew
      · exact Or.inl hold
      · rw [List.mem_singleton.mp hnew]
        exact Or.inr (presses_of_press ht hadd)
  | named key text t hpop hshown =>
      rw [hpop]
      exact Or.inl (List.mem_append_left _ h)

/-- **A record gets its name** by the press of the button with the name. -/
theorem named_by_press {a : ServerAct} {btId name : String} (ht : serverStep tbl s a = some t)
    (h : Named t btId name) : Named s btId name ∨ Presses tbl s a (.new btId name) := by
  refine (named_by_step ht h).imp id ?_
  rintro ⟨message, data, deletable, rfl, hnew⟩
  exact presses_of_press ht hnew

/-! ## Which step shows a button -/

theorem split_of_add {data btId : String} (h : callbackOf tbl data = .ok (.add btId)) :
    startswith data "add" = true ∧ (split data).getLast? = some btId := by
  unfold callbackOf at h
  repeat' split at h
  all_goals cases h
  rename_i hadd _ hlast
  exact ⟨hadd, hlast⟩

theorem isWord_of_add {data btId : String} (h : callbackOf tbl data = .ok (.add btId)) :
    IsWord isspace btId.toList :=
  isWord_of_mem_split (List.mem_of_getLast? (split_of_add h).2)

/-- The buttons of the settings add nothing and store nothing. -/
theorem settings_plain {data btId : String} (h : data ∈ (deviceSettingsKb btId).flatten) :
    startswith data "add" = false ∧ startswith data "new" = false := by
  simp only [deviceSettingsKb, List.flatten_cons, List.flatten_nil, List.cons_append,
    List.nil_append, List.append_nil, List.mem_cons, List.not_mem_nil, or_false] at h
  have hremove : ∀ q d, q.toList.head? = some d → d ≠ 'r' →
      startswith ("remove " ++ btId) q = false := fun q d hq hne =>
    startswith_append_of_head (c := 'r') (by decide) hq hne _
  have huntil : ∀ p : String, p.toList.head? = some 'u' → ∀ q d, q.toList.head? = some d →
      d ≠ 'u' → startswith (p ++ btId) q = false := fun p hp q d hq hne =>
    startswith_append_of_head hp hq hne _
  rcases h with rfl | rfl | rfl | rfl | rfl
  · exact ⟨hremove "add" 'a' (by decide) (by decide), hremove "new" 'n' (by decide) (by decide)⟩
  all_goals
    exact ⟨huntil _ (by decide) "add" 'a' (by decide) (by decide),
      huntil _ (by decide) "new" 'n' (by decide) (by decide)⟩

theorem not_new_of_add (btId : String) : startswith ("add: " ++ btId) "new" = false :=
  startswith_append_of_head (c := 'a') (d := 'n') (by decide) (by decide) (by decide) _

theorem not_add_of_new (btId name : String) :
    startswith ("new " ++ btId ++ " " ++ name) "add" = false := by
  rw [String.append_assoc, String.append_assoc]
  exact startswith_append_of_head (c := 'n') (d := 'a') (by decide) (by decide) (by decide) _

theorem split_add {btId : String} (hword : IsWord isspace btId.toList) :
    split ("add: " ++ btId) = ["add:", btId] := by
  rw [split_keyword (isWord_literal (s := "add:") (by decide)) (by decide), split_word hword]

theorem split_new {btId name : String} (hword : IsWord isspace btId.toList)
    (hname : isalnum tbl name = true) :
    split ("new " ++ btId ++ " " ++ name) = ["new", btId, name] := by
  have hassoc : "new " ++ btId ++ " " ++ name = "new " ++ (btId ++ " " ++ name) := by
    simp only [String.append_assoc]
  rw [hassoc, split_keyword (isWord_literal (s := "new") (by decide)) (by decide),
    split_cons hword, split_word (isalnum_word hname)]

/-- What a message from the door may be, but for its announcement. -/
def FromBroker (a : ServerAct) : Prop :=
  ∀ msg, a = .mqttMessage msg → startswith msg "connected" = false →
    (∃ addr, msg = deviceId addr) ∨ msg = asciiText LWT

/-- **A button that adds an address** comes with the question about it, or with
the confirmation of a name for it. -/
theorem add_of_displays {a : ServerAct} {shown : Shown} {data : String} {addr : BdAddr}
    (h : Displays tbl s data shown a)
    (hcallback : callbackOf tbl data = .ok (.add (deviceId addr)))
    (hfrom : FromBroker a) (hwaiting : ∀ id ∈ s.deviceWhitForSave, IsWord isspace id.toList)
    (hkeys : ∀ key, s.db key ≠ none → IsWord isspace key.toList) :
    (a = .mqttMessage (deviceId addr) ∧ live s.now (s.db (deviceId addr)) = none ∧
        shown = .newDevice (deviceId addr)) ∨
      (deviceId addr ∈ s.deviceWhitForSave ∧ ∃ name, shown = .chosen (deviceId addr) name) := by
  obtain ⟨hadd, hlast⟩ := split_of_add hcallback
  cases h with
  | prompt msg hconn hgone hdata =>
      simp only [getNewDeviceKb, List.flatten_cons, List.flatten_nil, List.cons_append,
        List.nil_append, List.mem_cons, List.not_mem_nil, or_false] at hdata
      rcases hdata with rfl | rfl | rfl
      · exact absurd hadd (by decide)
      · exact absurd hadd (by decide)
      · rcases hfrom msg rfl hconn with ⟨addr', rfl⟩ | rfl
        · rw [split_add (deviceId_word addr')] at hlast
          have haddr : deviceId addr' = deviceId addr := Option.some.inj hlast
          rw [haddr] at hgone ⊢
          exact Or.inl ⟨rfl, hgone, rfl⟩
        · -- the last word of the last will is no address
          have hwill : (split ("add: " ++ asciiText LWT)).getLast? = some "\x7d" := by decide
          rw [hwill] at hlast
          have hstart := @startswith_deviceText addr '\x7d' [] (by decide)
          rw [← deviceId, ← Option.some.inj hlast] at hstart
          exact absurd hstart (by decide)
  | chosen btId name hid hname hdata =>
      simp only [chosenNameKb, List.flatten_cons, List.flatten_nil, List.cons_append,
        List.nil_append, List.mem_cons, List.not_mem_nil, or_false] at hdata
      have hmem := List.mem_of_getLast? hid
      rcases hdata with rfl | rfl | rfl
      · exact absurd hadd (by decide)
      · rw [not_add_of_new] at hadd
        cases hadd
      · rw [split_add (hwaiting btId hmem)] at hlast
        obtain rfl : btId = deviceId addr := Option.some.inj hlast
        exact Or.inr ⟨hmem, name, rfl⟩
  | settings btId name until? hdata =>
      rw [(settings_plain hdata).1] at hadd
      cases hadd
  | devices ids items hids hdata =>
      rw [split_word (hkeys data (hids data hdata))] at hlast
      obtain rfl : data = deviceId addr := Option.some.inj hlast
      exact absurd hadd (Bool.eq_false_iff.mp (startswith_deviceText addr (by decide)))

/-- **A button that stores a name for an address** comes with the confirmation of
the name, for the last id waiting. -/
theorem new_of_displays {a : ServerAct} {shown : Shown} {data name : String} {addr : BdAddr}
    (h : Displays tbl s data shown a)
    (hcallback : callbackOf tbl data = .ok (.new (deviceId addr) name))
    (hwaiting : ∀ id ∈ s.deviceWhitForSave, IsWord isspace id.toList)
    (hkeys : ∀ key, s.db key ≠ none → IsWord isspace key.toList) :
    a = .text name ∧ isalnum tbl name = true ∧
      s.deviceWhitForSave.getLast? = some (deviceId addr) ∧
      shown = .chosen (deviceId addr) name := by
  obtain ⟨hnew, hdrop⟩ := split_of_new hcallback
  cases h with
  | prompt msg hconn hgone hdata =>
      simp only [getNewDeviceKb, List.flatten_cons, List.flatten_nil, List.cons_append,
        List.nil_append, List.mem_cons, List.not_mem_nil, or_false] at hdata
      rcases hdata with rfl | rfl | rfl
      · exact absurd hnew (by decide)
      · exact absurd hnew (by decide)
      · rw [not_new_of_add] at hnew
        cases hnew
  | chosen btId name' hid hname hdata =>
      simp only [chosenNameKb, List.flatten_cons, List.flatten_nil, List.cons_append,
        List.nil_append, List.mem_cons, List.not_mem_nil, or_false] at hdata
      rcases hdata with rfl | rfl | rfl
      · exact absurd hnew (by decide)
      · rw [split_new (hwaiting btId (List.mem_of_getLast? hid)) hname] at hdrop
        have hpair : [btId, name'] = [deviceId addr, name] := hdrop
        obtain ⟨rfl, hrest⟩ := List.cons.inj hpair
        obtain ⟨rfl, -⟩ := List.cons.inj hrest
        exact ⟨rfl, hname, hid, rfl⟩
      · rw [not_new_of_add] at hnew
        cases hnew
  | settings btId name' until? hdata =>
      rw [(settings_plain hdata).2] at hnew
      cases hnew
  | devices ids items hids hdata =>
      rw [split_word (hkeys data (hids data hdata))] at hdrop
      cases hdrop

end

/-! ## The chain -/

/-- As `Booted`, with nothing on display and no id waiting. -/
structure Started (s : System) : Prop extends Booted s where
  messages : s.server.messages = []
  waiting : s.server.deviceWhitForSave = []

section

variable (tbl : CharTable) (s : System)

/-- The server is asked for the address, which the door has published, and asks
the owner. -/
def PromptedAt (addr : BdAddr) (pre : List SystemAct) (v : System) (a : SystemAct) : Prop :=
  a = .toServer (DoorPayload.device addr).message ∧
    live v.server.now (v.server.db (deviceId addr)) = none ∧ Before tbl s (HandedAt tbl s addr) pre

/-- The owner presses the button that adds the device: `Add device` under the question
about it, or `Edit` under the confirmation of a name for it. -/
def AddedAt (addr : BdAddr) (pre : List SystemAct) (v : System) (a : SystemAct) : Prop :=
  ∃ message data deletable calls m, a = .server (.press message data deletable) calls ∧
    v.server.messages[message]? = some m ∧ data ∈ m.keyboard.flatten ∧
    (m.shown = .newDevice (deviceId addr) ∨ ∃ name, m.shown = .chosen (deviceId addr) name) ∧
    callbackOf tbl data = .ok (.add (deviceId addr)) ∧ Before tbl s (PromptedAt tbl s addr) pre

/-- The owner sends the name, and the address is the last one waiting. -/
def NamedAt (addr : BdAddr) (name : String) (pre : List SystemAct) (v : System) (a : SystemAct) :
    Prop :=
  (∃ calls, a = .server (.text name) calls) ∧ isalnum tbl name = true ∧
    v.server.deviceWhitForSave.getLast? = some (deviceId addr) ∧
    Before tbl s (AddedAt tbl s addr) pre

/-- The owner presses the button that stores the name, under its confirmation. -/
def StoredAt (addr : BdAddr) (name : String) (pre : List SystemAct) (v : System) (a : SystemAct) :
    Prop :=
  ∃ message data deletable calls m, a = .server (.press message data deletable) calls ∧
    v.server.messages[message]? = some m ∧ data ∈ m.keyboard.flatten ∧
    m.shown = .chosen (deviceId addr) name ∧
    callbackOf tbl data = .ok (.new (deviceId addr) name) ∧
    Before tbl s (NamedAt tbl s addr name) pre

end

/-- The server makes the step, by itself or for a message. -/
inductive Performs (v : System) : SystemAct → ServerAct → Prop where
  | alone (b : ServerAct) (calls : List PublishCall) (hmsg : b.isMessage = false) :
      Performs v (.server b calls) b
  | message (m : MqttMessage) (msg : String) (hm : m ∈ v.published)
      (htopic : m.topicName = topicSubscribe) (hdecode : decode m.payload = some msg) :
      Performs v (.toServer m) (.mqttMessage msg)

section

variable {tbl : CharTable} {s t u : System} {as : List SystemAct}

theorem performs_of_step {a : SystemAct} (h : systemStep tbl s a = some t) :
    t.server = s.server ∨ ∃ b, Performs s a b ∧ serverStep tbl s.server b = some t.server := by
  rcases server_by_step h with hsame | ⟨b, calls, rfl, hmsg, hb⟩ |
    ⟨m, msg, rfl, hm, htopic, hdecode, hb⟩
  · exact Or.inl hsame
  · exact Or.inr ⟨b, .alone b calls hmsg, hb⟩
  · exact Or.inr ⟨_, .message m msg hm htopic hdecode, hb⟩

theorem Performs.press {v : System} {a : SystemAct} {message : ℕ} {data : String}
    {deletable : Bool} (h : Performs v a (.press message data deletable)) :
    ∃ calls, a = .server (.press message data deletable) calls := by
  cases h with
  | alone b calls hmsg => exact ⟨calls, rfl⟩

theorem Performs.text {v : System} {a : SystemAct} {name : String} (h : Performs v a (.text name)) :
    ∃ calls, a = .server (.text name) calls := by
  cases h with
  | alone b calls hmsg => exact ⟨calls, rfl⟩

theorem fromBroker (hs : Booted s) (hrun : run (systemStep tbl) s as = some u) {a : SystemAct}
    {b : ServerAct} (h : Performs u a b) : FromBroker b := by
  rintro msg rfl hconn
  cases h with
  | alone b calls hmsg => cases hmsg
  | message m msg hm htopic hdecode =>
      rcases text_of_published hs hrun hm htopic hdecode with rfl | ⟨addr, rfl, -⟩ | rfl
      · exact absurd hconn (by decide)
      · exact Or.inl ⟨addr, rfl⟩
      · exact Or.inr rfl

theorem asked_for_address (hs : Booted s) (hrun : run (systemStep tbl) s as = some u)
    {a : SystemAct} {addr : BdAddr} (h : Performs u a (.mqttMessage (deviceId addr))) :
    a = .toServer (DoorPayload.device addr).message ∧ Before tbl s (HandedAt tbl s addr) as := by
  cases h with
  | alone b calls hmsg => cases hmsg
  | message m msg hm htopic hdecode =>
      rcases text_of_published hs hrun hm htopic hdecode with hconn | ⟨addr', haddr, rfl⟩ | hwill
      · have hstart := @startswith_deviceText addr 'c' "onnected".toList (by decide)
        rw [← deviceId, hconn] at hstart
        exact absurd hstart (by decide)
      · obtain rfl := deviceId_injective haddr
        exact ⟨rfl, handed_of_published hs hrun hm⟩
      · have hword := deviceId_word addr
        rw [hwill] at hword
        exact absurd hword lastWill_not_word

theorem offered_before (hs : Started s) (hrun : run (systemStep tbl) s as = some u)
    {shown : Shown} {data : String} (h : Offered u.server shown data) :
    Before tbl s (fun _ v a => ∃ b, Performs v a b ∧ Displays tbl v.server data shown b) as := by
  refine earlier_of_becomes (P := fun v => Offered v.server shown data) ?_ h hrun ?_
  · rintro ⟨m, hm, -⟩
    rw [hs.messages] at hm
    cases hm
  · intro pre v a w _ hw hnot hoff
    rcases performs_of_step hw with hsame | ⟨b, hperf, hb⟩
    · rw [hsame] at hoff
      exact absurd hoff hnot
    · exact ⟨b, hperf, (offered_by_step hb hoff).resolve_left hnot⟩

theorem waiting_before (hs : Started s) (hrun : run (systemStep tbl) s as = some u) {btId : String}
    (h : btId ∈ u.server.deviceWhitForSave) :
    Before tbl s (fun _ v a => ∃ b, Performs v a b ∧ Presses tbl v.server b (.add btId)) as := by
  refine earlier_of_becomes (P := fun v => btId ∈ v.server.deviceWhitForSave) ?_ h hrun ?_
  · rw [hs.waiting]
    exact List.not_mem_nil
  · intro pre v a w _ hw hnot hmem
    rcases performs_of_step hw with hsame | ⟨b, hperf, hb⟩
    · rw [hsame] at hmem
      exact absurd hmem hnot
    · exact ⟨b, hperf, (waiting_by_step hb hmem).resolve_left hnot⟩

theorem waiting_words (hs : Started s) (hrun : run (systemStep tbl) s as = some u) :
    ∀ btId ∈ u.server.deviceWhitForSave, IsWord isspace btId.toList := by
  intro btId hmem
  obtain ⟨-, -, -, -, -, -, -, -, -, data, -, -, -, -, -, hadd⟩ := waiting_before hs hrun hmem
  exact isWord_of_add hadd

/-- By induction on the run: a confirmation that offers the address again shows an
id that was added before. -/
theorem prompted_before (hs : Started s) {addr : BdAddr} {shown : Shown} {data : String}
    (hrun : run (systemStep tbl) s as = some u) (h : Offered u.server shown data)
    (hadd : callbackOf tbl data = .ok (.add (deviceId addr))) :
    (shown = .newDevice (deviceId addr) ∨ ∃ name, shown = .chosen (deviceId addr) name) ∧
      Before tbl s (PromptedAt tbl s addr) as := by
  induction hlen : as.length using Nat.strong_induction_on generalizing as u shown data with
  | _ n ih =>
      obtain ⟨pre, a, post, v, rfl, hv, b, hperf, hdisp⟩ := offered_before hs hrun h
      rcases add_of_displays hdisp hadd (fromBroker hs.toBooted hv hperf) (waiting_words hs hv)
        (keys_are_words hs.toBooted hv) with ⟨rfl, hgone, hshown⟩ | ⟨hwait, hshown⟩
      · obtain ⟨ha, hhanded⟩ := asked_for_address hs.toBooted hv hperf
        exact ⟨Or.inl hshown, pre, a, post, v, rfl, hv, ha, hgone, hhanded⟩
      · obtain ⟨pre', a', post', v', rfl, hv', b', -, message, data', deletable, m, -, hm, hdata,
          hadd'⟩ := waiting_before hs hv hwait
        have hshort : pre'.length < n := by
          rw [← hlen]
          simp only [List.length_append, List.length_cons]
          omega
        have hoff : Offered v'.server m.shown data' := ⟨m, List.mem_of_getElem? hm, rfl, hdata⟩
        obtain ⟨-, hprompted⟩ := ih _ hshort hv' hoff hadd' rfl
        exact ⟨Or.inr hshown, (hprompted.append _).append _⟩

theorem added_before (hs : Started s) {addr : BdAddr} (hrun : run (systemStep tbl) s as = some u)
    (h : deviceId addr ∈ u.server.deviceWhitForSave) : Before tbl s (AddedAt tbl s addr) as := by
  refine (waiting_before hs hrun h).mono ?_
  rintro pre v a hv ⟨b, hperf, message, data, deletable, m, rfl, hm, hdata, hadd⟩
  obtain ⟨calls, rfl⟩ := hperf.press
  have hoff : Offered v.server m.shown data := ⟨m, List.mem_of_getElem? hm, rfl, hdata⟩
  obtain ⟨hshown, hprompted⟩ := prompted_before hs hv hoff hadd
  exact ⟨message, data, deletable, calls, m, rfl, hm, hdata, hshown, hadd, hprompted⟩

theorem confirmed_before (hs : Started s) {addr : BdAddr} {shown : Shown} {data name : String}
    (hrun : run (systemStep tbl) s as = some u) (h : Offered u.server shown data)
    (hnew : callbackOf tbl data = .ok (.new (deviceId addr) name)) :
    shown = .chosen (deviceId addr) name ∧ Before tbl s (NamedAt tbl s addr name) as := by
  obtain ⟨pre, a, post, v, hsplit, hv, b, hperf, hdisp⟩ := offered_before hs hrun h
  obtain ⟨rfl, hname, hlast, hshown⟩ :=
    new_of_displays hdisp hnew (waiting_words hs hv) (keys_are_words hs.toBooted hv)
  exact ⟨hshown, pre, a, post, v, hsplit, hv, hperf.text, hname, hlast,
    added_before hs hv (List.mem_of_getLast? hlast)⟩

/-- **Every record is traced.** In every run from the start, whatever is pressed,
sent or delivered and in whatever order: if an address has a record with a name
at the end, it had it from the start, or the owner has stored that name for it
under the message that confirms it, having sent the name while the address was the
last one waiting, having added it under a message about it when the server had asked
for it, which the door had heard from near and published. -/
theorem record_traced (hs : Started s) (hrun : run (systemStep tbl) s as = some u) {addr : BdAddr}
    {name : String} (h : Named u.server (deviceId addr) name) :
    Named s.server (deviceId addr) name ∨ Before tbl s (StoredAt tbl s addr name) as := by
  by_cases hstart : Named s.server (deviceId addr) name
  · exact Or.inl hstart
  · refine Or.inr (earlier_of_becomes (P := fun v => Named v.server (deviceId addr) name) hstart h
      hrun ?_)
    intro pre v a w hv hw hnot hnamed
    rcases performs_of_step hw with hsame | ⟨b, hperf, hb⟩
    · rw [hsame] at hnamed
      exact absurd hnamed hnot
    · obtain ⟨message, data, deletable, m, rfl, hm, hdata, hnew⟩ :=
        (named_by_press hb hnamed).resolve_left hnot
      obtain ⟨calls, rfl⟩ := hperf.press
      have hoff : Offered v.server m.shown data := ⟨m, List.mem_of_getElem? hm, rfl, hdata⟩
      obtain ⟨hshown, hconfirmed⟩ := confirmed_before hs hv hoff hnew
      exact ⟨message, data, deletable, calls, m, rfl, hm, hdata, hshown, hnew, hconfirmed⟩

end

/-! ## A device that is registered -/

/-- No device is known yet. -/
def newHouse (door : App) : System where
  server := emptyServer
  door := door

theorem started_newHouse : Started (newHouse {}) where
  idle := ⟨rfl, rfl, rfl, rfl⟩
  keys _ h := absurd rfl h
  door := rfl
  published := rfl
  messages := rfl
  waiting := rfl

/-- The host is heard and published, and the owner names and accepts it. -/
def welcomeRun : List SystemAct :=
  [.door (.elapse 1000) true, .door .next true, .door .next true,
    .door (.btEvent (.scanReport (-40) host) fun _ => 0) true] ++
  List.replicate 12 (.door .next true) ++
  [.toServer (DoorPayload.device host).message,
    .server (.press 0 (Button.add host).data true) [], .server (.text "Ann") [],
    .server (.press 0 (Button.new host "Ann").data true) []]

theorem welcomeRun_result :
    (run (systemStep asciiTable) (newHouse {}) welcomeRun).map
      (fun u => u.server.db (deviceId host)) = some (some { name := "Ann" }) := by
  decide +kernel

theorem welcomeRun_traced : ∃ u, run (systemStep asciiTable) (newHouse {}) welcomeRun = some u ∧
    Named u.server (deviceId host) "Ann" ∧
    Before asciiTable (newHouse {}) (StoredAt asciiTable (newHouse {}) host "Ann") welcomeRun := by
  obtain ⟨u, hu, hdb⟩ := Option.map_eq_some_iff.mp welcomeRun_result
  have hnamed : Named u.server (deviceId host) "Ann" := ⟨_, hdb, rfl⟩
  refine ⟨u, hu, hnamed, (record_traced started_newHouse hu hnamed).resolve_left ?_⟩
  rintro ⟨device, hdevice, -⟩
  cases hdevice

end SmartDoorLock
