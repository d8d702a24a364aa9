import SmartDoorLock.Protocol.DeviceSend
import SmartDoorLock.Server.Bot

/-!
# Buttons and what they do

Every button the bot shows was made for one purpose: to add, name, remove,
extend or show the device of an address, to ignore it, or to open the door.
`callback_handler` finds this purpose again in the text of the button, with the
address and the name it was made with, so a press changes no other record than
the one the button names.
-/

namespace SmartDoorLock

open CText Words

/-! ## The id of an address -/

/-- The text under which the server knows an address. -/
def deviceId (addr : BdAddr) : String := asciiText (deviceText addr)

theorem hexDigit_injective {m n : ℕ} (hm : m < 16) (hn : n < 16) (h : hexDigit m = hexDigit n) :
    m = n := by
  have hall : ∀ i j : Fin 16, hexDigit i = hexDigit j → i = j := by decide
  exact congrArg Fin.val (hall ⟨m, hm⟩ ⟨n, hn⟩ h)

theorem hex2_injective {a b : UInt8} (h : hex2 a = hex2 b) : a = b := by
  have ha : a.toNat < 256 := a.toNat_lt
  have hb : b.toNat < 256 := b.toNat_lt
  obtain ⟨hhigh, htail⟩ := List.cons.inj h
  have hlow := (List.cons.inj htail).1
  have hdiv : a.toNat / 16 = b.toNat / 16 := hexDigit_injective (by omega) (by omega) hhigh
  have hmod : a.toNat % 16 = b.toNat % 16 := hexDigit_injective (by omega) (by omega) hlow
  apply UInt8.toNat_inj.mp
  omega

/-- The two digits of byte `5 - k` stand at `3 * k`. -/
theorem deviceText_digits (addr : BdAddr) : ∀ k : Fin 6,
    ((deviceText addr).drop (3 * k.val)).take 2 = hex2 addr[5 - k.val]
  | 0 => rfl
  | 1 => rfl
  | 2 => rfl
  | 3 => rfl
  | 4 => rfl
  | 5 => rfl

theorem deviceText_injective {a b : BdAddr} (h : deviceText a = deviceText b) : a = b := by
  apply Vector.ext
  intro i hi
  have hdigits := deviceText_digits a ⟨5 - i, by omega⟩
  rw [h, deviceText_digits b] at hdigits
  have hidx : 5 - (5 - i) = i := by omega
  simp only [hidx] at hdigits
  exact (hex2_injective hdigits).symm

/-- **Distinct addresses have distinct ids.** -/
theorem deviceId_injective : Function.Injective deviceId := by
  intro a b h
  apply deviceText_injective
  have hbytes : ascii (deviceId a) = ascii (deviceId b) := by rw [h]
  rwa [deviceId, deviceId, ascii_asciiText fun _ hx => deviceText_ascii hx,
    ascii_asciiText fun _ hx => deviceText_ascii hx] at hbytes

theorem deviceId_word (addr : BdAddr) : IsWord isspace (deviceId addr).toList where
  ne_nil := by
    rw [deviceId, asciiText, String.toList_ofList]
    intro h
    have hnil : deviceText addr = [] := List.map_eq_nil_iff.mp h
    cases hnil
  no_sep c hc := by
    obtain ⟨b, hb, rfl⟩ := mem_asciiText hc
    have hlow : 48 ≤ b.toNat := (deviceText_range hb).1
    have hhigh : b.toNat ≤ 70 := (deviceText_range hb).2
    have hchar : (Char.ofNat b.toNat).toNat = b.toNat := asciiChar_toNat (deviceText_ascii hb)
    simp only [isspace, hchar, Bool.or_eq_false_iff, Bool.and_eq_false_iff,
      decide_eq_false_iff_not, beq_eq_false_iff_ne]
    omega

theorem isalnum_word {tbl : CharTable} {name : String} (h : isalnum tbl name = true) :
    IsWord isspace name.toList := by
  simp only [isalnum, Bool.and_eq_true, Bool.not_eq_true', List.isEmpty_eq_false_iff] at h
  exact ⟨h.1, fun c hc => tbl.alnum_not_space c (List.all_eq_true.mp h.2 c hc)⟩

/-! ## Words of a button text -/

theorem split_word {w : String} (hw : IsWord isspace w.toList) : split w = [w] := by
  rw [split, words_word hw, List.map_singleton, String.ofList_toList]

theorem split_cons {w : String} (hw : IsWord isspace w.toList) (rest : String) :
    split (w ++ " " ++ rest) = w :: split rest := by
  have hchars : (w ++ " " ++ rest).toList = w.toList ++ ' ' :: rest.toList := by
    simp [String.toList_append]
  rw [split, hchars, words_cons hw rfl, List.map_cons, String.ofList_toList, split]

/-! ## Purposes -/

/-- What a button is made for. -/
inductive Button where
  | ignore
  | openDoor
  | add (addr : BdAddr)
  | new (addr : BdAddr) (name : String)
  | remove (addr : BdAddr)
  | until (days : ℕ) (addr : BdAddr)
  | device (addr : BdAddr)
deriving DecidableEq, Repr

/-- The text made for it. -/
def Button.data : Button → String
  | .ignore => "ignore"
  | .openDoor => "open"
  | .add addr => "add: " ++ deviceId addr
  | .new addr name => "new " ++ deviceId addr ++ " " ++ name
  | .remove addr => "remove " ++ deviceId addr
  | .until days addr => "until " ++ toString days ++ " " ++ deviceId addr
  | .device addr => deviceId addr

/-- The branch it was made for. -/
def Button.callback : Button → Callback
  | .ignore => .ignore
  | .openDoor => .openDoor
  | .add addr => .add (deviceId addr)
  | .new addr name => .new (deviceId addr) name
  | .remove addr => .remove (deviceId addr)
  | .until days addr => .until days (deviceId addr)
  | .device addr => .device (deviceId addr)

/-- The device it names. -/
def Button.addr? : Button → Option BdAddr
  | .ignore | .openDoor => none
  | .add addr | .new addr _ | .remove addr | .until _ addr | .device addr => some addr

/-- The names and days the bot makes buttons for. -/
def Button.Fits (tbl : CharTable) : Button → Prop
  | .new _ name => isalnum tbl name = true
  | .until days _ => days ∈ [0, 1, 3, 7]
  | _ => True

/-! ## The keyboards -/

theorem getNewDeviceKb_data (addr : BdAddr) :
    getNewDeviceKb (deviceId addr) =
      [[Button.ignore, .openDoor], [.add addr]].map (·.map Button.data) := rfl

theorem chosenNameKb_data (addr : BdAddr) (name : String) :
    chosenNameKb (deviceId addr) name =
      [[Button.ignore, .new addr name], [.add addr]].map (·.map Button.data) := rfl

theorem deviceSettingsKb_data (addr : BdAddr) :
    deviceSettingsKb (deviceId addr) =
      [[Button.remove addr], [.until 1 addr, .until 3 addr, .until 7 addr],
        [.until 0 addr]].map (·.map Button.data) := by
  have htext : ∀ days p, "until " ++ toString (days : ℕ) ++ " " = p →
      (Button.until days addr).data = p ++ deviceId addr := by
    rintro days p rfl
    rfl
  simp only [deviceSettingsKb, List.map_cons, List.map_nil, htext 1 "until 1 " (by decide),
    htext 3 "until 3 " (by decide), htext 7 "until 7 " (by decide), htext 0 "until 0 " (by decide)]
  rfl

theorem listDevicesKb_flatten (ids : List String) : (listDevicesKb ids).flatten = ids := by
  fun_induction listDevicesKb ids with
  | case1 => rfl
  | case2 btId => rfl
  | case3 btId btId' rest ih => simp [ih]

/-! ## From the text back to the branch -/

variable (tbl : CharTable)

theorem isWord_literal {s : String} (h : s.toList.isEmpty = false ∧ s.toList.all (!isspace ·) = true) :
    IsWord isspace s.toList where
  ne_nil := List.isEmpty_eq_false_iff.mp h.1
  no_sep c hc := by simpa using List.all_eq_true.mp h.2 c hc

/-- A text made of a keyword, a space and arguments. -/
theorem split_keyword {word : String} (hword : IsWord isspace word.toList) {p : String}
    (hp : p = word ++ " ") (rest : String) : split (p ++ rest) = word :: split rest := by
  rw [hp, split_cons hword]

theorem int_digit {s : String} {d : ℕ} (hd : d < 10) (hs : s.toList = [Char.ofNat (48 + d)]) :
    int tbl s = some (d : ℤ) := by
  have hall : ∀ d < 10, Char.ofNat (48 + d) ≠ '-' ∧ Char.ofNat (48 + d) ≠ '+' := by
    decide
  have hne := hall d hd
  unfold int
  rw [hs]
  split
  · rename_i h
    exact absurd (List.cons.inj h).1 hne.1
  · rename_i h
    exact absurd (List.cons.inj h).1 hne.2
  · simp [digits, digitsFrom, tbl.decimal_digit d hd]

theorem int_days {days : ℕ} (h : days ∈ [0, 1, 3, 7]) :
    int tbl (toString days) = some (days : ℤ) ∧ IsWord isspace (toString days).toList := by
  have hchars : days < 10 ∧ (toString days).toList = [Char.ofNat (48 + days)] ∧
      isspace (Char.ofNat (48 + days)) = false := by
    revert days
    decide
  obtain ⟨hd, hs, hspace⟩ := hchars
  refine ⟨int_digit tbl hd hs, ?_⟩
  rw [hs]
  exact ⟨List.cons_ne_nil _ _, fun c hc => (List.mem_singleton.mp hc) ▸ hspace⟩

theorem callbackOf_add (addr : BdAddr) :
    callbackOf tbl ("add: " ++ deviceId addr) = .ok (.add (deviceId addr)) := by
  have hadd : startswith ("add: " ++ deviceId addr) "add" = true :=
    startswith_append (by decide) _
  have hsplit : split ("add: " ++ deviceId addr) = ["add:", deviceId addr] := by
    rw [split_keyword (isWord_literal (s := "add:") (by decide)) (by decide),
      split_word (deviceId_word addr)]
  rw [callbackOf, if_neg (ne_of_startswith hadd (by decide)),
    if_neg (ne_of_startswith hadd (by decide)), if_pos hadd, hsplit]
  rfl

theorem callbackOf_new (addr : BdAddr) {name : String} (hname : isalnum tbl name = true) :
    callbackOf tbl ("new " ++ deviceId addr ++ " " ++ name) =
      .ok (.new (deviceId addr) name) := by
  have hassoc : "new " ++ deviceId addr ++ " " ++ name =
      "new " ++ (deviceId addr ++ " " ++ name) := by simp only [String.append_assoc]
  rw [hassoc]
  have hnew : startswith ("new " ++ (deviceId addr ++ " " ++ name)) "new" = true :=
    startswith_append (by decide) _
  have hadd : startswith ("new " ++ (deviceId addr ++ " " ++ name)) "add" = false :=
    startswith_append_of_head (c := 'n') (d := 'a') (by decide) (by decide) (by decide) _
  have hsplit : split ("new " ++ (deviceId addr ++ " " ++ name)) =
      ["new", deviceId addr, name] := by
    rw [split_keyword (isWord_literal (s := "new") (by decide)) (by decide),
      split_cons (deviceId_word addr), split_word (isalnum_word hname)]
  rw [callbackOf, if_neg (ne_of_startswith hnew (by decide)),
    if_neg (ne_of_startswith hnew (by decide)), hadd, if_neg Bool.false_ne_true,
    if_pos hnew, hsplit]
  rfl

theorem callbackOf_remove (addr : BdAddr) :
    callbackOf tbl ("remove " ++ deviceId addr) = .ok (.remove (deviceId addr)) := by
  have hremove : startswith ("remove " ++ deviceId addr) "remove" = true :=
    startswith_append (by decide) _
  have hother : ∀ d, d ≠ 'r' → ∀ q : String, q.toList.head? = some d →
      startswith ("remove " ++ deviceId addr) q = false := by
    intro d hd q hq
    exact startswith_append_of_head (c := 'r') (by decide) hq hd _
  have hsplit : split ("remove " ++ deviceId addr) = ["remove", deviceId addr] := by
    rw [split_keyword (isWord_literal (s := "remove") (by decide)) (by decide),
      split_word (deviceId_word addr)]
  rw [callbackOf, if_neg (ne_of_startswith hremove (by decide)),
    if_neg (ne_of_startswith hremove (by decide)),
    hother 'a' (by decide) "add" (by decide), if_neg Bool.false_ne_true,
    hother 'n' (by decide) "new" (by decide), if_neg Bool.false_ne_true, if_pos hremove,
    hsplit]
  rfl

theorem callbackOf_until (addr : BdAddr) {days : ℕ} (hdays : days ∈ [0, 1, 3, 7]) :
    callbackOf tbl ("until " ++ toString days ++ " " ++ deviceId addr) =
      .ok (.until days (deviceId addr)) := by
  obtain ⟨hint, hword⟩ := int_days tbl hdays
  have hassoc : "until " ++ toString days ++ " " ++ deviceId addr =
      "until " ++ (toString days ++ " " ++ deviceId addr) := by simp only [String.append_assoc]
  rw [hassoc]
  have huntil : startswith ("until " ++ (toString days ++ " " ++ deviceId addr)) "until" = true :=
    startswith_append (by decide) _
  have hother : ∀ d, d ≠ 'u' → ∀ q : String, q.toList.head? = some d →
      startswith ("until " ++ (toString days ++ " " ++ deviceId addr)) q = false := by
    intro d hd q hq
    exact startswith_append_of_head (c := 'u') (by decide) hq hd _
  have hsplit : split ("until " ++ (toString days ++ " " ++ deviceId addr)) =
      ["until", toString days, deviceId addr] := by
    rw [split_keyword (isWord_literal (s := "until") (by decide)) (by decide),
      split_cons hword, split_word (deviceId_word addr)]
  rw [callbackOf, if_neg (ne_of_startswith huntil (by decide)),
    if_neg (ne_of_startswith huntil (by decide)),
    hother 'a' (by decide) "add" (by decide), if_neg Bool.false_ne_true,
    hother 'n' (by decide) "new" (by decide), if_neg Bool.false_ne_true,
    hother 'r' (by decide) "remove" (by decide), if_neg Bool.false_ne_true,
    if_pos huntil, hsplit]
  simp only [List.drop_succ_cons, List.drop_zero, hint]

theorem callbackOf_device (addr : BdAddr) :
    callbackOf tbl (deviceId addr) = .ok (.device (deviceId addr)) := by
  have hno : ∀ {d : Char} {p : List Char}, 70 < d.toNat →
      startswith (deviceId addr) (String.ofList (d :: p)) = false :=
    fun hd => startswith_deviceText addr hd
  have hignore : deviceId addr ≠ "ignore" :=
    (ne_of_startswith (q := "ignore") (by decide) (hno (by decide))).symm
  have hopen : deviceId addr ≠ "open" :=
    (ne_of_startswith (q := "open") (by decide) (hno (by decide))).symm
  have hadd : startswith (deviceId addr) "add" = false := hno (by decide)
  have hnew : startswith (deviceId addr) "new" = false := hno (by decide)
  have hremove : startswith (deviceId addr) "remove" = false := hno (by decide)
  have huntil : startswith (deviceId addr) "until" = false := hno (by decide)
  rw [callbackOf, if_neg hignore, if_neg hopen, hadd, if_neg Bool.false_ne_true, hnew,
    if_neg Bool.false_ne_true, hremove, if_neg Bool.false_ne_true, huntil,
    if_neg Bool.false_ne_true]

/-- **The text of a button is read back as what it was made for.** -/
theorem callbackOf_data {b : Button} (h : b.Fits tbl) :
    callbackOf tbl b.data = .ok b.callback := by
  cases b with
  | ignore => rfl
  | openDoor => rfl
  | add addr => exact callbackOf_add tbl addr
  | new addr name => exact callbackOf_new tbl addr h
  | remove addr => exact callbackOf_remove tbl addr
  | «until» days addr => exact callbackOf_until tbl addr h
  | device addr => exact callbackOf_device tbl addr

/-! ## What a press writes -/

/-- The database after a press of the button. -/
def Button.write (now : ℕ) (db : Db) : Button → Db
  | .ignore | .openDoor | .add _ => db
  | .new addr name => addDevice db (deviceId addr) name
  | .remove addr => removeDevice now db (deviceId addr)
  | .until days addr =>
      match updateUntilTime now db days (deviceId addr) with
      | .ok db' => db'
      | .error _ => db
  | .device addr => (getBtDevice now db (deviceId addr)).1

theorem deleteMessage_db (s : ServerState) (message : ℕ) (deletable : Bool) :
    (deleteMessage s message deletable).db = s.db := by
  unfold deleteMessage
  split <;> rfl

theorem callbackHandler_db (s : ServerState) (message : ℕ) {b : Button} (h : b.Fits tbl)
    (deletable : Bool) :
    (callbackHandler tbl s message b.data deletable).db = b.write s.now s.db := by
  rw [callbackHandler, callbackOf_data tbl h]
  cases b with
  | ignore => exact deleteMessage_db _ _ _
  | openDoor => rfl
  | add addr => exact deleteMessage_db _ _ _
  | new addr name => exact deleteMessage_db _ _ _
  | remove addr => exact deleteMessage_db _ _ _
  | «until» days addr =>
      simp only [Button.callback, Button.write]
      split
      · rename_i db' hdb
        rw [hdb]
        exact deleteMessage_db _ _ _
      · rename_i hdb
        rw [hdb]
        rfl
  | device addr =>
      simp only [Button.callback, Button.write]
      split
      · rename_i db' device hdb
        rw [hdb]
      · rename_i db' hdb
        rw [hdb]
        exact deleteMessage_db _ _ _

/-- Only the record of the device it names. -/
theorem write_of_ne {now : ℕ} {db : Db} {b : Button} {key : String}
    (h : ∀ addr, b.addr? = some addr → key ≠ deviceId addr) : b.write now db key = db key := by
  cases b with
  | ignore => rfl
  | openDoor => rfl
  | add addr => rfl
  | new addr name =>
      have hkey : key ≠ deviceId addr := h addr rfl
      rw [Button.write, addDevice_eq, Function.update_of_ne hkey]
  | remove addr =>
      have hkey : key ≠ deviceId addr := h addr rfl
      rw [Button.write, removeDevice_eq, Function.update_of_ne hkey]
  | «until» days addr =>
      rw [Button.write]
      cases hdb : updateUntilTime now db days (deviceId addr) with
      | ok db' => exact updateUntilTime_of_ne hdb (h addr rfl)
      | error e => rfl
  | device addr => exact getBtDevice_of_ne (h addr rfl)

/-- A name is stored under the address it was chosen for. -/
theorem write_new (now : ℕ) (db : Db) (addr : BdAddr) (name : String) :
    ∃ device, (Button.new addr name).write now db (deviceId addr) = some device ∧
      device.name = name := by
  rw [Button.write, addDevice_eq, Function.update_self]
  exact ⟨_, rfl, rfl⟩

/-- No record appears but under the address of the button. -/
theorem write_key {now : ℕ} {db : Db} (hkeys : ∀ key, db key ≠ none → ∃ addr, key = deviceId addr)
    (b : Button) {key : String} (h : b.write now db key ≠ none) : ∃ addr, key = deviceId addr := by
  by_cases hkey : ∃ addr, key = deviceId addr
  · exact hkey
  · rw [write_of_ne fun addr _ heq => hkey ⟨addr, heq⟩] at h
    exact hkeys key h

/-! ## The display and the store -/

/-- Every button of the message was made for a purpose, and the message shows
what it is about to store. -/
def Made (m : Message) : Prop :=
  ∀ data ∈ m.keyboard.flatten, ∃ b : Button, b.data = data ∧ b.Fits tbl ∧
    ∀ addr name, b = .new addr name → m.shown = .chosen (deviceId addr) name

/-- Keys, ids waiting for a name, and buttons are all of addresses. -/
structure Consistent (s : ServerState) : Prop where
  keys : ∀ key, s.db key ≠ none → ∃ addr, key = deviceId addr
  waiting : ∀ btId ∈ s.deviceWhitForSave, ∃ addr, btId = deviceId addr
  messages : ∀ m ∈ s.messages, Made tbl m
  bot : ∀ btId message deletable, s.bot = .settings btId message deletable →
    ∃ addr, btId = deviceId addr

/-- A message from the door that is no last will: its announcement, or an
address. -/
def FromDoor (a : ServerAct) : Prop :=
  ∀ msg, a = .mqttMessage msg → msg = "connected" ∨ ∃ addr, msg = deviceId addr

variable {tbl}

/-- A keyboard made of buttons that store nothing. -/
theorem made_of_rows {m : Message} {rows : List (List Button)}
    (hrows : m.keyboard = rows.map (·.map Button.data))
    (hfits : ∀ b ∈ rows.flatten, b.Fits tbl ∧
      ∀ addr name, b = .new addr name → m.shown = .chosen (deviceId addr) name) :
    Made tbl m := by
  intro data hdata
  rw [hrows, ← List.map_flatten] at hdata
  obtain ⟨b, hb, rfl⟩ := List.mem_map.mp hdata
  exact ⟨b, rfl, hfits b hb⟩

theorem made_newDevice (addr : BdAddr) :
    Made tbl ⟨.newDevice (deviceId addr), getNewDeviceKb (deviceId addr)⟩ := by
  apply made_of_rows (getNewDeviceKb_data addr)
  simp [Button.Fits]

theorem made_settings (addr : BdAddr) (name : String) (until? : Option ℕ) :
    Made tbl ⟨.settings (deviceId addr) name until?, deviceSettingsKb (deviceId addr)⟩ := by
  apply made_of_rows (deviceSettingsKb_data addr)
  simp [Button.Fits]

theorem made_chosen (addr : BdAddr) {name : String} (h : isalnum tbl name = true) :
    Made tbl ⟨.chosen (deviceId addr) name, chosenNameKb (deviceId addr) name⟩ := by
  apply made_of_rows (chosenNameKb_data addr name)
  simp [Button.Fits, h]

theorem made_devices {ids : List String} (h : ∀ btId ∈ ids, ∃ addr, btId = deviceId addr)
    (items : List (Option (String × Option ℕ))) :
    Made tbl ⟨.devices items, listDevicesKb ids⟩ := by
  intro data hdata
  have hdata : data ∈ (listDevicesKb ids).flatten := hdata
  rw [listDevicesKb_flatten] at hdata
  obtain ⟨addr, rfl⟩ := h data hdata
  exact ⟨.device addr, rfl, trivial, fun _ _ heq => nomatch heq⟩

theorem Made.tail {m : Message} (h : Made tbl m) :
    Made tbl { m with keyboard := m.keyboard.tail } := by
  intro data hdata
  apply h
  obtain ⟨row, hrow, hdata⟩ := List.mem_flatten.mp hdata
  exact List.mem_flatten.mpr ⟨row, List.mem_of_mem_tail hrow, hdata⟩

/-! ## Every step keeps them so -/

theorem Consistent.setDb {s : ServerState} (h : Consistent tbl s) {db : Db}
    (hkeys : ∀ key, db key ≠ none → ∃ addr, key = deviceId addr) :
    Consistent tbl { s with db := db } :=
  ⟨hkeys, h.waiting, h.messages, h.bot⟩

theorem Consistent.get {s : ServerState} (h : Consistent tbl s) (addr : BdAddr) :
    Consistent tbl { s with db := (getBtDevice s.now s.db (deviceId addr)).1 } :=
  h.setDb fun _ => write_key h.keys (.device addr)

theorem Consistent.display {s : ServerState} (h : Consistent tbl s) {m : Message}
    (hm : Made tbl m) : Consistent tbl { s with messages := s.messages ++ [m] } := by
  refine ⟨h.keys, h.waiting, ?_, h.bot⟩
  intro m' hm'
  rcases List.mem_append.mp hm' with hold | hnew
  · exact h.messages m' hold
  · obtain rfl := List.mem_singleton.mp hnew
    exact hm

theorem Consistent.delete {s : ServerState} (h : Consistent tbl s) (message : ℕ)
    (deletable : Bool) : Consistent tbl (deleteMessage s message deletable) := by
  unfold deleteMessage
  split
  · exact ⟨h.keys, h.waiting, fun m hm => h.messages m (List.mem_of_mem_eraseIdx hm), h.bot⟩
  · exact h

theorem Consistent.popRow {s : ServerState} (h : Consistent tbl s) (message : ℕ) :
    Consistent tbl { s with
      messages := s.messages.modify message fun m => { m with keyboard := m.keyboard.tail } } := by
  refine ⟨h.keys, h.waiting, ?_, h.bot⟩
  intro m hm
  -- the message whose first row is taken away, or another one
  obtain ⟨j, hj⟩ := List.mem_iff_getElem?.mp hm
  rw [List.getElem?_modify, Option.map_eq_map, Option.map_eq_some_iff] at hj
  obtain ⟨m', hm', rfl⟩ := hj
  have hmade : Made tbl m' := h.messages m' (List.mem_of_getElem? hm')
  split
  · exact hmade.tail
  · exact hmade

theorem Consistent.log {s : ServerState} (h : Consistent tbl s) (outcomes : List Outcome) :
    Consistent tbl { s with outcomes := outcomes } :=
  ⟨h.keys, h.waiting, h.messages, h.bot⟩

theorem Consistent.botIdle {s : ServerState} (h : Consistent tbl s) :
    Consistent tbl { s with bot := .idle } :=
  ⟨h.keys, h.waiting, h.messages, fun _ _ _ heq => by cases heq⟩

theorem consistent_mqttLookup {s : ServerState} (h : Consistent tbl s) {msg : String}
    (hmsg : msg = "connected" ∨ ∃ addr, msg = deviceId addr) :
    Consistent tbl (mqttLookup s msg) := by
  unfold mqttLookup
  split
  · exact h.log _
  · rename_i hconn
    split
    · exact h.log _
    · obtain rfl | ⟨addr, rfl⟩ := hmsg
      · exact absurd (by decide) hconn
      · have hget := h.get addr
        split
        · rename_i db device hdb
          rw [hdb] at hget
          exact ⟨hget.keys, hget.waiting, hget.messages, hget.bot⟩
        · rename_i db hdb
          rw [hdb] at hget
          have hshow := hget.display (made_newDevice addr)
          exact ⟨hshow.keys, hshow.waiting, hshow.messages, hshow.bot⟩

theorem consistent_mqttName {s : ServerState} (h : Consistent tbl s) (msg : String) :
    Consistent tbl (mqttName s msg) := by
  unfold mqttName
  split <;> exact ⟨h.keys, h.waiting, h.messages, h.bot⟩

theorem consistent_callbackHandler {s : ServerState} (h : Consistent tbl s) (message : ℕ)
    {b : Button} (hb : b.Fits tbl) (deletable : Bool) :
    Consistent tbl (callbackHandler tbl s message b.data deletable) := by
  have hwrite : Consistent tbl { s with db := b.write s.now s.db } :=
    h.setDb fun _ => write_key h.keys b
  rw [callbackHandler, callbackOf_data tbl hb]
  cases b with
  | ignore => exact h.delete _ _
  | openDoor => exact (h.popRow message).log _
  | add addr =>
      have hadd : Consistent tbl
          { s with deviceWhitForSave := s.deviceWhitForSave ++ [deviceId addr] } := by
        refine ⟨h.keys, ?_, h.messages, h.bot⟩
        intro btId hbt
        rcases List.mem_append.mp hbt with hold | hnew
        · exact h.waiting btId hold
        · exact ⟨addr, List.mem_singleton.mp hnew⟩
      exact hadd.delete _ _
  | new addr name =>
      have hids : Consistent tbl { s with
          db := (Button.new addr name).write s.now s.db
          ids := s.ids.insert (deviceId addr) } :=
        ⟨hwrite.keys, hwrite.waiting, hwrite.messages, hwrite.bot⟩
      exact hids.delete _ _
  | remove addr => exact hwrite.delete _ _
  | «until» days addr =>
      simp only [Button.callback]
      simp only [Button.write] at hwrite
      cases hdb : updateUntilTime s.now s.db days (deviceId addr) with
      | ok db =>
          rw [hdb] at hwrite
          exact hwrite.delete _ _
      | error e =>
          cases e
          exact h.log _
  | device addr =>
      simp only [Button.callback]
      simp only [Button.write] at hwrite
      split
      · rename_i db device hdb
        rw [hdb] at hwrite
        refine ⟨hwrite.keys, hwrite.waiting, hwrite.messages, ?_⟩
        intro btId i d heq
        -- the id stays folded
        exact ⟨addr, (BotPc.settings.inj heq).1.symm⟩
      · rename_i db hdb
        rw [hdb] at hwrite
        exact hwrite.delete _ _

theorem consistent_deviceSettings {s : ServerState} (h : Consistent tbl s) {btId : String}
    (hbt : ∃ addr, btId = deviceId addr) (message : ℕ) (deletable : Bool) :
    Consistent tbl (deviceSettings s btId message deletable) := by
  obtain ⟨addr, rfl⟩ := hbt
  unfold deviceSettings
  split
  · exact (h.botIdle.display (made_settings addr _ _)).delete _ _
  · exact h.botIdle.log _

theorem consistent_getDeviceName {s : ServerState} (h : Consistent tbl s) (text : String) :
    Consistent tbl (getDeviceName tbl s text) := by
  unfold getDeviceName
  split
  · exact h
  · split
    · exact h
    · rename_i btId hlast
      split
      · rename_i hname
        obtain ⟨addr, rfl⟩ := h.waiting btId (List.mem_of_getLast? hlast)
        have hshow := h.display (made_chosen addr hname)
        exact ⟨hshow.keys, fun id hid => h.waiting id (List.dropLast_subset _ hid),
          hshow.messages, hshow.bot⟩
      · exact h

/-- The button that is pressed. -/
theorem button_of_press {s t : ServerState} (h : Consistent tbl s) {message : ℕ} {data : String}
    {deletable : Bool} (ht : serverStep tbl s (.press message data deletable) = some t) :
    ∃ (m : Message) (b : Button), s.messages[message]? = some m ∧ data ∈ m.keyboard.flatten ∧
      b.Fits tbl ∧
      data = b.data ∧ t = callbackHandler tbl s message b.data deletable ∧
      ∀ addr name, b = .new addr name → m.shown = .chosen (deviceId addr) name := by
  cases serverStep_cases ht with
  | press message data deletable m hidle hm hdata =>
      obtain ⟨b, rfl, hfits, hshown⟩ := h.messages m (List.mem_of_getElem? hm) data hdata
      exact ⟨m, b, hm, hdata, hfits, rfl, rfl, hshown⟩

theorem consistent_step (s : ServerState) (a : ServerAct) (t : ServerState)
    (h : Consistent tbl s) (ha : FromDoor a) (ht : serverStep tbl s a = some t) :
    Consistent tbl t := by
  cases serverStep_cases ht with
  | wait d => exact ⟨h.keys, h.waiting, h.messages, h.bot⟩
  | mqttMessage msg hidle => exact consistent_mqttLookup h (ha msg rfl)
  | mqttName msg hfound => exact consistent_mqttName h _
  | mqttOpen msg name hnamed => exact ⟨h.keys, h.waiting, h.messages, h.bot⟩
  | press message data deletable m hidle hm hdata =>
      obtain ⟨b, rfl, hfits, -⟩ := h.messages m (List.mem_of_getElem? hm) data hdata
      exact consistent_callbackHandler h message hfits deletable
  | deviceSettings btId message deletable hbot =>
      exact consistent_deviceSettings h (h.bot _ _ _ hbot) _ _
  | text text hidle => exact consistent_getDeviceName h text
  | listDevices ids hidle hids =>
      apply h.display
      apply made_devices
      intro btId hbt
      apply h.keys
      intro hnone
      have hshown := listed_of_perm hids btId hbt
      rw [listDevices, hnone] at hshown
      cases hshown

/-! ## The round trip -/

/-- What the owner does besides pressing buttons leaves the database alone. -/
theorem db_of_no_press {s t : ServerState} {a : ServerAct} (ht : serverStep tbl s a = some t)
    (hpress : ∀ message data deletable, a ≠ .press message data deletable)
    (hmqtt : ∀ msg, a ≠ .mqttMessage msg) : t.db = s.db := by
  cases serverStep_cases ht with
  | wait d => rfl
  | mqttMessage msg hidle => exact absurd rfl (hmqtt msg)
  | mqttName msg hfound =>
      unfold mqttName
      split <;> rfl
  | mqttOpen msg name hnamed => rfl
  | press message data deletable m hidle hm hdata =>
      exact absurd rfl (hpress message data deletable)
  | deviceSettings btId message deletable hbot =>
      unfold deviceSettings
      split
      · exact deleteMessage_db _ _ _
      · rfl
  | text text hidle =>
      unfold getDeviceName
      split
      · rfl
      · split
        · rfl
        · split <;> rfl
  | listDevices ids hidle hids => rfl

/-- **Button data round trip.** Distinct addresses have distinct ids, the
keyboards are made of buttons for the purposes listed, and each text is read
back as the branch, id, name and days it was made with. In every run a press of
a button on display does what the button was made for: the database changes at
the id it names only, and an accepted name is stored as the message shows it. -/
theorem buttons_round_trip (tbl : CharTable) :
    Function.Injective deviceId ∧
    (∀ addr name,
      getNewDeviceKb (deviceId addr) =
          [[Button.ignore, .openDoor], [.add addr]].map (·.map Button.data) ∧
        chosenNameKb (deviceId addr) name =
          [[Button.ignore, .new addr name], [.add addr]].map (·.map Button.data) ∧
        deviceSettingsKb (deviceId addr) =
          [[Button.remove addr], [.until 1 addr, .until 3 addr, .until 7 addr],
            [.until 0 addr]].map (·.map Button.data)) ∧
    (∀ addrs : List BdAddr, (listDevicesKb (addrs.map deviceId)).flatten =
      addrs.map fun addr => (Button.device addr).data) ∧
    (∀ b : Button, b.Fits tbl → callbackOf tbl b.data = .ok b.callback) ∧
    ∀ (s : ServerState) (as : List ServerAct) (u : ServerState), Consistent tbl s →
      (∀ a ∈ as, FromDoor a) → Machine.run (serverStep tbl) s as = some u →
      (∀ message data deletable t,
        serverStep tbl u (.press message data deletable) = some t →
        ∃ (m : Message) (b : Button), u.messages[message]? = some m ∧
          data ∈ m.keyboard.flatten ∧ b.Fits tbl ∧ data = b.data ∧
          t.db = b.write u.now u.db ∧
          (∀ key, (∀ addr, b.addr? = some addr → key ≠ deviceId addr) → t.db key = u.db key) ∧
          ∀ addr name, b = .new addr name → m.shown = .chosen (deviceId addr) name ∧
            ∃ device, t.db (deviceId addr) = some device ∧ device.name = name) ∧
      ∀ a t, serverStep tbl u a = some t →
        (∀ message data deletable, a ≠ .press message data deletable) →
        (∀ msg, a ≠ .mqttMessage msg) → t.db = u.db := by
  refine ⟨deviceId_injective, fun addr name => ⟨getNewDeviceKb_data addr,
    chosenNameKb_data addr name, deviceSettingsKb_data addr⟩, fun addrs =>
    listDevicesKb_flatten _, fun b hb => callbackOf_data tbl hb, ?_⟩
  intro s as u hs has hrun
  have hu : Consistent tbl u := Machine.run_inv_of_along (C := fun _ a => FromDoor a)
    consistent_step hs (Machine.along_of_mem fun a ha _ => has a ha) hrun
  refine ⟨?_, fun a t ht hpress hmqtt => db_of_no_press ht hpress hmqtt⟩
  intro message data deletable t ht
  obtain ⟨m, b, hm, hdata, hfits, hb, rfl, hshown⟩ := button_of_press hu ht
  have hdb := callbackHandler_db tbl u message hfits deletable
  refine ⟨m, b, hm, hdata, hfits, hb, hdb, ?_, ?_⟩
  · intro key hkey
    rw [hdb]
    exact write_of_ne hkey
  · rintro addr name rfl
    rw [hdb]
    exact ⟨hshown addr name rfl, write_new _ _ _ _⟩

/-! ## One device, named and accepted -/

def host : BdAddr := #v[0x31, 0x42, 0x53, 0x64, 0x75, 0x86]

def emptyServer : ServerState := { now := 0, db := fun _ => none }

theorem consistent_empty (tbl : CharTable) : Consistent tbl emptyServer where
  keys key h := absurd rfl h
  waiting btId h := by cases h
  messages m h := by cases h
  bot btId message deletable h := by cases h

def nameRun : List ServerAct :=
  [.mqttMessage (deviceId host), .press 0 (Button.add host).data true, .text "Ann"]

theorem nameRun_accepted :
    ((Machine.run (serverStep asciiTable) emptyServer nameRun).bind fun u =>
      serverStep asciiTable u (.press 0 (Button.new host "Ann").data true)).map
        (fun t => t.db (deviceId host)) = some (some { name := "Ann" }) := by
  decide

/-- The press is one of a button the message shows. -/
theorem nameRun_button : ∃ u m, ∃ b : Button,
    Machine.run (serverStep asciiTable) emptyServer nameRun = some u ∧
      u.messages[0]? = some m ∧ b.Fits asciiTable ∧ (Button.new host "Ann").data = b.data := by
  obtain ⟨t, ht, -⟩ := Option.map_eq_some_iff.mp nameRun_accepted
  obtain ⟨u, hu, ht⟩ := Option.bind_eq_some_iff.mp ht
  have hdoor : ∀ a ∈ nameRun, FromDoor a := by
    intro a ha msg hmsg
    subst hmsg
    simp only [nameRun, List.mem_cons, ServerAct.mqttMessage.injEq, reduceCtorEq, or_false,
      List.not_mem_nil] at ha
    exact Or.inr ⟨host, ha⟩
  obtain ⟨-, -, -, -, hruns⟩ := buttons_round_trip asciiTable
  obtain ⟨hpress, -⟩ := hruns emptyServer nameRun u (consistent_empty asciiTable) hdoor hu
  obtain ⟨m, b, hm, -, hfits, hb, -⟩ := hpress 0 _ true t ht
  exact ⟨u, m, b, hu, hm, hfits, hb⟩

end SmartDoorLock
