import SmartDoorLock.Server.Buttons

/-!
# The list of the devices

`list_devices` makes the text and the keyboard of its reply in one loop over the
numbered devices: a line and a button for each, and a row of buttons whenever the
number is even. The button of a line carries the id of the device on that line, and
the rows are those of `listDevicesKb`. The devices are all those whose record has not
expired, which needs that no key of the database is overlooked.
-/

namespace SmartDoorLock

/-! ## The loop -/

/-- An `InlineKeyboardButton`. -/
structure InlineButton where
  text : String
  callbackData : String
deriving DecidableEq, Repr

/-- `msg`, `kb` and `ls`. -/
structure Listing where
  msg : String
  kb : List (List InlineButton) := []
  ls : List InlineButton := []
deriving DecidableEq, Repr

/-- An item of `db.list_devices()`: the id, the name and `until`. -/
abbrev ListedDevice := String × String × Option ℕ

/-- The first line of the reply. -/
def listHeader : String :=
  "To edit one of the devices just press on the button with the device name.\n"

section

-- `showDate` writes a date as `%d/%m/%Y`
variable (showDate : ℕ → String)

/-- The line of the `i`-th device. -/
def listLine (i : ℕ) (item : ListedDevice) : String :=
  "**" ++ toString i ++ ".** `" ++ item.2.1 ++ "`" ++
    match item.2.2 with
    | some limit => " - until:  " ++ showDate limit ++ "\n"
    | none => "\n"

/-- The button of the `i`-th device. -/
def listButton (i : ℕ) (item : ListedDevice) : InlineButton :=
  ⟨toString i ++ ". " ++ item.2.1, item.1⟩

/-- A pass of the loop. -/
def listPass (acc : Listing) (numbered : ListedDevice × ℕ) : Listing :=
  let (item, i) := numbered
  let msg := acc.msg ++ listLine showDate i item
  let ls := acc.ls ++ [listButton i item]
  if i % 2 = 0 then ⟨msg, acc.kb ++ [ls], []⟩ else ⟨msg, acc.kb, ls⟩

/-- The reply of `list_devices`. -/
inductive ListReply where
  | empty
  | menu (msg : String) (kb : List (List InlineButton))
deriving DecidableEq, Repr

/-- `list_devices`, on the items of the database in its order. -/
def listDevicesReply (items : List ListedDevice) : ListReply :=
  let r := (items.zipIdx 1).foldl (listPass showDate) ⟨listHeader, [], []⟩
  let kb := if r.ls = [] then r.kb else r.kb ++ [r.ls]
  if kb = [] then .empty else .menu r.msg kb

/-! ## Lines and rows -/

/-- The text of the numbered devices. -/
def listLines : List (ListedDevice × ℕ) → String
  | [] => ""
  | (item, i) :: rest => listLine showDate i item ++ listLines rest

end

/-- Rows of two, and what is left in the last one. -/
def inTwos {α : Type} : List α → List (List α)
  | [] => []
  | [a] => [[a]]
  | a :: b :: rest => [a, b] :: inTwos rest

theorem listDevicesKb_eq_inTwos (ids : List String) : listDevicesKb ids = inTwos ids := by
  fun_induction listDevicesKb ids with
  | case1 => rfl
  | case2 btId => rfl
  | case3 btId btId' rest ih => rw [inTwos, ih]

theorem inTwos_map {α β : Type} (f : α → β) (xs : List α) :
    (inTwos xs).map (·.map f) = inTwos (xs.map f) := by
  fun_induction inTwos xs with
  | case1 => rfl
  | case2 a => rfl
  | case3 a b rest ih =>
      rw [List.map_cons, ih]
      rfl

theorem inTwos_flatten {α : Type} (xs : List α) : (inTwos xs).flatten = xs := by
  fun_induction inTwos xs with
  | case1 => rfl
  | case2 a => rfl
  | case3 a b rest ih => simp [ih]

/-- No row is empty, and none but the last has one button only. -/
theorem inTwos_lengths {α : Type} (xs : List α) :
    (∀ row ∈ inTwos xs, row.length = 1 ∨ row.length = 2) ∧
      ∀ row ∈ (inTwos xs).dropLast, row.length = 2 := by
  fun_induction inTwos xs with
  | case1 => simp
  | case2 a => simp
  | case3 a b rest ih =>
      obtain ⟨hrows, hfull⟩ := ih
      constructor
      · intro row hrow
        rcases List.mem_cons.mp hrow with rfl | hrow
        · exact Or.inr rfl
        · exact hrows row hrow
      · intro row hrow
        by_cases hlast : inTwos rest = []
        · rw [hlast] at hrow
          cases hrow
        · rw [List.dropLast_cons_of_ne_nil hlast] at hrow
          rcases List.mem_cons.mp hrow with rfl | hrow
          · rfl
          · exact hfull row hrow

theorem inTwos_eq_nil_iff {α : Type} (xs : List α) : inTwos xs = [] ↔ xs = [] := by
  fun_cases inTwos xs <;> simp

/-! ## What the loop makes -/

/-- **Two passes** fill a row, so the loop can be followed two devices at a time. -/
theorem listPass_rows (showDate : ℕ → String) (items : List ListedDevice) (i : ℕ)
    (hodd : i % 2 = 1) (msg : String) (kb : List (List InlineButton)) :
    ∃ kb' ls, (items.zipIdx i).foldl (listPass showDate) ⟨msg, kb, []⟩ =
        ⟨msg ++ listLines showDate (items.zipIdx i), kb', ls⟩ ∧
      (if ls = [] then kb' else kb' ++ [ls]) =
        kb ++ inTwos ((items.zipIdx i).map fun p => listButton p.2 p.1) := by
  fun_induction inTwos items generalizing i msg kb with
  | case1 => exact ⟨kb, [], by simp [listLines], by simp [inTwos]⟩
  | case2 item =>
      refine ⟨kb, [listButton i item], ?_, by simp [inTwos]⟩
      simp [listPass, listLines, hodd]
  | case3 item item' rest ih =>
      have hnext : (i + 1) % 2 = 0 := by omega
      obtain ⟨kb', ls, hloop, hrows⟩ := ih (i + 1 + 1) (by omega)
        (msg ++ listLine showDate i item ++ listLine showDate (i + 1) item')
        (kb ++ [[listButton i item, listButton (i + 1) item']])
      refine ⟨kb', ls, ?_, ?_⟩
      · simp only [List.zipIdx_cons, List.foldl_cons, listPass, hodd, hnext, listLines,
          if_neg one_ne_zero, if_true, List.nil_append, List.singleton_append]
        rw [hloop]
        simp only [String.append_assoc]
      · rw [hrows]
        simp [inTwos]

/-- The buttons of the numbered devices. -/
def listButtons (items : List ListedDevice) : List InlineButton :=
  (items.zipIdx 1).map fun p => listButton p.2 p.1

theorem listButtons_data (items : List ListedDevice) :
    (listButtons items).map InlineButton.callbackData = items.map Prod.fst := by
  rw [listButtons, List.map_map]
  show (items.zipIdx 1).map (Prod.fst ∘ Prod.fst) = _
  rw [← List.map_map, List.zipIdx_map_fst]

theorem listDevicesReply_eq (showDate : ℕ → String) (items : List ListedDevice) :
    listDevicesReply showDate items =
      if items = [] then .empty
      else .menu (listHeader ++ listLines showDate (items.zipIdx 1))
        (inTwos (listButtons items)) := by
  obtain ⟨kb', ls, hloop, hrows⟩ := listPass_rows showDate items 1 rfl listHeader []
  have hempty : inTwos (listButtons items) = [] ↔ items = [] := by
    rw [inTwos_eq_nil_iff, listButtons, List.map_eq_nil_iff, List.zipIdx_eq_nil_iff]
  simp only [listDevicesReply]
  rw [hloop]
  simp only [hrows]
  show (if inTwos (listButtons items) = [] then _ else _) = _
  simp only [hempty]
  rfl

/-! ## The rows of the database -/

open Machine

section

variable {tbl : CharTable} {s t u : ServerState} {as : List ServerAct}

/-- Every row of the database is known, each id once. -/
structure Keyed (s : ServerState) : Prop where
  nodup : s.ids.Nodup
  stored : ∀ key, s.db key ≠ none → key ∈ s.ids

/-- No row appears. -/
theorem Keyed.fewer (h : Keyed s) (hids : t.ids = s.ids)
    (hdb : ∀ key, t.db key ≠ none → s.db key ≠ none) : Keyed t where
  nodup := hids ▸ h.nodup
  stored key hkey := hids ▸ h.stored key (hdb key hkey)

theorem Keyed.same (h : Keyed s) (hids : t.ids = s.ids) (hdb : t.db = s.db) : Keyed t :=
  h.fewer hids fun _ hkey => hdb ▸ hkey

/-- A row is written at a key. -/
theorem Keyed.insert (h : Keyed s) {btId : String} (hids : t.ids = s.ids.insert btId)
    (hdb : ∀ key, key ≠ btId → t.db key = s.db key) : Keyed t where
  nodup := hids ▸ h.nodup.insert
  stored key hkey := by
    rw [hids, List.mem_insert_iff]
    by_cases hsame : key = btId
    · exact Or.inl hsame
    · exact Or.inr (h.stored key (hdb key hsame ▸ hkey))

theorem Keyed.delete (h : Keyed s) (message : ℕ) (deletable : Bool) :
    Keyed (deleteMessage s message deletable) := by
  unfold deleteMessage
  split
  · exact h.same rfl rfl
  · exact h

theorem get_fewer {now : ℕ} {db : Db} {btId key : String}
    (h : (getBtDevice now db btId).1 key ≠ none) : db key ≠ none := by
  by_cases hkey : key = btId
  · subst hkey
    rw [getBtDevice_eq] at h
    simp only [Function.update_self] at h
    intro hnone
    rw [hnone] at h
    exact h rfl
  · rwa [getBtDevice_of_ne hkey] at h

theorem update_fewer {now : ℕ} {db db' : Db} {days : ℤ} {btId key : String}
    (hupdate : updateUntilTime now db days btId = .ok db') (h : db' key ≠ none) :
    db key ≠ none := by
  by_cases hkey : key = btId
  · subst hkey
    intro hnone
    rw [updateUntilTime_eq, hnone] at hupdate
    cases hupdate
    exact h hnone
  · rwa [updateUntilTime_of_ne hupdate hkey] at h

theorem keyed_callbackHandler (h : Keyed s) (message : ℕ) (data : String) (deletable : Bool) :
    Keyed (callbackHandler tbl s message data deletable) := by
  unfold callbackHandler
  split
  · exact h.same rfl rfl
  · exact h.delete _ _
  · exact h.same rfl rfl
  · apply Keyed.delete
    exact h.same rfl rfl
  · rename_i btId name hdata
    apply Keyed.delete
    refine h.insert rfl fun key hkey => ?_
    simp only [addDevice_eq, Function.update_of_ne hkey]
  · rename_i btId hdata
    apply Keyed.delete
    refine h.fewer rfl fun key hkey => ?_
    simp only [removeDevice_eq] at hkey
    by_cases hsame : key = btId
    · subst hsame
      exact absurd (Function.update_self _ _ _) hkey
    · rwa [Function.update_of_ne hsame] at hkey
  · split
    · rename_i db hupdate
      apply Keyed.delete
      exact h.fewer rfl fun key hkey => update_fewer hupdate hkey
    · exact h.same rfl rfl
  · split
    · rename_i btId hdata db device hget
      exact h.fewer rfl fun key hkey => get_fewer (by rw [hget]; exact hkey)
    · rename_i btId hdata db hget
      apply Keyed.delete
      exact h.fewer rfl fun key hkey => get_fewer (by rw [hget]; exact hkey)

/-- **A row appears with its id.** -/
theorem keyed_step (s : ServerState) (a : ServerAct) (t : ServerState) (h : Keyed s)
    (ht : serverStep tbl s a = some t) : Keyed t := by
  cases serverStep_cases ht with
  | wait d => exact h.same rfl rfl
  | mqttMessage msg hidle =>
      unfold mqttLookup
      split
      · exact h.same rfl rfl
      · split
        · exact h.same rfl rfl
        · split <;> rename_i hget <;>
            exact h.fewer rfl fun key hkey => get_fewer (by rw [hget]; exact hkey)
  | mqttName msg hfound =>
      unfold mqttName
      split <;> exact h.same rfl rfl
  | mqttOpen msg name hnamed => exact h.same rfl rfl
  | press message data deletable m hidle hm hdata => exact keyed_callbackHandler h _ _ _
  | deviceSettings btId message deletable hbot =>
      unfold deviceSettings
      split
      · apply Keyed.delete
        exact h.same rfl rfl
      · exact h.same rfl rfl
  | text text hidle =>
      unfold getDeviceName
      repeat' split
      all_goals exact h.same rfl rfl
  | listDevices ids hidle hids => exact h.same rfl rfl

/-- `db.list_devices()` shows every record that has not expired, and nothing else. -/
theorem mem_listedIds (h : Keyed s) (btId : String) :
    btId ∈ listedIds s ↔ (live s.now (s.db btId)).isSome := by
  rw [listedIds, List.mem_filter, listDevices_eq, Option.isSome_map]
  refine and_iff_right_of_imp fun hlive => h.stored btId fun hnone => ?_
  rw [hnone] at hlive
  cases hlive

/-! ## On the display -/

/-- The items of `db.list_devices()`, for the ids it lists. -/
def listedItems (now : ℕ) (db : Db) (ids : List String) : List ListedDevice :=
  ids.filterMap fun btId => (listDevices now db btId).map fun shown => (btId, shown)

theorem listedItems_of_listed {now : ℕ} {db : Db} {ids : List String}
    (h : ∀ btId ∈ ids, (listDevices now db btId).isSome) :
    (listedItems now db ids).map Prod.fst = ids ∧
      (listedItems now db ids).map (fun item => some item.2) = ids.map (listDevices now db) := by
  induction ids with
  | nil => exact ⟨rfl, rfl⟩
  | cons btId ids ih =>
      obtain ⟨shown, hshown⟩ := Option.isSome_iff_exists.mp (h btId List.mem_cons_self)
      obtain ⟨hids, hitems⟩ := ih fun key hkey => h key (List.mem_cons_of_mem _ hkey)
      rw [listedItems] at hids hitems
      rw [listedItems, List.filterMap_cons, hshown, Option.map_some]
      exact ⟨by rw [List.map_cons, hids], by rw [List.map_cons, hitems, List.map_cons, hshown]⟩

theorem mem_listedItems {now : ℕ} {db : Db} {ids : List String} {btId name : String}
    {until? : Option ℕ} : (btId, name, until?) ∈ listedItems now db ids ↔
      btId ∈ ids ∧ live now (db btId) = some { name := name, until? := until? } := by
  rw [listedItems, List.mem_filterMap]
  constructor
  · rintro ⟨key, hkey, hitem⟩
    obtain ⟨shown, hshown, heq⟩ := Option.map_eq_some_iff.mp hitem
    obtain ⟨rfl, rfl⟩ := Prod.mk.inj heq
    rw [listDevices_eq] at hshown
    obtain ⟨device, hdevice, heq⟩ := Option.map_eq_some_iff.mp hshown
    obtain ⟨rfl, rfl⟩ := Prod.mk.inj heq
    exact ⟨hkey, hdevice⟩
  · rintro ⟨hid, hlive⟩
    exact ⟨btId, hid, by rw [listDevices_eq, hlive]; rfl⟩

/-- **The menu of the devices.** Start with a database whose rows are known, and let the
two threads run. Whenever the bot is free, the owner gets the list when asking for it. It
has exactly the devices whose record has not expired, each once, with its name and its
end. The reply says that there are none, if so; otherwise its text is the header and one
numbered line for each device, in the order of the database. The buttons are those of
the lines: the same number and name, and the id of the device on that line. They stand in
rows of two of which only the last may be half full, and these rows are the keyboard that
is on display afterwards. -/
theorem list_menu (hs : Keyed s) (hrun : run (serverStep tbl) s as = some t)
    (showDate : ℕ → String) :
    (t.bot = .idle → ∃ ids u, serverStep tbl t (.listDevices ids) = some u) ∧
    ∀ ids u, serverStep tbl t (.listDevices ids) = some u →
      ∃ items : List ListedDevice, items.map Prod.fst = ids ∧ ids.Nodup ∧
        (∀ btId name until?, (btId, name, until?) ∈ items ↔
          live t.now (t.db btId) = some { name := name, until? := until? }) ∧
        listDevicesReply showDate items =
          (if items = [] then .empty
          else .menu (listHeader ++ listLines showDate (items.zipIdx 1))
            (inTwos (listButtons items))) ∧
        (inTwos (listButtons items)).flatten = listButtons items ∧
        (∀ row ∈ inTwos (listButtons items), row.length = 1 ∨ row.length = 2) ∧
        (∀ row ∈ (inTwos (listButtons items)).dropLast, row.length = 2) ∧
        ∃ m, u.messages = t.messages ++ [m] ∧
          m.shown = .devices (items.map fun item => some item.2) ∧
          m.keyboard = (inTwos (listButtons items)).map (·.map InlineButton.callbackData) := by
  have ht : Keyed t := run_inv keyed_step hs hrun
  refine ⟨fun hidle => ⟨listedIds t, listReply t (listedIds t), ?_⟩, fun ids u hu => ?_⟩
  · simp only [serverStep, hidle, List.Perm.refl, if_true]
  cases serverStep_cases hu with
  | listDevices ids hidle hids =>
      obtain ⟨hmap, hshown⟩ := listedItems_of_listed (listed_of_perm hids)
      have hlengths := inTwos_lengths (listButtons (listedItems t.now t.db ids))
      refine ⟨listedItems t.now t.db ids, hmap, hids.nodup_iff.mpr (ht.nodup.filter _),
        fun btId name until? => ?_, listDevicesReply_eq _ _, inTwos_flatten _, hlengths.1,
        hlengths.2, _, rfl, congrArg Shown.devices hshown.symm, ?_⟩
      · rw [mem_listedItems, hids.mem_iff, mem_listedIds ht]
        exact and_iff_right_of_imp fun hlive => by rw [hlive]; rfl
      · rw [inTwos_map, listButtons_data, hmap]
        exact listDevicesKb_eq_inTwos ids

end

/-! Three devices. The last one expires, and is asked for before the list is. -/

def threeDevices : ServerState where
  now := 0
  db := fun key =>
    if key = "AA" then some { name := "Ann" }
    else if key = "BB" then some { name := "Ben", until? := some 9 }
    else if key = "CC" then some { name := "Cy", until? := some 5 }
    else none
  ids := ["AA", "BB", "CC"]

theorem keyed_threeDevices : Keyed threeDevices where
  nodup := by decide
  stored key hkey := by
    simp only [threeDevices, ne_eq] at hkey ⊢
    grind

def threeRun : List ServerAct := [.wait 5, .mqttMessage "CC"]

theorem threeRun_lists :
    ((run (serverStep asciiTable) threeDevices threeRun).bind fun t =>
      serverStep asciiTable t (.listDevices ["BB", "AA"])).isSome = true := by
  decide +kernel

theorem threeRun_menu : ∃ t u, run (serverStep asciiTable) threeDevices threeRun = some t ∧
    serverStep asciiTable t (.listDevices ["BB", "AA"]) = some u ∧
    ∃ items : List ListedDevice, items.map Prod.fst = ["BB", "AA"] ∧
      ∃ m, u.messages = t.messages ++ [m] ∧
        m.keyboard = (inTwos (listButtons items)).map (·.map InlineButton.callbackData) := by
  obtain ⟨u, hu⟩ := Option.isSome_iff_exists.mp threeRun_lists
  obtain ⟨t, ht, hu⟩ := Option.bind_eq_some_iff.mp hu
  obtain ⟨-, hlist⟩ := list_menu keyed_threeDevices ht fun _ => "01/01/2030"
  obtain ⟨items, hmap, -, -, -, -, -, -, m, hm, -, hkeyboard⟩ := hlist _ u hu
  exact ⟨t, u, ht, hu, items, hmap, m, hm, hkeyboard⟩

example : listDevicesReply (fun _ => "01/01/2030") (listedItems 5 threeDevices.db ["BB", "AA"]) =
    .menu (listHeader ++ "**1.** `Ben` - until:  01/01/2030\n**2.** `Ann`\n")
      [[⟨"1. Ben", "BB"⟩, ⟨"2. Ann", "AA"⟩]] := by
  decide +kernel

end SmartDoorLock
