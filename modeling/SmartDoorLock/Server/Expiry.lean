import SmartDoorLock.Lib.Machine
import SmartDoorLock.Server.Db

/-!
# Expired records

A record past its time is meant to be the same as no record. `get_bt_device`
and `list_devices` ask for `timeout`, and to them it is. `add_device` and
`update_until_time` do not: they write into the record that is still there, so
whether somebody looked it up first decides what becomes of the device.

Two stores that differ only in records expired at `t` yield the same from `t`
on, as long as neither of the two functions brings such a record back.
-/

namespace SmartDoorLock

open Machine

/-! ## Live records -/

/-- The store without the records that have expired at `t`. -/
def deleteExpired (t : ℕ) (db : Db) : Db := fun key => live t (db key)

theorem timeout_mono {t now : ℕ} {device : Device} (hle : t ≤ now)
    (h : device.timeout t = true) : device.timeout now = true := by
  cases hlimit : device.until? with
  | none => simp [Device.timeout, hlimit] at h
  | some limit =>
      simp only [Device.timeout, hlimit, decide_eq_true_eq] at h ⊢
      exact h.trans hle

/-! ## Runs of operations -/

inductive StoreOp where
  | get (btId : String)
  | add (btId name : String)
  | update (days : ℤ) (btId : String)
  | remove (btId : String)
  | list
deriving DecidableEq, Repr

/-- What `get_bt_device` or `list_devices` returned. -/
inductive StoreResult where
  | device (found : Option Device)
  | devices (shown : String → Option (String × Option ℕ))

/-- One operation, one transaction: an exception rolls it back. -/
def StoreOp.exec (now : ℕ) (db : Db) : StoreOp → Db × List StoreResult
  | .get btId => ((getBtDevice now db btId).1, [.device (getBtDevice now db btId).2])
  | .add btId name => (addDevice db btId name, [])
  | .update days btId =>
      match updateUntilTime now db days btId with
      | .ok db' => (db', [])
      | .error _ => (db, [])
  | .remove btId => (removeDevice now db btId, [])
  | .list => (db, [.devices (listDevices now db)])

structure StoreState where
  db : Db
  now : ℕ
  /-- the results so far, the latest first -/
  results : List StoreResult := []

/-- An operation at a time, which is no earlier than that of the last one. -/
def storeStep (s : StoreState) (a : ℕ × StoreOp) : Option StoreState :=
  if s.now ≤ a.1 then
    some
      { db := (a.2.exec a.1 s.db).1
        now := a.1
        results := (a.2.exec a.1 s.db).2 ++ s.results }
  else none

/-! ## The condition -/

/-- The operation brings no record back that had expired at `t`: `add_device`
does not name one, and `update_until_time` leaves it expired at `t`, or raises. -/
def StoreOp.BringsNoneBack (t now : ℕ) (db : Db) : StoreOp → Prop
  | .add btId _ => ∀ device, db btId = some device → device.timeout t = false
  | .update days btId =>
      ∀ device, db btId = some device → device.timeout t = true →
        days ≠ 0 ∧ (device.extendFrom now + days * DAY ≤ t ∨
          Overflows days (device.extendFrom now + days * DAY))
  | _ => True

def BringsNoneBack (t : ℕ) (s : StoreState) (a : ℕ × StoreOp) : Prop :=
  a.2.BringsNoneBack t a.1 s.db

/-! ## Stores that differ in expired records -/

/-- The second record is the first, or the first has expired at `t` and there
is no second. -/
def Faded (t : ℕ) (x y : Option Device) : Prop :=
  y = x ∨ (y = none ∧ ∃ device, x = some device ∧ device.timeout t = true)

theorem faded_live (t : ℕ) (x : Option Device) : Faded t x (live t x) := by
  cases x with
  | none => exact Or.inl rfl
  | some device =>
      rw [live_some]
      cases hout : device.timeout t with
      | true => exact Or.inr ⟨rfl, device, rfl, hout⟩
      | false => exact Or.inl rfl

/-- From `t` on the difference is not seen. -/
theorem Faded.live_eq {t now : ℕ} {x y : Option Device} (h : Faded t x y) (hle : t ≤ now) :
    live now y = live now x := by
  rcases h with rfl | ⟨rfl, device, rfl, hout⟩
  · rfl
  · rw [live_some, timeout_mono hle hout]
    rfl

/-- The same at every key. -/
def FadedDb (t : ℕ) (db db' : Db) : Prop := ∀ key, Faded t (db key) (db' key)

theorem FadedDb.update {t : ℕ} {db db' : Db} (h : FadedDb t db db') (btId : String)
    {x y : Option Device} (hxy : Faded t x y) :
    FadedDb t (Function.update db btId x) (Function.update db' btId y) := by
  intro key
  by_cases hkey : key = btId
  · subst hkey
    rw [Function.update_self, Function.update_self]
    exact hxy
  · rw [Function.update_of_ne hkey, Function.update_of_ne hkey]
    exact h key

theorem FadedDb.update_left {t : ℕ} {db db' : Db} (h : FadedDb t db db') {btId : String}
    {x : Option Device} (hx : Faded t x (db' btId)) :
    FadedDb t (Function.update db btId x) db' := by
  have hboth := h.update btId hx
  rwa [Function.update_eq_self] at hboth

/-! ## One operation -/

theorem fadedDb_get {t now : ℕ} {db db' : Db} (h : FadedDb t db db') (hle : t ≤ now)
    (btId : String) :
    FadedDb t (getBtDevice now db btId).1 (getBtDevice now db' btId).1 ∧
      (getBtDevice now db' btId).2 = (getBtDevice now db btId).2 := by
  have hlive := (h btId).live_eq hle
  rw [getBtDevice_eq, getBtDevice_eq, hlive]
  exact ⟨h.update btId (Or.inl rfl), rfl⟩

theorem fadedDb_remove {t now : ℕ} {db db' : Db} (h : FadedDb t db db') (btId : String) :
    FadedDb t (removeDevice now db btId) (removeDevice now db' btId) := by
  rw [removeDevice_eq, removeDevice_eq]
  exact h.update btId (Or.inl rfl)

theorem fadedDb_list {t now : ℕ} {db db' : Db} (h : FadedDb t db db') (hle : t ≤ now) :
    listDevices now db' = listDevices now db := by
  ext1 btId
  rw [listDevices_eq, listDevices_eq, (h btId).live_eq hle]

/-- A name given to a record that had not expired at `t`, or to none. -/
theorem fadedDb_add {t : ℕ} {db db' : Db} (h : FadedDb t db db') {btId : String} (name : String)
    (hok : ∀ device, db btId = some device → device.timeout t = false) :
    FadedDb t (addDevice db btId name) (addDevice db' btId name) := by
  have hsame : db' btId = db btId := by
    rcases h btId with hsame | ⟨-, device, hdb, hout⟩
    · exact hsame
    · rw [hok device hdb] at hout
      exact absurd hout (by decide)
  rw [addDevice_eq, addDevice_eq, hsame]
  exact h.update btId (Or.inl rfl)

theorem exec_update (now : ℕ) (db : Db) (days : ℤ) (btId : String) :
    (StoreOp.update days btId).exec now db =
      match (db btId).bind (extended now days) with
      | some device => (Function.update db btId (some device), [])
      | none => (db, []) := by
  simp only [StoreOp.exec, updateUntilTime_eq]
  cases db btId with
  | none => rfl
  | some device =>
      rw [Option.bind_some]
      cases hext : extended now days device <;> simp [hext]

/-- What is written is expired at `t`, if anything is. -/
theorem extended_timeout_iff {t now : ℕ} {days : ℤ} {device : Device} :
    (∀ device', extended now days device = some device' → device'.timeout t = true) ↔
      days ≠ 0 ∧ (device.extendFrom now + days * DAY ≤ t ∨
        Overflows days (device.extendFrom now + days * DAY)) := by
  unfold extended
  by_cases hdays : days = 0
  · simp [hdays, Device.timeout]
  · by_cases hover : Overflows days (device.extendFrom now + days * DAY)
    · simp [hdays, hover]
    · simp [hdays, hover, Device.timeout]

theorem fadedDb_update {t now : ℕ} {db db' : Db} (h : FadedDb t db db') {days : ℤ}
    {btId : String}
    (hok : ∀ device, db btId = some device → device.timeout t = true →
      days ≠ 0 ∧ (device.extendFrom now + days * DAY ≤ t ∨
        Overflows days (device.extendFrom now + days * DAY))) :
    FadedDb t ((StoreOp.update days btId).exec now db).1
        ((StoreOp.update days btId).exec now db').1 ∧
      ((StoreOp.update days btId).exec now db').2 = ((StoreOp.update days btId).exec now db).2 := by
  rw [exec_update, exec_update]
  rcases h btId with hsame | ⟨hnone, device, hdb, hout⟩
  · rw [hsame]
    cases (db btId).bind (extended now days) with
    | none => exact ⟨h, rfl⟩
    | some device' => exact ⟨h.update btId (Or.inl rfl), rfl⟩
  · -- the first store alone has a record to write, and it stays expired
    rw [hnone, hdb, Option.bind_some, Option.bind_none]
    cases hext : extended now days device with
    | none => exact ⟨h, rfl⟩
    | some device' =>
        have hout' : device'.timeout t = true :=
          extended_timeout_iff.mpr (hok device hdb hout) device' hext
        have hfaded : Faded t (some device') (db' btId) := Or.inr ⟨hnone, device', rfl, hout'⟩
        exact ⟨h.update_left hfaded, rfl⟩

/-- **One operation.** Stores that differ in records expired at `t` still do
after it, and it yields the same. -/
theorem exec_faded {t now : ℕ} {db db' : Db} (h : FadedDb t db db') (hle : t ≤ now)
    (op : StoreOp) (hok : op.BringsNoneBack t now db) :
    FadedDb t (op.exec now db).1 (op.exec now db').1 ∧
      (op.exec now db').2 = (op.exec now db).2 := by
  cases op with
  | get btId =>
      obtain ⟨hdb, hfound⟩ := fadedDb_get h hle btId
      refine ⟨hdb, ?_⟩
      simp only [StoreOp.exec, hfound]
  | add btId name => exact ⟨fadedDb_add h name hok, rfl⟩
  | update days btId => exact fadedDb_update h hok
  | remove btId => exact ⟨fadedDb_remove h btId, rfl⟩
  | list =>
      refine ⟨h, ?_⟩
      simp only [StoreOp.exec, fadedDb_list h hle]

/-- Exactly the operations that bring no record back keep the store and its
cleaned copy alike. -/
theorem exec_faded_iff {t now : ℕ} {db : Db} (hle : t ≤ now) (op : StoreOp) :
    FadedDb t (op.exec now db).1 (op.exec now (deleteExpired t db)).1 ↔
      op.BringsNoneBack t now db := by
  refine ⟨fun h => ?_, fun hok => (exec_faded (fun key => faded_live t _) hle op hok).1⟩
  have hgone : ∀ {key device}, db key = some device → device.timeout t = true →
      deleteExpired t db key = none := by
    intro key device hdb hout
    rw [deleteExpired, hdb, live_some, if_pos hout]
  cases op with
  | get btId => trivial
  | add btId name =>
      intro device hdb
      by_contra hin
      have hout : device.timeout t = true := by simpa using hin
      have hkey := h btId
      simp only [StoreOp.exec, addDevice_eq, Function.update_self, hgone hdb hout, hdb] at hkey
      rcases hkey with hsame | ⟨hnone, -⟩
      · have huntil : none = device.until? := congrArg Device.until? (Option.some.inj hsame)
        simp [Device.timeout, ← huntil] at hout
      · cases hnone
  | update days btId =>
      intro device hdb hout
      apply extended_timeout_iff.mp
      intro device' hext
      have hkey := h btId
      rw [exec_update, exec_update, hgone hdb hout, hdb, Option.bind_some, Option.bind_none,
        hext] at hkey
      simp only [Function.update_self, hgone hdb hout] at hkey
      rcases hkey with hsame | ⟨-, written, hwritten, hexpired⟩
      · cases hsame
      · obtain rfl := Option.some.inj hwritten
        exact hexpired
  | remove btId => trivial
  | list => trivial

/-! ## Whole runs -/

/-- Same clock, same results, and stores that differ in records expired at `t`. -/
structure FadedState (t : ℕ) (s x : StoreState) : Prop where
  le_now : t ≤ s.now
  now : x.now = s.now
  db : FadedDb t s.db x.db
  results : x.results = s.results

theorem storeStep_faded {t : ℕ} (s : StoreState) (a : ℕ × StoreOp) (s' x : StoreState)
    (h : FadedState t s x) (hok : BringsNoneBack t s a) (hs : storeStep s a = some s') :
    ∃ y, storeStep x a = some y ∧ FadedState t s' y := by
  unfold storeStep at hs
  split at hs
  · rename_i hlater
    obtain rfl := Option.some.inj hs
    have hle : t ≤ a.1 := h.le_now.trans hlater
    obtain ⟨hdb, hsame⟩ := exec_faded h.db hle a.2 hok
    have hlater' : x.now ≤ a.1 := h.now.symm ▸ hlater
    refine ⟨_, if_pos hlater', hle, rfl, hdb, ?_⟩
    simp only [hsame, h.results]
  · cases hs

/-- From `t` on two stores yield the same along a run of the first that brings
no expired record back. -/
theorem run_faded {t : ℕ} {db db' : Db} (h : FadedDb t db db') {as : List (ℕ × StoreOp)}
    {u : StoreState} (hok : Along storeStep (BringsNoneBack t) ⟨db, t, []⟩ as)
    (hrun : run storeStep ⟨db, t, []⟩ as = some u) :
    ∃ v, run storeStep ⟨db', t, []⟩ as = some v ∧ v.results = u.results := by
  have hstart : FadedState t ⟨db, t, []⟩ ⟨db', t, []⟩ := ⟨le_rfl, rfl, h, rfl⟩
  obtain ⟨v, hv, hfaded⟩ := run_lockstep storeStep_faded hstart hok hrun
  exact ⟨v, hv, hfaded.results⟩

theorem live_add {now : ℕ} {db : Db} {btId name : String} :
    (getBtDevice now (addDevice db btId name) btId).2 =
      live now (some { name := name, until? := (db btId).bind Device.until? }) := by
  rw [getBtDevice_eq, addDevice_eq, Function.update_self]

/-- A device that is not found gets its new name if and only if no record of it
is left. -/
theorem found_after_add_iff {now : ℕ} {db : Db} {btId name : String}
    (h : live now (db btId) = none) :
    (getBtDevice now (addDevice db btId name) btId).2 = some { name := name } ↔
      db btId = none := by
  rw [live_add]
  cases hdb : db btId with
  | none => simp [live_some, Device.timeout]
  | some device =>
      have hout : device.timeout now = true := by
        rw [hdb, live_some] at h
        by_contra hin
        simp [hin] at h
      have hout' : Device.timeout now { name := name, until? := device.until? } = true := hout
      simp [live_some, hout']

/-- **Expired as absent, as far as it goes.** A run from `t` on that brings no
record back which had expired at `t` yields the same as when all of them, or
the one a lookup happened to meet, had been deleted first. A name given to a
device that is not found arrives if and only if no record was left. -/
theorem expired_as_absent {t : ℕ} {db : Db} {as : List (ℕ × StoreOp)} {u : StoreState}
    (hok : Along storeStep (BringsNoneBack t) ⟨db, t, []⟩ as)
    (hrun : run storeStep ⟨db, t, []⟩ as = some u) :
    (∃ v, run storeStep ⟨deleteExpired t db, t, []⟩ as = some v ∧ v.results = u.results) ∧
      (∀ btId, ∃ v, run storeStep ⟨(getBtDevice t db btId).1, t, []⟩ as = some v ∧
        v.results = u.results) ∧
      ∀ (now : ℕ) (db : Db) (btId name : String), live now (db btId) = none →
        ((getBtDevice now (addDevice db btId name) btId).2 = some { name := name } ↔
          db btId = none) := by
  refine ⟨?_, ?_, ?_⟩
  · exact run_faded (fun key => faded_live t _) hok hrun
  · intro btId
    apply run_faded _ hok hrun
    intro key
    by_cases hkey : key = btId
    · subst hkey
      simp only [getBtDevice_eq, Function.update_self]
      exact faded_live t _
    · rw [getBtDevice_of_ne hkey]
      exact Or.inl rfl
  · intro now db btId name h
    exact found_after_add_iff h

/-! ## A record brought back -/

def guestDb : Db := Function.update (fun _ => none) "AA" (some { name := "Guest", until? := some 3 })

def guestOps : List (ℕ × StoreOp) := [(6, .get "AA"), (7, .add "AA" "Host")]

theorem guestOps_bring_none_back :
    Along storeStep (BringsNoneBack 5) ⟨guestDb, 5, []⟩ guestOps := by
  have hget : BringsNoneBack 5 ⟨guestDb, 5, []⟩ (6, .get "AA") := trivial
  refine along_cons hget fun s hs => ?_
  obtain rfl := Option.some.inj hs
  refine along_cons ?_ fun _ _ => along_nil _
  intro device hdb
  cases hdb

theorem expired_as_absent_guest :
    ∃ v, run storeStep ⟨deleteExpired 5 guestDb, 5, []⟩ guestOps = some v ∧
      v.results = [.device none] :=
  (expired_as_absent guestOps_bring_none_back rfl).1

/-- The guest is named again after the record has expired, and is not found. -/
theorem named_and_not_found :
    ¬ ∀ (t : ℕ) (db : Db) (as : List (ℕ × StoreOp)) (u v : StoreState),
      run storeStep ⟨db, t, []⟩ as = some u →
      run storeStep ⟨deleteExpired t db, t, []⟩ as = some v → v.results = u.results := by
  intro h
  have hresults : [StoreResult.device (some { name := "Host" })] = [.device none] :=
    h 5 guestDb [(6, .add "AA" "Host"), (7, .get "AA")] _ _ rfl rfl
  simp at hresults

end SmartDoorLock
