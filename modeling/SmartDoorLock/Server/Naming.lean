import SmartDoorLock.Server.Bot

/-!
# Whose name is it

The owner may press `Add device` for several devices before sending a name, and again
while names are missing. `device_whit_for_save` is a stack: a name goes to the device
added last, of those that have none yet. No press is lost, and none is answered twice.
-/

namespace SmartDoorLock

open Machine

/-! ## What a step does to the devices waiting for a name -/

section

variable {tbl : CharTable} {s t : ServerState}

theorem deleteMessage_waiting (s : ServerState) (message : ℕ) (deletable : Bool) :
    (deleteMessage s message deletable).deviceWhitForSave = s.deviceWhitForSave := by
  unfold deleteMessage
  split <;> rfl

/-- The message `get_device_name` replies with. -/
def nameReply (btId name : String) : Message := ⟨.chosen btId name, chosenNameKb btId name⟩

inductive WaitingStep (tbl : CharTable) (s : ServerState) : ServerAct → ServerState → Prop where
  | kept (a : ServerAct) (t : ServerState) (hsame : t.deviceWhitForSave = s.deviceWhitForSave)
      (hpress : ∀ message data deletable btId, a = .press message data deletable →
        callbackOf tbl data ≠ .ok (.add btId))
      (htext : ∀ text, a = .text text → t.messages = s.messages) : WaitingStep tbl s a t
  | added (message : ℕ) (data : String) (deletable : Bool) (btId : String) (t : ServerState)
      (hdata : callbackOf tbl data = .ok (.add btId))
      (hpush : t.deviceWhitForSave = s.deviceWhitForSave ++ [btId]) :
      WaitingStep tbl s (.press message data deletable) t
  | named (btId text : String) (t : ServerState)
      (hpop : s.deviceWhitForSave = t.deviceWhitForSave ++ [btId])
      (hshown : t.messages = s.messages ++ [nameReply btId text]) :
      WaitingStep tbl s (.text text) t

theorem waitingStep_callbackHandler (message : ℕ) (data : String) (deletable : Bool) :
    WaitingStep tbl s (.press message data deletable)
      (callbackHandler tbl s message data deletable) := by
  have hkept : ∀ t : ServerState, t.deviceWhitForSave = s.deviceWhitForSave →
      (∀ btId, callbackOf tbl data ≠ .ok (.add btId)) →
      WaitingStep tbl s (.press message data deletable) t := by
    intro t hsame hother
    refine .kept _ t hsame (fun _ _ _ btId heq => ?_) fun text heq => by cases heq
    cases heq
    exact hother btId
  unfold callbackHandler
  split
  · rename_i hdata
    exact hkept _ rfl fun btId h => by rw [hdata] at h; cases h
  · rename_i hdata
    exact hkept _ (deleteMessage_waiting _ _ _) fun btId h => by rw [hdata] at h; cases h
  · rename_i hdata
    exact hkept _ rfl fun btId h => by rw [hdata] at h; cases h
  · rename_i btId hdata
    exact .added message data deletable btId _ hdata (deleteMessage_waiting _ _ _)
  · rename_i hdata
    exact hkept _ (deleteMessage_waiting _ _ _) fun btId h => by rw [hdata] at h; cases h
  · rename_i hdata
    exact hkept _ (deleteMessage_waiting _ _ _) fun btId h => by rw [hdata] at h; cases h
  · rename_i hdata
    have hother : ∀ btId, callbackOf tbl data ≠ .ok (.add btId) :=
      fun btId h => by rw [hdata] at h; cases h
    split
    · exact hkept _ (deleteMessage_waiting _ _ _) hother
    · exact hkept _ rfl hother
  · rename_i hdata
    have hother : ∀ btId, callbackOf tbl data ≠ .ok (.add btId) :=
      fun btId h => by rw [hdata] at h; cases h
    split
    · exact hkept _ rfl hother
    · exact hkept _ (deleteMessage_waiting _ _ _) hother

theorem waitingStep_getDeviceName (text : String) :
    WaitingStep tbl s (.text text) (getDeviceName tbl s text) := by
  have hkept : WaitingStep tbl s (.text text) s :=
    .kept _ s rfl (fun _ _ _ btId heq => by cases heq) fun _ _ => rfl
  unfold getDeviceName
  split
  · exact hkept
  · split
    · exact hkept
    · rename_i btId hlast
      split
      · refine .named btId text _ ?_ rfl
        exact (List.dropLast_append_getLast? btId hlast).symm
      · exact hkept

/-- **What a step does to them.** A press adds one behind the others, a name takes the
last one away, and nothing else touches them. -/
theorem waiting_step {a : ServerAct} (ht : serverStep tbl s a = some t) :
    WaitingStep tbl s a t := by
  cases serverStep_cases ht with
  | wait d => exact .kept _ _ rfl (fun _ _ _ _ heq => by cases heq) fun _ heq => by cases heq
  | mqttMessage msg hidle =>
      refine .kept _ _ ?_ (fun _ _ _ _ heq => by cases heq) fun _ heq => by cases heq
      unfold mqttLookup
      split
      · rfl
      · split
        · rfl
        · split <;> rfl
  | mqttName msg hfound =>
      refine .kept _ _ ?_ (fun _ _ _ _ heq => by cases heq) fun _ heq => by cases heq
      unfold mqttName
      split <;> rfl
  | mqttOpen msg name hnamed =>
      exact .kept _ _ rfl (fun _ _ _ _ heq => by cases heq) fun _ heq => by cases heq
  | press message data deletable m hidle hm hdata => exact waitingStep_callbackHandler _ _ _
  | deviceSettings btId message deletable hbot =>
      refine .kept _ _ ?_ (fun _ _ _ _ heq => by cases heq) fun _ heq => by cases heq
      unfold deviceSettings
      split
      · exact deleteMessage_waiting _ _ _
      · rfl
  | text text hidle => exact waitingStep_getDeviceName text
  | listDevices ids hidle hids =>
      exact .kept _ _ rfl (fun _ _ _ _ heq => by cases heq) fun _ heq => by cases heq

end

/-! ## Counting -/

/-- A press of `Add device` for the id. -/
def adds (tbl : CharTable) (btId : String) (_ : ServerState) : ServerAct → ℕ
  | .press _ data _ =>
      match callbackOf tbl data with
      | .ok (.add key) => if key = btId then 1 else 0
      | _ => 0
  | _ => 0

/-- A text that is answered with a name for the id. -/
def names (tbl : CharTable) (btId : String) (s : ServerState) : ServerAct → ℕ
  | .text text =>
      if (getDeviceName tbl s text).messages = s.messages ++ [nameReply btId text] then 1 else 0
  | _ => 0

section

variable {tbl : CharTable} {s t u : ServerState} {as : List ServerAct}

theorem adds_of_ne {a : ServerAct} {btId : String}
    (hpress : ∀ message data deletable key, a = .press message data deletable →
      callbackOf tbl data ≠ .ok (.add key)) : adds tbl btId s a = 0 := by
  unfold adds
  split
  · rename_i message data deletable
    split
    · rename_i key hdata
      exact absurd hdata (hpress message data deletable key rfl)
    · rfl
  · rfl

theorem names_text {text btId key : String} (ht : serverStep tbl s (.text text) = some t)
    (hshown : t.messages = s.messages ++ [nameReply btId text]) :
    names tbl key s (.text text) = if btId = key then 1 else 0 := by
  cases serverStep_cases ht with
  | text text hidle =>
      rw [names, hshown]
      simp [nameReply, chosenNameKb]

theorem names_of_same {a : ServerAct} {btId : String} (ht : serverStep tbl s a = some t)
    (htext : ∀ text, a = .text text → t.messages = s.messages) : names tbl btId s a = 0 := by
  cases a with
  | text text =>
      cases serverStep_cases ht with
      | text text hidle =>
          rw [names, htext text rfl, if_neg]
          simp
  | _ => rfl

/-- A press puts one on the stack, and a name takes one off it. -/
theorem waiting_balance {a : ServerAct} (ht : serverStep tbl s a = some t) (btId : String) :
    names tbl btId s a + t.deviceWhitForSave.count btId =
      s.deviceWhitForSave.count btId + adds tbl btId s a := by
  cases waiting_step ht with
  | kept a t hsame hpress htext =>
      rw [hsame, adds_of_ne hpress, names_of_same ht htext, Nat.add_comm]
  | added message data deletable key t hdata hpush =>
      have hadds : adds tbl btId s (.press message data deletable) =
          if key = btId then 1 else 0 := by
        rw [adds, hdata]
      rw [hadds, hpush, List.count_append, List.count_singleton]
      simp [names]
  | named key text t hpop hshown =>
      rw [hpop, names_text ht hshown, List.count_append, List.count_singleton]
      simp [adds, Nat.add_comm]

theorem waiting_conserved (hrun : run (serverStep tbl) s as = some u) (btId : String) :
    total (serverStep tbl) (names tbl btId) s as + u.deviceWhitForSave.count btId =
      s.deviceWhitForSave.count btId + total (serverStep tbl) (adds tbl btId) s as := by
  induction as generalizing s with
  | nil =>
      cases hrun
      exact Nat.add_comm _ _
  | cons a as ih =>
      rw [run_cons, Option.bind_eq_some_iff] at hrun
      obtain ⟨t, hta, ht⟩ := hrun
      have hstep := waiting_balance hta btId
      have hrest := ih ht
      simp only [total, hta, Option.elim_some]
      omega

/-- **A name goes to the device added last.** In every run from a server without
devices waiting: when a text of the owner is answered with a name for a device, it is
the one of an earlier press of `Add device`, and of every device as many names have
been given since that press as presses have added it. At any time the presses for a
device are the names given to it and its places in the stack. -/
theorem name_for_last_added (hstart : s.deviceWhitForSave = [])
    (hrun : run (serverStep tbl) s as = some u) :
    (∀ btId, total (serverStep tbl) (adds tbl btId) s as =
        total (serverStep tbl) (names tbl btId) s as + u.deviceWhitForSave.count btId) ∧
      ∀ btId text t, serverStep tbl u (.text text) = some t → names tbl btId u (.text text) = 1 →
        ∃ pre message data deletable post w, as = pre ++ .press message data deletable :: post ∧
          callbackOf tbl data = .ok (.add btId) ∧
          run (serverStep tbl) s (pre ++ [.press message data deletable]) = some w ∧
          ∀ key, total (serverStep tbl) (names tbl key) w post =
            total (serverStep tbl) (adds tbl key) w post := by
  constructor
  · intro btId
    have hall := waiting_conserved hrun btId
    rw [hstart, List.count_nil, Nat.zero_add] at hall
    exact hall.symm
  · intro btId text t ht hname
    -- the device is on top of the stack
    have hlast : ∃ front, u.deviceWhitForSave = front ++ [btId] := by
      cases waiting_step ht with
      | kept a t hsame hpress htext =>
          rw [names_of_same ht htext] at hname
          cases hname
      | named key text t hpop hshown =>
          rw [names_text ht hshown] at hname
          split at hname
          · rename_i hkey
            rw [← hkey]
            exact ⟨_, hpop⟩
          · cases hname
    obtain ⟨front, hfront⟩ := hlast
    -- the stack reached this height when the device was added
    have hempty : ¬ Throughout (serverStep tbl)
        (fun v => u.deviceWhitForSave <+: v.deviceWhitForSave) s as := by
      intro hall
      have hprefix : u.deviceWhitForSave <+: s.deviceWhitForSave := hall [] as s rfl rfl
      rw [hstart, hfront, List.prefix_nil] at hprefix
      simp at hprefix
    obtain ⟨pre, a, post, v, w, rfl, hv, hw, hnot, hreached, -, hrest⟩ :=
      run_becomes (P := fun v => u.deviceWhitForSave <+: v.deviceWhitForSave) hempty
        (List.prefix_refl _) hrun
    cases waiting_step hw with
    | kept a w hsame hpress htext =>
        rw [hsame] at hreached
        exact absurd hreached hnot
    | named key text w hpop hshown =>
        rw [hpop] at hnot
        exact absurd (hreached.trans (List.prefix_append _ _)) hnot
    | added message data deletable key w hdata hpush =>
        rw [hpush] at hreached
        have htop : u.deviceWhitForSave = v.deviceWhitForSave ++ [key] :=
          (List.prefix_concat_iff.mp hreached).resolve_right hnot
        have hkey : key = btId := by
          rw [hfront] at htop
          exact (List.singleton_inj.mp (List.append_inj' htop rfl).2).symm
        refine ⟨pre, message, data, deletable, post, w, rfl, hkey ▸ hdata,
          run_snoc_eq_some.mpr ⟨v, hv, hw⟩, fun btId => ?_⟩
        have hbalance := waiting_conserved hrest btId
        rw [hpush, ← htop] at hbalance
        omega

end

/-! Two strangers at the door are added before either has a name. -/

def noDevices : ServerState := { now := 0, db := fun _ => none }

def strangersRun : List ServerAct :=
  [.mqttMessage "AA", .mqttMessage "BB", .press 0 "add: AA" true, .press 0 "add: BB" true]

theorem strangersRun_named :
    ((run (serverStep asciiTable) noDevices strangersRun).bind fun u =>
      (serverStep asciiTable u (.text "Ben")).map fun t =>
        (names asciiTable "BB" u (.text "Ben"), t.deviceWhitForSave)) = some (1, ["AA"]) := by
  decide +kernel

theorem strangersRun_last : ∃ u t,
    run (serverStep asciiTable) noDevices strangersRun = some u ∧
      serverStep asciiTable u (.text "Ben") = some t ∧ t.deviceWhitForSave = ["AA"] ∧
      ∃ pre message data deletable post w,
        strangersRun = pre ++ .press message data deletable :: post ∧
          callbackOf asciiTable data = .ok (.add "BB") ∧
          run (serverStep asciiTable) noDevices (pre ++ [.press message data deletable]) =
            some w ∧
          ∀ key, total (serverStep asciiTable) (names asciiTable key) w post =
            total (serverStep asciiTable) (adds asciiTable key) w post := by
  obtain ⟨u, hu, hnamed⟩ := Option.bind_eq_some_iff.mp strangersRun_named
  obtain ⟨t, ht, hvalues⟩ := Option.map_eq_some_iff.mp hnamed
  obtain ⟨hname, hleft⟩ := Prod.mk.inj hvalues
  obtain ⟨-, hlast⟩ := name_for_last_added (rfl : noDevices.deviceWhitForSave = []) hu
  exact ⟨u, t, hu, ht, hleft, hlast "BB" "Ben" t ht hname⟩

end SmartDoorLock
