import SmartDoorLock.Protocol.Authorisation

/-!
# The door follows the orders

The owner orders the door to lock, to unlock or to go back to normal. The bot publishes
the order, which may fail without anybody telling, and the door obeys when the broker
delivers it, while others make it open. As long as the broker delivers what it has got
for the door in the order of publication and each message once, the door is in the mode
of the last order that has reached it. Once everything is delivered, that is the last
order that was published.
-/

namespace SmartDoorLock

open CText WrapClock Machine

/-! ## Orders and messages -/

/-- The commands among these messages that set the mode, in order. -/
def modes (ms : List MqttMessage) : List Command := ms.filterMap fun m => modeOf m.payload

/-- What of these messages is meant for the door, the latest last. -/
def forDoor (published : List MqttMessage) : List MqttMessage :=
  (published.filter fun m => m.topicName = TOPIC_RECV).reverse

/-- What the broker has delivered to the door, in this order. -/
def delivered (as : List SystemAct) : List MqttMessage :=
  as.filterMap fun
    | .toDoor m => some m
    | _ => none

/-- The orders of the owner but `open`, in this order. -/
def givenOrders (as : List SystemAct) : List OwnerCommand :=
  as.filterMap fun
    | .command c _ _ => if c = .open then none else some c
    | _ => none

/-- Those of them that the broker has got. -/
def sentOrders (as : List SystemAct) : List OwnerCommand :=
  as.filterMap fun
    | .command c arrives _ => if c = .open ∨ arrives = false then none else some c
    | _ => none

theorem modes_append (ms ns : List MqttMessage) : modes (ms ++ ns) = modes ms ++ modes ns :=
  List.filterMap_append

theorem delivered_append (as bs : List SystemAct) :
    delivered (as ++ bs) = delivered as ++ delivered bs :=
  List.filterMap_append

theorem sentOrders_append (as bs : List SystemAct) :
    sentOrders (as ++ bs) = sentOrders as ++ sentOrders bs :=
  List.filterMap_append

/-- When the broker gets every order, these are all. -/
theorem sentOrders_eq_given {as : List SystemAct} (h : ∀ c shown, .command c false shown ∉ as) :
    sentOrders as = givenOrders as := by
  refine List.filterMap_congr fun a ha => ?_
  cases a with
  | command c arrives shown =>
      have harrives : arrives ≠ false := by
        rintro rfl
        exact h c shown ha
      simp [harrives]
  | _ => rfl

theorem forDoor_append (news old : List MqttMessage) :
    forDoor (news ++ old) = forDoor old ++ forDoor news := by
  rw [forDoor, List.filter_append, List.reverse_append]
  rfl

/-- Messages without a mode for the door. -/
theorem modes_forDoor_eq_nil {ms : List MqttMessage}
    (h : ∀ m ∈ ms, m.topicName = TOPIC_RECV → modeOf m.payload = none) :
    modes (forDoor ms) = [] := by
  rw [modes, List.filterMap_eq_nil_iff]
  intro m hm
  rw [forDoor, List.mem_reverse, List.mem_filter, decide_eq_true_eq] at hm
  exact h m hm.1 hm.2

theorem modeOf_text (c : Command) :
    modeOf c.text = if c = .openDoor then none else some c := by
  rw [modeOf, commandOf_text]
  cases c <;> rfl

/-! ## What is published -/

section

variable {tbl : CharTable} {s t u : System} {a : SystemAct} {as : List SystemAct}

/-- Only the orders of the owner publish a mode, each its own. -/
theorem modes_published_step (ht : systemStep tbl s a = some t) :
    modes (forDoor t.published) =
      modes (forDoor s.published) ++ (sentOrders [a]).map OwnerCommand.command := by
  have hquiet : ∀ news : List MqttMessage,
      (∀ m ∈ news, m.topicName = TOPIC_RECV → modeOf m.payload = none) →
      modes (forDoor (news ++ s.published)) = modes (forDoor s.published) ++ [] := by
    intro news hnews
    rw [forDoor_append, modes_append, modes_forDoor_eq_nil hnews]
  cases systemStep_cases ht with
  | server b calls v ms hmsg hv hms =>
      refine hquiet ms fun m hm _ => ?_
      unfold serverPublishes at hms
      split at hms
      · rw [openDoor_only hms m hm, publish, modeOf_text]
        rfl
      · cases hms
        cases hm
  | command c arrives shown hidle =>
      have hsent : sentOrders [.command c arrives shown] =
          if c = .open ∨ arrives = false then [] else [c] := by
        by_cases hlost : c = .open ∨ arrives = false <;> simp [sentOrders, hlost]
      have hmode : modes (forDoor (sentIf arrives [(forceLockOrOpen c).1])) =
          (if c = .open ∨ arrives = false then [] else [c]).map OwnerCommand.command := by
        cases arrives <;> cases c <;> decide
      show modes (forDoor (sentIf arrives _ ++ s.published)) = _
      rw [forDoor_append, modes_append, hmode, hsent]
  | door b arrives v hmsg hv =>
      refine hquiet _ fun m hm htopic => ?_
      obtain ⟨e, -, he⟩ := List.mem_filterMap.mp (mem_sentIf.mp hm).2
      cases e with
      | handed addr time =>
          cases he
          exact absurd htopic topics_differ
      | _ => cases he
  | announce hpc =>
      refine hquiet [DoorPayload.connected.message] fun m hm htopic => ?_
      rw [List.mem_singleton.mp hm] at htopic
      exact absurd htopic topics_differ
  | lastWill =>
      refine hquiet [DoorPayload.lastWill.message] fun m hm htopic => ?_
      rw [List.mem_singleton.mp hm] at htopic
      exact absurd htopic topics_differ
  | _ => exact (List.append_nil _).symm

theorem modes_published (hs : s.published = []) (hrun : run (systemStep tbl) s as = some u) :
    modes (forDoor u.published) = (sentOrders as).map OwnerCommand.command := by
  induction as using List.reverseRecOn generalizing u with
  | nil =>
      cases hrun
      rw [hs]
      rfl
  | append_singleton as a ih =>
      obtain ⟨v, hv, hva⟩ := run_snoc_eq_some.mp hrun
      rw [modes_published_step hva, ih hv, sentOrders_append, List.map_append]

/-! ## What is obeyed -/

/-- A status that these commands, in this order, may have led to. -/
structure Follows (stat : DoorStatus) (cs : List Command) : Prop where
  locked : stat = .locked ↔ cs.getLast? = some .lock
  unlocked : stat = .unlocked → cs.getLast? = some .unlock

theorem Follows.stay {x y : DoorStatus} {cs : List Command} (h : Follows x cs)
    (hxy : y = x ∨ (x = .opened ∧ y = .closed)) : Follows y cs := by
  rcases hxy with rfl | ⟨rfl, rfl⟩
  · exact h
  · refine ⟨?_, fun hclosed => by cases hclosed⟩
    rw [← h.locked]
    exact iff_of_false (fun hclosed => by cases hclosed) fun hopened => by cases hopened

theorem Follows.message {cs : List Command} {d : Door} (h : Follows d.stat cs)
    (curTime : UInt32) (buffer : List UInt8) :
    Follows (mqttMessageCb curTime buffer d).1.stat (cs ++ (modeOf buffer).toList) := by
  have hlocked := mqttMessageCb_locked_iff curTime buffer d
  have hstat := mqttMessageCb_stat curTime buffer d
  cases hmode : modeOf buffer with
  | some c =>
      obtain ⟨hc, hne⟩ := modeOf_eq_some_iff.mp hmode
      rw [hc] at hstat
      rw [Option.toList_some, hstat]
      refine ⟨?_, fun hunlocked => ?_⟩
      · rw [List.getLast?_concat, obey_eq_locked_iff hne, Option.some.injEq]
      · rw [List.getLast?_concat, (obey_eq_unlocked_iff hne _).mp hunlocked]
  | none =>
      rw [Option.toList_none, List.append_nil]
      refine ⟨?_, fun hunlocked => h.unlocked ?_⟩
      · rw [hlocked, hmode, ← h.locked]
        simp
      · rw [hstat] at hunlocked
        rcases modeOf_eq_none_iff.mp hmode with hc | hc
        · rw [hc] at hunlocked
          exact hunlocked
        · rw [hc] at hunlocked
          exact absurd hunlocked (obey_openDoor_ne_unlocked _)

/-- The mode of the door is that of the last order delivered, in whatever order. -/
theorem follows_delivered (hs : s.door = {}) (hrun : run (systemStep tbl) s as = some u) :
    Follows u.door.drIot.stat (modes (delivered as)) := by
  induction as using List.reverseRecOn generalizing u with
  | nil =>
      cases hrun
      rw [hs]
      exact ⟨iff_of_false (fun h => by cases h) (fun h => by cases h), fun h => by cases h⟩
  | append_singleton as a ih =>
      obtain ⟨v, hv, hva⟩ := run_snoc_eq_some.mp hrun
      have hbefore := ih hv
      rw [delivered_append, modes_append]
      cases systemStep_cases hva with
      | door b arrives w hmsg hw =>
          rw [show modes (delivered [.door b arrives]) = [] from rfl, List.append_nil]
          exact hbefore.stay (stat_by_appStep hw hmsg)
      | toDoor m w hm htopic hw =>
          have hmodes : modes (delivered [.toDoor m]) = (modeOf m.payload).toList := by
            rw [show delivered [.toDoor m] = [m] from rfl, modes, List.filterMap_cons]
            cases modeOf m.payload <;> rfl
          have hdoor : w.drIot =
              (mqttMessageCb (stamp v.door.now) m.payload v.door.drIot).1 := by
            simp only [appStep] at hw
            split at hw <;> cases hw
            rfl
          rw [hmodes, hdoor]
          exact hbefore.message _ _
      | server _ _ _ _ _ _ _ => exact (List.append_nil _).symm ▸ hbefore
      | command _ _ _ _ => exact (List.append_nil _).symm ▸ hbefore
      | announce _ => exact (List.append_nil _).symm ▸ hbefore
      | lastWill => exact (List.append_nil _).symm ▸ hbefore
      | toServer _ _ _ _ _ _ _ => exact (List.append_nil _).symm ▸ hbefore
      | toServerRaised _ _ _ _ => exact (List.append_nil _).symm ▸ hbefore

theorem command_injective : Function.Injective OwnerCommand.command := by
  intro c o
  cases c <;> cases o <;> decide

theorem getLast?_command (cs : List OwnerCommand) (c : OwnerCommand) :
    (cs.map OwnerCommand.command).getLast? = some c.command ↔ cs.getLast? = some c := by
  rw [List.getLast?_map]
  exact Option.map_injective command_injective |>.eq_iff' rfl

/-- **The door follows the orders.** Take any run from the start in which the broker has
delivered to the door the first of the messages it has got for it, in the order of
publication and each once; openings for devices, by the button and by the owner, and
the timer may come in between. Then the door obeys the first of the orders that the
owner has given and the broker has got: it is locked exactly when the last one that has
reached it was to lock, and unlocked only when it was to unlock. Once all is delivered,
that is the last order the broker has got, and the last order given if none was lost. -/
theorem door_follows_orders (hs : Booted s) (hrun : run (systemStep tbl) s as = some u)
    (hinorder : delivered as <+: forDoor u.published) :
    ∃ obeyed, obeyed <+: sentOrders as ∧
      obeyed.map OwnerCommand.command = modes (delivered as) ∧
      (u.door.drIot.stat = .locked ↔ obeyed.getLast? = some .lock) ∧
      (u.door.drIot.stat = .unlocked → obeyed.getLast? = some .unlock) ∧
      (delivered as = forDoor u.published → obeyed = sentOrders as ∧
        ((∀ c shown, .command c false shown ∉ as) → obeyed = givenOrders as)) := by
  have hpublished := modes_published hs.published hrun
  have hfollows := follows_delivered hs.door hrun
  have hprefix : modes (delivered as) <+: (sentOrders as).map OwnerCommand.command := by
    rw [← hpublished]
    exact hinorder.filterMap _
  -- the orders that have been delivered are the first ones published
  obtain ⟨obeyed, hobeyed, hmap⟩ : ∃ obeyed, obeyed <+: sentOrders as ∧
      obeyed.map OwnerCommand.command = modes (delivered as) := by
    refine ⟨(sentOrders as).take (modes (delivered as)).length, List.take_prefix _ _, ?_⟩
    rw [List.map_take]
    exact (List.prefix_iff_eq_take.mp hprefix).symm
  refine ⟨obeyed, hobeyed, hmap, ?_, fun hunlocked => ?_, fun hall => ?_⟩
  · rw [hfollows.locked, ← hmap]
    exact getLast?_command obeyed .lock
  · have hlast := hfollows.unlocked hunlocked
    rw [← hmap] at hlast
    exact (getLast?_command obeyed .unlock).mp hlast
  · have hsame : obeyed = sentOrders as := by
      apply hobeyed.eq_of_length
      rw [hall, hpublished] at hmap
      simpa using congrArg List.length hmap
    exact ⟨hsame, fun hnone => hsame.trans (sentOrders_eq_given hnone)⟩

end

/-! ## A door behind its orders -/

/-- The owner unlocks the door, which the broker never gets, locks it and lets it go on;
the last order is still on the way. -/
def lockedRun : List SystemAct :=
  [.command .unlock false true, .command .lock true false, .command .auto true true,
    .toDoor (publish .lock)]

theorem lockedRun_result :
    (run (systemStep asciiTable) (house {}) lockedRun).map (fun u =>
      (u.door.drIot.stat, forDoor u.published, u.statusNotices)) =
        some (.locked, [publish .lock, publish .normal],
          ["**--Status:-- the system is back to normal**", "**--Status:-- door is Unlocked**"]) := by
  decide +kernel

theorem lockedRun_follows : ∃ (u : System) (obeyed : List OwnerCommand),
    run (systemStep asciiTable) (house {}) lockedRun = some u ∧
      obeyed <+: [.lock, .auto] ∧ obeyed.getLast? = some .lock := by
  obtain ⟨u, hu, hvalues⟩ := Option.map_eq_some_iff.mp lockedRun_result
  obtain ⟨hstat, hrest⟩ := Prod.mk.inj hvalues
  have hinorder : delivered lockedRun <+: forDoor u.published := by
    rw [(Prod.mk.inj hrest).1]
    exact ⟨[publish .normal], rfl⟩
  obtain ⟨obeyed, hobeyed, -, hlocked, -⟩ := door_follows_orders booted_house hu hinorder
  exact ⟨u, obeyed, hu, hobeyed, hlocked.mp hstat⟩

end SmartDoorLock
