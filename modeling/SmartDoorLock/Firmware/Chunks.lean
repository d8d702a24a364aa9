import Mathlib.Data.Bool.AllAny
import Mathlib.Data.List.Infix
import SmartDoorLock.Firmware.Door

/-!
# Messages in pieces

A payload that does not fit the receive buffer reaches `mqtt_message_cb` in
several calls, each with the next piece of it. The callback looks at the piece
alone: it reads neither `msg_new` nor `msg_done`. So a piece that happens to be
a command is obeyed, and a command cut in two is not.
-/

namespace SmartDoorLock

open CText

/-- A call of the callback: what `cur_time()` returns in it, and its piece of
the payload. -/
structure PieceCall where
  curTime : UInt32
  chunk : List UInt8
deriving DecidableEq, Repr

/-- The calls for one payload, one after the other. -/
def deliver (d : Door) (calls : List PieceCall) : Door :=
  calls.foldl (fun d call => (mqttMessageCb call.curTime call.chunk d).1) d

/-- The command a whole payload is. -/
def wholeCommand (payload : List UInt8) : Option Command :=
  [Command.openDoor, .lock, .unlock, .normal].find? fun c => payload = c.text

/-- What the payload does to the status, taken as one message. -/
def DoorStatus.obeyWhole (stat : DoorStatus) (payload : List UInt8) : DoorStatus :=
  match wholeCommand payload with
  | some c => stat.obey c
  | none => stat

/-- The calls leave the status that the whole payload asks for. -/
def DeliveredWhole (d : Door) (calls : List PieceCall) : Prop :=
  (deliver d calls).stat = d.stat.obeyWhole (calls.map PieceCall.chunk).flatten

/-! ## Commands without a NUL -/

theorem wholeCommand_eq_some_iff {payload : List UInt8} {c : Command} :
    wholeCommand payload = some c ↔ payload = c.text := by
  constructor
  · intro h
    simpa using List.find?_some h
  · rintro rfl
    cases c <;> decide

theorem text_length (c : Command) : c.text.length ≤ 9 := by
  cases c <;> decide

theorem cstr_of_no_nul {mem : List UInt8} (h : ∀ x ∈ mem, x ≠ 0) : cstr mem = mem :=
  List.takeWhile_eq_self_iff.mpr fun x hx => by simpa using h x hx

/-- On bytes that are no NUL the callback compares the whole piece. -/
theorem commandOf_eq_wholeCommand {buffer : List UInt8} (h : ∀ x ∈ buffer, x ≠ 0) :
    commandOf buffer = wholeCommand buffer := by
  have htake : ∀ x ∈ buffer.take MQTT_MAX_PACKET_SZ, x ≠ 0 :=
    fun x hx => h x (List.mem_of_mem_take hx)
  have htext : ∀ c : Command, strcmp (msgBuf buffer) c.text = 0 ↔ buffer = c.text := by
    intro c
    rw [strcmp_eq_zero_iff, cstr_text, msgBuf, cstr_append_zero, cstr_of_no_nul htake]
    constructor
    · intro heq
      have hlen : (buffer.take MQTT_MAX_PACKET_SZ).length ≤ 9 := heq ▸ text_length c
      rw [List.length_take, MQTT_MAX_PACKET_SZ] at hlen
      rwa [List.take_of_length_le (by rw [MQTT_MAX_PACKET_SZ]; omega)] at heq
    · rintro rfl
      have hlen := text_length c
      exact List.take_of_length_le (by rw [MQTT_MAX_PACKET_SZ]; omega)
  ext c
  rw [← strcmp_text_iff, htext, wholeCommand_eq_some_iff]

/-! ## Sequences of commands -/

/-- What the calls do to the status: they obey the pieces that are commands. -/
theorem deliver_stat (d : Door) (calls : List PieceCall) :
    (deliver d calls).stat =
      ((calls.map PieceCall.chunk).filterMap commandOf).foldl DoorStatus.obey d.stat := by
  induction calls generalizing d with
  | nil => rfl
  | cons call calls ih =>
      have hstat := mqttMessageCb_stat call.curTime call.chunk d
      rw [deliver, List.foldl_cons, ← deliver, ih, hstat, List.map_cons, List.filterMap_cons]
      cases commandOf call.chunk <;> rfl

/-- A command leaves no door in this status. -/
def Command.leaves : Command → DoorStatus
  | .openDoor => .closed
  | .lock => .unlocked
  | .unlock => .locked
  | .normal => .locked

theorem obey_ne_leaves (c : Command) (s : DoorStatus) : s.obey c ≠ c.leaves := by
  cases c <;> cases s <;> decide

/-- Commands in sequence do not leave every status as it was. -/
theorem foldl_obey_moves {cs : List Command} (h : cs ≠ []) :
    ∃ s : DoorStatus, cs.foldl DoorStatus.obey s ≠ s := by
  obtain ⟨cs, c, rfl⟩ := (List.eq_nil_or_concat cs).resolve_left h
  refine ⟨c.leaves, ?_⟩
  rw [List.concat_eq_append, List.foldl_append, List.foldl_cons, List.foldl_nil]
  exact obey_ne_leaves c _

theorem foldl_obey_lock {cs : List Command} (hne : cs ≠ []) (h : ∀ c ∈ cs, c = .lock)
    (s : DoorStatus) : cs.foldl DoorStatus.obey s = .locked := by
  obtain ⟨cs, c, rfl⟩ := (List.eq_nil_or_concat cs).resolve_left hne
  obtain rfl : c = .lock := h c (by simp)
  rw [List.concat_eq_append, List.foldl_append, List.foldl_cons, List.foldl_nil]
  cases cs.foldl DoorStatus.obey s <;> rfl

/-- The only command inside another one. -/
theorem text_isInfix {c d : Command} (h : c.text <:+: d.text) :
    c = d ∨ (c = .lock ∧ d = .unlock) := by
  have hall : ∀ c ∈ [Command.openDoor, .lock, .unlock, .normal],
      ∀ d ∈ [Command.openDoor, .lock, .unlock, .normal], c.text <:+: d.text →
        c = d ∨ (c = .lock ∧ d = .unlock) := by
    decide
  exact hall c (by cases c <;> simp) d (by cases d <;> simp) h

/-! ## The divisions that are safe -/

theorem no_nul_of_mem {chunks : List (List UInt8)} (hnul : ∀ x ∈ chunks.flatten, x ≠ 0)
    {chunk : List UInt8} (h : chunk ∈ chunks) : ∀ x ∈ chunk, x ≠ 0 :=
  fun x hx => hnul x (List.mem_flatten.mpr ⟨chunk, h, hx⟩)

/-- The pieces of a command cut in two hold no command, but for `lock` in
`unlock`. -/
theorem command_of_piece {chunks : List (List UInt8)} (hne : ∀ chunk ∈ chunks, chunk ≠ [])
    (hnul : ∀ x ∈ chunks.flatten, x ≠ 0) (hlen : chunks.length ≠ 1) {c d : Command}
    (hd : chunks.flatten = d.text) (hc : c ∈ chunks.filterMap commandOf) :
    c = .lock ∧ d = .unlock := by
  obtain ⟨chunk, hmem, hchunk⟩ := List.mem_filterMap.mp hc
  rw [commandOf_eq_wholeCommand (no_nul_of_mem hnul hmem), wholeCommand_eq_some_iff] at hchunk
  obtain ⟨before, after, rfl⟩ := List.append_of_mem hmem
  rw [List.flatten_append, List.flatten_cons, hchunk] at hd
  have hinfix : c.text <:+: d.text := ⟨before.flatten, after.flatten, by rw [← hd, List.append_assoc]⟩
  rcases text_isInfix hinfix with rfl | h
  · -- the piece is the whole text, so the other pieces are empty, and there are none
    exfalso
    have hlens := congrArg List.length hd
    simp only [List.length_append] at hlens
    have hbefore : before.flatten = [] := List.length_eq_zero_iff.mp (by omega)
    have hafter : after.flatten = [] := List.length_eq_zero_iff.mp (by omega)
    have hnil : ∀ rest : List (List UInt8), (∀ chunk ∈ rest, chunk ≠ []) → rest.flatten = [] →
        rest = [] := by
      intro rest hrest hflat
      rw [List.flatten_eq_nil_iff] at hflat
      exact List.eq_nil_iff_forall_not_mem.mpr fun x hx => hrest x hx (hflat x hx)
    rw [hnil before (fun x hx => hne x (List.mem_append_left _ hx)) hbefore,
      hnil after (fun x hx => hne x (List.mem_append_right _ (List.mem_cons_of_mem _ hx))) hafter]
      at hlen
    exact hlen rfl
  · exact h

/-- **Only whole messages.** A payload without a NUL, in nonempty pieces, has
the effect of the whole payload on every door if and only if it comes in one
piece, or neither it nor any of its pieces is a command. For a given door it has
that effect if and only if the commands among the pieces, obeyed in turn, lead
to the status the whole payload asks for. -/
theorem delivered_whole_iff {chunks : List (List UInt8)} (hne : ∀ chunk ∈ chunks, chunk ≠ [])
    (hnul : ∀ x ∈ chunks.flatten, x ≠ 0) :
    ((∀ d calls, calls.map PieceCall.chunk = chunks → DeliveredWhole d calls) ↔
      chunks.length = 1 ∨
        (wholeCommand chunks.flatten = none ∧ ∀ chunk ∈ chunks, commandOf chunk = none)) ∧
    ∀ d calls, calls.map PieceCall.chunk = chunks →
      (DeliveredWhole d calls ↔
        (chunks.filterMap commandOf).foldl DoorStatus.obey d.stat =
          d.stat.obeyWhole chunks.flatten) := by
  have hdoor : ∀ d calls, calls.map PieceCall.chunk = chunks →
      (DeliveredWhole d calls ↔
        (chunks.filterMap commandOf).foldl DoorStatus.obey d.stat =
          d.stat.obeyWhole chunks.flatten) := by
    rintro d calls rfl
    rw [DeliveredWhole, deliver_stat]
  refine ⟨?_, hdoor⟩
  constructor
  · intro hall
    have hstat : ∀ s : DoorStatus,
        (chunks.filterMap commandOf).foldl DoorStatus.obey s = s.obeyWhole chunks.flatten := by
      intro s
      have hmap : (chunks.map (PieceCall.mk 0)).map PieceCall.chunk = chunks := by
        rw [List.map_map]
        exact List.map_id chunks
      exact (hdoor { stat := s } _ hmap).mp (hall _ _ hmap)
    by_contra hcond
    obtain ⟨hlen, hcmd⟩ := not_or.mp hcond
    cases hwhole : wholeCommand chunks.flatten with
    | none =>
        have hsome : chunks.filterMap commandOf ≠ [] := by
          intro hnil
          exact hcmd ⟨hwhole, List.filterMap_eq_nil_iff.mp hnil⟩
        obtain ⟨s, hs⟩ := foldl_obey_moves hsome
        have hsame := hstat s
        rw [DoorStatus.obeyWhole, hwhole] at hsame
        exact hs hsame
    | some d =>
        have htext := wholeCommand_eq_some_iff.mp hwhole
        have hpieces : ∀ c ∈ chunks.filterMap commandOf, c = .lock ∧ d = .unlock :=
          fun c hc => command_of_piece hne hnul hlen htext hc
        have hobey : ∀ s : DoorStatus,
            (chunks.filterMap commandOf).foldl DoorStatus.obey s = s.obey d := by
          intro s
          rw [hstat s, DoorStatus.obeyWhole, hwhole]
        by_cases hnil : chunks.filterMap commandOf = []
        · have hmoved := hobey d.leaves
          rw [hnil] at hmoved
          exact obey_ne_leaves d _ hmoved.symm
        · obtain ⟨c, hc⟩ := List.exists_mem_of_ne_nil _ hnil
          obtain ⟨-, rfl⟩ := hpieces c hc
          have hlocked := hobey .closed
          rw [foldl_obey_lock hnil fun c hc => (hpieces c hc).1] at hlocked
          cases hlocked
  · rintro (hlen | ⟨hwhole, hcmd⟩) d calls hcalls
    · obtain ⟨chunk, rfl⟩ := List.length_eq_one_iff.mp hlen
      have hcommand := commandOf_eq_wholeCommand (no_nul_of_mem hnul (List.mem_singleton_self chunk))
      rw [hdoor d calls hcalls, DoorStatus.obeyWhole, List.flatten_singleton, ← hcommand,
        List.filterMap_cons]
      cases commandOf chunk <;> rfl
    · rw [hdoor d calls hcalls, List.filterMap_eq_nil_iff.mpr hcmd, DoorStatus.obeyWhole, hwhole]
      rfl

/-- A payload of 521 bytes whose last nine are `open_door`. -/
def longPayload : List (List UInt8) := [List.replicate 512 97, OPEN_DOOR_CMD]

theorem longPayload_no_command : wholeCommand longPayload.flatten = none := by
  decide +kernel

/-- Its last piece opens a closed door. -/
theorem last_piece_opens :
    (∀ chunk ∈ longPayload, chunk ≠ []) ∧ (∀ x ∈ longPayload.flatten, x ≠ 0) ∧
      ¬ ∀ d calls, calls.map PieceCall.chunk = longPayload → DeliveredWhole d calls := by
  have hnul : ∀ x ∈ longPayload.flatten, x ≠ 0 := List.all_iff_forall_prop.mp (by decide +kernel)
  refine ⟨by decide, hnul, fun hall => ?_⟩
  have hopened : (deliver {} (longPayload.map (PieceCall.mk 0))).stat = .opened := by decide +kernel
  have hwhole := hall {} (longPayload.map (PieceCall.mk 0)) rfl
  rw [DeliveredWhole, hopened] at hwhole
  have hmap : (longPayload.map (PieceCall.mk 0)).map PieceCall.chunk = longPayload := rfl
  rw [hmap, DoorStatus.obeyWhole, longPayload_no_command] at hwhole
  cases hwhole

/-- In one piece `unlock` is obeyed on every door; cut after `un` it locks. -/
theorem unlock_in_one_piece :
    (∀ d calls, calls.map PieceCall.chunk = [UNLOCK_DOOR_CMD] → DeliveredWhole d calls) ∧
      ¬ ∀ d calls, calls.map PieceCall.chunk = [ascii "un", LOCK_DOOR_CMD] →
        DeliveredWhole d calls := by
  constructor
  · exact (delivered_whole_iff (by decide) (List.all_iff_forall_prop.mp (by decide))).1.mpr
      (Or.inl rfl)
  · intro hall
    have hnul : ∀ x ∈ [ascii "un", LOCK_DOOR_CMD].flatten, x ≠ 0 :=
      List.all_iff_forall_prop.mp (by decide)
    rcases (delivered_whole_iff (by decide) hnul).1.mp hall with hlen | ⟨hwhole, -⟩
    · cases hlen
    · revert hwhole
      decide

end SmartDoorLock
