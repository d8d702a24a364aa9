import SmartDoorLock.Firmware.Door
import Mathlib.Data.List.Induction

/-!
# Histories of the door

A history is the handled messages and timer ticks since boot, in the order in
which they happened. The status of the door is compared with the last message
among lock / unlock / normal of the history.
-/

namespace SmartDoorLock

open CText

/-- One thing that happens to the door, with the `cur_time()` it reads. -/
inductive DoorEvent where
  | message (curTime : UInt32) (buffer : List UInt8)
  | tick (curTime : UInt32)
deriving DecidableEq, Repr

/-- `dr_iot` and LED0. -/
structure DoorUnit where
  drIot : Door := {}
  led0 : Bool := false
deriving DecidableEq, Repr

def DoorUnit.handle (u : DoorUnit) : DoorEvent → DoorUnit
  | .message curTime buffer => { u with drIot := (mqttMessageCb curTime buffer u.drIot).1 }
  | .tick curTime =>
      let r := periodicTimeout curTime u.drIot
      { drIot := r.1, led0 := r.2 }

/-- The door after a history that starts at boot. -/
def doorAfter (evs : List DoorEvent) : DoorUnit := evs.foldl DoorUnit.handle {}

@[simp] theorem doorAfter_nil : doorAfter [] = {} := rfl

@[simp] theorem doorAfter_snoc (evs : List DoorEvent) (e : DoorEvent) :
    doorAfter (evs ++ [e]) = (doorAfter evs).handle e := by
  simp [doorAfter, List.foldl_append]

/-- The command an event is; a tick is none. -/
def DoorEvent.command : DoorEvent → Option Command
  | .message _ buffer => commandOf buffer
  | .tick _ => none

/-- The command an event is, when it is one of lock / unlock / normal. -/
def DoorEvent.mode : DoorEvent → Option Command
  | .message _ buffer => modeOf buffer
  | .tick _ => none

/-- The last message among lock / unlock / normal. -/
def lastMode (evs : List DoorEvent) : Option Command := (evs.filterMap DoorEvent.mode).getLast?

@[simp] theorem lastMode_nil : lastMode [] = none := rfl

theorem lastMode_snoc (evs : List DoorEvent) (e : DoorEvent) :
    lastMode (evs ++ [e]) = e.mode.or (lastMode evs) := by
  unfold lastMode
  rw [List.filterMap_append, List.getLast?_append]
  cases h : e.mode <;> simp [h]

theorem mode_eq_some_iff {e : DoorEvent} {c : Command} :
    e.mode = some c ↔ e.command = some c ∧ c ≠ .openDoor := by
  cases e with
  | tick curTime => simp [DoorEvent.mode, DoorEvent.command]
  | message curTime buffer => exact modeOf_eq_some_iff

theorem mode_eq_none_iff {e : DoorEvent} :
    e.mode = none ↔ e.command = none ∨ e.command = some .openDoor := by
  cases e with
  | tick curTime => simp [DoorEvent.mode, DoorEvent.command]
  | message curTime buffer => exact modeOf_eq_none_iff

/-! ## What one event does -/

/-- A message that is a command makes the door obey it. -/
theorem handle_of_command {e : DoorEvent} {c : Command} (h : e.command = some c)
    (u : DoorUnit) : (u.handle e).drIot.stat = u.drIot.stat.obey c := by
  cases e with
  | tick curTime => simp [DoorEvent.command] at h
  | message curTime buffer =>
      have hc : commandOf buffer = some c := h
      simp [DoorUnit.handle, mqttMessageCb_stat, hc]

/-- Neither a tick nor a message that is no command moves the door into or out
of locked or unlocked. -/
theorem handle_of_no_command {e : DoorEvent} (h : e.command = none) {s : DoorStatus}
    (hopen : s ≠ .opened) (hclosed : s ≠ .closed) (u : DoorUnit) :
    (u.handle e).drIot.stat = s ↔ u.drIot.stat = s := by
  cases e with
  | tick curTime => exact periodicTimeout_stat_iff hopen hclosed curTime u.drIot
  | message curTime buffer =>
      have hc : commandOf buffer = none := h
      simp [DoorUnit.handle, mqttMessageCb_stat, hc]

/-- After an event the door is locked if it was a lock, or no mode command and
the door was locked before. -/
theorem handle_locked_iff (u : DoorUnit) (e : DoorEvent) :
    (u.handle e).drIot.stat = .locked ↔
      e.mode = some .lock ∨ (e.mode = none ∧ u.drIot.stat = .locked) := by
  cases e with
  | tick curTime =>
      rw [handle_of_no_command rfl (by decide) (by decide)]
      simp [DoorEvent.mode]
  | message curTime buffer => exact mqttMessageCb_locked_iff curTime buffer u.drIot

/-! ## Lock safety -/

/-- **Locked means: the last mode command was lock.** -/
theorem locked_iff_lastMode (evs : List DoorEvent) :
    (doorAfter evs).drIot.stat = .locked ↔ lastMode evs = some .lock := by
  induction evs using List.reverseRecOn with
  | nil => simp
  | append_singleton evs e ih =>
      rw [doorAfter_snoc, lastMode_snoc, handle_locked_iff, ih]
      cases e.mode <;> simp

/-- Over every history from boot the door is locked exactly when the last
message among lock / unlock / normal was lock. Only unlock and normal move it
out of locked, and LED0 shows the status after every tick. -/
theorem lock_safety (evs : List DoorEvent) :
    ((doorAfter evs).drIot.stat = .locked ↔ lastMode evs = some .lock) ∧
    (∀ e : DoorEvent, e.mode ≠ some .unlock → e.mode ≠ some .normal →
      (doorAfter evs).drIot.stat = .locked →
        (doorAfter (evs ++ [e])).drIot.stat = .locked) ∧
    (∀ curTime : UInt32,
      let u := doorAfter (evs ++ [.tick curTime])
      (u.led0 = true ↔ u.drIot.stat = .opened ∨ u.drIot.stat = .unlocked) ∧
      ((doorAfter evs).drIot.stat = .locked → u.led0 = false)) := by
  refine ⟨locked_iff_lastMode evs, ?_, ?_⟩
  · intro e hunlock hnormal hlocked
    rw [locked_iff_lastMode, lastMode_snoc]
    rw [locked_iff_lastMode] at hlocked
    cases hmode : e.mode with
    | none => simpa using hlocked
    | some c =>
        have hc := (mode_eq_some_iff.mp hmode).2
        cases c <;> simp_all
  · intro curTime u
    have hu : u = (doorAfter evs).handle (.tick curTime) := doorAfter_snoc evs _
    have hled : u.led0 = true ↔ u.drIot.stat = .opened ∨ u.drIot.stat = .unlocked := by
      rw [hu]
      exact periodicTimeout_led curTime (doorAfter evs).drIot
    refine ⟨hled, fun hlocked => ?_⟩
    have hstill : u.drIot.stat = .locked := by
      rw [hu]
      exact (handle_of_no_command rfl (by decide) (by decide) _).mpr hlocked
    rw [← Bool.not_eq_true, hled, hstill]
    decide

/-! ## Unlock persistence -/

/-- After an unlock the door is unlocked until a lock or a normal. -/
def UnlockPersists (evs : List DoorEvent) : Prop :=
  ∀ pre, pre <+: evs → lastMode pre = some .unlock → (doorAfter pre).drIot.stat = .unlocked

/-- No open_door is handled between an unlock and the next lock or normal. -/
def NoOpenDoorAfterUnlock (evs : List DoorEvent) : Prop :=
  ∀ pre e, pre ++ [e] <+: evs → lastMode pre = some .unlock → e.command ≠ some .openDoor

/-- The first guard of `mqtt_message_cb` takes open_door in every status but
locked, so it also takes the door out of unlocked: the door stays unlocked
exactly in the histories in which no open_door follows an unlock. -/
theorem unlock_persists_iff (evs : List DoorEvent) :
    UnlockPersists evs ↔ NoOpenDoorAfterUnlock evs := by
  constructor
  · intro h pre e hpre hmode hopen
    have hlast : lastMode (pre ++ [e]) = some .unlock := by
      rw [lastMode_snoc, mode_eq_none_iff.mpr (Or.inr hopen)]
      exact hmode
    have hstat := h _ hpre hlast
    rw [doorAfter_snoc, handle_of_command hopen] at hstat
    exact obey_openDoor_ne_unlocked _ hstat
  · intro h pre
    induction pre using List.reverseRecOn with
    | nil => intro _ hmode; simp at hmode
    | append_singleton pre e ih =>
        intro hpre hmode
        have hpre' : pre <+: evs := (List.prefix_append pre [e]).trans hpre
        rw [lastMode_snoc] at hmode
        rw [doorAfter_snoc]
        cases he : e.mode with
        | some c =>
            obtain ⟨hcommand, hc⟩ := mode_eq_some_iff.mp he
            rw [handle_of_command hcommand, obey_eq_unlocked_iff hc]
            simpa [he] using hmode
        | none =>
            rw [he, Option.none_or] at hmode
            rcases mode_eq_none_iff.mp he with hnone | hopen
            · rw [handle_of_no_command hnone (by decide) (by decide)]
              exact ih hpre' hmode
            · exact absurd hopen (h pre e hpre hmode)

/-- An unlock, an open_door one second later, and the tick that finds the
opening 30 s old: the unlocked door is closed. -/
theorem unlock_ended_by_open_door :
    ¬ UnlockPersists [.message 0 (ascii "unlock"), .message 1000 (ascii "open_door"),
      .tick 31000] := by
  intro h
  have hclosed := h _ (List.prefix_refl _) (by decide)
  revert hclosed
  decide

end SmartDoorLock
