import SmartDoorLock.Lib.Machine
import SmartDoorLock.Lib.WrapClock
import SmartDoorLock.Firmware.Door
import Mathlib.Data.List.Basic

/-!
# How long the door stays open

`mqtt_message_cb` runs in the main loop and `periodic_timeout` interrupts it.
Here the callback is cut into its statements, a tick may run between any two
of them, and true time is unbounded while `cur_time()` shows it modulo
`2 ^ 32`. Ticks are at most `P` ms apart and a call of the callback takes less
than 30000 ms; both are conditions on how time passes.

The order of the two assignments `open_time`, `stat` is what the argument
rests on: whenever the status is open, `open_time` is the reading of the latest
opening, and no tick has yet run 30000 ms or more after it
(`WindowInv.opened`).
-/

namespace SmartDoorLock

open CText WrapClock

/-! ## The callback, statement by statement -/

/-- The next statement of `mqtt_message_cb`: the conditions of its else-if
chain, and the assignments of their branches. -/
inductive CbStmt where
  | ifOpen
  | setOpenTime
  | setOpened
  | ifUnlock
  | setUnlocked
  | ifNormal
  | setClosed
  | ifLock
  | setLocked
deriving DecidableEq, Repr

/-- A call of `mqtt_message_cb` in progress: its local buffer, the true time it
was entered, and the statement it stands before. -/
structure CbCall where
  buf : List UInt8
  entered : ℕ
  stmt : CbStmt
deriving DecidableEq, Repr

structure WindowState where
  now : ℕ
  drIot : Door := {}
  led0 : Bool := false
  call : Option CbCall := none
  lastTick : ℕ
  /-- true times at which `open_time` was read, the latest first -/
  openings : List ℕ := []
deriving DecidableEq, Repr

/-- The door as the timer starts; the start counts as the first tick. -/
def WindowState.start (t : ℕ) : WindowState := { now := t, lastTick := t }

def WindowState.goto (s : WindowState) (c : CbCall) (stmt : CbStmt) : WindowState :=
  { s with call := some { c with stmt := stmt } }

/-- `dr_iot.stat = stat; return 0;` -/
def WindowState.finish (s : WindowState) (stat : DoorStatus) : WindowState :=
  { s with drIot := { s.drIot with stat := stat }, call := none }

/-- Execute the statement the call stands before. -/
def execStmt (s : WindowState) (c : CbCall) : WindowState :=
  match c.stmt with
  | .ifOpen =>
      if (s.drIot.stat ≠ .locked ∧ strcmp c.buf OPEN_DOOR_CMD = 0) ∨
          (s.drIot.stat = .unlocked ∧ strcmp c.buf NORMAL_DOOR_STAT = 0) then
        s.goto c .setOpenTime
      else s.goto c .ifUnlock
  | .setOpenTime =>
      { s with
        drIot := { s.drIot with openTime := stamp s.now }
        call := some { c with stmt := .setOpened }
        openings := s.now :: s.openings }
  | .setOpened => s.finish .opened
  | .ifUnlock => s.goto c (if strcmp c.buf UNLOCK_DOOR_CMD = 0 then .setUnlocked else .ifNormal)
  | .setUnlocked => s.finish .unlocked
  | .ifNormal =>
      if s.drIot.stat = .locked ∧ strcmp c.buf NORMAL_DOOR_STAT = 0 then s.goto c .setClosed
      else s.goto c .ifLock
  | .setClosed => s.finish .closed
  | .ifLock =>
      if strcmp c.buf LOCK_DOOR_CMD = 0 then s.goto c .setLocked
      else { s with call := none }
  | .setLocked => s.finish .locked

inductive WindowAct where
  /-- `d` ms pass -/
  | pass (d : ℕ)
  /-- the sleeptimer runs `periodic_timeout` -/
  | tick
  /-- wolfMQTT calls `mqtt_message_cb` -/
  | message (buffer : List UInt8)
  /-- the call in progress executes its next statement -/
  | stmt
deriving DecidableEq, Repr

/-- May the clock reach `now`? Ticks are at most `P` apart, a call is short. -/
def mayReach (P : ℕ) (s : WindowState) (now : ℕ) : Bool :=
  now ≤ s.lastTick + P && s.call.all fun c => now < c.entered + 30000

def windowStep (P : ℕ) (s : WindowState) : WindowAct → Option WindowState
  | .pass d => if mayReach P s (s.now + d) then some { s with now := s.now + d } else none
  | .tick =>
      let r := periodicTimeout (stamp s.now) s.drIot
      some { s with drIot := r.1, led0 := r.2, lastTick := s.now }
  | .message buffer =>
      match s.call with
      | none => some { s with call := some ⟨msgBuf buffer, s.now, .ifOpen⟩ }
      | some _ => none
  | .stmt => s.call.map (execStmt s)

/-- Let the call in progress execute up to `n` statements. -/
def WindowState.proceed : ℕ → WindowState → WindowState
  | 0, s => s
  | n + 1, s =>
      match s.call with
      | none => s
      | some c => (execStmt s c).proceed n

/-- Left alone, a call does what `mqtt_message_cb` does: its longest path is
the four conditions and one assignment. -/
theorem proceed_message (s : WindowState) (buffer : List UInt8) :
    let t := { s with call := some ⟨msgBuf buffer, s.now, .ifOpen⟩ }.proceed 5
    t.call = none ∧ t.drIot = (mqttMessageCb (stamp s.now) buffer s.drIot).1 := by
  intro t
  by_cases hopen : (s.drIot.stat ≠ .locked ∧ strcmp (msgBuf buffer) OPEN_DOOR_CMD = 0) ∨
      (s.drIot.stat = .unlocked ∧ strcmp (msgBuf buffer) NORMAL_DOOR_STAT = 0)
  · simp [t, WindowState.proceed, execStmt, WindowState.goto, WindowState.finish,
      mqttMessageCb, hopen]
  by_cases hunlock : strcmp (msgBuf buffer) UNLOCK_DOOR_CMD = 0
  · simp [t, WindowState.proceed, execStmt, WindowState.goto, WindowState.finish,
      mqttMessageCb, hopen, hunlock]
  by_cases hnormal : s.drIot.stat = .locked ∧ strcmp (msgBuf buffer) NORMAL_DOOR_STAT = 0
  · simp [t, WindowState.proceed, execStmt, WindowState.goto, WindowState.finish,
      mqttMessageCb, hunlock, hnormal]
  by_cases hlock : strcmp (msgBuf buffer) LOCK_DOOR_CMD = 0 <;>
    simp [t, WindowState.proceed, execStmt, WindowState.goto, WindowState.finish,
      mqttMessageCb, hopen, hunlock, hnormal, hlock]

/-! ## The invariant -/

/-- What holds between any two statements of a run. -/
structure WindowInv (P : ℕ) (s : WindowState) : Prop where
  tick_le : s.lastTick ≤ s.now
  now_le : s.now ≤ s.lastTick + P
  call_short : ∀ c, s.call = some c → c.entered ≤ s.now ∧ s.now < c.entered + 30000
  openings_le : ∀ t ∈ s.openings, t ≤ s.now
  openings_sorted : s.openings.Pairwise fun t t' => t' ≤ t
  openTime_eq : ∀ t older, s.openings = t :: older → s.drIot.openTime = stamp t
  /-- a call that has read `open_time` read it after it was entered -/
  opening : ∀ c, s.call = some c → c.stmt = .setOpened →
    ∃ t older, s.openings = t :: older ∧ c.entered ≤ t
  /-- no tick has run since the end of the window of the latest opening -/
  opened : s.drIot.stat = .opened →
    ∃ t older, s.openings = t :: older ∧ s.lastTick < t + 30000

theorem windowInv_start (P t : ℕ) : WindowInv P (WindowState.start t) := by
  constructor <;> simp [WindowState.start]

/-- Before the 30000 ms are over a tick leaves an opened door alone, and the
first tick after them closes it. -/
theorem tick_opened {P : ℕ} (hP : P + 30000 ≤ 2 ^ 32) {s : WindowState} (hinv : WindowInv P s)
    (hstat : s.drIot.stat = .opened) {t : ℕ} {older : List ℕ}
    (hopen : s.openings = t :: older) :
    periodicTimeout (stamp s.now) s.drIot =
      if s.now < t + 30000 then (s.drIot, true)
      else ({ s.drIot with stat := .closed }, false) := by
  have hle : t ≤ s.now := hinv.openings_le t (by simp [hopen])
  have hturn : s.now - t < 2 ^ 32 := by
    obtain ⟨t', older', hopen', htick⟩ := hinv.opened hstat
    have hnow := hinv.now_le
    rw [hopen, List.cons.injEq] at hopen'
    omega
  have helapsed := elapsed_lt_iff 30000 hle hturn
  rw [← hinv.openTime_eq t older hopen] at helapsed
  by_cases h : s.now < t + 30000
  · simp [periodicTimeout, hstat, h, helapsed.mpr h]
  · have hlate : ¬ stamp s.now - s.drIot.openTime < 30000 := fun hlt => h (helapsed.mp hlt)
    simp [periodicTimeout, hstat, h, hlate]

theorem inv_pass {P d : ℕ} {s : WindowState} (hinv : WindowInv P s)
    (hmay : mayReach P s (s.now + d) = true) : WindowInv P { s with now := s.now + d } := by
  rw [mayReach, Bool.and_eq_true, decide_eq_true_eq] at hmay
  obtain ⟨hnow, hcall⟩ := hmay
  refine { hinv with tick_le := ?_, now_le := hnow, call_short := ?_, openings_le := ?_ }
  · exact hinv.tick_le.trans (Nat.le_add_right _ _)
  · intro c hc
    have hc' : s.call = some c := hc
    rw [hc'] at hcall
    exact ⟨(hinv.call_short c hc').1.trans (Nat.le_add_right _ _), by simpa using hcall⟩
  · intro t ht
    exact (hinv.openings_le t ht).trans (Nat.le_add_right _ _)

theorem inv_tick {P : ℕ} (hP : P + 30000 ≤ 2 ^ 32) {s : WindowState} (hinv : WindowInv P s) :
    WindowInv P { s with
      drIot := (periodicTimeout (stamp s.now) s.drIot).1
      led0 := (periodicTimeout (stamp s.now) s.drIot).2
      lastTick := s.now } := by
  have htime : (periodicTimeout (stamp s.now) s.drIot).1.openTime = s.drIot.openTime := by
    rcases periodicTimeout_cases (stamp s.now) s.drIot with ⟨-, -, heq⟩ | ⟨-, heq⟩ <;> rw [heq]
  refine { hinv with
    tick_le := le_rfl, now_le := Nat.le_add_right _ _, openTime_eq := ?_, opened := ?_ }
  · intro t older hopen
    exact htime.trans (hinv.openTime_eq t older hopen)
  · intro hstat
    have hbefore : s.drIot.stat = .opened := by
      rcases periodicTimeout_cases (stamp s.now) s.drIot with ⟨h, -, -⟩ | ⟨-, heq⟩
      · exact h
      · rwa [heq] at hstat
    obtain ⟨t, older, hopen, -⟩ := hinv.opened hbefore
    refine ⟨t, older, hopen, ?_⟩
    rw [tick_opened hP hinv hbefore hopen] at hstat
    by_contra hlate
    rw [if_neg hlate] at hstat
    exact DoorStatus.noConfusion hstat

theorem inv_message {P : ℕ} {s : WindowState} (hinv : WindowInv P s) (buffer : List UInt8) :
    WindowInv P { s with call := some ⟨msgBuf buffer, s.now, .ifOpen⟩ } := by
  refine { hinv with call_short := ?_, opening := ?_ }
  · rintro c hc
    cases hc
    exact ⟨le_rfl, by simp⟩
  · rintro c hc hstmt
    cases hc
    cases hstmt

theorem inv_goto {P : ℕ} {s : WindowState} {c : CbCall} {stmt : CbStmt} (hinv : WindowInv P s)
    (hc : s.call = some c) (hstmt : stmt ≠ .setOpened) : WindowInv P (s.goto c stmt) := by
  refine { hinv with call_short := ?_, opening := ?_ }
  · rintro c' hc'
    cases hc'
    exact hinv.call_short c hc
  · rintro c' hc' hstmt'
    cases hc'
    exact absurd hstmt' hstmt

theorem inv_finish {P : ℕ} {s : WindowState} {stat : DoorStatus} (hinv : WindowInv P s)
    (hstat : stat = .opened → ∃ t older, s.openings = t :: older ∧ s.lastTick < t + 30000) :
    WindowInv P (s.finish stat) := by
  refine { hinv with call_short := ?_, opening := ?_, opened := hstat }
  · rintro c hc
    cases hc
  · rintro c hc
    cases hc

/-- Reading `open_time` starts the window: it is the latest opening now, and
no tick is later than it. -/
theorem inv_setOpenTime {P : ℕ} {s : WindowState} {c : CbCall} (hinv : WindowInv P s)
    (hc : s.call = some c) :
    WindowInv P { s with
      drIot := { s.drIot with openTime := stamp s.now }
      call := some { c with stmt := .setOpened }
      openings := s.now :: s.openings } := by
  refine { hinv with
    call_short := ?_, openings_le := ?_, openings_sorted := ?_, openTime_eq := ?_,
    opening := ?_, opened := ?_ }
  · rintro c' hc'
    cases hc'
    exact hinv.call_short c hc
  · intro t ht
    rcases List.mem_cons.mp ht with rfl | ht
    · exact le_rfl
    · exact hinv.openings_le t ht
  · exact List.pairwise_cons.mpr ⟨hinv.openings_le, hinv.openings_sorted⟩
  · rintro t older h
    cases h
    rfl
  · rintro c' hc' -
    cases hc'
    exact ⟨s.now, s.openings, rfl, (hinv.call_short c hc).1⟩
  · intro _
    have htick := hinv.tick_le
    exact ⟨s.now, s.openings, rfl, by show s.lastTick < s.now + 30000; omega⟩

theorem inv_stmt {P : ℕ} {s : WindowState} {c : CbCall} (hinv : WindowInv P s)
    (hc : s.call = some c) : WindowInv P (execStmt s c) := by
  unfold execStmt
  split
  · split
    · exact inv_goto hinv hc (by decide)
    · exact inv_goto hinv hc (by decide)
  · exact inv_setOpenTime hinv hc
  · rename_i hstmt
    refine inv_finish hinv fun _ => ?_
    -- the call is still short, so the window it starts has not ended
    obtain ⟨t, older, hopen, hentered⟩ := hinv.opening c hc hstmt
    have hshort := (hinv.call_short c hc).2
    have htick := hinv.tick_le
    exact ⟨t, older, hopen, by omega⟩
  · exact inv_goto hinv hc (by split <;> decide)
  · exact inv_finish hinv (fun h => DoorStatus.noConfusion h)
  · split
    · exact inv_goto hinv hc (by decide)
    · exact inv_goto hinv hc (by decide)
  · exact inv_finish hinv (fun h => DoorStatus.noConfusion h)
  · split
    · exact inv_goto hinv hc (by decide)
    · exact { hinv with call_short := by simp, opening := by simp }
  · exact inv_finish hinv (fun h => DoorStatus.noConfusion h)

theorem windowInv_step {P : ℕ} (hP : P + 30000 ≤ 2 ^ 32) (s : WindowState) (a : WindowAct)
    (t : WindowState) (hinv : WindowInv P s) (h : windowStep P s a = some t) :
    WindowInv P t := by
  cases a with
  | pass d =>
      simp only [windowStep] at h
      split at h
      · rename_i hmay
        cases h
        exact inv_pass hinv hmay
      · cases h
  | tick =>
      cases h
      exact inv_tick hP hinv
  | message buffer =>
      simp only [windowStep] at h
      split at h
      · cases h
        exact inv_message hinv buffer
      · cases h
  | stmt =>
      obtain ⟨c, hc, rfl⟩ := Option.map_eq_some_iff.mp h
      exact inv_stmt hinv hc

/-! ## The opening window -/

/-- **Opening window.** In every run, with `t` the true time at which an
accepted open_door (or a normal received in unlocked) read `open_time`:
no tick before `t + 30000` takes the door out of open, and from
`t + 30000 + P` on the door is open only if another message has opened it
since. -/
theorem opening_window (P : ℕ) (hP : P + 30000 ≤ 2 ^ 32) (start : ℕ) (acts : List WindowAct)
    (s : WindowState)
    (hrun : Machine.run (windowStep P) (WindowState.start start) acts = some s) :
    (∀ t ∈ s.openings, s.now < t + 30000 → s.drIot.stat = .opened →
      ∀ s', windowStep P s .tick = some s' → s'.drIot.stat = .opened) ∧
    (s.drIot.stat = .opened → s.openings ≠ []) ∧
    (∀ t older, s.openings = t :: older → t + 30000 + P ≤ s.now →
      s.drIot.stat ≠ .opened) := by
  have hinv : WindowInv P s :=
    Machine.run_inv (windowInv_step hP) (windowInv_start P start) hrun
  refine ⟨?_, ?_, ?_⟩
  · intro t ht hearly hstat s' hs'
    obtain ⟨latest, older, hopen, -⟩ := hinv.opened hstat
    -- an earlier opening ends its window no later than the latest one
    have hle : t ≤ latest := by
      have hsorted := hinv.openings_sorted
      rw [hopen] at ht hsorted
      rcases List.mem_cons.mp ht with rfl | ht
      · exact le_rfl
      · exact (List.pairwise_cons.mp hsorted).1 t ht
    cases hs'
    show (periodicTimeout (stamp s.now) s.drIot).1.stat = .opened
    rw [tick_opened hP hinv hstat hopen, if_pos (by omega)]
    exact hstat
  · intro hstat
    obtain ⟨t, older, hopen, -⟩ := hinv.opened hstat
    simp [hopen]
  · intro t older hopen hlate hstat
    obtain ⟨t', older', hopen', htick⟩ := hinv.opened hstat
    have hnow := hinv.now_le
    rw [hopen, List.cons.injEq] at hopen'
    omega

/-- The door opened at 5000 ms under ticks every 10000 ms, at 45000 ms. -/
def windowOver : WindowState :=
  { now := 45000, drIot := ⟨.closed, 5000⟩, lastTick := 40000, openings := [5000] }

/-- The tick at 40000 ms closes the door, and at 45000 ms it is not open. -/
theorem opening_window_over : windowOver.drIot.stat ≠ .opened :=
  (opening_window 10000 (by decide) 0
    [.pass 5000, .message (ascii "open_door"), .stmt, .stmt, .stmt, .pass 5000, .tick,
      .pass 10000, .tick, .pass 10000, .tick, .pass 10000, .tick, .pass 5000]
    windowOver (by decide +kernel)).2.2 5000 [] rfl (by decide)

end SmartDoorLock
