import SmartDoorLock.Firmware.MainLoop

/-!
# No reports from a locked door

`run_app` looks at `dr_iot.stat` once a round, before the pass of
`send_device`. A lock message that wolfMQTT handles inside the publication of
one device locks the door in the middle of the pass, and the pass goes on. That
is the only way in which an address leaves a locked door: the door is closed
when a pass starts, and before its first publication no message is handled.
-/

namespace SmartDoorLock

open CText WrapClock

/-! ## The property and the condition -/

/-- The command an event is, when it is one of lock / unlock / normal. -/
def LoopEvent.mode : LoopEvent → Option Command
  | .message buffer => modeOf buffer
  | _ => none

/-- The last command among lock / unlock / normal. -/
def lastCmd (hist : List LoopEvent) : Option Command := hist.findSome? LoopEvent.mode

theorem lastCmd_cons (e : LoopEvent) (hist : List LoopEvent) :
    lastCmd (e :: hist) = e.mode.or (lastCmd hist) := by
  unfold lastCmd
  rw [List.findSome?_cons]
  cases e.mode <;> rfl

/-- No address is handed over between a lock and the next unlock or normal. -/
def NoReportWhileLocked (hist : List LoopEvent) : Prop :=
  ∀ newer address time older, hist = newer ++ .handed address time :: older →
    lastCmd older ≠ some .lock

/-- When an iteration of `send_device` comes to an entry that is due, and the
pass has published before it, the door is not locked. -/
def PassNotLocked (s : App) (a : AppAct) : Prop :=
  a = .next → ∀ i (h : i < BT_LST_SIZE) lastIndex, s.pc = .sendDevice i (some lastIndex) →
    sendDue (stamp s.now) s.sentLst (some lastIndex) (s.btLst.deviceLst ⟨i, h⟩) = true →
    s.drIot.stat ≠ .locked

/-! ## The invariant -/

structure PassInv (s : App) : Prop where
  locked_iff : s.drIot.stat = .locked ↔ lastCmd s.hist = some .lock
  /-- before a pass the door is closed, whatever the timer does -/
  closed : ∀ left, s.pc = .btStep left → s.drIot.stat = .closed
  /-- up to the first publication of a pass the door is not locked -/
  first : ∀ i, s.pc = .sendDevice i none → s.drIot.stat ≠ .locked

theorem passInv_init : PassInv {} where
  locked_iff := by simp [lastCmd]
  closed left h := AppPc.noConfusion h
  first i h := AppPc.noConfusion h

/-- A step that leaves the door alone, and adds at most an event that is no
message. -/
theorem passInv_goto {s t : App} (hinv : PassInv s) (hdoor : t.drIot = s.drIot)
    (hhist : lastCmd t.hist = lastCmd s.hist)
    (hclosed : ∀ left, t.pc = .btStep left → s.drIot.stat = .closed)
    (hfirst : ∀ i, t.pc = .sendDevice i none → s.drIot.stat ≠ .locked) : PassInv t where
  locked_iff := by
    rw [hdoor, hhist]
    exact hinv.locked_iff
  closed left h := by
    rw [hdoor]
    exact hclosed left h
  first i h := by
    rw [hdoor]
    exact hfirst i h

theorem passInv_tick {s : App} (hinv : PassInv s) :
    PassInv { s with
      drIot := (periodicTimeout (stamp s.now) s.drIot).1
      led0 := (periodicTimeout (stamp s.now) s.drIot).2 } := by
  have hlocked := periodicTimeout_stat_iff (s := .locked) (by decide) (by decide)
    (stamp s.now) s.drIot
  constructor
  · exact hlocked.trans hinv.locked_iff
  · intro left h
    have hclosed := hinv.closed left h
    rcases periodicTimeout_cases (stamp s.now) s.drIot with ⟨-, -, heq⟩ | ⟨-, heq⟩ <;> rw [heq]
    exact hclosed
  · intro i h hlock
    exact hinv.first i h (hlocked.mp hlock)

theorem passInv_message {s : App} (hinv : PassInv s) (hcall : s.pc.mayCall = true)
    (buffer : List UInt8) :
    PassInv { s with
      drIot := (mqttMessageCb (stamp s.now) buffer s.drIot).1
      hist := .message buffer :: s.hist } := by
  constructor
  · rw [mqttMessageCb_locked_iff, lastCmd_cons, hinv.locked_iff]
    show _ ↔ (modeOf buffer).or (lastCmd s.hist) = some .lock
    cases modeOf buffer <;> simp
  · intro left h
    have hpc : s.pc = .btStep left := h
    simp [hpc, AppPc.mayCall] at hcall
  · intro i h
    have hpc : s.pc = .sendDevice i none := h
    simp [hpc, AppPc.mayCall] at hcall

theorem passInv_btEvent {s : App} (hinv : PassInv s) {left : ℕ} (hpc : s.pc = .btStep (left + 1))
    (evt : BtEvent) (gap : ℕ → ℕ) : PassInv (slBtOnEvent s evt gap) := by
  cases evt with
  | systemBoot => exact hinv
  | other => exact hinv
  | scanReport rssi address =>
      refine passInv_goto hinv rfl (lastCmd_cons _ _) hinv.closed fun i h => ?_
      have hpc' : s.pc = .sendDevice i none := h
      rw [hpc] at hpc'
      exact AppPc.noConfusion hpc'

theorem passInv_sendIteration {s : App} (hinv : PassInv s) {i : ℕ} (hi : i < BT_LST_SIZE)
    {lastIndex : Option (Fin SENT_LST_SIZE)} (hpc : s.pc = .sendDevice i lastIndex) :
    PassInv (sendIteration s ⟨i, hi⟩ lastIndex) := by
  unfold sendIteration
  simp only
  split
  · exact passInv_goto hinv rfl (lastCmd_cons _ _) (by simp) (by simp)
  · refine passInv_goto hinv rfl rfl (by simp) fun j h => ?_
    obtain ⟨-, rfl⟩ := AppPc.sendDevice.inj h
    exact hinv.first i hpc

theorem passInv_next {s : App} (hinv : PassInv s) : PassInv (nextStep s) := by
  rcases nextStep_cases s with ⟨-, heq⟩ | ⟨-, hclosed, heq⟩ | ⟨-, heq⟩ | ⟨hpc, heq⟩ |
    ⟨left, hpc, heq⟩ | ⟨i, hi, lastIndex, hpc, heq⟩ | ⟨i, lastIndex, -, -, heq⟩ |
    ⟨i, cur, -, heq⟩ | ⟨-, heq⟩ <;> rw [heq]
  · exact passInv_goto hinv rfl rfl (by simp) (by simp)
  · exact passInv_goto hinv rfl rfl (fun _ _ => hclosed) (by simp)
  · exact passInv_goto hinv rfl rfl (by simp) (by simp)
  · refine passInv_goto hinv rfl (lastCmd_cons _ _) (by simp) fun _ _ => ?_
    rw [hinv.closed 0 hpc]
    exact DoorStatus.noConfusion
  · exact passInv_goto hinv rfl rfl (fun _ _ => hinv.closed _ hpc) (by simp)
  · exact passInv_sendIteration hinv hi hpc
  · exact passInv_goto hinv rfl rfl (by simp) (by simp)
  · exact passInv_goto hinv rfl rfl (by simp) (by simp)
  · exact passInv_goto hinv rfl rfl (by simp) (by simp)

theorem passInv_step (s : App) (a : AppAct) (t : App) (hinv : PassInv s)
    (hstep : appStep s a = some t) : PassInv t := by
  cases a with
  | elapse d =>
      cases hstep
      exact { hinv with }
  | tick =>
      simp only [appStep] at hstep
      split at hstep <;> cases hstep
      exact passInv_tick hinv
  | message buffer =>
      simp only [appStep] at hstep
      split at hstep <;> cases hstep
      rename_i hcall
      exact passInv_message hinv hcall buffer
  | btEvent evt gap =>
      simp only [appStep] at hstep
      split at hstep <;> cases hstep
      rename_i left hpc
      exact passInv_btEvent hinv hpc evt gap
  | next =>
      cases hstep
      exact passInv_next hinv

/-! ## Steps -/

theorem noReport_cons_iff {hist : List LoopEvent} {e : LoopEvent} :
    NoReportWhileLocked (e :: hist) ↔ NoReportWhileLocked hist ∧
      ∀ address time, e = .handed address time → lastCmd hist ≠ some .lock :=
  forall_handed_cons

theorem noReport_cons_other {hist : List LoopEvent} {e : LoopEvent}
    (he : ∀ address time, e ≠ .handed address time) :
    NoReportWhileLocked (e :: hist) ↔ NoReportWhileLocked hist := by
  rw [noReport_cons_iff]
  exact and_iff_left fun address time heq => absurd heq (he address time)

/-- An iteration adds to the property what the condition says: before the first
publication of the pass the door is not locked anyway. -/
theorem noReport_sendIteration {s : App} (hinv : PassInv s) {i : ℕ} (hi : i < BT_LST_SIZE)
    {lastIndex : Option (Fin SENT_LST_SIZE)} (hpc : s.pc = .sendDevice i lastIndex) :
    NoReportWhileLocked (sendIteration s ⟨i, hi⟩ lastIndex).hist ↔
      NoReportWhileLocked s.hist ∧ PassNotLocked s .next := by
  unfold sendIteration
  simp only
  split
  · rename_i hdue
    rw [noReport_cons_iff]
    refine and_congr_right fun _ => ?_
    rw [Ne, ← hinv.locked_iff]
    constructor
    · intro h _ j hj last _ _
      exact h _ _ rfl
    · intro h _ _ _
      cases lastIndex with
      | none => exact hinv.first i hpc
      | some last => exact h rfl i hi last hpc hdue
  · rename_i hdue
    refine (and_iff_left fun _ j hj last hpc' hdue' => ?_).symm
    rw [hpc] at hpc'
    obtain ⟨rfl, rfl⟩ := AppPc.sendDevice.inj hpc'
    exact absurd hdue' hdue

/-- A step that is no iteration asks nothing. -/
theorem passNotLocked_of_pc {s : App} (a : AppAct)
    (hpc : ∀ i lastIndex, i < BT_LST_SIZE → s.pc ≠ .sendDevice i lastIndex) :
    PassNotLocked s a :=
  fun _ i h lastIndex h' _ => absurd h' (hpc i (some lastIndex) h)

theorem noReport_next {s : App} (hinv : PassInv s) :
    NoReportWhileLocked (nextStep s).hist ↔
      NoReportWhileLocked s.hist ∧ PassNotLocked s .next := by
  by_cases hpass : ∃ i lastIndex, i < BT_LST_SIZE ∧ s.pc = .sendDevice i lastIndex
  · obtain ⟨i, lastIndex, hi, hpc⟩ := hpass
    have heq : nextStep s = sendIteration s ⟨i, hi⟩ lastIndex := by
      simp [nextStep, hpc, hi]
    rw [heq]
    exact noReport_sendIteration hinv hi hpc
  · have hcond : PassNotLocked s .next :=
      passNotLocked_of_pc _ fun i lastIndex hi hpc => hpass ⟨i, lastIndex, hi, hpc⟩
    rw [and_iff_left hcond]
    rcases nextStep_cases s with ⟨-, heq⟩ | ⟨-, -, heq⟩ | ⟨-, heq⟩ | ⟨-, heq⟩ | ⟨_, -, heq⟩ |
      ⟨i, hi, lastIndex, hpc, -⟩ | ⟨_, _, -, -, heq⟩ | ⟨_, _, -, heq⟩ | ⟨-, heq⟩
    case inr.inr.inr.inl =>
      rw [heq]
      exact noReport_cons_other (by simp)
    case inr.inr.inr.inr.inr.inl => exact absurd ⟨i, lastIndex, hi, hpc⟩ hpass
    all_goals rw [heq]

theorem noReport_step (s : App) (a : AppAct) (t : App) (hinv : PassInv s)
    (hstep : appStep s a = some t) :
    NoReportWhileLocked t.hist ↔ NoReportWhileLocked s.hist ∧ PassNotLocked s a := by
  by_cases hnext : a = .next
  · subst hnext
    cases hstep
    exact noReport_next hinv
  · have hcond : PassNotLocked s a := fun h => absurd h hnext
    rw [and_iff_left hcond]
    cases a with
    | elapse d =>
        cases hstep
        rfl
    | tick =>
        simp only [appStep] at hstep
        split at hstep <;> cases hstep
        rfl
    | message buffer =>
        simp only [appStep] at hstep
        split at hstep <;> cases hstep
        exact noReport_cons_other (by simp)
    | btEvent evt gap =>
        simp only [appStep] at hstep
        split at hstep <;> cases hstep
        cases evt with
        | scanReport rssi address => exact noReport_cons_other (by simp)
        | systemBoot => rfl
        | other => rfl
    | next => exact absurd rfl hnext

/-! ## Runs -/

/-- **No reports while locked, exactly.** In every run of the main loop no
address is handed over between a lock and the next unlock or normal, if and
only if no iteration of `send_device` comes to a due entry, after a publication
of the same pass, while the door is locked. -/
theorem no_report_while_locked_iff (acts : List AppAct) (s : App)
    (hrun : Machine.run appStep {} acts = some s) :
    NoReportWhileLocked s.hist ↔ Machine.Along appStep PassNotLocked {} acts := by
  refine Machine.iff_along_within (B := fun _ => True) (P := PassInv)
    (Q := fun u => NoReportWhileLocked u.hist) ?_ ?_ ?_ passInv_init ?_ trivial hrun
  · exact fun _ _ _ _ _ => trivial
  · exact fun u a v hinv _ hstep => passInv_step u a v hinv hstep
  · exact fun u a v hinv _ hstep => noReport_step u a v hinv hstep
  · intro newer address time older hsplit
    simp at hsplit

/-! Two phones are found in one round, and a lock message arrives while the
first one is published. -/

def resident : BdAddr := #v[0x01, 0, 0, 0, 0, 0]

def neighbour : BdAddr := #v[0x02, 0, 0, 0, 0, 0]

/-- Both phones found, and the pass up to the publication of the first one. -/
def firstHandedRun : List AppAct :=
  [.elapse 1000, .next, .next, .btEvent (.scanReport (-40) resident) fun _ => 0,
    .btEvent (.scanReport (-40) neighbour) fun _ => 0] ++ List.replicate 12 .next

/-- The lock comes in, the publication returns, and the pass goes on. -/
def lockedPassRun : List AppAct :=
  firstHandedRun ++ [.message LOCK_DOOR_CMD, .next, .next]

def firstHandedHist : List LoopEvent :=
  [.handed resident 1000, .passStart, .report neighbour (-40) 1000, .report resident (-40) 1000]

theorem firstHandedRun_result :
    (Machine.run appStep {} firstHandedRun).map (fun s => (s.drIot.stat, s.hist)) =
      some (.closed, firstHandedHist) := by
  decide +kernel

theorem lockedPassRun_result :
    (Machine.run appStep {} lockedPassRun).map (fun s => (s.drIot.stat, s.hist)) =
      some (.locked, [.handed neighbour 1000, .message LOCK_DOOR_CMD] ++ firstHandedHist) := by
  decide +kernel

/-- The second address is handed over although the door is locked. -/
theorem reported_while_locked : ∃ s, Machine.run appStep {} lockedPassRun = some s ∧
    ¬ NoReportWhileLocked s.hist := by
  obtain ⟨s, hrun, hs⟩ := Option.map_eq_some_iff.mp lockedPassRun_result
  rw [Prod.mk.injEq] at hs
  refine ⟨s, hrun, fun h => ?_⟩
  rw [hs.2] at h
  exact h [] neighbour 1000 _ rfl (by decide)

/-- Up to the lock the run hands over nothing to a locked door, so every step
of it meets the condition. -/
theorem firstHandedRun_meets : Machine.Along appStep PassNotLocked {} firstHandedRun := by
  obtain ⟨s, hrun, hs⟩ := Option.map_eq_some_iff.mp firstHandedRun_result
  rw [Prod.mk.injEq] at hs
  refine (no_report_while_locked_iff firstHandedRun s hrun).mp ?_
  rw [hs.2]
  intro newer address time older hsplit
  have hmem : ∀ e ∈ older, e.mode = none := by
    have hall : ∀ e ∈ firstHandedHist, e.mode = none := by decide
    intro e he
    apply hall
    rw [hsplit]
    exact List.mem_append_right _ (List.mem_cons_of_mem _ he)
  rw [show lastCmd older = none from List.findSome?_eq_none_iff.mpr hmem]
  simp

end SmartDoorLock
