import SmartDoorLock.Firmware.MainLoop

/-!
# Freshness of reported devices

An entry waits in `bt_lst` until a pass of `send_device` publishes it. The time
stamp of a waiting entry is looked at by `add_bt_device`, which takes an entry
older than `BT_DEVICE_LIFETIME` for gone, but not by `send_device`: an entry
held back by `sent_lst`, or left over while the door was not closed, is
published however old it is.
-/

namespace SmartDoorLock

open CText WrapClock

/-! ## The property and the condition -/

/-- Every address handed over was named by a scan report with `rssi > -50`
within the last `BT_DEVICE_LIFETIME` ms. -/
def Fresh (hist : List LoopEvent) : Prop :=
  ∀ newer address time older, hist = newer ++ .handed address time :: older →
    ∃ rssi t, .report address rssi t ∈ older ∧ rssi > -50 ∧ t ≤ time ∧ time ≤ t + 34000

/-- When an iteration of `send_device` comes to an entry that is due, the entry
is not older than `BT_DEVICE_LIFETIME`. -/
def DueIsLive (s : App) (a : AppAct) : Prop :=
  a = .next → ∀ i (h : i < BT_LST_SIZE) lastIndex, s.pc = .sendDevice i lastIndex →
    let cur := s.btLst.deviceLst ⟨i, h⟩
    sendDue (stamp s.now) s.sentLst lastIndex cur = true →
    s.now ≤ cur.timestamp.toNat + 34000

/-! ## Where the entries of `bt_lst` come from -/

/-- The report an entry was made from, at the time it is stamped with. -/
def Reported (hist : List LoopEvent) (d : BtDevice) : Prop :=
  ∃ rssi, .report d.addr rssi d.timestamp.toNat ∈ hist ∧ rssi > -50

theorem Reported.mono {hist hist' : List LoopEvent} {d : BtDevice} (h : Reported hist d)
    (hsub : ∀ e ∈ hist, e ∈ hist') : Reported hist' d := by
  obtain ⟨rssi, hmem, hrssi⟩ := h
  exact ⟨rssi, hsub _ hmem, hrssi⟩

/-- Every pending entry was reported, and is not stamped later than now. -/
structure EntryInv (s : App) : Prop where
  slot_le : ∀ k, (s.btLst.deviceLst k).timestamp.toNat ≤ s.now
  reported : ∀ k, (s.btLst.deviceLst k).timestamp ≠ 0 → Reported s.hist (s.btLst.deviceLst k)

theorem entryInv_init : EntryInv {} where
  slot_le _ := Nat.le_refl 0
  reported _ h := absurd rfl h

/-- A step that only lets time pass, empties slots and extends the history. -/
theorem entryInv_later {s t : App} (hinv : EntryInv s) (hnow : s.now ≤ t.now)
    (hslot : ∀ k, t.btLst.deviceLst k = s.btLst.deviceLst k ∨ t.btLst.deviceLst k = {})
    (hhist : ∀ e ∈ s.hist, e ∈ t.hist) : EntryInv t := by
  constructor
  · intro k
    rcases hslot k with h | h
    · rw [h]
      exact (hinv.slot_le k).trans hnow
    · rw [h]
      exact Nat.zero_le _
  · intro k hpending
    rcases hslot k with h | h
    · rw [h] at hpending ⊢
      exact (hinv.reported k hpending).mono hhist
    · rw [h] at hpending
      exact absurd rfl hpending

theorem entryInv_scanReport {s : App} (hinv : EntryInv s) (rssi : ℤ) (address : BdAddr)
    (gap : ℕ → ℕ) (hB : reading s.now gap BT_LST_SIZE < 2 ^ 32) :
    EntryInv (slBtOnEvent s (.scanReport rssi address) gap) := by
  have hnow : s.now ≤ reading s.now gap BT_LST_SIZE := le_reading _ _ _
  by_cases hrssi : rssi > -50
  · have hbt : (slBtOnEvent s (.scanReport rssi address) gap).btLst =
        (addBtDevice (fun k => stamp (reading s.now gap k)) s.btLst address).1 := if_pos hrssi
    have hstamp := toNat_stamp_of_lt hB
    constructor
    · intro k
      rw [hbt]
      rcases addBtDevice_slot (fun k => stamp (reading s.now gap k)) s.btLst address k with h | h
      · rw [h]
        exact (hinv.slot_le k).trans hnow
      · rw [h]
        exact hstamp.le
    · intro k hpending
      rw [hbt] at hpending ⊢
      rcases addBtDevice_slot (fun k => stamp (reading s.now gap k)) s.btLst address k with h | h
      · rw [h] at hpending ⊢
        exact (hinv.reported k hpending).mono fun e he => List.mem_cons_of_mem _ he
      · rw [h]
        refine ⟨rssi, ?_, hrssi⟩
        show LoopEvent.report address rssi (stamp _).toNat ∈ _ :: s.hist
        rw [hstamp]
        exact List.mem_cons_self
  · refine entryInv_later hinv hnow (fun k => Or.inl ?_) fun e he => List.mem_cons_of_mem _ he
    exact congrArg (fun b : BtLst => b.deviceLst k) (if_neg hrssi)

theorem entryInv_sendIteration {s : App} (hinv : EntryInv s) (i : Fin BT_LST_SIZE)
    (lastIndex : Option (Fin SENT_LST_SIZE)) : EntryInv (sendIteration s i lastIndex) := by
  unfold sendIteration
  simp only
  split
  · exact entryInv_later hinv le_rfl (fun k => clear_slot s.btLst i k)
      fun e he => List.mem_cons_of_mem _ he
  · exact entryInv_later hinv le_rfl (fun k => Or.inl rfl) fun e he => he

/-! ## Steps -/

theorem fresh_cons {hist : List LoopEvent} (h : Fresh hist) {e : LoopEvent}
    (he : ∀ address time, e = .handed address time →
      ∃ rssi t, .report address rssi t ∈ hist ∧ rssi > -50 ∧ t ≤ time ∧ time ≤ t + 34000) :
    Fresh (e :: hist) :=
  forall_handed_cons.mpr ⟨h, he⟩

/-- An iteration hands over an entry that is due, and under the condition that
entry is recent. -/
theorem fresh_sendIteration {s : App} (hinv : EntryInv s) (hfresh : Fresh s.hist)
    {i : ℕ} (hi : i < BT_LST_SIZE) {lastIndex : Option (Fin SENT_LST_SIZE)}
    (hpc : s.pc = .sendDevice i lastIndex) (hlive : DueIsLive s .next) :
    Fresh (sendIteration s ⟨i, hi⟩ lastIndex).hist := by
  unfold sendIteration
  simp only
  split
  · rename_i hdue
    refine fresh_cons hfresh fun address time he => ?_
    cases he
    obtain ⟨rssi, hmem, hrssi⟩ := hinv.reported ⟨i, hi⟩ (sendDue_iff.mp hdue).2.1
    exact ⟨rssi, _, hmem, hrssi, hinv.slot_le _, hlive rfl i hi lastIndex hpc hdue⟩
  · exact hfresh

theorem fresh_step (s : App) (a : AppAct) (t : App) (h : EntryInv s ∧ Fresh s.hist)
    (hB : t.now < 2 ^ 32) (hlive : DueIsLive s a) (hstep : appStep s a = some t) :
    EntryInv t ∧ Fresh t.hist := by
  obtain ⟨hinv, hfresh⟩ := h
  cases a with
  | elapse d =>
      cases hstep
      exact ⟨entryInv_later hinv (Nat.le_add_right _ _) (fun k => Or.inl rfl) fun e he => he, hfresh⟩
  | tick =>
      simp only [appStep] at hstep
      split at hstep <;> cases hstep
      exact ⟨entryInv_later hinv le_rfl (fun k => Or.inl rfl) fun e he => he, hfresh⟩
  | message buffer =>
      simp only [appStep] at hstep
      split at hstep <;> cases hstep
      exact ⟨entryInv_later hinv le_rfl (fun k => Or.inl rfl) fun e he => List.mem_cons_of_mem _ he,
        fresh_cons hfresh fun _ _ he => LoopEvent.noConfusion he⟩
  | btEvent evt gap =>
      simp only [appStep] at hstep
      split at hstep <;> cases hstep
      cases evt with
      | scanReport rssi address =>
          exact ⟨entryInv_scanReport hinv rssi address gap hB,
            fresh_cons hfresh fun _ _ he => LoopEvent.noConfusion he⟩
      | systemBoot => exact ⟨hinv, hfresh⟩
      | other => exact ⟨hinv, hfresh⟩
  | next =>
      cases hstep
      rcases nextStep_cases s with ⟨-, h⟩ | ⟨-, -, h⟩ | ⟨-, h⟩ | ⟨-, h⟩ | ⟨left, -, h⟩ |
        ⟨i, hi, lastIndex, hpc, h⟩ | ⟨i, lastIndex, -, -, h⟩ | ⟨i, cur, -, h⟩ | ⟨-, h⟩ <;> rw [h]
      case inr.inr.inr.inl =>
        exact ⟨entryInv_later hinv le_rfl (fun k => Or.inl rfl)
            fun e he => List.mem_cons_of_mem _ he,
          fresh_cons hfresh fun _ _ he => LoopEvent.noConfusion he⟩
      case inr.inr.inr.inr.inr.inl =>
        exact ⟨entryInv_sendIteration hinv _ _, fresh_sendIteration hinv hfresh hi hpc hlive⟩
      all_goals
        exact ⟨entryInv_later hinv le_rfl (fun k => Or.inl rfl) fun e he => he, hfresh⟩

/-! ## Runs -/

/-- **Freshness.** In every run below `2 ^ 32` ms in which no iteration of
`send_device` comes to a due entry older than `BT_DEVICE_LIFETIME`, every
address handed over was reported nearby within the last `34000` ms. -/
theorem reports_fresh (acts : List AppAct) (s : App) (hB : s.now < 2 ^ 32)
    (hlive : Machine.Along appStep DueIsLive {} acts)
    (hrun : Machine.run appStep {} acts = some s) : Fresh s.hist := by
  refine (Machine.run_inv_of_along_within (B := fun u => u.now < 2 ^ 32)
    (P := fun u => EntryInv u ∧ Fresh u.hist) ?_ fresh_step ⟨entryInv_init, ?_⟩ hB hlive hrun).2
  · exact fun u a t hBt hstep => (appStep_now_le hstep).trans_lt hBt
  · intro newer address time older hsplit
    simp at hsplit

/-! A phone is reported at 1000 ms and published; reported again at 2000 ms it
is held back by `sent_lst`. Then the door is locked for ten minutes. -/

def visitor : BdAddr := #v[0x12, 0x34, 0x56, 0x78, 0x9A, 0xBC]

/-- One round of the loop up to `send_device`, with one report. -/
def scanRound : List AppAct :=
  [.next, .btEvent (.scanReport (-40) visitor) fun _ => 0] ++ List.replicate 11 .next

/-- The first report is published; the iterations of the pass and the return. -/
def publishedRun : List AppAct :=
  [.next, .elapse 1000] ++ scanRound ++ List.replicate 7 .next

def staleRun : List AppAct :=
  publishedRun ++ [.elapse 1000, .next] ++ scanRound ++ List.replicate 6 .next ++
    [.message LOCK_DOOR_CMD, .elapse 600000, .message NORMAL_DOOR_STAT, .next] ++
    List.replicate 14 .next

def publishedHist : List LoopEvent :=
  [.handed visitor 1000, .passStart, .report visitor (-40) 1000]

def staleHist : List LoopEvent :=
  [.handed visitor 602000, .passStart, .message NORMAL_DOOR_STAT, .message LOCK_DOOR_CMD,
    .passStart, .report visitor (-40) 2000] ++ publishedHist

theorem staleRun_result : (Machine.run appStep {} staleRun).map (fun s => (s.now, s.hist)) =
    some (602000, staleHist) := by
  decide +kernel

theorem publishedRun_result :
    (Machine.run appStep {} publishedRun).map (fun s => (s.now, s.hist)) =
      some (1000, publishedHist) := by
  decide +kernel

/-- The entry of 2000 ms is published at 602000 ms, to a door that was locked
since: the last report of the phone is ten minutes old. -/
theorem stale_report : ∃ s, Machine.run appStep {} staleRun = some s ∧ s.now < 2 ^ 32 ∧
    ¬ Fresh s.hist := by
  obtain ⟨s, hrun, hs⟩ := Option.map_eq_some_iff.mp staleRun_result
  rw [Prod.mk.injEq] at hs
  refine ⟨s, hrun, by omega, ?_⟩
  rw [hs.2]
  intro hfresh
  obtain ⟨rssi, t, hmem, -, -, hlate⟩ := hfresh [] visitor 602000 _ rfl
  have ht : t = 2000 ∨ t = 1000 := by
    simp [publishedHist] at hmem
    omega
  omega

/-- The run up to the first publication meets the condition, so that report is
fresh. -/
theorem publishedRun_fresh : ∃ s, Machine.run appStep {} publishedRun = some s ∧
    Fresh s.hist := by
  obtain ⟨s, hrun, hs⟩ := Option.map_eq_some_iff.mp publishedRun_result
  rw [Prod.mk.injEq] at hs
  refine ⟨s, hrun, reports_fresh publishedRun s (by omega) ?_ hrun⟩
  -- up to 34000 ms no entry can be too old
  rintro pre a post u hsplit hpre - i h lastIndex - cur -
  have hle : u.now ≤ s.now := by
    rw [hsplit, Machine.run_append, hpre] at hrun
    exact Machine.run_back (B := fun v => v.now ≤ s.now)
      (fun v b w hw hstep => (appStep_now_le hstep).trans hw) le_rfl hrun
  omega

end SmartDoorLock
