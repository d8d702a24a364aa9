import SmartDoorLock.Firmware.MainLoop
import SmartDoorLock.Firmware.Dedup

/-!
# The main loop on the device tables

The main loop calls `add_bt_device` and `send_device` one after the other, so a
run of it is a run of calls of the two, with the same tables and publications.
An entry being published stands in neither table; the run of calls has it in
`sent_lst` already, as nothing looks at the tables meanwhile.
-/

namespace SmartDoorLock

open WrapClock

/-! ## The calls behind a state -/

/-- The pass of `send_device` in progress, after the publication if there is
one. -/
def AppPc.pass : AppPc → Option Pass
  | .sendDevice i lastIndex => some ⟨i, lastIndex⟩
  | .publishing i cur => some ⟨i + 1, some (sentIdx cur.addr)⟩
  | _ => none

/-- `sent_lst` after the publication in progress. -/
def App.recorded (s : App) : SentLst :=
  match s.pc with
  | .publishing _ cur => Function.update s.sentLst (sentIdx cur.addr) cur
  | _ => s.sentLst

/-- The addresses handed over, with the times. -/
def handedIn (hist : List LoopEvent) : List (BdAddr × ℕ) :=
  hist.filterMap fun
    | .handed address time => some (address, time)
    | _ => none

/-- `x` is the state of the tables after the calls the main loop has made. -/
structure Mirrors (s : App) (x : TableState) : Prop where
  now : x.now = s.now
  btLst : x.btLst = s.btLst
  sentLst : x.sentLst = s.recorded
  pass : x.pass = s.pc.pass
  published : x.published.map (fun p => (p.addr, p.time)) = handedIn s.hist

theorem mirrors_init : Mirrors {} {} := ⟨rfl, rfl, rfl, rfl, rfl⟩

/-- What no call looks at may change. -/
theorem Mirrors.skip {s t : App} {x : TableState} (h : Mirrors s x) (hnow : t.now = s.now)
    (hbtLst : t.btLst = s.btLst) (hrecorded : t.recorded = s.recorded)
    (hpass : t.pc.pass = s.pc.pass) (hhist : handedIn t.hist = handedIn s.hist) :
    Mirrors t x :=
  ⟨h.now.trans hnow.symm, h.btLst.trans hbtLst.symm, h.sentLst.trans hrecorded.symm,
    h.pass.trans hpass.symm, h.published.trans hhist.symm⟩

theorem Mirrors.pass_of {s : App} {x : TableState} (h : Mirrors s x) {pc : AppPc}
    (hpc : s.pc = pc) : x.pass = pc.pass := by
  rw [h.pass, hpc]

/-- Outside a publication the tables are the same. -/
theorem Mirrors.sentLst_of {s : App} {x : TableState} (h : Mirrors s x) {pc : AppPc}
    (hpc : s.pc = pc) (hpub : ∀ i cur, pc ≠ .publishing i cur) : x.sentLst = s.sentLst := by
  rw [h.sentLst, App.recorded, hpc]
  cases pc with
  | publishing i cur => exact absurd rfl (hpub i cur)
  | _ => rfl

/-! ## Steps -/

/-- A scan report is a call of `add_bt_device`, or only takes time. -/
theorem mirrors_btEvent {s : App} {x : TableState} (h : Mirrors s x) {left : ℕ}
    (hpc : s.pc = .btStep left) (evt : BtEvent) (gap : ℕ → ℕ) :
    Mirrors (slBtOnEvent s evt gap) x ∨
      ∃ b y, tableStep x b = some y ∧ b ≠ .sendNext ∧ Mirrors (slBtOnEvent s evt gap) y := by
  have hpass : x.pass = none := h.pass_of hpc
  cases evt with
  | scanReport rssi address =>
      right
      by_cases hrssi : rssi > -50
      · refine ⟨.add address gap, { x with
          now := reading x.now gap BT_LST_SIZE
          btLst := (addBtDevice (fun k => stamp (reading x.now gap k)) x.btLst address).1 },
          ?_, by simp, ?_⟩
        · rw [tableStep, hpass]
        · refine ⟨?_, ?_, h.sentLst, h.pass, h.published⟩
          · show reading x.now gap BT_LST_SIZE = reading s.now gap BT_LST_SIZE
            rw [h.now]
          · show _ = if rssi > -50 then _ else s.btLst
            rw [if_pos hrssi, h.now, h.btLst]
      · refine ⟨.wait (reading s.now gap BT_LST_SIZE - s.now), _, rfl, by simp, ?_⟩
        refine ⟨?_, ?_, h.sentLst, h.pass, h.published⟩
        · show x.now + (reading s.now gap BT_LST_SIZE - s.now) = reading s.now gap BT_LST_SIZE
          rw [h.now]
          exact Nat.add_sub_cancel' (le_reading _ _ _)
        · show x.btLst = if rssi > -50 then _ else s.btLst
          rw [if_neg hrssi, h.btLst]
  | systemBoot => exact Or.inl h
  | other => exact Or.inl h

/-- An iteration up to its publication is the whole iteration of the calls. -/
theorem mirrors_sendIteration {s : App} {x : TableState} (h : Mirrors s x) {i : ℕ}
    (hi : i < BT_LST_SIZE) {lastIndex : Option (Fin SENT_LST_SIZE)}
    (hpc : s.pc = .sendDevice i lastIndex) :
    Mirrors (sendIteration s ⟨i, hi⟩ lastIndex) (sendSlot x ⟨i, hi⟩ lastIndex) := by
  have hsent : x.sentLst = s.sentLst := h.sentLst_of hpc (by simp)
  unfold sendIteration sendSlot
  simp only [h.now, h.btLst, hsent]
  split
  · refine ⟨rfl, rfl, rfl, rfl, ?_⟩
    show (_, s.now) :: x.published.map _ = (_, s.now) :: handedIn s.hist
    rw [h.published]
  · exact ⟨rfl, rfl, rfl, rfl, h.published⟩

/-- Does the step make an iteration of `send_device`? -/
def Iterates (s : App) (a : AppAct) : Prop :=
  a = .next ∧ ∃ i lastIndex, s.pc = .sendDevice i lastIndex

/-- **A step of the main loop is at most one step of the calls**, and an
iteration of `send_device` is one. -/
theorem mirrors_step {s t : App} {a : AppAct} {x : TableState} (h : Mirrors s x)
    (hstep : appStep s a = some t) :
    (¬ Iterates s a ∧ Mirrors t x) ∨
      ∃ b y, tableStep x b = some y ∧ (b = .sendNext ↔ Iterates s a) ∧ Mirrors t y := by
  cases a with
  | elapse d =>
      cases hstep
      refine Or.inr ⟨.wait d, _, rfl, by simp [Iterates], ?_⟩
      refine ⟨?_, h.btLst, h.sentLst, h.pass, h.published⟩
      show x.now + d = s.now + d
      rw [h.now]
  | tick =>
      simp only [appStep] at hstep
      split at hstep <;> cases hstep
      exact Or.inl ⟨by simp [Iterates], h.skip rfl rfl rfl rfl rfl⟩
  | message buffer =>
      simp only [appStep] at hstep
      split at hstep <;> cases hstep
      exact Or.inl ⟨by simp [Iterates], h.skip rfl rfl rfl rfl rfl⟩
  | btEvent evt gap =>
      simp only [appStep] at hstep
      split at hstep <;> cases hstep
      rename_i left hpc
      rcases mirrors_btEvent h hpc evt gap with hsame | ⟨b, y, hb, hne, hy⟩
      · exact Or.inl ⟨by simp [Iterates], hsame⟩
      · exact Or.inr ⟨b, y, hb, by simp [Iterates, hne], hy⟩
  | next =>
      cases hstep
      rcases nextStep_cases s with ⟨hpc, heq⟩ | ⟨hpc, -, heq⟩ | ⟨hpc, heq⟩ | ⟨hpc, heq⟩ |
        ⟨left, hpc, heq⟩ | ⟨i, hi, lastIndex, hpc, heq⟩ | ⟨i, lastIndex, hpc, hi, heq⟩ |
        ⟨i, cur, hpc, heq⟩ | ⟨hpc, heq⟩ <;> rw [heq]
      case inr.inr.inr.inl =>
        have hpass : x.pass = none := h.pass_of hpc
        refine Or.inr ⟨.sendStart, { x with pass := some ⟨0, none⟩ }, ?_, ?_, ?_⟩
        · rw [tableStep, hpass]
        · simp [Iterates, hpc]
        · exact ⟨h.now, h.btLst, h.sentLst_of hpc (by simp), rfl, h.published⟩
      case inr.inr.inr.inr.inr.inl =>
        have hpass : x.pass = some ⟨i, lastIndex⟩ := h.pass_of hpc
        refine Or.inr ⟨.sendNext, _, ?_, by simp [Iterates, hpc], mirrors_sendIteration h hi hpc⟩
        simp only [tableStep, hpass, hi, ↓reduceDIte]
      case inr.inr.inr.inr.inr.inr.inl =>
        have hpass : x.pass = some ⟨i, lastIndex⟩ := h.pass_of hpc
        refine Or.inr ⟨.sendNext, { x with pass := none }, ?_, by simp [Iterates, hpc], ?_⟩
        · simp only [tableStep, hpass, hi, ↓reduceDIte]
        · exact ⟨h.now, h.btLst, h.sentLst_of hpc (by simp), rfl, h.published⟩
      all_goals
        exact Or.inl ⟨by simp [Iterates, hpc],
          h.skip rfl rfl (by simp [App.recorded, hpc]) (by simp [AppPc.pass, hpc]) rfl⟩

/-- **The main loop runs the tables by calls.** Every run of the main loop has
a run of calls of `add_bt_device` and `send_device` with the same clock, tables
and publications. -/
theorem main_loop_runs_tables {acts : List AppAct} {s : App}
    (hrun : Machine.run appStep {} acts = some s) :
    ∃ bs x, Machine.run tableStep {} bs = some x ∧ Mirrors s x := by
  have hsim : ∃ bs x, Machine.run tableStep {} bs = some x ∧
      Machine.Along tableStep (fun _ _ => True) {} bs ∧ Mirrors s x := by
    refine Machine.run_sim (C := fun _ _ => True) ?_ mirrors_init (fun _ _ _ _ _ _ => trivial) hrun
    intro s a t x hmirrors _ hstep
    rcases mirrors_step hmirrors hstep with ⟨-, hsame⟩ | ⟨b, y, hb, -, hy⟩
    · exact Or.inl hsame
    · exact Or.inr ⟨b, y, hb, trivial, hy⟩
  obtain ⟨bs, x, hbs, -, hx⟩ := hsim
  exact ⟨bs, x, hbs, hx⟩

/-! ## The spacing of the publications -/

/-- The latest publication in a bucket. -/
def lastHanded (b : Fin SENT_LST_SIZE) (hist : List LoopEvent) : Option (BdAddr × ℕ) :=
  (handedIn hist).find? fun p => sentIdx p.1 = b

/-- Any two publications of one address, with no other address of its bucket
published in between, are at least a lifetime apart. -/
def HandedSpaced (hist : List LoopEvent) : Prop :=
  ∀ newer address t mid t' older,
    handedIn hist = newer ++ (address, t) :: (mid ++ (address, t') :: older) →
    (∀ r ∈ mid, sentIdx r.1 = sentIdx address → r.1 = address) → t' + 34000 ≤ t

/-- When an iteration of `send_device` comes to a pending entry, the bucket of
the entry not being the one used last in this pass, and the address was
published last in its bucket: then the lifetime is not over yet, counted from
the time stamp in `sent_lst`, or it is over counted from the publication as
well. -/
def LoopResendOk (s : App) (a : AppAct) : Prop :=
  a = .next → ∀ i (h : i < BT_LST_SIZE) lastIndex, s.pc = .sendDevice i lastIndex →
    let cur := s.btLst.deviceLst ⟨i, h⟩
    cur.timestamp ≠ 0 → some (sentIdx cur.addr) ≠ lastIndex →
    ∀ t, lastHanded (sentIdx cur.addr) s.hist = some (cur.addr, t) →
      s.now < (s.sentLst (sentIdx cur.addr)).timestamp.toNat + 34000 ∨ t + 34000 ≤ s.now

theorem handedSpaced_iff {s : App} {x : TableState} (h : Mirrors s x) :
    HandedSpaced s.hist ↔ Spaced x.published := by
  constructor
  · intro hspaced newer q mid p older hsplit haddr hmid
    refine hspaced (newer.map fun p => (p.addr, p.time)) q.addr q.time
      (mid.map fun p => (p.addr, p.time)) p.time (older.map fun p => (p.addr, p.time)) ?_ ?_
    · rw [← h.published, hsplit]
      simp [haddr]
    · intro r hr hidx
      obtain ⟨r', hr', rfl⟩ := List.mem_map.mp hr
      exact hmid r' hr' hidx
  · intro hspaced newer address t mid t' older hsplit hmid
    rw [← h.published] at hsplit
    obtain ⟨newer', rest, hpub, rfl, hrest⟩ := List.map_eq_append_iff.mp hsplit
    obtain ⟨q, rest', rfl, hq, hrest'⟩ := List.map_eq_cons_iff.mp hrest
    obtain ⟨mid', tail, rfl, rfl, htail⟩ := List.map_eq_append_iff.mp hrest'
    obtain ⟨p, older', rfl, hp, rfl⟩ := List.map_eq_cons_iff.mp htail
    cases hq
    rw [Prod.mk.injEq] at hp
    obtain ⟨haddr, rfl⟩ := hp
    refine hspaced newer' q mid' p older' hpub haddr ?_
    intro r hr hidx
    exact hmid _ (List.mem_map_of_mem hr) hidx

theorem lastHanded_eq {s : App} {x : TableState} (h : Mirrors s x) (b : Fin SENT_LST_SIZE) :
    lastHanded b s.hist = (lastIn b x.published).map fun p => (p.addr, p.time) := by
  rw [lastHanded, lastIn, ← h.published, List.find?_map]
  rfl

/-- The condition is that of the calls. -/
theorem loopResendOk_iff {s : App} {x : TableState} (h : Mirrors s x) (hinv : TableInv x)
    {i : ℕ} {lastIndex : Option (Fin SENT_LST_SIZE)} (hpc : s.pc = .sendDevice i lastIndex) :
    LoopResendOk s .next ↔ ResendOk x .sendNext := by
  have hpass : x.pass = some ⟨i, lastIndex⟩ := h.pass_of hpc
  have hsent : x.sentLst = s.sentLst := h.sentLst_of hpc (by simp)
  constructor
  · rintro hok - p hi hp
    obtain rfl : ⟨i, lastIndex⟩ = p := Option.some.inj (hpass.symm.trans hp)
    rw [h.btLst, h.now]
    intro cur hpending hidx q hlast hq
    have hhanded : lastHanded (sentIdx cur.addr) s.hist = some (cur.addr, q.time) := by
      rw [lastHanded_eq h, hlast, Option.map_some, hq]
    have hgap := hok rfl i hi lastIndex hpc hpending hidx q.time hhanded
    rw [← hsent, hinv.sent _ q hlast] at hgap
    exact hgap
  · rintro hok - i' hi lastIndex' hpc'
    obtain ⟨rfl, rfl⟩ : i = i' ∧ lastIndex = lastIndex' := by
      rw [hpc] at hpc'
      exact AppPc.sendDevice.inj hpc'
    have hok := hok rfl ⟨i, lastIndex⟩ hi hpass
    rw [h.btLst, h.now] at hok
    intro cur hpending hidx t hhanded
    rw [lastHanded_eq h] at hhanded
    obtain ⟨q, hlast, hq⟩ := Option.map_eq_some_iff.mp hhanded
    rw [Prod.mk.injEq] at hq
    obtain ⟨haddr, rfl⟩ := hq
    have hgap := hok hpending hidx q hlast haddr
    rw [← hsent, hinv.sent _ q hlast]
    exact hgap

/-- What a step does to the mirrored run and to the spacing. -/
theorem mirrored_step {s t : App} {a : AppAct} (hstep : appStep s a = some t)
    (hB : t.now < 2 ^ 32) (h : ∃ x, Mirrors s x ∧ TableInv x) :
    (∃ y, Mirrors t y ∧ TableInv y) ∧
      (HandedSpaced t.hist ↔ HandedSpaced s.hist ∧ LoopResendOk s a) := by
  obtain ⟨x, hx, hinv⟩ := h
  rcases mirrors_step hx hstep with ⟨hother, hsame⟩ | ⟨b, y, hb, hiter, hy⟩
  · refine ⟨⟨x, hsame, hinv⟩, ?_⟩
    rw [handedSpaced_iff hsame, handedSpaced_iff hx]
    refine (and_iff_left ?_).symm
    intro hnext i hi lastIndex hpc
    exact absurd ⟨hnext, i, lastIndex, hpc⟩ hother
  · have hBy : y.now < 2 ^ 32 := by
      rw [hy.now]
      exact hB
    refine ⟨⟨y, hy, tableInv_step x b y hinv hBy hb⟩, ?_⟩
    rw [handedSpaced_iff hy, handedSpaced_iff hx, spaced_step x b y hinv hBy hb]
    refine and_congr_right fun _ => ?_
    by_cases hit : Iterates s a
    · obtain rfl := hiter.mpr hit
      obtain ⟨rfl, i, lastIndex, hpc⟩ := hit
      exact (loopResendOk_iff hx hinv hpc).symm
    · refine iff_of_true (fun hb => absurd (hiter.mp hb) hit) ?_
      intro hnext i hi lastIndex hpc
      exact absurd ⟨hnext, i, lastIndex, hpc⟩ hit

/-- **De-duplication in the main loop.** In every run below `2 ^ 32` ms the
publications of an address are a lifetime apart if and only if no iteration of
`send_device` comes to a pending entry in the gap. -/
theorem main_loop_spaced_iff {acts : List AppAct} {s : App} (hB : s.now < 2 ^ 32)
    (hrun : Machine.run appStep {} acts = some s) :
    HandedSpaced s.hist ↔ Machine.Along appStep LoopResendOk {} acts := by
  refine Machine.iff_along_within (B := fun u => u.now < 2 ^ 32)
    (P := fun u => ∃ x, Mirrors u x ∧ TableInv x) (Q := fun u => HandedSpaced u.hist)
    ?_ ?_ ?_ ⟨{}, mirrors_init, tableInv_init⟩ ?_ hB hrun
  · exact fun u a t hBt hstep => (appStep_now_le hstep).trans_lt hBt
  · exact fun u a t h hB hstep => (mirrored_step hstep hB h).1
  · exact fun u a t h hB hstep => (mirrored_step hstep hB h).2
  · intro newer address t mid t' older hsplit
    simp [handedIn] at hsplit

end SmartDoorLock
