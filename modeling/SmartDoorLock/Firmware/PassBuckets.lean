import Mathlib.Data.List.Nodup
import SmartDoorLock.Firmware.SendPass

/-!
# Buckets of a pass

The loop of `send_device` tests that it does not use the bucket it used last a
second time. It knows no other bucket of the pass, and a bucket that comes back
after another one is tested against `sent_lst` alone: an entry of a different
address, or one whose predecessor there was found long enough ago, then takes
the place of the publication made a moment before.

A bucket is used twice in a pass exactly when this happens to an entry that
stands behind the first due entries of two buckets.
-/

namespace SmartDoorLock

open CText

/-- The bucket of a publication. -/
def Attempt.bucket (a : Attempt) : Fin SENT_LST_SIZE := sentIdx a.device.addr

/-- At the end of a pass everything it published is remembered: each bucket was
used once, it holds the address published into it, and no address was published
twice. -/
structure Remembered (s : SendState) : Prop where
  buckets : (s.attempts.map Attempt.bucket).Nodup
  sent : ∀ a ∈ s.attempts, (s.sentLst a.bucket).addr = a.device.addr
  addrs : (s.attempts.map fun a => a.device.addr).Nodup

/-! ## The condition -/

section

variable (clk : Fin BT_LST_SIZE → UInt32) (btLst : BtLst) (sentLst : SentLst)

/-- The bucket of a slot. -/
def slotBucket (i : Fin BT_LST_SIZE) : Fin SENT_LST_SIZE := sentIdx (btLst.deviceLst i).addr

/-- The entry is pending, and `sent_lst` as it is before the pass lets it go. -/
def DueAtStart (i : Fin BT_LST_SIZE) : Prop :=
  (btLst.deviceLst i).timestamp ≠ 0 ∧
    isAvailable (clk i) (sentLst (slotBucket btLst i)) (btLst.deviceLst i).addr = true

/-- The first due entry of its bucket. -/
def Leads (i : Fin BT_LST_SIZE) : Prop :=
  DueAtStart clk btLst sentLst i ∧
    ∀ i' < i, slotBucket btLst i' = slotBucket btLst i → ¬ DueAtStart clk btLst sentLst i'

/-- The entry of slot `j` comes back to the bucket of a slot `i` after another
bucket was used, and the entry of `i` does not hold it off: its address is a
different one, or it was found a lifetime ago. -/
def ComesBack (j : Fin BT_LST_SIZE) : Prop :=
  ∃ i k, i < k ∧ k < j ∧ Leads clk btLst sentLst i ∧ Leads clk btLst sentLst k ∧
    slotBucket btLst k ≠ slotBucket btLst i ∧ slotBucket btLst j = slotBucket btLst i ∧
    (btLst.deviceLst j).timestamp ≠ 0 ∧
    isAvailable (clk j) (btLst.deviceLst i) (btLst.deviceLst j).addr = true

end

variable {clk : Fin BT_LST_SIZE → UInt32} {rc : Fin BT_LST_SIZE → ℤ} {btLst : BtLst}
  {sentLst : SentLst}

/-- A due entry stands behind the first due one of its bucket, or is it. -/
theorem exists_leads {i : Fin BT_LST_SIZE} (h : DueAtStart clk btLst sentLst i) :
    ∃ k ≤ i, Leads clk btLst sentLst k ∧ slotBucket btLst k = slotBucket btLst i := by
  induction i using WellFoundedLT.induction with
  | _ i ih =>
      by_cases hfirst : ∃ i' < i, slotBucket btLst i' = slotBucket btLst i ∧
          DueAtStart clk btLst sentLst i'
      · obtain ⟨i', hlt, hbucket, hdue⟩ := hfirst
        obtain ⟨k, hk, hleads, hkb⟩ := ih i' hlt hdue
        exact ⟨k, hk.trans hlt.le, hleads, hkb.trans hbucket⟩
      · exact ⟨i, le_rfl, ⟨h, fun i' hlt hbucket hdue => hfirst ⟨i', hlt, hbucket, hdue⟩⟩, rfl⟩

/-! ## Publications by bucket -/

theorem attempt_unique {attempts : List Attempt} (h : (attempts.map Attempt.bucket).Nodup)
    {a a' : Attempt} (ha : a ∈ attempts) (ha' : a' ∈ attempts) (heq : a.bucket = a'.bucket) :
    a = a' :=
  List.inj_on_of_nodup_map h ha ha' heq

theorem lastAttempt_eq_some {attempts : List Attempt} (h : (attempts.map Attempt.bucket).Nodup)
    {a : Attempt} (ha : a ∈ attempts) : lastAttempt a.bucket attempts = some a := by
  cases hfind : lastAttempt a.bucket attempts with
  | none =>
      have hnone := List.find?_eq_none.mp hfind a ha
      simp [Attempt.bucket] at hnone
  | some a' =>
      have hmatch := List.find?_some hfind
      have hbucket : a'.bucket = a.bucket := by rwa [decide_eq_true_eq] at hmatch
      rw [attempt_unique h (List.mem_of_find?_eq_some hfind) ha hbucket]

theorem lastAttempt_eq_none {attempts : List Attempt} {b : Fin SENT_LST_SIZE}
    (h : ∀ a ∈ attempts, a.bucket ≠ b) : lastAttempt b attempts = none :=
  List.find?_eq_none.mpr fun a ha => by simpa [Attempt.bucket] using h a ha

/-- Buckets used once are all that is asked for. -/
theorem remembered_iff {n : ℕ} {s : SendState} (h : LoopInv rc btLst sentLst n s) :
    Remembered s ↔ (s.attempts.map Attempt.bucket).Nodup := by
  refine ⟨Remembered.buckets, fun hnodup => ⟨hnodup, fun a ha => ?_, ?_⟩⟩
  · rw [h.sent, lastAttempt_eq_some hnodup ha]
    rfl
  · apply List.Nodup.of_map (f := sentIdx)
    rw [List.map_map]
    exact hnodup

/-! ## The loop, until a bucket is used twice -/

/-- After `n` iterations no entry has come back to a bucket: the publications
are the first due entries of the slots visited, the latest first. -/
structure Clean (clk : Fin BT_LST_SIZE → UInt32) (btLst : BtLst) (sentLst : SentLst) (n : ℕ)
    (s : SendState) : Prop where
  none_back : ∀ j : Fin BT_LST_SIZE, j.val < n → ¬ ComesBack clk btLst sentLst j
  leads : ∀ k : Fin BT_LST_SIZE,
    (∃ a ∈ s.attempts, a.slot = k) ↔ k.val < n ∧ Leads clk btLst sentLst k
  buckets : (s.attempts.map Attempt.bucket).Nodup
  slots : s.attempts.Pairwise fun a a' => a'.slot < a.slot
  last : s.lastIndex = s.attempts.head?.map Attempt.bucket

/-- After `n` iterations a bucket has been used twice, and an entry came back. -/
def UsedTwice (clk : Fin BT_LST_SIZE → UInt32) (btLst : BtLst) (sentLst : SentLst) (n : ℕ)
    (s : SendState) : Prop :=
  ¬ (s.attempts.map Attempt.bucket).Nodup ∧
    ∃ j : Fin BT_LST_SIZE, j.val < n ∧ ComesBack clk btLst sentLst j

theorem clean_start : Clean clk btLst sentLst 0 { btLst := btLst, sentLst := sentLst } where
  none_back j hj := absurd hj (Nat.not_lt_zero _)
  leads k := iff_of_false (fun ⟨a, ha, _⟩ => by cases ha) fun h => Nat.not_lt_zero _ h.1
  buckets := List.nodup_nil
  slots := List.Pairwise.nil
  last := rfl

theorem usedTwice_iter {n : ℕ} {s : SendState} (h : UsedTwice clk btLst sentLst n s)
    (curTime : UInt32) (rc : ℤ) (i : Fin BT_LST_SIZE) :
    UsedTwice clk btLst sentLst (n + 1) (sendIter curTime rc s i) := by
  obtain ⟨htwice, j, hj, hback⟩ := h
  refine ⟨fun hnodup => htwice ?_, j, Nat.lt_succ_of_lt hj, hback⟩
  rcases sendIter_cases curTime rc s i with ⟨-, heq⟩ | ⟨-, heq⟩
  · rw [heq, List.map_cons] at hnodup
    exact hnodup.of_cons
  · rwa [heq] at hnodup

theorem attempt_bucket {n : ℕ} {s : SendState} (hloop : LoopInv rc btLst sentLst n s)
    {a : Attempt} (ha : a ∈ s.attempts) : a.bucket = slotBucket btLst a.slot := by
  rw [Attempt.bucket, slotBucket, (hloop.attempt a ha).2.1]

/-- In a bucket not used so far the pass publishes what was due at its start. -/
theorem sendDue_fresh {n : ℕ} {s : SendState} (hloop : LoopInv rc btLst sentLst n s)
    (hclean : Clean clk btLst sentLst n s) {j : Fin BT_LST_SIZE}
    (hfresh : ∀ a ∈ s.attempts, a.bucket ≠ slotBucket btLst j) :
    sendDue (clk j) s.sentLst s.lastIndex (btLst.deviceLst j) = true ↔
      DueAtStart clk btLst sentLst j := by
  have hsent : s.sentLst (slotBucket btLst j) = sentLst (slotBucket btLst j) := by
    rw [hloop.sent, lastAttempt_eq_none hfresh]
    rfl
  have hlast : some (slotBucket btLst j) ≠ s.lastIndex := by
    rw [hclean.last]
    intro heq
    obtain ⟨a, ha, hbucket⟩ := Option.map_eq_some_iff.mp heq.symm
    exact hfresh a (List.mem_of_head? ha) hbucket
  rw [sendDue_iff]
  exact ⟨fun h => ⟨h.2.1, hsent ▸ h.2.2⟩, fun h => ⟨hlast, h.1, hsent.symm ▸ h.2⟩⟩

/-- The publication made last stands in the slot furthest on. -/
theorem Clean.latest {n : ℕ} {s : SendState} (h : Clean clk btLst sentLst n s) {a : Attempt}
    (ha : a ∈ s.attempts) :
    ∃ l ∈ s.attempts, s.lastIndex = some l.bucket ∧ (a = l ∨ a.slot < l.slot) := by
  have hslots := h.slots
  have hlast := h.last
  cases hattempts : s.attempts with
  | nil =>
      rw [hattempts] at ha
      cases ha
  | cons l rest =>
      rw [hattempts] at ha hslots hlast
      refine ⟨l, List.mem_cons_self, hlast, ?_⟩
      rcases List.mem_cons.mp ha with rfl | hrest
      · exact Or.inl rfl
      · exact Or.inr ((List.pairwise_cons.mp hslots).1 a hrest)

/-- In a bucket used before the pass publishes what comes back to it. -/
theorem sendDue_used {n : ℕ} {s : SendState} (hloop : LoopInv rc btLst sentLst n s)
    (hclean : Clean clk btLst sentLst n s) {j : Fin BT_LST_SIZE} (hj : j.val = n)
    {a : Attempt} (ha : a ∈ s.attempts) (hbucket : a.bucket = slotBucket btLst j) :
    sendDue (clk j) s.sentLst s.lastIndex (btLst.deviceLst j) = true ↔
      ComesBack clk btLst sentLst j := by
  have hslot : slotBucket btLst j = slotBucket btLst a.slot := by
    rw [← hbucket, attempt_bucket hloop ha]
  have hsent : s.sentLst (slotBucket btLst j) = btLst.deviceLst a.slot := by
    rw [← hbucket, hloop.sent, lastAttempt_eq_some hclean.buckets ha, Option.map_some,
      Option.getD_some, (hloop.attempt a ha).2.1]
  obtain ⟨hleads, hbefore⟩ : Leads clk btLst sentLst a.slot ∧ a.slot < j := by
    obtain ⟨hlt, hleads⟩ := (hclean.leads a.slot).mp ⟨a, ha, rfl⟩
    exact ⟨hleads, Fin.lt_def.mpr (hj ▸ hlt)⟩
  rw [sendDue_iff]
  constructor
  · rintro ⟨hlast, hpending, havail⟩
    -- the bucket used last is another one, so its entry stands behind `a`
    obtain ⟨l, hl, hlindex, hal⟩ := hclean.latest ha
    have hne : l.bucket ≠ slotBucket btLst j := by
      intro heq
      exact hlast (by rw [hlindex, heq]; rfl)
    have hlt : a.slot < l.slot := by
      rcases hal with rfl | hlt
      · exact absurd hbucket hne
      · exact hlt
    obtain ⟨hln, hlleads⟩ := (hclean.leads l.slot).mp ⟨l, hl, rfl⟩
    have hlb : slotBucket btLst l.slot ≠ slotBucket btLst a.slot := by
      rwa [← attempt_bucket hloop hl, ← hslot]
    exact ⟨a.slot, l.slot, hlt, Fin.lt_def.mpr (hj ▸ hln), hleads, hlleads, hlb, hslot, hpending,
      hsent ▸ havail⟩
  · rintro ⟨i, k, hik, hkj, hi, hk, hne, hsame, hpending, havail⟩
    have htried : ∀ x, x < j → Leads clk btLst sentLst x → ∃ a' ∈ s.attempts, a'.slot = x :=
      fun x hx hlx => (hclean.leads x).mpr ⟨hj ▸ Fin.lt_def.mp hx, hlx⟩
    obtain ⟨ai, hai, rfl⟩ := htried i (hik.trans hkj) hi
    obtain ⟨ak, hak, rfl⟩ := htried k hkj hk
    have hia : ai = a := by
      apply attempt_unique hclean.buckets hai ha
      rw [attempt_bucket hloop hai, hbucket, hsame]
    subst hia
    refine ⟨?_, hpending, hsent.symm ▸ havail⟩
    -- were the bucket of `a` used last, then `a` would stand behind `k`
    intro hlast
    obtain ⟨l, hl, hlindex, hkl⟩ := hclean.latest hak
    have hla : l = ai := by
      apply attempt_unique hclean.buckets hl hai
      rw [hbucket]
      exact Option.some.inj (hlindex.symm.trans hlast.symm)
    subst hla
    rcases hkl with rfl | hlt
    · exact hne rfl
    · exact lt_asymm hlt hik

theorem lt_succ_cases {n : ℕ} (hn : n < BT_LST_SIZE) {k : Fin BT_LST_SIZE} (h : k.val < n + 1) :
    k.val < n ∨ k = ⟨n, hn⟩ :=
  (Nat.lt_succ_iff_lt_or_eq.mp h).imp_right fun heq => Fin.ext heq

/-- An iteration that publishes nothing. -/
theorem Clean.skip {n : ℕ} {s : SendState} (h : Clean clk btLst sentLst n s)
    (hn : n < BT_LST_SIZE) (hback : ¬ ComesBack clk btLst sentLst ⟨n, hn⟩)
    (hleads : ¬ Leads clk btLst sentLst ⟨n, hn⟩) : Clean clk btLst sentLst (n + 1) s := by
  refine ⟨?_, ?_, h.buckets, h.slots, h.last⟩
  · intro j hj
    rcases lt_succ_cases hn hj with hlt | rfl
    · exact h.none_back j hlt
    · exact hback
  · intro k
    rw [h.leads]
    constructor
    · rintro ⟨hlt, hk⟩
      exact ⟨Nat.lt_succ_of_lt hlt, hk⟩
    · rintro ⟨hlt, hk⟩
      rcases lt_succ_cases hn hlt with hlt | rfl
      · exact ⟨hlt, hk⟩
      · exact absurd hk hleads

/-- An iteration that publishes the first due entry of a bucket. -/
theorem Clean.publish {n : ℕ} {s : SendState} (h : Clean clk btLst sentLst n s)
    (hn : n < BT_LST_SIZE) (hback : ¬ ComesBack clk btLst sentLst ⟨n, hn⟩)
    (hleads : Leads clk btLst sentLst ⟨n, hn⟩) {t : SendState} {a : Attempt}
    (hslot : a.slot = ⟨n, hn⟩) (hfresh : ∀ a' ∈ s.attempts, a'.bucket ≠ a.bucket)
    (hattempts : t.attempts = a :: s.attempts) (hlast : t.lastIndex = some a.bucket) :
    Clean clk btLst sentLst (n + 1) t := by
  refine ⟨?_, ?_, ?_, ?_, ?_⟩
  · intro j hj
    rcases lt_succ_cases hn hj with hlt | rfl
    · exact h.none_back j hlt
    · exact hback
  · intro k
    rw [hattempts]
    constructor
    · rintro ⟨a', ha', rfl⟩
      rcases List.mem_cons.mp ha' with rfl | ha'
      · rw [hslot]
        exact ⟨Nat.lt_succ_self n, hleads⟩
      · obtain ⟨hlt, hk⟩ := (h.leads a'.slot).mp ⟨a', ha', rfl⟩
        exact ⟨Nat.lt_succ_of_lt hlt, hk⟩
    · rintro ⟨hlt, hk⟩
      rcases lt_succ_cases hn hlt with hlt | rfl
      · obtain ⟨a', ha', hslot'⟩ := (h.leads k).mpr ⟨hlt, hk⟩
        exact ⟨a', List.mem_cons_of_mem a ha', hslot'⟩
      · exact ⟨a, List.mem_cons_self, hslot⟩
  · rw [hattempts, List.map_cons, List.nodup_cons]
    refine ⟨fun hmem => ?_, h.buckets⟩
    obtain ⟨a', ha', hbucket⟩ := List.mem_map.mp hmem
    exact hfresh a' ha' hbucket
  · rw [hattempts, List.pairwise_cons]
    refine ⟨fun a' ha' => ?_, h.slots⟩
    obtain ⟨hlt, -⟩ := (h.leads a'.slot).mp ⟨a', ha', rfl⟩
    rw [hslot]
    exact Fin.lt_def.mpr hlt
  · rw [hattempts, hlast]
    rfl

/-- **One iteration.** The loop stays clean, or a bucket is used twice, by an
entry that came back to it. -/
theorem clean_iter {n : ℕ} {s : SendState} (hloop : LoopInv rc btLst sentLst n s)
    (hclean : Clean clk btLst sentLst n s) (hn : n < BT_LST_SIZE) :
    Clean clk btLst sentLst (n + 1) (sendIter (clk ⟨n, hn⟩) (rc ⟨n, hn⟩) s ⟨n, hn⟩) ∨
      UsedTwice clk btLst sentLst (n + 1)
        (sendIter (clk ⟨n, hn⟩) (rc ⟨n, hn⟩) s ⟨n, hn⟩) := by
  have hcases := sendIter_cases (clk ⟨n, hn⟩) (rc ⟨n, hn⟩) s ⟨n, hn⟩
  rw [hloop.untried hn] at hcases
  by_cases hused : ∃ a ∈ s.attempts, a.bucket = slotBucket btLst ⟨n, hn⟩
  · obtain ⟨a, ha, hbucket⟩ := hused
    have hiff := sendDue_used (j := ⟨n, hn⟩) hloop hclean rfl ha hbucket
    obtain ⟨haslot, haleads⟩ := (hclean.leads a.slot).mp ⟨a, ha, rfl⟩
    rcases hcases with ⟨hdue, heq⟩ | ⟨hdue, heq⟩
    · refine Or.inr ⟨fun hnodup => ?_, ⟨n, hn⟩, Nat.lt_succ_self n, hiff.mp hdue⟩
      rw [heq, List.map_cons, List.nodup_cons] at hnodup
      exact hnodup.1 (List.mem_map.mpr ⟨a, ha, hbucket⟩)
    · rw [heq]
      refine Or.inl (hclean.skip hn (fun hback => ?_) fun hleads => ?_)
      · rw [hiff.mpr hback] at hdue
        cases hdue
      · apply hleads.2 a.slot (Fin.lt_def.mpr haslot) _ haleads.1
        rw [← attempt_bucket hloop ha, hbucket]
  · have hfresh : ∀ a ∈ s.attempts, a.bucket ≠ slotBucket btLst ⟨n, hn⟩ :=
      fun a ha heq => hused ⟨a, ha, heq⟩
    have hiff := sendDue_fresh (j := ⟨n, hn⟩) hloop hclean hfresh
    have hnolead : ∀ i : Fin BT_LST_SIZE, i.val < n → Leads clk btLst sentLst i →
        slotBucket btLst i ≠ slotBucket btLst ⟨n, hn⟩ := by
      intro i hi hleads hbucket
      obtain ⟨a, ha, rfl⟩ := (hclean.leads i).mpr ⟨hi, hleads⟩
      exact hfresh a ha ((attempt_bucket hloop ha).trans hbucket)
    have hback : ¬ ComesBack clk btLst sentLst ⟨n, hn⟩ := by
      rintro ⟨i, k, hik, hkj, hi, -, -, hsame, -⟩
      exact hnolead i (hik.trans hkj) hi hsame.symm
    have hleads : Leads clk btLst sentLst ⟨n, hn⟩ ↔ DueAtStart clk btLst sentLst ⟨n, hn⟩ := by
      refine ⟨And.left, fun hdue => ⟨hdue, fun i hi hbucket hidue => ?_⟩⟩
      obtain ⟨k, hk, hkleads, hkb⟩ := exists_leads hidue
      exact hnolead k (lt_of_le_of_lt hk hi) hkleads (hkb.trans hbucket)
    rcases hcases with ⟨hdue, heq⟩ | ⟨hdue, heq⟩
    · rw [heq]
      have hfirst : Leads clk btLst sentLst ⟨n, hn⟩ := hleads.mpr (hiff.mp hdue)
      exact Or.inl (hclean.publish (a := ⟨⟨n, hn⟩, btLst.deviceLst ⟨n, hn⟩,
        publishResult (rc ⟨n, hn⟩)⟩) hn hback hfirst rfl hfresh rfl rfl)
    · rw [heq]
      refine Or.inl (hclean.skip hn hback fun h => ?_)
      rw [hiff.mpr (hleads.mp h)] at hdue
      cases hdue

theorem clean_or_usedTwice {n : ℕ} (hn : n ≤ BT_LST_SIZE) :
    Clean clk btLst sentLst n (sendLoop clk rc { btLst := btLst, sentLst := sentLst } n) ∨
      UsedTwice clk btLst sentLst n
        (sendLoop clk rc { btLst := btLst, sentLst := sentLst } n) := by
  induction n with
  | zero => exact Or.inl clean_start
  | succ n ih =>
      have hlt : n < BT_LST_SIZE := hn
      have hle : n ≤ BT_LST_SIZE := hlt.le
      rw [sendLoop_succ clk rc _ hlt]
      rcases ih hle with hclean | htwice
      · exact clean_iter (loopInv_loop clk rc btLst sentLst hle) hclean hlt
      · exact Or.inr (usedTwice_iter htwice _ _ _)

/-- **Publications of a pass.** For every content of the two lists, all clock
readings and all results, everything a pass published is remembered at its end
if and only if no entry comes back to a bucket after another one was used. -/
theorem pass_remembered_iff (clk : Fin BT_LST_SIZE → UInt32) (rc : Fin BT_LST_SIZE → ℤ)
    (btLst : BtLst) (sentLst : SentLst) :
    Remembered (sendDevice clk rc btLst sentLst) ↔ ∀ j, ¬ ComesBack clk btLst sentLst j := by
  have hloop := loopInv_sendDevice clk rc btLst sentLst
  rw [remembered_iff hloop]
  have hcases : Clean clk btLst sentLst BT_LST_SIZE (sendDevice clk rc btLst sentLst) ∨
      UsedTwice clk btLst sentLst BT_LST_SIZE (sendDevice clk rc btLst sentLst) :=
    clean_or_usedTwice le_rfl
  rcases hcases with hclean | ⟨htwice, j, -, hback⟩
  · exact iff_of_true hclean.buckets fun j => hclean.none_back j j.isLt
  · exact iff_of_false htwice fun hall => hall j hback

/-! ## A bucket used twice -/

/-- Three devices found at time 1, the first and the last of one bucket. -/
def crowdedLst : BtLst :=
  { lonelyLst with
    deviceLst := fun k =>
      if k.val = 0 then { timestamp := 1, addr := #v[0x05, 0xA1, 0, 0, 0, 0] }
      else if k.val = 1 then { timestamp := 1, addr := #v[0x06, 0xA2, 0, 0, 0, 0] }
      else if k.val = 2 then { timestamp := 1, addr := #v[0x25, 0xA3, 0, 0, 0, 0] }
      else {} }

def crowdedPass : SendState := sendDevice (fun _ => 2) (fun _ => 0) crowdedLst fun _ => {}

/-- All three are published, and the first is forgotten. -/
theorem first_forgotten :
    crowdedPass.attempts.map Attempt.bucket = [5, 6, 5] ∧
      (crowdedPass.sentLst 5).addr = #v[0x25, 0xA3, 0, 0, 0, 0] ∧ ¬ Remembered crowdedPass := by
  have hbuckets : crowdedPass.attempts.map Attempt.bucket = [5, 6, 5] := by decide +kernel
  refine ⟨hbuckets, by decide +kernel, fun h => ?_⟩
  have hnodup := h.buckets
  rw [hbuckets] at hnodup
  revert hnodup
  decide +kernel

end SmartDoorLock
