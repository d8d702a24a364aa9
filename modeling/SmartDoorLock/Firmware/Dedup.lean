import SmartDoorLock.Firmware.DeviceTable
import Mathlib.Data.List.Basic

/-!
# De-duplication of reports

`sent_lst` suppresses an address for `BT_DEVICE_LIFETIME` ms, but counts them
from the time stamp copied out of `bt_lst`, which is when the device was found
and not when it was published. The bucket of a publication is therefore free
again `34000` ms after the discovery, and between that moment and `34000` ms
after the publication nothing stops a second report.

The window is exactly this gap: over every run the publications of an address
are `34000` ms apart if and only if no pass visits a pending entry inside it.
-/

namespace SmartDoorLock

open CText WrapClock

/-- The latest publication in a bucket, in a history with the latest first. -/
def lastIn (b : Fin SENT_LST_SIZE) (pubs : List Publication) : Option Publication :=
  pubs.find? fun p => sentIdx p.addr = b

theorem lastIn_cons (b : Fin SENT_LST_SIZE) (p : Publication) (pubs : List Publication) :
    lastIn b (p :: pubs) = if sentIdx p.addr = b then some p else lastIn b pubs := by
  by_cases h : sentIdx p.addr = b <;> simp [lastIn, h]

/-! ## The property and the condition -/

/-- Any two publications of one address, with no other address of its bucket
published in between, are at least a lifetime apart. -/
def Spaced (pubs : List Publication) : Prop :=
  ∀ newer q mid p older, pubs = newer ++ q :: (mid ++ p :: older) → p.addr = q.addr →
    (∀ r ∈ mid, sentIdx r.addr = sentIdx q.addr → r.addr = q.addr) →
    p.time + 34000 ≤ q.time

/-- When an iteration of `send_device` comes to a pending entry, the bucket of
the entry not being the one used last in this pass, and the latest publication
of the bucket was of the same address: then the lifetime of that publication,
counted from its discovery, is not yet over, or it is over counted from the
publication as well. -/
def ResendOk (s : TableState) (a : TableAct) : Prop :=
  a = .sendNext → ∀ p (h : p.i < BT_LST_SIZE), s.pass = some p →
    let cur := s.btLst.deviceLst ⟨p.i, h⟩
    cur.timestamp ≠ 0 → some (sentIdx cur.addr) ≠ p.lastIndex →
    ∀ q, lastIn (sentIdx cur.addr) s.published = some q → q.addr = cur.addr →
      s.now < q.found.toNat + 34000 ∨ q.time + 34000 ≤ s.now

/-! ## The invariant -/

/-- The tables and the history they come from, while the clock has not
wrapped. -/
structure TableInv (s : TableState) : Prop where
  slot_le : ∀ k, (s.btLst.deviceLst k).timestamp.toNat ≤ s.now
  found_le : ∀ p ∈ s.published, p.found.toNat ≤ p.time
  time_le : ∀ p ∈ s.published, p.time ≤ s.now
  sorted : s.published.Pairwise fun q p => p.time ≤ q.time
  /-- a bucket holds the latest publication that fell into it -/
  sent : ∀ b p, lastIn b s.published = some p → s.sentLst b = ⟨p.found, p.addr⟩

theorem tableInv_init : TableInv {} where
  slot_le k := Nat.le_refl 0
  found_le p hp := by simp at hp
  time_le p hp := by simp at hp
  sorted := List.Pairwise.nil
  sent b p h := by simp [lastIn] at h

theorem tableInv_later {s t : TableState} (hinv : TableInv s) (hnow : s.now ≤ t.now)
    (hslot : ∀ k, (t.btLst.deviceLst k).timestamp.toNat ≤ t.now)
    (hsent : t.sentLst = s.sentLst) (hpub : t.published = s.published) : TableInv t := by
  refine ⟨hslot, ?_, ?_, ?_, ?_⟩
  · rw [hpub]
    exact hinv.found_le
  · intro p hp
    rw [hpub] at hp
    exact (hinv.time_le p hp).trans hnow
  · rw [hpub]
    exact hinv.sorted
  · rw [hpub, hsent]
    exact hinv.sent

theorem tableInv_add {s : TableState} (hinv : TableInv s) (address : BdAddr) (gap : ℕ → ℕ)
    (hB : reading s.now gap BT_LST_SIZE < 2 ^ 32) :
    TableInv { s with
      now := reading s.now gap BT_LST_SIZE
      btLst := (addBtDevice (fun k => stamp (reading s.now gap k)) s.btLst address).1 } := by
  have hnow : s.now ≤ reading s.now gap BT_LST_SIZE := le_reading _ _ _
  refine tableInv_later hinv hnow (fun k => ?_) rfl rfl
  show ((addBtDevice _ s.btLst address).1.deviceLst k).timestamp.toNat ≤ _
  rcases addBtDevice_slot (fun k => stamp (reading s.now gap k)) s.btLst address k with h | h
  · rw [h]
    exact (hinv.slot_le k).trans hnow
  · rw [h]
    exact (toNat_stamp_of_lt hB).le

theorem tableInv_sendSlot {s : TableState} (hinv : TableInv s) (i : Fin BT_LST_SIZE)
    (lastIndex : Option (Fin SENT_LST_SIZE)) : TableInv (sendSlot s i lastIndex) := by
  unfold sendSlot
  simp only
  split
  · refine ⟨fun k => ?_, ?_, ?_, ?_, ?_⟩
    · rcases clear_slot s.btLst i k with h | h
      · rw [h]
        exact hinv.slot_le k
      · rw [h]
        exact Nat.zero_le _
    · intro p hp
      rcases List.mem_cons.mp hp with rfl | hp
      · exact hinv.slot_le i
      · exact hinv.found_le p hp
    · intro p hp
      rcases List.mem_cons.mp hp with rfl | hp
      · exact le_rfl
      · exact hinv.time_le p hp
    · exact List.pairwise_cons.mpr ⟨hinv.time_le, hinv.sorted⟩
    · intro b p hlast
      rw [lastIn_cons] at hlast
      by_cases hb : sentIdx (s.btLst.deviceLst i).addr = b
      · rw [if_pos hb, Option.some.injEq] at hlast
        subst hlast hb
        exact Function.update_self _ _ _
      · rw [if_neg hb] at hlast
        exact (Function.update_of_ne (Ne.symm hb) _ _).trans (hinv.sent b p hlast)
  · exact tableInv_later hinv le_rfl hinv.slot_le rfl rfl

theorem tableInv_step (s : TableState) (a : TableAct) (t : TableState) (hinv : TableInv s)
    (hB : t.now < 2 ^ 32) (h : tableStep s a = some t) : TableInv t := by
  rcases tableStep_cases h with ⟨d, -, rfl⟩ | ⟨address, gap, -, -, rfl⟩ | ⟨-, -, rfl⟩ |
    ⟨p, hi, -, -, rfl⟩ | ⟨p, -, -, -, rfl⟩
  · exact tableInv_later hinv (Nat.le_add_right _ _)
      (fun k => (hinv.slot_le k).trans (Nat.le_add_right _ _)) rfl rfl
  · exact tableInv_add hinv address gap hB
  · exact tableInv_later hinv le_rfl hinv.slot_le rfl rfl
  · exact tableInv_sendSlot hinv _ _
  · exact tableInv_later hinv le_rfl hinv.slot_le rfl rfl

/-! ## One more publication -/

/-- The latest publication of a bucket stands before every other one of it. -/
theorem lastIn_of_split {mid older : List Publication} {p q : Publication}
    (hpq : p.addr = q.addr) (hmid : ∀ r ∈ mid, sentIdx r.addr = sentIdx q.addr → r.addr = q.addr) :
    ∃ r, lastIn (sentIdx q.addr) (mid ++ p :: older) = some r ∧ r.addr = q.addr ∧
      (r = p ∨ r ∈ mid) := by
  induction mid with
  | nil =>
      refine ⟨p, ?_, hpq, Or.inl rfl⟩
      rw [List.nil_append, lastIn_cons, if_pos (by rw [hpq])]
  | cons r mid ih =>
      rw [List.cons_append, lastIn_cons]
      by_cases hr : sentIdx r.addr = sentIdx q.addr
      · exact ⟨r, if_pos hr, hmid r List.mem_cons_self hr, Or.inr List.mem_cons_self⟩
      · obtain ⟨x, hx, hxq, hmem⟩ := ih fun x hx => hmid x (List.mem_cons_of_mem _ hx)
        refine ⟨x, (if_neg hr).trans hx, hxq, ?_⟩
        exact hmem.imp_right (List.mem_cons_of_mem _)

theorem split_of_lastIn {b : Fin SENT_LST_SIZE} {pubs : List Publication} {p : Publication}
    (h : lastIn b pubs = some p) :
    sentIdx p.addr = b ∧ ∃ mid older, pubs = mid ++ p :: older ∧ ∀ r ∈ mid, sentIdx r.addr ≠ b := by
  obtain ⟨hb, mid, older, hsplit, hmid⟩ := List.find?_eq_some_iff_append.mp h
  exact ⟨by simpa using hb, mid, older, hsplit, fun r hr => by simpa using hmid r hr⟩

theorem spaced_cons_iff {q : Publication} {pubs : List Publication} :
    Spaced (q :: pubs) ↔ Spaced pubs ∧
      ∀ mid p older, pubs = mid ++ p :: older → p.addr = q.addr →
        (∀ r ∈ mid, sentIdx r.addr = sentIdx q.addr → r.addr = q.addr) →
        p.time + 34000 ≤ q.time := by
  constructor
  · intro h
    constructor
    · intro newer q' mid p older hsplit
      exact h (q :: newer) q' mid p older (by rw [hsplit]; rfl)
    · intro mid p older hsplit
      exact h [] q mid p older (by rw [hsplit]; rfl)
  · rintro ⟨hold, hnew⟩ newer q' mid p older hsplit
    cases newer with
    | nil =>
        rw [List.nil_append, List.cons.injEq] at hsplit
        obtain ⟨rfl, hsplit⟩ := hsplit
        exact hnew mid p older hsplit
    | cons x newer =>
        rw [List.cons_append, List.cons.injEq] at hsplit
        exact hold newer q' mid p older hsplit.2

/-- A publication keeps the spacing exactly when it is a lifetime after the
latest publication in its bucket, if that was of the same address. -/
theorem spaced_publish_iff {s : TableState} (hinv : TableInv s) (q : Publication)  :
    Spaced (q :: s.published) ↔ Spaced s.published ∧
      ∀ r, lastIn (sentIdx q.addr) s.published = some r → r.addr = q.addr →
        r.time + 34000 ≤ q.time := by
  rw [spaced_cons_iff]
  refine and_congr_right fun _ => ?_
  constructor
  · intro h r hlast hr
    obtain ⟨-, mid, older, hsplit, hmid⟩ := split_of_lastIn hlast
    exact h mid r older hsplit hr fun x hx hxq => absurd hxq (hmid x hx)
  · intro h mid p older hsplit hp hmid
    obtain ⟨r, hlast, hr, hmem⟩ := @lastIn_of_split mid older p q hp hmid
    rw [← hsplit] at hlast
    have hlater : p.time ≤ r.time := by
      rcases hmem with rfl | hmem
      · exact le_rfl
      · have hsorted := hinv.sorted
        rw [hsplit, List.pairwise_append] at hsorted
        exact hsorted.2.2 r hmem p List.mem_cons_self
    exact (Nat.add_le_add_right hlater _).trans (h r hlast hr)

/-- The bucket of the latest publication of an address is free for it again a
lifetime after the discovery. -/
theorem available_iff_found {s : TableState} (hinv : TableInv s) (hB : s.now < 2 ^ 32)
    {b : Fin SENT_LST_SIZE} {r : Publication} (hlast : lastIn b s.published = some r) :
    isAvailable (stamp s.now) (s.sentLst b) r.addr = true ↔ r.found.toNat + 34000 ≤ s.now := by
  have hmem : r ∈ s.published := List.mem_of_find?_eq_some hlast
  rw [hinv.sent b r hlast]
  exact isAvailable_iff_lifetime hB ((hinv.found_le r hmem).trans (hinv.time_le r hmem))

theorem spaced_sendSlot_iff {s : TableState} (hinv : TableInv s) (hB : s.now < 2 ^ 32)
    {p : Pass} (hpass : s.pass = some p) (hi : p.i < BT_LST_SIZE) :
    Spaced (sendSlot s ⟨p.i, hi⟩ p.lastIndex).published ↔
      Spaced s.published ∧ ResendOk s .sendNext := by
  unfold sendSlot
  simp only
  split
  · rename_i hdue
    obtain ⟨hidx, hpending, havail⟩ := sendDue_iff.mp hdue
    rw [spaced_publish_iff hinv]
    refine and_congr_right fun _ => ?_
    constructor
    · rintro h - p' hi' hpass' cur - - q hlast hq
      obtain rfl : p = p' := Option.some.inj (hpass.symm.trans hpass')
      exact Or.inr (h q hlast hq)
    · intro h r hlast hr
      have hfree : r.found.toNat + 34000 ≤ s.now := by
        rw [← available_iff_found hinv hB hlast, hr]
        exact havail
      rcases h rfl p hi hpass hpending hidx r hlast hr with hlt | hle
      · exact absurd hlt (Nat.not_lt.mpr hfree)
      · exact hle
  · rename_i hdue
    refine (and_iff_left ?_).symm
    rintro - p' hi' hpass' cur hpending hidx q hlast hq
    obtain rfl : p = p' := Option.some.inj (hpass.symm.trans hpass')
    -- not published although pending: the bucket still holds the address back
    left
    by_contra hlate
    have hfree := (available_iff_found hinv hB hlast).mpr (by omega)
    rw [hq] at hfree
    exact hdue (sendDue_iff.mpr ⟨hidx, hpending, hfree⟩)

theorem spaced_step (s : TableState) (a : TableAct) (t : TableState) (hinv : TableInv s)
    (hB : t.now < 2 ^ 32) (h : tableStep s a = some t) :
    Spaced t.published ↔ Spaced s.published ∧ ResendOk s a := by
  have hBs : s.now < 2 ^ 32 := (tableStep_now_le h).trans_lt hB
  rcases tableStep_cases h with ⟨d, rfl, rfl⟩ | ⟨address, gap, rfl, -, rfl⟩ | ⟨rfl, -, rfl⟩ |
    ⟨p, hi, rfl, hpass, rfl⟩ | ⟨p, rfl, hpass, hi, rfl⟩
  · exact (and_iff_left fun ha => TableAct.noConfusion ha).symm
  · exact (and_iff_left fun ha => TableAct.noConfusion ha).symm
  · exact (and_iff_left fun ha => TableAct.noConfusion ha).symm
  · exact spaced_sendSlot_iff hinv hBs hpass hi
  · refine (and_iff_left ?_).symm
    rintro - p' hi' hpass'
    obtain rfl : p = p' := Option.some.inj (hpass.symm.trans hpass')
    exact absurd hi' hi

/-! ## Runs -/

/-- **De-duplication, exactly.** Over every run of calls of `add_bt_device` and
`send_device` below `2 ^ 32` ms, the publications of an address are a lifetime
apart if and only if no iteration of `send_device` comes to a pending entry in
the gap that the time stamp of its latest publication leaves open. -/
theorem publications_spaced_iff (acts : List TableAct) (s : TableState) (hB : s.now < 2 ^ 32)
    (hrun : Machine.run tableStep {} acts = some s) :
    Spaced s.published ↔ Machine.Along tableStep ResendOk {} acts := by
  refine Machine.iff_along_within (B := fun u => u.now < 2 ^ 32) (P := TableInv)
    (Q := fun u => Spaced u.published) ?_ tableInv_step spaced_step tableInv_init ?_ hB hrun
  · exact fun u a t hBt hstep => (tableStep_now_le hstep).trans_lt hBt
  · intro newer q mid p older hsplit
    simp at hsplit

/-! A phone is found at 1000 ms, and a pass comes only at 40000 ms; found again
one millisecond later, it is published again at once. -/

def phone : BdAddr := #v[0x21, 0x43, 0x65, 0x87, 0xA9, 0xCB]

def lateRun : List TableAct :=
  [.wait 1000, .add phone fun _ => 0, .wait 39000, .sendStart] ++
    List.replicate 6 .sendNext ++ [.wait 1, .add phone fun _ => 0, .sendStart, .sendNext, .sendNext]

theorem lateRun_result :
    (Machine.run tableStep {} lateRun).map (fun s => (s.now, s.published)) =
      some (40001, [⟨phone, 40001, 40001⟩, ⟨phone, 1000, 40000⟩]) := by
  decide +kernel

theorem lateRun_not_spaced :
    ¬ Spaced [⟨phone, 40001, 40001⟩, ⟨phone, 1000, 40000⟩] := by
  intro h
  have hgap : 40000 + 34000 ≤ 40001 := h [] _ [] _ [] rfl rfl (by simp)
  omega

/-- Two publications of one address, 1 ms apart. -/
theorem published_twice : ∃ s, Machine.run tableStep {} lateRun = some s ∧
    s.now < 2 ^ 32 ∧ phone ≠ Vector.replicate 6 0 ∧ ¬ Spaced s.published := by
  obtain ⟨s, hrun, hs⟩ := Option.map_eq_some_iff.mp lateRun_result
  rw [Prod.mk.injEq] at hs
  refine ⟨s, hrun, by omega, by decide, ?_⟩
  rw [hs.2]
  exact lateRun_not_spaced

/-- A phone is published soon after it is found, and again when it is found a
lifetime after that. -/
def spacedRun : List TableAct :=
  [.wait 1000, .add phone fun _ => 0, .wait 1000, .sendStart] ++ List.replicate 6 .sendNext ++
    [.wait 34000, .add phone fun _ => 0, .sendStart, .sendNext, .sendNext]

theorem spacedRun_result :
    (Machine.run tableStep {} spacedRun).map (fun s => (s.now, s.published)) =
      some (36000, [⟨phone, 36000, 36000⟩, ⟨phone, 1000, 2000⟩]) := by
  decide +kernel

theorem spaced_pair {p q : Publication} (h : p.time + 34000 ≤ q.time) : Spaced [q, p] := by
  intro newer q' mid p' older hsplit _ _
  -- there is no room for a third publication
  have hlen := congrArg List.length hsplit
  simp only [List.length_append, List.length_cons, List.length_nil] at hlen
  obtain rfl : newer = [] := List.length_eq_zero_iff.mp (by omega)
  obtain rfl : mid = [] := List.length_eq_zero_iff.mp (by omega)
  obtain ⟨rfl, hrest⟩ := List.cons.inj hsplit
  obtain ⟨rfl, -⟩ := List.cons.inj hrest
  exact h

/-- The second visit of the first run is in the gap, and none of the second run
is. -/
theorem lateRun_in_gap : ¬ Machine.Along tableStep ResendOk {} lateRun ∧
    Machine.Along tableStep ResendOk {} spacedRun := by
  constructor
  · intro halong
    obtain ⟨s, hrun, hs⟩ := Option.map_eq_some_iff.mp lateRun_result
    rw [Prod.mk.injEq] at hs
    have hspaced := (publications_spaced_iff lateRun s (by omega) hrun).mpr halong
    rw [hs.2] at hspaced
    exact lateRun_not_spaced hspaced
  · obtain ⟨s, hrun, hs⟩ := Option.map_eq_some_iff.mp spacedRun_result
    rw [Prod.mk.injEq] at hs
    apply (publications_spaced_iff spacedRun s (by omega) hrun).mp
    rw [hs.2]
    exact spaced_pair (by decide)

end SmartDoorLock
