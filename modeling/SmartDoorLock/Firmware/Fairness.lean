import SmartDoorLock.Firmware.Eviction
import Mathlib.Data.Fintype.Card
import Mathlib.Order.Interval.Finset.Fin

/-!
# How long a device waits

`send_device` skips an entry whose bucket is the one it used last, so a device may
be passed by, and again in the next pass if another device of its bucket was found
in between. It gives way only to devices in the slots before its own, and to each of
them once. A device that nothing overwrites is therefore published within as many
passes as it has rivals.
-/

namespace SmartDoorLock

open CText WrapClock Machine

/-! ## The accounts of an entry -/

/-- The step overwrites the entry of slot `k`, or publishes it. -/
def takes (k : Fin BT_LST_SIZE) (s : TableState) : TableAct → Bool
  | .add address gap => s.btLst.i = k && addReturns s address gap != -1
  | .sendNext => nextPublished s = some k
  | _ => false

/-- A pass comes by slot `k`, and its device is not one reported just now. -/
def comesBy (k : Fin BT_LST_SIZE) (dev : BtDevice) (s : TableState) : TableAct → ℕ
  | .sendNext =>
      match s.pass with
      | some p =>
          if p.i = k ∧ isAvailable (stamp s.now) (s.sentLst (sentIdx dev.addr)) dev.addr then 1
          else 0
      | none => 0
  | _ => 0

/-- The devices of the same bucket that wait in the slots before `k`. -/
def rivals (k : Fin BT_LST_SIZE) (dev : BtDevice) (deviceLst : Fin BT_LST_SIZE → BtDevice) :
    Finset (Fin BT_LST_SIZE) :=
  (Finset.Iio k).filter fun j =>
    (deviceLst j).timestamp ≠ 0 ∧ sentIdx (deviceLst j).addr = sentIdx dev.addr

/-- Another such device is found. -/
def rivalAdded (k : Fin BT_LST_SIZE) (dev : BtDevice) (s : TableState) : TableAct → ℕ
  | .add address gap =>
      if s.btLst.i < k ∧ addReturns s address gap ≠ -1 ∧ sentIdx address = sentIdx dev.addr then 1
      else 0
  | _ => 0

/-- The pass on its way to slot `k` has used the bucket last. -/
def heldUp (k : Fin BT_LST_SIZE) (dev : BtDevice) (s : TableState) : ℕ :=
  match s.pass with
  | some p => if p.i ≤ k ∧ p.lastIndex = some (sentIdx dev.addr) then 1 else 0
  | none => 0

/-! ## What a step does to the rivals -/

section

variable {k : Fin BT_LST_SIZE} {dev : BtDevice}

theorem mem_rivals {deviceLst : Fin BT_LST_SIZE → BtDevice} {j : Fin BT_LST_SIZE} :
    j ∈ rivals k dev deviceLst ↔ j < k ∧ (deviceLst j).timestamp ≠ 0 ∧
      sentIdx (deviceLst j).addr = sentIdx dev.addr := by
  rw [rivals, Finset.mem_filter, Finset.mem_Iio]

theorem rivals_card_le (deviceLst : Fin BT_LST_SIZE → BtDevice) :
    (rivals k dev deviceLst).card ≤ k := by
  rw [← Fin.card_Iio k]
  exact Finset.card_filter_le _ _

theorem rivals_update_subset (deviceLst : Fin BT_LST_SIZE → BtDevice) (c : Fin BT_LST_SIZE)
    (device : BtDevice) :
    rivals k dev (Function.update deviceLst c device) ⊆ insert c (rivals k dev deviceLst) := by
  intro j hj
  by_cases hjc : j = c
  · exact hjc ▸ Finset.mem_insert_self _ _
  · rw [mem_rivals, Function.update_of_ne hjc] at hj
    exact Finset.mem_insert_of_mem (mem_rivals.mpr hj)

/-- A slot that is written with a device that is none is no rival any more. -/
theorem rivals_update_erase (deviceLst : Fin BT_LST_SIZE → BtDevice) (c : Fin BT_LST_SIZE)
    (device : BtDevice)
    (h : ¬ (c < k ∧ device.timestamp ≠ 0 ∧ sentIdx device.addr = sentIdx dev.addr)) :
    rivals k dev (Function.update deviceLst c device) ⊆ (rivals k dev deviceLst).erase c := by
  intro j hj
  have hjc : j ≠ c := by
    rintro rfl
    rw [mem_rivals, Function.update_self] at hj
    exact h hj
  rw [mem_rivals, Function.update_of_ne hjc] at hj
  exact Finset.mem_erase.mpr ⟨hjc, mem_rivals.mpr hj⟩

/-- A call of `add_bt_device` makes one rival at most, and only one it accepts. -/
theorem rivals_add (s : TableState) (address : BdAddr) (gap : ℕ → ℕ) :
    (rivals k dev (addBtDevice (fun j => stamp (reading s.now gap j)) s.btLst
        address).1.deviceLst).card ≤
      (rivals k dev s.btLst.deviceLst).card + rivalAdded k dev s (.add address gap) := by
  rcases addBtDevice_cases (fun j => stamp (reading s.now gap j)) s.btLst address with
    ⟨-, heq⟩ | ⟨-, heq⟩
  · rw [heq]
    exact Nat.le_add_right _ _
  · have hreturns : addReturns s address gap ≠ -1 := by
      rw [addReturns, heq]
      exact fun hneg => by cases hneg
    rw [heq]
    by_cases hrival : s.btLst.i < k ∧ sentIdx address = sentIdx dev.addr
    · rw [rivalAdded, if_pos ⟨hrival.1, hreturns, hrival.2⟩]
      exact (Finset.card_le_card (rivals_update_subset _ _ _)).trans (Finset.card_insert_le _ _)
    · have hsub := rivals_update_erase s.btLst.deviceLst s.btLst.i
        ⟨stamp (reading s.now gap BT_LST_SIZE), address⟩ fun h => hrival ⟨h.1, h.2.2⟩
      have hle := (Finset.card_le_card hsub).trans Finset.card_erase_le
      exact hle.trans (Nat.le_add_right _ _)

/-! ## What a step does to the entry -/

theorem takes_sendNext {s : TableState} {p : Pass} (hpass : s.pass = some p)
    (hp : p.i < BT_LST_SIZE) : takes k s .sendNext = true ↔
      p.i = k ∧ sendDue (stamp s.now) s.sentLst p.lastIndex (s.btLst.deviceLst k) = true := by
  have hslot : (⟨p.i, hp⟩ : Fin BT_LST_SIZE) = k ↔ p.i = k := Fin.ext_iff
  simp only [takes, nextPublished, hpass, hp, ↓reduceDIte, decide_eq_true_eq]
  split
  · rename_i hdue
    rw [Option.some.injEq, hslot]
    refine ⟨fun hk => ⟨hk, ?_⟩, And.left⟩
    rw [← hslot.mpr hk]
    exact hdue
  · rename_i hdue
    refine iff_of_false (fun h => by cases h) fun h => hdue ?_
    rw [hslot.mpr h.1]
    exact h.2

/-- Nothing else changes the slot. -/
theorem slotHeld_step {s t : TableState} {a : TableAct} (hheld : s.btLst.deviceLst k = dev)
    (hkept : takes k s a = false) (ht : tableStep s a = some t) : t.btLst.deviceLst k = dev := by
  rcases tableStep_cases ht with ⟨d, rfl, rfl⟩ | ⟨address, gap, rfl, -, rfl⟩ | ⟨rfl, -, rfl⟩ |
    ⟨p, hp, rfl, hpass, rfl⟩ | ⟨p, rfl, -, -, rfl⟩
  · exact hheld
  · rcases addBtDevice_cases (fun j => stamp (reading s.now gap j)) s.btLst address with
      ⟨-, heq⟩ | ⟨-, heq⟩
    · simp only [heq]
      exact hheld
    · have hother : k ≠ s.btLst.i := by
        rintro rfl
        rw [takes, addReturns, heq] at hkept
        revert hkept
        simp
      simp only [heq]
      rw [Function.update_of_ne hother]
      exact hheld
  · exact hheld
  · simp only [sendSlot]
    split
    · rename_i hdue
      have hother : k ≠ ⟨p.i, hp⟩ := by
        intro hk
        have htakes := (takes_sendNext (k := k) hpass hp).mpr ⟨by rw [hk], by rw [hk]; exact hdue⟩
        rw [hkept] at htakes
        cases htakes
      exact (Function.update_of_ne hother _ _).trans hheld
    · exact hheld
  · exact hheld

/-! ## What a step does to the accounts -/

theorem comesBy_sendNext {s : TableState} {p : Pass} (hpass : s.pass = some p) :
    comesBy k dev s .sendNext =
      if p.i = k ∧ isAvailable (stamp s.now) (s.sentLst (sentIdx dev.addr)) dev.addr then 1
      else 0 := by
  rw [comesBy, hpass]

theorem heldUp_of_pass {s : TableState} {p : Pass} (hpass : s.pass = some p) :
    heldUp k dev s = if p.i ≤ k ∧ p.lastIndex = some (sentIdx dev.addr) then 1 else 0 := by
  rw [heldUp, hpass]

/-- An iteration that publishes a slot of the bucket has a rival less, and holds the
entry up in return. -/
theorem rivals_publish {s : TableState} {p : Pass} (hp : p.i < BT_LST_SIZE)
    (hpass : s.pass = some p) (hkept : takes k s .sendNext = false)
    (hdue : sendDue (stamp s.now) s.sentLst p.lastIndex (s.btLst.deviceLst ⟨p.i, hp⟩) = true) :
    comesBy k dev s .sendNext + ((rivals k dev (s.btLst.clear ⟨p.i, hp⟩).deviceLst).card +
        if p.i + 1 ≤ k ∧ sentIdx (s.btLst.deviceLst ⟨p.i, hp⟩).addr = sentIdx dev.addr then 1
        else 0) ≤
      (rivals k dev s.btLst.deviceLst).card := by
  have hother : p.i ≠ k := by
    intro hk
    have hslot : (⟨p.i, hp⟩ : Fin BT_LST_SIZE) = k := Fin.ext hk
    rw [(takes_sendNext hpass hp).mpr ⟨hk, hslot ▸ hdue⟩] at hkept
    cases hkept
  have hclear : (rivals k dev (s.btLst.clear ⟨p.i, hp⟩).deviceLst).card ≤
      ((rivals k dev s.btLst.deviceLst).erase ⟨p.i, hp⟩).card :=
    Finset.card_le_card (rivals_update_erase s.btLst.deviceLst _ {} fun h => h.2.1 rfl)
  rw [comesBy_sendNext hpass, if_neg fun h => hother h.1, Nat.zero_add]
  split
  · rename_i hrival
    have hmem : ⟨p.i, hp⟩ ∈ rivals k dev s.btLst.deviceLst :=
      mem_rivals.mpr ⟨hrival.1, (sendDue_iff.mp hdue).2.1, hrival.2⟩
    rw [← Finset.card_erase_add_one hmem]
    exact Nat.add_le_add_right hclear 1
  · exact hclear.trans Finset.card_erase_le

/-- An iteration that goes on has come by the entry only if it was held up. -/
theorem rivals_skip {s : TableState} {p : Pass} (hp : p.i < BT_LST_SIZE)
    (hpass : s.pass = some p) (hheld : s.btLst.deviceLst k = dev) (hts : dev.timestamp ≠ 0)
    (hdue : ¬ sendDue (stamp s.now) s.sentLst p.lastIndex (s.btLst.deviceLst ⟨p.i, hp⟩) = true) :
    (comesBy k dev s .sendNext +
        if p.i + 1 ≤ k ∧ p.lastIndex = some (sentIdx dev.addr) then 1 else 0) ≤
      heldUp k dev s := by
  rw [comesBy_sendNext hpass, heldUp_of_pass hpass]
  by_cases hk : p.i = k
  · have hslot : (⟨p.i, hp⟩ : Fin BT_LST_SIZE) = k := Fin.ext hk
    rw [hslot, hheld, sendDue_iff] at hdue
    rw [if_neg (c := p.i + 1 ≤ k ∧ _) fun h => absurd h.1 (by omega)]
    split
    · rename_i hopen
      -- it is not the bucket's device, and not the time stamp: the bucket was used last
      have hlast : p.lastIndex = some (sentIdx dev.addr) := by
        by_contra hlast
        exact hdue ⟨Ne.symm hlast, hts, hopen.2⟩
      rw [if_pos ⟨hk.le, hlast⟩]
    · exact Nat.zero_le _
  · rw [if_neg fun h => hk h.1, Nat.zero_add]
    split
    · rename_i h
      rw [if_pos ⟨Nat.le_of_succ_le h.1, h.2⟩]
    · exact Nat.zero_le _

/-- **Giving way costs a rival.** -/
theorem rivals_step {s t : TableState} {a : TableAct} (hheld : s.btLst.deviceLst k = dev)
    (hts : dev.timestamp ≠ 0) (hkept : takes k s a = false) (ht : tableStep s a = some t) :
    comesBy k dev s a + ((rivals k dev t.btLst.deviceLst).card + heldUp k dev t) ≤
      (rivals k dev s.btLst.deviceLst).card + heldUp k dev s + rivalAdded k dev s a := by
  rcases tableStep_cases ht with ⟨d, rfl, rfl⟩ | ⟨address, gap, rfl, hidle, rfl⟩ |
    ⟨rfl, hidle, rfl⟩ | ⟨p, hp, rfl, hpass, rfl⟩ | ⟨p, rfl, hpass, hp, rfl⟩
  · exact Nat.le_of_eq (Nat.zero_add _)
  · have hadd : (rivals k dev (addBtDevice (fun j => stamp (reading s.now gap j)) s.btLst
          address).1.deviceLst).card ≤
        (rivals k dev s.btLst.deviceLst).card + rivalAdded k dev s (.add address gap) :=
      rivals_add s address gap
    simp only [comesBy, heldUp, hidle]
    omega
  · simp [comesBy, heldUp, hidle, rivalAdded]
  · simp only [sendSlot]
    split
    · rename_i hdue
      have hrank := @rivals_publish k dev s p hp hpass hkept hdue
      simp only [heldUp, Option.some.injEq, rivalAdded]
      omega
    · rename_i hdue
      have hrank := rivals_skip hp hpass hheld hts hdue
      have hnext : heldUp k dev { s with pass := some ⟨p.i + 1, p.lastIndex⟩ } =
          if p.i + 1 ≤ k ∧ p.lastIndex = some (sentIdx dev.addr) then 1 else 0 := rfl
      simp only [hnext, rivalAdded]
      omega
  · have hpast : p.i ≠ k := fun h => hp (h ▸ k.isLt)
    have hreturned : heldUp k dev { s with pass := none } = 0 := rfl
    rw [comesBy_sendNext hpass, if_neg fun h => hpast h.1, hreturned, Nat.zero_add, Nat.add_zero,
      Nat.add_assoc]
    exact Nat.le_add_right _ _

/-! ## Bounded waiting -/

/-- **Bounded waiting.** Let a device wait in slot `k` when no pass is in progress. In
every run in which its entry is neither published nor overwritten, passes have come by
it, while it was not one reported just now, at most once for each device of its bucket
that waited before it or was found since and put there; at the start there are at most
`k` of these. When it is published, it is with its address and the time it was found. -/
theorem bounded_waiting {s u : TableState} {as : List TableAct} (hidle : s.pass = none)
    (hheld : s.btLst.deviceLst k = dev) (hts : dev.timestamp ≠ 0)
    (hkept : Along tableStep (fun v a => takes k v a = false) s as)
    (hrun : run tableStep s as = some u) :
    total tableStep (comesBy k dev) s as ≤
        (rivals k dev s.btLst.deviceLst).card + total tableStep (rivalAdded k dev) s as ∧
      (rivals k dev s.btLst.deviceLst).card ≤ k ∧
      ∀ v, takes k u .sendNext = true → tableStep u .sendNext = some v →
        v.published = ⟨dev.addr, dev.timestamp, u.now⟩ :: u.published := by
  have hstep : ∀ v a w, v.btLst.deviceLst k = dev → takes k v a = false →
      tableStep v a = some w → w.btLst.deviceLst k = dev := fun _ _ _ => slotHeld_step
  refine ⟨?_, rivals_card_le _, fun v htakes hv => ?_⟩
  · have hrank : ∀ v a w, v.btLst.deviceLst k = dev → takes k v a = false →
        tableStep v a = some w →
        comesBy k dev v a + ((rivals k dev w.btLst.deviceLst).card + heldUp k dev w) ≤
          (rivals k dev v.btLst.deviceLst).card + heldUp k dev v + rivalAdded k dev v a :=
      fun v a w hv hfree hw => rivals_step hv hts hfree hw
    have hstart : heldUp k dev s = 0 := by rw [heldUp, hidle]
    have htotal := total_le_of_along hstep hrank hheld hkept hrun
    omega
  · have hend : u.btLst.deviceLst k = dev := run_inv_of_along hstep hheld hkept hrun
    rcases tableStep_cases hv with ⟨d, ha, -⟩ | ⟨address, gap, ha, -⟩ | ⟨ha, -⟩ |
      ⟨p, hp, -, hpass, rfl⟩ | ⟨p, -, hpass, hp, -⟩
    · cases ha
    · cases ha
    · cases ha
    · obtain ⟨hk, hdue⟩ := (takes_sendNext hpass hp).mp htakes
      have hslot : (⟨p.i, hp⟩ : Fin BT_LST_SIZE) = k := Fin.ext hk
      rw [hend] at hdue
      simp only [sendSlot, hslot, hend, if_pos hdue]
    · simp [takes, nextPublished, hpass, hp] at htakes

end

/-! Two devices of one bucket are found. The first pass publishes the one before. -/

/-- Of the bucket of `tag`. -/
def otherTag : BdAddr := #v[0x31, 0xB2, 0xC3, 0xD4, 0xE5, 0xF6]

/-- It is found after `tag`, at time 2. -/
def otherTagEntry : BtDevice := { timestamp := 2, addr := otherTag }

def twoOfABucket : TableState where
  now := 2
  btLst :=
    { deviceLst := fun k =>
        if k.val = 0 then { timestamp := 1, addr := tag }
        else if k.val = 1 then otherTagEntry
        else {}
      i := Fin.last 4 }

/-- One pass and the start of the next one, up to the second slot. -/
def passedByRun : List TableAct :=
  .sendStart :: List.replicate 6 .sendNext ++ [.wait 40, .sendStart, .sendNext]

theorem passedByRun_published : ∃ u v,
    run tableStep twoOfABucket passedByRun = some u ∧ tableStep u .sendNext = some v ∧
      total tableStep (comesBy 1 otherTagEntry) twoOfABucket passedByRun ≤ 1 ∧
      v.published = ⟨otherTag, 2, u.now⟩ :: u.published := by
  have htaken : ((run tableStep twoOfABucket passedByRun).bind fun u =>
      (tableStep u .sendNext).map fun _ => takes 1 u .sendNext) = some true := by
    decide +kernel
  obtain ⟨u, hu, hv⟩ := Option.bind_eq_some_iff.mp htaken
  obtain ⟨v, hv, htakes⟩ := Option.map_eq_some_iff.mp hv
  obtain ⟨hle, -, hpublished⟩ := @bounded_waiting 1 otherTagEntry twoOfABucket u passedByRun
    rfl rfl (by decide +kernel) (by decide +kernel) hu
  have hbound : (rivals 1 otherTagEntry twoOfABucket.btLst.deviceLst).card +
      total tableStep (rivalAdded 1 otherTagEntry) twoOfABucket passedByRun = 1 := by
    decide +kernel
  exact ⟨u, v, hu, hv, hbound ▸ hle, hpublished v htakes hv⟩

end SmartDoorLock
