import SmartDoorLock.Firmware.DeviceTable

/-!
# One pass of `send_device`

The loop of `send_device` visits the five slots of `bt_lst` in order. An entry
that is due is cleared, handed to `publish_msg` and recorded in `sent_lst`,
whatever `publish_msg` returns. Which slots are due follows from the lists and
the clock alone, so a pass loses nothing if and only if `publish_msg` succeeds
for each of them: an entry whose publication failed is gone from `bt_lst` and is
suppressed as if it had been sent.
-/

namespace SmartDoorLock

open CText WrapClock Machine

/-! ## The loop -/

/-- What `publish_msg` makes of the return code of `MqttClient_Publish`. -/
def publishResult (rc : ℤ) : ℤ := if rc ≠ 0 then -1 else 0

/-- A call of `publish_msg`: the slot, its entry, and the result. -/
structure Attempt where
  slot : Fin BT_LST_SIZE
  device : BtDevice
  result : ℤ
deriving DecidableEq, Repr

/-- The tables and the loop variables, and the calls made, the latest first. -/
structure SendState where
  btLst : BtLst
  sentLst : SentLst
  lastIndex : Option (Fin SENT_LST_SIZE) := none
  attempts : List Attempt := []

/-- One iteration; `rc` is what `MqttClient_Publish` would return in it. -/
def sendIter (curTime : UInt32) (rc : ℤ) (s : SendState) (i : Fin BT_LST_SIZE) : SendState :=
  let cur := s.btLst.deviceLst i
  if sendDue curTime s.sentLst s.lastIndex cur then
    { btLst := s.btLst.clear i
      sentLst := Function.update s.sentLst (sentIdx cur.addr) cur
      lastIndex := some (sentIdx cur.addr)
      attempts := ⟨i, cur, publishResult rc⟩ :: s.attempts }
  else s

/-- The state after the first `n` iterations. -/
def sendLoop (clk : Fin BT_LST_SIZE → UInt32) (rc : Fin BT_LST_SIZE → ℤ) (s : SendState) :
    ℕ → SendState
  | 0 => s
  | n + 1 =>
      if h : n < BT_LST_SIZE then sendIter (clk ⟨n, h⟩) (rc ⟨n, h⟩) (sendLoop clk rc s n) ⟨n, h⟩
      else sendLoop clk rc s n

/-- `send_device`; `clk i` is the `cur_time()` of iteration `i`. -/
def sendDevice (clk : Fin BT_LST_SIZE → UInt32) (rc : Fin BT_LST_SIZE → ℤ) (btLst : BtLst)
    (sentLst : SentLst) : SendState :=
  sendLoop clk rc { btLst := btLst, sentLst := sentLst } BT_LST_SIZE

/-- **What an iteration does**: it publishes its slot, or nothing. -/
theorem sendIter_cases (curTime : UInt32) (rc : ℤ) (s : SendState) (i : Fin BT_LST_SIZE) :
    (sendDue curTime s.sentLst s.lastIndex (s.btLst.deviceLst i) = true ∧
      sendIter curTime rc s i =
        { btLst := s.btLst.clear i
          sentLst := Function.update s.sentLst (sentIdx (s.btLst.deviceLst i).addr)
            (s.btLst.deviceLst i)
          lastIndex := some (sentIdx (s.btLst.deviceLst i).addr)
          attempts := ⟨i, s.btLst.deviceLst i, publishResult rc⟩ :: s.attempts }) ∨
    (sendDue curTime s.sentLst s.lastIndex (s.btLst.deviceLst i) = false ∧
      sendIter curTime rc s i = s) := by
  cases hdue : sendDue curTime s.sentLst s.lastIndex (s.btLst.deviceLst i) with
  | true => exact Or.inl ⟨rfl, if_pos hdue⟩
  | false => exact Or.inr ⟨rfl, if_neg (by rw [hdue]; exact Bool.false_ne_true)⟩

theorem sendLoop_succ (clk : Fin BT_LST_SIZE → UInt32) (rc : Fin BT_LST_SIZE → ℤ)
    (s : SendState) {n : ℕ} (h : n < BT_LST_SIZE) :
    sendLoop clk rc s (n + 1) =
      sendIter (clk ⟨n, h⟩) (rc ⟨n, h⟩) (sendLoop clk rc s n) ⟨n, h⟩ :=
  dif_pos h

/-! ## What a pass keeps -/

/-- The entry recorded last in a bucket by these calls. -/
def lastAttempt (b : Fin SENT_LST_SIZE) (attempts : List Attempt) : Option Attempt :=
  attempts.find? fun a => sentIdx a.device.addr = b

theorem lastAttempt_cons (b : Fin SENT_LST_SIZE) (a : Attempt) (attempts : List Attempt) :
    lastAttempt b (a :: attempts) =
      if sentIdx a.device.addr = b then some a else lastAttempt b attempts := by
  by_cases h : sentIdx a.device.addr = b <;> simp [lastAttempt, h]

/-- The tables after `n` iterations and the calls made so far. -/
structure LoopInv (rc : Fin BT_LST_SIZE → ℤ) (btLst : BtLst) (sentLst : SentLst) (n : ℕ)
    (s : SendState) : Prop where
  /-- each call was made for the entry its slot held at the start -/
  attempt : ∀ a ∈ s.attempts, a.slot.val < n ∧ a.device = btLst.deviceLst a.slot ∧
    a.device.timestamp ≠ 0 ∧ a.result = publishResult (rc a.slot)
  cleared : ∀ a ∈ s.attempts, s.btLst.deviceLst a.slot = {}
  kept : ∀ k, (∀ a ∈ s.attempts, a.slot ≠ k) → s.btLst.deviceLst k = btLst.deviceLst k
  sent : ∀ b, s.sentLst b = ((lastAttempt b s.attempts).map Attempt.device).getD (sentLst b)

theorem loopInv_start (rc : Fin BT_LST_SIZE → ℤ) (btLst : BtLst) (sentLst : SentLst) :
    LoopInv rc btLst sentLst 0 { btLst := btLst, sentLst := sentLst } where
  attempt a h := by cases h
  cleared a h := by cases h
  kept k h := rfl
  sent b := rfl

/-- A slot that is not visited yet holds what it held at the start. -/
theorem LoopInv.untried {rc : Fin BT_LST_SIZE → ℤ} {btLst : BtLst} {sentLst : SentLst} {n : ℕ}
    {s : SendState} (h : LoopInv rc btLst sentLst n s) (hn : n < BT_LST_SIZE) :
    s.btLst.deviceLst ⟨n, hn⟩ = btLst.deviceLst ⟨n, hn⟩ := by
  apply h.kept
  intro a ha heq
  have hlt := (h.attempt a ha).1
  rw [heq] at hlt
  exact lt_irrefl n hlt

theorem loopInv_iter {rc : Fin BT_LST_SIZE → ℤ} {btLst : BtLst} {sentLst : SentLst} {n : ℕ}
    {s : SendState} (h : LoopInv rc btLst sentLst n s) (hn : n < BT_LST_SIZE)
    (curTime : UInt32) :
    LoopInv rc btLst sentLst (n + 1) (sendIter curTime (rc ⟨n, hn⟩) s ⟨n, hn⟩) := by
  have hother : ∀ a ∈ s.attempts, a.slot ≠ ⟨n, hn⟩ := by
    intro a ha heq
    have hlt := (h.attempt a ha).1
    rw [heq] at hlt
    exact lt_irrefl n hlt
  have hcur := h.untried hn
  rcases sendIter_cases curTime (rc ⟨n, hn⟩) s ⟨n, hn⟩ with ⟨hdue, heq⟩ | ⟨-, heq⟩
  · rw [heq]
    obtain ⟨-, hpending, -⟩ := sendDue_iff.mp hdue
    refine ⟨?_, ?_, ?_, ?_⟩
    · intro a ha
      rcases List.mem_cons.mp ha with rfl | ha
      · exact ⟨Nat.lt_succ_self n, hcur, hpending, rfl⟩
      · obtain ⟨hlt, hrest⟩ := h.attempt a ha
        exact ⟨Nat.lt_succ_of_lt hlt, hrest⟩
    · intro a ha
      rcases List.mem_cons.mp ha with rfl | ha
      · exact Function.update_self _ _ _
      · exact (Function.update_of_ne (hother a ha) _ _).trans (h.cleared a ha)
    · intro k hk
      have hne : k ≠ ⟨n, hn⟩ := fun heq' => hk _ List.mem_cons_self heq'.symm
      refine (Function.update_of_ne hne _ _).trans (h.kept k fun a ha => ?_)
      exact hk a (List.mem_cons_of_mem _ ha)
    · intro b
      rw [lastAttempt_cons]
      by_cases hb : sentIdx (s.btLst.deviceLst ⟨n, hn⟩).addr = b
      · subst hb
        simp
      · rw [if_neg hb, ← h.sent b]
        exact Function.update_of_ne (Ne.symm hb) _ _
  · rw [heq]
    refine ⟨fun a ha => ?_, h.cleared, h.kept, h.sent⟩
    obtain ⟨hlt, hrest⟩ := h.attempt a ha
    exact ⟨Nat.lt_succ_of_lt hlt, hrest⟩

theorem loopInv_loop (clk : Fin BT_LST_SIZE → UInt32) (rc : Fin BT_LST_SIZE → ℤ) (btLst : BtLst)
    (sentLst : SentLst) {n : ℕ} (hn : n ≤ BT_LST_SIZE) :
    LoopInv rc btLst sentLst n
      (sendLoop clk rc { btLst := btLst, sentLst := sentLst } n) := by
  induction n with
  | zero => exact loopInv_start rc btLst sentLst
  | succ n ih =>
      rw [sendLoop_succ clk rc _ hn]
      exact loopInv_iter (ih (Nat.le_of_succ_le hn)) hn _

theorem loopInv_sendDevice (clk : Fin BT_LST_SIZE → UInt32) (rc : Fin BT_LST_SIZE → ℤ)
    (btLst : BtLst) (sentLst : SentLst) :
    LoopInv rc btLst sentLst BT_LST_SIZE (sendDevice clk rc btLst sentLst) :=
  loopInv_loop clk rc btLst sentLst le_rfl

/-! ## Which slots are due

What is published follows from the two lists and the clock: the results of the
calls are not looked at. -/

section

variable (clk : Fin BT_LST_SIZE → UInt32) (btLst : BtLst) (sentLst : SentLst)

/-- `sent_lst` once the entries of these slots, the latest first, are recorded. -/
def recordedLst (slots : List (Fin BT_LST_SIZE)) : SentLst := fun b =>
  ((slots.map btLst.deviceLst).find? fun cur => sentIdx cur.addr = b).getD (sentLst b)

/-- The bucket of the first of these slots. -/
def headBucket (slots : List (Fin BT_LST_SIZE)) : Option (Fin SENT_LST_SIZE) :=
  slots.head?.map fun i => sentIdx (btLst.deviceLst i).addr

/-- Those of the first `n` slots whose entries are due when they are visited, the
latest first. -/
def dueSlots : ℕ → List (Fin BT_LST_SIZE)
  | 0 => []
  | n + 1 =>
      let slots := dueSlots n
      if h : n < BT_LST_SIZE then
        if sendDue (clk ⟨n, h⟩) (recordedLst btLst sentLst slots) (headBucket btLst slots)
            (btLst.deviceLst ⟨n, h⟩) then ⟨n, h⟩ :: slots
        else slots
      else slots

end

/-- The calls made are those for the entries of `slots`, in this order. -/
structure AttemptsAt (btLst : BtLst) (slots : List (Fin BT_LST_SIZE)) (s : SendState) : Prop where
  attempts : s.attempts.map Attempt.slot = slots
  last : s.lastIndex = headBucket btLst slots

/-- `sent_lst` records the entries of the slots published so far. -/
theorem LoopInv.recorded {rc : Fin BT_LST_SIZE → ℤ} {btLst : BtLst} {sentLst : SentLst} {n : ℕ}
    {s : SendState} (h : LoopInv rc btLst sentLst n s) {slots : List (Fin BT_LST_SIZE)}
    (hslots : s.attempts.map Attempt.slot = slots) :
    s.sentLst = recordedLst btLst sentLst slots := by
  have hdevices : s.attempts.map Attempt.device = slots.map btLst.deviceLst := by
    rw [← hslots, List.map_map]
    exact List.map_congr_left fun a ha => (h.attempt a ha).2.1
  funext b
  rw [h.sent, recordedLst, ← hdevices, List.find?_map]
  rfl

theorem attemptsAt_iter {clk : Fin BT_LST_SIZE → UInt32} {rc : Fin BT_LST_SIZE → ℤ}
    {btLst : BtLst} {sentLst : SentLst} {n : ℕ} {s : SendState}
    (hloop : LoopInv rc btLst sentLst n s)
    (h : AttemptsAt btLst (dueSlots clk btLst sentLst n) s) (hn : n < BT_LST_SIZE) :
    AttemptsAt btLst (dueSlots clk btLst sentLst (n + 1))
      (sendIter (clk ⟨n, hn⟩) (rc ⟨n, hn⟩) s ⟨n, hn⟩) := by
  have hcur := hloop.untried hn
  have hsent := hloop.recorded h.attempts
  rcases sendIter_cases (clk ⟨n, hn⟩) (rc ⟨n, hn⟩) s ⟨n, hn⟩ with ⟨hdue, heq⟩ | ⟨hdue, heq⟩
  · have hslots : dueSlots clk btLst sentLst (n + 1) =
        ⟨n, hn⟩ :: dueSlots clk btLst sentLst n := by
      rw [hcur, hsent, h.last] at hdue
      simp only [dueSlots, dif_pos hn, if_pos hdue]
    rw [heq, hslots]
    exact ⟨by rw [List.map_cons, h.attempts], by rw [hcur]; rfl⟩
  · have hslots : dueSlots clk btLst sentLst (n + 1) = dueSlots clk btLst sentLst n := by
      rw [hcur, hsent, h.last] at hdue
      simp only [dueSlots, dif_pos hn, hdue, Bool.false_eq_true, if_false]
    rw [heq, hslots]
    exact h

/-- **Which calls a pass makes**: one for each slot that is due. -/
theorem attemptsAt_loop (clk : Fin BT_LST_SIZE → UInt32) (rc : Fin BT_LST_SIZE → ℤ)
    (btLst : BtLst) (sentLst : SentLst) {n : ℕ} (hn : n ≤ BT_LST_SIZE) :
    AttemptsAt btLst (dueSlots clk btLst sentLst n)
      (sendLoop clk rc { btLst := btLst, sentLst := sentLst } n) := by
  induction n with
  | zero => exact ⟨rfl, rfl⟩
  | succ n ih =>
      have hle := Nat.le_of_succ_le hn
      rw [sendLoop_succ clk rc _ hn]
      exact attemptsAt_iter (loopInv_loop clk rc btLst sentLst hle) (ih hle) hn

/-! ## The pass among the calls of the two functions -/

/-- The steps of a pass, `gap k` ms before iteration `k`. -/
def passActs (gap : ℕ → ℕ) : ℕ → List TableAct
  | 0 => [.sendStart]
  | n + 1 => passActs gap n ++ [.wait (gap n), .sendNext]

theorem sendSlot_iter (s : TableState) (x : SendState) (rc : ℤ) (i : Fin BT_LST_SIZE)
    (hbt : s.btLst = x.btLst) (hsent : s.sentLst = x.sentLst) :
    let y := sendIter (stamp s.now) rc x i
    (sendSlot s i x.lastIndex).btLst = y.btLst ∧ (sendSlot s i x.lastIndex).sentLst = y.sentLst ∧
      (sendSlot s i x.lastIndex).pass = some ⟨i + 1, y.lastIndex⟩ := by
  unfold sendSlot sendIter
  simp only [hbt, hsent]
  split
  · exact ⟨rfl, rfl, rfl⟩
  · exact ⟨rfl, rfl, rfl⟩

/-- **A pass of the table machine is `send_device`**, each iteration reading the
clock at its own time. -/
theorem pass_is_sendDevice (s : TableState) (hidle : s.pass = none) (gap : ℕ → ℕ)
    (rc : Fin BT_LST_SIZE → ℤ) {n : ℕ} (hn : n ≤ BT_LST_SIZE) :
    ∃ t, run tableStep s (passActs gap n) = some t ∧
      let x := sendLoop (fun k => stamp (reading s.now gap k)) rc
        { btLst := s.btLst, sentLst := s.sentLst } n
      t.btLst = x.btLst ∧ t.sentLst = x.sentLst ∧ t.pass = some ⟨n, x.lastIndex⟩ ∧
        t.now + gap n = reading s.now gap n := by
  induction n with
  | zero =>
      refine ⟨{ s with pass := some ⟨0, none⟩ }, ?_, rfl, rfl, rfl, rfl⟩
      simp [passActs, tableStep, hidle]
  | succ n ih =>
      obtain ⟨t, ht, hbt, hsent, hpass, hnow⟩ := ih (Nat.le_of_succ_le hn)
      have hlt : n < BT_LST_SIZE := hn
      rw [sendLoop_succ _ _ _ hlt]
      generalize sendLoop (fun k => stamp (reading s.now gap k)) rc
        { btLst := s.btLst, sentLst := s.sentLst } n = x at hbt hsent hpass ⊢
      have hwait : tableStep t (.wait (gap n)) = some { t with now := reading s.now gap n } := by
        rw [tableStep, hnow]
      have hnext : tableStep { t with now := reading s.now gap n } .sendNext =
          some (sendSlot { t with now := reading s.now gap n } ⟨n, hlt⟩ x.lastIndex) := by
        simp only [tableStep, hpass, hlt, ↓reduceDIte]
      obtain ⟨hbt', hsent', hpass'⟩ := sendSlot_iter { t with now := reading s.now gap n } x
        (rc ⟨n, hlt⟩) ⟨n, hlt⟩ hbt hsent
      refine ⟨sendSlot { t with now := reading s.now gap n } ⟨n, hlt⟩ x.lastIndex, ?_, hbt',
        hsent', hpass', ?_⟩
      · rw [passActs, run_append, ht, Option.bind_some, run_cons, hwait, Option.bind_some,
          run_cons, hnext]
        rfl
      · rw [sendSlot_now]
        rfl

/-! ## Publications that fail -/

/-- Exactly the entries whose publication succeeded are gone from `bt_lst` and
recorded in `sent_lst`, the last one of a bucket there. -/
def NothingLost (btLst : BtLst) (sentLst : SentLst) (s : SendState) : Prop :=
  (∀ k, s.btLst.deviceLst k =
    if s.attempts.any fun a => a.slot = k ∧ a.result = 0 then {} else btLst.deviceLst k) ∧
  ∀ b, s.sentLst b =
    ((lastAttempt b (s.attempts.filter fun a => a.result = 0)).map Attempt.device).getD (sentLst b)

/-- The tables do not depend on the results, so each call has to succeed. -/
theorem nothingLost_iff_results {rc : Fin BT_LST_SIZE → ℤ} {btLst : BtLst} {sentLst : SentLst}
    {n : ℕ} {s : SendState} (hinv : LoopInv rc btLst sentLst n s) :
    NothingLost btLst sentLst s ↔ ∀ a ∈ s.attempts, a.result = 0 := by
  constructor
  · rintro ⟨hslots, -⟩ a ha
    by_contra hfailed
    -- the slot is empty, but only a success may have emptied it
    have hnone : (s.attempts.any fun a' => a'.slot = a.slot ∧ a'.result = 0) = false := by
      rw [List.any_eq_false]
      intro a' ha'
      rw [decide_eq_true_eq]
      rintro ⟨hslot, hzero⟩
      have hresult : a.result = a'.result := by
        rw [(hinv.attempt a ha).2.2.2, (hinv.attempt a' ha').2.2.2, hslot]
      exact hfailed (hresult.trans hzero)
    have hempty := hslots a.slot
    rw [hinv.cleared a ha, hnone, if_neg Bool.false_ne_true] at hempty
    obtain ⟨-, hdevice, hpending, -⟩ := hinv.attempt a ha
    rw [hdevice, ← hempty] at hpending
    exact hpending rfl
  · intro hok
    have hall : s.attempts.filter (fun a => a.result = 0) = s.attempts :=
      List.filter_eq_self.mpr fun a ha => by simpa using hok a ha
    constructor
    · intro k
      by_cases hk : ∃ a ∈ s.attempts, a.slot = k
      · obtain ⟨a, ha, rfl⟩ := hk
        rw [if_pos (List.any_eq_true.mpr ⟨a, ha, by simpa using hok a ha⟩)]
        exact hinv.cleared a ha
      · have hnone : ∀ a ∈ s.attempts, a.slot ≠ k := fun a ha heq => hk ⟨a, ha, heq⟩
        rw [if_neg]
        · exact hinv.kept k hnone
        · intro hany
          obtain ⟨a, ha, hslot⟩ := List.any_eq_true.mp hany
          simp only [decide_eq_true_eq] at hslot
          exact hnone a ha hslot.1
    · intro b
      rw [hall]
      exact hinv.sent b

/-- **Lost publications.** A pass of `send_device` removes and records exactly
the entries it published if and only if `publish_msg` returns `0` for every slot
that is due when it is visited. -/
theorem nothing_lost_iff (clk : Fin BT_LST_SIZE → UInt32) (rc : Fin BT_LST_SIZE → ℤ)
    (btLst : BtLst) (sentLst : SentLst) :
    NothingLost btLst sentLst (sendDevice clk rc btLst sentLst) ↔
      ∀ i ∈ dueSlots clk btLst sentLst BT_LST_SIZE, publishResult (rc i) = 0 := by
  have hinv := loopInv_sendDevice clk rc btLst sentLst
  have hslots := (attemptsAt_loop clk rc btLst sentLst le_rfl).attempts
  rw [nothingLost_iff_results hinv, ← hslots, List.forall_mem_map]
  exact forall₂_congr fun a ha => by rw [(hinv.attempt a ha).2.2.2]

def lonely : BtDevice := { timestamp := 1, addr := #v[0x0A, 0x1B, 0x2C, 0x3D, 0x4E, 0x5F] }

def lonelyLst : BtLst := { deviceLst := Function.update (fun _ => {}) 0 lonely }

/-- A pass at time 2 in which `MqttClient_Publish` fails. -/
def failedPass : SendState := sendDevice (fun _ => 2) (fun _ => -7) lonelyLst fun _ => {}

/-- The entry is in neither list as it should be. -/
theorem failed_publication_lost :
    failedPass.attempts = [⟨0, lonely, -1⟩] ∧ failedPass.btLst.deviceLst 0 = {} ∧
      failedPass.sentLst (sentIdx lonely.addr) = lonely ∧
      ¬ NothingLost lonelyLst (fun _ => {}) failedPass := by
  have hattempts : failedPass.attempts = [⟨0, lonely, -1⟩] := by decide +kernel
  have hempty : failedPass.btLst.deviceLst 0 = {} := by decide +kernel
  refine ⟨hattempts, hempty, by decide +kernel, ?_⟩
  rintro ⟨hslots, -⟩
  have hkept : failedPass.btLst.deviceLst 0 = lonelyLst.deviceLst 0 := by
    rw [hslots 0, hattempts]
    rfl
  rw [hempty] at hkept
  revert hkept
  decide +kernel

end SmartDoorLock
