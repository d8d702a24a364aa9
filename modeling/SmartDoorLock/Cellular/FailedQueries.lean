import SmartDoorLock.Cellular.Getters
import SmartDoorLock.Cellular.SignalInfo

/-!
# What a failed query leaves behind

A query gets a pointer to the place of its result, which `cellular.h` has it fill
when it returns 0. `CellularGetSignalQuality` stores nothing before it has checked
everything. `CellularGetRegistrationStatus` stores the status and checks it then,
and `signal_parse` stores the technology and `EC_n0` before it looks for the field
that comes next. What they have stored stays when they return -1.
-/

namespace SmartDoorLock

open CText

/-! ## The property and the conditions -/

/-- A query that fails leaves what stood at the place of its result: from `before`
the call returns a code and what stands there after it. -/
structure KeepsOnFailure {α : Type} (before : α) (r : ℤ × α) : Prop where
  unchanged : r.1 = -1 → r.2 = before
  populated : r.2 ≠ before → r.1 = 0

/-- What is stored for a status out of range was there before. -/
def StatusKept (got : List UInt8) (status : ℤ) : Prop :=
  11 ≤ got.length → ¬ StatusShown got → status = ((pastFirst 44 got).headD 0).toNat - 48

/-- What is stored before a field is missed was there before: the technology, and
`EC_n0` when only the last field of 3G is missed. -/
structure SignalKept (s : List UInt8) (sigInfo : SignalInfo) : Prop where
  missed2G : ascii "2G" <+: s → field 15 s = [] → sigInfo.accessTechnology.take 2 = ascii "2G"
  missed3G : ascii "3G" <+: s → field 4 s = [] → sigInfo.accessTechnology.take 2 = ascii "3G"
  missedLast : ascii "3G" <+: s → field 3 s ≠ [] → field 4 s = [] →
    sigInfo.ecN0 = strtol (field 3 s)

/-! ## One query -/

/-- There are two return codes. -/
theorem keepsOnFailure_iff {α : Type} {before : α} {r : ℤ × α} (hrc : r.1 = 0 ∨ r.1 = -1) :
    KeepsOnFailure before r ↔ (r.1 = -1 → r.2 = before) := by
  refine ⟨fun h => h.unchanged, fun h => ⟨h, fun hne => ?_⟩⟩
  rcases hrc with hrc | hrc
  · exact hrc
  · exact absurd (h hrc) hne

theorem keepsOnFailure_zero {α : Type} (before after : α) :
    KeepsOnFailure before ((0 : ℤ), after) where
  unchanged hrc := absurd hrc zero_ne_error
  populated _ := rfl

theorem keepsOnFailure_error {α : Type} {before after : α} :
    KeepsOnFailure before ((-1 : ℤ), after) ↔ after = before := by
  rw [keepsOnFailure_iff (Or.inr rfl)]
  exact ⟨fun h => h rfl, fun h _ => h⟩

/-- **The registration status**, stored and then checked. -/
theorem registration_keeps_iff (status : ℤ) (reply : ℕ → List UInt8) (h : Heard) :
    KeepsOnFailure (some status) ((cellularGetRegistrationStatus (some status)).hear reply h).1 ↔
      StatusKept (h.next reply 25) status := by
  rw [hear_regStatus]
  have hlen := next_length_le reply h 25
  generalize h.next reply 25 = got at hlen ⊢
  have hshown := statusShown_iff hlen
  simp only
  by_cases hshort : got.length < 11
  · rw [if_pos hshort, keepsOnFailure_error]
    exact iff_of_true rfl fun hlong => absurd hlong (Nat.not_le.mpr hshort)
  · have hlong : 11 ≤ got.length := Nat.not_lt.mp hshort
    rw [if_neg hshort]
    split
    · rename_i hrange
      have hnot : ¬ StatusShown got := by
        rw [hshown]
        omega
      rw [keepsOnFailure_error, regStatus_eq hlen, Option.some.injEq]
      exact ⟨fun heq _ _ => heq.symm, fun hkept => (hkept hlong hnot).symm⟩
    · rename_i hrange
      refine iff_of_true (keepsOnFailure_zero _ _) fun _ hnot => absurd ?_ hnot
      rw [hshown]
      omega

theorem withTechnology_eq_self_iff {sigInfo : SignalInfo} {tech : List UInt8}
    (htech : tech.length = 2) :
    sigInfo.withTechnology tech = sigInfo ↔ sigInfo.accessTechnology.take 2 = tech := by
  have hcopy : memcpy sigInfo.accessTechnology tech 2 = sigInfo.accessTechnology ↔
      sigInfo.accessTechnology.take 2 = tech := by
    have htake : tech.take 2 = tech := List.take_of_length_le htech.le
    rw [memcpy, htake]
    constructor
    · intro heq
      rw [← heq, ← htech, List.take_left]
    · intro heq
      conv_rhs => rw [← List.take_append_drop 2 sigInfo.accessTechnology, heq]
  rw [← hcopy]
  constructor
  · intro heq
    exact congrArg SignalInfo.accessTechnology heq
  · intro heq
    rw [SignalInfo.withTechnology, heq]

theorem withTechnology_ecN0_eq_self_iff {sigInfo : SignalInfo} {tech : List UInt8}
    (htech : tech.length = 2) (n : ℤ) :
    { sigInfo.withTechnology tech with ecN0 := n } = sigInfo ↔
      sigInfo.accessTechnology.take 2 = tech ∧ sigInfo.ecN0 = n := by
  rw [← withTechnology_eq_self_iff htech]
  constructor
  · intro heq
    have hn : n = sigInfo.ecN0 := congrArg SignalInfo.ecN0 heq
    subst hn
    exact ⟨heq, rfl⟩
  · rintro ⟨htechnology, rfl⟩
    exact htechnology

/-- **The parser**, along its exits. -/
theorem signalOfText_keeps_iff (sigInfo : SignalInfo) (s : List UInt8) :
    KeepsOnFailure sigInfo (signalOfText sigInfo s) ↔ SignalKept s sigInfo := by
  unfold signalOfText
  by_cases h2 : ascii "2G" <+: s
  · have h3 := not_both h2
    rw [if_pos h2]
    simp only
    by_cases hlast : field 15 s = []
    · rw [if_pos hlast, keepsOnFailure_error, withTechnology_eq_self_iff rfl]
      exact ⟨fun htech => ⟨fun _ _ => htech, fun h => absurd h h3, fun h => absurd h h3⟩,
        fun hkept => hkept.missed2G h2 hlast⟩
    · rw [if_neg hlast]
      refine iff_of_true (keepsOnFailure_zero _ _) ⟨fun _ h => absurd h hlast, ?_, ?_⟩
      · exact fun h => absurd h h3
      · exact fun h => absurd h h3
  rw [if_neg h2]
  by_cases h3 : ascii "3G" <+: s
  · rw [if_pos h3]
    simp only
    by_cases hfirst : field 3 s = []
    · have hlast : field 4 s = [] := by
        by_contra hlast
        exact nthToken_ne_nil hlast hfirst
      rw [if_pos hfirst, keepsOnFailure_error, withTechnology_eq_self_iff rfl]
      exact ⟨fun htech => ⟨fun h => absurd h h2, fun _ _ => htech, fun _ h => absurd hfirst h⟩,
        fun hkept => hkept.missed3G h3 hlast⟩
    rw [if_neg hfirst]
    by_cases hlast : field 4 s = []
    · rw [if_pos hlast, keepsOnFailure_error, withTechnology_ecN0_eq_self_iff rfl]
      exact ⟨fun hboth => ⟨fun h => absurd h h2, fun _ _ => hboth.1, fun _ _ _ => hboth.2⟩,
        fun hkept => ⟨hkept.missed3G h3 hlast, hkept.missedLast h3 hfirst hlast⟩⟩
    · rw [if_neg hlast]
      refine iff_of_true (keepsOnFailure_zero _ _) ⟨fun h => absurd h h2, ?_, ?_⟩
      · exact fun _ h => absurd h hlast
      · exact fun _ _ h => absurd h hlast
  · rw [if_neg h3, keepsOnFailure_error]
    exact iff_of_true rfl ⟨fun h => absurd h h2, fun h => absurd h h3, fun h => absurd h h3⟩

theorem signalOfText_code (sigInfo : SignalInfo) (s : List UInt8) :
    (signalOfText sigInfo s).1 = 0 ∨ (signalOfText sigInfo s).1 = -1 := by
  unfold signalOfText
  simp only
  split
  · split
    · exact Or.inr rfl
    · exact Or.inl rfl
  · split
    · split
      · exact Or.inr rfl
      · split
        · exact Or.inr rfl
        · exact Or.inl rfl
    · exact Or.inr rfl

/-- `signal_parse` on any reply, also an empty one. -/
theorem signalParse_reply (sigInfo : SignalInfo) {got : List UInt8} (hlen : got.length ≤ 1023) :
    signalParse sigInfo (received 1024 got) got.length =
      signalOfText sigInfo (cstr (pastFirst 32 got)) := by
  by_cases hne : got = []
  · subst hne
    apply signalParse_text
    refine (byteAt_eq_zero_iff _ _).mp ?_
    rw [byteAt_received]
    rfl
  · exact signalParse_received sigInfo hne hlen

/-- **The signal information** behind the test for the words. -/
theorem signalInfo_keeps_iff (sigInfo : SignalInfo) {got : List UInt8} (hlen : got.length ≤ 1023) :
    KeepsOnFailure (some sigInfo) (signalOfReply sigInfo got) ↔
      ((∀ w ∈ noCellWords, w <:+: cstr got) → SignalKept (cstr (pastFirst 32 got)) sigInfo) := by
  rw [signalOfReply, signalParse_reply sigInfo hlen]
  by_cases hall : ∀ w ∈ noCellWords, w <:+: cstr got
  · rw [if_neg fun hmissing => (wordMissing_iff got).mp hmissing hall, imp_iff_right hall,
      ← signalOfText_keeps_iff, keepsOnFailure_iff (signalOfText_code _ _)]
    simp only
    by_cases hrc : (signalOfText sigInfo (cstr (pastFirst 32 got))).1 = -1
    · rw [if_pos hrc, keepsOnFailure_error, Option.some.injEq, imp_iff_right hrc]
    · rw [if_neg hrc]
      exact iff_of_true (keepsOnFailure_zero _ _) fun h => absurd h hrc
  · rw [if_pos ((wordMissing_iff got).mpr hall), keepsOnFailure_error]
    exact iff_of_true rfl fun h => absurd h hall

/-! ## The queries -/

/-- **When a failed query leaves the data of its caller alone.** For every reply:
`CellularGetRegistrationStatus`, `signal_parse` and `CellularGetSignalInfo` do so
exactly where nothing new was stored before the failure was seen. -/
theorem failed_queries_iff (status : Option ℤ) (parsed : SignalInfo)
    (sigInfo : Option SignalInfo) (reply : ℕ → List UInt8) (h : Heard) :
    (KeepsOnFailure status ((cellularGetRegistrationStatus status).hear reply h).1 ↔
      ∀ st, status = some st → StatusKept (h.next reply 25) st) ∧
    (KeepsOnFailure parsed (signalParse parsed (received 1024 (h.next reply 1023))
        (h.next reply 1023).length) ↔
      SignalKept (cstr (pastFirst 32 (h.next reply 1023))) parsed) ∧
    (KeepsOnFailure sigInfo ((cellularGetSignalInfo sigInfo).hear reply h).1 ↔
      ∀ info, sigInfo = some info → (∀ w ∈ noCellWords, w <:+: cstr (h.next reply 1023)) →
        SignalKept (cstr (pastFirst 32 (h.next reply 1023))) info) := by
  have hlen := next_length_le reply h 1023
  refine ⟨?_, ?_, ?_⟩
  · cases status with
    | none => exact iff_of_true (keepsOnFailure_error.mpr rfl) fun st hst => by cases hst
    | some status =>
        rw [registration_keeps_iff]
        constructor
        · rintro hkept st ⟨⟩
          exact hkept
        · intro hall
          exact hall status rfl
  · rw [signalParse_reply parsed hlen]
    exact signalOfText_keeps_iff parsed _
  · cases sigInfo with
    | none => exact iff_of_true (keepsOnFailure_error.mpr rfl) fun info hinfo => by cases hinfo
    | some sigInfo =>
        rw [hear_getSignalInfo, signalInfo_keeps_iff sigInfo hlen]
        constructor
        · rintro hkept info ⟨⟩
          exact hkept
        · intro hall
          exact hall sigInfo rfl

/-! A modem that allows emergency calls only, and one that searches. -/

def emergencyOnly : List UInt8 := ascii "\r\n+CREG: 0,8\r\n\r\nOK\r\n"

def searchingWords : List UInt8 := ascii "^SMONI: 3G,SEARCH,LIMSRV,NOCONN"

theorem data_changed_on_failure :
    ¬ KeepsOnFailure (some 1)
        ((cellularGetRegistrationStatus (some 1)).hear (fun _ => emergencyOnly) {}).1 ∧
      ¬ KeepsOnFailure noSignal
        (signalParse noSignal (received 1024 searching) searching.length) ∧
      ¬ KeepsOnFailure (some noSignal)
        ((cellularGetSignalInfo (some noSignal)).hear (fun _ => searchingWords) {}).1 := by
  refine ⟨fun hkeeps => ?_, fun hkeeps => ?_, fun hkeeps => ?_⟩
  · exact absurd (hkeeps.unchanged (by decide +kernel)) (by decide +kernel)
  · exact absurd (hkeeps.unchanged (by decide +kernel)) (by decide +kernel)
  · exact absurd (hkeeps.unchanged (by decide +kernel)) (by decide +kernel)

end SmartDoorLock
