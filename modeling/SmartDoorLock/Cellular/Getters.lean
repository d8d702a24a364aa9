import SmartDoorLock.Cellular.Identifiers
import SmartDoorLock.Cellular.OperatorBounds

/-!
# What the getters make of an error

A modem that does not answer leaves nothing to receive, and one that refuses a
command answers with `ERROR` or `+CME ERROR:`. `SerialRecv` reports neither, and
each getter looks for its value where a good reply has it. An error is noticed
where there is no such value; the identifiers are whatever letters and digits
there are.
-/

namespace SmartDoorLock

open CText

def CSQ : List UInt8 := ascii "AT+CSQ\r\n"

/-! ## The signal quality -/

/-- The number behind the first space of a reply: 49 bytes are received into a
zeroed buffer of 50. -/
def rssiOfReply (got : List UInt8) : ℤ :=
  let buf := received 50 got
  strtol (cstr (buf.drop (scanPast 32 buf 48 0)))

/-- What `CellularGetSignalQuality` makes of a reply. -/
def qualityOfReply (csq : ℤ) (got : List UInt8) : ℤ × Option ℤ :=
  let rssi := rssiOfReply got
  if rssi = 99 then (-1, some csq)
  else if rssi < 2 ∨ rssi > 31 then (-1, some csq)
  else (0, some (-113 + rssi * 2))

/-- `CellularGetSignalQuality`, with the value behind `csq` (`none` for `NULL`)
before and after it. -/
def cellularGetSignalQuality (csq : Option ℤ) : Serial (ℤ × Option ℤ) :=
  match csq with
  | none => return (-1, none)
  | some csq => do
      match ← exchange CSQ 49 SHORT_TIME with
      | none => return (-1, some csq)
      | some got => return qualityOfReply csq got

/-! ## The property -/

/-- Nothing, or one line with an error and blank lines around it. -/
def ErrorReply (s : List UInt8) : Prop :=
  s = [] ∨ ∃ before line after, s = before ++ (line ++ after) ∧
    (∀ b ∈ before, whitespace b = true) ∧ (∀ b ∈ after, whitespace b = true) ∧
    (line = ascii "ERROR" ∨ ∃ text, line = ascii "+CME ERROR:" ++ text)

/-- The arguments of the getters. -/
structure GetterArgs where
  status : ℤ
  opList : List OperatorInfo
  maxops : ℕ
  maxops_pos : 1 ≤ maxops
  numOpsFound : ℤ
  csq : ℤ
  iccid : ℕ → UInt8
  imei : ℕ → UInt8
  maxlen : ℕ
  /-- what lies behind the reply buffer of an identifier -/
  beyond : ℕ → UInt8

section

variable (args : GetterArgs) (reply : ℕ → List UInt8) (h : Heard)

/-- The return codes of the getters on the next reply, that of an identifier
once it returns. -/
def registrationCode : ℤ := ((cellularGetRegistrationStatus (some args.status)).hear reply h).1.1

def operatorsCode : ℤ :=
  ((cellularGetOperators (some args.opList) args.maxops (some args.numOpsFound)).hear reply h).1.rc

def qualityCode : ℤ := ((cellularGetSignalQuality (some args.csq)).hear reply h).1.1

def iccidCode (fuel : ℕ) : Option ℤ :=
  (iccidRun args.beyond args.iccid reply h args.maxlen fuel).map IdResult.rc

def imeiCode (fuel : ℕ) : Option ℤ :=
  (imeiRun args.beyond args.imei reply h args.maxlen fuel).map IdResult.rc

/-- Every getter returns -1. -/
structure ErrorReported : Prop where
  registration : registrationCode args reply h = -1
  operators : operatorsCode args reply h = -1
  quality : qualityCode args reply h = -1
  iccid : ∃ fuel, iccidCode args reply h fuel = some (-1)
  imei : ∃ fuel, imeiCode args reply h fuel = some (-1)

end

/-- A digit of a status stands behind the first comma of a reply that is long
enough. -/
def StatusShown (got : List UInt8) : Prop :=
  11 ≤ got.length ∧ 48 ≤ (pastFirst 44 got).headD 0 ∧ (pastFirst 44 got).headD 0 ≤ 53

/-- There is an entry, and it is not accepted. -/
def OpPass.Refuses (p : OpPass) : Prop := p.next < 1024 ∧ ¬ p.Accepts

/-! ## No number in an error -/

theorem strtol_blank {w s : List UInt8} (hw : ∀ b ∈ w, whitespace b = true)
    (hs : ∀ n, strtol (cstr (s.take n)) = 0) (n : ℕ) : strtol (cstr ((w ++ s).take n)) = 0 := by
  induction w generalizing n with
  | nil => exact hs n
  | cons b w ih =>
      have hb : whitespace b = true := hw b List.mem_cons_self
      have hne : b ≠ 0 := by
        rintro rfl
        exact absurd hb (by decide)
      cases n with
      | zero => rfl
      | succ n =>
          rw [List.cons_append, List.take_succ_cons, cstr_cons_of_ne hne,
            strtol_cons_whitespace hb]
          exact ih (fun b hb => hw b (List.mem_cons_of_mem _ hb)) n

theorem strtol_all_blank {s : List UInt8} (hs : ∀ b ∈ s, whitespace b = true) :
    strtol (cstr s) = 0 := by
  have hblank := strtol_blank hs (s := []) (fun n => by rw [List.take_nil]; rfl) s.length
  rwa [List.append_nil, List.take_length] at hblank

theorem strtol_take_word {b : UInt8} (h : b ≠ 0 ∧ whitespace b = false ∧ digit b = false ∧
    b ≠ 45 ∧ b ≠ 43) (s : List UInt8) (n : ℕ) : strtol (cstr ((b :: s).take n)) = 0 := by
  obtain ⟨hzero, hspace, hdigit, hminus, hplus⟩ := h
  cases n with
  | zero => rfl
  | succ n =>
      rw [List.take_succ_cons, cstr_cons_of_ne hzero]
      exact strtol_word hspace hdigit hminus hplus _

theorem strtol_take_plus {b : UInt8} (hzero : b ≠ 0) (hdigit : digit b = false) (s : List UInt8)
    (n : ℕ) : strtol (cstr ((43 :: b :: s).take n)) = 0 := by
  obtain rfl | rfl | ⟨n, rfl⟩ : n = 0 ∨ n = 1 ∨ ∃ m, n = m + 2 := by
    rcases n with - | - | n
    · exact Or.inl rfl
    · exact Or.inr (Or.inl rfl)
    · exact Or.inr (Or.inr ⟨n, rfl⟩)
  · rfl
  · rfl
  · rw [List.take_succ_cons, List.take_succ_cons, cstr_cons_of_ne (by decide),
      cstr_cons_of_ne hzero]
    exact strtol_plus_word hdigit _

/-- No number stands in front of an error line. -/
theorem strtol_line {line : List UInt8}
    (hline : line = ascii "ERROR" ∨ ∃ text, line = ascii "+CME ERROR:" ++ text)
    (after : List UInt8) (n : ℕ) : strtol (cstr ((line ++ after).take n)) = 0 := by
  rcases hline with rfl | ⟨text, rfl⟩
  · exact strtol_take_word (by decide) _ n
  · exact strtol_take_plus (by decide) (by decide) _ n

/-- Nor behind its first space. -/
theorem strtol_pastLine {line after : List UInt8}
    (hline : line = ascii "ERROR" ∨ ∃ text, line = ascii "+CME ERROR:" ++ text)
    (hafter : ∀ b ∈ after, whitespace b = true) (n : ℕ) :
    strtol (cstr (pastFirst 32 ((line ++ after).take n))) = 0 := by
  rcases hline with rfl | ⟨text, rfl⟩
  · have hspace : 32 ∉ (ascii "ERROR").take n := fun hmem =>
      absurd (List.mem_of_mem_take hmem) (by decide)
    rw [List.take_append, pastFirst_append hspace]
    apply strtol_all_blank
    intro b hb
    exact hafter b (List.mem_of_mem_take ((List.dropWhile_subset _) (List.mem_of_mem_drop hb)))
  · have hspace : 32 ∉ (ascii "+CME").take n := fun hmem =>
      absurd (List.mem_of_mem_take hmem) (by decide)
    have hsplit : ascii "+CME ERROR:" ++ text ++ after =
        ascii "+CME" ++ 32 :: (69 :: (ascii "RROR:" ++ text ++ after)) := rfl
    rw [hsplit, List.take_append, pastFirst_append hspace]
    cases hn : n - (ascii "+CME").length with
    | zero => rfl
    | succ k =>
        rw [List.take_succ_cons, pastFirst_cons_self]
        exact strtol_take_word (by decide) _ k

/-- **No number stands behind the first space of an error**, wherever it is cut. -/
theorem ErrorReply.strtol_eq {s : List UInt8} (h : ErrorReply s) (n : ℕ) :
    strtol (cstr (pastFirst 32 (s.take n))) = 0 := by
  rcases h with rfl | ⟨before, line, after, rfl, hbefore, hafter, hline⟩
  · rw [List.take_nil]
    rfl
  · induction before generalizing n with
    | nil => exact strtol_pastLine hline hafter n
    | cons b before ih =>
        have hrest : ∀ b ∈ before, whitespace b = true := fun b hb =>
          hbefore b (List.mem_cons_of_mem _ hb)
        cases n with
        | zero => rfl
        | succ n =>
            rw [List.cons_append, List.take_succ_cons]
            by_cases hb : b = 32
            · subst hb
              rw [pastFirst_cons_self]
              exact strtol_blank hrest (strtol_line hline after) n
            · rw [pastFirst_cons_of_ne hb]
              exact ih n hrest

/-! ## The getters, one by one -/

theorem rssiOfReply_eq {got : List UInt8} (hlen : got.length ≤ 49) :
    rssiOfReply got = strtol (cstr (pastFirst 32 got)) := by
  obtain ⟨k, hdrop⟩ := drop_scanPast (c := 32) (n := 50) (by decide) hlen (by decide) (by decide)
  rw [rssiOfReply, hdrop, cstr_append_zero]

/-- The status that is read. -/
theorem regStatus_eq {got : List UInt8} (hlen : got.length ≤ 25) :
    regStatus got = ((pastFirst 44 got).headD 0).toNat - 48 := by
  obtain ⟨k, hdrop⟩ := drop_scanPast (c := 44) (n := 30) (by decide) hlen (by decide) (by decide)
  have hhead : byteAt (received 30 got) (scanPast 44 (received 30 got) 24 0) =
      (pastFirst 44 got).headD 0 := by
    have hstart := byteAt_drop (received 30 got) (scanPast 44 (received 30 got) 24 0) 0
    rw [Nat.add_zero, hdrop] at hstart
    rw [← hstart]
    cases pastFirst 44 got <;> rfl
  rw [regStatus, hhead]

theorem statusShown_iff {got : List UInt8} (hlen : got.length ≤ 25) :
    StatusShown got ↔ 11 ≤ got.length ∧ 0 ≤ regStatus got ∧ regStatus got ≤ 5 := by
  rw [regStatus_eq hlen, StatusShown, UInt8.le_iff_toNat_le, UInt8.le_iff_toNat_le]
  refine and_congr_right fun _ => ?_
  show 48 ≤ _ ∧ _ ≤ 53 ↔ _
  omega

/-- The return code of the list of operators. -/
theorem operatorsLoop_rc (maxops rounds : ℕ) (buf : List UInt8) (ptr : ℕ)
    (opList : List OperatorInfo) :
    (operatorsLoop maxops rounds buf ptr opList).rc = -1 ↔
      ∃ p ∈ operatorsPasses maxops rounds buf ptr opList, p.Refuses := by
  induction rounds generalizing buf ptr opList with
  | zero =>
      refine iff_of_false zero_ne_error ?_
      rintro ⟨p, hp, -⟩
      cases hp
  | succ rounds ih =>
      have haccepts := (parsOp_text (scanPast 41 (buf.drop ptr) (1023 - ptr) ptr - ptr)
        (opList.getD (maxops - (rounds + 1)) {}) (rfl : stringAt buf (ptr + 1) = _)).1
      rw [operatorsLoop, operatorsPasses]
      by_cases hnext : scanPast 41 (buf.drop ptr) (1023 - ptr) ptr ≥ 1024
      · simp only [if_pos hnext]
        refine iff_of_false (by decide) ?_
        rintro ⟨p, hp, hrefuses⟩
        rw [List.mem_singleton.mp hp] at hrefuses
        exact absurd hrefuses.1 (Nat.not_lt.mpr hnext)
      · simp only [if_neg hnext]
        by_cases hrc : (parsOp buf (ptr + 1) (scanPast 41 (buf.drop ptr) (1023 - ptr) ptr - ptr)
          (opList.getD (maxops - (rounds + 1)) {})).1 = 0
        · rw [if_neg (not_not.mpr hrc), if_neg (not_not.mpr hrc), ih]
          simp only [List.mem_cons, exists_eq_or_imp]
          rw [or_iff_right]
          exact fun hrefuses => hrefuses.2 ⟨hrefuses.1, haccepts.mp hrc⟩
        · rw [if_pos hrc, if_pos hrc]
          refine iff_of_true rfl ⟨_, List.mem_singleton_self _, Nat.not_le.mp hnext, ?_⟩
          exact fun hpass => hrc (haccepts.mpr hpass.2)

section

variable (args : GetterArgs) (reply : ℕ → List UInt8) (h : Heard)

theorem qualityCode_eq : qualityCode args reply h =
    if 2 ≤ rssiOfReply (h.next reply 49) ∧ rssiOfReply (h.next reply 49) ≤ 31 then 0 else -1 := by
  have hasked : qualityCode args reply h = (qualityOfReply args.csq (h.next reply 49)).1 :=
    congrArg (fun r : (ℤ × Option ℤ) × Heard => r.1.1)
      (hear_asked reply CSQ 49 SHORT_TIME _ _ h)
  rw [hasked, qualityOfReply]
  split
  · rename_i hunknown
    rw [if_neg (by omega)]
  · split
    · rename_i hrange
      rw [if_neg (by omega)]
    · rename_i hrange
      rw [if_pos (by omega)]

theorem registrationCode_eq : registrationCode args reply h = -1 ↔
    ¬ StatusShown (h.next reply 25) := by
  rw [registrationCode, hear_regStatus, statusShown_iff (next_length_le reply h 25)]
  simp only
  split
  · exact iff_of_true rfl (by omega)
  · split
    · exact iff_of_true rfl (by omega)
    · exact iff_of_false zero_ne_error (by omega)

theorem operatorsCode_eq : operatorsCode args reply h = -1 ↔
    ∃ p ∈ replyPasses (h.next reply 1023) args.maxops args.opList, p.Refuses := by
  rw [operatorsCode, hear_getOperators_of_pos args.maxops_pos]
  exact operatorsLoop_rc _ _ _ _ _

/-- **The card's number is never an error.** -/
theorem iccidCode_eq (fuel : ℕ) (hfuel : 50 ≤ fuel) : iccidCode args reply h fuel = some 0 := by
  rw [iccidCode, iccidRun_eq]
  by_cases hgot : h.next reply 49 = []
  · rw [hgot, iccid_empty _ _ _ (by omega)]
    rfl
  · obtain ⟨r, hcopied, hreturns⟩ :=
      iccid_copied args.beyond args.iccid args.maxlen (next_length_le reply h 49) hgot
    rw [hreturns fuel hfuel, Option.map_some, hcopied.rc_eq]

/-- Nor is the modem's, once it is returned. -/
theorem imeiCode_eq {fuel : ℕ} {rc : ℤ} (hrc : imeiCode args reply h fuel = some rc) : rc = 0 := by
  rw [imeiCode, imeiRun_eq, imeiOfReply] at hrc
  obtain ⟨r, hr, rfl⟩ := Option.map_eq_some_iff.mp hrc
  obtain ⟨skipped, -, hcopy⟩ := Option.bind_eq_some_iff.mp hr
  obtain ⟨c, -, rfl⟩ := Option.map_eq_some_iff.mp hcopy
  rfl

/-- **No error is reported by all of the getters.** The signal quality reports every
error. The status and the operators report one unless it holds what they look for,
an entry that is not accepted in the latter case. The identifiers report none. -/
theorem errors_reported (herror : ErrorReply (reply h.log.length)) :
    ¬ ErrorReported args reply h ∧ qualityCode args reply h = -1 ∧
      (registrationCode args reply h = -1 ↔ ¬ StatusShown (h.next reply 25)) ∧
      (operatorsCode args reply h = -1 ↔
        ∃ p ∈ replyPasses (h.next reply 1023) args.maxops args.opList, p.Refuses) ∧
      (∀ fuel ≥ 50, iccidCode args reply h fuel = some 0) ∧
      ∀ fuel rc, imeiCode args reply h fuel = some rc → rc = 0 := by
  have hquality : qualityCode args reply h = -1 := by
    rw [qualityCode_eq, rssiOfReply_eq (next_length_le reply h 49), Heard.next,
      herror.strtol_eq 49]
    rfl
  refine ⟨fun hreported => ?_, hquality, registrationCode_eq args reply h,
    operatorsCode_eq args reply h, iccidCode_eq args reply h,
    fun fuel rc => imeiCode_eq args reply h⟩
  obtain ⟨fuel, himei⟩ := hreported.imei
  exact absurd (imeiCode_eq args reply h himei) (by decide)

end

/-! A modem that refuses with a text, and one that does not answer. -/

def refusal : List UInt8 := ascii "\r\n+CME ERROR: busy,1\r\n"

theorem refusal_isError : ErrorReply refusal :=
  Or.inr ⟨ascii "\r\n", ascii "+CME ERROR: busy,1", ascii "\r\n", rfl,
    List.all_eq_true.mp (by decide), List.all_eq_true.mp (by decide),
    Or.inr ⟨ascii " busy,1", rfl⟩⟩

def someArgs : GetterArgs where
  status := 0
  opList := blank 1
  maxops := 1
  maxops_pos := le_rfl
  numOpsFound := 0
  csq := 0
  iccid := zeros
  imei := zeros
  maxlen := 20
  beyond := zeros

theorem refusal_reported : ¬ ErrorReported someArgs (fun _ => refusal) {} ∧
    qualityCode someArgs (fun _ => refusal) {} = -1 := by
  obtain ⟨hnot, hquality, -⟩ := errors_reported someArgs (fun _ => refusal) {} refusal_isError
  exact ⟨hnot, hquality⟩

theorem errors_unreported :
    (ErrorReply refusal ∧ ¬ ErrorReported someArgs (fun _ => refusal) {} ∧
        registrationCode someArgs (fun _ => refusal) {} = 0 ∧
        operatorsCode someArgs (fun _ => refusal) {} = 0 ∧
        iccidCode someArgs (fun _ => refusal) {} 50 = some 0 ∧
        imeiCode someArgs (fun _ => refusal) {} 50 = some 0) ∧
      ErrorReply [] ∧ ¬ ErrorReported someArgs (fun _ => []) {} ∧
        operatorsCode someArgs (fun _ => []) {} = 0 ∧
        iccidCode someArgs (fun _ => []) {} 50 = some 0 := by
  refine ⟨⟨refusal_isError, fun hreported => ?_, by decide +kernel, by decide +kernel,
    by decide +kernel, by decide +kernel⟩, Or.inl rfl, fun hreported => ?_, by decide +kernel,
    by decide +kernel⟩
  · obtain ⟨fuel, himei⟩ := hreported.imei
    exact absurd (imeiCode_eq someArgs _ _ himei) (by decide)
  · obtain ⟨fuel, himei⟩ := hreported.imei
    exact absurd (imeiCode_eq someArgs _ _ himei) (by decide)

end SmartDoorLock
