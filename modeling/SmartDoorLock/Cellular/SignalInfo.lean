import SmartDoorLock.Cellular.SocketInit

/-!
# The signal of the serving cell

The reply to `AT^SMONI` names the technology and lists its measurements between
commas. `signal_parse` counts the fields with `strtok`, three for the first of two
numbers in 3G and fifteen for the only one in 2G. `CellularGetSignalInfo` is to
refuse a reply with one of the words of a modem without a cell; its test is the
other way round, and lets pass a reply with all of them.
-/

namespace SmartDoorLock

open CText

def SMONI : List UInt8 := ascii "AT^SMONI\r\n"

def SEARCH : List UInt8 := ascii "SEARCH"
def LIMSRV : List UInt8 := ascii "LIMSRV"
def NOCONN : List UInt8 := ascii "NOCONN"

/-! ## The functions -/

/-- `SIGNAL_INFO`. -/
structure SignalInfo where
  signalPower : ℤ
  ecN0 : ℤ
  accessTechnology : List UInt8
deriving DecidableEq, Repr

/-- The store to `access_technology`. -/
def SignalInfo.withTechnology (sigInfo : SignalInfo) (tmp : List UInt8) : SignalInfo :=
  { sigInfo with accessTechnology := memcpy sigInfo.accessTechnology tmp 2 }

/-- `signal_parse`: the return code and `*sigInfo` after it. The technology is
stored before the fields are looked for. -/
def signalParse (sigInfo : SignalInfo) (buf : List UInt8) (rc : ℕ) : ℤ × SignalInfo :=
  let ptr := scanPast 32 buf (rc - 1) 0
  if strlenAt buf ptr < 1 then (-1, sigInfo)
  else
    let tmp := memcpy [0, 0] (buf.drop ptr) 2
    let (first, t) := strtok (some ptr) (ascii ",") ⟨buf, none⟩
    if tmp = ascii "2G" then
      let sigInfo := sigInfo.withTechnology tmp
      match strtokTimes (ascii ",") 15 first t with
      | (none, _) => (-1, sigInfo)
      | (some ptr, t) => (0, { sigInfo with signalPower := strtol (cstr (t.buf.drop ptr)) })
    else if tmp = ascii "3G" then
      let sigInfo := sigInfo.withTechnology tmp
      match strtokTimes (ascii ",") 3 first t with
      | (none, _) => (-1, sigInfo)
      | (some ptr, t) =>
          let sigInfo := { sigInfo with ecN0 := strtol (cstr (t.buf.drop ptr)) }
          match strtok none (ascii ",") t with
          | (none, _) => (-1, sigInfo)
          | (some ptr, t) => (0, { sigInfo with signalPower := strtol (cstr (t.buf.drop ptr)) })
    else (-1, sigInfo)

/-- What `CellularGetSignalInfo` makes of a reply: 1023 bytes are received into a
zeroed buffer of 1024. -/
def signalOfReply (sigInfo : SignalInfo) (got : List UInt8) : ℤ × Option SignalInfo :=
  if !answers got SEARCH || !answers got LIMSRV || !answers got NOCONN then (-1, some sigInfo)
  else
    let r := signalParse sigInfo (received 1024 got) got.length
    if r.1 = -1 then (-1, some r.2) else (0, some r.2)

/-- `CellularGetSignalInfo`, with the value behind `sigInfo` (`none` for `NULL`)
before and after it. -/
def cellularGetSignalInfo (sigInfo : Option SignalInfo) : Serial (ℤ × Option SignalInfo) :=
  match sigInfo with
  | none => return (-1, none)
  | some sigInfo => do
      match ← exchange SMONI 1023 LONG_TIME with
      | none => return (-1, some sigInfo)
      | some got => return signalOfReply sigInfo got

/-! ## The property and the condition -/

/-- The words of a modem without a serving cell. -/
def noCellWords : List (List UInt8) := [SEARCH, LIMSRV, NOCONN]

/-- Behind the first space of a reply stand fields with commas between them. -/
structure SmoniReply (got : List UInt8) (fields : List (List UInt8)) : Prop where
  split : ∃ before, 32 ∉ before ∧ got = before ++ 32 :: [44].intercalate fields
  fields_plain : ∀ f ∈ fields, f ≠ [] ∧ 44 ∉ f

/-- A line of 3G or 2G with all the fields that are asked for. -/
def ServingLine (fields : List (List UInt8)) : Prop :=
  fields.head? = some (ascii "3G") ∧ 5 ≤ fields.length ∨
    fields.head? = some (ascii "2G") ∧ 16 ≤ fields.length

/-- A result is 0, with the values of a serving line. -/
structure ReadsLine (fields : List (List UInt8)) (r : ℤ × Option SignalInfo) : Prop where
  rc_eq : r.1 = 0
  info : ∃ info, r.2 = some info ∧
    (fields.head? = some (ascii "3G") → info.accessTechnology.take 2 = ascii "3G" ∧
      info.ecN0 = strtol (fields.getD 3 []) ∧ info.signalPower = strtol (fields.getD 4 [])) ∧
    (fields.head? = some (ascii "2G") → info.accessTechnology.take 2 = ascii "2G" ∧
      info.signalPower = strtol (fields.getD 15 []))

/-- A result accepts a reply exactly when the modem has a serving cell: a serving
line without any of the words is read, and a reply with one of them refused. -/
structure AcceptsServing (got : List UInt8) (fields : List (List UInt8))
    (r : ℤ × Option SignalInfo) : Prop where
  accepts : (∀ w ∈ noCellWords, ¬ w <:+: got) → ServingLine fields → ReadsLine fields r
  refuses : (∃ w ∈ noCellWords, w <:+: got) → r.1 = -1

/-! ## `signal_parse` on a text -/

/-- The `n`-th field of a text, counted from 0. -/
abbrev field (n : ℕ) (s : List UInt8) : List UInt8 := nthToken (ascii ",") n s

/-- What the text behind the first space says. -/
def signalOfText (sigInfo : SignalInfo) (s : List UInt8) : ℤ × SignalInfo :=
  if ascii "2G" <+: s then
    let sigInfo := sigInfo.withTechnology (ascii "2G")
    if field 15 s = [] then (-1, sigInfo)
    else (0, { sigInfo with signalPower := strtol (field 15 s) })
  else if ascii "3G" <+: s then
    let sigInfo := sigInfo.withTechnology (ascii "3G")
    if field 3 s = [] then (-1, sigInfo)
    else
      let sigInfo := { sigInfo with ecN0 := strtol (field 3 s) }
      if field 4 s = [] then (-1, sigInfo)
      else (0, { sigInfo with signalPower := strtol (field 4 s) })
  else (-1, sigInfo)

/-- The first two bytes in memory are those of the text. -/
theorem take_two_iff {mem w : List UInt8} (hw : 0 ∉ w) (hlen : w.length = 2) :
    memcpy [0, 0] mem 2 = w ↔ w <+: cstr mem := by
  have hcopy : memcpy [0, 0] mem 2 = mem.take 2 := List.append_nil _
  rw [hcopy]
  constructor
  · intro htake
    have hmem : cstr mem = w ++ cstr (mem.drop 2) := by
      rw [← cstr_append_of_not_mem hw, ← htake, List.take_append_drop]
    rw [hmem]
    exact List.prefix_append _ _
  · intro hpre
    have hfront := List.prefix_iff_eq_take.mp (hpre.trans (cstr_isPrefix mem))
    rw [hlen] at hfront
    exact hfront.symm

/-- **`signal_parse` reads the text** behind the first space. -/
theorem signalParse_text (sigInfo : SignalInfo) {buf s : List UInt8} {rc : ℕ}
    (hs : stringAt buf (scanPast 32 buf (rc - 1) 0) = s) :
    signalParse sigInfo buf rc = signalOfText sigInfo s := by
  unfold signalParse
  generalize scanPast 32 buf (rc - 1) 0 = ptr at hs ⊢
  have hcomma : 0 ∉ ascii "," := by decide
  by_cases hnil : s = []
  · have hshort : strlenAt buf ptr < 1 := by
      rw [strlenAt, show cstr (buf.drop ptr) = s from hs, hnil]
      exact Nat.zero_lt_one
    rw [hnil, if_pos hshort]
    rfl
  have hlong : ¬ strlenAt buf ptr < 1 := by
    rw [strlenAt, show cstr (buf.drop ptr) = s from hs]
    exact Nat.not_lt.mpr (List.length_pos_iff.mpr hnil)
  have h2G : memcpy [0, 0] (buf.drop ptr) 2 = ascii "2G" ↔ ascii "2G" <+: s := by
    rw [← hs]
    exact take_two_iff (by decide) (by decide)
  have h3G : memcpy [0, 0] (buf.drop ptr) 2 = ascii "3G" ↔ ascii "3G" <+: s := by
    rw [← hs]
    exact take_two_iff (by decide) (by decide)
  obtain ⟨t, hfirst, hleft, -⟩ := strtok_next hcomma (left_at buf ptr)
  rw [show stringAt buf ptr = s from hs] at hfirst hleft
  generalize (if token (ascii ",") s = [] then none
    else some (ptr + s.length - (front (ascii ",") s).length)) = first at hfirst
  have hstrtok : strtok (some ptr) (ascii ",") ⟨buf, none⟩ = (first, t) := hfirst
  rw [if_neg hlong, hstrtok]
  simp only
  by_cases h2 : ascii "2G" <+: s
  · obtain ⟨found, t', htimes, -, hfound⟩ := strtokTimes_spec hcomma hleft 14 first
    rw [if_pos (h2G.mpr h2), h2G.mpr h2, htimes, signalOfText, if_pos h2]
    rcases hfound with ⟨rfl, hmissing⟩ | ⟨i, rfl, hpresent, hfield⟩
    · exact (if_pos hmissing).symm
    · have hnumber : cstr (t'.buf.drop i) = field 15 s := hfield
      refine Eq.trans ?_ (if_neg hpresent).symm
      simp only [hnumber]
  · rw [if_neg fun h => h2 (h2G.mp h), signalOfText, if_neg h2]
    by_cases h3 : ascii "3G" <+: s
    · obtain ⟨found, t', htimes, hleft', hfound⟩ := strtokTimes_spec hcomma hleft 2 first
      rw [if_pos (h3G.mpr h3), h3G.mpr h3, htimes, if_pos h3]
      rcases hfound with ⟨rfl, hmissing⟩ | ⟨i, rfl, hpresent, hfield⟩
      · exact (if_pos hmissing).symm
      · have hnumber : cstr (t'.buf.drop i) = field 3 s := hfield
        refine Eq.trans ?_ (if_neg hpresent).symm
        obtain ⟨found', t'', hnext, -, hfound'⟩ := strtokTimes_spec hcomma hleft' 0 none
        have hstrtok' : strtok none (ascii ",") t' = (found', t'') := hnext
        simp only [hnumber, hstrtok']
        rcases hfound' with ⟨rfl, hmissing'⟩ | ⟨i', rfl, hpresent', hfield'⟩
        · exact (if_pos hmissing').symm
        · have hpower : cstr (t''.buf.drop i') = field 4 s := hfield'
          refine Eq.trans ?_ (if_neg hpresent').symm
          simp only [hpower]
    · rw [if_neg fun h => h3 (h3G.mp h), if_neg h3]

/-- What the parser finds in a text. -/
def Measured (s : List UInt8) : Prop :=
  ascii "2G" <+: s ∧ field 15 s ≠ [] ∨ ascii "3G" <+: s ∧ field 4 s ≠ []

/-- No text begins with both. -/
theorem not_both {s : List UInt8} (h2 : ascii "2G" <+: s) : ¬ ascii "3G" <+: s := by
  intro h3
  have hsame := List.prefix_of_prefix_length_le h2 h3 le_rfl
  exact absurd hsame (by decide)

theorem signalOfText_rc (sigInfo : SignalInfo) (s : List UInt8) :
    (signalOfText sigInfo s).1 = -1 ↔ ¬ Measured s := by
  unfold Measured
  unfold signalOfText
  by_cases h2 : ascii "2G" <+: s
  · rw [if_pos h2]
    simp only [h2, not_both h2, true_and, false_and, or_false, not_not]
    by_cases hlast : field 15 s = []
    · rw [if_pos hlast]
      exact iff_of_true rfl hlast
    · rw [if_neg hlast]
      exact iff_of_false zero_ne_error hlast
  · rw [if_neg h2]
    simp only [h2, false_and, false_or]
    by_cases h3 : ascii "3G" <+: s
    · rw [if_pos h3]
      simp only [h3, true_and, not_not]
      by_cases hfirst : field 3 s = []
      · rw [if_pos hfirst]
        refine iff_of_true rfl ?_
        by_contra hlast
        exact nthToken_ne_nil hlast hfirst
      · rw [if_neg hfirst]
        by_cases hlast : field 4 s = []
        · rw [if_pos hlast]
          exact iff_of_true rfl hlast
        · rw [if_neg hlast]
          exact iff_of_false zero_ne_error hlast
    · rw [if_neg h3]
      exact iff_of_true rfl fun h => h3 h.1

/-! ## `CellularGetSignalInfo` -/

theorem hear_getSignalInfo (sigInfo : SignalInfo) (reply : ℕ → List UInt8) (h : Heard) :
    ((cellularGetSignalInfo (some sigInfo)).hear reply h).1 =
      signalOfReply sigInfo (h.next reply 1023) :=
  congrArg Prod.fst (hear_asked reply SMONI 1023 LONG_TIME _ _ h)

/-- What is parsed is the text behind the first space. -/
theorem signalParse_received (sigInfo : SignalInfo) {got : List UInt8} (hne : got ≠ [])
    (hlen : got.length ≤ 1023) : signalParse sigInfo (received 1024 got) got.length =
      signalOfText sigInfo (cstr (pastFirst 32 got)) := by
  apply signalParse_text
  obtain ⟨k, hdrop⟩ := drop_scanPast (c := 32) (by decide) le_rfl (List.length_pos_iff.mpr hne)
    (Nat.lt_succ_of_le hlen)
  rw [stringAt, hdrop, cstr_append_zero]

/-- The test for the words asks for all of them. -/
theorem wordMissing_iff (got : List UInt8) :
    (!answers got SEARCH || !answers got LIMSRV || !answers got NOCONN) = true ↔
      ¬ ∀ w ∈ noCellWords, w <:+: cstr got := by
  have hall : (∀ w ∈ noCellWords, w <:+: cstr got) ↔ answers got SEARCH = true ∧
      answers got LIMSRV = true ∧ answers got NOCONN = true := by
    simp only [noCellWords, answers, strstr_isSome_iff, List.forall_mem_cons,
      List.not_mem_nil, false_imp_iff, implies_true, and_true]
  rw [hall, Bool.or_eq_true, Bool.or_eq_true, Bool.not_eq_true', Bool.not_eq_true',
    Bool.not_eq_true']
  cases answers got SEARCH <;> cases answers got LIMSRV <;> cases answers got NOCONN <;> simp

/-- **When a reply is refused**: one of the words is missing, or the parser does. -/
theorem signalOfReply_rc (sigInfo : SignalInfo) {got : List UInt8} (hne : got ≠ [])
    (hlen : got.length ≤ 1023) :
    (signalOfReply sigInfo got).1 = -1 ↔
      ¬ ((∀ w ∈ noCellWords, w <:+: cstr got) ∧ Measured (cstr (pastFirst 32 got))) := by
  have hwords := wordMissing_iff got
  rw [signalOfReply, signalParse_received sigInfo hne hlen]
  by_cases hall : ∀ w ∈ noCellWords, w <:+: cstr got
  · rw [if_neg fun hguard => hwords.mp hguard hall, and_iff_right hall, ← signalOfText_rc sigInfo]
    simp only
    split
    · rename_i hrc
      exact iff_of_true rfl hrc
    · rename_i hrc
      exact iff_of_false zero_ne_error hrc
  · rw [if_pos (hwords.mpr hall)]
    exact iff_of_true rfl fun h => hall h.1

/-- **The condition under which the serving cell decides.** The function refuses a
serving line for the words that it lacks, so it does what it is to do exactly on the
replies that are no serving line without a word, nor one with all the words that the
parser reads. -/
theorem signalInfo_accepts_iff (sigInfo : SignalInfo) (fields : List (List UInt8))
    (reply : ℕ → List UInt8) (h : Heard) (hreply : SmoniReply (h.next reply 1023) fields) :
    AcceptsServing (h.next reply 1023) fields
        ((cellularGetSignalInfo (some sigInfo)).hear reply h).1 ↔
      ¬ ((∀ w ∈ noCellWords, ¬ w <:+: h.next reply 1023) ∧ ServingLine fields) ∧
        ¬ ((∀ w ∈ noCellWords, w <:+: cstr (h.next reply 1023)) ∧
          Measured (cstr ([44].intercalate fields))) := by
  rw [hear_getSignalInfo]
  have hlen := next_length_le reply h 1023
  generalize h.next reply 1023 = got at hreply hlen ⊢
  obtain ⟨before, hbefore, hgot⟩ := hreply.split
  have hne : got ≠ [] := by
    rw [hgot]
    exact List.append_ne_nil_of_right_ne_nil _ (List.cons_ne_nil _ _)
  have htext : pastFirst 32 got = [44].intercalate fields := by
    rw [hgot, pastFirst_append hbefore, pastFirst_cons_self]
  have hrc := signalOfReply_rc sigInfo hne hlen
  rw [htext] at hrc
  have hword : ∀ w, w <:+: cstr got → w <:+: got := fun w hw => hw.trans (cstr_isPrefix got).isInfix
  constructor
  · rintro ⟨haccepts, hrefuses⟩
    refine ⟨fun ⟨hnone, hline⟩ => ?_, fun hpass => ?_⟩
    · have hzero := (haccepts hnone hline).rc_eq
      have hrefused : (signalOfReply sigInfo got).1 = -1 := by
        refine hrc.mpr fun hpass => ?_
        exact hnone SEARCH List.mem_cons_self (hword _ (hpass.1 SEARCH List.mem_cons_self))
      rw [hrefused] at hzero
      exact absurd hzero (by decide)
    · have hfound := hword _ (hpass.1 SEARCH List.mem_cons_self)
      exact hrc.mp (hrefuses ⟨SEARCH, List.mem_cons_self, hfound⟩) hpass
  · rintro ⟨hnoLine, hnoPass⟩
    exact ⟨fun hnone hline => absurd ⟨hnone, hline⟩ hnoLine, fun _ => hrc.mpr hnoPass⟩

/-! A modem that searches, one that is served, and a line that only looks like one of
a modem without a cell. -/

def searching : List UInt8 := ascii "^SMONI: 3G,SEARCH,SEARCH"

def served : List UInt8 := ascii "^SMONI: 3G,10564,296,-7,-79,425,01"

def allWords : List UInt8 := ascii "^SMONI: 3G,SEARCH,LIMSRV,NOCONN,-79,425,01"

theorem smoniReply_of {got : List UInt8} {texts : List String}
    (hgot : got = ascii "^SMONI:" ++ 32 :: [44].intercalate (texts.map ascii))
    (htexts : (texts.map ascii).all (fun f => !f.isEmpty && !f.contains 44) = true) :
    SmoniReply got (texts.map ascii) where
  split := ⟨ascii "^SMONI:", by decide, hgot⟩
  fields_plain := by
    intro f hf
    have hplain := List.all_eq_true.mp htexts f hf
    simpa using hplain

def noSignal : SignalInfo := ⟨0, 0, [0, 0, 0, 0]⟩

theorem searching_refused :
    AcceptsServing searching (["3G", "SEARCH", "SEARCH"].map ascii)
      ((cellularGetSignalInfo (some noSignal)).hear (fun _ => searching) {}).1 := by
  refine (signalInfo_accepts_iff noSignal _ (fun _ => searching) {}
    (smoniReply_of (by decide +kernel) (by decide +kernel))).mpr ⟨fun h => ?_, fun h => ?_⟩
  · exact h.1 SEARCH List.mem_cons_self (by decide +kernel)
  · exact absurd (h.1 LIMSRV (by decide)) (by decide +kernel)

def servedFields : List (List UInt8) :=
  ["3G", "10564", "296", "-7", "-79", "425", "01"].map ascii

def allWordsFields : List (List UInt8) :=
  ["3G", "SEARCH", "LIMSRV", "NOCONN", "-79", "425", "01"].map ascii

/-- The served modem is refused, and the other line is read. -/
theorem served_refused :
    (SmoniReply served servedFields ∧ ¬ AcceptsServing served servedFields
        ((cellularGetSignalInfo (some noSignal)).hear (fun _ => served) {}).1) ∧
      SmoniReply allWords allWordsFields ∧ ¬ AcceptsServing allWords allWordsFields
        ((cellularGetSignalInfo (some noSignal)).hear (fun _ => allWords) {}).1 := by
  refine ⟨⟨smoniReply_of (by decide +kernel) (by decide +kernel), fun haccepts => ?_⟩,
    smoniReply_of (by decide +kernel) (by decide +kernel), fun haccepts => ?_⟩
  · have hline : ServingLine servedFields := Or.inl (by decide +kernel)
    have hzero := (haccepts.accepts (by decide +kernel) hline).rc_eq
    exact absurd hzero (by decide +kernel)
  · have hrefused := haccepts.refuses ⟨SEARCH, List.mem_cons_self, by decide +kernel⟩
    exact absurd hrefused (by decide +kernel)

end SmartDoorLock
