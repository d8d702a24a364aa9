import SmartDoorLock.Cellular.SocketInit

/-!
# The list of operators, written and read back

`pars_op` cuts an entry of the reply in the buffer; here an entry is a text, and
its tokens are what five successive cuts of this text give. On an entry as the
modem writes it each cut ends inside the entry, the last one at the closing
parenthesis, so the scan for the next parenthesis goes on in what was received.
-/

namespace SmartDoorLock

open CText

/-! ## An entry as a text -/

/-- The tokens of an entry; one that is missing is empty. -/
structure EntryTokens where
  status : List UInt8
  opname : List UInt8
  opnum : List UInt8
  technology : List UInt8
  /-- what stands behind the technology -/
  left : List UInt8

/-- The tokens of the entry in front of a text, the short name skipped. -/
def entryTokens (s : List UInt8) : EntryTokens :=
  let s₁ := (behind (ascii ",") s).tail
  let s₂ := (behind (ascii ",") s₁).tail
  let s₃ := (behind (ascii ",") s₂).tail
  let s₄ := (behind (ascii ",\"") s₃).tail
  { status := token (ascii ",") s
    opname := token (ascii ",") s₁
    opnum := token (ascii ",\"") s₃
    technology := token (ascii ",\")") s₄
    left := behind (ascii ",\")") s₄ }

/-- `buf'` and the four indices are where `pars_op` found the tokens `e`. -/
structure TokensAt (buf' : List UInt8) (e : EntryTokens) (stop : ℕ)
    (status opname opnum technology : ℕ) : Prop where
  status_eq : stringAt buf' status = e.status
  opname_eq : stringAt buf' opname = e.opname
  opnum_eq : stringAt buf' opnum = e.opnum
  technology_eq : stringAt buf' technology = e.technology
  stop_eq : technology + e.technology.length = stop - e.left.length

theorem not_mem_delims : (0 : UInt8) ∉ ascii "," ∧ (0 : UInt8) ∉ ascii ",\"" ∧
    (0 : UInt8) ∉ ascii ",\")" := by
  decide

section

variable (s : List UInt8)

/-- A technology comes behind the other tokens. -/
theorem tokens_ne_nil (h : (entryTokens s).technology ≠ []) :
    (entryTokens s).status ≠ [] ∧ (entryTokens s).opname ≠ [] ∧ (entryTokens s).opnum ≠ [] := by
  have h₄ := token_ne_nil (ne_nil_of_token h)
  have h₃ := token_ne_nil (ne_nil_of_token h₄)
  have h₂ := token_ne_nil (ne_nil_of_token h₃)
  have h₁ := token_ne_nil (ne_nil_of_token h₂)
  exact ⟨h₁, h₂, h₄⟩

end

/-- **The calls of `strtok` in `pars_op`** find the tokens of the text. -/
theorem parsOp_calls {buf s : List UInt8} {start : ℕ} (hs : stringAt buf start = s) :
    ∃ r₁ r₂ r₃ r₄ r₅ t₁ t₂ t₃ t₄ t₅,
      strtok (some start) (ascii ",") ⟨buf, none⟩ = (r₁, t₁) ∧
      strtok none (ascii ",") t₁ = (r₂, t₂) ∧ strtok none (ascii ",") t₂ = (r₃, t₃) ∧
      strtok none (ascii ",\"") t₃ = (r₄, t₄) ∧ strtok none (ascii ",\")") t₄ = (r₅, t₅) ∧
      Cut buf t₅.buf (start + s.length - (entryTokens s).left.length) ∧
      ((entryTokens s).technology = [] ∧ r₅ = none ∨
        (entryTokens s).technology ≠ [] ∧ ∃ status opname opnum technology,
          r₁ = some status ∧ r₂ = some opname ∧ r₄ = some opnum ∧ r₅ = some technology ∧
          TokensAt t₅.buf (entryTokens s) (start + s.length) status opname opnum technology) := by
  subst hs
  obtain ⟨hcomma, hquote, hparen⟩ := not_mem_delims
  obtain ⟨t₁, hs₁, hl₁, hk₁, -, hc₁⟩ := strtok_next hcomma (left_at buf start)
  obtain ⟨t₂, hs₂, hl₂, hk₂, hm₂, hc₂⟩ := strtok_next hcomma hl₁
  obtain ⟨t₃, hs₃, hl₃, -, hm₃, hc₃⟩ := strtok_next hcomma hl₂
  obtain ⟨t₄, hs₄, hl₄, hk₄, hm₄, hc₄⟩ := strtok_next hquote hl₃
  obtain ⟨t₅, hs₅, -, hk₅, hm₅, hc₅⟩ := strtok_next hparen hl₄
  generalize start + (stringAt buf start).length = stop at *
  -- each cut comes behind the one before
  have hbehind : ∀ delims s : List UInt8,
      stop - s.length ≤ stop - (behind delims s.tail).length := by
    intro delims s
    have hle := length_behind_le delims s.tail
    rw [List.length_tail] at hle
    omega
  have hcut : Cut buf t₅.buf (stop - (entryTokens (stringAt buf start)).left.length) :=
    ((((hc₁.trans hc₂ (hbehind _ _)).trans hc₃ (hbehind _ _)).trans hc₄ (hbehind _ _)).trans hc₅
      (hbehind _ _))
  refine ⟨_, _, _, _, _, t₁, t₂, t₃, t₄, t₅, hs₁, hs₂, hs₃, hs₄, hs₅, hcut, ?_⟩
  by_cases htech : (entryTokens (stringAt buf start)).technology = []
  · exact Or.inl ⟨htech, if_pos htech⟩
  · obtain ⟨hstatus, hopname, hopnum⟩ := tokens_ne_nil _ htech
    -- the tokens found first are still there at the end
    have hstatusAt := (hm₅ _ _ (hm₄ _ _ (hm₃ _ _ (hm₂ _ _ (hk₁ hstatus))))).1
    have hopnameAt := (hm₅ _ _ (hm₄ _ _ (hm₃ _ _ (hk₂ hopname)))).1
    have hopnumAt := (hm₅ _ _ (hk₄ hopnum)).1
    have htechAt := (hk₅ htech).1
    exact Or.inr ⟨htech, _, _, _, _, if_neg hstatus, if_neg hopname, if_neg hopnum, if_neg htech,
      hstatusAt, hopnameAt, hopnumAt, htechAt, hl₄.token_end (ascii ",\")")⟩

/-- **`pars_op` finds the tokens of the text**, or returns -1. -/
theorem parsOp_tokens {buf s : List UInt8} {start : ℕ} (len : ℕ) (opInfo : OperatorInfo)
    (hs : stringAt buf start = s) :
    ∃ buf', Cut buf buf' (start + s.length - (entryTokens s).left.length) ∧
      ((entryTokens s).technology = [] ∧ parsOp buf start len opInfo = (-1, buf', opInfo) ∨
        (entryTokens s).technology ≠ [] ∧ ∃ status opname opnum technology,
          parsOp buf start len opInfo =
            ((parsTokens buf' start len opInfo status opname opnum technology).1, buf',
              (parsTokens buf' start len opInfo status opname opnum technology).2) ∧
          TokensAt buf' (entryTokens s) (start + s.length) status opname opnum technology) := by
  obtain ⟨r₁, r₂, r₃, r₄, r₅, t₁, t₂, t₃, t₄, t₅, hs₁, hs₂, hs₃, hs₄, hs₅, hcut, hcases⟩ :=
    parsOp_calls hs
  refine ⟨t₅.buf, hcut, ?_⟩
  rcases hcases with ⟨htech, rfl⟩ |
    ⟨htech, status, opname, opnum, technology, rfl, rfl, rfl, rfl, hat⟩
  · refine Or.inl ⟨htech, ?_⟩
    simp only [parsOp, hs₁, hs₂, hs₃, hs₄, hs₅]
  · refine Or.inr ⟨htech, status, opname, opnum, technology, ?_, hat⟩
    simp only [parsOp, hs₁, hs₂, hs₃, hs₄, hs₅]

/-- The tokens that are accepted: all are found, the technology ends in time, and
both digits are known. -/
def EntryTokens.Accepted (e : EntryTokens) (size len : ℕ) : Prop :=
  e.technology ≠ [] ∧ size - e.left.length ≤ len ∧
    (opStatus (e.status.headD 0)).isSome ∧ (opTechnology (e.technology.headD 0)).isSome

instance (e : EntryTokens) (size len : ℕ) : Decidable (e.Accepted size len) :=
  inferInstanceAs (Decidable (_ ∧ _))

/-- What `pars_op` writes when it accepts the tokens. -/
def EntryTokens.info (e : EntryTokens) (opInfo : OperatorInfo) : OperatorInfo where
  operatorStatus := (opStatus (e.status.headD 0)).getD opInfo.operatorStatus
  accessTechnology := memcpy opInfo.accessTechnology
    ((opTechnology (e.technology.headD 0)).getD opInfo.accessTechnology) 2
  operatorCode := strtol e.opnum
  operatorName := memcpy opInfo.operatorName (e.opname.drop 1) (e.opname.length - 2)

/-- A part of the string at an index. -/
theorem take_drop_stringAt {buf : List UInt8} {i k n : ℕ} (h : k + n ≤ (stringAt buf i).length) :
    (buf.drop (i + k)).take n = ((stringAt buf i).drop k).take n := by
  obtain ⟨rest, hrest⟩ := cstr_isPrefix (buf.drop i)
  have hle : k ≤ (stringAt buf i).length := Nat.le_of_add_right_le h
  rw [← List.drop_drop, ← hrest, List.drop_append_of_le_length hle,
    List.take_append_of_le_length (by rw [List.length_drop]; omega)]

/-- The text ends where `pars_op` looks for its end. -/
theorem TokensAt.end_eq {buf : List UInt8} {e : EntryTokens} {start size : ℕ}
    {status opname opnum technology : ℕ}
    (hat : TokensAt buf e (start + size) status opname opnum technology)
    (hleft : e.left.length ≤ size) :
    technology + strlenAt buf technology - start = size - e.left.length := by
  have hlen : strlenAt buf technology = e.technology.length := by
    rw [← hat.technology_eq]
    rfl
  rw [hlen, hat.stop_eq]
  omega

theorem TokensAt.strlen_opname {buf : List UInt8} {e : EntryTokens} {stop : ℕ}
    {status opname opnum technology : ℕ}
    (hat : TokensAt buf e stop status opname opnum technology) :
    strlenAt buf opname = e.opname.length := by
  rw [← hat.opname_eq]
  rfl

theorem parsTokens_eq {buf : List UInt8} {e : EntryTokens} {start size len : ℕ}
    {status opname opnum technology : ℕ} (opInfo : OperatorInfo)
    (hat : TokensAt buf e (start + size) status opname opnum technology)
    (hleft : e.left.length ≤ size) (htech : e.technology ≠ []) :
    ((parsTokens buf start len opInfo status opname opnum technology).1 = 0 ↔
      e.Accepted size len) ∧
    (e.Accepted size len → 2 ≤ e.opname.length →
      (parsTokens buf start len opInfo status opname opnum technology).2 = e.info opInfo) := by
  have herror := zero_ne_error.symm
  unfold parsTokens EntryTokens.Accepted EntryTokens.info
  rw [hat.end_eq hleft, byteAt_eq_headD, byteAt_eq_headD, hat.status_eq, hat.technology_eq]
  by_cases hlen : size - e.left.length > len
  · rw [if_pos hlen]
    refine ⟨iff_of_false herror fun h => ?_, fun h => ?_⟩ <;>
      exact absurd h.2.1 (Nat.not_le.mpr hlen)
  · rw [if_neg hlen]
    cases opStatus (e.status.headD 0) with
    | none => exact ⟨iff_of_false herror fun h => by simp at h, fun h => by simp at h⟩
    | some operatorStatus =>
        cases opTechnology (e.technology.headD 0) with
        | none => exact ⟨iff_of_false herror fun h => by simp at h, fun h => by simp at h⟩
        | some tech =>
            refine ⟨iff_of_true rfl ⟨htech, Nat.not_lt.mp hlen, rfl, rfl⟩, fun _ htwo => ?_⟩
            have hname : sizeSub (strlenAt buf opname) 2 = e.opname.length - 2 := by
              rw [hat.strlen_opname, sizeSub, if_pos htwo]
            have hcopy : (buf.drop (opname + 1)).take (e.opname.length - 2) =
                (e.opname.drop 1).take (e.opname.length - 2) := by
              rw [take_drop_stringAt (by rw [hat.opname_eq]; omega), hat.opname_eq]
            simp only [Option.getD_some, hname, ← hat.opnum_eq, memcpy, hcopy]

theorem length_left_le (s : List UInt8) : (entryTokens s).left.length ≤ s.length := by
  have htail : ∀ delims s : List UInt8, (behind delims s).tail.length ≤ s.length := by
    intro delims s
    rw [List.length_tail]
    exact (Nat.sub_le _ _).trans (length_behind_le delims s)
  exact (length_behind_le _ _).trans
    ((htail _ _).trans ((htail _ _).trans ((htail _ _).trans (htail _ _))))

/-- **`pars_op` on a text**: when it accepts, what it stores, and what it cuts. -/
theorem parsOp_text {buf s : List UInt8} {start : ℕ} (len : ℕ) (opInfo : OperatorInfo)
    (hs : stringAt buf start = s) :
    ((parsOp buf start len opInfo).1 = 0 ↔ (entryTokens s).Accepted s.length len) ∧
    ((entryTokens s).Accepted s.length len → 2 ≤ (entryTokens s).opname.length →
      (parsOp buf start len opInfo).2.2 = (entryTokens s).info opInfo) ∧
    Cut buf (parsOp buf start len opInfo).2.1
      (start + s.length - (entryTokens s).left.length) := by
  obtain ⟨buf', hcut, ⟨htech, heq⟩ | ⟨htech, status, opname, opnum, technology, heq, hat⟩⟩ :=
    parsOp_tokens len opInfo hs
  · rw [heq]
    exact ⟨iff_of_false zero_ne_error.symm fun h => h.1 htech, fun h => absurd htech h.1, hcut⟩
  · obtain ⟨hrc, hinfo⟩ := parsTokens_eq opInfo hat (length_left_le s) htech
    rw [heq]
    exact ⟨hrc, hinfo, hcut⟩

/-! ## The list as the modem writes it -/

/-- Bytes of the names: none that ends a text, a token or an entry. -/
def PlainByte (b : UInt8) : Prop := b ≠ 0 ∧ b ≠ 44 ∧ b ≠ 34 ∧ b ≠ 41

instance (b : UInt8) : Decidable (PlainByte b) := inferInstanceAs (Decidable (_ ∧ _))

theorem plain_of_all {s : List UInt8} (h : s.all (fun b => decide (PlainByte b)) = true) :
    ∀ b ∈ s, PlainByte b := fun b hb => of_decide_eq_true (List.all_eq_true.mp h b hb)

/-- The digit of a status. -/
def OpStatus.byte : OpStatus → UInt8
  | .unknownOperator => 48
  | .operatorAvailable => 49
  | .currentOperator => 50
  | .operatorForbidden => 51

/-- The technologies that are known. -/
inductive Technology where
  | gsm
  | umts
deriving DecidableEq, Repr

def Technology.byte : Technology → UInt8
  | .gsm => 48
  | .umts => 50

def Technology.text : Technology → List UInt8
  | .gsm => ascii "2G"
  | .umts => ascii "3G"

/-- An operator of the list; the long name fits in `operator_name`, and the code
in an `int`. -/
structure ListedOperator where
  status : OpStatus
  longName : List UInt8
  shortName : List UInt8
  code : List UInt8
  technology : Technology
  long_plain : ∀ b ∈ longName, PlainByte b
  long_le : longName.length ≤ 29
  short_plain : ∀ b ∈ shortName, PlainByte b
  code_ne : code ≠ []
  code_digit : ∀ b ∈ code, digit b = true
  code_fits : digits code < 2147483648

namespace ListedOperator

variable (op : ListedOperator)

/-- What stands between the parentheses. -/
def inner : List UInt8 :=
  op.status.byte :: 44 :: 34 :: (op.longName ++ 34 :: 44 :: 34 :: (op.shortName ++
    34 :: 44 :: 34 :: (op.code ++ [34, 44, op.technology.byte])))

/-- `(s,"long","short","code",t)`. -/
def written : List UInt8 := 40 :: (op.inner ++ [41])

/-- The record it is to be read into. -/
def record : OperatorInfo where
  operatorName := op.longName ++ List.replicate (30 - op.longName.length) 0
  operatorCode := digits op.code
  accessTechnology := op.technology.text ++ [0, 0]
  operatorStatus := op.status

end ListedOperator

theorem not_mem_of_plain {s delims : List UInt8} (hs : ∀ b ∈ s, PlainByte b)
    (hdelims : ∀ d ∈ delims, d = 0 ∨ d = 44 ∨ d = 34 ∨ d = 41) : ∀ b ∈ s, b ∉ delims := by
  intro b hb hd
  obtain ⟨h0, h44, h34, h41⟩ := hs b hb
  rcases hdelims b hd with h | h | h | h
  · exact h0 h
  · exact h44 h
  · exact h34 h
  · exact h41 h

/-- A name in quotes, followed by a comma. -/
theorem token_quoted {name : List UInt8} (h : ∀ b ∈ name, PlainByte b) (s : List UInt8) :
    token (ascii ",") (34 :: (name ++ 34 :: 44 :: s)) = 34 :: (name ++ [34]) ∧
      behind (ascii ",") (34 :: (name ++ 34 :: 44 :: s)) = 44 :: s := by
  have hplain : ∀ b ∈ name, b ∉ ascii "," := not_mem_of_plain h (by simp [ascii])
  have hsplit : 34 :: (name ++ 34 :: 44 :: s) = [] ++ (34 :: (name ++ [34]) ++ 44 :: s) := by simp
  rw [hsplit]
  apply token_between
  · simp
  · simp
  · intro b hb
    rcases List.mem_cons.mp hb with rfl | hb
    · decide
    · rcases List.mem_append.mp hb with hb | hb
      · exact hplain b hb
      · rw [List.mem_singleton.mp hb]
        decide
  · decide

theorem byte_not_comma (st : OpStatus) : st.byte ∉ ascii "," := by
  cases st <;> decide

theorem byte_not_end (tech : Technology) : tech.byte ∉ ascii ",\")" := by
  cases tech <;> decide

theorem digit_not_quote {b : UInt8} (h : digit b = true) : b ∉ ascii ",\"" := by
  rintro hb
  have hcases : b = 44 ∨ b = 34 := by simpa [ascii] using hb
  rcases hcases with rfl | rfl <;> exact absurd h (by decide)

/-- The tokens of an entry as it is written. -/
theorem entryTokens_inner (op : ListedOperator) (more : List UInt8) :
    entryTokens (op.inner ++ 41 :: more) =
      { status := [op.status.byte]
        opname := 34 :: (op.longName ++ [34])
        opnum := op.code
        technology := [op.technology.byte]
        left := 41 :: more } := by
  have hinner : op.inner ++ 41 :: more =
      [] ++ ([op.status.byte] ++ 44 :: (34 :: (op.longName ++ 34 :: 44 :: (34 :: (op.shortName ++
        34 :: 44 :: ([34] ++ (op.code ++ 34 :: ([44] ++ ([op.technology.byte] ++
          41 :: more))))))))) := by
    simp [ListedOperator.inner]
  have h₁ : ∀ s, token (ascii ",") ([] ++ ([op.status.byte] ++ 44 :: s)) = [op.status.byte] ∧
      behind (ascii ",") ([] ++ ([op.status.byte] ++ 44 :: s)) = 44 :: s :=
    token_between (by simp) (by simp) (by simpa using byte_not_comma op.status) (by decide)
  have h₄ : ∀ s, token (ascii ",\"") ([34] ++ (op.code ++ 34 :: s)) = op.code ∧
      behind (ascii ",\"") ([34] ++ (op.code ++ 34 :: s)) = 34 :: s :=
    token_between (List.forall_mem_singleton.mpr (by decide)) op.code_ne
      (fun b hb => digit_not_quote (op.code_digit b hb)) (by decide)
  have h₅ : ∀ s, token (ascii ",\")") ([44] ++ ([op.technology.byte] ++ 41 :: s)) =
        [op.technology.byte] ∧
      behind (ascii ",\")") ([44] ++ ([op.technology.byte] ++ 41 :: s)) = 41 :: s :=
    token_between (List.forall_mem_singleton.mpr (by decide)) (by simp)
      (by simpa using byte_not_end op.technology) (by decide)
  rw [hinner]
  simp only [entryTokens, h₁, token_quoted op.long_plain, token_quoted op.short_plain, h₄, h₅,
    List.tail_cons]

theorem opStatus_byte (st : OpStatus) : opStatus st.byte = some st := by
  cases st <;> rfl

theorem opTechnology_byte (tech : Technology) : opTechnology tech.byte = some tech.text := by
  cases tech <;> rfl

/-- A number that fits. -/
theorem strtol_digits {s : List UInt8} (hne : s ≠ []) (hdigit : ∀ b ∈ s, digit b = true)
    (hfits : digits s < 2147483648) : strtol s = digits s := by
  obtain ⟨b, rest, rfl⟩ := List.exists_cons_of_ne_nil hne
  have hb : digit b = true := hdigit b List.mem_cons_self
  have hspace : ¬ whitespace b = true := by
    unfold digit at hb
    unfold whitespace
    simp only [Bool.and_eq_true, decide_eq_true_eq, Bool.or_eq_true, not_or, not_and,
      UInt8.le_iff_toNat_le, ← UInt8.toNat_inj, UInt8.reduceToNat] at hb ⊢
    omega
  unfold strtol
  rw [List.dropWhile_cons_of_neg hspace]
  split
  · rename_i heq
    cases heq
    exact absurd hb (by decide)
  · rename_i heq
    cases heq
    exact absurd hb (by decide)
  · unfold LONG_MAX
    omega

/-- **An entry read back.** -/
theorem parsOp_written {buf : List UInt8} {start : ℕ} (op : ListedOperator) {more : List UInt8}
    (hs : stringAt buf start = op.inner ++ 41 :: more) :
    (parsOp buf start (op.inner.length + 2) {}).1 = 0 ∧
      (parsOp buf start (op.inner.length + 2) {}).2.2 = op.record ∧
      Cut buf (parsOp buf start (op.inner.length + 2) {}).2.1 (start + op.inner.length) := by
  obtain ⟨hrc, hinfo, hcut⟩ := parsOp_text (op.inner.length + 2) {} hs
  have hlen : (op.inner ++ 41 :: more).length - (41 :: more).length = op.inner.length := by
    rw [List.length_append, Nat.add_sub_cancel]
  rw [entryTokens_inner] at hrc hinfo hcut
  have haccepted : EntryTokens.Accepted ⟨[op.status.byte], 34 :: (op.longName ++ [34]), op.code,
      [op.technology.byte], 41 :: more⟩ (op.inner ++ 41 :: more).length (op.inner.length + 2) := by
    refine ⟨List.cons_ne_nil _ _, ?_, ?_, ?_⟩
    · rw [hlen]
      exact Nat.le_add_right _ _
    · rw [List.headD_cons, opStatus_byte]
      rfl
    · rw [List.headD_cons, opTechnology_byte]
      rfl
  refine ⟨hrc.mpr haccepted, ?_, ?_⟩
  · have hname : memcpy (List.replicate 30 0) ((34 :: (op.longName ++ [34])).drop 1)
        ((34 :: (op.longName ++ [34])).length - 2) =
        op.longName ++ List.replicate (30 - op.longName.length) 0 := by
      have hcount : (34 :: (op.longName ++ [34])).length - 2 = op.longName.length := by simp
      rw [hcount, memcpy, List.drop_succ_cons, List.drop_zero, List.take_left, List.drop_replicate]
    have htech : memcpy (List.replicate 4 0) op.technology.text 2 =
        op.technology.text ++ [0, 0] := by
      cases op.technology <;> rfl
    rw [hinfo haccepted (by simp)]
    simp only [EntryTokens.info, ListedOperator.record, List.headD_cons, opStatus_byte,
      opTechnology_byte, Option.getD_some, hname, htech,
      strtol_digits op.code_ne op.code_digit op.code_fits]
  · rwa [Nat.add_sub_assoc (by simp), hlen] at hcut

/-! ## The whole list -/

/-- The entries, joined by commas. -/
def listed (ops : List ListedOperator) : List UInt8 :=
  [44].intercalate (ops.map fun op => op.written)

/-- What stands in the buffer from `ptr` on: the entries `ops` and no parenthesis
behind them, or no parenthesis at all. -/
def Ahead (buf : List UInt8) (ptr : ℕ) : List ListedOperator → Prop
  | [] => 41 ∉ buf.drop ptr
  | op :: ops => ∃ tail k, 0 ∉ tail ∧ 41 ∉ tail ∧
      buf.drop ptr = listed (op :: ops) ++ (tail ++ 0 :: List.replicate k 0)

theorem mem_inner {op : ListedOperator} {b : UInt8} (h : b ∈ op.inner) :
    (b ∈ op.status.byte :: op.technology.byte :: ascii ",\"") ∨ PlainByte b ∨ digit b = true := by
  simp only [ListedOperator.inner, List.mem_cons, List.mem_append, List.not_mem_nil, or_false] at h
  rcases h with h | h | h | h | h | h | h | h | h | h | h | h | h | h | h
  all_goals first
    | exact Or.inr (Or.inl (op.long_plain b h))
    | exact Or.inr (Or.inl (op.short_plain b h))
    | exact Or.inr (Or.inr (op.code_digit b h))
    | exact Or.inl (by simp [h, ascii])

/-- What is neither in a name nor in a code nor in between is not inside an entry. -/
theorem not_mem_inner_of (op : ListedOperator) {d : UInt8} (hplain : ¬ PlainByte d)
    (hdigit : digit d = false)
    (hother : ∀ (st : OpStatus) (tech : Technology), d ∉ st.byte :: tech.byte :: ascii ",\"") :
    d ∉ op.inner := by
  intro hmem
  rcases mem_inner hmem with h | h | h
  · exact hother op.status op.technology h
  · exact hplain h
  · rw [hdigit] at h
    cases h

/-- Neither a NUL nor a parenthesis stands inside an entry. -/
theorem not_mem_inner (op : ListedOperator) : 0 ∉ op.inner ∧ 41 ∉ op.inner := by
  constructor
  · apply not_mem_inner_of op (by decide) rfl
    intro st tech
    cases st <;> cases tech <;> decide
  · apply not_mem_inner_of op (by decide) rfl
    intro st tech
    cases st <;> cases tech <;> decide

theorem listed_cons_cons (op op' : ListedOperator) (ops : List ListedOperator) :
    listed (op :: op' :: ops) = op.written ++ 44 :: listed (op' :: ops) := by
  simp [listed, List.intercalate_cons_cons]

theorem listed_singleton (op : ListedOperator) : listed [op] = op.written := by
  simp [listed]

theorem not_mem_zeros {tail : List UInt8} (h : 41 ∉ tail) (k : ℕ) :
    41 ∉ tail ++ 0 :: List.replicate k 0 := by
  intro hmem
  rcases List.mem_append.mp hmem with hmem | hmem
  · exact h hmem
  · rcases List.mem_cons.mp hmem with heq | hmem
    · exact absurd heq (by decide)
    · exact absurd (List.eq_of_mem_replicate hmem) (by decide)

/-- Behind an entry and the byte that follows it stand the other entries. -/
theorem Ahead.split {buf : List UInt8} {ptr : ℕ} {op : ListedOperator} {ops : List ListedOperator}
    (h : Ahead buf ptr (op :: ops)) :
    ∃ rest, rest ≠ [] ∧ buf.drop ptr = op.written ++ rest ∧
      ∀ buf' ptr', buf'.drop ptr' = rest.drop 1 → Ahead buf' ptr' ops := by
  obtain ⟨tail, k, hzero, hparen, hbuf⟩ := h
  cases ops with
  | nil =>
      rw [listed_singleton] at hbuf
      refine ⟨tail ++ 0 :: List.replicate k 0, by simp, hbuf, fun buf' ptr' hdrop => ?_⟩
      show 41 ∉ buf'.drop ptr'
      rw [hdrop]
      exact fun hmem => not_mem_zeros hparen k (List.mem_of_mem_drop hmem)
  | cons op' ops =>
      rw [listed_cons_cons, List.append_assoc] at hbuf
      refine ⟨44 :: listed (op' :: ops) ++ (tail ++ 0 :: List.replicate k 0), by simp, hbuf,
        fun buf' ptr' hdrop => ⟨tail, k, hzero, hparen, ?_⟩⟩
      rw [hdrop]
      rfl

/-- Entries that nothing was read into. -/
abbrev blank (m : ℕ) : List OperatorInfo := List.replicate m {}

/-- The place of the next pass is blank. -/
theorem getD_blank (before : List OperatorInfo) (m : ℕ) :
    (before ++ blank (m + 1)).getD before.length {} = {} := by
  rw [List.getD_eq_getElem?_getD, List.getElem?_append_right le_rfl, Nat.sub_self]
  rfl

theorem set_blank (before : List OperatorInfo) (m : ℕ) (op : OperatorInfo) :
    (before ++ blank (m + 1)).set before.length op = (before ++ [op]) ++ blank m := by
  rw [List.set_append_right _ _ le_rfl, Nat.sub_self, List.append_assoc]
  rfl

/-- **A pass over an entry as it is written**: the pointer moves behind it, and
what is received there is still in place. -/
theorem pass_written {maxops rounds : ℕ} {buf rest : List UInt8} {ptr : ℕ} {op : ListedOperator}
    (hbuf : buf.drop ptr = op.written ++ rest) (hlen : buf.length = 1024) (hrest : rest ≠ [])
    (before : List OperatorInfo) (m : ℕ) (hi : before.length + (rounds + 1) = maxops) :
    ∃ buf', buf'.length = 1024 ∧
      buf'.drop (ptr + op.inner.length + 3) = rest.drop 1 ∧
      operatorsLoop maxops (rounds + 1) buf ptr (before ++ blank (m + 1)) =
        operatorsLoop maxops rounds buf' (ptr + op.inner.length + 3)
          ((before ++ [op.record]) ++ blank m) := by
  have hwritten : op.written ++ rest = (40 :: op.inner) ++ 41 :: rest := by
    simp [ListedOperator.written]
  have hroom : op.inner.length + 2 + rest.length = 1024 - ptr := by
    have hdrop := congrArg List.length hbuf
    rw [hwritten, List.length_drop, hlen] at hdrop
    simp only [List.length_append, List.length_cons] at hdrop
    omega
  have hpos : 0 < rest.length := List.length_pos_iff.mpr hrest
  have hnext : scanPast 41 (buf.drop ptr) (1023 - ptr) ptr = ptr + op.inner.length + 2 := by
    rw [hbuf, hwritten, scanPast_append]
    · rw [List.length_cons]
      omega
    · rw [List.mem_cons, not_or]
      exact ⟨by decide, (not_mem_inner op).2⟩
    · rw [List.length_cons]
      omega
  have hstring : stringAt buf (ptr + 1) = op.inner ++ 41 :: cstr rest := by
    have hdrop : buf.drop (ptr + 1) = op.inner ++ 41 :: rest := by
      rw [← List.drop_drop, hbuf, hwritten]
      rfl
    rw [stringAt, hdrop, cstr_append_of_not_mem (not_mem_inner op).1, cstr_cons_of_ne (by decide)]
  obtain ⟨hrc, hinfo, hcut⟩ := parsOp_written op hstring
  refine ⟨(parsOp buf (ptr + 1) (op.inner.length + 2) {}).2.1, ?_, ?_, ?_⟩
  · exact hcut.length_eq.trans hlen
  · rw [hcut.drop_eq _ (by omega), Nat.add_assoc, ← List.drop_drop, hbuf, hwritten]
    show ((40 :: op.inner) ++ 41 :: rest).drop ((40 :: op.inner).length + 2) = rest.drop 1
    rw [← List.drop_drop, List.drop_left]
    rfl
  · have hlt : ¬ (ptr + op.inner.length + 2 ≥ 1024) := by omega
    have hi' : maxops - (rounds + 1) = before.length := by omega
    have hcount : ptr + op.inner.length + 2 - ptr = op.inner.length + 2 := by omega
    simp only [operatorsLoop, hnext, if_neg hlt, hi', getD_blank, hcount, hrc, hinfo, set_blank]
    rfl

/-- **The loop over the entries.** With `opList` filled up to the pass at hand,
the next entries are read into the next places. -/
theorem operatorsLoop_listed {maxops : ℕ} (ops : List ListedOperator) (rounds : ℕ)
    (buf : List UInt8) (ptr : ℕ) (before : List OperatorInfo) (m : ℕ)
    (hi : before.length + rounds = maxops) (hm : rounds ≤ m) (hlen : buf.length = 1024)
    (hahead : Ahead buf ptr ops) :
    operatorsLoop maxops rounds buf ptr (before ++ blank m) =
      ⟨0, some (before ++ ((ops.take rounds).map (·.record) ++ blank (m - min ops.length rounds))),
        some ((before.length + min ops.length rounds : ℕ))⟩ := by
  induction ops generalizing rounds buf ptr before m with
  | nil =>
      cases rounds with
      | zero => simp [operatorsLoop, ← hi]
      | succ rounds =>
          have hle : 1023 - ptr ≤ (buf.drop ptr).length := by
            rw [List.length_drop, hlen]
            omega
          have hnext := scanPast_of_not_mem hahead hle ptr
          have hend : ptr + (1023 - ptr) + 1 ≥ 1024 := by omega
          have hi' : maxops - (rounds + 1) = before.length := by omega
          simp only [operatorsLoop, hnext, if_pos hend, hi']
          simp
  | cons op ops ih =>
      cases rounds with
      | zero => simp [operatorsLoop, ← hi]
      | succ rounds =>
          obtain ⟨m, rfl⟩ : ∃ k, m = k + 1 := ⟨m - 1, by omega⟩
          obtain ⟨rest, hrest, hbuf, hnext⟩ := hahead.split
          obtain ⟨buf', hlen', hdrop, hpass⟩ := pass_written hbuf hlen hrest before m hi
          have hi' : (before ++ [op.record]).length + rounds = maxops := by
            rw [List.length_append, List.length_singleton]
            omega
          rw [hpass, ih rounds buf' _ (before ++ [op.record]) m hi' (Nat.le_of_succ_le_succ hm)
            hlen' (hnext buf' _ hdrop)]
          have hmin : min (op :: ops).length (rounds + 1) = min ops.length rounds + 1 := by
            rw [List.length_cons]
            omega
          rw [hmin, List.take_succ_cons, List.map_cons, List.length_append, List.length_singleton,
            Nat.add_sub_add_right]
          simp
          omega

/-- What `CellularGetOperators` makes of the reply, when it is called for some
operators. -/
theorem hear_getOperators_of_pos {maxops : ℕ} (hmax : 1 ≤ maxops) (opList : List OperatorInfo)
    (found : ℤ) (reply : ℕ → List UInt8) (h : Heard) :
    (cellularGetOperators (some opList) maxops (some found)).hear reply h =
      (parsOperators (h.next reply 1023) maxops opList, h.add COPS (h.next reply 1023)) := by
  have hzero : ¬ ((maxops : ℤ) = 0) := by omega
  have hneg : ¬ ((maxops : ℤ) < 0) := by omega
  unfold cellularGetOperators
  simp only [if_neg hzero, if_neg hneg]
  exact hear_asked reply COPS 1023 LONG_TIME _ _ h

/-- What the parser makes of a list as the modem writes it. -/
theorem parsOperators_listed {ops : List ListedOperator} {pre tail : List UInt8} {maxops size : ℕ}
    (hspace : 32 ∉ pre) (htail : 0 ∉ tail) (hparen : 41 ∉ tail)
    (hlen : (pre ++ 32 :: (listed ops ++ tail)).length ≤ 1022) (hsize : maxops ≤ size) :
    parsOperators (pre ++ 32 :: (listed ops ++ tail)) maxops (blank size) =
      ⟨0, some ((ops.take maxops).map (·.record) ++ blank (size - min ops.length maxops)),
        some (min ops.length maxops : ℕ)⟩ := by
  set text := pre ++ 32 :: (listed ops ++ tail) with htext
  have hlength : (received 1024 text).length = 1024 := by
    rw [received, List.length_append, List.length_replicate]
    omega
  -- the list stands behind the space, and zeros behind what was received
  obtain ⟨k, hdrop⟩ := drop_scanPast (c := 32) (n := 1024) (by decide)
    (hlen.trans (Nat.le_succ 1022)) (by decide) (by decide)
  have hlist : pastFirst 32 text = listed ops ++ tail := by
    rw [htext, pastFirst_append hspace, pastFirst_cons_self]
  rw [hlist, List.append_assoc] at hdrop
  have hahead : Ahead (received 1024 text) (scanPast 32 (received 1024 text) 1022 0) ops := by
    cases ops with
    | nil =>
        show 41 ∉ (received 1024 text).drop (scanPast 32 (received 1024 text) 1022 0)
        rw [show (received 1024 text).drop (scanPast 32 (received 1024 text) 1022 0) = _ from hdrop]
        exact not_mem_zeros hparen k
    | cons op ops => exact ⟨tail, k, htail, hparen, hdrop⟩
  have hloop := operatorsLoop_listed ops maxops (received 1024 text)
    (scanPast 32 (received 1024 text) 1022 0) [] size (Nat.zero_add maxops) hsize hlength hahead
  rw [parsOperators]
  exact hloop.trans (by simp)

/-- **The list read back.** For every list of operators, whatever stands in front
of the first space and behind the last parenthesis, as many of them as there are
places for are found, and each record is exactly what the modem wrote. -/
theorem getOperators_round_trip (ops : List ListedOperator) (pre tail : List UInt8)
    (maxops size : ℕ) (found : ℤ) (reply : ℕ → List UInt8) (heard : Heard)
    (hspace : 32 ∉ pre) (htail : 0 ∉ tail) (hparen : 41 ∉ tail)
    (hreply : reply heard.log.length = pre ++ 32 :: (listed ops ++ tail))
    (hlen : (reply heard.log.length).length ≤ 1022) (hmax : 1 ≤ maxops) (hsize : maxops ≤ size) :
    ((cellularGetOperators (some (blank size)) maxops (some found)).hear reply heard).1 =
      ⟨0, some ((ops.take maxops).map (·.record) ++ blank (size - min ops.length maxops)),
        some (min ops.length maxops : ℕ)⟩ := by
  have hnext : heard.next reply 1023 = pre ++ 32 :: (listed ops ++ tail) := by
    rw [Heard.next, List.take_of_length_le (by omega), hreply]
  rw [hreply] at hlen
  rw [hear_getOperators_of_pos hmax, hnext]
  exact parsOperators_listed hspace htail hparen hlen hsize

/-! Two operators, and room for one or for three. -/

def partner : ListedOperator where
  status := .currentOperator
  longName := ascii "IL Partner"
  shortName := ascii "Partner"
  code := ascii "42501"
  technology := .umts
  long_plain := plain_of_all (by decide)
  long_le := by decide
  short_plain := plain_of_all (by decide)
  code_ne := by decide
  code_digit := List.all_eq_true.mp (by decide)
  code_fits := by decide

def unnamed : ListedOperator where
  status := .unknownOperator
  longName := []
  shortName := []
  code := ascii "007"
  technology := .gsm
  long_plain := plain_of_all (by decide)
  long_le := by decide
  short_plain := plain_of_all (by decide)
  code_ne := by decide
  code_digit := List.all_eq_true.mp (by decide)
  code_fits := by decide

def twoListed : List UInt8 :=
  ascii "\r\n+COPS: (2,\"IL Partner\",\"Partner\",\"42501\",2),(0,\"\",\"\",\"007\",0)" ++
    ascii ",,\r\n\r\nOK\r\n"

theorem twoListed_read :
    ((cellularGetOperators (some (blank 1)) 1 (some 0)).hear (fun _ => twoListed) {}).1 =
        ⟨0, some [partner.record], some 1⟩ ∧
      ((cellularGetOperators (some (blank 3)) 3 (some 0)).hear (fun _ => twoListed) {}).1 =
        ⟨0, some [partner.record, unnamed.record, {}], some 2⟩ := by
  constructor
  · exact getOperators_round_trip [partner, unnamed] (ascii "\r\n+COPS:") (ascii ",,\r\n\r\nOK\r\n")
      1 1 0 (fun _ => twoListed) {} (by decide) (by decide) (by decide) (by decide) (by decide)
      (by decide) (by decide)
  · exact getOperators_round_trip [partner, unnamed] (ascii "\r\n+COPS:") (ascii ",,\r\n\r\nOK\r\n")
      3 3 0 (fun _ => twoListed) {} (by decide) (by decide) (by decide) (by decide) (by decide)
      (by decide) (by decide)

end SmartDoorLock
