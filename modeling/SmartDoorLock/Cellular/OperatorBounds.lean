import SmartDoorLock.Cellular.OperatorText

/-!
# What the parser of the operators touches

Beside `CellularGetOperators` and `pars_op` stand the accesses they make to the
reply buffer and to the entries, pass by pass. Two things lead out of bounds. The
length of the copy into `operator_name` is that of a token less two, and neither
a token of one byte nor one of more than 31 is refused. And a pass whose entry
ends in the last but one byte of the buffer leaves the pointer behind the end,
where the next pass reads before it looks.
-/

namespace SmartDoorLock

open CText

/-! ## The accesses -/

/-- An access to `buf`, or to a field of the entry. -/
inductive OpAccess where
  /-- `n` bytes of `buf` are read from index `i` on -/
  | read (i n : ℕ)
  /-- `n` bytes are copied to the beginning of `operator_name` -/
  | writeName (n : ℕ)
  /-- `n` bytes are copied to the beginning of `access_technology` -/
  | writeTechnology (n : ℕ)
deriving DecidableEq, Repr

def OpAccess.InBounds : OpAccess → Prop
  | .read i n => i + n ≤ 1024
  | .writeName n => n ≤ 30
  | .writeTechnology n => n ≤ 4

instance : DecidablePred OpAccess.InBounds := fun a => by
  cases a <;> exact Nat.decLe _ _

/-- What a call of `strtok` reads. -/
def strtokAccess (s : Option ℕ) (delims : List UInt8) (t : Tokens) : List OpAccess :=
  ((strtokRead s delims t).map fun r => OpAccess.read r.1 r.2).toList

/-- The accesses of `parsTokens`. `strtol` reads no further than the NUL. -/
def parsTokensAccesses (buf : List UInt8) (start len : ℕ) (status opname opnum technology : ℕ) :
    List OpAccess :=
  .read technology (strlenAt buf technology + 1) ::
    if technology + strlenAt buf technology - start > len then []
    else .read status 1 ::
      match opStatus (byteAt buf status) with
      | none => []
      | some _ => .read technology 1 ::
          match opTechnology (byteAt buf technology) with
          | none => []
          | some _ =>
              let nameLen := sizeSub (strlenAt buf opname) 2
              [.writeTechnology 2, .read opnum (strlenAt buf opnum + 1),
                .read opname (strlenAt buf opname + 1), .read (opname + 1) nameLen,
                .writeName nameLen]

/-- The accesses of `pars_op`. -/
def parsOpAccesses (buf : List UInt8) (start len : ℕ) : List OpAccess :=
  let (status, t₁) := strtok (some start) (ascii ",") ⟨buf, none⟩
  let (opname, t₂) := strtok none (ascii ",") t₁
  let (_, t₃) := strtok none (ascii ",") t₂
  let (opnum, t₄) := strtok none (ascii ",\"") t₃
  let (technology, t₅) := strtok none (ascii ",\")") t₄
  strtokAccess (some start) (ascii ",") ⟨buf, none⟩ ++ strtokAccess none (ascii ",") t₁ ++
    strtokAccess none (ascii ",") t₂ ++ strtokAccess none (ascii ",\"") t₃ ++
    strtokAccess none (ascii ",\")") t₄ ++
    match status, opname, opnum, technology with
    | some status, some opname, some opnum, some technology =>
        parsTokensAccesses t₅.buf start len status opname opnum technology
    | _, _, _, _ => []

/-- The beginning of a pass of the loop: the buffer, the pointer, the place and
the array. -/
structure OpPass where
  buf : List UInt8
  ptr : ℕ
  i : ℕ
  opList : List OperatorInfo

/-- `ptr + count` after the search for the parenthesis. -/
def OpPass.next (p : OpPass) : ℕ := scanPast 41 (p.buf.drop p.ptr) (1023 - p.ptr) p.ptr

/-- The passes that are made. -/
def operatorsPasses (maxops : ℕ) :
    ℕ → List UInt8 → ℕ → List OperatorInfo → List OpPass
  | 0, _, _, _ => []
  | rounds + 1, buf, ptr, opList =>
      let i := maxops - (rounds + 1)
      let next := scanPast 41 (buf.drop ptr) (1023 - ptr) ptr
      ⟨buf, ptr, i, opList⟩ ::
        if next ≥ 1024 then []
        else
          let (rc, buf, opInfo) := parsOp buf (ptr + 1) (next - ptr) (opList.getD i {})
          if rc ≠ 0 then []
          else operatorsPasses maxops rounds buf (next + 1) (opList.set i opInfo)

/-- The accesses of a pass. -/
def OpPass.accesses (p : OpPass) : List OpAccess :=
  .read p.ptr (p.next - p.ptr) ::
    if p.next ≥ 1024 then [] else parsOpAccesses p.buf (p.ptr + 1) (p.next - p.ptr)

/-- The passes over a reply. -/
def replyPasses (got : List UInt8) (maxops : ℕ) (opList : List OperatorInfo) : List OpPass :=
  let buf := received 1024 got
  operatorsPasses maxops maxops buf (scanPast 32 buf 1022 0) opList

/-- All accesses made to find the operators of a reply. -/
def replyAccesses (got : List UInt8) (maxops : ℕ) (opList : List OperatorInfo) : List OpAccess :=
  .read 0 (scanPast 32 (received 1024 got) 1022 0) ::
    (replyPasses got maxops opList).flatMap OpPass.accesses

/-! ## The property and the condition -/

/-- `operator_name` holds a string. -/
def Terminated (op : OperatorInfo) : Prop := 0 ∈ op.operatorName.take 30

instance : DecidablePred Terminated := fun _ => inferInstanceAs (Decidable (0 ∈ _))

/-- Every read is inside the buffer, every write inside its field, and all names
are terminated. -/
structure OperatorsSafe (got : List UInt8) (maxops size : ℕ) : Prop where
  in_bounds : ∀ a ∈ replyAccesses got maxops (blank size), a.InBounds
  terminated : ∀ ops, (parsOperators got maxops (blank size)).opList = some ops →
    ∀ op ∈ ops, Terminated op

/-- The entry text of a pass. -/
def OpPass.entry (p : OpPass) : List UInt8 := stringAt p.buf (p.ptr + 1)

/-- There is an entry, and it is accepted. -/
def OpPass.Accepts (p : OpPass) : Prop :=
  p.next < 1024 ∧ (entryTokens p.entry).Accepted p.entry.length (p.next - p.ptr)

instance : DecidablePred OpPass.Accepts := fun _ => inferInstanceAs (Decidable (_ ∧ _))

/-- The pass begins inside the buffer, and the name of an accepted entry is a token
of 2 to 31 bytes. -/
structure OpPass.Fits (p : OpPass) : Prop where
  ptr_lt : p.ptr < 1024
  name : p.Accepts → 2 ≤ (entryTokens p.entry).opname.length ∧
    (entryTokens p.entry).opname.length ≤ 31

instance : DecidablePred OpPass.Fits := fun p =>
  decidable_of_iff (p.ptr < 1024 ∧ (p.Accepts → 2 ≤ (entryTokens p.entry).opname.length ∧
    (entryTokens p.entry).opname.length ≤ 31)) ⟨fun h => ⟨h.1, h.2⟩, fun h => ⟨h.1, h.2⟩⟩

/-! ## A call of `pars_op` -/

theorem strtokAccess_inBounds {s : Option ℕ} {delims : List UInt8} {t : Tokens}
    (h : ∀ r, strtokRead s delims t = some r → r.1 + r.2 ≤ 1023 + 1) :
    ∀ a ∈ strtokAccess s delims t, a.InBounds := by
  intro a ha
  unfold strtokAccess at ha
  cases hread : strtokRead s delims t with
  | none =>
      rw [hread] at ha
      cases ha
  | some r =>
      rw [hread] at ha
      obtain rfl : a = .read r.1 r.2 := by simpa using ha
      exact h r hread

/-- The string at an index, with its NUL. -/
theorem read_string_inBounds {buf : List UInt8} {i : ℕ} (hzero : byteAt buf 1023 = 0)
    (hi : i ≤ 1023) : (OpAccess.read i (strlenAt buf i + 1)).InBounds := by
  have hend : i + (stringAt buf i).length ≤ 1023 := string_le hzero hi
  show i + ((stringAt buf i).length + 1) ≤ 1024
  omega

/-- With the tokens found, only the copy of the name can lead out of bounds. -/
theorem parsTokensAccesses_inBounds {buf : List UInt8} {e : EntryTokens} {start size len : ℕ}
    {status opname opnum technology : ℕ} (hzero : byteAt buf 1023 = 0)
    (hat : TokensAt buf e (start + size) status opname opnum technology)
    (hleft : e.left.length ≤ size) (htech : e.technology ≠ []) (hname : e.opname ≠ [])
    (hstatus : status ≤ 1023) (hopname : opname ≤ 1023) (hopnum : opnum ≤ 1023)
    (htechnology : technology ≤ 1023) :
    (∀ a ∈ parsTokensAccesses buf start len status opname opnum technology, a.InBounds) ↔
      (e.Accepted size len → 2 ≤ e.opname.length ∧ e.opname.length ≤ 32) := by
  have hpos : 0 < e.opname.length := List.length_pos_iff.mpr hname
  unfold parsTokensAccesses EntryTokens.Accepted
  rw [hat.end_eq hleft, byteAt_eq_headD, byteAt_eq_headD, hat.status_eq, hat.technology_eq,
    hat.strlen_opname, List.forall_mem_cons, and_iff_right (read_string_inBounds hzero htechnology)]
  have hnil : ∀ {q : Prop}, ¬ q → ((∀ a ∈ ([] : List OpAccess), a.InBounds) ↔
      (q → 2 ≤ e.opname.length ∧ e.opname.length ≤ 32)) := fun hq =>
    iff_of_true (List.forall_mem_nil _) fun h => absurd h hq
  have hone : ∀ {i : ℕ}, i ≤ 1023 → (OpAccess.read i 1).InBounds := fun hi =>
    Nat.succ_le_succ hi
  by_cases hfit : size - e.left.length > len
  · rw [if_pos hfit]
    exact hnil fun h => absurd h.2.1 (Nat.not_le.mpr hfit)
  · rw [if_neg hfit, List.forall_mem_cons, and_iff_right (hone hstatus)]
    cases opStatus (e.status.headD 0) with
    | none => exact hnil fun h => by simp at h
    | some st =>
        simp only [List.forall_mem_cons]
        rw [and_iff_right (hone htechnology)]
        cases opTechnology (e.technology.headD 0) with
        | none => exact hnil fun h => by simp at h
        | some tech =>
            have haccepted : (e.technology ≠ [] ∧ size - e.left.length ≤ len ∧
                (some st).isSome = true ∧ (some tech).isSome = true) :=
              ⟨htech, Nat.not_lt.mp hfit, rfl, rfl⟩
            rw [imp_iff_right haccepted]
            simp only [List.forall_mem_cons, List.not_mem_nil, false_imp_iff, implies_true,
              and_true]
            rw [and_iff_right (show (OpAccess.writeTechnology 2).InBounds from by decide),
              and_iff_right (read_string_inBounds hzero hopnum)]
            have hnameEnd := string_le hzero hopname
            rw [hat.opname_eq] at hnameEnd
            show opname + (e.opname.length + 1) ≤ 1024 ∧
              opname + 1 + sizeSub e.opname.length 2 ≤ 1024 ∧ sizeSub e.opname.length 2 ≤ 30 ↔ _
            unfold sizeSub
            split <;> omega

/-- **The accesses of `pars_op`** are in bounds, but for the copy of the name. -/
theorem parsOpAccesses_inBounds {buf s : List UInt8} {start : ℕ} (len : ℕ)
    (hzero : byteAt buf 1023 = 0) (hstart : start ≤ 1023) (hs : stringAt buf start = s) :
    (∀ a ∈ parsOpAccesses buf start len, a.InBounds) ↔
      ((entryTokens s).Accepted s.length len →
        2 ≤ (entryTokens s).opname.length ∧ (entryTokens s).opname.length ≤ 32) := by
  obtain ⟨r₁, r₂, r₃, r₄, r₅, t₁, t₂, t₃, t₄, t₅, hs₁, hs₂, hs₃, hs₄, hs₅, hcut, hcases⟩ :=
    parsOp_calls hs
  obtain ⟨hcomma, hquote, hparen⟩ := not_mem_delims
  have hw₀ : Tokens.Within ⟨buf, some start⟩ 1023 := ⟨hzero, by rintro p ⟨⟩; exact hstart⟩
  have hs₁' : strtok none (ascii ",") ⟨buf, some start⟩ = (r₁, t₁) := hs₁
  obtain ⟨hw₁, hi₁, hr₁⟩ := strtok_within hcomma hw₀
  rw [hs₁'] at hw₁ hi₁
  obtain ⟨hw₂, hi₂, hr₂⟩ := strtok_within hcomma hw₁
  rw [hs₂] at hw₂ hi₂
  obtain ⟨hw₃, -, hr₃⟩ := strtok_within hcomma hw₂
  rw [hs₃] at hw₃
  obtain ⟨hw₄, hi₄, hr₄⟩ := strtok_within hquote hw₃
  rw [hs₄] at hw₄ hi₄
  obtain ⟨hw₅, hi₅, hr₅⟩ := strtok_within hparen hw₄
  rw [hs₅] at hw₅ hi₅
  simp only [parsOpAccesses, hs₁, hs₂, hs₃, hs₄, hs₅, List.forall_mem_append]
  rw [and_iff_right ⟨⟨⟨⟨strtokAccess_inBounds hr₁, strtokAccess_inBounds hr₂⟩,
    strtokAccess_inBounds hr₃⟩, strtokAccess_inBounds hr₄⟩, strtokAccess_inBounds hr₅⟩]
  rcases hcases with ⟨htech, rfl⟩ |
    ⟨htech, status, opname, opnum, technology, rfl, rfl, rfl, rfl, hat⟩
  · refine iff_of_true ?_ fun h => absurd htech h.1
    intro a ha
    split at ha
    · rename_i h
      cases h
    · cases ha
  · exact parsTokensAccesses_inBounds hw₅.zero hat (length_left_le s) htech
      (tokens_ne_nil s htech).2.1 (hi₁ _ rfl) (hi₂ _ rfl) (hi₄ _ rfl) (hi₅ _ rfl)

/-! ## A pass -/

/-- Nothing in a token is a NUL. -/
theorem zero_not_mem_opname {s : List UInt8} (hs : 0 ∉ s) : 0 ∉ (entryTokens s).opname := by
  have hsub : (entryTokens s).opname.Sublist s :=
    (token_sublist _ _).trans (behind_sublist _ s)
  exact fun hmem => hs (hsub.subset hmem)

/-- A name of up to 29 bytes is terminated, and one of 30 is not. -/
theorem terminated_info {e : EntryTokens} (hzero : 0 ∉ e.opname) (htwo : 2 ≤ e.opname.length)
    (hle : e.opname.length ≤ 32) : Terminated (e.info {}) ↔ e.opname.length ≤ 31 := by
  have hname : (e.info {}).operatorName = (e.opname.drop 1).take (e.opname.length - 2) ++
      List.replicate (30 - (e.opname.length - 2)) 0 := by
    show memcpy (List.replicate 30 0) (e.opname.drop 1) (e.opname.length - 2) = _
    rw [memcpy, List.drop_replicate]
  have hlen : ((e.opname.drop 1).take (e.opname.length - 2)).length = e.opname.length - 2 := by
    rw [List.length_take, List.length_drop]
    omega
  have hnone : 0 ∉ (e.opname.drop 1).take (e.opname.length - 2) := fun hmem =>
    hzero (List.mem_of_mem_drop (List.mem_of_mem_take hmem))
  unfold Terminated
  rw [hname, List.take_append, hlen, List.take_of_length_le (by omega), List.take_replicate,
    List.mem_append, or_iff_right hnone, List.mem_replicate]
  simp only [and_true]
  omega

/-- The buffer of a pass ends with a NUL, and the pointer is at most behind it. -/
structure OpPass.Ok (p : OpPass) : Prop where
  length_eq : p.buf.length = 1024
  zero : byteAt p.buf 1023 = 0
  ptr_le : p.ptr ≤ 1024

/-- **The accesses of a pass.** -/
theorem OpPass.Ok.accesses_inBounds {p : OpPass} (h : p.Ok) :
    (∀ a ∈ p.accesses, a.InBounds) ↔ p.ptr < 1024 ∧ (p.Accepts →
      2 ≤ (entryTokens p.entry).opname.length ∧ (entryTokens p.entry).opname.length ≤ 32) := by
  obtain ⟨hlt, hle⟩ := scanPast_bounds 41 (p.buf.drop p.ptr) (1023 - p.ptr) p.ptr
  have hptr := h.ptr_le
  have hscan : (OpAccess.read p.ptr (p.next - p.ptr)).InBounds ↔ p.ptr < 1024 := by
    show p.ptr + (p.next - p.ptr) ≤ 1024 ↔ _
    unfold OpPass.next
    omega
  unfold OpPass.accesses OpPass.Accepts
  rw [List.forall_mem_cons, hscan]
  refine and_congr_right fun hin => ?_
  by_cases hnext : p.next ≥ 1024
  · rw [if_pos hnext]
    exact iff_of_true (List.forall_mem_nil _) fun h => absurd h.1 (Nat.not_lt.mpr hnext)
  · rw [if_neg hnext, and_imp, imp_iff_right (Nat.not_le.mp hnext)]
    have hstart : p.ptr + 1 ≤ 1023 := by
      have hbehind : p.ptr < p.next := hlt
      omega
    exact parsOpAccesses_inBounds (p.next - p.ptr) h.zero hstart rfl

/-- An entry that is not accepted keeps its name. -/
theorem parsOp_error {buf : List UInt8} {start len : ℕ} {opInfo : OperatorInfo}
    (h : (parsOp buf start len opInfo).1 ≠ 0) :
    (parsOp buf start len opInfo).2.2.operatorName = opInfo.operatorName := by
  obtain ⟨buf', -, ⟨-, heq⟩ | ⟨-, status, opname, opnum, technology, heq, -⟩⟩ :=
    parsOp_tokens len opInfo (rfl : stringAt buf start = _)
  · rw [heq]
  · rw [heq] at h ⊢
    revert h
    unfold parsTokens
    simp only
    split
    · exact fun _ => rfl
    · split
      · exact fun _ => rfl
      · split
        · exact fun _ => rfl
        · exact fun h => absurd rfl h

/-! ## The loop -/

/-- What is read in the pass that begins with `p`. -/
def OpPass.read (p : OpPass) : ℤ × List UInt8 × OperatorInfo :=
  parsOp p.buf (p.ptr + 1) (p.next - p.ptr) {}

theorem OpPass.accepts_iff (p : OpPass) : p.Accepts ↔ p.next < 1024 ∧ p.read.1 = 0 :=
  and_congr_right fun _ => (parsOp_text (p.next - p.ptr) {} rfl).1.symm

/-- **What a pass needs** to stay in bounds and leave a string. -/
theorem OpPass.Ok.fits_iff {p : OpPass} (h : p.Ok) :
    p.Fits ↔ (∀ a ∈ p.accesses, a.InBounds) ∧ (p.Accepts → Terminated p.read.2.2) := by
  have hname : p.Accepts → 2 ≤ (entryTokens p.entry).opname.length →
      (entryTokens p.entry).opname.length ≤ 32 →
      (Terminated p.read.2.2 ↔ (entryTokens p.entry).opname.length ≤ 31) := by
    intro haccepts htwo hle
    have hinfo := (parsOp_text (p.next - p.ptr) {} (rfl : stringAt p.buf (p.ptr + 1) = _)).2.1
      haccepts.2 htwo
    rw [OpPass.read, hinfo]
    exact terminated_info (zero_not_mem_opname (not_mem_cstr _)) htwo hle
  rw [h.accesses_inBounds]
  constructor
  · rintro ⟨hptr, hfits⟩
    refine ⟨⟨hptr, fun haccepts => ?_⟩, fun haccepts => ?_⟩
    · obtain ⟨htwo, hle⟩ := hfits haccepts
      exact ⟨htwo, by omega⟩
    · obtain ⟨htwo, hle⟩ := hfits haccepts
      exact (hname haccepts htwo (by omega)).mpr hle
  · rintro ⟨⟨hptr, hbounds⟩, hterminated⟩
    refine ⟨hptr, fun haccepts => ?_⟩
    obtain ⟨htwo, hle⟩ := hbounds haccepts
    exact ⟨htwo, (hname haccepts htwo hle).mp (hterminated haccepts)⟩

/-- **A pass of the loop**: no entry is left, or it is not accepted, or the next
pass follows. -/
theorem pass_cases {maxops rounds : ℕ} (buf : List UInt8) (ptr : ℕ) {before : List OperatorInfo}
    (m : ℕ) (hi : before.length + (rounds + 1) = maxops) :
    ∃ p : OpPass, p.buf = buf ∧ p.ptr = ptr ∧
      (p.next ≥ 1024 ∧
          operatorsPasses maxops (rounds + 1) buf ptr (before ++ blank (m + 1)) = [p] ∧
          (operatorsLoop maxops (rounds + 1) buf ptr (before ++ blank (m + 1))).opList =
            some (before ++ blank (m + 1)) ∨
        p.next < 1024 ∧ p.read.1 ≠ 0 ∧
          operatorsPasses maxops (rounds + 1) buf ptr (before ++ blank (m + 1)) = [p] ∧
          (operatorsLoop maxops (rounds + 1) buf ptr (before ++ blank (m + 1))).opList =
            some ((before ++ [p.read.2.2]) ++ blank m) ∨
        p.next < 1024 ∧ p.read.1 = 0 ∧
          operatorsPasses maxops (rounds + 1) buf ptr (before ++ blank (m + 1)) =
            p :: operatorsPasses maxops rounds p.read.2.1 (p.next + 1)
              ((before ++ [p.read.2.2]) ++ blank m) ∧
          operatorsLoop maxops (rounds + 1) buf ptr (before ++ blank (m + 1)) =
            operatorsLoop maxops rounds p.read.2.1 (p.next + 1)
              ((before ++ [p.read.2.2]) ++ blank m)) := by
  have hi' : maxops - (rounds + 1) = before.length := by omega
  refine ⟨⟨buf, ptr, before.length, before ++ blank (m + 1)⟩, rfl, rfl, ?_⟩
  by_cases hnext : scanPast 41 (buf.drop ptr) (1023 - ptr) ptr ≥ 1024
  · refine Or.inl ⟨hnext, ?_, ?_⟩
    · simp only [operatorsPasses, if_pos hnext, hi']
    · simp only [operatorsLoop, if_pos hnext]
  · refine Or.inr ?_
    simp only [operatorsPasses, operatorsLoop, OpPass.read, OpPass.next, if_neg hnext, hi',
      getD_blank, set_blank]
    by_cases hrc :
        (parsOp buf (ptr + 1) (scanPast 41 (buf.drop ptr) (1023 - ptr) ptr - ptr) {}).1 = 0
    · refine Or.inr ⟨Nat.not_le.mp hnext, hrc, ?_, ?_⟩
      · rw [if_neg (not_not.mpr hrc)]
      · rw [if_neg (not_not.mpr hrc)]
    · refine Or.inl ⟨Nat.not_le.mp hnext, hrc, ?_, ?_⟩
      · rw [if_pos hrc]
      · rw [if_pos hrc]

/-- What was read stays in its place. -/
theorem operatorsLoop_opList (maxops : ℕ) (rounds : ℕ) (buf : List UInt8) (ptr : ℕ)
    (before : List OperatorInfo) (m : ℕ) (hi : before.length + rounds = maxops) (hm : rounds ≤ m) :
    ∃ after, (operatorsLoop maxops rounds buf ptr (before ++ blank m)).opList =
      some (before ++ after) := by
  induction rounds generalizing buf ptr before m with
  | zero => exact ⟨blank m, rfl⟩
  | succ rounds ih =>
      obtain ⟨m, rfl⟩ : ∃ k, m = k + 1 := ⟨m - 1, by omega⟩
      obtain ⟨p, -, -, ⟨-, -, hlist⟩ | ⟨-, -, -, hlist⟩ | ⟨-, -, -, hloop⟩⟩ :=
        pass_cases buf ptr m hi
      · exact ⟨_, hlist⟩
      · exact ⟨_, hlist.trans (by rw [List.append_assoc])⟩
      · obtain ⟨after, hafter⟩ := ih p.read.2.1 (p.next + 1) (before ++ [p.read.2.2]) m
          (by rw [List.length_append, List.length_singleton]; omega) (Nat.le_of_succ_le_succ hm)
        rw [hloop, hafter, List.append_assoc]
        exact ⟨_, rfl⟩

theorem terminated_snoc {before : List OperatorInfo} {op : OperatorInfo}
    (h : ∀ op ∈ before, Terminated op) (hop : Terminated op) :
    ∀ op' ∈ before ++ [op], Terminated op' := by
  intro op' hmem
  rcases List.mem_append.mp hmem with hmem | hmem
  · exact h op' hmem
  · rw [List.mem_singleton.mp hmem]
    exact hop

/-- What is blank is terminated. -/
theorem all_terminated {before : List OperatorInfo} (h : ∀ op ∈ before, Terminated op) {m : ℕ} :
    ∀ op ∈ before ++ blank m, Terminated op := by
  intro op hop
  rcases List.mem_append.mp hop with hop | hop
  · exact h op hop
  · rw [List.eq_of_mem_replicate hop]
    decide

theorem passes_safe_iff (maxops : ℕ) (rounds : ℕ) (buf : List UInt8) (ptr : ℕ)
    (before : List OperatorInfo) (m : ℕ) (hi : before.length + rounds = maxops) (hm : rounds ≤ m)
    (hlen : buf.length = 1024) (hzero : byteAt buf 1023 = 0) (hptr : ptr ≤ 1024)
    (hbefore : ∀ op ∈ before, Terminated op) :
    ((∀ p ∈ operatorsPasses maxops rounds buf ptr (before ++ blank m), ∀ a ∈ p.accesses,
        a.InBounds) ∧
      ∀ ops, (operatorsLoop maxops rounds buf ptr (before ++ blank m)).opList = some ops →
        ∀ op ∈ ops, Terminated op) ↔
    ∀ p ∈ operatorsPasses maxops rounds buf ptr (before ++ blank m), p.Fits := by
  induction rounds generalizing buf ptr before m with
  | zero =>
      refine iff_of_true ⟨fun p hp => (List.not_mem_nil hp).elim, ?_⟩
        fun p hp => (List.not_mem_nil hp).elim
      rintro ops ⟨⟩ op hop
      exact all_terminated hbefore op hop
  | succ rounds ih =>
      obtain ⟨m, rfl⟩ : ∃ k, m = k + 1 := ⟨m - 1, by omega⟩
      obtain ⟨p, hpbuf, hpptr, hcases⟩ := pass_cases buf ptr m hi
      have hok : p.Ok := by
        refine ⟨?_, ?_, ?_⟩
        · rw [hpbuf]
          exact hlen
        · rw [hpbuf]
          exact hzero
        · rw [hpptr]
          exact hptr
      have hsingle : ¬ p.Accepts → ((∀ q ∈ [p], ∀ a ∈ q.accesses, a.InBounds) ↔
          ∀ q ∈ [p], q.Fits) := by
        intro hnot
        rw [List.forall_mem_singleton, List.forall_mem_singleton, hok.fits_iff, and_iff_left]
        exact fun haccepts => absurd haccepts hnot
      rcases hcases with ⟨hnext, hpasses, hlist⟩ | ⟨hnext, hrc, hpasses, hlist⟩ |
        ⟨hnext, hrc, hpasses, hloop⟩
      · rw [hpasses, hlist, ← hsingle fun h => absurd h.1 (Nat.not_lt.mpr hnext), and_iff_left]
        rintro ops ⟨⟩
        exact all_terminated hbefore
      · rw [hpasses, hlist, ← hsingle fun h => hrc (p.accepts_iff.mp h).2, and_iff_left]
        rintro ops ⟨⟩
        have hname : p.read.2.2.operatorName = List.replicate 30 0 := parsOp_error hrc
        refine all_terminated (terminated_snoc hbefore ?_)
        unfold Terminated
        rw [hname]
        decide
      · have haccepts : p.Accepts := p.accepts_iff.mpr ⟨hnext, hrc⟩
        have hcut := (parsOp_text (p.next - p.ptr) {} (rfl : stringAt p.buf (p.ptr + 1) = _)).2.2
        have hi' : (before ++ [p.read.2.2]).length + rounds = maxops := by
          rw [List.length_append, List.length_singleton]
          omega
        rw [hpasses, hloop, List.forall_mem_cons, List.forall_mem_cons]
        by_cases hfits : p.Fits
        · obtain ⟨hbounds, hterminated⟩ := hok.fits_iff.mp hfits
          rw [and_iff_right hfits, and_iff_right hbounds]
          refine ih p.read.2.1 (p.next + 1) (before ++ [p.read.2.2]) m hi'
            (Nat.le_of_succ_le_succ hm) ?_ ?_ hnext
            (terminated_snoc hbefore (hterminated haccepts))
          · exact hcut.length_eq.trans hok.length_eq
          · exact hcut.zero 1023 hok.zero
        · refine iff_of_false ?_ fun h => hfits h.1
          rintro ⟨⟨hbounds, -⟩, hall⟩
          obtain ⟨after, hafter⟩ := operatorsLoop_opList maxops rounds p.read.2.1 (p.next + 1)
            (before ++ [p.read.2.2]) m hi' (Nat.le_of_succ_le_succ hm)
          refine hfits (hok.fits_iff.mpr ⟨hbounds, fun _ => hall _ hafter _ ?_⟩)
          exact List.mem_append_left _ (List.mem_append_right _ (List.mem_singleton_self _))

/-- **In bounds, exactly.** For every reply of at most 1023 bytes and every number
of places, all accesses are in bounds and all names are terminated if and only if
each pass begins inside the buffer and finds a name token of 2 to 31 bytes in an
entry that it accepts. -/
theorem operators_safe_iff (got : List UInt8) (maxops size : ℕ) (hgot : got.length ≤ 1023)
    (hsize : maxops ≤ size) :
    OperatorsSafe got maxops size ↔ ∀ p ∈ replyPasses got maxops (blank size), p.Fits := by
  obtain ⟨-, hscan⟩ := scanPast_bounds 32 (received 1024 got) 1022 0
  have hlen : (received 1024 got).length = 1024 := by
    rw [received, List.length_append, List.length_replicate]
    omega
  have hzero : byteAt (received 1024 got) 1023 = 0 := by
    rw [byteAt_received, byteAt_of_length_le hgot]
  have hpasses := passes_safe_iff maxops maxops (received 1024 got)
    (scanPast 32 (received 1024 got) 1022 0) [] size (Nat.zero_add maxops) hsize hlen hzero
    (by omega) (fun op hop => (List.not_mem_nil hop).elim)
  refine Iff.trans ?_ hpasses
  constructor
  · rintro ⟨hbounds, hterminated⟩
    refine ⟨fun p hp a ha => hbounds a ?_, hterminated⟩
    exact List.mem_cons_of_mem _ (List.mem_flatMap.mpr ⟨p, hp, ha⟩)
  · rintro ⟨hbounds, hterminated⟩
    refine ⟨?_, hterminated⟩
    unfold replyAccesses
    rw [List.forall_mem_cons]
    refine ⟨?_, fun a ha => ?_⟩
    · show 0 + scanPast 32 (received 1024 got) 1022 0 ≤ 1024
      omega
    · obtain ⟨p, hp, hap⟩ := List.mem_flatMap.mp ha
      exact hbounds p hp a hap

/-! Replies that lead out of bounds: a name of one byte, a name of 30 bytes, and an
entry that ends with the reply. -/

def shortName : List UInt8 := ascii "+COPS: (1,a,\"\",\"1\",2)"

def longName : List UInt8 :=
  ascii "+COPS: (1,\"" ++ List.replicate 30 97 ++ ascii "\",\"\",\"1\",2)"

def lastByte : List UInt8 :=
  ascii "+COPS: (1,\"a\",\"" ++ List.replicate 1000 98 ++ ascii "\",\"1\",2)"

theorem twoListed_safe : OperatorsSafe twoListed 3 3 :=
  (operators_safe_iff twoListed 3 3 (by decide) (by decide)).mpr (by decide +kernel)

theorem replies_out_of_bounds : ¬ OperatorsSafe shortName 1 1 ∧ ¬ OperatorsSafe longName 1 1 ∧
    lastByte.length = 1023 ∧ ¬ OperatorsSafe lastByte 2 2 := by
  refine ⟨fun h => ?_, fun h => ?_, by decide +kernel, fun h => ?_⟩
  · exact absurd (h.in_bounds (.writeName 4294967295) (by decide +kernel)) (by decide)
  · have hall : ∀ op ∈ (parsOperators longName 1 (blank 1)).opList.getD [], Terminated op := by
      cases hlist : (parsOperators longName 1 (blank 1)).opList with
      | none => exact fun op hop => (List.not_mem_nil hop).elim
      | some ops => exact h.terminated ops hlist
    exact absurd hall (by decide +kernel)
  · exact absurd (h.in_bounds (.read 1024 1) (by decide +kernel)) (by decide)

end SmartDoorLock
