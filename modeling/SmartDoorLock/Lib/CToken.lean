import SmartDoorLock.Lib.CText

/-!
# Scanning a buffer

A buffer is a list of bytes and a pointer into it an index. The functions of
`string.h` and `stdlib.h` that cut a text into tokens and read numbers from it
work on such a buffer; `strtok` writes into it and keeps a pointer between its
calls. What it finds is described without the buffer: a text is cut into its
tokens from the front, each with the delimiter behind it (`strtok_some`).
-/

namespace CText

/-- What is read at an index; beyond the buffer it counts as a NUL. -/
def byteAt (buf : List UInt8) (i : ℕ) : UInt8 := buf.getD i 0

/-- A zeroed buffer of `n` bytes in front of which `bytes` were received. -/
def received (n : ℕ) (bytes : List UInt8) : List UInt8 :=
  bytes ++ List.replicate (n - bytes.length) 0

/-- `memcpy(dst, src, n)`. -/
def memcpy (dst src : List UInt8) (n : ℕ) : List UInt8 := src.take n ++ dst.drop n

/-- The rest of `while (buf[count++] != c && count < limit) {}` when `rounds` is
`limit - 1 - count` and the given bytes are those from `buf[count]` on: the
value of `count` after it. -/
def scanPast (c : UInt8) : List UInt8 → ℕ → ℕ → ℕ
  | b :: bytes, rounds + 1, count =>
      if b ≠ c then scanPast c bytes rounds (count + 1) else count + 1
  | _, _, count => count + 1

/-- The byte is found behind `l`. -/
theorem scanPast_append {c : UInt8} {l : List UInt8} (h : c ∉ l) (rest : List UInt8)
    {rounds : ℕ} (hle : l.length ≤ rounds) (count : ℕ) :
    scanPast c (l ++ c :: rest) rounds count = count + l.length + 1 := by
  induction l generalizing rounds count with
  | nil => cases rounds <;> simp [scanPast]
  | cons b l ih =>
      rw [List.mem_cons, not_or] at h
      obtain ⟨hb, hl⟩ := h
      obtain ⟨rounds, rfl⟩ := Nat.exists_eq_succ_of_ne_zero (Nat.ne_zero_of_lt hle)
      rw [List.cons_append, scanPast, if_pos (Ne.symm hb), ih hl (Nat.le_of_succ_le_succ hle),
        List.length_cons]
      omega

/-- The byte is not found. -/
theorem scanPast_of_not_mem {c : UInt8} {bytes : List UInt8} (h : c ∉ bytes) {rounds : ℕ}
    (hle : rounds ≤ bytes.length) (count : ℕ) :
    scanPast c bytes rounds count = count + rounds + 1 := by
  induction bytes generalizing rounds count with
  | nil =>
      obtain rfl := Nat.le_zero.mp hle
      rfl
  | cons b bytes ih =>
      rw [List.mem_cons, not_or] at h
      obtain ⟨hb, hbytes⟩ := h
      cases rounds with
      | zero => rfl
      | succ rounds =>
          rw [scanPast, if_pos (Ne.symm hb), ih hbytes (Nat.le_of_succ_le_succ hle)]
          omega

/-- In a buffer stands what was received, and zeros behind it. -/
theorem byteAt_received (n : ℕ) (bytes : List UInt8) (j : ℕ) :
    byteAt (received n bytes) j = byteAt bytes j := by
  simp only [byteAt, received, List.getD_eq_getElem?_getD]
  by_cases h : j < bytes.length
  · rw [List.getElem?_append_left h]
  · rw [List.getElem?_append_right (Nat.not_lt.mp h), List.getElem?_replicate,
      List.getElem?_eq_none (Nat.not_lt.mp h)]
    split <;> rfl

/-- What stands behind the first `c` of a text. -/
def pastFirst (c : UInt8) (s : List UInt8) : List UInt8 := (s.dropWhile (· ≠ c)).drop 1

theorem pastFirst_cons_self (c : UInt8) (s : List UInt8) : pastFirst c (c :: s) = s := by
  simp [pastFirst]

theorem pastFirst_cons_of_ne {c b : UInt8} (h : b ≠ c) (s : List UInt8) :
    pastFirst c (b :: s) = pastFirst c s := by
  simp [pastFirst, h]

theorem pastFirst_of_not_mem {c : UInt8} {s : List UInt8} (h : c ∉ s) : pastFirst c s = [] := by
  induction s with
  | nil => rfl
  | cons b s ih =>
      rw [List.mem_cons, not_or] at h
      rw [pastFirst_cons_of_ne (Ne.symm h.1), ih h.2]

theorem pastFirst_append {c : UInt8} {l : List UInt8} (h : c ∉ l) (s : List UInt8) :
    pastFirst c (l ++ s) = pastFirst c s := by
  induction l with
  | nil => rfl
  | cons b l ih =>
      rw [List.mem_cons, not_or] at h
      rw [List.cons_append, pastFirst_cons_of_ne (Ne.symm h.1), ih h.2]

/-- **A search in a buffer** ends behind the first such byte received, or with
nothing but zeros ahead. -/
theorem drop_scanPast {c : UInt8} (hc : c ≠ 0) {n limit : ℕ} {bytes : List UInt8}
    (hlen : bytes.length ≤ limit) (hpos : 0 < limit) (hlimit : limit < n) :
    ∃ k, (received n bytes).drop (scanPast c (received n bytes) (limit - 1) 0) =
      pastFirst c bytes ++ 0 :: List.replicate k 0 := by
  by_cases hmem : c ∈ bytes
  · obtain ⟨l, rest, hbytes, hl⟩ := List.eq_append_cons_of_mem hmem
    have hle : l.length ≤ limit - 1 := by
      rw [hbytes, List.length_append, List.length_cons] at hlen
      omega
    have hbuf : received n bytes = l ++ c :: (rest ++ List.replicate (n - bytes.length) 0) := by
      conv_lhs => rw [received, hbytes, List.append_assoc, List.cons_append, ← hbytes]
    obtain ⟨k, hk⟩ : ∃ k, n - bytes.length = k + 1 := ⟨n - bytes.length - 1, by omega⟩
    refine ⟨k, ?_⟩
    rw [hbuf, scanPast_append hl _ hle, hbytes, pastFirst_append hl, pastFirst_cons_self, ← hbytes,
      hk, Nat.zero_add, ← List.drop_drop, List.drop_left]
    rfl
  · have hscan : scanPast c (received n bytes) (limit - 1) 0 = limit := by
      rw [scanPast_of_not_mem]
      · omega
      · rw [received, List.mem_append, not_or]
        exact ⟨hmem, fun h => hc (List.eq_of_mem_replicate h)⟩
      · rw [received, List.length_append, List.length_replicate]
        omega
    obtain ⟨k, hk⟩ : ∃ k, n - limit = k + 1 := ⟨n - limit - 1, by omega⟩
    refine ⟨k, ?_⟩
    rw [hscan, pastFirst_of_not_mem hmem, received, List.drop_append, List.drop_of_length_le hlen,
      List.drop_replicate, show n - bytes.length - (limit - bytes.length) = k + 1 by omega]
    rfl

theorem byteAt_of_length_le {bytes : List UInt8} {j : ℕ} (h : bytes.length ≤ j) :
    byteAt bytes j = 0 := by
  rw [byteAt, List.getD_eq_getElem?_getD, List.getElem?_eq_none h]
  rfl

theorem byteAt_getElem {bytes : List UInt8} {j : ℕ} (h : j < bytes.length) :
    byteAt bytes j = bytes[j] := by
  rw [byteAt, List.getD_eq_getElem?_getD, List.getElem?_eq_getElem h, Option.getD_some]

theorem byteAt_mem {bytes : List UInt8} {j : ℕ} (h : j < bytes.length) :
    byteAt bytes j ∈ bytes := by
  rw [byteAt_getElem h]
  exact List.getElem_mem h

theorem byteAt_set_self {bytes : List UInt8} {i : ℕ} (h : i < bytes.length) (b : UInt8) :
    byteAt (bytes.set i b) i = b := by
  rw [byteAt_getElem (by rw [List.length_set]; exact h), List.getElem_set_self]

theorem byteAt_set_ne {i j : ℕ} (h : i ≠ j) (bytes : List UInt8) (b : UInt8) :
    byteAt (bytes.set i b) j = byteAt bytes j := by
  rw [byteAt, byteAt, List.getD_eq_getElem?_getD, List.getD_eq_getElem?_getD,
    List.getElem?_set_ne h]

theorem byteAt_drop (buf : List UInt8) (i j : ℕ) : byteAt (buf.drop i) j = byteAt buf (i + j) := by
  rw [byteAt, byteAt, List.getD_eq_getElem?_getD, List.getD_eq_getElem?_getD, List.getElem?_drop]

theorem byteAt_append_left {l : List UInt8} {j : ℕ} (h : j < l.length) (r : List UInt8) :
    byteAt (l ++ r) j = byteAt l j := by
  rw [byteAt, byteAt, List.getD_eq_getElem?_getD, List.getD_eq_getElem?_getD,
    List.getElem?_append_left h]

theorem byteAt_append_right (l r : List UInt8) (j : ℕ) :
    byteAt (l ++ r) (l.length + j) = byteAt r j := by
  rw [byteAt, byteAt, List.getD_eq_getElem?_getD, List.getD_eq_getElem?_getD,
    List.getElem?_append_right (Nat.le_add_right _ _), Nat.add_sub_cancel_left]

/-- A NUL behind a text is no more than its end. -/
theorem byteAt_append_zero (s : List UInt8) (k j : ℕ) :
    byteAt (s ++ 0 :: List.replicate k 0) j = byteAt s j := by
  have hreceived := byteAt_received (s.length + (k + 1)) s j
  rwa [received, Nat.add_sub_cancel_left, List.replicate_succ] at hreceived

/-- The bytes of a run, and the one behind it. -/
theorem takeWhile_run {q : UInt8 → Bool} (hq : q 0 = false) (l : List UInt8) :
    (∀ j < (l.takeWhile q).length, q (byteAt l j) = true) ∧
      q (byteAt l (l.takeWhile q).length) = false := by
  induction l with
  | nil => exact ⟨fun j hj => absurd hj (Nat.not_lt_zero j), hq⟩
  | cons b l ih =>
      cases hb : q b with
      | false =>
          rw [List.takeWhile_cons_of_neg (by rw [hb]; exact Bool.false_ne_true)]
          exact ⟨fun j hj => absurd hj (Nat.not_lt_zero j), hb⟩
      | true =>
          rw [List.takeWhile_cons_of_pos hb, List.length_cons]
          refine ⟨fun j hj => ?_, ih.2⟩
          cases j with
          | zero => exact hb
          | succ j => exact ih.1 j (Nat.lt_of_succ_lt_succ hj)

theorem scanPast_bounds (c : UInt8) (bytes : List UInt8) (rounds count : ℕ) :
    count < scanPast c bytes rounds count ∧ scanPast c bytes rounds count ≤ count + rounds + 1 := by
  induction bytes generalizing rounds count with
  | nil => cases rounds <;> exact ⟨Nat.lt_succ_self _, by simp [scanPast]⟩
  | cons b bytes ih =>
      cases rounds with
      | zero => exact ⟨Nat.lt_succ_self _, le_rfl⟩
      | succ rounds =>
          obtain ⟨hlt, hle⟩ := ih rounds (count + 1)
          rw [scanPast]
          split
          · exact ⟨by omega, by omega⟩
          · exact ⟨Nat.lt_succ_self _, by omega⟩

/-- `strlen` of the string at an index. -/
def strlenAt (buf : List UInt8) (i : ℕ) : ℕ := (cstr (buf.drop i)).length

/-- A buffer, and the pointer that `strtok` keeps between its calls. -/
structure Tokens where
  buf : List UInt8
  saved : Option ℕ := none
deriving DecidableEq, Repr

/-- `strtok(s, delims)`, with `none` for `NULL`: the start of the token, whose
end is overwritten with a NUL. -/
def strtok (s : Option ℕ) (delims : List UInt8) (t : Tokens) : Option ℕ × Tokens :=
  match s.or t.saved with
  | none => (none, t)
  | some p =>
      let start := p + ((t.buf.drop p).takeWhile fun b => delims.contains b).length
      if byteAt t.buf start = 0 then (none, { t with saved := none })
      else
        let stop := start +
          ((t.buf.drop start).takeWhile fun b => b ≠ 0 && !delims.contains b).length
        if byteAt t.buf stop = 0 then (some start, { t with saved := none })
        else (some start, ⟨t.buf.set stop 0, some (stop + 1)⟩)

/-! ## Strings in a buffer -/

/-- The string at an index. -/
abbrev stringAt (buf : List UInt8) (i : ℕ) : List UInt8 := cstr (buf.drop i)

theorem not_mem_cstr (mem : List UInt8) : 0 ∉ cstr mem := by
  intro h
  simpa using List.mem_takeWhile_imp h

theorem cstr_eq_self {s : List UInt8} (h : 0 ∉ s) : cstr s = s := by
  rw [cstr, List.takeWhile_eq_self_iff]
  intro b hb
  simpa using ne_of_mem_of_not_mem hb h

theorem cstr_append_of_not_mem {s : List UInt8} (h : 0 ∉ s) (mem : List UInt8) :
    cstr (s ++ mem) = s ++ cstr mem := by
  unfold cstr
  rw [List.takeWhile_append_of_pos]
  intro b hb
  simpa using ne_of_mem_of_not_mem hb h

/-- Inside a string another one begins, which ends with it. -/
theorem cstr_drop {mem : List UInt8} {k : ℕ} (h : k ≤ (cstr mem).length) :
    cstr (mem.drop k) = (cstr mem).drop k := by
  induction k generalizing mem with
  | zero => rfl
  | succ k ih =>
      cases mem with
      | nil => rfl
      | cons x mem =>
          by_cases hx : x = 0
          · subst hx
            rw [cstr_cons_zero] at h
            exact absurd h (Nat.not_succ_le_zero k)
          · rw [cstr_cons_of_ne hx, List.length_cons] at h
            rw [cstr_cons_of_ne hx, List.drop_succ_cons, List.drop_succ_cons]
            exact ih (Nat.le_of_succ_le_succ h)

theorem stringAt_add {buf : List UInt8} {i k : ℕ} (h : k ≤ (stringAt buf i).length) :
    stringAt buf (i + k) = (stringAt buf i).drop k := by
  rw [stringAt, ← List.drop_drop]
  exact cstr_drop h

theorem byteAt_eq_headD (buf : List UInt8) (i : ℕ) : byteAt buf i = (stringAt buf i).headD 0 := by
  have hhead : byteAt buf i = (buf.drop i).headD 0 := by
    rw [byteAt, List.getD_eq_getElem?_getD, List.headD_eq_head?_getD, List.head?_drop]
  rw [hhead, stringAt]
  cases buf.drop i with
  | nil => rfl
  | cons x mem =>
      by_cases hx : x = 0
      · subst hx
        rw [cstr_cons_zero]
        rfl
      · rw [cstr_cons_of_ne hx]
        rfl

theorem byteAt_eq_zero_iff (buf : List UInt8) (i : ℕ) : byteAt buf i = 0 ↔ stringAt buf i = [] := by
  rw [byteAt_eq_headD]
  have hmem : 0 ∉ stringAt buf i := not_mem_cstr (buf.drop i)
  cases hs : stringAt buf i with
  | nil => exact iff_of_true rfl rfl
  | cons x s =>
      rw [hs] at hmem
      exact iff_of_false (fun hx => hmem (hx ▸ List.mem_cons_self)) (List.cons_ne_nil x s)

/-- The bytes of a string, and its NUL. -/
theorem byteAt_string {buf s : List UInt8} {i k : ℕ} (hs : stringAt buf i = s) (hk : k ≤ s.length) :
    byteAt buf (i + k) = byteAt s k := by
  subst hs
  rw [byteAt_eq_headD, stringAt_add hk, byteAt, List.getD_eq_getElem?_getD,
    List.headD_eq_head?_getD, List.head?_drop]

theorem set_of_byteAt {buf : List UInt8} {i : ℕ} (h : byteAt buf i = 0) : buf.set i 0 = buf := by
  by_cases hi : i < buf.length
  · rw [byteAt_getElem hi] at h
    rw [← h, List.set_getElem_self]
  · exact List.set_eq_of_length_le (Nat.not_lt.mp hi)

/-- A NUL behind a string leaves it alone. -/
theorem stringAt_set {buf : List UInt8} {i j : ℕ} (h : i + (stringAt buf i).length < j) :
    stringAt (buf.set j 0) i = stringAt buf i := by
  have hsplit : (buf.set j 0).drop i = (buf.drop i).set (j - i) 0 := by
    rw [List.drop_set, if_neg (by omega)]
  unfold stringAt at h ⊢
  rw [hsplit]
  have hlt : (cstr (buf.drop i)).length < j - i := by omega
  generalize j - i = k at hlt
  generalize buf.drop i = mem at hlt
  induction mem generalizing k with
  | nil => rfl
  | cons x mem ih =>
      obtain ⟨k, rfl⟩ := Nat.exists_eq_succ_of_ne_zero (Nat.ne_zero_of_lt hlt)
      rw [List.set_cons_succ]
      by_cases hx : x = 0
      · subst hx
        rw [cstr_cons_zero, cstr_cons_zero]
      · rw [cstr_cons_of_ne hx, List.length_cons] at hlt
        rw [cstr_cons_of_ne hx, cstr_cons_of_ne hx, ih k (Nat.lt_of_succ_lt_succ hlt)]

/-- A NUL inside a string ends it there. -/
theorem stringAt_set_take {buf : List UInt8} {i k : ℕ} (h : k < (stringAt buf i).length) :
    stringAt (buf.set (i + k) 0) i = (stringAt buf i).take k := by
  have hsplit : (buf.set (i + k) 0).drop i = (buf.drop i).set k 0 := by
    rw [List.drop_set, if_neg (by omega), Nat.add_sub_cancel_left]
  unfold stringAt at h ⊢
  rw [hsplit]
  clear hsplit
  generalize buf.drop i = mem at h
  induction mem generalizing k with
  | nil => exact absurd h (Nat.not_lt_zero k)
  | cons x mem ih =>
      have hx : x ≠ 0 := by
        rintro rfl
        rw [cstr_cons_zero] at h
        exact Nat.not_lt_zero k h
      rw [cstr_cons_of_ne hx] at h ⊢
      cases k with
      | zero => rw [List.set_cons_zero, cstr_cons_zero, List.take_zero]
      | succ k =>
          rw [List.set_cons_succ, cstr_cons_of_ne hx, List.take_succ_cons,
            ih (Nat.lt_of_succ_lt_succ h)]

/-! ## Tokens of a text -/

/-- A text from its next token on. -/
def front (delims s : List UInt8) : List UInt8 := s.dropWhile fun b => delims.contains b

/-- The next token of a text. -/
def token (delims s : List UInt8) : List UInt8 :=
  (front delims s).takeWhile fun b => !delims.contains b

/-- What stands behind the next token, its delimiter first. -/
def behind (delims s : List UInt8) : List UInt8 :=
  (front delims s).dropWhile fun b => !delims.contains b

theorem token_append_behind (delims s : List UInt8) :
    token delims s ++ behind delims s = front delims s :=
  List.takeWhile_append_dropWhile

theorem token_eq_nil_iff {delims s : List UInt8} : token delims s = [] ↔ front delims s = [] := by
  constructor
  · intro h
    cases hfront : front delims s with
    | nil => rfl
    | cons x rest =>
        have hx : delims.contains x = false := by
          have hnot := List.head?_dropWhile_not (fun b => delims.contains b) s
          rw [show s.dropWhile (fun b => delims.contains b) = x :: rest from hfront] at hnot
          simpa using hnot
        rw [token, hfront, List.takeWhile_cons, hx] at h
        cases h
  · intro h
    rw [token, h]
    rfl

theorem token_sublist (delims s : List UInt8) : (token delims s).Sublist s :=
  (List.takeWhile_sublist _).trans (List.dropWhile_sublist _)

theorem behind_sublist (delims s : List UInt8) : (behind delims s).tail.Sublist s :=
  (List.tail_sublist _).trans ((List.dropWhile_sublist _).trans (List.dropWhile_sublist _))

/-- A token with delimiters in front of it and one behind it. -/
theorem token_between {delims lead tok : List UInt8} {d : UInt8} (hlead : ∀ b ∈ lead, b ∈ delims)
    (hne : tok ≠ []) (htok : ∀ b ∈ tok, b ∉ delims) (hd : d ∈ delims) (s : List UInt8) :
    token delims (lead ++ (tok ++ d :: s)) = tok ∧
      behind delims (lead ++ (tok ++ d :: s)) = d :: s := by
  have hfront : front delims (lead ++ (tok ++ d :: s)) = tok ++ d :: s := by
    obtain ⟨x, tok', rfl⟩ := List.exists_cons_of_ne_nil hne
    have hx : x ∉ delims := htok x List.mem_cons_self
    rw [front, List.dropWhile_append_of_pos (by simpa using hlead), List.cons_append,
      List.dropWhile_cons_of_neg (by simpa using hx)]
  rw [token, behind, hfront]
  constructor
  · rw [List.takeWhile_append_of_pos (by simpa using htok),
      List.takeWhile_cons_of_neg (by simpa using hd), List.append_nil]
  · rw [List.dropWhile_append_of_pos (by simpa using htok),
      List.dropWhile_cons_of_neg (by simpa using hd)]

/-! ## What `strtok` finds -/

/-- The text `s`, which ends at `stop`, is left to `strtok`. -/
def Tokens.Left (t : Tokens) (stop : ℕ) (s : List UInt8) : Prop :=
  match t.saved with
  | none => s = []
  | some p => stringAt t.buf p = s ∧ p + s.length = stop

theorem left_at (buf : List UInt8) (p : ℕ) :
    Tokens.Left ⟨buf, some p⟩ (p + (stringAt buf p).length) (stringAt buf p) :=
  ⟨rfl, rfl⟩

theorem Tokens.Left.length_le {t : Tokens} {stop : ℕ} {s : List UInt8} (h : t.Left stop s) :
    s.length ≤ stop := by
  obtain ⟨buf, saved⟩ := t
  cases saved with
  | none =>
      rw [show s = [] from h]
      exact Nat.zero_le _
  | some p => exact Nat.le_of_add_left_le h.2.le

theorem takeWhile_cstr {q : UInt8 → Bool} (hq : q 0 = false) (mem : List UInt8) :
    mem.takeWhile q = (cstr mem).takeWhile q := by
  rw [cstr, List.takeWhile_takeWhile]
  congr 1
  funext b
  by_cases hb : b = 0
  · subst hb
    rw [hq]
    simp
  · simp [hb]

theorem drop_length_takeWhile (q : UInt8 → Bool) (s : List UInt8) :
    s.drop (s.takeWhile q).length = s.dropWhile q := by
  have hdrop : (s.takeWhile q ++ s.dropWhile q).drop (s.takeWhile q).length = s.dropWhile q :=
    List.drop_left
  rwa [List.takeWhile_append_dropWhile] at hdrop

section

variable {delims s buf : List UInt8} {t : Tokens} {p stop : ℕ}

/-- Where `strtok` begins the token. -/
theorem stringAt_front (hdelims : 0 ∉ delims) (hs : stringAt buf p = s) :
    stringAt buf (p + ((buf.drop p).takeWhile fun b => delims.contains b).length) =
      front delims s := by
  have hzero : delims.contains (0 : UInt8) = false := by simpa using hdelims
  rw [takeWhile_cstr hzero, show cstr (buf.drop p) = s from hs,
    stringAt_add (by rw [hs]; exact (List.takeWhile_prefix _).length_le), hs]
  exact drop_length_takeWhile _ s

/-- Where it ends the token. -/
theorem token_length (hs : stringAt buf p = front delims s) :
    ((buf.drop p).takeWhile fun b => b ≠ 0 && !delims.contains b).length =
      (token delims s).length := by
  have htake : (buf.drop p).takeWhile (fun b => b ≠ 0 && !delims.contains b) =
      (stringAt buf p).takeWhile fun b => !delims.contains b := by
    rw [stringAt, cstr, List.takeWhile_takeWhile]
    congr 1
    funext b
    by_cases hb : b = 0 <;> simp [hb]
  rw [htake, hs]
  rfl

theorem length_front_le (delims s : List UInt8) : (front delims s).length ≤ s.length :=
  (List.dropWhile_suffix _).length_le

theorem length_front (delims s : List UInt8) :
    (token delims s).length + (behind delims s).length = (front delims s).length := by
  rw [← List.length_append, token_append_behind]

theorem start_eq (hdelims : 0 ∉ delims) (hs : stringAt buf p = s) (hstop : p + s.length = stop) :
    p + ((buf.drop p).takeWhile fun b => delims.contains b).length =
      stop - (front delims s).length := by
  have htake : ((buf.drop p).takeWhile fun b => delims.contains b) =
      s.takeWhile fun b => delims.contains b := by
    rw [← hs]
    exact takeWhile_cstr (by simpa using hdelims) _
  have hsplit : (s.takeWhile fun b => delims.contains b).length + (front delims s).length =
      s.length := by
    rw [front, ← List.length_append, List.takeWhile_append_dropWhile]
  rw [htake]
  omega

/-- The end of the token. -/
theorem Tokens.Left.token_end (h : t.Left stop s) (delims : List UInt8) :
    stop - (front delims s).length + (token delims s).length =
      stop - (behind delims s).length := by
  have hle := (length_front_le delims s).trans h.length_le
  have hlen := length_front delims s
  omega

theorem length_behind_le (delims s : List UInt8) : (behind delims s).length ≤ s.length :=
  ((List.dropWhile_suffix _).length_le).trans (length_front_le delims s)

/-- Where nothing is found, nothing is left. -/
theorem token_ne_nil {delims s : List UInt8} (h : (behind delims s).tail ≠ []) :
    token delims s ≠ [] := by
  intro htok
  apply h
  rw [behind, token_eq_nil_iff.mp htok]
  rfl

theorem ne_nil_of_token {delims s : List UInt8} (h : token delims s ≠ []) : s ≠ [] := by
  rintro rfl
  exact h rfl

/-- **No token.** -/
theorem strtok_none (hdelims : 0 ∉ delims) (h : t.Left stop s) (htok : token delims s = []) :
    strtok none delims t = (none, { t with saved := none }) := by
  obtain ⟨buf, saved⟩ := t
  cases saved with
  | none => rfl
  | some p =>
      obtain ⟨hs, -⟩ := h
      have hzero :
          byteAt buf (p + ((buf.drop p).takeWhile fun b => delims.contains b).length) = 0 := by
        rw [byteAt_eq_zero_iff, stringAt_front hdelims hs, ← token_eq_nil_iff]
        exact htok
      show (if byteAt buf _ = 0 then _ else _) = _
      rw [if_pos hzero]

/-- Where the token begins, and where it ends, the text from there on is in place. -/
theorem front_at (hdelims : 0 ∉ delims) (h : Tokens.Left ⟨buf, some p⟩ stop s) :
    stringAt buf (stop - (front delims s).length) = front delims s := by
  obtain ⟨hs, hstop⟩ := h
  have hfront := stringAt_front hdelims hs
  rwa [start_eq hdelims hs hstop] at hfront

theorem behind_at (hdelims : 0 ∉ delims) (h : Tokens.Left ⟨buf, some p⟩ stop s) :
    stringAt buf (stop - (behind delims s).length) = behind delims s := by
  have hfront := front_at hdelims h
  rw [← Tokens.Left.token_end h delims,
    stringAt_add (by rw [hfront, ← length_front]; exact Nat.le_add_right _ _), hfront,
    ← token_append_behind, List.drop_left]

/-- `strtok` goes to the end of the token, and overwrites it unless it is the NUL. -/
theorem strtok_saved (hdelims : 0 ∉ delims) (h : Tokens.Left ⟨buf, some p⟩ stop s)
    (htok : token delims s ≠ []) :
    strtok none delims ⟨buf, some p⟩ =
      if byteAt buf (stop - (behind delims s).length) = 0 then
        (some (stop - (front delims s).length), ⟨buf, none⟩)
      else (some (stop - (front delims s).length),
        ⟨buf.set (stop - (behind delims s).length) 0,
          some (stop - (behind delims s).length + 1)⟩) := by
  have hfront := front_at hdelims h
  have hne : byteAt buf (stop - (front delims s).length) ≠ 0 := by
    rw [Ne, byteAt_eq_zero_iff, hfront, ← token_eq_nil_iff]
    exact htok
  show (if byteAt buf (p + _) = 0 then _ else _) = _
  rw [start_eq hdelims h.1 h.2, if_neg hne, token_length hfront, Tokens.Left.token_end h delims]

/-- **A token.** It begins where the text from it on begins, its end is
overwritten, and what stands behind its delimiter is left. -/
theorem strtok_some (hdelims : 0 ∉ delims) (h : t.Left stop s) (htok : token delims s ≠ []) :
    ∃ t', strtok none delims t = (some (stop - (front delims s).length), t') ∧
      t'.buf = t.buf.set (stop - (behind delims s).length) 0 ∧
      t'.Left stop (behind delims s).tail ∧
      stringAt t'.buf (stop - (front delims s).length) = token delims s := by
  obtain ⟨buf, saved⟩ := t
  cases saved with
  | none =>
      rw [show s = [] from h] at htok
      exact absurd rfl htok
  | some p =>
      have hfront := front_at hdelims h
      have hend := Tokens.Left.token_end h delims
      have hbehind := behind_at hdelims h
      rw [strtok_saved hdelims h htok]
      cases hb : behind delims s with
      | nil =>
          have hzero : byteAt buf (stop - (behind delims s).length) = 0 := by
            rw [byteAt_eq_zero_iff, hbehind, hb]
          rw [hb] at hzero
          refine ⟨_, if_pos hzero, (set_of_byteAt hzero).symm, rfl, ?_⟩
          show stringAt buf _ = _
          rw [hfront, ← token_append_behind, hb, List.append_nil]
      | cons d rest =>
          have hnonzero : byteAt buf (stop - (behind delims s).length) ≠ 0 := by
            rw [Ne, byteAt_eq_zero_iff, hbehind, hb]
            exact List.cons_ne_nil d rest
          rw [hb] at hnonzero hbehind
          refine ⟨_, if_neg hnonzero, rfl, ⟨?_, ?_⟩, ?_⟩
          · have hone : 1 ≤ (stringAt buf (stop - (d :: rest).length)).length := by
              rw [hbehind, List.length_cons]
              exact Nat.succ_le_succ (Nat.zero_le _)
            have hnext : stringAt buf (stop - (d :: rest).length + 1) = rest := by
              rw [stringAt_add hone, hbehind, List.drop_one]
              rfl
            show cstr ((buf.set _ 0).drop _) = _
            rw [List.drop_set_of_lt (Nat.lt_succ_self _)]
            exact hnext
          · show _ + 1 + rest.length = stop
            have hle := (length_front_le delims s).trans h.length_le
            have hlen := length_front delims s
            rw [hb, List.length_cons] at hlen
            rw [List.length_cons]
            omega
          · show stringAt (buf.set (stop - (d :: rest).length) 0) _ = _
            rw [hb] at hend
            have hlt : (token delims s).length < (front delims s).length := by
              rw [← length_front, hb, List.length_cons]
              omega
            rw [← hend, stringAt_set_take (by rw [hfront]; exact hlt), hfront,
              ← token_append_behind, List.take_left]

end

/-! ## The tokens one by one -/

/-- What is left of a text behind its first `n` tokens. -/
def leftAfter (delims : List UInt8) : ℕ → List UInt8 → List UInt8
  | 0, s => s
  | n + 1, s => leftAfter delims n (behind delims s).tail

/-- The token of a text behind its first `n`. -/
def nthToken (delims : List UInt8) (n : ℕ) (s : List UInt8) : List UInt8 :=
  token delims (leftAfter delims n s)

/-- Behind a token that is missing there are no more. -/
theorem nthToken_ne_nil {delims s : List UInt8} {n : ℕ} (h : nthToken delims (n + 1) s ≠ []) :
    nthToken delims n s ≠ [] := by
  induction n generalizing s with
  | zero => exact token_ne_nil (ne_nil_of_token h)
  | succ n ih => exact ih h

/-! ## A sequence of calls -/

/-- Between `buf` and `buf'` some bytes up to index `last` were set to NUL. -/
structure Cut (buf buf' : List UInt8) (last : ℕ) : Prop where
  length_eq : buf'.length = buf.length
  drop_eq : ∀ j, last < j → buf'.drop j = buf.drop j
  zero : ∀ j, byteAt buf j = 0 → byteAt buf' j = 0

theorem Cut.refl (buf : List UInt8) (last : ℕ) : Cut buf buf last :=
  ⟨rfl, fun _ _ => rfl, fun _ => id⟩

theorem Cut.trans {buf buf' buf'' : List UInt8} {last last' : ℕ} (h : Cut buf buf' last)
    (h' : Cut buf' buf'' last') (hle : last ≤ last') : Cut buf buf'' last' where
  length_eq := h'.length_eq.trans h.length_eq
  drop_eq j hj := (h'.drop_eq j hj).trans (h.drop_eq j (hle.trans_lt hj))
  zero j hj := h'.zero j (h.zero j hj)

theorem Cut.mono {buf buf' : List UInt8} {last last' : ℕ} (h : Cut buf buf' last)
    (hle : last ≤ last') : Cut buf buf' last' :=
  ⟨h.length_eq, fun j hj => h.drop_eq j (hle.trans_lt hj), h.zero⟩

theorem cut_set (buf : List UInt8) (i : ℕ) : Cut buf (buf.set i 0) i where
  length_eq := List.length_set
  drop_eq j hj := List.drop_set_of_lt hj
  zero j hj := by
    by_cases hij : i = j
    · subst hij
      rw [set_of_byteAt hj]
      exact hj
    · rw [byteAt_set_ne hij]
      exact hj

/-- A token found before the text `s` was left, which later calls do not touch. -/
def Kept (stop : ℕ) (s : List UInt8) (i : ℕ) (tok buf : List UInt8) : Prop :=
  stringAt buf i = tok ∧ (s = [] ∨ i + tok.length + s.length < stop)

/-- **One call of a sequence.** -/
theorem strtok_next {delims s : List UInt8} {t : Tokens} {stop : ℕ} (hdelims : 0 ∉ delims)
    (h : t.Left stop s) :
    ∃ t', strtok none delims t =
        (if token delims s = [] then none else some (stop - (front delims s).length), t') ∧
      t'.Left stop (behind delims s).tail ∧
      (token delims s ≠ [] → Kept stop (behind delims s).tail (stop - (front delims s).length)
        (token delims s) t'.buf) ∧
      (∀ i tok, Kept stop s i tok t.buf → Kept stop (behind delims s).tail i tok t'.buf) ∧
      Cut t.buf t'.buf (stop - (behind delims s).length) := by
  by_cases htok : token delims s = []
  · have hbehind : behind delims s = [] := by
      rw [behind, token_eq_nil_iff.mp htok]
      rfl
    rw [if_pos htok, hbehind]
    refine ⟨_, strtok_none hdelims h htok, rfl, absurd htok, ?_, Cut.refl _ _⟩
    exact fun i tok hkept => ⟨hkept.1, Or.inl rfl⟩
  · obtain ⟨t', hstrtok, hbuf, hleft, htoken⟩ := strtok_some hdelims h htok
    have hstop := h.length_le
    have hfront := length_front_le delims s
    have hlen := length_front delims s
    have htail : (behind delims s).tail.length ≤ (behind delims s).length := by
      rw [List.length_tail]
      exact Nat.sub_le _ _
    rw [if_neg htok]
    refine ⟨t', hstrtok, hleft, fun _ => ⟨htoken, ?_⟩, ?_, hbuf ▸ cut_set _ _⟩
    · cases hb : behind delims s with
      | nil => exact Or.inl rfl
      | cons d rest =>
          rw [hb, List.length_cons] at hlen
          right
          rw [List.tail_cons]
          omega
    · rintro i tok ⟨hstring, hend⟩
      have hlt : i + tok.length + s.length < stop := by
        refine hend.resolve_left ?_
        rintro rfl
        exact htok rfl
      refine ⟨?_, Or.inr (by omega)⟩
      rw [hbuf, stringAt_set (by rw [hstring]; omega), hstring]

/-- `n` calls of `strtok(NULL, delims)`, and what the last of them returns. -/
def strtokTimes (delims : List UInt8) : ℕ → Option ℕ → Tokens → Option ℕ × Tokens
  | 0, last, t => (last, t)
  | n + 1, _, t =>
      let (last, t) := strtok none delims t
      strtokTimes delims n last t

/-- **The last of several calls** finds the token behind those of the others. -/
theorem strtokTimes_spec {delims s : List UInt8} {t : Tokens} {stop : ℕ} (hdelims : 0 ∉ delims)
    (h : t.Left stop s) (n : ℕ) (last : Option ℕ) :
    ∃ found t', strtokTimes delims (n + 1) last t = (found, t') ∧
      t'.Left stop (leftAfter delims (n + 1) s) ∧
      (found = none ∧ nthToken delims n s = [] ∨
        ∃ i, found = some i ∧ nthToken delims n s ≠ [] ∧
          stringAt t'.buf i = nthToken delims n s) := by
  induction n generalizing t s last with
  | zero =>
      obtain ⟨t', hstrtok, hleft, htoken, -, -⟩ := strtok_next hdelims h
      have htimes : strtokTimes delims 1 last t = strtok none delims t := rfl
      rw [htimes, hstrtok]
      by_cases hnil : token delims s = []
      · rw [if_pos hnil]
        exact ⟨none, t', rfl, hleft, Or.inl ⟨rfl, hnil⟩⟩
      · rw [if_neg hnil]
        exact ⟨_, t', rfl, hleft, Or.inr ⟨_, rfl, hnil, (htoken hnil).1⟩⟩
  | succ n ih =>
      obtain ⟨t', hstrtok, hleft, -, -, -⟩ := strtok_next hdelims h
      obtain ⟨found, t'', htimes, hleft', hfound⟩ := ih hleft _
      refine ⟨found, t'', ?_, hleft', hfound⟩
      rw [strtokTimes, hstrtok]
      exact htimes

/-! ## What is read -/

/-- The bytes that `strtok` reads: the index of the first one, and how many. -/
def strtokRead (s : Option ℕ) (delims : List UInt8) (t : Tokens) : Option (ℕ × ℕ) :=
  (s.or t.saved).map fun p =>
    let skipped := ((t.buf.drop p).takeWhile fun b => delims.contains b).length
    let found :=
      ((t.buf.drop (p + skipped)).takeWhile fun b => b ≠ 0 && !delims.contains b).length
    (p, skipped + found + 1)

/-- A string ends at the next NUL. -/
theorem string_le {buf : List UInt8} {i j : ℕ} (hzero : byteAt buf j = 0) (hle : i ≤ j) :
    i + (stringAt buf i).length ≤ j := by
  by_contra hlt
  have hlen : j - i ≤ (stringAt buf i).length := by omega
  have hnil := (byteAt_eq_zero_iff buf j).mp hzero
  rw [← Nat.add_sub_of_le hle, stringAt_add hlen, List.drop_eq_nil_iff] at hnil
  omega

/-- The buffer has a NUL at `last`, and what is left to `strtok` begins no later. -/
structure Tokens.Within (t : Tokens) (last : ℕ) : Prop where
  zero : byteAt t.buf last = 0
  saved_le : ∀ p, t.saved = some p → p ≤ last

/-- `strtok` stays within a buffer that ends with a NUL. -/
theorem strtok_within {delims : List UInt8} {t : Tokens} {last : ℕ} (hdelims : 0 ∉ delims)
    (h : t.Within last) :
    (strtok none delims t).2.Within last ∧
      (∀ i, (strtok none delims t).1 = some i → i ≤ last) ∧
      ∀ r, strtokRead none delims t = some r → r.1 + r.2 ≤ last + 1 := by
  obtain ⟨buf, saved⟩ := t
  cases saved with
  | none =>
      refine ⟨h, ?_, ?_⟩
      · intro i hi
        cases hi
      · intro r hr
        cases hr
  | some p =>
      have hend : p + (stringAt buf p).length ≤ last := string_le h.zero (h.saved_le p rfl)
      obtain ⟨t', hstrtok, hleft, -, -, hcut⟩ := strtok_next hdelims (left_at buf p)
      rw [hstrtok]
      refine ⟨⟨hcut.zero last h.zero, ?_⟩, ?_, ?_⟩
      · intro q hq
        have hstop : q ≤ p + (stringAt buf p).length := by
          unfold Tokens.Left at hleft
          rw [hq] at hleft
          exact Nat.le_of_add_right_le hleft.2.le
        exact hstop.trans hend
      · intro i hi
        split at hi
        · cases hi
        · cases hi
          omega
      · intro r hr
        cases hr
        have hstart := start_eq hdelims (rfl : stringAt buf p = _) rfl
        have hfound := token_length (stringAt_front hdelims (rfl : stringAt buf p = _))
        have htoken := (left_at buf p).token_end delims
        simp only
        rw [hfound]
        omega

/-- `isspace` in the C locale. -/
def whitespace (b : UInt8) : Bool := b = 32 || (9 ≤ b && b ≤ 13)

def digit (b : UInt8) : Bool := 48 ≤ b && b ≤ 57

/-- `isalnum` in the C locale. -/
def isalnum (b : UInt8) : Bool := digit b || (65 ≤ b && b ≤ 90) || (97 ≤ b && b ≤ 122)

/-- The number spelled by the digits in front of a text. -/
def digits (s : List UInt8) : ℕ := (s.takeWhile digit).foldl (fun n b => 10 * n + (b.toNat - 48)) 0

/-- The bounds of a `long` of 32 bits. -/
def LONG_MIN : ℤ := -2147483648
def LONG_MAX : ℤ := 2147483647

/-- `strtol(s, NULL, 10)`. -/
def strtol (s : List UInt8) : ℤ :=
  match s.dropWhile whitespace with
  | 45 :: s => max LONG_MIN (-(digits s : ℤ))
  | 43 :: s => min LONG_MAX (digits s)
  | s => min LONG_MAX (digits s)

theorem strtol_cons_whitespace {b : UInt8} (h : whitespace b = true) (s : List UInt8) :
    strtol (b :: s) = strtol s := by
  rw [strtol, List.dropWhile_cons_of_pos h]
  rfl

theorem digits_cons_of_not_digit {b : UInt8} (h : digit b = false) (s : List UInt8) :
    digits (b :: s) = 0 := by
  rw [digits, List.takeWhile_cons_of_neg (by rw [h]; exact Bool.false_ne_true)]
  rfl

/-- No number stands in front. -/
theorem strtol_word {b : UInt8} (hspace : whitespace b = false) (hdigit : digit b = false)
    (hminus : b ≠ 45) (hplus : b ≠ 43) (s : List UInt8) : strtol (b :: s) = 0 := by
  rw [strtol, List.dropWhile_cons_of_neg (by rw [hspace]; exact Bool.false_ne_true)]
  split
  · rename_i heq
    cases heq
    exact absurd rfl hminus
  · rename_i heq
    cases heq
    exact absurd rfl hplus
  · rw [digits_cons_of_not_digit hdigit]
    rfl

/-- A sign without a number. -/
theorem strtol_plus_word {b : UInt8} (hdigit : digit b = false) (s : List UInt8) :
    strtol (43 :: b :: s) = 0 := by
  have hsign : whitespace 43 = false := rfl
  rw [strtol, List.dropWhile_cons_of_neg (by rw [hsign]; exact Bool.false_ne_true)]
  simp only
  rw [digits_cons_of_not_digit hdigit]
  rfl

/-- `a - b` on a `size_t` of 32 bits. -/
def sizeSub (a b : ℕ) : ℕ := if b ≤ a then a - b else 4294967296 + a - b

end CText
