import SmartDoorLock.Cellular.SocketInit

/-!
# The identifiers of the card and the modem

`CellularGetICCID` and `CellularGetIMEI` skip to the identifier and copy it. The
bound of both copying loops is the macro `MIN`, whose expansion has no brackets
around it: the comparison ends up inside the condition of the `?:`, and what is
left to bound the loop is whether anything was received. So both copy up to the
first byte that is not alphanumeric, and `i` has moved past it when the NUL is
stored: one byte of the caller's buffer before the NUL is left as it was.

The loop of `CellularGetIMEI` that skips does not stop at the end of what was
received. Memory behind the reply buffer is a parameter, and the loops count down
a fuel, without which they have not returned.
-/

namespace SmartDoorLock

open CText

def CCID : List UInt8 := ascii "AT+CCID\r\n"

/-! ## The functions -/

/-- `i < MIN(x, y) + z` as it is expanded, `(i < (x < y)) ? x : y + z`. -/
def ltMin (i x y z : ℤ) : Bool := (if i < (if x < y then 1 else 0) then x else y + z) ≠ 0

/-- The copying loop: `i`, the indices of `buf` read and the stores to the buffer
of the caller. -/
structure Copying where
  i : ℕ
  reads : List ℕ
  writes : List (ℕ × UInt8) := []
deriving DecidableEq, Repr

/-- The copying loop, with `more` for its condition. -/
def copyLoop (mem : ℕ → UInt8) (more : ℕ → Bool) (count : ℕ) : ℕ → Copying → Option Copying
  | 0, _ => none
  | fuel + 1, c =>
      if more c.i then
        if isalnum (mem c.i) then
          copyLoop mem more count fuel
            { i := c.i + 1
              reads := c.reads ++ [c.i]
              writes := c.writes ++ [(c.i - count, mem c.i)] }
        else some { c with i := c.i + 1, reads := c.reads ++ [c.i] }
      else some c

/-- `while(!isalnum(buf[count++]) || count > rc) {}`: the value of `count`. -/
def skipLoop (mem : ℕ → UInt8) (rc : ℕ) : ℕ → ℕ → Option ℕ
  | 0, _ => none
  | fuel + 1, count =>
      if !isalnum (mem count) || count + 1 > rc then skipLoop mem rc fuel (count + 1)
      else some (count + 1)

/-- What a getter returns and leaves: its return code, the buffer of the caller,
the indices of `buf` read and the stores. -/
structure IdResult where
  rc : ℤ
  out : Option (ℕ → UInt8)
  reads : List ℕ := []
  writes : List (ℕ × UInt8) := []

/-- A buffer after some stores. -/
def stored (prior : ℕ → UInt8) (writes : List (ℕ × UInt8)) : ℕ → UInt8 :=
  writes.foldl (fun out w => Function.update out w.1 w.2) prior

/-- The NUL behind the copy, and the return. -/
def finishId (prior : ℕ → UInt8) (count : ℕ) (c : Copying) : IdResult :=
  let writes := c.writes ++ [(c.i - count, 0)]
  { rc := 0, out := some (stored prior writes), reads := c.reads, writes := writes }

/-- The reply buffer of 50 bytes, and what lies behind it. -/
def replyMem (got : List UInt8) (beyond : ℕ → UInt8) (i : ℕ) : UInt8 :=
  if i < 50 then byteAt (received 50 got) i else beyond i

/-- What `CellularGetICCID` makes of a reply. -/
def iccidOfReply (beyond prior : ℕ → UInt8) (maxlen : ℤ) (fuel : ℕ) (got : List UInt8) :
    Option IdResult :=
  let rc := got.length
  let count := scanPast 32 (received 50 got) 48 0
  (copyLoop (replyMem got beyond) (fun i => ltMin i maxlen (rc - count) count) count fuel
    { i := count, reads := List.range count }).map (finishId prior count)

/-- What `CellularGetIMEI` makes of a reply. -/
def imeiOfReply (beyond prior : ℕ → UInt8) (maxlen : ℤ) (fuel : ℕ) (got : List UInt8) :
    Option IdResult :=
  let rc := got.length
  (skipLoop (replyMem got beyond) rc fuel 0).bind fun skipped =>
    let count := skipped - 1
    (copyLoop (replyMem got beyond) (fun i => ltMin i (maxlen + count) rc 0) count fuel
      { i := count, reads := List.range skipped }).map (finishId prior count)

/-- A getter of an identifier, with `none` for a buffer that is `NULL`. -/
def getIdentifier (cmd : List UInt8) (ofReply : (ℕ → UInt8) → List UInt8 → Option IdResult)
    (out : Option (ℕ → UInt8)) (maxlen : ℤ) : Serial (Option IdResult) :=
  match out with
  | none => return some ⟨-1, none, [], []⟩
  | some prior => do
      if maxlen < 0 then return some ⟨-1, some prior, [], []⟩
      match ← exchange cmd 49 SHORT_TIME with
      | none => return some ⟨-1, some prior, [], []⟩
      | some got => return ofReply prior got

/-- `CellularGetICCID`. -/
def cellularGetICCID (beyond : ℕ → UInt8) (fuel : ℕ) (iccid : Option (ℕ → UInt8)) (maxlen : ℤ) :
    Serial (Option IdResult) :=
  getIdentifier CCID (fun prior => iccidOfReply beyond prior maxlen fuel) iccid maxlen

/-- `CellularGetIMEI`. -/
def cellularGetIMEI (beyond : ℕ → UInt8) (fuel : ℕ) (imei : Option (ℕ → UInt8)) (maxlen : ℤ) :
    Serial (Option IdResult) :=
  getIdentifier CGSN (fun prior => imeiOfReply beyond prior maxlen fuel) imei maxlen

/-! ## The properties -/

/-- The identifier in a reply to `AT+CCID`: what follows the first space. -/
def iccidIn (got : List UInt8) : List UInt8 :=
  ((got.dropWhile (· ≠ 32)).drop 1).takeWhile isalnum

/-- The identifier in a reply to `AT+CGSN`. -/
def imeiIn (got : List UInt8) : List UInt8 :=
  (got.dropWhile fun b => !isalnum b).takeWhile isalnum

/-- Every store is at one of the first `maxlen` bytes, and one of these is a NUL. -/
structure IdResult.InBuffer (maxlen : ℕ) (r : IdResult) : Prop where
  writes : ∀ w ∈ r.writes, w.1 < maxlen
  terminated : ∃ out, r.out = some out ∧ ∃ i < maxlen, out i = 0

/-- The string in the buffer of the caller. -/
def IdResult.text (r : IdResult) (maxlen : ℕ) : List UInt8 :=
  match r.out with
  | none => []
  | some out => cstr ((List.range maxlen).map out)

/-! ## The loops -/

variable {mem : ℕ → UInt8} {more : ℕ → Bool} {count : ℕ}

/-- More fuel changes nothing. -/
theorem copyLoop_mono {fuel fuel' : ℕ} {c r : Copying} (hle : fuel ≤ fuel')
    (h : copyLoop mem more count fuel c = some r) : copyLoop mem more count fuel' c = some r := by
  induction fuel generalizing fuel' c with
  | zero => cases h
  | succ fuel ih =>
      obtain ⟨fuel', rfl⟩ := Nat.exists_eq_succ_of_ne_zero (Nat.ne_zero_of_lt hle)
      rw [copyLoop] at h ⊢
      split at h
      · rename_i hmore
        rw [if_pos hmore]
        split at h
        · rename_i halnum
          rw [if_pos halnum]
          exact ih (Nat.le_of_succ_le_succ hle) h
        · rename_i halnum
          rw [if_neg halnum]
          exact h
      · rename_i hmore
        rw [if_neg hmore]
        exact h

theorem skipLoop_mono {rc fuel fuel' n r : ℕ} (hle : fuel ≤ fuel')
    (h : skipLoop mem rc fuel n = some r) : skipLoop mem rc fuel' n = some r := by
  induction fuel generalizing fuel' n with
  | zero => cases h
  | succ fuel ih =>
      obtain ⟨fuel', rfl⟩ := Nat.exists_eq_succ_of_ne_zero (Nat.ne_zero_of_lt hle)
      rw [skipLoop] at h ⊢
      split at h
      · rename_i hskip
        rw [if_pos hskip]
        exact ih (Nat.le_of_succ_le_succ hle) h
      · rename_i hskip
        rw [if_neg hskip]
        exact h

/-- **The copying loop ends** at a byte that is not alphanumeric, at the latest. -/
theorem copyLoop_ends (i k : ℕ) (reads : List ℕ) (writes : List (ℕ × UInt8))
    (hstop : isalnum (mem (i + k)) = false) :
    ∃ r, copyLoop mem more count (k + 1) ⟨i, reads, writes⟩ = some r ∧
      ∀ j ∈ r.reads, j ∈ reads ∨ j ≤ i + k := by
  have hread : ∀ j ∈ reads ++ [i], j ∈ reads ∨ j ≤ i + k := by
    intro j hj
    rcases List.mem_append.mp hj with hj | hj
    · exact Or.inl hj
    · exact Or.inr ((List.mem_singleton.mp hj).le.trans (Nat.le_add_right i k))
  induction k generalizing i reads writes with
  | zero =>
      rw [copyLoop]
      split
      · rw [Nat.add_zero] at hstop
        simp only [hstop, Bool.false_eq_true, if_false]
        exact ⟨_, rfl, hread⟩
      · exact ⟨_, rfl, fun j hj => Or.inl hj⟩
  | succ k ih =>
      rw [copyLoop]
      split
      · split
        · have hnext : i + 1 + k = i + (k + 1) := by omega
          rw [← hnext] at hstop hread ⊢
          obtain ⟨r, hr, hreads⟩ := ih (i + 1) (reads ++ [i]) (writes ++ [(i - count, mem i)]) hstop
            (fun j hj => by
              rcases List.mem_append.mp hj with hj | hj
              · exact Or.inl hj
              · exact Or.inr ((List.mem_singleton.mp hj).le.trans (Nat.le_add_right _ k)))
          refine ⟨r, hr, fun j hj => ?_⟩
          rcases hreads j hj with hj | hj
          · exact hread j hj
          · exact Or.inr hj
        · exact ⟨_, rfl, hread⟩
      · exact ⟨_, rfl, fun j hj => Or.inl hj⟩

/-- **The copying loop over a run** of alphanumeric bytes, while its condition
holds: each byte is stored in its place, and `i` moves past the byte behind them. -/
theorem copyLoop_run (i k fuel : ℕ) (reads : List ℕ) (writes : List (ℕ × UInt8))
    (hrun : ∀ j < k, isalnum (mem (i + j)) = true) (hstop : isalnum (mem (i + k)) = false)
    (hmore : ∀ j ≤ k, more (i + j) = true) (hfuel : k < fuel) :
    copyLoop mem more count fuel ⟨i, reads, writes⟩ =
      some ⟨i + k + 1, reads ++ List.range' i (k + 1),
        writes ++ (List.range' i k).map fun j => (j - count, mem j)⟩ := by
  obtain ⟨fuel, rfl⟩ := Nat.exists_eq_succ_of_ne_zero (Nat.ne_zero_of_lt hfuel)
  induction k generalizing i fuel reads writes with
  | zero =>
      have hhere := hmore 0 le_rfl
      rw [Nat.add_zero] at hstop hhere
      simp [copyLoop, hhere, hstop]
  | succ k ih =>
      have hhere := hmore 0 (Nat.zero_le _)
      have halnum := hrun 0 (Nat.succ_pos k)
      rw [Nat.add_zero] at hhere halnum
      obtain ⟨fuel, rfl⟩ : ∃ f, fuel = f + 1 := ⟨fuel - 1, by omega⟩
      have hshift : ∀ j, i + 1 + j = i + (j + 1) := fun j => by omega
      have hnext := ih (i + 1) (reads ++ [i]) (writes ++ [(i - count, mem i)])
        (fun j hj => by rw [hshift]; exact hrun (j + 1) (Nat.succ_lt_succ hj))
        (by rw [hshift]; exact hstop)
        (fun j hj => by rw [hshift]; exact hmore (j + 1) (Nat.succ_le_succ hj))
        fuel (by omega)
      rw [copyLoop, if_pos hhere, if_pos halnum]
      refine hnext.trans ?_
      rw [hshift, List.range'_succ (s := i) (n := k + 1), List.range'_succ (s := i) (n := k)]
      simp

/-- The loop that skips stops at the first alphanumeric byte received. -/
theorem skipLoop_stops {rc : ℕ} (k n fuel : ℕ)
    (hskip : ∀ j < k, isalnum (mem (n + j)) = false) (hstop : isalnum (mem (n + k)) = true)
    (hrc : n + k < rc) (hfuel : k < fuel) : skipLoop mem rc fuel n = some (n + k + 1) := by
  obtain ⟨fuel, rfl⟩ := Nat.exists_eq_succ_of_ne_zero (Nat.ne_zero_of_lt hfuel)
  induction k generalizing n fuel with
  | zero =>
      rw [Nat.add_zero] at hstop hrc
      have hend : ¬ (n + 1 > rc) := by omega
      simp [skipLoop, hstop, hend]
  | succ k ih =>
      have hhere := hskip 0 (Nat.succ_pos k)
      rw [Nat.add_zero] at hhere
      obtain ⟨fuel, rfl⟩ : ∃ f, fuel = f + 1 := ⟨fuel - 1, by omega⟩
      have hshift : ∀ j, n + 1 + j = n + (j + 1) := fun j => by omega
      rw [skipLoop, hhere, Bool.not_false, Bool.true_or, if_pos rfl,
        ih (n + 1) (fun j hj => by rw [hshift]; exact hskip (j + 1) (Nat.succ_lt_succ hj))
          (by rw [hshift]; exact hstop) (by omega) fuel (by omega), hshift]

/-- **It stops nowhere else.** -/
theorem skipLoop_never {rc : ℕ} (h : ∀ j < rc, isalnum (mem j) = false) (fuel n : ℕ) :
    skipLoop mem rc fuel n = none := by
  induction fuel generalizing n with
  | zero => rfl
  | succ fuel ih =>
      have hskip : (!isalnum (mem n) || decide (n + 1 > rc)) = true := by
        by_cases hn : n < rc
        · rw [h n hn]
          rfl
        · rw [decide_eq_true (by omega), Bool.or_true]
      rw [skipLoop, if_pos hskip]
      exact ih (n + 1)

/-! ## Where the identifier stands -/

/-- From index `at` on memory holds `id`, and behind it no alphanumeric byte. -/
structure IdAt (mem : ℕ → UInt8) (start : ℕ) (id : List UInt8) : Prop where
  alnum : ∀ j < id.length, isalnum (mem (start + j)) = true
  stop : isalnum (mem (start + id.length)) = false
  byte : ∀ j < id.length, mem (start + j) = byteAt id j
  inside : start + id.length < 50

theorem replyMem_eq {got : List UInt8} {beyond : ℕ → UInt8} {i : ℕ} (hi : i < 50) :
    replyMem got beyond i = byteAt got i := by
  rw [replyMem, if_pos hi, byteAt_received]

theorem byteAt_takeWhile {q : UInt8 → Bool} {l : List UInt8} {j : ℕ}
    (hj : j < (l.takeWhile q).length) : byteAt l j = byteAt (l.takeWhile q) j := by
  obtain ⟨rest, hrest⟩ := List.takeWhile_prefix q (l := l)
  conv_lhs => rw [← hrest]
  exact byteAt_append_left hj rest

/-- A run that begins at `start` of the buffer, where `l` was received. -/
theorem idAt_takeWhile {got l : List UInt8} {start k : ℕ} (hlen : got.length ≤ 49)
    (hdrop : (received 50 got).drop start = l ++ 0 :: List.replicate k 0) (beyond : ℕ → UInt8) :
    IdAt (replyMem got beyond) start (l.takeWhile isalnum) := by
  have hle := (List.takeWhile_prefix isalnum (l := l)).length_le
  have hin : start + l.length < 50 := by
    have hlength := congrArg List.length hdrop
    rw [List.length_drop, received, List.length_append, List.length_replicate, List.length_append,
      List.length_cons, List.length_replicate] at hlength
    omega
  have hmem : ∀ j ≤ l.length, replyMem got beyond (start + j) = byteAt l j := by
    intro j hj
    rw [replyMem, if_pos (by omega), ← byteAt_drop, hdrop, byteAt_append_zero]
  obtain ⟨hrun, hstop⟩ := takeWhile_run (q := isalnum) rfl l
  refine ⟨?_, ?_, ?_, by omega⟩
  · intro j hj
    rw [hmem j (by omega)]
    exact hrun j hj
  · rw [hmem _ hle]
    exact hstop
  · intro j hj
    rw [hmem j (by omega)]
    exact byteAt_takeWhile hj

/-- Where `CellularGetICCID` begins to copy. -/
theorem iccid_at {got : List UInt8} (hlen : got.length ≤ 49) (beyond : ℕ → UInt8) :
    1 ≤ scanPast 32 (received 50 got) 48 0 ∧
      IdAt (replyMem got beyond) (scanPast 32 (received 50 got) 48 0) (iccidIn got) := by
  refine ⟨(scanPast_bounds 32 (received 50 got) 48 0).1, ?_⟩
  obtain ⟨k, hdrop⟩ := drop_scanPast (c := 32) (n := 50) (by decide) hlen (by decide) (by decide)
  exact idAt_takeWhile hlen hdrop beyond

/-- Where `CellularGetIMEI` does, if anything alphanumeric was received. -/
theorem imei_at {got : List UInt8} (hlen : got.length ≤ 49) (beyond : ℕ → UInt8)
    (hmem : ∃ b ∈ got, isalnum b = true) :
    ∃ k < got.length, (∀ j < k, isalnum (replyMem got beyond j) = false) ∧
      isalnum (replyMem got beyond k) = true ∧ IdAt (replyMem got beyond) k (imeiIn got) := by
  set before := got.takeWhile fun b => !isalnum b with hbefore
  have hgot : got = before ++ got.dropWhile fun b => !isalnum b :=
    List.takeWhile_append_dropWhile.symm
  obtain ⟨b, rest, hrest⟩ : ∃ b rest, (got.dropWhile fun b => !isalnum b) = b :: rest := by
    apply List.exists_cons_of_ne_nil
    intro hnil
    obtain ⟨b, hb, halnum⟩ := hmem
    have hnot := List.dropWhile_eq_nil_iff.mp hnil b hb
    rw [halnum] at hnot
    cases hnot
  have halnum : isalnum b = true := by
    have hnot := List.head?_dropWhile_not (fun b => !isalnum b) got
    rw [hrest] at hnot
    simpa using hnot
  have hlt : before.length < got.length := by
    conv_rhs => rw [hgot, hrest, List.length_append, List.length_cons]
    omega
  refine ⟨before.length, hlt, ?_, ?_, ?_⟩
  · intro j hj
    rw [replyMem_eq (by omega), byteAt_takeWhile hj]
    simpa using List.mem_takeWhile_imp (byteAt_mem hj)
  · have hhead := byteAt_append_right before (b :: rest) 0
    rw [Nat.add_zero, ← hrest, ← hgot, hrest] at hhead
    rw [replyMem_eq (by omega), hhead]
    exact halnum
  · apply idAt_takeWhile (k := 49 - got.length) hlen
    have hzeros : List.replicate (50 - got.length) (0 : UInt8) =
        0 :: List.replicate (49 - got.length) 0 := by
      rw [show 50 - got.length = 49 - got.length + 1 by omega]
      rfl
    have hbuf : received 50 got = before ++ ((got.dropWhile fun b => !isalnum b) ++
        0 :: List.replicate (49 - got.length) 0) := by
      rw [received, hzeros, ← List.append_assoc, ← hgot]
    rw [hbuf]
    exact List.drop_left

/-! ## The copy -/

/-- The stores of a copy of `id`: its bytes, and a NUL one place too far. -/
def idWrites (id : List UInt8) : List (ℕ × UInt8) :=
  (List.range id.length).map (fun j => (j, byteAt id j)) ++ [(id.length + 1, 0)]

/-- The getter has returned 0 with a copy of `id`. -/
structure IdResult.Copied (prior : ℕ → UInt8) (id : List UInt8) (r : IdResult) : Prop where
  rc_eq : r.rc = 0
  writes_eq : r.writes = idWrites id
  out_eq : r.out = some (stored prior (idWrites id))
  reads_lt : ∀ i ∈ r.reads, i < 50

/-- **A run is copied**, while the condition of the loop holds. -/
theorem IdAt.copied {start : ℕ} {id : List UInt8} (h : IdAt mem start id)
    (hmore : ∀ i, start ≤ i → more i = true) (prior : ℕ → UInt8) {reads : List ℕ}
    (hreads : ∀ i ∈ reads, i < 50) :
    ∃ r : IdResult, r.Copied prior id ∧ ∀ fuel ≥ 50,
      (copyLoop mem more start fuel { i := start, reads := reads }).map
        (finishId prior start) = some r := by
  have hinside := h.inside
  have hwrites : ([] ++ (List.range' start id.length).map fun j => (j - start, mem j)) ++
      [(start + id.length + 1 - start, 0)] = idWrites id := by
    rw [idWrites, List.nil_append, List.range'_eq_map_range, List.map_map]
    congr 1
    · refine List.map_congr_left fun j hj => ?_
      show (start + j - start, mem (start + j)) = _
      rw [Nat.add_sub_cancel_left, h.byte j (List.mem_range.mp hj)]
    · rw [Nat.add_assoc, Nat.add_sub_cancel_left]
  refine ⟨finishId prior start
      ⟨start + id.length + 1, reads ++ List.range' start (id.length + 1), _⟩,
    ⟨rfl, hwrites, congrArg (some ∘ stored prior) hwrites, ?_⟩, fun fuel hfuel => ?_⟩
  · intro i hi
    rcases List.mem_append.mp hi with hi | hi
    · exact hreads i hi
    · have hbound := List.mem_range'_1.mp hi
      omega
  · rw [copyLoop_run start id.length fuel reads [] h.alnum h.stop
      (fun j _ => hmore _ (Nat.le_add_right start j)) (by omega)]
    rfl

/-- The bytes of the copy, and the byte behind them as it was. -/
theorem stored_bytes (prior : ℕ → UInt8) (f : ℕ → UInt8) (n : ℕ) :
    stored prior ((List.range n).map fun j => (j, f j)) =
      fun i => if i < n then f i else prior i := by
  induction n with
  | zero => rfl
  | succ n ih =>
      rw [List.range_succ, List.map_append, stored, List.foldl_append]
      show Function.update (stored prior _) n (f n) = _
      rw [ih]
      funext i
      rcases Nat.lt_trichotomy i n with hlt | rfl | hgt
      · rw [Function.update_of_ne (Nat.ne_of_lt hlt), if_pos hlt, if_pos (Nat.lt_succ_of_lt hlt)]
      · rw [Function.update_self, if_pos (Nat.lt_succ_self i)]
      · rw [Function.update_of_ne (Nat.ne_of_gt hgt), if_neg (by omega), if_neg (by omega)]

theorem stored_idWrites (prior : ℕ → UInt8) (id : List UInt8) :
    stored prior (idWrites id) = Function.update
      (fun i => if i < id.length then byteAt id i else prior i) (id.length + 1) 0 := by
  rw [idWrites, stored, List.foldl_append, ← stored_bytes prior (byteAt id)]
  rfl

theorem map_byteAt_range (l : List UInt8) : (List.range l.length).map (byteAt l) = l := by
  refine List.ext_getElem (by simp) fun j _ hj => ?_
  rw [List.getElem_map, List.getElem_range, byteAt_getElem hj]

/-- The whole buffer after the copy. -/
theorem copied_buffer (prior : ℕ → UInt8) (id : List UInt8) {maxlen : ℕ}
    (hmax : id.length + 2 ≤ maxlen) :
    ∃ rest, (List.range maxlen).map (stored prior (idWrites id)) =
      id ++ prior id.length :: 0 :: rest := by
  obtain ⟨k, rfl⟩ := Nat.exists_eq_add_of_le hmax
  refine ⟨(List.range k).map fun j => stored prior (idWrites id) (id.length + (2 + j)), ?_⟩
  have hfront : (List.range id.length).map (stored prior (idWrites id)) = id := by
    conv_rhs => rw [← map_byteAt_range id]
    refine List.map_congr_left fun j hj => ?_
    have hlt := List.mem_range.mp hj
    rw [stored_idWrites, Function.update_of_ne (by omega), if_pos hlt]
  have hleft : stored prior (idWrites id) id.length = prior id.length := by
    rw [stored_idWrites, Function.update_of_ne (by omega), if_neg (Nat.lt_irrefl _)]
  have hnul : stored prior (idWrites id) (id.length + 1) = 0 := by
    rw [stored_idWrites, Function.update_self]
  rw [Nat.add_assoc, List.range_add, List.map_append, hfront, List.map_map, List.range_add,
    List.map_append, List.map_map]
  show id ++ ([stored prior (idWrites id) id.length, stored prior (idWrites id) (id.length + 1)] ++
    _) = _
  rw [hleft, hnul]
  rfl

/-- **What the caller reads** is the identifier, if it finds a NUL behind it. -/
theorem IdResult.Copied.text_iff {prior : ℕ → UInt8} {id : List UInt8} {r : IdResult}
    (h : r.Copied prior id) (hid : 0 ∉ id) {maxlen : ℕ} (hmax : id.length + 2 ≤ maxlen) :
    r.text maxlen = id ↔ prior id.length = 0 := by
  obtain ⟨rest, hbuffer⟩ := copied_buffer prior id hmax
  have htext : r.text maxlen = id ++ cstr (prior id.length :: 0 :: rest) := by
    rw [IdResult.text, h.out_eq]
    show cstr ((List.range maxlen).map _) = _
    rw [hbuffer, cstr_append_of_not_mem hid]
  rw [htext, List.append_right_eq_self]
  by_cases hzero : prior id.length = 0
  · rw [hzero, cstr_cons_zero]
    exact iff_of_true rfl rfl
  · rw [cstr_cons_of_ne hzero]
    exact iff_of_false (List.cons_ne_nil _ _) hzero

/-- **What the copy needs** of the buffer of the caller. -/
theorem IdResult.Copied.inBuffer_iff {prior : ℕ → UInt8} {id : List UInt8} {r : IdResult}
    (h : r.Copied prior id) {maxlen : ℕ} : r.InBuffer maxlen ↔ id.length + 2 ≤ maxlen := by
  constructor
  · intro hin
    refine hin.writes (id.length + 1, 0) ?_
    rw [h.writes_eq]
    exact List.mem_append_right _ (List.mem_singleton_self _)
  · intro hmax
    refine ⟨fun w hw => ?_, _, h.out_eq, id.length + 1, hmax, ?_⟩
    · rw [h.writes_eq] at hw
      rcases List.mem_append.mp hw with hw | hw
      · obtain ⟨j, hj, rfl⟩ := List.mem_map.mp hw
        have hlt := List.mem_range.mp hj
        show j < maxlen
        omega
      · rw [List.mem_singleton.mp hw]
        exact hmax
    · rw [stored_idWrites, Function.update_self]

/-! ## The replies -/

section

variable {got : List UInt8} (beyond prior : ℕ → UInt8)

/-- The condition of either loop behind the first byte: was anything received? -/
theorem ltMin_of_pos {i : ℤ} (hi : 1 ≤ i) (x y z : ℤ) : ltMin i x y z = decide (y + z ≠ 0) := by
  have hbound : ¬ i < (if x < y then 1 else 0) := by split <;> omega
  rw [ltMin, if_neg hbound]

/-- `CellularGetICCID` copies what follows the first space. -/
theorem iccid_copied (maxlen : ℤ) (hlen : got.length ≤ 49) (hne : got ≠ []) :
    ∃ r : IdResult, r.Copied prior (iccidIn got) ∧
      ∀ fuel ≥ 50, iccidOfReply beyond prior maxlen fuel got = some r := by
  obtain ⟨hpos, hat⟩ := iccid_at hlen beyond
  have hscan := (scanPast_bounds 32 (received 50 got) 48 0).2
  have hrc := List.length_pos_iff.mpr hne
  refine hat.copied (fun i hi => ?_) prior fun i hi => ?_
  · rw [ltMin_of_pos (by omega)]
    exact decide_eq_true (by omega)
  · have hlt := List.mem_range.mp hi
    omega

/-- When nothing was received the loop is not entered. -/
theorem iccid_empty (maxlen : ℤ) {fuel : ℕ} (hfuel : 1 ≤ fuel) :
    iccidOfReply beyond prior maxlen fuel [] =
      some ⟨0, some (Function.update prior 0 0), List.range 49, [(0, 0)]⟩ := by
  obtain ⟨fuel, rfl⟩ := Nat.exists_eq_succ_of_ne_zero (Nat.ne_zero_of_lt hfuel)
  have hscan : scanPast 32 (received 50 []) 48 0 = 49 := by decide
  have hmore :
      ltMin ((49 : ℕ) : ℤ) maxlen (([] : List UInt8).length - (49 : ℕ)) (49 : ℕ) = false := by
    rw [ltMin_of_pos (by decide)]
    rfl
  simp only [iccidOfReply, hscan, copyLoop, hmore]
  rfl

/-- With more fuel the results are the same. -/
theorem iccidOfReply_mono {maxlen : ℤ} {fuel fuel' : ℕ} {r : IdResult} (hle : fuel ≤ fuel')
    (h : iccidOfReply beyond prior maxlen fuel got = some r) :
    iccidOfReply beyond prior maxlen fuel' got = some r := by
  obtain ⟨c, hcopy, hr⟩ := Option.map_eq_some_iff.mp h
  exact Option.map_eq_some_iff.mpr ⟨c, copyLoop_mono hle hcopy, hr⟩

theorem imeiOfReply_mono {maxlen : ℤ} {fuel fuel' : ℕ} {r : IdResult} (hle : fuel ≤ fuel')
    (h : imeiOfReply beyond prior maxlen fuel got = some r) :
    imeiOfReply beyond prior maxlen fuel' got = some r := by
  obtain ⟨skipped, hskip, hrest⟩ := Option.bind_eq_some_iff.mp h
  obtain ⟨c, hcopy, hr⟩ := Option.map_eq_some_iff.mp hrest
  exact Option.bind_eq_some_iff.mpr ⟨skipped, skipLoop_mono hle hskip,
    Option.map_eq_some_iff.mpr ⟨c, copyLoop_mono hle hcopy, hr⟩⟩

theorem imei_skipped (hlen : got.length ≤ 49) (hmem : ∃ b ∈ got, isalnum b = true) :
    ∃ k, k < got.length ∧ IdAt (replyMem got beyond) k (imeiIn got) ∧
      ∀ fuel ≥ 50, skipLoop (replyMem got beyond) got.length fuel 0 = some (k + 1) := by
  obtain ⟨k, hk, hskip, hstop, hat⟩ := imei_at hlen beyond hmem
  refine ⟨k, hk, hat, fun fuel hfuel => ?_⟩
  have hloop : skipLoop (replyMem got beyond) got.length fuel 0 = some (0 + k + 1) :=
    skipLoop_stops k 0 fuel (fun j hj => by rw [Nat.zero_add]; exact hskip j hj)
      (by rw [Nat.zero_add]; exact hstop) (by rw [Nat.zero_add]; exact hk) (by omega)
  rw [hloop, Nat.zero_add]

/-- `CellularGetIMEI` copies the first run, if the buffer has any room. -/
theorem imei_copied {maxlen : ℤ} (hmax : 1 ≤ maxlen) (hlen : got.length ≤ 49)
    (hmem : ∃ b ∈ got, isalnum b = true) :
    ∃ r : IdResult, r.Copied prior (imeiIn got) ∧
      ∀ fuel ≥ 50, imeiOfReply beyond prior maxlen fuel got = some r := by
  obtain ⟨k, hk, hat, hskip⟩ := imei_skipped beyond hlen hmem
  have hmore : ∀ i, k ≤ i → ltMin i (maxlen + k) got.length 0 = true := by
    intro i hi
    rcases Nat.eq_zero_or_pos i with rfl | hpos
    · unfold ltMin
      split <;> exact decide_eq_true (by omega)
    · rw [ltMin_of_pos (by omega)]
      exact decide_eq_true (by omega)
  have hread : ∀ i ∈ List.range (k + 1), i < 50 := by
    intro i hi
    have hlt := List.mem_range.mp hi
    omega
  obtain ⟨r, hr, hcopy⟩ := hat.copied hmore prior hread
  refine ⟨r, hr, fun fuel hfuel => ?_⟩
  rw [imeiOfReply, hskip fuel hfuel]
  exact hcopy fuel hfuel

/-- Without any, it still returns. -/
theorem imei_returns (maxlen : ℤ) (hlen : got.length ≤ 49) (hmem : ∃ b ∈ got, isalnum b = true) :
    ∃ r : IdResult, (∀ i ∈ r.reads, i < 50) ∧
      ∀ fuel ≥ 50, imeiOfReply beyond prior maxlen fuel got = some r := by
  obtain ⟨k, hk, hat, hskip⟩ := imei_skipped beyond hlen hmem
  have hinside := hat.inside
  obtain ⟨c, hcopy, hreads⟩ :
      ∃ c, copyLoop (replyMem got beyond) (fun i => ltMin i (maxlen + k) got.length 0) k
          ((imeiIn got).length + 1) ⟨k, List.range (k + 1), []⟩ = some c ∧
        ∀ j ∈ c.reads, j ∈ List.range (k + 1) ∨ j ≤ k + (imeiIn got).length :=
    copyLoop_ends k _ _ [] hat.stop
  refine ⟨finishId prior k c, fun i hi => ?_, fun fuel hfuel => ?_⟩
  · rcases hreads i hi with hi | hi
    · have hlt := List.mem_range.mp hi
      omega
    · omega
  · have hle : (imeiIn got).length + 1 ≤ fuel := by omega
    rw [imeiOfReply, hskip fuel hfuel]
    exact congrArg (Option.map (finishId prior k)) (copyLoop_mono hle hcopy)

/-- **It never returns** when nothing alphanumeric was received. -/
theorem imei_never (maxlen : ℤ) (hlen : got.length ≤ 49) (hnone : ¬ ∃ b ∈ got, isalnum b = true)
    (fuel : ℕ) : imeiOfReply beyond prior maxlen fuel got = none := by
  have hskip : skipLoop (replyMem got beyond) got.length fuel 0 = none := by
    refine skipLoop_never (fun j hj => ?_) fuel 0
    rw [replyMem_eq (by omega)]
    exact Bool.eq_false_iff.mpr fun halnum => hnone ⟨_, byteAt_mem hj, halnum⟩
  rw [imeiOfReply, hskip]
  rfl

end

/-! ## The getters -/

section

variable (beyond prior : ℕ → UInt8) (reply : ℕ → List UInt8) (h : Heard)

theorem hear_getIdentifier (cmd : List UInt8)
    (ofReply : (ℕ → UInt8) → List UInt8 → Option IdResult) {maxlen : ℤ} (hmax : 0 ≤ maxlen) :
    ((getIdentifier cmd ofReply (some prior) maxlen).hear reply h).1 =
      ofReply prior (h.next reply 49) := by
  unfold getIdentifier
  simp only [if_neg (Int.not_lt.mpr hmax)]
  exact congrArg Prod.fst (hear_asked reply cmd 49 SHORT_TIME _ _ h)

/-- What `CellularGetICCID` leaves. -/
def iccidRun (maxlen : ℕ) (fuel : ℕ) : Option IdResult :=
  ((cellularGetICCID beyond fuel (some prior) maxlen).hear reply h).1

/-- What `CellularGetIMEI` leaves. -/
def imeiRun (maxlen : ℕ) (fuel : ℕ) : Option IdResult :=
  ((cellularGetIMEI beyond fuel (some prior) maxlen).hear reply h).1

theorem iccidRun_eq (maxlen fuel : ℕ) : iccidRun beyond prior reply h maxlen fuel =
    iccidOfReply beyond prior maxlen fuel (h.next reply 49) :=
  hear_getIdentifier prior reply h CCID _ (Int.natCast_nonneg maxlen)

theorem imeiRun_eq (maxlen fuel : ℕ) : imeiRun beyond prior reply h maxlen fuel =
    imeiOfReply beyond prior maxlen fuel (h.next reply 49) :=
  hear_getIdentifier prior reply h CGSN _ (Int.natCast_nonneg maxlen)

theorem alnum_of_imeiIn {got : List UInt8} (hne : imeiIn got ≠ []) :
    ∃ b ∈ got, isalnum b = true := by
  obtain ⟨b, hb⟩ := List.exists_mem_of_ne_nil _ hne
  exact ⟨b, List.dropWhile_subset _ (List.takeWhile_subset _ hb), List.mem_takeWhile_imp hb⟩

theorem zero_not_mem_run (l : List UInt8) : 0 ∉ l.takeWhile isalnum := fun hmem =>
  absurd (List.mem_takeWhile_imp hmem) (by decide)

/-- **Within the buffer, exactly.** Whenever a getter returns, it has kept to the
buffer of the caller and left a string in it if and only if the buffer is two bytes
longer than what was copied, or nothing was received (`CellularGetICCID`). -/
theorem identifiers_inBuffer_iff (maxlen fuel : ℕ) (hmax : 1 ≤ maxlen) (r : IdResult) :
    (iccidRun beyond prior reply h maxlen fuel = some r → (r.InBuffer maxlen ↔
        h.next reply 49 = [] ∨ (iccidIn (h.next reply 49)).length + 2 ≤ maxlen)) ∧
      (imeiRun beyond prior reply h maxlen fuel = some r →
        (r.InBuffer maxlen ↔ (imeiIn (h.next reply 49)).length + 2 ≤ maxlen)) := by
  rw [iccidRun_eq, imeiRun_eq]
  have hlen := next_length_le reply h 49
  generalize h.next reply 49 = got at hlen ⊢
  refine ⟨fun hrun => ?_, fun hrun => ?_⟩
  · have hmore := iccidOfReply_mono beyond prior (Nat.le_max_left fuel 50) hrun
    by_cases hgot : got = []
    · subst hgot
      rw [iccid_empty beyond prior maxlen (by omega)] at hmore
      cases hmore
      refine iff_of_true ⟨fun w hw => ?_, _, rfl, 0, hmax, ?_⟩ (Or.inl rfl)
      · rw [List.mem_singleton.mp hw]
        exact hmax
      · exact Function.update_self ..
    · obtain ⟨r', hcopied, hreturns⟩ := iccid_copied beyond prior maxlen hlen hgot
      rw [hreturns _ (Nat.le_max_right fuel 50)] at hmore
      cases hmore
      rw [hcopied.inBuffer_iff, or_iff_right hgot]
  · have hmore := imeiOfReply_mono beyond prior (Nat.le_max_left fuel 50) hrun
    by_cases hmem : ∃ b ∈ got, isalnum b = true
    · have hroom : (1 : ℤ) ≤ maxlen := by omega
      obtain ⟨r', hcopied, hreturns⟩ := imei_copied beyond prior hroom hlen hmem
      rw [hreturns _ (Nat.le_max_right fuel 50)] at hmore
      cases hmore
      exact hcopied.inBuffer_iff
    · rw [imei_never beyond prior maxlen hlen hmem] at hmore
      cases hmore

/-- **The return of `CellularGetIMEI`**: it ends, and reads its own buffer only, if
and only if something alphanumeric was received. -/
theorem getIMEI_returns_iff (maxlen : ℕ) :
    (∃ fuel r, imeiRun beyond prior reply h maxlen fuel = some r ∧ ∀ i ∈ r.reads, i < 50) ↔
      ∃ b ∈ h.next reply 49, isalnum b = true := by
  simp only [imeiRun_eq]
  have hlen := next_length_le reply h 49
  generalize h.next reply 49 = got at hlen ⊢
  constructor
  · rintro ⟨fuel, r, hrun, -⟩
    by_contra hnone
    rw [imei_never beyond prior maxlen hlen hnone] at hrun
    cases hrun
  · intro hmem
    obtain ⟨r, hreads, hreturns⟩ := imei_returns beyond prior maxlen hlen hmem
    exact ⟨50, r, hreturns 50 le_rfl, hreads⟩

/-- **The identifier, exactly.** With room for it both getters return 0, and the
caller reads the identifier if and only if the byte behind it was zero before. -/
theorem identifiers_exact_iff (maxlen : ℕ) :
    (iccidIn (h.next reply 49) ≠ [] → (iccidIn (h.next reply 49)).length + 2 ≤ maxlen →
        ∃ r, (∀ fuel ≥ 50, iccidRun beyond prior reply h maxlen fuel = some r) ∧
          (r.rc = 0 ∧ r.text maxlen = iccidIn (h.next reply 49) ↔
            prior (iccidIn (h.next reply 49)).length = 0)) ∧
      (imeiIn (h.next reply 49) ≠ [] → (imeiIn (h.next reply 49)).length + 2 ≤ maxlen →
        ∃ r, (∀ fuel ≥ 50, imeiRun beyond prior reply h maxlen fuel = some r) ∧
          (r.rc = 0 ∧ r.text maxlen = imeiIn (h.next reply 49) ↔
            prior (imeiIn (h.next reply 49)).length = 0)) := by
  simp only [iccidRun_eq, imeiRun_eq]
  have hlen := next_length_le reply h 49
  generalize h.next reply 49 = got at hlen ⊢
  refine ⟨fun hne hmax => ?_, fun hne hmax => ?_⟩
  · have hgot : got ≠ [] := by
      rintro rfl
      exact hne rfl
    obtain ⟨r, hcopied, hreturns⟩ := iccid_copied beyond prior maxlen hlen hgot
    refine ⟨r, hreturns, ?_⟩
    rw [and_iff_right hcopied.rc_eq]
    exact hcopied.text_iff (zero_not_mem_run _) hmax
  · have hroom : (1 : ℤ) ≤ maxlen := by omega
    obtain ⟨r, hcopied, hreturns⟩ :=
      imei_copied beyond prior hroom hlen (alnum_of_imeiIn hne)
    refine ⟨r, hreturns, ?_⟩
    rw [and_iff_right hcopied.rc_eq]
    exact hcopied.text_iff (zero_not_mem_run _) hmax

end

/-! A card and a modem that answer, a buffer with room for the string but no more,
and one whose bytes were not zero. -/

def cardReply : List UInt8 := ascii "\r\n+CCID: 8997201\r\n"
def modemReply : List UInt8 := ascii "\r\n351579\r\n"

def zeros (_ : ℕ) : UInt8 := 0
def letters (_ : ℕ) : UInt8 := 65

theorem replies_in_buffer :
    (∃ r, iccidRun zeros letters (fun _ => cardReply) {} 9 50 = some r ∧ r.InBuffer 9) ∧
      ∃ r, imeiRun zeros letters (fun _ => modemReply) {} 8 50 = some r ∧ r.InBuffer 8 := by
  have hiccid : (iccidRun zeros letters (fun _ => cardReply) {} 9 50).isSome := by decide
  have himei : (imeiRun zeros letters (fun _ => modemReply) {} 8 50).isSome := by decide
  refine ⟨⟨_, (Option.some_get hiccid).symm, ?_⟩, _, (Option.some_get himei).symm, ?_⟩
  · exact ((identifiers_inBuffer_iff zeros letters (fun _ => cardReply) {} 9 50 (by decide) _).1
      (Option.some_get hiccid).symm).mpr (Or.inr (by decide))
  · exact ((identifiers_inBuffer_iff zeros letters (fun _ => modemReply) {} 8 50 (by decide) _).2
      (Option.some_get himei).symm).mpr (by decide)

/-- The string `8997201` and its NUL fit into 8 bytes, and the NUL is stored behind
them. -/
theorem nul_behind_buffer : ∃ r, iccidRun zeros letters (fun _ => cardReply) {} 8 50 = some r ∧
    ¬ r.InBuffer 8 := by
  have hstored : (iccidRun zeros letters (fun _ => cardReply) {} 8 50).map IdResult.writes =
      some (idWrites (ascii "8997201")) := by decide
  obtain ⟨r, hrun, hwrites⟩ := Option.map_eq_some_iff.mp hstored
  refine ⟨r, hrun, fun hin => ?_⟩
  have hnul : (8, 0) ∈ r.writes := by
    rw [hwrites]
    decide
  exact absurd (hin.writes _ hnul) (by decide)

/-- A reply that never comes, and one without any letter or digit. -/
theorem getIMEI_hangs :
    (¬ ∃ fuel r, imeiRun zeros letters (fun _ => []) {} 16 fuel = some r ∧ ∀ i ∈ r.reads, i < 50) ∧
      ¬ ∃ fuel r, imeiRun zeros letters (fun _ => ascii "\r\n") {} 16 fuel = some r ∧
        ∀ i ∈ r.reads, i < 50 := by
  constructor
  · rintro ⟨fuel, r, hrun, -⟩
    rw [imeiRun_eq, imei_never zeros letters _ (by decide) (by decide)] at hrun
    cases hrun
  · rintro ⟨fuel, r, hrun, -⟩
    rw [imeiRun_eq, imei_never zeros letters _ (by decide) (by decide)] at hrun
    cases hrun

theorem replies_read_exactly :
    (∃ r, (∀ fuel ≥ 50, iccidRun zeros zeros (fun _ => cardReply) {} 9 fuel = some r) ∧
        r.rc = 0 ∧ r.text 9 = ascii "8997201") ∧
      ∃ r, (∀ fuel ≥ 50, imeiRun zeros zeros (fun _ => modemReply) {} 8 fuel = some r) ∧
        r.rc = 0 ∧ r.text 8 = ascii "351579" := by
  have hexact := identifiers_exact_iff zeros zeros (fun _ => cardReply) {} 9
  obtain ⟨r, hreturns, htext⟩ := hexact.1 (by decide) (by decide)
  obtain ⟨r', hreturns', htext'⟩ := (identifiers_exact_iff zeros zeros (fun _ => modemReply) {} 8).2
    (by decide) (by decide)
  obtain ⟨hrc, hread⟩ := htext.mpr rfl
  obtain ⟨hrc', hread'⟩ := htext'.mpr rfl
  exact ⟨⟨r, hreturns, hrc, hread.trans (by decide)⟩,
    ⟨r', hreturns', hrc', hread'.trans (by decide)⟩⟩

/-- The byte behind the identifier shows. -/
theorem letter_behind_identifier :
    ∃ r, iccidRun zeros letters (fun _ => cardReply) {} 9 50 = some r ∧ r.rc = 0 ∧
      r.text 9 = ascii "8997201A" ∧ iccidIn cardReply = ascii "8997201" := by
  have hread : (iccidRun zeros letters (fun _ => cardReply) {} 9 50).map
      (fun r => (r.rc, r.text 9)) = some (0, ascii "8997201A") := by decide
  obtain ⟨r, hrun, hr⟩ := Option.map_eq_some_iff.mp hread
  exact ⟨r, hrun, congrArg Prod.fst hr, congrArg Prod.snd hr, by decide⟩

end SmartDoorLock
