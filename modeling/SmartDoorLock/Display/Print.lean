import SmartDoorLock.Display.RemoveChar
import Mathlib.Data.List.Forall2

/-!
# Printing on the display

`lcd_printf` formats a text, removes its carriage returns, cuts it at the newlines
and draws each line on a row of the display. A line that is too long is cut into
pieces behind its spaces. The pointer to the last space is carried from piece to
piece and from line to line; when there is no space in the next piece it is not
in front of it, and the piece is as long as a row.
-/

namespace SmartDoorLock

open CText

/-! ## The functions -/

/-- A call of the graphics library. -/
inductive LcdCall where
  | clear
  | drawStringOnLine (string : List UInt8) (line : UInt8)
  | updateDisplay
deriving DecidableEq, Repr

/-- `_curLine`, and the calls so far. -/
structure Lcd where
  curLine : UInt8 := 0
  calls : List LcdCall := []
deriving DecidableEq, Repr

/-- `cleanScreen`. -/
def cleanScreen (lcd : Lcd) : Lcd := ⟨0, lcd.calls ++ [.clear]⟩

/-- `lcd_puts`. -/
def lcdPuts (string : List UInt8) (lcd : Lcd) : Lcd :=
  ⟨lcd.curLine + 1, lcd.calls ++ [.drawStringOnLine string lcd.curLine]⟩

/-- `if (_curLine >= NUM_OF_LINES) cleanScreen();` -/
def cleanIfFull (NUM_OF_LINES : ℕ) (lcd : Lcd) : Lcd :=
  if lcd.curLine.toNat ≥ NUM_OF_LINES then cleanScreen lcd else lcd

/-- `strncpy(dst, src, n)`. -/
def strncpy (dst src : List UInt8) (n : ℕ) : List UInt8 :=
  let copied := (cstr src).take n
  copied ++ List.replicate (n - copied.length) 0 ++ dst.drop n

/-- The loop over `j`, with indices of the buffer for the pointers `line` and
`last_space`. -/
def findSpace (LINE_SIZE : ℕ) (buf : List UInt8) (line lineSize i lastSpace : ℕ) : ℕ :=
  (List.range' 1 (min LINE_SIZE (lineSize - i))).foldl
    (fun lastSpace j =>
      if byteAt buf (line + i + j - 1) = 32 ∨ byteAt buf (line + i + j) = 0 then line + i + j
      else lastSpace) lastSpace

/-- The loop over `i`, for a line of `lineSize` bytes: `last_space` and the display
after it. -/
def wrapLoop (LINE_SIZE NUM_OF_LINES : ℕ) (buf : List UInt8) (line lineSize : ℕ) :
    ℕ → ℕ → ℕ → Lcd → Option (ℕ × Lcd)
  | 0, _, _, _ => none
  | fuel + 1, i, lastSpace, lcd =>
      if i < lineSize then
        let lcd := cleanIfFull NUM_OF_LINES lcd
        let lastSpace := findSpace LINE_SIZE buf line lineSize i lastSpace
        let spaceIdx : ℤ := lastSpace - (line + i : ℕ)
        let n := if spaceIdx > 0 then spaceIdx.toNat else LINE_SIZE
        let lineBuf := strncpy (List.replicate (LINE_SIZE + 1) 0) (buf.drop (line + i)) n
        wrapLoop LINE_SIZE NUM_OF_LINES buf line lineSize fuel (i + n) lastSpace
          (lcdPuts (cstr lineBuf) lcd)
      else some (lastSpace, lcd)

/-- The loop over the lines that `strtok` finds. -/
def linesLoop (LINE_SIZE NUM_OF_LINES : ℕ) : ℕ → Option ℕ → Tokens → ℕ → Lcd → Option Lcd
  | 0, _, _, _, _ => none
  | _ + 1, none, _, _, lcd => some lcd
  | fuel + 1, some line, t, lastSpace, lcd =>
      let lineSize := strlenAt t.buf line
      let lcd := cleanIfFull NUM_OF_LINES lcd
      let drawn :=
        if lineSize > LINE_SIZE then
          wrapLoop LINE_SIZE NUM_OF_LINES t.buf line lineSize fuel 0 lastSpace lcd
        else some (lastSpace, lcdPuts (cstr (t.buf.drop line)) lcd)
      drawn.bind fun (lastSpace, lcd) =>
        let (line, t) := strtok none (ascii "\n") t
        linesLoop LINE_SIZE NUM_OF_LINES fuel line t lastSpace lcd

/-- `lcd_printf`, for a formatted text: `vsnprintf` returns its length, and leaves at
most 1023 bytes of it in the zeroed buffer. -/
def lcdPrintf (LINE_SIZE NUM_OF_LINES fuel : ℕ) (text : List UInt8) (lcd : Lcd) : Option Lcd :=
  if text.length = 0 then some lcd
  else
    let outputBuf := (removeChar (received 1024 (text.take 1023)) 13).1
    let (line, t) := strtok (some 0) (ascii "\n") ⟨outputBuf, none⟩
    (linesLoop LINE_SIZE NUM_OF_LINES fuel line t (line.getD 0) lcd).map fun lcd =>
      { lcd with calls := lcd.calls ++ [.updateDisplay] }

/-! ## The property -/

/-- The rows drawn so far, with their indices. -/
def Lcd.rows (lcd : Lcd) : List (ℕ × List UInt8) :=
  lcd.calls.filterMap fun
    | .drawStringOnLine string line => some (line.toNat, string)
    | _ => none

/-- The lines of a text: split at the newlines, without the empty ones. -/
def linesOf (s : List UInt8) : List (List UInt8) := (s.splitOn 10).filter (· ≠ [])

/-- The piece ends right behind the last space of the window of `width` bytes it
begins, or is as long as the window when there is none in it. -/
structure BreaksAt (width : ℕ) (piece rest : List UInt8) : Prop where
  soft : 32 ∈ rest.take width → piece.getLast? = some 32 ∧ 32 ∉ (rest.take width).drop piece.length
  hard : 32 ∉ rest.take width → piece.length = width

/-- The pieces of a line. -/
structure Wrapped (width : ℕ) (line : List UInt8) (pieces : List (List UInt8)) : Prop where
  flatten_eq : pieces.flatten = line
  length_pos : ∀ p ∈ pieces, 1 ≤ p.length
  length_le : ∀ p ∈ pieces, p.length ≤ width
  breaks : ∀ front p next, pieces = front ++ p :: next → next ≠ [] →
    BreaksAt width p (p ++ next.flatten)

/-- The pieces are drawn one after the other, each on a row of the display. -/
def Draws (NUM_OF_LINES : ℕ) (lcd : Lcd) (pieces : List (List UInt8)) (lcd' : Lcd) : Prop :=
  ∃ rows, lcd'.rows = lcd.rows ++ rows ∧ rows.map Prod.snd = pieces ∧
    ∀ r ∈ rows, r.1 < NUM_OF_LINES

/-! ## Drawing -/

section

variable {LINE_SIZE NUM_OF_LINES : ℕ} {lcd lcd' lcd'' : Lcd}

theorem Draws.refl (lcd : Lcd) : Draws NUM_OF_LINES lcd [] lcd :=
  ⟨[], (List.append_nil _).symm, rfl, fun _ hr => (List.not_mem_nil hr).elim⟩

theorem Draws.trans {ps qs : List (List UInt8)} (h : Draws NUM_OF_LINES lcd ps lcd')
    (h' : Draws NUM_OF_LINES lcd' qs lcd'') : Draws NUM_OF_LINES lcd (ps ++ qs) lcd'' := by
  obtain ⟨rows, hrows, htexts, hlt⟩ := h
  obtain ⟨rows', hrows', htexts', hlt'⟩ := h'
  refine ⟨rows ++ rows', ?_, ?_, ?_⟩
  · rw [hrows', hrows, List.append_assoc]
  · rw [List.map_append, htexts, htexts']
  · intro r hr
    rcases List.mem_append.mp hr with hr | hr
    · exact hlt r hr
    · exact hlt' r hr

/-- There is a row left, and what is drawn is as before. -/
theorem cleanIfFull_spec (hnum : 1 ≤ NUM_OF_LINES) (lcd : Lcd) :
    (cleanIfFull NUM_OF_LINES lcd).curLine.toNat < NUM_OF_LINES ∧
      (cleanIfFull NUM_OF_LINES lcd).rows = lcd.rows := by
  unfold cleanIfFull
  split
  · refine ⟨hnum, ?_⟩
    simp [cleanScreen, Lcd.rows]
  · rename_i hroom
    exact ⟨Nat.not_le.mp hroom, rfl⟩

theorem Draws.ofClean {ps : List (List UInt8)} (hnum : 1 ≤ NUM_OF_LINES)
    (h : Draws NUM_OF_LINES (cleanIfFull NUM_OF_LINES lcd) ps lcd') :
    Draws NUM_OF_LINES lcd ps lcd' := by
  obtain ⟨rows, hrows, hrest⟩ := h
  exact ⟨rows, by rw [hrows, (cleanIfFull_spec hnum lcd).2], hrest⟩

/-- **A row** is drawn after the display is cleaned, if it is full. -/
theorem draws_lcdPuts (hnum : 1 ≤ NUM_OF_LINES) (lcd : Lcd) (string : List UInt8) :
    Draws NUM_OF_LINES lcd [string] (lcdPuts string (cleanIfFull NUM_OF_LINES lcd)) := by
  obtain ⟨hlt, hrows⟩ := cleanIfFull_spec hnum lcd
  refine ⟨[((cleanIfFull NUM_OF_LINES lcd).curLine.toNat, string)], ?_, rfl, ?_⟩
  · rw [← hrows]
    simp [lcdPuts, Lcd.rows]
  · intro r hr
    rw [List.mem_singleton.mp hr]
    exact hlt

end

/-! ## A piece -/

/-- The last index that meets a condition is kept, or what was there before. -/
theorem foldl_last (c : ℕ → Prop) [DecidablePred c] (base m last : ℕ) :
    (∃ p, 1 ≤ p ∧ p ≤ m ∧ c p ∧ (∀ j, p < j → j ≤ m → ¬ c j) ∧
        (List.range' 1 m).foldl (fun last j => if c j then base + j else last) last = base + p) ∨
      (∀ j, 1 ≤ j → j ≤ m → ¬ c j) ∧
        (List.range' 1 m).foldl (fun last j => if c j then base + j else last) last = last := by
  induction m with
  | zero => exact Or.inr ⟨fun j hj hle => absurd (hj.trans hle) (by decide), rfl⟩
  | succ m ih =>
      have hfold :
          (List.range' 1 (m + 1)).foldl (fun last j => if c j then base + j else last) last =
          if c (m + 1) then base + (m + 1)
          else (List.range' 1 m).foldl (fun last j => if c j then base + j else last) last := by
        rw [List.range'_1_concat, List.foldl_append, Nat.add_comm 1 m]
        rfl
      rw [hfold]
      by_cases hc : c (m + 1)
      · rw [if_pos hc]
        exact Or.inl ⟨m + 1, Nat.succ_pos m, le_rfl, hc, fun j hj hle => by omega, rfl⟩
      · rw [if_neg hc]
        have hlast : ∀ j, j ≤ m + 1 → ¬ j ≤ m → ¬ c j := by
          intro j hle hgt
          obtain rfl : j = m + 1 := by omega
          exact hc
        rcases ih with ⟨p, hpos, hle, hp, hnone, heq⟩ | ⟨hnone, heq⟩
        · refine Or.inl ⟨p, hpos, by omega, hp, fun j hj hjm => ?_, heq⟩
          by_cases hm : j ≤ m
          · exact hnone j hj hm
          · exact hlast j hjm hm
        · refine Or.inr ⟨fun j hj hjm => ?_, heq⟩
          by_cases hm : j ≤ m
          · exact hnone j hj hm
          · exact hlast j hjm hm

theorem mem_take_iff {rest : List UInt8} {b : UInt8} {n : ℕ} :
    b ∈ rest.take n ↔ ∃ k < min n rest.length, byteAt rest k = b := by
  rw [List.mem_iff_getElem]
  constructor
  · rintro ⟨k, hk, rfl⟩
    rw [List.length_take] at hk
    refine ⟨k, hk, ?_⟩
    rw [List.getElem_take, byteAt_getElem (hk.trans_le (min_le_right _ _))]
  · rintro ⟨k, hk, rfl⟩
    refine ⟨k, by rw [List.length_take]; exact hk, ?_⟩
    rw [List.getElem_take, byteAt_getElem (hk.trans_le (min_le_right _ _))]

theorem getLast?_take {rest : List UInt8} {b : UInt8} {p : ℕ} (hp : 1 ≤ p) (hlt : p < rest.length)
    (hbyte : byteAt rest (p - 1) = b) : (rest.take p).getLast? = some b := by
  obtain ⟨q, rfl⟩ := Nat.exists_eq_succ_of_ne_zero (Nat.ne_zero_of_lt hp)
  have hget : rest[q]? = some b := by
    rw [Nat.succ_sub_one, byteAt_getElem (by omega)] at hbyte
    rw [List.getElem?_eq_getElem (by omega), hbyte]
  rw [List.take_add_one, hget]
  exact List.getLast?_concat

/-- A string ends at its NUL and nowhere else. -/
theorem byteAt_string_eq_zero_iff {buf rest : List UInt8} {i j : ℕ} (hs : stringAt buf i = rest)
    (hj : j ≤ rest.length) : byteAt rest j = 0 ↔ j = rest.length := by
  constructor
  · intro hbyte
    by_contra hin
    have hmem : byteAt rest j ∈ rest := byteAt_mem (by omega)
    rw [hbyte, ← hs] at hmem
    exact not_mem_cstr _ hmem
  · rintro rfl
    exact byteAt_of_length_le le_rfl

theorem mem_window_iff {rest : List UInt8} {width : ℕ} :
    32 ∈ rest.take width ↔ ∃ j, 1 ≤ j ∧ j ≤ min width rest.length ∧ byteAt rest (j - 1) = 32 := by
  rw [mem_take_iff]
  constructor
  · rintro ⟨k, hk, hbyte⟩
    exact ⟨k + 1, Nat.succ_pos k, hk, hbyte⟩
  · rintro ⟨j, hj, hle, hbyte⟩
    exact ⟨j - 1, by omega, hbyte⟩

/-- A piece up to the last space of the window. -/
theorem breaksAt_space {rest : List UInt8} {width p : ℕ} (hp : 1 ≤ p) (hle : p ≤ width)
    (hlt : p < rest.length) (hbyte : byteAt rest (p - 1) = 32)
    (hnone : ∀ j, p < j → j ≤ min width rest.length → byteAt rest (j - 1) ≠ 32) :
    BreaksAt width (rest.take p) rest where
  soft := by
    intro _
    refine ⟨getLast?_take hp hlt hbyte, ?_⟩
    rw [List.length_take, Nat.min_eq_left hlt.le, List.drop_take, mem_take_iff]
    rintro ⟨k, hk, hspace⟩
    rw [List.length_drop] at hk
    rw [byteAt_drop] at hspace
    exact hnone (p + k + 1) (by omega) (by omega) hspace
  hard := by
    intro hnospace
    exact absurd (mem_window_iff.mpr ⟨p, hp, by omega, hbyte⟩) hnospace

/-- A piece as long as the window, in which there is no space. -/
theorem breaksAt_width {rest : List UInt8} {width : ℕ} (hlong : width ≤ rest.length)
    (hnone : ∀ j, 1 ≤ j → j ≤ min width rest.length → byteAt rest (j - 1) ≠ 32) :
    BreaksAt width (rest.take width) rest where
  soft := by
    intro hspace
    obtain ⟨j, hj, hle, hbyte⟩ := mem_window_iff.mp hspace
    exact absurd hbyte (hnone j hj hle)
  hard := by
    intro _
    exact List.length_take_of_le hlong

/-- The length of the next piece. -/
def pieceLength (LINE_SIZE line i lastSpace : ℕ) : ℕ :=
  let spaceIdx : ℤ := lastSpace - (line + i : ℕ)
  if spaceIdx > 0 then spaceIdx.toNat else LINE_SIZE

theorem pieceLength_add {LINE_SIZE line i p : ℕ} (hp : 1 ≤ p) :
    pieceLength LINE_SIZE line i (line + i + p) = p := by
  unfold pieceLength
  simp only
  rw [if_pos (by omega)]
  omega

theorem pieceLength_of_le {LINE_SIZE line i lastSpace : ℕ} (hlast : lastSpace ≤ line + i) :
    pieceLength LINE_SIZE line i lastSpace = LINE_SIZE := by
  unfold pieceLength
  simp only
  rw [if_neg (by omega)]

/-- **The next piece.** A pointer that is not in front of it is not used. -/
theorem pieceLength_spec {LINE_SIZE line lineSize i lastSpace : ℕ} {buf rest : List UInt8}
    (hwidth : 1 ≤ LINE_SIZE) (hs : stringAt buf (line + i) = rest) (hne : rest ≠ [])
    (hlen : rest.length = lineSize - i) (hlast : lastSpace ≤ line + i) :
    ∃ n, pieceLength LINE_SIZE line i (findSpace LINE_SIZE buf line lineSize i lastSpace) = n ∧
      findSpace LINE_SIZE buf line lineSize i lastSpace ≤ line + i + n ∧
      1 ≤ n ∧ n ≤ LINE_SIZE ∧ n ≤ rest.length ∧
      (n < rest.length → BreaksAt LINE_SIZE (rest.take n) rest) := by
  have hpos := List.length_pos_iff.mpr hne
  -- where the loop over `j` stores: behind a space, and at the end of the line
  have hstore : ∀ j, 1 ≤ j → j ≤ min LINE_SIZE (lineSize - i) →
      ((byteAt buf (line + i + j - 1) = 32 ∨ byteAt buf (line + i + j) = 0) ↔
        byteAt rest (j - 1) = 32 ∨ j = rest.length) := by
    intro j hj hle
    have hprev : line + i + j - 1 = line + i + (j - 1) := by omega
    rw [hprev, byteAt_string hs (by omega), byteAt_string hs (by omega),
      byteAt_string_eq_zero_iff hs (by omega)]
  rcases foldl_last (fun j => byteAt buf (line + i + j - 1) = 32 ∨ byteAt buf (line + i + j) = 0)
    (line + i) (min LINE_SIZE (lineSize - i)) lastSpace with
    ⟨p, hp, hle, hc, hnone, heq⟩ | ⟨hnone, heq⟩
  · have hfind : findSpace LINE_SIZE buf line lineSize i lastSpace = line + i + p := heq
    rw [hfind]
    refine ⟨p, pieceLength_add hp, le_rfl, hp, by omega, by omega, fun hlt => ?_⟩
    have hbyte : byteAt rest (p - 1) = 32 :=
      ((hstore p hp hle).mp hc).resolve_right (Nat.ne_of_lt hlt)
    apply breaksAt_space hp (by omega) hlt hbyte
    intro j hj hle hspace
    rw [hlen] at hle
    exact hnone j hj hle ((hstore j (by omega) hle).mpr (Or.inl hspace))
  · have hfind : findSpace LINE_SIZE buf line lineSize i lastSpace = lastSpace := heq
    have hlong : LINE_SIZE < rest.length := by
      by_contra hshort
      refine hnone rest.length hpos (by omega) ?_
      exact (hstore rest.length hpos (by omega)).mpr (Or.inr rfl)
    rw [hfind]
    refine ⟨LINE_SIZE, pieceLength_of_le hlast, by omega, hwidth, le_rfl, hlong.le, fun _ => ?_⟩
    apply breaksAt_width hlong.le
    intro j hj hle hspace
    rw [hlen] at hle
    exact hnone j hj hle ((hstore j hj hle).mpr (Or.inl hspace))

/-! ## A line -/

/-- Drawn is the text of the piece. -/
theorem cstr_strncpy {LINE_SIZE n : ℕ} {src rest : List UInt8} (hs : cstr src = rest)
    (hn : n ≤ LINE_SIZE) :
    cstr (strncpy (List.replicate (LINE_SIZE + 1) 0) src n) = rest.take n := by
  have hzero : 0 ∉ rest.take n := by
    intro hmem
    rw [← hs] at hmem
    exact not_mem_cstr src (List.mem_of_mem_take hmem)
  have hend : List.replicate (n - (rest.take n).length) 0 ++
      (List.replicate (LINE_SIZE + 1) (0 : UInt8)).drop n =
        0 :: List.replicate (LINE_SIZE - (rest.take n).length) 0 := by
    have hle := List.length_take_le n rest
    rw [List.drop_replicate, ← List.replicate_add,
      show n - (rest.take n).length + (LINE_SIZE + 1 - n) =
        LINE_SIZE - (rest.take n).length + 1 by omega]
    rfl
  rw [strncpy, hs, List.append_assoc, hend, cstr_append_zero, cstr_eq_self hzero]

/-- One piece more in front. -/
theorem Wrapped.cons {width : ℕ} {p rest : List UInt8} {ps : List (List UInt8)}
    (h : Wrapped width rest ps) (hpos : 1 ≤ p.length) (hle : p.length ≤ width)
    (hbreak : rest ≠ [] → BreaksAt width p (p ++ rest)) : Wrapped width (p ++ rest) (p :: ps) where
  flatten_eq := by rw [List.flatten_cons, h.flatten_eq]
  length_pos := by
    intro q hq
    rcases List.mem_cons.mp hq with rfl | hq
    · exact hpos
    · exact h.length_pos q hq
  length_le := by
    intro q hq
    rcases List.mem_cons.mp hq with rfl | hq
    · exact hle
    · exact h.length_le q hq
  breaks := by
    intro front q next heq hne
    cases front with
    | nil =>
        obtain ⟨rfl, rfl⟩ := List.cons.inj heq
        rw [h.flatten_eq]
        refine hbreak fun hnil => ?_
        obtain ⟨r, next, rfl⟩ := List.exists_cons_of_ne_nil hne
        have hr := h.length_pos r List.mem_cons_self
        have hflat := h.flatten_eq
        rw [hnil, List.flatten_cons, List.append_eq_nil_iff] at hflat
        rw [hflat.1] at hr
        exact absurd hr (by decide)
    | cons a front => exact h.breaks front q next (List.cons.inj heq).2 hne

theorem wrapped_nil (width : ℕ) : Wrapped width [] [] where
  flatten_eq := rfl
  length_pos p hp := (List.not_mem_nil hp).elim
  length_le p hp := (List.not_mem_nil hp).elim
  breaks front p next heq := by simp at heq

/-- **A long line** is drawn in pieces, from any index on. -/
theorem wrapLoop_spec {LINE_SIZE NUM_OF_LINES line lineSize : ℕ} {buf text : List UInt8}
    (hwidth : 1 ≤ LINE_SIZE) (hnum : 1 ≤ NUM_OF_LINES) (hs : stringAt buf line = text)
    (hsize : text.length = lineSize) (fuel : ℕ) (i lastSpace : ℕ) (lcd : Lcd) (hi : i ≤ lineSize)
    (hlast : lastSpace ≤ line + i) (hfuel : lineSize - i < fuel) :
    ∃ lastSpace' lcd' pieces,
      wrapLoop LINE_SIZE NUM_OF_LINES buf line lineSize fuel i lastSpace lcd =
        some (lastSpace', lcd') ∧
      lastSpace' ≤ line + lineSize ∧ Wrapped LINE_SIZE (text.drop i) pieces ∧
      Draws NUM_OF_LINES lcd pieces lcd' := by
  induction fuel generalizing i lastSpace lcd with
  | zero => exact absurd hfuel (Nat.not_lt_zero _)
  | succ fuel ih =>
      by_cases hlt : i < lineSize
      · have hrest : stringAt buf (line + i) = text.drop i := by
          rw [stringAt_add (by rw [hs, hsize]; exact hi), hs]
        have hlen : (text.drop i).length = lineSize - i := by rw [List.length_drop, hsize]
        have hne : text.drop i ≠ [] := List.length_pos_iff.mp (by omega)
        obtain ⟨n, hn, hnext, hpos, hle, hfits, hbreak⟩ :=
          pieceLength_spec hwidth hrest hne hlen hlast
        obtain ⟨lastSpace', lcd', pieces, hloop, hlast', hwrapped, hdraws⟩ :=
          ih (i + n) (findSpace LINE_SIZE buf line lineSize i lastSpace)
            (lcdPuts ((text.drop i).take n) (cleanIfFull NUM_OF_LINES lcd)) (by omega)
            (by omega) (by omega)
        refine ⟨lastSpace', lcd', (text.drop i).take n :: pieces, ?_, hlast', ?_, ?_⟩
        · rw [wrapLoop, if_pos hlt]
          show wrapLoop LINE_SIZE NUM_OF_LINES buf line lineSize fuel
            (i + pieceLength LINE_SIZE line i (findSpace LINE_SIZE buf line lineSize i lastSpace))
            _ (lcdPuts (cstr (strncpy _ _ (pieceLength LINE_SIZE line i
              (findSpace LINE_SIZE buf line lineSize i lastSpace)))) _) = _
          rw [hn, cstr_strncpy hrest hle]
          exact hloop
        · have hsplit : (text.drop i).take n ++ text.drop (i + n) = text.drop i := by
            rw [← List.drop_drop, List.take_append_drop]
          have htake : ((text.drop i).take n).length = n := List.length_take_of_le hfits
          have hcons := hwrapped.cons (by rw [htake]; exact hpos) (by rw [htake]; exact hle)
            fun hmore => by
              rw [hsplit]
              refine hbreak ?_
              have hmoreLen := List.length_pos_iff.mpr hmore
              rw [List.length_drop] at hmoreLen
              omega
          rwa [hsplit] at hcons
        · exact (draws_lcdPuts hnum lcd _).trans hdraws
      · refine ⟨lastSpace, lcd, [], ?_, by omega, ?_, Draws.refl lcd⟩
        · rw [wrapLoop, if_neg hlt]
        · rw [List.drop_of_length_le (by omega)]
          exact wrapped_nil LINE_SIZE

/-! ## The lines of a text -/

theorem linesOf_front (s : List UInt8) : linesOf (front (ascii "\n") s) = linesOf s := by
  induction s with
  | nil => rfl
  | cons b s ih =>
      by_cases hb : b = 10
      · subst hb
        have hsplit : linesOf (10 :: s) = linesOf s := by
          have hcons := List.splitOn_append_cons_self (a := (10 : UInt8)) [] s
          rw [List.nil_append] at hcons
          rw [linesOf, hcons]
          rfl
        rw [hsplit, ← ih]
        rfl
      · have hfront : front (ascii "\n") (b :: s) = b :: s := by
          rw [front, List.dropWhile_cons_of_neg]
          simpa [ascii] using hb
        rw [hfront]

/-- **The lines one by one**, as `strtok` finds them. -/
theorem linesOf_eq (s : List UInt8) : linesOf s =
    if token (ascii "\n") s = [] then []
    else token (ascii "\n") s :: linesOf (behind (ascii "\n") s).tail := by
  rw [← linesOf_front]
  split
  · rename_i htoken
    rw [token_eq_nil_iff.mp htoken]
    rfl
  · rename_i htoken
    have hnone : 10 ∉ token (ascii "\n") s := by
      intro hmem
      have hnot := List.mem_takeWhile_imp hmem
      exact absurd hnot (by decide)
    rw [← token_append_behind]
    cases hbehind : behind (ascii "\n") s with
    | nil =>
        rw [List.append_nil, linesOf, List.splitOn_eq_singleton hnone,
          List.filter_cons_of_pos (by simpa using htoken)]
        rfl
    | cons d rest =>
        have hd : d = 10 := by
          have hnot := List.head?_dropWhile_not (fun b => !(ascii "\n").contains b)
            (front (ascii "\n") s)
          rw [show (front (ascii "\n") s).dropWhile (fun b => !(ascii "\n").contains b) =
            d :: rest from hbehind] at hnot
          simpa [ascii] using hnot
        subst hd
        rw [linesOf, List.splitOn_append_cons_self_of_not_mem hnone,
          List.filter_cons_of_pos (by simpa using htoken)]
        rfl

/-! ## `lcd_printf` -/

/-- **A line** is drawn, in one piece or more. -/
theorem drawLine_spec {LINE_SIZE NUM_OF_LINES line fuel lastSpace : ℕ} {buf text : List UInt8}
    (hwidth : 1 ≤ LINE_SIZE) (hnum : 1 ≤ NUM_OF_LINES) (hs : stringAt buf line = text)
    (hne : text ≠ []) (hlast : lastSpace ≤ line) (hfuel : text.length < fuel) (lcd : Lcd) :
    ∃ lastSpace' lcd' pieces,
      (if strlenAt buf line > LINE_SIZE then
          wrapLoop LINE_SIZE NUM_OF_LINES buf line (strlenAt buf line) fuel 0 lastSpace
            (cleanIfFull NUM_OF_LINES lcd)
        else some (lastSpace, lcdPuts (cstr (buf.drop line)) (cleanIfFull NUM_OF_LINES lcd))) =
          some (lastSpace', lcd') ∧
        lastSpace' ≤ line + text.length ∧ Wrapped LINE_SIZE text pieces ∧
        Draws NUM_OF_LINES lcd pieces lcd' := by
  have hsize : strlenAt buf line = text.length := by rw [← hs]; rfl
  rw [hsize]
  by_cases hlong : text.length > LINE_SIZE
  · obtain ⟨lastSpace', lcd', pieces, hloop, hlast', hwrapped, hdraws⟩ :=
      wrapLoop_spec hwidth hnum hs rfl fuel 0 lastSpace (cleanIfFull NUM_OF_LINES lcd)
        (Nat.zero_le _) hlast hfuel
    rw [if_pos hlong]
    exact ⟨lastSpace', lcd', pieces, hloop, hlast', hwrapped, hdraws.ofClean hnum⟩
  · have hone := (wrapped_nil LINE_SIZE).cons (List.length_pos_iff.mpr hne) (Nat.not_lt.mp hlong)
      fun h => absurd rfl h
    rw [List.append_nil] at hone
    rw [if_neg hlong, show cstr (buf.drop line) = text from hs]
    exact ⟨lastSpace, _, [text], rfl, hlast.trans (Nat.le_add_right _ _), hone,
      draws_lcdPuts hnum lcd text⟩

/-- **All lines** are drawn, from the one that `strtok` finds next. -/
theorem linesLoop_spec {LINE_SIZE NUM_OF_LINES : ℕ} (hwidth : 1 ≤ LINE_SIZE)
    (hnum : 1 ≤ NUM_OF_LINES) (fuel : ℕ) {t : Tokens} {stop : ℕ} {rest : List UInt8}
    (h : t.Left stop rest) (lastSpace : ℕ)
    (hlast : lastSpace + (front (ascii "\n") rest).length ≤ stop) (hfuel : rest.length + 2 ≤ fuel)
    (lcd : Lcd) :
    ∃ lcd' pieces,
      linesLoop LINE_SIZE NUM_OF_LINES fuel (strtok none (ascii "\n") t).1
          (strtok none (ascii "\n") t).2 lastSpace lcd = some lcd' ∧
        List.Forall₂ (Wrapped LINE_SIZE) (linesOf rest) pieces ∧
        Draws NUM_OF_LINES lcd pieces.flatten lcd' := by
  have hnewline : 0 ∉ ascii "\n" := by decide
  induction fuel generalizing t rest lastSpace lcd with
  | zero => exact absurd hfuel (by omega)
  | succ fuel ih =>
      rw [linesOf_eq]
      by_cases htoken : token (ascii "\n") rest = []
      · rw [strtok_none hnewline h htoken, if_pos htoken]
        exact ⟨lcd, [], rfl, List.Forall₂.nil, Draws.refl lcd⟩
      obtain ⟨t', hstrtok, -, hleft, hstring⟩ := strtok_some hnewline h htoken
      have hstop := h.length_le
      have hfront := length_front_le (ascii "\n") rest
      have hlen := length_front (ascii "\n") rest
      have hpos := List.length_pos_iff.mpr htoken
      have hend := h.token_end (ascii "\n")
      have htail : (behind (ascii "\n") rest).tail.length ≤ (behind (ascii "\n") rest).length := by
        rw [List.length_tail]
        exact Nat.sub_le _ _
      have hline : lastSpace ≤ stop - (front (ascii "\n") rest).length := by omega
      have hround : (token (ascii "\n") rest).length < fuel := by omega
      obtain ⟨lastSpace', lcd₁, pieces, hdrawn, hlast', hwrapped, hdraws⟩ :=
        drawLine_spec hwidth hnum hstring htoken hline hround lcd
      have hnextFront := length_front_le (ascii "\n") (behind (ascii "\n") rest).tail
      obtain ⟨lcd', rows, hloop, hall, hdraws'⟩ := ih hleft lastSpace' (by omega) (by omega) lcd₁
      refine ⟨lcd', pieces :: rows, ?_, ?_, ?_⟩
      · rw [hstrtok, linesLoop]
        simp only [hdrawn, Option.bind_some]
        exact hloop
      · rw [if_neg htoken]
        exact List.Forall₂.cons hwrapped hall
      · rw [List.flatten_cons]
        exact hdraws.trans hdraws'

/-- A buffer with a NUL is a string with a NUL behind it. -/
theorem cstr_and_tail {mem : List UInt8} (h : 0 ∈ mem) : ∃ tail, mem = cstr mem ++ 0 :: tail := by
  obtain ⟨front, tail, rfl, hfront⟩ := List.eq_append_cons_of_mem h
  exact ⟨tail, by rw [cstr_append_zero, cstr_eq_self hfront]⟩

/-- The buffer behind `remove_char`. -/
theorem removeChar_received {text : List UInt8} (hlen : text.length < 1024) :
    ∃ tail, (removeChar (received 1024 text) 13).1 =
      (cstr text).filter (· ≠ 13) ++ 0 :: tail := by
  have hzero : 0 ∈ received 1024 text := by
    rw [received, List.mem_append, List.mem_replicate]
    exact Or.inr ⟨by omega, rfl⟩
  obtain ⟨tail, hbuf⟩ := cstr_and_tail hzero
  have hcstr : cstr (received 1024 text) = cstr text := by
    obtain ⟨k, hk⟩ : ∃ k, 1024 - text.length = k + 1 := ⟨1023 - text.length, by omega⟩
    rw [received, hk]
    exact cstr_append_zero text _
  rw [hcstr] at hbuf
  obtain ⟨tail', hremove⟩ := removeChar_eq (by decide : (13 : UInt8) ≠ 0) (not_mem_cstr text) tail
  rw [← hbuf] at hremove
  exact ⟨tail', by rw [hremove]⟩

/-- Showing the display draws nothing. -/
theorem Draws.updateDisplay {NUM_OF_LINES : ℕ} {lcd lcd' : Lcd} {ps : List (List UInt8)}
    (h : Draws NUM_OF_LINES lcd ps lcd') :
    Draws NUM_OF_LINES lcd ps { lcd' with calls := lcd'.calls ++ [.updateDisplay] } := by
  obtain ⟨rows, hrows, hrest⟩ := h
  refine ⟨rows, ?_, hrest⟩
  rw [← hrows]
  simp [Lcd.rows]

/-- **Nothing is lost in the wrapping.** For every width, number of rows, formatted
text and state of the display, `lcd_printf` returns; for each line that is not empty
it has drawn pieces that are together the line, each of them fits a row and ends
behind the last space it could, and every row is on the display. -/
theorem lcdPrintf_wraps (LINE_SIZE NUM_OF_LINES fuel : ℕ) (text : List UInt8) (lcd : Lcd)
    (hwidth : 1 ≤ LINE_SIZE) (hnum : 1 ≤ NUM_OF_LINES) (hlen : text.length < 1024)
    (hfuel : 1025 ≤ fuel) :
    ∃ lcd' pieces, lcdPrintf LINE_SIZE NUM_OF_LINES fuel text lcd = some lcd' ∧
      List.Forall₂ (Wrapped LINE_SIZE) (linesOf ((cstr text).filter (· ≠ 13))) pieces ∧
      Draws NUM_OF_LINES lcd pieces.flatten lcd' := by
  by_cases hempty : text.length = 0
  · obtain rfl := List.eq_nil_of_length_eq_zero hempty
    exact ⟨lcd, [], rfl, List.Forall₂.nil, Draws.refl lcd⟩
  obtain ⟨tail, hremove⟩ := removeChar_received hlen
  set s := (cstr text).filter (· ≠ 13) with hs
  have hplain : 0 ∉ s := fun hmem => not_mem_cstr text (List.mem_of_mem_filter hmem)
  have hstring : stringAt (s ++ 0 :: tail) 0 = s := by
    rw [stringAt, List.drop_zero, cstr_append_zero, cstr_eq_self hplain]
  have hslen : s.length ≤ 1023 := by
    have hfilter := List.length_filter_le (· ≠ 13) (cstr text)
    have hprefix := (cstr_isPrefix text).length_le
    rw [hs]
    omega
  have hleft := left_at (s ++ 0 :: tail) 0
  rw [hstring, Nat.zero_add] at hleft
  have hnewline : 0 ∉ ascii "\n" := by decide
  obtain ⟨t, hstrtok, -⟩ := strtok_next hnewline hleft
  have hfront := length_front_le (ascii "\n") s
  have hlast : (strtok none (ascii "\n") ⟨s ++ 0 :: tail, some 0⟩).1.getD 0 +
      (front (ascii "\n") s).length ≤ s.length := by
    rw [hstrtok]
    split
    · rename_i htoken
      rw [token_eq_nil_iff.mp htoken]
      exact Nat.zero_le _
    · show s.length - (front (ascii "\n") s).length + _ ≤ _
      omega
  obtain ⟨lcd', pieces, hloop, hall, hdraws⟩ :=
    linesLoop_spec hwidth hnum fuel hleft _ hlast (by omega) lcd
  refine ⟨{ lcd' with calls := lcd'.calls ++ [.updateDisplay] }, pieces, ?_, hall,
    hdraws.updateDisplay⟩
  rw [lcdPrintf, if_neg hempty, List.take_of_length_le (by omega), hremove]
  exact congrArg (Option.map _) hloop

/-! A display of two rows with six bytes each. -/

def shortText : List UInt8 := ascii "open the\r\n\nlockedout a b\n"

theorem shortText_wraps : ∃ lcd' pieces, lcdPrintf 6 2 1025 shortText ⟨9, []⟩ = some lcd' ∧
    List.Forall₂ (Wrapped 6) [ascii "open the", ascii "lockedout a b"] pieces ∧
    Draws 2 ⟨9, []⟩ pieces.flatten lcd' := by
  have hlines : linesOf ((cstr shortText).filter (· ≠ 13)) =
      [ascii "open the", ascii "lockedout a b"] := by decide +kernel
  have hwraps := lcdPrintf_wraps 6 2 1025 shortText ⟨9, []⟩ (by decide) (by decide) (by decide)
    le_rfl
  rwa [hlines] at hwraps

example : (lcdPrintf 6 2 1025 shortText ⟨9, []⟩).map Lcd.rows =
    some [(0, ascii "open "), (1, ascii "the"), (0, ascii "locked"), (1, ascii "out a "),
      (0, ascii "b")] := by
  decide +kernel

end SmartDoorLock
