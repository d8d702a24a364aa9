import SmartDoorLock.Lib.CToken

/-!
# Removing a character in place

`remove_char` copies a string over itself. `i` is where the next byte is written
and `j` where it is read; a run of the removed byte moves `j` and takes its length
off `size`, so what is left to read is always as long as what is left to write.

`removeChar` is the function on a list, with an inner loop that ends where the list
does. `removeCharLoops` is the function on memory, with every access noted: the same,
because the NUL stops both loops in time.
-/

namespace SmartDoorLock

open CText

/-- The loop of `remove_char`, with at most `rounds` passes to go. -/
def removeLoop (rm : UInt8) : ℕ → List UInt8 → ℕ → ℕ → ℤ → List UInt8 × ℤ
  | 0, string, _, _, size => (string, size)
  | rounds + 1, string, i, j, size =>
      if i < size then
        -- the inner loop
        let run := ((string.drop j).takeWhile (· = rm)).length
        let j := j + run
        let size := size - run
        removeLoop rm rounds (string.set i (byteAt string j)) (i + 1) (j + 1) size
      else (string, size)

/-- `remove_char`: the buffer after it, and the length that is returned. `size` never
grows, so there are at most as many passes as bytes. -/
def removeChar (string : List UInt8) (rm : UInt8) : List UInt8 × ℤ :=
  let size := strlenAt string 0
  let r := removeLoop rm size string 0 0 size
  (r.1.set r.2.toNat 0, r.2)

theorem removeLoop_done {rm : UInt8} {i : ℕ} {size : ℤ} (h : ¬ (i : ℤ) < size) (rounds : ℕ)
    (string : List UInt8) (j : ℕ) : removeLoop rm rounds string i j size = (string, size) := by
  cases rounds with
  | zero => rfl
  | succ rounds => rw [removeLoop, if_neg h]

section

variable {rm : UInt8} {kept gap run rest tail : List UInt8}

/-- A text is a run of the removed byte and a rest that does not begin with it. -/
theorem run_and_rest (rm : UInt8) (s : List UInt8) :
    ∃ run rest, s = run ++ rest ∧ (∀ b ∈ run, b = rm) ∧ rest.head? ≠ some rm := by
  refine ⟨s.takeWhile (· = rm), s.dropWhile (· = rm), List.takeWhile_append_dropWhile.symm, ?_, ?_⟩
  · intro b hb
    simpa using List.mem_takeWhile_imp hb
  · intro hhead
    have hnot := List.head?_dropWhile_not (fun b => decide (b = rm)) s
    rw [hhead] at hnot
    simp at hnot

/-- The inner loop goes over the run, and no further. -/
theorem takeWhile_run_eq (hrm : rm ≠ 0) (hrun : ∀ b ∈ run, b = rm) (hrest : rest.head? ≠ some rm) :
    (run ++ (rest ++ 0 :: tail)).takeWhile (· = rm) = run := by
  rw [List.takeWhile_append_of_pos (by simpa using hrun)]
  cases rest with
  | nil => simp [hrm.symm]
  | cons b rest =>
      have hb : b ≠ rm := fun hb => hrest (by rw [hb]; rfl)
      simp [hb]

/-- **A pass** over a run of the removed byte. -/
theorem removeLoop_pass (hrm : rm ≠ 0) (hrun : ∀ b ∈ run, b = rm)
    (hrest : rest.head? ≠ some rm) (hne : run ++ rest ≠ []) (rounds : ℕ) :
    removeLoop rm (rounds + 1) (kept ++ (gap ++ (run ++ (rest ++ 0 :: tail)))) kept.length
        (kept.length + gap.length) ((kept.length + (run ++ rest).length : ℕ) : ℤ) =
      removeLoop rm rounds
        (kept ++ (gap ++ (run ++ (rest ++ 0 :: tail))).set 0 (byteAt (rest ++ 0 :: tail) 0))
        (kept.length + 1) (kept.length + gap.length + run.length + 1)
        ((kept.length + rest.length : ℕ) : ℤ) := by
  have hpos := List.length_pos_iff.mpr hne
  have hlt : ((kept.length : ℕ) : ℤ) < ((kept.length + (run ++ rest).length : ℕ) : ℤ) := by
    omega
  have hdrop : (kept ++ (gap ++ (run ++ (rest ++ 0 :: tail)))).drop (kept.length + gap.length) =
      run ++ (rest ++ 0 :: tail) := by
    rw [← List.drop_drop, List.drop_left, List.drop_left]
  have hbyte : byteAt (kept ++ (gap ++ (run ++ (rest ++ 0 :: tail))))
      (kept.length + gap.length + run.length) = byteAt (rest ++ 0 :: tail) 0 := by
    have hstart := byteAt_append_right run (rest ++ 0 :: tail) 0
    rwa [← hdrop, byteAt_drop, Nat.add_zero] at hstart
  have hset : (kept ++ (gap ++ (run ++ (rest ++ 0 :: tail)))).set kept.length
      (byteAt (rest ++ 0 :: tail) 0) =
        kept ++ (gap ++ (run ++ (rest ++ 0 :: tail))).set 0 (byteAt (rest ++ 0 :: tail) 0) := by
    rw [List.set_append_right _ _ le_rfl, Nat.sub_self]
  have hsize : ((kept.length + (run ++ rest).length : ℕ) : ℤ) - (run.length : ℕ) =
      ((kept.length + rest.length : ℕ) : ℤ) := by
    rw [List.length_append]
    omega
  rw [removeLoop, if_pos hlt]
  simp only [hdrop, takeWhile_run_eq hrm hrun hrest, hbyte, hset, hsize]

/-- A byte is written in front of what lies between the two indices. -/
theorem set_zero_gap (gap run rest : List UInt8) (b : UInt8) :
    (gap ++ (run ++ b :: rest)).set 0 b = b :: ((gap ++ (run ++ [b])).tail ++ rest) := by
  cases gap with
  | nil => cases run <;> simp
  | cons g gap => simp

/-- **The loop**, with `kept` in front, `gap` between the two indices and `rest` still
to read. -/
theorem removeLoop_eq (hrm : rm ≠ 0) (rounds : ℕ) (kept gap rest tail : List UInt8)
    (hle : rest.length ≤ rounds) :
    ∃ after, after ≠ [] ∧
      removeLoop rm rounds (kept ++ (gap ++ (rest ++ 0 :: tail))) kept.length
          (kept.length + gap.length) ((kept.length + rest.length : ℕ) : ℤ) =
        (kept ++ (rest.filter (· ≠ rm) ++ after),
          ((kept.length + (rest.filter (· ≠ rm)).length : ℕ) : ℤ)) := by
  induction rounds generalizing kept gap rest with
  | zero =>
      obtain rfl := List.eq_nil_of_length_eq_zero (Nat.le_zero.mp hle)
      exact ⟨gap ++ 0 :: tail, by simp, rfl⟩
  | succ rounds ih =>
      by_cases hne : rest = []
      · subst hne
        exact ⟨gap ++ 0 :: tail, by simp, removeLoop_done (by simp) _ _ _⟩
      obtain ⟨run, rest', rfl, hrun, hrest⟩ := run_and_rest rm rest
      have hfilter : (run ++ rest').filter (· ≠ rm) = rest'.filter (· ≠ rm) := by
        rw [List.filter_append, List.filter_eq_nil_iff.mpr (by simpa using hrun), List.nil_append]
      rw [List.append_assoc, removeLoop_pass hrm hrun hrest hne, hfilter]
      cases rest' with
      | nil =>
          have hend : ¬ ((kept.length + 1 : ℕ) : ℤ) < ((kept.length + 0 : ℕ) : ℤ) := by omega
          refine ⟨(gap ++ (run ++ 0 :: tail)).set 0 0, ?_, removeLoop_done hend _ _ _⟩
          intro hnil
          have hlen := congrArg List.length hnil
          simp at hlen
      | cons b rest' =>
          have hb : b ≠ rm := fun hb => hrest (by rw [hb]; rfl)
          have hwrite : (gap ++ (run ++ (b :: rest' ++ 0 :: tail))).set 0 b = _ :=
            set_zero_gap gap run (rest' ++ 0 :: tail) b
          have hgap : (gap ++ (run ++ [b])).tail.length = gap.length + run.length := by
            simp
          have hle' : rest'.length ≤ rounds := by
            rw [List.length_append, List.length_cons] at hle
            omega
          obtain ⟨after, hafter, hloop⟩ := ih (kept ++ [b]) (gap ++ (run ++ [b])).tail rest' hle'
          have hj : kept.length + gap.length + run.length + 1 =
              (kept ++ [b]).length + (gap ++ (run ++ [b])).tail.length := by
            rw [List.length_append, List.length_singleton, hgap]
            omega
          have hsize : kept.length + (b :: rest').length = (kept ++ [b]).length + rest'.length := by
            rw [List.length_append, List.length_singleton, List.length_cons]
            omega
          have hkept : kept.length + 1 = (kept ++ [b]).length := by
            rw [List.length_append, List.length_singleton]
          have hbyte : byteAt (b :: rest' ++ 0 :: tail) 0 = b := rfl
          refine ⟨after, hafter, ?_⟩
          rw [hbyte, hwrite, hj, hsize, hkept, List.append_cons, hloop,
            List.filter_cons_of_pos (by simpa using hb)]
          simp
          omega

/-- **`remove_char` on a text** leaves the other bytes in their order, ends them with
a NUL and returns their number. -/
theorem removeChar_eq (hrm : rm ≠ 0) {s : List UInt8} (hs : 0 ∉ s) (tail : List UInt8) :
    ∃ tail', removeChar (s ++ 0 :: tail) rm =
      (s.filter (· ≠ rm) ++ 0 :: tail', ((s.filter (· ≠ rm)).length : ℤ)) := by
  have hsize : strlenAt (s ++ 0 :: tail) 0 = s.length := by
    rw [strlenAt, List.drop_zero, cstr_append_zero, cstr_eq_self hs]
  obtain ⟨after, hafter, hloop⟩ := removeLoop_eq hrm s.length [] [] s tail le_rfl
  obtain ⟨b, tail', rfl⟩ := List.exists_cons_of_ne_nil hafter
  refine ⟨tail', ?_⟩
  simp only [List.nil_append, List.length_nil, Nat.zero_add] at hloop
  simp only [removeChar, hsize, hloop, Int.toNat_natCast]
  rw [List.set_append_right _ _ le_rfl, Nat.sub_self, List.set_cons_zero]

example : removeChar (ascii "\ra\r\rb\r" ++ [0]) 13 =
    (ascii "ab" ++ 0 :: ascii "\rb\r" ++ [0], 2) := by
  decide +kernel

/-! ## The loops, access by access -/

/-- Memory from `string` on, and the indices that were read and written. -/
structure Traced where
  mem : ℕ → UInt8
  reads : List ℕ := []
  writes : List ℕ := []

def Traced.read (m : Traced) (i : ℕ) : Traced := { m with reads := m.reads ++ [i] }

def Traced.write (m : Traced) (i : ℕ) (b : UInt8) : Traced :=
  { m with mem := Function.update m.mem i b, writes := m.writes ++ [i] }

/-- `strlen`, from index `i` on. -/
def strlenLoop : ℕ → Traced → ℕ → Option (Traced × ℕ)
  | 0, _, _ => none
  | fuel + 1, m, i =>
      if m.mem i = 0 then some (m.read i, i) else strlenLoop fuel (m.read i) (i + 1)

/-- `while (string[j] == rm)`: memory, `j` and `size` after it. -/
def skipRm (rm : UInt8) : ℕ → Traced → ℕ → ℤ → Option (Traced × ℕ × ℤ)
  | 0, _, _, _ => none
  | fuel + 1, m, j, size =>
      if m.mem j = rm then skipRm rm fuel (m.read j) (j + 1) (size - 1)
      else some (m.read j, j, size)

/-- The loop over `i` and `j`: memory and `size` after it. -/
def moveLoop (rm : UInt8) : ℕ → Traced → ℕ → ℕ → ℤ → Option (Traced × ℤ)
  | 0, _, _, _, _ => none
  | fuel + 1, m, i, j, size =>
      if i < size then
        (skipRm rm (fuel + 1) m j size).bind fun (m, j, size) =>
          moveLoop rm fuel ((m.read j).write i (m.mem j)) (i + 1) (j + 1) size
      else some (m, size)

/-- `remove_char` on memory: memory after it, and what is returned. -/
def removeCharLoops (rm : UInt8) (fuel : ℕ) (mem : ℕ → UInt8) : Option (Traced × ℤ) :=
  (strlenLoop fuel { mem := mem } 0).bind fun (m, size) =>
    (moveLoop rm fuel m 0 0 size).map fun (m, size) => (m.write size.toNat 0, size)

/-- Every access is at one of the first `n` indices. -/
structure Traced.Within (m : Traced) (n : ℕ) : Prop where
  reads : ∀ i ∈ m.reads, i < n
  writes : ∀ i ∈ m.writes, i < n

theorem Traced.Within.read {m : Traced} {n i : ℕ} (h : m.Within n) (hi : i < n) :
    (m.read i).Within n where
  reads := by
    intro k hk
    rcases List.mem_append.mp hk with hk | hk
    · exact h.reads k hk
    · rw [List.mem_singleton.mp hk]
      exact hi
  writes := h.writes

theorem Traced.Within.write {m : Traced} {n i : ℕ} (h : m.Within n) (hi : i < n) (b : UInt8) :
    (m.write i b).Within n where
  reads := h.reads
  writes := by
    intro k hk
    rcases List.mem_append.mp hk with hk | hk
    · exact h.writes k hk
    · rw [List.mem_singleton.mp hk]
      exact hi

/-- Memory with a buffer in front of what lies behind it. -/
def inFront (string : List UInt8) (beyond : ℕ → UInt8) (i : ℕ) : UInt8 :=
  if i < string.length then byteAt string i else beyond i

theorem inFront_of_lt {string : List UInt8} {i : ℕ} (h : i < string.length) (beyond : ℕ → UInt8) :
    inFront string beyond i = byteAt string i := if_pos h

/-- A store inside the buffer. -/
theorem update_inFront {string : List UInt8} {i : ℕ} (h : i < string.length) (beyond : ℕ → UInt8)
    (b : UInt8) :
    Function.update (inFront string beyond) i b = inFront (string.set i b) beyond := by
  funext k
  rw [inFront, List.length_set]
  by_cases hk : k = i
  · subst hk
    rw [Function.update_self, if_pos h, byteAt_set_self h]
  · rw [Function.update_of_ne hk, byteAt_set_ne (Ne.symm hk), inFront]

/-- `strlen` stops at the first NUL. -/
theorem strlenLoop_eq {m : Traced} {n i last : ℕ} (fuel : ℕ) (hm : m.Within n) (hle : i ≤ last)
    (hlast : last < n) (hrun : ∀ d, i ≤ d → d < last → m.mem d ≠ 0) (hstop : m.mem last = 0)
    (hfuel : last < i + fuel) :
    ∃ m', strlenLoop fuel m i = some (m', last) ∧ m'.mem = m.mem ∧ m'.Within n := by
  induction fuel generalizing m i with
  | zero => exact absurd hfuel (Nat.not_lt.mpr hle)
  | succ fuel ih =>
      rcases hle.eq_or_lt with rfl | hlt
      · exact ⟨m.read i, if_pos hstop, rfl, hm.read hlast⟩
      · obtain ⟨m', hloop, hmem, hwithin⟩ := ih (hm.read (hlt.trans hlast)) hlt
          (fun d hd => hrun d (Nat.le_of_succ_le hd)) hstop (by omega)
        refine ⟨m', ?_, hmem, hwithin⟩
        rw [strlenLoop, if_neg (hrun i le_rfl hlt)]
        exact hloop

/-- The inner loop stops at the first byte that is kept. -/
theorem skipRm_eq {m : Traced} {n j last : ℕ} (fuel : ℕ) (size : ℤ) (hm : m.Within n)
    (hle : j ≤ last) (hlast : last < n) (hrun : ∀ d, j ≤ d → d < last → m.mem d = rm) (hstop : m.mem last ≠ rm)
    (hfuel : last < j + fuel) :
    ∃ m', skipRm rm fuel m j size = some (m', last, size - (last - j : ℕ)) ∧ m'.mem = m.mem ∧
      m'.Within n := by
  induction fuel generalizing m j size with
  | zero => exact absurd hfuel (Nat.not_lt.mpr hle)
  | succ fuel ih =>
      rcases hle.eq_or_lt with rfl | hlt
      · refine ⟨m.read j, ?_, rfl, hm.read hlast⟩
        rw [skipRm, if_neg hstop, Nat.sub_self]
        simp
      · obtain ⟨m', hloop, hmem, hwithin⟩ := ih (size - 1)
          (hm.read (hlt.trans hlast)) hlt (fun d hd => hrun d (Nat.le_of_succ_le hd)) hstop
          (by omega)
        refine ⟨m', ?_, hmem, hwithin⟩
        have hsize : size - 1 - (last - (j + 1) : ℕ) = size - (last - j : ℕ) := by omega
        rw [skipRm, if_pos (hrun j le_rfl hlt), hloop, hsize]

/-- Where the run of the removed byte ends: in front of the NUL, at the latest. -/
theorem run_bounds {string : List UInt8} {n j : ℕ} (hrm : rm ≠ 0) (hnul : byteAt string n = 0)
    (hj : j ≤ n) :
    j + ((string.drop j).takeWhile (· = rm)).length ≤ n ∧
      (∀ d, j ≤ d → d < j + ((string.drop j).takeWhile (· = rm)).length →
        byteAt string d = rm) ∧
      byteAt string (j + ((string.drop j).takeWhile (· = rm)).length) ≠ rm := by
  obtain ⟨hrun, hstop⟩ := takeWhile_run (q := (· = rm)) (by simpa using hrm.symm) (string.drop j)
  have hall : ∀ d, j ≤ d → d < j + ((string.drop j).takeWhile (· = rm)).length →
      byteAt string d = rm := by
    intro d hle hlt
    obtain ⟨k, rfl⟩ := Nat.exists_eq_add_of_le hle
    have hbyte := hrun k (Nat.lt_of_add_lt_add_left hlt)
    rw [byteAt_drop] at hbyte
    simpa using hbyte
  refine ⟨?_, hall, ?_⟩
  · by_contra hpast
    have hbyte := hall n hj (Nat.not_le.mp hpast)
    exact hrm (hbyte.symm.trans hnul)
  · rw [byteAt_drop] at hstop
    simpa using hstop

/-- **The loops are `removeLoop`**, and stay in front of index `n + 1`. In each pass
what is left to write is as long as what is left to read. -/
theorem moveLoop_eq (hrm : rm ≠ 0) (beyond : ℕ → UInt8) {n : ℕ} (rounds fuel : ℕ)
    (string : List UInt8) (i j : ℕ) (size : ℤ) (m : Traced) (hlen : n < string.length)
    (hnul : byteAt string n = 0) (hmem : m.mem = inFront string beyond) (hm : m.Within (n + 1))
    (hij : i ≤ j) (hj : j ≤ n + 1) (hsize : size = (i : ℤ) + n - j) (hrounds : n ≤ j + rounds)
    (hfuel : rounds < fuel) :
    ∃ m', moveLoop rm fuel m i j size = some (m', (removeLoop rm rounds string i j size).2) ∧
      m'.mem = inFront (removeLoop rm rounds string i j size).1 beyond ∧ m'.Within (n + 1) := by
  induction rounds generalizing fuel string i j size m with
  | zero =>
      obtain ⟨fuel, rfl⟩ := Nat.exists_eq_succ_of_ne_zero (Nat.ne_zero_of_lt hfuel)
      have hend : ¬ (i : ℤ) < size := by omega
      refine ⟨m, ?_, hmem, hm⟩
      rw [moveLoop, if_neg hend]
      rfl
  | succ rounds ih =>
      obtain ⟨fuel, rfl⟩ := Nat.exists_eq_succ_of_ne_zero (Nat.ne_zero_of_lt hfuel)
      by_cases hlt : (i : ℤ) < size
      · have hjn : j < n := by omega
        obtain ⟨hlast, hrun, hstop⟩ := run_bounds hrm hnul hjn.le
        rw [removeLoop, if_pos hlt, moveLoop, if_pos hlt]
        simp only
        generalize ((string.drop j).takeWhile (· = rm)).length = run at hlast hrun hstop ⊢
        have hread : ∀ d ≤ n, m.mem d = byteAt string d := by
          intro d hd
          rw [hmem, inFront_of_lt (hd.trans_lt hlen)]
        obtain ⟨m₁, hskip, hmem₁, hm₁⟩ := skipRm_eq (fuel + 1) size hm
          (Nat.le_add_right j run) (Nat.lt_succ_of_le hlast)
          (fun d hd hlt => (hread d (by omega)).trans (hrun d hd hlt))
          (fun hkept => hstop ((hread _ hlast).symm.trans hkept)) (by omega)
        rw [hskip, Nat.add_sub_cancel_left]
        have hbyte : m₁.mem (j + run) = byteAt string (j + run) := by
          rw [hmem₁]
          exact hread _ hlast
        simp only [Option.bind_some, hbyte]
        apply ih
        · rw [List.length_set]
          exact hlen
        · rw [byteAt_set_ne (by omega)]
          exact hnul
        · show Function.update m₁.mem i (byteAt string (j + run)) = _
          rw [hmem₁, hmem]
          exact update_inFront (by omega) beyond _
        · exact (hm₁.read (by omega)).write (by omega) _
        · omega
        · omega
        · omega
        · omega
        · omega
      · refine ⟨m, ?_, ?_, hm⟩
        · rw [moveLoop, if_neg hlt, removeLoop_done hlt]
        · rw [removeLoop_done hlt]
          exact hmem

theorem removeLoop_length (rounds : ℕ) (string : List UInt8) (i j : ℕ) (size : ℤ) :
    (removeLoop rm rounds string i j size).1.length = string.length := by
  induction rounds generalizing string i j size with
  | zero => rfl
  | succ rounds ih =>
      rw [removeLoop]
      split
      · rw [ih, List.length_set]
      · rfl

theorem removeChar_length (string : List UInt8) (rm : UInt8) :
    (removeChar string rm).1.length = string.length := by
  rw [removeChar, List.length_set, removeLoop_length]

/-- **On memory `remove_char` does the same**, whatever lies behind the buffer, and
stays within the text and its NUL. -/
theorem removeCharLoops_eq (hrm : rm ≠ 0) {s : List UInt8} (hs : 0 ∉ s) (tail : List UInt8)
    (beyond : ℕ → UInt8) {fuel : ℕ} (hfuel : s.length < fuel) :
    ∃ m, removeCharLoops rm fuel (inFront (s ++ 0 :: tail) beyond) =
        some (m, (removeChar (s ++ 0 :: tail) rm).2) ∧
      m.mem = inFront (removeChar (s ++ 0 :: tail) rm).1 beyond ∧ m.Within (s.length + 1) := by
  obtain ⟨tail', hremove⟩ := removeChar_eq hrm hs tail
  have hrc : (removeChar (s ++ 0 :: tail) rm).2 ≤ s.length := by
    have hle := List.length_filter_le (· ≠ rm) s
    rw [hremove]
    exact Int.ofNat_le.mpr hle
  have hsize : strlenAt (s ++ 0 :: tail) 0 = s.length := by
    rw [strlenAt, List.drop_zero, cstr_append_zero, cstr_eq_self hs]
  have hin : s.length < (s ++ 0 :: tail).length := by
    rw [List.length_append, List.length_cons]
    omega
  have hnul : byteAt (s ++ 0 :: tail) s.length = 0 := byteAt_append_right s (0 :: tail) 0
  have hplain : ∀ d, 0 ≤ d → d < s.length → inFront (s ++ 0 :: tail) beyond d ≠ 0 := by
    intro d _ hd hzero
    rw [inFront_of_lt (hd.trans hin), byteAt_append_left hd] at hzero
    exact hs (hzero ▸ byteAt_mem hd)
  obtain ⟨m, hstrlen, hmem, hm⟩ := strlenLoop_eq (m := { mem := inFront (s ++ 0 :: tail) beyond })
    (n := s.length + 1) fuel ⟨by simp, by simp⟩ (Nat.zero_le _) (Nat.lt_succ_self _) hplain
    ((inFront_of_lt hin beyond).trans hnul) (by omega)
  obtain ⟨m', hmove, hmem', hm'⟩ := moveLoop_eq hrm beyond s.length fuel (s ++ 0 :: tail) 0 0
    s.length m hin hnul hmem hm le_rfl (Nat.zero_le _) (by simp) (by simp) hfuel
  have hsome : removeCharLoops rm fuel (inFront (s ++ 0 :: tail) beyond) =
      some (m'.write (removeChar (s ++ 0 :: tail) rm).2.toNat 0,
        (removeChar (s ++ 0 :: tail) rm).2) := by
    rw [removeCharLoops, hstrlen, Option.bind_some]
    simp only [hmove, Option.map_some, removeChar, hsize]
  refine ⟨_, hsome, ?_, hm'.write (by omega) 0⟩
  show Function.update m'.mem _ 0 = _
  rw [hmem', update_inFront]
  · simp only [removeChar, hsize]
  · rw [removeLoop_length]
    omega

/-! ## The filter -/

/-- From index 0 on memory holds a string and its NUL. -/
structure HoldsString (mem : ℕ → UInt8) (s : List UInt8) : Prop where
  plain : 0 ∉ s
  bytes : ∀ i (h : i < s.length), mem i = s[i]
  nul : mem s.length = 0

theorem HoldsString.inFront_eq {mem : ℕ → UInt8} {s : List UInt8} (h : HoldsString mem s) :
    mem = inFront (s ++ [0]) mem := by
  funext i
  rw [inFront]
  rcases Nat.lt_trichotomy i s.length with hlt | rfl | hgt
  · rw [if_pos (by rw [List.length_append]; omega), byteAt_append_left hlt, byteAt_getElem hlt,
      h.bytes i hlt]
  · have hnul : byteAt (s ++ [0]) s.length = 0 := byteAt_append_right s [0] 0
    rw [if_pos (by simp), hnul, h.nul]
  · rw [if_neg (by rw [List.length_append, List.length_singleton]; omega)]

theorem holdsString_inFront {s : List UInt8} (hs : 0 ∉ s) (tail : List UInt8)
    (beyond : ℕ → UInt8) : HoldsString (inFront (s ++ 0 :: tail) beyond) s where
  plain := hs
  bytes := by
    intro i hi
    rw [inFront_of_lt (by rw [List.length_append]; omega), byteAt_append_left hi, byteAt_getElem hi]
  nul := by
    rw [inFront_of_lt (by simp)]
    exact byteAt_append_right s (0 :: tail) 0

end

/-- **`remove_char` filters in place.** For every string and every character but NUL
it returns, and what it returns is the number of the other characters, which memory
holds in their order, followed by a NUL. Nothing was read or written behind the NUL
of the string. -/
theorem removeChar_inPlace (rm : UInt8) (s : List UInt8) (mem : ℕ → UInt8) (fuel : ℕ)
    (hrm : rm ≠ 0) (hmem : HoldsString mem s) (hfuel : s.length < fuel) :
    ∃ m, removeCharLoops rm fuel mem = some (m, ((s.filter (· ≠ rm)).length : ℤ)) ∧
      HoldsString m.mem (s.filter (· ≠ rm)) ∧ m.Within (s.length + 1) ∧
      ∀ i, s.length < i → m.mem i = mem i := by
  obtain ⟨tail', hremove⟩ := removeChar_eq hrm hmem.plain []
  obtain ⟨m, hloops, hmem', hwithin⟩ := removeCharLoops_eq hrm hmem.plain [] mem hfuel
  have hlength := removeChar_length (s ++ [0]) rm
  rw [hremove] at hloops hmem' hlength
  rw [← hmem.inFront_eq] at hloops
  refine ⟨m, hloops, ?_, hwithin, ?_⟩
  · rw [hmem']
    exact holdsString_inFront (fun h => hmem.plain (List.mem_filter.mp h).1) tail' mem
  · intro i hi
    rw [hmem', inFront, hlength, if_neg]
    rw [List.length_append, List.length_singleton]
    omega

/-! A run at the front, one in the middle and one up to the NUL, with other bytes
behind it. -/

def runsOfCr : List UInt8 := ascii "\ra\r\rb\r"

theorem runsOfCr_removed : ∃ m,
    removeCharLoops 13 7 (inFront (runsOfCr ++ 0 :: ascii "\r\r") fun _ => 13) = some (m, 2) ∧
      HoldsString m.mem (ascii "ab") ∧ m.Within 7 := by
  have hfilter : runsOfCr.filter (· ≠ 13) = ascii "ab" := by decide +kernel
  obtain ⟨m, hloops, hstring, hwithin, -⟩ := removeChar_inPlace 13 runsOfCr _ 7 (by decide)
    (holdsString_inFront (by decide) (ascii "\r\r") fun _ => 13) (by decide)
  rw [hfilter] at hloops hstring
  exact ⟨m, hloops, hstring, hwithin⟩

end SmartDoorLock
