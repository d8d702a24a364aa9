import Mathlib.Data.List.TakeWhile
import Mathlib.Data.Int.Basic
import Mathlib.Tactic.Push

/-!
# NUL-terminated byte strings

Memory is a list of bytes; a C string is what stands before the first NUL.
A list without a NUL stands for memory whose terminator lies at its end.
-/

namespace CText

/-- The bytes of a literal. -/
def ascii (s : String) : List UInt8 := s.toList.map fun c => UInt8.ofNat c.toNat

/-- The string that starts at the beginning of `mem`. -/
def cstr (mem : List UInt8) : List UInt8 := mem.takeWhile (· ≠ 0)

@[simp] theorem cstr_nil : cstr [] = [] := rfl

theorem cstr_cons_zero (mem : List UInt8) : cstr (0 :: mem) = [] := by simp [cstr]

theorem cstr_cons_of_ne {x : UInt8} (h : x ≠ 0) (mem : List UInt8) :
    cstr (x :: mem) = x :: cstr mem := by
  simp [cstr, h]

theorem cstr_append_zero (mem tail : List UInt8) : cstr (mem ++ 0 :: tail) = cstr mem := by
  induction mem with
  | nil => exact cstr_cons_zero tail
  | cons x xs ih =>
      by_cases h : x = 0
      · subst h
        rw [List.cons_append, cstr_cons_zero, cstr_cons_zero]
      · rw [List.cons_append, cstr_cons_of_ne h, cstr_cons_of_ne h, ih]

/-- `strcmp`: the difference of the first two bytes that differ, as unsigned
values, or `0` when both strings end together. -/
def strcmp : List UInt8 → List UInt8 → ℤ
  | [], [] => 0
  | [], y :: _ => -(y.toNat : ℤ)
  | x :: _, [] => x.toNat
  | x :: xs, y :: ys =>
      if x = y then (if x = 0 then 0 else strcmp xs ys) else (x.toNat : ℤ) - y.toNat

theorem toNat_eq_zero_iff (x : UInt8) : (x.toNat : ℤ) = 0 ↔ x = 0 := by
  rw [Int.natCast_eq_zero, ← UInt8.toNat_inj]
  rfl

/-- **`strcmp` decides equality of strings.** -/
theorem strcmp_eq_zero_iff : ∀ a b : List UInt8, strcmp a b = 0 ↔ cstr a = cstr b
  | [], [] => by simp [strcmp]
  | [], y :: ys => by
      rw [strcmp, Int.neg_eq_zero, toNat_eq_zero_iff]
      by_cases h : y = 0
      · subst h
        simp [cstr_cons_zero]
      · simp [h, cstr_cons_of_ne h]
  | x :: xs, [] => by
      rw [strcmp, toNat_eq_zero_iff]
      by_cases h : x = 0
      · subst h
        simp [cstr_cons_zero]
      · simp [h, cstr_cons_of_ne h]
  | x :: xs, y :: ys => by
      by_cases hxy : x = y
      · subst hxy
        by_cases h : x = 0
        · subst h
          simp [strcmp, cstr_cons_zero]
        · rw [strcmp, if_pos rfl, if_neg h, cstr_cons_of_ne h, cstr_cons_of_ne h,
            strcmp_eq_zero_iff xs ys]
          simp
      · have hne : (x.toNat : ℤ) - y.toNat ≠ 0 := by
          intro h
          apply hxy
          rw [← UInt8.toNat_inj]
          omega
        rw [strcmp, if_neg hxy]
        refine iff_of_false hne ?_
        -- one of the two bytes may be the terminator, not both
        by_cases hx : x = 0
        · have hy : y ≠ 0 := fun hy => hxy (hx.trans hy.symm)
          subst hx
          simp [cstr_cons_zero, cstr_cons_of_ne hy]
        · by_cases hy : y = 0
          · subst hy
            simp [cstr_cons_zero, cstr_cons_of_ne hx]
          · simp [cstr_cons_of_ne hx, cstr_cons_of_ne hy, hxy]

/-! ## Searching -/

/-- `strstr`: where the first occurrence of the string `needle` starts. -/
def strstr (hay needle : List UInt8) : Option ℕ :=
  (List.range ((cstr hay).length + 1)).find? fun i => needle.isPrefixOf ((cstr hay).drop i)

theorem cstr_isPrefix (mem : List UInt8) : cstr mem <+: mem := List.takeWhile_prefix _

/-- What is found lies inside the memory searched. -/
theorem strstr_bound {hay needle : List UInt8} {i : ℕ} (h : strstr hay needle = some i) :
    i + needle.length ≤ hay.length := by
  have hpre : needle <+: (cstr hay).drop i := by
    have hfound := List.find?_some h
    exact List.isPrefixOf_iff_prefix.mp hfound
  have hmem := List.mem_of_find?_eq_some h
  have hi : i ≤ (cstr hay).length := by
    have hlt := List.mem_range.mp hmem
    omega
  have hlen := hpre.length_le
  have hle := (cstr_isPrefix hay).length_le
  rw [List.length_drop] at hlen
  omega

/-- **A word is found** exactly when it stands in the text. -/
theorem strstr_isSome_iff (hay needle : List UInt8) :
    (strstr hay needle).isSome = true ↔ needle <:+: cstr hay := by
  rw [strstr, List.find?_isSome]
  constructor
  · rintro ⟨i, -, hi⟩
    exact (List.isPrefixOf_iff_prefix.mp hi).isInfix.trans (List.drop_suffix i _).isInfix
  · rintro ⟨l, r, hsplit⟩
    refine ⟨l.length, ?_, ?_⟩
    · rw [List.mem_range, ← hsplit, List.length_append, List.length_append]
      omega
    · rw [← hsplit, List.append_assoc, List.drop_left]
      exact List.isPrefixOf_iff_prefix.mpr (List.prefix_append needle r)

/-! ## ASCII and UTF-8 -/

/-- Strict UTF-8 decoding; `none` on malformed input. -/
def decode (bytes : List UInt8) : Option String := String.fromUTF8? bytes.toByteArray

/-- The text of ASCII bytes. -/
def asciiText (bytes : List UInt8) : String := String.ofList (bytes.map fun b => Char.ofNat b.toNat)

theorem asciiChar_toNat {b : UInt8} (h : b < 128) : (Char.ofNat b.toNat).toNat = b.toNat := by
  have hlt : b.toNat < 128 := h
  have hvalid : b.toNat.isValidChar := Or.inl (by omega)
  unfold Char.ofNat
  rw [dif_pos hvalid]
  rfl

theorem utf8EncodeChar_ascii {b : UInt8} (h : b < 128) :
    String.utf8EncodeChar (Char.ofNat b.toNat) = [b] := by
  have hlt : b.toNat < 128 := h
  have hval : (Char.ofNat b.toNat).val.toNat = b.toNat := asciiChar_toNat h
  unfold String.utf8EncodeChar
  rw [hval, if_pos (by omega), UInt8.ofNat_toNat]

theorem utf8Encode_ascii {bytes : List UInt8} (h : ∀ b ∈ bytes, b < 128) :
    bytes.flatMap (fun b => String.utf8EncodeChar (Char.ofNat b.toNat)) = bytes := by
  induction bytes with
  | nil => rfl
  | cons b bytes ih =>
      rw [List.flatMap_cons, utf8EncodeChar_ascii (h b List.mem_cons_self),
        ih fun x hx => h x (List.mem_cons_of_mem b hx), List.singleton_append]

/-- **ASCII bytes decode to themselves.** -/
theorem decode_ascii {bytes : List UInt8} (h : ∀ b ∈ bytes, b < 128) :
    decode bytes = some (asciiText bytes) := by
  have hbytes : (asciiText bytes).toByteArray = bytes.toByteArray := by
    show (List.flatMap _ (bytes.map _)).toByteArray = _
    rw [List.flatMap_map, utf8Encode_ascii h]
  have hvalid : bytes.toByteArray.IsValidUTF8 := hbytes ▸ (asciiText bytes).isValidUTF8
  unfold decode String.fromUTF8?
  rw [dif_pos hvalid]
  exact congrArg some (String.toByteArray_inj.mp hbytes.symm)

theorem mem_asciiText {bytes : List UInt8} {c : Char} (h : c ∈ (asciiText bytes).toList) :
    ∃ b ∈ bytes, c = Char.ofNat b.toNat := by
  rw [asciiText, String.toList_ofList] at h
  obtain ⟨b, hb, rfl⟩ := List.mem_map.mp h
  exact ⟨b, hb, rfl⟩

/-- The bytes of an ASCII text. -/
theorem ascii_asciiText {bytes : List UInt8} (h : ∀ b ∈ bytes, b < 128) :
    ascii (asciiText bytes) = bytes := by
  rw [ascii, asciiText, String.toList_ofList, List.map_map]
  refine (List.map_congr_left fun b hb => ?_).trans (List.map_id bytes)
  show UInt8.ofNat (Char.ofNat b.toNat).toNat = b
  rw [asciiChar_toNat (h b hb), UInt8.ofNat_toNat]

/-- `startswith`. -/
def startswith (s p : String) : Bool := p.toList.isPrefixOf s.toList

/-- A text that differs from `p` in the first character does not start with it. -/
theorem startswith_of_head_ne {s : String} {c d : Char} {p : List Char}
    (hs : s.toList.head? = some c) (hne : d ≠ c) : startswith s (String.ofList (d :: p)) = false := by
  unfold startswith
  rw [String.toList_ofList]
  cases hchars : s.toList with
  | nil => rw [hchars] at hs; simp at hs
  | cons x xs =>
      rw [hchars, List.head?_cons, Option.some.injEq] at hs
      rw [List.isPrefixOf_cons_cons, hs, beq_eq_false_iff_ne.mpr hne, Bool.false_and]

/-- What stands in front decides. -/
theorem startswith_append {p q : String} (h : startswith p q = true) (s : String) :
    startswith (p ++ s) q = true := by
  unfold startswith at h ⊢
  rw [List.isPrefixOf_iff_prefix] at h ⊢
  rw [String.toList_append]
  exact h.trans (List.prefix_append _ _)

theorem startswith_append_of_head {p q : String} {c d : Char} (hp : p.toList.head? = some c)
    (hq : q.toList.head? = some d) (hne : d ≠ c) (s : String) : startswith (p ++ s) q = false := by
  obtain ⟨qs, hqs⟩ := List.head?_eq_some_iff.mp hq
  have hhead : (p ++ s).toList.head? = some c := by
    obtain ⟨ps, hps⟩ := List.head?_eq_some_iff.mp hp
    rw [String.toList_append, hps, List.cons_append, List.head?_cons]
  have hofList : q = String.ofList (d :: qs) := by rw [← hqs, String.ofList_toList]
  rw [hofList]
  exact startswith_of_head_ne hhead hne

theorem ne_of_startswith {s t q : String} (hs : startswith s q = true)
    (ht : startswith t q = false) : s ≠ t := by
  rintro rfl
  rw [hs] at ht
  cases ht

/-! ## Hexadecimal output -/

/-- The upper-case digit of a value below 16. -/
def hexDigit (n : ℕ) : UInt8 := if n < 10 then UInt8.ofNat (48 + n) else UInt8.ofNat (55 + n)

/-- `%02X` of a byte. -/
def hex2 (b : UInt8) : List UInt8 := [hexDigit (b.toNat / 16), hexDigit (b.toNat % 16)]

end CText
