import Mathlib.Data.List.Basic

/-!
# Words between separators

`words sep` cuts a list at its separators and keeps what stands between them,
without the empty pieces. A word is a nonempty list without separators; words
written with separators between them are found again.
-/

namespace Words

variable {α : Type*} (sep : α → Bool)

/-- The word collected so far, unless it is empty. -/
def flush (cur : List α) : List (List α) :=
  match cur with
  | [] => []
  | _ :: _ => [cur]

def wordsFrom (cur : List α) : List α → List (List α)
  | [] => flush cur
  | x :: xs => if sep x then flush cur ++ wordsFrom [] xs else wordsFrom (cur ++ [x]) xs

def words (xs : List α) : List (List α) := wordsFrom sep [] xs

/-- A nonempty piece without separators. -/
structure IsWord (w : List α) : Prop where
  ne_nil : w ≠ []
  no_sep : ∀ x ∈ w, sep x = false

variable {sep}

theorem flush_of_ne_nil {w : List α} (h : w ≠ []) : flush w = [w] := by
  cases w with
  | nil => exact absurd rfl h
  | cons x xs => rfl

/-- Elements that do not separate are collected. -/
theorem wordsFrom_append {w : List α} (h : ∀ x ∈ w, sep x = false) (cur xs : List α) :
    wordsFrom sep cur (w ++ xs) = wordsFrom sep (cur ++ w) xs := by
  induction w generalizing cur with
  | nil => rw [List.nil_append, List.append_nil]
  | cons x w ih =>
      have hx : sep x = false := h x List.mem_cons_self
      have hw : ∀ y ∈ w, sep y = false := fun y hy => h y (List.mem_cons_of_mem x hy)
      rw [List.cons_append, wordsFrom, hx, if_neg Bool.false_ne_true, ih hw, List.append_assoc,
        List.singleton_append]

/-- A word alone. -/
theorem words_word {w : List α} (h : IsWord sep w) : words sep w = [w] := by
  have hcollect := wordsFrom_append h.no_sep [] []
  rw [List.append_nil, List.nil_append] at hcollect
  rw [words, hcollect, wordsFrom, flush_of_ne_nil h.ne_nil]

/-- A word, a separator, and what follows. -/
theorem words_cons {w : List α} (h : IsWord sep w) {x : α} (hx : sep x = true) (xs : List α) :
    words sep (w ++ x :: xs) = w :: words sep xs := by
  rw [words, wordsFrom_append h.no_sep, List.nil_append, wordsFrom, hx, if_pos rfl,
    flush_of_ne_nil h.ne_nil, List.singleton_append, words]

/-! ## Every piece is a word -/

theorem isWord_of_mem_wordsFrom {cur : List α} (hcur : ∀ x ∈ cur, sep x = false) {xs w : List α}
    (hw : w ∈ wordsFrom sep cur xs) : IsWord sep w := by
  have hflush : ∀ {c : List α}, (∀ x ∈ c, sep x = false) → ∀ v ∈ flush c, IsWord sep v := by
    intro c hc v hv
    cases c with
    | nil => cases hv
    | cons x c =>
        obtain rfl := List.mem_singleton.mp hv
        exact ⟨List.cons_ne_nil x c, hc⟩
  induction xs generalizing cur with
  | nil => exact hflush hcur w hw
  | cons x xs ih =>
      rw [wordsFrom] at hw
      split at hw
      · rcases List.mem_append.mp hw with hw | hw
        · exact hflush hcur w hw
        · exact ih (fun _ hy => absurd hy List.not_mem_nil) hw
      · rename_i hx
        refine ih (fun y hy => ?_) hw
        rcases List.mem_append.mp hy with hy | hy
        · exact hcur y hy
        · rw [List.mem_singleton.mp hy]
          exact Bool.eq_false_iff.mpr hx

theorem isWord_of_mem_words {xs w : List α} (hw : w ∈ words sep xs) : IsWord sep w :=
  isWord_of_mem_wordsFrom (fun _ hx => absurd hx List.not_mem_nil) hw

end Words
