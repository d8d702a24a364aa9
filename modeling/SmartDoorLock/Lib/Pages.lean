import Mathlib.Data.List.Induction
import Mathlib.Data.Nat.Basic

/-!
# Pages

Items are shown one after the other on a page of fixed size. A page that is full
is turned: the next item is the first one of an empty page.
-/

namespace Pages

variable {α : Type*}

/-- The page with one item more. -/
def turn (size : ℕ) (page : List α) (item : α) : List α :=
  if size ≤ page.length then [item] else page ++ [item]

/-- What is left of the items when all pages in front of the last one are taken
away. -/
def lastPage (size : ℕ) (items : List α) : List α :=
  items.drop (size * ((items.length - 1) / size))

variable {size : ℕ} {items : List α}

theorem length_lastPage (hne : items ≠ []) :
    (lastPage size items).length = (items.length - 1) % size + 1 := by
  have hpos := List.length_pos_iff.mpr hne
  have hdiv := Nat.div_add_mod (items.length - 1) size
  rw [lastPage, List.length_drop]
  omega

/-- The items, page after page. -/
theorem lastPage_concat (hsize : 1 ≤ size) (items : List α) (item : α) :
    lastPage size (items ++ [item]) = turn size (lastPage size items) item := by
  by_cases hne : items = []
  · subst hne
    simp [lastPage, turn, Nat.not_le.mpr hsize]
  · have hpos := List.length_pos_iff.mpr hne
    have hlen : (lastPage size items).length = (items.length - 1) % size + 1 :=
      length_lastPage hne
    have hdiv := Nat.div_add_mod (items.length - 1) size
    have hlt := Nat.mod_lt (items.length - 1) hsize
    set q := (items.length - 1) / size with hq
    unfold turn
    split
    · -- the page is full: the pages before it have all items
      rename_i hfull
      have hitems : items.length = size * (q + 1) := by rw [Nat.mul_add]; omega
      have hpage : (items ++ [item]).length - 1 = size * (q + 1) := by simp [hitems]
      rw [lastPage, hpage, Nat.mul_div_cancel_left _ hsize, ← hitems, List.drop_left]
    · rename_i hroom
      have hpage : (items ++ [item]).length - 1 = size * q + ((items.length - 1) % size + 1) := by
        rw [List.length_append, List.length_singleton]
        omega
      have hdivNext : ((items ++ [item]).length - 1) / size = q := by
        rw [hpage, Nat.mul_add_div hsize, Nat.div_eq_of_lt (by omega), Nat.add_zero]
      rw [lastPage, hdivNext, List.drop_append_of_le_length (by omega)]
      rfl

/-- **What is on the page** after all items. -/
theorem foldl_turn (hsize : 1 ≤ size) (items : List α) :
    items.foldl (turn size) [] = lastPage size items := by
  induction items using List.reverseRecOn with
  | nil => simp [lastPage]
  | append_singleton items item ih =>
      rw [List.foldl_append, ih, lastPage_concat hsize]
      rfl

end Pages
