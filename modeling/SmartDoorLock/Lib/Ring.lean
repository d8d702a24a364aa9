import Mathlib.Data.List.Basic
import Mathlib.Logic.Function.Basic
import Mathlib.Data.Nat.Basic

/-!
# Rings that hold the end of a log

A circular buffer of `N` cells is compared with the log of all elements ever
put into it: of these `taken` have been taken out, and the rest stands in the
cells, the `j`-th element of the log in cell `j % N`. Indices and counts of an
implementation are then statements about two numbers, `log.length` and
`taken`, and what is in the buffer is a suffix of the log.
-/

namespace Ring

variable {α : Type*} {N : ℕ} {data : ℕ → α} {log : List α} {taken : ℕ}

/-- The cells hold what of the log is not yet taken out. -/
structure Holds (N : ℕ) (data : ℕ → α) (log : List α) (taken : ℕ) : Prop where
  taken_le : taken ≤ log.length
  fits : log.length ≤ taken + N
  cell : ∀ j (h : j < log.length), taken ≤ j → data (j % N) = log[j]

/-- The `count` cells from `rd` on. -/
def window (N : ℕ) (data : ℕ → α) (rd count : ℕ) : List α :=
  (List.range count).map fun k => data ((rd + k) % N)

theorem length_window (rd count : ℕ) : (window N data rd count).length = count := by
  rw [window, List.length_map, List.length_range]

theorem holds_nil (data : ℕ → α) : Holds N data [] 0 where
  taken_le := Nat.le_refl 0
  fits := Nat.zero_le _
  cell j h := absurd h (Nat.not_lt_zero j)

/-- Less than a turn apart, two positions have different cells. -/
theorem mod_ne_of_lt {i j : ℕ} (hij : i < j) (hturn : j < i + N) : i % N ≠ j % N := by
  intro h
  have hdiff : (j - i) % N = 0 := Nat.sub_mod_eq_zero_of_mod_eq h.symm
  rw [Nat.mod_eq_of_lt (by omega)] at hdiff
  omega

/-- **Put.** While there is room, the next cell takes the next element. -/
theorem Holds.push (h : Holds N data log taken) (hroom : log.length < taken + N) (b : α) :
    Holds N (Function.update data (log.length % N) b) (log ++ [b]) taken where
  taken_le := by
    rw [List.length_append]
    exact Nat.le_trans h.taken_le (Nat.le_add_right _ _)
  fits := by
    rw [List.length_append, List.length_singleton]
    exact hroom
  cell j hj htaken := by
    rw [List.length_append, List.length_singleton] at hj
    by_cases hlast : j = log.length
    · subst hlast
      rw [Function.update_self, List.getElem_append_right (Nat.le_refl _)]
      simp
    · have hlt : j < log.length := by omega
      rw [Function.update_of_ne (mod_ne_of_lt hlt (by omega)), List.getElem_append_left hlt]
      exact h.cell j hlt htaken

/-- The cell next to be taken out. -/
theorem Holds.front (h : Holds N data log taken) (hlt : taken < log.length) :
    data (taken % N) = log[taken] :=
  h.cell taken hlt (Nat.le_refl _)

/-- **Take.** Taking elements out touches no cell. -/
theorem Holds.pop (h : Holds N data log taken) {taken' : ℕ} (hle : taken ≤ taken')
    (hlog : taken' ≤ log.length) : Holds N data log taken' where
  taken_le := hlog
  fits := Nat.le_trans h.fits (Nat.add_le_add_right hle N)
  cell j hj htaken := h.cell j hj (Nat.le_trans hle htaken)

/-- **Contents.** The cells in use are the rest of the log, in order. -/
theorem Holds.window_eq (h : Holds N data log taken) {rd : ℕ} (hrd : rd % N = taken % N) :
    window N data rd (log.length - taken) = log.drop taken := by
  apply List.ext_getElem
  · rw [length_window, List.length_drop]
  · intro k hk _
    rw [length_window] at hk
    have hcell : (rd + k) % N = (taken + k) % N := by rw [Nat.add_mod, hrd, ← Nat.add_mod]
    simp only [window, List.getElem_map, List.getElem_range, List.getElem_drop, hcell]
    exact h.cell (taken + k) (by omega) (Nat.le_add_right _ _)

end Ring
