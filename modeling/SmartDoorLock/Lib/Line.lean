import Mathlib.Data.List.Basic

/-!
# Lines with a delay

A line delivers in order what is put on it, after any delay: a part of it has
arrived and can be taken, the rest is under way. Every element carries a
number, for example of the request it answers, which the taker does not see.
What passes through a line is followed by its contents as a whole, first the
arrived part and then the rest; only `drop` loses anything.
-/

/-- A line; the element next to be taken, and next to arrive, comes first. -/
structure Line (α : Type*) where
  arrived : List (ℕ × α) := []
  underWay : List (ℕ × α) := []

namespace Line

variable {α : Type*}

/-- All elements on the line, in order. -/
def contents (l : Line α) : List (ℕ × α) := l.arrived ++ l.underWay

/-- The elements `xs`, all with the number `n`. -/
def numbered (n : ℕ) (xs : List α) : List (ℕ × α) := xs.map fun x => (n, x)

/-- Put `xs` on the line. -/
def put (l : Line α) (n : ℕ) (xs : List α) : Line α :=
  { l with underWay := l.underWay ++ numbered n xs }

/-- The next element arrives. -/
def arrive (l : Line α) : Option (Line α) :=
  match l.underWay with
  | [] => none
  | x :: rest => some { arrived := l.arrived ++ [x], underWay := rest }

/-- Take the oldest element that has arrived. -/
def take (l : Line α) : Option ((ℕ × α) × Line α) :=
  match l.arrived with
  | [] => none
  | x :: rest => some (x, { l with arrived := rest })

/-- Drop what has arrived. -/
def drop (l : Line α) : Line α := { l with arrived := [] }

@[simp] theorem contents_put (l : Line α) (n : ℕ) (xs : List α) :
    (l.put n xs).contents = l.contents ++ numbered n xs :=
  (List.append_assoc _ _ _).symm

@[simp] theorem contents_drop (l : Line α) : l.drop.contents = l.underWay := rfl

theorem contents_arrive {l l' : Line α} (h : l.arrive = some l') : l'.contents = l.contents := by
  unfold arrive at h
  cases hway : l.underWay with
  | nil =>
      rw [hway] at h
      cases h
  | cons x rest =>
      rw [hway] at h
      cases h
      unfold contents
      rw [hway, List.append_assoc, List.singleton_append]

theorem contents_take {l l' : Line α} {x : ℕ × α} (h : l.take = some (x, l')) :
    l.contents = x :: l'.contents := by
  unfold take at h
  cases harrived : l.arrived with
  | nil =>
      rw [harrived] at h
      cases h
  | cons y rest =>
      rw [harrived] at h
      cases h
      unfold contents
      rw [harrived, List.cons_append]

/-- What is under way is on the line. -/
theorem mem_contents_of_underWay {l : Line α} {x : ℕ × α} (h : x ∈ l.underWay) :
    x ∈ l.contents :=
  List.mem_append_right _ h

/-- The numbers on the line are below `n`. -/
def Below (l : Line α) (n : ℕ) : Prop := ∀ x ∈ l.contents, x.1 < n

theorem Below.put {l : Line α} {n : ℕ} (h : l.Below n) (xs : List α) :
    (l.put n xs).Below (n + 1) := by
  intro x hx
  rw [contents_put, List.mem_append] at hx
  rcases hx with hx | hx
  · exact Nat.lt_succ_of_lt (h x hx)
  · obtain ⟨y, -, rfl⟩ := List.mem_map.mp hx
    exact Nat.lt_succ_self n

theorem Below.drop {l : Line α} {n : ℕ} (h : l.Below n) : l.drop.Below n :=
  fun x hx => h x (mem_contents_of_underWay hx)

/-! ## Taking a whole answer -/

/-- Among elements taken in order, where first the old ones come and then the
answer numbered `n`: those from position `i` on are of the answer if and only
if no old one stands at `i`. -/
theorem answered_iff {old got : List (ℕ × α)} {n : ℕ} {answer : List α}
    (hgot : got <+: old ++ numbered n answer) (hold : ∀ x ∈ old, x.1 < n) {i len : ℕ}
    (hlen : 0 < len) (hi : i < got.length) :
    (∀ x ∈ (got.drop i).take len, x.1 = n) ↔ old.length ≤ i := by
  obtain ⟨rest, hrest⟩ := hgot
  have hget : ∀ j (hj : j < got.length), (old ++ numbered n answer)[j]? = some got[j] := by
    intro j hj
    rw [← hrest, List.getElem?_append_left hj, List.getElem?_eq_getElem hj]
  constructor
  · intro hall
    by_contra hlt
    have hi' : i < old.length := Nat.lt_of_not_le hlt
    -- position `i` is an old element
    have heq : got[i] = old[i] := by
      have h := hget i hi
      rw [List.getElem?_append_left hi', List.getElem?_eq_getElem hi', Option.some.injEq] at h
      exact h.symm
    have hmem : got[i] ∈ (got.drop i).take len := by
      obtain ⟨m, rfl⟩ := Nat.exists_eq_succ_of_ne_zero (Nat.ne_of_gt hlen)
      rw [List.drop_eq_getElem_cons hi]
      exact List.mem_cons_self
    have hn := hall _ hmem
    rw [heq] at hn
    exact absurd hn (Nat.ne_of_lt (hold _ (List.getElem_mem hi')))
  · intro hle x hx
    obtain ⟨j, hj, rfl⟩ := List.mem_iff_getElem.mp (List.mem_of_mem_take hx)
    have hj' : i + j < got.length := by
      rw [List.length_drop] at hj
      omega
    have hright := hget (i + j) hj'
    rw [List.getElem?_append_right (by omega)] at hright
    obtain ⟨y, -, hy⟩ := List.mem_map.mp (List.mem_of_getElem? hright)
    rw [List.getElem_drop, ← hy]

end Line
