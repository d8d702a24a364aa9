import Mathlib.Data.List.Induction
import Mathlib.Order.Basic

/-!
# Partial machines and their runs

A machine is a partial step function `step : σ → α → Option σ`: `step s a` is
the state after the action `a`, and `none` when `a` is not possible in `s`.
All nondeterminism (schedulers, interrupts, messages, clocks) sits in the list
of actions, so a run is a plain function of its start and its actions and a
concrete run can be evaluated.

The rules below are the only inductions over runs that a development needs:
an invariant is carried over a whole run (`run_inv`), possibly under a
condition that every step of the run has to meet (`run_inv_of_along`) and
within a bound (`run_inv_within`), a simulation is carried from one machine to
another (`run_sim`, `run_lockstep`, `run_sim_noted`), the cost of a run is
bounded by a potential (`total_le_of_along`), a log is read as the notes of its
steps (`log_eq_noted`), a property is compared with a condition on all steps
(`iff_along_within`, `iff_along_of_along`), and what holds at the end is traced
back to the step at which it came to hold (`run_becomes`, `since_of_becomes`).
-/

namespace Machine

variable {σ τ α β : Type*}

/-- Carry out a list of actions; `none` once an action is not possible. -/
def run (step : σ → α → Option σ) : σ → List α → Option σ
  | s, [] => some s
  | s, a :: as => (step s a).bind fun t => run step t as

/-- Every step of the run from `s` along `as` meets `C`, a condition on the
state before the step and the action taken. -/
def Along (step : σ → α → Option σ) (C : σ → α → Prop) (s : σ) (as : List α) : Prop :=
  ∀ pre a post u, as = pre ++ a :: post → run step s pre = some u → C u a

variable {step : σ → α → Option σ} {C : σ → α → Prop} {P : σ → Prop}

@[simp] theorem run_nil (s : σ) : run step s [] = some s := rfl

@[simp] theorem run_cons (s : σ) (a : α) (as : List α) :
    run step s (a :: as) = (step s a).bind fun t => run step t as := rfl

theorem run_cons_of_step {s t : σ} {a : α} {as : List α} (h : step s a = some t) :
    run step s (a :: as) = run step t as := by
  rw [run_cons, h, Option.bind_some]

theorem run_append (s : σ) (as bs : List α) :
    run step s (as ++ bs) = (run step s as).bind fun t => run step t bs := by
  induction as generalizing s with
  | nil => rfl
  | cons a as ih =>
      simp only [List.cons_append, run_cons, Option.bind_assoc]
      exact congrArg _ (funext fun t => ih t)

theorem run_snoc_eq_some {s u : σ} {as : List α} {a : α} :
    run step s (as ++ [a]) = some u ↔
      ∃ t, run step s as = some t ∧ step t a = some u := by
  rw [run_append]
  simp [Option.bind_eq_some_iff]

/-! ## Conditions on the steps of a run -/

theorem along_nil (s : σ) : Along step C s [] := by
  intro pre a post u h
  simp at h

theorem along_of_mem {s : σ} {as : List α} (h : ∀ a ∈ as, ∀ u, C u a) : Along step C s as := by
  rintro pre a post u rfl _
  exact h a (List.mem_append_right _ List.mem_cons_self) u

theorem along_cons {s : σ} {a : α} {as : List α} (ha : C s a)
    (has : ∀ t, step s a = some t → Along step C t as) : Along step C s (a :: as) := by
  intro pre b post u hsplit hrun
  cases pre with
  | nil =>
      obtain ⟨rfl, -⟩ := List.cons.inj hsplit
      cases hrun
      exact ha
  | cons c pre =>
      obtain ⟨rfl, htail⟩ := List.cons.inj hsplit
      rw [run_cons, Option.bind_eq_some_iff] at hrun
      obtain ⟨t, hta, hrun⟩ := hrun
      exact has t hta pre b post u htail hrun

theorem along_cons_iff {s : σ} {a : α} {as : List α} :
    Along step C s (a :: as) ↔ C s a ∧ ∀ t, step s a = some t → Along step C t as := by
  constructor
  · intro h
    refine ⟨h [] a as s rfl rfl, ?_⟩
    rintro t ht pre b post u rfl hrun
    exact h (a :: pre) b post u rfl (by rw [run_cons, ht, Option.bind_some, hrun])
  · rintro ⟨ha, has⟩
    exact along_cons ha has

/-- On a given run a decidable condition can be evaluated. -/
instance decidableAlong [∀ s a, Decidable (C s a)] :
    (s : σ) → (as : List α) → Decidable (Along step C s as)
  | s, [] => isTrue (along_nil s)
  | s, a :: as =>
      have rest : Decidable (∀ t, step s a = some t → Along step C t as) :=
        match step s a with
        | none => isTrue (by simp)
        | some t =>
          match decidableAlong t as with
          | isTrue has => isTrue fun _ hu => Option.some.inj hu ▸ has
          | isFalse has => isFalse fun hall => has (hall t rfl)
      decidable_of_iff _ along_cons_iff.symm

theorem along_snoc {s : σ} {as : List α} {a : α} :
    Along step C s (as ++ [a]) ↔
      Along step C s as ∧ ∀ u, run step s as = some u → C u a := by
  constructor
  · intro h
    constructor
    · intro pre b post u hsplit hrun
      exact h pre b (post ++ [a]) u (by simp [hsplit]) hrun
    · intro u hrun
      exact h as a [] u rfl hrun
  · rintro ⟨hall, hlast⟩ pre b post u hsplit hrun
    rcases List.eq_nil_or_concat post with rfl | ⟨post', c, rfl⟩
    · obtain ⟨rfl, hba⟩ := List.append_inj' hsplit rfl
      obtain rfl : a = b := by simpa using hba
      exact hlast u hrun
    · have hsplit' : as ++ [a] = (pre ++ b :: post') ++ [c] := by simp [hsplit]
      obtain ⟨rfl, _⟩ := List.append_inj' hsplit' rfl
      exact hall pre b post' u rfl hrun

theorem Along.of_append {s : σ} {as bs : List α} (h : Along step C s (as ++ bs)) :
    Along step C s as := by
  rintro pre a post u rfl hrun
  exact h pre a (post ++ bs) u (by rw [List.append_assoc, List.cons_append]) hrun

theorem Along.and {D : σ → α → Prop} {s : σ} {as : List α} (hC : Along step C s as)
    (hD : Along step D s as) : Along step (fun u a => C u a ∧ D u a) s as :=
  fun pre a post u hsplit hrun => ⟨hC pre a post u hsplit hrun, hD pre a post u hsplit hrun⟩

theorem Along.mono {D : σ → α → Prop} {s : σ} {as : List α} (hC : Along step C s as)
    (hCD : ∀ u a, C u a → D u a) : Along step D s as :=
  fun pre a post u hsplit hrun => hCD u a (hC pre a post u hsplit hrun)

/-- `P` holds in every state that the run from `s` along `as` passes through. -/
def Throughout (step : σ → α → Option σ) (P : σ → Prop) (s : σ) (as : List α) : Prop :=
  ∀ pre post u, as = pre ++ post → run step s pre = some u → P u

/-! ## Invariants and simulations -/

variable {B : σ → Prop}

/-- A bound that is inherited backwards (a deadline, a limit on a growing
history) holds in every state of a run that ends within it. -/
theorem run_back (hback : ∀ s a t, B t → step s a = some t → B s)
    {s u : σ} {as : List α} (hu : B u) (hrun : run step s as = some u) : B s := by
  induction as generalizing s with
  | nil =>
      cases hrun
      exact hu
  | cons a as ih =>
      rw [run_cons, Option.bind_eq_some_iff] at hrun
      obtain ⟨t, hta, ht⟩ := hrun
      exact hback s a t (ih ht) hta

/-- **Conditional invariants.** If every step that meets `C` and stays within
the bound `B` preserves `P`, then `P` holds at the end of every run within `B`
whose steps all meet `C`. -/
theorem run_inv_of_along_within (hback : ∀ s a t, B t → step s a = some t → B s)
    (hstep : ∀ s a t, P s → B t → C s a → step s a = some t → P t)
    {s u : σ} {as : List α} (hs : P s) (hu : B u) (hC : Along step C s as)
    (hrun : run step s as = some u) : P u := by
  induction as using List.reverseRecOn generalizing u with
  | nil =>
      cases hrun
      exact hs
  | append_singleton as a ih =>
      obtain ⟨t, ht, hta⟩ := run_snoc_eq_some.mp hrun
      rw [along_snoc] at hC
      exact hstep t a u (ih (hback t a u hu hta) hC.1 ht) hu (hC.2 t ht) hta

theorem run_inv_of_along (hstep : ∀ s a t, P s → C s a → step s a = some t → P t)
    {s u : σ} {as : List α} (hs : P s) (hC : Along step C s as)
    (hrun : run step s as = some u) : P u :=
  run_inv_of_along_within (B := fun _ => True) (fun _ _ _ _ _ => trivial)
    (fun s a t h _ => hstep s a t h) hs trivial hC hrun

/-- What every step that meets `C` preserves holds throughout such a run. -/
theorem throughout_of_along (hstep : ∀ s a t, P s → C s a → step s a = some t → P t)
    {s : σ} {as : List α} (hs : P s) (hC : Along step C s as) : Throughout step P s as := by
  rintro pre post u rfl hrun
  exact run_inv_of_along hstep hs hC.of_append hrun

theorem run_inv_within (hback : ∀ s a t, B t → step s a = some t → B s)
    (hstep : ∀ s a t, P s → B t → step s a = some t → P t)
    {s u : σ} {as : List α} (hs : P s) (hu : B u) (hrun : run step s as = some u) : P u :=
  run_inv_of_along_within (C := fun _ _ => True) hback
    (fun s a t h hB _ => hstep s a t h hB) hs hu (fun _ _ _ _ _ _ => trivial) hrun

/-- **Invariants.** What every step preserves, every run preserves. -/
theorem run_inv (hstep : ∀ s a t, P s → step s a = some t → P t)
    {s u : σ} {as : List α} (hs : P s) (hrun : run step s as = some u) : P u :=
  run_inv_of_along (C := fun _ _ => True) (fun s a t h _ => hstep s a t h) hs
    (fun _ _ _ _ _ _ => trivial) hrun

/-- **Simulation.** If every step of the concrete machine that meets `C` is
matched by at most one step of the abstract one, which meets `D`, then a run is
matched by a run. -/
theorem run_sim {astep : τ → β → Option τ} {D : τ → β → Prop} {R : σ → τ → Prop}
    (hstep : ∀ s a t x, R s x → C s a → step s a = some t →
      R t x ∨ ∃ b y, astep x b = some y ∧ D x b ∧ R t y)
    {s u : σ} {x : τ} {as : List α} (hR : R s x) (hC : Along step C s as)
    (hrun : run step s as = some u) :
    ∃ bs y, run astep x bs = some y ∧ Along astep D x bs ∧ R u y := by
  induction as using List.reverseRecOn generalizing u with
  | nil =>
      cases hrun
      exact ⟨[], x, rfl, along_nil x, hR⟩
  | append_singleton as a ih =>
      obtain ⟨t, ht, hta⟩ := run_snoc_eq_some.mp hrun
      obtain ⟨hCas, hCa⟩ := along_snoc.mp hC
      obtain ⟨bs, y, hbs, hDbs, hy⟩ := ih hCas ht
      rcases hstep t a u y hy (hCa t ht) hta with hu | ⟨b, z, hb, hDb, hz⟩
      · exact ⟨bs, y, hbs, hDbs, hu⟩
      · refine ⟨bs ++ [b], z, run_snoc_eq_some.mpr ⟨y, hbs, hb⟩, along_snoc.mpr ⟨hDbs, ?_⟩, hz⟩
        intro v hv
        obtain rfl : y = v := Option.some.inj (hbs.symm.trans hv)
        exact hDb

/-- **Lockstep.** Two machines with the same actions: if every step of the first
that meets `C` is matched by the same step of the second, then a run is matched
by the run along the same actions. -/
theorem run_lockstep {astep : τ → α → Option τ} {R : σ → τ → Prop}
    (hstep : ∀ s a t x, R s x → C s a → step s a = some t → ∃ y, astep x a = some y ∧ R t y)
    {s u : σ} {x : τ} {as : List α} (hR : R s x) (hC : Along step C s as)
    (hrun : run step s as = some u) : ∃ y, run astep x as = some y ∧ R u y := by
  induction as using List.reverseRecOn generalizing u with
  | nil =>
      cases hrun
      exact ⟨x, rfl, hR⟩
  | append_singleton as a ih =>
      obtain ⟨t, ht, hta⟩ := run_snoc_eq_some.mp hrun
      obtain ⟨hCas, hCa⟩ := along_snoc.mp hC
      obtain ⟨y, hy, hRy⟩ := ih hCas ht
      obtain ⟨z, hz, hRz⟩ := hstep t a u y hRy (hCa t ht) hta
      exact ⟨z, run_snoc_eq_some.mpr ⟨y, hy, hz⟩, hRz⟩

/-! ## Sums along a run -/

/-- The sum of `f` over the steps of the run from `s` along `as`. -/
def total (step : σ → α → Option σ) (f : σ → α → ℕ) : σ → List α → ℕ
  | _, [] => 0
  | s, a :: as => f s a + (step s a).elim 0 fun t => total step f t as

/-- **Potential.** When each step that meets `C` costs no more than it lowers the
rank, up to its credit, then so does a run. -/
theorem total_le_of_along {cost credit : σ → α → ℕ} {rank : σ → ℕ}
    (hinv : ∀ s a t, P s → C s a → step s a = some t → P t)
    (hrank : ∀ s a t, P s → C s a → step s a = some t → cost s a + rank t ≤ rank s + credit s a)
    {s u : σ} {as : List α} (hs : P s) (hC : Along step C s as) (hrun : run step s as = some u) :
    total step cost s as + rank u ≤ rank s + total step credit s as := by
  induction as generalizing s with
  | nil =>
      cases hrun
      exact Nat.le_of_eq (Nat.add_comm _ _)
  | cons a as ih =>
      rw [run_cons, Option.bind_eq_some_iff] at hrun
      obtain ⟨t, hta, ht⟩ := hrun
      obtain ⟨hCa, hCas⟩ := along_cons_iff.mp hC
      have hstep := hrank s a t hs hCa hta
      have hrest := ih (hinv s a t hs hCa hta) (hCas t hta) ht
      simp only [total, hta, Option.elim_some]
      omega

/-- **Budget.** The same when a state only bounds what is left to spend: each step pays
its cost out of what was left before it and its credit. -/
theorem total_le_of_budget {cost credit : σ → α → ℕ} {Left : σ → ℕ → Prop}
    (hstep : ∀ s a t m, Left s m → step s a = some t →
      ∃ n, Left t n ∧ cost s a + n ≤ m + credit s a)
    {s u : σ} {m : ℕ} {as : List α} (hs : Left s m) (hrun : run step s as = some u) :
    ∃ n, Left u n ∧ total step cost s as + n ≤ m + total step credit s as := by
  induction as generalizing s m with
  | nil =>
      cases hrun
      exact ⟨m, hs, Nat.le_of_eq (Nat.add_comm _ _)⟩
  | cons a as ih =>
      rw [run_cons, Option.bind_eq_some_iff] at hrun
      obtain ⟨t, hta, ht⟩ := hrun
      obtain ⟨k, hk, hcost⟩ := hstep s a t m hs hta
      obtain ⟨n, hn, hrest⟩ := ih hk ht
      refine ⟨n, hn, ?_⟩
      simp only [total, hta, Option.elim_some]
      omega

/-- Counting an action. -/
theorem total_count [DecidableEq α] (a : α) {s u : σ} {as : List α}
    (hrun : run step s as = some u) :
    total step (fun _ b => if b = a then 1 else 0) s as = as.count a := by
  induction as generalizing s with
  | nil => rfl
  | cons b as ih =>
      rw [run_cons, Option.bind_eq_some_iff] at hrun
      obtain ⟨t, htb, ht⟩ := hrun
      rw [List.count_cons, ← ih ht, total, htb, Option.elim_some, Nat.add_comm]
      simp only [beq_iff_eq]

/-! ## Logs of a run -/

/-- What `f` notes of the steps of the run from `s` along `as`, the latest first. -/
def noted {γ : Type*} (step : σ → α → Option σ) (f : σ → α → List γ) : σ → List α → List γ
  | _, [] => []
  | s, a :: as => ((step s a).elim [] fun t => noted step f t as) ++ f s a

/-- **Logs.** A log to which each step adds its note at the head holds the notes of the
run. -/
theorem log_eq_noted {γ : Type*} {f : σ → α → List γ} {log : σ → List γ}
    (hstep : ∀ s a t, step s a = some t → log t = f s a ++ log s)
    {s u : σ} {as : List α} (hrun : run step s as = some u) :
    log u = noted step f s as ++ log s := by
  induction as generalizing s with
  | nil =>
      cases hrun
      rfl
  | cons a as ih =>
      rw [run_cons, Option.bind_eq_some_iff] at hrun
      obtain ⟨t, hta, ht⟩ := hrun
      rw [ih ht, hstep s a t hta, noted, hta, Option.elim_some, List.append_assoc]

/-- **Following.** When each step of a run is matched by the steps of another machine
that `f` notes of it, the other machine follows the run along all the notes. -/
theorem run_sim_noted {astep : τ → β → Option τ} {R : σ → τ → Prop} {f : σ → α → List β}
    (hstep : ∀ s a t x, R s x → C s a → step s a = some t →
      ∃ y, run astep x (f s a).reverse = some y ∧ R t y)
    {s u : σ} {x : τ} {as : List α} (hR : R s x) (hC : Along step C s as)
    (hrun : run step s as = some u) :
    ∃ y, run astep x (noted step f s as).reverse = some y ∧ R u y := by
  induction as generalizing s x with
  | nil =>
      cases hrun
      exact ⟨x, rfl, hR⟩
  | cons a as ih =>
      rw [run_cons, Option.bind_eq_some_iff] at hrun
      obtain ⟨t, hta, ht⟩ := hrun
      obtain ⟨hCa, hCas⟩ := along_cons_iff.mp hC
      obtain ⟨y, hy, hRy⟩ := hstep s a t x hR hCa hta
      obtain ⟨z, hz, hRz⟩ := ih hRy (hCas t hta) ht
      refine ⟨z, ?_, hRz⟩
      rw [noted, hta, Option.elim_some, List.reverse_append, run_append, hy, Option.bind_some, hz]

/-! ## Exact conditions -/

/-- For a property to which each step adds the demand `C` (a growing history, a
balance that is never made up): `Q` holds at the end of a run if and only if
every step meets `C`. The step rule may use an invariant `P`, a bound `B` and
an assumption `D` on the steps. -/
theorem iff_along_of_along_within {Q : σ → Prop} {D : σ → α → Prop}
    (hback : ∀ s a t, B t → step s a = some t → B s)
    (hinv : ∀ s a t, P s → B t → D s a → step s a = some t → P t)
    (hstep : ∀ s a t, P s → B t → D s a → step s a = some t → (Q t ↔ Q s ∧ C s a))
    {s u : σ} {as : List α} (hs : P s) (hQ : Q s) (hu : B u) (hD : Along step D s as)
    (hrun : run step s as = some u) : Q u ↔ Along step C s as := by
  induction as using List.reverseRecOn generalizing u with
  | nil =>
      cases hrun
      exact iff_of_true hQ (along_nil s)
  | append_singleton as a ih =>
      obtain ⟨t, ht, hta⟩ := run_snoc_eq_some.mp hrun
      have hB : B t := hback t a u hu hta
      obtain ⟨hDas, hDa⟩ := along_snoc.mp hD
      have hPt : P t := run_inv_of_along_within hback hinv hs hB hDas ht
      rw [along_snoc, hstep t a u hPt hu (hDa t ht) hta, ih hB hDas ht]
      refine and_congr_right fun _ => ?_
      constructor
      · intro h v hv
        obtain rfl : t = v := Option.some.inj (ht.symm.trans hv)
        exact h
      · intro h
        exact h t ht

theorem iff_along_within {Q : σ → Prop} (hback : ∀ s a t, B t → step s a = some t → B s)
    (hinv : ∀ s a t, P s → B t → step s a = some t → P t)
    (hstep : ∀ s a t, P s → B t → step s a = some t → (Q t ↔ Q s ∧ C s a))
    {s u : σ} {as : List α} (hs : P s) (hQ : Q s) (hu : B u)
    (hrun : run step s as = some u) : Q u ↔ Along step C s as :=
  iff_along_of_along_within (D := fun _ _ => True) hback
    (fun s a t h hB _ => hinv s a t h hB) (fun s a t h hB _ => hstep s a t h hB) hs hQ hu
    (fun _ _ _ _ _ _ => trivial) hrun

/-- The same rule for an assumption on the steps alone. -/
theorem iff_along_of_along {Q : σ → Prop} {D : σ → α → Prop}
    (hinv : ∀ s a t, P s → D s a → step s a = some t → P t)
    (hstep : ∀ s a t, P s → D s a → step s a = some t → (Q t ↔ Q s ∧ C s a))
    {s u : σ} {as : List α} (hs : P s) (hQ : Q s) (hD : Along step D s as)
    (hrun : run step s as = some u) : Q u ↔ Along step C s as :=
  iff_along_of_along_within (B := fun _ => True) (fun _ _ _ _ _ => trivial)
    (fun s a t h _ => hinv s a t h) (fun s a t h _ => hstep s a t h) hs hQ trivial hD hrun

/-! ## Where something comes from -/

/-- An earlier step of the run from `s` along `as` meets `C`, a condition on the
actions before the step, the state before it and the action taken. -/
def Earlier (step : σ → α → Option σ) (C : List α → σ → α → Prop) (s : σ) (as : List α) : Prop :=
  ∃ pre a post u, as = pre ++ a :: post ∧ run step s pre = some u ∧ C pre u a

theorem Earlier.append {D : List α → σ → α → Prop} {s : σ} {as : List α} (h : Earlier step D s as)
    (bs : List α) : Earlier step D s (as ++ bs) := by
  obtain ⟨pre, a, post, u, rfl, hrun, hD⟩ := h
  exact ⟨pre, a, post ++ bs, u, by rw [List.append_assoc, List.cons_append], hrun, hD⟩

theorem Earlier.mono {D E : List α → σ → α → Prop} {s : σ} {as : List α}
    (h : Earlier step D s as)
    (hDE : ∀ pre u a, run step s pre = some u → D pre u a → E pre u a) :
    Earlier step E s as := by
  obtain ⟨pre, a, post, u, hsplit, hrun, hD⟩ := h
  exact ⟨pre, a, post, u, hsplit, hrun, hDE pre u a hrun hD⟩

theorem throughout_nil {s : σ} (hs : P s) : Throughout step P s [] := by
  intro pre post u hsplit hrun
  obtain ⟨rfl, -⟩ := List.append_eq_nil_iff.mp hsplit.symm
  cases hrun
  exact hs

theorem Throughout.of_append {s : σ} {as bs : List α} (h : Throughout step P s (as ++ bs)) :
    Throughout step P s as := by
  rintro pre post u rfl hrun
  exact h pre (post ++ bs) u (List.append_assoc _ _ _) hrun

/-- The end of a run is passed through, and so is what one more step leads to. -/
theorem Throughout.snoc {s t u : σ} {as : List α} {a : α} (h : Throughout step P s as)
    (hrun : run step s as = some t) (hstep : step t a = some u) (hu : P u) :
    Throughout step P s (as ++ [a]) := by
  intro pre post v hsplit hpre
  rcases List.eq_nil_or_concat post with rfl | ⟨post', c, rfl⟩
  · rw [List.append_nil] at hsplit
    subst hsplit
    obtain rfl : u = v := Option.some.inj ((run_snoc_eq_some.mpr ⟨t, hrun, hstep⟩).symm.trans hpre)
    exact hu
  · rw [List.concat_eq_append, ← List.append_assoc] at hsplit
    exact h pre post' v (List.append_inj' hsplit rfl).1 hpre

/-- **Becoming.** What holds at the end of a run and not throughout came to hold at
a step of the run, and has held since. -/
theorem run_becomes {s u : σ} {as : List α} (hs : ¬ Throughout step P s as) (hu : P u)
    (hrun : run step s as = some u) :
    ∃ pre a post v w, as = pre ++ a :: post ∧ run step s pre = some v ∧ step v a = some w ∧
      ¬ P v ∧ P w ∧ Throughout step P w post ∧ run step w post = some u := by
  induction as using List.reverseRecOn generalizing u with
  | nil =>
      cases hrun
      exact absurd (throughout_nil hu) hs
  | append_singleton as a ih =>
      obtain ⟨t, ht, hta⟩ := run_snoc_eq_some.mp hrun
      by_cases hP : P t
      · have hbefore : ¬ Throughout step P s as := fun h => hs (h.snoc ht hta hu)
        obtain ⟨pre, b, post, v, w, rfl, hv, hw, hnot, hPw, hsince, hrest⟩ := ih hbefore hP ht
        refine ⟨pre, b, post ++ [a], v, w, ?_, hv, hw, hnot, hPw, hsince.snoc hrest hta hu, ?_⟩
        · rw [List.append_assoc, List.cons_append]
        · exact run_snoc_eq_some.mpr ⟨t, hrest, hta⟩
      · exact ⟨as, a, [], t, u, rfl, ht, hta, hP, hu, throughout_nil hu, rfl⟩

/-- `P` has held since a step of the run from `s` along `as` that meets `D`. -/
def Since (step : σ → α → Option σ) (P : σ → Prop) (D : List α → σ → α → Prop) (s : σ)
    (as : List α) : Prop :=
  ∃ pre a post v w, as = pre ++ a :: post ∧ run step s pre = some v ∧ step v a = some w ∧
    D pre v a ∧ Throughout step P w post

theorem Since.earlier {D : List α → σ → α → Prop} {s : σ} {as : List α}
    (h : Since step P D s as) : Earlier step D s as := by
  obtain ⟨pre, a, post, v, w, hsplit, hv, -, hD, -⟩ := h
  exact ⟨pre, a, post, v, hsplit, hv, hD⟩

theorem Since.mono {D E : List α → σ → α → Prop} {s : σ} {as : List α} (h : Since step P D s as)
    (hDE : ∀ pre u a, run step s pre = some u → D pre u a → E pre u a) :
    Since step P E s as := by
  obtain ⟨pre, a, post, v, w, hsplit, hv, hw, hD, hsince⟩ := h
  exact ⟨pre, a, post, v, w, hsplit, hv, hw, hDE pre v a hv hD, hsince⟩

/-- What came to hold has held since a step that meets the condition which every
such step meets. -/
theorem since_of_becomes {D : List α → σ → α → Prop} {s u : σ} {as : List α} (hs : ¬ P s)
    (hu : P u) (hrun : run step s as = some u)
    (hstep : ∀ pre v a w, run step s pre = some v → step v a = some w → ¬ P v → P w → D pre v a) :
    Since step P D s as := by
  have hnot : ¬ Throughout step P s as := fun h => hs (h [] as s rfl rfl)
  obtain ⟨pre, a, post, v, w, rfl, hv, hw, hnot, hPw, hsince, -⟩ := run_becomes hnot hu hrun
  exact ⟨pre, a, post, v, w, rfl, hv, hw, hstep pre v a w hv hw hnot hPw, hsince⟩

theorem earlier_of_becomes {D : List α → σ → α → Prop} {s u : σ} {as : List α} (hs : ¬ P s)
    (hu : P u) (hrun : run step s as = some u)
    (hstep : ∀ pre v a w, run step s pre = some v → step v a = some w → ¬ P v → P w → D pre v a) :
    Earlier step D s as :=
  (since_of_becomes hs hu hrun hstep).earlier

end Machine
