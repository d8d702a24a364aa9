import Mathlib.Data.Nat.Basic
import Mathlib.Tactic.Ring

/-!
# A millisecond counter of 32 bits

True time is a natural number; the counter shows it modulo `2 ^ 32`. A
difference of two readings, taken in 32-bit arithmetic, is the true time that
lies between them as long as that is less than one turn of the counter.
-/

namespace WrapClock

/-- What the counter shows at true time `t`. -/
def stamp (t : ℕ) : UInt32 := UInt32.ofNat t

@[simp] theorem toNat_stamp (t : ℕ) : (stamp t).toNat = t % 2 ^ 32 := by
  simp [stamp]

theorem toNat_stamp_of_lt {t : ℕ} (h : t < 2 ^ 32) : (stamp t).toNat = t := by
  rw [toNat_stamp, Nat.mod_eq_of_lt h]

theorem stamp_toNat (x : UInt32) : stamp x.toNat = x := by
  simp [stamp]

/-- **Elapsed time.** The wrapped difference is the true one within a turn. -/
theorem toNat_elapsed {t now : ℕ} (hle : t ≤ now) (hturn : now - t < 2 ^ 32) :
    (stamp now - stamp t).toNat = now - t := by
  rw [UInt32.toNat_sub, toNat_stamp, toNat_stamp]
  omega

theorem elapsed_lt_iff {t now : ℕ} (d : UInt32) (hle : t ≤ now) (hturn : now - t < 2 ^ 32) :
    stamp now - stamp t < d ↔ now < t + d.toNat := by
  rw [UInt32.lt_iff_toNat_lt, toNat_elapsed hle hturn]
  omega

theorem le_elapsed_iff {t now : ℕ} (d : UInt32) (hle : t ≤ now) (hturn : now - t < 2 ^ 32) :
    d ≤ stamp now - stamp t ↔ t + d.toNat ≤ now := by
  rw [UInt32.le_iff_toNat_le, toNat_elapsed hle hturn]
  omega

/-- In any case the wrapped difference is at most the true one. -/
theorem toNat_elapsed_le {t now : ℕ} (hle : t ≤ now) : (stamp now - stamp t).toNat ≤ now - t := by
  rw [UInt32.toNat_sub, toNat_stamp, toNat_stamp]
  omega

/-- What the counter shows as elapsed has elapsed. -/
theorem le_of_elapsed {t now : ℕ} {d : UInt32} (hle : t ≤ now) (h : d ≤ stamp now - stamp t) :
    t + d.toNat ≤ now := by
  have hshown := UInt32.le_iff_toNat_le.mp h
  have htrue := toNat_elapsed_le hle
  omega

/-! ## Successive readings -/

/-- True time of the `k`-th of several readings, when `gap k` ms pass before
it (from `now` on for the first one). -/
def reading (now : ℕ) (gap : ℕ → ℕ) : ℕ → ℕ
  | 0 => now + gap 0
  | k + 1 => reading now gap k + gap (k + 1)

theorem le_reading (now : ℕ) (gap : ℕ → ℕ) (k : ℕ) : now ≤ reading now gap k := by
  induction k with
  | zero => exact Nat.le_add_right _ _
  | succ k ih => exact ih.trans (Nat.le_add_right _ _)

theorem reading_mono (now : ℕ) (gap : ℕ → ℕ) {j k : ℕ} (h : j ≤ k) :
    reading now gap j ≤ reading now gap k := by
  induction h with
  | refl => exact le_rfl
  | step _ ih => exact ih.trans (Nat.le_add_right _ _)

end WrapClock
