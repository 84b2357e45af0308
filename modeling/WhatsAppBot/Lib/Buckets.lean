import Mathlib.Algebra.BigOperators.Group.List.Basic
import Mathlib.Order.Interval.Set.Basic
import Mathlib.Order.ConditionallyCompleteLattice.Indexed
import Mathlib.Data.Int.ConditionallyCompleteOrder

/-!
# Consecutive half-open intervals

A monotone `bound` cuts the line into the intervals `[bound i, bound (i + 1))`. `exists_unique_bucket`:
a point between two of the bounds is in exactly one interval between them. `sum_buckets`: a sum over
consecutive intervals is the sum over their union, for values in any commutative monoid.
-/

set_option autoImplicit false

namespace Lib

variable {α τ M : Type} [LinearOrder τ] (bound : ℤ → τ)

def InBucket (i : ℤ) (t : τ) : Prop := bound i ≤ t ∧ t < bound (i + 1)

instance (i : ℤ) (t : τ) : Decidable (InBucket bound i t) := inferInstanceAs (Decidable (_ ∧ _))

/-- The `n` intervals from the `i`-th on. -/
def Within (i : ℤ) (n : ℕ) (t : τ) : Prop := bound i ≤ t ∧ t < bound (i + n)

instance (i : ℤ) (n : ℕ) (t : τ) : Decidable (Within bound i n t) :=
  inferInstanceAs (Decidable (_ ∧ _))

variable {bound} {i j : ℤ} {n : ℕ} {t : τ}

/-- Two intervals do not meet. -/
theorem InBucket.eq (hb : Monotone bound) (hi : InBucket bound i t) (hj : InBucket bound j t) :
    i = j := by
  have hle : ∀ {i j}, InBucket bound i t → InBucket bound j t → i ≤ j := by
    intro i j hi hj
    by_contra hlt
    have : bound (j + 1) ≤ bound i := hb (by omega)
    exact absurd (hj.2.trans_le this) (not_lt.mpr hi.1)
  exact le_antisymm (hle hi hj) (hle hj hi)

theorem within_succ (hb : Monotone bound) :
    Within bound i (n + 1) t ↔ Within bound i n t ∨ InBucket bound (i + n) t := by
  unfold Within InBucket
  push_cast
  rw [← add_assoc]
  constructor
  · rintro ⟨hlo, hhi⟩
    rcases lt_or_ge t (bound (i + n)) with hlt | hge
    · exact .inl ⟨hlo, hlt⟩
    · exact .inr ⟨hge, hhi⟩
  · rintro (⟨hlo, hhi⟩ | ⟨hlo, hhi⟩)
    · exact ⟨hlo, hhi.trans_le (hb (by omega))⟩
    · exact ⟨(hb (by omega)).trans hlo, hhi⟩

theorem Within.not_inBucket (h : Within bound i n t) : ¬InBucket bound (i + n) t :=
  fun hb => absurd hb.1 (not_le.mpr h.2)

/-- The intervals' numbers. -/
def consecutive (i : ℤ) (n : ℕ) : List ℤ := (List.range n).map fun k : ℕ => i + k

@[simp] theorem mem_consecutive : j ∈ consecutive i n ↔ i ≤ j ∧ j < i + n := by
  simp only [consecutive, List.mem_map, List.mem_range]
  constructor
  · rintro ⟨k, hk, rfl⟩
    omega
  · rintro ⟨hlo, hhi⟩
    exact ⟨(j - i).toNat, by omega, by omega⟩

theorem consecutive_succ : consecutive i (n + 1) = consecutive i n ++ [i + n] := by
  rw [consecutive, List.range_succ, List.map_append, ← consecutive]
  rfl

/-- **Every point is in exactly one interval.** -/
theorem exists_unique_bucket (hb : Monotone bound) (h : Within bound i n t) :
    ∃! j, j ∈ consecutive i n ∧ InBucket bound j t := by
  have hex : ∃ j ∈ consecutive i n, InBucket bound j t := by
    induction n with
    | zero => exact absurd (h.2.trans_le (hb (by simp))) (not_lt.mpr h.1)
    | succ n ih =>
      rw [consecutive_succ]
      rcases (within_succ hb).mp h with h | h
      · obtain ⟨j, hj, hin⟩ := ih h
        exact ⟨j, List.mem_append_left _ hj, hin⟩
      · exact ⟨_, by simp, h⟩
  obtain ⟨j, hj, hin⟩ := hex
  exact ⟨j, ⟨hj, hin⟩, fun k hk => hk.2.eq hb hin⟩

/-- The entries of an interval. -/
theorem filter_within_succ [AddCommMonoid M] (hb : Monotone bound) (stamp : α → τ) (f : α → M)
    (xs : List α) :
    ((xs.filter fun x => Within bound i (n + 1) (stamp x)).map f).sum =
      ((xs.filter fun x => Within bound i n (stamp x)).map f).sum +
        ((xs.filter fun x => InBucket bound (i + n) (stamp x)).map f).sum := by
  induction xs with
  | nil => simp
  | cons x xs ih =>
    simp only [List.filter_cons]
    by_cases hold : Within bound i n (stamp x)
    · have hnew := hold.not_inBucket
      have hboth := (within_succ hb).mpr (.inl hold)
      simp [hold, hnew, hboth, ih, add_assoc]
    · by_cases hnew : InBucket bound (i + n) (stamp x)
      · have hboth := (within_succ hb).mpr (.inr hnew)
        simp [hold, hnew, hboth, ih, add_left_comm]
      · have hnone : ¬Within bound i (n + 1) (stamp x) := fun h =>
          ((within_succ hb).mp h).elim hold hnew
        simp [hold, hnew, hnone, ih]

/-- **The sums over the intervals add up to the sum over their union.** -/
theorem sum_buckets [AddCommMonoid M] (hb : Monotone bound) (stamp : α → τ) (f : α → M)
    (xs : List α) (i : ℤ) (n : ℕ) :
    ((consecutive i n).map fun j =>
      ((xs.filter fun x => InBucket bound j (stamp x)).map f).sum).sum =
      ((xs.filter fun x => Within bound i n (stamp x)).map f).sum := by
  induction n with
  | zero =>
    have hnone : xs.filter (fun x => Within bound i 0 (stamp x)) = [] := by
      rw [List.filter_eq_nil_iff]
      intro x _ h
      have h : Within bound i 0 (stamp x) := of_decide_eq_true h
      exact absurd (h.2.trans_le (hb (by simp))) (not_lt.mpr h.1)
    rw [hnone]
    rfl
  | succ n ih =>
    rw [consecutive_succ, List.map_append, List.sum_append, ih, filter_within_succ hb]
    simp

end Lib
