import Mathlib.Algebra.BigOperators.Group.List.Basic
import Mathlib.Data.List.Basic
import Mathlib.Data.List.Dedup
import Mathlib.Data.List.Perm.Basic
import Mathlib.Data.List.Perm.Subperm
import WhatsAppBot.Lib.AsOf

/-!
# Sorted, grouped and joined

What a query makes of its tables. `IsFirst le limit xs page`: what `ORDER BY ... LIMIT` may return
when rows that compare equal come in any order; a row that is left out is not before one that is
taken (`IsFirst.left_out`). `GROUP BY key` makes a group of the rows of every key: the groups are
the rows, rearranged (`groups_perm`), so sums over the groups are the sum over the rows
(`sum_groups`). `filterMap_leftJoin`: what a left join says of its right side.
-/

set_option autoImplicit false

namespace Lib

/-! ## The first rows of a sorted table -/

section

variable {α : Type} [DecidableEq α]

structure IsFirst (le : α → α → Bool) (limit : Nat) (xs page : List α) : Prop where
  length : page.length = min limit xs.length
  subperm : page.Subperm xs
  sorted : page.Pairwise fun a b => le a b = true
  before : ∀ a ∈ page, ∀ b ∈ xs.diff page, le a b = true

variable {le : α → α → Bool} {limit : Nat} {xs page : List α} {a : α}

instance : Decidable (IsFirst le limit xs page) :=
  decidable_of_iff (page.length = min limit xs.length ∧ page.Subperm xs ∧
      (page.Pairwise fun a b => le a b = true) ∧ ∀ a ∈ page, ∀ b ∈ xs.diff page, le a b = true)
    ⟨fun h => ⟨h.1, h.2.1, h.2.2.1, h.2.2.2⟩, fun h => ⟨h.length, h.subperm, h.sorted, h.before⟩⟩

namespace IsFirst

theorem mem (h : IsFirst le limit xs page) (ha : a ∈ page) : a ∈ xs := h.subperm.subset ha

theorem length_le (h : IsFirst le limit xs page) : page.length ≤ limit := by
  rw [h.length]
  exact Nat.min_le_left _ _

theorem left_out (h : IsFirst le limit xs page) (ha : a ∈ xs) (hout : a ∉ page) :
    page.length = limit ∧ ∀ b ∈ page, le b a = true := by
  refine ⟨?_, fun b hb => h.before b hb a (List.mem_diff_of_mem ha hout)⟩
  have hlength := h.length
  by_contra hne
  have hall : xs.length ≤ page.length := by omega
  exact hout ((h.subperm.perm_of_length_le hall).mem_iff.mpr ha)

end IsFirst

end

/-! ## Groups -/

variable {α β κ M : Type} [DecidableEq κ]

/-- The keys of the groups. -/
def groupKeys (key : α → κ) (xs : List α) : List κ := (xs.map key).dedup

def group (key : α → κ) (xs : List α) (k : κ) : List α := xs.filter (key · = k)

section

variable {key : α → κ} {xs : List α} {ks : List κ} {k : κ}

theorem nodup_groupKeys (key : α → κ) (xs : List α) : (groupKeys key xs).Nodup := List.nodup_dedup _

@[simp] theorem mem_groupKeys : k ∈ groupKeys key xs ↔ ∃ x ∈ xs, key x = k := by
  simp [groupKeys]

/-- **The groups of some keys are the rows that have them.** -/
theorem groups_perm (key : α → κ) (xs : List α) (hks : ks.Nodup) :
    (ks.flatMap (group key xs)).Perm (xs.filter (key · ∈ ks)) := by
  induction ks with
  | nil => simp
  | cons k ks ih =>
    obtain ⟨hk, hks⟩ := List.nodup_cons.mp hks
    have hsplit := List.filter_append_perm (key · = k) (xs.filter (key · ∈ k :: ks))
    rw [List.filter_filter, List.filter_filter] at hsplit
    have hfirst : xs.filter (fun x => decide (key x = k) && decide (key x ∈ k :: ks)) =
        group key xs k := List.filter_congr fun x _ => by simp +contextual
    have hrest : xs.filter (fun x => (!decide (key x = k)) && decide (key x ∈ k :: ks)) =
        xs.filter (key · ∈ ks) := by
      refine List.filter_congr fun x _ => ?_
      by_cases hx : key x = k
      · simp [hx, hk]
      · simp [hx]
    rw [hfirst, hrest] at hsplit
    rw [List.flatMap_cons]
    exact ((ih hks).append_left _).trans hsplit

theorem sum_groups [AddCommMonoid M] (key : α → κ) (f : α → M) (xs : List α) :
    ((groupKeys key xs).map fun k => ((group key xs k).map f).sum).sum = (xs.map f).sum := by
  have hall : xs.filter (key · ∈ groupKeys key xs) = xs :=
    List.filter_eq_self.mpr fun x hx => by simpa using ⟨x, hx, rfl⟩
  have hperm := groups_perm key xs (nodup_groupKeys key xs)
  rw [hall] at hperm
  rw [← (hperm.map f).sum_eq, List.map_flatMap, List.flatMap_def, List.sum_flatten, List.map_map]
  rfl

end

/-! ## Left joins -/

section

variable {xs : List α} {f : α → List β} {p : α → Bool} {x : α}

theorem leftJoin_cons (x : α) (xs : List α) (f : α → List β) :
    leftJoin (x :: xs) f = leftJoin [x] f ++ leftJoin xs f := by
  simp [leftJoin]

theorem mem_map_fst_leftJoin : x ∈ (leftJoin xs f).map (·.1) ↔ x ∈ xs := by
  induction xs with
  | nil => simp [leftJoin]
  | cons y xs ih =>
    rw [leftJoin_cons, List.map_append, List.mem_append, ih, List.mem_cons]
    refine or_congr_left ?_
    cases hf : f y with
    | nil => simp [leftJoin, hf]
    | cons z zs => simp [leftJoin, hf, eq_comm]

/-- Rows of the left side that are dropped before or after. -/
theorem filter_leftJoin : (leftJoin xs f).filter (fun r => p r.1) = leftJoin (xs.filter p) f := by
  induction xs with
  | nil => rfl
  | cons x xs ih =>
    rw [leftJoin_cons, List.filter_append, ih, List.filter_cons]
    cases hx : p x with
    | false =>
      have hnone : (leftJoin [x] f).filter (fun r => p r.1) = [] := by
        cases hf : f x <;> simp [leftJoin, hf, hx]
      rw [hnone]
      rfl
    | true =>
      have hall : (leftJoin [x] f).filter (fun r => p r.1) = leftJoin [x] f := by
        cases hf : f x <;> simp [leftJoin, hf, hx]
      rw [hall, if_pos rfl, ← leftJoin_cons]

/-- What there is on the right. -/
theorem filterMap_leftJoin : (leftJoin xs f).filterMap (·.2) = xs.flatMap f := by
  induction xs with
  | nil => rfl
  | cons x xs ih =>
    rw [leftJoin_cons, List.filterMap_append, ih, List.flatMap_cons]
    congr 1
    cases hf : f x <;> simp [leftJoin, hf]

end

end Lib
