import Mathlib.Algebra.Order.Group.Defs
import Mathlib.Data.List.Nodup
import Mathlib.Data.List.Perm.Subperm

/-!
# Sorted sets

A `Zset` holds members with scores, each member once. `add` keeps the score of a member that is
there, `removeRange` and `count` work on a closed range of scores. `count_slide`: a range that slides
up past the highest score counts no more than before; `count_add_le`: an addition counts for one.
-/

set_option autoImplicit false

namespace Lib

variable {κ ν : Type}

structure Zset (κ ν : Type) where
  entries : List (κ × ν)
  nodup : (entries.map Prod.fst).Nodup

namespace Zset

def empty : Zset κ ν := ⟨[], List.nodup_nil⟩

instance : Inhabited (Zset κ ν) := ⟨empty⟩

def has [DecidableEq κ] (z : Zset κ ν) (k : κ) : Bool := z.entries.any fun e => e.1 = k

def filter (z : Zset κ ν) (p : κ × ν → Bool) : Zset κ ν :=
  ⟨z.entries.filter p, z.nodup.sublist (List.filter_sublist.map _)⟩

theorem has_iff [DecidableEq κ] {z : Zset κ ν} {k : κ} :
    z.has k = true ↔ k ∈ z.entries.map Prod.fst := by
  simp [has]

/-- `ZADD NX`. -/
def add [DecidableEq κ] (z : Zset κ ν) (k : κ) (v : ν) : Zset κ ν :=
  if h : z.has k = true then z
  else ⟨z.entries ++ [(k, v)], by
    rw [List.map_append, List.nodup_append]
    refine ⟨z.nodup, by simp, fun a ha b hb => ?_⟩
    rintro rfl
    rw [has_iff] at h
    simp only [List.map_cons, List.map_nil, List.mem_singleton] at hb
    exact h (hb ▸ ha)⟩

section

variable [LinearOrder ν]

def within (lo hi : ν) (e : κ × ν) : Bool := lo ≤ e.2 ∧ e.2 ≤ hi

/-- `ZREMRANGEBYSCORE`. -/
def removeRange (z : Zset κ ν) (lo hi : ν) : Zset κ ν := z.filter fun e => !within lo hi e

/-- `ZCOUNT`. -/
def count (z : Zset κ ν) (lo hi : ν) : Nat := z.entries.countP (within lo hi)

end

variable {z y : Zset κ ν} {k : κ} {v : ν} {e : κ × ν}

theorem mem_add [DecidableEq κ] : e ∈ (z.add k v).entries ↔
    e ∈ z.entries ∨ z.has k = false ∧ e = (k, v) := by
  unfold add
  split
  · rename_i h
    simp [h]
  · rename_i h
    simp [h]

theorem mem_removeRange [LinearOrder ν] {lo hi : ν} :
    e ∈ (z.removeRange lo hi).entries ↔ e ∈ z.entries ∧ ¬(lo ≤ e.2 ∧ e.2 ≤ hi) := by
  rw [removeRange, filter, List.mem_filter, Bool.not_eq_true', ← Bool.not_eq_true, within,
    decide_eq_true_iff]

theorem nodup_entries (z : Zset κ ν) : z.entries.Nodup := z.nodup.of_map _

/-- Distinct entries of a range are counted. -/
theorem length_le_count [LinearOrder ν] {lo hi : ν} {xs : List (κ × ν)} (hxs : xs.Nodup)
    (h : ∀ x ∈ xs, x ∈ z.entries ∧ lo ≤ x.2 ∧ x.2 ≤ hi) : xs.length ≤ z.count lo hi := by
  rw [count, List.countP_eq_length_filter]
  refine (List.subperm_of_subset hxs fun x hx => ?_).length_le
  exact List.mem_filter.mpr ⟨(h x hx).1, decide_eq_true (h x hx).2⟩

/-- A range that slides up counts no more. -/
theorem count_slide [LinearOrder ν] {lo hi lo' hi' : ν} (hlo : lo ≤ lo')
    (hz : ∀ e ∈ z.entries, e.2 ≤ hi) (hy : ∀ e ∈ y.entries, e ∈ z.entries) :
    y.count lo' hi' ≤ z.count lo hi := by
  rw [count, List.countP_eq_length_filter]
  refine length_le_count (y.nodup_entries.filter _) fun e he => ?_
  obtain ⟨he, hw⟩ := List.mem_filter.mp he
  exact ⟨hy e he, hlo.trans (of_decide_eq_true hw).1, hz e (hy e he)⟩

theorem count_add_le [DecidableEq κ] [LinearOrder ν] (lo hi : ν) :
    (z.add k v).count lo hi ≤ z.count lo hi + 1 := by
  unfold add
  split
  · exact Nat.le_succ _
  · rw [count, List.countP_append, ← count]
    exact Nat.add_le_add_left List.countP_le_length _

end Zset

end Lib
