import Mathlib.Data.List.Pairwise
import Mathlib.Data.List.Sort

/-!
# As-of lookups

Entries with a start, and the one in force at an instant: the latest that has started (`asOf`).
`asOf_append`: one more entry is in force from its start to the next start, and changes the answer
nowhere else. `leftJoin` is the join of a table with such a lookup; it keeps the number of rows
(`leftJoin_eq_map`).
-/

set_option autoImplicit false

namespace Lib

variable {α β τ : Type}

section

variable [LinearOrder τ] (start : α → τ)

/-- `WHERE start <= t ORDER BY start DESC LIMIT 1`. -/
def asOf (t : τ) (xs : List α) : Option α :=
  ((xs.filter (start · ≤ t)).insertionSort fun a b => start b ≤ start a).head?

/-- `x` is in force until the next entry starts. -/
def InForce (x : α) (xs : List α) (t : τ) : Prop :=
  start x ≤ t ∧ ∀ y ∈ xs, start x < start y → t < start y

variable {start} {t : τ} {xs : List α} {x : α}

theorem asOf_eq_some (h : asOf start t xs = some x) : x ∈ xs ∧ InForce start x xs t := by
  have hmem : ∀ {y}, y ∈ (xs.filter (start · ≤ t)).insertionSort (fun a b => start b ≤ start a) ↔
      y ∈ xs ∧ start y ≤ t := by
    intro y
    rw [List.mem_insertionSort, List.mem_filter, decide_eq_true_iff]
  obtain ⟨hx, hle⟩ := hmem.mp (List.mem_of_head? h)
  refine ⟨hx, hle, fun y hy hlt => ?_⟩
  by_contra hstarted
  have hy := hmem.mpr ⟨hy, not_lt.mp hstarted⟩
  have : Std.Total fun a b => start b ≤ start a := ⟨fun a b => le_total _ _⟩
  have : IsTrans α fun a b => start b ≤ start a := ⟨fun a b c hab hbc => hbc.trans hab⟩
  have hsorted := List.pairwise_insertionSort (fun a b => start b ≤ start a)
    (xs.filter (start · ≤ t))
  unfold asOf at h
  cases hs : (xs.filter (start · ≤ t)).insertionSort (fun a b => start b ≤ start a) with
  | nil =>
    rw [hs] at h
    cases h
  | cons z zs =>
    rw [hs] at h hy hsorted
    obtain rfl : z = x := Option.some.inj h
    rcases List.mem_cons.mp hy with rfl | hy
    · exact lt_irrefl _ hlt
    · exact absurd ((List.pairwise_cons.mp hsorted).1 y hy) (not_le.mpr hlt)

theorem asOf_eq_none : asOf start t xs = none ↔ ∀ x ∈ xs, t < start x := by
  rw [asOf, List.head?_eq_none_iff, ← List.length_eq_zero_iff, List.length_insertionSort,
    List.length_eq_zero_iff, List.filter_eq_nil_iff]
  simp

/-- The entry in force is found, where no two start together. -/
theorem asOf_of_inForce (hinj : ∀ y ∈ xs, start y = start x → y = x) (hx : x ∈ xs)
    (h : InForce start x xs t) : asOf start t xs = some x := by
  cases hfound : asOf start t xs with
  | none => exact absurd (asOf_eq_none.mp hfound x hx) (not_lt.mpr h.1)
  | some y =>
    obtain ⟨hy, hstarted, hnext⟩ := asOf_eq_some hfound
    rcases lt_trichotomy (start y) (start x) with hlt | heq | hlt
    · exact absurd (hnext x hx hlt) (not_lt.mpr h.1)
    · rw [hinj y hy heq]
    · exact absurd (h.2 y hy hlt) (not_lt.mpr hstarted)

/-- **One more entry** is in force from its start to the next one's; elsewhere nothing changes. -/
theorem asOf_append [Decidable (InForce start x xs t)] (hxs : xs.Pairwise (start · ≠ start ·))
    (hnew : ∀ y ∈ xs, start y ≠ start x) :
    asOf start t (xs ++ [x]) = if InForce start x xs t then some x else asOf start t xs := by
  have hinj : ∀ y ∈ xs, ∀ z ∈ xs, start z = start y → z = y := by
    intro y hy z hz heq
    by_contra hne
    have : Std.Symm fun y z => start y ≠ start z := ⟨fun _ _ h => h.symm⟩
    exact hxs.forall hz hy hne heq
  split
  · rename_i h
    refine asOf_of_inForce (fun y hy heq => ?_) (by simp) ⟨h.1, fun y hy hlt => ?_⟩
    · rcases List.mem_append.mp hy with hy | hy
      · exact absurd heq (hnew y hy)
      · exact List.mem_singleton.mp hy
    · rcases List.mem_append.mp hy with hy | hy
      · exact h.2 y hy hlt
      · exact absurd hlt (by rw [List.mem_singleton.mp hy]; exact lt_irrefl _)
  · rename_i h
    cases hfound : asOf start t xs with
    | none =>
      rw [asOf_eq_none] at hfound ⊢
      intro y hy
      rcases List.mem_append.mp hy with hy | hy
      · exact hfound y hy
      · obtain rfl := List.mem_singleton.mp hy
        exact not_le.mp fun hle => h ⟨hle, fun z hz _ => hfound z hz⟩
    | some y =>
      obtain ⟨hy, hstarted, hnext⟩ := asOf_eq_some hfound
      refine asOf_of_inForce (fun z hz heq => ?_) (List.mem_append_left _ hy)
        ⟨hstarted, fun z hz hlt => ?_⟩
      · rcases List.mem_append.mp hz with hz | hz
        · exact hinj y hy z hz heq
        · obtain rfl := List.mem_singleton.mp hz
          exact absurd heq.symm (hnew y hy)
      · rcases List.mem_append.mp hz with hz | hz
        · exact hnext z hz hlt
        · obtain rfl := List.mem_singleton.mp hz
          -- it starts after the entry in force, so it has not started yet
          refine not_le.mp fun hle => h ⟨hle, fun x hx hzx => ?_⟩
          exact hnext x hx (hlt.trans hzx)

end

/-! ## Joins with a lookup -/

/-- `LEFT JOIN LATERAL f ON true`. -/
def leftJoin (xs : List α) (f : α → List β) : List (α × Option β) :=
  xs.flatMap fun x =>
    match f x with
    | [] => [(x, none)]
    | ys => ys.map fun y => (x, some y)

/-- **A lookup neither multiplies nor drops rows.** -/
theorem leftJoin_eq_map (xs : List α) (f : α → Option β) :
    leftJoin xs (fun x => (f x).toList) = xs.map fun x => (x, f x) := by
  induction xs with
  | nil => rfl
  | cons x xs ih =>
    rw [leftJoin, List.flatMap_cons, ← leftJoin, ih, List.map_cons]
    cases f x <;> rfl

end Lib
