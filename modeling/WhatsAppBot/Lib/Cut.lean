import Mathlib.Data.List.Basic

/-!
# Cutting a list at a separator

`cut` at the first one (`str.partition`), `rcut` at the last one (`str.rpartition`), `splits` at
each of them (`str.split`). The separator is not kept; without one, the list is `cut`'s first part
and `rcut`'s second.
-/

set_option autoImplicit false

namespace Lib

variable {α β : Type} [DecidableEq α] [DecidableEq β]

def cut (c : α) : List α → List α × Option (List α)
  | [] => ([], none)
  | x :: xs => if x = c then ([], some xs) else (x :: (cut c xs).1, (cut c xs).2)

def rcut (c : α) : List α → Option (List α) × List α
  | [] => (none, [])
  | x :: xs =>
    match rcut c xs with
    | (some front, back) => (some (x :: front), back)
    | (none, back) => if x = c then (some [], back) else (none, x :: back)

def splits (c : α) : List α → List (List α)
  | [] => [[]]
  | x :: xs =>
    if x = c then [] :: splits c xs
    else
      match splits c xs with
      | [] => [[x]]
      | part :: parts => (x :: part) :: parts

variable {c : α} {xs front back : List α}

theorem cut_of_notMem (h : c ∉ xs) : cut c xs = (xs, none) := by
  induction xs with
  | nil => rfl
  | cons x xs ih =>
    rw [List.mem_cons, not_or] at h
    rw [cut, if_neg fun heq => h.1 heq.symm, ih h.2]

theorem cut_append (h : c ∉ front) : cut c (front ++ c :: back) = (front, some back) := by
  induction front with
  | nil => rw [List.nil_append, cut, if_pos rfl]
  | cons x front ih =>
    rw [List.mem_cons, not_or] at h
    rw [List.cons_append, cut, if_neg fun heq => h.1 heq.symm, ih h.2]

theorem cut_cases (c : α) (xs : List α) : c ∉ xs ∧ cut c xs = (xs, none) ∨
    ∃ front back, c ∉ front ∧ xs = front ++ c :: back ∧ cut c xs = (front, some back) := by
  by_cases h : c ∈ xs
  · obtain ⟨front, back, rfl, hfront⟩ := List.eq_append_cons_of_mem h
    exact .inr ⟨front, back, hfront, rfl, cut_append hfront⟩
  · exact .inl ⟨h, cut_of_notMem h⟩

theorem rcut_of_notMem (h : c ∉ xs) : rcut c xs = (none, xs) := by
  induction xs with
  | nil => rfl
  | cons x xs ih =>
    rw [List.mem_cons, not_or] at h
    rw [rcut, ih h.2]
    exact if_neg fun heq => h.1 heq.symm

theorem rcut_append (h : c ∉ back) : rcut c (front ++ c :: back) = (some front, back) := by
  induction front with
  | nil =>
    rw [List.nil_append, rcut, rcut_of_notMem h]
    exact if_pos rfl
  | cons x front ih => rw [List.cons_append, rcut, ih]

theorem rcut_cases (c : α) (xs : List α) : c ∉ xs ∧ rcut c xs = (none, xs) ∨
    ∃ front back, c ∉ back ∧ xs = front ++ c :: back ∧ rcut c xs = (some front, back) := by
  by_cases h : c ∈ xs
  · obtain ⟨back, front, hxs, hback⟩ := List.eq_append_cons_of_mem (List.mem_reverse.mpr h)
    have hsplit : xs = front.reverse ++ c :: back.reverse := by
      rw [← List.reverse_reverse xs, hxs]
      simp
    have hnot : c ∉ back.reverse := fun hc => hback (List.mem_reverse.mp hc)
    exact .inr ⟨_, _, hnot, hsplit, hsplit ▸ rcut_append hnot⟩
  · exact .inl ⟨h, rcut_of_notMem h⟩

theorem mem_splits {x : α} (c : α) (h : x ∈ xs) : x = c ∨ ∃ part ∈ splits c xs, x ∈ part := by
  induction xs with
  | nil => cases h
  | cons y xs ih =>
    rw [splits]
    by_cases hy : y = c
    · rw [if_pos hy]
      rcases List.mem_cons.mp h with rfl | h
      · exact .inl hy
      · exact (ih h).imp_right fun ⟨part, hpart, hx⟩ => ⟨part, List.mem_cons_of_mem _ hpart, hx⟩
    · rw [if_neg hy]
      cases hsplits : splits c xs with
      | nil =>
        rcases List.mem_cons.mp h with rfl | h
        · exact .inr ⟨_, List.mem_singleton_self _, List.mem_singleton_self _⟩
        · rcases ih h with hx | ⟨part, hpart, -⟩
          · exact .inl hx
          · rw [hsplits] at hpart
            cases hpart
      | cons part parts =>
        rcases List.mem_cons.mp h with rfl | h
        · exact .inr ⟨_, List.mem_cons_self, List.mem_cons_self⟩
        · rcases ih h with hx | ⟨part', hpart, hx⟩
          · exact .inl hx
          · rw [hsplits] at hpart
            rcases List.mem_cons.mp hpart with rfl | hpart
            · exact .inr ⟨_, List.mem_cons_self, List.mem_cons_of_mem _ hx⟩
            · exact .inr ⟨part', List.mem_cons_of_mem _ hpart, hx⟩

/-- A map that keeps the separator apart from the rest keeps the parts. -/
theorem splits_map {f : α → β} {d : β} (h : ∀ x, f x = d ↔ x = c) (xs : List α) :
    splits d (xs.map f) = (splits c xs).map (List.map f) := by
  induction xs with
  | nil => rfl
  | cons x xs ih =>
    rw [List.map_cons, splits, splits, ih]
    by_cases hx : x = c
    · rw [if_pos ((h x).mpr hx), if_pos hx]
      rfl
    · rw [if_neg fun heq => hx ((h x).mp heq), if_neg hx]
      cases splits c xs <;> rfl

end Lib
