import Mathlib.Data.List.Sort

/-!
# Sorting again

A list is in the order `ord` of its keys and is sorted once more, by `le`. `IsSort` is what a sort
that need not be stable may return; `resort_iff` says when every such result has the keys where
they were.
-/

set_option autoImplicit false

namespace Lib

variable {α κ : Type}

/-- A sort by `le`, not necessarily a stable one. -/
structure IsSort (le : α → α → Bool) (xs sorted : List α) : Prop where
  perm : sorted.Perm xs
  pairwise : sorted.Pairwise fun a b => le a b = true

variable {le : α → α → Bool} {ord : κ → κ → Prop} {key : α → κ} {xs sorted : List α} {a b : α}

theorem perm_cons_cons (hne : a ≠ b) (ha : a ∈ xs) (hb : b ∈ xs) :
    ∃ rest, (a :: b :: rest).Perm xs := by
  obtain ⟨s, t, rfl⟩ := List.append_of_mem ha
  have hb' : b ∈ s ++ t := by
    rw [List.mem_append, List.mem_cons] at hb
    rw [List.mem_append]
    exact hb.imp_right fun h => h.resolve_left hne.symm
  obtain ⟨s', t', hst⟩ := List.append_of_mem hb'
  refine ⟨s' ++ t', ?_⟩
  have hrest : (b :: (s' ++ t')).Perm (s ++ t) := by
    rw [hst]
    exact List.perm_middle.symm
  exact (hrest.cons a).trans List.perm_middle.symm

section

variable (htrans : ∀ a b c, le a b = true → le b c = true → le a c = true)
  (htotal : ∀ a b, (le a b || le b a) = true)

include htrans htotal

/-- Two elements may come out in any order that `le` allows. -/
theorem exists_isSort (hne : a ≠ b) (ha : a ∈ xs) (hb : b ∈ xs) (hle : le a b = true) :
    ∃ sorted, IsSort le xs sorted ∧ [a, b].Sublist sorted := by
  obtain ⟨rest, hrest⟩ := perm_cons_cons hne ha hb
  refine ⟨(a :: b :: rest).mergeSort le, ⟨?_, ?_⟩, ?_⟩
  · exact (List.mergeSort_perm _ _).trans hrest
  · exact List.pairwise_mergeSort htrans htotal _
  · exact List.pair_sublist_mergeSort htrans htotal hle
      ((List.nil_sublist rest).cons_cons b |>.cons_cons a)

/-- **Every sort leaves the keys in place** exactly if `le` never disagrees with their order. -/
theorem resort_iff (hrefl : ∀ k, ord k k) (hanti : ∀ j k, ord j k → ord k j → j = k)
    (hsorted : xs.Pairwise fun a b => ord (key a) (key b)) :
    (∀ sorted, IsSort le xs sorted → sorted.map key = xs.map key) ↔
      ∀ a ∈ xs, ∀ b ∈ xs, le a b = true → ord (key a) (key b) := by
  constructor
  · intro h a ha b hb hle
    by_cases hne : a = b
    · rw [hne]
      exact hrefl _
    · obtain ⟨sorted, hsort, hsub⟩ := exists_isSort htrans htotal hne ha hb hle
      have hkeys : (sorted.map key).Pairwise ord := by
        rw [h sorted hsort]
        exact List.pairwise_map.mpr hsorted
      have hpair := (List.pairwise_map.mp hkeys).sublist hsub
      exact List.rel_of_pairwise_cons hpair List.mem_cons_self
  · intro h sorted hsort
    have hkeys : (sorted.map key).Pairwise ord := by
      rw [List.pairwise_map]
      exact hsort.pairwise.imp_of_mem fun ha hb hle =>
        h _ (hsort.perm.mem_iff.mp ha) _ (hsort.perm.mem_iff.mp hb) hle
    exact (hsort.perm.map key).eq_of_pairwise (fun j k _ _ => hanti j k) hkeys
      (List.pairwise_map.mpr hsorted)

end

end Lib
