import Mathlib.Data.List.Basic

/-!
# Mapping a function that may fail

`xs.mapM f` succeeds where `f` does on every element (`mapM_isSome_iff`), and what it returns then is
what `f` makes of the elements (`mem_mapM_iff`).
-/

set_option autoImplicit false

namespace Lib

variable {α β γ : Type} {f : α → Option β} {xs : List α} {ys : List β}

theorem mapM_isSome_iff : (xs.mapM f).isSome = true ↔ ∀ x ∈ xs, (f x).isSome = true := by
  induction xs with
  | nil => simp
  | cons x xs ih =>
    rw [List.mapM_cons, List.forall_mem_cons, ← ih]
    cases f x with
    | none => simp
    | some y => cases xs.mapM f <;> simp

theorem mapM_map_eq (g : β → γ) :
    (xs.mapM fun x => (f x).map g) = (xs.mapM f).map (List.map g) := by
  induction xs with
  | nil => rfl
  | cons x xs ih =>
    rw [List.mapM_cons, List.mapM_cons, ih]
    cases f x with
    | none => rfl
    | some y => cases xs.mapM f <;> rfl

theorem mem_mapM_iff (h : xs.mapM f = some ys) (y : β) : y ∈ ys ↔ ∃ x ∈ xs, f x = some y := by
  induction xs generalizing ys with
  | nil =>
    obtain rfl := Option.some.inj h
    simp
  | cons x xs ih =>
    rw [List.mapM_cons] at h
    obtain ⟨z, hz, h⟩ := Option.bind_eq_some_iff.mp h
    obtain ⟨zs, hzs, h⟩ := Option.bind_eq_some_iff.mp h
    obtain rfl := Option.some.inj h
    rw [List.mem_cons, ih hzs, List.exists_mem_cons_iff, hz, Option.some.injEq, eq_comm]

end Lib
