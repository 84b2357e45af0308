import Mathlib.Order.Defs.Unbundled

/-!
# Noninterference of schedules

A machine takes one action at a time; some of the actions are an observer's own. `Unwinding` gathers
what shows that the observer does not notice the others: their actions keep what it sees
(`respect`), and what its own actions do to it depends on nothing else (`consistent`).
`Unwinding.run`: two schedules with the same actions of the observer lead to states that look alike.
-/

set_option autoImplicit false

namespace Lib

variable {σ α : Type}

structure Unwinding (step : σ → α → σ) (own : α → Bool) (harmless : α → Prop)
    (alike : σ → σ → Prop) : Prop where
  equiv : Equivalence alike
  respect : ∀ s x, own x = false → harmless x → alike (step s x) s
  consistent : ∀ s t x, own x = true → alike s t → alike (step s x) (step t x)

namespace Unwinding

variable {step : σ → α → σ} {own : α → Bool} {harmless : α → Prop} {alike : σ → σ → Prop}

/-- The other actions can be left out. -/
theorem purge (h : Unwinding step own harmless alike) {xs : List α} {s t : σ}
    (hxs : ∀ x ∈ xs, own x = false → harmless x) (hst : alike s t) :
    alike (xs.foldl step s) ((xs.filter own).foldl step t) := by
  induction xs generalizing s t with
  | nil => exact hst
  | cons x xs ih =>
    have hrest : ∀ y ∈ xs, own y = false → harmless y := fun y hy => hxs y (List.mem_cons_of_mem x hy)
    cases hx : own x with
    | false =>
      rw [List.filter_cons_of_neg (by simp [hx])]
      exact ih hrest (h.equiv.trans (h.respect s x hx (hxs x (by simp) hx)) hst)
    | true =>
      rw [List.filter_cons_of_pos hx]
      exact ih hrest (h.consistent s t x hx hst)

theorem run (h : Unwinding step own harmless alike) {xs ys : List α} {s t : σ}
    (hown : xs.filter own = ys.filter own) (hxs : ∀ x ∈ xs, own x = false → harmless x)
    (hys : ∀ y ∈ ys, own y = false → harmless y) (hst : alike s t) :
    alike (xs.foldl step s) (ys.foldl step t) := by
  have hx := h.purge hxs hst
  have hy := h.purge hys (h.equiv.refl t)
  rw [hown] at hx
  exact h.equiv.trans hx (h.equiv.symm hy)

end Unwinding

end Lib
