import Mathlib.Data.List.Basic

/-!
# A claim that is used once

A `Ticket` is claimed by one party at a time: `armed` is free, `taken a` is a claim not yet
durable, `owned a` a durable claim not yet used, `used a` and `spent` claims that can be used no
more. `Ticket.Run h t`: after the uses and rearmings `h` (newest first) the ticket is in `t`.

Main results: `Run.uses_le` (the ticket was used at most once more than it was rearmed) and
`Run.rearm_between` (between any two uses it was rearmed).
-/

set_option autoImplicit false

namespace Lib

inductive Ticket where
  | armed
  | taken (a : Nat)
  | owned (a : Nat)
  | used (a : Nat)
  | spent
  deriving DecidableEq

inductive Mark where
  | use
  | rearm
  deriving DecidableEq

namespace Ticket

inductive Run : List Mark → Ticket → Prop
  | init : Run [] armed
  | take {h : List Mark} (a : Nat) : Run h armed → Run h (taken a)
  | drop {h : List Mark} {a : Nat} : Run h (taken a) → Run h armed
  | own {h : List Mark} {a : Nat} : Run h (taken a) → Run h (owned a)
  | use {h : List Mark} {a : Nat} : Run h (owned a) → Run (.use :: h) (used a)
  | waste {h : List Mark} {a : Nat} : Run h (owned a) → Run h spent
  | release {h : List Mark} {a : Nat} : Run h (used a) → Run h spent
  | rearm {h : List Mark} : Run h spent → Run (.rearm :: h) armed

/-- The ticket can still be used before it is rearmed. -/
def live : Ticket → Bool
  | armed | taken _ | owned _ => true
  | used _ | spent => false

variable {h h₁ h₂ h₃ : List Mark} {t : Ticket}

theorem Run.uses_add (hr : Run h t) :
    h.count .use + (if t.live then 1 else 0) ≤ h.count .rearm + 1 := by
  induction hr with
  | init => simp [live]
  | take _ _ ih | drop _ ih | own _ ih | release _ ih => simpa [live] using ih
  | waste _ ih =>
    simp only [live, if_true] at ih
    simp only [live, Bool.false_eq_true, if_false]
    omega
  | use _ ih =>
    simp only [live, if_true] at ih
    simp only [List.count_cons, live]
    simp
    omega
  | rearm _ ih =>
    simp only [live] at ih
    simp only [List.count_cons, live]
    simp at ih ⊢
    omega

/-- **At most one use for each time the ticket was armed.** -/
theorem Run.uses_le (hr : Run h t) : h.count .use ≤ h.count .rearm + 1 :=
  Nat.le_trans (Nat.le_add_right _ _) hr.uses_add

/-- While the ticket is live it was rearmed after its last use. -/
theorem Run.rearm_after (hr : Run h t) (ht : t.live = true) (hsplit : h = h₁ ++ .use :: h₂) :
    Mark.rearm ∈ h₁ := by
  induction hr generalizing h₁ with
  | init => simp at hsplit
  | take _ _ ih | drop _ ih | own _ ih => exact ih rfl hsplit
  | use | waste | release => cases ht
  | rearm _ _ =>
    cases h₁ with
    | nil => simp at hsplit
    | cons x h₁ =>
      rw [List.cons_append, List.cons.injEq] at hsplit
      simp [← hsplit.1]

/-- **Between two uses the ticket was rearmed.** -/
theorem Run.rearm_between (hr : Run h t) (hsplit : h = h₁ ++ .use :: (h₂ ++ .use :: h₃)) :
    Mark.rearm ∈ h₂ := by
  induction hr generalizing h₁ with
  | init => simp at hsplit
  | take _ _ ih | drop _ ih | own _ ih | waste _ ih | release _ ih => exact ih hsplit
  | use hr ih =>
    cases h₁ with
    | nil => exact hr.rearm_after rfl (List.cons.inj hsplit).2
    | cons x h₁ => exact ih (List.cons.inj hsplit).2
  | rearm _ ih =>
    cases h₁ with
    | nil => simp at hsplit
    | cons x h₁ => exact ih (List.cons.inj hsplit).2

end Ticket

end Lib
