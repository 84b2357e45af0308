import Mathlib.Data.List.Basic

/-!
# Bounded retry of a call

`attempts transient extra b`: the outcomes of the calls a retry loop makes when the `i`-th call
would answer `b i`. It calls again after a transient outcome, `extra` times at most.
`Reached transient extra b j`: call `j` is made. `isAttempts` recognises such a list;
`countP_attempts_le_one` says when a property holds of at most one of the calls.
-/

set_option autoImplicit false

namespace Lib.Retry

variable {β : Type} (transient : β → Bool)

def attempts : Nat → (Nat → β) → List β
  | 0, b => [b 0]
  | extra + 1, b =>
    if transient (b 0) then b 0 :: attempts extra fun i => b (i + 1) else [b 0]

def isAttempts : Nat → List β → Bool
  | _, [] => false
  | 0, [_] => true
  | 0, _ :: _ :: _ => false
  | extra + 1, x :: xs => if transient x then isAttempts extra xs else xs.isEmpty

def Reached (extra : Nat) (b : Nat → β) (j : Nat) : Prop :=
  j ≤ extra ∧ ∀ i < j, transient (b i) = true

variable {transient} {extra : Nat} {b : Nat → β} {p : β → Bool}

theorem attempts_ne_nil : attempts transient extra b ≠ [] := by
  cases extra with
  | zero => simp [attempts]
  | succ n => unfold attempts; split <;> simp

theorem isAttempts_attempts : isAttempts transient extra (attempts transient extra b) = true := by
  induction extra generalizing b with
  | zero => rfl
  | succ n ih =>
    unfold attempts
    split
    · rename_i h; simp [isAttempts, h, ih]
    · rename_i h; simp [isAttempts, h]

theorem exists_of_isAttempts {l : List β} (h : isAttempts transient extra l = true) :
    ∃ b, l = attempts transient extra b := by
  induction extra generalizing l with
  | zero =>
    match l, h with
    | [x], _ => exact ⟨fun _ => x, rfl⟩
  | succ n ih =>
    match l, h with
    | x :: xs, h =>
      simp only [isAttempts] at h
      split at h
      · rename_i hx
        obtain ⟨b, rfl⟩ := ih h
        exact ⟨fun i => i.casesOn x b, (if_pos hx).symm⟩
      · rename_i hx
        obtain rfl := List.isEmpty_iff.mp h
        exact ⟨fun _ => x, by simp [attempts, hx]⟩

theorem reached_zero : Reached transient extra b 0 := ⟨Nat.zero_le _, nofun⟩

theorem reached_succ {j : Nat} : Reached transient (extra + 1) b (j + 1) ↔
    transient (b 0) = true ∧ Reached transient extra (fun i => b (i + 1)) j := by
  constructor
  · rintro ⟨hj, h⟩
    exact ⟨h 0 (Nat.succ_pos _), Nat.le_of_succ_le_succ hj,
      fun i hi => h (i + 1) (Nat.succ_lt_succ hi)⟩
  · rintro ⟨h0, hj, h⟩
    refine ⟨Nat.succ_le_succ hj, fun i hi => ?_⟩
    cases i with
    | zero => exact h0
    | succ i => exact h i (Nat.lt_of_succ_lt_succ hi)

/-- The calls made are the reached ones. -/
theorem mem_attempts {x : β} :
    x ∈ attempts transient extra b ↔ ∃ j, Reached transient extra b j ∧ b j = x := by
  induction extra generalizing b with
  | zero =>
    simp only [attempts, List.mem_singleton]
    constructor
    · rintro rfl; exact ⟨0, reached_zero, rfl⟩
    · rintro ⟨j, ⟨hj, _⟩, rfl⟩; rw [Nat.le_zero.mp hj]
  | succ n ih =>
    have hsplit : (∃ j, Reached transient (n + 1) b j ∧ b j = x) ↔ x = b 0 ∨
        transient (b 0) = true ∧ ∃ j, Reached transient n (fun i => b (i + 1)) j ∧ b (j + 1) = x := by
      constructor
      · rintro ⟨j, hj, rfl⟩
        cases j with
        | zero => exact .inl rfl
        | succ j => exact .inr ⟨(reached_succ.mp hj).1, j, (reached_succ.mp hj).2, rfl⟩
      · rintro (rfl | ⟨h0, j, hj, rfl⟩)
        · exact ⟨0, reached_zero, rfl⟩
        · exact ⟨j + 1, reached_succ.mpr ⟨h0, hj⟩, rfl⟩
    rw [hsplit]
    unfold attempts
    split
    · rename_i h0; simp [ih, h0]
    · rename_i h0; simp [h0]

/-- **A property holds of at most one call** iff no reached call has it after an earlier one. -/
theorem countP_attempts_le_one : (attempts transient extra b).countP p ≤ 1 ↔
    ∀ i j, i < j → Reached transient extra b j → ¬(p (b i) = true ∧ p (b j) = true) := by
  induction extra generalizing b with
  | zero =>
    refine iff_of_true (by simp [attempts, List.countP_cons]; split <;> simp) ?_
    rintro i j hij ⟨hj, _⟩
    omega
  | succ n ih =>
    unfold attempts
    split
    · rename_i h0
      have hrest : (∀ i j, i < j → Reached transient (n + 1) b j →
          ¬(p (b i) = true ∧ p (b j) = true)) ↔
          (∀ j, Reached transient n (fun i => b (i + 1)) j →
            ¬(p (b 0) = true ∧ p (b (j + 1)) = true)) ∧
          ∀ i j, i < j → Reached transient n (fun i => b (i + 1)) j →
            ¬(p (b (i + 1)) = true ∧ p (b (j + 1)) = true) := by
        constructor
        · intro h
          exact ⟨fun j hj => h 0 (j + 1) (Nat.succ_pos _) (reached_succ.mpr ⟨h0, hj⟩),
            fun i j hij hj => h (i + 1) (j + 1) (Nat.succ_lt_succ hij)
              (reached_succ.mpr ⟨h0, hj⟩)⟩
        · rintro ⟨hz, hs⟩ i j hij hj
          obtain ⟨j, rfl⟩ : ∃ j', j = j' + 1 := ⟨j - 1, by omega⟩
          have hj' := (reached_succ.mp hj).2
          cases i with
          | zero => exact hz j hj'
          | succ i => exact hs i j (Nat.lt_of_succ_lt_succ hij) hj'
      rw [hrest, ← ih, List.countP_cons]
      cases hp : p (b 0) with
      | false => simp
      | true =>
        simp only [if_true, true_and, Bool.not_eq_true]
        constructor
        · intro hle
          have hzero : (attempts transient n fun i => b (i + 1)).countP p = 0 := by omega
          rw [List.countP_eq_zero] at hzero
          exact ⟨fun j hj => by simpa using hzero _ (mem_attempts.mpr ⟨j, hj, rfl⟩), by omega⟩
        · rintro ⟨hz, _⟩
          have hzero : (attempts transient n fun i => b (i + 1)).countP p = 0 := by
            rw [List.countP_eq_zero]
            intro x hx
            obtain ⟨j, hj, rfl⟩ := mem_attempts.mp hx
            simp [hz j hj]
          omega
    · rename_i h0
      refine iff_of_true (by simp [List.countP_cons]; split <;> simp) ?_
      rintro i j hij ⟨_, hj⟩
      exact absurd (hj 0 (by omega)) h0

end Lib.Retry
