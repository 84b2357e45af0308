import WhatsAppBot.Bot.World

/-!
# The requests of one send

`Wire.made extra form b b'`: the requests the client makes when the provider would treat its `i`-th
request as `b i`, and the `i`-th request of the plain-text fallback as `b' i`. The wires a send can
answer with are exactly these (`legal_made`, `made_of_legal`).

Main result: `copies_made_le_one`, the provider's behaviours under which one send delivers at most
one copy (`Once`).
-/

set_option autoImplicit false

namespace Bot

open Lib Store

/-- A 2xx. -/
def Post.isSuccess (p : Post) : Bool :=
  match p.answer with
  | .ok _ | .garbled => true
  | _ => false

namespace Wire

def made (extra : Nat) (form : Form) (b b' : Nat → Post) : Wire where
  first := Retry.attempts Post.transient extra b
  fallback :=
    match form with
    | .text => none
    | .buttons _ =>
      if postResult (Retry.attempts Post.transient extra b) = .failed then
        some (Retry.attempts Post.transient extra b')
      else none

variable {extra : Nat} {form : Form} {b b' : Nat → Post} {w : Wire}

theorem legal_made : (made extra form b b').legal extra form = true := by
  cases form with
  | text => simp [legal, made, Retry.isAttempts_attempts]
  | buttons options =>
    by_cases h : postResult (Retry.attempts Post.transient extra b) = .failed
    · simp [legal, made, Retry.isAttempts_attempts, h]
    · simp [legal, made, Retry.isAttempts_attempts, h]

theorem made_of_legal (h : w.legal extra form = true) : ∃ b b', w = made extra form b b' := by
  obtain ⟨first, fallback⟩ := w
  simp only [legal, Bool.and_eq_true] at h
  obtain ⟨hfirst, hrest⟩ := h
  obtain ⟨b, rfl⟩ := Retry.exists_of_isAttempts hfirst
  cases form with
  | text =>
    cases fallback with
    | none => exact ⟨b, b, rfl⟩
    | some posts => cases hrest
  | buttons options =>
    cases fallback with
    | none => exact ⟨b, b, by simpa [made] using hrest⟩
    | some posts =>
      simp only [Bool.and_eq_true, decide_eq_true_eq] at hrest
      obtain ⟨b', rfl⟩ := Retry.exists_of_isAttempts hrest.2
      exact ⟨b, b', by simp [made, hrest.1]⟩

/-! ## When the first phase fails -/

theorem not_transient_of_isSuccess {p : Post} (h : p.isSuccess = true) : p.transient = false := by
  obtain ⟨accepted, answer⟩ := p
  cases answer <;> first | rfl | cases h

theorem postResult_cons {p : Post} {posts : List Post} (h : posts ≠ []) :
    postResult (p :: posts) = postResult posts := by
  unfold postResult
  rw [List.getLast?_cons_of_ne_nil h]

theorem postResult_singleton {p : Post} : postResult [p] = .failed ↔ p.isSuccess = false := by
  obtain ⟨accepted, answer⟩ := p
  cases answer <;> simp [postResult, Post.isSuccess]

/-- A phase fails when none of its requests is answered with a 2xx. -/
theorem postResult_attempts : postResult (Retry.attempts Post.transient extra b) = .failed ↔
    ∀ j, Retry.Reached Post.transient extra b j → (b j).isSuccess = false := by
  induction extra generalizing b with
  | zero =>
    rw [Retry.attempts, postResult_singleton]
    constructor
    · rintro h j ⟨hj, -⟩
      rwa [Nat.le_zero.mp hj]
    · exact fun h => h 0 Retry.reached_zero
  | succ n ih =>
    unfold Retry.attempts
    split
    · rename_i h0
      rw [postResult_cons Retry.attempts_ne_nil, ih]
      constructor
      · intro h j hj
        cases j with
        | zero =>
          by_contra hs
          rw [Bool.not_eq_false] at hs
          rw [not_transient_of_isSuccess hs] at h0
          cases h0
        | succ j => exact h j (Retry.reached_succ.mp hj).2
      · exact fun h j hj => h (j + 1) (Retry.reached_succ.mpr ⟨h0, hj⟩)
    · rename_i h0
      rw [postResult_singleton]
      constructor
      · rintro h j ⟨-, hj⟩
        cases j with
        | zero => exact h
        | succ j => exact absurd (hj 0 (Nat.succ_pos _)) h0
      · exact fun h => h 0 Retry.reached_zero

/-! ## Copies -/

/-- The provider accepts at most one of the requests that are made: no request of a phase after an
accepted one of it, and, where the buttons' requests all miss a 2xx, none of the fallback's after an
accepted one of theirs. -/
def Once (extra : Nat) (form : Form) (b b' : Nat → Post) : Prop :=
  let reached := Retry.Reached Post.transient extra
  (∀ i j, i < j → reached b j → ¬((b i).accepted = true ∧ (b j).accepted = true)) ∧
  (form ≠ .text → (∀ j, reached b j → (b j).isSuccess = false) →
    (∀ i j, i < j → reached b' j → ¬((b' i).accepted = true ∧ (b' j).accepted = true)) ∧
    ∀ i j, reached b i → reached b' j → ¬((b i).accepted = true ∧ (b' j).accepted = true))

/-- Two phases together have at most one accepted request. -/
theorem countP_append_le_one {xs ys : List Post} :
    (xs ++ ys).countP (·.accepted) ≤ 1 ↔ xs.countP (·.accepted) ≤ 1 ∧
      ys.countP (·.accepted) ≤ 1 ∧ ∀ x ∈ xs, ∀ y ∈ ys, ¬(x.accepted = true ∧ y.accepted = true) := by
  rw [List.countP_append]
  constructor
  · intro h
    refine ⟨by omega, by omega, fun x hx y hy ⟨hx', hy'⟩ => ?_⟩
    have hxs : 0 < xs.countP (·.accepted) := List.countP_pos_iff.mpr ⟨x, hx, hx'⟩
    have hys : 0 < ys.countP (·.accepted) := List.countP_pos_iff.mpr ⟨y, hy, hy'⟩
    omega
  · rintro ⟨hxs, hys, hxy⟩
    by_contra hgt
    obtain ⟨x, hx, hx'⟩ := List.countP_pos_iff.mp (show 0 < xs.countP (·.accepted) by omega)
    obtain ⟨y, hy, hy'⟩ := List.countP_pos_iff.mp (show 0 < ys.countP (·.accepted) by omega)
    exact hxy x hx y hy ⟨hx', hy'⟩

/-- **One send delivers at most one copy** exactly when the provider behaves as `Once` says. -/
theorem copies_made_le_one : (made extra form b b').copies ≤ 1 ↔ Once extra form b b' := by
  have hfirst : (Retry.attempts Post.transient extra b).countP (·.accepted) ≤ 1 ↔ _ :=
    Retry.countP_attempts_le_one
  cases form with
  | text => simpa [copies, made, Once] using hfirst
  | buttons options =>
    simp only [copies, made, Once, ne_eq, reduceCtorEq, not_false_eq_true, true_implies]
    by_cases hfail : postResult (Retry.attempts Post.transient extra b) = .failed
    · have hnone := postResult_attempts.mp hfail
      rw [if_pos hfail, Option.getD_some, countP_append_le_one, hfirst,
        Retry.countP_attempts_le_one]
      refine and_congr_right fun _ => ⟨fun ⟨hself, hcross⟩ _ => ⟨hself, fun i j hi hj => ?_⟩,
        fun h => ⟨(h hnone).1, fun x hx y hy => ?_⟩⟩
      · exact hcross _ (Retry.mem_attempts.mpr ⟨i, hi, rfl⟩) _ (Retry.mem_attempts.mpr ⟨j, hj, rfl⟩)
      · obtain ⟨i, hi, rfl⟩ := Retry.mem_attempts.mp hx
        obtain ⟨j, hj, rfl⟩ := Retry.mem_attempts.mp hy
        exact (h hnone).2 i j hi hj
    · rw [if_neg hfail, Option.getD_none, List.append_nil, hfirst]
      exact ⟨fun h => ⟨h, fun hnone => absurd (postResult_attempts.mpr hnone) hfail⟩, fun h => h.1⟩

end Wire

end Bot
