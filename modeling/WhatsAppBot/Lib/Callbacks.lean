import Mathlib.Data.List.Basic

/-!
# Callbacks on one thread

A call changes the state up to its first `await` and leaves waits behind; the answer to a wait
resumes it, once, and the waits are resumed in any order. `Reach M C start s ks`: the state `s` with
the waits `ks` is reached from `start` by steps that satisfy `C`.
-/

set_option autoImplicit false

namespace Lib

variable {σ κ ε α : Type}

structure Callbacks (σ κ ε α : Type) where
  call : ε → σ → σ × List κ
  resume : κ → α → σ → σ × List κ

namespace Callbacks

inductive Act (κ ε α : Type) where
  | call (e : ε)
  | resume (k : κ) (a : α)

/-- `C` is told the state before the step and the waits that are left by it. -/
inductive Reach (M : Callbacks σ κ ε α) (C : σ → List κ → Act κ ε α → Prop) (start : σ) :
    σ → List κ → Prop
  | start : Reach M C start start []
  | call {s : σ} {ks : List κ} (e : ε) : Reach M C start s ks → C s ks (.call e) →
      Reach M C start (M.call e s).1 (ks ++ (M.call e s).2)
  | resume {s : σ} (ks ks' : List κ) (k : κ) (a : α) : Reach M C start s (ks ++ k :: ks') →
      C s (ks ++ ks') (.resume k a) →
      Reach M C start (M.resume k a s).1 (ks ++ ks' ++ (M.resume k a s).2)

variable {M : Callbacks σ κ ε α} {C : σ → List κ → Act κ ε α → Prop} {start s : σ} {ks : List κ}

/-- What every call and every answer keeps holds of all that is reached. -/
theorem Reach.invariant {I : σ → List κ → Prop} (h : Reach M C start s ks) (hstart : I start [])
    (hcall : ∀ s ks e, I s ks → C s ks (.call e) → I (M.call e s).1 (ks ++ (M.call e s).2))
    (hresume : ∀ s ks ks' k a, I s (ks ++ k :: ks') → C s (ks ++ ks') (.resume k a) →
      I (M.resume k a s).1 (ks ++ ks' ++ (M.resume k a s).2)) : I s ks := by
  induction h with
  | start => exact hstart
  | call e _ hC ih => exact hcall _ _ e ih hC
  | resume ks ks' k a _ hC ih => exact hresume _ ks ks' k a ih hC

end Callbacks

end Lib
