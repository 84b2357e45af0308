import WhatsAppBot.Lib.Exec

/-!
# Crash conditions

`P.wpc M C Q w t`: running alone from `w` with `t` open, `P` is in a shared state that satisfies `C`
wherever it is interrupted, and returns in `Q` (`Exec.of_wpc`). The rules follow the program's text:
`wpc_bind`, `wpc_mono`.

`Sig.sum` puts two signatures side by side; `Prog.inl` is a program over the first one run over
both.
-/

set_option autoImplicit false

namespace Lib

variable {S T : Sig} {σ τ Λ α β : Type}

namespace Prog

def wpc (M : Sem S σ τ Λ) (C : σ → Prop) : Prog S α → (α → σ → τ → Prop) → σ → τ → Prop
  | .ret a, Q, w, t => C w ∧ Q a w t
  | .op o k, Q, w, t =>
    C w ∧ ∀ r w' t', M.step [] w t o r = some (w', t') → (k r).wpc M C Q w' t'

variable {M : Sem S σ τ Λ} {C : σ → Prop} {Q Q' : α → σ → τ → Prop} {w : σ} {t : τ}

theorem wpc_mono {P : Prog S α} (h : P.wpc M C Q w t) (hQ : ∀ a w t, Q a w t → Q' a w t) :
    P.wpc M C Q' w t := by
  induction P generalizing w t with
  | ret a => exact ⟨h.1, hQ _ _ _ h.2⟩
  | op o k ih => exact ⟨h.1, fun r w' t' hs => ih r (h.2 r w' t' hs)⟩

theorem wpc_bind {P : Prog S α} {f : α → Prog S β} {R : β → σ → τ → Prop}
    (h : P.wpc M C (fun a w t => (f a).wpc M C R w t) w t) : (P >>= f).wpc M C R w t := by
  induction P generalizing w t with
  | ret a => exact h.2
  | op o k ih => exact ⟨h.1, fun r w' t' hs => ih r (h.2 r w' t' hs)⟩

end Prog

theorem Exec.of_wpc {M : Sem S σ τ Λ} {C : σ → Prop} {Q : α → σ → τ → Prop} {P : Prog S α}
    {w w' : σ} {t t' : τ} {tr : List (Obs S)} {e : Ending α} (h : Exec M w t P tr e w' t')
    (hP : P.wpc M C Q w t) : C w' ∧ ∀ a, e = .returned a → Q a w' t' := by
  induction h with
  | ret => exact ⟨hP.1, fun a ha => by cases ha; exact hP.2⟩
  | @raised _ _ P | @died _ _ P =>
    refine ⟨?_, nofun⟩
    cases P with
    | ret | op => exact hP.1
  | op hs _ ih => exact ih (hP.2 _ _ _ hs)

/-! ## Two signatures side by side -/

def Sig.sum (S T : Sig) : Sig := ⟨S.Op ⊕ T.Op, Sum.elim S.Resp T.Resp⟩

namespace Prog

def inl : Prog S α → Prog (S.sum T) α
  | .ret a => .ret a
  | .op o k => .op (Sum.inl o) fun r => (k r).inl

theorem inl_bind (P : Prog S α) (f : α → Prog S β) :
    ((P >>= f).inl : Prog (S.sum T) β) = P.inl >>= fun a => (f a).inl := by
  induction P with
  | ret a => rfl
  | op o k ih => exact congrArg (Prog.op (S := S.sum T) (Sum.inl o)) (funext ih)

end Prog

end Lib
