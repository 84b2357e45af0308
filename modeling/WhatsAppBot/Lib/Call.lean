import WhatsAppBot.Lib.Interleave

/-!
# Calls in a run

`Call M C i f P s Q s'`: in `s` process `i` is about to execute `P`, with `f` to follow, and in `s'`
it has come to `Q`, whatever the other processes did in between. The call has returned `x` when `Q`
is `.ret x`.

A call keeps to its alphabet (`Call.only`) and to every monitor that accepts it (`Call.wp`);
`Call.keeps` is its rule for what the process holds.
-/

set_option autoImplicit false

namespace Lib

variable {S : Sig} {σ τ Λ A α : Type}

inductive Call (M : Sem S σ τ Λ) (C : Sys S σ τ Λ → Event S σ τ Λ → Prop) (i : Nat)
    (f : α → Prog S Unit) (P : Prog S α) (s : Sys S σ τ Λ) : Prog S α → Sys S σ τ Λ → Prop
  | start {p : Proc S τ Λ} : s.proc i = some p → p.rest = P >>= f → Call M C i f P s P s
  | own {s' : Sys S σ τ Λ} {p : Proc S τ Λ} {o : S.Op} {k : S.Resp o → Prog S α} {r : S.Resp o}
      {w : σ} {t : τ} :
      Call M C i f P s (.op o k) s' → s'.proc i = some p →
      M.step (s'.others i) s'.shared p.held o r = some (w, t) → C s' (.op i p.label p.held o r w) →
      Call M C i f P s (k r)
        (s'.put i (some ⟨p.label, t, k r >>= f⟩) w (.op i p.label p.held o r w))
  | other {s' s'' : Sys S σ τ Λ} {Q : Prog S α} {e : Event S σ τ Λ} :
      Call M C i f P s Q s' → Step M s' e s'' → C s' e → e.actor ≠ i → Call M C i f P s Q s''

namespace Call

variable {M : Sem S σ τ Λ} {C : Sys S σ τ Λ → Event S σ τ Λ → Prop} {i : Nat}
  {f : α → Prog S Unit} {P Q : Prog S α} {s s' : Sys S σ τ Λ} {w : σ}

/-- What is left of the process. -/
theorem rest (h : Call M C i f P s Q s') : ∃ p, s'.proc i = some p ∧ p.rest = Q >>= f := by
  induction h with
  | start hp hrest => exact ⟨_, hp, hrest⟩
  | own _ hp _ _ _ => exact ⟨_, by rw [Sys.proc_put hp, if_pos rfl], rfl⟩
  | other _ hs _ hi ih =>
    obtain ⟨p, hp, hrest⟩ := ih
    exact ⟨p, (hs.proc_other hi).trans hp, hrest⟩

theorem reach (hr : Reach M C w s) (h : Call M C i f P s Q s') : Reach M C w s' := by
  induction h with
  | start => exact hr
  | own hcall hp hstep hc ih =>
    obtain ⟨q, hq, hrest⟩ := hcall.rest
    obtain rfl := Option.some.inj (hp.symm.trans hq)
    exact .step ih (.op hp hrest hstep) hc
  | other _ hs hc _ ih => exact .step ih hs hc

theorem only {φ : S.Op → Prop} (hP : P.Only φ) (h : Call M C i f P s Q s') : Q.Only φ := by
  induction h with
  | start => exact hP
  | own _ _ _ _ ih => exact ih.2 _
  | other _ _ _ _ ih => exact ih

theorem wp {mon : Monitor S A} {a₀ : A} {R : α → A → Prop}
    (hmay : ∀ {ts w t o r x}, M.step ts w t o r = some x → mon.may o r)
    (hP : P.wp mon R (track mon a₀ i s.hist)) (h : Call M C i f P s Q s') :
    Q.wp mon R (track mon a₀ i s'.hist) := by
  induction h with
  | start => exact hP
  | own _ _ hstep _ ih =>
    rw [track_op_self]
    exact ih.2 _ (hmay hstep)
  | other _ hs _ hi ih =>
    rw [hs.track_other hi]
    exact ih

/-- What no step of another process takes away and every operation of the call keeps. -/
theorem keeps {φ : S.Op → Prop} {K : σ → τ → Prop} (hP : P.Only φ)
    (hself : ∀ {ts w t o r w' t'}, φ o → M.step ts w t o r = some (w', t') → K w t → K w' t')
    (hother : ∀ {ts w t o r w' t' x}, M.step ts w t o r = some (w', t') → K w x → K w' x)
    (h : Call M C i f P s Q s') {p : Proc S τ Λ} (hp : s.proc i = some p) (hk : K s.shared p.held) :
    ∃ q, s'.proc i = some q ∧ K s'.shared q.held := by
  induction h with
  | start => exact ⟨p, hp, hk⟩
  | own hcall hq hstep _ ih =>
    obtain ⟨q, hq', hkq⟩ := ih
    obtain rfl := Option.some.inj (hq.symm.trans hq')
    exact ⟨_, by rw [Sys.proc_put hq, if_pos rfl], hself (hcall.only hP).1 hstep hkq⟩
  | other _ hs _ hi ih =>
    obtain ⟨q, hq, hkq⟩ := ih
    refine ⟨q, (hs.proc_other hi).trans hq, ?_⟩
    cases hs with
    | op _ _ hstep => exact hother hstep hkq
    | _ => exact hkq

end Call

end Lib
