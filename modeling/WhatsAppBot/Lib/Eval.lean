import WhatsAppBot.Lib.Prog

/-!
# Programs under a deterministic semantics

Where every operation has one answer, a program is a function of the state: `Prog.eval h P s` is what
`P` returns and the state it leaves, `h` answering its operations.
-/

set_option autoImplicit false

namespace Lib.Prog

variable {S : Sig} {σ α β : Type} (h : (o : S.Op) → σ → S.Resp o × σ)

def eval : Prog S α → σ → α × σ
  | .ret a, s => (a, s)
  | .op o k, s => (k (h o s).1).eval (h o s).2

@[simp] theorem eval_ret (a : α) (s : σ) : (Prog.ret a : Prog S α).eval h s = (a, s) := rfl

@[simp] theorem eval_pure (a : α) (s : σ) : (pure a : Prog S α).eval h s = (a, s) := rfl

@[simp] theorem eval_call (o : S.Op) (s : σ) : (call o).eval h s = h o s := rfl

@[simp] theorem eval_bind (P : Prog S α) (f : α → Prog S β) (s : σ) :
    (P >>= f).eval h s = (f (P.eval h s).1).eval h (P.eval h s).2 := by
  induction P generalizing s with
  | ret a => rfl
  | op o k ih => exact ih _ _

end Lib.Prog
