import Mathlib.Data.List.Basic

/-!
# Programs as trees of operations, and monitors over them

`Prog S α`: a program that performs operations of the signature `S` one at a time and returns an
`α`. What an operation answers is not part of the program: a semantics (`Interleave.lean`,
`Exec.lean`) picks the answer, so one program is run alone, interleaved with others or cut off
after any operation.

`Monitor S A`: a local state `A` that every answered operation moves. `ok` says which operation may
come next, `may` which answers the semantics can give. `Prog.wp M P Q a`: from `a`, `P` performs
only operations the monitor allows and returns in `Q`. `Prog.Only φ P`: every operation of `P`
satisfies `φ` (its alphabet). The rules follow the program's text: `wp_bind`, `wp_forM`,
`Only.bind`, `Only.forM`; `Only.wp` gets a `wp` from an alphabet that stays inside a set of states.
-/

set_option autoImplicit false

namespace Lib

structure Sig where
  Op : Type
  Resp : Op → Type

inductive Prog (S : Sig) (α : Type) where
  | ret (a : α)
  | op (o : S.Op) (k : S.Resp o → Prog S α)

structure Monitor (S : Sig) (A : Type) where
  ok : A → S.Op → Prop
  next : A → (o : S.Op) → S.Resp o → A
  may : (o : S.Op) → S.Resp o → Prop := fun _ _ => True

/-- Two monitors side by side. -/
def Monitor.both {S : Sig} {A B : Type} (M : Monitor S A) (N : Monitor S B) : Monitor S (A × B) where
  ok a o := M.ok a.1 o ∧ N.ok a.2 o
  next a o r := (M.next a.1 o r, N.next a.2 o r)
  may o r := M.may o r ∧ N.may o r

namespace Prog

variable {S : Sig} {α β γ : Type}

def bind : Prog S α → (α → Prog S β) → Prog S β
  | .ret a, f => f a
  | .op o k, f => .op o fun r => (k r).bind f

instance : Monad (Prog S) where
  pure := .ret
  bind := bind

/-- The program that performs `o` and returns its answer. -/
def call (o : S.Op) : Prog S (S.Resp o) := .op o .ret

theorem op_bind (o : S.Op) (k : S.Resp o → Prog S α) (f : α → Prog S β) :
    (Prog.op o k : Prog S α) >>= f = .op o fun r => k r >>= f := rfl

theorem bind_assoc (P : Prog S α) (f : α → Prog S β) (g : β → Prog S γ) :
    (P >>= f) >>= g = P >>= fun a => f a >>= g := by
  induction P with
  | ret a => rfl
  | op o k ih => simp only [op_bind, ih]

theorem forM_cons (f : β → Prog S PUnit) (x : β) (xs : List β) :
    (x :: xs).forM f = f x >>= fun _ => xs.forM f := rfl

theorem forM_append (f : β → Prog S PUnit) (xs ys : List β) :
    (xs ++ ys).forM f = xs.forM f >>= fun _ => ys.forM f := by
  induction xs with
  | nil => rfl
  | cons x xs ih => rw [List.cons_append, forM_cons, ih, forM_cons, bind_assoc]

theorem forM_singleton (f : β → Prog S PUnit) (x : β) : [x].forM f = f x := by
  rw [forM_cons]
  induction f x with
  | ret => rfl
  | op o k ih => simp only [op_bind, ih]

theorem forM_flatMap (f : β → Prog S PUnit) (g : γ → List β) (xs : List γ) :
    (xs.flatMap g).forM f = xs.forM fun x => (g x).forM f := by
  induction xs with
  | nil => rfl
  | cons x xs ih => rw [List.flatMap_cons, forM_append, ih, forM_cons]

/-! ## Monitors -/

variable {A : Type} (M : Monitor S A)

def wp : Prog S α → (α → A → Prop) → A → Prop
  | .ret x, Q, a => Q x a
  | .op o k, Q, a => M.ok a o ∧ ∀ r, M.may o r → (k r).wp Q (M.next a o r)

@[simp] theorem wp_ret (x : α) (Q : α → A → Prop) (a : A) : wp M (.ret x) Q a ↔ Q x a := Iff.rfl

@[simp] theorem wp_pure (x : α) (Q : α → A → Prop) (a : A) :
    wp M (pure x) Q a ↔ Q x a := Iff.rfl

theorem wp_op (o : S.Op) (k : S.Resp o → Prog S α) (Q : α → A → Prop) (a : A) :
    wp M (.op o k) Q a ↔ M.ok a o ∧ ∀ r, M.may o r → wp M (k r) Q (M.next a o r) := Iff.rfl

@[simp] theorem wp_call (o : S.Op) (Q : S.Resp o → A → Prop) (a : A) :
    wp M (call o) Q a ↔ M.ok a o ∧ ∀ r, M.may o r → Q r (M.next a o r) := Iff.rfl

@[simp] theorem wp_bind (P : Prog S α) (f : α → Prog S β) (Q : β → A → Prop) (a : A) :
    wp M (P >>= f) Q a ↔ wp M P (fun x b => wp M (f x) Q b) a := by
  induction P generalizing a with
  | ret x => rfl
  | op o k ih => simp only [op_bind, wp_op, ih]

variable {M}

theorem wp_call_bind {o : S.Op} {f : S.Resp o → Prog S α} {Q : α → A → Prop} {a : A}
    (h : M.ok a o) (hf : ∀ r, M.may o r → wp M (f r) Q (M.next a o r)) :
    wp M (call o >>= f) Q a := by
  rw [wp_bind, wp_call]
  exact ⟨h, hf⟩

theorem wp_mono {P : Prog S α} {Q Q' : α → A → Prop} {a : A} (h : wp M P Q a)
    (hQ : ∀ x b, Q x b → Q' x b) : wp M P Q' a := by
  induction P generalizing a with
  | ret x => exact hQ _ _ h
  | op o k ih => exact ⟨h.1, fun r hr => ih r (h.2 r hr)⟩

/-- Two monitors that accept a program accept it side by side. -/
theorem wp_both {B : Type} {N : Monitor S B} {P : Prog S α} {Q : α → A → Prop} {R : α → B → Prop}
    {a : A} {b : B} (h : wp M P Q a) (h' : wp N P R b) :
    wp (M.both N) P (fun x c => Q x c.1 ∧ R x c.2) (a, b) := by
  induction P generalizing a b with
  | ret x => exact ⟨h, h'⟩
  | op o k ih => exact ⟨⟨h.1, h'.1⟩, fun r hr => ih r (h.2 r hr.1) (h'.2 r hr.2)⟩

/-- A loop keeps what its body keeps. -/
theorem wp_forM {I : A → Prop} {xs : List β} {f : β → Prog S PUnit} {a : A}
    (hf : ∀ x ∈ xs, ∀ b, I b → wp M (f x) (fun _ => I) b) (ha : I a) :
    wp M (xs.forM f) (fun _ => I) a := by
  induction xs generalizing a with
  | nil => exact ha
  | cons x xs ih =>
    rw [forM_cons, wp_bind]
    exact wp_mono (hf x (by simp) a ha) fun _ b hb =>
      ih (fun y hy => hf y (List.mem_cons_of_mem _ hy)) hb

/-- A loop whose invariant speaks of what is left of the list. -/
theorem wp_forM_rest {I : List β → A → Prop} {xs : List β} {f : β → Prog S PUnit} {a : A}
    (hf : ∀ x rest b, I (x :: rest) b → wp M (f x) (fun _ => I rest) b) (ha : I xs a) :
    wp M (xs.forM f) (fun _ => I []) a := by
  induction xs generalizing a with
  | nil => exact ha
  | cons x xs ih =>
    rw [forM_cons, wp_bind]
    exact wp_mono (hf x xs a ha) fun _ b hb => ih hb

/-! ## Alphabets -/

/-- Every operation of the tree satisfies `φ`. -/
def Only (φ : S.Op → Prop) : Prog S α → Prop
  | .ret _ => True
  | .op o k => φ o ∧ ∀ r, Only φ (k r)

variable {φ ψ : S.Op → Prop}

@[simp] theorem only_ret (x : α) : Only φ (.ret x : Prog S α) := trivial

@[simp] theorem only_pure (x : α) : Only φ (pure x : Prog S α) := trivial

@[simp] theorem only_call {o : S.Op} : Only φ (call o) ↔ φ o :=
  ⟨fun h => h.1, fun h => ⟨h, fun _ => trivial⟩⟩

theorem Only.bind {P : Prog S α} {f : α → Prog S β} (h : Only φ P) (hf : ∀ x, Only φ (f x)) :
    Only φ (P >>= f) := by
  induction P with
  | ret x => exact hf x
  | op o k ih => exact ⟨h.1, fun r => ih r (h.2 r)⟩

theorem Only.call_bind {o : S.Op} {f : S.Resp o → Prog S α} (h : φ o) (hf : ∀ r, Only φ (f r)) :
    Only φ (call o >>= f) :=
  (only_call.mpr h).bind hf

theorem Only.ite {c : Prop} [Decidable c] {P Q : Prog S α} (hP : Only φ P) (hQ : Only φ Q) :
    Only φ (if c then P else Q) := by
  split
  · exact hP
  · exact hQ

theorem Only.mono {P : Prog S α} (h : Only φ P) (hφ : ∀ o, φ o → ψ o) : Only ψ P := by
  induction P with
  | ret x => trivial
  | op o k ih => exact ⟨hφ _ h.1, fun r => ih r (h.2 r)⟩

theorem Only.and {P : Prog S α} (h : Only φ P) (h' : Only ψ P) :
    Only (fun o => φ o ∧ ψ o) P := by
  induction P with
  | ret x => trivial
  | op o k ih => exact ⟨⟨h.1, h'.1⟩, fun r => ih r (h.2 r) (h'.2 r)⟩

theorem Only.forM {xs : List β} {f : β → Prog S PUnit} (hf : ∀ x ∈ xs, Only φ (f x)) :
    Only φ (xs.forM f) := by
  induction xs with
  | nil => trivial
  | cons x xs ih =>
    rw [forM_cons]
    exact (hf x (by simp)).bind fun _ => ih fun y hy => hf y (List.mem_cons_of_mem _ hy)

/-- A program whose alphabet keeps the monitor within `B` is accepted from `B`. -/
theorem Only.wp {B : A → Prop} {P : Prog S α} {a : A} (h : Only φ P) (ha : B a)
    (hB : ∀ b o, B b → φ o → M.ok b o ∧ ∀ r, M.may o r → B (M.next b o r)) :
    P.wp M (fun _ => B) a := by
  induction P generalizing a with
  | ret x => exact ha
  | op o k ih =>
    have ho := hB a o ha h.1
    exact ⟨ho.1, fun r hr => ih r (h.2 r) (ho.2 r hr)⟩

/-- A program whose alphabet leaves the monitor where it is, with what follows it. -/
theorem Only.wp_bind {P : Prog S α} {f : α → Prog S β} {Q : β → A → Prop} {a : A} (h : Only φ P)
    (hstay : ∀ o, φ o → M.ok a o ∧ ∀ r, M.next a o r = a) (hf : ∀ x, (f x).wp M Q a) :
    (P >>= f).wp M Q a := by
  induction P with
  | ret x => exact hf x
  | op o k ih =>
    obtain ⟨hok, hnext⟩ := hstay o h.1
    refine ⟨hok, fun r _ => ?_⟩
    rw [hnext r]
    exact ih r (h.2 r)

/-! ## What a program may do -/

/-- Some path performs an operation that satisfies `φ`. -/
def MayDo (φ : S.Op → Prop) : Prog S α → Prop
  | .ret _ => False
  | .op o k => φ o ∨ ∃ r, MayDo φ (k r)

/-- Some path returns `x`. -/
def MayReturn (x : α) : Prog S α → Prop
  | .ret y => y = x
  | .op _ k => ∃ r, MayReturn x (k r)

theorem MayReturn.bind {P : Prog S α} {f : α → Prog S β} {x : α} {y : β} (h : MayReturn x P)
    (hf : MayReturn y (f x)) : MayReturn y (P >>= f) := by
  induction P with
  | ret z => exact h ▸ hf
  | op o k ih => obtain ⟨r, hr⟩ := h; exact ⟨r, ih r hr⟩

theorem MayReturn.call_bind {o : S.Op} {f : S.Resp o → Prog S α} {y : α} (r : S.Resp o)
    (hf : MayReturn y (f r)) : MayReturn y (call o >>= f) :=
  ⟨r, hf⟩

theorem MayDo.bind_left {P : Prog S α} {f : α → Prog S β} (h : MayDo φ P) :
    MayDo φ (P >>= f) := by
  induction P with
  | ret x => cases h
  | op o k ih =>
    rcases h with ho | ⟨r, hr⟩
    · exact .inl ho
    · exact .inr ⟨r, ih r hr⟩

theorem MayReturn.mayDo_bind {P : Prog S α} {f : α → Prog S β} {x : α} (h : MayReturn x P)
    (hf : MayDo φ (f x)) : MayDo φ (P >>= f) := by
  induction P with
  | ret z => exact h ▸ hf
  | op o k ih => obtain ⟨r, hr⟩ := h; exact .inr ⟨r, ih r hr⟩

theorem MayDo.call_bind {o : S.Op} {f : S.Resp o → Prog S α} (r : S.Resp o)
    (hf : MayDo φ (f r)) : MayDo φ (call o >>= f) :=
  .inr ⟨r, hf⟩

theorem mayReturn_bind {P : Prog S α} {f : α → Prog S β} {y : β} :
    MayReturn y (P >>= f) ↔ ∃ x, MayReturn x P ∧ MayReturn y (f x) := by
  refine ⟨fun h => ?_, fun ⟨_, hx, hy⟩ => hx.bind hy⟩
  induction P with
  | ret x => exact ⟨x, rfl, h⟩
  | op o k ih =>
    obtain ⟨r, hr⟩ := h
    obtain ⟨x, hx, hy⟩ := ih r hr
    exact ⟨x, ⟨r, hx⟩, hy⟩

/-- What is done after a program that cannot do it is done by the rest. -/
theorem MayDo.of_bind {P : Prog S α} {f : α → Prog S β} (hP : Only (fun o => ¬φ o) P)
    (h : MayDo φ (P >>= f)) : ∃ x, MayReturn x P ∧ MayDo φ (f x) := by
  induction P with
  | ret x => exact ⟨x, rfl, h⟩
  | op o k ih =>
    rcases h with ho | ⟨r, hr⟩
    · exact absurd ho hP.1
    · obtain ⟨x, hx, hd⟩ := ih r (hP.2 r) hr
      exact ⟨x, ⟨r, hx⟩, hd⟩

/-- What a program may do is in its alphabet. -/
theorem Only.of_mayDo {P : Prog S α} (h : Only φ P) (hd : MayDo ψ P) : ∃ o, φ o ∧ ψ o := by
  induction P with
  | ret x => cases hd
  | op o k ih =>
    rcases hd with ho | ⟨r, hr⟩
    · exact ⟨o, h.1, ho⟩
    · exact ih r (h.2 r) hr

/-! ## Watching the alphabet -/

/-- The monitor that watches the alphabet. -/
def alphabet (φ : S.Op → Prop) : Monitor S Unit where
  ok _ o := φ o
  next _ _ _ := ()

theorem Only.of_wp {P : Prog S α} {Q : α → Unit → Prop} (h : P.wp (alphabet φ) Q ()) :
    Only φ P := by
  induction P with
  | ret x => trivial
  | op o k ih => exact ⟨h.1, fun r => ih r (h.2 r trivial)⟩

end Prog

end Lib
