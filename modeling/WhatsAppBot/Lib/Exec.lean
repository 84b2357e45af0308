import WhatsAppBot.Lib.Interleave

/-!
# One program running alone

`Exec M w t P tr e w' t'`: with nothing else running, `P` performs the operations of the trace `tr`
and ends as `e`: it returned, it was left by an exception, or its process died. Both interruptions
can strike before any operation and after the last one.

`Leaves M w t P tr w' t' Q`: the same up to the point where `Q` is left of `P`; `Prog.At` is the
operation a program is at.

`Exec.sound`: a program that a monitor accepts keeps every relation `L` between the state and the
monitor that one allowed operation keeps, and every operation of its trace was performed in such a
state. The relation may say which answers can come. `Exec.bind_inv` cuts an execution
where the program is composed.

`Prog.Last φ`: an operation that satisfies `φ` ends the program, so none was performed while one is
left (`Leaves.before_last`).
-/

set_option autoImplicit false

namespace Lib

variable {S : Sig} {σ τ Λ A α β : Type}

inductive Ending (α : Type) where
  | returned (a : α)
  | raised
  | died

def Ending.Interrupted : Ending α → Prop
  | .returned _ => False
  | _ => True

/-- An operation with its answer. -/
abbrev Obs (S : Sig) := (o : S.Op) × S.Resp o

inductive Exec (M : Sem S σ τ Λ) : σ → τ → Prog S α → List (Obs S) → Ending α → σ → τ → Prop
  | ret {w : σ} {t : τ} {a : α} : Exec M w t (.ret a) [] (.returned a) w t
  | raised {w : σ} {t : τ} {P : Prog S α} : Exec M w t P [] .raised w t
  | died {w : σ} {t : τ} {P : Prog S α} : Exec M w t P [] .died w t
  | op {w w' w'' : σ} {t t' t'' : τ} {o : S.Op} {r : S.Resp o} {k : S.Resp o → Prog S α}
      {tr : List (Obs S)} {e : Ending α} :
      M.step [] w t o r = some (w', t') → Exec M w' t' (k r) tr e w'' t'' →
      Exec M w t (.op o k) (⟨o, r⟩ :: tr) e w'' t''

/-- The monitor's state after a trace. -/
def after (mon : Monitor S A) : A → List (Obs S) → A
  | a, [] => a
  | a, x :: tr => after mon (mon.next a x.1 x.2) tr

namespace Exec

variable {M : Sem S σ τ Λ} {w w' : σ} {t t' : τ} {P : Prog S α} {tr : List (Obs S)}
  {e : Ending α} {mon : Monitor S A} {Q : α → A → Prop} {a : A}

theorem sound {L : σ → τ → A → Prop}
    (hL : ∀ {w t a o r w' t'}, M.step [] w t o r = some (w', t') → mon.ok a o → L w t a →
      mon.may o r ∧ L w' t' (mon.next a o r))
    (h : Exec M w t P tr e w' t') (hP : P.wp mon Q a) (ha : L w t a) :
    L w' t' (after mon a tr) ∧ ∀ x, e = .returned x → Q x (after mon a tr) := by
  induction h generalizing a with
  | ret => exact ⟨ha, fun x hx => by cases hx; exact hP⟩
  | raised | died => exact ⟨ha, nofun⟩
  | op hs _ ih =>
    obtain ⟨hmay, hnext⟩ := hL hs hP.1 ha
    exact ih (hP.2 _ hmay) hnext

/-- Every operation of the trace was allowed in a state related to the monitor's. -/
theorem sound_mem {L : σ → τ → A → Prop}
    (hL : ∀ {w t a o r w' t'}, M.step [] w t o r = some (w', t') → mon.ok a o → L w t a →
      mon.may o r ∧ L w' t' (mon.next a o r))
    (h : Exec M w t P tr e w' t') (hP : P.wp mon Q a) (ha : L w t a) {x : Obs S} (hx : x ∈ tr) :
    ∃ w₁ t₁ a₁, L w₁ t₁ a₁ ∧ mon.ok a₁ x.1 := by
  induction h generalizing a with
  | ret | raised | died => cases hx
  | op hs _ ih =>
    rcases List.mem_cons.mp hx with rfl | hx
    · exact ⟨_, _, a, ha, hP.1⟩
    · obtain ⟨hmay, hnext⟩ := hL hs hP.1 ha
      exact ih (hP.2 _ hmay) hnext hx

theorem bind_inv {f : α → Prog S β} {e : Ending β} (h : Exec M w t (P >>= f) tr e w' t') :
    (∃ x w₁ t₁ tr₁ tr₂, tr = tr₁ ++ tr₂ ∧ Exec M w t P tr₁ (.returned x) w₁ t₁ ∧
      Exec M w₁ t₁ (f x) tr₂ e w' t') ∨
    (e = .raised ∧ Exec M w t P tr .raised w' t') ∨
    (e = .died ∧ Exec M w t P tr .died w' t') := by
  induction P generalizing w t tr with
  | ret x => exact .inl ⟨x, w, t, [], tr, rfl, .ret, h⟩
  | op o k ih =>
    cases h with
    | raised => exact .inr (.inl ⟨rfl, .raised⟩)
    | died => exact .inr (.inr ⟨rfl, .died⟩)
    | op hs h =>
      rcases ih _ h with ⟨x, w₁, t₁, tr₁, tr₂, rfl, h₁, h₂⟩ | ⟨rfl, hP⟩ | ⟨rfl, hP⟩
      · exact .inl ⟨x, w₁, t₁, _, tr₂, rfl, .op hs h₁, h₂⟩
      · exact .inr (.inl ⟨rfl, .op hs hP⟩)
      · exact .inr (.inr ⟨rfl, .op hs hP⟩)

theorem bind {f : α → Prog S β} {x : α} {e : Ending β} {w₁ : σ} {t₁ : τ} {tr₁ tr₂ : List (Obs S)}
    (h₁ : Exec M w t P tr₁ (.returned x) w₁ t₁) (h₂ : Exec M w₁ t₁ (f x) tr₂ e w' t') :
    Exec M w t (P >>= f) (tr₁ ++ tr₂) e w' t' := by
  generalize hx : Ending.returned x = e₁ at h₁
  induction h₁ with
  | ret => cases hx; exact h₂
  | raised | died => cases hx
  | op hs _ ih => exact .op hs (ih h₂ hx)

/-- What no operation of a program changes. -/
theorem keeps {φ : S.Op → Prop} {I : σ → τ → Prop}
    (hI : ∀ {w t o r w' t'}, φ o → M.step [] w t o r = some (w', t') → I w t → I w' t')
    (h : Exec M w t P tr e w' t') (hP : P.Only φ) (hw : I w t) : I w' t' := by
  induction h with
  | ret | raised | died => exact hw
  | op hs _ ih => exact ih (hP.2 _) (hI hP.1 hs hw)

/-- A program that returned has performed its first operation. -/
theorem op_inv {o : S.Op} {k : S.Resp o → Prog S α} {x : α}
    (h : Exec M w t (.op o k) tr (.returned x) w' t') :
    ∃ r w₁ t₁ tr₁, tr = ⟨o, r⟩ :: tr₁ ∧ M.step [] w t o r = some (w₁, t₁) ∧
      Exec M w₁ t₁ (k r) tr₁ (.returned x) w' t' := by
  cases h with
  | op hs h => exact ⟨_, _, _, _, rfl, hs, h⟩

/-- A composed program that returned has returned from its first part. -/
theorem bind_returned {f : α → Prog S β} {y : β}
    (h : Exec M w t (P >>= f) tr (.returned y) w' t') :
    ∃ x w₁ t₁ tr₁ tr₂, tr = tr₁ ++ tr₂ ∧ Exec M w t P tr₁ (.returned x) w₁ t₁ ∧
      Exec M w₁ t₁ (f x) tr₂ (.returned y) w' t' := by
  rcases bind_inv h with hx | ⟨he, -⟩ | ⟨he, -⟩
  · exact hx
  · cases he
  · cases he

theorem call_bind_returned {o : S.Op} {f : S.Resp o → Prog S α} {x : α}
    (h : Exec M w t (Prog.call o >>= f) tr (.returned x) w' t') :
    ∃ r w₁ t₁ tr₁, tr = ⟨o, r⟩ :: tr₁ ∧ M.step [] w t o r = some (w₁, t₁) ∧
      Exec M w₁ t₁ (f r) tr₁ (.returned x) w' t' :=
  op_inv h

theorem call_returned {o : S.Op} {r : S.Resp o}
    (h : Exec M w t (Prog.call o) tr (.returned r) w' t') : M.step [] w t o r = some (w', t') := by
  obtain ⟨r', w₁, t₁, tr₁, -, hs, hret⟩ := op_inv h
  cases hret
  exact hs

theorem pure_returned {a b : α} (h : Exec M w t (pure a) tr (.returned b) w' t') :
    b = a ∧ tr = [] ∧ w' = w ∧ t' = t := by
  cases h
  exact ⟨rfl, rfl, rfl, rfl⟩

end Exec

/-! ## Up to a point -/

/-- The next operation of the program satisfies `φ`. -/
def Prog.At (φ : S.Op → Prop) : Prog S α → Prop
  | .ret _ => False
  | .op o _ => φ o

instance (φ : S.Op → Prop) [DecidablePred φ] (P : Prog S α) : Decidable (P.At φ) := by
  cases P with
  | ret => exact .isFalse id
  | op o => exact inferInstanceAs (Decidable (φ o))

inductive Leaves (M : Sem S σ τ Λ) : σ → τ → Prog S α → List (Obs S) → σ → τ → Prog S α → Prop
  | here {w : σ} {t : τ} {P : Prog S α} : Leaves M w t P [] w t P
  | op {w w' w'' : σ} {t t' t'' : τ} {o : S.Op} {r : S.Resp o} {k : S.Resp o → Prog S α}
      {tr : List (Obs S)} {Q : Prog S α} :
      M.step [] w t o r = some (w', t') → Leaves M w' t' (k r) tr w'' t'' Q →
      Leaves M w t (.op o k) (⟨o, r⟩ :: tr) w'' t'' Q

namespace Leaves

variable {M : Sem S σ τ Λ} {w w' : σ} {t t' : τ} {P Q : Prog S α} {tr : List (Obs S)}
  {φ : S.Op → Prop} {o : S.Op} {k : S.Resp o → Prog S α}

/-- A program that is past its first operation has performed it. -/
theorem op_inv (h : Leaves M w t (.op o k) tr w' t' Q) (hQ : Q.At φ) (ho : ¬φ o) :
    ∃ r w₁ t₁ tr₁, tr = ⟨o, r⟩ :: tr₁ ∧ M.step [] w t o r = some (w₁, t₁) ∧
      Leaves M w₁ t₁ (k r) tr₁ w' t' Q := by
  cases h with
  | here => exact absurd hQ ho
  | op hs h => exact ⟨_, _, _, _, rfl, hs, h⟩

/-- The operation that is next was allowed by every monitor that accepts the program. -/
theorem ok {mon : Monitor S A} {R : α → A → Prop} {a : A} (hmay : ∀ o r, mon.may o r)
    (h : Leaves M w t P tr w' t' Q) (hP : P.wp mon R a) (hQ : Q.At φ) :
    ∃ o, φ o ∧ mon.ok (after mon a tr) o := by
  induction h generalizing a with
  | @here w t P =>
    cases P with
    | ret => cases hQ
    | op o k => exact ⟨o, hQ, hP.1⟩
  | op _ _ ih => exact ih (hP.2 _ (hmay _ _)) hQ

/-- What no operation changes. -/
theorem keeps {I : σ → τ → Prop} (hI : ∀ {w t o r w' t'}, φ o → M.step [] w t o r = some (w', t') →
    I w t → I w' t') (h : Leaves M w t P tr w' t' Q) (htr : ∀ x ∈ tr, φ x.1) (hw : I w t) :
    I w' t' := by
  induction h with
  | here => exact hw
  | op hs _ ih =>
    exact ih (fun x hx => htr x (List.mem_cons_of_mem _ hx)) (hI (htr _ List.mem_cons_self) hs hw)

/-- A point in a composed program is in its first part, or behind it. -/
theorem at_bind {P : Prog S α} {f : α → Prog S β} {Q : Prog S β}
    (h : Leaves M w t (P >>= f) tr w' t' Q) (hQ : Q.At φ) :
    (∃ P', Leaves M w t P tr w' t' P' ∧ P'.At φ) ∨
      ∃ x w₁ t₁ tr₁ tr₂, tr = tr₁ ++ tr₂ ∧ Exec M w t P tr₁ (.returned x) w₁ t₁ ∧
        Leaves M w₁ t₁ (f x) tr₂ w' t' Q := by
  induction P generalizing w t tr with
  | ret x => exact .inr ⟨x, w, t, [], tr, rfl, .ret, h⟩
  | op o k ih =>
    cases h with
    | here => exact .inl ⟨_, .here, hQ⟩
    | op hs h =>
      rcases ih _ h with ⟨P', hP', hat⟩ | ⟨x, w₁, t₁, tr₁, tr₂, rfl, hx, hrest⟩
      · exact .inl ⟨P', .op hs hP', hat⟩
      · exact .inr ⟨x, w₁, t₁, _, tr₂, rfl, .op hs hx, hrest⟩

/-- A program never gets to an operation it does not have. -/
theorem not_at (h : Leaves M w t P tr w' t' Q) (hP : P.Only fun o => ¬φ o) : ¬Q.At φ := by
  induction h with
  | @here w t P =>
    cases P with
    | ret => exact id
    | op o k => exact hP.1
  | op _ _ ih => exact ih (hP.2 _)

/-- A point that cannot be in the first part is behind it. -/
theorem past {P : Prog S α} {f : α → Prog S β} {Q : Prog S β}
    (h : Leaves M w t (P >>= f) tr w' t' Q) (hP : P.Only fun o => ¬φ o) (hQ : Q.At φ) :
    ∃ x w₁ t₁ tr₁ tr₂, tr = tr₁ ++ tr₂ ∧ Exec M w t P tr₁ (.returned x) w₁ t₁ ∧
      Leaves M w₁ t₁ (f x) tr₂ w' t' Q :=
  (h.at_bind hQ).resolve_left fun ⟨_, hP', hat⟩ => hP'.not_at hP hat

end Leaves

/-! ## Publishing at the end -/

namespace Prog

/-- After an operation that satisfies `φ` the program is over. -/
def Last (φ : S.Op → Prop) : Prog S α → Prop
  | .ret _ => True
  | .op o k => (φ o → ∀ r, ∃ a, k r = .ret a) ∧ ∀ r, Last φ (k r)

variable {φ : S.Op → Prop}

@[simp] theorem last_pure (a : α) : Last φ (pure a : Prog S α) := True.intro

theorem Last.bind {P : Prog S α} {f : α → Prog S β} (h : Only (fun o => ¬φ o) P)
    (hf : ∀ x, Last φ (f x)) : Last φ (P >>= f) := by
  induction P with
  | ret x => exact hf x
  | op o k ih => exact ⟨fun ho => absurd ho h.1, fun r => ih r (h.2 r)⟩

/-- The operation the program ends with. -/
theorem last_op {o : S.Op} {k : S.Resp o → Prog S α} (h : ∀ r, ∃ a, k r = .ret a) :
    Last φ (.op o k) := by
  refine ⟨fun _ => h, fun r => ?_⟩
  obtain ⟨a, ha⟩ := h r
  rw [ha]
  exact last_pure a

end Prog

/-- While an operation is left, none that would have been the last was performed. -/
theorem Leaves.before_last {M : Sem S σ τ Λ} {w w' : σ} {t t' : τ} {P Q : Prog S α}
    {tr : List (Obs S)} {φ : S.Op → Prop} (h : Leaves M w t P tr w' t' Q) (hP : P.Last φ)
    (hQ : Q.At fun _ => True) : ∀ x ∈ tr, ¬φ x.1 := by
  induction h with
  | here => simp
  | @op w w₁ w' t t₁ t' o r k tr Q hs hrest ih =>
    intro x hx
    rcases List.mem_cons.mp hx with rfl | hx
    · intro ho
      obtain ⟨a, ha⟩ := hP.1 ho r
      rw [ha] at hrest
      cases hrest
      exact hQ
    · exact ih (hP.2 r) hQ x hx

/-! ## Playing answers -/

/-- Performs the operations a list of answers answers; what is left of the program is the last
component. -/
def play (M : Sem S σ τ Λ) : List (σ → τ → (o : S.Op) → Option (S.Resp o)) → σ → τ → Prog S α →
    Option (List (Obs S) × σ × τ × Prog S α)
  | [], w, t, P => some ([], w, t, P)
  | _ :: _, _, _, .ret _ => none
  | f :: fs, w, t, .op o k =>
    match f w t o with
    | none => none
    | some r =>
      match M.step [] w t o r with
      | none => none
      | some (w', t') => (play M fs w' t' (k r)).map fun x => (⟨o, r⟩ :: x.1, x.2)

theorem Leaves.of_play {M : Sem S σ τ Λ} {fs : List (σ → τ → (o : S.Op) → Option (S.Resp o))}
    {w w' : σ} {t t' : τ} {P P' : Prog S α} {tr : List (Obs S)}
    (h : play M fs w t P = some (tr, w', t', P')) : Leaves M w t P tr w' t' P' := by
  induction fs generalizing w t P tr with
  | nil =>
    simp only [play, Option.some.injEq, Prod.mk.injEq] at h
    obtain ⟨rfl, rfl, rfl, rfl⟩ := h
    exact .here
  | cons f fs ih =>
    cases P with
    | ret => simp [play] at h
    | op o k =>
      simp only [play] at h
      split at h
      · cases h
      · rename_i r _
        split at h
        · cases h
        · rename_i w₁ t₁ hs
          obtain ⟨x, hx, heq⟩ := Option.map_eq_some_iff.mp h
          simp only [Prod.mk.injEq] at heq
          obtain ⟨rfl, hx2⟩ := heq
          exact .op hs (ih (by rw [hx, ← hx2]))

/-- What is done up to a point and from there on. -/
theorem Leaves.exec {M : Sem S σ τ Λ} {w w' w'' : σ} {t t' t'' : τ} {P Q : Prog S α}
    {tr tr' : List (Obs S)} {e : Ending α} (h : Leaves M w t P tr w' t' Q)
    (he : Exec M w' t' Q tr' e w'' t'') : Exec M w t P (tr ++ tr') e w'' t'' := by
  induction h with
  | here => exact he
  | op hs _ ih => exact .op hs (ih he)

theorem Exec.of_play {M : Sem S σ τ Λ} {fs : List (σ → τ → (o : S.Op) → Option (S.Resp o))}
    {w w' : σ} {t t' : τ} {P P' : Prog S α} {tr : List (Obs S)} {e : Ending α}
    (h : play M fs w t P = some (tr, w', t', P')) (he : Exec M w' t' P' [] e w' t') :
    Exec M w t P tr e w' t' := by
  simpa using (Leaves.of_play h).exec he

end Lib
