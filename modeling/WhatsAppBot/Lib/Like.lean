import Mathlib.Data.List.Infix
import WhatsAppBot.Lib.Replace

/-!
# LIKE patterns

A pattern is a list of symbols of which three are special: `any` stands for any text, `one` for any
symbol, and `escape` takes the meaning from the symbol behind it. `tokens` reads a pattern and
`accepts` says what it matches. `accepts_contains`: a word between two `any` matches the texts it
occurs in; `tokens_escaped`: `escaped` makes a word out of any symbols; `replace_escaped`: replacing
the special symbols one after the other escapes a word, if the escape symbol comes first.
-/

set_option autoImplicit false

namespace Lib.Like

variable {α : Type}

inductive Token (α : Type) where
  | any
  | one
  | lit (c : α)
  deriving DecidableEq

/-- The special symbols. -/
structure Wildcards (α : Type) where
  escape : α
  any : α
  one : α
  escape_ne_any : escape ≠ any
  escape_ne_one : escape ≠ one
  any_ne_one : any ≠ one

section

variable [DecidableEq α]

/-- What a pattern of tokens matches. -/
def accepts : List (Token α) → List α → Bool
  | [], s => s.isEmpty
  | .any :: ts, s => s.tails.any (accepts ts)
  | .one :: ts, s => s.tail?.any (accepts ts)
  | .lit c :: ts, s => s.head? == some c && accepts ts s.tail

namespace Wildcards

variable (w : Wildcards α)

def IsSpecial (c : α) : Prop := c = w.escape ∨ c = w.any ∨ c = w.one

instance (c : α) : Decidable (w.IsSpecial c) := by unfold IsSpecial; infer_instance

/-- A symbol that is not escaped. -/
def read (c : α) : Token α := if c = w.any then .any else if c = w.one then .one else .lit c

/-- A pattern must not end in its escape symbol. -/
def tokens : List α → Option (List (Token α))
  | [] => some []
  | [c] => if c = w.escape then none else some [w.read c]
  | c :: d :: p =>
    if c = w.escape then (tokens p).map (.lit d :: ·) else (tokens (d :: p)).map (w.read c :: ·)

/-- A word in which nothing is special. -/
def escaped (s : List α) : List α :=
  s.flatMap fun c => if w.IsSpecial c then [w.escape, c] else [c]

end Wildcards

/-! ## What is matched -/

variable {ts : List (Token α)} {s u : List α} {c : α}

theorem accepts_any : accepts (.any :: ts) s = true ↔ ∃ t, t <:+ s ∧ accepts ts t = true := by
  simp [accepts]

theorem accepts_lit : accepts (.lit c :: ts) s = true ↔ ∃ t, s = c :: t ∧ accepts ts t = true := by
  cases s with
  | nil => simp [accepts]
  | cons d t =>
    simp only [accepts, List.head?_cons, List.tail_cons, Bool.and_eq_true, beq_iff_eq,
      Option.some.injEq, List.cons.injEq]
    constructor
    · rintro ⟨rfl, h⟩
      exact ⟨t, ⟨rfl, rfl⟩, h⟩
    · rintro ⟨_, ⟨rfl, rfl⟩, h⟩
      exact ⟨rfl, h⟩

/-- A word first. -/
theorem accepts_word (u : List α) :
    accepts (u.map Token.lit ++ ts) s = true ↔ ∃ t, s = u ++ t ∧ accepts ts t = true := by
  induction u generalizing s with
  | nil => simp
  | cons c u ih =>
    rw [List.map_cons, List.cons_append, accepts_lit]
    simp only [ih]
    constructor
    · rintro ⟨_, rfl, t, rfl, h⟩
      exact ⟨t, rfl, h⟩
    · rintro ⟨t, rfl, h⟩
      exact ⟨u ++ t, rfl, t, rfl, h⟩

/-- **A word between two `any`** matches the texts it occurs in. -/
theorem accepts_contains :
    accepts (.any :: (u.map Token.lit ++ [.any])) s = true ↔ u <:+: s := by
  have hrest : ∀ t : List α, accepts [.any] t = true := fun t =>
    accepts_any.mpr ⟨[], List.nil_suffix, rfl⟩
  simp only [accepts_any, accepts_word, hrest, and_true]
  constructor
  · rintro ⟨_, ⟨p, rfl⟩, t, rfl⟩
    exact ⟨p, t, by simp⟩
  · rintro ⟨p, t, rfl⟩
    exact ⟨u ++ t, ⟨p, by simp⟩, t, rfl⟩

/-! ## Escaping -/

variable (w : Wildcards α)

namespace Wildcards

@[simp] theorem read_any : w.read w.any = .any := by simp [read]

theorem read_of_not_special (h : ¬ w.IsSpecial c) : w.read c = .lit c := by
  simp only [IsSpecial, not_or] at h
  simp [read, h.2.1, h.2.2]

/-- A symbol and what is behind it. -/
theorem tokens_cons (hc : c ≠ w.escape) (p : List α) :
    w.tokens (c :: p) = (w.tokens p).map (w.read c :: ·) := by
  cases p <;> simp [tokens, hc]

theorem tokens_escape (c : α) (p : List α) :
    w.tokens (w.escape :: c :: p) = (w.tokens p).map (.lit c :: ·) := by
  simp [tokens]

/-- **An escaped word** is read as its symbols. -/
theorem tokens_escaped (u p : List α) :
    w.tokens (w.escaped u ++ p) = (w.tokens p).map (u.map Token.lit ++ ·) := by
  induction u with
  | nil => simp [escaped]
  | cons c u ih =>
    rw [escaped, List.flatMap_cons, ← escaped]
    split
    · rw [List.append_assoc, List.cons_append, List.cons_append, List.nil_append, tokens_escape, ih,
        Option.map_map]
      rfl
    · rename_i hc
      have hne : c ≠ w.escape := fun h => hc (.inl h)
      rw [List.append_assoc, List.cons_append, List.nil_append, tokens_cons w hne, ih,
        w.read_of_not_special hc, Option.map_map]
      rfl

/-- A word with anything before and behind it. -/
theorem tokens_between (u : List α) :
    w.tokens (w.any :: (w.escaped u ++ [w.any])) =
      some (.any :: (u.map Token.lit ++ [.any])) := by
  rw [tokens_cons w w.escape_ne_any.symm, tokens_escaped]
  simp [tokens, w.escape_ne_any.symm]

end Wildcards

/-! ## Escaping by replacement -/

/-- Replacing one symbol. -/
theorem replace_singleton (c : α) (new s : List α) :
    replace [c] new s = s.flatMap fun d => if d = c then new else [d] := by
  induction s with
  | nil => rfl
  | cons d s ih =>
    by_cases hd : d = c
    · subst hd
      have hfirst : replace [d] new ([d] ++ s) = new ++ replace [d] new s :=
        replace_append (List.cons_ne_nil d []) s
      rw [List.singleton_append] at hfirst
      rw [hfirst, ih, List.flatMap_cons, if_pos rfl]
    · rw [replace_cons (by simpa using Ne.symm hd), ih, List.flatMap_cons, if_neg hd,
        List.singleton_append]

/-- **One symbol after the other**, the escape symbol first: what the later rounds find was there
from the start. -/
theorem replace_escaped (s : List α) :
    replace [w.one] [w.escape, w.one] (replace [w.any] [w.escape, w.any]
      (replace [w.escape] [w.escape, w.escape] s)) = w.escaped s := by
  simp only [replace_singleton, List.flatMap_assoc, Wildcards.escaped]
  congr 1
  funext c
  by_cases he : c = w.escape
  · subst he
    simp [Wildcards.IsSpecial, w.escape_ne_any, w.escape_ne_one]
  · by_cases ha : c = w.any
    · subst ha
      simp [Wildcards.IsSpecial, Ne.symm w.escape_ne_any, w.escape_ne_one, w.any_ne_one]
    · by_cases ho : c = w.one
      · subst ho
        simp [Wildcards.IsSpecial, Ne.symm w.escape_ne_one, Ne.symm w.any_ne_one]
      · simp [Wildcards.IsSpecial, he, ha, ho]

end

end Lib.Like
