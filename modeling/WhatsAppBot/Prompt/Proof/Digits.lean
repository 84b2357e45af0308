import Mathlib.Tactic.FinCases
import WhatsAppBot.Prompt.Proof.Classes

/-!
# Digits

`swapDigits` exchanges the digits of the two scripts. The vocabulary reads the same in both, but for the
unit `م2` and the rate `/m2`, whose digit is Latin only (`fixed_units`, `fixed_rates`).
-/

set_option autoImplicit false

namespace Prompt

open Lib

/-! ## Digits -/

/-- The digit of the same value in the other script. -/
def swapDigit (c : Char) : Char :=
  if '0' ≤ c ∧ c ≤ '9' then Char.ofNat (c.toNat + 1584)
  else if '٠' ≤ c ∧ c ≤ '٩' then Char.ofNat (c.toNat - 1584)
  else c

def swapDigits (t : Text) : Text := t.map swapDigit

theorem swapDigit_of_not_digit {c : Char} (h : isDigit c = false) : swapDigit c = c := by
  simp only [isDigit, Bool.or_eq_false_iff, Bool.decide_or, decide_eq_false_iff_not] at h
  rw [swapDigit, if_neg h.1, if_neg h.2]

theorem isDigit_swapDigit (c : Char) : isDigit (swapDigit c) = isDigit c := by
  cases h : isDigit c with
  | false => rw [swapDigit_of_not_digit h, h]
  | true =>
    have hall : digits.all (fun d => isDigit (swapDigit d)) = true := by decide
    exact of_digit hall h

theorem swapDigit_swapDigit (c : Char) : swapDigit (swapDigit c) = c := by
  cases h : isDigit c with
  | false => rw [swapDigit_of_not_digit h, swapDigit_of_not_digit h]
  | true =>
    have hall : digits.all (fun d => swapDigit (swapDigit d) == d) = true := by decide
    simpa using of_digit hall h

theorem swapDigit_injective : Function.Injective swapDigit :=
  Function.LeftInverse.injective swapDigit_swapDigit

/-- A class with all the digits in it or none does not see the script. -/
theorem class_swapDigit {p : Char → Bool} {b : Bool} (h : digits.all (fun d => p d == b) = true)
    (c : Char) : p (swapDigit c) = p c := by
  cases hc : isDigit c with
  | false => rw [swapDigit_of_not_digit hc]
  | true =>
    have hsame : ∀ {d}, isDigit d = true → p d = b := fun hd => beq_iff_eq.mp (of_digit h hd)
    rw [hsame hc, hsame ((isDigit_swapDigit c).trans hc)]

theorem isSpace_swapDigit : ∀ c, isSpace (swapDigit c) = isSpace c :=
  class_swapDigit (b := false) (by decide)

theorem isGap_swapDigit : ∀ c, isGap (swapDigit c) = isGap c :=
  class_swapDigit (b := false) (by decide)

theorem isNumberPart_swapDigit : ∀ c, isNumberPart (swapDigit c) = isNumberPart c :=
  class_swapDigit (b := true) (by decide)

/-! ## What is the same in both scripts -/

theorem fold_beq_of_not_digit {c d : Char} (hd : isDigit (fold d) = true) (hc : isDigit c = false) :
    (fold c == fold d) = false := by
  rw [beq_eq_false_iff_ne]
  intro heq
  have hnot := isDigit_fold hc
  rw [heq, hd] at hnot
  cases hnot

theorem fixed_letter {d : Char} (h : isDigit (fold d) = false) : (letter d).Fixed swapDigit := by
  have hall : digits.all (fun c => isDigit (fold c)) = true := by decide
  refine .one (class_swapDigit (p := fun x => fold x == fold d) (b := false) ?_)
  rw [List.all_eq_true] at hall ⊢
  intro c hc
  have hne : fold c ≠ fold d := by
    intro heq
    have hd := hall c hc
    rw [heq, h] at hd
    cases hd
  simp [hne]

theorem fixed_literal {s : String} (h : s.toList.all (fun c => !isDigit (fold c)) = true) :
    (literal s).Fixed swapDigit := by
  refine .all fun r hr => ?_
  obtain ⟨c, hc, rfl⟩ := List.mem_map.mp hr
  exact fixed_letter (by simpa using List.all_eq_true.mp h c hc)

theorem fixed_opt {r : Re Char} (h : r.Fixed swapDigit) : r.opt.Fixed swapDigit := h.alt .empty

theorem fixed_maybeLast {s : String} {c : Char}
    (h : s.toList.all (fun c => !isDigit (fold c)) = true) (hc : isDigit (fold c) = false) :
    (maybeLast s c).Fixed swapDigit := (fixed_literal h).seq (fixed_opt (fixed_letter hc))

theorem fixed_spaces : spaces.Fixed swapDigit := .star isSpace_swapDigit

theorem fixed_number : number.Fixed swapDigit :=
  (Re.Fixed.one isDigit_swapDigit).seq (.upTo 12 isNumberPart_swapDigit)

theorem fixed_currency : currency.Fixed swapDigit := by
  have hspace : space.opt.Fixed swapDigit := fixed_opt (.one isSpace_swapDigit)
  have harabic : (Re.fails (.one isArabicLetter)).Fixed swapDigit :=
    .fails (.one (class_swapDigit (b := false) (by decide)))
  have hlatin : (Re.fails (.one isLatinLetter)).Fixed swapDigit :=
    .fails (.one (class_swapDigit (b := false) (by decide)))
  have hdot : (letter '.').opt.Fixed swapDigit := fixed_opt (fixed_letter (by decide))
  refine .any fun r hr => ?_
  fin_cases hr
  case _ => exact fixed_literal (by decide)
  case _ => exact fixed_literal (by decide)
  case _ => exact fixed_literal (by decide)
  case _ =>
    exact (fixed_letter (by decide)).seq (hdot.seq (hspace.seq ((fixed_letter (by decide)).seq
      (harabic.seq .empty))))
  all_goals first
    | exact fixed_literal (by decide)
    | exact fixed_maybeLast (by decide) (by decide)
    | skip
  · exact (fixed_letter (by decide)).seq (hdot.seq ((fixed_letter (by decide)).seq (hdot.seq
      (hlatin.seq .empty))))
  · exact Re.Fixed.boundary.seq ((fixed_literal (by decide)).seq (Re.Fixed.boundary.seq .empty))

theorem fixed_priceWord : priceWord.Fixed swapDigit := by
  refine .any fun r hr => ?_
  fin_cases hr
  all_goals first
    | exact fixed_literal (by decide)
    | exact fixed_maybeLast (by decide) (by decide)
    | exact (fixed_maybeLast (by decide) (by decide)).seq ((fixed_literal (by decide)).seq .empty)

theorem fixed_thousands : thousands.Fixed swapDigit := by
  refine .any fun r hr => ?_
  fin_cases hr
  all_goals first
    | exact fixed_literal (by decide)
    | exact (fixed_letter (by decide)).seq .boundary

theorem fixed_discount : discount.Fixed swapDigit := by
  refine .any fun r hr => ?_
  fin_cases hr <;> exact fixed_literal (by decide)

theorem fixed_behindNumber {r : Re Char} (hr : r.Fixed swapDigit) :
    (Re.all [number, spaces, r]).Fixed swapDigit :=
  fixed_number.seq (fixed_spaces.seq (hr.seq .empty))

theorem fixed_beforeNumber {r : Re Char} (hr : r.Fixed swapDigit) :
    (Re.all [r, spaces, number]).Fixed swapDigit :=
  hr.seq (fixed_spaces.seq (fixed_number.seq .empty))

theorem fixed_symbol : (Re.one isSymbol).Fixed swapDigit :=
  .one (class_swapDigit (b := false) (by decide))

theorem fixed_gap (n : Nat) : (Re.upTo n isGap).Fixed swapDigit := .upTo n isGap_swapDigit

/-! ## The square metre -/

def isTwo (c : Char) : Bool := c = '2' || c = '٢'

/-- The unit `م2`, with what stands for the digit. -/
def squareMetre (two : Re Char) : Re Char := .all [letter 'م', .opt (letter ' '), two]

/-- The rate `/m2`. -/
def squareRate (two : Re Char) : Re Char := .all [letter '/', .opt space, .all [letter 'm', two]]

theorem fixed_metre : metre.Fixed swapDigit := by
  refine (fixed_literal (by decide)).seq (.any fun r hr => ?_)
  fin_cases hr <;> exact fixed_literal (by decide)

theorem fixed_units : ∀ r ∈ unit.alternatives.eraseIdx 4, r.Fixed swapDigit := by
  intro r hr
  fin_cases hr
  all_goals first
    | exact fixed_literal (by decide)
    | exact fixed_maybeLast (by decide) (by decide)
    | exact fixed_metre.seq (fixed_opt (fixed_letter (by decide)))

theorem fixed_rates : ∀ r ∈ perMetre.alternatives.eraseIdx 2, r.Fixed swapDigit := by
  have hspace : space.opt.Fixed swapDigit := fixed_opt (.one isSpace_swapDigit)
  have hspaces : (Re.plus isSpace).Fixed swapDigit :=
    (Re.Fixed.one isSpace_swapDigit).seq fixed_spaces
  have hslash : (letter '/').Fixed swapDigit := fixed_letter (by decide)
  intro r hr
  fin_cases hr
  · exact hslash.seq (hspace.seq ((fixed_literal (by decide)).seq .empty))
  · exact hslash.seq (hspace.seq ((fixed_literal (by decide)).seq .empty))
  · have hsquare : (Re.seq (literal "square") (.plus isSpace)).opt.Fixed swapDigit :=
      fixed_opt ((fixed_literal (by decide)).seq hspaces)
    exact (fixed_literal (by decide)).seq (hspaces.seq (hsquare.seq (fixed_metre.seq .empty)))
  · exact fixed_literal (by decide)
  · exact fixed_literal (by decide)

theorem mem_eraseIdx_or {α : Type} {l : List α} {i : Nat} {a x : α} (hi : l[i]? = some a) (h : x ∈ l) :
    x ∈ l.eraseIdx i ∨ x = a := by
  obtain ⟨j, hj⟩ := List.mem_iff_getElem?.mp h
  by_cases hij : j = i
  · subst hij
    exact .inr (Option.some.inj (hj.symm.trans hi))
  · exact .inl (List.mem_eraseIdx_iff_getElem?.mpr ⟨j, hij, hj⟩)

theorem unit_squareMetre : unit.alternatives[4]? = some (squareMetre (letter '2')) := rfl

theorem perMetre_squareRate : perMetre.alternatives[2]? = some (squareRate (letter '2')) := rfl

theorem comap_letter_two : (letter '2').comap swapDigit = letter '٢' := by
  refine congrArg Re.one (funext fun c => ?_)
  cases hc : isDigit c with
  | true =>
    have hall : digits.all (fun d => (fold (swapDigit d) == fold '2') == (fold d == fold '٢')) = true := by
      decide
    exact beq_iff_eq.mp (of_digit hall hc)
  | false =>
    show (fold (swapDigit c) == _) = (fold c == _)
    rw [swapDigit_of_not_digit hc, fold_beq_of_not_digit (d := '2') (by decide) hc,
      fold_beq_of_not_digit (d := '٢') (by decide) hc]

theorem comap_letter_arabic_two : (letter '٢').comap swapDigit = letter '2' := by
  refine congrArg Re.one (funext fun c => ?_)
  cases hc : isDigit c with
  | true =>
    have hall : digits.all (fun d => (fold (swapDigit d) == fold '٢') == (fold d == fold '2')) = true := by
      decide
    exact beq_iff_eq.mp (of_digit hall hc)
  | false =>
    show (fold (swapDigit c) == _) = (fold c == _)
    rw [swapDigit_of_not_digit hc, fold_beq_of_not_digit (d := '2') (by decide) hc,
      fold_beq_of_not_digit (d := '٢') (by decide) hc]

/-- Either digit is one of the two. -/
theorem isTwo_of_fold {d c : Char} (hd : d = '2' ∨ d = '٢') (h : (fold c == fold d) = true) :
    isTwo c = true := by
  cases hc : isDigit c with
  | true =>
    have hall : digits.all (fun c => !(fold c == fold '2' || fold c == fold '٢') || isTwo c) = true := by
      decide
    have hc := of_digit hall hc
    rcases hd with rfl | rfl
    · simpa [h] using hc
    · simpa [h] using hc
  | false =>
    have hdigit : isDigit (fold d) = true := by rcases hd with rfl | rfl <;> decide
    rw [fold_beq_of_not_digit hdigit hc] at h
    cases h

theorem comap_squareMetre (two : Re Char) :
    (squareMetre two).comap swapDigit = squareMetre (two.comap swapDigit) := by
  have hletter : (letter 'م').comap swapDigit = letter 'م' := fixed_letter (by decide)
  have hspace : (letter ' ').opt.comap swapDigit = (letter ' ').opt :=
    fixed_opt (fixed_letter (by decide))
  show Re.seq _ (.seq _ (.seq _ _)) = _
  rw [hletter, hspace]
  rfl

theorem comap_squareRate (two : Re Char) :
    (squareRate two).comap swapDigit = squareRate (two.comap swapDigit) := by
  have hslash : (letter '/').comap swapDigit = letter '/' := fixed_letter (by decide)
  have hspace : space.opt.comap swapDigit = space.opt := fixed_opt (.one isSpace_swapDigit)
  have hletter : (letter 'm').comap swapDigit = letter 'm' := fixed_letter (by decide)
  show Re.seq _ (.seq _ (.seq (.seq _ (.seq _ _)) _)) = _
  rw [hslash, hspace, hletter]
  rfl

theorem run_two {word : Char → Bool} {cur c : Cursor Char} (h : c ∈ Re.run word (.one isTwo) cur) :
    c ∈ Re.run word (letter '2') cur ∨ c ∈ Re.run word (letter '٢') cur := by
  obtain ⟨w, s⟩ := cur
  cases s with
  | nil => cases h
  | cons a s =>
    simp only [Re.run] at h
    split at h
    · rename_i ha
      rcases Bool.or_eq_true_iff.mp ha with ha | ha
      · obtain rfl := of_decide_eq_true ha
        exact .inl h
      · obtain rfl := of_decide_eq_true ha
        exact .inr h
    · cases h

theorem mem_run_squareMetre {word : Char → Bool} {two : Re Char} {cur c : Cursor Char} :
    c ∈ Re.run word (squareMetre two) cur ↔
      ∃ d ∈ Re.run word (letter 'م') cur, ∃ e ∈ Re.run word (letter ' ').opt d, c ∈ Re.run word two e := by
  unfold squareMetre Re.all
  simp only [List.foldr, Re.mem_run_seq]
  constructor
  · rintro ⟨d, hd, e, he, c', hc, hend⟩
    obtain rfl := List.mem_singleton.mp hend
    exact ⟨d, hd, e, he, hc⟩
  · rintro ⟨d, hd, e, he, hc⟩
    exact ⟨d, hd, e, he, c, hc, List.mem_singleton.mpr rfl⟩

theorem squareMetre_two {word : Char → Bool} {cur c : Cursor Char} :
    c ∈ Re.run word (squareMetre (.one isTwo)) cur ↔
      c ∈ Re.run word (squareMetre (letter '2')) cur ∨ c ∈ Re.run word (squareMetre (letter '٢')) cur := by
  simp only [mem_run_squareMetre]
  constructor
  · rintro ⟨d, hd, e, he, hc⟩
    rcases run_two hc with hc | hc
    · exact .inl ⟨d, hd, e, he, hc⟩
    · exact .inr ⟨d, hd, e, he, hc⟩
  · rintro (⟨d, hd, e, he, hc⟩ | ⟨d, hd, e, he, hc⟩)
    · exact ⟨d, hd, e, he, Re.run_one_mono (fun _ => isTwo_of_fold (.inl rfl)) hc⟩
    · exact ⟨d, hd, e, he, Re.run_one_mono (fun _ => isTwo_of_fold (.inr rfl)) hc⟩

end Prompt
