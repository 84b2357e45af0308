import WhatsAppBot.Lib.Context
import WhatsAppBot.Prompt.PricePolicy

/-!
# Character classes

The digits, the parts of a number and the white space as lists, to decide a property of a whole class
(`of_digit`, `of_numberPart`, `of_space`), and what folding leaves as it is.
-/

set_option autoImplicit false

namespace Prompt

open Lib

def digits : Text := (List.range' 48 10 ++ List.range' 1632 10).map Char.ofNat

def numberParts : Text := digits ++ [',', '٬', '٫', '.']

def whiteSpace : Text :=
  (List.range' 9 5 ++ List.range' 28 5 ++ [0x85, 0xa0, 0x1680] ++ List.range' 0x2000 11 ++
    [0x2028, 0x2029, 0x202f, 0x205f, 0x3000]).map Char.ofNat

theorem mem_digits {c : Char} (h : isDigit c = true) : c ∈ digits := by
  refine List.mem_map.mpr ⟨c.toNat, ?_, Char.ofNat_toNat c⟩
  have h : (48 ≤ c.toNat ∧ c.toNat ≤ 57) ∨ (1632 ≤ c.toNat ∧ c.toNat ≤ 1641) := of_decide_eq_true h
  simp only [List.mem_append, List.mem_range'_1]
  omega

theorem mem_numberParts {c : Char} (h : isNumberPart c = true) : c ∈ numberParts := by
  simp only [isNumberPart, Bool.or_eq_true, decide_eq_true_eq] at h
  rcases h with (((h | rfl) | rfl) | rfl) | rfl
  · exact List.mem_append_left _ (mem_digits h)
  all_goals exact List.mem_append_right _ (by decide)

theorem mem_whiteSpace {c : Char} (h : isSpace c = true) : c ∈ whiteSpace := by
  refine List.mem_map.mpr ⟨c.toNat, ?_, Char.ofNat_toNat c⟩
  simp only [isSpace, Bool.or_eq_true, Bool.and_eq_true, decide_eq_true_eq, beq_iff_eq] at h
  simp only [List.mem_append, List.mem_range'_1, List.mem_cons, List.not_mem_nil, or_false]
  omega

theorem of_digit {p : Char → Bool} (h : digits.all p = true) {c : Char} (hc : isDigit c = true) :
    p c = true :=
  List.all_eq_true.mp h c (mem_digits hc)

theorem of_numberPart {p : Char → Bool} (h : numberParts.all p = true) {c : Char}
    (hc : isNumberPart c = true) : p c = true :=
  List.all_eq_true.mp h c (mem_numberParts hc)

theorem of_space {p : Char → Bool} (h : whiteSpace.all p = true) {c : Char} (hc : isSpace c = true) :
    p c = true :=
  List.all_eq_true.mp h c (mem_whiteSpace hc)

theorem not_space_of_numberPart {c : Char} (h : isNumberPart c = true) : isSpace c = false := by
  have hall : numberParts.all (fun c => !isSpace c) = true := by decide
  simpa using of_numberPart hall h

theorem numberPart_of_digit {c : Char} (h : isDigit c = true) : isNumberPart c = true := by
  simp [isNumberPart, h]

theorem fold_eq_or (c : Char) : fold c = c ∨ 'a' ≤ fold c ∧ fold c ≤ 'z' := by
  by_cases hupper : 'A' ≤ c ∧ c ≤ 'Z'
  · have hall : ((List.range' 65 26).map Char.ofNat).all
        (fun c => decide ('a' ≤ fold c ∧ fold c ≤ 'z')) = true := by decide
    have hmem : c ∈ (List.range' 65 26).map Char.ofNat := by
      refine List.mem_map.mpr ⟨c.toNat, ?_, Char.ofNat_toNat c⟩
      have h1 : 65 ≤ c.toNat := hupper.1
      have h2 : c.toNat ≤ 90 := hupper.2
      rw [List.mem_range'_1]
      omega
    exact .inr (of_decide_eq_true (List.all_eq_true.mp hall c hmem))
  · unfold fold
    rw [if_neg hupper]
    split_ifs
    · exact .inr (by decide)
    · exact .inr (by decide)
    · exact .inr (by decide)
    · exact .inl rfl

/-- What does not fold to a small Latin letter is itself. -/
theorem eq_of_fold {a d : Char} (hd : ¬('a' ≤ d ∧ d ≤ 'z')) (h : fold a = d) : a = d := by
  rcases fold_eq_or a with ha | ha
  · rw [← ha, h]
  · exact absurd (h ▸ ha) hd

theorem isDigit_fold {c : Char} (h : isDigit c = false) : isDigit (fold c) = false := by
  rcases fold_eq_or c with hc | ⟨h1, h2⟩
  · rw [hc, h]
  · have h1 : 97 ≤ (fold c).toNat := h1
    have h2 : (fold c).toNat ≤ 122 := h2
    refine decide_eq_false ?_
    show ¬((48 ≤ (fold c).toNat ∧ (fold c).toNat ≤ 57) ∨ (1632 ≤ (fold c).toNat ∧ (fold c).toNat ≤ 1641))
    omega

theorem takes_literal {word : Char → Bool} (s : String) : (literal s).Takes word s.toList := by
  unfold literal
  induction s.toList with
  | nil => exact .empty
  | cons c cs ih =>
    have hc : (letter c).Takes word [c] := .one (by simp)
    exact hc.seq ih

end Prompt
