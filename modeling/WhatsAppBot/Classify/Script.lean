import WhatsAppBot.Prompt.PricePolicy

/-!
# Scripts

What the classifiers ask of the character database, besides the classes of the patterns: case
folding, and which characters are letters or digits of any script.
-/

set_option autoImplicit false

namespace Classify

open Lib Prompt

/-- Arabic letters, digits, small Latin letters and the space. -/
def isPlain (c : Char) : Bool := isArabicLetter c || isDigit c || ('a' ≤ c && c ≤ 'z') || c = ' '

structure Script extends Unicode where
  /-- `str.casefold`, a character at a time. -/
  casefold : Char → Text
  /-- `str.isalnum`. -/
  alnum : Char → Bool
  word_arabic : ∀ c, isArabicLetter c = true → word c = true
  casefold_plain : ∀ c, isPlain c = true → casefold c = [c]

/-- `text.casefold()`. -/
def Script.casefoldText (sc : Script) (text : Text) : Text := text.flatMap sc.casefold

theorem Script.casefoldText_plain (sc : Script) {text : Text} (h : ∀ c ∈ text, isPlain c = true) :
    sc.casefoldText text = text := by
  unfold Script.casefoldText
  induction text with
  | nil => rfl
  | cons c s ih =>
    rw [List.flatMap_cons, sc.casefold_plain c (h c List.mem_cons_self),
      ih fun d hd => h d (List.mem_cons_of_mem _ hd)]
    rfl

end Classify
