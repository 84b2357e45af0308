import WhatsAppBot.Classify.Script
import WhatsAppBot.Prompt.Sample

/-!
# A script to try things on

The prompt sample's characters, with Cyrillic letters.
-/

set_option autoImplicit false

namespace Classify.Sample

open Prompt

def isCyrillic (c : Char) : Bool := 'А' ≤ c ∧ c ≤ 'я'

def script : Script where
  word c := Prompt.Sample.characters.word c || isCyrillic c
  decimal := Prompt.Sample.characters.decimal
  word_newline := by decide
  decimal_newline := by decide
  casefold c := if 'A' ≤ c ∧ c ≤ 'Z' then [Char.ofNat (c.toNat + 32)] else [c]
  alnum c := isLatinLetter c || isArabicLetter c || isDigit c || isCyrillic c
  word_arabic c h := by simp [Prompt.Sample.characters, h]
  casefold_plain c h := by
    refine if_neg fun hc => ?_
    simp only [isPlain, isArabicLetter, isDigit, Bool.or_eq_true, Bool.and_eq_true,
      decide_eq_true_eq] at h
    have hne : c ≠ ' ' := by
      rintro rfl
      exact absurd hc.1 (by decide)
    simp only [Char.le_def, UInt32.le_iff_toNat_le, hne, or_false] at h hc
    have hA : ('A' : Char).val.toNat = 65 := rfl
    have hZ : ('Z' : Char).val.toNat = 90 := rfl
    have ha : ('a' : Char).val.toNat = 97 := rfl
    have h0 : ('0' : Char).val.toNat = 48 := rfl
    have h9 : ('9' : Char).val.toNat = 57 := rfl
    have hzero : ('٠' : Char).val.toNat = 0x660 := rfl
    have hhamza : ('ء' : Char).val.toNat = 0x621 := rfl
    omega

end Classify.Sample
