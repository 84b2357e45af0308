import WhatsAppBot.Lib.Comap
import WhatsAppBot.Prompt.PricePolicy

/-!
# Measurements

What redaction is to keep: a numeral that a unit of `_UNIT` follows and nothing makes an amount. The
numeral is traced through the passes by marking its characters.
-/

set_option autoImplicit false

namespace Prompt

open Lib

/-- Digits, with separators between them. -/
def isNumeral (t : Text) : Bool :=
  t.head?.any isDigit && t.getLast?.any isDigit && t.all isNumberPart

def wholeUnit : Re Char := .all [spaces, unit, .boundary]

/-- What makes a number money that stands beside it. -/
def tokens : List (Re Char) := [currency, .one isSymbol, thousands, perMetre]

/-- The last character belongs to a word. -/
def endsWord (u : Unicode) (t : Text) : Bool := t.foldl (fun _ c => u.word c) false

/-- `r` matches where `behind` ends and `t` begins. -/
def comesNext (u : Unicode) (r : Re Char) (behind t : Text) : Bool :=
  !(r.run u.word ⟨endsWord u behind, t⟩).isEmpty

/-- A match of `r` in `before ++ t` ends where `t` begins. -/
def endsBefore (u : Unicode) (r : Re Char) (before t : Text) : Bool :=
  (List.range (before.length + 1)).any fun i =>
    (r.run u.word ⟨endsWord u (before.take i), before.drop i ++ t⟩).any fun c => c.rest == t

/-- A maximal numeral that measures something. -/
structure Measurement (u : Unicode) (before n after : Text) : Prop where
  numeral : isNumeral n = true
  first : ∀ x ∈ before.tails, isNumeral (x ++ n) = true → x = []
  last : ∀ y ∈ after.inits, isNumeral (n ++ y) = true → y = []
  measured : comesNext u wholeUnit n after = true
  not_before : ∀ r ∈ tokens, endsBefore u (.seq r spaces) before (n ++ after) = false
  not_behind : ∀ r ∈ tokens, comesNext u (.seq spaces r) n after = false

/-- What the character tables say of the vocabulary's characters. -/
structure Alphabet (u : Unicode) : Prop where
  arabic : ∀ c, isArabicLetter c = true → u.word c = true
  latin : ∀ c, isLatinLetter c = true → u.word c = true
  digit : ∀ c, isDigit c = true → u.word c = true
  square : u.word '²' = true
  bracket : u.word '[' = false

/-! ## Tracing -/

/-- A text in which the characters of the numeral are marked. -/
abbrev Traced := List (Char × Bool)

def traced (on : Bool) (t : Text) : Traced := t.map (·, on)

/-- The numeral between what is before it and after it. -/
def trace (before n after : Text) : Traced :=
  traced false before ++ (traced true n ++ traced false after)

/-- `replaceFirst` by the mark, which is no part of the numeral. -/
def replaceTraced (old : Text) : Traced → Traced
  | [] => []
  | c :: s =>
    if old <+: (c :: s).map Prod.fst then traced false redacted ++ (c :: s).drop old.length
    else c :: replaceTraced old s

def hideTraced (whole amount : Traced) : Traced := replaceTraced (amount.map Prod.fst) whole

def tracedPass (u : Unicode) (p : Pattern Char) (t : Traced) : Traced :=
  (p.comap Prod.fst).sub (fun c => u.word c.1) hideTraced t

def tracedPasses (u : Unicode) (ps : List (Pattern Char)) (t : Traced) : Traced :=
  ps.foldl (fun cleaned p => tracedPass u p cleaned) t

/-- `redact` leaves the numeral as it is. -/
def Kept (u : Unicode) (before n after : Text) : Prop :=
  ∃ before' after', tracedPasses u redactMoney (trace before n after) = trace before' n after'

/-! ## When a measurement is kept -/

/-- The numeral has no separator where a number in it could end. -/
def Unbroken (n : Text) : Prop := ∀ c ∈ n.take 14, isDigit c = true

/-- No number comes next, or one that a currency makes an amount. -/
def noNumber : Re Char :=
  .alt (.fails (.seq spaces (.one isDigit))) (.all [spaces, number, spaces, currency])

/-- A symbol that belongs to no number behind it. -/
def looseSymbol : Re Char := .seq (.one isSymbol) noNumber

/-- The digit of the unit `م2` makes an amount with what comes behind it. -/
def squareTaken : Re Char :=
  .all [spaces, letter 'م', .opt (letter ' '), number, spaces, .alt currency looseSymbol]

end Prompt
