import WhatsAppBot.Lib.Json
import WhatsAppBot.Lib.Regex
import WhatsAppBot.Lib.Replace

/-!
# The pricing rule

`price_policy`: the patterns that recognise an amount, the gate on the model's output
(`mentionsAmount`), the redaction of retrieved documents (`redact`) and the copy sent in place of a
reply that states an amount (`deflection`). Texts are lists of characters here.

The patterns ignore case. Which characters belong to a word, and which are decimal digits, is what
the character database says: `Unicode` has those two tables.
-/

set_option autoImplicit false

namespace Prompt

open Lib

abbrev Text := List Char

/-- `\w` and `\d`; a line break is neither. -/
structure Unicode where
  word : Char → Bool
  decimal : Char → Bool
  word_newline : word '\n' = false
  decimal_newline : decimal '\n' = false

/-! ## Matching without case -/

/-- Besides the capitals, four characters are the lower case of a Latin letter or fold to one. -/
def fold (c : Char) : Char :=
  if 'A' ≤ c ∧ c ≤ 'Z' then Char.ofNat (c.toNat + 32)
  else if c = 'ı' ∨ c = 'İ' then 'i'
  else if c = 'ſ' then 's'
  else if c = '\u212a' then 'k'
  else c

def letter (c : Char) : Re Char := .one fun x => fold x == fold c

def literal (s : String) : Re Char := .all (s.toList.map letter)

/-- A word whose last letter may be missing. -/
def maybeLast (s : String) (c : Char) : Re Char := .seq (literal s) (.opt (letter c))

def space : Re Char := .one isSpace

def spaces : Re Char := .star isSpace

/-! ## Vocabulary -/

/-- `_DIGIT`. -/
def isDigit (c : Char) : Bool := ('0' ≤ c ∧ c ≤ '9') ∨ ('٠' ≤ c ∧ c ≤ '٩')

def isNumberPart (c : Char) : Bool := isDigit c || c = ',' || c = '٬' || c = '٫' || c = '.'

/-- `_NUMBER`. -/
def number : Re Char := .seq (.one isDigit) (.upTo 12 isNumberPart)

def isArabicLetter (c : Char) : Bool := 'ء' ≤ c ∧ c ≤ 'ي'

def isLatinLetter (c : Char) : Bool := 'a' ≤ fold c ∧ fold c ≤ 'z'

/-- The alternatives of `_CURRENCY`. -/
def currencyForms : List (Re Char) := [
  literal "جنيهات", literal "جنيه", literal "جنتة",
  .all [letter 'ج', .opt (letter '.'), .opt space, letter 'م', .fails (.one isArabicLetter)],
  literal "ريال", literal "دولار", literal "يورو", literal "درهم",
  literal "EGP", literal "SAR", literal "AED", literal "KWD", literal "USD", literal "EUR",
  literal "GBP",
  .all [letter 'L', .opt (letter '.'), letter 'E', .opt (letter '.'),
    .fails (.one isLatinLetter)],
  .all [.boundary, literal "LE", .boundary],
  maybeLast "pound" 's', maybeLast "dollar" 's', maybeLast "riyal" 's', maybeLast "euro" 's']

def currency : Re Char := .any currencyForms

/-- `met(?:er|re)`. -/
def metre : Re Char := .seq (literal "met") (.any [literal "er", literal "re"])

/-- `_UNIT`. -/
def unit : Re Char := .any [
  literal "متر", literal "أمتار", literal "امتار",
  literal "م²", .all [letter 'م', .opt (letter ' '), letter '2'],
  literal "يوم", literal "أيام", literal "ايام",
  literal "أسبوع", literal "أسابيع",
  literal "شهر", literal "شهور", literal "أشهر",
  literal "سنة", literal "سنوات", literal "سنتين",
  literal "ساعة", literal "ساعات",
  literal "غرفة", literal "غرف",
  literal "حمام", literal "حمامات",
  literal "دور", literal "أدوار",
  literal "طبقة", literal "طبقات",
  literal "قطعة", literal "قطع",
  literal "سم", literal "مم",
  .seq metre (.opt (letter 's')), maybeLast "day" 's', maybeLast "week" 's', maybeLast "month" 's',
  maybeLast "year" 's', maybeLast "hour" 's', maybeLast "room" 's', literal "cm", literal "mm"]

/-- `_PRICE_WORD`. -/
def priceWord : Re Char := .any [
  literal "سعر", literal "السعر", literal "بسعر",
  literal "أسعار", literal "اسعار",
  literal "تكلفة", literal "التكلفة",
  literal "تكلف", literal "يكلف",
  literal "خصم", literal "مقدم", literal "دفعة", literal "قسط",
  literal "مبلغ",
  maybeLast "price" 's', literal "pricing", maybeLast "cost" 's', literal "costing",
  literal "discount", literal "deposit", literal "quote", literal "quotation",
  .all [maybeLast "instal" 'l', literal "ment"], literal "fee", literal "budget"]

/-- `_PER_METRE`. -/
def perMetre : Re Char := .any [
  .all [letter '/', .opt space, literal "م²"], .all [letter '/', .opt space, literal "m²"],
  .all [letter '/', .opt space, literal "m2"],
  .all [literal "per", .plus isSpace, .opt (.seq (literal "square") (.plus isSpace)), metre],
  literal "للمتر",
  literal "المتر المربع"]

/-- `_THOUSANDS`. -/
def thousands : Re Char := .any [
  literal "ألف", literal "الف", literal "آلاف", literal "الاف", literal "مليون", literal "ملايين",
  .seq (letter 'k') .boundary]

/-- `_NOT_A_UNIT`. -/
def notAUnit : Re Char :=
  .seq (.fails (.one isDigit)) (.fails (.all [spaces, unit, .boundary]))

def discount : Re Char := .any [literal "خصم", literal "discount"]

def isSymbol (c : Char) : Bool := c = '$' || c = '€' || c = '£'

/-- `[^0-9\u0660-\u0669\n]`. -/
def isGap (c : Char) : Bool := !isDigit c && c ≠ '\n'

/-! ## Amounts -/

/-- The patterns redaction uses, `_REDACT_MONEY`. -/
def redactMoney : List (Pattern Char) := [
  ⟨.empty, .all [number, spaces, currency], .empty⟩,
  ⟨.empty, .all [currency, spaces, number], .empty⟩,
  ⟨.empty, .all [.one isSymbol, spaces, number], .empty⟩,
  ⟨.empty, .all [number, spaces, .one isSymbol], .empty⟩,
  ⟨.seq priceWord (.upTo 25 isGap), number, notAUnit⟩,
  ⟨.empty, number, .seq spaces perMetre⟩,
  ⟨.empty, .all [number, spaces, thousands], notAUnit⟩]

/-- `_MONEY`. -/
def money : List (Pattern Char) := redactMoney ++ [
  ⟨.seq discount (.upTo 15 isGap), .all [number, spaces, letter '%'], .empty⟩,
  ⟨.empty, .seq number spaces, .seq (.upTo 15 isGap) discount⟩]

/-- `s.strip()`. -/
def stripText (s : Text) : Text := (strip (String.ofList s)).toList

theorem stripText_eq (s : Text) :
    stripText s = ((s.dropWhile isSpace).reverse.dropWhile isSpace).reverse := by
  simp [stripText, strip]

/-- What is left neither starts nor ends with white space. -/
theorem stripText_ends {s : Text} {c : Char} (hc : isSpace c = true) :
    (stripText s).head? ≠ some c ∧ (stripText s).getLast? ≠ some c := by
  have hhead : ∀ {t : Text}, (t.dropWhile isSpace).head? ≠ some c := by
    intro t h
    have := List.head?_dropWhile_not isSpace t
    rw [h] at this
    simp [hc] at this
  rw [stripText_eq]
  refine ⟨?_, ?_⟩
  · intro h
    have hp : ((s.dropWhile isSpace).reverse.dropWhile isSpace).reverse <+: s.dropWhile isSpace := by
      rw [← List.reverse_suffix, List.reverse_reverse]
      exact List.dropWhile_suffix isSpace
    obtain ⟨t, ht⟩ := hp
    refine hhead (t := s) ?_
    rw [← ht, List.head?_append, h]
    rfl
  · rw [List.getLast?_reverse]
    exact hhead

/-- `_strip_phone`. -/
def stripPhone (u : Unicode) (text salesPhone : Text) : Text :=
  let phone := stripText salesPhone
  if phone = [] then text
  else
    let cleaned := replace phone [' '] text
    let bare := phone.filter u.decimal
    if 7 ≤ bare.length then replace bare [' '] cleaned else cleaned

/-- `mentions_amount`. -/
def mentionsAmount (u : Unicode) (text salesPhone : Text) : Bool :=
  text ≠ [] && money.any fun p => p.re.search u.word (stripPhone u text salesPhone)

/-- `REDACTED`. -/
def redactedMark : String := "[سعر محجوب]"

def redacted : Text := redactedMark.toList

/-- `whole.replace(old, new, 1)`. -/
def replaceFirst (old new : Text) : Text → Text
  | [] => []
  | c :: s => if old <+: c :: s then new ++ (c :: s).drop old.length else c :: replaceFirst old new s

/-- `_hide`. -/
def hide (whole amount : Text) : Text := replaceFirst amount redacted whole

/-- `redact`. -/
def redact (u : Unicode) (content : Text) : Text :=
  redactMoney.foldl (fun cleaned p => p.sub u.word hide cleaned) content

/-! ## Copy -/

def deflectionOpening : Text :=
  "شكراً لاهتمام حضرتك. كل مشروع بيختلف عن التاني على حسب نوع الوحدة والمساحة ".toList ++
  "والموقع ومستوى التشطيب وحالة المكان، وعشان كده ما بنحددش أسعار من خلال المحادثة.\n".toList ++
  "\n".toList ++
  "مدير المبيعات هيجهز لحضرتك عرض سعر مجاني ودقيق على حسب تفاصيل مشروعك.".toList

def beforePhone : Text := "\n\n📞 برجاء التواصل مع مدير المبيعات على ".toList

def afterPhone : Text := "\nأو ابعتلنا رقم تليفون حضرتك وهنتواصل معاك في أقرب وقت.".toList

def withoutPhone : Text :=
  "\n\nلو تحب، ابعتلنا رقم تليفون حضرتك ومدير المبيعات هيتواصل معاك في أقرب وقت.".toList

/-- `deflection`. -/
def deflection (salesPhone : Text) : Text :=
  let phone := stripText salesPhone
  deflectionOpening ++
    if phone = [] then withoutPhone else beforePhone ++ phone ++ afterPhone

end Prompt
