import WhatsAppBot.Classify.Script

/-!
# Openings

`greeting.py`'s two categories of opening messages, and `persona.is_unintelligible`.
-/

set_option autoImplicit false

namespace Classify

open Lib Prompt

/-! ## Vocabulary -/

/-- `_GREETINGS`. -/
def greetings : List String := [
  "السلام", "سلام", "عليكم", "وعليكم", "سلامات", "صباح", "صباحو", "مساء", "الخير", "النور", "الفل",
  "اهلا", "وسهلا", "اهلين", "مرحبا", "مرحبتين", "هاي", "هلا", "هالو", "الو", "تحياتي", "ازيك",
  "ازيكم", "ازايك", "عامل", "عامله", "اخبارك", "الاخبار", "كيف", "كيفك", "حالك", "الحال", "hi",
  "hii", "hiii", "hiiii", "hey", "heyy", "heyyy", "hello", "helo", "hallo", "halo", "hullo", "yo",
  "sup", "greetings", "morning", "afternoon", "evening", "night", "day", "salam", "salaam",
  "salamu", "assalam", "assalamu", "assalamualaikum", "salamualaikum", "alaikum", "alaykum",
  "aleikum", "alaikom", "peace", "how", "are", "doing", "going", "there", "ahlan", "marhaba",
  "marhaban", "hola", "bonjour", "ciao"]

/-- `_COURTESY`. -/
def courtesy : List String := [
  "شكرا", "شكر", "مشكور", "متشكر", "متشكرين", "تمام", "اوكي", "اوك", "تسلم", "تسلمي", "سلمت",
  "يباركلك", "يبارك", "يخليك", "جزاك", "جزاكم", "خير", "خيرا", "العفو", "ماشي", "حاضر", "طيب",
  "ممتاز", "برافو", "يديك", "وداعا", "معالسلامه", "thanks", "thank", "thx", "tnx", "ty", "ok",
  "okay", "okey", "kk", "appreciate", "appreciated", "great", "perfect", "excellent", "super",
  "cool", "awesome", "nice", "alright", "fine", "noted", "understood", "cheers", "bye", "goodbye",
  "welcome"]

/-- `_FILLER`. -/
def filler : List String := [
  "يا", "و", "حضرتك", "باشا", "فندم", "استاذ", "مهندس", "بشمهندس", "دكتور", "كابتن", "اخي", "اختي",
  "حاج", "حاجه", "مدام", "هانم", "بيه", "بيك", "بك", "عزيزي", "لو", "سمحت", "من", "فضلك", "ايه",
  "الله", "ورحمه", "وبركاته", "ربنا", "الف", "جدا", "ليك", "ليكم", "لك", "لكم", "علي", "كده",
  "good", "be", "upon", "you", "u", "r", "it", "so", "very", "much", "a", "lot", "all", "today",
  "please", "pls", "sir", "madam", "maam", "mr", "mrs", "dear", "team", "brother", "bro", "sis",
  "sister", "boss", "buddy", "friend", "guys", "my", "your", "and", "for", "help", "everything"]

/-! ## Words -/

/-- `_DIACRITICS`. -/
def isDiacritic (c : Char) : Bool :=
  ('\u064b' ≤ c ∧ c ≤ '\u0652') ∨ c = '\u0670' ∨ c = '\u0640'

/-- `_FOLD`. -/
def foldLetter (c : Char) : Char :=
  if c = 'أ' ∨ c = 'إ' ∨ c = 'آ' ∨ c = 'ٱ' then 'ا'
  else if c = 'ى' ∨ c = 'ئ' then 'ي'
  else if c = 'ة' then 'ه'
  else if c = 'ؤ' then 'و'
  else c

/-- What the words are looked for in. -/
def Script.folded (sc : Script) (text : Text) : Text :=
  ((sc.casefoldText text).filter (!isDiacritic ·)).map foldLetter

/-- The class whose complement `_NOT_A_WORD` is. -/
def isWordPart (c : Char) : Bool := isDigit c || ('a' ≤ c && c ≤ 'z') || isArabicLetter c

/-- The maximal runs of a class. -/
def runs (p : Char → Bool) : Text → List Text
  | [] => []
  | c :: s =>
    if p c then
      match runs p s with
      | [] => [[c]]
      | r :: rs => if s.head?.any p then (c :: r) :: rs else [c] :: r :: rs
    else runs p s

/-- `_words`. -/
def words (sc : Script) (text : Text) : List Text := runs isWordPart (sc.folded text)

/-! ## Categories -/

def isIn (vocabulary : List String) (word : Text) : Bool := String.ofList word ∈ vocabulary

/-- `_is_only`. -/
def isOnly (sc : Script) (text : Option Text) (identifying : List String) : Bool :=
  match text with
  | none => false
  | some text =>
    text ≠ [] && words sc text ≠ [] && (words sc text).any (isIn identifying) &&
      (words sc text).all fun word => isIn identifying word || isIn filler word

/-- `is_courtesy_only`. -/
def isCourtesyOnly (sc : Script) (text : Option Text) : Bool := isOnly sc text courtesy

/-- `is_greeting_only`. -/
def isGreetingOnly (sc : Script) (text : Option Text) : Bool :=
  !isCourtesyOnly sc text && isOnly sc text greetings

/-- `_MEANINGFUL`. -/
def isMeaningful (c : Char) : Bool :=
  ('0' ≤ c ∧ c ≤ '9') ∨ ('A' ≤ c ∧ c ≤ 'Z') ∨ ('a' ≤ c ∧ c ≤ 'z') ∨ isArabicLetter c ∨
    ('٠' ≤ c ∧ c ≤ '٩') ∨ ('\u0750' ≤ c ∧ c ≤ '\u077f')

/-- `is_unintelligible`. -/
def isUnintelligible (text : Option Text) : Bool :=
  match text with
  | none => true
  | some text => text = [] || stripText text = [] || !text.any isMeaningful

end Classify
