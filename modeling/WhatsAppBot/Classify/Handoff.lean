import WhatsAppBot.Classify.Script

/-!
# Asking for a person

`handoff.py`: `wants_human` and its vocabulary.
-/

set_option autoImplicit false

namespace Classify

open Lib Prompt

/-! ## Vocabulary -/

def oneOf (words : List String) : Re Char := .any (words.map literal)

/-- `_ASK`. -/
def ask : List String := ["عايز", "عاوز", "ارتد", "أرتد", "محتاج", "ممكن"]

def modeer : String := "مدير"

def mowazzaf : String := "موظف"

def masool : String := "مسؤول"

def bashar : String := "بشر"

def insaan : String := "انسان"

/-- `_PERSON`. -/
def person : List String := [modeer, mowazzaf, masool, bashar, insaan]

/-- `_NOT`. -/
def negation : List String := ["مش", "لا", "ما", "بلاش"]

/-- `_BOT`. -/
def bot : String := "بوت"

/-- `_CUSTOMER_SERVICE`. -/
def customerService : String := "خدمة العملاء"

/-- `_CALL_ME`. -/
def callMe : String := "كلمني"

/-! ## Patterns -/

/-- `.` -/
def notNewline (c : Char) : Bool := c ≠ '\n'

def gap : Re Char := .plus isSpace

/-- `(a|an|the)?` -/
def article : Re Char := .opt (oneOf ["a", "an", "the"])

/-- `_PATTERNS`. -/
def patterns (u : Unicode) : List (Re Char) := [
  .all [.boundary, oneOf ["speak", "talk", "chat", "connect"], .star u.word, gap, oneOf ["to", "with"],
    gap, article, spaces,
    oneOf ["human", "person", "someone", "somebody", "agent", "representative", "rep", "operator",
      "manager", "supervisor", "owner"], .boundary],
  .all [.boundary, literal "real", gap, oneOf ["person", "human", "agent"], .boundary],
  .all [.boundary, literal "human", gap, oneOf ["agent", "being", "operator", "support"], .boundary],
  .all [.boundary, literal "live", gap, oneOf ["agent", "person", "chat", "support"], .boundary],
  .all [.boundary, literal "customer", gap, oneOf ["service", "support", "care"], .boundary],
  .all [.boundary, oneOf ["call", "phone", "ring"], gap, literal "me", .boundary],
  .all [.boundary, literal "someone", gap, oneOf ["call", "contact", "phone", "reach"], .boundary],
  .all [.boundary, literal "contact", gap, article, spaces,
    oneOf ["manager", "supervisor", "representative", "agent", "operator", "sales"], .boundary],
  .all [.boundary, oneOf ["want", "need", "get", "give"], gap, .opt (.seq (literal "me") gap), article,
    spaces, oneOf ["manager", "supervisor", "representative", "agent", "operator"], .boundary],
  .all [.boundary,
    .any [.all [literal "don", .opt (literal "'"), literal "t"], .all [literal "do", gap, literal "not"],
      literal "dont"],
    gap, literal "want", gap, .opt (.all [literal "to", gap, .plus u.word, gap]),
    .opt (.seq (literal "with") gap), article, spaces, oneOf ["bot", "robot", "ai", "machine"],
    .boundary],
  .all [.boundary, .any [literal "stop", .all [literal "no", gap, literal "more"]], gap,
    .opt (.seq (literal "the") gap), oneOf ["bot", "robot", "ai"], .boundary],
  .all [.boundary, literal "transfer", gap, literal "me", .boundary],
  .all [.boundary, literal "escalate", .boundary],
  .seq (oneOf ask) (.seq (.upTo 25 notNewline) (oneOf person)),
  .seq (oneOf negation) (.seq (.upTo 15 notNewline) (literal bot)),
  literal customerService,
  literal callMe]

/-- `_STANDALONE`. -/
def standalone : List Text :=
  ([modeer, mowazzaf, masool, bashar, insaan, "human", "agent", "representative", "operator",
    "person"]).map String.toList

/-- `[\W_]`. -/
def isEdge (u : Unicode) (c : Char) : Bool := !u.word c || c = '_'

/-- `_TRIM.sub("", text)`, for a text that ends in no line break. -/
def trimEdges (u : Unicode) (text : Text) : Text :=
  ((text.dropWhile (isEdge u)).reverse.dropWhile (isEdge u)).reverse

/-- `_is_standalone_request`. -/
def isStandaloneRequest (sc : Script) (text : Text) : Bool :=
  sc.casefoldText (trimEdges sc.toUnicode (stripText text)) ∈ standalone

/-- `wants_human`. -/
def wantsHuman (sc : Script) (text : Option Text) : Bool :=
  match text with
  | none => false
  | some text =>
    text ≠ [] && (isStandaloneRequest sc text ||
      (patterns sc.toUnicode).any fun p => p.search sc.word text)

end Classify
