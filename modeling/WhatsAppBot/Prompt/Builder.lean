import WhatsAppBot.Prompt.Texts

/-!
# The prompt

`prompt_builder`: the neutralisation of a retrieved document and `build_instructions`, which composes
the sections of the instruction block.
-/

set_option autoImplicit false

namespace Prompt

open Lib

/-- `_FENCE_ESCAPES`, in order. -/
def closingFence : Text := "</retrieved_documents>".toList
def openingFence : Text := "<retrieved_documents>".toList
def closingDocument : Text := "</document>".toList

def fenceEscapes : List Text := [closingFence, openingFence, closingDocument]

/-- `_neutralise`. -/
def neutralise (content : Text) : Text :=
  stripText (fenceEscapes.foldl (fun cleaned escape => replace escape [] cleaned) content)

/-- `_prepare`. -/
def prepare (u : Unicode) (content : Text) : Text := neutralise (redact u content)

structure RetrievedDocument where
  content : Text
  source : Text

/-- The settings the prompt reads. -/
structure Settings where
  systemPrompt : Text
  companyInfo : Text
  companyWebsite : Text
  companyPortfolioUrl : Text
  salesPhone : Text

/-- `Settings.portfolio_url`. -/
def Settings.portfolioUrl (s : Settings) : Text :=
  if stripText s.companyPortfolioUrl ≠ [] then stripText s.companyPortfolioUrl
  else stripText s.companyWebsite

/-- `datetime.now(UTC)`, as far as the prompt prints it. -/
structure DateTime where
  year : Nat
  month : Nat
  day : Nat
  hour : Nat
  minute : Nat

/-- A number in decimal, zero-padded. -/
def padded (width n : Nat) : Text :=
  List.replicate (width - (Nat.toDigits 10 n).length) '0' ++ Nat.toDigits 10 n

/-- `%Y-%m-%d %H:%M`. -/
def DateTime.format (t : DateTime) : Text :=
  padded 4 t.year ++ ['-'] ++ padded 2 t.month ++ ['-'] ++ padded 2 t.day ++ [' '] ++
    padded 2 t.hour ++ [':'] ++ padded 2 t.minute

/-! ## The sections -/

def systemSection (s : Settings) : Text :=
  if stripText s.systemPrompt ≠ [] then stripText s.systemPrompt else joined persona

def companySection (s : Settings) : List Text :=
  let companyInfo := stripText s.companyInfo
  if companyInfo ≠ [] then ["# Company information\n".toList ++ companyInfo] else []

def portfolioSection (s : Settings) : List Text :=
  let website := stripText s.companyWebsite
  let portfolio := s.portfolioUrl
  if website ≠ [] then
    [joinLines ([joined portfolioOpening, "Website: ".toList ++ website] ++
      (if portfolio ≠ [] ∧ portfolio ≠ website then ["Portfolio: ".toList ++ portfolio] else []) ++
      [joined portfolioClosing])]
  else []

/-- One document inside the fence. -/
def renderDocument (u : Unicode) (doc : RetrievedDocument) (i : Nat) : Text :=
  "<document id=\"".toList ++ Nat.toDigits 10 i ++ "\" source=\"".toList ++ prepare u doc.source ++
    "\">\n".toList ++ prepare u doc.content ++ ['\n'] ++ closingDocument

/-- The documents, numbered from one and set apart by blank lines. -/
def rendered (u : Unicode) (documents : List RetrievedDocument) : Text :=
  List.intercalate "\n\n".toList ((documents.zipIdx 1).map fun doc => renderDocument u doc.1 doc.2)

def retrievedSection (u : Unicode) (documents : List RetrievedDocument) : Text :=
  joined retrievedPreface ++ "\n\n".toList ++ openingFence ++ ['\n'] ++ rendered u documents ++
    ['\n'] ++ closingFence

def knowledgeSection (u : Unicode) (documents : List RetrievedDocument)
    (retrievalAttempted generalQuestion : Bool) : List Text :=
  if documents ≠ [] then [retrievedSection u documents]
  else if retrievalAttempted then [joined nothingRetrieved]
  else if generalQuestion then [joined generalQuestionLayer]
  else []

/-- `if user_name:`. -/
def nameLines (userName : Option Text) : List Text :=
  match userName with
  | some name => if name ≠ [] then ["Customer name: ".toList ++ name] else []
  | none => []

def contextSection (moment : DateTime) (userName : Option Text) : Text :=
  "# Conversation context\n".toList ++
    joinLines (["Current UTC time: ".toList ++ moment.format] ++ nameLines userName)

/-- `price_policy.instruction_layer`. -/
def instructionLayer (salesPhone : Text) : Text :=
  let phone := stripText salesPhone
  joined pricingOpening ++ ['\n'] ++ pricingInvitation.toList ++
    (if phone ≠ [] then pricingWithPhone.toList ++ phone ++ pricingAfterPhone.toList
      else pricingWithoutPhone.toList) ++
    ['\n'] ++ joined pricingClosing

/-- The sections of `build_instructions`, in order. -/
def sections (u : Unicode) (s : Settings) (moment : DateTime) (userName : Option Text)
    (documents : List RetrievedDocument)
    (retrievalAttempted isFirstMessage generalQuestion : Bool) : List Text :=
  [systemSection s] ++ companySection s ++ portfolioSection s ++
    knowledgeSection u documents retrievalAttempted generalQuestion ++
    [contextSection moment userName] ++
    (if isFirstMessage then [joined firstMessageLayer] else []) ++
    [joined responseRules, instructionLayer s.salesPhone]

/-- `build_instructions`. -/
def buildInstructions (u : Unicode) (s : Settings) (moment : DateTime) (userName : Option Text)
    (documents : List RetrievedDocument)
    (retrievalAttempted isFirstMessage generalQuestion : Bool) : Text :=
  List.intercalate "\n\n".toList
    (sections u s moment userName documents retrievalAttempted isFirstMessage generalQuestion)

end Prompt
