import WhatsAppBot.Prompt.Builder

/-!
# A prompt to try things on

The character tables restricted to the letters and digits that occur here, settings with nothing in
them, and one retrieved document.
-/

set_option autoImplicit false

namespace Prompt.Sample

/-- Latin and Arabic letters, their digits and the underscore. -/
def characters : Unicode where
  word c := isLatinLetter c || isArabicLetter c || isDigit c || c = '_'
  decimal := isDigit
  word_newline := by decide
  decimal_newline := by decide

def settings : Settings := ⟨[], [], [], [], []⟩

def moment : DateTime := ⟨2025, 1, 2, 3, 4⟩

def document (content : String) : RetrievedDocument := ⟨content.toList, "services.pdf".toList⟩

/-- The prompt for a company question. -/
def prompt (name : Option Text) (documents : List RetrievedDocument) : Text :=
  buildInstructions characters settings moment name documents true false false

end Prompt.Sample
