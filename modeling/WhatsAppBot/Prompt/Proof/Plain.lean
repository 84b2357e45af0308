import WhatsAppBot.Prompt.Texts

/-!
# The fixed texts have no tags

No line of the persona, of the fixed sections or of the pricing layer has an opening bracket
(`plain_fixedLines`), so every tag of a prompt is in what was inserted or is the fence's own.
-/

set_option autoImplicit false

namespace Prompt

def fixedLines : List String :=
  persona ++ portfolioOpening ++ portfolioClosing ++ retrievedPreface ++ nothingRetrieved ++
    generalQuestionLayer ++ firstMessageLayer ++ responseRules ++ pricingOpening ++ pricingClosing ++
    [pricingInvitation, pricingWithPhone, pricingAfterPhone, pricingWithoutPhone]

set_option maxRecDepth 8000 in
theorem plain_fixedLines : ∀ l ∈ fixedLines, '<' ∉ l.toList := by
  unfold fixedLines persona portfolioOpening portfolioClosing retrievedPreface nothingRetrieved
    generalQuestionLayer firstMessageLayer responseRules pricingOpening pricingClosing
    pricingInvitation pricingWithPhone pricingAfterPhone pricingWithoutPhone
  simp only [List.cons_append, List.nil_append]
  repeat' refine List.forall_mem_cons.2 ⟨?_, ?_⟩
  -- a line of several pieces is taken piece by piece
  any_goals simp only [String.toList_append, List.mem_append, not_or]
  any_goals repeat' refine And.intro ?_ ?_
  any_goals exact not_mem_toList (by decide +kernel)
  exact fun _ h => absurd h List.not_mem_nil

theorem mem_fixedLines {l : String} :
    l ∈ fixedLines ↔ l ∈ persona ∨ l ∈ portfolioOpening ∨ l ∈ portfolioClosing ∨
      l ∈ retrievedPreface ∨ l ∈ nothingRetrieved ∨ l ∈ generalQuestionLayer ∨
      l ∈ firstMessageLayer ∨ l ∈ responseRules ∨ l ∈ pricingOpening ∨ l ∈ pricingClosing ∨
      l ∈ [pricingInvitation, pricingWithPhone, pricingAfterPhone, pricingWithoutPhone] := by
  simp only [fixedLines, List.mem_append, or_assoc]

end Prompt
