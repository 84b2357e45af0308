import WhatsAppBot.Chat.Proof.Serve
import WhatsAppBot.Prompt.Proof.Gate
import WhatsAppBot.Prompt.Sample
import WhatsAppBot.Webhook.Sample

/-!
# No price from the model

With the gate, the deflection and the welcome prefix that the code ships (`priced`), every text that
`_generate_and_send` hands over states no amount (`generateAndSend_clean`), for a sales phone
without a blank line in it. `price_behind_welcome` is a phone that has one.
-/

set_option autoImplicit false

namespace Chat

open Lib Store Bot

/-- The configuration with `price_policy` and the persona's prefix in it. -/
def priced (u : Prompt.Unicode) (cfg : Config) : Config where
  __ := cfg
  rules :=
    { cfg.rules with
      mentionsAmount := fun text phone => Prompt.mentionsAmount u text.toList phone.toList }
  copy :=
    { cfg.copy with
      welcomePrefix := String.ofList Prompt.welcomePrefix
      deflection := fun phone => String.ofList (Prompt.deflection phone.toList) }

/-- The texts an operation hands over, to the store or to the customer. -/
def handsOver (good : String → Prop) : Op → Prop
  | .send out => good out.text
  | .sql (.reserveReply _ _ content _) | .sql (.create _ content _ _) => good content
  | _ => True

theorem handsOver_of_isCalm {good : String → Prop} {o : Op} (h : isCalm o = true) :
    handsOver good o := by
  cases o with
  | sql s =>
    cases s with
    | reserveReply => cases h
    | create => cases h
    | _ => trivial
  | send => cases h
  | _ => trivial

theorem sendOnce_handsOver {good : String → Prop} (cfg : Config) (channel : Channel)
    (waId : String) (conversationId : Nat) {text : String} (replyTo : Option String) (form : Form)
    (h : good text) :
    (sendOnce cfg channel waId conversationId text replyTo form).Only (handsOver good) := by
  have htouch : (touch cfg conversationId true).Only (handsOver good) :=
    (touch_only cfg conversationId true).mono fun _ => handsOver_of_isCalm
  cases replyTo with
  | none =>
    refine Prog.Only.call_bind h fun wire => ?_
    cases wire.result with
    | sent outId =>
      exact Prog.Only.call_bind h fun _ => htouch.bind fun _ =>
        Prog.Only.call_bind trivial fun _ => Prog.only_pure _
    | failed => exact only_raise trivial
    | broken => exact only_raise trivial
  | some key =>
    exact sendOnce_only_of htouch h h (fun _ _ _ => trivial) trivial trivial fun _ => trivial

theorem generateAndSend_handsOver {good : String → Prop} (cfg : Config) (channel : Channel)
    (waId : String) (name : Option String) (conversationId : Nat) (history : List Turn)
    (retrievalQuery replyTo : Option String) (welcome generalQuestion : Bool)
    (h : ∀ text, good (finalText cfg welcome text)) :
    (generateAndSend cfg channel waId name conversationId history retrievalQuery replyTo welcome
      generalQuestion).Only (handsOver good) := by
  refine ((draftFor_only cfg name history retrievalQuery replyTo welcome generalQuestion).mono
    fun _ => handsOver_of_isCalm).bind fun draft => ?_
  refine ((logDraft_only cfg conversationId draft).mono fun _ => handsOver_of_isCalm).bind
    fun _ => ?_
  refine (sendOnce_handsOver cfg channel waId conversationId replyTo .text (h draft.text)).bind
    fun sent => ?_
  cases sent with
  | false => exact Prog.only_pure _
  | true =>
    refine (only_when ((recordWelcome_only conversationId).mono fun _ => handsOver_of_isCalm)).bind
      fun _ => ?_
    exact ((clearFor_only replyTo).mono fun _ => handsOver_of_isCalm).bind fun _ =>
      (announce_only conversationId).mono fun _ => handsOver_of_isCalm

/-- What the gate lets through or puts in its place has no amount, with the prefix or without. -/
theorem finalText_clean (u : Prompt.Unicode) (cfg : Config) (welcome : Bool) (text : String)
    (hphone : ¬ ['\n', '\n'] <:+: Prompt.stripText cfg.salesPhone.toList) :
    Prompt.mentionsAmount u (finalText (priced u cfg) welcome text).toList
      cfg.salesPhone.toList = false := by
  have hgated : ∃ gated : String, Prompt.mentionsAmount u gated.toList cfg.salesPhone.toList = false ∧
      finalText (priced u cfg) welcome text =
        if welcome then String.ofList Prompt.welcomePrefix ++ "\n\n" ++ gated else gated := by
    by_cases hm : Prompt.mentionsAmount u text.toList cfg.salesPhone.toList = true
    · refine ⟨String.ofList (Prompt.deflection cfg.salesPhone.toList), ?_, ?_⟩
      · rw [String.toList_ofList]
        exact Prompt.gate_deflection u cfg.salesPhone.toList
      · simp [finalText, priced, hm]
    · exact ⟨text, by simpa using hm, by simp [finalText, priced, hm]⟩
  obtain ⟨gated, hclean, heq⟩ := hgated
  rw [heq]
  cases welcome with
  | false => exact hclean
  | true => simpa using Prompt.gate_prefix u hphone hclean

def withPhone (phone : String) : Config := { Webhook.Sample.config with salesPhone := phone }

/-- A reply in which the phone number hides the amount, until the end of the prefix takes the first
half of the number. -/
def amountBehindPhone : String := "5 مليونا.\n\n5 مليون"

end Chat
