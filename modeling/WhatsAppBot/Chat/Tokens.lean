import WhatsAppBot.Bot.Ops

/-!
# Token counting and history trimming

`tokens.py` and `ConversationService.build_history`. `Encoding.encode` is tiktoken's, called with
its default arguments: it raises (`none`) when the text contains the literal of a special token.
-/

set_option autoImplicit false

namespace Chat

open Lib Store Bot

/-- No special token's literal occurs in the text. -/
def Clean (enc : Encoding) (text : String) : Prop :=
  ∀ s ∈ enc.specialTokens, ¬ s.toList <:+: text.toList

instance (enc : Encoding) (text : String) : Decidable (Clean enc text) :=
  inferInstanceAs (Decidable (∀ s ∈ enc.specialTokens, ¬ s.toList <:+: text.toList))

/-- `encoding.encode(text)`. -/
def encode (enc : Encoding) (text : String) : Option (List Nat) :=
  if Clean enc text then some (enc.encodeOrdinary text) else none

def countTokens (enc : Encoding) (text : String) : Option Nat := (encode enc text).map List.length

def messageOverheadTokens : Nat := 4

/-- `history[-n:]`; Python reads `history[-0:]` as the whole list. -/
def lastN {α : Type} (n : Nat) (xs : List α) : List α :=
  if n = 0 then xs else xs.drop (xs.length - n)

/-- The loop of `trim_history` over the messages newest first; `trimmed` is kept oldest first. -/
def trimLoop (enc : Encoding) (maxTokens : Nat) : List Turn → List Turn → Nat → Option (List Turn)
  | [], trimmed, _ => some trimmed
  | message :: rest, trimmed, totalTokens =>
    match countTokens enc message.content with
    | none => none
    | some n =>
      let cost := n + messageOverheadTokens
      if trimmed ≠ [] ∧ totalTokens + cost > maxTokens then some trimmed
      else trimLoop enc maxTokens rest (message :: trimmed) (totalTokens + cost)

def trimHistory (enc : Encoding) (history : List Turn) (maxMessages maxTokens : Nat) :
    Option (List Turn) :=
  trimLoop enc maxTokens (lastN maxMessages history).reverse [] 0

/-- A stored message as the model reads it. -/
def turnOf (m : Message) : Turn where
  role := if m.direction = .inbound then "user" else "assistant"
  content := match m.content with
    | some text => if text ≠ "" then text else "[" ++ m.type ++ " message]"
    | none => "[" ++ m.type ++ " message]"

/-- `build_history` on the rows `recent` returned; `none` when it raises. -/
def historyOf (cfg : Config) (messages : List Message) : Option (List Turn) :=
  trimHistory cfg.encoding (messages.map turnOf) cfg.maxContextMessages cfg.maxContextTokens

def buildHistory (cfg : Config) (conversationId : Nat) : BotM (List Turn) := do
  let messages ← recent conversationId (cfg.maxContextMessages * 2)
  match historyOf cfg messages with
  | some history => pure history
  | none => raise .disallowedSpecialToken

end Chat
