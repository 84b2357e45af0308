import WhatsAppBot.Bot.Ops

/-!
# Normalised events

`events.py`: what an adapter's `parse` returns, and what the pipeline knows of an adapter.
-/

set_option autoImplicit false

namespace Channels

open Lib Store Bot

inductive EventKind where
  | text
  | media
  | selection
  | unsupported
  deriving DecidableEq

structure InboundEvent where
  channel : Channel
  senderId : String
  providerMessageId : String
  kind : EventKind
  senderName : Json
  text : Option String
  selectionId : Option String
  selectionTitle : Option String
  mediaType : Option String
  mediaId : Option String
  caption : Option String
  sentAt : Option Time

namespace InboundEvent

/-- `routable`. -/
def routable (e : InboundEvent) : Bool := e.senderId ≠ "" ∧ e.providerMessageId ≠ ""

end InboundEvent

/-- An adapter as `process_meta_payload` uses it. `parse` drops what is not routable; `none`: it
raised. -/
structure Surface where
  channel : Channel
  parse : Json → Option (List InboundEvent)

/-- `isinstance(adapter, CommentChannelAdapter)`. -/
def isComment : Channel → Bool
  | .facebookComment | .instagramComment => true
  | _ => false

end Channels
