import WhatsAppBot.Channels.Direct
import WhatsAppBot.Webhook.Process

/-!
# Direct messages as the handlers take them

`_dispatch_event` hands on what a direct message adapter took over, whatever it is. It ends up in
text columns, for which the driver takes strings only: `typed?` is the event with strings in the
places that are read, `none` if something else is in one of them.
-/

set_option autoImplicit false

namespace Channels

open Lib Store Bot

/-- `value or default`, as the parameter of a statement. -/
def textParam (value : Json) (default : String) : Option String :=
  if value.truthy then value.str? else some default

namespace DirectEvent

/-- The title of a selection is read if there is an id, and we have no label for it. -/
def readsTitle (e : DirectEvent) : Bool :=
  e.selectionId.getD "" ≠ "" ∧ Chat.Menu.label? (e.selectionId.getD "") = none

/-- The event with the values that `_dispatch_event` reads for its kind. -/
def typed? (e : DirectEvent) : Option InboundEvent :=
  let event : InboundEvent := ⟨e.channel, e.senderId, e.providerMessageId, e.kind, .null, none,
    e.selectionId, none, none, none, none, e.sentAt⟩
  match e.kind with
  | .text => do
    let text ← textParam e.text ""
    some { event with text := some text }
  | .selection =>
    if e.readsTitle then do
      let title ← textParam e.selectionTitle ""
      some { event with selectionTitle := some title }
    else some event
  | .media => do
    let mediaType ← textParam e.mediaType ""
    let caption ← textParam e.caption ""
    some { event with
      mediaType := some mediaType
      caption := match e.caption with
        | .null => none
        | _ => some caption }
  | .unsupported => some event

end DirectEvent

end Channels
