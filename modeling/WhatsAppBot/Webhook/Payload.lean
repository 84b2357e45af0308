import WhatsAppBot.Bot.Ops

/-!
# Reading a WhatsApp delivery

The dictionary accesses of `webhook_processor.py`. Reading a value of the wrong shape raises, at
the point where the source reads it. Values that end up as parameters of a statement or arguments of
a handler are strings in the handlers' signatures; one of another type raises here.
-/

set_option autoImplicit false

namespace Webhook

open Lib Store Bot

/-- `j.get(key, default)`. -/
def get (j : Json) (key : String) (default : Json) : BotM Json :=
  match j.getD key default with
  | some v => pure v
  | none => raise .malformedPayload

/-- `for x in j`. -/
def iter (j : Json) : BotM (List Json) :=
  match j.iter with
  | some xs => pure xs
  | none => raise .malformedPayload

def asString (j : Json) : BotM String :=
  match j with
  | .str s => pure s
  | _ => raise .malformedPayload

def asOptional (j : Json) : BotM (Option String) :=
  match j with
  | .str s => pure (some s)
  | .null => pure none
  | _ => raise .malformedPayload

/-- The contacts of one change: customer ids and names. -/
abbrev Contacts := List (String × Json)

/-- One item of the `contacts` comprehension; `none`: it raises. Only string ids are looked up. -/
def contactOf (contact : Json) : Option Contacts :=
  match contact.getD "wa_id" .null, contact.getD "profile" (.obj []) with
  | some (.arr _), _ | some (.obj _), _ | none, _ | _, none => none
  | some key, some profile =>
    match profile.getD "name" .null with
    | none => none
    | some name =>
      match key with
      | .str waId => some [(waId, name)]
      | _ => some []

def contactsOf (contacts : List Json) : Option Contacts :=
  (contacts.mapM contactOf).map List.flatten

/-- `contacts.get(wa_id)`: the last binding. -/
def nameOf (contacts : Contacts) (waId : String) : Json :=
  ((contacts.reverse.find? fun kv => kv.1 == waId).map (·.2)).getD .null

/-- `_interactive_selection`. -/
def interactiveSelection (cfg : Config) (message : Json) : BotM (Option (String × String)) := do
  let interactive ← get message "interactive" (.obj [])
  let pick (key : String) : Option (String × String) :=
    let reply := interactive.field key
    if (reply.field "id").truthy then
      some ((reply.field "id").text cfg.reprOf, (reply.field "title").textOr cfg.reprOf)
    else none
  pure ((pick "button_reply").or (pick "list_reply"))

def received (type : String) : String := "[" ++ type ++ " received]"

/-- `_content_of`. -/
def contentOf (cfg : Config) (message : Json) (type : String) : BotM (Option String) := do
  if type = "text" then
    let text ← get message "text" (.obj [])
    let body ← get text "body" .null
    asOptional body
  else if type = "image" ∨ type = "document" then
    let media ← get message type (.obj [])
    let caption := media.field "caption"
    if caption.truthy then asOptional caption else pure (some (received type))
  else if type = "interactive" then
    match ← interactiveSelection cfg message with
    | none => pure (some (received "interactive"))
    | some (selectionId, title) => pure (some (if title ≠ "" then title else selectionId))
  else if type = "button" then
    let button ← get message "button" (.obj [])
    if button.isObj then
      pure (some (((button.field "text").orElse (button.field "payload")).textOr cfg.reprOf))
    else pure (some (received type))
  else pure (some (received type))

end Webhook
