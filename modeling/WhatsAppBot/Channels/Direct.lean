import WhatsAppBot.Channels.Comments

/-!
# The direct message adapters' parsers

`MessengerAdapter.parse` and `InstagramDMAdapter.parse`. Both go through a delivery's entries and
messaging items; they differ in what they ignore and in that Instagram says which messages its API
cannot represent. Nothing checks the shape of an item before it is read: `none` is an exception.
-/

set_option autoImplicit false

namespace Channels

open Lib Store Bot

/-! ## Timestamps -/

inductive ConversionError where
  | typeError
  | valueError
  | overflowError
  | osError
  deriving DecidableEq

/-- What the language makes of numbers and their spellings. -/
structure Conversions where
  /-- `int` of a finite float, given as it is printed. -/
  truncate : String → Int
  /-- `int` of a string; `none`: a `ValueError`. -/
  parseInt : String → Option Int
  /-- `datetime.fromtimestamp(millis / 1000, tz=UTC)`. -/
  fromMillis : Int → Except ConversionError Time

namespace Conversions

variable (cv : Conversions)

/-- `int(value)`. -/
def toInt : Json → Except ConversionError Int
  | .bool b => .ok (if b then 1 else 0)
  | .int n => .ok n
  | .float repr =>
    if repr = "inf" ∨ repr = "-inf" then .error .overflowError
    else if repr = "nan" then .error .valueError
    else .ok (cv.truncate repr)
  | .str s =>
    match cv.parseInt s with
    | some n => .ok n
    | none => .error .valueError
  | .null | .arr _ | .obj _ => .error .typeError

/-- `datetime.fromtimestamp(int(value) / 1000, tz=UTC)`. -/
def sentAt (value : Json) : Except ConversionError Time := do
  let millis ← cv.toInt value
  cv.fromMillis millis

/-- `_timestamp` of both adapters, which catch a `TypeError` and a `ValueError`. -/
def timestamp (value : Json) : Option (Option Time) :=
  match cv.sentAt value with
  | .ok time => some (some time)
  | .error .typeError | .error .valueError => some none
  | .error _ => none

end Conversions

/-! ## Items -/

/-- `InboundEvent` as the adapters fill it in: what they take over is of any type. -/
structure DirectEvent where
  channel : Channel
  senderId : String
  providerMessageId : String
  kind : EventKind
  text : Json
  selectionId : Option String
  selectionTitle : Json
  mediaType : Json
  mediaUrl : Json
  caption : Json
  sentAt : Option Time

def DirectEvent.routable (e : DirectEvent) : Bool := e.senderId ≠ "" ∧ e.providerMessageId ≠ ""

/-- `j or {}`, to be looked up in. -/
def dictOr (j : Json) : Option Json :=
  let d := j.orElse (.obj [])
  if d.isObj then some d else none

/-- `j[0]`. -/
def firstOf : Json → Option Json
  | .arr (x :: _) => some x
  | .str s => s.toList.head?.map fun c => .str (String.singleton c)
  | _ => none

/-- What one adapter has of its own. -/
structure DirectRules where
  channel : Channel
  /-- From the message, its sender's id and the entry's id: there is nothing to answer. -/
  ignored : Json → String → String → Bool
  /-- The API cannot represent the message. -/
  unreadable : Json → Bool

def directEvent (channel : Channel) (senderId mid : String) (kind : EventKind)
    (sentAt : Option Time) : DirectEvent :=
  ⟨channel, senderId, mid, kind, .null, none, .null, .null, .null, .null, sentAt⟩

/-- The part of `_parse_item` that reads the message. -/
def parseMessage (cfg : Config) (r : DirectRules) (message : Json) (senderId : String)
    (sentAt : Option Time) : Option DirectEvent :=
  let event := directEvent r.channel senderId ((message.field "mid").textOr cfg.reprOf)
  if r.unreadable message then some (event .unsupported sentAt)
  else do
    let quickReply ← dictOr (message.field "quick_reply")
    if quickReply.truthy then
      some { event .selection sentAt with
        selectionId := some ((quickReply.field "payload").textOr cfg.reprOf)
        selectionTitle := message.field "text" }
    else if (message.field "attachments").truthy then do
      let first ← firstOf (message.field "attachments")
      let first ← dictOr first
      let payload ← dictOr (first.field "payload")
      some { event .media sentAt with
        mediaType := first.field "type"
        mediaUrl := payload.field "url"
        caption := message.field "text" }
    else if (message.field "text").truthy then
      some { event .text sentAt with text := message.field "text" }
    else some (event .unsupported sentAt)

/-- `_parse_item`. -/
def parseDirectItem (cfg : Config) (cv : Conversions) (r : DirectRules) (item : Json)
    (ownId : String) : Option (Option DirectEvent) :=
  if !item.isObj then none
  else do
    let sender ← dictOr (item.field "sender")
    let senderId := (sender.field "id").textOr cfg.reprOf
    let message ← dictOr (item.field "message")
    let postback := item.field "postback"
    if r.ignored message senderId ownId then some none
    else if !message.truthy && !postback.truthy then some none
    else do
      let sentAt ← cv.timestamp (item.field "timestamp")
      if postback.truthy then
        if !postback.isObj then none
        else
          some (some { directEvent r.channel senderId ((postback.field "mid").textOr cfg.reprOf)
              .selection sentAt with
            selectionId := some ((postback.field "payload").textOr cfg.reprOf)
            selectionTitle := postback.field "title" })
      else do
        let event ← parseMessage cfg r message senderId sentAt
        some (some event)

/-- `parse` of both adapters. -/
def parseDirect (cfg : Config) (cv : Conversions) (r : DirectRules) (payload : Json) :
    Option (List DirectEvent) := do
  let entries ← itemsOf payload "entry"
  let events ← entries.mapM fun entry =>
    if !entry.isObj then none
    else do
      let ownId := (entry.field "id").textOr cfg.reprOf
      let items ← itemsOf entry "messaging"
      let events ← items.mapM fun item => parseDirectItem cfg cv r item ownId
      some ((events.filterMap id).filter (·.routable))
  some events.flatten

/-! ## The adapters -/

/-- Echoes, by their flag or because the page is the sender. -/
def messengerRules : DirectRules where
  channel := .messenger
  ignored message senderId pageId :=
    (message.field "is_echo").truthy || (pageId ≠ "" && senderId = pageId)
  unreadable _ := false

/-- Echoes, messages of the account itself and unsends. -/
def instagramRules (cfg : Config) : DirectRules where
  channel := .instagramDm
  ignored message senderId accountId :=
    (message.field "is_echo").truthy || (message.field "is_self").truthy ||
      (senderId ≠ "" &&
        (senderId = accountId || senderId = strip cfg.channels.instagramAccountId)) ||
      (message.field "is_deleted").truthy
  unreadable message := (message.field "is_unsupported").truthy

/-- `MessengerAdapter.parse`. -/
def parseMessenger (cfg : Config) (cv : Conversions) : Json → Option (List DirectEvent) :=
  parseDirect cfg cv messengerRules

/-- `InstagramDMAdapter.parse`. -/
def parseInstagramDm (cfg : Config) (cv : Conversions) : Json → Option (List DirectEvent) :=
  parseDirect cfg cv (instagramRules cfg)

end Channels
