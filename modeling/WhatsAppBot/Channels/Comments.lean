import WhatsAppBot.Channels.Events

/-!
# The comment adapters' parsers

`FacebookCommentAdapter.parse` and `InstagramCommentAdapter.parse`. Both go through a delivery's
entries and changes and make an event of every comment by a customer; they differ in the envelope, in
where the comment's id is, and in the timestamp, which only Facebook sends.
-/

set_option autoImplicit false

namespace Channels

open Lib Store Bot

/-- `for x in j.get(key) or []`; `none`: it raises. -/
def itemsOf (j : Json) (key : String) : Option (List Json) :=
  match j.getD key .null with
  | none => none
  | some items => (items.orElse (.arr [])).iter

/-- `_is_own_comment`. -/
def isOwnComment (cfg : Config) (configured senderId accountId : String) : Bool :=
  if !cfg.channels.ignoreOwnComments || senderId = "" then false
  else senderId = strip configured || (accountId ≠ "" && senderId = accountId)

/-- `message if isinstance(message, str) and message.strip() else None`. -/
def textOf (message : Json) : Option String :=
  match message with
  | .str text => if strip text ≠ "" then some text else none
  | _ => none

/-- The event of a comment. -/
def commentEvent (channel : Channel) (senderId commentId : String) (senderName : Json)
    (text : Option String) (sentAt : Option Time) : InboundEvent where
  channel := channel
  senderId := senderId
  providerMessageId := commentId
  kind := if text.isSome then .text else .unsupported
  senderName := senderName
  text := text
  selectionId := none
  selectionTitle := none
  mediaType := none
  mediaId := none
  caption := none
  sentAt := sentAt

/-- `parse` of both adapters, with the adapter's `_changes` and `_parse_change`. -/
def parseComments (cfg : Config) (changes : Json → Option (List Json))
    (parseChange : Json → String → Option InboundEvent) (payload : Json) :
    Option (List InboundEvent) := do
  let entries ← itemsOf payload "entry"
  let events ← entries.mapM fun entry =>
    if !entry.isObj then some []
    else do
      let items ← changes entry
      let accountId := (entry.field "id").textOr cfg.reprOf
      some ((items.filterMap fun change => parseChange change accountId).filter (·.routable))
  some events.flatten

/-! ## Facebook -/

def facebookChanges (entry : Json) : Option (List Json) := itemsOf entry "changes"

def parseFacebookChange (cfg : Config) (change : Json) (pageId : String) : Option InboundEvent :=
  let value := change.field "value"
  let commentId := (value.field "comment_id").textOr cfg.reprOf
  let author := value.field "from"
  let senderId := (author.field "id").textOr cfg.reprOf
  if !change.isObj then none
  else if (change.field "field").textOr cfg.reprOf ≠ "feed" then none
  else if !value.isObj then none
  else if (value.field "item").textOr cfg.reprOf ≠ "comment" then none
  else if (value.field "verb").textOr cfg.reprOf ≠ "add" then none
  else if commentId = "" then none
  else if isOwnComment cfg cfg.channels.facebookPageId senderId pageId then none
  else some (commentEvent .facebookComment senderId commentId (author.field "name")
    (textOf (value.field "message")) (cfg.fromTimestamp (value.field "created_time")))

/-- `FacebookCommentAdapter`. -/
def facebookComments (cfg : Config) : Surface :=
  ⟨.facebookComment, parseComments cfg facebookChanges (parseFacebookChange cfg)⟩

/-! ## Instagram -/

/-- Facebook Login nests the changes, Instagram Login puts one on the entry itself. -/
def instagramChanges (entry : Json) : Option (List Json) :=
  match entry.field "changes" with
  | .arr changes => some changes
  | _ =>
    match entry.field "field" with
    | .null => some []
    | _ => some [entry]

/-- `_comment_id`. -/
def instagramCommentId (cfg : Config) (value : Json) : String :=
  if (value.field "comment_id").truthy then (value.field "comment_id").text cfg.reprOf
  else (value.field "id").textOr cfg.reprOf

def parseInstagramChange (cfg : Config) (change : Json) (accountId : String) :
    Option InboundEvent :=
  let value := change.field "value"
  let commentId := instagramCommentId cfg value
  let author := value.field "from"
  let senderId := (author.field "id").textOr cfg.reprOf
  if !change.isObj then none
  else if (change.field "field").textOr cfg.reprOf ≠ "comments" then none
  else if !value.isObj then none
  else if commentId = "" then none
  else if isOwnComment cfg cfg.channels.instagramAccountId senderId accountId then none
  else some (commentEvent .instagramComment senderId commentId (author.field "username")
    (textOf (value.field "text")) none)

/-- `InstagramCommentAdapter`. -/
def instagramComments (cfg : Config) : Surface :=
  ⟨.instagramComment, parseComments cfg instagramChanges (parseInstagramChange cfg)⟩

end Channels
