import WhatsAppBot.Channels.Events
import WhatsAppBot.Chat.Handlers
import WhatsAppBot.Webhook.Payload

/-!
# Processing a delivery

`process_webhook_payload` and `process_meta_payload`: the loops over a delivery, the freshness gate,
the routing of each message or event to a handler, and the invitation that can follow a comment.
Every exception propagates.
-/

set_option autoImplicit false

namespace Webhook

open Lib Store Bot Channels

/-! ## WhatsApp -/

/-- `_message_age` above the limit. -/
def messageIsStale (cfg : Config) (message : Json) : BotM Bool := do
  let raw ← get message "timestamp" .null
  match cfg.fromTimestamp raw with
  | none => pure false
  | some sentAt =>
    let moment ← now
    pure (cfg.inbound.inboundMaxAge < moment - sentAt)

/-- `_handled_as_stale`. -/
def handledAsStale (cfg : Config) (message : Json) (contacts : Contacts) : BotM Bool :=
  if !cfg.inbound.enforced then pure false
  else do
    if ← messageIsStale cfg message then
      let waId ← get message "from" (.str "")
      let waMessageId ← get message "id" (.str "")
      if !waId.truthy || !waMessageId.truthy then pure false
      else
        let waId ← asString waId
        let waMessageId ← asString waMessageId
        let name ← asOptional (nameOf contacts waId)
        let type ← get message "type" (.str "unknown")
        let type ← asString type
        let content ← contentOf cfg message type
        Chat.recordWithoutAnswering cfg waId name waMessageId type content
        pure true
    else pure false

/-- `_dispatch_message`. -/
def dispatchMessage (cfg : Config) (message : Json) (contacts : Contacts) : BotM Unit := do
  let waId ← get message "from" (.str "")
  let waId ← asString waId
  let waMessageId ← get message "id" (.str "")
  let waMessageId ← asString waMessageId
  let type ← get message "type" (.str "unknown")
  let type ← asString type
  let name ← asOptional (nameOf contacts waId)
  if type = "text" then
    let text ← get message "text" (.obj [])
    let body ← get text "body" (.str "")
    let body ← asString body
    Chat.handleTextMessage cfg .whatsapp waId name waMessageId body
  else if type = "image" ∨ type = "document" then
    let media ← get message type (.obj [])
    let mediaId ← get media "id" .null
    let mediaId ← asOptional mediaId
    let caption ← get media "caption" .null
    let caption ← asOptional caption
    Chat.handleMediaMessage cfg .whatsapp waId name waMessageId type mediaId caption
  else if type = "interactive" then
    match ← interactiveSelection cfg message with
    | none => Chat.handleUnsupportedMessage cfg .whatsapp waId name waMessageId type
    | some (selectionId, title) =>
      Chat.handleInteractiveMessage cfg .whatsapp waId name waMessageId selectionId title
  else if type = "button" then
    let button ← get message "button" (.obj [])
    if (button.field "payload").truthy then
      Chat.handleInteractiveMessage cfg .whatsapp waId name waMessageId
        ((button.field "payload").text cfg.reprOf) ((button.field "text").textOr cfg.reprOf)
    else Chat.handleUnsupportedMessage cfg .whatsapp waId name waMessageId type
  else Chat.handleUnsupportedMessage cfg .whatsapp waId name waMessageId type

/-- One message of a delivery. -/
def processMessage (cfg : Config) (contacts : Contacts) (message : Json) : BotM Unit := do
  if ← handledAsStale cfg message contacts then pure ()
  else dispatchMessage cfg message contacts

/-- One status of a delivery. -/
def processStatus (status : Json) : BotM Unit := do
  let waMessageId ← get status "id" .null
  let newStatus ← get status "status" .null
  if waMessageId.truthy && newStatus.truthy then
    let waMessageId ← asString waMessageId
    let newStatus ← asString newStatus
    Chat.handleStatusUpdate waMessageId newStatus
  else pure ()

/-- One change: its messages, then its statuses. -/
def processChange (cfg : Config) (change : Json) : BotM Unit := do
  let value ← get change "value" (.obj [])
  let contacts ← get value "contacts" (.arr [])
  let contacts ← iter contacts
  match contactsOf contacts with
  | none => raise .malformedPayload
  | some contacts =>
    let messages ← get value "messages" (.arr [])
    let messages ← iter messages
    messages.forM (processMessage cfg contacts)
    let statuses ← get value "statuses" (.arr [])
    let statuses ← iter statuses
    statuses.forM processStatus

def processEntry (cfg : Config) (entry : Json) : BotM Unit := do
  let changes ← get entry "changes" (.arr [])
  let changes ← iter changes
  changes.forM (processChange cfg)

/-- `process_webhook_payload`. -/
def processWebhookPayload (cfg : Config) (payload : Json) : BotM Unit := do
  let entries ← get payload "entry" (.arr [])
  let entries ← iter entries
  entries.forM (processEntry cfg)

/-! ## The other Meta channels -/

/-- `_event_is_stale`. -/
def eventIsStale (cfg : Config) (e : InboundEvent) : BotM Bool :=
  if !cfg.inbound.enforced then pure false
  else
    match e.sentAt with
    | none => pure false
    | some sentAt => do
      let moment ← now
      pure (cfg.inbound.inboundMaxAge < moment - sentAt)

/-- `_dispatch_event`. -/
def dispatchEvent (cfg : Config) (channel : Channel) (e : InboundEvent) : BotM Unit :=
  if !e.routable then pure ()
  else do
    let name ← asOptional e.senderName
    match e.kind with
    | .text =>
      Chat.handleTextMessage cfg channel e.senderId name e.providerMessageId (e.text.getD "")
    | .selection =>
      if e.selectionId.getD "" ≠ "" then
        Chat.handleInteractiveMessage cfg channel e.senderId name e.providerMessageId
          (e.selectionId.getD "") (e.selectionTitle.getD "")
      else
        Chat.handleUnsupportedMessage cfg channel e.senderId name e.providerMessageId "interactive"
    | .media =>
      Chat.handleMediaMessage cfg channel e.senderId name e.providerMessageId
        (if e.mediaType.getD "" ≠ "" then e.mediaType.getD "" else "media") e.mediaId e.caption
    | .unsupported =>
      Chat.handleUnsupportedMessage cfg channel e.senderId name e.providerMessageId "unsupported"

/-- The key an invitation to a comment is reserved under. -/
def reservationKey (commentId : String) : String := "dm_invite:" ++ commentId

def inviteType : String := "dm_invite"

/-- `invite_to_private_thread`; without a page id it fails before any request. -/
def inviteToPrivateThread (cfg : Config) (channel : Channel) (conversationId : Nat)
    (commentId text : String) : BotM SendResult :=
  if strip cfg.channels.facebookPageId = "" then pure .failed
  else do
    let wire ← send ⟨channel, commentId, text, .text, conversationId, .invite commentId⟩
    pure wire.result

/-- `invite_after_comment`. -/
def inviteAfterComment (cfg : Config) (channel : Channel) (e : InboundEvent) : BotM Unit :=
  if !cfg.channels.dmInviteEnabled channel then pure ()
  else if strip (cfg.channels.dmInviteMessage channel) = "" then pure ()
  else if !e.routable then pure ()
  else do
    let text := cfg.channels.dmInviteMessage channel
    let name ← asOptional e.senderName
    let c ← Chat.getChannelContext cfg channel e.senderId name
    match ← reserveReply c.id (reservationKey e.providerMessageId) text inviteType with
    | none => rollback
    | some reservedId =>
      commit
      match ← inviteToPrivateThread cfg channel c.id e.providerMessageId text with
      | .failed =>
        exec (.confirmReply reservedId none statusUnconfirmed)
        commit
      | .broken => raise .unusableResponse
      | .sent id =>
        exec (.confirmReply reservedId id statusSent)
        commit

/-- One event of a delivery. -/
def processEvent (cfg : Config) (channel : Channel) (e : InboundEvent) : BotM Unit := do
  if ← eventIsStale cfg e then pure ()
  else
    dispatchEvent cfg channel e
    when (isComment channel && e.routable) (inviteAfterComment cfg channel e)

/-- `process_meta_payload`. -/
def processMetaPayload (cfg : Config) (surface : Surface) (payload : Json) : BotM Unit :=
  match surface.parse payload with
  | none => raise .malformedPayload
  | some events => events.forM (processEvent cfg surface.channel)

end Webhook
