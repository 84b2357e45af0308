import WhatsAppBot.Chat.Menu
import WhatsAppBot.Chat.Send
import WhatsAppBot.Chat.Tokens

/-!
# The handlers

`ChatService`'s four handlers, the recorder of stale deliveries and the status update. All four
handlers open with the same block: resolve the conversation, claim the message, touch, commit
(`receive`); what differs is what they store and what they do next.
-/

set_option autoImplicit false

namespace Chat

open Lib Store Bot

def markRead (channel : Channel) (waMessageId : String) : BotM Unit :=
  if channel = .whatsapp then markAsRead waMessageId else pure ()

/-- The opening of every handler; `none` when the delivery is a duplicate. -/
def receive (cfg : Config) (channel : Channel) (waId : String) (name : Option String)
    (waMessageId type : String) (content mediaId : Option String) : BotM (Option Conversation) := do
  let c ← context cfg channel waId name
  match ← claimInbound c.id waMessageId type content mediaId with
  | none =>
    rollback
    pure none
  | some _ =>
    touch cfg c.id false
    commit
    pure (some c)

/-- What `handle_text_message` does with a message the bot is to answer. -/
def answerText (cfg : Config) (channel : Channel) (waId : String) (name : Option String)
    (waMessageId text : String) (c : Conversation) : BotM Unit := do
  let owed ← shouldWelcome cfg c
  -- A courtesy opening is answered without a welcome, and leaves it owed.
  let first := owed && !cfg.rules.isCourtesyOnly text
  if first && cfg.rules.isUnintelligible text then
    sendFixed cfg channel waId c.id (cfg.copy.welcome ++ "\n\n" ++ cfg.copy.notUnderstood)
      (some waMessageId) true .text
  else if first && cfg.rules.isGreetingOnly text then
    sendFixed cfg channel waId c.id cfg.copy.welcome (some waMessageId) true .text
  else
    match cfg.rules.classify text with
    | .out =>
      let reply := cfg.copy.outOfScopeReply cfg.companyName
      sendFixed cfg channel waId c.id
        (if first then cfg.copy.welcomePrefix ++ "\n\n" ++ reply else reply)
        (some waMessageId) first .text
    | scope => do
      let history ← buildHistory cfg c.id
      generateAndSend cfg channel waId name c.id history
        (if scope = .company then some text else none) (some waMessageId) first (scope = .domain)

def handleTextMessage (cfg : Config) (channel : Channel) (waId : String) (name : Option String)
    (waMessageId text : String) : BotM Unit := do
  match ← receive cfg channel waId name waMessageId "text" (some text) none with
  | none => pure ()
  | some c =>
    announce c.id
    markRead channel waMessageId
    if ← handledByHuman cfg channel waId c (some text) (some waMessageId) then pure ()
    else if ← withinQuota cfg channel waId c.id waMessageId (some text) then
      answerText cfg channel waId name waMessageId text c
    else pure ()

/-- The routing of a menu selection. -/
def answerSelection (cfg : Config) (channel : Channel) (waId : String) (name : Option String)
    (waMessageId selectionId label : String) (c : Conversation) : BotM Unit := do
  let first ← shouldWelcome cfg c
  if Menu.salesSelections.contains selectionId then
    beginHandoff cfg channel waId c (cfg.copy.salesHandoffAck cfg.salesPhone)
      ("menu_" ++ selectionId) (some tagSalesLead) (some waMessageId)
  else if selectionId = Menu.talkToEmployee then
    beginHandoff cfg channel waId c cfg.copy.handoffAck ("menu_" ++ selectionId) none
      (some waMessageId)
  else if Menu.serviceSelections.contains selectionId then
    let body := Menu.serviceAck selectionId
    sendFixed cfg channel waId c.id
      (if first then cfg.copy.welcomePrefix ++ "\n\n" ++ body else body)
      (some waMessageId) first (.buttons Menu.nextStepButtons)
  else do
    let history ← buildHistory cfg c.id
    generateAndSend cfg channel waId name c.id history (some label) (some waMessageId) first false

def handleInteractiveMessage (cfg : Config) (channel : Channel) (waId : String)
    (name : Option String) (waMessageId selectionId title : String) : BotM Unit := do
  let label := Menu.labelFor selectionId title
  match ← receive cfg channel waId name waMessageId "interactive" (some label) none with
  | none => pure ()
  | some c =>
    announce c.id
    markRead channel waMessageId
    if ← handledByHuman cfg channel waId c (some label) (some waMessageId) then pure ()
    else if ← withinQuota cfg channel waId c.id waMessageId (some label) then
      answerSelection cfg channel waId name waMessageId selectionId label c
    else pure ()

/-- The turn `handle_media_message` adds to the history. -/
def mediaTurn (type : String) (caption : Option String) : Turn where
  role := "user"
  content := "(The user sent a " ++ type ++
    (match caption with
      | some text => if text ≠ "" then " with caption: \"" ++ text ++ "\")" else ")"
      | none => ")") ++
    " You cannot see its contents. Confirm that it arrived," ++
    " do not describe or guess what is in it, and ask what" ++ " they would like done."

def receivedText (type : String) : String := "[" ++ type ++ " received]"

def captionOr (type : String) (caption : Option String) : String :=
  match caption with
  | some text => if text ≠ "" then text else receivedText type
  | none => receivedText type

def handleMediaMessage (cfg : Config) (channel : Channel) (waId : String) (name : Option String)
    (waMessageId type : String) (mediaId caption : Option String) : BotM Unit := do
  match ← receive cfg channel waId name waMessageId type (some (captionOr type caption)) mediaId with
  | none => pure ()
  | some c =>
    announce c.id
    markRead channel waMessageId
    if ← handledByHuman cfg channel waId c caption (some waMessageId) then pure ()
    else if ← withinQuota cfg channel waId c.id waMessageId caption then do
      let first ← shouldWelcome cfg c
      let history ← buildHistory cfg c.id
      generateAndSend cfg channel waId name c.id (history ++ [mediaTurn type caption]) caption
        (some waMessageId) first false
    else pure ()

/-- No quota check and no read receipt here. -/
def handleUnsupportedMessage (cfg : Config) (channel : Channel) (waId : String)
    (name : Option String) (waMessageId type : String) : BotM Unit := do
  match ← receive cfg channel waId name waMessageId type (some (receivedText type)) none with
  | none => pure ()
  | some c =>
    announce c.id
    if ← handledByHuman cfg channel waId c none (some waMessageId) then pure ()
    else do
      let first ← shouldWelcome cfg c
      let reply := cfg.copy.unsupportedMessage
      sendFixed cfg channel waId c.id
        (if first then cfg.copy.welcomePrefix ++ "\n\n" ++ reply else reply)
        (some waMessageId) first .text

/-- `record_without_answering`: claimed and committed, never touched and never answered. -/
def recordWithoutAnswering (cfg : Config) (waId : String) (name : Option String)
    (waMessageId type : String) (content : Option String) : BotM Unit := do
  let c ← getContext cfg waId name
  match ← claimInbound c.id waMessageId type content none with
  | none => rollback
  | some _ =>
    commit
    publish (.activity c.id true)

def handleStatusUpdate (waMessageId status : String) : BotM Unit := do
  exec (.updateStatusByWaId waMessageId status)
  commit

end Chat
