import WhatsAppBot.Bot.Ops

/-!
# The customer and the conversation of a message

`UserRepository.get_or_create`, `ConversationRepository.get_or_create_active` and
`ConversationService.get_context`, on every channel, with the session helpers the handlers share
(`touch`, `should_welcome`, `set_mode`).
-/

set_option autoImplicit false

namespace Chat

open Lib Store Bot

/-- `if name and user.name != name: user.name = name`; the flush comes with the next statement. -/
def renameUser (user : User) (name : Option String) : BotM User :=
  match name with
  | some n =>
    if n ≠ "" ∧ user.name ≠ some n then do
      exec (.setUserName user.id n)
      pure { user with name := some n }
    else pure user
  | none => pure user

def getOrCreate (waId : String) (name : Option String) : BotM User := do
  match ← getByWaId waId with
  | some user => renameUser user name
  | none =>
    exec (.insertUser waId name)
    match ← getByWaId waId with
    | some user => renameUser user name
    | none => raise .conflict

def getOrCreateByChannel (channel : Channel) (externalId : String) (name : Option String) :
    BotM User := do
  match ← getByChannelId channel externalId with
  | some user => renameUser user name
  | none =>
    exec (.insertChannelUser channel externalId name)
    match ← getByChannelId channel externalId with
    | some user => renameUser user name
    | none => raise .conflict

/-- `_reopen_within`. -/
def reopenWithin (cfg : Config) : Option Time :=
  if cfg.session.enableConversationSession ∧ 0 < cfg.session.conversationReopenWindow then
    some cfg.session.conversationReopenWindow
  else none

/-- The reopening branch of `get_or_create_active`. -/
def resumeRecent (userId : Nat) (window : Option Time) : BotM (Option Conversation) := do
  match window with
  | none => pure none
  | some window =>
    let moment ← now
    let revivedAt ← now
    match ← reopenRecent userId (moment - window) revivedAt with
    | some id => getConversation id
    | none => pure none

/-- The insert of `get_or_create_active`. -/
def createActive (userId : Nat) (channel : Channel) : BotM (Option Conversation) := do
  match ← insertConversation userId channel with
  | some id => getConversation id
  | none => pure none

/-- A conversation of its own, or the winner's when the race for it was lost. -/
def openNew (userId : Nat) (channel : Channel) : BotM Conversation := do
  match ← createActive userId channel with
  | some c => pure c
  | none =>
    match ← activeForUser userId with
    | some c => pure c
    | none => raise .conflict

def getOrCreateActive (userId : Nat) (window : Option Time) (channel : Channel) :
    BotM Conversation := do
  match ← activeForUser userId with
  | some c => pure c
  | none =>
    match ← resumeRecent userId window with
    | some c => pure c
    | none => openNew userId channel

def getContext (cfg : Config) (waId : String) (name : Option String) : BotM Conversation := do
  let user ← getOrCreate waId name
  getOrCreateActive user.id (reopenWithin cfg) .whatsapp

def getChannelContext (cfg : Config) (channel : Channel) (externalId : String)
    (name : Option String) : BotM Conversation := do
  let user ← getOrCreateByChannel channel externalId name
  getOrCreateActive user.id (reopenWithin cfg) channel

/-- `ChatService._context`. -/
def context (cfg : Config) (channel : Channel) (externalId : String) (name : Option String) :
    BotM Conversation :=
  if channel = .whatsapp then getContext cfg externalId name
  else getChannelContext cfg channel externalId name

/-! ## Session helpers -/

/-- `SessionService.touch`. -/
def touch (cfg : Config) (conversationId : Nat) (outgoing : Bool) : BotM Unit :=
  if !cfg.session.enableConversationSession then pure ()
  else if outgoing && !cfg.session.resetIdleTimerOnOutgoingMessage then pure ()
  else do
    let moment ← now
    exec (.touch conversationId moment)

def shouldWelcome (cfg : Config) (c : Conversation) : BotM Bool :=
  if !cfg.session.enableConversationSession then pure false
  else if !cfg.session.enableWelcomeOnNewSession then pure false
  else if cfg.session.preventDuplicateWelcome && c.welcomeSentAt.isSome then pure false
  else if cfg.session.enableRepeatWelcomeAfterNewSession then pure true
  else do
    let n ← countForUser c.userId
    pure (n ≤ 1)

/-- The columns `set_mode` leaves different from the loaded row `c`. -/
def modePatch (c : Conversation) (mode : Mode) (operator tag : Option String)
    (handoffAt : Option Time) (activity : Time) : ModePatch where
  mode := if c.mode = mode then none else some mode
  tag := if tag = none ∨ c.tag = tag then none else tag
  assignedOperator := if c.assignedOperator = operator then none else some operator
  assignedOperatorId := none
  handoffAt := if c.handoffAt = handoffAt then none else some handoffAt
  lastActivityAt := if c.lastActivityAt = activity then none else some activity

/-- `set_mode`, with its flush; it does not commit. -/
def setMode (c : Conversation) (mode : Mode) (operator tag : Option String) : BotM Conversation :=
  match mode with
  | .human => do
    let handoffAt ← now
    let activity ← now
    let p := modePatch c .human operator tag (some handoffAt) activity
    exec (.flushMode c.id p)
    pure (ConversationUpdate.apply c (.setMode p))
  | .bot => do
    let activity ← now
    let p := modePatch c .bot none tag none activity
    exec (.flushMode c.id p)
    pure (ConversationUpdate.apply c (.setMode p))

end Chat
