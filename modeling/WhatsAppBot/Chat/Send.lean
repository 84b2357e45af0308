import WhatsAppBot.Chat.Context

/-!
# Sending a reply

`ChatService._send_once` and what is built on it. Every function takes the channel the service was
constructed for and, as in the source, the customer's id on that channel under the name `waId`.
-/

set_option autoImplicit false

namespace Chat

open Lib Store Bot

def announce (conversationId : Nat) : BotM Unit := publish (.activity conversationId true)

/-- `_send_once`. `form` is the sender: plain text, or the buttons of `_buttons_sender`. -/
def sendOnce (cfg : Config) (channel : Channel) (waId : String) (conversationId : Nat)
    (text : String) (replyTo : Option String) (form : Form) : BotM Bool :=
  match replyTo with
  | none => do
    let wire ← send ⟨channel, waId, text, form, conversationId, .reply none⟩
    match wire.result with
    | .sent outId =>
      let _ ← createMessage conversationId text outId statusSent
      touch cfg conversationId true
      commit
      pure true
    | .failed => raise .externalService
    | .broken => raise .unusableResponse
  | some key => do
    match ← reserveReply conversationId key text "text" with
    | none =>
      rollback
      pure false
    | some reservedId =>
      touch cfg conversationId true
      commit
      let wire ← send ⟨channel, waId, text, form, conversationId, .reply (some key)⟩
      match wire.result with
      | .failed =>
        exec (.confirmReply reservedId none statusUnconfirmed)
        commit
        pure false
      -- An exception of another kind than `ExternalServiceError` leaves the row pending.
      | .broken => raise .unusableResponse
      | .sent outId =>
        exec (.confirmReply reservedId outId statusSent)
        touch cfg conversationId true
        commit
        pure true

/-- `_record_welcome`. -/
def recordWelcome (conversationId : Nat) : BotM Unit := do
  let moment ← now
  exec (.markWelcomeSent conversationId moment)
  commit

/-- `_send_fixed`. -/
def sendFixed (cfg : Config) (channel : Channel) (waId : String) (conversationId : Nat)
    (text : String) (replyTo : Option String) (welcome : Bool) (form : Form) : BotM Unit := do
  if ← sendOnce cfg channel waId conversationId text replyTo form then
    when welcome (recordWelcome conversationId)
    announce conversationId
  else pure ()

/-- `_begin_handoff`. -/
def beginHandoff (cfg : Config) (channel : Channel) (waId : String) (c : Conversation)
    (ack reason : String) (tag : Option String) (replyTo : Option String) : BotM Unit := do
  let c ← setMode c .human none tag
  commit
  publish (.handoff c.id .human reason c.tag)
  let _ ← sendOnce cfg channel waId c.id ack replyTo .text
  announce c.id

/-- `_handled_by_human`. -/
def handledByHuman (cfg : Config) (channel : Channel) (waId : String) (c : Conversation)
    (text : Option String) (replyTo : Option String) : BotM Bool :=
  if c.mode = .human then pure true
  else if cfg.rules.isNegotiating text then do
    beginHandoff cfg channel waId c (cfg.copy.salesHandoffAck cfg.salesPhone)
      "customer_started_negotiating" (some tagSalesLead) replyTo
    pure true
  else if cfg.rules.wantsHuman text then do
    beginHandoff cfg channel waId c cfg.copy.handoffAck "customer_asked_for_a_human"
      (if cfg.rules.isSalesLead text then some tagSalesLead else none) replyTo
    pure true
  else pure false

/-- `_within_quota`. -/
def withinQuota (cfg : Config) (channel : Channel) (waId : String) (conversationId : Nat)
    (waMessageId : String) (text : Option String) : BotM Bool := do
  let decision ← quotaCheck waId waMessageId text
  if decision.allowed then pure true
  else
    when decision.notify <|
      sendFixed cfg channel waId conversationId (cfg.copy.quotaMessage decision cfg.salesPhone)
        (some waMessageId) false .text
    pure false

/-! ## Generation -/

/-- A reply's text with what is logged about it: the generation, or the error. -/
structure Draft where
  text : String
  generation : Option Generation
  error : Option String

def generationOf (cfg : Config) (result : Completion) : Generation where
  text := if result.text ≠ "" then result.text else cfg.copy.serviceBusy
  model := result.model
  promptTokens := result.promptTokens.getD 0
  completionTokens := result.completionTokens.getD 0
  totalTokens := result.totalTokens.getD 0
  latencyMs := some (result.latencyMs.getD 0)

/-- `reply_to`, where it is a usable cache key. -/
def cacheKey (replyTo : Option String) : Option String := replyTo.filter (· ≠ "")

def cachedFor (replyTo : Option String) : BotM (Option Generation) :=
  match cacheKey replyTo with
  | some key => getCachedGeneration key
  | none => pure none

def storeFor (replyTo : Option String) (g : Generation) : BotM Unit :=
  match cacheKey replyTo with
  | some key => storeGeneration key g
  | none => pure ()

def clearFor (replyTo : Option String) : BotM Unit :=
  match cacheKey replyTo with
  | some key => clearGeneration key
  | none => pure ()

def retrieveFor (cfg : Config) (query : String) : BotM (Option (List String)) :=
  if query ≠ "" then retrieve query cfg.ragTopK else pure (some [])

/-- The part of `_generate_and_send` that runs when nothing is cached. No transaction is open while
the model is called. -/
def generate (cfg : Config) (name : Option String) (history : List Turn)
    (retrievalQuery replyTo : Option String) (welcome generalQuestion : Bool) : BotM Draft := do
  let query := retrievalQuery.getD ""
  let documents ← retrieveFor cfg query
  rollback
  let instructions := cfg.buildInstructions name (documents.getD []) (query ≠ "") welcome
    generalQuestion
  match ← generateReply history instructions with
  | .ok result =>
    let g := generationOf cfg result
    storeFor replyTo g
    recordUsage g.promptTokens g.completionTokens g.model
    pure ⟨g.text, some g, none⟩
  | .error message => pure ⟨cfg.copy.serviceBusy, none, some message⟩

/-- The price gate and the welcome prefix. -/
def finalText (cfg : Config) (welcome : Bool) (text : String) : String :=
  let text := if cfg.rules.mentionsAmount text cfg.salesPhone then cfg.copy.deflection cfg.salesPhone
    else text
  if welcome then cfg.copy.welcomePrefix ++ "\n\n" ++ text else text

def logDraft (cfg : Config) (conversationId : Nat) (d : Draft) : BotM Unit :=
  match d.generation, d.error with
  | some g, _ =>
    exec (.createAiLog ⟨g.model, conversationId, g.promptTokens, g.completionTokens, g.totalTokens,
      g.latencyMs.getD 0, none⟩)
  | none, some message =>
    exec (.createAiLog ⟨cfg.openaiModel, conversationId, 0, 0, 0, 0, some message⟩)
  | none, none => pure ()

/-- The cached generation, or a new one. -/
def draftFor (cfg : Config) (name : Option String) (history : List Turn)
    (retrievalQuery replyTo : Option String) (welcome generalQuestion : Bool) : BotM Draft := do
  match ← cachedFor replyTo with
  | some g => pure ⟨g.text, some g, none⟩
  | none => generate cfg name history retrievalQuery replyTo welcome generalQuestion

/-- `_generate_and_send`. -/
def generateAndSend (cfg : Config) (channel : Channel) (waId : String) (name : Option String)
    (conversationId : Nat) (history : List Turn) (retrievalQuery replyTo : Option String)
    (welcome generalQuestion : Bool) : BotM Unit := do
  let draft ← draftFor cfg name history retrievalQuery replyTo welcome generalQuestion
  logDraft cfg conversationId draft
  if ← sendOnce cfg channel waId conversationId (finalText cfg welcome draft.text) replyTo .text then
    when welcome (recordWelcome conversationId)
    clearFor replyTo
    announce conversationId
  else pure ()

end Chat
