import WhatsAppBot.Lib.Json
import WhatsAppBot.Lib.Retry
import WhatsAppBot.Lib.Interleave
import WhatsAppBot.Store.Sql

/-!
# What the bot's code can do

`Op`: the operations a worker performs. It sends SQL, commits, rolls back, reads the clock and calls
the services around it. `BotM` is the type of the programs over them; one definition below for each
operation, under the name the code calls it by.

What the services answer is free; two parts of it are spelt out here because the code's behaviour
depends on them. A send makes HTTP requests (`Post`), each of which the provider may have accepted
whatever it answered; `Wire` is all the requests of one send. `Config` holds the settings, and the
text classifiers and customer-facing copy the handlers consult.
-/

set_option autoImplicit false

namespace Bot

open Lib Store

/-! ## Sending -/

/-- Why a message is sent. It does not travel: the provider sees the recipient and the text. -/
inductive Purpose where
  | reply (replyTo : Option String)
  | closing
  | manual
  | invite (commentId : String)
  deriving DecidableEq

inductive Form where
  | text
  | buttons (options : List (String × String))
  deriving DecidableEq

/-- One invocation of a sender, with the conversation it is made for. -/
structure Outbound where
  channel : Channel
  recipient : String
  text : String
  form : Form
  conversationId : Nat
  purpose : Purpose
  deriving DecidableEq

/-- What one request came back with: a 2xx with a usable body, a 2xx whose body cannot be used, any
other status, or no response. -/
inductive Answer where
  | ok (id : Option String)
  | garbled
  | status (code : Nat)
  | transport
  deriving DecidableEq

structure Post where
  accepted : Bool
  answer : Answer
  deriving DecidableEq

/-- `is_transient_http_error`. -/
def Post.transient (p : Post) : Bool :=
  match p.answer with
  | .transport => true
  | .status code => code == 429 || 500 ≤ code
  | _ => false

/-- What a client's `_post` gives its caller: the id of the message, `ExternalServiceError`, or an
exception of another kind. -/
inductive SendResult where
  | sent (id : Option String)
  | failed
  | broken
  deriving DecidableEq

def postResult (posts : List Post) : SendResult :=
  match posts.getLast? with
  | some ⟨_, .ok id⟩ => .sent id
  | some ⟨_, .garbled⟩ => .broken
  | _ => .failed

/-- The requests of one send. `fallback` are those of the plain text that `_buttons_sender` sends
after the buttons failed. -/
structure Wire where
  first : List Post
  fallback : Option (List Post)
  deriving DecidableEq

def Wire.result (w : Wire) : SendResult := postResult (w.fallback.getD w.first)

/-- The copies of the message the provider accepted. -/
def Wire.copies (w : Wire) : Nat :=
  (w.first ++ w.fallback.getD []).countP (·.accepted)

/-- `extra` retries after the first attempt of each phase. -/
def Wire.legal (extra : Nat) (form : Form) (w : Wire) : Bool :=
  Retry.isAttempts Post.transient extra w.first &&
    match form, w.fallback with
    | .text, none => true
    | .text, some _ => false
    | .buttons _, none => postResult w.first ≠ .failed
    | .buttons _, some posts =>
      postResult w.first = .failed && Retry.isAttempts Post.transient extra posts

/-! ## Services -/

structure QuotaDecision where
  allowed : Bool
  reason : Option String
  notify : Bool
  deriving DecidableEq

/-- `CachedGeneration`. -/
structure Generation where
  text : String
  model : String
  promptTokens : Nat
  completionTokens : Nat
  totalTokens : Nat
  latencyMs : Option Nat
  deriving DecidableEq

/-- What the model API returns. -/
structure Completion where
  text : String
  model : String
  promptTokens : Option Nat
  completionTokens : Option Nat
  totalTokens : Option Nat
  latencyMs : Option Nat
  deriving DecidableEq

structure Turn where
  role : String
  content : String
  deriving DecidableEq

inductive Notice where
  | activity (conversationId : Nat) (inbound : Bool)
  | handoff (conversationId : Nat) (mode : Mode) (reason : String) (tag : Option String)
  | closed (conversationId : Nat)
  | reopened (conversationId : Nat)
  deriving DecidableEq

/-- The exceptions the modelled code raises itself. -/
inductive Exn where
  | conflict
  | notFound
  | superseded
  | unsupportedChannel
  | channelUnavailable
  | outsideServiceWindow
  | externalService
  | disallowedSpecialToken
  | unusableResponse
  | malformedPayload
  deriving DecidableEq

/-! ## Configuration -/

inductive Scope where
  | company
  | domain
  | out
  deriving DecidableEq

/-- `greeting`, `handoff`, `intent` and `price_policy`'s classifiers. -/
structure TextRules where
  isNegotiating : Option String → Bool
  wantsHuman : Option String → Bool
  isSalesLead : Option String → Bool
  isCourtesyOnly : String → Bool
  isUnintelligible : String → Bool
  isGreetingOnly : String → Bool
  classify : String → Scope
  mentionsAmount : String → String → Bool

/-- The texts a customer can receive. -/
structure Copy where
  welcome : String
  welcomePrefix : String
  notUnderstood : String
  serviceBusy : String
  unsupportedMessage : String
  handoffAck : String
  salesHandoffAck : String → String
  outOfScopeReply : String → String
  deflection : String → String
  quotaMessage : QuotaDecision → String → String
  closing : String

structure SessionSettings where
  enableConversationSession : Bool
  enableWelcomeOnNewSession : Bool
  preventDuplicateWelcome : Bool
  enableRepeatWelcomeAfterNewSession : Bool
  resetIdleTimerOnOutgoingMessage : Bool
  conversationCloseAfterIdle : Bool
  enableConversationClosingMessage : Bool
  conversationClosingMessage : String
  conversationIdleTimeout : Time
  conversationReopenWindow : Time

/-- The tokenizer of the configured model. -/
structure Encoding where
  specialTokens : List String
  encodeOrdinary : String → List Nat

structure ChannelSettings where
  /-- `outbound_adapter` finds an adapter for the channel. -/
  outboundAvailable : Channel → Bool
  dmInviteEnabled : Channel → Bool
  dmInviteMessage : Channel → String
  facebookPageId : String
  instagramAccountId : String
  ignoreOwnComments : Bool
  /-- "Answer public comments publicly at all." -/
  replyToComments : Bool

structure InboundSettings where
  enforced : Bool
  inboundMaxAge : Time

structure Config where
  session : SessionSettings
  inbound : InboundSettings
  channels : ChannelSettings
  rules : TextRules
  copy : Copy
  encoding : Encoding
  maxContextMessages : Nat
  maxContextTokens : Nat
  retryMaxAttempts : Nat
  ragTopK : Nat
  salesPhone : String
  companyName : String
  openaiModel : String
  /-- `PromptBuilder.build_instructions`. -/
  buildInstructions : Option String → List String → Bool → Bool → Bool → String
  /-- `datetime.fromtimestamp(int(raw))`, where that does not raise. -/
  fromTimestamp : Json → Option Time
  /-- `str` of a list or a dictionary. -/
  reprOf : Json → String

/-! ## Operations -/

inductive Op where
  | sql (s : Stmt)
  | commit
  | rollback
  | now
  | publish (n : Notice)
  | markAsRead (waMessageId : String)
  | quotaCheck (waId waMessageId : String) (text : Option String)
  | recordUsage (promptTokens completionTokens : Nat) (model : String)
  | getCachedGeneration (waMessageId : String)
  | storeGeneration (waMessageId : String) (g : Generation)
  | clearGeneration (waMessageId : String)
  | retrieve (query : String) (limit : Nat)
  | generateReply (history : List Turn) (instructions : String)
  | send (out : Outbound)
  | raise (e : Exn)

/-- `retrieve` answers `none` when retrieval failed: the code logs it and goes on. -/
@[reducible] def Op.Resp : Op → Type
  | sql s => s.Resp
  | now => Time
  | quotaCheck _ _ _ => QuotaDecision
  | getCachedGeneration _ => Option Generation
  | retrieve _ _ => Option (List String)
  | generateReply _ _ => Except String Completion
  | send _ => Wire
  | raise _ => Empty
  | commit | rollback | publish _ | markAsRead _ | recordUsage _ _ _ | storeGeneration _ _
  | clearGeneration _ => Unit

abbrev botSig : Sig := ⟨Op, Op.Resp⟩

abbrev BotM (α : Type) := Prog botSig α

def sql (s : Stmt) : BotM s.Resp := Prog.call (S := botSig) (.sql s)
def commit : BotM Unit := Prog.call (S := botSig) .commit
def rollback : BotM Unit := Prog.call (S := botSig) .rollback
def now : BotM Time := Prog.call (S := botSig) .now
def publish (n : Notice) : BotM Unit := Prog.call (S := botSig) (.publish n)
def markAsRead (waMessageId : String) : BotM Unit := Prog.call (S := botSig) (.markAsRead waMessageId)
def quotaCheck (waId waMessageId : String) (text : Option String) : BotM QuotaDecision :=
  Prog.call (S := botSig) (.quotaCheck waId waMessageId text)
def recordUsage (promptTokens completionTokens : Nat) (model : String) : BotM Unit :=
  Prog.call (S := botSig) (.recordUsage promptTokens completionTokens model)
def getCachedGeneration (waMessageId : String) : BotM (Option Generation) :=
  Prog.call (S := botSig) (.getCachedGeneration waMessageId)
def storeGeneration (waMessageId : String) (g : Generation) : BotM Unit :=
  Prog.call (S := botSig) (.storeGeneration waMessageId g)
def clearGeneration (waMessageId : String) : BotM Unit :=
  Prog.call (S := botSig) (.clearGeneration waMessageId)
def retrieve (query : String) (limit : Nat) : BotM (Option (List String)) :=
  Prog.call (S := botSig) (.retrieve query limit)
def generateReply (history : List Turn) (instructions : String) :
    BotM (Except String Completion) :=
  Prog.call (S := botSig) (.generateReply history instructions)
def send (out : Outbound) : BotM Wire := Prog.call (S := botSig) (.send out)
def raise {α : Type} (e : Exn) : BotM α := .op (Op.raise e) nofun

/-! ## Repository methods that answer something -/

def getByWaId (waId : String) : BotM (Option User) := sql (.getByWaId waId)
def getByChannelId (channel : Channel) (externalId : String) : BotM (Option User) :=
  sql (.getByChannelId channel externalId)
def getUser (id : Nat) : BotM (Option User) := sql (.getUser id)
def getConversation (id : Nat) : BotM (Option Conversation) := sql (.getConversation id)
def activeForUser (userId : Nat) : BotM (Option Conversation) := sql (.activeForUser userId)
def reopenRecent (userId : Nat) (notBefore now : Time) : BotM (Option Nat) :=
  sql (.reopenRecent userId notBefore now)
def reopen (id : Nat) (now : Time) : BotM (Option Nat) := sql (.reopen id now)
def insertConversation (userId : Nat) (channel : Channel) : BotM (Option Nat) :=
  sql (.insertConversation userId channel)
def countForUser (userId : Nat) : BotM Nat := sql (.countForUser userId)
def claimIdleSessions (idleBefore now : Time) (limit : Nat) : BotM (List Nat) :=
  sql (.claimIdleSessions idleBefore now limit)
def idleTargets (ids : List Nat) : BotM (List IdleSession) := sql (.idleTargets ids)
def claimInbound (conversationId : Nat) (waMessageId type : String)
    (content mediaId : Option String) : BotM (Option Nat) :=
  sql (.claimInbound conversationId waMessageId type content mediaId)
def reserveReply (conversationId : Nat) (replyTo content type : String) : BotM (Option Nat) :=
  sql (.reserveReply conversationId replyTo content type)
def createMessage (conversationId : Nat) (content : String) (waMessageId : Option String)
    (status : String) : BotM Nat :=
  sql (.create conversationId content waMessageId status)
def recent (conversationId limit : Nat) : BotM (List Message) := sql (.recent conversationId limit)
def lastInboundAt (conversationId : Nat) : BotM (Option Time) := sql (.lastInboundAt conversationId)
def when (b : Bool) (P : BotM Unit) : BotM Unit := if b then P else pure ()

/-- A statement sent for its effect. -/
def exec (s : Stmt) : BotM Unit := do
  let _ ← sql s

end Bot
