import WhatsAppBot.Auth.Sessions
import WhatsAppBot.Bot.World
import WhatsAppBot.Lib.Crash
import WhatsAppBot.Operator.Actions

/-!
# The admin endpoints and the audit log

The `delete`, `takeover`, `resume-ai` and `reply` endpoints: the service acts and commits, then
`AuditService.record` commits a row of its own. They run over the bot's operations and those of the
two tables the bot does not know (`AdminOp`).
-/

set_option autoImplicit false

namespace Operator

open Lib Store Bot

/-- `audit_logs`. -/
structure AuditLog where
  operatorId : Nat
  action : String
  resourceType : String
  resourceId : Option String
  details : List (String × Json)
  ipAddress : Option String

def actionConversationDelete : String := "conversation.delete"
def actionConversationTakeover : String := "conversation.takeover"
def actionConversationResume : String := "conversation.resume"
def actionConversationReply : String := "conversation.reply"

def resourceConversation : String := "conversation"

/-- `LEGACY_OPERATOR_USERNAME`. -/
def legacyOperatorUsername : String := "legacy-api-key"

/-! ## Operations -/

inductive AdminOp where
  | deleteConversation (id : Nat)
  | getByUsername (username : String)
  | addAudit (entry : AuditLog)
  | raiseLookupError

@[reducible] def AdminOp.Resp : AdminOp → Type
  | deleteConversation _ | addAudit _ => Unit
  | getByUsername _ => Option Auth.Operator
  | raiseLookupError => Empty

abbrev adminSig : Sig := botSig.sum ⟨AdminOp, AdminOp.Resp⟩

abbrev AdminM (α : Type) := Prog adminSig α

def bot {α : Type} (P : BotM α) : AdminM α := P.inl

def deleteRow (id : Nat) : AdminM Unit := Prog.call (S := adminSig) (.inr (.deleteConversation id))
def getByUsername (username : String) : AdminM (Option Auth.Operator) :=
  Prog.call (S := adminSig) (.inr (.getByUsername username))
def addAudit (entry : AuditLog) : AdminM Unit := Prog.call (S := adminSig) (.inr (.addAudit entry))
def raiseLookupError {α : Type} : AdminM α := .op (S := adminSig) (.inr .raiseLookupError) nofun

/-! ## The audit log -/

def legacyOperatorId : AdminM Nat := do
  match ← getByUsername legacyOperatorUsername with
  | none => raiseLookupError
  | some o => pure o.id

/-- `AuditService.record`, which commits unless the caller owns the transaction. -/
def record (operatorId : Option Nat) (action resourceType : String) (resourceId : Option String)
    (details : List (String × Json)) (ipAddress : Option String) (commits : Bool) :
    AdminM AuditLog := do
  let resolved ← match operatorId with
    | some id => pure id
    | none => legacyOperatorId
  let entry : AuditLog := ⟨resolved, action, resourceType, resourceId, details, ipAddress⟩
  addAudit entry
  if commits then do
    bot commit
    pure entry
  else pure entry

/-! ## The services, with what they return -/

/-- `AdminService.delete_conversation`. -/
def deleteConversation (conversationId : Nat) : AdminM Unit := do
  match ← bot (getConversation conversationId) with
  | none => bot (raise .notFound)
  | some c =>
    deleteRow c.id
    bot commit

/-- `switchMode`, with the row it returns. -/
def switchedMode (conversationId : Nat) (mode : Mode) (operator : Option String) (reason : String)
    (operatorId : Option Nat) : BotM Conversation := do
  match ← getConversation conversationId with
  | none => raise .notFound
  | some c =>
    let c ← reviveForOperator c
    let c ← Chat.setMode c mode operator none
    assignOperator c operatorId
    commit
    match ← getConversation c.id with
    | none => raise .notFound
    | some c =>
      publish (.handoff c.id c.mode reason none)
      pure c

/-- What the endpoint reads of the message that `send_manual_reply` returns. -/
structure SentReply where
  messageId : Nat
  waMessageId : Option String

/-- `deliverReply`, with the message it returns. -/
def deliveredReply (cfg : Config) (c : Conversation) (recipient text : String)
    (operatorId : Option Nat) : BotM SentReply := do
  let wire ← send ⟨c.channel, recipient, text, .text, c.id, .manual⟩
  match wire.result with
  | .failed => raise .externalService
  | .broken => raise .unusableResponse
  | .sent id =>
    let messageId ← createMessage c.id text id statusSent
    exec (.setOperator messageId operatorId)
    when (resetsIdleTimer cfg) do
      let moment ← now
      exec (.touch c.id moment)
    commit
    publish (.activity c.id false)
    pure ⟨messageId, id⟩

/-- `sendManualReply`, with the message it returns. -/
def sentManualReply (cfg : Config) (conversationId : Nat) (text : String)
    (operatorId : Option Nat) : BotM SentReply := do
  match ← getConversation conversationId with
  | none => raise .notFound
  | some c =>
    let c ← reviveForOperator c
    match ← getUser c.userId with
    | none => raise .notFound
    | some user =>
      match user.recipientId with
      | none => raise .unsupportedChannel
      | some recipient =>
        if !cfg.channels.outboundAvailable c.channel then raise .channelUnavailable
        else
          match ← lastInboundAt c.id with
          | none => raise .outsideServiceWindow
          | some lastInbound =>
            let moment ← now
            if moment - lastInbound > Session.customerServiceWindow then
              raise .outsideServiceWindow
            else deliveredReply cfg c recipient text operatorId

/-! ## The endpoints -/

inductive Request where
  | delete (conversationId : Nat)
  | takeOver (conversationId : Nat) (operator : Option String)
  | resumeAi (conversationId : Nat)
  | reply (conversationId : Nat) (text : String)

namespace Request

def conversationId : Request → Nat
  | delete id | takeOver id _ | resumeAi id | reply id _ => id

def action : Request → String
  | delete _ => actionConversationDelete
  | takeOver _ _ => actionConversationTakeover
  | resumeAi _ => actionConversationResume
  | reply _ _ => actionConversationReply

end Request

/-- Whoever the credential on the request stands for, and the peer's address. -/
structure Caller where
  operatorId : Option Nat
  ipAddress : Option String

/-- The last statement of every endpoint. -/
def recordRequest (caller : Caller) (req : Request) (details : List (String × Json)) :
    AdminM AuditLog :=
  record caller.operatorId req.action resourceConversation (some (toString req.conversationId))
    details caller.ipAddress true

def optionalText : Option String → Json
  | some s => .str s
  | none => .null

/-- What the action puts into its audit row. -/
def act (cfg : Config) (caller : Caller) : Request → AdminM (List (String × Json))
  | .delete id => do
    deleteConversation id
    pure []
  | .takeOver id operator => do
    let c ← bot (switchedMode id .human operator "operator_took_over" caller.operatorId)
    pure [("operator_label", optionalText c.assignedOperator)]
  | .resumeAi id => do
    let _ ← bot (switchedMode id .bot none "operator_resumed_ai" none)
    pure []
  | .reply id text => do
    let m ← bot (sentManualReply cfg id text caller.operatorId)
    pure [("message_id", .int m.messageId), ("wa_message_id", optionalText m.waMessageId),
      ("characters", .int text.length)]

def endpoint (cfg : Config) (caller : Caller) (req : Request) : AdminM Unit := do
  let details ← act cfg caller req
  let _ ← recordRequest caller req details

/-! ## The database -/

/-- `DELETE`, with the cascade to the messages. The rows of `ai_logs` stay. -/
def deleteFrom (db : Db) (id : Nat) : Db :=
  { db with
    conversations := db.conversations.remove id
    messages := db.messages.filter (·.conversationId ≠ id)
    fk := fun c hc => db.fk c (List.mem_of_mem_filter hc) }

structure AdminWorld where
  world : World
  operators : Auth.Accounts
  auditLogs : List AuditLog

/-- An open transaction. Nothing is read in one after its deletes. -/
structure AdminTx where
  tx : Tx
  deleted : List Nat
  audits : List AuditLog

def AdminTx.none : AdminTx := ⟨[], [], []⟩

def adminStep (cfg : Config) (others : List AdminTx) (w : AdminWorld) (t : AdminTx) :
    (o : adminSig.Op) → adminSig.Resp o → Option (AdminWorld × AdminTx)
  | .inl .commit, _ => some (⟨{ w.world with
      db := t.deleted.foldl deleteFrom (w.world.db.applyAll t.tx) }, w.operators,
      w.auditLogs ++ t.audits⟩, .none)
  | .inl .rollback, _ => some (w, .none)
  | .inl o, r =>
    (Bot.step cfg (others.map (·.tx)) w.world t.tx o r).map fun x =>
      ({ w with world := x.1 }, { t with tx := x.2 })
  | .inr (.deleteConversation id), _ => some (w, { t with deleted := t.deleted ++ [id] })
  | .inr (.getByUsername username), (r : Option Auth.Operator) =>
    if w.operators.lookup username = r then some (w, t) else .none
  | .inr (.addAudit entry), _ => some (w, { t with audits := t.audits ++ [entry] })
  | .inr .raiseLookupError, r => nomatch r

/-- Every request has a session of its own. -/
def adminSem (cfg : Config) : Sem adminSig AdminWorld AdminTx (Caller × Request) where
  idle := .none
  program x := endpoint cfg x.1 x.2
  step := adminStep cfg

end Operator
