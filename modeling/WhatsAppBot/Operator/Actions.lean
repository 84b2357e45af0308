import WhatsAppBot.Chat.Context
import WhatsAppBot.Session.Sweep

/-!
# Operator actions

`revive_for_operator`, `AdminService.take_over` and `resume_ai`, and the manual reply.
-/

set_option autoImplicit false

namespace Operator

open Lib Store Bot

/-- `reopen` and its refresh. -/
def reopenRow (conversationId : Nat) : BotM (Option Conversation) := do
  let revivedAt ← now
  match ← reopen conversationId revivedAt with
  | some id => getConversation id
  | none => pure none

/-- `revive_for_operator`. -/
def reviveForOperator (c : Conversation) : BotM Conversation :=
  if c.status ≠ .closed then pure c
  else do
    match ← reopenRow c.id with
    | none => raise .superseded
    | some revived =>
      commit
      publish (.reopened revived.id)
      pure revived

/-- `set_mode` touches every column but the account; the account follows before the commit. -/
def assignOperator (c : Conversation) (operatorId : Option Nat) : BotM Unit :=
  if c.assignedOperatorId = operatorId then pure ()
  else exec (.flushMode c.id ⟨none, none, none, some operatorId, none, none⟩)

/-- `_switch_mode`. -/
def switchMode (conversationId : Nat) (mode : Mode) (operator : Option String) (reason : String)
    (operatorId : Option Nat) : BotM Unit := do
  match ← getConversation conversationId with
  | none => raise .notFound
  | some c =>
    let c ← reviveForOperator c
    let c ← Chat.setMode c mode operator none
    assignOperator c operatorId
    commit
    match ← getConversation c.id with
    | none => raise .notFound
    | some c => publish (.handoff c.id c.mode reason none)

def takeOver (conversationId : Nat) (operator : Option String) (operatorId : Option Nat) :
    BotM Unit :=
  switchMode conversationId .human operator "operator_took_over" operatorId

def resumeAi (conversationId : Nat) : BotM Unit :=
  switchMode conversationId .bot none "operator_resumed_ai" none

/-- `_resets_idle_timer`. -/
def resetsIdleTimer (cfg : Config) : Bool :=
  cfg.session.enableConversationSession && cfg.session.resetIdleTimerOnOutgoingMessage

/-- The part of `send_manual_reply` after the customer was found addressable and reachable. -/
def deliverReply (cfg : Config) (c : Conversation) (recipient text : String)
    (operatorId : Option Nat) : BotM Unit := do
  let wire ← send ⟨c.channel, recipient, text, .text, c.id, .manual⟩
  match wire.result with
  | .failed => raise .externalService
  | .broken => raise .unusableResponse
  | .sent id =>
    let messageId ← createMessage c.id text id statusSent
    exec (.setOperator messageId operatorId)
    when (resetsIdleTimer cfg) do
      let moment ← now
      exec (.touch c.id moment)
    commit
    publish (.activity c.id false)

/-- `send_manual_reply`. -/
def sendManualReply (cfg : Config) (conversationId : Nat) (text : String)
    (operatorId : Option Nat) : BotM Unit := do
  match ← getConversation conversationId with
  | none => raise .notFound
  | some c =>
    let c ← reviveForOperator c
    match ← getUser c.userId with
    | none => raise .notFound
    | some user =>
      match user.recipientId with
      | none => raise .unsupportedChannel
      | some recipient =>
        if !cfg.channels.outboundAvailable c.channel then raise .channelUnavailable
        else
          match ← lastInboundAt c.id with
          | none => raise .outsideServiceWindow
          | some lastInbound =>
            let moment ← now
            if moment - lastInbound > Session.customerServiceWindow then
              raise .outsideServiceWindow
            else deliverReply cfg c recipient text operatorId

end Operator
