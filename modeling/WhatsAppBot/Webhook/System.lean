import WhatsAppBot.Bot.World
import WhatsAppBot.Operator.Actions
import WhatsAppBot.Session.Sweep
import WhatsAppBot.Webhook.Process

/-!
# The system

Every kind of process that runs against the database: the two webhook tasks, the sweep and the
operators' requests. Each opens a session of its own, so it starts without a transaction; a process
that dies or is left by an exception loses the one it has open.
-/

set_option autoImplicit false

namespace Webhook

open Lib Store Bot Channels

inductive Task where
  | webhook (payload : Json)
  | metaWebhook (surfaces : List Surface) (payload : Json)
  | sweep
  | takeOver (conversationId : Nat) (operator : Option String) (operatorId : Option Nat)
  | resumeAi (conversationId : Nat)
  | manualReply (conversationId : Nat) (text : String) (operatorId : Option Nat)

/-- `_run_meta` after the adapters are resolved: one session, every surface in turn. -/
def runMeta (cfg : Config) (surfaces : List Surface) (payload : Json) : BotM Unit :=
  surfaces.forM fun surface => processMetaPayload cfg surface payload

def program (cfg : Config) : Task → BotM Unit
  | .webhook payload => processWebhookPayload cfg payload
  | .metaWebhook surfaces payload => runMeta cfg surfaces payload
  | .sweep => Session.closeIdleSessions cfg
  | .takeOver conversationId operator operatorId =>
    Operator.takeOver conversationId operator operatorId
  | .resumeAi conversationId => Operator.resumeAi conversationId
  | .manualReply conversationId text operatorId =>
    Operator.sendManualReply cfg conversationId text operatorId

def sem (cfg : Config) : Sem botSig World Tx Task where
  idle := []
  program := program cfg
  step := step cfg

abbrev History := List (Event botSig World Tx Task)

/-- The committed database only changes where a transaction commits. -/
theorem db_cases {cfg : Config} {s s' : Sys botSig World Tx Task} {e : Event botSig World Tx Task}
    (h : Step (sem cfg) s e s') : s'.shared.db = s.shared.db ∨
      ∃ i p, s.proc i = some p ∧ e = .op i p.label p.held .commit () s'.shared ∧
        s'.shared.db = s.shared.db.applyAll p.held := by
  cases h with
  | @op i p o k r w tx hp _ hstep =>
    change step cfg _ _ _ o r = _ at hstep
    by_cases ho : o = .commit
    · subst ho
      exact .inr ⟨i, p, hp, rfl, (step_commit hstep).1⟩
    · exact .inl (step_uncommitted ho hstep)
  | _ => exact .inl rfl

end Webhook
