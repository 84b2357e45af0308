import WhatsAppBot.Bot.Ops

/-!
# The idle sweep

`SessionService.close_idle_sessions`: claim, commit, then for each target the send decision, the
goodbye, the close and its commit.
-/

set_option autoImplicit false

namespace Session

open Lib Store Bot

def sweepBatchSize : Nat := 200

/-- `CUSTOMER_SERVICE_WINDOW`: 24 hours. -/
def customerServiceWindow : Time := 24 * 3600 * 1000000

/-- `closing_text`. -/
def closingText (cfg : Config) : String :=
  let own := strip cfg.session.conversationClosingMessage
  if own ≠ "" then own else cfg.copy.closing

/-- `_should_send_closing`. -/
def shouldSendClosing (cfg : Config) (target : IdleSession) : BotM Bool :=
  if !cfg.session.enableConversationClosingMessage then pure false
  else if strip (closingText cfg) = "" then pure false
  else if target.recipientId.getD "" = "" then pure false
  else do
    match ← lastInboundAt target.conversationId with
    | none => pure false
    | some lastInbound =>
      let moment ← now
      pure (moment - lastInbound ≤ customerServiceWindow)

/-- `_send_closing`: a failed send is logged and swallowed. -/
def sendClosing (cfg : Config) (target : IdleSession) : BotM Unit := do
  let text := closingText cfg
  let wire ← send ⟨target.channel, target.recipientId.getD "", text, .text, target.conversationId,
    .closing⟩
  match wire.result with
  | .failed => pure ()
  | .broken => raise .unusableResponse
  | .sent id =>
    let _ ← createMessage target.conversationId text id statusSent
    publish (.activity target.conversationId false)

/-- `_announce_closed` reads the row back. -/
def announceClosed (conversationId : Nat) : BotM Unit := do
  match ← getConversation conversationId with
  | none => pure ()
  | some c => publish (.closed c.id)

/-- The first half of `_finish`: without an adapter for the channel nothing is sent. -/
def sayGoodbye (cfg : Config) (target : IdleSession) : BotM Unit := do
  let allowed ← shouldSendClosing cfg target
  when (allowed && cfg.channels.outboundAvailable target.channel) (sendClosing cfg target)

/-- `_finish`. -/
def finish (cfg : Config) (target : IdleSession) : BotM Unit := do
  sayGoodbye cfg target
  let closedAt ← now
  exec (.close target.conversationId closedAt)
  commit
  announceClosed target.conversationId

/-- The sweep from its claim on. -/
def closeClaimed (cfg : Config) (claimed : List Nat) : BotM Unit :=
  if claimed = [] then pure ()
  else do
    let targets ← idleTargets claimed
    commit
    targets.forM (finish cfg)

/-- `close_idle_sessions`. -/
def closeIdleSessions (cfg : Config) : BotM Unit :=
  if !cfg.session.enableConversationSession then pure ()
  else if !cfg.session.conversationCloseAfterIdle then pure ()
  else do
    let moment ← now
    let claimedAt ← now
    let claimed ← claimIdleSessions (moment - cfg.session.conversationIdleTimeout) claimedAt
      sweepBatchSize
    closeClaimed cfg claimed

end Session
