import WhatsAppBot.Channels.Direct
import WhatsAppBot.Webhook.System

/-!
# A deployment to run

The settings' defaults, with text rules that send every text to the model, and services that answer
at once: what the runs of the proof modules are played with.
-/

set_option autoImplicit false

namespace Webhook.Sample

open Lib Store Bot Channels

def minute : Time := 60 * 1000000

def session : SessionSettings where
  enableConversationSession := true
  enableWelcomeOnNewSession := true
  preventDuplicateWelcome := true
  enableRepeatWelcomeAfterNewSession := true
  resetIdleTimerOnOutgoingMessage := true
  conversationCloseAfterIdle := true
  enableConversationClosingMessage := true
  conversationClosingMessage := "bye"
  conversationIdleTimeout := 5 * minute
  conversationReopenWindow := 30 * minute

def rules : TextRules where
  isNegotiating _ := false
  wantsHuman text := text = some "human"
  isSalesLead _ := false
  isCourtesyOnly _ := false
  isUnintelligible _ := false
  isGreetingOnly text := text = "hello"
  classify _ := .company
  mentionsAmount _ _ := false

def copy : Copy where
  welcome := "welcome"
  welcomePrefix := "welcome"
  notUnderstood := "?"
  serviceBusy := "busy"
  unsupportedMessage := "unsupported"
  handoffAck := "a colleague will answer"
  salesHandoffAck _ := "sales will answer"
  outOfScopeReply _ := "out of scope"
  deflection _ := "ask sales"
  quotaMessage _ _ := "later"
  closing := "bye"

def config : Config where
  session := session
  inbound := ⟨true, 15 * minute⟩
  channels :=
    { outboundAvailable := fun _ => true
      dmInviteEnabled := fun _ => false
      dmInviteMessage := fun _ => ""
      facebookPageId := "page"
      instagramAccountId := "account"
      ignoreOwnComments := true
      replyToComments := true }
  rules := rules
  copy := copy
  encoding := ⟨["<|endoftext|>"], fun text => text.toList.map Char.toNat⟩
  maxContextMessages := 20
  maxContextTokens := 6000
  retryMaxAttempts := 3
  ragTopK := 5
  salesPhone := ""
  companyName := ""
  openaiModel := "gpt-4.1-mini"
  buildInstructions _ _ _ _ _ := ""
  fromTimestamp _ := none
  reprOf _ := ""

/-- Whole numbers are read, and dated in the years 1 to 9999. -/
def conversions : Conversions where
  truncate repr := (String.ofList (repr.toList.takeWhile (· ≠ '.'))).toInt?.getD 0
  parseInt text := (strip text).toInt?
  fromMillis millis :=
    if -62135596800000 ≤ millis ∧ millis < 253402300800000 then .ok (millis * 1000)
    else .error .valueError

/-- Comments are followed by an invitation. -/
def invitingConfig : Config :=
  { config with channels :=
      { config.channels with dmInviteEnabled := fun _ => true, dmInviteMessage := fun _ => "write to us" } }

/-- Public answers are switched off. -/
def privateConfig : Config :=
  { config with channels := { config.channels with replyToComments := false } }

/-- A delivery with these messages. -/
def delivery (messages : List Json) : Json :=
  .obj [("entry", .arr [.obj [("changes", .arr [.obj [("value",
    .obj [("messages", .arr messages)])]])]])]

def textMessage (sender id body : String) : Json :=
  .obj [("from", .str sender), ("id", .str id), ("type", .str "text"),
    ("text", .obj [("body", .str body)])]

/-- A delivery with these statuses of the message `id`. -/
def statusDelivery (id : String) (statuses : List String) : Json :=
  .obj [("entry", .arr [.obj [("changes", .arr [.obj [("value",
    .obj [("statuses", .arr (statuses.map fun status =>
      .obj [("id", .str id), ("status", .str status)]))])]])]])]

/-- The provider accepts the first request. -/
def accepted : Wire := ⟨[⟨true, .ok (some "out")⟩], none⟩

/-- The provider accepts the first request and names no message. -/
def acceptedUnnamed : Wire := ⟨[⟨true, .ok none⟩], none⟩

/-- Services that answer at once, and a provider that answers a send with `wire`. -/
def answer (wire : Wire) (w : World) (tx : Tx) : (o : Op) → Option o.Resp
  | .sql s => (s.exec w.clock w.seq (fun _ => false) (w.db.applyAll tx)).map (·.1)
  | .now => some w.clock
  | .quotaCheck _ _ _ => some ⟨true, none, false⟩
  | .getCachedGeneration _ => some none
  | .retrieve _ _ => some (some [])
  | .generateReply _ _ => some (.ok ⟨"answer", "model", none, none, none, none⟩)
  | .send _ => some wire
  | .raise _ => none
  | .commit | .rollback | .publish _ | .markAsRead _ | .recordUsage _ _ _ | .storeGeneration _ _
  | .clearGeneration _ => some ()

abbrev Action := Act botSig World Tx Task

/-- Process `i` performs its next `n` operations. -/
def steps (i n : Nat) (wire : Wire) : List Action := List.replicate n (.op i (answer wire))

/-- The same services, with the clock `d` further on. -/
def answerAfter (d : Time) (w : World) (tx : Tx) : (o : Op) → Option o.Resp
  | .now => some (w.clock + d)
  | o => answer accepted w tx o

/-- Process `i` performs its next operation, which reads the clock `d` later. -/
def later (i : Nat) (d : Time) : Action := .op i (answerAfter d)

end Webhook.Sample
