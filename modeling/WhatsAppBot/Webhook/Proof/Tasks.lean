import WhatsAppBot.Webhook.Proof.Deliver
import WhatsAppBot.Webhook.System

/-!
# The alphabets of the tasks

What each kind of process can do at all: a delivery (`inDelivery`), `close_idle_sessions`
(`inSweep`), and `take_over`, `resume_ai` and `send_manual_reply` (`inOperator`). Main result:
`program_only`, with `alphabetOf` the alphabet of each task.
-/

set_option autoImplicit false

namespace Webhook

open Lib Store Bot Chat

/-- The operations of a delivery. None of them hands a conversation back to the bot. -/
def inDelivery (o : Op) : Bool :=
  isCalm o || isConfirm o || inContext o ||
  match o with
  | .sql (.claimInbound _ _ _ _ _) | .sql (.reserveReply _ _ _ _)
  | .sql (.updateStatusByWaId _ _) => true
  | .sql (.flushMode _ p) => p.mode ≠ some .bot
  | .quotaCheck _ _ _ => true
  | .send out =>
    match out.purpose with
    | .reply (some _) | .invite _ => true
    | _ => false
  | _ => false

/-- The operations of an invitation. -/
def inInvite (o : Op) : Bool :=
  isCalm o || isConfirm o || inContext o ||
  match o with
  | .sql (.reserveReply _ _ _ _) => true
  | .send out =>
    match out.purpose with
    | .invite _ => true
    | _ => false
  | _ => false

/-- The operations of a sweep. -/
def inSweep : Op → Bool
  | .sql s =>
    match s with
    | .claimIdleSessions _ _ _ | .idleTargets _ | .lastInboundAt _ | .create _ _ _ _ | .close _ _
    | .getConversation _ => true
    | _ => false
  | .send out => out.purpose = .closing
  | .now | .commit | .publish _ | .raise _ => true
  | _ => false

/-- The operations of `revive_for_operator`. -/
def inReopen : Op → Bool
  | .sql s =>
    match s with
    | .reopen _ _ | .getConversation _ => true
    | _ => false
  | .now | .commit | .publish _ | .raise _ => true
  | _ => false

/-- The operations of a switch of mode once the conversation is open. -/
def inSwitch : Op → Bool
  | .sql s =>
    match s with
    | .getConversation _ | .flushMode _ _ => true
    | _ => false
  | .now | .commit | .publish _ | .raise _ => true
  | _ => false

/-- What `send_manual_reply` looks at before it sends. -/
def isLookup : Op → Bool
  | .sql (.getUser _) | .sql (.lastInboundAt _) | .now | .raise _ => true
  | _ => false

/-- The operations of an operator's request once the conversation is open. -/
def inRequest : Op → Bool
  | .sql s =>
    match s with
    | .getConversation _ | .flushMode _ _ | .getUser _ | .lastInboundAt _ | .create _ _ _ _
    | .setOperator _ _ | .touch _ _ => true
    | _ => false
  | .send out => out.purpose = .manual
  | .now | .commit | .publish _ | .raise _ => true
  | _ => false

/-- The operations of an operator's request. -/
def inOperator (o : Op) : Bool :=
  inRequest o ||
  match o with
  | .sql (.reopen _ _) => true
  | _ => false

/-- A row that is created for a message is created as sent. -/
def marksSent : Op → Bool
  | .sql (.create _ _ _ status) => status = statusSent
  | _ => true

abbrev OnlySweep {α : Type} (P : BotM α) : Prop :=
  P.Only fun o => inSweep o = true ∧ marksSent o = true

abbrev OnlyReopen {α : Type} (P : BotM α) : Prop := P.Only fun o => inReopen o = true

abbrev OnlySwitch {α : Type} (P : BotM α) : Prop := P.Only fun o => inSwitch o = true

abbrev OnlyRequest {α : Type} (P : BotM α) : Prop := P.Only fun o => inRequest o = true

abbrev OnlyOperator {α : Type} (P : BotM α) : Prop := P.Only fun o => inOperator o = true

theorem inOperator_of_inReopen {o : Op} (h : inReopen o = true) : inOperator o = true := by
  cases o with
  | sql s => cases s <;> first | rfl | cases h
  | _ => first | rfl | cases h

theorem inRequest_of_inSwitch {o : Op} (h : inSwitch o = true) : inRequest o = true := by
  cases o with
  | sql s => cases s <;> first | rfl | cases h
  | _ => first | rfl | cases h

theorem inOperator_of_inRequest {o : Op} (h : inRequest o = true) : inOperator o = true := by
  simp [inOperator, h]

/-! ## The sweep -/

theorem shouldSendClosing_only (cfg : Config) (target : IdleSession) :
    OnlySweep (Session.shouldSendClosing cfg target) := by
  unfold Session.shouldSendClosing
  generalize strip (Session.closingText cfg) = text
  refine Prog.Only.ite (Prog.only_pure _) (Prog.Only.ite (Prog.only_pure _)
    (Prog.Only.ite (Prog.only_pure _) (Prog.Only.call_bind ⟨rfl, rfl⟩ fun last => ?_)))
  cases last with
  | none => exact Prog.only_pure _
  | some last => exact Prog.Only.call_bind ⟨rfl, rfl⟩ fun _ => Prog.only_pure _

theorem sendClosing_only (cfg : Config) (target : IdleSession) :
    OnlySweep (Session.sendClosing cfg target) := by
  refine Prog.Only.call_bind ⟨rfl, rfl⟩ fun wire => ?_
  cases wire.result with
  | failed => exact Prog.only_pure _
  | broken => exact only_raise ⟨rfl, rfl⟩
  | sent id =>
    exact Prog.Only.call_bind ⟨rfl, rfl⟩ fun _ => Prog.only_call.mpr ⟨rfl, rfl⟩

theorem sayGoodbye_only (cfg : Config) (target : IdleSession) :
    OnlySweep (Session.sayGoodbye cfg target) :=
  (shouldSendClosing_only cfg target).bind fun _ => only_when (sendClosing_only cfg target)

theorem announceClosed_only (id : Nat) : OnlySweep (Session.announceClosed id) := by
  refine Prog.Only.call_bind ⟨rfl, rfl⟩ fun c => ?_
  cases c with
  | none => exact Prog.only_pure _
  | some c => exact Prog.only_call.mpr ⟨rfl, rfl⟩

theorem finish_only (cfg : Config) (target : IdleSession) :
    OnlySweep (Session.finish cfg target) :=
  (sayGoodbye_only cfg target).bind fun _ => Prog.Only.call_bind ⟨rfl, rfl⟩ fun _ =>
    only_exec_bind ⟨rfl, rfl⟩ (Prog.Only.call_bind ⟨rfl, rfl⟩ fun _ => announceClosed_only _)

theorem closeIdleSessions_onlySweep (cfg : Config) : OnlySweep (Session.closeIdleSessions cfg) := by
  unfold Session.closeIdleSessions
  refine Prog.Only.ite (Prog.only_pure _) (Prog.Only.ite (Prog.only_pure _) ?_)
  refine Prog.Only.call_bind ⟨rfl, rfl⟩ fun _ => Prog.Only.call_bind ⟨rfl, rfl⟩ fun _ =>
    Prog.Only.call_bind ⟨rfl, rfl⟩ fun claimed => ?_
  unfold Session.closeClaimed
  split
  · exact Prog.only_pure _
  · exact Prog.Only.call_bind ⟨rfl, rfl⟩ fun _ => Prog.Only.call_bind ⟨rfl, rfl⟩ fun _ =>
      Prog.Only.forM fun target _ => finish_only cfg target

theorem closeIdleSessions_only (cfg : Config) :
    (Session.closeIdleSessions cfg).Only fun o => inSweep o = true :=
  (closeIdleSessions_onlySweep cfg).mono fun _ h => h.1

/-! ## The operators -/

theorem reopenRow_only (id : Nat) : OnlyReopen (Operator.reopenRow id) := by
  refine Prog.Only.call_bind rfl fun _ => Prog.Only.call_bind rfl fun id => ?_
  cases id with
  | none => exact Prog.only_pure _
  | some id => exact Prog.only_call.mpr rfl

theorem reviveForOperator_only (c : Conversation) : OnlyReopen (Operator.reviveForOperator c) := by
  unfold Operator.reviveForOperator
  split
  · exact Prog.only_pure _
  · refine (reopenRow_only c.id).bind fun revived => ?_
    cases revived with
    | none => exact only_raise rfl
    | some revived =>
      exact Prog.Only.call_bind rfl fun _ => Prog.Only.call_bind rfl fun _ => Prog.only_pure _

theorem setMode_only (c : Conversation) (mode : Mode) (operator tag : Option String) :
    OnlySwitch (setMode c mode operator tag) := by
  cases mode with
  | human =>
    exact Prog.Only.call_bind rfl fun _ => Prog.Only.call_bind rfl fun _ =>
      only_exec_bind rfl (Prog.only_pure _)
  | bot => exact Prog.Only.call_bind rfl fun _ => only_exec_bind rfl (Prog.only_pure _)

theorem assignOperator_only (c : Conversation) (operatorId : Option Nat) :
    OnlySwitch (Operator.assignOperator c operatorId) := by
  unfold Operator.assignOperator
  split
  · exact Prog.only_pure _
  · exact only_exec rfl

theorem deliverReply_only (cfg : Config) (c : Conversation) (recipient text : String)
    (operatorId : Option Nat) :
    OnlyRequest (Operator.deliverReply cfg c recipient text operatorId) := by
  refine Prog.Only.call_bind rfl fun wire => ?_
  cases wire.result with
  | failed => exact only_raise rfl
  | broken => exact only_raise rfl
  | sent id =>
    refine Prog.Only.call_bind rfl fun _ => only_exec_bind rfl ?_
    refine Prog.Only.bind (only_when ?_) fun _ =>
      Prog.Only.call_bind rfl fun _ => Prog.only_call.mpr rfl
    exact Prog.Only.call_bind rfl fun _ => only_exec rfl

/-- Every request of an operator reads the row, revives it and goes on with the open row. -/
def onOpenRow (conversationId : Nat) (rest : Conversation → BotM Unit) : BotM Unit := do
  match ← getConversation conversationId with
  | none => raise .notFound
  | some c =>
    let c ← Operator.reviveForOperator c
    rest c

/-- `_switch_mode` with the row open. -/
def switchOpen (mode : Mode) (operator : Option String) (reason : String) (operatorId : Option Nat)
    (c : Conversation) : BotM Unit := do
  let c ← setMode c mode operator none
  Operator.assignOperator c operatorId
  commit
  match ← getConversation c.id with
  | none => raise .notFound
  | some c => publish (.handoff c.id c.mode reason none)

/-- `send_manual_reply` with the row open. -/
def replyOpen (cfg : Config) (text : String) (operatorId : Option Nat) (c : Conversation) :
    BotM Unit := do
  match ← getUser c.userId with
  | none => raise .notFound
  | some user =>
    match user.recipientId with
    | none => raise .unsupportedChannel
    | some recipient =>
      if !cfg.channels.outboundAvailable c.channel then raise .channelUnavailable
      else
        match ← lastInboundAt c.id with
        | none => raise .outsideServiceWindow
        | some lastInbound =>
          let moment ← now
          if moment - lastInbound > Session.customerServiceWindow then
            raise .outsideServiceWindow
          else Operator.deliverReply cfg c recipient text operatorId

theorem sendManualReply_eq (cfg : Config) (id : Nat) (text : String) (operatorId : Option Nat) :
    Operator.sendManualReply cfg id text operatorId =
      onOpenRow id (replyOpen cfg text operatorId) := rfl

theorem onOpenRow_only {id : Nat} {rest : Conversation → BotM Unit} (h : ∀ c, OnlyRequest (rest c)) :
    OnlyOperator (onOpenRow id rest) := by
  refine Prog.Only.call_bind rfl fun c => ?_
  cases c with
  | none => exact only_raise rfl
  | some c =>
    exact ((reviveForOperator_only c).mono fun _ => inOperator_of_inReopen).bind fun c =>
      (h c).mono fun _ => inOperator_of_inRequest

theorem switchOpen_only (mode : Mode) (operator : Option String) (reason : String)
    (operatorId : Option Nat) (c : Conversation) :
    OnlySwitch (switchOpen mode operator reason operatorId c) := by
  refine (setMode_only c mode operator none).bind fun c => (assignOperator_only c operatorId).bind
    fun _ => Prog.Only.call_bind rfl fun _ => Prog.Only.call_bind rfl fun c => ?_
  cases c with
  | none => exact only_raise rfl
  | some c => exact Prog.only_call.mpr rfl

/-- What `send_manual_reply` looks at leaves the monitor in `I`. -/
theorem replyOpen_wp {A : Type} {M : Monitor botSig A} {I : A → Prop} {Q : Unit → A → Prop}
    {cfg : Config} {text : String} {operatorId : Option Nat} {c : Conversation} {a : A}
    (hlook : ∀ {b o}, I b → isLookup o = true → M.ok b o ∧ ∀ r, M.may o r → I (M.next b o r))
    (hdeliver : ∀ {b} recipient, I b →
      (Operator.deliverReply cfg c recipient text operatorId).wp M Q b) (ha : I a) :
    (replyOpen cfg text operatorId c).wp M Q a := by
  have hraise : ∀ {b} (e : Exn), I b → (raise e : BotM Unit).wp M Q b := fun e hb =>
    ⟨(hlook (o := .raise e) hb rfl).1, nofun⟩
  refine Prog.wp_call_bind (hlook ha rfl).1 fun user hr => ?_
  have hb := (hlook ha rfl).2 user hr
  cases user with
  | none => exact hraise _ hb
  | some user =>
    dsimp only
    cases user.recipientId with
    | none => exact hraise _ hb
    | some recipient =>
      dsimp only
      split
      · exact hraise _ hb
      · refine Prog.wp_call_bind (hlook hb rfl).1 fun last hr => ?_
        have hd := (hlook hb rfl).2 last hr
        cases last with
        | none => exact hraise _ hd
        | some last =>
          refine Prog.wp_call_bind (hlook hd rfl).1 fun moment hr => ?_
          have he := (hlook hd rfl).2 moment hr
          split
          · exact hraise _ he
          · exact hdeliver recipient he

theorem inRequest_of_isLookup {o : Op} (h : isLookup o = true) : inRequest o = true := by
  cases o with
  | sql s => cases s <;> first | rfl | cases h
  | _ => first | rfl | cases h

theorem alphabet_wp {α : Type} {P : BotM α} {φ : Op → Prop} (h : P.Only φ) :
    P.wp (Prog.alphabet φ) (fun _ _ => True) () :=
  h.wp trivial fun _ _ _ ho => ⟨ho, fun _ _ => trivial⟩

theorem replyOpen_only (cfg : Config) (text : String) (operatorId : Option Nat) (c : Conversation) :
    OnlyRequest (replyOpen cfg text operatorId c) :=
  Prog.Only.of_wp (replyOpen_wp (I := fun _ => True)
    (fun _ ho => ⟨inRequest_of_isLookup ho, fun _ _ => trivial⟩)
    (fun recipient _ => alphabet_wp (deliverReply_only cfg c recipient text operatorId)) trivial)

/-! ## Deliveries -/

abbrev OnlyDelivery {α : Type} (P : BotM α) : Prop := P.Only fun o => inDelivery o = true

theorem inDelivery_of_isCalm {o : Op} (h : isCalm o = true) : inDelivery o = true := by
  simp [inDelivery, h]

theorem inDelivery_of_inContext {o : Op} (h : inContext o = true) : inDelivery o = true := by
  simp [inDelivery, h]

theorem inDelivery_of_inReceive {o : Op} (h : inReceive o = true) : inDelivery o = true := by
  simp only [inReceive, Bool.or_eq_true] at h
  rcases h with (h | h) | h
  · exact inDelivery_of_isCalm h
  · exact inDelivery_of_inContext h
  · split at h
    · rfl
    · cases h

theorem sendOnce_only (cfg : Config) (channel : Channel) (waId text key : String) (id : Nat)
    (form : Form) : OnlyDelivery (sendOnce cfg channel waId id text (some key) form) :=
  sendOnce_only_of ((touch_only cfg id true).mono fun _ => inDelivery_of_isCalm) rfl rfl
    (fun _ _ _ => rfl) rfl rfl fun _ => rfl

theorem inDelivery_of_inInvite {o : Op} (h : inInvite o = true) : inDelivery o = true := by
  simp only [inInvite, Bool.or_eq_true] at h
  rcases h with ((h | h) | h) | h
  · exact inDelivery_of_isCalm h
  · simp [inDelivery, h]
  · exact inDelivery_of_inContext h
  · cases o with
    | sql s => cases s <;> first | rfl | cases h
    | send out =>
      cases hp : out.purpose with
      | invite => simp [inDelivery, isCalm, isConfirm, inContext, hp]
      | _ => simp [hp] at h
    | _ => cases h

theorem inviteAfterComment_only (cfg : Config) (channel : Channel) (e : Channels.InboundEvent) :
    (inviteAfterComment cfg channel e).Only fun o => inInvite o = true := by
  have hcalm : ∀ o, isCalm o = true → inInvite o = true := fun o ho => by simp [inInvite, ho]
  have hcontext : ∀ o, inContext o = true → inInvite o = true := fun o ho => by simp [inInvite, ho]
  unfold inviteAfterComment
  refine Prog.Only.ite (Prog.only_pure _) (Prog.Only.ite (Prog.only_pure _)
    (Prog.Only.ite (Prog.only_pure _) ?_))
  refine ((asOptional_only e.senderName).mono hcalm).bind fun name =>
    ((getChannelContext_only cfg channel e.senderId name).mono hcontext).bind fun c =>
      Prog.Only.call_bind rfl fun r => ?_
  cases r with
  | none => exact Prog.only_call.mpr rfl
  | some r =>
    refine Prog.Only.call_bind rfl fun _ => Prog.Only.bind ?_ fun result => ?_
    · unfold inviteToPrivateThread
      exact Prog.Only.ite trivial (Prog.Only.call_bind rfl fun _ => trivial)
    · cases result with
      | failed => exact only_exec_bind rfl (Prog.only_call.mpr rfl)
      | broken => exact only_raise rfl
      | sent id => exact only_exec_bind rfl (Prog.only_call.mpr rfl)

theorem delivers_alphabet (cfg : Config) :
    Delivers (Prog.alphabet fun o => inDelivery o = true) cfg fun _ => True where
  calm _ ho := ⟨inDelivery_of_isCalm ho, fun _ _ => trivial⟩
  handles channel waId name key := by
    refine ⟨fun _ _ => True, fun _ => True, fun _ => ?_, fun c => ?_, fun _ => trivial⟩
    · exact Prog.wp_mono (alphabet_wp ((receive_only ..).mono fun _ => inDelivery_of_inReceive))
        fun r _ _ => by cases r <;> trivial
    · refine ⟨fun _ ho => ⟨inDelivery_of_isCalm ho, fun _ _ => trivial⟩,
        fun _ ho => ⟨inDelivery_of_isCalm ho, fun _ _ => trivial⟩, fun _ => trivial,
        fun _ => ⟨rfl, fun _ _ => trivial⟩, fun hc _ hp => ⟨?_, fun _ _ => trivial⟩,
        fun _ _ => alphabet_wp (sendOnce_only ..)⟩
      simp [Prog.alphabet, inDelivery, isCalm, isConfirm, inContext, hp.mode hc]
  stale _ _ _ _ _ _ :=
    alphabet_wp ((recordWithoutAnswering_only ..).mono fun _ => inDelivery_of_inReceive)
  status _ := ⟨rfl, fun _ _ => trivial⟩
  invite channel e _ :=
    alphabet_wp ((inviteAfterComment_only cfg channel e).mono fun _ => inDelivery_of_inInvite)

/-- The alphabet of each task. -/
def alphabetOf : Task → Op → Bool
  | .webhook _ | .metaWebhook _ _ => inDelivery
  | .sweep => inSweep
  | .takeOver _ _ _ | .resumeAi _ | .manualReply _ _ _ => inOperator

/-- **No task leaves its alphabet.** -/
theorem program_only (cfg : Config) (l : Task) :
    (program cfg l).Only fun o => alphabetOf l o = true := by
  cases l with
  | webhook payload =>
    exact Prog.Only.of_wp ((delivers_alphabet cfg).processWebhookPayload_wp trivial payload)
  | metaWebhook surfaces payload =>
    exact Prog.Only.of_wp (Prog.wp_forM (I := fun _ => True)
      (fun surface _ b _ => (delivers_alphabet cfg).processMetaPayload_wp trivial surface payload)
      trivial)
  | sweep => exact closeIdleSessions_only cfg
  | takeOver | resumeAi =>
    exact onOpenRow_only fun c => (switchOpen_only _ _ _ _ c).mono fun _ => inRequest_of_inSwitch
  | manualReply id text operatorId => exact onOpenRow_only (replyOpen_only cfg text operatorId)

end Webhook
