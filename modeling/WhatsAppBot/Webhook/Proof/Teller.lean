import WhatsAppBot.Webhook.Proof.Locks
import WhatsAppBot.Webhook.Proof.Tasks

/-!
# What is said of a send

`tellerMonitor` follows the row a process has reserved last and its last send. `teller_accepts`: a
task marks a row as sent only after a send that went well, of the row's own text in the row's own
conversation.
-/

set_option autoImplicit false

namespace Webhook

open Lib Store Bot Chat

/-- What stays of a message row from its insertion on. -/
structure Entry where
  id : Nat
  direction : Direction
  conversationId : Nat
  content : Option String
  deriving DecidableEq

abbrev Sending := Outbound × Wire

/-- The send went well, and its message is this one. -/
def Sending.Tells (x : Sending) (conversationId : Nat) (content : Option String) : Prop :=
  x.1.conversationId = conversationId ∧ content = some x.1.text ∧ ∃ id, x.2.result = .sent id

/-- With these values a row has gone out. -/
def isMarked (waMessageId : Option String) (status : String) : Bool :=
  waMessageId ≠ none ∨ status = statusSent

structure Teller where
  reserved : Option Entry
  last : Option Sending

def Teller.clear : Teller := ⟨none, none⟩

def tellerMonitor : Monitor botSig Teller where
  ok a o :=
    match o with
    | .sql (.confirmReply id waMessageId status) => isMarked waMessageId status = true →
      ∃ e x, a.reserved = some e ∧ a.last = some x ∧ e.id = id ∧ x.Tells e.conversationId e.content
    | .sql (.create c content waMessageId status) => isMarked waMessageId status = true →
      ∃ x, a.last = some x ∧ x.Tells c (some content)
    | _ => True
  next a o r :=
    match o, r with
    | .sql (.reserveReply c _ content _), r =>
      { a with reserved := Option.map (α := Nat) (⟨·, .outbound, c, some content⟩) r }
    | .send out, wire => { a with last := some (out, wire) }
    | _, _ => a

variable {a : Teller} {o : Op} {cfg : Config}

/-! ## Every task -/

/-- Operations that say nothing of a send. -/
def isDiscreet : Op → Bool
  | .sql (.confirmReply _ waMessageId status) | .sql (.create _ _ waMessageId status) =>
    !isMarked waMessageId status
  | _ => true

abbrev OnlyDiscreet {α : Type} (P : BotM α) : Prop := P.Only fun o => isDiscreet o = true

theorem teller_discreet (h : isDiscreet o = true) : tellerMonitor.ok a o := by
  cases o with
  | sql s =>
    cases s with
    | confirmReply | create =>
      intro hmarked
      rw [isDiscreet, hmarked] at h
      cases h
    | _ => trivial
  | _ => trivial

theorem isDiscreet_of_isCalm (h : isCalm o = true) : isDiscreet o = true := by
  cases o with
  | sql s => cases s <;> first | rfl | cases h
  | _ => rfl

theorem isDiscreet_of_inContext (h : inContext o = true) : isDiscreet o = true := by
  cases o with
  | sql s => cases s <;> first | rfl | cases h
  | _ => rfl

theorem isDiscreet_of_inReceive (h : inReceive o = true) : isDiscreet o = true := by
  simp only [inReceive, Bool.or_eq_true] at h
  rcases h with (h | h) | h
  · exact isDiscreet_of_isCalm h
  · exact isDiscreet_of_inContext h
  · split at h
    · rfl
    · cases h

theorem isDiscreet_of_inReopen (h : inReopen o = true) : isDiscreet o = true := by
  cases o with
  | sql s => cases s <;> first | rfl | cases h
  | _ => rfl

theorem isDiscreet_of_inSwitch (h : inSwitch o = true) : isDiscreet o = true := by
  cases o with
  | sql s => cases s <;> first | rfl | cases h
  | _ => rfl

theorem isDiscreet_of_isLookup (h : isLookup o = true) : isDiscreet o = true := by
  cases o with
  | sql s => cases s <;> first | rfl | cases h
  | _ => rfl

theorem OnlyDiscreet.wp {α : Type} {P : BotM α} (h : OnlyDiscreet P) :
    P.wp tellerMonitor (fun _ _ => True) a :=
  Prog.Only.wp (B := fun _ => True) h trivial fun _ _ _ ho =>
    ⟨teller_discreet ho, fun _ _ => trivial⟩

/-- A discreet start leaves the rest any state of the teller. -/
theorem OnlyDiscreet.bind_wp {α β : Type} {P : BotM α} {f : α → BotM β} (h : OnlyDiscreet P)
    (hf : ∀ x b, (f x).wp tellerMonitor (fun _ _ => True) b) :
    (P >>= f).wp tellerMonitor (fun _ _ => True) a := by
  rw [Prog.wp_bind]
  exact Prog.wp_mono h.wp fun x b _ => hf x b

theorem ignoresTouch_teller : IgnoresTouch tellerMonitor := by
  intro a o h
  cases o with
  | sql s => cases s <;> first | exact ⟨trivial, fun _ => rfl⟩ | cases h
  | now => exact ⟨trivial, fun _ => rfl⟩
  | _ => cases h

/-- After a send that went well, the confirmation of the reserved row. -/
theorem confirmSent_wp {α : Type} {f : Unit → BotM α} {n c : Nat} {text : String} {x : Sending}
    {wa : Option String} (hreserved : a.reserved = some ⟨n, .outbound, c, some text⟩)
    (hlast : a.last = some x) (htells : x.Tells c (some text)) (hf : OnlyDiscreet (f ())) :
    (exec (.confirmReply n wa statusSent) >>= f).wp tellerMonitor (fun _ _ => True) a := by
  rw [Prog.wp_bind]
  refine Prog.wp_call_bind (M := tellerMonitor) ?_ fun _ _ => hf.wp
  exact fun _ => ⟨_, x, hreserved, hlast, rfl, htells⟩

theorem sendOnce_teller (channel : Channel) (waId key text : String) (id : Nat) (form : Form) :
    (sendOnce cfg channel waId id text (some key) form).wp tellerMonitor (fun _ _ => True) a := by
  refine Prog.wp_call_bind trivial fun r _ => ?_
  cases r with
  | none => exact OnlyDiscreet.wp (Prog.Only.call_bind rfl fun _ => Prog.only_pure _)
  | some n =>
    dsimp only
    rw [Prog.wp_bind]
    refine touch_wp ignoresTouch_teller (Prog.wp_call_bind trivial fun _ _ =>
      Prog.wp_call_bind trivial fun wire _ => ?_)
    cases hwire : wire.result with
    | failed =>
      exact OnlyDiscreet.wp (only_exec_bind rfl (Prog.Only.call_bind rfl fun _ => Prog.only_pure _))
    | broken => exact OnlyDiscreet.wp (only_raise rfl)
    | sent outId =>
      refine confirmSent_wp rfl rfl ⟨rfl, rfl, outId, hwire⟩ ?_
      exact ((touch_only cfg id true).mono fun _ => isDiscreet_of_isCalm).bind
        fun _ => Prog.Only.call_bind rfl fun _ => Prog.only_pure _

theorem inviteAfterComment_teller (channel : Channel) (e : Channels.InboundEvent) :
    (inviteAfterComment cfg channel e).wp tellerMonitor (fun _ _ => True) a := by
  unfold inviteAfterComment
  split
  · trivial
  split
  · trivial
  split
  · trivial
  refine OnlyDiscreet.bind_wp ((asOptional_only _).mono fun _ => isDiscreet_of_isCalm)
    fun name b => OnlyDiscreet.bind_wp
      ((getChannelContext_only ..).mono fun _ => isDiscreet_of_inContext) fun c b =>
      Prog.wp_call_bind trivial fun r _ => ?_
  cases r with
  | none => exact OnlyDiscreet.wp (Prog.only_call.mpr rfl)
  | some n =>
    refine Prog.wp_call_bind trivial fun _ _ => ?_
    rw [Prog.wp_bind]
    unfold inviteToPrivateThread
    split
    · exact OnlyDiscreet.wp (only_exec_bind rfl (Prog.only_call.mpr rfl))
    · refine Prog.wp_call_bind trivial fun wire _ => ?_
      rw [Prog.wp_pure]
      cases hwire : wire.result with
      | failed => exact OnlyDiscreet.wp (only_exec_bind rfl (Prog.only_call.mpr rfl))
      | broken => exact OnlyDiscreet.wp (only_raise rfl)
      | sent id =>
        refine confirmSent_wp rfl rfl ⟨rfl, rfl, id, hwire⟩ ?_
        exact Prog.only_call.mpr rfl

theorem delivers_teller (cfg : Config) : Delivers tellerMonitor cfg fun _ => True where
  calm _ ho := ⟨teller_discreet (isDiscreet_of_isCalm ho), fun _ _ => trivial⟩
  handles channel waId name key := by
    refine ⟨fun _ _ => True, fun _ => True, fun _ => ?_, fun c => ?_, fun _ => trivial⟩
    · refine Prog.wp_mono (OnlyDiscreet.wp ?_) fun r _ _ => by cases r <;> trivial
      exact (receive_only ..).mono fun _ => isDiscreet_of_inReceive
    · exact ⟨fun _ ho => ⟨teller_discreet (isDiscreet_of_isCalm ho), fun _ _ => trivial⟩,
        fun _ ho => ⟨teller_discreet (isDiscreet_of_isCalm ho), fun _ _ => trivial⟩,
        fun _ => trivial, fun _ => ⟨trivial, fun _ _ => trivial⟩,
        fun _ _ _ => ⟨trivial, fun _ _ => trivial⟩, fun _ _ => sendOnce_teller ..⟩
  stale _ _ _ _ _ _ :=
    OnlyDiscreet.wp ((recordWithoutAnswering_only ..).mono fun _ => isDiscreet_of_inReceive)
  status _ := ⟨trivial, fun _ _ => trivial⟩
  invite channel e _ := inviteAfterComment_teller channel e

/-! ## The sweep -/

theorem shouldSendClosing_discreet (target : IdleSession) :
    OnlyDiscreet (Session.shouldSendClosing cfg target) := by
  unfold Session.shouldSendClosing
  generalize strip (Session.closingText cfg) = text
  refine Prog.Only.ite (Prog.only_pure _) (Prog.Only.ite (Prog.only_pure _)
    (Prog.Only.ite (Prog.only_pure _) (Prog.Only.call_bind rfl fun last => ?_)))
  cases last with
  | none => exact Prog.only_pure _
  | some last => exact Prog.Only.call_bind rfl fun _ => Prog.only_pure _

/-- After a send that went well, its row. -/
theorem createSent_wp {α : Type} {f : Nat → BotM α} {c : Nat} {text : String} {x : Sending}
    {wa : Option String} (hlast : a.last = some x) (htells : x.Tells c (some text))
    (hf : ∀ n, OnlyDiscreet (f n)) :
    (createMessage c text wa statusSent >>= f).wp tellerMonitor (fun _ _ => True) a :=
  Prog.wp_call_bind (M := tellerMonitor) (fun _ => ⟨x, hlast, htells⟩) fun n _ => (hf n).wp

theorem sendClosing_teller (target : IdleSession) :
    (Session.sendClosing cfg target).wp tellerMonitor (fun _ _ => True) a := by
  refine Prog.wp_call_bind trivial fun wire _ => ?_
  cases hwire : wire.result with
  | failed => trivial
  | broken => exact OnlyDiscreet.wp (only_raise rfl)
  | sent id => exact createSent_wp rfl ⟨rfl, rfl, id, hwire⟩ fun _ => Prog.only_call.mpr rfl

theorem finish_teller (target : IdleSession) :
    (Session.finish cfg target).wp tellerMonitor (fun _ _ => True) a := by
  unfold Session.finish Session.sayGoodbye
  rw [Prog.wp_bind]
  have hrest : ∀ b, Prog.wp tellerMonitor (do
      let closedAt ← now
      exec (.close target.conversationId closedAt)
      commit
      Session.announceClosed target.conversationId) (fun _ _ => True) b := by
    intro b
    refine OnlyDiscreet.wp (Prog.Only.call_bind rfl fun _ => only_exec_bind rfl
      (Prog.Only.call_bind rfl fun _ => Prog.Only.call_bind rfl fun c => ?_))
    cases c with
    | none => exact Prog.only_pure _
    | some c => exact Prog.only_call.mpr rfl
  refine Prog.wp_mono (Q := fun _ _ => True) ?_ fun _ b _ => hrest b
  refine OnlyDiscreet.bind_wp (shouldSendClosing_discreet target) fun allowed b => ?_
  unfold when
  split
  · exact sendClosing_teller target
  · trivial

theorem closeIdleSessions_teller :
    (Session.closeIdleSessions cfg).wp tellerMonitor (fun _ _ => True) a := by
  unfold Session.closeIdleSessions
  split
  · trivial
  split
  · trivial
  refine Prog.wp_call_bind trivial fun _ _ => Prog.wp_call_bind trivial fun _ _ =>
    Prog.wp_call_bind trivial fun claimed _ => ?_
  unfold Session.closeClaimed
  split
  · trivial
  · exact Prog.wp_call_bind trivial fun targets _ => Prog.wp_call_bind trivial fun _ _ =>
      Prog.wp_forM (I := fun _ => True) (fun target _ _ _ => finish_teller target) trivial

/-! ## The operators' requests -/

theorem onOpenRow_teller {id : Nat} {rest : Conversation → BotM Unit}
    (h : ∀ c b, (rest c).wp tellerMonitor (fun _ _ => True) b) :
    (onOpenRow id rest).wp tellerMonitor (fun _ _ => True) a := by
  refine Prog.wp_call_bind trivial fun c _ => ?_
  cases c with
  | none => exact OnlyDiscreet.wp (only_raise rfl)
  | some c =>
    exact OnlyDiscreet.bind_wp ((reviveForOperator_only c).mono fun _ => isDiscreet_of_inReopen) h

theorem deliverReply_teller (c : Conversation) (recipient text : String)
    (operatorId : Option Nat) :
    (Operator.deliverReply cfg c recipient text operatorId).wp tellerMonitor
      (fun _ _ => True) a := by
  refine Prog.wp_call_bind trivial fun wire _ => ?_
  cases hwire : wire.result with
  | failed => exact OnlyDiscreet.wp (only_raise rfl)
  | broken => exact OnlyDiscreet.wp (only_raise rfl)
  | sent id =>
    refine createSent_wp rfl ⟨rfl, rfl, id, hwire⟩ fun n =>
      only_exec_bind rfl (Prog.Only.bind (only_when ?_) fun _ =>
        Prog.Only.call_bind rfl fun _ => Prog.only_call.mpr rfl)
    exact Prog.Only.call_bind rfl fun _ => only_exec rfl

/-- **Every task tells what it has sent.** -/
theorem teller_accepts (cfg : Config) :
    tellerMonitor.Accepts .clear (fun _ => True) (sem cfg) where
  program l := by
    cases l with
    | webhook payload => exact (delivers_teller cfg).processWebhookPayload_wp trivial payload
    | metaWebhook surfaces payload =>
      exact Prog.wp_forM (I := fun _ => True) (fun surface _ _ hb =>
        (delivers_teller cfg).processMetaPayload_wp hb surface payload) trivial
    | sweep => exact closeIdleSessions_teller
    | takeOver | resumeAi =>
      exact onOpenRow_teller fun c b =>
        OnlyDiscreet.wp ((switchOpen_only _ _ _ _ c).mono fun _ => isDiscreet_of_inSwitch)
    | manualReply id text operatorId =>
      exact onOpenRow_teller fun c b => replyOpen_wp (I := fun _ => True)
        (fun _ ho => ⟨teller_discreet (isDiscreet_of_isLookup ho), fun _ _ => trivial⟩)
        (fun recipient _ => deliverReply_teller c recipient text operatorId) trivial
  may _ := trivial

end Webhook
