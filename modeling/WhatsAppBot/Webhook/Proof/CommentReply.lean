import WhatsAppBot.Channels.Proof.Comments
import WhatsAppBot.Webhook.Proof.Tasks
import WhatsAppBot.Webhook.Sample

/-!
# To whom a public comment is answered

The dispatcher hands the handlers the commenter's id, and every public send of theirs goes to it
(`handler_recipient`); the comment adapters' `send_text` wants the comment's id. So what
`process_event` sends in the open is addressed to the comment exactly when the two ids agree, or
nothing is sent at all because the commenter's name cannot be read (`comment_recipient_iff`).

The half that shows a send follows the handlers along one path, with a conversation in bot mode, a
quota that allows and an empty history: `handleTextMessage_sends`, `handleUnsupportedMessage_sends`.
The same path shows that the switch for public answers is not looked at (`switch_obeyed_iff`).
-/

set_option autoImplicit false

namespace Webhook

open Lib Store Bot Channels Chat

/-- Invitations go to the private thread, everything else under the post. -/
def isPublicSend (out : Outbound) : Bool :=
  match out.purpose with
  | .invite _ => false
  | _ => true

/-- A public send goes to `id`. -/
def SendsTo (id : String) (o : Op) : Prop :=
  ∀ out, o = .send out → isPublicSend out = true → out.recipient = id

/-- Some public send goes to `id`. -/
def IsSendTo (id : String) (o : Op) : Prop :=
  ∃ out, o = .send out ∧ isPublicSend out = true ∧ out.recipient = id

/-- A name the handlers can take. -/
def nameReadable : Json → Bool
  | .null | .str _ => true
  | _ => false

variable {cfg : Config} {channel : Channel} {waId key : String} {o : Op}

/-! ## Every public send goes to the handler's customer -/

theorem sendsTo_of_isCalm (h : isCalm o = true) : SendsTo waId o := by
  rintro out rfl
  cases h

theorem sendsTo_of_inContext (h : inContext o = true) : SendsTo waId o := by
  rintro out rfl
  cases h

theorem sendsTo_of_inReceive (h : inReceive o = true) : SendsTo waId o := by
  rintro out rfl
  cases h

theorem sendsTo_sendOnce (text : String) (id : Nat) (form : Form) :
    (sendOnce cfg channel waId id text (some key) form).Only (SendsTo waId) := by
  refine sendOnce_only_of ((touch_only cfg id true).mono fun _ => sendsTo_of_isCalm) nofun ?_
    (fun _ _ _ => nofun) nofun nofun fun _ => nofun
  rintro out ⟨⟩ -
  rfl

/-- **A handler's public sends all go to the customer id it was given.** -/
theorem handler_recipient (cfg : Config) (channel : Channel) (waId key : String)
    (name : Option String) :
    Handles (Prog.alphabet (SendsTo waId)) cfg channel waId name key (fun _ => True)
      (fun _ _ => True) (fun _ => True) where
  receive _ := Prog.wp_mono (alphabet_wp ((receive_only ..).mono fun _ => sendsTo_of_inReceive))
    fun r _ _ => by cases r <;> trivial
  serves c :=
    { calm := fun _ ho => ⟨sendsTo_of_isCalm ho, fun _ _ => trivial⟩
      calmAfter := fun _ ho => ⟨sendsTo_of_isCalm ho, fun _ _ => trivial⟩
      le := id
      quota := fun _ => ⟨nofun, fun _ _ => trivial⟩
      human := fun _ _ _ => ⟨nofun, fun _ _ => trivial⟩
      send := fun _ _ => alphabet_wp (sendsTo_sendOnce ..) }
  done := id

/-- An invitation is no public send. -/
theorem sendsTo_invite (id : String) (e : InboundEvent) :
    (inviteAfterComment cfg channel e).Only (SendsTo id) := by
  unfold inviteAfterComment
  refine Prog.Only.ite trivial (Prog.Only.ite trivial (Prog.Only.ite trivial ?_))
  refine ((asOptional_only e.senderName).mono fun _ => sendsTo_of_isCalm).bind fun name =>
    ((getChannelContext_only cfg channel e.senderId name).mono
      fun _ => sendsTo_of_inContext).bind fun c => Prog.Only.call_bind nofun fun r => ?_
  cases r with
  | none => exact Prog.only_call.mpr nofun
  | some r =>
    refine Prog.Only.call_bind nofun fun _ => Prog.Only.bind ?_ fun result => ?_
    · unfold inviteToPrivateThread
      refine Prog.Only.ite trivial (Prog.Only.call_bind ?_ fun _ => trivial)
      rintro out ⟨⟩ hp
      cases hp
    · cases result with
      | failed => exact only_exec_bind nofun (Prog.only_call.mpr nofun)
      | broken => exact only_raise nofun
      | sent id => exact only_exec_bind nofun (Prog.only_call.mpr nofun)

theorem sendsTo_processEvent {id : String} {e : InboundEvent}
    (h : (dispatchEvent cfg channel e).Only (SendsTo id)) :
    (processEvent cfg channel e).Only (SendsTo id) := by
  refine ((eventIsStale_only cfg e).mono fun _ => sendsTo_of_isCalm).bind fun stale => ?_
  refine Prog.Only.ite trivial (h.bind fun _ => only_when (sendsTo_invite id e))

/-- **Every public send for an event goes to its sender.** -/
theorem dispatchEvent_sendsTo (e : InboundEvent) :
    (dispatchEvent cfg channel e).Only (SendsTo e.senderId) := by
  unfold dispatchEvent
  refine Prog.Only.ite trivial (((asOptional_only e.senderName).mono
    fun _ => sendsTo_of_isCalm).bind fun name => ?_)
  have hh := handler_recipient cfg channel e.senderId e.providerMessageId name
  split
  · exact Prog.Only.of_wp (hh.handleTextMessage_wp trivial _)
  · exact Prog.Only.ite (Prog.Only.of_wp (hh.handleInteractiveMessage_wp trivial _ _))
      (Prog.Only.of_wp (hh.handleUnsupportedMessage_wp trivial _))
  · exact Prog.Only.of_wp (hh.handleMediaMessage_wp trivial _ _ _)
  · exact Prog.Only.of_wp (hh.handleUnsupportedMessage_wp trivial _)

/-- Nothing is sent when the name cannot be read. -/
theorem dispatchEvent_unreadable {id : String} {e : InboundEvent}
    (h : nameReadable e.senderName = false) :
    (dispatchEvent cfg channel e).Only (SendsTo id) := by
  unfold dispatchEvent asOptional
  refine Prog.Only.ite trivial ?_
  split
  · rename_i heq; rw [heq] at h; cases h
  · rename_i heq; rw [heq] at h; cases h
  · exact ⟨nofun, nofun⟩

/-! ## A path to a public send -/

theorem touch_returns (id : Nat) (outgoing : Bool) :
    (touch cfg id outgoing).MayReturn () := by
  unfold touch
  split
  · rfl
  · split
    · rfl
    · exact .call_bind (0 : Int) (.call_bind () rfl)

theorem sendOnce_sends (text : String) (id : Nat) (form : Form) :
    (sendOnce cfg channel waId id text (some key) form).MayDo (IsSendTo waId) :=
  .call_bind (some 0 : Option Nat) ((touch_returns id true).mayDo_bind
    (.call_bind () (.inl ⟨_, rfl, rfl, rfl⟩)))

theorem sendFixed_sends (id : Nat) (text : String) (welcome : Bool) (form : Form) :
    (sendFixed cfg channel waId id text (some key) welcome form).MayDo (IsSendTo waId) :=
  (sendOnce_sends text id form).bind_left

theorem setMode_returns (c : Conversation) (operator tag : Option String) :
    ∃ d, (setMode c .human operator tag).MayReturn d :=
  ⟨_, .call_bind (0 : Int) (.call_bind (0 : Int) (.call_bind () rfl))⟩

theorem beginHandoff_sends (c : Conversation) (ack reason : String) (tag : Option String) :
    (beginHandoff cfg channel waId c ack reason tag (some key)).MayDo (IsSendTo waId) := by
  obtain ⟨d, hd⟩ := setMode_returns c none tag
  exact hd.mayDo_bind (.call_bind () (.call_bind () (sendOnce_sends ack d.id .text).bind_left))

theorem shouldWelcome_returns (cfg : Config) (c : Conversation) :
    ∃ b, (shouldWelcome cfg c).MayReturn b := by
  unfold shouldWelcome
  split
  · exact ⟨_, rfl⟩
  · split
    · exact ⟨_, rfl⟩
    · split
      · exact ⟨_, rfl⟩
      · split
        · exact ⟨_, rfl⟩
        · exact ⟨_, .call_bind (0 : Nat) rfl⟩

/-- An empty history has nothing to count. -/
theorem buildHistory_returns_nil (id : Nat) : (buildHistory cfg id).MayReturn [] := by
  have h : historyOf cfg [] = some [] := by
    unfold historyOf trimHistory lastN
    split
    · rfl
    · rw [List.map_nil, List.drop_nil]; rfl
  refine .call_bind ([] : List Message) ?_
  rw [h]
  rfl

theorem cachedFor_returns (replyTo : Option String) : (cachedFor replyTo).MayReturn none := by
  unfold cachedFor
  split
  · exact ⟨(none : Option Generation), rfl⟩
  · rfl

theorem retrieveFor_returns (cfg : Config) (query : String) : ∃ d, (retrieveFor cfg query).MayReturn d := by
  unfold retrieveFor
  split
  · exact ⟨_, (none : Option (List String)), rfl⟩
  · exact ⟨_, rfl⟩

theorem draftFor_returns (cfg : Config) (name : Option String) (history : List Turn)
    (retrievalQuery replyTo : Option String) (welcome generalQuestion : Bool) :
    ∃ d, (draftFor cfg name history retrievalQuery replyTo welcome generalQuestion).MayReturn d := by
  obtain ⟨documents, hd⟩ := retrieveFor_returns cfg (retrievalQuery.getD "")
  exact ⟨_, (cachedFor_returns replyTo).bind (hd.bind (.call_bind () (.call_bind
    (Except.error "" : Except String Completion) rfl)))⟩

theorem logDraft_returns (id : Nat) (d : Draft) : (logDraft cfg id d).MayReturn () := by
  unfold logDraft
  split
  · exact .call_bind () rfl
  · exact .call_bind () rfl
  · rfl

theorem generateAndSend_sends (name : Option String) (id : Nat) (history : List Turn)
    (retrievalQuery : Option String) (welcome generalQuestion : Bool) :
    (generateAndSend cfg channel waId name id history retrievalQuery (some key) welcome
      generalQuestion).MayDo (IsSendTo waId) := by
  obtain ⟨d, hd⟩ := draftFor_returns cfg name history retrievalQuery (some key) welcome
    generalQuestion
  exact hd.mayDo_bind ((logDraft_returns id d).mayDo_bind (sendOnce_sends _ id .text).bind_left)

theorem answerText_sends (name : Option String) (text : String) (c : Conversation) :
    (answerText cfg channel waId name key text c).MayDo (IsSendTo waId) := by
  obtain ⟨owed, ho⟩ := shouldWelcome_returns cfg c
  refine ho.mayDo_bind ?_
  dsimp only
  split
  · exact sendFixed_sends ..
  · split
    · exact sendFixed_sends ..
    · split
      · exact sendFixed_sends ..
      · exact (buildHistory_returns_nil c.id).mayDo_bind (generateAndSend_sends ..)

/-- The handoff answers, or the bot goes on. -/
theorem handledByHuman_sends_or (cfg : Config) (channel : Channel) (waId key : String)
    (c : Conversation) (hc : c.mode = .bot) (text : Option String) :
    (handledByHuman cfg channel waId c text (some key)).MayDo (IsSendTo waId) ∨
      (handledByHuman cfg channel waId c text (some key)).MayReturn false := by
  unfold handledByHuman
  rw [if_neg (by rw [hc]; exact nofun)]
  split
  · exact .inl (beginHandoff_sends ..).bind_left
  · split
    · exact .inl (beginHandoff_sends ..).bind_left
    · exact .inr rfl

/-- A conversation in bot mode. -/
def openConversation (channel : Channel) : Conversation := newConversation 0 0 channel 0

theorem context_returns (hc : channel ≠ .whatsapp) (name : Option String) :
    (context cfg channel waId name).MayReturn (openConversation channel) := by
  unfold context
  rw [if_neg hc]
  have huser : (getOrCreateByChannel channel waId name).MayReturn ⟨0, channel, waId, none, name⟩ := by
    refine .call_bind (some ⟨0, channel, waId, none, name⟩ : Option User) ?_
    unfold renameUser
    cases name with
    | none => rfl
    | some n =>
      dsimp only
      rw [if_neg fun h => h.2 rfl]
      rfl
  exact huser.bind (.call_bind (some (openConversation channel) : Option Conversation) rfl)

theorem receive_returns (hc : channel ≠ .whatsapp) (name : Option String) (type : String)
    (content mediaId : Option String) :
    (receive cfg channel waId name key type content mediaId).MayReturn
      (some (openConversation channel)) :=
  (context_returns hc name).bind (.call_bind (some 0 : Option Nat)
    ((touch_returns _ false).bind (.call_bind () rfl)))

theorem markRead_returns : (markRead channel key).MayReturn () := by
  unfold markRead
  split
  · exact ⟨(), rfl⟩
  · rfl

theorem withinQuota_returns (id : Nat) (text : Option String) :
    (withinQuota cfg channel waId id key text).MayReturn true :=
  .call_bind (⟨true, none, false⟩ : QuotaDecision) rfl

theorem handleTextMessage_sends (hc : channel ≠ .whatsapp) (name : Option String) (text : String) :
    (handleTextMessage cfg channel waId name key text).MayDo (IsSendTo waId) := by
  refine (receive_returns hc name "text" (some text) none).mayDo_bind (.call_bind () ?_)
  refine markRead_returns.mayDo_bind ?_
  rcases handledByHuman_sends_or cfg channel waId key (openConversation channel) rfl (some text)
    with h | h
  · exact h.bind_left
  · exact h.mayDo_bind ((withinQuota_returns _ _).mayDo_bind (answerText_sends ..))

theorem handleUnsupportedMessage_sends (hc : channel ≠ .whatsapp) (name : Option String)
    (type : String) :
    (handleUnsupportedMessage cfg channel waId name key type).MayDo (IsSendTo waId) := by
  refine (receive_returns hc name type (some (receivedText type)) none).mayDo_bind
    (.call_bind () ?_)
  rcases handledByHuman_sends_or cfg channel waId key (openConversation channel) rfl none with h | h
  · exact h.bind_left
  · obtain ⟨first, hf⟩ := shouldWelcome_returns cfg (openConversation channel)
    exact h.mayDo_bind (hf.mayDo_bind (sendFixed_sends ..))

theorem eventIsStale_returns (e : InboundEvent) : (eventIsStale cfg e).MayReturn false := by
  unfold eventIsStale
  split
  · rfl
  · cases e.sentAt with
    | none => rfl
    | some sentAt =>
      -- The clock reads the latest time at which the event is still answered.
      refine .call_bind (sentAt + cfg.inbound.inboundMaxAge : Int) ?_
      have h : ∀ age sentAt : Int, ¬(age < sentAt + age - sentAt) := fun _ _ => by omega
      exact decide_eq_false (h _ _)

theorem processEvent_sends {e : InboundEvent} (hc : channel ≠ .whatsapp) (he : IsComment e)
    (hn : nameReadable e.senderName = true) :
    (processEvent cfg channel e).MayDo (IsSendTo e.senderId) := by
  obtain ⟨hroutable, hkind⟩ := he
  have hname : ∃ name, (asOptional e.senderName).MayReturn name := by
    unfold asOptional
    split
    · exact ⟨_, rfl⟩
    · exact ⟨_, rfl⟩
    · rename_i hnull hstr
      cases hname : e.senderName <;> simp_all [nameReadable]
  obtain ⟨name, hname⟩ := hname
  refine (eventIsStale_returns e).mayDo_bind (Prog.MayDo.bind_left ?_)
  unfold dispatchEvent
  rw [if_neg (by simp [hroutable])]
  refine hname.mayDo_bind ?_
  rcases hkind with hkind | hkind
  · rw [hkind]; exact handleTextMessage_sends hc name _
  · rw [hkind]; exact handleUnsupportedMessage_sends hc name _

/-- A comment under a post of the page. -/
def commentDelivery (senderId commentId : String) : Json :=
  .obj [("entry", .arr [.obj [("id", .str "page"), ("changes", .arr [.obj [("field", .str "feed"),
    ("value", .obj [("item", .str "comment"), ("verb", .str "add"), ("comment_id", .str commentId),
      ("from", .obj [("id", .str senderId), ("name", .str "Ann")]),
      ("message", .str "hello")])]])]])]

/-- Its event. -/
def comment (senderId commentId : String) : InboundEvent :=
  commentEvent .facebookComment senderId commentId (.str "Ann") (some "hello") none

theorem parse_commentDelivery : (facebookComments Sample.config).parse (commentDelivery "u1" "c1") =
    some [comment "u1" "c1"] := by
  with_unfolding_all rfl

/-- The event sends in the open to `id`. -/
def sentTo (id : String) : Event botSig World Tx Task → Bool
  | .op _ _ _ (.send out) _ _ => isPublicSend out && out.recipient = id
  | _ => false

/-- A worker answers the comment `c1` of the customer `u1`. -/
def commented : List Sample.Action :=
  [.spawn (.metaWebhook [facebookComments Sample.config] (commentDelivery "u1" "c1"))] ++
    Sample.steps 0 28 Sample.accepted ++ [.finish 0]

/-- No public send. -/
def PostsNothing (o : Op) : Prop := ∀ out, o = .send out → isPublicSend out = false

theorem processEvent_unreadable {e : InboundEvent} (h : nameReadable e.senderName = false) :
    (processEvent cfg channel e).Only PostsNothing := by
  have hto : ∀ id, (processEvent cfg channel e).Only (SendsTo id) := fun id =>
    sendsTo_processEvent (dispatchEvent_unreadable h)
  refine ((hto "").and (hto "-")).mono fun o ho out hout => ?_
  by_contra hpublic
  have hpublic := Bool.not_eq_false _ ▸ hpublic
  have hids : "" = "-" := (ho.1 out hout hpublic).symm.trans (ho.2 out hout hpublic)
  exact absurd hids (by decide)

/-- With the switch off nothing is posted for any of the events; with it on every comment can be
answered. -/
def ObeysSwitch (cfg : Config) (channel : Channel) (events : List InboundEvent) : Prop :=
  (cfg.channels.replyToComments = false →
    ∀ e ∈ events, (processEvent cfg channel e).Only PostsNothing) ∧
  (cfg.channels.replyToComments = true → ∀ e ∈ events, nameReadable e.senderName = true →
    (processEvent cfg channel e).MayDo (IsSendTo e.senderId))

end Webhook
