import WhatsAppBot.Store.Columns
import WhatsAppBot.Webhook.Direct
import WhatsAppBot.Webhook.Proof.CommentReply

/-!
# What is written for an event fits its columns

Nothing between a parser and the statements looks at the length of a value. `storable_iff`: all that
is written for an event that can be routed is `InSchema` exactly if the values copied into it are
short enough (`Narrow`); `parsed_storable_iff` reads that off the events of the four parsers.

One direction follows the handlers with the alphabet of statements that are `InSchema`; the other
names the statement that takes each value: the insert of a new customer, the claim, and the
reservation of an invitation.
-/

set_option autoImplicit false

namespace Webhook

open Lib Store Bot Channels Chat

/-- The rows a statement writes are `InSchema`. -/
def WritesInSchema : Op → Prop
  | .sql s => s.InSchema
  | _ => True

/-- **What is written for an event can be stored.** A name that is no string cannot. -/
def Storable (cfg : Config) (channel : Channel) (e : InboundEvent) : Prop :=
  nameReadable e.senderName = true ∧ (processEvent cfg channel e).Only WritesInSchema

/-- The `type` of the event's message. -/
def messageType (e : InboundEvent) : String :=
  match e.kind with
  | .text => "text"
  | .selection => "interactive"
  | .media => if e.mediaType.getD "" ≠ "" then e.mediaType.getD "" else "media"
  | .unsupported => "unsupported"

/-- An invitation can follow the event. -/
def mayInvite (cfg : Config) (channel : Channel) : Bool :=
  isComment channel && cfg.channels.dmInviteEnabled channel &&
    strip (cfg.channels.dmInviteMessage channel) ≠ ""

/-- The event's values are short enough. -/
structure Narrow (cfg : Config) (channel : Channel) (e : InboundEvent) : Prop where
  senderId : e.senderId.length ≤ 64
  senderName : ∀ name, e.senderName = .str name → name.length ≤ 255
  providerMessageId : e.providerMessageId.length ≤ 128
  messageType : (messageType e).length ≤ 20
  mediaId : e.kind = .media → Within 128 e.mediaId
  invitation : mayInvite cfg channel = true → (reservationKey e.providerMessageId).length ≤ 128

variable {cfg : Config} {channel : Channel} {waId key : String} {name : Option String} {o : Op}

/-! ## Narrow values are stored -/

theorem writesInSchema_of_isCalm (h : isCalm o = true) : WritesInSchema o := by
  cases o with
  | sql s => exact Stmt.inSchema_of_not_inserts (by cases s <;> first | rfl | cases h)
  | _ => trivial

theorem writesInSchema_of_inOpening {userId : Nat} (h : inOpening userId o = true) :
    WritesInSchema o := by
  cases o with
  | sql s => exact Stmt.inSchema_of_not_inserts (by cases s <;> first | rfl | cases h)
  | _ => trivial

theorem writesInSchema_renameUser (user : User) (hname : Within 255 name) :
    (renameUser user name).Only WritesInSchema := by
  unfold renameUser
  split
  · split
    · exact only_exec_bind (setUserName_inSchema (within_some.mp hname)) trivial
    · trivial
  · trivial

theorem writesInSchema_getOrCreateByChannel (hid : waId.length ≤ 64) (hname : Within 255 name) :
    (getOrCreateByChannel channel waId name).Only WritesInSchema := by
  have hread : (Stmt.getByChannelId channel waId).InSchema := Stmt.inSchema_of_not_inserts rfl
  refine Prog.Only.call_bind hread fun user => ?_
  cases user with
  | some user => exact writesInSchema_renameUser user hname
  | none =>
    refine only_exec_bind (insertChannelUser_inSchema_iff.mpr ⟨hid, hname⟩)
      (Prog.Only.call_bind hread fun user => ?_)
    cases user with
    | some user => exact writesInSchema_renameUser user hname
    | none => exact only_raise trivial

theorem writesInSchema_getChannelContext (hid : waId.length ≤ 64) (hname : Within 255 name) :
    (getChannelContext cfg channel waId name).Only WritesInSchema :=
  (writesInSchema_getOrCreateByChannel hid hname).bind fun _ =>
    (getOrCreateActive_only _ _ _).mono fun _ => writesInSchema_of_inOpening

theorem writesInSchema_receive (hc : channel ≠ .whatsapp) (hid : waId.length ≤ 64)
    (hname : Within 255 name) {type : String} {content mediaId : Option String}
    (hkey : key.length ≤ 128) (htype : type.length ≤ 20) (hmedia : Within 128 mediaId) :
    (receive cfg channel waId name key type content mediaId).Only WritesInSchema := by
  have hcontext : (context cfg channel waId name).Only WritesInSchema := by
    unfold context
    rw [if_neg hc]
    exact writesInSchema_getChannelContext hid hname
  exact receive_only_of hcontext
    (fun id => (touch_only cfg id false).mono fun _ => writesInSchema_of_isCalm)
    (fun _ => claimInbound_inSchema_iff.mpr ⟨hkey, htype, hmedia⟩) trivial trivial

theorem writesInSchema_sendOnce (hkey : key.length ≤ 128) (text : String) (id : Nat) (form : Form) :
    (sendOnce cfg channel waId id text (some key) form).Only WritesInSchema :=
  sendOnce_only_of ((touch_only cfg id true).mono fun _ => writesInSchema_of_isCalm)
    (reserveReply_inSchema_iff.mpr ⟨hkey, by decide⟩) trivial
    (fun _ _ _ => Stmt.inSchema_of_not_inserts rfl) trivial trivial fun _ => trivial

/-- After the claim a handler writes nothing else of the event's than its id. -/
theorem serves_inSchema (hkey : key.length ≤ 128) (c : Conversation) :
    Serves (Prog.alphabet WritesInSchema) cfg channel waId key c (fun _ => True)
      (fun _ => True) where
  calm := fun _ ho => ⟨writesInSchema_of_isCalm ho, fun _ _ => trivial⟩
  calmAfter := fun _ ho => ⟨writesInSchema_of_isCalm ho, fun _ _ => trivial⟩
  le := id
  quota := fun _ => ⟨trivial, fun _ _ => trivial⟩
  human := fun _ _ _ => ⟨Stmt.inSchema_of_not_inserts rfl, fun _ _ => trivial⟩
  send := fun _ _ => alphabet_wp (writesInSchema_sendOnce hkey ..)

theorem receivesTo_inSchema (hc : channel ≠ .whatsapp) (hid : waId.length ≤ 64)
    (hname : Within 255 name) (hkey : key.length ≤ 128) {type : String} (htype : type.length ≤ 20)
    {content mediaId : Option String} (hmedia : Within 128 mediaId) :
    ReceivesTo (Prog.alphabet WritesInSchema) (fun _ => True) (fun _ _ => True)
      (receive cfg channel waId name key type content mediaId) () :=
  Prog.wp_mono (alphabet_wp (writesInSchema_receive hc hid hname hkey htype hmedia))
    fun r _ _ => by cases r <;> trivial

/-- A name that can be taken is the event's. -/
theorem asOptional_bind_inSchema {α : Type} {e : InboundEvent} {f : Option String → BotM α}
    (hn : Narrow cfg channel e) (hf : ∀ name, Within 255 name → (f name).Only WritesInSchema) :
    (asOptional e.senderName >>= f).Only WritesInSchema := by
  have hname := hn.senderName
  unfold asOptional
  split
  · rename_i s heq
    exact hf (some s) (within_some.mpr (hname s heq))
  · exact hf none (within_none _)
  · exact ⟨trivial, nofun⟩

theorem dispatchEvent_inSchema {e : InboundEvent} (hc : channel ≠ .whatsapp)
    (hn : Narrow cfg channel e) : (dispatchEvent cfg channel e).Only WritesInSchema := by
  unfold dispatchEvent
  refine Prog.Only.ite trivial (asOptional_bind_inSchema hn fun name hname => ?_)
  have hserves : ∀ c, Serves (Prog.alphabet WritesInSchema) cfg channel e.senderId
      e.providerMessageId c (fun _ => True) (fun _ => True) := serves_inSchema hn.providerMessageId
  have hdone : ∀ b : Unit, True → True := fun _ => id
  have hr {type : String} (htype : type.length ≤ 20) (content : Option String)
      {mediaId : Option String} (hmedia : Within 128 mediaId) :
      ReceivesTo (Prog.alphabet WritesInSchema) (fun _ => True) (fun _ _ => True)
        (receive cfg channel e.senderId name e.providerMessageId type content mediaId) () :=
    receivesTo_inSchema hc hn.senderId hname hn.providerMessageId htype hmedia
  have htype := hn.messageType
  unfold messageType at htype
  cases hkind : e.kind with
  | text => exact Prog.Only.of_wp (handleText_wp hserves hdone (hr (by decide) _ (within_none _)))
  | selection =>
    exact Prog.Only.ite
      (Prog.Only.of_wp (handleInteractive_wp hserves hdone (hr (by decide) _ (within_none _))))
      (Prog.Only.of_wp (handleUnsupported_wp hserves hdone (hr (by decide) _ (within_none _))))
  | media =>
    rw [hkind] at htype
    exact Prog.Only.of_wp (handleMedia_wp hserves hdone (hr htype _ (hn.mediaId hkind)))
  | unsupported =>
    exact Prog.Only.of_wp (handleUnsupported_wp hserves hdone (hr (by decide) _ (within_none _)))

/-- The invitation is reserved under a key of its own. -/
theorem inviteAfterComment_inSchema {e : InboundEvent} (hn : Narrow cfg channel e)
    (hcomment : isComment channel = true) :
    (inviteAfterComment cfg channel e).Only WritesInSchema := by
  unfold inviteAfterComment
  split
  · trivial
  · rename_i henabled
    split
    · trivial
    · rename_i htext
      refine Prog.Only.ite trivial (asOptional_bind_inSchema hn fun name hname =>
        (writesInSchema_getChannelContext hn.senderId hname).bind fun c => ?_)
      have hkey := hn.invitation (by simp_all [mayInvite])
      refine Prog.Only.call_bind (reserveReply_inSchema_iff.mpr ⟨hkey, by decide⟩) fun r => ?_
      cases r with
      | none => exact Prog.only_call.mpr trivial
      | some r =>
        have hconfirm (outId : Option String) (status : String) :
            (Stmt.confirmReply r outId status).InSchema := Stmt.inSchema_of_not_inserts rfl
        refine Prog.Only.call_bind trivial fun _ => Prog.Only.bind ?_ fun result => ?_
        · unfold inviteToPrivateThread
          exact Prog.Only.ite trivial (Prog.Only.call_bind trivial fun _ => trivial)
        · cases result with
          | failed => exact only_exec_bind (hconfirm _ _) (Prog.only_call.mpr trivial)
          | broken => exact only_raise trivial
          | sent id => exact only_exec_bind (hconfirm _ _) (Prog.only_call.mpr trivial)

theorem processEvent_inSchema {e : InboundEvent} (hc : channel ≠ .whatsapp)
    (hn : Narrow cfg channel e) : (processEvent cfg channel e).Only WritesInSchema := by
  refine ((eventIsStale_only cfg e).mono fun _ => writesInSchema_of_isCalm).bind fun stale => ?_
  refine Prog.Only.ite trivial ((dispatchEvent_inSchema hc hn).bind fun _ => ?_)
  unfold when
  split
  · rename_i hinvite
    exact inviteAfterComment_inSchema hn (Bool.and_eq_true_iff.mp hinvite).1
  · trivial

/-! ## Every value reaches a statement -/

/-- The operation sends this statement. -/
def Sends (s : Stmt) (o : Op) : Prop := o = .sql s

/-- The `media_id` of the event's message. -/
def messageMediaId (e : InboundEvent) : Option String :=
  if e.kind = .media then e.mediaId else none

theorem asOptional_eq {j : Json} (h : nameReadable j = true) : asOptional j = pure j.str? := by
  cases j with
  | null | str s => rfl
  | _ => cases h

/-- A handler starts with the claim, and a duplicate is the end of it. -/
theorem dispatchEvent_eq (cfg : Config) (channel : Channel) {e : InboundEvent}
    (hr : e.routable = true) (hname : nameReadable e.senderName = true) :
    ∃ content f, f none = pure () ∧ dispatchEvent cfg channel e =
      receive cfg channel e.senderId e.senderName.str? e.providerMessageId (messageType e) content
        (messageMediaId e) >>= f := by
  unfold dispatchEvent messageType messageMediaId
  rw [if_neg (by simp [hr]), asOptional_eq hname]
  cases e.kind with
  | text => exact ⟨_, _, rfl, rfl⟩
  | selection =>
    by_cases hid : e.selectionId.getD "" ≠ ""
    · exact ⟨_, _, rfl, if_pos hid⟩
    · exact ⟨_, _, rfl, if_neg hid⟩
  | media => exact ⟨_, _, rfl, rfl⟩
  | unsupported => exact ⟨_, _, rfl, rfl⟩

theorem processEvent_dispatches {e : InboundEvent} {φ : Op → Prop}
    (h : (dispatchEvent cfg channel e).MayDo φ) : (processEvent cfg channel e).MayDo φ :=
  (eventIsStale_returns e).mayDo_bind h.bind_left

theorem receive_inserts (hc : channel ≠ .whatsapp) {type : String} {content mediaId : Option String} :
    (receive cfg channel waId name key type content mediaId).MayDo
      (Sends (.insertChannelUser channel waId name)) := by
  have hinsert : (exec (.insertChannelUser channel waId name)).MayDo
      (Sends (.insertChannelUser channel waId name)) := .inl rfl
  have hcontext : (context cfg channel waId name).MayDo
      (Sends (.insertChannelUser channel waId name)) := by
    unfold context
    rw [if_neg hc]
    exact Prog.MayDo.bind_left (.call_bind (none : Option User) hinsert.bind_left)
  exact hcontext.bind_left

theorem receive_claims (hc : channel ≠ .whatsapp) {type : String} {content mediaId : Option String} :
    (receive cfg channel waId name key type content mediaId).MayDo
      (Sends (.claimInbound (openConversation channel).id key type content mediaId)) :=
  (context_returns hc name).mayDo_bind (.inl rfl)

/-- The customer is the event's sender, the invitation follows a duplicate as well. -/
theorem processEvent_invites {e : InboundEvent} (hc : channel ≠ .whatsapp) (hr : e.routable = true)
    (hname : nameReadable e.senderName = true) (hinvite : mayInvite cfg channel = true) :
    (processEvent cfg channel e).MayDo
      (Sends (.reserveReply (openConversation channel).id (reservationKey e.providerMessageId)
        (cfg.channels.dmInviteMessage channel) inviteType)) := by
  have hcontext (name : Option String) :
      (getChannelContext cfg channel e.senderId name).MayReturn (openConversation channel) := by
    have h : (context cfg channel e.senderId name).MayReturn (openConversation channel) :=
      context_returns hc name
    rwa [context, if_neg hc] at h
  have hdispatch : (dispatchEvent cfg channel e).MayReturn () := by
    obtain ⟨content, f, hnone, heq⟩ := dispatchEvent_eq cfg channel hr hname
    have hduplicate : (receive cfg channel e.senderId e.senderName.str? e.providerMessageId
        (messageType e) content (messageMediaId e)).MayReturn none :=
      (context_returns hc _).bind (.call_bind (none : Option Nat) (.call_bind () rfl))
    rw [heq]
    exact hduplicate.bind (by rw [hnone]; rfl)
  simp only [mayInvite, Bool.and_eq_true, decide_eq_true_eq] at hinvite
  obtain ⟨⟨hcomment, henabled⟩, htext⟩ := hinvite
  refine (eventIsStale_returns e).mayDo_bind (hdispatch.mayDo_bind ?_)
  rw [when, hcomment, hr, if_pos (by rfl)]
  unfold inviteAfterComment
  rw [if_neg (by simp [henabled]), if_neg htext, if_neg (by simp [hr]), asOptional_eq hname]
  exact (hcontext _).mayDo_bind (.inl rfl)

/-- **All that is written for an event fits** exactly if its own values do. -/
theorem storable_iff {e : InboundEvent} (hc : channel ≠ .whatsapp) (hr : e.routable = true) :
    Storable cfg channel e ↔ nameReadable e.senderName = true ∧ Narrow cfg channel e := by
  refine and_congr_right fun hname => ⟨fun h => ?_, processEvent_inSchema hc⟩
  obtain ⟨content, f, -, heq⟩ := dispatchEvent_eq cfg channel hr hname
  have hdispatch {φ : Op → Prop} (hreceive : (receive cfg channel e.senderId e.senderName.str?
      e.providerMessageId (messageType e) content (messageMediaId e)).MayDo φ) :
      ∃ o, WritesInSchema o ∧ φ o :=
    h.of_mayDo (processEvent_dispatches (heq ▸ hreceive.bind_left))
  obtain ⟨_, huser, rfl⟩ := hdispatch (receive_inserts hc)
  obtain ⟨_, hclaim, rfl⟩ := hdispatch (receive_claims hc)
  obtain ⟨hid, hlong⟩ := insertChannelUser_inSchema_iff.mp huser
  obtain ⟨hkey, htype, hmedia⟩ := claimInbound_inSchema_iff.mp hclaim
  refine ⟨hid, fun name heq => ?_, hkey, htype, fun hkind => ?_, fun hinvite => ?_⟩
  · rw [heq] at hlong
    exact within_some.mp hlong
  · rwa [messageMediaId, if_pos hkind] at hmedia
  · obtain ⟨_, hreserve, rfl⟩ := h.of_mayDo (processEvent_invites hc hr hname hinvite)
    exact (reserveReply_inSchema_iff.mp hreserve).1

/-! ## Direct messages -/

/-- Nothing, or a string. -/
def IsText (value : Json) : Prop := value.truthy = true → ∃ s, value = .str s

/-- The event's values are strings where they have to be, and short enough. -/
structure FitsDirect (e : DirectEvent) : Prop where
  senderId : e.senderId.length ≤ 64
  providerMessageId : e.providerMessageId.length ≤ 128
  text : e.kind = .text → IsText e.text
  selectionTitle : e.kind = .selection → e.readsTitle = true → IsText e.selectionTitle
  mediaType : e.kind = .media → e.mediaType.truthy = true →
    ∃ s, e.mediaType = .str s ∧ s.length ≤ 20
  caption : e.kind = .media → IsText e.caption

/-- What is written for a direct message can be stored. -/
def StorableDirect (cfg : Config) (e : DirectEvent) : Prop :=
  ∃ t, e.typed? = some t ∧ Storable cfg e.channel t

theorem textParam_isSome_iff {value : Json} {d : String} :
    (textParam value d).isSome = true ↔ IsText value := by
  unfold textParam IsText
  cases value.truthy with
  | false => simp
  | true => cases value <;> simp [Json.str?]

theorem textParam_truthy {value : Json} {s : String} (h : textParam value "" = some s) :
    (value.truthy = true ∧ value = .str s ∧ s ≠ "") ∨ (value.truthy = false ∧ s = "") := by
  unfold textParam at h
  cases hv : value.truthy with
  | false => exact .inr ⟨rfl, by simpa [hv] using h.symm⟩
  | true =>
    left
    cases value <;> simp_all [Json.str?, Json.truthy]

variable {d : DirectEvent} {t : InboundEvent}

theorem typed?_isSome_iff : d.typed?.isSome = true ↔ (d.kind = .text → IsText d.text) ∧
    (d.kind = .selection → d.readsTitle = true → IsText d.selectionTitle) ∧
    (d.kind = .media → IsText d.mediaType ∧ IsText d.caption) := by
  unfold DirectEvent.typed?
  cases hkind : d.kind with
  | text =>
    rw [← @textParam_isSome_iff d.text ""]
    cases textParam d.text "" <;> simp
  | selection =>
    by_cases htitle : d.readsTitle = true
    · rw [← @textParam_isSome_iff d.selectionTitle ""]
      cases textParam d.selectionTitle "" <;> simp [htitle]
    · simp [htitle]
  | media =>
    rw [← @textParam_isSome_iff d.mediaType "", ← @textParam_isSome_iff d.caption ""]
    cases textParam d.mediaType "" <;> cases textParam d.caption "" <;> simp
  | unsupported => simp

/-- What `typed?` takes over as it is. -/
structure IsTyped (d : DirectEvent) (t : InboundEvent) : Prop where
  senderId : t.senderId = d.senderId
  providerMessageId : t.providerMessageId = d.providerMessageId
  kind : t.kind = d.kind
  senderName : t.senderName = .null
  mediaId : t.mediaId = none
  mediaType : t.kind = .media → ∃ m, textParam d.mediaType "" = some m ∧ t.mediaType = some m

theorem isTyped (h : d.typed? = some t) : IsTyped d t := by
  unfold DirectEvent.typed? at h
  cases hkind : d.kind with
  | text =>
    rw [hkind] at h
    obtain ⟨text, -, heq⟩ := Option.bind_eq_some_iff.mp h
    cases heq
    exact ⟨rfl, rfl, hkind.symm, rfl, rfl, nofun⟩
  | selection =>
    rw [hkind] at h
    by_cases htitle : d.readsTitle = true
    · simp only [htitle, if_true] at h
      obtain ⟨title, -, heq⟩ := Option.bind_eq_some_iff.mp h
      cases heq
      exact ⟨rfl, rfl, hkind.symm, rfl, rfl, nofun⟩
    · simp only [htitle] at h
      cases h
      exact ⟨rfl, rfl, hkind.symm, rfl, rfl, nofun⟩
  | media =>
    rw [hkind] at h
    obtain ⟨mediaType, hm, h⟩ := Option.bind_eq_some_iff.mp h
    obtain ⟨caption, -, heq⟩ := Option.bind_eq_some_iff.mp h
    cases heq
    exact ⟨rfl, rfl, hkind.symm, rfl, rfl, fun _ => ⟨mediaType, hm, rfl⟩⟩
  | unsupported =>
    rw [hkind] at h
    cases h
    exact ⟨rfl, rfl, hkind.symm, rfl, rfl, nofun⟩

theorem messageType_length {e : InboundEvent} (h : e.kind ≠ .media) :
    (messageType e).length ≤ 20 := by
  unfold messageType
  cases hkind : e.kind with
  | text | selection | unsupported => dsimp only; decide
  | media => exact absurd hkind h

theorem messageType_length_iff (h : IsTyped d t) : (messageType t).length ≤ 20 ↔
    (d.kind = .media → d.mediaType.truthy = true → ∃ s, d.mediaType = .str s ∧ s.length ≤ 20) := by
  rw [← h.kind]
  by_cases hkind : t.kind = .media
  · obtain ⟨m, hm, htype⟩ := h.mediaType hkind
    simp only [messageType, hkind, htype]
    rcases textParam_truthy hm with ⟨htrue, hstr, hne⟩ | ⟨hfalse, rfl⟩
    · simp [hstr, hne, Json.truthy]
    · exact iff_of_true (by decide) fun _ ht => by rw [hfalse] at ht; cases ht
  · exact iff_of_true (messageType_length hkind) fun h => absurd h hkind

/-! ## The events of the parsers -/

theorem channel_of_parseMessage {cfg : Config} {r : DirectRules} {message : Json}
    {senderId : String} {sentAt : Option Time}
    (h : parseMessage cfg r message senderId sentAt = some d) : d.channel = r.channel := by
  simp only [parseMessage, directEvent, Option.bind_eq_bind] at h
  split at h
  · cases h; rfl
  · obtain ⟨quickReply, -, h⟩ := Option.bind_eq_some_iff.mp h
    split at h
    · cases h; rfl
    · split at h
      · obtain ⟨first, -, h⟩ := Option.bind_eq_some_iff.mp h
        obtain ⟨dict, -, h⟩ := Option.bind_eq_some_iff.mp h
        obtain ⟨payload, -, h⟩ := Option.bind_eq_some_iff.mp h
        cases h; rfl
      · split at h <;> (cases h; rfl)

theorem channel_of_parseDirectItem {cv : Conversions} {r : DirectRules} {item : Json}
    {ownId : String} (h : parseDirectItem cfg cv r item ownId = some (some d)) :
    d.channel = r.channel := by
  simp only [parseDirectItem, Option.bind_eq_bind] at h
  split at h
  · cases h
  · obtain ⟨sender, -, h⟩ := Option.bind_eq_some_iff.mp h
    obtain ⟨message, -, h⟩ := Option.bind_eq_some_iff.mp h
    split at h
    · cases h
    · split at h
      · cases h
      · obtain ⟨sentAt, -, h⟩ := Option.bind_eq_some_iff.mp h
        split at h
        · split at h
          · cases h
          · cases h; rfl
        · obtain ⟨event, hevent, h⟩ := Option.bind_eq_some_iff.mp h
          cases h
          exact channel_of_parseMessage hevent

theorem mem_parseDirect {cv : Conversions} {r : DirectRules} {payload : Json}
    {events : List DirectEvent} (h : parseDirect cfg cv r payload = some events) (hd : d ∈ events) :
    d.routable = true ∧ d.channel = r.channel := by
  simp only [parseDirect, Option.bind_eq_bind, Option.bind_eq_some_iff, Option.some.injEq] at h
  obtain ⟨entries, -, parts, hparts, rfl⟩ := h
  obtain ⟨part, hpart, hd⟩ := List.mem_flatten.mp hd
  obtain ⟨entry, -, hentry⟩ := (mem_mapM_iff hparts _).mp hpart
  split at hentry
  · cases hentry
  · obtain ⟨items, -, hentry⟩ := Option.bind_eq_some_iff.mp hentry
    obtain ⟨parsed, hparsed, hentry⟩ := Option.bind_eq_some_iff.mp hentry
    cases hentry
    obtain ⟨hmem, hroutable⟩ := List.mem_filter.mp hd
    obtain ⟨o, ho, hid⟩ := List.mem_filterMap.mp hmem
    obtain rfl : o = some d := hid
    obtain ⟨item, -, hitem⟩ := (mem_mapM_iff hparsed _).mp ho
    exact ⟨hroutable, channel_of_parseDirectItem hitem⟩

/-- **What is written for a direct message can be stored** exactly if it fits. -/
theorem storableDirect_iff (hr : d.routable = true) (hc : isComment d.channel = false)
    (hw : d.channel ≠ .whatsapp) : StorableDirect cfg d ↔ FitsDirect d := by
  have hnarrow {t : InboundEvent} (ht : IsTyped d t) : Storable cfg d.channel t ↔
      d.senderId.length ≤ 64 ∧ d.providerMessageId.length ≤ 128 ∧
        (d.kind = .media → d.mediaType.truthy = true →
          ∃ s, d.mediaType = .str s ∧ s.length ≤ 20) := by
    have hroutable : t.routable = true := by
      rw [InboundEvent.routable, ht.senderId, ht.providerMessageId]
      exact hr
    rw [storable_iff hw hroutable, ← messageType_length_iff ht]
    constructor
    · rintro ⟨-, hn⟩
      exact ⟨ht.senderId ▸ hn.senderId, ht.providerMessageId ▸ hn.providerMessageId, hn.messageType⟩
    · rintro ⟨hid, hkey, htype⟩
      refine ⟨by rw [ht.senderName]; rfl, ht.senderId ▸ hid, ?_, ht.providerMessageId ▸ hkey, htype,
        fun _ => ht.mediaId ▸ within_none _, ?_⟩
      · rw [ht.senderName]
        exact nofun
      · simp [mayInvite, hc]
  constructor
  · rintro ⟨t, ht, hstorable⟩
    obtain ⟨hid, hkey, htype⟩ := (hnarrow (isTyped ht)).mp hstorable
    obtain ⟨htext, htitle, hmedia⟩ := typed?_isSome_iff.mp (Option.isSome_of_eq_some ht)
    exact ⟨hid, hkey, htext, htitle, htype, fun hkind => (hmedia hkind).2⟩
  · intro h
    have hsome : d.typed?.isSome = true := typed?_isSome_iff.mpr ⟨h.text, h.selectionTitle,
      fun hkind => ⟨fun ht => (h.mediaType hkind ht).imp fun _ hs => hs.1, h.caption hkind⟩⟩
    obtain ⟨t, ht⟩ := Option.isSome_iff_exists.mp hsome
    exact ⟨t, ht, (hnarrow (isTyped ht)).mpr ⟨h.senderId, h.providerMessageId, h.mediaType⟩⟩

/-! ## Comments -/

/-- The comment's values are short enough, the name a string if there is one. -/
structure FitsComment (cfg : Config) (channel : Channel) (e : InboundEvent) : Prop where
  senderId : e.senderId.length ≤ 64
  senderName : e.senderName = .null ∨ ∃ name, e.senderName = .str name ∧ name.length ≤ 255
  providerMessageId : e.providerMessageId.length ≤ 128
  invitation : mayInvite cfg channel = true → (reservationKey e.providerMessageId).length ≤ 128

theorem storableComment_iff {e : InboundEvent} (hc : channel ≠ .whatsapp) (he : IsComment e) :
    Storable cfg channel e ↔ FitsComment cfg channel e := by
  obtain ⟨hroutable, hkind⟩ := he
  have hmedia : e.kind ≠ .media := by
    rcases hkind with hkind | hkind <;> rw [hkind] <;> exact nofun
  have htype := messageType_length hmedia
  rw [storable_iff hc hroutable]
  constructor
  · rintro ⟨hname, hn⟩
    refine ⟨hn.senderId, ?_, hn.providerMessageId, hn.invitation⟩
    cases hjson : e.senderName with
    | null => exact .inl rfl
    | str name => exact .inr ⟨name, rfl, hn.senderName name hjson⟩
    | _ => rw [hjson] at hname; cases hname
  · intro h
    refine ⟨?_, h.senderId, ?_, h.providerMessageId, htype, fun hkind => absurd hkind hmedia,
      h.invitation⟩
    · rcases h.senderName with hnull | ⟨name, hstr, -⟩
      · rw [hnull]; rfl
      · rw [hstr]; rfl
    · intro name hname
      rcases h.senderName with hnull | ⟨name', hstr, hlen⟩
      · rw [hnull] at hname; cases hname
      · rw [hstr] at hname; cases hname; exact hlen

/-- **An event of a parser can be stored** exactly if it fits. -/
theorem parsed_storable_iff (cfg : Config) (cv : Conversions) (payload : Json) :
    (∀ parse, parse = parseMessenger cfg cv ∨ parse = parseInstagramDm cfg cv →
      ∀ events, parse payload = some events → ∀ d ∈ events,
        (StorableDirect cfg d ↔ FitsDirect d)) ∧
    (∀ surface, surface = facebookComments cfg ∨ surface = instagramComments cfg →
      ∀ events, surface.parse payload = some events → ∀ e ∈ events,
        (Storable cfg surface.channel e ↔ FitsComment cfg surface.channel e)) := by
  constructor
  · rintro parse (rfl | rfl) events hparse d hd
    · obtain ⟨hroutable, hchannel⟩ := mem_parseDirect hparse hd
      exact storableDirect_iff hroutable (by rw [hchannel]; rfl) (by rw [hchannel]; exact nofun)
    · obtain ⟨hroutable, hchannel⟩ := mem_parseDirect hparse hd
      exact storableDirect_iff hroutable (by rw [hchannel]; rfl) (by rw [hchannel]; exact nofun)
  · intro surface hs events hparse e he
    have hc : surface.channel ≠ .whatsapp := by rcases hs with rfl | rfl <;> exact nofun
    exact storableComment_iff hc (parsed_isComment hs hparse he)

/-- An attachment sent to the page. -/
def attachmentDelivery (senderId type : String) : Json :=
  .obj [("entry", .arr [.obj [("id", .str "page"), ("messaging", .arr [.obj [
    ("sender", .obj [("id", .str senderId)]),
    ("message", .obj [("mid", .str "m1"), ("attachments", .arr [.obj [("type", .str type)]])])]])]])]

def attachment (senderId type : String) : DirectEvent :=
  { directEvent .messenger senderId "m1" .media none with mediaType := .str type }

theorem attachment_storable :
    parseMessenger Sample.config Sample.conversions (attachmentDelivery "u1" "image") =
      some [attachment "u1" "image"] ∧ StorableDirect Sample.config (attachment "u1" "image") := by
  have hparse : parseMessenger Sample.config Sample.conversions (attachmentDelivery "u1" "image") =
      some [attachment "u1" "image"] := by
    with_unfolding_all rfl
  refine ⟨hparse, (((parsed_storable_iff Sample.config Sample.conversions _).1 _ (.inl rfl) _ hparse _
    (List.mem_singleton.mpr rfl))).mpr ?_⟩
  exact ⟨by decide, by decide, nofun, nofun, fun _ _ => ⟨"image", rfl, by decide⟩, fun _ => nofun⟩

/-- A sender's id of 65 characters, and an attachment's type of 21. -/
theorem long_values_refused :
    let senderId := "10000000000000000000000000000000000000000000000000000000000000065"
    let parse := parseMessenger Sample.config Sample.conversions
    (parse (attachmentDelivery senderId "image") = some [attachment senderId "image"] ∧
      ¬StorableDirect Sample.config (attachment senderId "image")) ∧
    parse (attachmentDelivery "u1" "messenger_shared_reel") =
      some [attachment "u1" "messenger_shared_reel"] ∧
        ¬StorableDirect Sample.config (attachment "u1" "messenger_shared_reel") := by
  refine ⟨⟨by with_unfolding_all rfl, fun h => ?_⟩, by with_unfolding_all rfl, fun h => ?_⟩
  · have hfits := (storableDirect_iff rfl rfl (by decide)).mp h
    exact absurd hfits.senderId (by decide)
  · have hfits := (storableDirect_iff rfl rfl (by decide)).mp h
    obtain ⟨s, hs, hlen⟩ := hfits.mediaType rfl rfl
    cases hs
    exact absurd hlen (by decide)

end Webhook
