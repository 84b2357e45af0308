import WhatsAppBot.Chat.Handlers

/-!
# Composing the handlers

Every argument about the handlers runs a monitor along them. `Serves M cfg channel waId key c I J` is
what such an argument has to supply: the operations that matter to nobody (`Op.isCalm`), the quota
check, the switch to human mode and `_send_once` keep the monitor in `I` until the reply is sent and
in `J` after it. `handleTextMessage_wp` and its three siblings make of it, and of what `receive`
does, a triple for the whole handler.
-/

set_option autoImplicit false

namespace Chat

open Lib Store Bot

/-- Operations that neither claim, reserve, send nor change who answers. -/
def isCalm : Op → Bool
  | .sql s =>
    match s with
    | .touch _ _ | .markWelcomeSent _ _ | .countForUser _ | .recent _ _ | .createAiLog _ => true
    | _ => false
  | .quotaCheck _ _ _ | .send _ => false
  | _ => true

/-- Calm operations that neither ask the model nor use the cache of completions. -/
def isRoutine : Op → Bool
  | .generateReply _ _ | .getCachedGeneration _ | .storeGeneration _ _ => false
  | o => isCalm o

/-- The operations of `touch`. -/
def isTouch : Op → Bool
  | .sql (.touch _ _) | .now => true
  | _ => false

def isConfirm : Op → Bool
  | .sql (.confirmReply _ _ _) => true
  | _ => false

/-- The operations of `context`. -/
def inContext : Op → Bool
  | .sql s =>
    match s with
    | .getByWaId _ | .insertUser _ _ | .getByChannelId _ _ | .insertChannelUser _ _ _
    | .setUserName _ _ | .activeForUser _ | .reopenRecent _ _ _ | .getConversation _
    | .insertConversation _ _ => true
    | _ => false
  | .now | .raise _ => true
  | _ => false

/-- The operations of `get_or_create_active`. -/
def inOpening (userId : Nat) : Op → Bool
  | .sql s =>
    match s with
    | .activeForUser id | .reopenRecent id _ _ | .insertConversation id _ => id = userId
    | .getConversation _ => true
    | _ => false
  | .now => true
  | .raise e => e = .conflict
  | _ => false

theorem inContext_of_inOpening {userId : Nat} {o : Op} (h : inOpening userId o = true) :
    inContext o = true := by
  cases o with
  | sql s => cases s <;> first | rfl | cases h
  | now | raise => rfl
  | _ => cases h

variable {φ : Op → Prop} {α : Type}

theorem only_exec {s : Stmt} (h : φ (.sql s)) : (exec s).Only φ :=
  Prog.Only.call_bind h fun _ => trivial

theorem only_exec_bind {s : Stmt} {f : Unit → BotM α} (h : φ (.sql s)) (hf : (f ()).Only φ) :
    (exec s >>= f).Only φ :=
  (only_exec h).bind fun _ => hf

theorem only_raise {e : Exn} (h : φ (.raise e)) : (raise e : BotM α).Only φ := ⟨h, nofun⟩

theorem only_when {b : Bool} {P : BotM Unit} (h : P.Only φ) : (when b P).Only φ := by
  unfold when
  split
  · exact h
  · trivial

/-! ## The alphabet of the context -/

abbrev OnlyContext (P : BotM α) : Prop := P.Only fun o => inContext o = true

abbrev OnlyOpening (userId : Nat) (P : BotM α) : Prop := P.Only fun o => inOpening userId o = true

theorem renameUser_only (user : User) (name : Option String) :
    OnlyContext (renameUser user name) := by
  unfold renameUser
  split
  · split
    · exact only_exec_bind rfl trivial
    · trivial
  · trivial

theorem getOrCreate_only (waId : String) (name : Option String) :
    OnlyContext (getOrCreate waId name) := by
  refine Prog.Only.call_bind rfl fun user => ?_
  cases user with
  | some user => exact renameUser_only user name
  | none =>
    refine only_exec_bind rfl (Prog.Only.call_bind rfl fun user => ?_)
    cases user with
    | some user => exact renameUser_only user name
    | none => exact only_raise rfl

theorem getOrCreateByChannel_only (channel : Channel) (externalId : String)
    (name : Option String) : OnlyContext (getOrCreateByChannel channel externalId name) := by
  refine Prog.Only.call_bind rfl fun user => ?_
  cases user with
  | some user => exact renameUser_only user name
  | none =>
    refine only_exec_bind rfl (Prog.Only.call_bind rfl fun user => ?_)
    cases user with
    | some user => exact renameUser_only user name
    | none => exact only_raise rfl

theorem resumeRecent_only (userId : Nat) (window : Option Time) :
    OnlyOpening userId (resumeRecent userId window) := by
  cases window with
  | none => exact Prog.only_pure _
  | some window =>
    refine Prog.Only.call_bind rfl fun _ => Prog.Only.call_bind rfl fun _ =>
      Prog.Only.call_bind (decide_eq_true rfl) fun id => ?_
    cases id with
    | some id => exact Prog.only_call.mpr rfl
    | none => exact Prog.only_pure _

theorem createActive_only (userId : Nat) (channel : Channel) :
    OnlyOpening userId (createActive userId channel) := by
  refine Prog.Only.call_bind (decide_eq_true rfl) fun id => ?_
  cases id with
  | some id => exact Prog.only_call.mpr rfl
  | none => exact Prog.only_pure _

theorem openNew_only (userId : Nat) (channel : Channel) :
    OnlyOpening userId (openNew userId channel) := by
  refine (createActive_only userId channel).bind fun created => ?_
  cases created with
  | some c => exact Prog.only_pure _
  | none =>
    refine Prog.Only.call_bind (decide_eq_true rfl) fun c => ?_
    cases c with
    | some c => exact Prog.only_pure _
    | none => exact only_raise rfl

theorem getOrCreateActive_only (userId : Nat) (window : Option Time) (channel : Channel) :
    OnlyOpening userId (getOrCreateActive userId window channel) := by
  refine Prog.Only.call_bind (decide_eq_true rfl) fun c => ?_
  cases c with
  | some c => exact Prog.only_pure _
  | none =>
    refine (resumeRecent_only userId window).bind fun c => ?_
    cases c with
    | some c => exact Prog.only_pure _
    | none => exact openNew_only userId channel

theorem getContext_only (cfg : Config) (waId : String) (name : Option String) :
    OnlyContext (getContext cfg waId name) :=
  (getOrCreate_only waId name).bind fun _ =>
    (getOrCreateActive_only _ _ _).mono fun _ => inContext_of_inOpening

theorem getChannelContext_only (cfg : Config) (channel : Channel) (externalId : String)
    (name : Option String) : OnlyContext (getChannelContext cfg channel externalId name) :=
  (getOrCreateByChannel_only channel externalId name).bind fun _ =>
    (getOrCreateActive_only _ _ _).mono fun _ => inContext_of_inOpening

theorem context_only (cfg : Config) (channel : Channel) (externalId : String)
    (name : Option String) : OnlyContext (context cfg channel externalId name) := by
  unfold context
  split
  · exact getContext_only cfg externalId name
  · exact getChannelContext_only cfg channel externalId name

/-! ## Calm helpers -/

abbrev OnlyCalm (P : BotM α) : Prop := P.Only fun o => isCalm o = true

abbrev OnlyRoutine (P : BotM α) : Prop := P.Only fun o => isRoutine o = true

theorem isCalm_of_isRoutine {o : Op} (h : isRoutine o = true) : isCalm o = true := by
  cases o with
  | generateReply | getCachedGeneration | storeGeneration => cases h
  | _ => exact h

theorem OnlyRoutine.calm {P : BotM α} (h : OnlyRoutine P) : OnlyCalm P :=
  Prog.Only.mono h fun _ => isCalm_of_isRoutine

theorem touch_onlyTouch (cfg : Config) (conversationId : Nat) (outgoing : Bool) :
    (touch cfg conversationId outgoing).Only fun o => isTouch o = true := by
  unfold touch
  split
  · trivial
  · split
    · trivial
    · exact Prog.Only.call_bind rfl fun _ => only_exec rfl

theorem isCalm_of_isTouch {o : Op} (h : isTouch o = true) : isCalm o = true := by
  cases o with
  | sql s => cases s <;> first | rfl | cases h
  | now => rfl
  | _ => cases h

theorem touch_only (cfg : Config) (conversationId : Nat) (outgoing : Bool) :
    OnlyCalm (touch cfg conversationId outgoing) :=
  (touch_onlyTouch cfg conversationId outgoing).mono fun _ => isCalm_of_isTouch

theorem announce_routine (conversationId : Nat) : OnlyRoutine (announce conversationId) :=
  Prog.only_call.mpr rfl

theorem announce_only (conversationId : Nat) : OnlyCalm (announce conversationId) :=
  (announce_routine conversationId).calm

theorem markRead_routine (channel : Channel) (waMessageId : String) :
    OnlyRoutine (markRead channel waMessageId) := by
  unfold markRead
  split
  · exact Prog.only_call.mpr rfl
  · trivial

theorem markRead_only (channel : Channel) (waMessageId : String) :
    OnlyCalm (markRead channel waMessageId) :=
  (markRead_routine channel waMessageId).calm

theorem recordWelcome_routine (conversationId : Nat) : OnlyRoutine (recordWelcome conversationId) :=
  Prog.Only.call_bind rfl fun _ => only_exec_bind rfl (Prog.only_call.mpr rfl)

theorem recordWelcome_only (conversationId : Nat) : OnlyCalm (recordWelcome conversationId) :=
  (recordWelcome_routine conversationId).calm

theorem shouldWelcome_routine (cfg : Config) (c : Conversation) :
    OnlyRoutine (shouldWelcome cfg c) := by
  unfold shouldWelcome
  repeat' split
  · trivial
  · trivial
  · trivial
  · trivial
  · exact Prog.Only.call_bind rfl fun _ => trivial

theorem shouldWelcome_only (cfg : Config) (c : Conversation) : OnlyCalm (shouldWelcome cfg c) :=
  (shouldWelcome_routine cfg c).calm

theorem buildHistory_routine (cfg : Config) (conversationId : Nat) :
    OnlyRoutine (buildHistory cfg conversationId) := by
  refine Prog.Only.call_bind rfl fun messages => ?_
  cases historyOf cfg messages with
  | some history => trivial
  | none => exact only_raise rfl

theorem buildHistory_only (cfg : Config) (conversationId : Nat) :
    OnlyCalm (buildHistory cfg conversationId) :=
  (buildHistory_routine cfg conversationId).calm

theorem cachedFor_only (replyTo : Option String) : OnlyCalm (cachedFor replyTo) := by
  unfold cachedFor
  split
  · exact Prog.only_call.mpr rfl
  · trivial

theorem storeFor_only (replyTo : Option String) (g : Generation) :
    OnlyCalm (storeFor replyTo g) := by
  unfold storeFor
  split
  · exact Prog.only_call.mpr rfl
  · trivial

theorem clearFor_routine (replyTo : Option String) : OnlyRoutine (clearFor replyTo) := by
  unfold clearFor
  split
  · exact Prog.only_call.mpr rfl
  · trivial

theorem clearFor_only (replyTo : Option String) : OnlyCalm (clearFor replyTo) :=
  (clearFor_routine replyTo).calm

theorem retrieveFor_routine (cfg : Config) (query : String) :
    OnlyRoutine (retrieveFor cfg query) := by
  unfold retrieveFor
  split
  · exact Prog.only_call.mpr rfl
  · trivial

theorem retrieveFor_only (cfg : Config) (query : String) : OnlyCalm (retrieveFor cfg query) :=
  (retrieveFor_routine cfg query).calm

theorem generate_only (cfg : Config) (name : Option String) (history : List Turn)
    (retrievalQuery replyTo : Option String) (welcome generalQuestion : Bool) :
    OnlyCalm (generate cfg name history retrievalQuery replyTo welcome generalQuestion) := by
  refine (retrieveFor_only cfg _).bind fun _ => Prog.Only.call_bind rfl fun _ =>
    Prog.Only.call_bind rfl fun result => ?_
  cases result with
  | error message => trivial
  | ok result =>
    exact (storeFor_only replyTo _).bind fun _ => Prog.Only.call_bind rfl fun _ => trivial

theorem draftFor_only (cfg : Config) (name : Option String) (history : List Turn)
    (retrievalQuery replyTo : Option String) (welcome generalQuestion : Bool) :
    OnlyCalm (draftFor cfg name history retrievalQuery replyTo welcome generalQuestion) := by
  refine (cachedFor_only replyTo).bind fun cached => ?_
  cases cached with
  | some g => trivial
  | none => exact generate_only cfg name history retrievalQuery replyTo welcome generalQuestion

theorem logDraft_routine (cfg : Config) (conversationId : Nat) (d : Draft) :
    OnlyRoutine (logDraft cfg conversationId d) := by
  unfold logDraft
  split
  · exact only_exec rfl
  · exact only_exec rfl
  · trivial

theorem logDraft_only (cfg : Config) (conversationId : Nat) (d : Draft) :
    OnlyCalm (logDraft cfg conversationId d) :=
  (logDraft_routine cfg conversationId d).calm

/-! ## The alphabet of a claim -/

/-- The operations of `receive` and of `record_without_answering`. -/
def inReceive (o : Op) : Bool :=
  isCalm o || inContext o ||
  match o with
  | .sql (.claimInbound _ _ _ _ _) => true
  | _ => false

theorem inReceive_of_isCalm {o : Op} (h : isCalm o = true) : inReceive o = true := by
  simp [inReceive, h]

theorem inReceive_of_inContext {o : Op} (h : inContext o = true) : inReceive o = true := by
  simp [inReceive, h]

section

variable {cfg : Config} {channel : Channel} {waId key type : String} {name content mediaId : Option String}

/-- `receive` does what the context and the idle timer need, and claims the message. -/
theorem receive_only_of (hcontext : (context cfg channel waId name).Only φ)
    (htouch : ∀ id, (touch cfg id false).Only φ)
    (hclaim : ∀ id, φ (.sql (.claimInbound id key type content mediaId))) (hrollback : φ .rollback)
    (hcommit : φ .commit) : (receive cfg channel waId name key type content mediaId).Only φ := by
  refine hcontext.bind fun c => Prog.Only.call_bind (hclaim c.id) fun claimed => ?_
  cases claimed with
  | none => exact Prog.Only.call_bind hrollback fun _ => trivial
  | some id => exact (htouch c.id).bind fun _ => Prog.Only.call_bind hcommit fun _ => trivial

/-- A reply that takes its slot first does what the idle timer needs, and reserves, sends and confirms. -/
theorem sendOnce_only_of {id : Nat} {text : String} {form : Form} (htouch : (touch cfg id true).Only φ)
    (hreserve : φ (.sql (.reserveReply id key text "text")))
    (hsend : φ (.send ⟨channel, waId, text, form, id, .reply (some key)⟩))
    (hconfirm : ∀ r outId status, φ (.sql (.confirmReply r outId status))) (hrollback : φ .rollback)
    (hcommit : φ .commit) (hraise : ∀ e, φ (.raise e)) :
    (sendOnce cfg channel waId id text (some key) form).Only φ := by
  have hdone : ∀ b, (commit >>= fun _ => pure b : BotM Bool).Only φ := fun b =>
    Prog.Only.call_bind hcommit fun _ => trivial
  refine Prog.Only.call_bind hreserve fun reserved => ?_
  cases reserved with
  | none => exact Prog.Only.call_bind hrollback fun _ => trivial
  | some reserved =>
    refine htouch.bind fun _ => Prog.Only.call_bind hcommit fun _ =>
      Prog.Only.call_bind hsend fun wire => ?_
    cases wire.result with
    | failed => exact only_exec_bind (hconfirm _ _ _) (hdone false)
    | broken => exact only_raise (hraise _)
    | sent outId => exact only_exec_bind (hconfirm _ _ _) (htouch.bind fun _ => hdone true)

end

theorem receive_only (cfg : Config) (channel : Channel) (waId : String) (name : Option String)
    (key type : String) (content mediaId : Option String) :
    (receive cfg channel waId name key type content mediaId).Only fun o => inReceive o = true :=
  receive_only_of ((context_only cfg channel waId name).mono fun _ => inReceive_of_inContext)
    (fun id => (touch_only cfg id false).mono fun _ => inReceive_of_isCalm) (fun _ => rfl) rfl rfl

theorem recordWithoutAnswering_only (cfg : Config) (waId : String) (name : Option String)
    (key type : String) (content : Option String) :
    (recordWithoutAnswering cfg waId name key type content).Only fun o => inReceive o = true := by
  refine ((getContext_only cfg waId name).mono fun _ => inReceive_of_inContext).bind
    fun c => Prog.Only.call_bind rfl fun r => ?_
  cases r with
  | none => exact Prog.only_call.mpr rfl
  | some r => exact Prog.Only.call_bind rfl fun _ => Prog.only_call.mpr rfl

/-! ## Serving one message -/

variable {A : Type}

/-- The monitor does not see the idle timer being reset. -/
def IgnoresTouch (M : Monitor botSig A) : Prop :=
  ∀ a o, isTouch o = true → M.ok a o ∧ ∀ r, M.next a o r = a

theorem touch_wp {M : Monitor botSig A} (hM : IgnoresTouch M) {cfg : Config} {id : Nat}
    {outgoing : Bool} {Q : Unit → A → Prop} {a : A} (h : Q () a) :
    (touch cfg id outgoing).wp M Q a := by
  refine Prog.wp_mono ((touch_onlyTouch cfg id outgoing).wp rfl fun b o hb ho => ?_)
    (Q := fun _ b => b = a) fun _ b hb => hb ▸ h
  exact ⟨(hM b o ho).1, fun r _ => ((hM b o ho).2 r).trans hb⟩

/-- **`_send_once` answering `key`**: what the monitor has to allow around the reservation, the
commit and the send. -/
theorem sendOnce_wp {M : Monitor botSig A} {J : A → Prop} (htouch : IgnoresTouch M)
    (hafter : ∀ {a o}, J a → (isCalm o = true ∨ isConfirm o = true) →
      M.ok a o ∧ ∀ r, M.may o r → J (M.next a o r))
    {cfg : Config} {channel : Channel} {waId key text : String} {id : Nat} {form : Form} {a : A}
    (hok : M.ok a (.sql (.reserveReply id key text "text")))
    (hnone : M.may (.sql (.reserveReply id key text "text")) (none : Option Nat) →
      J (M.next a (.sql (.reserveReply id key text "text")) (none : Option Nat)))
    (hsome : ∀ n : Nat, M.may (.sql (.reserveReply id key text "text")) (some n) →
      let b := M.next a (.sql (.reserveReply id key text "text")) (some n)
      M.ok b .commit ∧
        M.ok (M.next b .commit ()) (.send ⟨channel, waId, text, form, id, .reply (some key)⟩) ∧
        ∀ wire, J (M.next (M.next b .commit ())
          (.send ⟨channel, waId, text, form, id, .reply (some key)⟩) wire)) :
    (sendOnce cfg channel waId id text (some key) form).wp M (fun _ => J) a := by
  have hcalm : ∀ {α : Type} {P : BotM α} {b : A},
      (P.Only fun o => isCalm o = true ∨ isConfirm o = true) → J b → P.wp M (fun _ => J) b :=
    fun hP hb => hP.wp hb fun _ _ hb ho => hafter hb ho
  refine Prog.wp_call_bind hok fun r hr => ?_
  cases r with
  | none => exact hcalm (Prog.Only.call_bind (.inl rfl) fun _ => trivial) (hnone hr)
  | some n =>
    obtain ⟨hcommit, hsend, hJ⟩ := hsome n hr
    dsimp only
    rw [Prog.wp_bind]
    refine touch_wp htouch (Prog.wp_call_bind hcommit fun _ _ =>
      Prog.wp_call_bind hsend fun wire _ => ?_)
    have hb := hJ wire
    cases wire.result with
    | failed =>
      exact hcalm (only_exec_bind (.inr rfl) (Prog.Only.call_bind (.inl rfl) fun _ => trivial)) hb
    | broken => exact hcalm (only_raise (.inl rfl)) hb
    | sent outId =>
      exact hcalm (only_exec_bind (.inr rfl) (((touch_only cfg id true).mono fun _ => .inl).bind
        fun _ => Prog.Only.call_bind (.inl rfl) fun _ => trivial)) hb

/-- What `_begin_handoff` writes to the row that was read as `c`. -/
def IsHandoff (c : Conversation) (p : ModePatch) : Prop :=
  ∃ tag handoffAt activity, p = modePatch c .human none tag (some handoffAt) activity

theorem IsHandoff.mode {c : Conversation} {p : ModePatch} (h : IsHandoff c p)
    (hc : c.mode ≠ .human) : p.mode = some .human := by
  obtain ⟨tag, handoffAt, activity, rfl⟩ := h
  simp [modePatch, hc]

/-- `I` holds until the reply is sent, `J` after it. -/
structure Serves (M : Monitor botSig A) (cfg : Config) (channel : Channel) (waId key : String)
    (c : Conversation) (I J : A → Prop) : Prop where
  calm : ∀ {a o}, I a → isCalm o = true → M.ok a o ∧ ∀ r, M.may o r → I (M.next a o r)
  calmAfter : ∀ {a o}, J a → isCalm o = true → M.ok a o ∧ ∀ r, M.may o r → J (M.next a o r)
  le : ∀ {a}, I a → J a
  quota : ∀ {a text}, I a → M.ok a (.quotaCheck waId key text) ∧
    ∀ r, M.may (.quotaCheck waId key text) r → I (M.next a (.quotaCheck waId key text) r)
  human : ∀ {a p}, c.mode ≠ .human → I a → IsHandoff c p →
    M.ok a (.sql (.flushMode c.id p)) ∧ ∀ r, M.may (.sql (.flushMode c.id p)) r →
      I (M.next a (.sql (.flushMode c.id p)) r)
  send : ∀ {a text form}, c.mode ≠ .human → I a →
    (sendOnce cfg channel waId c.id text (some key) form).wp M (fun _ => J) a

namespace Serves

variable {M : Monitor botSig A} {cfg : Config} {channel : Channel} {waId key : String}
  {c : Conversation} {I J : A → Prop} {a : A}

theorem calm_wp (hs : Serves M cfg channel waId key c I J) {P : BotM α} (hP : OnlyCalm P) (ha : I a) :
    P.wp M (fun _ => I) a :=
  hP.wp ha fun _ _ hb ho => hs.calm hb ho

theorem calmAfter_wp (hs : Serves M cfg channel waId key c I J) {P : BotM α} (hP : OnlyCalm P)
    (ha : J a) : P.wp M (fun _ => J) a :=
  hP.wp ha fun _ _ hb ho => hs.calmAfter hb ho

/-- Calm operations, then the rest. -/
theorem calm_bind (hs : Serves M cfg channel waId key c I J) {β : Type} {P : BotM α}
    {f : α → BotM β} {Q : β → A → Prop} (hP : OnlyCalm P) (ha : I a)
    (hf : ∀ x b, I b → (f x).wp M Q b) : (P >>= f).wp M Q a := by
  rw [Prog.wp_bind]
  exact Prog.wp_mono (hs.calm_wp hP ha) hf

theorem sendFixed_wp (hs : Serves M cfg channel waId key c I J) (hc : c.mode ≠ .human) (ha : I a)
    (text : String) (welcome : Bool) (form : Form) :
    (sendFixed cfg channel waId c.id text (some key) welcome form).wp M (fun _ => J) a := by
  unfold sendFixed
  rw [Prog.wp_bind]
  refine Prog.wp_mono (hs.send hc ha) fun sent b hb => ?_
  split
  · exact hs.calmAfter_wp ((only_when (recordWelcome_only _)).bind fun _ => announce_only _) hb
  · exact hb

theorem setMode_wp (hs : Serves M cfg channel waId key c I J) (hc : c.mode ≠ .human) (ha : I a)
    (tag : Option String) :
    (setMode c .human none tag).wp M (fun d b => d.id = c.id ∧ I b) a := by
  refine Prog.wp_call_bind (hs.calm ha rfl).1 fun t ht => ?_
  have hb := (hs.calm ha rfl).2 t ht
  refine Prog.wp_call_bind (hs.calm hb rfl).1 fun t' ht' => ?_
  have hd := (hs.calm hb rfl).2 t' ht'
  have hp : IsHandoff c (modePatch c .human none tag (some t) t') := ⟨tag, t, t', rfl⟩
  refine Prog.wp_call_bind (hs.human hc hd hp).1 fun r hr => ?_
  exact ⟨ConversationUpdate.apply_id _ _, (hs.human hc hd hp).2 r hr⟩

theorem beginHandoff_wp (hs : Serves M cfg channel waId key c I J) (hc : c.mode ≠ .human) (ha : I a)
    (ack reason : String) (tag : Option String) :
    (beginHandoff cfg channel waId c ack reason tag (some key)).wp M (fun _ => J) a := by
  unfold beginHandoff
  rw [Prog.wp_bind]
  refine Prog.wp_mono (hs.setMode_wp hc ha tag) fun d b hb => ?_
  obtain ⟨hid, hb⟩ := hb
  refine hs.calm_bind (Prog.only_call.mpr rfl) hb fun _ b hb =>
    hs.calm_bind (Prog.only_call.mpr rfl) hb fun _ b hb => ?_
  rw [hid, Prog.wp_bind]
  exact Prog.wp_mono (hs.send hc hb) fun _ b hb => hs.calmAfter_wp (announce_only _) hb

theorem handledByHuman_wp (hs : Serves M cfg channel waId key c I J) (ha : I a)
    (text : Option String) :
    (handledByHuman cfg channel waId c text (some key)).wp M
      (fun handled b => if handled then J b else c.mode ≠ .human ∧ I b) a := by
  unfold handledByHuman
  split
  · exact hs.le ha
  · rename_i hc
    split
    · rw [Prog.wp_bind]
      exact Prog.wp_mono (hs.beginHandoff_wp hc ha _ _ _) fun _ b hb => hb
    · split
      · rw [Prog.wp_bind]
        exact Prog.wp_mono (hs.beginHandoff_wp hc ha _ _ _) fun _ b hb => hb
      · exact ⟨hc, ha⟩

theorem withinQuota_wp (hs : Serves M cfg channel waId key c I J) (hc : c.mode ≠ .human) (ha : I a)
    (text : Option String) :
    (withinQuota cfg channel waId c.id key text).wp M
      (fun allowed b => if allowed then I b else J b) a := by
  refine Prog.wp_call_bind (hs.quota ha).1 fun d hd => ?_
  have hb : I _ := (hs.quota ha).2 d hd
  split
  · exact hb
  · rw [Prog.wp_bind, when]
    split
    · exact Prog.wp_mono (hs.sendFixed_wp hc hb _ _ _) fun _ b hb => hb
    · exact hs.le hb

theorem generateAndSend_wp (hs : Serves M cfg channel waId key c I J) (hc : c.mode ≠ .human) (ha : I a)
    (name : Option String) (history : List Turn) (retrievalQuery : Option String)
    (welcome generalQuestion : Bool) :
    (generateAndSend cfg channel waId name c.id history retrievalQuery (some key) welcome
      generalQuestion).wp M (fun _ => J) a := by
  unfold generateAndSend
  refine hs.calm_bind (draftFor_only _ _ _ _ _ _ _) ha fun draft b hb =>
    hs.calm_bind (logDraft_only _ _ _) hb fun _ b hb => ?_
  rw [Prog.wp_bind]
  refine Prog.wp_mono (hs.send hc hb) fun sent b hb => ?_
  split
  · exact hs.calmAfter_wp ((only_when (recordWelcome_only _)).bind fun _ =>
      (clearFor_only _).bind fun _ => announce_only _) hb
  · exact hb

theorem answerText_wp (hs : Serves M cfg channel waId key c I J) (hc : c.mode ≠ .human) (ha : I a)
    (name : Option String) (text : String) :
    (answerText cfg channel waId name key text c).wp M (fun _ => J) a := by
  unfold answerText
  refine hs.calm_bind (shouldWelcome_only _ _) ha fun owed b hb => ?_
  dsimp only
  split
  · exact hs.sendFixed_wp hc hb _ _ _
  · split
    · exact hs.sendFixed_wp hc hb _ _ _
    · split
      · exact hs.sendFixed_wp hc hb _ _ _
      · exact hs.calm_bind (buildHistory_only _ _) hb fun history b hb =>
          hs.generateAndSend_wp hc hb _ _ _ _ _

theorem answerSelection_wp (hs : Serves M cfg channel waId key c I J) (hc : c.mode ≠ .human)
    (ha : I a) (name : Option String) (selectionId label : String) :
    (answerSelection cfg channel waId name key selectionId label c).wp M (fun _ => J) a := by
  unfold answerSelection
  refine hs.calm_bind (shouldWelcome_only _ _) ha fun first b hb => ?_
  split
  · exact hs.beginHandoff_wp hc hb _ _ _
  · split
    · exact hs.beginHandoff_wp hc hb _ _ _
    · split
      · exact hs.sendFixed_wp hc hb _ _ _
      · exact hs.calm_bind (buildHistory_only _ _) hb fun history b hb =>
          hs.generateAndSend_wp hc hb _ _ _ _ _

end Serves

/-! ## The handlers -/

variable {M : Monitor botSig A} {cfg : Config} {channel : Channel} {waId key : String}
  {name : Option String} {K J : A → Prop} {I : Conversation → A → Prop} {a : A}

/-- The human gate, then the rest of the handler when the bot still answers. -/
theorem Serves.gate {c : Conversation} (hs : Serves M cfg channel waId key c (I c) J)
    {text : Option String} {P : BotM Unit} (ha : I c a)
    (hP : c.mode ≠ .human → ∀ b, I c b → P.wp M (fun _ => J) b) :
    (handledByHuman cfg channel waId c text (some key) >>= fun handled =>
      if handled = true then pure () else P).wp M (fun _ => J) a := by
  rw [Prog.wp_bind]
  refine Prog.wp_mono (hs.handledByHuman_wp ha text) fun handled b hb => ?_
  cases handled with
  | true => exact hb
  | false => exact hP hb.1 b hb.2

theorem Serves.quotaGate {c : Conversation} (hs : Serves M cfg channel waId key c (I c) J)
    {text : Option String} {P : BotM Unit} (hc : c.mode ≠ .human) (ha : I c a)
    (hP : ∀ b, I c b → P.wp M (fun _ => J) b) :
    (withinQuota cfg channel waId c.id key text >>= fun allowed =>
      if allowed = true then P else pure ()).wp M (fun _ => J) a := by
  rw [Prog.wp_bind]
  refine Prog.wp_mono (hs.withinQuota_wp hc ha text) fun allowed b hb => ?_
  cases allowed with
  | true => exact hP b hb
  | false => exact hb

/-- `receive` leads to `K` for a duplicate and to `I c` for a fresh message in conversation `c`. -/
abbrev ReceivesTo (M : Monitor botSig A) (K : A → Prop) (I : Conversation → A → Prop)
    (P : BotM (Option Conversation)) (a : A) : Prop :=
  P.wp M (fun r b => match r with | none => K b | some c => I c b) a

section

variable (hserves : ∀ c, Serves M cfg channel waId key c (I c) J) (hdone : ∀ b, J b → K b)
include hdone

theorem received_wp {type : String} {content mediaId : Option String}
    {f : Option Conversation → BotM Unit}
    (hreceive : ReceivesTo M K I (receive cfg channel waId name key type content mediaId) a)
    (hnone : f none = pure ()) (hsome : ∀ c b, I c b → (f (some c)).wp M (fun _ => J) b) :
    (receive cfg channel waId name key type content mediaId >>= f).wp M (fun _ => K) a := by
  rw [Prog.wp_bind]
  refine Prog.wp_mono hreceive fun r b hb => ?_
  cases r with
  | none => rw [hnone]; exact hb
  | some c => exact Prog.wp_mono (hsome c b hb) fun _ b h => hdone b h

include hserves

theorem handleText_wp {text : String}
    (hr : ReceivesTo M K I (receive cfg channel waId name key "text" (some text) none) a) :
    (handleTextMessage cfg channel waId name key text).wp M (fun _ => K) a := by
  refine received_wp hdone hr rfl fun c b hb => ?_
  have hs := hserves c
  refine hs.calm_bind (announce_only _) hb fun _ b hb =>
    hs.calm_bind (markRead_only _ _) hb fun _ b hb => hs.gate hb fun hc b hb =>
      hs.quotaGate hc hb fun b hb => hs.answerText_wp hc hb _ _

theorem handleInteractive_wp {selectionId title : String}
    (hr : ReceivesTo M K I (receive cfg channel waId name key "interactive"
      (some (Menu.labelFor selectionId title)) none) a) :
    (handleInteractiveMessage cfg channel waId name key selectionId title).wp M (fun _ => K) a := by
  refine received_wp hdone hr rfl fun c b hb => ?_
  have hs := hserves c
  refine hs.calm_bind (announce_only _) hb fun _ b hb =>
    hs.calm_bind (markRead_only _ _) hb fun _ b hb => hs.gate hb fun hc b hb =>
      hs.quotaGate hc hb fun b hb => hs.answerSelection_wp hc hb _ _ _

theorem handleMedia_wp {type : String} {mediaId caption : Option String}
    (hr : ReceivesTo M K I (receive cfg channel waId name key type (some (captionOr type caption))
      mediaId) a) :
    (handleMediaMessage cfg channel waId name key type mediaId caption).wp M (fun _ => K) a := by
  refine received_wp hdone hr rfl fun c b hb => ?_
  have hs := hserves c
  refine hs.calm_bind (announce_only _) hb fun _ b hb =>
    hs.calm_bind (markRead_only _ _) hb fun _ b hb => hs.gate hb fun hc b hb =>
      hs.quotaGate hc hb fun b hb => hs.calm_bind (shouldWelcome_only _ _) hb fun _ b hb =>
        hs.calm_bind (buildHistory_only _ _) hb fun _ b hb =>
          hs.generateAndSend_wp hc hb _ _ _ _ _

theorem handleUnsupported_wp {type : String}
    (hr : ReceivesTo M K I (receive cfg channel waId name key type (some (receivedText type)) none) a) :
    (handleUnsupportedMessage cfg channel waId name key type).wp M (fun _ => K) a := by
  refine received_wp hdone hr rfl fun c b hb => ?_
  have hs := hserves c
  refine hs.calm_bind (announce_only _) hb fun _ b hb => hs.gate hb fun hc b hb =>
    hs.calm_bind (shouldWelcome_only _ _) hb fun _ b hb => hs.sendFixed_wp hc hb _ _ _

end

/-- What a handler needs: `receive` leads from `K` back to it for a duplicate and to `I c` for a
fresh message in conversation `c`, and that message is served within `I c` and `J`. -/
structure Handles (M : Monitor botSig A) (cfg : Config) (channel : Channel) (waId : String)
    (name : Option String) (key : String) (K : A → Prop) (I : Conversation → A → Prop)
    (J : A → Prop) : Prop where
  receive : ∀ {a type content mediaId}, K a →
    (receive cfg channel waId name key type content mediaId).wp M
      (fun r b => match r with | none => K b | some c => I c b) a
  serves : ∀ c, Serves M cfg channel waId key c (I c) J
  done : ∀ {a}, J a → K a

namespace Handles

variable (hh : Handles M cfg channel waId name key K I J) (ha : K a)
include hh ha

theorem handleTextMessage_wp (text : String) :
    (handleTextMessage cfg channel waId name key text).wp M (fun _ => K) a :=
  handleText_wp hh.serves (fun _ => hh.done) (hh.receive ha)

theorem handleInteractiveMessage_wp (selectionId title : String) :
    (handleInteractiveMessage cfg channel waId name key selectionId title).wp M (fun _ => K) a :=
  handleInteractive_wp hh.serves (fun _ => hh.done) (hh.receive ha)

theorem handleMediaMessage_wp (type : String) (mediaId caption : Option String) :
    (handleMediaMessage cfg channel waId name key type mediaId caption).wp M (fun _ => K) a :=
  handleMedia_wp hh.serves (fun _ => hh.done) (hh.receive ha)

theorem handleUnsupportedMessage_wp (type : String) :
    (handleUnsupportedMessage cfg channel waId name key type).wp M (fun _ => K) a :=
  handleUnsupported_wp hh.serves (fun _ => hh.done) (hh.receive ha)

end Handles

end Chat
