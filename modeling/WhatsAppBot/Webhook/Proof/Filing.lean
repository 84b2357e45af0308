import WhatsAppBot.Store.Proof.Active
import WhatsAppBot.Webhook.Proof.Tasks

/-!
# What a transaction opens and files

`filingMonitor` follows a process through one transaction: it looks up or opens the conversation of
a message and stores the message there, or it closes sessions. `filing_discipline`: every task keeps
to that. A transaction opens at most one conversation, closes none besides it, and files a message
only in the conversation it looked up.
-/

set_option autoImplicit false

namespace Webhook

open Lib Store Bot Chat

/-- What the open transaction has done. -/
inductive Filing where
  | fresh
  /-- It has the conversation of a message. -/
  | loaded (c : Nat)
  /-- It stored the message in it. -/
  | filed (c : Nat)
  | closing
  /-- It did not find the row it had just opened. -/
  | missed
  deriving DecidableEq

namespace Filing

def look (a : Filing) (x : Option Conversation) : Filing :=
  match a, x with
  | fresh, some x => loaded x.id
  | a, _ => a

def opened (a : Filing) : Option Nat → Filing
  | some c => loaded c
  | none => a

def refresh (a : Filing) (id : Nat) (x : Option Conversation) : Filing :=
  if a = loaded id ∧ x = none then missed else a

def file (a : Filing) (c : Nat) : Option Nat → Filing
  | some _ => filed c
  | none => a

/-- Between two messages. -/
def Rests (a : Filing) : Prop := a = fresh ∨ a = missed

/-- It has the conversation. -/
def Has (a : Filing) (c : Nat) : Prop := a = loaded c ∨ a = filed c

end Filing

def filingMonitor : Monitor botSig Filing where
  ok a o := a = .missed ∨
    match o with
    | .sql (.reopenRecent _ _ _) | .sql (.reopen _ _) | .sql (.insertConversation _ _) => a = .fresh
    | .sql (.close _ _) => a = .fresh ∨ a = .closing
    | .sql (.claimInbound c _ _ _ _) => a = .loaded c
    | _ => True
  next a o r := if a = .missed then .missed else
    match o, r with
    | .sql (.activeForUser _), r => a.look r
    | .sql (.reopenRecent _ _ _), r => a.opened r
    | .sql (.reopen _ _), r => a.opened r
    | .sql (.insertConversation _ _), r => a.opened r
    | .sql (.getConversation id), r => a.refresh id r
    | .sql (.claimInbound c _ _ _ _), r => a.file c r
    | .sql (.close _ _), _ => .closing
    | .commit, _ | .rollback, _ => .fresh
    | _, _ => a
  may
    | .sql (.getConversation id), r => ∀ x, r = some x → Conversation.id x = id
    | _, _ => True

/-- The operations the monitor does not look at. -/
def isUnfiled : Op → Bool
  | .sql s =>
    match s with
    | .activeForUser _ | .reopenRecent _ _ _ | .reopen _ _ | .insertConversation _ _
    | .getConversation _ | .claimInbound _ _ _ _ _ | .close _ _ => false
    | _ => true
  | .commit | .rollback => false
  | _ => true

/-- The transaction ends. -/
def endsTx : Op → Bool
  | .commit | .rollback => true
  | _ => false

variable {a : Filing} {o : Op} {α : Type} {cfg : Config}

theorem unfiled_same (h : isUnfiled o = true) :
    filingMonitor.ok a o ∧ ∀ r, filingMonitor.next a o r = a := by
  refine ⟨?_, fun r => ?_⟩
  · cases o with
    | sql s => cases s <;> first | exact .inr trivial | cases h
    | _ => exact .inr trivial
  · by_cases ha : a = .missed
    · exact (if_pos ha).trans ha.symm
    · refine (if_neg ha).trans ?_
      cases o with
      | sql s => cases s <;> first | rfl | cases h
      | commit | rollback => cases h
      | _ => rfl

theorem missed_wp (P : BotM α) : P.wp filingMonitor (fun _ b => b = .missed) .missed := by
  induction P with
  | ret x => rfl
  | op o k ih => exact ⟨.inl rfl, fun r _ => ih r⟩

/-- A process that did not find its row may do anything. -/
theorem missed_rests {P : BotM α} {Q : α → Filing → Prop} (hQ : ∀ x, Q x .missed) :
    P.wp filingMonitor Q .missed :=
  Prog.wp_mono (missed_wp P) fun x _ hb => hb ▸ hQ x

theorem rests_op (ho : isUnfiled o = true ∨ endsTx o = true) (ha : a.Rests) :
    filingMonitor.ok a o ∧ ∀ r, (filingMonitor.next a o r).Rests := by
  rcases ha with rfl | rfl
  · rcases ho with ho | ho
    · exact ⟨(unfiled_same ho).1, fun r => .inl ((unfiled_same ho).2 r)⟩
    · cases o with
      | commit | rollback => exact ⟨.inr trivial, fun _ => .inl rfl⟩
      | _ => cases ho
  · exact ⟨.inl rfl, fun _ => .inr rfl⟩

/-- Between two messages the monitor looks only for the end of the transaction. -/
theorem rests_wp {P : BotM α} (hP : P.Only fun o => isUnfiled o = true ∨ endsTx o = true)
    (ha : a.Rests) : P.wp filingMonitor (fun _ => Filing.Rests) a :=
  hP.wp ha fun _ _ hb ho => ⟨(rests_op ho hb).1, fun r _ => (rests_op ho hb).2 r⟩

theorem unfiled_bind {β : Type} {P : BotM α} {f : α → BotM β} {Q : β → Filing → Prop}
    (hP : P.Only fun o => isUnfiled o = true) (hf : ∀ x, (f x).wp filingMonitor Q a) :
    (P >>= f).wp filingMonitor Q a :=
  hP.wp_bind (fun _ => unfiled_same) hf

/-! ## The conversation of a message -/

/-- What comes back with a conversation has it, what comes back without one rests. -/
def Comes (c : Option Conversation) (a : Filing) : Prop :=
  match c with
  | none => a.Rests
  | some c => a = .loaded c.id ∨ a = .missed

/-- The row just opened, read back. -/
theorem refetch_wp (id : Nat) : (getConversation id).wp filingMonitor Comes (.loaded id) := by
  refine ⟨.inr trivial, fun r hr => ?_⟩
  cases r with
  | none => exact .inr (by simp [filingMonitor, Filing.refresh])
  | some x =>
    obtain rfl : x.id = id := hr x rfl
    exact .inl (by simp [filingMonitor, Filing.refresh])

theorem renameUser_unfiled (user : User) (name : Option String) :
    (renameUser user name).Only fun o => isUnfiled o = true := by
  unfold renameUser
  split
  · split
    · exact only_exec_bind rfl (Prog.only_pure _)
    · exact Prog.only_pure _
  · exact Prog.only_pure _

theorem getOrCreate_unfiled (waId : String) (name : Option String) :
    (getOrCreate waId name).Only fun o => isUnfiled o = true := by
  refine Prog.Only.call_bind rfl fun user => ?_
  cases user with
  | some user => exact renameUser_unfiled user name
  | none =>
    refine only_exec_bind rfl (Prog.Only.call_bind rfl fun user => ?_)
    cases user with
    | some user => exact renameUser_unfiled user name
    | none => exact only_raise rfl

theorem getOrCreateByChannel_unfiled (channel : Channel) (externalId : String)
    (name : Option String) :
    (getOrCreateByChannel channel externalId name).Only fun o => isUnfiled o = true := by
  refine Prog.Only.call_bind rfl fun user => ?_
  cases user with
  | some user => exact renameUser_unfiled user name
  | none =>
    refine only_exec_bind rfl (Prog.Only.call_bind rfl fun user => ?_)
    cases user with
    | some user => exact renameUser_unfiled user name
    | none => exact only_raise rfl

theorem resumeRecent_wp (userId : Nat) (window : Option Time) :
    (resumeRecent userId window).wp filingMonitor Comes .fresh := by
  cases window with
  | none => exact .inl rfl
  | some window =>
    refine Prog.wp_call_bind (.inr trivial) fun _ _ => Prog.wp_call_bind (.inr trivial) fun _ _ =>
      Prog.wp_call_bind (.inr rfl) fun id _ => ?_
    cases id with
    | none => exact .inl rfl
    | some id => exact refetch_wp id

theorem createActive_wp (userId : Nat) (channel : Channel) :
    (createActive userId channel).wp filingMonitor Comes .fresh := by
  refine Prog.wp_call_bind (.inr rfl) fun id _ => ?_
  cases id with
  | none => exact .inl rfl
  | some id => exact refetch_wp id

/-- The conversation that is there, or the end of the request. -/
theorem openNew_wp (userId : Nat) (channel : Channel) :
    (openNew userId channel).wp filingMonitor (fun c => Comes (some c)) .fresh := by
  unfold openNew
  rw [Prog.wp_bind]
  refine Prog.wp_mono (createActive_wp userId channel) fun created b hb => ?_
  cases created with
  | some c => exact hb
  | none =>
    rcases hb with rfl | rfl
    · refine Prog.wp_call_bind (.inr trivial) fun c _ => ?_
      cases c with
      | some c => exact .inl rfl
      | none => exact ⟨.inr trivial, nofun⟩
    · exact missed_rests fun _ => .inr rfl

theorem getOrCreateActive_wp (userId : Nat) (window : Option Time) (channel : Channel) :
    (getOrCreateActive userId window channel).wp filingMonitor (fun c => Comes (some c)) .fresh := by
  refine Prog.wp_call_bind (.inr trivial) fun c _ => ?_
  cases c with
  | some c => exact .inl rfl
  | none =>
    rw [Prog.wp_bind]
    refine Prog.wp_mono (resumeRecent_wp userId window) fun c b hb => ?_
    cases c with
    | some c => exact hb
    | none =>
      rcases hb with rfl | rfl
      · exact openNew_wp userId channel
      · exact missed_rests fun _ => .inr rfl

theorem getContext_wp (cfg : Config) (waId : String) (name : Option String) :
    (getContext cfg waId name).wp filingMonitor (fun c => Comes (some c)) .fresh :=
  unfiled_bind (getOrCreate_unfiled waId name) fun _ => getOrCreateActive_wp _ _ _

theorem getChannelContext_wp (cfg : Config) (channel : Channel) (externalId : String)
    (name : Option String) : (getChannelContext cfg channel externalId name).wp filingMonitor
      (fun c => Comes (some c)) .fresh :=
  unfiled_bind (getOrCreateByChannel_unfiled channel externalId name) fun _ =>
    getOrCreateActive_wp _ _ _

theorem context_wp (cfg : Config) (channel : Channel) (externalId : String)
    (name : Option String) : (context cfg channel externalId name).wp filingMonitor
      (fun c => Comes (some c)) .fresh := by
  unfold context
  split
  · exact getContext_wp cfg externalId name
  · exact getChannelContext_wp cfg channel externalId name

/-! ## Deliveries -/

/-- A program that starts with the conversation of a message, or without one when the process is
lost. -/
theorem rests_of_fresh {P : BotM α} (ha : a.Rests)
    (h : P.wp filingMonitor (fun _ => Filing.Rests) .fresh) :
    P.wp filingMonitor (fun _ => Filing.Rests) a := by
  rcases ha with rfl | rfl
  · exact h
  · exact missed_rests fun _ => .inr rfl

theorem calm_rests (h : isCalm o = true) : isUnfiled o = true ∨ endsTx o = true := by
  cases o with
  | sql s => cases s <;> first | exact .inl rfl | cases h
  | commit | rollback => exact .inr rfl
  | quotaCheck | send => cases h
  | _ => exact .inl rfl

/-- The claim of a message under the conversation that came back. -/
theorem claim_wp {β : Type} {c : Conversation} {key type : String} {content mediaId : Option String}
    {f : Option Nat → BotM β} {Q : β → Filing → Prop} (ha : Comes (some c) a)
    (hnone : (f none).wp filingMonitor Q (.loaded c.id))
    (hsome : ∀ n, (f (some n)).wp filingMonitor Q (.filed c.id)) (hmissed : ∀ x, Q x .missed) :
    (claimInbound c.id key type content mediaId >>= f).wp filingMonitor Q a := by
  rcases ha with rfl | rfl
  · refine Prog.wp_call_bind (.inr rfl) fun r _ => ?_
    cases r with
    | none => exact hnone
    | some n => exact hsome n
  · exact missed_rests hmissed

theorem receive_wp (channel : Channel) (waId : String) (name : Option String) (key type : String)
    (content mediaId : Option String) :
    (receive cfg channel waId name key type content mediaId).wp filingMonitor
      (fun _ => Filing.Rests) .fresh := by
  unfold receive
  rw [Prog.wp_bind]
  refine Prog.wp_mono (context_wp cfg channel waId name) fun c b hb =>
    claim_wp hb ?_ (fun n => ?_) fun _ => .inr rfl
  · exact Prog.wp_call_bind (.inr trivial) fun _ _ => .inl rfl
  · refine unfiled_bind ((touch_onlyTouch cfg c.id false).mono fun o ho => ?_) fun _ =>
      Prog.wp_call_bind (.inr trivial) fun _ _ => .inl rfl
    cases o with
    | sql s => cases s <;> first | rfl | cases ho
    | now => rfl
    | _ => cases ho

theorem recordWithoutAnswering_wp (waId : String) (name : Option String) (key type : String)
    (content : Option String) :
    (recordWithoutAnswering cfg waId name key type content).wp filingMonitor
      (fun _ => Filing.Rests) .fresh := by
  unfold recordWithoutAnswering
  rw [Prog.wp_bind]
  refine Prog.wp_mono (getContext_wp cfg waId name) fun c b hb =>
    claim_wp hb ?_ (fun n => ?_) fun _ => .inr rfl
  · exact ⟨.inr trivial, fun _ _ => .inl rfl⟩
  · exact Prog.wp_call_bind (.inr trivial) fun _ _ => ⟨.inr trivial, fun _ _ => .inl rfl⟩

theorem sendOnce_rests (channel : Channel) (waId text key : String) (id : Nat) (form : Form) :
    (sendOnce cfg channel waId id text (some key) form).Only fun o =>
      isUnfiled o = true ∨ endsTx o = true := by
  have htouch := (touch_only cfg id true).mono fun _ => calm_rests
  refine Prog.Only.call_bind (.inl rfl) fun r => ?_
  cases r with
  | none => exact Prog.Only.call_bind (.inr rfl) fun _ => Prog.only_pure _
  | some r =>
    refine htouch.bind fun _ => Prog.Only.call_bind (.inr rfl) fun _ =>
      Prog.Only.call_bind (.inl rfl) fun wire => ?_
    cases wire.result with
    | failed =>
      exact only_exec_bind (.inl rfl) (Prog.Only.call_bind (.inr rfl) fun _ => Prog.only_pure _)
    | broken => exact only_raise (.inl rfl)
    | sent outId =>
      exact only_exec_bind (.inl rfl) (htouch.bind fun _ =>
        Prog.Only.call_bind (.inr rfl) fun _ => Prog.only_pure _)

theorem inviteAfterComment_wp (channel : Channel) (e : Channels.InboundEvent) :
    (inviteAfterComment cfg channel e).wp filingMonitor (fun _ => Filing.Rests) .fresh := by
  unfold inviteAfterComment
  split
  · exact .inl rfl
  · split
    · exact .inl rfl
    · split
      · exact .inl rfl
      · dsimp only
        rw [Prog.wp_bind]
        refine Prog.wp_mono (rests_wp ((asOptional_only _).mono fun _ => calm_rests) (.inl rfl))
          fun name b hb => rests_of_fresh hb ?_
        rw [Prog.wp_bind]
        refine Prog.wp_mono (getChannelContext_wp cfg channel e.senderId name) fun c b hb => ?_
        rcases hb with rfl | rfl
        · refine Prog.wp_call_bind (.inr trivial) fun reserved _ => ?_
          cases reserved with
          | none => exact ⟨.inr trivial, fun _ _ => .inl rfl⟩
          | some reserved =>
            refine Prog.wp_call_bind (.inr trivial) fun _ _ =>
              rests_wp (Prog.Only.bind ?_ fun result => ?_) (.inl rfl)
            · unfold inviteToPrivateThread
              split
              · exact Prog.only_pure _
              · exact Prog.Only.call_bind (.inl rfl) fun _ => Prog.only_pure _
            · cases result with
              | failed => exact only_exec_bind (.inl rfl) (Prog.only_call.mpr (.inr rfl))
              | broken => exact only_raise (.inl rfl)
              | sent id => exact only_exec_bind (.inl rfl) (Prog.only_call.mpr (.inr rfl))
        · exact missed_rests fun _ => .inr rfl

theorem serves_filing (channel : Channel) (waId key : String) (c : Conversation) :
    Serves filingMonitor cfg channel waId key c Filing.Rests Filing.Rests where
  calm ha ho := ⟨(rests_op (calm_rests ho) ha).1, fun r _ => (rests_op (calm_rests ho) ha).2 r⟩
  calmAfter ha ho := ⟨(rests_op (calm_rests ho) ha).1, fun r _ => (rests_op (calm_rests ho) ha).2 r⟩
  le h := h
  quota ha := ⟨(rests_op (.inl rfl) ha).1, fun r _ => (rests_op (.inl rfl) ha).2 r⟩
  human _ ha _ := ⟨(rests_op (.inl rfl) ha).1, fun r _ => (rests_op (.inl rfl) ha).2 r⟩
  send _ ha := rests_wp (sendOnce_rests channel waId _ key c.id _) ha

theorem delivers_filing (cfg : Config) : Delivers filingMonitor cfg Filing.Rests where
  calm ha ho := ⟨(rests_op (calm_rests ho) ha).1, fun r _ => (rests_op (calm_rests ho) ha).2 r⟩
  handles channel waId name key := by
    refine ⟨fun _ => Filing.Rests, Filing.Rests, fun ha => ?_, fun c => ?_, fun h => h⟩
    · refine Prog.wp_mono (rests_of_fresh ha (receive_wp channel waId name key _ _ _)) ?_
      intro r b hb
      cases r <;> exact hb
    · exact serves_filing channel waId key c
  stale _ _ _ _ _ ha := rests_of_fresh ha (recordWithoutAnswering_wp _ _ _ _ _)
  status ha := ⟨(rests_op (.inl rfl) ha).1, fun r _ => (rests_op (.inl rfl) ha).2 r⟩
  invite channel e ha := rests_of_fresh ha (inviteAfterComment_wp channel e)

/-! ## The other tasks -/

/-- What a sweep's transaction has done. -/
def Filing.Sweeps (a : Filing) : Prop := a = fresh ∨ a = closing ∨ a = missed

theorem sweeps_op (ho : inSweep o = true) (ha : a.Sweeps) :
    filingMonitor.ok a o ∧ ∀ r, (filingMonitor.next a o r).Sweeps := by
  rcases ha with rfl | rfl | rfl
  · cases o with
    | sql s => cases s <;> first | exact ⟨.inr trivial, fun _ => .inl rfl⟩ |
        exact ⟨.inr (.inl rfl), fun _ => .inr (.inl rfl)⟩ | cases ho
    | _ => exact ⟨.inr trivial, fun _ => .inl rfl⟩
  · cases o with
    | sql s => cases s <;> first | exact ⟨.inr trivial, fun _ => .inr (.inl rfl)⟩ |
        exact ⟨.inr (.inr rfl), fun _ => .inr (.inl rfl)⟩ | cases ho
    | commit | rollback => exact ⟨.inr trivial, fun _ => .inl rfl⟩
    | _ => exact ⟨.inr trivial, fun _ => .inr (.inl rfl)⟩
  · exact ⟨.inl rfl, fun _ => .inr (.inr rfl)⟩

/-- With the row open an operator's request opens nothing more. -/
theorem request_ok (ho : inRequest o = true) : filingMonitor.ok a o := by
  cases o with
  | sql s => cases s <;> first | exact .inr trivial | cases ho
  | _ => exact .inr trivial

theorem request_wp {P : BotM α} (hP : OnlyRequest P) :
    P.wp filingMonitor (fun _ _ => True) a :=
  hP.wp (B := fun _ => True) trivial fun _ _ _ ho => ⟨request_ok ho, fun _ _ => trivial⟩

theorem onOpenRow_wp {id : Nat} {rest : Conversation → BotM Unit} (h : ∀ c, OnlyRequest (rest c)) :
    (onOpenRow id rest).wp filingMonitor (fun _ _ => True) .fresh := by
  refine Prog.wp_call_bind (.inr trivial) fun c _ => ?_
  cases c with
  | none => exact request_wp (only_raise rfl)
  | some c =>
    unfold Operator.reviveForOperator
    dsimp only
    split
    · exact request_wp (h c)
    · refine Prog.wp_call_bind (.inr trivial) fun _ _ => Prog.wp_call_bind (.inr rfl) fun r _ => ?_
      refine request_wp (Prog.Only.bind (Prog.Only.bind ?_ fun revived => ?_) h)
      · cases r with
        | none => exact Prog.only_pure _
        | some id => exact Prog.only_call.mpr rfl
      · cases revived with
        | none => exact only_raise rfl
        | some revived =>
          exact Prog.Only.call_bind rfl fun _ => Prog.Only.call_bind rfl fun _ => Prog.only_pure _

/-- **Every task keeps to the discipline.** -/
theorem filing_discipline (cfg : Config) :
    filingMonitor.Accepts .fresh (fun _ => True) (sem cfg) where
  program l := by
    cases l with
    | webhook payload =>
      exact Prog.wp_mono ((delivers_filing cfg).processWebhookPayload_wp (.inl rfl) payload)
        fun _ _ _ => trivial
    | metaWebhook surfaces payload =>
      exact Prog.wp_mono (Prog.wp_forM (fun surface _ _ hb =>
        (delivers_filing cfg).processMetaPayload_wp hb surface payload) (.inl rfl)) fun _ _ _ => trivial
    | sweep =>
      exact Prog.wp_mono ((closeIdleSessions_only cfg).wp (B := Filing.Sweeps) (.inl rfl)
        fun _ _ hb ho => ⟨(sweeps_op ho hb).1, fun r _ => (sweeps_op ho hb).2 r⟩) fun _ _ _ => trivial
    | takeOver | resumeAi =>
      exact onOpenRow_wp fun c => (switchOpen_only _ _ _ _ c).mono fun _ => inRequest_of_inSwitch
    | manualReply id text operatorId => exact onOpenRow_wp (replyOpen_only cfg text operatorId)
  may {others w tx o r x} h := by
    obtain ⟨w', tx'⟩ := x
    change step cfg others w tx o r = some (w', tx') at h
    cases o with
    | sql s =>
      cases s with
      | getConversation id =>
        obtain ⟨ws, hexec, -⟩ := step_sql h
        intro c hc
        exact Db.conversation_id ((congrArg Prod.fst (Option.some.inj hexec)).trans hc)
      | _ => trivial
    | _ => trivial

end Webhook
