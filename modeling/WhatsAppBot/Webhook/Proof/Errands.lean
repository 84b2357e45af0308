import WhatsAppBot.Webhook.Proof.Parts
import WhatsAppBot.Webhook.Proof.Tasks

/-!
# A message's errand

`errandMonitor` follows what one process does for one message: it claims the message, commits, may
look for a cached completion, asks the model once and stores the answer. `errand_discipline`: no task
asks the model, reads the cache or fills it but in the errand of a message whose claim it has
committed, and it asks once in an errand.
-/

set_option autoImplicit false

namespace Webhook

open Lib Store Bot Chat Channels

inductive Errand where
  | idle
  | claimed (k : String)
  | fresh (k : String)
  | asked (k : String)
  deriving DecidableEq

namespace Errand

def answered (a : Errand) : (s : Stmt) → s.Resp → Errand
  | .claimInbound _ k _ _ _, r => if Option.isSome (α := Nat) r then .claimed k else .idle
  | _, _ => a

def committed : Errand → Errand
  | .claimed k => .fresh k
  | a => a

def rolledBack : Errand → Errand
  | .claimed _ => .idle
  | a => a

def spent : Errand → Errand
  | .fresh k => .asked k
  | a => a

/-- No claim waits for its commit. -/
def Settled (a : Errand) : Prop := ∀ k, a ≠ .claimed k

theorem Settled.idle : Errand.idle.Settled := fun _ h => by cases h

theorem Settled.fresh (k : String) : (Errand.fresh k).Settled := fun _ h => by cases h

theorem Settled.asked (k : String) : (Errand.asked k).Settled := fun _ h => by cases h

theorem Settled.committed {a : Errand} (h : a.Settled) : a.committed = a := by
  cases a with
  | claimed k => exact absurd rfl (h k)
  | _ => rfl

theorem Settled.rolledBack {a : Errand} (h : a.Settled) : a.rolledBack = a := by
  cases a with
  | claimed k => exact absurd rfl (h k)
  | _ => rfl

end Errand

def errandMonitor : Monitor botSig Errand where
  ok a o :=
    match o with
    | .generateReply _ _ => ∃ k, a = .fresh k
    | .getCachedGeneration k => a = .fresh k
    | .storeGeneration k _ => a = .asked k
    | _ => True
  next a o r :=
    match o, r with
    | .sql s, r => a.answered s r
    | .commit, _ => a.committed
    | .rollback, _ => a.rolledBack
    | .generateReply _ _, _ => a.spent
    | _, _ => a

/-- Operations that neither claim a message nor ask the model, nor use the cache. -/
def isBeside : Op → Bool
  | .sql (.claimInbound _ _ _ _ _) | .generateReply _ _ | .getCachedGeneration _
  | .storeGeneration _ _ => false
  | _ => true

variable {cfg : Config} {a : Errand} {o : Op} {α β : Type} {channel : Channel} {waId key : String}
  {name : Option String}

abbrev OnlyBeside (P : BotM α) : Prop := P.Only fun o => isBeside o = true

theorem beside_stays (ha : a.Settled) (ho : isBeside o = true) :
    errandMonitor.ok a o ∧ ∀ r, errandMonitor.next a o r = a := by
  cases o with
  | sql s =>
    cases s with
    | claimInbound => cases ho
    | _ => exact ⟨trivial, fun _ => rfl⟩
  | commit => exact ⟨trivial, fun _ => ha.committed⟩
  | rollback => exact ⟨trivial, fun _ => ha.rolledBack⟩
  | generateReply | getCachedGeneration | storeGeneration => cases ho
  | _ => exact ⟨trivial, fun _ => rfl⟩

theorem beside_wp {P : BotM α} (hP : OnlyBeside P) (ha : a.Settled) :
    P.wp errandMonitor (fun _ => Errand.Settled) a :=
  hP.wp ha fun b o hb ho =>
    ⟨(beside_stays hb ho).1, fun r _ => by rw [(beside_stays hb ho).2 r]; exact hb⟩

/-- Before what comes next, the errand is what it was. -/
theorem beside_bind {P : BotM α} {f : α → BotM β} {Q : β → Errand → Prop} (hP : OnlyBeside P)
    (ha : a.Settled) (hf : ∀ x, (f x).wp errandMonitor Q a) : (P >>= f).wp errandMonitor Q a :=
  hP.wp_bind (fun _ ho => beside_stays ha ho) hf

theorem ignoresTouch_errand : IgnoresTouch errandMonitor := by
  intro a o h
  cases o with
  | sql s => cases s <;> first | exact ⟨trivial, fun _ => rfl⟩ | cases h
  | now => exact ⟨trivial, fun _ => rfl⟩
  | _ => cases h

/-! ## What is beside it -/

theorem isBeside_of_isRoutine (h : isRoutine o = true) : isBeside o = true := by
  cases o with
  | sql s => cases s <;> first | rfl | cases h
  | generateReply | getCachedGeneration | storeGeneration => cases h
  | _ => rfl

theorem routine_beside {P : BotM α} (h : OnlyRoutine P) : OnlyBeside P :=
  Prog.Only.mono h fun _ => isBeside_of_isRoutine

theorem routine_bind {P : BotM α} {f : α → BotM β} {Q : β → Errand → Prop} (hP : OnlyRoutine P)
    (ha : a.Settled) (hf : ∀ x, (f x).wp errandMonitor Q a) : (P >>= f).wp errandMonitor Q a :=
  beside_bind (routine_beside hP) ha hf

theorem isBeside_of_inContext (h : inContext o = true) : isBeside o = true := by
  cases o with
  | sql s => cases s <;> first | rfl | cases h
  | _ => first | rfl | cases h

theorem isBeside_of_isTouch (h : isTouch o = true) : isBeside o = true := by
  cases o with
  | sql s => cases s <;> first | rfl | cases h
  | _ => first | rfl | cases h

theorem isBeside_of_inSweep (h : inSweep o = true) : isBeside o = true := by
  cases o with
  | sql s => cases s <;> first | rfl | cases h
  | _ => first | rfl | cases h

theorem isBeside_of_inOperator (h : inOperator o = true) : isBeside o = true := by
  cases o with
  | sql s => cases s <;> first | rfl | cases h
  | _ => first | rfl | cases h

theorem touch_beside (id : Nat) (outgoing : Bool) : OnlyBeside (touch cfg id outgoing) :=
  (touch_onlyTouch cfg id outgoing).mono fun _ => isBeside_of_isTouch

theorem sendOnce_beside (text : String) (id : Nat) (form : Form) :
    OnlyBeside (sendOnce cfg channel waId id text (some key) form) :=
  sendOnce_only_of (touch_beside id true) rfl rfl (fun _ _ _ => rfl) rfl rfl fun _ => rfl

theorem sendFixed_beside (id : Nat) (text : String) (welcome : Bool) (form : Form) :
    OnlyBeside (sendFixed cfg channel waId id text (some key) welcome form) := by
  refine (sendOnce_beside text id form).bind fun sent => ?_
  split
  · exact routine_beside ((only_when (recordWelcome_routine id)).bind fun _ => announce_routine id)
  · trivial

theorem beginHandoff_beside (c : Conversation) (ack reason : String) (tag : Option String) :
    OnlyBeside (beginHandoff cfg channel waId c ack reason tag (some key)) := by
  have hmode : OnlyBeside (setMode c .human none tag) :=
    Prog.Only.call_bind rfl fun _ => Prog.Only.call_bind rfl fun _ => only_exec_bind rfl trivial
  exact hmode.bind fun d => Prog.Only.call_bind rfl fun _ => Prog.Only.call_bind rfl fun _ =>
    (sendOnce_beside ack d.id .text).bind fun _ => routine_beside (announce_routine d.id)

theorem handledByHuman_beside (c : Conversation) (text : Option String) :
    OnlyBeside (handledByHuman cfg channel waId c text (some key)) := by
  unfold handledByHuman
  split
  · trivial
  · split
    · exact (beginHandoff_beside ..).bind fun _ => trivial
    · split
      · exact (beginHandoff_beside ..).bind fun _ => trivial
      · trivial

theorem withinQuota_beside (id : Nat) (text : Option String) :
    OnlyBeside (withinQuota cfg channel waId id key text) := by
  refine Prog.Only.call_bind rfl fun decision => ?_
  split
  · trivial
  · exact (only_when (sendFixed_beside ..)).bind fun _ => trivial

/-! ## Asking -/

theorem cacheKey_eq {k : String} (h : cacheKey (some key) = some k) : key = k :=
  Option.some.inj (Option.filter_eq_some_iff.mp h).1

theorem cachedFor_errand : (cachedFor (some key)).wp errandMonitor (fun _ b => b = .fresh key)
    (.fresh key) := by
  unfold cachedFor
  split
  · rename_i k hk
    obtain rfl := cacheKey_eq hk
    exact ⟨rfl, fun _ _ => rfl⟩
  · rfl

theorem storeFor_errand (g : Generation) :
    (storeFor (some key) g).wp errandMonitor (fun _ b => b = .asked key) (.asked key) := by
  unfold storeFor
  split
  · rename_i k hk
    obtain rfl := cacheKey_eq hk
    exact ⟨rfl, fun _ _ => rfl⟩
  · rfl

/-- The model is asked once. -/
theorem generate_errand (history : List Turn) (query : Option String)
    (welcome generalQuestion : Bool) :
    (generate cfg name history query (some key) welcome generalQuestion).wp errandMonitor
      (fun _ => Errand.Settled) (.fresh key) := by
  refine routine_bind (retrieveFor_routine cfg _) (.fresh key) fun documents =>
    Prog.wp_call_bind trivial fun _ _ => Prog.wp_call_bind ⟨key, rfl⟩ fun result _ => ?_
  cases result with
  | error message => exact Errand.Settled.asked key
  | ok result =>
    dsimp only
    rw [Prog.wp_bind]
    refine Prog.wp_mono (storeFor_errand _) fun _ b hb => ?_
    subst hb
    exact Prog.wp_call_bind trivial fun _ _ => Errand.Settled.asked key

theorem generateAndSend_errand (id : Nat) (history : List Turn) (query : Option String)
    (welcome generalQuestion : Bool) :
    (generateAndSend cfg channel waId name id history query (some key) welcome generalQuestion).wp
      errandMonitor (fun _ => Errand.Settled) (.fresh key) := by
  have hdraft : (draftFor cfg name history query (some key) welcome generalQuestion).wp errandMonitor
      (fun _ => Errand.Settled) (.fresh key) := by
    unfold draftFor
    rw [Prog.wp_bind]
    refine Prog.wp_mono cachedFor_errand fun cached b hb => ?_
    subst hb
    cases cached with
    | some g => exact Errand.Settled.fresh key
    | none => exact generate_errand history query welcome generalQuestion
  unfold generateAndSend
  rw [Prog.wp_bind]
  refine Prog.wp_mono hdraft fun draft b hb =>
    beside_wp ((routine_beside (logDraft_routine cfg id draft)).bind fun _ =>
      (sendOnce_beside _ id .text).bind fun sent => ?_) hb
  split
  · exact routine_beside ((only_when (recordWelcome_routine id)).bind fun _ =>
      (clearFor_routine _).bind fun _ => announce_routine id)
  · trivial

theorem answers_errand (id : Nat) (shows : List Turn → List Turn) (query : Option String)
    (welcome generalQuestion : Bool) :
    (do
      let given ← buildHistory cfg id
      generateAndSend cfg channel waId name id (shows given) query (some key) welcome
        generalQuestion : BotM Unit).wp errandMonitor (fun _ => Errand.Settled) (.fresh key) :=
  routine_bind (buildHistory_routine cfg id) (.fresh key) fun given =>
    generateAndSend_errand id (shows given) query welcome generalQuestion

theorem answerText_errand (text : String) (c : Conversation) :
    (answerText cfg channel waId name key text c).wp errandMonitor (fun _ => Errand.Settled)
      (.fresh key) := by
  refine routine_bind (shouldWelcome_routine cfg c) (.fresh key) fun owed => ?_
  dsimp only
  split
  · exact beside_wp (sendFixed_beside ..) (.fresh key)
  · split
    · exact beside_wp (sendFixed_beside ..) (.fresh key)
    · split
      · exact beside_wp (sendFixed_beside ..) (.fresh key)
      · exact answers_errand c.id (fun given => given) _ _ _

theorem answerSelection_errand (selectionId label : String) (c : Conversation) :
    (answerSelection cfg channel waId name key selectionId label c).wp errandMonitor
      (fun _ => Errand.Settled) (.fresh key) := by
  refine routine_bind (shouldWelcome_routine cfg c) (.fresh key) fun _ => ?_
  split
  · exact beside_wp (beginHandoff_beside ..) (.fresh key)
  · split
    · exact beside_wp (beginHandoff_beside ..) (.fresh key)
    · split
      · exact beside_wp (sendFixed_beside ..) (.fresh key)
      · exact answers_errand c.id (fun given => given) _ _ _

/-! ## The handlers -/

/-- A message that is received is claimed, and the claim is committed. -/
theorem receive_errand (type : String) (content mediaId : Option String) (ha : a.Settled) :
    (receive cfg channel waId name key type content mediaId).wp errandMonitor
      (fun r b => (r = none → b.Settled) ∧ ∀ c, r = some c → b = .fresh key) a := by
  unfold receive
  refine beside_bind ((context_only ..).mono fun _ => isBeside_of_inContext) ha fun c =>
    Prog.wp_call_bind trivial fun r _ => ?_
  cases r with
  | none =>
    exact Prog.wp_call_bind trivial fun _ _ => ⟨fun _ => Errand.Settled.idle, fun _ h => by cases h⟩
  | some id =>
    dsimp only
    rw [Prog.wp_bind]
    exact touch_wp ignoresTouch_errand
      (Prog.wp_call_bind trivial fun _ _ => ⟨fun h => (by cases h), fun _ _ => rfl⟩)

/-- A handler receives the message and goes on in its errand. -/
theorem received_errand {type : String} {content mediaId : Option String} (ha : a.Settled)
    {f : Option Conversation → BotM Unit} (hnone : f none = pure ())
    (hf : ∀ c, (f (some c)).wp errandMonitor (fun _ => Errand.Settled) (.fresh key)) :
    (receive cfg channel waId name key type content mediaId >>= f).wp errandMonitor
      (fun _ => Errand.Settled) a := by
  rw [Prog.wp_bind]
  refine Prog.wp_mono (receive_errand type content mediaId ha) fun r b hb => ?_
  cases r with
  | none =>
    rw [hnone]
    exact hb.1 rfl
  | some c =>
    obtain rfl := hb.2 c rfl
    exact hf c

/-- The human gate and the quota, then the answer. -/
theorem gated_errand (c : Conversation) (text : Option String) {P : BotM Unit}
    (hP : P.wp errandMonitor (fun _ => Errand.Settled) (.fresh key)) :
    (do
      announce c.id
      markRead channel key
      if ← handledByHuman cfg channel waId c text (some key) then pure ()
      else if ← withinQuota cfg channel waId c.id key text then P
      else pure () : BotM Unit).wp errandMonitor (fun _ => Errand.Settled) (.fresh key) := by
  refine routine_bind (announce_routine c.id) (.fresh key) fun _ =>
    routine_bind (markRead_routine channel key) (.fresh key) fun _ =>
      beside_bind (handledByHuman_beside c text) (.fresh key) fun handled => ?_
  split
  · exact Errand.Settled.fresh key
  · refine beside_bind (withinQuota_beside c.id text) (.fresh key) fun allowed => ?_
    split
    · exact hP
    · exact Errand.Settled.fresh key

theorem handleTextMessage_errand (text : String) (ha : a.Settled) :
    (handleTextMessage cfg channel waId name key text).wp errandMonitor (fun _ => Errand.Settled) a :=
  received_errand ha rfl fun c => gated_errand c _ (answerText_errand text c)

theorem handleInteractiveMessage_errand (selectionId title : String) (ha : a.Settled) :
    (handleInteractiveMessage cfg channel waId name key selectionId title).wp errandMonitor
      (fun _ => Errand.Settled) a :=
  received_errand ha rfl fun c => gated_errand c _ (answerSelection_errand selectionId _ c)

theorem handleMediaMessage_errand (type : String) (mediaId caption : Option String) (ha : a.Settled) :
    (handleMediaMessage cfg channel waId name key type mediaId caption).wp errandMonitor
      (fun _ => Errand.Settled) a :=
  received_errand ha rfl fun c => gated_errand c _ <|
    routine_bind (shouldWelcome_routine cfg c) (.fresh key) fun _ =>
      answers_errand c.id (fun given => given ++ [mediaTurn type caption]) _ _ _

theorem handleUnsupportedMessage_errand (type : String) (ha : a.Settled) :
    (handleUnsupportedMessage cfg channel waId name key type).wp errandMonitor
      (fun _ => Errand.Settled) a :=
  received_errand ha rfl fun c => by
    refine routine_bind (announce_routine c.id) (.fresh key) fun _ =>
      beside_bind (handledByHuman_beside c none) (.fresh key) fun handled => ?_
    split
    · exact Errand.Settled.fresh key
    · exact routine_bind (shouldWelcome_routine cfg c) (.fresh key) fun _ =>
        beside_wp (sendFixed_beside ..) (.fresh key)

theorem recordWithoutAnswering_errand (type : String) (content : Option String) (ha : a.Settled) :
    (recordWithoutAnswering cfg waId name key type content).wp errandMonitor
      (fun _ => Errand.Settled) a := by
  unfold recordWithoutAnswering
  refine beside_bind ((getContext_only cfg waId name).mono fun _ => isBeside_of_inContext) ha fun c =>
    Prog.wp_call_bind trivial fun r _ => ?_
  cases r with
  | none => exact ⟨trivial, fun _ _ => Errand.Settled.idle⟩
  | some id =>
    exact Prog.wp_call_bind trivial fun _ _ => ⟨trivial, fun _ _ => Errand.Settled.fresh key⟩

/-! ## Deliveries -/

theorem handledAsStale_errand (message : Json) (contacts : Contacts) (ha : a.Settled) :
    (handledAsStale cfg message contacts).wp errandMonitor (fun _ => Errand.Settled) a := by
  unfold handledAsStale
  split
  · exact ha
  · refine routine_bind (messageIsStale_routine cfg message) ha fun stale => ?_
    split
    · refine routine_bind (get_routine _ _ _) ha fun _ =>
        routine_bind (get_routine _ _ _) ha fun _ => ?_
      split
      · exact ha
      · refine routine_bind (asString_routine _) ha fun _ =>
          routine_bind (asString_routine _) ha fun _ =>
          routine_bind (asOptional_routine _) ha fun _ =>
          routine_bind (get_routine _ _ _) ha fun _ =>
          routine_bind (asString_routine _) ha fun _ =>
          routine_bind (contentOf_routine _ _ _) ha fun _ => ?_
        rw [Prog.wp_bind]
        exact Prog.wp_mono (recordWithoutAnswering_errand _ _ ha) fun _ _ hb => hb
    · exact ha

theorem dispatchMessage_errand (message : Json) (contacts : Contacts) (ha : a.Settled) :
    (dispatchMessage cfg message contacts).wp errandMonitor (fun _ => Errand.Settled) a := by
  unfold dispatchMessage
  refine routine_bind (get_routine _ _ _) ha fun _ => routine_bind (asString_routine _) ha fun waId =>
    routine_bind (get_routine _ _ _) ha fun _ => routine_bind (asString_routine _) ha fun key =>
    routine_bind (get_routine _ _ _) ha fun _ => routine_bind (asString_routine _) ha fun type =>
    routine_bind (asOptional_routine _) ha fun name => ?_
  split
  · exact routine_bind (get_routine _ _ _) ha fun _ => routine_bind (get_routine _ _ _) ha fun _ =>
      routine_bind (asString_routine _) ha fun _ => handleTextMessage_errand _ ha
  split
  · exact routine_bind (get_routine _ _ _) ha fun _ => routine_bind (get_routine _ _ _) ha fun _ =>
      routine_bind (asOptional_routine _) ha fun _ => routine_bind (get_routine _ _ _) ha fun _ =>
      routine_bind (asOptional_routine _) ha fun _ => handleMediaMessage_errand _ _ _ ha
  split
  · refine routine_bind (interactiveSelection_routine _ _) ha fun selection => ?_
    cases selection with
    | none => exact handleUnsupportedMessage_errand _ ha
    | some selection => exact handleInteractiveMessage_errand _ _ ha
  split
  · refine routine_bind (get_routine _ _ _) ha fun button => ?_
    split
    · exact handleInteractiveMessage_errand _ _ ha
    · exact handleUnsupportedMessage_errand _ ha
  · exact handleUnsupportedMessage_errand _ ha

theorem dispatchEvent_errand (e : InboundEvent) (ha : a.Settled) :
    (dispatchEvent cfg channel e).wp errandMonitor (fun _ => Errand.Settled) a := by
  unfold dispatchEvent
  split
  · exact ha
  · refine routine_bind (asOptional_routine _) ha fun name => ?_
    split
    · exact handleTextMessage_errand _ ha
    · split
      · exact handleInteractiveMessage_errand _ _ ha
      · exact handleUnsupportedMessage_errand _ ha
    · exact handleMediaMessage_errand _ _ _ ha
    · exact handleUnsupportedMessage_errand _ ha

theorem inviteAfterComment_beside (e : InboundEvent) :
    OnlyBeside (inviteAfterComment cfg channel e) := by
  unfold inviteAfterComment
  split
  · trivial
  split
  · trivial
  split
  · trivial
  refine (routine_beside (asOptional_routine _)).bind fun _ =>
    ((getChannelContext_only ..).mono fun _ => isBeside_of_inContext).bind fun c =>
      Prog.Only.call_bind rfl fun r => ?_
  cases r with
  | none => exact Prog.only_call.mpr rfl
  | some n =>
    refine Prog.Only.call_bind rfl fun _ => Prog.Only.bind ?_ fun result => ?_
    · unfold inviteToPrivateThread
      split
      · trivial
      · exact Prog.Only.call_bind rfl fun _ => trivial
    · cases result with
      | failed => exact only_exec_bind rfl (Prog.only_call.mpr rfl)
      | broken => exact only_raise rfl
      | sent id => exact only_exec_bind rfl (Prog.only_call.mpr rfl)

theorem processEvent_errand (e : InboundEvent) (ha : a.Settled) :
    (processEvent cfg channel e).wp errandMonitor (fun _ => Errand.Settled) a := by
  refine routine_bind (eventIsStale_routine cfg e) ha fun stale => ?_
  split
  · exact ha
  · rw [Prog.wp_bind]
    exact Prog.wp_mono (dispatchEvent_errand e ha) fun _ b hb =>
      beside_wp (only_when (inviteAfterComment_beside e)) hb

theorem processStatus_beside (status : Json) : OnlyBeside (processStatus status) := by
  refine routine_beside (get_routine _ _ _) |>.bind fun _ =>
    routine_beside (get_routine _ _ _) |>.bind fun _ => ?_
  split
  · exact routine_beside (asString_routine _) |>.bind fun _ =>
      routine_beside (asString_routine _) |>.bind fun _ =>
      only_exec_bind rfl (Prog.only_call.mpr rfl)
  · trivial

theorem part_errand (part : Part) (ha : a.Settled) :
    (part.run cfg).wp errandMonitor (fun _ => Errand.Settled) a := by
  cases part with
  | message contacts m =>
    unfold Part.run processMessage
    rw [Prog.wp_bind]
    refine Prog.wp_mono (handledAsStale_errand m contacts ha) fun handled b hb => ?_
    split
    · exact hb
    · exact dispatchMessage_errand m contacts hb
  | status s => exact beside_wp (processStatus_beside s) ha
  | event channel e => exact processEvent_errand e ha
  | malformed => exact beside_wp (only_raise rfl) ha

/-- **Every task keeps its errands.** -/
theorem errand_discipline (cfg : Config) : errandMonitor.Accepts .idle Errand.Settled (sem cfg) where
  program l := by
    change (program cfg l).wp errandMonitor _ _
    cases hl : l.isDelivery with
    | true =>
      rw [program_parts hl]
      exact Prog.wp_forM (fun part _ b hb => part_errand part hb) Errand.Settled.idle
    | false =>
      refine beside_wp ((program_only cfg l).mono fun o ho => ?_) Errand.Settled.idle
      cases l with
      | webhook | metaWebhook => cases hl
      | sweep => exact isBeside_of_inSweep ho
      | takeOver | resumeAi | manualReply => exact isBeside_of_inOperator ho
  may _ := trivial

end Webhook
