import WhatsAppBot.Chat.Proof.Serve

/-!
# Who greets

`greetMonitor` keeps the conversation row a process has read last, and whether the text the model gave
it since begins with the welcome copy of its own accord. `handler_greets`: a handler sends a
reply that carries the copy only to the conversation it has read, and only when that row's welcome flag
was unset or the model's text was such a one.
-/

set_option autoImplicit false

namespace Bot

/-- The text is the welcome, or begins with the welcome or its short form. -/
def Copy.carries (copy : Copy) (text : String) : Bool :=
  copy.welcome.toList.isPrefixOf text.toList || copy.welcomePrefix.toList.isPrefixOf text.toList

end Bot

namespace Chat

open Lib Store Bot

/-- An answer to a customer that carries the welcome copy. -/
def isGreeting (cfg : Config) (out : Outbound) : Bool :=
  match out.purpose with
  | .reply _ => cfg.copy.carries out.text
  | _ => false

/-- No other text of the company carries the welcome copy. -/
structure OwnCopy (cfg : Config) : Prop where
  serviceBusy : cfg.copy.carries cfg.copy.serviceBusy = false
  unsupportedMessage : cfg.copy.carries cfg.copy.unsupportedMessage = false
  handoffAck : cfg.copy.carries cfg.copy.handoffAck = false
  salesHandoffAck : cfg.copy.carries (cfg.copy.salesHandoffAck cfg.salesPhone) = false
  outOfScopeReply : cfg.copy.carries (cfg.copy.outOfScopeReply cfg.companyName) = false
  deflection : cfg.copy.carries (cfg.copy.deflection cfg.salesPhone) = false
  quotaMessage : ∀ d, cfg.copy.carries (cfg.copy.quotaMessage d cfg.salesPhone) = false
  serviceAck : ∀ id, cfg.copy.carries (Menu.serviceAck id) = false

inductive Greeter where
  | idle
  /-- `parrot`: the model's last text carries the welcome copy. -/
  | read (x : Conversation) (parrot : Bool)
  deriving DecidableEq

namespace Greeter

def fetched : Greeter → Option Conversation → Greeter
  | _, some x => read x false
  | a, none => a

def given (parrot : Bool) : Greeter → Greeter
  | read x _ => read x parrot
  | idle => idle

def parrot : Greeter → Bool
  | read _ b => b
  | idle => false

/-- It may greet in the conversation. -/
def Owes (id : Nat) : Greeter → Prop
  | idle => False
  | read x b => x.id = id ∧ (x.welcomeSentAt = none ∨ b = true)

/-- The row read last is `c`. -/
def Has (a : Greeter) (c : Conversation) : Prop := ∃ b, a = read c b

/-- The row that is answered, if one is, is the one read last. -/
def Hands (a : Greeter) (r : Option Conversation) : Prop := ∀ x, r = some x → a.Has x

theorem hands_none {a : Greeter} : a.Hands none := fun x hx => by cases hx

theorem Has.hands {c : Conversation} {a : Greeter} (h : a.Has c) : a.Hands (some c) := fun x hx => by
  obtain rfl := Option.some.inj hx
  exact h

end Greeter

def greetMonitor (cfg : Config) : Monitor botSig Greeter where
  ok a o :=
    match o with
    | .send out => isGreeting cfg out = true → a.Owes out.conversationId
    | _ => True
  next a o r :=
    match o, r with
    | .sql (.activeForUser _), r => a.fetched r
    | .sql (.getConversation _), r => a.fetched r
    | .generateReply _ _, .ok result => a.given (cfg.copy.carries result.text)
    | .getCachedGeneration _, some g => a.given (cfg.copy.carries g.text)
    | _, _ => a

/-- The operations that send nothing. -/
def isSilent : Op → Bool
  | .send _ => false
  | _ => true

variable {cfg : Config} {a : Greeter} {o : Op} {α : Type} {c : Conversation} {channel : Channel}
  {waId key : String}

theorem silent_ok (h : isSilent o = true) : (greetMonitor cfg).ok a o := by
  cases o with
  | send => cases h
  | _ => trivial

/-- What sends nothing is accepted. -/
theorem silent_wp {P : BotM α} (hP : P.Only fun o => isSilent o = true) :
    P.wp (greetMonitor cfg) (fun _ _ => True) a :=
  Prog.wp_mono (hP.wp (B := fun _ => True) trivial fun _ _ _ ho => ⟨silent_ok ho, fun _ _ => trivial⟩)
    fun _ _ _ => trivial

theorem isSilent_of_isCalm (h : isCalm o = true) : isSilent o = true := by
  cases o with
  | send => cases h
  | _ => rfl

theorem isSilent_of_inContext (h : inContext o = true) : isSilent o = true := by
  cases o with
  | send => cases h
  | _ => rfl

theorem isSilent_of_isConfirm (h : isConfirm o = true) : isSilent o = true := by
  cases o with
  | send => cases h
  | _ => rfl

theorem calm_has (h : isCalm o = true) (ha : a.Has c) :
    (greetMonitor cfg).ok a o ∧ ∀ r, (greetMonitor cfg).may o r → ((greetMonitor cfg).next a o r).Has c := by
  refine ⟨silent_ok (isSilent_of_isCalm h), fun r _ => ?_⟩
  cases o with
  | sql s => cases s <;> first | exact ha | cases h
  | generateReply =>
    cases r with
    | ok => obtain ⟨b, rfl⟩ := ha; exact ⟨_, rfl⟩
    | error => exact ha
  | getCachedGeneration =>
    cases r with
    | some => obtain ⟨b, rfl⟩ := ha; exact ⟨_, rfl⟩
    | none => exact ha
  | _ => exact ha

theorem calm_bind {β : Type} {P : BotM α} {f : α → BotM β} {Q : β → Greeter → Prop} (hP : OnlyCalm P)
    (ha : a.Has c) (hf : ∀ x b, b.Has c → (f x).wp (greetMonitor cfg) Q b) :
    (P >>= f).wp (greetMonitor cfg) Q a := by
  rw [Prog.wp_bind]
  exact Prog.wp_mono (hP.wp ha fun _ _ hb ho => calm_has ho hb) hf

/-! ## Which row a handler has read -/

theorem fetched_hands {r : Option Conversation} : (a.fetched r).Hands r := fun x hx => by
  subst hx
  exact ⟨false, rfl⟩

theorem resumeRecent_read (userId : Nat) (window : Option Time) :
    (resumeRecent userId window).wp (greetMonitor cfg) (fun r b => b.Hands r) a := by
  cases window with
  | none => exact Greeter.hands_none
  | some window =>
    refine Prog.wp_call_bind trivial fun _ _ => Prog.wp_call_bind trivial fun _ _ =>
      Prog.wp_call_bind trivial fun id _ => ?_
    cases id with
    | none => exact Greeter.hands_none
    | some id =>
      exact ⟨trivial, fun r _ => fetched_hands⟩

theorem createActive_read (userId : Nat) (channel : Channel) :
    (createActive userId channel).wp (greetMonitor cfg) (fun r b => b.Hands r) a := by
  refine Prog.wp_call_bind trivial fun id _ => ?_
  cases id with
  | none => exact Greeter.hands_none
  | some id =>
    exact ⟨trivial, fun r _ => fetched_hands⟩

theorem getOrCreateActive_read (userId : Nat) (window : Option Time) (channel : Channel) :
    (getOrCreateActive userId window channel).wp (greetMonitor cfg) (fun c b => b.Has c) a := by
  refine Prog.wp_call_bind trivial fun c _ => ?_
  cases c with
  | some c => exact ⟨false, rfl⟩
  | none =>
    rw [Prog.wp_bind]
    refine Prog.wp_mono (resumeRecent_read userId window) fun r b hb => ?_
    cases r with
    | some c => exact hb c rfl
    | none =>
      unfold openNew
      rw [Prog.wp_bind]
      refine Prog.wp_mono (createActive_read userId channel) fun r b hb => ?_
      cases r with
      | some c => exact hb c rfl
      | none =>
        refine Prog.wp_call_bind trivial fun c _ => ?_
        cases c with
        | some c => exact ⟨false, rfl⟩
        | none => exact ⟨trivial, nofun⟩

theorem context_read (channel : Channel) (externalId : String) (name : Option String) :
    (context cfg channel externalId name).wp (greetMonitor cfg) (fun c b => b.Has c) a := by
  have hsilent : ∀ {P : BotM User} {f : User → BotM Conversation}, OnlyContext P →
      (∀ v b, (f v).wp (greetMonitor cfg) (fun c b => b.Has c) b) →
      (P >>= f).wp (greetMonitor cfg) (fun c b => b.Has c) a := fun hP hf => by
    rw [Prog.wp_bind]
    exact Prog.wp_mono (silent_wp (hP.mono fun _ => isSilent_of_inContext)) fun v b _ => hf v b
  unfold context
  split
  · exact hsilent (getOrCreate_only _ _) fun v b => getOrCreateActive_read _ _ _
  · exact hsilent (getOrCreateByChannel_only _ _ _) fun v b => getOrCreateActive_read _ _ _

theorem receive_read (channel : Channel) (waId : String) (name : Option String)
    (key type : String) (content mediaId : Option String) :
    (receive cfg channel waId name key type content mediaId).wp (greetMonitor cfg)
      (fun r b => b.Hands r) a := by
  unfold receive
  rw [Prog.wp_bind]
  refine Prog.wp_mono (context_read channel waId name) fun c b hb => Prog.wp_call_bind trivial fun r _ => ?_
  cases r with
  | none => exact ⟨trivial, fun _ _ => Greeter.hands_none⟩
  | some m => exact calm_bind (touch_only _ _ _) hb fun _ b hb => ⟨trivial, fun _ _ => hb.hands⟩

/-! ## What a handler sends -/

/-- The text may be sent in the conversation: it is no greeting, or one is owed. -/
def Says (cfg : Config) (id : Nat) (text : String) (a : Greeter) : Prop :=
  cfg.copy.carries text = true → a.Owes id

theorem says_plain {id : Nat} {text : String} (h : cfg.copy.carries text = false) : Says cfg id text a :=
  fun hcarries => by
    rw [h] at hcarries
    cases hcarries

theorem says_owed {text : String} (ha : a.Has c) (h : c.welcomeSentAt = none) : Says cfg c.id text a := by
  obtain ⟨b, rfl⟩ := ha
  exact fun _ => ⟨rfl, .inl h⟩

theorem sendOnce_greets {id : Nat} {text : String} {form : Form} (h : Says cfg id text a) :
    (sendOnce cfg channel waId id text (some key) form).wp (greetMonitor cfg) (fun _ _ => True) a := by
  have htouch : IgnoresTouch (greetMonitor cfg) := fun b o ho => by
    cases o with
    | sql s => cases s <;> first | exact ⟨trivial, fun _ => rfl⟩ | cases ho
    | now => exact ⟨trivial, fun _ => rfl⟩
    | _ => cases ho
  exact sendOnce_wp (J := fun _ => True) htouch
    (fun _ ho => ⟨silent_ok (ho.elim isSilent_of_isCalm isSilent_of_isConfirm), fun _ _ => trivial⟩)
    trivial (fun _ => trivial) fun n _ => ⟨trivial, fun hgreeting => h hgreeting, fun _ => trivial⟩

theorem sendFixed_greets {id : Nat} {text : String} {welcome : Bool} {form : Form}
    (h : Says cfg id text a) : (sendFixed cfg channel waId id text (some key) welcome form).wp
      (greetMonitor cfg) (fun _ _ => True) a := by
  unfold sendFixed
  rw [Prog.wp_bind]
  refine Prog.wp_mono (sendOnce_greets h) fun sent b _ => ?_
  split
  · exact silent_wp (((only_when (recordWelcome_only id)).bind fun _ => announce_only id).mono
      fun _ => isSilent_of_isCalm)
  · trivial

/-- What is put in front of a reply is put there only when a welcome is owed. -/
theorem sendFixed_prefixed {first : Bool} {reply : String} {form : Form} (ha : a.Has c)
    (hfirst : first = true → c.welcomeSentAt = none) (hreply : cfg.copy.carries reply = false) :
    (sendFixed cfg channel waId c.id
      (if first = true then cfg.copy.welcomePrefix ++ "\n\n" ++ reply else reply) (some key) first
      form).wp (greetMonitor cfg) (fun _ _ => True) a := by
  refine sendFixed_greets ?_
  cases first with
  | true => exact says_owed ha (hfirst rfl)
  | false => exact says_plain hreply

theorem shouldWelcome_owed (hprevent : cfg.session.preventDuplicateWelcome = true) (ha : a.Has c) :
    (shouldWelcome cfg c).wp (greetMonitor cfg)
      (fun first b => b.Has c ∧ (first = true → c.welcomeSentAt = none)) a := by
  have hno : ∀ {b : Greeter}, b.Has c → b.Has c ∧ (false = true → c.welcomeSentAt = none) :=
    fun hb => ⟨hb, fun h => nomatch h⟩
  unfold shouldWelcome
  split
  · exact hno ha
  · split
    · exact hno ha
    · split
      · exact hno ha
      · rename_i hunset
        have hnone : c.welcomeSentAt = none := by
          simpa [hprevent] using hunset
        split
        · exact ⟨ha, fun _ => hnone⟩
        · exact ⟨trivial, fun _ _ => ⟨ha, fun _ => hnone⟩⟩

theorem beginHandoff_greets {ack reason : String} {tag : Option String}
    (hack : cfg.copy.carries ack = false) :
    (beginHandoff cfg channel waId c ack reason tag (some key)).wp (greetMonitor cfg)
      (fun _ _ => True) a := by
  unfold beginHandoff
  rw [Prog.wp_bind]
  have hmode : (setMode c .human none tag).Only fun o => isSilent o = true :=
    Prog.Only.call_bind rfl fun _ => Prog.Only.call_bind rfl fun _ => only_exec_bind rfl (Prog.only_pure _)
  refine Prog.wp_mono (silent_wp hmode) fun d b _ => Prog.wp_call_bind trivial fun _ _ =>
    Prog.wp_call_bind trivial fun _ _ => ?_
  rw [Prog.wp_bind]
  exact Prog.wp_mono (sendOnce_greets (says_plain hack)) fun _ _ _ =>
    silent_wp ((announce_only d.id).mono fun _ => isSilent_of_isCalm)

/-- The text of a draft carries the copy only where the monitor says that the model's did. -/
def Tells (cfg : Config) (c : Conversation) (text : String) (a : Greeter) : Prop :=
  a.Has c ∧ (cfg.copy.carries text = true → a.parrot = true)

theorem tells_given (ha : a.Has c) (text : String) :
    Tells cfg c text (a.given (cfg.copy.carries text)) := by
  obtain ⟨b, rfl⟩ := ha
  exact ⟨⟨_, rfl⟩, fun h => h⟩

theorem tells_plain {text : String} (ha : a.Has c) (h : cfg.copy.carries text = false) :
    Tells cfg c text a :=
  ⟨ha, fun hcarries => by rw [h] at hcarries; cases hcarries⟩

/-- The price gate and the prefix keep it so. -/
theorem Tells.speaks {text : String} {first : Bool} (h : Tells cfg c text a)
    (hdeflection : cfg.copy.carries (cfg.copy.deflection cfg.salesPhone) = false)
    (hfirst : first = true → c.welcomeSentAt = none) : Says cfg c.id (finalText cfg first text) a := by
  cases first with
  | true => exact says_owed h.1 (hfirst rfl)
  | false =>
    unfold finalText
    split
    · exact says_plain hdeflection
    · intro hcarries
      have hparrot := h.2 hcarries
      obtain ⟨b, rfl⟩ := h.1
      exact ⟨rfl, .inr hparrot⟩

theorem storeFor_bind {β : Type} {g : Generation} {replyTo : Option String} {f : Unit → BotM β}
    {Q : β → Greeter → Prop} (hf : (f ()).wp (greetMonitor cfg) Q a) :
    (storeFor replyTo g >>= f).wp (greetMonitor cfg) Q a := by
  unfold storeFor
  split
  · exact Prog.wp_call_bind trivial fun _ _ => hf
  · exact hf

section

variable (hcopy : OwnCopy cfg) (ha : a.Has c)
include hcopy ha

theorem generate_tells (name : Option String) (history : List Turn)
    (retrievalQuery replyTo : Option String) (welcome generalQuestion : Bool) :
    (generate cfg name history retrievalQuery replyTo welcome generalQuestion).wp (greetMonitor cfg)
      (fun d b => Tells cfg c d.text b) a := by
  unfold generate
  refine calm_bind (retrieveFor_only cfg _) ha fun documents b hb => Prog.wp_call_bind trivial fun _ _ =>
    Prog.wp_call_bind trivial fun result _ => ?_
  cases result with
  | error message => exact tells_plain hb hcopy.serviceBusy
  | ok result =>
    have hgiven : Tells cfg c (generationOf cfg result).text (b.given (cfg.copy.carries result.text)) := by
      have htells : Tells cfg c result.text (b.given (cfg.copy.carries result.text)) :=
        tells_given hb result.text
      unfold generationOf
      dsimp only
      split
      · exact htells
      · exact tells_plain htells.1 hcopy.serviceBusy
    exact storeFor_bind (Prog.wp_call_bind trivial fun _ _ => hgiven)

theorem draftFor_tells (name : Option String) (history : List Turn)
    (retrievalQuery replyTo : Option String) (welcome generalQuestion : Bool) :
    (draftFor cfg name history retrievalQuery replyTo welcome generalQuestion).wp (greetMonitor cfg)
      (fun d b => Tells cfg c d.text b) a := by
  unfold draftFor cachedFor
  split
  · refine Prog.wp_call_bind trivial fun cached _ => ?_
    cases cached with
    | some g => exact tells_given ha g.text
    | none => exact generate_tells hcopy ha _ _ _ _ _ _
  · exact generate_tells hcopy ha _ _ _ _ _ _

theorem generateAndSend_greets (name : Option String) (history : List Turn)
    (retrievalQuery : Option String) {welcome : Bool} (generalQuestion : Bool)
    (hwelcome : welcome = true → c.welcomeSentAt = none) :
    (generateAndSend cfg channel waId name c.id history retrievalQuery (some key) welcome
      generalQuestion).wp (greetMonitor cfg) (fun _ _ => True) a := by
  unfold generateAndSend
  rw [Prog.wp_bind]
  refine Prog.wp_mono (draftFor_tells hcopy ha _ _ _ _ _ _) fun draft b hb => ?_
  have hlog : (logDraft cfg c.id draft).Only fun o => isSilent o = true ∧ ∀ b r, (greetMonitor cfg).next b o r = b := by
    unfold logDraft
    split
    · exact only_exec ⟨rfl, fun _ _ => rfl⟩
    · exact only_exec ⟨rfl, fun _ _ => rfl⟩
    · exact Prog.only_pure _
  refine hlog.wp_bind (fun o ho => ⟨silent_ok ho.1, ho.2 b⟩) fun _ => ?_
  rw [Prog.wp_bind]
  refine Prog.wp_mono (sendOnce_greets (hb.speaks hcopy.deflection hwelcome)) fun sent b _ => ?_
  split
  · exact silent_wp (((only_when (recordWelcome_only c.id)).bind fun _ => (clearFor_only (some key)).bind
      fun _ => announce_only c.id).mono fun _ => isSilent_of_isCalm)
  · trivial

theorem handledByHuman_greets (text : Option String) :
    (handledByHuman cfg channel waId c text (some key)).wp (greetMonitor cfg)
      (fun handled b => handled = true ∨ b.Has c) a := by
  unfold handledByHuman
  split
  · exact .inl rfl
  · split
    · rw [Prog.wp_bind]
      exact Prog.wp_mono (beginHandoff_greets hcopy.salesHandoffAck) fun _ _ _ => .inl rfl
    · split
      · rw [Prog.wp_bind]
        exact Prog.wp_mono (beginHandoff_greets hcopy.handoffAck) fun _ _ _ => .inl rfl
      · exact .inr ha

theorem withinQuota_greets (text : Option String) :
    (withinQuota cfg channel waId c.id key text).wp (greetMonitor cfg)
      (fun allowed b => allowed = false ∨ b.Has c) a := by
  refine Prog.wp_call_bind trivial fun d _ => ?_
  split
  · exact .inr ha
  · rw [Prog.wp_bind, when]
    split
    · exact Prog.wp_mono (sendFixed_greets (says_plain (hcopy.quotaMessage d))) fun _ _ _ => .inl rfl
    · exact .inl rfl

/-- The gates that come before an answer. -/
theorem gates_greets {text : Option String} {P : BotM Unit}
    (hP : ∀ b, b.Has c → P.wp (greetMonitor cfg) (fun _ _ => True) b) :
    (handledByHuman cfg channel waId c text (some key) >>= fun handled =>
      if handled = true then pure () else P).wp (greetMonitor cfg) (fun _ _ => True) a := by
  rw [Prog.wp_bind]
  refine Prog.wp_mono (handledByHuman_greets hcopy ha text) fun handled b hb => ?_
  split
  · trivial
  · rename_i h
    exact hP b (hb.resolve_left h)

theorem quota_greets {text : Option String} {P : BotM Unit}
    (hP : ∀ b, b.Has c → P.wp (greetMonitor cfg) (fun _ _ => True) b) :
    (withinQuota cfg channel waId c.id key text >>= fun allowed =>
      if allowed = true then P else pure ()).wp (greetMonitor cfg) (fun _ _ => True) a := by
  rw [Prog.wp_bind]
  refine Prog.wp_mono (withinQuota_greets hcopy ha text) fun allowed b hb => ?_
  split
  · rename_i h
    exact hP b (hb.resolve_left fun hno => by rw [h] at hno; cases hno)
  · trivial

end

theorem opening_greets {name : Option String} {type : String} {content mediaId : Option String}
    {f : Option Conversation → BotM Unit} (hnone : f none = pure ())
    (hsome : ∀ c b, b.Has c → (f (some c)).wp (greetMonitor cfg) (fun _ _ => True) b) :
    (receive cfg channel waId name key type content mediaId >>= f).wp (greetMonitor cfg)
      (fun _ _ => True) a := by
  rw [Prog.wp_bind]
  refine Prog.wp_mono (receive_read ..) fun r b hb => ?_
  cases r with
  | none => rw [hnone]; trivial
  | some c => exact hsome c b (hb c rfl)

/-! ## The handlers -/

section

variable (hprevent : cfg.session.preventDuplicateWelcome = true) (hcopy : OwnCopy cfg)
include hprevent hcopy

theorem answerText_greets (ha : a.Has c) (name : Option String) (text : String) :
    (answerText cfg channel waId name key text c).wp (greetMonitor cfg) (fun _ _ => True) a := by
  unfold answerText
  rw [Prog.wp_bind]
  refine Prog.wp_mono (shouldWelcome_owed hprevent ha) fun owed b hb => ?_
  obtain ⟨hb, howed⟩ := hb
  have hfirst : (owed && !cfg.rules.isCourtesyOnly text) = true → c.welcomeSentAt = none :=
    fun h => howed (Bool.and_eq_true_iff.mp h).1
  generalize (owed && !cfg.rules.isCourtesyOnly text) = first at hfirst ⊢
  dsimp only
  split
  · rename_i h
    exact sendFixed_greets (says_owed hb (hfirst (Bool.and_eq_true_iff.mp h).1))
  · split
    · rename_i h
      exact sendFixed_greets (says_owed hb (hfirst (Bool.and_eq_true_iff.mp h).1))
    · split
      · exact sendFixed_prefixed hb hfirst hcopy.outOfScopeReply
      · exact calm_bind (buildHistory_only _ _) hb fun _ _ hb =>
          generateAndSend_greets hcopy hb _ _ _ _ hfirst

theorem answerSelection_greets (ha : a.Has c) (name : Option String) (selectionId label : String) :
    (answerSelection cfg channel waId name key selectionId label c).wp (greetMonitor cfg)
      (fun _ _ => True) a := by
  unfold answerSelection
  rw [Prog.wp_bind]
  refine Prog.wp_mono (shouldWelcome_owed hprevent ha) fun first b hb => ?_
  obtain ⟨hb, hfirst⟩ := hb
  split
  · exact beginHandoff_greets hcopy.salesHandoffAck
  · split
    · exact beginHandoff_greets hcopy.handoffAck
    · split
      · exact sendFixed_prefixed hb hfirst (hcopy.serviceAck selectionId)
      · exact calm_bind (buildHistory_only _ _) hb fun _ _ hb =>
          generateAndSend_greets hcopy hb _ _ _ _ hfirst

theorem handleTextMessage_greets (name : Option String) (text : String) :
    (handleTextMessage cfg channel waId name key text).wp (greetMonitor cfg) (fun _ _ => True) a :=
  opening_greets rfl fun _ _ hb => calm_bind (announce_only _) hb fun _ _ hb =>
    calm_bind (markRead_only _ _) hb fun _ _ hb => gates_greets hcopy hb fun _ hb =>
      quota_greets hcopy hb fun _ hb => answerText_greets hprevent hcopy hb name text

theorem handleInteractiveMessage_greets (name : Option String) (selectionId title : String) :
    (handleInteractiveMessage cfg channel waId name key selectionId title).wp (greetMonitor cfg)
      (fun _ _ => True) a :=
  opening_greets rfl fun _ _ hb => calm_bind (announce_only _) hb fun _ _ hb =>
    calm_bind (markRead_only _ _) hb fun _ _ hb => gates_greets hcopy hb fun _ hb =>
      quota_greets hcopy hb fun _ hb => answerSelection_greets hprevent hcopy hb name _ _

theorem handleMediaMessage_greets (name : Option String) (type : String)
    (mediaId caption : Option String) :
    (handleMediaMessage cfg channel waId name key type mediaId caption).wp (greetMonitor cfg)
      (fun _ _ => True) a :=
  opening_greets rfl fun _ _ hb => calm_bind (announce_only _) hb fun _ _ hb =>
    calm_bind (markRead_only _ _) hb fun _ _ hb => gates_greets hcopy hb fun _ hb =>
      quota_greets hcopy hb fun _ hb => by
        rw [Prog.wp_bind]
        refine Prog.wp_mono (shouldWelcome_owed hprevent hb) fun _ _ hb => ?_
        exact calm_bind (buildHistory_only _ _) hb.1 fun _ _ hb' =>
          generateAndSend_greets hcopy hb' _ _ _ _ hb.2

theorem handleUnsupportedMessage_greets (name : Option String) (type : String) :
    (handleUnsupportedMessage cfg channel waId name key type).wp (greetMonitor cfg)
      (fun _ _ => True) a :=
  opening_greets rfl fun _ _ hb => calm_bind (announce_only _) hb fun _ _ hb =>
    gates_greets hcopy hb fun _ hb => by
      rw [Prog.wp_bind]
      refine Prog.wp_mono (shouldWelcome_owed hprevent hb) fun _ _ hb => ?_
      exact sendFixed_prefixed hb.1 hb.2 hcopy.unsupportedMessage

end

end Chat
