import WhatsAppBot.Chat.Proof.Serve
import WhatsAppBot.Chat.Proof.Trimming
import WhatsAppBot.Store.Proof.Writes

/-!
# What the model is shown

A handler that asks the model has claimed its message, built the history and sent nothing since. So
the history a handler of texts or of selections asks with is `build_history`'s, of the rows there
are, and the handler of media adds a turn of its own to it (`asked_with`). `shown_once_iff`: that
respects both limits and ends with the message that is answered exactly if the handler is not the one
of media and the message is the newest of its conversation.

The way to the model is followed from the front (`Leaves.past`); before the claim and after it no
operation on it writes a message.
-/

set_option autoImplicit false

namespace Chat

open Lib Store Bot Webhook

/-- The operation asks the model with this history. -/
def Asks (history : List Turn) (o : Op) : Prop := ∃ instructions, o = .generateReply history instructions

/-- The operation on the way to the model leaves the messages as they are. -/
def isPrelude : Op → Bool
  | .sql s =>
    match s with
    | .claimInbound _ _ _ _ _ | .reserveReply _ _ _ _ | .confirmReply _ _ _ | .create _ _ _ _
    | .setOperator _ _ | .updateStatusByWaId _ _ => false
    | _ => true
  | .generateReply _ _ | .rollback => false
  | _ => true

variable {cfg : Config} {channel : Channel} {waId key : String} {name : Option String} {o : Op}
  {α : Type}

/-- The handlers that ask the model. -/
inductive Handler where
  | text (text : String)
  | interactive (selectionId title : String)
  | media (type : String) (mediaId caption : Option String)

namespace Handler

def run (cfg : Config) (channel : Channel) (waId : String) (name : Option String) (key : String) :
    Handler → BotM Unit
  | .text body => handleTextMessage cfg channel waId name key body
  | .interactive selectionId title =>
    handleInteractiveMessage cfg channel waId name key selectionId title
  | .media type mediaId caption => handleMediaMessage cfg channel waId name key type mediaId caption

/-- The type and the content its message is stored with. -/
def type : Handler → String
  | .text _ => "text"
  | .interactive _ _ => "interactive"
  | .media type _ _ => type

def content : Handler → String
  | .text body => body
  | .interactive selectionId title => Menu.labelFor selectionId title
  | .media type _ caption => captionOr type caption

/-- What it makes of the history. -/
def shows : Handler → List Turn → List Turn
  | .media type _ caption, history => history ++ [mediaTurn type caption]
  | _, history => history

def isMedia : Handler → Bool
  | .media _ _ _ => true
  | _ => false

end Handler

abbrev OnlyPrelude (P : BotM α) : Prop := P.Only fun o => isPrelude o = true

abbrev Unasked (P : BotM α) : Prop := P.Only fun o => ∀ history, ¬Asks history o

theorem isPrelude_of_inContext (h : inContext o = true) : isPrelude o = true := by
  cases o with
  | sql s => cases s <;> first | rfl | cases h
  | now | raise => rfl
  | _ => cases h

theorem isPrelude_of_isTouch (h : isTouch o = true) : isPrelude o = true := by
  cases o with
  | sql s => cases s <;> first | rfl | cases h
  | now => rfl
  | _ => cases h

theorem not_asks_of_isPrelude {history : List Turn} (h : isPrelude o = true) : ¬Asks history o := by
  rintro ⟨instructions, rfl⟩
  cases h

theorem OnlyPrelude.unasked {P : BotM α} (h : OnlyPrelude P) : Unasked P :=
  h.mono fun _ ho _ => not_asks_of_isPrelude ho

/-! ## Before the model is asked -/

theorem touch_prelude (id : Nat) (outgoing : Bool) : OnlyPrelude (touch cfg id outgoing) :=
  (touch_onlyTouch cfg id outgoing).mono fun _ => isPrelude_of_isTouch

theorem announce_prelude (id : Nat) : OnlyPrelude (announce id) := Prog.only_call.mpr rfl

theorem markRead_prelude : OnlyPrelude (markRead channel key) := by
  unfold markRead
  split
  · exact Prog.only_call.mpr rfl
  · trivial

theorem shouldWelcome_prelude (c : Conversation) : OnlyPrelude (shouldWelcome cfg c) := by
  unfold shouldWelcome
  repeat' split
  · trivial
  · trivial
  · trivial
  · trivial
  · exact Prog.Only.call_bind rfl fun _ => trivial

theorem buildHistory_prelude (id : Nat) : OnlyPrelude (buildHistory cfg id) := by
  refine Prog.Only.call_bind rfl fun messages => ?_
  cases historyOf cfg messages with
  | some history => trivial
  | none => exact only_raise rfl

theorem cachedFor_prelude (replyTo : Option String) : OnlyPrelude (cachedFor replyTo) := by
  unfold cachedFor
  split
  · exact Prog.only_call.mpr rfl
  · trivial

theorem retrieveFor_prelude (query : String) : OnlyPrelude (retrieveFor cfg query) := by
  unfold retrieveFor
  split
  · exact Prog.only_call.mpr rfl
  · trivial

/-! ## After it is -/

theorem recordWelcome_unasked (id : Nat) : Unasked (recordWelcome id) :=
  Prog.Only.call_bind nofun fun _ => only_exec_bind nofun (Prog.only_call.mpr nofun)

theorem clearFor_unasked (replyTo : Option String) : Unasked (clearFor replyTo) := by
  unfold clearFor
  split
  · exact Prog.only_call.mpr nofun
  · trivial

theorem logDraft_unasked (id : Nat) (d : Draft) : Unasked (logDraft cfg id d) := by
  unfold logDraft
  split
  · exact only_exec nofun
  · exact only_exec nofun
  · trivial

theorem sendOnce_unasked (text : String) (id : Nat) (form : Form) :
    Unasked (sendOnce cfg channel waId id text (some key) form) :=
  sendOnce_only_of (touch_prelude id true).unasked nofun nofun (fun _ _ _ => nofun) nofun nofun
    fun _ => nofun

theorem sendFixed_unasked (id : Nat) (text : String) (welcome : Bool) (form : Form) :
    Unasked (sendFixed cfg channel waId id text (some key) welcome form) := by
  refine (sendOnce_unasked text id form).bind fun sent => ?_
  split
  · exact (only_when (recordWelcome_unasked id)).bind fun _ => (announce_prelude id).unasked
  · trivial

theorem beginHandoff_unasked (c : Conversation) (ack reason : String) (tag : Option String) :
    Unasked (beginHandoff cfg channel waId c ack reason tag (some key)) := by
  have hmode : Unasked (setMode c .human none tag) :=
    Prog.Only.call_bind nofun fun _ => Prog.Only.call_bind nofun fun _ =>
      only_exec_bind nofun trivial
  exact hmode.bind fun d => Prog.Only.call_bind nofun fun _ => Prog.Only.call_bind nofun fun _ =>
    (sendOnce_unasked ack d.id .text).bind fun _ => (announce_prelude d.id).unasked

theorem handledByHuman_unasked (c : Conversation) (text : Option String) :
    Unasked (handledByHuman cfg channel waId c text (some key)) := by
  unfold handledByHuman
  split
  · trivial
  · split
    · exact (beginHandoff_unasked ..).bind fun _ => trivial
    · split
      · exact (beginHandoff_unasked ..).bind fun _ => trivial
      · trivial

theorem withinQuota_unasked (id : Nat) (text : Option String) :
    Unasked (withinQuota cfg channel waId id key text) := by
  refine Prog.Only.call_bind nofun fun decision => ?_
  split
  · trivial
  · exact (only_when (sendFixed_unasked ..)).bind fun _ => trivial

theorem receive_unasked (type : String) (content mediaId : Option String) :
    Unasked (receive cfg channel waId name key type content mediaId) :=
  receive_only_of ((context_only cfg channel waId name).mono fun _ h _ =>
      not_asks_of_isPrelude (isPrelude_of_inContext h))
    (fun id => (touch_prelude id false).unasked) (fun _ => nofun) nofun nofun

/-! ## The messages there are -/

variable {w w' : World} {tx tx' : Tx} {ms : List Message} {tr : List (Obs botSig)}

/-- The messages as the transaction sees them. -/
def SeesMessages (ms : List Message) (w : World) (tx : Tx) : Prop :=
  (w.db.applyAll tx).messages = ms

/-- All messages are committed. -/
def Settled (ms : List Message) (w : World) (tx : Tx) : Prop :=
  w.db.messages = ms ∧ ∀ x ∈ tx, x.isMessage = false

theorem Settled.sees (h : Settled ms w tx) : SeesMessages ms w tx :=
  (Db.messages_applyAll h.2).trans h.1

theorem isMessage_of_isPrelude {s : Stmt} {r : s.Resp} {ws : List Write} {now : Time} {seq : Nat}
    {locked : Nat → Bool} {db : Db} (hs : isPrelude (.sql s) = true)
    (h : s.exec now seq locked db = some (r, ws)) : ∀ x ∈ ws, x.isMessage = false := by
  intro x hx
  have hmade := Stmt.exec_made h hx
  cases x with
  | insertMessage m =>
    rcases hmade with ⟨_, _, _, _, rfl, -⟩ | ⟨_, _, _, rfl, -⟩ | ⟨_, _, _, rfl, -⟩ <;> cases hs
  | updateMessage id u =>
    cases u with
    | setStatus status =>
      obtain ⟨_, rfl⟩ := hmade
      cases hs
    | _ => obtain rfl := hmade; cases hs
  | _ => rfl

theorem seesMessages_step {r : o.Resp} (ho : isPrelude o = true)
    (hs : step cfg [] w tx o r = some (w', tx')) (h : SeesMessages ms w tx) :
    SeesMessages ms w' tx' := by
  unfold SeesMessages at h ⊢
  cases o with
  | sql s =>
    obtain ⟨ws, hexec, -, hdb, -, rfl⟩ := step_sql hs
    rw [hdb, Db.applyAll_append, Db.messages_applyAll (isMessage_of_isPrelude ho hexec), h]
  | commit =>
    obtain ⟨hdb, -, rfl⟩ := step_commit hs
    rw [hdb]
    exact h
  | rollback | generateReply => cases ho
  | raise => cases r
  | _ =>
    obtain ⟨hdb, -, rfl⟩ := step_quiet rfl hs
    rw [hdb, h]

theorem settled_step {r : o.Resp} (ho : isPrelude o = true)
    (hs : step cfg [] w tx o r = some (w', tx')) (h : Settled ms w tx) : Settled ms w' tx' := by
  cases o with
  | sql s =>
    obtain ⟨ws, hexec, -, hdb, -, rfl⟩ := step_sql hs
    exact ⟨hdb ▸ h.1, List.forall_mem_append.mpr ⟨h.2, isMessage_of_isPrelude ho hexec⟩⟩
  | commit =>
    obtain ⟨hdb, -, rfl⟩ := step_commit hs
    exact ⟨hdb ▸ h.sees, List.forall_mem_nil _⟩
  | rollback | generateReply => cases ho
  | raise => cases r
  | _ =>
    obtain ⟨hdb, -, rfl⟩ := step_quiet rfl hs
    exact ⟨hdb ▸ h.1, h.2⟩

theorem sees_returned {P : BotM α} {x : α} (hP : OnlyPrelude P)
    (h : Exec (sem cfg) w tx P tr (.returned x) w' tx') (hms : SeesMessages ms w tx) :
    SeesMessages ms w' tx' :=
  h.keeps (fun ho hs => seesMessages_step ho hs) hP hms

theorem settled_returned {P : BotM α} {x : α} (hP : OnlyPrelude P)
    (h : Exec (sem cfg) w tx P tr (.returned x) w' tx') (hms : Settled ms w tx) :
    Settled ms w' tx' :=
  h.keeps (fun ho hs => settled_step ho hs) hP hms

theorem sees_insert {m : Message} (h : SeesMessages ms w tx) (hdb : w'.db = w.db) :
    SeesMessages (ms ++ [m]) w' (tx ++ [.insertMessage m]) := by
  rw [SeesMessages, hdb, Db.applyAll_append]
  exact congrArg (· ++ [m]) h

/-- The row a handler claims. -/
structure IsClaimed (key type : String) (content : Option String) (c : Nat) (m : Message) : Prop where
  waMessageId : m.waMessageId = some key
  conversationId : m.conversationId = c
  type : m.type = type
  content : m.content = content

/-- **A claimed message is stored, and its id is new.** -/
theorem receive_returned {type : String} {content mediaId : Option String} {c : Conversation}
    (h : Exec (sem cfg) w [] (receive cfg channel waId name key type content mediaId) tr
      (.returned (some c)) w' tx') :
    ∃ m, Settled (w.db.messages ++ [m]) w' tx' ∧
      (∀ x ∈ w.db.messages, x.waMessageId ≠ some key) ∧ IsClaimed key type content c.id m := by
  obtain ⟨d, w₁, tx₁, _, _, -, hcontext, h⟩ := h.bind_returned
  have hsees : SeesMessages w.db.messages w₁ tx₁ :=
    sees_returned ((context_only cfg channel waId name).mono fun _ => isPrelude_of_inContext)
      hcontext rfl
  obtain ⟨claimed, w₂, tx₂, _, -, hclaim, h⟩ := h.call_bind_returned
  change step cfg [] w₁ tx₁ (.sql (.claimInbound d.id key type content mediaId)) claimed = _ at hclaim
  obtain ⟨ws, hexec, -, hdb, -, rfl⟩ := step_sql hclaim
  simp only [Stmt.exec] at hexec
  split at hexec
  · obtain ⟨rfl, rfl⟩ := Prod.mk.inj (Option.some.inj hexec)
    obtain ⟨_, _, _, _, -, -, h⟩ := h.call_bind_returned
    cases h
  · rename_i hnew
    split at hexec
    · obtain ⟨rfl, rfl⟩ := Prod.mk.inj (Option.some.inj hexec)
      obtain ⟨_, w₃, tx₃, _, _, -, htouch, h⟩ := h.bind_returned
      obtain ⟨_, w₄, tx₄, _, -, hcommit, h⟩ := h.call_bind_returned
      obtain ⟨hret, -, rfl, rfl⟩ := h.pure_returned
      obtain rfl : c = d := Option.some.inj hret
      have hclaimed := sees_returned (touch_prelude c.id false) htouch (sees_insert hsees hdb)
      change step cfg [] w₃ tx₃ .commit () = _ at hcommit
      obtain ⟨hcommitted, -, rfl⟩ := step_commit hcommit
      refine ⟨_, ⟨(congrArg Db.messages hcommitted).trans hclaimed, List.forall_mem_nil _⟩,
        fun x hx hkey => ?_, ⟨rfl, rfl, rfl, rfl⟩⟩
      rw [← hsees] at hx
      exact hnew (List.any_eq_true.mpr ⟨x, hx, decide_eq_true hkey⟩)
    · cases hexec

/-! ## The way to the model -/

variable {Q : BotM Unit} {history : List Turn}

theorem not_asks {P : BotM α} (hP : Unasked P) : P.Only fun o => ¬Asks history o :=
  hP.mono fun _ ho => ho history

theorem generate_asks {given : List Turn} {query replyTo : Option String}
    {welcome generalQuestion : Bool} {Q : BotM Draft}
    (h : Leaves (sem cfg) w tx (generate cfg name given query replyTo welcome generalQuestion) tr w'
      tx' Q) (hQ : Q.At (Asks history)) (hms : Settled ms w tx) :
    history = given ∧ w'.db.messages = ms := by
  obtain ⟨documents, w₁, tx₁, _, _, -, hretrieve, h⟩ :=
    h.past (not_asks (retrieveFor_prelude _).unasked) hQ
  have hms := settled_returned (retrieveFor_prelude _) hretrieve hms
  obtain ⟨_, w₂, tx₂, _, _, -, hrollback, h⟩ := h.past (not_asks (Prog.only_call.mpr nofun)) hQ
  have hstep : step cfg [] w₁ tx₁ .rollback () = some (w₂, tx₂) := hrollback.call_returned
  obtain ⟨rfl, rfl⟩ := step_rollback hstep
  cases h with
  | here =>
    obtain ⟨instructions, heq⟩ := hQ
    obtain ⟨rfl, -⟩ := Op.generateReply.inj heq
    exact ⟨rfl, hms.1⟩
  | @op _ _ _ _ _ _ _ result _ _ _ _ h =>
    refine absurd hQ (h.not_at (not_asks ?_))
    cases result with
    | error message => exact Prog.only_pure _
    | ok result =>
      have hstore (g : Generation) : Unasked (storeFor replyTo g) := by
        unfold storeFor
        split
        · exact Prog.only_call.mpr nofun
        · trivial
      exact (hstore _).bind fun _ => Prog.Only.call_bind nofun fun _ => trivial

/-- The model is asked with the history it is given, and nothing has been written on the way. -/
theorem generateAndSend_asks {id : Nat} {given : List Turn} {query : Option String}
    {welcome generalQuestion : Bool}
    (h : Leaves (sem cfg) w tx (generateAndSend cfg channel waId name id given query (some key)
      welcome generalQuestion) tr w' tx' Q) (hQ : Q.At (Asks history)) (hms : Settled ms w tx) :
    history = given ∧ w'.db.messages = ms := by
  rcases h.at_bind hQ with ⟨P, h, hP⟩ | ⟨draft, _, _, _, _, -, -, h⟩
  · obtain ⟨cached, w₁, tx₁, _, _, -, hcached, h⟩ :=
      h.past (not_asks (cachedFor_prelude _).unasked) hP
    cases cached with
    | some g => exact absurd hP (h.not_at (Prog.only_pure _))
    | none => exact generate_asks h hP (settled_returned (cachedFor_prelude _) hcached hms)
  · refine absurd hQ (h.not_at (not_asks ((logDraft_unasked id draft).bind fun _ =>
      (sendOnce_unasked _ id .text).bind fun sent => ?_)))
    split
    · exact (only_when (recordWelcome_unasked id)).bind fun _ => (clearFor_unasked _).bind fun _ =>
        (announce_prelude id).unasked
    · trivial

theorem handledByHuman_false {c : Conversation} {text : Option String}
    (h : Exec (sem cfg) w tx (handledByHuman cfg channel waId c text (some key)) tr
      (.returned false) w' tx') : w' = w ∧ tx' = tx := by
  unfold handledByHuman at h
  split at h
  · exact nomatch h.pure_returned.1
  · split at h
    · obtain ⟨_, _, _, _, _, -, -, h⟩ := h.bind_returned
      exact nomatch h.pure_returned.1
    · split at h
      · obtain ⟨_, _, _, _, _, -, -, h⟩ := h.bind_returned
        exact nomatch h.pure_returned.1
      · exact h.pure_returned.2.2

theorem withinQuota_true {id : Nat} {text : Option String}
    (h : Exec (sem cfg) w tx (withinQuota cfg channel waId id key text) tr (.returned true) w' tx')
    (hms : Settled ms w tx) : Settled ms w' tx' := by
  obtain ⟨decision, w₁, tx₁, _, -, hs, h⟩ := h.call_bind_returned
  split at h
  · obtain ⟨-, -, rfl, rfl⟩ := h.pure_returned
    change step cfg [] w tx (.quotaCheck waId key text) decision = _ at hs
    exact settled_step rfl hs hms
  · obtain ⟨_, _, _, _, _, -, -, h⟩ := h.bind_returned
    exact nomatch h.pure_returned.1

/-- The human gate and the quota, then what asks. -/
theorem gated {c : Conversation} {text : Option String} {P : BotM Unit}
    (h : Leaves (sem cfg) w tx (do
      announce c.id
      markRead channel key
      if ← handledByHuman cfg channel waId c text (some key) then pure ()
      else if ← withinQuota cfg channel waId c.id key text then P
      else pure ()) tr w' tx' Q) (hQ : Q.At (Asks history)) (hms : Settled ms w tx) :
    ∃ w₁ tx₁ tr₁, Settled ms w₁ tx₁ ∧ Leaves (sem cfg) w₁ tx₁ P tr₁ w' tx' Q := by
  obtain ⟨_, w₁, tx₁, _, _, -, he, h⟩ := h.past (not_asks (announce_prelude c.id).unasked) hQ
  have hms := settled_returned (announce_prelude c.id) he hms
  obtain ⟨_, w₂, tx₂, _, _, -, he, h⟩ := h.past (not_asks markRead_prelude.unasked) hQ
  have hms := settled_returned markRead_prelude he hms
  obtain ⟨handled, w₃, tx₃, _, _, -, hhandled, hrest⟩ :=
    h.past (not_asks (handledByHuman_unasked c text)) hQ
  cases handled with
  | true => exact absurd hQ (hrest.not_at (Prog.only_pure _))
  | false =>
    obtain ⟨rfl, rfl⟩ := handledByHuman_false hhandled
    rw [if_neg Bool.false_ne_true] at hrest
    obtain ⟨allowed, w₄, tx₄, _, tr₄, -, hallowed, hP⟩ :=
      hrest.past (not_asks (withinQuota_unasked c.id text)) hQ
    cases allowed with
    | true => exact ⟨w₄, tx₄, tr₄, withinQuota_true hallowed hms, hP⟩
    | false => exact absurd hQ (hP.not_at (Prog.only_pure _))

theorem recent_congr {db db' : Db} (h : db.messages = db'.messages) (id n : Nat) :
    db.recent id n = db'.recent id n := by
  unfold Db.recent
  rw [h]

/-- The history is what `build_history` makes of the rows there still are when the model is asked. -/
theorem answers_with {id : Nat} (shows : List Turn → List Turn) {query : Option String}
    {welcome generalQuestion : Bool} (h : Leaves (sem cfg) w tx (do
      let given ← buildHistory cfg id
      generateAndSend cfg channel waId name id (shows given) query (some key) welcome
        generalQuestion) tr w' tx' Q) (hQ : Q.At (Asks history)) (hms : Settled ms w tx) :
    ∃ given, historyOf cfg (w'.db.recent id (cfg.maxContextMessages * 2)) = some given ∧
      history = shows given ∧ w'.db.messages = ms := by
  obtain ⟨given, w₁, tx₁, _, _, -, hbuild, h⟩ :=
    h.past (not_asks (buildHistory_prelude id).unasked) hQ
  obtain ⟨hhistory, hmessages⟩ :=
    generateAndSend_asks h hQ (settled_returned (buildHistory_prelude id) hbuild hms)
  have hgiven := buildHistory_returns hbuild
  rw [recent_congr (hms.sees.trans hmessages.symm)] at hgiven
  exact ⟨given, hgiven, hhistory, hmessages⟩

theorem answerText_asks {text : String} {c : Conversation}
    (h : Leaves (sem cfg) w tx (answerText cfg channel waId name key text c) tr w' tx' Q)
    (hQ : Q.At (Asks history)) (hms : Settled ms w tx) :
    ∃ given, historyOf cfg (w'.db.recent c.id (cfg.maxContextMessages * 2)) = some given ∧
      history = given ∧ w'.db.messages = ms := by
  obtain ⟨owed, w₁, tx₁, _, _, -, he, h⟩ := h.past (not_asks (shouldWelcome_prelude c).unasked) hQ
  have hms := settled_returned (shouldWelcome_prelude c) he hms
  dsimp only at h
  split at h
  · exact absurd hQ (h.not_at (not_asks (sendFixed_unasked ..)))
  · split at h
    · exact absurd hQ (h.not_at (not_asks (sendFixed_unasked ..)))
    · split at h
      · exact absurd hQ (h.not_at (not_asks (sendFixed_unasked ..)))
      · exact answers_with (fun given => given) h hQ hms

theorem answerSelection_asks {selectionId label : String} {c : Conversation}
    (h : Leaves (sem cfg) w tx (answerSelection cfg channel waId name key selectionId label c) tr w'
      tx' Q) (hQ : Q.At (Asks history)) (hms : Settled ms w tx) :
    ∃ given, historyOf cfg (w'.db.recent c.id (cfg.maxContextMessages * 2)) = some given ∧
      history = given ∧ w'.db.messages = ms := by
  obtain ⟨first, w₁, tx₁, _, _, -, he, h⟩ := h.past (not_asks (shouldWelcome_prelude c).unasked) hQ
  have hms := settled_returned (shouldWelcome_prelude c) he hms
  split at h
  · exact absurd hQ (h.not_at (not_asks (beginHandoff_unasked ..)))
  · split at h
    · exact absurd hQ (h.not_at (not_asks (beginHandoff_unasked ..)))
    · split at h
      · exact absurd hQ (h.not_at (not_asks (sendFixed_unasked ..)))
      · exact answers_with (fun given => given) h hQ hms

/-- A handler that asks has claimed its message. -/
theorem opened {type : String} {content mediaId : Option String}
    {f : Option Conversation → BotM Unit} (hnone : f none = pure ())
    (h : Leaves (sem cfg) w [] (receive cfg channel waId name key type content mediaId >>= f) tr w'
      tx' Q) (hQ : Q.At (Asks history)) :
    ∃ c m w₁ tx₁ tr₁, Settled (w.db.messages ++ [m]) w₁ tx₁ ∧
      (∀ x ∈ w.db.messages, x.waMessageId ≠ some key) ∧ IsClaimed key type content c.id m ∧
      Leaves (sem cfg) w₁ tx₁ (f (some c)) tr₁ w' tx' Q := by
  obtain ⟨r, w₁, tx₁, _, tr₁, -, he, h⟩ :=
    h.past (not_asks (receive_unasked type content mediaId)) hQ
  cases r with
  | none =>
    rw [hnone] at h
    exact absurd hQ (h.not_at (Prog.only_pure _))
  | some c =>
    obtain ⟨m, hms, hnew, hm⟩ := receive_returned he
    exact ⟨c, m, w₁, tx₁, tr₁, hms, hnew, hm, h⟩

/-- **What a handler asks the model with.** Its message is the last that was stored, and what it
shows is made of the history of the messages there are. -/
theorem asked_with {handler : Handler}
    (h : Leaves (sem cfg) w [] (handler.run cfg channel waId name key) tr w' tx' Q)
    (hQ : Q.At (Asks history)) :
    ∃ m c given, w'.db.messages = w.db.messages ++ [m] ∧
      (∀ x ∈ w.db.messages, x.waMessageId ≠ some key) ∧
      IsClaimed key handler.type (some handler.content) c m ∧
      historyOf cfg (w'.db.recent c (cfg.maxContextMessages * 2)) = some given ∧
      history = handler.shows given := by
  cases handler with
  | text text =>
    obtain ⟨c, m, w₁, tx₁, _, hms, hnew, hm, h⟩ := opened rfl h hQ
    obtain ⟨w₂, tx₂, _, hms, h⟩ := gated h hQ hms
    obtain ⟨given, hgiven, hhistory, hmessages⟩ := answerText_asks h hQ hms
    exact ⟨m, c.id, given, hmessages, hnew, hm, hgiven, hhistory⟩
  | interactive selectionId title =>
    obtain ⟨c, m, w₁, tx₁, _, hms, hnew, hm, h⟩ := opened rfl h hQ
    obtain ⟨w₂, tx₂, _, hms, h⟩ := gated h hQ hms
    obtain ⟨given, hgiven, hhistory, hmessages⟩ := answerSelection_asks h hQ hms
    exact ⟨m, c.id, given, hmessages, hnew, hm, hgiven, hhistory⟩
  | media type mediaId caption =>
    obtain ⟨c, m, w₁, tx₁, _, hms, hnew, hm, h⟩ := opened rfl h hQ
    obtain ⟨w₂, tx₂, _, hms, h⟩ := gated h hQ hms
    obtain ⟨first, w₃, tx₃, _, _, -, he, h⟩ :=
      h.past (not_asks (shouldWelcome_prelude c).unasked) hQ
    obtain ⟨given, hgiven, hhistory, hmessages⟩ := answers_with (· ++ [mediaTurn type caption]) h hQ
      (settled_returned (shouldWelcome_prelude c) he hms)
    exact ⟨m, c.id, given, hmessages, hnew, hm, hgiven, hhistory⟩

/-! ## The newest message -/

/-- The message comes after every other of its conversation. -/
def IsNewest (db : Db) (key : String) : Prop :=
  ∃ m ∈ db.messages, m.waMessageId = some key ∧ ∀ x ∈ db.messages,
    x.conversationId = m.conversationId → x.waMessageId ≠ some key → x.createdAt < m.createdAt

/-- **The limits are kept, and the message that is answered is shown once**, at the end of stored
messages of its conversation. -/
structure ShownOnce (cfg : Config) (db : Db) (key : String) (history : List Turn) : Prop where
  length : history.length ≤ cfg.maxContextMessages
  budget : history.length ≤ 1 ∨ spent cfg.encoding history ≤ cfg.maxContextTokens
  last : ∃ m ∈ db.messages, m.waMessageId = some key ∧ ∃ rows,
    rows ++ [m] <:+ db.recent m.conversationId (cfg.maxContextMessages * 2) ∧ m ∉ rows ∧
      history = (rows ++ [m]).map turnOf

/-- Sorted with the newest first, the last of a list comes first only if it is newer than all others:
the sort is stable. -/
theorem head_insertionSort_concat {fs : List Message} {m : Message} (hm : m ∉ fs) :
    ((fs ++ [m]).insertionSort fun a b => b.createdAt ≤ a.createdAt).head? = some m ↔
      ∀ x ∈ fs, x.createdAt < m.createdAt := by
  have hperm := List.perm_insertionSort (fun a b : Message => b.createdAt ≤ a.createdAt) (fs ++ [m])
  have hsorted := List.pairwise_insertionSort (fun a b : Message => b.createdAt ≤ a.createdAt)
    (fs ++ [m])
  have hpair (x : Message) (hx : x ∈ fs) (hle : m.createdAt ≤ x.createdAt) :
      [x, m].Sublist ((fs ++ [m]).insertionSort fun a b => b.createdAt ≤ a.createdAt) :=
    List.pair_sublist_insertionSort hle ((List.singleton_sublist.mpr hx).append (List.Sublist.refl [m]))
  generalize (fs ++ [m]).insertionSort (fun a b => b.createdAt ≤ a.createdAt) = sorted at *
  cases sorted with
  | nil => exact absurd hperm.length_eq (by simp)
  | cons first rest =>
    simp only [List.head?_cons, Option.some.injEq]
    constructor
    · rintro rfl x hx
      refine lt_of_not_ge fun hle => ?_
      -- Behind `x`, `m` would be in the list twice.
      have hcount : (first :: rest).count first = 1 := by
        rw [hperm.count_eq, List.count_append, List.count_eq_zero.mpr hm, List.count_singleton_self]
      rcases List.sublist_cons_iff.mp (hpair x hx hle) with hrest | ⟨_, heq, -⟩
      · have hmem : first ∈ rest := hrest.subset (by simp)
        rw [List.count_cons_self] at hcount
        exact absurd (List.count_pos_iff.mpr hmem) (by omega)
      · exact hm ((List.cons.inj heq).1 ▸ hx)
    · intro hnewer
      rcases List.mem_append.mp (hperm.subset List.mem_cons_self) with hfirst | hfirst
      · have hmem : m ∈ first :: rest := hperm.symm.subset (by simp)
        rcases List.mem_cons.mp hmem with rfl | hmem
        · rfl
        · exact absurd (List.rel_of_pairwise_cons hsorted hmem) (not_le.mpr (hnewer first hfirst))
      · exact List.mem_singleton.mp hfirst

/-- The message was stored last, under a new id. -/
structure IsLastStored (db : Db) (key : String) (m : Message) : Prop where
  messages : ∃ ms, db.messages = ms ++ [m] ∧ ∀ x ∈ ms, x.waMessageId ≠ some key
  waMessageId : m.waMessageId = some key

namespace IsLastStored

variable {db : Db} {m : Message}

theorem mem (h : IsLastStored db key m) : m ∈ db.messages := by
  obtain ⟨ms, hms, -⟩ := h.messages
  rw [hms]
  simp

theorem eq_of_key (h : IsLastStored db key m) {x : Message} (hx : x ∈ db.messages)
    (hkey : x.waMessageId = some key) : x = m := by
  obtain ⟨ms, hms, hnew⟩ := h.messages
  rw [hms] at hx
  rcases List.mem_append.mp hx with hx | hx
  · exact absurd hkey (hnew x hx)
  · exact List.mem_singleton.mp hx

theorem isNewest_iff (h : IsLastStored db key m) {n : Nat} (hn : 1 ≤ n) :
    (db.recent m.conversationId n).getLast? = some m ↔ IsNewest db key := by
  obtain ⟨ms, hms, hnew⟩ := h.messages
  have hnot : m ∉ ms := fun hm => hnew m hm h.waMessageId
  have hfilter : (db.messages.filter fun x => x.conversationId = m.conversationId) =
      (ms.filter fun x => x.conversationId = m.conversationId) ++ [m] := by
    rw [hms, List.filter_append, List.filter_singleton]
    simp
  rw [Db.recent, List.getLast?_reverse, List.head?_take, if_neg (by omega), hfilter,
    head_insertionSort_concat fun hm => hnot (List.mem_of_mem_filter hm)]
  constructor
  · refine fun hnewer => ⟨m, h.mem, h.waMessageId, fun x hx hconv hkey => ?_⟩
    rw [hms] at hx
    rcases List.mem_append.mp hx with hx | hx
    · exact hnewer x (List.mem_filter.mpr ⟨hx, decide_eq_true hconv⟩)
    · exact absurd (List.mem_singleton.mp hx ▸ h.waMessageId) hkey
  · rintro ⟨m', hm', hkey', hnewer⟩ x hx
    obtain rfl := h.eq_of_key hm' hkey'
    obtain ⟨hx, hconv⟩ := List.mem_filter.mp hx
    exact hnewer x (by rw [hms]; exact List.mem_append_left _ hx) (of_decide_eq_true hconv)
      (hnew x hx)

/-- It is read at most once. -/
theorem not_mem_front (h : IsLastStored db key m) {rows : List Message} {n : Nat}
    (hrows : rows ++ [m] <:+ db.recent m.conversationId n) : m ∉ rows := by
  obtain ⟨ms, hms, hnew⟩ := h.messages
  intro hm
  have hcount : db.messages.count m = 1 := by
    rw [hms, List.count_append, List.count_singleton_self,
      List.count_eq_zero.mpr fun hm => hnew m hm h.waMessageId]
  have hle : (rows ++ [m]).count m ≤ db.messages.count m := by
    refine (hrows.sublist.count_le m).trans ?_
    rw [Db.recent, List.count_reverse]
    refine ((List.take_sublist _ _).count_le m).trans ?_
    rw [(List.perm_insertionSort _ _).count_eq]
    exact List.filter_sublist.count_le m
  rw [List.count_append, List.count_singleton_self] at hle
  exact absurd (List.count_pos_iff.mpr hm) (by omega)

end IsLastStored

/-! ## What every call shows -/

theorem mediaTurn_ne {type : String} {caption : Option String} {m : Message} (htype : m.type = type)
    (hcontent : m.content = some (captionOr type caption)) : mediaTurn type caption ≠ turnOf m := by
  intro heq
  have hlen := congrArg (fun turn : Turn => turn.content.length) heq
  simp only [mediaTurn, turnOf, hcontent, htype] at hlen
  have hask : " they would like done.".length = 22 := rfl
  have hreceived : "[".length + " received]".length = 11 := rfl
  cases caption with
  | none => simp [captionOr, receivedText] at hlen; omega
  | some text =>
    by_cases htext : text = ""
    · simp [captionOr, receivedText, htext] at hlen; omega
    · simp [captionOr, htext] at hlen; omega

/-- **A model call respects the limits and shows the message once** exactly if the handler is not the
one of media and the message is the newest of its conversation. -/
theorem shown_once_iff {handler : Handler} (hmax : 1 ≤ cfg.maxContextMessages)
    (h : Leaves (sem cfg) w [] (handler.run cfg channel waId name key) tr w' tx' Q)
    (hQ : Q.At (Asks history)) :
    ShownOnce cfg w'.db key history ↔ handler.isMedia = false ∧ IsNewest w'.db key := by
  obtain ⟨m, c, given, hmessages, hnew, hm, hgiven, rfl⟩ := asked_with h hQ
  obtain rfl := hm.conversationId
  have hstored : IsLastStored w'.db key m := ⟨⟨_, hmessages, hnew⟩, hm.waMessageId⟩
  have hlimit : 1 ≤ cfg.maxContextMessages * 2 := by omega
  constructor
  · rintro ⟨-, -, m', hm', hkey, rows, hrows, -, hshown⟩
    obtain rfl := hstored.eq_of_key hm' hkey
    refine ⟨?_, (hstored.isNewest_iff hlimit).mp ?_⟩
    · cases handler with
      | text | interactive => rfl
      | media type mediaId caption =>
        rw [List.map_append] at hshown
        exact absurd (List.singleton_inj.mp (List.append_inj_right' hshown rfl))
          (mediaTurn_ne hm.type hm.content)
    · obtain ⟨front, hfront⟩ := hrows
      rw [← hfront, ← List.append_assoc, List.getLast?_concat]
  · rintro ⟨hmedia, hnewest⟩
    have hshows : handler.shows given = given := by
      cases handler with
      | text | interactive => rfl
      | media => cases hmedia
    rw [hshows]
    obtain ⟨⟨front, hsuffix⟩, hlength, hlast, hbudget, -⟩ :=
      (trimHistory_longest _ _ _ _ hmax).2 given hgiven
    refine ⟨hlength, hbudget, m, hstored.mem, hm.waMessageId, ?_⟩
    obtain ⟨front, rows, hrecent, -, rfl⟩ := List.map_eq_append_iff.mp hsuffix.symm
    have hlatest := (hstored.isNewest_iff hlimit).mpr hnewest
    have hne : rows ≠ [] := by
      rintro rfl
      simp [List.getLast?_map, hlatest] at hlast
    rw [hrecent, List.getLast?_append_of_ne_nil _ hne] at hlatest
    obtain ⟨front', rfl⟩ := List.getLast?_eq_some_iff.mp hlatest
    have hsuffix : front' ++ [m] <:+ w'.db.recent m.conversationId (cfg.maxContextMessages * 2) :=
      ⟨_, hrecent.symm⟩
    exact ⟨front', hsuffix, hstored.not_mem_front hsuffix, rfl⟩

/-! ## Two handlers asking -/

/-- The operation asks the model with so many turns. -/
def asksWith (n : Nat) : BotM Unit → Bool
  | .op (.generateReply history _) _ => history.length = n
  | _ => false

theorem asks_of_asksWith {n : Nat} {P : BotM Unit} (h : asksWith n P = true) :
    ∃ history, history.length = n ∧ P.At (Asks history) := by
  cases P with
  | ret => cases h
  | op o k =>
    cases o with
    | generateReply history instructions =>
      exact ⟨history, of_decide_eq_true h, instructions, rfl⟩
    | _ => cases h

/-- Room for one message. -/
def oneMessage : Config := { Sample.config with maxContextMessages := 1 }

theorem asked_of_play {cfg : Config} {w : World} {P : BotM Unit} {n k : Nat}
    (h : ((play (sem cfg) (List.replicate k (Sample.answer Sample.accepted)) w [] P).any
      fun x => asksWith n x.2.2.2) = true) :
    ∃ tr w' tx' Q history, Leaves (sem cfg) w [] P tr w' tx' Q ∧ Q.At (Asks history) ∧
      history.length = n := by
  obtain ⟨⟨tr, w', tx', Q⟩, hplay, hend⟩ := (Option.any_eq_true _ _).mp h
  obtain ⟨history, hlength, hQ⟩ := asks_of_asksWith hend
  exact ⟨tr, w', tx', Q, history, Leaves.of_play hplay, hQ, hlength⟩

/-- A first text is shown, and nothing else. -/
theorem text_shown_once : ∃ tr w' tx' Q history,
    Leaves (sem Sample.config) (World.empty 0) []
      ((Handler.text "hi").run Sample.config .whatsapp "20100" none "wamid.1") tr w' tx' Q ∧
      Q.At (Asks history) ∧ history.length = 1 ∧ ShownOnce Sample.config w'.db "wamid.1" history := by
  obtain ⟨tr, w', tx', Q, history, hrun, hQ, hlength⟩ : ∃ tr w' tx' Q history,
      Leaves (sem Sample.config) (World.empty 0) []
        ((Handler.text "hi").run Sample.config .whatsapp "20100" none "wamid.1") tr w' tx' Q ∧
        Q.At (Asks history) ∧ history.length = 1 := asked_of_play (k := 20) (by decide +kernel)
  refine ⟨tr, w', tx', Q, history, hrun, hQ, hlength, (shown_once_iff (by decide) hrun hQ).mpr ⟨rfl, ?_⟩⟩
  obtain ⟨m, c, given, hmessages, -, hm, -⟩ := asked_with hrun hQ
  change w'.db.messages = [m] at hmessages
  refine ⟨m, by simp [hmessages], hm.waMessageId, fun x hx _ hkey => absurd ?_ hkey⟩
  rw [hmessages] at hx
  exact List.mem_singleton.mp hx ▸ hm.waMessageId

/-- An image is shown twice, also where there is room for one message only. -/
theorem media_over_limit : ¬∀ (cfg : Config) (channel : Channel) (waId key : String)
    (name : Option String) (handler : Handler) (w w' : World) (tx' : Tx) (tr : List (Obs botSig))
    (Q : BotM Unit) (history : List Turn), 1 ≤ cfg.maxContextMessages →
      Leaves (sem cfg) w [] (handler.run cfg channel waId name key) tr w' tx' Q →
        Q.At (Asks history) → ShownOnce cfg w'.db key history := by
  intro h
  obtain ⟨tr, w', tx', Q, history, hrun, hQ, hlength⟩ : ∃ tr w' tx' Q history,
      Leaves (sem oneMessage) (World.empty 0) []
        ((Handler.media "image" none none).run oneMessage .whatsapp "20100" none "wamid.1") tr w' tx'
        Q ∧ Q.At (Asks history) ∧ history.length = 2 := asked_of_play (k := 19) (by decide +kernel)
  have hshown := (h _ _ _ _ _ _ _ _ _ _ _ _ (by decide) hrun hQ).length
  rw [hlength] at hshown
  exact absurd hshown (by decide)

end Chat
