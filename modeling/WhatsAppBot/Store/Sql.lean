import Mathlib.Data.List.Sort
import WhatsAppBot.Store.Rows

/-!
# The repositories' statements

`Stmt`: one constructor for each statement `UserRepository`, `ConversationRepository`,
`MessageRepository` and `AILogRepository` send. `Stmt.exec` evaluates a statement on what its
transaction sees (the committed rows under its own writes): the answer and the writes it adds, or
`none` when it raises (a foreign key, a unique violation without `ON CONFLICT`). A statement whose
writes need a lock that somebody else holds waits; `Bot/World.lean` does that.
-/

set_option autoImplicit false

namespace Store

structure IdleSession where
  conversationId : Nat
  channel : Channel
  recipientId : Option String
  deriving DecidableEq

/-- `external_id or wa_id`. -/
def User.recipientId (u : User) : Option String :=
  if u.externalId ≠ "" then some u.externalId else u.waId

/-- `SWEEPABLE_CHANNELS`. -/
def sweepable : Channel → Bool
  | .whatsapp | .messenger => true
  | _ => false

inductive Stmt where
  | getByWaId (waId : String)
  | insertUser (waId : String) (name : Option String)
  | getByChannelId (channel : Channel) (externalId : String)
  | insertChannelUser (channel : Channel) (externalId : String) (name : Option String)
  | setUserName (id : Nat) (name : String)
  | getUser (id : Nat)
  | getConversation (id : Nat)
  | activeForUser (userId : Nat)
  | reopenRecent (userId : Nat) (notBefore now : Time)
  | reopen (id : Nat) (now : Time)
  | insertConversation (userId : Nat) (channel : Channel)
  | flushMode (id : Nat) (p : ModePatch)
  | touch (id : Nat) (now : Time)
  | markWelcomeSent (id : Nat) (now : Time)
  | countForUser (userId : Nat)
  | claimIdleSessions (idleBefore now : Time) (limit : Nat)
  | idleTargets (ids : List Nat)
  | close (id : Nat) (now : Time)
  | claimInbound (conversationId : Nat) (waMessageId type : String) (content mediaId : Option String)
  | reserveReply (conversationId : Nat) (replyTo content type : String)
  | confirmReply (id : Nat) (waMessageId : Option String) (status : String)
  | create (conversationId : Nat) (content : String) (waMessageId : Option String) (status : String)
  | setOperator (id : Nat) (operatorId : Option Nat)
  | recent (conversationId limit : Nat)
  | lastInboundAt (conversationId : Nat)
  | updateStatusByWaId (waMessageId status : String)
  | createAiLog (l : AiLog)

namespace Stmt

/-- What a statement answers. -/
def Resp : Stmt → Type
  | getByWaId _ | getByChannelId _ _ | getUser _ => Option User
  | getConversation _ | activeForUser _ => Option Conversation
  | reopenRecent _ _ _ | reopen _ _ | insertConversation _ _ | claimInbound _ _ _ _ _
  | reserveReply _ _ _ _ => Option Nat
  | countForUser _ | create _ _ _ _ => Nat
  | claimIdleSessions _ _ _ => List Nat
  | idleTargets _ => List IdleSession
  | recent _ _ => List Message
  | lastInboundAt _ => Option Time
  | insertUser _ _ | insertChannelUser _ _ _ | setUserName _ _ | flushMode _ _ | touch _ _
  | markWelcomeSent _ _ | close _ _ | confirmReply _ _ _ | setOperator _ _ | updateStatusByWaId _ _
  | createAiLog _ => Unit

instance : (s : Stmt) → DecidableEq s.Resp
  | getByWaId _ | getByChannelId _ _ | getUser _ => inferInstanceAs (DecidableEq (Option User))
  | getConversation _ | activeForUser _ => inferInstanceAs (DecidableEq (Option Conversation))
  | reopenRecent _ _ _ | reopen _ _ | insertConversation _ _ | claimInbound _ _ _ _ _
  | reserveReply _ _ _ _ => inferInstanceAs (DecidableEq (Option Nat))
  | countForUser _ | create _ _ _ _ => inferInstanceAs (DecidableEq Nat)
  | claimIdleSessions _ _ _ => inferInstanceAs (DecidableEq (List Nat))
  | idleTargets _ => inferInstanceAs (DecidableEq (List IdleSession))
  | recent _ _ => inferInstanceAs (DecidableEq (List Message))
  | lastInboundAt _ => inferInstanceAs (DecidableEq (Option Time))
  | insertUser _ _ | insertChannelUser _ _ _ | setUserName _ _ | flushMode _ _ | touch _ _
  | markWelcomeSent _ _ | close _ _ | confirmReply _ _ _ | setOperator _ _ | updateStatusByWaId _ _
  | createAiLog _ => inferInstanceAs (DecidableEq Unit)

end Stmt

/-! ## The queries' parts -/

/-- `ORDER BY f DESC LIMIT 1`. -/
def newest {α : Type} (f : α → Time) (xs : List α) : Option α :=
  (xs.insertionSort fun a b => f b ≤ f a).head?

namespace Db

def activeFor (db : Db) (userId : Nat) : List Conversation :=
  db.conversations.rows.filter fun c => c.userId = userId ∧ c.status = .active

/-- The candidate of `reopen_recent`. -/
def reopenCandidate (db : Db) (userId : Nat) (notBefore : Time) : Option Conversation :=
  newest (fun c => c.closedAt.getD 0) <| db.conversations.rows.filter fun c =>
    c.userId = userId ∧ c.status = .closed ∧ c.closedAt.any (notBefore ≤ ·)

/-- `claim_idle_sessions`' predicate. -/
def idleCandidate (idleBefore : Time) (c : Conversation) : Bool :=
  c.status = .active ∧ c.mode = .bot ∧ sweepable c.channel ∧ c.closingSentAt = none ∧
    c.lastActivityAt < idleBefore

/-- The rows `claim_idle_sessions` takes; rows somebody else has locked are skipped. -/
def idleCandidates (db : Db) (locked : Nat → Bool) (idleBefore : Time) (limit : Nat) :
    List Conversation :=
  ((db.conversations.rows.filter fun c => idleCandidate idleBefore c && !locked c.id).insertionSort
    fun a b => a.lastActivityAt ≤ b.lastActivityAt).take limit

def idleTargets (db : Db) (ids : List Nat) : List IdleSession :=
  (db.conversations.rows.filter fun c => ids.contains c.id).filterMap fun c =>
    (db.users.find? fun u => u.id = c.userId).map fun u => ⟨c.id, c.channel, u.recipientId⟩

def hasWaMessageId (db : Db) (k : String) : Bool :=
  db.messages.any fun m => m.waMessageId = some k

def hasReplyTo (db : Db) (k : String) : Bool :=
  db.messages.any fun m => m.replyToWaMessageId = some k

def lastInboundAt (db : Db) (conversationId : Nat) : Option Time :=
  (newest Message.createdAt <| db.messages.filter fun m =>
    m.conversationId = conversationId ∧ m.direction = .inbound).map (·.createdAt)

/-- The last `limit` messages, oldest first. -/
def recent (db : Db) (conversationId limit : Nat) : List Message :=
  (((db.messages.filter fun m => m.conversationId = conversationId).insertionSort
    fun a b => b.createdAt ≤ a.createdAt).take limit).reverse

end Db

/-- An update of one conversation row, when it is there. -/
def updateRow (db : Db) (id : Nat) (u : ConversationUpdate) : List Write :=
  match db.conversation id with
  | some c => [.updateConversation id c.userId u]
  | none => []

/-- `_revive`: a conditional update inside a savepoint. The row must be closed; a second active
conversation of its customer violates the partial unique index and answers `None`. -/
def revive (db : Db) (c : Conversation) (now : Time) : Option Nat × List Write :=
  if c.status = .closed ∧ db.activeFor c.userId = [] then
    (some c.id, [.updateConversation c.id c.userId (.revive now)])
  else (none, [])

def newConversation (id userId : Nat) (channel : Channel) (now : Time) : Conversation where
  id := id
  userId := userId
  channel := channel
  status := .active
  mode := .bot
  tag := none
  assignedOperator := none
  assignedOperatorId := none
  handoffAt := none
  lastActivityAt := now
  welcomeSentAt := none
  closingSentAt := none
  closedAt := none
  createdAt := now

def ModePatch.isEmpty (p : ModePatch) : Bool :=
  p = ⟨none, none, none, none, none, none⟩

/-! ## Evaluation -/

/-- The answer and the writes of a statement that sees `db`; `now` is the server's clock and `seq`
the id a new row gets. `locked` says which conversation rows other transactions hold. -/
def Stmt.exec (now : Time) (seq : Nat) (locked : Nat → Bool) (db : Db) :
    (s : Stmt) → Option (s.Resp × List Write)
  | .getByWaId waId => some (db.users.find? fun u => u.waId = some waId, [])
  | .insertUser waId name =>
    if db.users.any fun u => u.waId = some waId ∨ (u.channel = .whatsapp ∧ u.externalId = waId) then
      some ((), [])
    else some ((), [.insertUser ⟨seq, .whatsapp, waId, some waId, name⟩])
  | .getByChannelId channel externalId =>
    some (db.users.find? fun u => u.channel = channel ∧ u.externalId = externalId, [])
  | .insertChannelUser channel externalId name =>
    if db.users.any fun u => u.channel = channel ∧ u.externalId = externalId then some ((), [])
    else some ((), [.insertUser ⟨seq, channel, externalId, none, name⟩])
  | .setUserName id name => some ((), [.setUserName id name])
  | .getUser id => some (db.users.find? fun u => u.id = id, [])
  | .getConversation id => some (db.conversation id, [])
  | .activeForUser userId => some (newest Conversation.createdAt (db.activeFor userId), [])
  | .reopenRecent userId notBefore now =>
    match db.reopenCandidate userId notBefore with
    | some c => some (revive db c now)
    | none => some (none, [])
  | .reopen id now =>
    match db.conversation id with
    | some c => some (revive db c now)
    | none => some (none, [])
  | .insertConversation userId channel =>
    if db.activeFor userId ≠ [] then some (none, [])
    else if db.users.any fun u => u.id = userId then
      some (some seq, [.insertConversation (newConversation seq userId channel now)])
    else none
  | .flushMode id p => some ((), if p.isEmpty then [] else updateRow db id (.setMode p))
  | .touch id now => some ((), updateRow db id (.touch now))
  | .markWelcomeSent id now =>
    some ((), if (db.conversation id).any (·.welcomeSentAt = none) then
      updateRow db id (.markWelcomeSent now) else [])
  | .countForUser userId =>
    some ((db.conversations.rows.filter fun c => c.userId = userId).length, [])
  | .claimIdleSessions idleBefore now limit =>
    let rows := db.idleCandidates locked idleBefore limit
    some (rows.map (·.id), rows.map fun c => .updateConversation c.id c.userId (.claimIdle now))
  | .idleTargets ids => some (db.idleTargets ids, [])
  | .close id now => some ((), updateRow db id (.close now))
  | .claimInbound conversationId waMessageId type content mediaId =>
    if db.hasWaMessageId waMessageId then some (none, [])
    else if (db.conversation conversationId).isSome then
      some (some seq, [.insertMessage ⟨seq, conversationId, some waMessageId, none, .inbound, type,
        content, mediaId, none, none, now⟩])
    else none
  | .reserveReply conversationId replyTo content type =>
    if db.hasReplyTo replyTo then some (none, [])
    else if (db.conversation conversationId).isSome then
      some (some seq, [.insertMessage ⟨seq, conversationId, none, some replyTo, .outbound, type,
        some content, none, some statusPending, none, now⟩])
    else none
  | .confirmReply id waMessageId status =>
    if db.messages.any fun m => m.id ≠ id ∧ m.waMessageId = waMessageId ∧ waMessageId ≠ none then
      none
    else some ((), [.updateMessage id (.confirm waMessageId status)])
  | .create conversationId content waMessageId status =>
    if db.messages.any fun m => m.waMessageId = waMessageId ∧ waMessageId ≠ none then none
    else if (db.conversation conversationId).isSome then
      some (seq, [.insertMessage ⟨seq, conversationId, waMessageId, none, .outbound, "text",
        some content, none, some status, none, now⟩])
    else none
  | .setOperator id operatorId => some ((), [.updateMessage id (.setOperator operatorId)])
  | .recent conversationId limit => some (db.recent conversationId limit, [])
  | .lastInboundAt conversationId => some (db.lastInboundAt conversationId, [])
  | .updateStatusByWaId waMessageId status =>
    some ((), (db.messages.filter fun m => m.waMessageId = some waMessageId).map fun m =>
      .updateMessage m.id (.setStatus status))
  | .createAiLog l => some ((), [.insertAiLog l])

end Store
