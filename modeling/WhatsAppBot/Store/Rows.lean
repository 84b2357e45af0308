import WhatsAppBot.Lib.Table

/-!
# Rows, and the writes of a transaction

The tables the conversation code reads and writes. Conversations are a `Lib.Table` (their ids are
distinct by construction) and `Db.fk` says that every conversation's customer exists, so neither has
to be proved again. A transaction is the list of its `Write`s: they are visible to itself at once
(`Db.applyAll`) and to everybody when it commits. `Write.locks` are the row locks and the pending
unique keys that keep other transactions from writing the same thing until then.
-/

set_option autoImplicit false

namespace Store

/-- Microseconds since the epoch. -/
abbrev Time := Int

inductive Channel where
  | whatsapp
  | messenger
  | instagramDm
  | facebookComment
  | instagramComment
  deriving DecidableEq

inductive Status where
  | active
  | closed
  | archived
  deriving DecidableEq

inductive Mode where
  | bot
  | human
  deriving DecidableEq

inductive Direction where
  | inbound
  | outbound
  deriving DecidableEq

structure User where
  id : Nat
  channel : Channel
  externalId : String
  waId : Option String
  name : Option String
  deriving DecidableEq

structure Conversation where
  id : Nat
  userId : Nat
  channel : Channel
  status : Status
  mode : Mode
  tag : Option String
  assignedOperator : Option String
  assignedOperatorId : Option Nat
  handoffAt : Option Time
  lastActivityAt : Time
  welcomeSentAt : Option Time
  closingSentAt : Option Time
  closedAt : Option Time
  createdAt : Time
  deriving DecidableEq

def tagSalesLead : String := "sales_lead"

def statusPending : String := "pending"
def statusSent : String := "sent"
def statusUnconfirmed : String := "unconfirmed"

structure Message where
  id : Nat
  conversationId : Nat
  waMessageId : Option String
  replyToWaMessageId : Option String
  direction : Direction
  type : String
  content : Option String
  mediaId : Option String
  status : Option String
  operatorId : Option Nat
  createdAt : Time
  deriving DecidableEq

structure AiLog where
  model : String
  conversationId : Nat
  promptTokens : Nat
  completionTokens : Nat
  totalTokens : Nat
  latencyMs : Nat
  error : Option String
  deriving DecidableEq

/-! ## Changes to a row -/

/-- The columns an ORM flush writes: those whose value differs from the loaded row's. -/
structure ModePatch where
  mode : Option Mode
  tag : Option String
  assignedOperator : Option (Option String)
  assignedOperatorId : Option (Option Nat)
  handoffAt : Option (Option Time)
  lastActivityAt : Option Time
  deriving DecidableEq

inductive ConversationUpdate where
  | touch (now : Time)
  | markWelcomeSent (now : Time)
  | claimIdle (now : Time)
  | close (now : Time)
  | revive (now : Time)
  | setMode (p : ModePatch)
  deriving DecidableEq

def ConversationUpdate.apply (c : Conversation) : ConversationUpdate → Conversation
  | .touch now => { c with lastActivityAt := now }
  | .markWelcomeSent now => { c with welcomeSentAt := some now }
  | .claimIdle now => { c with closingSentAt := some now }
  | .close now => { c with status := .closed, closedAt := some now }
  | .revive now =>
    { c with status := .active, closedAt := none, closingSentAt := none, lastActivityAt := now }
  | .setMode p =>
    { c with
      mode := p.mode.getD c.mode
      tag := p.tag.or c.tag
      assignedOperator := p.assignedOperator.getD c.assignedOperator
      assignedOperatorId := p.assignedOperatorId.getD c.assignedOperatorId
      handoffAt := p.handoffAt.getD c.handoffAt
      lastActivityAt := p.lastActivityAt.getD c.lastActivityAt }

@[simp] theorem ConversationUpdate.apply_id (u : ConversationUpdate) (c : Conversation) :
    (u.apply c).id = c.id := by
  cases u <;> rfl

@[simp] theorem ConversationUpdate.apply_userId (u : ConversationUpdate) (c : Conversation) :
    (u.apply c).userId = c.userId := by
  cases u <;> rfl

inductive MessageUpdate where
  | confirm (waMessageId : Option String) (status : String)
  | setStatus (status : String)
  | setOperator (id : Option Nat)
  deriving DecidableEq

def MessageUpdate.apply (m : Message) : MessageUpdate → Message
  | .confirm waMessageId status => { m with waMessageId := waMessageId, status := some status }
  | .setStatus status => { m with status := some status }
  | .setOperator id => { m with operatorId := id }

/-! ## The database -/

structure Db where
  users : List User
  conversations : Lib.Table Conversation.id
  messages : List Message
  aiLogs : List AiLog
  fk : ∀ c ∈ conversations.rows, ∃ u ∈ users, u.id = c.userId

namespace Db

def empty : Db := ⟨[], .empty, [], [], fun _ hc => absurd hc List.not_mem_nil⟩

def conversation (db : Db) (id : Nat) : Option Conversation := db.conversations.find id

def insertUser (db : Db) (u : User) : Db :=
  { db with
    users := db.users ++ [u]
    fk := fun c hc =>
      let ⟨v, hv, h⟩ := db.fk c hc
      ⟨v, List.mem_append_left _ hv, h⟩ }

def setUserName (db : Db) (id : Nat) (name : String) : Db :=
  { db with
    users := db.users.map fun u => if u.id = id then { u with name := some name } else u
    fk := fun c hc => by
      obtain ⟨v, hv, h⟩ := db.fk c hc
      exact ⟨_, List.mem_map_of_mem hv, by split <;> exact h⟩ }

def insertConversation (db : Db) (c : Conversation) : Db :=
  if h : ∃ u ∈ db.users, u.id = c.userId then
    { db with
      conversations := db.conversations.insert c
      fk := fun d hd => by
        rcases Lib.Table.mem_insert hd with hd | rfl
        · exact db.fk d hd
        · exact h }
  else db

def updateConversation (db : Db) (id : Nat) (u : ConversationUpdate) : Db :=
  { db with
    conversations := db.conversations.modify id u.apply u.apply_id
    fk := fun d hd => by
      rcases Lib.Table.mem_modify hd with hd | ⟨c, hc, -, rfl⟩
      · exact db.fk d hd
      · rw [u.apply_userId]; exact db.fk c hc }

def insertMessage (db : Db) (m : Message) : Db := { db with messages := db.messages ++ [m] }

def updateMessage (db : Db) (id : Nat) (u : MessageUpdate) : Db :=
  { db with messages := db.messages.map fun m => if m.id = id then u.apply m else m }

def insertAiLog (db : Db) (l : AiLog) : Db := { db with aiLogs := db.aiLogs ++ [l] }

end Db

/-! ## Writes -/

inductive Write where
  | insertUser (u : User)
  | setUserName (id : Nat) (name : String)
  | insertConversation (c : Conversation)
  | updateConversation (id userId : Nat) (u : ConversationUpdate)
  | insertMessage (m : Message)
  | updateMessage (id : Nat) (u : MessageUpdate)
  | insertAiLog (l : AiLog)
  deriving DecidableEq

def Db.apply (db : Db) : Write → Db
  | .insertUser u => db.insertUser u
  | .setUserName id name => db.setUserName id name
  | .insertConversation c => db.insertConversation c
  | .updateConversation id _ u => db.updateConversation id u
  | .insertMessage m => db.insertMessage m
  | .updateMessage id u => db.updateMessage id u
  | .insertAiLog l => db.insertAiLog l

/-- An open transaction: its writes, oldest first. -/
abbrev Tx := List Write

def Db.applyAll (db : Db) (tx : Tx) : Db := tx.foldl Db.apply db

inductive Lock where
  | user (id : Nat)
  | identity (channel : Channel) (externalId : String)
  | waId (waId : String)
  | conversation (id : Nat)
  | activeSlot (userId : Nat)
  | message (id : Nat)
  | waMessageId (k : String)
  | replyTo (k : String)
  deriving DecidableEq

/-- What a write holds until its transaction ends: the row it changes and every unique key it
enters or leaves. -/
def Write.locks : Write → List Lock
  | .insertUser u => .identity u.channel u.externalId :: (u.waId.map Lock.waId).toList
  | .setUserName id _ => [.user id]
  | .insertConversation c => [.activeSlot c.userId]
  | .updateConversation id userId u =>
    match u with
    | .close _ | .revive _ => [.conversation id, .activeSlot userId]
    | _ => [.conversation id]
  | .insertMessage m =>
    (m.waMessageId.map Lock.waMessageId).toList ++ (m.replyToWaMessageId.map Lock.replyTo).toList
  | .updateMessage id u =>
    match u with
    | .confirm waMessageId _ => .message id :: (waMessageId.map Lock.waMessageId).toList
    | _ => [.message id]
  | .insertAiLog _ => []

def Tx.holds (tx : Tx) (l : Lock) : Bool := tx.any fun w => decide (l ∈ w.locks)

/-- A statement with these writes has to wait for another open transaction. -/
def blocked (others : List Tx) (ws : List Write) : Bool :=
  ws.any fun w => w.locks.any fun l => others.any fun tx => Tx.holds tx l

end Store
