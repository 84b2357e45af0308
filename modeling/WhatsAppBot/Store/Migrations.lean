import Mathlib.Data.List.Sort
import WhatsAppBot.Store.Rows

/-!
# The revisions of the schema

How a database from before sessions, handoffs and channels becomes the one the code runs on:
revisions 0003 to 0013, as far as they touch customers, conversations and messages. `Tables` holds
the three tables with the keys that revision 0000 declares. A revision alters the rows of a table
and keeps its keys, so the keys need not be proved again; what a revision itself demands of the rows
(a unique index, a column that is not null) it checks, and a database that fails the check stays as
it is.
-/

set_option autoImplicit false

/-! ## Altering a table -/

namespace Lib.Table

variable {α β : Type} {key : α → Nat} {key' : β → Nat}

/-- Every row rewritten, under its own key. -/
def map (t : Table key) (f : α → β) (hf : ∀ r, key' (f r) = key r) : Table key' :=
  ⟨t.rows.map f, by
    have hkeys : (t.rows.map f).map key' = t.rows.map key := by
      rw [List.map_map]
      exact List.map_congr_left fun r _ => hf r
    rw [hkeys]
    exact t.nodup⟩

/-- The rows that can be rewritten, under their own keys. -/
def filterMap (t : Table key) (f : α → Option β) (hf : ∀ r s, f r = some s → key' s = key r) :
    Table key' :=
  ⟨t.rows.filterMap f, by
    have hnd : (t.rows.filterMap f).Pairwise fun r s => key' r ≠ key' s := by
      have hkeys := List.pairwise_map.mp t.nodup
      refine List.pairwise_filterMap.mpr (hkeys.imp fun hne s hs s' hs' => ?_)
      rwa [hf _ s hs, hf _ s' hs']
    exact List.pairwise_map.mpr hnd⟩

/-- Rows with the same key are the same row. -/
theorem eq_of_key {t : Table key} {r s : α} (hr : r ∈ t.rows) (hs : s ∈ t.rows)
    (h : key r = key s) : r = s := by
  have hfind := find_of_mem hr
  rw [h, find_of_mem hs] at hfind
  exact (Option.some.inj hfind).symm

end Lib.Table

namespace Migrations

open Lib Store

/-! ## Rows

Columns that a revision adds stand in a structure that extends the rows before it. -/

structure User0000 where
  id : Nat
  waId : String
  name : Option String
  deriving DecidableEq

structure User0009 where
  id : Nat
  waId : Option String
  name : Option String
  channel : Channel
  externalId : Option String
  deriving DecidableEq

structure Conversation0000 where
  id : Nat
  userId : Nat
  status : Status
  createdAt : Time
  updatedAt : Time
  deriving DecidableEq

structure Conversation0004 extends Conversation0000 where
  mode : Mode
  assignedOperator : Option String
  handoffAt : Option Time
  deriving DecidableEq

structure Conversation0005 extends Conversation0004 where
  tag : Option String
  deriving DecidableEq

structure Conversation0007 extends Conversation0005 where
  lastActivityAt : Time
  welcomeSentAt : Option Time
  closingSentAt : Option Time
  closedAt : Option Time
  deriving DecidableEq

structure Conversation0009 extends Conversation0007 where
  channel : Channel
  deriving DecidableEq

structure Conversation0011 extends Conversation0009 where
  assignedOperatorId : Option Nat
  deriving DecidableEq

structure Message0000 where
  id : Nat
  conversationId : Nat
  waMessageId : Option String
  direction : Direction
  type : String
  content : Option String
  mediaId : Option String
  status : Option String
  createdAt : Time
  deriving DecidableEq

structure Message0006 extends Message0000 where
  replyToWaMessageId : Option String
  deriving DecidableEq

structure Message0011 extends Message0006 where
  operatorId : Option Nat
  deriving DecidableEq

/-! ## Tables -/

/-- The tables, with the primary and the foreign keys of revision 0000. -/
structure Tables {U C M : Type} (uid : U → Nat) (cid owner : C → Nat) (mid thread : M → Nat) where
  users : Table uid
  conversations : Table cid
  messages : Table mid
  fkUser : ∀ c ∈ conversations.rows, ∃ u ∈ users.rows, uid u = owner c
  fkConversation : ∀ m ∈ messages.rows, ∃ c ∈ conversations.rows, cid c = thread m

section

variable {U C M U' C' M' : Type} {uid : U → Nat} {cid owner : C → Nat} {mid thread : M → Nat}
  {uid' : U' → Nat} {cid' owner' : C' → Nat} {mid' thread' : M' → Nat}

namespace Tables

def alterUsers (t : Tables uid cid owner mid thread) (f : U → U') (hf : ∀ u, uid' (f u) = uid u) :
    Tables uid' cid owner mid thread where
  users := t.users.map f hf
  conversations := t.conversations
  messages := t.messages
  fkUser c hc :=
    let ⟨u, hu, h⟩ := t.fkUser c hc
    ⟨f u, List.mem_map_of_mem hu, (hf u).trans h⟩
  fkConversation := t.fkConversation

def alterConversations (t : Tables uid cid owner mid thread) (f : C → C')
    (hf : ∀ c, cid' (f c) = cid c) (howner : ∀ c, owner' (f c) = owner c) :
    Tables uid cid' owner' mid thread where
  users := t.users
  conversations := t.conversations.map f hf
  messages := t.messages
  fkUser c' hc' := by
    obtain ⟨c, hc, rfl⟩ := List.mem_map.mp hc'
    rw [howner]
    exact t.fkUser c hc
  fkConversation m hm :=
    let ⟨c, hc, h⟩ := t.fkConversation m hm
    ⟨f c, List.mem_map_of_mem hc, (hf c).trans h⟩

def alterMessages (t : Tables uid cid owner mid thread) (f : M → M') (hf : ∀ m, mid' (f m) = mid m)
    (hthread : ∀ m, thread' (f m) = thread m) : Tables uid cid owner mid' thread' where
  users := t.users
  conversations := t.conversations
  messages := t.messages.map f hf
  fkUser := t.fkUser
  fkConversation m' hm' := by
    obtain ⟨m, hm, rfl⟩ := List.mem_map.mp hm'
    rw [hthread]
    exact t.fkConversation m hm

/-- `ALTER COLUMN ... SET NOT NULL`: rows of the new type have a value there. -/
def setNotNull (t : Tables uid cid owner mid thread) (f : U → Option U')
    (hf : ∀ u u', f u = some u' → uid' u' = uid u) : Option (Tables uid' cid owner mid thread) :=
  if h : ∀ u ∈ t.users.rows, (f u).isSome = true then
    some {
      users := t.users.filterMap f hf
      conversations := t.conversations
      messages := t.messages
      fkUser := fun c hc => by
        obtain ⟨u, hu, hid⟩ := t.fkUser c hc
        obtain ⟨u', hu'⟩ := Option.isSome_iff_exists.mp (h u hu)
        exact ⟨u', List.mem_filterMap.mpr ⟨u, hu, hu'⟩, (hf u u' hu').trans hid⟩
      fkConversation := t.fkConversation }
  else none

@[ext] theorem ext {s t : Tables uid cid owner mid thread} (hu : s.users.rows = t.users.rows)
    (hc : s.conversations.rows = t.conversations.rows) (hm : s.messages.rows = t.messages.rows) :
    s = t := by
  obtain ⟨⟨us, _⟩, ⟨cs, _⟩, ⟨ms, _⟩, _, _⟩ := s
  obtain ⟨⟨us', _⟩, ⟨cs', _⟩, ⟨ms', _⟩, _, _⟩ := t
  obtain rfl : us = us' := hu
  obtain rfl : cs = cs' := hc
  obtain rfl : ms = ms' := hm
  rfl

end Tables

end

/-- A unique index over `rows`: any number of rows may be without a key. -/
def Unique {α κ : Type} (key : α → Option κ) (rows : List α) : Prop := (rows.filterMap key).Nodup

instance {α κ : Type} [DecidableEq κ] (key : α → Option κ) (rows : List α) :
    Decidable (Unique key rows) :=
  inferInstanceAs (Decidable (List.Nodup _))

/-- The tables before revision 0003, with the unique indexes they have. -/
structure Rev0002 extends Tables User0000.id Conversation0000.id Conversation0000.userId
    Message0000.id Message0000.conversationId where
  uniqueWaId : Unique (fun u => some u.waId) users.rows
  uniqueWaMessageId : Unique Message0000.waMessageId messages.rows

/-! ## 0003: one active conversation for a customer -/

/-- `ORDER BY created_at DESC, id DESC`. -/
def NotOlder (c d : Conversation0000) : Prop :=
  d.createdAt < c.createdAt ∨ d.createdAt = c.createdAt ∧ d.id ≤ c.id

instance : DecidableRel NotOlder := fun _ _ => inferInstanceAs (Decidable (_ ∨ _))

/-- The id of the first of the customer's active conversations in that order. -/
def newestActive (cs : List Conversation0000) (userId : Nat) : Option Nat :=
  ((cs.filter fun c => c.userId = userId ∧ c.status = .active).insertionSort NotOlder).head?.map
    Conversation0000.id

def archiveDuplicate (cs : List Conversation0000) (c : Conversation0000) : Conversation0000 :=
  if c.status = .active ∧ (newestActive cs c.userId).any (c.id ≠ ·) then
    { c with status := .archived }
  else c

/-- The key of `uq_active_conversation_per_user`. -/
def activeKey (c : Conversation0000) : Option Nat :=
  if c.status = .active then some c.userId else none

abbrev Rev0003 := Tables User0000.id Conversation0000.id Conversation0000.userId Message0000.id
  Message0000.conversationId

theorem archiveDuplicate_id (cs : List Conversation0000) (c : Conversation0000) :
    (archiveDuplicate cs c).id = c.id := by
  unfold archiveDuplicate
  split <;> rfl

theorem archiveDuplicate_userId (cs : List Conversation0000) (c : Conversation0000) :
    (archiveDuplicate cs c).userId = c.userId := by
  unfold archiveDuplicate
  split <;> rfl

def archiveDuplicates (t : Rev0003) : Rev0003 :=
  t.alterConversations (archiveDuplicate t.conversations.rows) (archiveDuplicate_id _)
    (archiveDuplicate_userId _)

def upgrade0003 (t : Rev0003) : Option Rev0003 :=
  if Unique activeKey (archiveDuplicates t).conversations.rows then some (archiveDuplicates t)
  else none

/-! ## 0004 to 0007: handoffs, tags, the answered message and the session -/

abbrev Rev0004 := Tables User0000.id (fun c : Conversation0004 => c.id) (fun c => c.userId)
  Message0000.id Message0000.conversationId

def upgrade0004 (t : Rev0003) : Rev0004 :=
  t.alterConversations
    (fun c => { c with mode := .bot, assignedOperator := none, handoffAt := none })
    (fun _ => rfl) (fun _ => rfl)

abbrev Rev0005 := Tables User0000.id (fun c : Conversation0005 => c.id) (fun c => c.userId)
  Message0000.id Message0000.conversationId

def upgrade0005 (t : Rev0004) : Rev0005 :=
  t.alterConversations (fun c => { c with tag := none }) (fun _ => rfl) (fun _ => rfl)

abbrev Rev0006 := Tables User0000.id (fun c : Conversation0005 => c.id) (fun c => c.userId)
  (fun m : Message0006 => m.id) (fun m => m.conversationId)

def addReplyTo (t : Rev0005) : Rev0006 :=
  t.alterMessages (fun m => { m with replyToWaMessageId := none }) (fun _ => rfl) (fun _ => rfl)

def upgrade0006 (t : Rev0005) : Option Rev0006 :=
  if Unique Message0006.replyToWaMessageId (addReplyTo t).messages.rows then some (addReplyTo t)
  else none

abbrev Rev0007 := Tables User0000.id (fun c : Conversation0007 => c.id) (fun c => c.userId)
  (fun m : Message0006 => m.id) (fun m => m.conversationId)

/-- Something was sent in the conversation. -/
def hasOutbound (ms : List Message0006) (id : Nat) : Bool :=
  ms.any fun m => m.conversationId = id ∧ m.direction = .outbound

/-- `created_at` and `updated_at` are not null, so the first argument of each COALESCE is taken. -/
def upgrade0007 (t : Rev0006) : Rev0007 :=
  t.alterConversations
    (fun c => { c with
      lastActivityAt := c.updatedAt
      welcomeSentAt := if hasOutbound t.messages.rows c.id then some c.createdAt else none
      closingSentAt := none
      closedAt := none })
    (fun _ => rfl) (fun _ => rfl)

/-! ## 0009 to 0013: channels, operators and the identity of a customer -/

abbrev Rev0009 := Tables User0009.id (fun c : Conversation0009 => c.id) (fun c => c.userId)
  (fun m : Message0006 => m.id) (fun m => m.conversationId)

/-- The key of `uq_users_channel_external_id`. -/
def identityKey (u : User0009) : Option (Channel × String) := u.externalId.map (u.channel, ·)

/-- The number of a customer is the identity the customer has on the channel. -/
def channelled (u : User0000) : User0009 where
  id := u.id
  waId := some u.waId
  name := u.name
  channel := .whatsapp
  externalId := some u.waId

def addChannel (t : Rev0007) : Rev0009 :=
  (t.alterUsers channelled (fun _ => rfl)).alterConversations
    (fun c => { c with channel := .whatsapp }) (fun _ => rfl) (fun _ => rfl)

def upgrade0009 (t : Rev0007) : Option Rev0009 :=
  if Unique identityKey (addChannel t).users.rows then some (addChannel t) else none

abbrev Rev0011 := Tables User0009.id (fun c : Conversation0011 => c.id) (fun c => c.userId)
  (fun m : Message0011 => m.id) (fun m => m.conversationId)

def upgrade0011 (t : Rev0009) : Rev0011 :=
  (t.alterMessages (fun m => { m with operatorId := none }) (fun _ => rfl)
    (fun _ => rfl)).alterConversations
    (fun c => { c with assignedOperatorId := none }) (fun _ => rfl) (fun _ => rfl)

abbrev Rev0013 := Tables User.id (fun c : Conversation0011 => c.id) (fun c => c.userId)
  (fun m : Message0011 => m.id) (fun m => m.conversationId)

/-- BACKFILL. -/
def backfill (u : User0009) : User0009 := { u with externalId := u.externalId.or u.waId }

/-- The row, once `external_id` has a value. -/
def identified (u : User0009) : Option User :=
  u.externalId.map fun externalId => ⟨u.id, u.channel, externalId, u.waId, u.name⟩

theorem identified_id {u : User0009} {v : User} (h : identified u = some v) : v.id = u.id := by
  obtain ⟨_, -, rfl⟩ := Option.map_eq_some_iff.mp h
  rfl

def backfillAll (t : Rev0011) : Rev0011 := t.alterUsers backfill (fun _ => rfl)

/-- The unique index is there since 0009. -/
def upgrade0013 (t : Rev0011) : Option Rev0013 :=
  if Unique identityKey (backfillAll t).users.rows then
    (backfillAll t).setNotNull identified (fun _ _ => identified_id)
  else none

/-! ## The chain -/

def upgrade (t : Rev0003) : Option Rev0013 :=
  (upgrade0003 t).bind fun t =>
    (upgrade0006 (upgrade0005 (upgrade0004 t))).bind fun t =>
      (upgrade0009 (upgrade0007 t)).bind fun t => upgrade0013 (upgrade0011 t)

/-- The row as the code reads it. -/
def Conversation0011.row (c : Conversation0011) : Conversation where
  id := c.id
  userId := c.userId
  channel := c.channel
  status := c.status
  mode := c.mode
  tag := c.tag
  assignedOperator := c.assignedOperator
  assignedOperatorId := c.assignedOperatorId
  handoffAt := c.handoffAt
  lastActivityAt := c.lastActivityAt
  welcomeSentAt := c.welcomeSentAt
  closingSentAt := c.closingSentAt
  closedAt := c.closedAt
  createdAt := c.createdAt

def Message0011.row (m : Message0011) : Message where
  id := m.id
  conversationId := m.conversationId
  waMessageId := m.waMessageId
  replyToWaMessageId := m.replyToWaMessageId
  direction := m.direction
  type := m.type
  content := m.content
  mediaId := m.mediaId
  status := m.status
  operatorId := m.operatorId
  createdAt := m.createdAt

/-- The database the code finds; the calls of the model are as they were. -/
def Rev0013.db (t : Rev0013) (aiLogs : List AiLog) : Db where
  users := t.users.rows
  conversations := t.conversations.map Conversation0011.row (fun _ => rfl)
  messages := t.messages.rows.map Message0011.row
  aiLogs := aiLogs
  fk := fun c' hc' => by
    obtain ⟨c, hc, rfl⟩ := List.mem_map.mp hc'
    exact t.fkUser c hc

/-! ## The way back -/

def downgrade0013 (t : Rev0013) : Rev0011 :=
  t.alterUsers (fun u => ⟨u.id, u.waId, u.name, u.channel, some u.externalId⟩) (fun _ => rfl)

def downgrade0011 (t : Rev0011) : Rev0009 :=
  (t.alterConversations (fun c => c.toConversation0009) (fun _ => rfl) (fun _ => rfl)).alterMessages
    (fun m => m.toMessage0006) (fun _ => rfl) (fun _ => rfl)

/-- The row, once `wa_id` has a value. -/
def numbered (u : User0009) : Option User0000 := u.waId.map fun waId => ⟨u.id, waId, u.name⟩

theorem numbered_id {u : User0009} {v : User0000} (h : numbered u = some v) : v.id = u.id := by
  obtain ⟨_, -, rfl⟩ := Option.map_eq_some_iff.mp h
  rfl

def dropChannel (t : Rev0009) : Tables User0009.id (fun c : Conversation0007 => c.id)
    (fun c => c.userId) (fun m : Message0006 => m.id) (fun m => m.conversationId) :=
  t.alterConversations (fun c => c.toConversation0007) (fun _ => rfl) (fun _ => rfl)

def downgrade0009 (t : Rev0009) : Option Rev0007 :=
  (dropChannel t).setNotNull numbered (fun _ _ => numbered_id)

def downgrade0007 (t : Rev0007) : Rev0006 :=
  t.alterConversations (fun c => c.toConversation0005) (fun _ => rfl) (fun _ => rfl)

def downgrade0006 (t : Rev0006) : Rev0005 :=
  t.alterMessages (fun m => m.toMessage0000) (fun _ => rfl) (fun _ => rfl)

def downgrade0005 (t : Rev0005) : Rev0004 :=
  t.alterConversations (fun c => c.toConversation0004) (fun _ => rfl) (fun _ => rfl)

def downgrade0004 (t : Rev0004) : Rev0003 :=
  t.alterConversations (fun c => c.toConversation0000) (fun _ => rfl) (fun _ => rfl)

/-- Archived conversations stay archived: revision 0003 drops its index and no more. -/
def downgrade (t : Rev0013) : Option Rev0003 :=
  (downgrade0009 (downgrade0011 (downgrade0013 t))).map fun t =>
    downgrade0004 (downgrade0005 (downgrade0006 (downgrade0007 t)))

end Migrations
