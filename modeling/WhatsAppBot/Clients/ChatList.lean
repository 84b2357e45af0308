import Mathlib.Data.Finset.Basic
import WhatsAppBot.Clients.Conversations
import WhatsAppBot.Lib.Callbacks

/-!
# The list of the mobile app

`ChatListNotifier`: a refresh asks for the first page and puts it in place of the list, `loadMore`
asks for the next one and appends it, and both go on with the state they find when the answer
comes.
-/

set_option autoImplicit false

namespace Clients

open Lib Store

/-! ## The state -/

inductive ChatListStatus where
  | idle
  | loading
  | refreshing
  | loadingMore
  | error
  deriving DecidableEq

structure ChatListState where
  conversations : List ConversationRead := []
  status : ChatListStatus := .idle
  errorMessage : Option String := none
  hasMore : Bool := true
  offset : Nat := 0
  searchQuery : Option String := none
  modeFilter : Option String := none
  statusFilter : Option String := none
  channelFilter : Option String := none
  unreadIds : Finset Nat := ∅

/-- `AppConfig.pageSize`. -/
def pageSize : Nat := 50

/-! ## The requests -/

/-- The arguments of `listConversations`. -/
structure Query where
  offset : Nat
  limit : Nat
  status : Option String

/-- Who goes on with the answer. -/
inductive Task where
  | refresh
  | loadMore
  deriving DecidableEq

structure Pending where
  task : Task
  query : Query

/-- The rows, or the message of a `Failure`. -/
abbrev Answer := Except String (List ConversationRead)

def refresh (s : ChatListState) : ChatListState × List Pending :=
  ({ s with status := .refreshing, errorMessage := none }, [⟨.refresh, 0, pageSize, s.statusFilter⟩])

/-- `refresh` after its `await`. -/
def refreshed (sort : List ConversationRead → List ConversationRead) (answer : Answer)
    (s : ChatListState) : ChatListState :=
  match answer with
  | .ok rows =>
    let conversations := sort rows
    { conversations
      status := .idle
      hasMore := pageSize ≤ conversations.length
      offset := conversations.length
      modeFilter := s.modeFilter
      searchQuery := s.searchQuery
      statusFilter := s.statusFilter
      channelFilter := s.channelFilter
      unreadIds := s.unreadIds }
  | .error message => { s with status := .error, errorMessage := some message }

def loadMore (s : ChatListState) : ChatListState × List Pending :=
  if !s.hasMore || s.status = .loadingMore then (s, [])
  else ({ s with status := .loadingMore, errorMessage := none },
    [⟨.loadMore, s.offset, pageSize, s.statusFilter⟩])

/-- `loadMore` after its `await`. -/
def loadedMore (sort : List ConversationRead → List ConversationRead) (answer : Answer)
    (s : ChatListState) : ChatListState :=
  match answer with
  | .ok rows =>
    let more := sort rows
    { s with
      conversations := s.conversations ++ more
      status := .idle
      errorMessage := none
      hasMore := pageSize ≤ more.length
      offset := s.offset + more.length }
  | .error message => { s with status := .error, errorMessage := some message }

/-! ## The calls -/

def setStatusFilter (status : Option String) (s : ChatListState) : ChatListState × List Pending :=
  refresh { s with statusFilter := status, offset := 0, errorMessage := none }

inductive WsEventType where
  | ready
  | heartbeat
  | conversationActivity
  | conversationHandoff
  | conversationClosed
  | conversationReopened
  | unknown

structure WsEvent where
  type : WsEventType
  inbound : Option Bool
  conversationId : Option Nat

/-- `_onWsEvent`. -/
def onWsEvent (event : WsEvent) (s : ChatListState) : ChatListState × List Pending :=
  match event.type with
  | .conversationActivity =>
    match event.inbound, event.conversationId with
    | some true, some id => refresh { s with unreadIds := insert id s.unreadIds, errorMessage := none }
    | _, _ => (s, [])
  | .conversationHandoff | .conversationClosed | .conversationReopened => refresh s
  | .ready | .heartbeat | .unknown => (s, [])

inductive Call where
  | refresh
  | loadMore
  | setStatusFilter (status : Option String)
  | onWsEvent (event : WsEvent)
  | setSearch (query : Option String)
  | setModeFilter (mode : Option String)
  | setChannelFilter (channel : Option String)
  | markRead (conversationId : Nat)

def Call.run : Call → ChatListState → ChatListState × List Pending
  | .refresh, s => Clients.refresh s
  | .loadMore, s => Clients.loadMore s
  | .setStatusFilter status, s => Clients.setStatusFilter status s
  | .onWsEvent event, s => Clients.onWsEvent event s
  | .setSearch query, s => ({ s with searchQuery := query, errorMessage := none }, [])
  | .setModeFilter mode, s => ({ s with modeFilter := mode, errorMessage := none }, [])
  | .setChannelFilter channel, s => ({ s with channelFilter := channel, errorMessage := none }, [])
  | .markRead id, s => ({ s with unreadIds := s.unreadIds.erase id, errorMessage := none }, [])

/-- `ChatListNotifier`. -/
def chatListNotifier (sort : List ConversationRead → List ConversationRead) :
    Callbacks ChatListState Pending Call Answer where
  call := Call.run
  resume p answer s :=
    match p.task with
    | .refresh => (refreshed sort answer s, [])
    | .loadMore => (loadedMore sort answer s, [])

/-! ## The server -/

/-- The status a request is for: `ApiEndpoints.conversations` leaves an empty one out, and the
`pattern` of the endpoint refuses what is not `active` or `closed`. -/
def statusParam : Option String → Option (Option Status)
  | none => some none
  | some status =>
    if status = "" then some none
    else if status = "active" then some (some .active)
    else if status = "closed" then some (some .closed)
    else none

/-- The server's list of the rows for each status, as long as nothing changes. -/
structure ServerList (rows : List ConversationRead) where
  list : Option Status → List ConversationRead
  perm : ∀ status, (list status).Perm (rows.filter fun c => status.all (c.status == ·))
  ordered : ∀ status, (list status).Pairwise fun a b => OrderBy (orderKey a) (orderKey b)

/-- What the endpoint answers, unless it fails. -/
def ServerList.answer {rows : List ConversationRead} (server : ServerList rows) (query : Query) :
    Option (List ConversationRead) :=
  (statusParam query.status).map fun status =>
    ((server.list status).drop query.offset).take query.limit

end Clients
