import WhatsAppBot.Lib.Json

/-!
# The event stream

What `core/events.py` puts on the bus, Redis as its subscribers see it, and `/ws/events`, the
endpoint that forwards to one client: `Conn.resume` is its coroutine from one `await` to the next.
`pubsub.subscribe` sends the command and does not wait for the answer, so the subscription begins
some time later, on Redis's side.
-/

set_option autoImplicit false

namespace Events

open Lib

/-! ## Events -/

def activity : String := "conversation.activity"
def handoff : String := "conversation.handoff"
def closed : String := "conversation.closed"
def reopened : String := "conversation.reopened"

/-- The arguments of the functions that build an event, timestamps in the ISO format. -/
inductive DashboardEvent where
  | conversationActivity (conversationId : Nat) (inbound : Bool) (time : String)
  | conversationHandoff (conversationId : Nat) (mode : String) (assignedOperator : Option String)
      (reason : String) (tag : Option String) (time : String)
  | conversationClosed (conversationId userId : Nat) (status : String)
      (closedAt updatedAt : Option String) (time : String)
  | conversationReopened (conversationId userId : Nat) (status reason : String)
      (updatedAt : Option String) (time : String)
  deriving DecidableEq

/-- `None` is `null`; a `_moment` too. -/
def orNull : Option String → Json
  | some s => .str s
  | none => .null

def DashboardEvent.json : DashboardEvent → Json
  | conversationActivity conversationId inbound time =>
    .obj [("type", .str activity), ("conversation_id", .int conversationId),
      ("inbound", .bool inbound), ("at", .str time)]
  | conversationHandoff conversationId mode assignedOperator reason tag time =>
    .obj [("type", .str handoff), ("conversation_id", .int conversationId), ("mode", .str mode),
      ("assigned_operator", orNull assignedOperator), ("reason", .str reason), ("tag", orNull tag),
      ("at", .str time)]
  | conversationClosed conversationId userId status closedAt updatedAt time =>
    .obj [("type", .str closed), ("conversation_id", .int conversationId), ("user_id", .int userId),
      ("status", .str status), ("closed_at", orNull closedAt), ("updated_at", orNull updatedAt),
      ("at", .str time)]
  | conversationReopened conversationId userId status reason updatedAt time =>
    .obj [("type", .str reopened), ("conversation_id", .int conversationId),
      ("user_id", .int userId), ("status", .str status), ("reason", .str reason),
      ("updated_at", orNull updatedAt), ("at", .str time)]

/-- What goes to a client: an event is forwarded as it is. -/
inductive Frame where
  | ready
  | heartbeat
  | event (e : DashboardEvent)

def Frame.json : Frame → Json
  | ready => .obj [("type", .str "ready")]
  | heartbeat => .obj [("type", .str "heartbeat")]
  | event e => e.json

def Frame.event? : Frame → Option DashboardEvent
  | event e => some e
  | _ => none

/-! ## One connection -/

def policyViolation : Nat := 1008
def internalError : Nat := 1011

/-- In seconds. -/
def heartbeatSeconds : Nat := 20

/-- What the coroutine waits for. -/
inductive Phase where
  | upgrade
  | authenticate
  | subscribe
  | sendReady
  | poll
  | forward (e : DashboardEvent)
  | sendHeartbeat
  | ended

/-- What an `await` comes back with. -/
inductive Answer where
  | done
  /-- Whether `ws_upgrade_limiter` allows the handshake. -/
  | limiter (allowed : Bool)
  /-- `WebSocketDisconnect`, or the timeout of the first frame. -/
  | disconnected
  | failed

inductive ReadyState where
  | connecting
  | isOpen
  | closing
  | closed
  deriving DecidableEq

structure Conn where
  phase : Phase
  accepted : Bool
  /-- How much had been published when the subscription began. -/
  since : Nat
  /-- What the subscription holds for the coroutine. -/
  queue : Option (List DashboardEvent)
  /-- The connection to Redis has not been renewed. -/
  unbroken : Bool
  lastBeat : Nat
  sent : List Frame
  closeCode : Option Nat
  /-- It is the dashboard's. -/
  ours : Bool
  /-- The client's first frame, parsed; the inner `none` is not JSON. -/
  firstFrame : Option (Option Json)
  /-- How many frames the client has received. -/
  taken : Nat
  readyState : ReadyState

/-- `str(parsed.get("api_key") or "")`, of a dictionary. -/
def presentedKey (reprOf : Json → String) : Option Json → String
  | some (.obj kvs) => (Json.field (.obj kvs) "api_key").textOr reprOf
  | _ => ""

/-- The comparison in `_authenticate`. -/
def isAdmin (reprOf : Json → String) (adminApiKey : String) (parsed : Option Json) : Bool :=
  presentedKey reprOf parsed ≠ "" && presentedKey reprOf parsed == adminApiKey

namespace Conn

/-- A client has asked for the upgrade. -/
def asking (ours : Bool) : Conn where
  phase := .upgrade
  accepted := false
  since := 0
  queue := none
  unbroken := true
  lastBeat := 0
  sent := []
  closeCode := none
  ours := ours
  firstFrame := none
  taken := 0
  readyState := .connecting

/-- The `finally` block, and the close frame if there is one. -/
def finish (code : Option Nat) (c : Conn) : Conn :=
  { c with phase := .ended, queue := none, closeCode := code }

/-- The rest of `_authenticate`, once there is a first frame. -/
def authenticate (reprOf : Json → String) (adminApiKey : String) (c : Conn) : Conn :=
  match c.firstFrame with
  | none => c
  | some parsed =>
    if isAdmin reprOf adminApiKey parsed then { c with phase := .subscribe }
    else c.finish (some policyViolation)

def send (frame : Frame) (c : Conn) : Conn := { c with sent := c.sent ++ [frame], phase := .poll }

/-- What `get_message` has found, before or at its timeout. -/
def polled (clock : Nat) (c : Conn) : Conn :=
  match c.queue with
  | some (e :: queue) => { c with queue := some queue, phase := .forward e }
  | _ => if heartbeatSeconds ≤ clock - c.lastBeat then { c with phase := .sendHeartbeat } else c

/-- `dashboard_events`. -/
def resume (reprOf : Json → String) (adminApiKey : String) (clock : Nat) (answer : Answer)
    (c : Conn) : Conn :=
  match c.phase, answer with
  | .ended, _ => c
  | .upgrade, .limiter true => { c with phase := .authenticate, accepted := true }
  | .upgrade, _ => { c with phase := .ended }
  | .authenticate, .disconnected => c.finish (some policyViolation)
  | .authenticate, .failed => c.finish none
  | _, .disconnected => c.finish none
  | _, .failed => c.finish (some internalError)
  | _, .limiter _ => c
  | .authenticate, .done => c.authenticate reprOf adminApiKey
  | .subscribe, .done => { c with phase := .sendReady }
  | .sendReady, .done => { c.send .ready with lastBeat := clock }
  | .poll, .done => c.polled clock
  | .forward e, .done => c.send (.event e)
  | .sendHeartbeat, .done => { c.send .heartbeat with lastBeat := clock }

/-! ## Redis -/

/-- The command to subscribe has been sent. -/
def subscribing (c : Conn) : Bool :=
  match c.phase with
  | .sendReady | .poll | .forward _ | .sendHeartbeat => true
  | _ => false

/-- The subscription begins. -/
def subscribed (published : Nat) (c : Conn) : Conn :=
  if c.subscribing && c.queue.isNone then { c with queue := some [], since := published } else c

def publish (e : DashboardEvent) (c : Conn) : Conn := { c with queue := c.queue.map (· ++ [e]) }

/-- The client library connects again and renews the subscription. -/
def renewed (c : Conn) : Conn := { c with queue := c.queue.map fun _ => [], unbroken := false }

end Conn

end Events
