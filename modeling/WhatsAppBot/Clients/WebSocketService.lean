import WhatsAppBot.Clients.ChatList
import WhatsAppBot.Lib.Json

/-!
# The event stream of the mobile app

`WebSocketService`: `connect` and the reconnect timer look the key up and open a channel when it is
there, a stream that ends and a watchdog that fires set the reconnect timer, `disconnect` stops the
timers, then the subscription, then the channel. `Phone` is the service with the channels it has
opened, which the backend sends frames on and either side may close.
-/

set_option autoImplicit false

namespace Clients

open Lib

/-! ## Frames -/

/-- What a frame carries; a text is what `jsonDecode` makes of it, if anything. -/
inductive Payload where
  | binary
  | text (decoded : Option Json)

/-- What the backend sends has a number, the same one on every connection it goes out on. -/
structure Frame where
  number : Nat
  data : Payload

def wsEventTypeFromString : String → WsEventType
  | "ready" => .ready
  | "heartbeat" => .heartbeat
  | "conversation.activity" => .conversationActivity
  | "conversation.handoff" => .conversationHandoff
  | "conversation.closed" => .conversationClosed
  | "conversation.reopened" => .conversationReopened
  | _ => .unknown

/-- A `WsEvent` on the way to the listeners. -/
structure StreamEvent where
  number : Nat
  type : WsEventType
  raw : List (String × Json)

/-! ## The service -/

inductive WsConnectionState where
  | disconnected
  | connecting
  | authenticated
  | connected
  | reconnecting
  | failed
  deriving DecidableEq

/-- The fields of `WebSocketService`: a channel and its subscription are known by the channel's
place among those opened, a timer that waits by its seconds. -/
structure WebSocketService where
  channel : Option Nat := none
  sub : Option Nat := none
  heartbeatTimer : Option Nat := none
  reconnectTimer : Option Nat := none
  reconnectAttempts : Nat := 0
  manuallyClosed : Bool := false
  baseUrl : Option String := none
  stateStream : List WsConnectionState := []
  eventStream : List StreamEvent := []
  state : WsConnectionState := .disconnected

/-- `AppConfig.wsInitialReconnectDelay`, in seconds. -/
def wsInitialReconnectDelay : Nat := 1

/-- `AppConfig.wsMaxReconnectDelay`. -/
def wsMaxReconnectDelay : Nat := 30

/-- What an `await` is for. -/
inductive Wait where
  | apiKey
  | subCancelled
  | channelClosed (channel : Option Nat)
  deriving DecidableEq

namespace WebSocketService

def setState (state : WsConnectionState) (s : WebSocketService) : WebSocketService :=
  { s with state, stateStream := s.stateStream ++ [state] }

def startHeartbeat (s : WebSocketService) : WebSocketService := { s with heartbeatTimer := some 30 }

def stopHeartbeat (s : WebSocketService) : WebSocketService := { s with heartbeatTimer := none }

def scheduleReconnect (s : WebSocketService) : WebSocketService :=
  let s := setState .reconnecting s
  let reconnectAttempts := s.reconnectAttempts + 1
  let backoffSeconds := wsInitialReconnectDelay * (1 <<< min (reconnectAttempts - 1) 5)
  { s with
    reconnectAttempts
    reconnectTimer := some (min (max 1 backoffSeconds) wsMaxReconnectDelay) }

def onDone (s : WebSocketService) : WebSocketService :=
  let s := stopHeartbeat s
  if s.manuallyClosed then setState .disconnected s else scheduleReconnect s

/-- `json['type'] as String? ?? ''`, unless the cast throws. -/
def typeStr (raw : List (String × Json)) : Option String :=
  match Json.lookup raw "type" with
  | none | some .null => some ""
  | some (.str type) => some type
  | some _ => none

def onMessage (frame : Frame) (s : WebSocketService) : WebSocketService :=
  match frame.data with
  | .text (some (.obj raw)) =>
    match (typeStr raw).map wsEventTypeFromString with
    | none => s
    | some .ready =>
      startHeartbeat { setState .connected (setState .authenticated s) with reconnectAttempts := 0 }
    | some .heartbeat => startHeartbeat s
    | some type =>
      let s := startHeartbeat s
      { s with eventStream := s.eventStream ++ [⟨frame.number, type, raw⟩] }
  | _ => s

/-- `_doConnect` up to its `await`. -/
def doConnect (s : WebSocketService) : WebSocketService × List Wait :=
  if s.baseUrl.isNone then (s, []) else (setState .connecting s, [.apiKey])

def connect (baseUrl : String) (s : WebSocketService) : WebSocketService × List Wait :=
  doConnect { s with baseUrl := some baseUrl, manuallyClosed := false }

end WebSocketService

/-! ## The phone -/

structure Channel where
  /-- Neither side has closed it. -/
  isOpen : Bool
  /-- Its subscription is live. -/
  listening : Bool
  /-- The key in the first frame, once it is sent. -/
  apiKey : Option String
  /-- Frames on their way. -/
  coming : List Frame

structure Phone where
  service : WebSocketService := {}
  channels : List Channel := []
  /-- How much the backend has sent. -/
  sent : Nat := 0
  /-- `disconnect` has completed, and `connect` has not been called since. -/
  disconnected : Bool := false

/-- How it goes on with a key: `wsUrlFromHttp` throws, the connection is refused with an exception,
the channel is opened, or it is opened and the first frame cannot be sent. -/
inductive Dial where
  | noUrl
  | refused
  | opened
  | unsent

/-- What `getApiKey` comes back with. -/
inductive Lookup where
  | unreadable
  | found (apiKey : Option String) (dial : Dial)

inductive StreamCall where
  | connect (baseUrl : String)
  | disconnect
  | send (connections : List Nat) (data : Payload)
  | frame (channel : Nat)
  | socketClosed (channel : Nat)
  | socketError (channel : Nat)
  | watchdog
  | reconnect

namespace Phone

open WebSocketService

def serve (f : WebSocketService → WebSocketService) (w : Phone) : Phone := { w with service := f w.service }

def update (channel : Nat) (f : Channel → Channel) (w : Phone) : Phone :=
  { w with channels := w.channels.modify channel f }

/-- `WebSocketChannel.connect` and `listen`. -/
def openChannel (apiKey : Option String) (w : Phone) : Phone :=
  { w with
    service := { w.service with channel := some w.channels.length, sub := some w.channels.length }
    channels := w.channels ++ [⟨true, true, apiKey, []⟩] }

/-- `_doConnect` after its `await`. -/
def lookedUp : Lookup → Phone → Phone
  | .unreadable, w => w
  | .found none _, w => w.serve (setState .failed)
  | .found (some apiKey) dial, w =>
    if apiKey = "" then w.serve (setState .failed)
    else
      match dial with
      | .noUrl => w
      | .refused => w.serve scheduleReconnect
      | .opened => w.openChannel (some apiKey)
      | .unsent => (w.openChannel none).serve scheduleReconnect

/-- `_sub?.cancel()`. -/
def cancelSub (w : Phone) : Phone :=
  match w.service.sub with
  | none => w
  | some sub => w.update sub fun c => { c with listening := false }

/-- The sink of the channel is closed. -/
def closeSink (channel : Option Nat) (w : Phone) : Phone :=
  match channel with
  | none => w
  | some channel => w.update channel fun c => { c with isOpen := false }

/-- `disconnect` up to its first `await`. -/
def disconnect (w : Phone) : Phone × List Wait :=
  ((w.serve fun s => stopHeartbeat { s with manuallyClosed := true, reconnectTimer := none }).cancelSub,
    [.subCancelled])

/-- The next frame on a channel comes in; nobody hears it without a subscription. -/
def arrive (channel : Nat) (w : Phone) : Phone :=
  match w.channels[channel]? with
  | some ⟨isOpen, listening, apiKey, frame :: coming⟩ =>
    let w := w.update channel fun _ => ⟨isOpen, listening, apiKey, coming⟩
    if listening then w.serve (onMessage frame) else w
  | _ => w

def listens (channel : Nat) (w : Phone) : Bool := w.channels[channel]?.any (·.listening)

def isOpen (channel : Nat) (w : Phone) : Bool := w.channels[channel]?.any (·.isOpen)

/-- The stream of a channel ends. -/
def endStream (channel : Nat) (w : Phone) : Phone :=
  let ended := w.update channel fun c => { c with isOpen := false, listening := false }
  if w.listens channel then ended.serve onDone else ended

def call : StreamCall → Phone → Phone × List Wait
  | .connect baseUrl, w =>
    let (service, waits) := WebSocketService.connect baseUrl w.service
    ({ w with service, disconnected := false }, waits)
  | .disconnect, w => w.disconnect
  | .send connections data, w =>
    ({ w with
      channels := w.channels.mapIdx fun i c =>
        if i ∈ connections ∧ c.isOpen then { c with coming := c.coming ++ [⟨w.sent, data⟩] } else c
      sent := w.sent + 1 }, [])
  | .frame channel, w => (w.arrive channel, [])
  | .socketClosed channel, w => (w.endStream channel, [])
  | .socketError channel, w => (if w.listens channel then w.serve onDone else w, [])
  | .watchdog, w =>
    (if w.service.heartbeatTimer.isSome then w.serve fun s => onDone { s with heartbeatTimer := none }
      else w, [])
  | .reconnect, w =>
    if w.service.reconnectTimer.isSome then
      let (service, waits) := doConnect { w.service with reconnectTimer := none }
      ({ w with service }, waits)
    else (w, [])

def resume : Wait → Lookup → Phone → Phone × List Wait
  | .apiKey, lookup, w => (w.lookedUp lookup, [])
  | .subCancelled, _, w => (w, [.channelClosed w.service.channel])
  | .channelClosed channel, _, w =>
    ({ (w.closeSink channel).serve (setState .disconnected) with disconnected := true }, [])

end Phone

/-- The service, with everything that can happen to it. -/
def webSocketService : Callbacks Phone Wait StreamCall Lookup where
  call := Phone.call
  resume := Phone.resume

end Clients
