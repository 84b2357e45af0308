import WhatsAppBot.Events.Endpoint

/-!
# The dashboard's connection

`EventsProvider` of `dashboard/src/events.tsx`, from the mount of its effect to the unmount, and
everything it talks to: `World.act` is one thing that happens, in the browser, on the server or
between them, if it can happen. Other clients connect too, and send what they like.
-/

set_option autoImplicit false

namespace Events

open Lib

def reconnectMinMs : Nat := 1000
def reconnectMaxMs : Nat := 30000

/-- The state, and the variables of the effect. -/
structure EventsProvider where
  connected : Bool
  authFailed : Bool
  /-- The place of the socket among the connections. -/
  socket : Option Nat
  retryMs : Nat
  /-- The delay of the timer that waits. -/
  timer : Option Nat
  disposed : Bool
  /-- What the handlers were called with, and the connection it came on. -/
  handled : List (Nat × Json)

namespace EventsProvider

/-- `ws.onmessage`, of what parses. -/
def onMessage (socket : Nat) (event : Json) (t : EventsProvider) : EventsProvider :=
  let handle := { t with handled := t.handled ++ [(socket, event)] }
  match event with
  | .null => t
  | .obj kvs =>
    match Json.lookup kvs "type" with
    | some (.str "ready") => { t with connected := true, retryMs := reconnectMinMs }
    | some (.str "heartbeat") => t
    | _ => handle
  | _ => handle

/-- `ws.onclose`. -/
def onClose (code : Nat) (t : EventsProvider) : EventsProvider :=
  let t := { t with connected := false }
  if t.disposed then t
  else if code = policyViolation then { t with authFailed := true }
  else { t with timer := some t.retryMs, retryMs := min (t.retryMs * 2) reconnectMaxMs }

end EventsProvider

structure World where
  published : List DashboardEvent
  /-- The server's monotonic clock. -/
  clock : Nat
  conns : List Conn
  tab : EventsProvider

inductive Act where
  /-- `PUBLISH`, when Redis takes it. -/
  | publish (e : DashboardEvent)
  | tick
  | subscribed (i : Nat)
  | renewed (i : Nat)
  /-- The server's coroutine goes on. -/
  | resume (i : Nat) (answer : Answer)
  /-- Another client asks for the upgrade, and another client sends its first frame. -/
  | ask
  | speak (i : Nat) (parsed : Option Json)
  /-- The handlers of the dashboard's sockets. -/
  | opened (i : Nat) (apiKey : String)
  | message (i : Nat)
  | error (i : Nat)
  | closeFrame (i : Nat)
  | lost (i : Nat)
  | timer
  | unmount

/-- What the browser reports without a close frame. -/
def abnormalClosure : Nat := 1006

/-- `ws.close()`. -/
def Conn.close (c : Conn) : Conn :=
  if c.readyState = .closed then c else { c with readyState := .closing }

namespace World

/-- `connect`. -/
def connect (w : World) : World :=
  { w with
    conns := w.conns ++ [Conn.asking true]
    tab := { w.tab with socket := some w.conns.length } }

/-- The effect has run. -/
def start : World := connect ⟨[], 0, [], ⟨false, false, none, reconnectMinMs, none, false, []⟩⟩

def put (w : World) (i : Nat) (c : Conn) : World := { w with conns := w.conns.set i c }

/-- A change of one connection. -/
def update (i : Nat) (f : Conn → Conn) (w : World) : World :=
  match w.conns[i]? with
  | none => w
  | some c => w.put i (f c)

/-- What happens to a socket of the dashboard, if it can happen in the state it is in. -/
def onSocket (i : Nat) (may : Conn → Bool) (f : Conn → World) (w : World) : World :=
  match w.conns[i]? with
  | none => w
  | some c => if c.ours && may c then f c else w

/-- The `close` event. -/
def closed (w : World) (i : Nat) (c : Conn) (code : Nat) : World :=
  { w.put i { c with readyState := .closed } with tab := w.tab.onClose code }

def act (reprOf : Json → String) (adminApiKey : String) (w : World) : Act → World
  | .publish e =>
    { w with published := w.published ++ [e], conns := w.conns.map (Conn.publish e) }
  | .tick => { w with clock := w.clock + 1 }
  | .subscribed i => w.update i (Conn.subscribed w.published.length)
  | .renewed i => w.update i Conn.renewed
  | .resume i answer => w.update i (Conn.resume reprOf adminApiKey w.clock answer)
  | .ask => { w with conns := w.conns ++ [Conn.asking false] }
  | .speak i parsed => w.update i fun c =>
    if c.ours || c.firstFrame.isSome then c else { c with firstFrame := some parsed }
  | .opened i apiKey => w.onSocket i (fun c => c.readyState = .connecting && c.accepted) fun c =>
    w.put i { c with
      readyState := .isOpen
      firstFrame := some (some (.obj [("api_key", .str apiKey)])) }
  | .message i => w.onSocket i (·.readyState = .isOpen) fun c =>
    match c.sent[c.taken]? with
    | none => w
    | some frame =>
      { w.put i { c with taken := c.taken + 1 } with tab := w.tab.onMessage i frame.json }
  | .error i => w.onSocket i (fun _ => true) fun c => w.put i c.close
  | .closeFrame i =>
    -- it comes behind everything that was sent before it
    w.onSocket i (fun c => c.readyState = .closing || c.readyState = .isOpen &&
        c.taken = c.sent.length) fun c =>
      match c.closeCode with
      | none => w
      | some code => w.closed i c code
  | .lost i => w.onSocket i (·.readyState ≠ .closed) fun c => w.closed i c abnormalClosure
  | .timer =>
    match w.tab.timer with
    | none => w
    | some _ => connect { w with tab := { w.tab with timer := none } }
  | .unmount =>
    let w := { w with tab := { w.tab with disposed := true, timer := none } }
    match w.tab.socket with
    | none => w
    | some i => w.update i Conn.close

def run (reprOf : Json → String) (adminApiKey : String) (acts : List Act) : World :=
  acts.foldl (act reprOf adminApiKey) start

end World

end Events
