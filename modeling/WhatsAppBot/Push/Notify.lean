import Mathlib.Data.List.Sort
import WhatsAppBot.Events.Endpoint
import WhatsAppBot.Lib.Interleave
import WhatsAppBot.Lib.Json
import WhatsAppBot.Lib.Keyed
import WhatsAppBot.Store.Rows

/-!
# The registered phones and their notifications

`device_tokens`, the statements on it and `DeviceService`, which enrols a phone and retires it. A
row is known by its token, which never changes: an update by the primary key is one by the token. A
transaction locks the rows it writes, and the token of a row it inserts.

An event of the dashboard that deserves one becomes a notification to every enabled phone:
`push_dispatcher`, `NotificationService` and the client of Firebase. What `session.execute` and
`commit` flush first is what `_send_one` has left on the objects (`pending`).
-/

set_option autoImplicit false

namespace Push

open Lib Store Events

def privacyPreview : String := "preview"

def disabledUnregistered : String := "unregistered"
def disabledByDevice : String := "by_device"

structure DeviceToken where
  id : Nat
  token : String
  platform : String
  notificationPrivacy : String
  enabled : Bool
  disabledReason : Option String
  lastSeenAt : Time
  deriving DecidableEq

def DeviceToken.wantsPreview (d : DeviceToken) : Bool := d.notificationPrivacy == privacyPreview

abbrev Registry := Keyed DeviceToken.token

/-! ## Writes -/

inductive DeviceWrite where
  | upsert (id : Nat) (token platform notificationPrivacy : String) (now : Time)
  /-- `WHERE token = ... AND enabled`, of a row that was found. -/
  | disable (token reason : String)
  /-- The flush of an object whose `enabled` was set to `False`. -/
  | flush (token : String)
  deriving DecidableEq

namespace DeviceWrite

/-- What it locks. -/
def token : DeviceWrite → String
  | upsert _ token _ _ _ | disable token _ | flush token => token

def apply (t : Registry) : DeviceWrite → Registry
  | upsert id token platform notificationPrivacy now =>
    t.put token ⟨id, token, platform, notificationPrivacy, true, none, now⟩
      (fun d => { d with
        platform, notificationPrivacy, enabled := true, disabledReason := none, lastSeenAt := now })
      rfl fun _ h => h
  | disable token reason =>
    t.update token (fun d => { d with enabled := false, disabledReason := some reason }) fun _ h => h
  | flush token => t.update token (fun d => { d with enabled := false }) fun _ h => h

end DeviceWrite

def Registry.applyAll (t : Registry) (ws : List DeviceWrite) : Registry :=
  ws.foldl DeviceWrite.apply t

/-- `WHERE enabled ORDER BY id`. -/
def Registry.enabledDevices (t : Registry) : List DeviceToken :=
  (t.rows.filter (·.enabled)).insertionSort fun d e => d.id ≤ e.id

theorem Registry.mem_enabledDevices {t : Registry} {d : DeviceToken} :
    d ∈ t.enabledDevices ↔ d ∈ t.rows ∧ d.enabled = true := by
  rw [enabledDevices, (List.perm_insertionSort _ _).mem_iff, List.mem_filter]

theorem Registry.nodup_enabledDevices (t : Registry) : (t.enabledDevices.map (·.token)).Nodup :=
  (((List.perm_insertionSort _ _).map _).nodup_iff).mpr (t.nodup.sublist (List.filter_sublist.map _))

/-! ## What goes to Firebase -/

structure PushMessage where
  token : String
  title : String
  body : String
  data : List (String × String)
  deriving DecidableEq

/-- What a POST comes back with. -/
inductive PostAnswer where
  | response (status : Nat) (body : Option Json)
  | transportError

/-- What `_bearer` comes back with. -/
inductive Minted where
  | token
  | notConfigured
  | failed
  deriving DecidableEq

/-! ## Operations -/

inductive PushOp where
  | now
  | upsert (token platform notificationPrivacy : String) (now : Time)
  | disable (token reason : String)
  | flush (token : String)
  | getDevice (id : Nat)
  | enabledDevices
  | countEnabled
  | commit
  | rollback
  | conversationMode (conversationId : Nat)
  | customerName (conversationId : Nat)
  | timestamp
  | bearer
  | post (message : PushMessage)

@[reducible] def PushOp.Resp : PushOp → Type
  | now => Time
  | upsert _ _ _ _ | countEnabled => Nat
  | disable _ _ => Bool
  | getDevice _ => Option DeviceToken
  | enabledDevices => List DeviceToken
  | flush _ | commit | rollback => Unit
  | conversationMode _ | customerName _ => Option String
  | timestamp => String
  | bearer => Minted
  | post _ => PostAnswer

abbrev pushSig : Sig := ⟨PushOp, PushOp.Resp⟩

abbrev PushM (α : Type) := Prog pushSig α

abbrev DeviceTx := List DeviceWrite

structure World where
  registry : Registry
  /-- The sequence of the ids. -/
  nextId : Nat
  clock : Time

/-- Another transaction has written the row, or is inserting it. -/
def locked (others : List DeviceTx) (token : String) : Bool :=
  others.any fun t => t.any fun x => x.token == token

def step (others : List DeviceTx) (w : World) (t : DeviceTx) :
    (o : PushOp) → o.Resp → Option (World × DeviceTx)
  | .now, (time : Time) => if w.clock ≤ time then some ({ w with clock := time }, t) else none
  | .upsert token platform notificationPrivacy now, (id : Nat) =>
    if locked others token then none
    else if id = (((w.registry.applyAll t).find token).map (·.id)).getD w.nextId then
      some ({ w with nextId := w.nextId + 1 },
        t ++ [.upsert w.nextId token platform notificationPrivacy now])
    else none
  | .disable token reason, (matched : Bool) =>
    if matched = ((w.registry.applyAll t).find token).any (·.enabled) then
      if matched then
        if locked others token then none else some (w, t ++ [.disable token reason])
      else some (w, t)
    else none
  | .flush token, _ => if locked others token then none else some (w, t ++ [.flush token])
  | .getDevice id, (device : Option DeviceToken) =>
    if device = (w.registry.applyAll t).rows.find? (·.id == id) then some (w, t) else none
  | .enabledDevices, (devices : List DeviceToken) =>
    if devices = (w.registry.applyAll t).enabledDevices then some (w, t) else none
  | .countEnabled, (count : Nat) =>
    if count = ((w.registry.applyAll t).rows.filter (·.enabled)).length then some (w, t) else none
  | .commit, _ => some ({ w with registry := w.registry.applyAll t }, [])
  | .rollback, _ => some (w, [])
  | .conversationMode _, _ | .customerName _, _ | .timestamp, _ | .bearer, _ | .post _, _ =>
    some (w, t)

def now : PushM Time := Prog.call (S := pushSig) .now
def upsert (token platform notificationPrivacy : String) (time : Time) : PushM Nat :=
  Prog.call (S := pushSig) (.upsert token platform notificationPrivacy time)
def disableToken (token reason : String) : PushM Bool :=
  Prog.call (S := pushSig) (.disable token reason)
def flush (token : String) : PushM Unit := Prog.call (S := pushSig) (.flush token)
def getDevice (id : Nat) : PushM (Option DeviceToken) := Prog.call (S := pushSig) (.getDevice id)
def enabledDevices : PushM (List DeviceToken) := Prog.call (S := pushSig) .enabledDevices
def countEnabled : PushM Nat := Prog.call (S := pushSig) .countEnabled
def commit : PushM Unit := Prog.call (S := pushSig) .commit
def rollback : PushM Unit := Prog.call (S := pushSig) .rollback
def conversationMode (conversationId : Nat) : PushM (Option String) :=
  Prog.call (S := pushSig) (.conversationMode conversationId)
def customerName (conversationId : Nat) : PushM (Option String) :=
  Prog.call (S := pushSig) (.customerName conversationId)
def timestamp : PushM String := Prog.call (S := pushSig) .timestamp
def bearer : PushM Minted := Prog.call (S := pushSig) .bearer
def post (message : PushMessage) : PushM PostAnswer := Prog.call (S := pushSig) (.post message)

/-! ## The services -/

/-- `DeviceTokenRepository.register`. -/
def registerRow (token platform notificationPrivacy : String) : PushM (Option DeviceToken) := do
  let time ← now
  let deviceId ← upsert token platform notificationPrivacy time
  getDevice deviceId

/-- `DeviceService.register`. -/
def register (token platform notificationPrivacy : String) : PushM Unit := do
  match ← registerRow token platform notificationPrivacy with
  | none => rollback
  | some _ =>
    commit
    let _ ← countEnabled
    rollback

/-- `DeviceService.disable`. -/
def disable (token : String) : PushM Unit := do
  let _ ← disableToken token disabledByDevice
  commit
  let _ ← countEnabled
  rollback

/-- `PushSettings`, and `retry_max_attempts` of the main settings, one less. -/
structure PushSettings where
  pushEnabled : Bool
  fcmProjectId : String
  fcmCredentials : String
  pushDefaultBody : String
  extraAttempts : Nat

def PushSettings.configured (s : PushSettings) : Bool :=
  s.pushEnabled && s.fcmProjectId ≠ "" && s.fcmCredentials ≠ ""

/-! ## Firebase -/

def deadTokenStatuses : List String := ["UNREGISTERED", "INVALID_ARGUMENT", "SENDER_ID_MISMATCH"]

/-- `error.get("details") or []`, then the first `errorCode` that is something; `none` raises. -/
def detailStatus (reprOf : Json → String) : List Json → Option (Option String)
  | [] => some none
  | detail :: details =>
    match detail with
    | .obj _ =>
      let status := detail.field "errorCode"
      if status.truthy then some (some (status.text reprOf)) else detailStatus reprOf details
    | _ => none

/-- `_status_of`; `none` raises. -/
def statusOf (reprOf : Json → String) : Option Json → Option String
  | none => some ""
  | some (.obj kvs) =>
    match (Json.field (.obj kvs) "error").orElse (.obj []) with
    | .obj error =>
      match ((Json.field (.obj error) "details").orElse (.arr [])).iter with
      | none => none
      | some details =>
        match detailStatus reprOf details with
        | none => none
        | some (some status) => some status
        | some none => some ((Json.field (.obj error) "status").textOr reprOf)
    | _ => none
  | some _ => none

/-- How one attempt went. -/
inductive Verdict where
  | accepted
  | dead (status : String)
  | transient
  | failed
  deriving DecidableEq

/-- `send` after its POST. -/
def verdict (reprOf : Json → String) : PostAnswer → Verdict
  | .transportError => .transient
  | .response code body =>
    if code = 400 ∨ code = 403 ∨ code = 404 then
      match statusOf reprOf body with
      | none => .failed
      | some status => if status ∈ deadTokenStatuses then .dead status else .failed
    else if code = 429 ∨ 500 ≤ code then .transient
    else if 200 ≤ code ∧ code < 300 then
      match body with
      | some (.obj _) => .accepted
      | _ => .failed
    else .failed

inductive SendOutcome where
  | accepted
  | dead (status : String)
  | failed

def Verdict.outcome : Verdict → SendOutcome
  | accepted => .accepted
  | dead status => .dead status
  | transient | failed => .failed

/-- One attempt. -/
def attempt (reprOf : Json → String) (message : PushMessage) : PushM Verdict := do
  match ← bearer with
  | .notConfigured | .failed => pure .failed
  | .token =>
    let answer ← post message
    pure (verdict reprOf answer)

/-- `FcmClient.send`, with the attempts that are left behind the first. -/
def send (reprOf : Json → String) (message : PushMessage) : Nat → PushM SendOutcome
  | 0 => do
    let v ← attempt reprOf message
    pure v.outcome
  | extra + 1 => do
    match ← attempt reprOf message with
    | .transient => send reprOf message extra
    | v => pure v.outcome

/-! ## Who is told what -/

inductive NotificationType where
  | salesLead
  | handoff
  | assigned
  | customerMessage
  deriving DecidableEq

namespace NotificationType

def text : NotificationType → String
  | salesLead => "sales_lead"
  | handoff => "handoff"
  | assigned => "assigned"
  | customerMessage => "customer_message"

/-- `_TITLES`. -/
def title : NotificationType → String
  | salesLead => "New Sales Lead"
  | handoff => "A Customer Needs a Person"
  | assigned => "Conversation Assigned to You"
  | customerMessage => "New Customer Message"

end NotificationType

def bodyFor (settings : PushSettings) (device : DeviceToken) (customerName : Option String) :
    String :=
  match customerName with
  | some name => if device.wantsPreview && name ≠ "" then name else settings.pushDefaultBody
  | none => settings.pushDefaultBody

def messageFor (settings : PushSettings) (device : DeviceToken) (type : NotificationType)
    (conversationId : Nat) (customerName : Option String) (time : String) : PushMessage where
  token := device.token
  title := type.title
  body := bodyFor settings device customerName
  data := [("conversation_id", toString conversationId), ("notification_type", type.text),
    ("timestamp", time)]

/-- The loop of `notify`: what is left of the devices, and the tokens whose objects were changed
since the last flush. -/
def fanOut (reprOf : Json → String) (settings : PushSettings) (make : DeviceToken → PushMessage) :
    List DeviceToken → List String → PushM (List String × Bool)
  | [], pending => pure (pending, false)
  | device :: devices, pending => do
    match ← send reprOf (make device) settings.extraAttempts with
    | .accepted | .failed => fanOut reprOf settings make devices pending
    | .dead _ =>
      pending.forM flush
      let _ ← disableToken device.token disabledUnregistered
      let (pending, _) ← fanOut reprOf settings make devices [device.token]
      pure (pending, true)

/-- `NotificationService.notify`. -/
def notify (reprOf : Json → String) (settings : PushSettings) (conversationId : Nat)
    (type : NotificationType) (customerName : Option String) : PushM Unit := do
  if !settings.configured then pure ()
  else
    let devices ← enabledDevices
    if devices = [] then pure ()
    else
      let time ← timestamp
      let make := fun device => messageFor settings device type conversationId customerName time
      let (pending, retired) ← fanOut reprOf settings make devices []
      if retired then do
        pending.forM flush
        commit
        let _ ← countEnabled
        pure ()
      else pure ()

def modeHuman : String := "human"

/-- `_classify`. -/
def classify : DashboardEvent → PushM (Option NotificationType)
  | .conversationHandoff _ mode assignedOperator _ tag _ =>
    if mode ≠ modeHuman then pure none
    else if tag = some tagSalesLead then pure (some .salesLead)
    else if (assignedOperator.getD "") ≠ "" then pure (some .assigned)
    else pure (some .handoff)
  | .conversationActivity conversationId inbound _ =>
    if !inbound then pure none
    else do
      let mode ← conversationMode conversationId
      if mode = some modeHuman then pure (some .customerMessage) else pure none
  | _ => pure none

def conversationOf : DashboardEvent → Nat
  | .conversationActivity id _ _ | .conversationHandoff id _ _ _ _ _
  | .conversationClosed id _ _ _ _ _ | .conversationReopened id _ _ _ _ _ => id

/-- `dispatch`, which ends its session. -/
def dispatch (reprOf : Json → String) (settings : PushSettings) (event : DashboardEvent) :
    PushM Unit := do
  if !settings.configured then pure ()
  else
    match event with
    | .conversationActivity .. | .conversationHandoff .. =>
      match ← classify event with
      | none => rollback
      | some type =>
        let name ← customerName (conversationOf event)
        notify reprOf settings (conversationOf event) type name
        rollback
    | _ => pure ()

/-! ## The processes -/

inductive PushTask where
  | register (token platform notificationPrivacy : String)
  | disable (token : String)
  | dispatch (event : DashboardEvent)

def program (reprOf : Json → String) (settings : PushSettings) : PushTask → PushM Unit
  | .register token platform notificationPrivacy => register token platform notificationPrivacy
  | .disable token => disable token
  | .dispatch event => dispatch reprOf settings event

def pushSem (reprOf : Json → String) (settings : PushSettings) :
    Sem pushSig World DeviceTx PushTask where
  idle := []
  program := program reprOf settings
  step := step

end Push
