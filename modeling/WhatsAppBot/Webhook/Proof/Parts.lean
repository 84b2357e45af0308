import WhatsAppBot.Webhook.System

/-!
# A delivery as a list of parts

`process_webhook_payload` walks the entries, the changes and in each change the messages and then the
statuses; a task for the other channels walks the events of one surface after the other. Either way
the delivery is one list of parts, processed in order (`program_parts`). A part that raises ends the
attempt, and so does the point from which the payload cannot be read.
-/

set_option autoImplicit false

namespace Webhook

open Lib Store Bot Channels

inductive Part where
  | message (contacts : Contacts) (message : Json)
  | status (status : Json)
  | event (channel : Channel) (e : InboundEvent)
  /-- The payload cannot be read any further. -/
  | malformed

def Part.run (cfg : Config) : Part → BotM Unit
  | .message contacts m => processMessage cfg contacts m
  | .status s => processStatus s
  | .event channel e => processEvent cfg channel e
  | .malformed => raise .malformedPayload

/-- What `for x in j.get(key, [])` goes through. -/
def Json.listAt (j : Json) (key : String) : Option (List Json) :=
  (j.getD key (.arr [])).bind Json.iter

/-- The parts of each item, where the list can be read. -/
def eachPart (xs : Option (List Json)) (f : Json → List Part) : List Part :=
  match xs with
  | some xs => xs.flatMap f
  | none => [.malformed]

def changeParts (change : Json) : List Part :=
  match change.getD "value" (.obj []) with
  | none => [.malformed]
  | some value =>
    match (Json.listAt value "contacts").bind contactsOf with
    | none => [.malformed]
    | some contacts =>
      eachPart (Json.listAt value "messages") (fun message => [.message contacts message]) ++
        eachPart (Json.listAt value "statuses") fun status => [.status status]

def entryParts (entry : Json) : List Part := eachPart (Json.listAt entry "changes") changeParts

def surfaceParts (payload : Json) (surface : Surface) : List Part :=
  match surface.parse payload with
  | none => [.malformed]
  | some events => events.map (.event surface.channel)

/-- The parts of a delivery; the other tasks have none. -/
def Task.parts : Task → List Part
  | .webhook payload => eachPart (Json.listAt payload "entry") entryParts
  | .metaWebhook surfaces payload => surfaces.flatMap (surfaceParts payload)
  | _ => []

def Task.isDelivery : Task → Bool
  | .webhook _ | .metaWebhook _ _ => true
  | _ => false

variable {cfg : Config} {α : Type}

theorem raise_bind {β : Type} (e : Exn) (f : α → BotM β) : (raise e : BotM α) >>= f = raise e := by
  unfold raise
  rw [Prog.op_bind]
  exact congrArg (Prog.op (S := botSig) (Op.raise e)) (funext fun r => nomatch r)

theorem malformed_run : [Part.malformed].forM (Part.run cfg) = raise .malformedPayload :=
  Prog.forM_singleton _ _

theorem get_bind (j : Json) (key : String) (default : Json) (f : Json → BotM α) :
    (get j key default >>= f) =
      match j.getD key default with
      | some v => f v
      | none => raise .malformedPayload := by
  unfold get
  cases j.getD key default with
  | none => exact raise_bind _ _
  | some v => rfl

theorem iter_bind (j : Json) (f : List Json → BotM α) :
    (iter j >>= f) =
      match j.iter with
      | some xs => f xs
      | none => raise .malformedPayload := by
  unfold iter
  cases j.iter with
  | none => exact raise_bind _ _
  | some xs => rfl

/-- A list the source walks. -/
theorem walk_eq (j : Json) (key : String) (f : List Json → BotM Unit) :
    (get j key (.arr []) >>= fun v => iter v >>= f) =
      match Json.listAt j key with
      | some xs => f xs
      | none => raise .malformedPayload := by
  rw [get_bind]
  unfold Json.listAt
  cases j.getD key (.arr []) with
  | none => rfl
  | some v => exact iter_bind v f

theorem eachPart_run (g : Json → BotM Unit) (f : Json → List Part) (xs : Option (List Json))
    (h : ∀ x, g x = (f x).forM (Part.run cfg)) :
    (match xs with
      | some xs => xs.forM g
      | none => raise .malformedPayload) = (eachPart xs f).forM (Part.run cfg) := by
  cases xs with
  | none => exact malformed_run.symm
  | some xs =>
    rw [funext h]
    exact (Prog.forM_flatMap _ _ _).symm

theorem processChange_parts (change : Json) :
    processChange cfg change = (changeParts change).forM (Part.run cfg) := by
  unfold processChange changeParts
  rw [get_bind]
  cases change.getD "value" (.obj []) with
  | none => exact malformed_run.symm
  | some value =>
    dsimp only
    rw [walk_eq]
    cases Json.listAt value "contacts" with
    | none => exact malformed_run.symm
    | some contacts =>
      dsimp only [Option.bind_some]
      cases contactsOf contacts with
      | none => exact malformed_run.symm
      | some contacts =>
        dsimp only
        rw [walk_eq, Prog.forM_append]
        rw [← eachPart_run (processMessage cfg contacts) _ (Json.listAt value "messages")
            fun m => (Prog.forM_singleton (Part.run cfg) (.message contacts m)).symm,
          ← eachPart_run processStatus _ (Json.listAt value "statuses")
            fun s => (Prog.forM_singleton (Part.run cfg) (.status s)).symm]
        cases Json.listAt value "messages" with
        | none => exact (raise_bind _ _).symm
        | some messages =>
          exact congrArg (messages.forM (processMessage cfg contacts) >>= ·)
            (funext fun _ => walk_eq value "statuses" _)

theorem processEntry_parts (entry : Json) :
    processEntry cfg entry = (entryParts entry).forM (Part.run cfg) := by
  unfold processEntry entryParts
  rw [walk_eq]
  exact eachPart_run _ _ _ processChange_parts

theorem processMetaPayload_parts (payload : Json) (surface : Surface) :
    processMetaPayload cfg surface payload = (surfaceParts payload surface).forM (Part.run cfg) := by
  unfold processMetaPayload surfaceParts
  cases surface.parse payload with
  | none => exact malformed_run.symm
  | some events =>
    show events.forM _ = (events.map _).forM _
    induction events with
    | nil => rfl
    | cons e events ih =>
      rw [List.map_cons, Prog.forM_cons, Prog.forM_cons, ih]
      rfl

/-- **A delivery is processed part by part.** -/
theorem program_parts {task : Task} (h : task.isDelivery = true) :
    program cfg task = task.parts.forM (Part.run cfg) := by
  cases task with
  | webhook payload =>
    show processWebhookPayload cfg payload = _
    unfold processWebhookPayload
    rw [walk_eq]
    exact eachPart_run _ _ _ processEntry_parts
  | metaWebhook surfaces payload =>
    show runMeta cfg surfaces payload = (surfaces.flatMap _).forM _
    rw [Prog.forM_flatMap]
    exact congrArg surfaces.forM (funext fun surface => processMetaPayload_parts payload surface)
  | _ => cases h

end Webhook
