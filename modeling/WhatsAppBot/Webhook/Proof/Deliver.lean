import WhatsAppBot.Chat.Proof.Serve
import WhatsAppBot.Webhook.Process

/-!
# Composing a delivery

`Routes M cfg K`: the monitor is in `K` between two messages; the handlers, the recorder of stale
messages and the status updates lead from `K` back to it. Then so does `process_webhook_payload`, for
every payload. `Dispatches M cfg K` asks the same of the invitations, and gives
`process_meta_payload`. `Intake M cfg K` and `Delivers M cfg K` ask of the handlers only how they
claim and serve a message.
-/

set_option autoImplicit false

namespace Webhook

open Lib Store Bot Channels Chat

/-! ## Reading -/

theorem get_routine (j : Json) (key : String) (default : Json) : OnlyRoutine (get j key default) := by
  unfold get
  split
  · trivial
  · exact only_raise rfl

theorem asString_routine (j : Json) : OnlyRoutine (asString j) := by
  unfold asString
  split
  · trivial
  · exact only_raise rfl

theorem asOptional_routine (j : Json) : OnlyRoutine (asOptional j) := by
  unfold asOptional
  split
  · trivial
  · trivial
  · exact only_raise rfl

theorem interactiveSelection_routine (cfg : Config) (message : Json) :
    OnlyRoutine (interactiveSelection cfg message) :=
  (get_routine _ _ _).bind fun _ => trivial

theorem contentOf_routine (cfg : Config) (message : Json) (type : String) :
    OnlyRoutine (contentOf cfg message type) := by
  unfold contentOf
  split
  · exact (get_routine _ _ _).bind fun _ => (get_routine _ _ _).bind fun _ => asOptional_routine _
  · split
    · refine (get_routine _ _ _).bind fun media => ?_
      dsimp only
      split
      · exact asOptional_routine _
      · trivial
    · split
      · refine (interactiveSelection_routine _ _).bind fun selection => ?_
        cases selection <;> trivial
      · split
        · refine (get_routine _ _ _).bind fun button => ?_
          split <;> trivial
        · trivial

theorem messageIsStale_routine (cfg : Config) (message : Json) :
    OnlyRoutine (messageIsStale cfg message) := by
  refine (get_routine _ _ _).bind fun raw => ?_
  cases cfg.fromTimestamp raw with
  | none => trivial
  | some sentAt => exact Prog.Only.call_bind rfl fun _ => trivial

theorem eventIsStale_routine (cfg : Config) (e : InboundEvent) :
    OnlyRoutine (eventIsStale cfg e) := by
  unfold eventIsStale
  split
  · trivial
  · cases e.sentAt with
    | none => trivial
    | some sentAt => exact Prog.Only.call_bind rfl fun _ => trivial

theorem get_only (j : Json) (key : String) (default : Json) : OnlyCalm (get j key default) :=
  (get_routine j key default).calm

theorem iter_only (j : Json) : OnlyCalm (iter j) := by
  unfold iter
  split
  · trivial
  · exact only_raise rfl

theorem asString_only (j : Json) : OnlyCalm (asString j) := (asString_routine j).calm

theorem asOptional_only (j : Json) : OnlyCalm (asOptional j) := (asOptional_routine j).calm

theorem interactiveSelection_only (cfg : Config) (message : Json) :
    OnlyCalm (interactiveSelection cfg message) :=
  (interactiveSelection_routine cfg message).calm

theorem contentOf_only (cfg : Config) (message : Json) (type : String) :
    OnlyCalm (contentOf cfg message type) :=
  (contentOf_routine cfg message type).calm

theorem messageIsStale_only (cfg : Config) (message : Json) :
    OnlyCalm (messageIsStale cfg message) :=
  (messageIsStale_routine cfg message).calm

theorem eventIsStale_only (cfg : Config) (e : InboundEvent) : OnlyCalm (eventIsStale cfg e) :=
  (eventIsStale_routine cfg e).calm

/-! ## Deliveries -/

variable {A : Type}

/-- Everything a WhatsApp delivery is routed to leads from `K` back to it. -/
structure Routes (M : Monitor botSig A) (cfg : Config) (K : A → Prop) : Prop where
  calm : ∀ {a o}, K a → isCalm o = true → M.ok a o ∧ ∀ r, M.may o r → K (M.next a o r)
  text : ∀ {a} channel waId name key text, K a →
    (handleTextMessage cfg channel waId name key text).wp M (fun _ => K) a
  selection : ∀ {a} channel waId name key id title, K a →
    (handleInteractiveMessage cfg channel waId name key id title).wp M (fun _ => K) a
  media : ∀ {a} channel waId name key type mediaId caption, K a →
    (handleMediaMessage cfg channel waId name key type mediaId caption).wp M (fun _ => K) a
  unsupported : ∀ {a} channel waId name key type, K a →
    (handleUnsupportedMessage cfg channel waId name key type).wp M (fun _ => K) a
  stale : ∀ {a} waId name key type content, K a →
    (recordWithoutAnswering cfg waId name key type content).wp M (fun _ => K) a
  status : ∀ {a k status}, K a → M.ok a (.sql (.updateStatusByWaId k status)) ∧
    ∀ r, M.may (.sql (.updateStatusByWaId k status)) r →
      K (M.next a (.sql (.updateStatusByWaId k status)) r)

/-- Every handler leads from `K` back to it. -/
structure Dispatches (M : Monitor botSig A) (cfg : Config) (K : A → Prop) : Prop
    extends Routes M cfg K where
  invite : ∀ {a} channel e, K a → (inviteAfterComment cfg channel e).wp M (fun _ => K) a

namespace Routes

variable {M : Monitor botSig A} {cfg : Config} {K : A → Prop} {a : A} {α : Type}

theorem calm_wp (hd : Routes M cfg K) {P : BotM α} (hP : OnlyCalm P) (ha : K a) :
    P.wp M (fun _ => K) a :=
  hP.wp ha fun _ _ hb ho => hd.calm hb ho

theorem calm_bind (hd : Routes M cfg K) {β : Type} {P : BotM α} {f : α → BotM β}
    {Q : β → A → Prop} (hP : OnlyCalm P) (ha : K a) (hf : ∀ x b, K b → (f x).wp M Q b) :
    (P >>= f).wp M Q a := by
  rw [Prog.wp_bind]
  exact Prog.wp_mono (hd.calm_wp hP ha) hf

theorem handledAsStale_wp (hd : Routes M cfg K) (ha : K a) (message : Json)
    (contacts : Contacts) : (handledAsStale cfg message contacts).wp M (fun _ => K) a := by
  unfold handledAsStale
  split
  · exact ha
  · refine hd.calm_bind (messageIsStale_only _ _) ha fun stale b hb => ?_
    split
    · refine hd.calm_bind (get_only _ _ _) hb fun waId b hb =>
        hd.calm_bind (get_only _ _ _) hb fun waMessageId b hb => ?_
      split
      · exact hb
      · refine hd.calm_bind (asString_only _) hb fun _ b hb =>
          hd.calm_bind (asString_only _) hb fun _ b hb =>
          hd.calm_bind (asOptional_only _) hb fun _ b hb =>
          hd.calm_bind (get_only _ _ _) hb fun _ b hb =>
          hd.calm_bind (asString_only _) hb fun _ b hb =>
          hd.calm_bind (contentOf_only _ _ _) hb fun _ b hb => ?_
        rw [Prog.wp_bind]
        exact Prog.wp_mono (hd.stale _ _ _ _ _ hb) fun _ _ h => h
    · exact hb

theorem dispatchMessage_wp (hd : Routes M cfg K) (ha : K a) (message : Json)
    (contacts : Contacts) : (dispatchMessage cfg message contacts).wp M (fun _ => K) a := by
  unfold dispatchMessage
  refine hd.calm_bind (get_only _ _ _) ha fun _ b hb =>
    hd.calm_bind (asString_only _) hb fun waId b hb =>
    hd.calm_bind (get_only _ _ _) hb fun _ b hb =>
    hd.calm_bind (asString_only _) hb fun key b hb =>
    hd.calm_bind (get_only _ _ _) hb fun _ b hb =>
    hd.calm_bind (asString_only _) hb fun type b hb =>
    hd.calm_bind (asOptional_only _) hb fun name b hb => ?_
  split
  · exact hd.calm_bind (get_only _ _ _) hb fun _ b hb =>
      hd.calm_bind (get_only _ _ _) hb fun _ b hb =>
      hd.calm_bind (asString_only _) hb fun _ b hb => hd.text _ _ _ _ _ hb
  · split
    · exact hd.calm_bind (get_only _ _ _) hb fun _ b hb =>
        hd.calm_bind (get_only _ _ _) hb fun _ b hb =>
        hd.calm_bind (asOptional_only _) hb fun _ b hb =>
        hd.calm_bind (get_only _ _ _) hb fun _ b hb =>
        hd.calm_bind (asOptional_only _) hb fun _ b hb => hd.media _ _ _ _ _ _ _ hb
    · split
      · refine hd.calm_bind (interactiveSelection_only _ _) hb fun selection b hb => ?_
        cases selection with
        | none => exact hd.unsupported _ _ _ _ _ hb
        | some selection => exact hd.selection _ _ _ _ _ _ hb
      · split
        · refine hd.calm_bind (get_only _ _ _) hb fun button b hb => ?_
          split
          · exact hd.selection _ _ _ _ _ _ hb
          · exact hd.unsupported _ _ _ _ _ hb
        · exact hd.unsupported _ _ _ _ _ hb

theorem processMessage_wp (hd : Routes M cfg K) (ha : K a) (contacts : Contacts)
    (message : Json) : (processMessage cfg contacts message).wp M (fun _ => K) a := by
  unfold processMessage
  rw [Prog.wp_bind]
  refine Prog.wp_mono (hd.handledAsStale_wp ha message contacts) fun handled b hb => ?_
  split
  · exact hb
  · exact hd.dispatchMessage_wp hb message contacts

theorem processStatus_wp (hd : Routes M cfg K) (ha : K a) (status : Json) :
    (processStatus status).wp M (fun _ => K) a := by
  unfold processStatus
  refine hd.calm_bind (get_only _ _ _) ha fun _ b hb =>
    hd.calm_bind (get_only _ _ _) hb fun _ b hb => ?_
  split
  · refine hd.calm_bind (asString_only _) hb fun _ b hb =>
      hd.calm_bind (asString_only _) hb fun _ b hb => ?_
    exact Prog.wp_call_bind (hd.status hb).1 fun r hr =>
      hd.calm_wp (Prog.only_call.mpr rfl) ((hd.status hb).2 r hr)
  · exact hb

theorem processChange_wp (hd : Routes M cfg K) (ha : K a) (change : Json) :
    (processChange cfg change).wp M (fun _ => K) a := by
  unfold processChange
  refine hd.calm_bind (get_only _ _ _) ha fun _ b hb =>
    hd.calm_bind (get_only _ _ _) hb fun _ b hb =>
    hd.calm_bind (iter_only _) hb fun contacts b hb => ?_
  cases contactsOf contacts with
  | none => exact hd.calm_wp (only_raise rfl) hb
  | some contacts =>
    refine hd.calm_bind (get_only _ _ _) hb fun _ b hb =>
      hd.calm_bind (iter_only _) hb fun messages b hb => ?_
    rw [Prog.wp_bind]
    refine Prog.wp_mono (Prog.wp_forM (fun m _ b hb => hd.processMessage_wp hb contacts m) hb)
      fun _ b hb => ?_
    exact hd.calm_bind (get_only _ _ _) hb fun _ b hb =>
      hd.calm_bind (iter_only _) hb fun statuses b hb =>
        Prog.wp_forM (fun status _ b hb => hd.processStatus_wp hb status) hb

/-- **A WhatsApp delivery leads from `K` to `K`.** -/
theorem processWebhookPayload_wp (hd : Routes M cfg K) (ha : K a) (payload : Json) :
    (processWebhookPayload cfg payload).wp M (fun _ => K) a := by
  refine hd.calm_bind (get_only _ _ _) ha fun _ b hb =>
    hd.calm_bind (iter_only _) hb fun entries b hb => Prog.wp_forM (fun entry _ b hb => ?_) hb
  exact hd.calm_bind (get_only _ _ _) hb fun _ b hb =>
    hd.calm_bind (iter_only _) hb fun changes b hb =>
      Prog.wp_forM (fun change _ b hb => hd.processChange_wp hb change) hb

end Routes

namespace Dispatches

variable {M : Monitor botSig A} {cfg : Config} {K : A → Prop} {a : A}

theorem dispatchEvent_wp (hd : Dispatches M cfg K) (ha : K a) (channel : Channel)
    (e : InboundEvent) : (dispatchEvent cfg channel e).wp M (fun _ => K) a := by
  unfold dispatchEvent
  split
  · exact ha
  · refine hd.calm_bind (asOptional_only _) ha fun name b hb => ?_
    split
    · exact hd.text _ _ _ _ _ hb
    · split
      · exact hd.selection _ _ _ _ _ _ hb
      · exact hd.unsupported _ _ _ _ _ hb
    · exact hd.media _ _ _ _ _ _ _ hb
    · exact hd.unsupported _ _ _ _ _ hb

theorem processEvent_wp (hd : Dispatches M cfg K) (ha : K a) (channel : Channel)
    (e : InboundEvent) : (processEvent cfg channel e).wp M (fun _ => K) a := by
  unfold processEvent
  refine hd.calm_bind (eventIsStale_only _ _) ha fun stale b hb => ?_
  split
  · exact hb
  · rw [Prog.wp_bind]
    refine Prog.wp_mono (hd.dispatchEvent_wp hb channel e) fun _ b hb => ?_
    rw [when]
    split
    · exact hd.invite channel e hb
    · exact hb

theorem processMetaPayload_wp (hd : Dispatches M cfg K) (ha : K a) (surface : Surface)
    (payload : Json) : (processMetaPayload cfg surface payload).wp M (fun _ => K) a := by
  unfold processMetaPayload
  split
  · exact hd.calm_wp (only_raise rfl) ha
  · exact Prog.wp_forM (fun e _ b hb => hd.processEvent_wp hb _ e) ha

end Dispatches

/-- The handlers by what they do: `receive`, then serving the message. -/
structure Intake (M : Monitor botSig A) (cfg : Config) (K : A → Prop) : Prop where
  calm : ∀ {a o}, K a → isCalm o = true → M.ok a o ∧ ∀ r, M.may o r → K (M.next a o r)
  handles : ∀ channel waId name key, ∃ I J, Handles M cfg channel waId name key K I J
  stale : ∀ {a} waId name key type content, K a →
    (recordWithoutAnswering cfg waId name key type content).wp M (fun _ => K) a
  status : ∀ {a k status}, K a → M.ok a (.sql (.updateStatusByWaId k status)) ∧
    ∀ r, M.may (.sql (.updateStatusByWaId k status)) r →
      K (M.next a (.sql (.updateStatusByWaId k status)) r)

/-- The same with the invitation that can follow a comment. -/
structure Delivers (M : Monitor botSig A) (cfg : Config) (K : A → Prop) : Prop
    extends Intake M cfg K where
  invite : ∀ {a} channel e, K a → (inviteAfterComment cfg channel e).wp M (fun _ => K) a

variable {M : Monitor botSig A} {cfg : Config} {K : A → Prop} {a : A}

theorem Intake.routes (hd : Intake M cfg K) : Routes M cfg K where
  calm := hd.calm
  text channel waId name key text ha := by
    obtain ⟨I, J, hh⟩ := hd.handles channel waId name key
    exact hh.handleTextMessage_wp ha text
  selection channel waId name key id title ha := by
    obtain ⟨I, J, hh⟩ := hd.handles channel waId name key
    exact hh.handleInteractiveMessage_wp ha id title
  media channel waId name key type mediaId caption ha := by
    obtain ⟨I, J, hh⟩ := hd.handles channel waId name key
    exact hh.handleMediaMessage_wp ha type mediaId caption
  unsupported channel waId name key type ha := by
    obtain ⟨I, J, hh⟩ := hd.handles channel waId name key
    exact hh.handleUnsupportedMessage_wp ha type
  stale := hd.stale
  status := hd.status

theorem Intake.processWebhookPayload_wp (hd : Intake M cfg K) (ha : K a) (payload : Json) :
    (processWebhookPayload cfg payload).wp M (fun _ => K) a :=
  hd.routes.processWebhookPayload_wp ha payload

namespace Delivers

theorem dispatches (hd : Delivers M cfg K) : Dispatches M cfg K where
  toRoutes := hd.routes
  invite := hd.invite

theorem processMetaPayload_wp (hd : Delivers M cfg K) (ha : K a) (surface : Surface)
    (payload : Json) : (processMetaPayload cfg surface payload).wp M (fun _ => K) a :=
  hd.dispatches.processMetaPayload_wp ha surface payload

end Delivers

end Webhook
