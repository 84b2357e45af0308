import WhatsAppBot.Chat.Proof.Serve

/-!
# Reading the conversation of a message

What a monitor has to supply about the opening of a handler: `Reads M K I` says that the lookups lead
from `K` to `I c` for the conversation `c` they answer, `Receives` adds the claim of the message.
`receive_wp` makes of it the first half of `Handles`.
-/

set_option autoImplicit false

namespace Chat

open Lib Store Bot

variable {A : Type}

structure Reads (M : Monitor botSig A) (K : A → Prop) (I : Conversation → A → Prop) : Prop where
  keep : ∀ {a o}, K a → inContext o = true → M.ok a o ∧ ∀ r, M.may o r → K (M.next a o r)
  look : ∀ {a userId x}, K a → I x (M.next a (.sql (.activeForUser userId)) (some x))
  fetch : ∀ {a id x}, K a → I x (M.next a (.sql (.getConversation id)) (some x))

variable {M : Monitor botSig A} {K : A → Prop} {I : Conversation → A → Prop} {a : A}

/-- A conversation comes back known, and without one nothing has changed. -/
def Known (K : A → Prop) (I : Conversation → A → Prop) (c : Option Conversation) (a : A) : Prop :=
  match c with
  | none => K a
  | some c => I c a

namespace Reads

variable (h : Reads M K I)
include h

theorem keep_bind {α β : Type} {P : BotM α} {f : α → BotM β} {Q : β → A → Prop}
    (hP : P.Only fun o => inContext o = true) (ha : K a) (hf : ∀ x b, K b → (f x).wp M Q b) :
    (P >>= f).wp M Q a := by
  rw [Prog.wp_bind]
  exact Prog.wp_mono (hP.wp ha fun _ _ hb ho => h.keep hb ho) hf

theorem fetch_wp (ha : K a) (id : Nat) : (getConversation id).wp M (Known K I) a := by
  refine ⟨(h.keep ha rfl).1, fun r hr => ?_⟩
  cases r with
  | none => exact (h.keep ha rfl).2 _ hr
  | some x => exact h.fetch ha

theorem resumeRecent_wp (ha : K a) (userId : Nat) (window : Option Time) :
    (resumeRecent userId window).wp M (Known K I) a := by
  cases window with
  | none => exact ha
  | some window =>
    refine h.keep_bind (Prog.only_call.mpr rfl) ha fun _ b hb =>
      h.keep_bind (Prog.only_call.mpr rfl) hb fun _ b hb =>
        h.keep_bind (Prog.only_call.mpr rfl) hb fun id b hb => ?_
    cases id with
    | none => exact hb
    | some id => exact h.fetch_wp hb id

theorem createActive_wp (ha : K a) (userId : Nat) (channel : Channel) :
    (createActive userId channel).wp M (Known K I) a := by
  refine h.keep_bind (Prog.only_call.mpr rfl) ha fun id b hb => ?_
  cases id with
  | none => exact hb
  | some id => exact h.fetch_wp hb id

theorem openNew_wp (ha : K a) (userId : Nat) (channel : Channel) :
    (openNew userId channel).wp M I a := by
  unfold openNew
  rw [Prog.wp_bind]
  refine Prog.wp_mono (h.createActive_wp ha userId channel) fun created b hb => ?_
  cases created with
  | some c => exact hb
  | none =>
    refine Prog.wp_call_bind (h.keep hb rfl).1 fun c hc => ?_
    cases c with
    | some c => exact h.look hb
    | none => exact ⟨(h.keep ((h.keep hb rfl).2 _ hc) rfl).1, nofun⟩

theorem getOrCreateActive_wp (ha : K a) (userId : Nat) (window : Option Time) (channel : Channel) :
    (getOrCreateActive userId window channel).wp M I a := by
  refine Prog.wp_call_bind (h.keep ha rfl).1 fun c hc => ?_
  cases c with
  | some c => exact h.look ha
  | none =>
    rw [Prog.wp_bind]
    refine Prog.wp_mono (h.resumeRecent_wp ((h.keep ha rfl).2 _ hc) userId window) fun c b hb => ?_
    cases c with
    | some c => exact hb
    | none => exact h.openNew_wp hb userId channel

theorem getContext_wp (ha : K a) (cfg : Config) (waId : String) (name : Option String) :
    (getContext cfg waId name).wp M I a :=
  h.keep_bind (getOrCreate_only waId name) ha fun _ _ hb => h.getOrCreateActive_wp hb _ _ _

theorem getChannelContext_wp (ha : K a) (cfg : Config) (channel : Channel) (externalId : String)
    (name : Option String) : (getChannelContext cfg channel externalId name).wp M I a :=
  h.keep_bind (getOrCreateByChannel_only channel externalId name) ha fun _ _ hb =>
    h.getOrCreateActive_wp hb _ _ _

theorem context_wp (ha : K a) (cfg : Config) (channel : Channel) (externalId : String)
    (name : Option String) : (context cfg channel externalId name).wp M I a := by
  unfold context
  split
  · exact h.getContext_wp ha cfg externalId name
  · exact h.getChannelContext_wp ha cfg channel externalId name

end Reads

structure Receives (M : Monitor botSig A) (K : A → Prop) (I : Conversation → A → Prop) : Prop
    extends Reads M K I where
  claim : ∀ {c a key type content mediaId}, I c a →
    M.ok a (.sql (.claimInbound c.id key type content mediaId)) ∧
      ∀ r, I c (M.next a (.sql (.claimInbound c.id key type content mediaId)) r)
  calm : ∀ {c a o}, I c a → isCalm o = true → M.ok a o ∧ ∀ r, M.may o r → I c (M.next a o r)
  /-- A process that leaves the conversation is where it was before. -/
  leave : ∀ {c a}, I c a → K a

namespace Receives

variable (h : Receives M K I)
include h

theorem calm_wp {α : Type} {P : BotM α} {c : Conversation} (hP : OnlyCalm P) (ha : I c a) :
    P.wp M (fun _ => I c) a :=
  hP.wp ha fun _ _ hb ho => h.calm hb ho

theorem receive_wp (ha : K a) (cfg : Config) (channel : Channel) (waId : String)
    (name : Option String) (key type : String) (content mediaId : Option String) :
    (receive cfg channel waId name key type content mediaId).wp M (Known K I) a := by
  unfold receive
  rw [Prog.wp_bind]
  refine Prog.wp_mono (h.context_wp ha cfg channel waId name) fun c b hb =>
    Prog.wp_call_bind (h.claim hb).1 fun r _ => ?_
  have hclaimed := (h.claim hb).2 r
  cases r with
  | none =>
    rw [Prog.wp_bind]
    exact Prog.wp_mono (h.calm_wp (P := rollback) (Prog.only_call.mpr rfl) hclaimed)
      fun _ _ hd => h.leave hd
  | some n =>
    rw [Prog.wp_bind]
    refine Prog.wp_mono (h.calm_wp (touch_only cfg c.id false) hclaimed) fun _ d hd => ?_
    rw [Prog.wp_bind]
    exact Prog.wp_mono (h.calm_wp (P := commit) (Prog.only_call.mpr rfl) hd) fun _ _ he => he

theorem recordWithoutAnswering_wp (ha : K a) (cfg : Config) (waId : String) (name : Option String)
    (key type : String) (content : Option String) :
    (recordWithoutAnswering cfg waId name key type content).wp M (fun _ => K) a := by
  unfold recordWithoutAnswering
  rw [Prog.wp_bind]
  refine Prog.wp_mono (h.getContext_wp ha cfg waId name) fun c b hb =>
    Prog.wp_call_bind (h.claim hb).1 fun r _ => ?_
  have hclaimed := (h.claim hb).2 r
  cases r with
  | none =>
    exact Prog.wp_mono (h.calm_wp (P := rollback) (Prog.only_call.mpr rfl) hclaimed)
      fun _ _ hd => h.leave hd
  | some n =>
    refine Prog.wp_mono (h.calm_wp ?_ hclaimed) fun _ _ hd => h.leave hd
    exact Prog.Only.call_bind rfl fun _ => Prog.only_call.mpr rfl

end Receives

end Chat
