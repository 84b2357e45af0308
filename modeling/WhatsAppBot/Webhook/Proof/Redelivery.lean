import WhatsAppBot.Chat.Proof.Serve
import WhatsAppBot.Lib.Exec
import WhatsAppBot.Store.Proof.Writes
import WhatsAppBot.Webhook.Sample

/-!
# Redeliveries

Before a handler claims a message it may have created or renamed its customer and opened or revived a
conversation. When the message is already stored the claim answers nothing, and the rollback that
follows takes all of that back: no handler commits before its claim (`receive_redelivered`), so the
committed rows stay as they were and nothing is sent (`redelivery_changes_nothing`).
-/

set_option autoImplicit false

namespace Webhook

open Lib Store Bot Chat

/-- A handler with what it is given besides the customer and the message's id. -/
inductive Handler where
  | text (text : String)
  | interactive (selectionId title : String)
  | media (type : String) (mediaId caption : Option String)
  | unsupported (type : String)
  /-- Only WhatsApp deliveries are recorded without an answer. -/
  | stale (type : String) (content : Option String)

def Handler.run (cfg : Config) (channel : Channel) (waId : String) (name : Option String)
    (waMessageId : String) : Handler → BotM Unit
  | text body => handleTextMessage cfg channel waId name waMessageId body
  | interactive selectionId title =>
    handleInteractiveMessage cfg channel waId name waMessageId selectionId title
  | media type mediaId caption =>
    handleMediaMessage cfg channel waId name waMessageId type mediaId caption
  | unsupported type => handleUnsupportedMessage cfg channel waId name waMessageId type
  | stale type content => recordWithoutAnswering cfg waId name waMessageId type content

variable {cfg : Config} {channel : Channel} {waId k : String} {name : Option String}

/-- Nothing is committed or sent, and a claim of `k` answers nothing. -/
def redeliveryMonitor (k : String) : Monitor botSig Unit where
  ok _ o :=
    match o with
    | .sql (.claimInbound _ key _ _ _) => key = k
    | .rollback => True
    | o => inContext o = true
  next _ _ _ := ()
  may o r :=
    match o, r with
    | .sql (.claimInbound _ _ _ _ _), r => (r : Option Nat) = none
    | _, _ => True

theorem redelivered_of_inContext {o : Op} (h : inContext o = true) : (redeliveryMonitor k).ok () o := by
  cases o with
  | sql s =>
    cases s with
    | claimInbound => cases h
    | _ => exact h
  | rollback => trivial
  | _ => exact h

theorem context_redelivered {α : Type} {P : BotM α} (h : OnlyContext P) :
    P.wp (redeliveryMonitor k) (fun _ _ => True) () :=
  h.wp trivial fun _ _ _ ho => ⟨redelivered_of_inContext ho, fun _ _ => trivial⟩

theorem receive_redelivered {type : String} {content mediaId : Option String} :
    (receive cfg channel waId name k type content mediaId).wp (redeliveryMonitor k)
      (fun r _ => r = none) () := by
  unfold receive
  rw [Prog.wp_bind]
  refine Prog.wp_mono (context_redelivered (context_only cfg channel waId name)) fun c _ _ => ?_
  refine Prog.wp_call_bind rfl fun r hr => ?_
  obtain rfl : r = none := hr
  exact ⟨trivial, fun _ _ => rfl⟩

theorem recordWithoutAnswering_redelivered {type : String} {content : Option String} :
    (recordWithoutAnswering cfg waId name k type content).wp (redeliveryMonitor k)
      (fun _ _ => True) () := by
  unfold recordWithoutAnswering
  rw [Prog.wp_bind]
  refine Prog.wp_mono (context_redelivered (getContext_only cfg waId name)) fun c _ _ => ?_
  refine Prog.wp_call_bind rfl fun r hr => ?_
  obtain rfl : r = none := hr
  exact ⟨trivial, fun _ _ => trivial⟩

theorem run_redelivered (h : Handler) :
    (h.run cfg channel waId name k).wp (redeliveryMonitor k) (fun _ _ => True) () := by
  cases h with
  | stale => exact recordWithoutAnswering_redelivered
  | _ =>
    refine (Prog.wp_bind ..).mpr (Prog.wp_mono receive_redelivered fun r _ hr => ?_)
    subst hr
    trivial

/-! ## The committed rows -/

variable {w w' : World} {tx tx' : Tx} {o : Op} {r : o.Resp}

/-- The statements of a context write no messages. -/
theorem isMessage_of_inContext {s : Stmt} {r : s.Resp} {now : Time} {seq : Nat} {locked : Nat → Bool}
    {db : Db} {ws : Tx} (hs : inContext (.sql s) = true)
    (h : s.exec now seq locked db = some (r, ws)) : ∀ v ∈ ws, v.isMessage = false := by
  intro v hv
  have hmade := Stmt.exec_made h hv
  cases v with
  | insertMessage m =>
    rcases hmade with ⟨_, _, _, _, rfl, _⟩ | ⟨_, _, _, rfl, _⟩ | ⟨_, _, _, rfl, _⟩ <;> cases hs
  | updateMessage id u =>
    cases u with
    | confirm =>
      obtain rfl := hmade
      cases hs
    | setStatus =>
      obtain ⟨_, rfl⟩ := hmade
      cases hs
    | setOperator =>
      obtain rfl := hmade
      cases hs
  | _ => rfl

/-- The committed rows are `db` and the transaction has changed no message. -/
def Untouched (db : Db) (w : World) (tx : Tx) : Prop :=
  w.db = db ∧ (w.db.applyAll tx).messages = db.messages

/-- One operation of a redelivery. -/
theorem untouched_step {db : Db} (hstored : db.hasWaMessageId k = true)
    (h : step cfg [] w tx o r = some (w', tx')) (hok : (redeliveryMonitor k).ok () o)
    (hL : Untouched db w tx) : (redeliveryMonitor k).may o r ∧ Untouched db w' tx' := by
  obtain ⟨rfl, hmessages⟩ := hL
  cases o with
  | sql s =>
    obtain ⟨ws, hexec, -, hdb, -, rfl⟩ := step_sql h
    cases s with
    | claimInbound id key type content mediaId =>
      obtain rfl : key = k := hok
      have hhas : (w.db.applyAll tx).hasWaMessageId key = true := by
        unfold Db.hasWaMessageId at hstored ⊢
        rwa [hmessages]
      simp only [Stmt.exec, hhas, if_true, Option.some.injEq] at hexec
      obtain ⟨rfl, rfl⟩ := hexec
      exact ⟨rfl, hdb, by rwa [List.append_nil, hdb]⟩
    | _ =>
      refine ⟨trivial, hdb, ?_⟩
      rw [hdb, Db.applyAll_append, Db.messages_applyAll (isMessage_of_inContext hok hexec), hmessages]
  | commit => cases hok
  | rollback =>
    obtain ⟨rfl, rfl⟩ := step_rollback h
    exact ⟨trivial, rfl, rfl⟩
  | now | raise =>
    obtain ⟨hdb, -, rfl⟩ := step_quiet rfl h
    exact ⟨trivial, hdb, by rwa [hdb]⟩
  | _ => cases hok

/-- **A redelivery changes nothing**: a handler given a message that is already stored leaves the
committed rows as they were and calls no sender, wherever it ends. -/
theorem redelivery_changes_nothing (h : Handler) {tr : List (Obs botSig)} {e : Ending Unit}
    (hstored : w.db.hasWaMessageId k = true)
    (hrun : Exec (sem cfg) w [] (h.run cfg channel waId name k) tr e w' tx') :
    w'.db = w.db ∧ ∀ x ∈ tr, ∀ out, x.1 ≠ .send out := by
  have hL : ∀ {v tx a o r v' tx'}, (sem cfg).step [] v tx o r = some (v', tx') →
      (redeliveryMonitor k).ok a o → Untouched w.db v tx →
      (redeliveryMonitor k).may o r ∧ Untouched w.db v' tx' :=
    fun hs hok hv => untouched_step hstored hs hok hv
  refine ⟨(hrun.sound (L := fun v tx _ => Untouched w.db v tx) hL (run_redelivered h)
    ⟨rfl, rfl⟩).1.1, fun x hx out hsend => ?_⟩
  obtain ⟨_, _, _, -, hok⟩ := hrun.sound_mem (L := fun v tx _ => Untouched w.db v tx) hL
    (run_redelivered h) ⟨rfl, rfl⟩ hx
  rw [hsend] at hok
  cases hok

/-- A customer renamed since and a session that can still be revived: the handler does both before
it finds the message stored. -/
theorem redelivery_changes_nothing_closed :
    let w : World := ⟨Db.empty.applyAll [.insertUser ⟨0, .whatsapp, "20100", some "20100", some "Ali"⟩,
      .insertConversation (newConversation 1 0 .whatsapp 0), .updateConversation 1 0 (.close 0),
      .insertMessage ⟨2, 1, some "m1", none, .inbound, "text", some "hi", none, none, none, 0⟩], 1, 3⟩
    ∃ tr w' tx', Exec (sem Sample.config) w [] ((Handler.text "hi").run Sample.config .whatsapp "20100"
        (some "Omar") "m1") tr (.returned ()) w' tx' ∧
      tr.length = 9 ∧ w'.db = w.db ∧ ∀ x ∈ tr, ∀ out, x.1 ≠ .send out := by
  intro w
  let P := (Handler.text "hi").run Sample.config .whatsapp "20100" (some "Omar") "m1"
  have hplay : (play (sem Sample.config) (List.replicate 9 (Sample.answer Sample.accepted)) w []
      P).any (fun x => x.1.length = 9 ∧ x.2.2.2 matches .ret _) = true := by decide +kernel
  obtain ⟨⟨tr, w', tx', P'⟩, hplay, hend⟩ := (Option.any_eq_true _ _).mp hplay
  obtain ⟨hlen, hret⟩ := of_decide_eq_true hend
  cases P' with
  | op => cases hret
  | ret u =>
    have hrun : Exec (sem Sample.config) w [] P tr (.returned u) w' tx' := Exec.of_play hplay .ret
    exact ⟨tr, w', tx', hrun, hlen, redelivery_changes_nothing _ (by decide +kernel) hrun⟩

end Webhook
