import WhatsAppBot.Webhook.Attempts
import WhatsAppBot.Webhook.Proof.Ledger
import WhatsAppBot.Webhook.Sample

/-!
# What a retry does for a message that was claimed

An attempt that is interrupted after it has claimed a message leaves the message stored. Every later
attempt takes it for a duplicate: it reserves no answer to it and does not ask the quota about it
(`lateMonitor`, `attempt_stored`). So what the interrupted attempt had done for the message is all
that is ever done for it (`accounted_iff`), unless the delivery ends on the dead-letter list or its
conversation with a human. `reply_lost` is a worker that dies between the claim and the answer.
-/

set_option autoImplicit false

namespace Webhook

open Lib Store Bot Chat

/-- A claim of `k` answers nothing; no answer to `k` is reserved and no quota consulted for it. -/
def lateMonitor (k : String) : Monitor botSig Unit where
  ok _ o :=
    match o with
    | .sql (.reserveReply _ key _ _) => key ≠ k
    | .quotaCheck _ key _ => key ≠ k
    | _ => True
  next _ _ _ := ()
  may o r :=
    match o, r with
    | .sql (.claimInbound _ key _ _ _), r => key = k → (r : Option Nat) = none
    | _, _ => True

variable {k : String} {cfg : Config} {o : Op}

theorem late_of_isCalm (h : isCalm o = true) : (lateMonitor k).ok () o := by
  cases o with
  | sql s => cases s <;> trivial
  | quotaCheck => cases h
  | _ => trivial

theorem late_of_isConfirm (h : isConfirm o = true) : (lateMonitor k).ok () o := by
  cases o with
  | sql s => cases s <;> trivial
  | _ => cases h

theorem late_of_inContext (h : inContext o = true) : (lateMonitor k).ok () o := by
  cases o with
  | sql s => cases s <;> trivial
  | now | raise => trivial
  | _ => cases h

theorem late_of_inReceive (h : inReceive o = true) : (lateMonitor k).ok () o := by
  simp only [inReceive, Bool.or_eq_true] at h
  rcases h with (h | h) | h
  · exact late_of_isCalm h
  · exact late_of_inContext h
  · split at h
    · trivial
    · cases h

theorem late_wp {α : Type} {φ : Op → Prop} {P : BotM α} (h : P.Only φ)
    (hφ : ∀ o, φ o → (lateMonitor k).ok () o) : P.wp (lateMonitor k) (fun _ _ => True) () :=
  h.wp trivial fun _ _ _ ho => ⟨hφ _ ho, fun _ _ => trivial⟩

theorem ignoresTouch_late : IgnoresTouch (lateMonitor k) :=
  fun _ _ h => ⟨late_of_isCalm (isCalm_of_isTouch h), fun _ => rfl⟩

/-- The handlers of another message serve it as they always do. -/
theorem serves_late {channel : Channel} {waId key : String} {c : Conversation} (hk : key ≠ k) :
    Serves (lateMonitor k) cfg channel waId key c (fun _ => True) (fun _ => True) where
  calm _ ho := ⟨late_of_isCalm ho, fun _ _ => trivial⟩
  calmAfter _ ho := ⟨late_of_isCalm ho, fun _ _ => trivial⟩
  le _ := trivial
  quota _ := ⟨hk, fun _ _ => trivial⟩
  human _ _ _ := ⟨trivial, fun _ _ => trivial⟩
  send _ _ := sendOnce_wp ignoresTouch_late
    (fun _ ho => ⟨ho.elim late_of_isCalm late_of_isConfirm, fun _ _ => trivial⟩) hk
    (fun _ => trivial) fun _ _ => ⟨trivial, trivial, fun _ => trivial⟩

/-- The handler of `k` itself finds a duplicate. -/
theorem receive_late {channel : Channel} {waId type : String} {name content mediaId : Option String} :
    (receive cfg channel waId name k type content mediaId).wp (lateMonitor k)
      (fun r _ => r = none) () := by
  unfold receive
  rw [Prog.wp_bind]
  refine Prog.wp_mono (late_wp (context_only cfg channel waId name) fun _ => late_of_inContext)
    fun c _ _ => Prog.wp_call_bind trivial fun r hr => ?_
  obtain rfl : r = none := hr rfl
  exact Prog.wp_call_bind trivial fun _ _ => rfl

theorem intake_late (cfg : Config) (k : String) : Intake (lateMonitor k) cfg fun _ => True where
  calm _ ho := ⟨late_of_isCalm ho, fun _ _ => trivial⟩
  handles channel waId name key := by
    by_cases hk : key = k
    · subst hk
      refine ⟨fun _ _ => False, fun _ => True, fun _ => ?_, fun c => ?_, id⟩
      · exact Prog.wp_mono receive_late fun r _ hr => by subst hr; trivial
      · exact ⟨nofun, fun _ ho => ⟨late_of_isCalm ho, fun _ _ => trivial⟩, nofun, nofun, nofun, nofun⟩
    · refine ⟨fun _ _ => True, fun _ => True, fun _ => ?_, fun c => serves_late hk, id⟩
      exact Prog.wp_mono (late_wp (receive_only ..) fun _ => late_of_inReceive)
        fun r _ _ => by cases r <;> trivial
  stale _ _ _ _ _ _ := late_wp (recordWithoutAnswering_only ..) fun _ => late_of_inReceive
  status _ := ⟨trivial, fun _ _ => trivial⟩

/-! ## One attempt -/

/-- The row of `k` is kept, `n` rows answer `k` and the open transaction adds none. -/
structure Late (k : String) (n : Nat) (a : Ledger) (w : World) (tx : Tx) : Prop where
  stays : Stays k a w tx
  replies : w.db.replies k = n
  quiet : tx.countP (Write.isReply k) = 0

/-- **One operation of a later attempt.** -/
theorem Late.step {n : Nat} {a : Ledger} {w w' : World} {tx tx' : Tx} {r : o.Resp}
    (h : Late k n a w tx) (hledger : ledgerMonitor.ok a o) (hlate : (lateMonitor k).ok () o)
    (hstep : Bot.step cfg [] w tx o r = some (w', tx')) :
    (lateMonitor k).may o r ∧ Late k n (ledgerMonitor.next a o r) w' tx' := by
  have hstays := h.stays.step hledger hstep
  cases o with
  | sql s =>
    obtain ⟨ws, hexec, -, hdb, -, rfl⟩ := step_sql hstep
    refine ⟨?_, hstays, hdb ▸ h.replies, ?_⟩
    · cases s with
      | claimInbound c key type content mediaId =>
        rintro rfl
        simp only [Stmt.exec, h.stays.seen, if_true] at hexec
        exact (Prod.mk.inj (Option.some.inj hexec)).1.symm
      | _ => trivial
    · rw [List.countP_append, h.quiet, Nat.zero_add]
      refine Stmt.exec_no_reply hexec fun c content type hs => ?_
      subst hs
      exact hlate rfl
  | commit =>
    obtain ⟨hdb, -, rfl⟩ := step_commit hstep
    refine ⟨trivial, hstays, ?_, rfl⟩
    rw [hdb, Db.replies_applyAll, h.quiet, h.replies, Nat.add_zero]
  | rollback =>
    obtain ⟨rfl, rfl⟩ := step_rollback hstep
    exact ⟨trivial, hstays, h.replies, rfl⟩
  | raise => cases r
  | _ =>
    obtain ⟨hdb, -, rfl⟩ := step_quiet rfl hstep
    exact ⟨trivial, hstays, hdb ▸ h.replies, h.quiet⟩

/-- The quota declined the message `k`. -/
def isDecline (k : String) : Obs botSig → Bool
  | ⟨.quotaCheck _ key _, decision⟩ => key = k && !decision.allowed
  | _ => false

/-- **An attempt that finds `k` stored** leaves it stored, reserves no answer to it and does not ask
the quota about it, wherever it ends. -/
theorem attempt_stored {payload : Json} {w w' : World} {tx : Tx} {tr : List (Obs botSig)}
    {e : Ending Unit} (h : Stored w k)
    (hrun : Exec (sem cfg) w [] (processWebhookPayload cfg payload) tr e w' tx) :
    Stored w' k ∧ w'.db.replies k = w.db.replies k ∧ ∀ x ∈ tr, isDecline k x = false := by
  have hP := Prog.wp_both ((delivers_ledger cfg).processWebhookPayload_wp (a := .clear) rfl payload)
    ((intake_late cfg k).processWebhookPayload_wp (a := ()) trivial payload)
  let M := ledgerMonitor.both (lateMonitor k)
  let L : World → Tx → Ledger × Unit → Prop := fun w₁ tx₁ a => Late k (w.db.replies k) a.1 w₁ tx₁
  have hL : ∀ {w₁ tx₁ a o r w₂ tx₂}, (sem cfg).step [] w₁ tx₁ o r = some (w₂, tx₂) → M.ok a o →
      L w₁ tx₁ a → M.may o r ∧ L w₂ tx₂ (M.next a o r) := by
    intro w₁ tx₁ a o r w₂ tx₂ hs hok hlate
    obtain ⟨hmay, hnext⟩ := hlate.step hok.1 hok.2 hs
    exact ⟨⟨trivial, hmay⟩, hnext⟩
  have hstart : L w [] (.clear, ()) := ⟨Stays.start h, rfl, rfl⟩
  have hend : L w' tx _ := (hrun.sound hL hP hstart).1
  refine ⟨hend.stays.stored, hend.replies, fun x hx => Bool.eq_false_iff.mpr fun hdecline => ?_⟩
  obtain ⟨_, _, _, -, hok⟩ := hrun.sound_mem hL hP hstart hx
  obtain ⟨o, r⟩ := x
  cases o with
  | quotaCheck _ key _ =>
    simp only [isDecline, Bool.and_eq_true, decide_eq_true_eq] at hdecline
    exact hok.2 hdecline.1
  | _ => cases hdecline

/-! ## What becomes of the message -/

namespace Delivery

variable (d : Delivery) (k : String)

/-- An outbound row is reserved for `k`. -/
def Reserved : Prop := d.world.db.replies k ≠ 0

/-- The conversation of `k` is in human mode. -/
def WithHuman : Prop :=
  ∃ m ∈ d.world.db.messages, m.waMessageId = some k ∧
    (d.world.db.conversation m.conversationId).any (·.mode = .human) = true

/-- The quota declined `k`. -/
def Declined : Prop := ∃ x ∈ d.trace, isDecline k x = true

/-- The message `k` is not lost without a trace. -/
def Accounted : Prop :=
  d.Reserved k ∨ d.WithHuman k ∨ d.Declined k ∨ d.deadLettered = true

instance : Decidable (d.Accounted k) :=
  inferInstanceAs (Decidable (d.world.db.replies k ≠ 0 ∨
    (∃ m ∈ d.world.db.messages, m.waMessageId = some k ∧
      (d.world.db.conversation m.conversationId).any (·.mode = .human) = true) ∨
    (∃ x ∈ d.trace, isDecline k x = true) ∨ d.deadLettered = true))

end Delivery

variable {payload : Json} {d d' : Delivery}

theorem Attempt.stored (h : Attempt cfg (.webhook payload) d d') (hk : Stored d.world k) :
    Stored d'.world k ∧ d'.world.db.replies k = d.world.db.replies k ∧
      (d'.Declined k ↔ d.Declined k) := by
  rcases h.exec with ⟨hworld, htrace⟩ | ⟨tr, e, tx, hrun, htrace⟩
  · unfold Delivery.Declined
    rw [hworld, htrace]
    exact ⟨hk, rfl, Iff.rfl⟩
  · obtain ⟨hk', hreplies, hquota⟩ := attempt_stored hk hrun
    refine ⟨hk', hreplies, ⟨?_, ?_⟩⟩
    · rintro ⟨x, hx, hdecline⟩
      rcases List.mem_append.mp (htrace ▸ hx) with hx | hx
      · exact ⟨x, hx, hdecline⟩
      · rw [hquota x hx] at hdecline
        cases hdecline
    · rintro ⟨x, hx, hdecline⟩
      exact ⟨x, htrace ▸ List.mem_append_left _ hx, hdecline⟩

/-- Any number of attempts later the message is as answered, and as declined, as it was. -/
theorem Attempts.stored (h : Attempts cfg (.webhook payload) d d') (hk : Stored d.world k) :
    Stored d'.world k ∧ d'.world.db.replies k = d.world.db.replies k ∧
      (d'.Declined k ↔ d.Declined k) := by
  induction h with
  | refl => exact ⟨hk, rfl, Iff.rfl⟩
  | tail _ hstep ih =>
    obtain ⟨hk', hreplies, hdeclined⟩ := ih
    obtain ⟨hk'', hreplies', hdeclined'⟩ := hstep.stored hk'
    exact ⟨hk'', hreplies'.trans hreplies, hdeclined'.trans hdeclined⟩

/-- **A retry does not resume**: once the claim of `k` is committed, and wherever its attempt was cut
short, the message is accounted for in the end exactly when its answer was reserved or declined by
then, or its conversation ends up with a human, or the delivery on the dead-letter list. -/
theorem accounted_iff (hk : Stored d.world k) (h : Attempts cfg (.webhook payload) d d') :
    d'.Accounted k ↔
      (d.Reserved k ∨ d.Declined k) ∨ d'.WithHuman k ∨ d'.deadLettered = true := by
  obtain ⟨-, hreplies, hdeclined⟩ := h.stored hk
  unfold Delivery.Accounted Delivery.Reserved
  rw [hreplies, hdeclined]
  tauto

/-! ## A worker dies -/

/-- A delivery with one greeting, not attempted yet. -/
def greeting : Delivery := ⟨World.empty 0, [0], [], false⟩

def greetingTask : Task := .webhook (Sample.delivery [Sample.textMessage "20100" "wamid.1" "hello"])

/-- The worker dies after 13 operations, when the claim is committed; the broker delivers the task
again, and the attempt returns. -/
theorem greeting_cut : ∃ d d', Attempt Sample.config greetingTask greeting d ∧
    Stored d.world "wamid.1" ∧ Attempts Sample.config greetingTask d d' ∧ d'.pending = [] ∧
    ¬d'.Accounted "wamid.1" := by
  let P := program Sample.config greetingTask
  let go := fun n w => play (sem Sample.config) (List.replicate n (Sample.answer Sample.accepted)) w [] P
  have hplay : (go 13 greeting.world).any (fun x => Stored x.2.1 "wamid.1" ∧
      (go 4 x.2.1).any (fun y => (y.2.2.2 matches .ret _) = true ∧
        ¬(⟨y.2.1, [], x.1 ++ y.1, false⟩ : Delivery).Accounted "wamid.1") = true) = true := by
    decide +kernel
  obtain ⟨⟨tr, w, tx, P₁⟩, hfirst, hrest⟩ := (Option.any_eq_true _ _).mp hplay
  obtain ⟨hclaimed, hrest⟩ := of_decide_eq_true hrest
  obtain ⟨⟨tr', w', tx', P₂⟩, hsecond, hend⟩ := (Option.any_eq_true _ _).mp hrest
  obtain ⟨hret, hlost⟩ := of_decide_eq_true hend
  cases P₂ with
  | op => cases hret
  | ret u =>
    let d : Delivery := ⟨w, [0], tr, false⟩
    have hlast : Attempt Sample.config greetingTask d _ :=
      .returned (n := 0) List.mem_cons_self (Exec.of_play hsecond .ret)
    exact ⟨d, ⟨w', [], tr ++ tr', false⟩, .lost List.mem_cons_self (Exec.of_play hfirst .died),
      hclaimed, .single hlast, rfl, hlost⟩

/-- **The greeting is never answered**, and nobody is told. -/
theorem reply_lost : ¬∀ d d' : Delivery, Attempt Sample.config greetingTask greeting d →
    Stored d.world "wamid.1" → Attempts Sample.config greetingTask d d' → d'.pending = [] →
    d'.Accounted "wamid.1" := by
  obtain ⟨d, d', hcut, hclaimed, hruns, hover, hlost⟩ := greeting_cut
  exact fun h => hlost (h d d' hcut hclaimed hruns hover)

/-- Its worker's death is where the greeting was lost. -/
theorem accounted_iff_greeting : ∃ d d' : Delivery, Stored d.world "wamid.1" ∧
    Attempts Sample.config greetingTask d d' ∧ ¬d'.Accounted "wamid.1" ∧
    (d'.Accounted "wamid.1" ↔ (d.Reserved "wamid.1" ∨ d.Declined "wamid.1") ∨
      d'.WithHuman "wamid.1" ∨ d'.deadLettered = true) := by
  obtain ⟨d, d', -, hclaimed, hruns, -, hlost⟩ := greeting_cut
  exact ⟨d, d', hclaimed, hruns, hlost, accounted_iff hclaimed hruns⟩

end Webhook
