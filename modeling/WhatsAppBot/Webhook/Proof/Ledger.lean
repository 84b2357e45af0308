import WhatsAppBot.Lib.Exec
import WhatsAppBot.Store.Proof.Posting
import WhatsAppBot.Webhook.Proof.Deliver
import WhatsAppBot.Webhook.System

/-!
# A stored message stays stored

`ledgerMonitor` follows the row a process has reserved and has not confirmed yet, and whether its
open transaction has entered a message row. Between two messages of a delivery neither is the case
(`delivers_ledger`), and a row is confirmed only by the process that reserved it. So the row of a
message whose claim is committed (`Stored`) keeps its id through every operation that follows
(`Stays`), and with it through every program the monitor accepts (`exec_stored`).
-/

set_option autoImplicit false

namespace Webhook

open Lib Store Bot Chat

structure Ledger where
  reserved : Option Nat
  entered : Bool
  deriving DecidableEq

namespace Ledger

def clear : Ledger := ⟨none, false⟩

def answered (a : Ledger) : (s : Stmt) → s.Resp → Ledger
  | .reserveReply _ _ _ _, r =>
    match (r : Option Nat) with
    | some n => ⟨some n, true⟩
    | none => a
  | .claimInbound _ _ _ _ _, r =>
    match (r : Option Nat) with
    | some _ => { a with entered := true }
    | none => a
  | .confirmReply _ _ _, _ => ⟨none, true⟩
  | .create _ _ _ _, _ => { a with entered := true }
  | _, _ => a

end Ledger

def ledgerMonitor : Monitor botSig Ledger where
  ok a o :=
    match o with
    | .sql (.confirmReply id _ _) => a.reserved = some id
    | .sql (.claimInbound _ _ _ _ _) => a = .clear
    | _ => True
  next a o r :=
    match o, r with
    | .sql s, r => a.answered s r
    | .commit, _ => { a with entered := false }
    | .rollback, _ => .clear
    | _, _ => a

variable {a : Ledger} {o : Op} {cfg : Config}

/-! ## A delivery -/

/-- Operations that leave a clear ledger clear. -/
def isStill : Op → Bool
  | .sql (.reserveReply _ _ _ _) | .sql (.claimInbound _ _ _ _ _) | .sql (.confirmReply _ _ _)
  | .sql (.create _ _ _ _) => false
  | _ => true

theorem ledger_still (h : isStill o = true) (ha : a = .clear) :
    ledgerMonitor.ok a o ∧ ∀ r, ledgerMonitor.next a o r = .clear := by
  subst ha
  cases o with
  | sql s => cases s <;> first | exact ⟨trivial, fun _ => rfl⟩ | cases h
  | _ => exact ⟨trivial, fun _ => rfl⟩

theorem isStill_of_isCalm (h : isCalm o = true) : isStill o = true := by
  cases o with
  | sql s => cases s <;> first | rfl | cases h
  | _ => rfl

theorem isStill_of_inContext (h : inContext o = true) : isStill o = true := by
  cases o with
  | sql s => cases s <;> first | rfl | cases h
  | _ => rfl

/-- Programs of such operations. -/
theorem still_wp {α : Type} {φ : Op → Prop} {P : BotM α} (h : P.Only φ)
    (hφ : ∀ o, φ o → isStill o = true) (ha : a = .clear) :
    P.wp ledgerMonitor (fun _ b => b = .clear) a :=
  h.wp ha fun _ _ hb ho =>
    have hstill := ledger_still (hφ _ ho) hb
    ⟨hstill.1, fun r _ => hstill.2 r⟩

theorem ignoresTouch_ledger : IgnoresTouch ledgerMonitor := by
  intro a o h
  cases o with
  | sql s => cases s <;> first | exact ⟨trivial, fun _ => rfl⟩ | cases h
  | now => exact ⟨trivial, fun _ => rfl⟩
  | _ => cases h

/-- The commit of a confirmation, and what follows it. -/
theorem confirm_ledger {α : Type} {P : BotM α} {n : Nat} {wa : Option String} {status : String}
    {b : Ledger} (hP : P.wp ledgerMonitor (fun _ b => b = .clear) ⟨none, true⟩)
    (hb : b.reserved = some n) :
    (exec (.confirmReply n wa status) >>= fun _ => P).wp ledgerMonitor
      (fun _ b => b = .clear) b := by
  rw [Prog.wp_bind]
  exact Prog.wp_call_bind hb fun _ _ => hP

theorem sendOnce_ledger (channel : Channel) (waId key text : String) (id : Nat) (form : Form)
    (ha : a = .clear) :
    (sendOnce cfg channel waId id text (some key) form).wp ledgerMonitor
      (fun _ b => b = .clear) a := by
  subst ha
  refine Prog.wp_call_bind trivial fun r _ => ?_
  cases r with
  | none => exact Prog.wp_call_bind trivial fun _ _ => rfl
  | some n =>
    dsimp only
    rw [Prog.wp_bind]
    refine touch_wp ignoresTouch_ledger (Prog.wp_call_bind trivial fun _ _ =>
      Prog.wp_call_bind trivial fun wire _ => ?_)
    cases wire.result with
    | failed => exact confirm_ledger (Prog.wp_call_bind trivial fun _ _ => rfl) rfl
    | broken => exact ⟨trivial, nofun⟩
    | sent outId =>
      refine confirm_ledger ?_ rfl
      rw [Prog.wp_bind]
      exact touch_wp ignoresTouch_ledger (Prog.wp_call_bind trivial fun _ _ => rfl)

/-- A claim, and the commit or the rollback that ends it. -/
theorem receive_ledger {channel : Channel} {waId key type : String}
    {name content mediaId : Option String} (ha : a = .clear) :
    (receive cfg channel waId name key type content mediaId).wp ledgerMonitor
      (fun _ b => b = .clear) a := by
  unfold receive
  rw [Prog.wp_bind]
  refine Prog.wp_mono (still_wp (context_only ..) (fun _ => isStill_of_inContext) ha) fun c b hb =>
    Prog.wp_call_bind hb fun r _ => ?_
  subst hb
  cases r with
  | none => exact Prog.wp_call_bind trivial fun _ _ => rfl
  | some n =>
    dsimp only
    rw [Prog.wp_bind]
    exact touch_wp ignoresTouch_ledger (Prog.wp_call_bind trivial fun _ _ => rfl)

theorem recordWithoutAnswering_ledger {waId key type : String} {name content : Option String}
    (ha : a = .clear) :
    (recordWithoutAnswering cfg waId name key type content).wp ledgerMonitor
      (fun _ b => b = .clear) a := by
  unfold recordWithoutAnswering
  rw [Prog.wp_bind]
  refine Prog.wp_mono (still_wp (getContext_only ..) (fun _ => isStill_of_inContext) ha) fun c b hb =>
    Prog.wp_call_bind hb fun r _ => ?_
  subst hb
  cases r with
  | none => exact ⟨trivial, fun _ _ => rfl⟩
  | some n => exact Prog.wp_call_bind trivial fun _ _ => ⟨trivial, fun _ _ => rfl⟩

theorem inviteAfterComment_ledger (channel : Channel) (e : Channels.InboundEvent) (ha : a = .clear) :
    (inviteAfterComment cfg channel e).wp ledgerMonitor (fun _ b => b = .clear) a := by
  unfold inviteAfterComment
  split
  · exact ha
  split
  · exact ha
  split
  · exact ha
  rw [Prog.wp_bind]
  refine Prog.wp_mono (still_wp (asOptional_only _) (fun _ => isStill_of_isCalm) ha)
    fun name b hb => ?_
  rw [Prog.wp_bind]
  refine Prog.wp_mono (still_wp (getChannelContext_only ..) (fun _ => isStill_of_inContext) hb)
    fun c b hb => Prog.wp_call_bind trivial fun r _ => ?_
  subst hb
  cases r with
  | none => exact ⟨trivial, fun _ _ => rfl⟩
  | some n =>
    refine Prog.wp_call_bind trivial fun _ _ => ?_
    have hdone : Prog.wp ledgerMonitor commit (fun _ b => b = .clear) ⟨none, true⟩ :=
      ⟨trivial, fun _ _ => rfl⟩
    -- the invitation leaves, or fails before any request
    rw [Prog.wp_bind]
    unfold inviteToPrivateThread
    split
    · exact confirm_ledger hdone rfl
    · refine Prog.wp_call_bind trivial fun wire _ => ?_
      cases wire.result with
      | failed => exact confirm_ledger hdone rfl
      | broken => exact ⟨trivial, nofun⟩
      | sent id => exact confirm_ledger hdone rfl

/-- **Every message of a delivery leaves the ledger as it found it.** -/
theorem delivers_ledger (cfg : Config) : Delivers ledgerMonitor cfg (· = .clear) where
  calm ha ho :=
    have hstill := ledger_still (isStill_of_isCalm ho) ha
    ⟨hstill.1, fun r _ => hstill.2 r⟩
  handles channel waId name key := by
    refine ⟨fun _ b => b = .clear, (· = .clear), fun ha => ?_, fun c => ?_, id⟩
    · exact Prog.wp_mono (receive_ledger ha) fun r b hb => by cases r <;> exact hb
    · have hcalm : ∀ {a : Ledger} {o : Op}, a = .clear → isCalm o = true →
          ledgerMonitor.ok a o ∧ ∀ r, ledgerMonitor.may o r → ledgerMonitor.next a o r = .clear :=
        fun ha ho =>
          have hstill := ledger_still (isStill_of_isCalm ho) ha
          ⟨hstill.1, fun r _ => hstill.2 r⟩
      exact ⟨hcalm, hcalm, id, fun ha => ⟨trivial, fun _ _ => ha⟩,
        fun _ ha _ => ⟨trivial, fun _ _ => ha⟩, fun _ ha => sendOnce_ledger _ _ _ _ _ _ ha⟩
  stale _ _ _ _ _ ha := recordWithoutAnswering_ledger ha
  status ha := ⟨trivial, fun _ _ => ha⟩
  invite channel e ha := inviteAfterComment_ledger channel e ha

/-! ## The row of a message -/

/-- The claim of `k` is committed: its row is there, under an id the sequence has drawn. -/
def Stored (w : World) (k : String) : Prop :=
  ∃ m ∈ w.db.messages, m.waMessageId = some k ∧ m.id < w.seq

instance (w : World) (k : String) : Decidable (Stored w k) :=
  inferInstanceAs (Decidable (∃ m ∈ w.db.messages, m.waMessageId = some k ∧ m.id < w.seq))

/-- The row of `k` is committed, the open transaction does not enter it and the process has not
reserved it. -/
def Stays (k : String) (a : Ledger) (w : World) (tx : Tx) : Prop :=
  ∃ m ∈ w.db.messages, m.waMessageId = some k ∧ m.id < w.seq ∧ tx.enters m.id = false ∧
    a.reserved ≠ some m.id

/-- A row a process reserves is new, and is then the one it may confirm. -/
theorem Ledger.reserved_answered {s : Stmt} {r : s.Resp} {now : Time} {seq n : Nat}
    {locked : Nat → Bool} {db : Db} {ws : List Write}
    (h : s.exec now seq locked db = some (r, ws)) (hn : (a.answered s r).reserved = some n) :
    a.reserved = some n ∨ n = seq := by
  cases s with
  | reserveReply c key content type =>
    rcases Stmt.exec_reserve h with ⟨rfl, -, -⟩ | ⟨rfl, -, -⟩
    · exact .inl hn
    · exact .inr (Option.some.inj hn).symm
  | claimInbound => cases r <;> exact .inl hn
  | confirmReply => cases hn
  | _ => exact .inl hn

/-- A statement enters a new row or the one the process has reserved. -/
theorem Ledger.enters {s : Stmt} {r : s.Resp} {now : Time} {seq id : Nat} {locked : Nat → Bool}
    {db : Db} {ws : List Write} (hok : ledgerMonitor.ok a (.sql s))
    (h : s.exec now seq locked db = some (r, ws)) (hid : Tx.enters ws id = true) :
    id = seq ∨ a.reserved = some id := by
  rcases Stmt.exec_enters h hid with hnew | ⟨wa, status, rfl⟩
  · exact .inl hnew
  · exact .inr hok

/-- A statement that enters a row says so. -/
theorem Ledger.entered_of_enters {s : Stmt} {r : s.Resp} {now : Time} {seq id : Nat}
    {locked : Nat → Bool} {db : Db} {ws : List Write}
    (h : s.exec now seq locked db = some (r, ws)) (hid : Tx.enters ws id = true) :
    (a.answered s r).entered = true := by
  obtain ⟨v, hv, henters⟩ := List.any_eq_true.mp hid
  have hmade := Stmt.exec_made h hv
  cases v with
  | insertMessage m =>
    rcases hmade with ⟨_, _, _, _, rfl, -⟩ | ⟨_, _, _, rfl, -⟩ | ⟨_, _, _, rfl, -⟩
    · simp only [Stmt.exec] at h
      split at h
      · obtain ⟨-, rfl⟩ := Prod.mk.inj (Option.some.inj h)
        cases hv
      · split at h
        · obtain ⟨rfl, -⟩ := Prod.mk.inj (Option.some.inj h)
          rfl
        · cases h
    · rcases Stmt.exec_reserve h with ⟨-, rfl, -⟩ | ⟨rfl, -⟩
      · cases hv
      · rfl
    · rfl
  | updateMessage i u =>
    cases u with
    | confirm wa status =>
      obtain rfl := hmade
      rfl
    | _ => cases henters
  | _ => cases henters

theorem Ledger.entered_answered {s : Stmt} {r : s.Resp} (h : a.entered = true) :
    (a.answered s r).entered = true := by
  cases s with
  | claimInbound | reserveReply => cases r <;> first | exact h | rfl
  | confirmReply | create => rfl
  | _ => exact h

namespace Stays

variable {k : String} {w w' : World} {tx tx' : Tx}

theorem start (h : Stored w k) : Stays k .clear w [] := by
  obtain ⟨m, hm, hk, hid⟩ := h
  exact ⟨m, hm, hk, hid, rfl, nofun⟩

theorem stored (h : Stays k a w tx) : Stored w k := by
  obtain ⟨m, hm, hk, hid, -⟩ := h
  exact ⟨m, hm, hk, hid⟩

/-- The transaction sees the message stored. -/
theorem seen (h : Stays k a w tx) : (w.db.applyAll tx).hasWaMessageId k = true := by
  obtain ⟨m, hm, hk, -, hfree, -⟩ := h
  exact hasWaMessageId_of_mem (Db.mem_messages_applyAll.mpr (.inl ⟨m, hm, rfl⟩))
    ((Tx.revise_of_not_enters hfree).trans hk)

/-- **One operation leaves the row of `k` alone.** -/
theorem step {r : o.Resp} (h : Stays k a w tx) (hok : ledgerMonitor.ok a o)
    (hstep : Bot.step cfg [] w tx o r = some (w', tx')) :
    Stays k (ledgerMonitor.next a o r) w' tx' := by
  obtain ⟨m, hm, hk, hid, hfree, hreserved⟩ := h
  cases o with
  | sql s =>
    obtain ⟨ws, hexec, -, hdb, hseq, rfl⟩ := step_sql hstep
    refine ⟨m, hdb ▸ hm, hk, by omega, ?_, fun hanswer => ?_⟩
    · rw [Tx.enters_append, hfree, Bool.false_or]
      refine Bool.eq_false_iff.mpr fun henters => ?_
      rcases Ledger.enters hok hexec henters with hnew | hmine
      · omega
      · exact hreserved hmine
    · rcases Ledger.reserved_answered hexec hanswer with hold | hnew
      · exact hreserved hold
      · omega
  | commit =>
    obtain ⟨hdb, hseq, rfl⟩ := step_commit hstep
    refine ⟨tx.revise m, ?_, (Tx.revise_of_not_enters hfree).trans hk, ?_, rfl, ?_⟩
    · rw [hdb]
      exact Db.mem_messages_applyAll.mpr (.inl ⟨m, hm, rfl⟩)
    · rw [Tx.revise_id, hseq]
      exact hid
    · rw [Tx.revise_id]
      exact hreserved
  | rollback =>
    obtain ⟨rfl, rfl⟩ := step_rollback hstep
    exact ⟨m, hm, hk, hid, rfl, nofun⟩
  | raise => cases r
  | _ =>
    obtain ⟨hdb, hseq, rfl⟩ := step_quiet rfl hstep
    exact ⟨m, hdb ▸ hm, hk, by omega, hfree, hreserved⟩

end Stays

/-- Every program the ledger accepts leaves a claimed message claimed. -/
theorem exec_stored {α : Type} {P : BotM α} {Q : α → Ledger → Prop} {k : String} {w w' : World}
    {tx tx' : Tx} {tr : List (Obs botSig)} {e : Ending α} (h : Stays k a w tx)
    (hrun : Exec (sem cfg) w tx P tr e w' tx') (hP : P.wp ledgerMonitor Q a) : Stored w' k := by
  have hend := hrun.sound (L := fun w tx a => Stays k a w tx)
    (fun hs hok hstays => ⟨trivial, hstays.step hok hs⟩) hP h
  exact hend.1.stored

end Webhook
