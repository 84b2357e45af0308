import WhatsAppBot.Store.Proof.Posting
import WhatsAppBot.Webhook.Proof.Locks
import WhatsAppBot.Webhook.Proof.Tasks

/-!
# Who enters a message row

`deskMonitor` follows the row a process has reserved last, the row it has created since its last
commit and the statuses it has written since then. `desk_accepts`: every task confirms only the row
it has reserved, sets the operator only of the row it has created, and says `sent` of a message that
has left. `enters_exclusive`: a row that one process enters is none that another enters or has
reserved.
-/

set_option autoImplicit false

namespace Webhook

open Lib Store Bot Chat

structure Desk where
  reserved : Option Nat
  created : Option Nat
  reports : List Report

def Desk.clear : Desk := ⟨none, none, []⟩

def Desk.answered (a : Desk) : (s : Stmt) → s.Resp → Desk
  | .reserveReply _ _ _ _, r => { a with reserved := Option.or (α := Nat) r a.reserved }
  | .confirmReply _ _ _, _ => { a with reserved := none }
  | .create _ _ _ _, r => { a with created := some r }
  | .updateStatusByWaId k status, _ => { a with reports := ⟨k, status⟩ :: a.reports }
  | _, _ => a

def deskMonitor : Monitor botSig Desk where
  ok a o :=
    match o with
    | .sql (.confirmReply id waMessageId status) =>
      a.reserved = some id ∧ (waMessageId ≠ none → status = statusSent)
    | .sql (.create _ _ _ status) => status = statusSent
    | .sql (.setOperator id _) => a.created = some id
    | _ => True
  next a o r :=
    match o, r with
    | .sql s, r => a.answered s r
    | .commit, _ => { a with created := none, reports := [] }
    | .rollback, _ => .clear
    | _, _ => a

variable {a : Desk} {o : Op} {cfg : Config}

theorem Desk.answered_reports (a : Desk) (s : Stmt) (r : s.Resp) :
    (a.answered s r).reports = s.reports ++ a.reports := by
  cases s <;> rfl

/-! ## Every task -/

/-- Operations that need nothing from the desk. -/
def isFree : Op → Bool
  | .sql (.confirmReply _ _ _) | .sql (.setOperator _ _) => false
  | .sql (.create _ _ _ status) => status = statusSent
  | _ => true

abbrev OnlyFree {α : Type} (P : BotM α) : Prop := P.Only fun o => isFree o = true

theorem desk_free (h : isFree o = true) : deskMonitor.ok a o := by
  cases o with
  | sql s =>
    cases s with
    | create _ _ _ status => exact of_decide_eq_true (p := status = statusSent) h
    | confirmReply | setOperator => cases h
    | _ => trivial
  | _ => trivial

theorem isFree_of_isCalm (h : isCalm o = true) : isFree o = true := by
  cases o with
  | sql s => cases s <;> first | rfl | cases h
  | _ => rfl

theorem isFree_of_inContext (h : inContext o = true) : isFree o = true := by
  cases o with
  | sql s => cases s <;> first | rfl | cases h
  | _ => rfl

theorem isFree_of_inReceive (h : inReceive o = true) : isFree o = true := by
  simp only [inReceive, Bool.or_eq_true] at h
  rcases h with (h | h) | h
  · exact isFree_of_isCalm h
  · exact isFree_of_inContext h
  · split at h
    · rfl
    · cases h

theorem OnlyFree.wp {α : Type} {P : BotM α} (h : OnlyFree P) :
    P.wp deskMonitor (fun _ _ => True) a :=
  Prog.Only.wp (B := fun _ => True) h trivial fun _ _ _ ho => ⟨desk_free ho, fun _ _ => trivial⟩

theorem ignoresTouch_desk : IgnoresTouch deskMonitor := by
  intro a o h
  cases o with
  | sql s => cases s <;> first | exact ⟨trivial, fun _ => rfl⟩ | cases h
  | now => exact ⟨trivial, fun _ => rfl⟩
  | _ => cases h

/-- A confirmation of the reserved row, then the rest. -/
theorem confirm_wp {α : Type} {f : Unit → BotM α} {id : Nat} {wa : Option String} {status : String}
    (hid : a.reserved = some id) (hsent : wa ≠ none → status = statusSent) (hf : OnlyFree (f ())) :
    (exec (.confirmReply id wa status) >>= f).wp deskMonitor (fun _ _ => True) a := by
  rw [Prog.wp_bind]
  exact Prog.wp_call_bind ⟨hid, hsent⟩ fun _ _ => hf.wp

theorem sendOnce_desk (channel : Channel) (waId key text : String) (id : Nat) (form : Form) :
    (sendOnce cfg channel waId id text (some key) form).wp deskMonitor (fun _ _ => True) a := by
  refine Prog.wp_call_bind trivial fun r _ => ?_
  cases r with
  | none => exact OnlyFree.wp (Prog.Only.call_bind rfl fun _ => Prog.only_pure _)
  | some n =>
    dsimp only
    rw [Prog.wp_bind]
    refine touch_wp ignoresTouch_desk (Prog.wp_call_bind trivial fun _ _ =>
      Prog.wp_call_bind trivial fun wire _ => ?_)
    cases wire.result with
    | failed => exact confirm_wp rfl (fun hwa => absurd rfl hwa) (Prog.Only.call_bind rfl fun _ => Prog.only_pure _)
    | broken => exact OnlyFree.wp (only_raise rfl)
    | sent outId =>
      refine confirm_wp rfl (fun _ => rfl) (((touch_only cfg id true).mono fun _ =>
        isFree_of_isCalm).bind fun _ => Prog.Only.call_bind rfl fun _ => Prog.only_pure _)

/-- The invitation leaves, or fails before any request. -/
theorem inviteToPrivateThread_desk (channel : Channel) (id : Nat) (commentId text : String) :
    (inviteToPrivateThread cfg channel id commentId text).wp deskMonitor (fun _ b => b = a) a := by
  unfold inviteToPrivateThread
  split
  · rfl
  · exact Prog.wp_call_bind trivial fun _ _ => rfl

theorem inviteAfterComment_desk (channel : Channel) (e : Channels.InboundEvent) :
    (inviteAfterComment cfg channel e).wp deskMonitor (fun _ _ => True) a := by
  unfold inviteAfterComment
  split
  · trivial
  split
  · trivial
  split
  · trivial
  rw [Prog.wp_bind]
  refine Prog.wp_mono (OnlyFree.wp ((asOptional_only _).mono fun _ => isFree_of_isCalm))
    fun name b _ => ?_
  rw [Prog.wp_bind]
  refine Prog.wp_mono (OnlyFree.wp ((getChannelContext_only ..).mono fun _ => isFree_of_inContext))
    fun c b _ => Prog.wp_call_bind trivial fun r _ => ?_
  cases r with
  | none => exact OnlyFree.wp (Prog.only_call.mpr rfl)
  | some n =>
    refine Prog.wp_call_bind trivial fun _ _ => ?_
    rw [Prog.wp_bind]
    refine Prog.wp_mono (inviteToPrivateThread_desk channel c.id e.providerMessageId _)
      fun result b hb => ?_
    subst hb
    cases result with
    | failed => exact confirm_wp rfl (fun hwa => absurd rfl hwa) (Prog.only_call.mpr rfl)
    | broken => exact OnlyFree.wp (only_raise rfl)
    | sent id => exact confirm_wp rfl (fun _ => rfl) (Prog.only_call.mpr rfl)

theorem delivers_desk (cfg : Config) : Delivers deskMonitor cfg fun _ => True where
  calm _ ho := ⟨desk_free (isFree_of_isCalm ho), fun _ _ => trivial⟩
  handles channel waId name key := by
    refine ⟨fun _ _ => True, fun _ => True, fun _ => ?_, fun c => ?_, fun _ => trivial⟩
    · exact Prog.wp_mono (OnlyFree.wp ((receive_only ..).mono fun _ => isFree_of_inReceive))
        fun r _ _ => by cases r <;> trivial
    · exact ⟨fun _ ho => ⟨desk_free (isFree_of_isCalm ho), fun _ _ => trivial⟩,
        fun _ ho => ⟨desk_free (isFree_of_isCalm ho), fun _ _ => trivial⟩, fun _ => trivial,
        fun _ => ⟨trivial, fun _ _ => trivial⟩, fun _ _ _ => ⟨trivial, fun _ _ => trivial⟩,
        fun _ _ => sendOnce_desk ..⟩
  stale _ _ _ _ _ _ :=
    OnlyFree.wp ((recordWithoutAnswering_only ..).mono fun _ => isFree_of_inReceive)
  status _ := ⟨trivial, fun _ _ => trivial⟩
  invite channel e _ := inviteAfterComment_desk channel e

theorem isFree_of_sweep (h : inSweep o = true ∧ marksSent o = true) : isFree o = true := by
  cases o with
  | sql s => cases s <;> first | rfl | exact h.2 | cases h.1
  | _ => rfl

/-! ## The operators' requests -/

theorem isFree_of_inReopen (h : inReopen o = true) : isFree o = true := by
  cases o with
  | sql s => cases s <;> first | rfl | cases h
  | _ => rfl

theorem isFree_of_inSwitch (h : inSwitch o = true) : isFree o = true := by
  cases o with
  | sql s => cases s <;> first | rfl | cases h
  | _ => rfl

theorem isFree_of_isLookup (h : isLookup o = true) : isFree o = true := by
  cases o with
  | sql s => cases s <;> first | rfl | cases h
  | _ => rfl

theorem onOpenRow_desk {id : Nat} {rest : Conversation → BotM Unit}
    (h : ∀ c b, (rest c).wp deskMonitor (fun _ _ => True) b) :
    (onOpenRow id rest).wp deskMonitor (fun _ _ => True) a := by
  refine Prog.wp_call_bind trivial fun c _ => ?_
  cases c with
  | none => exact OnlyFree.wp (only_raise rfl)
  | some c =>
    dsimp only
    rw [Prog.wp_bind]
    exact Prog.wp_mono (OnlyFree.wp ((reviveForOperator_only c).mono fun _ => isFree_of_inReopen))
      fun c b _ => h c b

theorem deliverReply_desk (c : Conversation) (recipient text : String) (operatorId : Option Nat) :
    (Operator.deliverReply cfg c recipient text operatorId).wp deskMonitor (fun _ _ => True) a := by
  refine Prog.wp_call_bind trivial fun wire _ => ?_
  cases wire.result with
  | failed => exact OnlyFree.wp (only_raise rfl)
  | broken => exact OnlyFree.wp (only_raise rfl)
  | sent id =>
    refine Prog.wp_call_bind rfl fun messageId _ => ?_
    rw [Prog.wp_bind]
    refine Prog.wp_call_bind (M := deskMonitor) rfl fun _ _ => OnlyFree.wp ?_
    refine Prog.Only.bind (only_when ?_) fun _ =>
      Prog.Only.call_bind rfl fun _ => Prog.only_call.mpr rfl
    exact Prog.Only.call_bind rfl fun _ => only_exec rfl

/-- **Every task keeps to its desk.** -/
theorem desk_accepts (cfg : Config) : deskMonitor.Accepts .clear (fun _ => True) (sem cfg) where
  program l := by
    cases l with
    | webhook payload => exact (delivers_desk cfg).processWebhookPayload_wp trivial payload
    | metaWebhook surfaces payload =>
      exact Prog.wp_forM (I := fun _ => True) (fun surface _ _ hb =>
        (delivers_desk cfg).processMetaPayload_wp hb surface payload) trivial
    | sweep => exact OnlyFree.wp ((closeIdleSessions_onlySweep cfg).mono fun _ => isFree_of_sweep)
    | takeOver | resumeAi =>
      exact onOpenRow_desk fun c b =>
        OnlyFree.wp ((switchOpen_only _ _ _ _ c).mono fun _ => isFree_of_inSwitch)
    | manualReply id text operatorId =>
      exact onOpenRow_desk fun c b => replyOpen_wp (I := fun _ => True)
        (fun _ ho => ⟨desk_free (isFree_of_isLookup ho), fun _ _ => trivial⟩)
        (fun recipient _ => deliverReply_desk c recipient text operatorId) trivial
  may _ := trivial

/-! ## The owner of a row -/

namespace Desk

/-- A process has a row when it enters it or has reserved it. -/
def Has (a : Desk) (tx : Tx) (n : Nat) : Prop := tx.enters n = true ∨ a.reserved = some n

/-- A reservation is of a new row. -/
theorem reserved_answered {a : Desk} {s : Stmt} {r : s.Resp} {now : Time} {seq n : Nat}
    {locked : Nat → Bool} {db : Db} {ws : List Write}
    (h : s.exec now seq locked db = some (r, ws)) (hn : (a.answered s r).reserved = some n) :
    a.reserved = some n ∨ n = seq := by
  cases s with
  | reserveReply c key content type =>
    rcases Stmt.exec_reserve h with ⟨rfl, -, -⟩ | ⟨rfl, -, -⟩
    · exact .inl hn
    · exact .inr (Option.some.inj hn).symm
  | confirmReply => cases hn
  | _ => exact .inl hn

theorem claims (cfg : Config) : Claims cfg deskMonitor .clear Has where
  idle n hn := by rcases hn with hn | hn <;> cases hn
  draw {others w a tx o r w' tx' n} := by
    intro hok hstep hn
    cases o with
    | sql s =>
      obtain ⟨ws, hexec, -, -, hseq, rfl⟩ := step_sql hstep
      have hlt : w.seq < w'.seq := by omega
      rcases hn with hn | hn
      · rw [Tx.enters_append, Bool.or_eq_true] at hn
        rcases hn with hn | hn
        · exact .inl (.inl hn)
        · rcases Stmt.exec_enters hexec hn with hnew | ⟨wa, status, rfl⟩
          · exact .inr ⟨hnew, hlt⟩
          · exact .inl (.inr hok.1)
      · exact (reserved_answered hexec hn).imp .inr fun hnew => ⟨hnew, hlt⟩
    | commit =>
      obtain ⟨-, -, rfl⟩ := step_commit hstep
      rcases hn with hn | hn
      · cases hn
      · exact .inl (.inr hn)
    | rollback =>
      obtain ⟨-, rfl⟩ := step_rollback hstep
      rcases hn with hn | hn <;> cases hn
    | raise => cases r
    | _ =>
      obtain ⟨-, -, rfl⟩ := step_quiet rfl hstep
      exact .inl hn

end Desk

/-- **A row that one process enters** is none that another enters or has reserved. -/
theorem enters_exclusive {w₀ : World} {s : Sys botSig World Tx Task}
    (h : Reach (sem cfg) anyStep w₀ s) {i j : Nat} {p q : Proc botSig Tx Task}
    (hp : s.proc i = some p) (hq : s.proc j = some q) (hij : i ≠ j) {n : Nat}
    (hn : p.held.enters n = true) :
    q.held.enters n = false ∧ (track deskMonitor .clear j s.hist).reserved ≠ some n := by
  have hexcl := claims_exclusive (desk_accepts cfg) (Desk.claims cfg) h hp hq (.inl hn)
  exact ⟨Bool.eq_false_iff.mpr fun hq' => hij (hexcl (.inl hq')), fun hq' => hij (hexcl (.inr hq'))⟩

end Webhook
