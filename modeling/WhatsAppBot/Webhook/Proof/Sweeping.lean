import WhatsAppBot.Store.Proof.Stage
import WhatsAppBot.Webhook.Proof.Tasks

/-!
# What a process does to one session

`sweepMonitor c` follows what a process does to the conversation `c`: it claims it, says goodbye and
closes it, or revives it. `sweep_discipline`: every task keeps to the order the monitor asks for. A
sweep says goodbye only to a session it holds, and closes only such a session, once.
-/

set_option autoImplicit false

namespace Webhook

open Lib Store Bot Chat

/-- What a process has to do with the conversation. -/
inductive Hold where
  | idle
  /-- It revived the row and has not committed that. -/
  | revived
  /-- It claimed the row and has not committed that. -/
  | claimed
  /-- Its claim is committed. -/
  | holding
  /-- It said goodbye. -/
  | sent
  /-- It closed the row and has not committed that. -/
  | closing
  /-- It claimed the row and did not find it among its targets. -/
  | missed
  deriving DecidableEq

namespace Hold

def commit : Hold → Hold
  | claimed => holding
  | revived | closing => idle
  | a => a

def rollback : Hold → Hold
  | claimed | revived | closing => idle
  | a => a

/-- After a statement that did this to the row. -/
def after (a : Hold) : Option Kind → Hold
  | some .claim => claimed
  | some .close => closing
  | some .revive => revived
  | none => a

/-- After the targets of a claim were looked up. -/
def look (c : Nat) (a : Hold) (targets : List IdleSession) : Hold :=
  if a = claimed ∧ c ∉ targets.map (·.conversationId) then missed else a

/-- Its claim is committed, its close is not. -/
def busy (a : Hold) : Bool := a = holding ∨ a = sent ∨ a = closing

/-- What its transaction did to the row. -/
def pending : Hold → Option Kind
  | claimed => some .claim
  | closing => some .close
  | revived => some .revive
  | _ => none

/-- It owes the row nothing. -/
def Free (a : Hold) : Prop := a = idle ∨ a = revived

end Hold

/-- Targets that were looked up under `ids`: at most one for each. -/
def TargetsOf (ids : List Nat) (targets : List IdleSession) : Prop :=
  (targets.map (·.conversationId)).Nodup ∧ ∀ t ∈ targets, t.conversationId ∈ ids

def sweepMonitor (c : Nat) : Monitor botSig Hold where
  ok a o :=
    match o with
    | .sql (.claimIdleSessions _ _ _) => a = .idle
    | .sql (.reopenRecent _ _ _) | .sql (.reopen _ _) => a.Free
    | .sql (.close id _) => id = c → a = .holding ∨ a = .sent
    | .sql (.idleTargets ids) => a = .claimed → c ∈ ids
    | .send out => out.purpose = .closing → out.conversationId = c → a = .holding
    | .rollback => a.Free
    | _ => True
  next a o r :=
    match o, r with
    | .sql (.idleTargets _), targets => a.look c targets
    | .sql s, r => a.after (s.kindOn c r)
    | .commit, _ => a.commit
    | .rollback, _ => a.rollback
    | .send out, _ => if out.purpose = .closing ∧ out.conversationId = c then .sent else a
    | _, _ => a
  may o r :=
    match o, r with
    | .sql (.idleTargets ids), targets => TargetsOf ids targets
    | _, _ => True

variable {c : Nat} {cfg : Config} {a : Hold} {o : Op}

/-! ## Everybody but the sweep -/

theorem reviveOn_free (ha : a.Free) (r : Option Nat) : (a.after (reviveOn c r)).Free := by
  unfold reviveOn
  split
  · exact .inr rfl
  · exact ha

theorem commit_free (ha : a.Free) : a.commit.Free := by
  rcases ha with rfl | rfl <;> exact .inl rfl

theorem rollback_free (ha : a.Free) : a.rollback.Free := by
  rcases ha with rfl | rfl <;> exact .inl rfl

theorem send_free {out : Outbound} (hp : out.purpose ≠ .closing) (ha : a.Free) :
    (sweepMonitor c).ok a (.send out) ∧ ∀ r, ((sweepMonitor c).next a (.send out) r).Free := by
  refine ⟨fun he => absurd he hp, fun r => ?_⟩
  rw [show (sweepMonitor c).next a (.send out) r = a from if_neg fun he => hp he.1]
  exact ha

theorem free_of_inDelivery (h : inDelivery o = true) (ha : a.Free) :
    (sweepMonitor c).ok a o ∧ ∀ r, ((sweepMonitor c).next a o r).Free := by
  cases o with
  | sql s =>
    cases s with
    | reopenRecent | reopen => exact ⟨ha, fun r => reviveOn_free ha r⟩
    | claimIdleSessions | close | idleTargets => cases h
    | _ => exact ⟨trivial, fun _ => ha⟩
  | commit => exact ⟨trivial, fun _ => commit_free ha⟩
  | rollback => exact ⟨ha, fun _ => rollback_free ha⟩
  | send out =>
    refine send_free (fun hp => ?_) ha
    simp [inDelivery, isCalm, isConfirm, inContext, hp] at h
  | _ => exact ⟨trivial, fun _ => ha⟩

theorem free_of_inOperator (h : inOperator o = true) (ha : a.Free) :
    (sweepMonitor c).ok a o ∧ ∀ r, ((sweepMonitor c).next a o r).Free := by
  cases o with
  | sql s =>
    cases s with
    | reopenRecent | reopen => exact ⟨ha, fun r => reviveOn_free ha r⟩
    | claimIdleSessions | close | idleTargets => cases h
    | _ => exact ⟨trivial, fun _ => ha⟩
  | commit => exact ⟨trivial, fun _ => commit_free ha⟩
  | rollback => cases h
  | send out =>
    refine send_free (fun hp => ?_) ha
    simp [inOperator, inRequest, hp] at h
  | _ => exact ⟨trivial, fun _ => ha⟩

/-! ## The sweep -/

/-- The operations of the send decision. -/
def isAside : Op → Bool
  | .sql (.lastInboundAt _) | .sql (.create _ _ _ _) | .sql (.getConversation _) | .now
  | .publish _ | .raise _ => true
  | _ => false

theorem aside_same (h : isAside o = true) :
    (sweepMonitor c).ok a o ∧ ∀ r, (sweepMonitor c).next a o r = a := by
  cases o with
  | sql s => cases s <;> first | exact ⟨trivial, fun _ => rfl⟩ | cases h
  | now | publish | raise => exact ⟨trivial, fun _ => rfl⟩
  | _ => cases h

/-- Programs that stand aside leave the monitor where it is. -/
theorem aside_wp {α : Type} {P : BotM α} {Q : α → Hold → Prop}
    (hP : P.Only fun o => isAside o = true) (hQ : ∀ x, Q x a) : P.wp (sweepMonitor c) Q a := by
  refine Prog.wp_mono (hP.wp (B := (· = a)) rfl ?_) fun x b hb => hb ▸ hQ x
  rintro b o rfl ho
  exact ⟨(aside_same ho).1, fun r _ => (aside_same ho).2 r⟩

theorem shouldSendClosing_aside (target : IdleSession) :
    (Session.shouldSendClosing cfg target).Only fun o => isAside o = true := by
  unfold Session.shouldSendClosing
  generalize strip (Session.closingText cfg) = text
  refine Prog.Only.ite (Prog.only_pure _) (Prog.Only.ite (Prog.only_pure _)
    (Prog.Only.ite (Prog.only_pure _) (Prog.Only.call_bind rfl fun last => ?_)))
  cases last with
  | none => exact Prog.only_pure _
  | some last => exact Prog.Only.call_bind rfl fun _ => Prog.only_pure _

theorem announceClosed_aside (id : Nat) :
    (Session.announceClosed id).Only fun o => isAside o = true := by
  refine Prog.Only.call_bind rfl fun c => ?_
  cases c with
  | none => exact Prog.only_pure _
  | some c => exact Prog.only_call.mpr rfl

/-- What a goodbye does: it is said to a session that is held. -/
theorem sendClosing_wp {target : IdleSession}
    (h : target.conversationId = c → a = .holding) :
    (Session.sendClosing cfg target).wp (sweepMonitor c)
      (fun _ b => b = if target.conversationId = c then .sent else a) a := by
  refine Prog.wp_call_bind (fun _ hc => h hc) fun wire _ => ?_
  have hnext : ∀ text recipient, (sweepMonitor c).next a (.send ⟨target.channel, recipient, text,
      .text, target.conversationId, .closing⟩) wire =
      if target.conversationId = c then .sent else a := by
    intro text recipient
    simp [sweepMonitor]
  rw [hnext]
  cases wire.result with
  | failed => exact rfl
  | broken => exact aside_wp (only_raise rfl) fun _ => rfl
  | sent id =>
    exact aside_wp (Prog.Only.call_bind rfl fun _ => Prog.only_call.mpr rfl) fun _ => rfl

theorem sayGoodbye_wp {target : IdleSession} (h : target.conversationId = c → a = .holding) :
    (Session.sayGoodbye cfg target).wp (sweepMonitor c)
      (fun _ b => b = a ∨ target.conversationId = c ∧ b = .sent) a := by
  unfold Session.sayGoodbye
  rw [Prog.wp_bind]
  refine aside_wp (shouldSendClosing_aside target) fun allowed => ?_
  unfold when
  split
  · refine Prog.wp_mono (sendClosing_wp h) fun _ b hb => ?_
    split at hb
    · rename_i hc
      exact .inr ⟨hc, hb⟩
    · exact .inl hb
  · exact .inl rfl

/-- One target: the session is closed for good when it is `c`, and left alone otherwise. -/
theorem finish_wp {target : IdleSession} (h : target.conversationId = c → a = .holding)
    (ha : a = .idle ∨ a = .holding ∨ a = .missed) :
    (Session.finish cfg target).wp (sweepMonitor c)
      (fun _ b => b = if target.conversationId = c then .idle else a) a := by
  unfold Session.finish
  rw [Prog.wp_bind]
  refine Prog.wp_mono (sayGoodbye_wp h) fun _ b hb => ?_
  refine Prog.wp_call_bind trivial fun closedAt _ => ?_
  by_cases hc : target.conversationId = c
  · have hb : b = .holding ∨ b = .sent := by
      rcases hb with rfl | ⟨-, rfl⟩
      · exact .inl (h hc)
      · exact .inr rfl
    refine Prog.wp_call_bind (fun _ => hb) fun _ _ => Prog.wp_call_bind trivial fun _ _ => ?_
    rw [if_pos hc]
    refine aside_wp (announceClosed_aside _) fun _ => ?_
    simp [sweepMonitor, Stmt.kindOn, hc, Hold.after, Hold.commit]
  · have hb : b = a := by
      rcases hb with hb | ⟨hc', -⟩
      · exact hb
      · exact absurd hc' hc
    subst hb
    refine Prog.wp_call_bind (fun he => absurd he hc) fun _ _ =>
      Prog.wp_call_bind trivial fun _ _ => ?_
    rw [if_neg hc]
    refine aside_wp (announceClosed_aside _) fun _ => ?_
    rcases ha with rfl | rfl | rfl <;>
      simp [sweepMonitor, Stmt.kindOn, hc, Hold.after, Hold.commit]

/-- What is left to do: either `c` is held and among the targets, or it is not among them. -/
def Remaining (c : Nat) (targets : List IdleSession) (a : Hold) : Prop :=
  (targets.map (·.conversationId)).Nodup ∧
    (a = .holding ∧ c ∈ targets.map (·.conversationId) ∨
      (a = .idle ∨ a = .missed) ∧ c ∉ targets.map (·.conversationId))

theorem finish_remaining {target : IdleSession} {rest : List IdleSession}
    (h : Remaining c (target :: rest) a) :
    (Session.finish cfg target).wp (sweepMonitor c) (fun _ => Remaining c rest) a := by
  obtain ⟨hnodup, h⟩ := h
  rw [List.map_cons, List.nodup_cons] at hnodup
  rw [List.map_cons] at h
  have hheld : target.conversationId = c → a = .holding := by
    intro hc
    rcases h with ⟨rfl, -⟩ | ⟨-, hnot⟩
    · rfl
    · exact absurd (List.mem_cons.mpr (.inl hc.symm)) hnot
  have ha : a = .idle ∨ a = .holding ∨ a = .missed := by
    rcases h with ⟨rfl, -⟩ | ⟨rfl | rfl, -⟩ <;> simp
  refine Prog.wp_mono (finish_wp hheld ha) fun _ b hb => ⟨hnodup.2, ?_⟩
  split at hb
  · rename_i hc
    exact .inr ⟨.inl hb, hc ▸ hnodup.1⟩
  · rename_i hc
    subst hb
    have hmem : c ∈ target.conversationId :: rest.map (·.conversationId) ↔
        c ∈ rest.map (·.conversationId) := by
      rw [List.mem_cons]
      exact or_iff_right fun he => hc he.symm
    rwa [hmem] at h

/-- The targets of a claim, once it is committed. -/
theorem remaining_of_claim {ids : List Nat} {targets : List IdleSession}
    (h : TargetsOf ids targets) :
    Remaining c targets (((Hold.idle.after (claimOn c ids)).look c targets).commit) := by
  refine ⟨h.1, ?_⟩
  by_cases hids : c ∈ ids
  · by_cases htargets : c ∈ targets.map (·.conversationId)
    · exact .inl ⟨by simp [claimOn, hids, Hold.after, Hold.look, htargets, Hold.commit], htargets⟩
    · exact .inr ⟨by simp [claimOn, hids, Hold.after, Hold.look, htargets, Hold.commit], htargets⟩
  · refine .inr ⟨by simp [claimOn, hids, Hold.after, Hold.look, Hold.commit], fun hmem => ?_⟩
    obtain ⟨t, ht, rfl⟩ := List.mem_map.mp hmem
    exact hids (h.2 t ht)

theorem closeIdleSessions_wp : (Session.closeIdleSessions cfg).wp (sweepMonitor c)
    (fun _ b => b = .idle ∨ b = .missed) .idle := by
  unfold Session.closeIdleSessions
  split
  · exact .inl rfl
  · split
    · exact .inl rfl
    · refine Prog.wp_call_bind trivial fun _ _ => Prog.wp_call_bind trivial fun _ _ =>
        Prog.wp_call_bind rfl fun ids _ => ?_
      unfold Session.closeClaimed
      split
      · rename_i hnil
        subst hnil
        exact .inl rfl
      · refine Prog.wp_call_bind (fun ha => ?_) fun targets htargets =>
          Prog.wp_call_bind trivial fun _ _ => ?_
        · by_contra hids
          have hidle : Hold.idle.after (claimOn c ids) = .idle := by simp [claimOn, hids, Hold.after]
          rw [show Hold.idle.after (claimOn c ids) = .claimed from ha] at hidle
          cases hidle
        · have hloop := Prog.wp_forM_rest (f := Session.finish cfg)
            (fun _ _ _ => finish_remaining) (remaining_of_claim (c := c) htargets)
          refine Prog.wp_mono hloop fun _ b hb => ?_
          rcases hb with ⟨-, ⟨-, hmem⟩ | ⟨hb, -⟩⟩
          · cases hmem
          · exact hb

/-- It owes the row nothing, or has lost sight of it. -/
def Hold.Done (a : Hold) : Prop := a.Free ∨ a = missed

/-- **No task says goodbye to a session, or closes it, that it does not hold.** -/
theorem sweep_discipline : (sweepMonitor c).Accepts Hold.idle Hold.Done (sem cfg) where
  program l := by
    have hfree : Hold.idle.Free := .inl rfl
    have hdelivery : ∀ l, (program cfg l).Only (fun o => inDelivery o = true) →
        (program cfg l).wp (sweepMonitor c) (fun _ => Hold.Done) .idle := fun l h =>
      Prog.wp_mono (h.wp hfree fun b o hb ho =>
        ⟨(free_of_inDelivery ho hb).1, fun r _ => (free_of_inDelivery ho hb).2 r⟩)
        fun _ _ hb => .inl hb
    have hoperator : ∀ l, (program cfg l).Only (fun o => inOperator o = true) →
        (program cfg l).wp (sweepMonitor c) (fun _ => Hold.Done) .idle := fun l h =>
      Prog.wp_mono (h.wp hfree fun b o hb ho =>
        ⟨(free_of_inOperator ho hb).1, fun r _ => (free_of_inOperator ho hb).2 r⟩)
        fun _ _ hb => .inl hb
    cases l with
    | webhook payload => exact hdelivery _ (program_only cfg (.webhook payload))
    | metaWebhook surfaces payload =>
      exact hdelivery _ (program_only cfg (.metaWebhook surfaces payload))
    | sweep =>
      refine Prog.wp_mono closeIdleSessions_wp fun _ b hb => ?_
      rcases hb with rfl | rfl
      · exact .inl hfree
      · exact .inr rfl
    | takeOver id operator operatorId =>
      exact hoperator _ (program_only cfg (.takeOver id operator operatorId))
    | resumeAi id => exact hoperator _ (program_only cfg (.resumeAi id))
    | manualReply id text operatorId =>
      exact hoperator _ (program_only cfg (.manualReply id text operatorId))
  may {ts w t o r x} h := by
    change step cfg _ _ _ o r = _ at h
    cases o with
    | sql s =>
      cases s with
      | idleTargets ids =>
        obtain ⟨ws, hexec, -⟩ := step_sql h
        obtain ⟨rfl, -⟩ := Prod.mk.inj (Option.some.inj hexec)
        exact ⟨Db.idleTargets_nodup _ ids, fun _ => Db.mem_of_idleTargets⟩
      | _ => trivial
    | _ => trivial

end Webhook
