import WhatsAppBot.Lib.Headcount
import WhatsAppBot.Webhook.Proof.CommentReply
import WhatsAppBot.Webhook.Proof.OneReply

/-!
# At most one invitation per comment

An invitation to a comment is reserved under a key of its own, in the index the public answers are
reserved in. `inviteMonitor c` follows one process: it calls `invite_to_private_thread` only after a
commit of its own reservation. Counted over all processes, the calls made and those still to come are
no more than the committed reservations (`invitations_le`), and the index allows one of these.

`Unhindered`: two reservations under different keys never see or wait for each other.
-/

set_option autoImplicit false

namespace Webhook

open Lib Store Bot Chat Channels

/-- The comment's invitation handed to the sender. -/
def isInviteSend (c : String) : Event botSig World Tx Task → Bool
  | .op _ _ _ (.send out) _ _ => out.purpose = .invite c
  | _ => false

/-- A commit of a reservation under `key`, the last thing before the sender or
`invite_to_private_thread` is called. -/
def isReservation (key : String) : Event botSig World Tx Task → Bool
  | .op _ _ tx .commit _ _ => 0 < tx.countP (Write.isReply key)
  | _ => false

/-! ## One process -/

def inviteMonitor (c : String) : Monitor botSig Phase where
  ok a o :=
    match o with
    | .send out => out.purpose = .invite c → a = .owner
    | _ => True
  next a o r :=
    match o, r with
    | .sql (.reserveReply _ key _ _), r =>
      if key = reservationKey c ∧ (r : Option Nat).isSome then .pending else a
    | .commit, _ => if a = .pending then .owner else a
    | .rollback, _ => if a = .pending then .idle else a
    | .send out, _ => if out.purpose = .invite c then .idle else a
    | _, _ => a

variable {cfg : Config} {c : String} {a : Phase} {o : Op} {α : Type}

/-- No invitation is sent. -/
def sendsNoInvite : Op → Bool
  | .send out =>
    match out.purpose with
    | .invite _ => false
    | _ => true
  | _ => true

theorem sendsNoInvite_ok (h : sendsNoInvite o = true) : (inviteMonitor c).ok a o := by
  cases o with
  | send out =>
    intro hp
    simp [sendsNoInvite, hp] at h
  | _ => trivial

theorem sendsNoInvite_wp {P : BotM α} (h : P.Only fun o => sendsNoInvite o = true) :
    P.wp (inviteMonitor c) (fun _ _ => True) a :=
  h.wp trivial fun _ _ _ ho => ⟨sendsNoInvite_ok ho, fun _ _ => trivial⟩

theorem sendsNoInvite_of_isCalm (h : isCalm o = true) : sendsNoInvite o = true := by
  cases o with
  | send => cases h
  | _ => rfl

theorem sendsNoInvite_of_inContext (h : inContext o = true) : sendsNoInvite o = true := by
  cases o with
  | send => cases h
  | _ => rfl

theorem sendsNoInvite_of_inReceive (h : inReceive o = true) : sendsNoInvite o = true := by
  cases o with
  | send => cases h
  | _ => rfl

theorem sendsNoInvite_of_inSweep (h : inSweep o = true) : sendsNoInvite o = true := by
  cases o with
  | send out =>
    have hp : out.purpose = .closing := by simpa [inSweep] using h
    simp [sendsNoInvite, hp]
  | _ => rfl

theorem sendsNoInvite_of_inOperator (h : inOperator o = true) : sendsNoInvite o = true := by
  cases o with
  | send out =>
    have hp : out.purpose = .manual := by simpa [inOperator, inRequest] using h
    simp [sendsNoInvite, hp]
  | _ => rfl

theorem ignoresTouch_invite : IgnoresTouch (inviteMonitor c) := by
  intro a o h
  cases o with
  | sql s => cases s <;> first | exact ⟨trivial, fun _ => rfl⟩ | cases h
  | now => exact ⟨trivial, fun _ => rfl⟩
  | _ => cases h

theorem sendOnce_invite {channel : Channel} {waId key text : String} {id : Nat} {form : Form} :
    (sendOnce cfg channel waId id text (some key) form).wp (inviteMonitor c)
      (fun _ _ => True) a := by
  refine sendOnce_wp ignoresTouch_invite (fun {_ o} _ ho => ⟨sendsNoInvite_ok ?_, fun _ _ => trivial⟩)
    trivial (fun _ => trivial) fun n _ => ⟨trivial, nofun, fun _ => trivial⟩
  cases o with
  | send => rcases ho with ho | ho <;> cases ho
  | _ => rfl

theorem handles_invite (channel : Channel) (waId : String) (name : Option String) (key : String) :
    Handles (inviteMonitor c) cfg channel waId name key (fun _ => True) (fun _ _ => True)
      (fun _ => True) where
  receive _ := Prog.wp_mono (sendsNoInvite_wp
    ((receive_only ..).mono fun _ => sendsNoInvite_of_inReceive)) fun r _ _ => by cases r <;> trivial
  serves d :=
    { calm := fun _ ho => ⟨sendsNoInvite_ok (sendsNoInvite_of_isCalm ho), fun _ _ => trivial⟩
      calmAfter := fun _ ho => ⟨sendsNoInvite_ok (sendsNoInvite_of_isCalm ho), fun _ _ => trivial⟩
      le := id
      quota := fun _ => ⟨trivial, fun _ _ => trivial⟩
      human := fun _ _ _ => ⟨trivial, fun _ _ => trivial⟩
      send := fun _ _ => sendOnce_invite }
  done := id

/-- The invitation is sent with its own reservation committed. -/
theorem inviteAfterComment_invite (channel : Channel) (e : InboundEvent) :
    (inviteAfterComment cfg channel e).wp (inviteMonitor c) (fun _ _ => True) a := by
  unfold inviteAfterComment
  split
  · trivial
  · split
    · trivial
    · split
      · trivial
      · rw [Prog.wp_bind]
        refine Prog.wp_mono (sendsNoInvite_wp ((asOptional_only _).mono
          fun _ => sendsNoInvite_of_isCalm)) fun name b _ => ?_
        rw [Prog.wp_bind]
        refine Prog.wp_mono (sendsNoInvite_wp ((getChannelContext_only ..).mono
          fun _ => sendsNoInvite_of_inContext)) fun d b _ => Prog.wp_call_bind trivial fun r _ => ?_
        cases r with
        | none => exact sendsNoInvite_wp (Prog.only_call.mpr rfl)
        | some n =>
          refine Prog.wp_call_bind trivial fun _ _ => ?_
          rw [Prog.wp_bind]
          refine Prog.wp_mono (Q := fun _ _ => True) ?_ fun result b _ => sendsNoInvite_wp ?_
          · unfold inviteToPrivateThread
            split
            · trivial
            · refine Prog.wp_call_bind (fun hp => ?_) fun _ _ => trivial
              have hd : e.providerMessageId = c := by simpa using hp
              simp [inviteMonitor, hd]
          · cases result with
            | failed => exact only_exec_bind rfl (Prog.only_call.mpr rfl)
            | broken => exact only_raise rfl
            | sent id => exact only_exec_bind rfl (Prog.only_call.mpr rfl)

theorem delivers_invite : Delivers (inviteMonitor c) cfg fun _ => True where
  calm _ ho := ⟨sendsNoInvite_ok (sendsNoInvite_of_isCalm ho), fun _ _ => trivial⟩
  handles channel waId name key := ⟨_, _, handles_invite channel waId name key⟩
  stale _ _ _ _ _ _ :=
    sendsNoInvite_wp ((recordWithoutAnswering_only ..).mono fun _ => sendsNoInvite_of_inReceive)
  status _ := ⟨trivial, fun _ _ => trivial⟩
  invite channel e _ := inviteAfterComment_invite channel e

/-- **No task sends an invitation without a committed reservation of its own.** -/
theorem invite_needs_reservation :
    (inviteMonitor c).Accepts Phase.idle (fun _ => True) (sem cfg) where
  program l := by
    cases l with
    | webhook payload => exact delivers_invite.processWebhookPayload_wp trivial payload
    | metaWebhook surfaces payload =>
      exact Prog.wp_forM (I := fun _ => True)
        (fun surface _ b _ => delivers_invite.processMetaPayload_wp trivial surface payload) trivial
    | sweep =>
      exact sendsNoInvite_wp ((program_only cfg .sweep).mono fun _ => sendsNoInvite_of_inSweep)
    | takeOver id operator operatorId =>
      exact sendsNoInvite_wp ((program_only cfg (.takeOver id operator operatorId)).mono
        fun _ => sendsNoInvite_of_inOperator)
    | resumeAi id =>
      exact sendsNoInvite_wp ((program_only cfg (.resumeAi id)).mono
        fun _ => sendsNoInvite_of_inOperator)
    | manualReply id text operatorId =>
      exact sendsNoInvite_wp ((program_only cfg (.manualReply id text operatorId)).mono
        fun _ => sendsNoInvite_of_inOperator)
  may _ := trivial

/-! ## Every process -/

variable {t₀ : Time} {s : Sys botSig World Tx Task} {i : Nat} {l : Task} {tx tx' : Tx} {w w' : World}
  {p : Proc botSig Tx Task} {others : List Tx}

/-- A pending reservation is among the writes of its transaction. -/
theorem pending_step {r : o.Resp} (h : step cfg others w tx o r = some (w', tx'))
    (ha : a = .pending → 0 < tx.countP (Write.isReply (reservationKey c))) :
    (inviteMonitor c).next a o r = .pending → 0 < tx'.countP (Write.isReply (reservationKey c)) := by
  intro hnext
  cases o with
  | sql stmt =>
    obtain ⟨ws, hexec, -, -, -, rfl⟩ := step_sql h
    rw [List.countP_append]
    cases stmt with
    | reserveReply d key content type =>
      simp only [inviteMonitor] at hnext
      split at hnext
      · rename_i hc
        obtain ⟨rfl, hsome⟩ := hc
        rcases Stmt.exec_reserve hexec with ⟨rfl, -, -⟩ | ⟨-, -, m, rfl, hm, -, -⟩
        · cases hsome
        · simp [Write.isReply, hm]
      · exact Nat.add_pos_left (ha hnext) _
    | _ => exact Nat.add_pos_left (ha hnext) _
  | commit | rollback =>
    simp only [inviteMonitor] at hnext
    split at hnext
    · cases hnext
    · rename_i hne
      exact absurd hnext hne
  | send out =>
    obtain ⟨-, -, rfl⟩ := step_quiet rfl h
    simp only [inviteMonitor] at hnext
    split at hnext
    · cases hnext
    · exact ha hnext
  | raise => cases r
  | _ =>
    obtain ⟨-, -, rfl⟩ := step_quiet rfl h
    exact ha hnext

theorem pending_held (h : Reach (sem cfg) anyStep (World.empty t₀) s) (hp : s.proc i = some p)
    (ha : track (inviteMonitor c) .idle i s.hist = .pending) :
    0 < p.held.countP (Write.isReply (reservationKey c)) :=
  (h.keeps (I := fun _ (a : Phase) tx =>
      a = .pending → 0 < List.countP (Write.isReply (reservationKey c)) tx) (program_only cfg)
    (fun _ (h : Phase.idle = .pending) => nomatch h) (fun hs _ ha => pending_step hs ha) hp).1 ha

def Phase.isOwner (a : Phase) : Bool := a = .owner

/-- One operation: a call uses up its process's commit, and a process gets one by committing. -/
theorem invite_op {r : o.Resp} (hok : (inviteMonitor c).ok a o)
    (ha : a = .pending → 0 < tx.countP (Write.isReply (reservationKey c))) :
    (isInviteSend c (.op i l tx o r w)).toNat + ((inviteMonitor c).next a o r).isOwner.toNat ≤
      a.isOwner.toNat + (isReservation (reservationKey c) (.op i l tx o r w)).toNat := by
  have hsame : 0 + a.isOwner.toNat ≤ a.isOwner.toNat + 0 := Nat.le_of_eq (Nat.zero_add _)
  cases o with
  | sql stmt =>
    cases stmt with
    | reserveReply d key content type =>
      dsimp only [inviteMonitor]
      split
      · exact Nat.zero_le _
      · exact hsame
    | _ => exact hsame
  | commit =>
    dsimp only [inviteMonitor, isReservation]
    split
    · rename_i hpending
      rw [decide_eq_true (ha hpending)]
      exact Nat.le_add_left _ _
    · exact Nat.le_trans hsame (Nat.le_add_right _ _)
  | rollback =>
    dsimp only [inviteMonitor]
    split
    · exact Nat.zero_le _
    · exact hsame
  | send out =>
    dsimp only [inviteMonitor, isInviteSend]
    split
    · rename_i hp
      rw [decide_eq_true hp, show a = .owner from hok hp]
      exact Nat.le_refl 1
    · rename_i hp
      rw [decide_eq_false hp]
      exact hsame
  | raise => cases r
  | _ => exact hsame

/-- The calls made and those still to come are no more than the committed reservations. -/
theorem invitations_le (h : Reach (sem cfg) anyStep (World.empty t₀) s) :
    s.hist.countP (isInviteSend c) + s.headcount (inviteMonitor c) .idle Phase.isOwner ≤
      s.hist.countP (isReservation (reservationKey c)) := by
  induction h with
  | start => rfl
  | @step s s' e hr hs hc ih =>
    cases hs with
    | spawn l =>
      rw [Sys.headcount_add]
      exact ih
    | @op i p o f r w tx hp hrest hstep =>
      have hop := invite_op (c := c) (i := i) (l := p.label) (w := w) (r := r)
        (hr.ok invite_needs_reservation hp hrest) (pending_held hr hp)
      have hcount := Sys.headcount_op (inviteMonitor c) .idle Phase.isOwner hp ⟨p.label, tx, f r⟩ r w
      change (Event.op i p.label p.held o r w :: s.hist).countP _ + _ ≤
        (Event.op i p.label p.held o r w :: s.hist).countP _
      rw [countP_cons_toNat, countP_cons_toNat]
      omega
    | finish hp _ | cut hp =>
      exact Nat.le_trans (Nat.add_le_add_left (Sys.headcount_leave hp fun _ => rfl) _) ih

/-- Every committed reservation is a row. -/
theorem reservations_le (h : Reach (sem cfg) anyStep (World.empty t₀) s) (key : String) :
    s.hist.countP (isReservation key) ≤ s.shared.db.replies key := by
  induction h with
  | start => exact Nat.zero_le _
  | @step s s' e hr hs hc ih =>
    cases hs with
    | spawn | finish | cut => exact ih
    | @op i p o f r w tx hp hrest hstep =>
      change step cfg _ _ _ o r = _ at hstep
      change (Event.op i p.label p.held o r w :: s.hist).countP _ ≤ w.db.replies key
      rw [countP_cons_toNat]
      cases o with
      | commit =>
        obtain ⟨hdb, -, -⟩ := step_commit hstep
        rw [hdb, Db.replies_applyAll]
        exact Nat.add_le_add ih (toNat_pos_le _)
      | sql =>
        obtain ⟨_, -, -, hdb, -, -⟩ := step_sql hstep
        rw [hdb]
        exact ih
      | rollback =>
        obtain ⟨rfl, -⟩ := step_rollback hstep
        exact ih
      | raise => cases r
      | _ =>
        obtain ⟨hdb, -, -⟩ := step_quiet rfl hstep
        rw [hdb]
        exact ih

theorem reservations_le_one (h : Reach (sem cfg) anyStep (World.empty t₀) s) (key : String) :
    s.hist.countP (isReservation key) ≤ 1 :=
  Nat.le_trans (reservations_le h key) (replies_le_one h key)

theorem invitations_le_one (h : Reach (sem cfg) anyStep (World.empty t₀) s) (c : String) :
    s.hist.countP (isInviteSend c) ≤ 1 :=
  Nat.le_trans (Nat.le_of_add_right_le (invitations_le h)) (reservations_le_one h _)

/-! ## Two keys -/

/-- `s'` answers the same whether or not `s` was executed before it, and never waits for it. -/
def Unhindered (s s' : Stmt) : Prop :=
  ∀ {now seq locked db r ws}, s.exec now seq locked db = some (r, ws) →
    (∀ now seq locked, s'.exec now seq locked (db.applyAll ws) = s'.exec now seq locked db) ∧
    ∀ {now seq locked db r' ws'}, s'.exec now seq locked db = some (r', ws') →
      blocked [ws] ws' = false

/-- What a reservation writes. -/
theorem exec_reserveReply {now : Time} {seq d : Nat} {locked : Nat → Bool} {db : Db}
    {k content type : String} {r : Option Nat} {ws : Tx}
    (h : (Stmt.reserveReply d k content type).exec now seq locked db = some (r, ws)) :
    ws = [] ∨ ∃ m : Message, ws = [.insertMessage m] ∧ m.replyToWaMessageId = some k ∧
      (Write.insertMessage m).locks = [.replyTo k] := by
  rcases Stmt.exec_reserve h with ⟨-, rfl, -⟩ | ⟨-, -, m, rfl, hm, -, -⟩
  · exact .inl rfl
  · refine .inr ⟨m, rfl, hm, ?_⟩
    rcases Stmt.exec_made h (List.mem_singleton.mpr rfl) with
      ⟨_, _, _, _, hs, _⟩ | ⟨_, _, _, -, hwa, -⟩ | ⟨_, _, _, hs, _⟩
    · cases hs
    · simp [Write.locks, hwa, hm]
    · cases hs

theorem unhindered_of_ne {k k' content content' type type' : String} {d d' : Nat} (hne : k ≠ k') :
    Unhindered (.reserveReply d k content type) (.reserveReply d' k' content' type') := by
  intro now seq locked db r ws h
  rcases exec_reserveReply h with rfl | ⟨m, rfl, hm, hlocks⟩
  · exact ⟨fun _ _ _ => rfl, fun _ => by simp [blocked, Tx.holds]⟩
  · have hsame : (db.applyAll [.insertMessage m]).hasReplyTo k' = db.hasReplyTo k' := by
      simp [Db.applyAll, Db.apply, Db.insertMessage, Db.hasReplyTo, hm, hne]
    refine ⟨fun now seq locked => ?_, fun h' => ?_⟩
    · simp only [Stmt.exec, hsame]
      rfl
    · rcases exec_reserveReply h' with rfl | ⟨m', rfl, -, hlocks'⟩
      · rfl
      · simp [blocked, Tx.holds, hlocks, hlocks', Ne.symm hne]

/-- The id looks like an invitation's key. -/
def startsWithPrefix (c : String) : Bool := (reservationKey "").toList.isPrefixOf c.toList

theorem reservationKey_ne (hc : startsWithPrefix c = false) (d : String) : c ≠ reservationKey d := by
  rintro rfl
  have hyes : startsWithPrefix (reservationKey d) = true := by
    refine List.isPrefixOf_iff_prefix.mpr ⟨d.toList, ?_⟩
    rw [reservationKey, reservationKey, String.append_empty, String.toList_append]
  rw [hc] at hyes
  cases hyes

/-- **At most one invitation per comment, beside the public answer**: however deliveries and
redeliveries interleave and crash, at most one invitation to a comment is reserved and sent, and the
reservations of the public answers and of the invitations never hinder each other. -/
theorem one_invitation (h : Reach (sem cfg) anyStep (World.empty t₀) s) :
    (∀ c, s.hist.countP (isReservation (reservationKey c)) ≤ 1 ∧
      s.hist.countP (isInviteSend c) ≤ 1) ∧
    ∀ c d x y answer type invitation, startsWithPrefix c = false → startsWithPrefix d = false →
      Unhindered (.reserveReply x c answer type)
        (.reserveReply y (reservationKey d) invitation inviteType) ∧
      Unhindered (.reserveReply y (reservationKey d) invitation inviteType)
        (.reserveReply x c answer type) :=
  ⟨fun _ => ⟨reservations_le_one h _, invitations_le_one h _⟩, fun _ d _ _ _ _ _ hc _ =>
    ⟨unhindered_of_ne (reservationKey_ne hc d), unhindered_of_ne (reservationKey_ne hc d).symm⟩⟩

/-- A worker answers a comment, sends the invitation and dies; a second one gets the redelivery. -/
def invited : List Sample.Action :=
  let task : Task := .metaWebhook [facebookComments Sample.invitingConfig] (commentDelivery "u1" "c1")
  [.spawn task] ++ Sample.steps 0 28 Sample.accepted ++ Sample.steps 0 5 Sample.acceptedUnnamed ++
    [.cut 0, .spawn task] ++ Sample.steps 1 8 Sample.accepted ++ [.finish 1]

theorem one_invitation_redelivered : ∃ s : Sys botSig World Tx Task,
    s.hist.countP (isReplySend "c1") = 1 ∧ s.hist.countP (isInviteSend "c1") = 1 ∧
      s.hist.countP (isReservation (reservationKey "c1")) ≤ 1 ∧
      s.hist.countP (isInviteSend "c1") ≤ 1 ∧
      Unhindered (.reserveReply 1 "c1" "answer" "text")
        (.reserveReply 1 (reservationKey "c1") "write to us" inviteType) := by
  obtain ⟨s, hs, hrun⟩ := Reach.exists_of_run (M := sem Sample.invitingConfig) (C := anyStep)
    (w := World.empty 0) invited (fun s => s.hist.countP (isReplySend "c1") = 1 ∧
      s.hist.countP (isInviteSend "c1") = 1) (by decide +kernel)
  obtain ⟨hreply, hinvite⟩ := of_decide_eq_true hrun
  obtain ⟨hone, hapart⟩ := one_invitation hs
  exact ⟨s, hreply, hinvite, (hone "c1").1, (hone "c1").2,
    (hapart "c1" "c1" 1 1 "answer" "text" "write to us" (by decide) (by decide)).1⟩

end Webhook
