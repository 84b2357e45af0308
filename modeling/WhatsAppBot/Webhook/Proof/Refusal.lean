import WhatsAppBot.Lib.Exec
import WhatsAppBot.Store.Proof.Row
import WhatsAppBot.Webhook.Proof.Tasks
import WhatsAppBot.Webhook.Sample

/-!
# Refused replies

`send_manual_reply` refuses before it sends (`Exn.isRefusal`). Once the conversation is open, nothing
is committed or announced before a refusal (`replyOpen_careful`); opening a closed one commits and
announces. So a refusal changes nothing unless it revived the conversation (`refusal_harmless_iff`).
-/

set_option autoImplicit false

namespace Webhook

open Lib Store Bot Chat

/-- The exceptions `send_manual_reply` refuses with. -/
def isRefusal : Exn → Bool
  | .notFound | .unsupportedChannel | .channelUnavailable | .outsideServiceWindow | .superseded =>
    true
  | _ => false

/-- The program is about to refuse. -/
def Refuses (o : Op) : Prop := ∃ e, o = .raise e ∧ isRefusal e = true

instance : DecidablePred Refuses := by
  intro o
  cases o with
  | raise e =>
    exact decidable_of_iff (isRefusal e = true)
      ⟨fun h => ⟨e, rfl, h⟩, fun ⟨_, he, h⟩ => Op.raise.inj he ▸ h⟩
  | _ => exact .isFalse fun ⟨_, he, _⟩ => Op.noConfusion he

/-- Others can see what it did. -/
def isVisible : Op → Bool
  | .commit | .publish _ => true
  | _ => false

/-- Watches what others can see, up to a refusal. -/
def careful : Monitor botSig Bool where
  ok seen o := Refuses o → seen = false
  next seen o _ := seen || isVisible o

variable {cfg : Config} {w w' : World} {tx tx' : Tx} {tr : List (Obs botSig)} {text : String}
  {operatorId : Option Nat} {c : Conversation} {P Q : BotM Unit} {id : Nat}

theorem after_careful {seen : Bool} (h : after careful seen tr = false) :
    seen = false ∧ ∀ x ∈ tr, isVisible x.1 = false := by
  induction tr generalizing seen with
  | nil => exact ⟨h, by simp⟩
  | cons x tr ih =>
    obtain ⟨hx, htr⟩ := ih h
    obtain ⟨hseen, hx⟩ := Bool.or_eq_false_iff.mp hx
    refine ⟨hseen, fun y hy => ?_⟩
    rcases List.mem_cons.mp hy with rfl | hy
    · exact hx
    · exact htr y hy

theorem wp_careful_of_only {seen : Bool} (h : P.Only fun o => ¬Refuses o) :
    P.wp careful (fun _ _ => True) seen :=
  h.wp trivial fun _ _ _ ho => ⟨fun hr => absurd hr ho, fun _ _ => trivial⟩

theorem not_refuses {o : Op} (h : ∀ e, o ≠ .raise e) : ¬Refuses o := fun ⟨e, he, _⟩ => h e he

/-- Sending does not refuse. -/
theorem deliverReply_not_refuses (recipient : String) :
    (Operator.deliverReply cfg c recipient text operatorId).Only fun o => ¬Refuses o := by
  have hraise : ∀ e, isRefusal e = false → (raise e : BotM Unit).Only fun o => ¬Refuses o := by
    refine fun e he => ⟨?_, nofun⟩
    rintro ⟨e', h, he'⟩
    obtain rfl := Op.raise.inj h
    exact absurd he' (by simp [he])
  refine .call_bind (not_refuses nofun) fun wire => ?_
  cases wire.result with
  | failed | broken => exact hraise _ rfl
  | sent id =>
    refine .call_bind (not_refuses nofun) fun _ => only_exec_bind (not_refuses nofun) ?_
    refine Prog.Only.bind (only_when ?_) fun _ =>
      .call_bind (not_refuses nofun) fun _ => Prog.only_call.mpr (not_refuses nofun)
    exact .call_bind (not_refuses nofun) fun _ => only_exec (not_refuses nofun)

theorem not_visible_of_isLookup {o : Op} (h : isLookup o = true) : isVisible o = false := by
  cases o with
  | commit | publish => cases h
  | _ => rfl

/-- **With the conversation open nothing is seen before a refusal.** -/
theorem replyOpen_careful (cfg : Config) (text : String) (operatorId : Option Nat)
    (c : Conversation) : (replyOpen cfg text operatorId c).wp careful (fun _ _ => True) false := by
  refine replyOpen_wp (I := fun seen => seen = false) (fun hseen ho => ?_)
    (fun recipient _ => wp_careful_of_only (deliverReply_not_refuses recipient)) rfl
  subst hseen
  exact ⟨fun _ => rfl, fun _ _ => not_visible_of_isLookup ho⟩

/-! ## The whole request -/

/-- The committed rows stay, and nothing is announced. -/
def Harmless (w w' : World) (tr : List (Obs botSig)) : Prop :=
  w'.db = w.db ∧ ∀ x ∈ tr, ∀ n, x.1 ≠ .publish n

theorem harmless_of_unseen (h : Leaves (sem cfg) w tx P tr w' tx' Q)
    (htr : ∀ x ∈ tr, isVisible x.1 = false) : Harmless w w' tr := by
  refine ⟨?_, fun x hx n hn => ?_⟩
  · refine h.keeps (φ := fun o => isVisible o = false) (I := fun v _ => v.db = w.db)
      (fun {v t o r v' t'} ho hs hv => ?_) htr rfl
    change step cfg [] v t o r = _ at hs
    exact (step_uncommitted (by rintro rfl; cases ho) hs).trans hv
  · have := htr x hx
    rw [hn] at this
    cases this

theorem Harmless.cons {w₁ : World} {x : Obs botSig} (hdb : w₁.db = w.db)
    (hx : ∀ n, x.1 ≠ .publish n) (h : Harmless w₁ w' tr) : Harmless w w' (x :: tr) :=
  ⟨h.1.trans hdb, List.forall_mem_cons.mpr ⟨hx, h.2⟩⟩

/-- An operation the request is past. -/
theorem performed {o : Op} {k : o.Resp → BotM Unit}
    (h : Leaves (sem cfg) w tx (.op o k) tr w' tx' Q) (hQ : Q.At Refuses) (ho : ¬Refuses o) :
    ∃ r w₁ tx₁ tr₁, tr = ⟨o, r⟩ :: tr₁ ∧ step cfg [] w tx o r = some (w₁, tx₁) ∧
      Leaves (sem cfg) w₁ tx₁ (k r) tr₁ w' tx' Q :=
  h.op_inv hQ ho

/-- A refusal of a request that has been careful. -/
theorem harmless_of_refused (h : Leaves (sem cfg) w tx P tr w' tx' Q)
    (hP : P.wp careful (fun _ _ => True) false) (hQ : Q.At Refuses) : Harmless w w' tr := by
  obtain ⟨o, ho, hok⟩ := h.ok (fun _ _ => trivial) hP hQ
  exact harmless_of_unseen h (after_careful (hok ho)).2

/-- The conversation is closed, and `reopen` will revive it. -/
def Revivable (db : Db) (id : Nat) : Prop :=
  ∃ c, db.conversation id = some c ∧ c.status = .closed ∧ db.activeFor c.userId = []

/-- What `reopen` answers for a row that is there. -/
theorem exec_reopen {now t : Time} {seq : Nat} {locked : Nat → Bool} {db : Db} {r : Option Nat}
    {ws : List Write} (hc : db.conversation id = some c) (hclosed : c.status = .closed)
    (h : (Stmt.reopen id t).exec now seq locked db = some (r, ws)) :
    r = if db.activeFor c.userId = [] then some c.id else none := by
  simp only [Stmt.exec, hc, revive, hclosed, true_and] at h
  split at h
  · rename_i hfree
    rw [if_pos hfree, ← (Prod.mk.inj (Option.some.inj h)).1]
  · rename_i hbusy
    rw [if_neg hbusy, ← (Prod.mk.inj (Option.some.inj h)).1]

/-- The first two operations of a revival. -/
theorem reopen_performed (hrow : w.db.conversation c.id = some c) (hclosed : c.status = .closed)
    (h : Leaves (sem cfg) w [] (Operator.reviveForOperator c >>= replyOpen cfg text operatorId) tr
      w' tx' Q) (hQ : Q.At Refuses) :
    ∃ t revived w₁ tx₁ tr₁, tr = ⟨.now, t⟩ :: ⟨.sql (.reopen c.id t), revived⟩ :: tr₁ ∧
      w₁.db = w.db ∧ revived = (if w.db.activeFor c.userId = [] then some c.id else none) ∧
      Leaves (sem cfg) w₁ tx₁ (((match revived with
        | some id => getConversation id
        | none => pure none) >>= fun
        | none => raise .superseded
        | some revived => do
          commit
          publish (.reopened revived.id)
          pure revived) >>= replyOpen cfg text operatorId) tr₁ w' tx' Q := by
  rw [Operator.reviveForOperator, if_neg (not_not.mpr hclosed)] at h
  obtain ⟨t, w₁, tx₁, tr, rfl, hs, h⟩ := performed h hQ (not_refuses nofun)
  obtain ⟨hdb₁, -, rfl⟩ := step_quiet rfl hs
  obtain ⟨revived, w₂, tx₂, tr, rfl, hs, h⟩ := performed h hQ (not_refuses nofun)
  obtain ⟨ws, hexec, -, hdb₂, -⟩ := step_sql hs
  refine ⟨t, revived, w₂, tx₂, tr, rfl, hdb₂.trans hdb₁, ?_, ?_⟩
  · rw [hdb₁] at hexec
    exact exec_reopen hrow hclosed hexec
  · cases revived with
    | none => exact h
    | some => exact h

/-- A conversation that cannot be revived is refused at once. -/
theorem superseded_harmless (hrow : w.db.conversation c.id = some c) (hclosed : c.status = .closed)
    (hbusy : w.db.activeFor c.userId ≠ [])
    (h : Leaves (sem cfg) w [] (Operator.reviveForOperator c >>= replyOpen cfg text operatorId) tr
      w' tx' Q) (hQ : Q.At Refuses) : Harmless w w' tr := by
  obtain ⟨t, revived, w₁, tx₁, tr, rfl, hdb, hrevived, h⟩ := reopen_performed hrow hclosed h hQ
  rw [if_neg hbusy] at hrevived
  subst hrevived
  have hrest : Harmless w₁ w' tr := harmless_of_refused h ⟨fun _ => rfl, nofun⟩ hQ
  exact .cons rfl nofun (.cons hdb nofun hrest)

/-- A revival is announced before anything is refused. -/
theorem revival_announced (hrow : w.db.conversation c.id = some c) (hclosed : c.status = .closed)
    (hfree : w.db.activeFor c.userId = [])
    (h : Leaves (sem cfg) w [] (Operator.reviveForOperator c >>= replyOpen cfg text operatorId) tr
      w' tx' Q) (hQ : Q.At Refuses) : ∃ x ∈ tr, ∃ n, x.1 = .publish n := by
  obtain ⟨t, revived, w₁, tx₁, tr, rfl, hdb, hrevived, h⟩ := reopen_performed hrow hclosed h hQ
  rw [if_pos hfree] at hrevived
  subst hrevived
  obtain ⟨row, w₂, tx₂, tr, rfl, hs, h⟩ := performed h hQ (not_refuses nofun)
  obtain ⟨_, hexec, -⟩ := step_sql hs
  have hfound : (w₁.db.applyAll tx₁).conversation c.id = row :=
    (Prod.mk.inj (Option.some.inj hexec)).1
  rw [Db.conversation_applyAll (hdb ▸ hrow)] at hfound
  subst hfound
  obtain ⟨_, _, _, tr, rfl, -, h⟩ := performed h hQ (not_refuses nofun)
  obtain ⟨_, _, _, tr, rfl, -, -⟩ := performed h hQ (not_refuses nofun)
  exact ⟨_, List.mem_append_right [_, _, _, _] List.mem_cons_self, _, rfl⟩

/-- What a refused request saw of the conversation. -/
theorem request_performed
    (h : Leaves (sem cfg) w [] (Operator.sendManualReply cfg id text operatorId) tr w' tx' Q)
    (hQ : Q.At Refuses) :
    ∃ w₁ tr₁, w₁.db = w.db ∧
      tr = ⟨.sql (.getConversation id), w.db.conversation id⟩ :: tr₁ ∧
      Leaves (sem cfg) w₁ [] (match w.db.conversation id with
        | none => raise .notFound
        | some c => Operator.reviveForOperator c >>= replyOpen cfg text operatorId) tr₁ w' tx' Q := by
  rw [sendManualReply_eq] at h
  obtain ⟨row, w₁, tx₁, tr, rfl, hs, h⟩ := performed h hQ (not_refuses nofun)
  obtain ⟨_, hexec, -, hdb, -, rfl⟩ := step_sql hs
  obtain ⟨rfl, rfl⟩ := Prod.mk.inj (Option.some.inj hexec)
  exact ⟨w₁, tr, hdb, rfl, h⟩

theorem revived_seen
    (h : Leaves (sem cfg) w [] (Operator.sendManualReply cfg id text operatorId) tr w' tx' Q)
    (hQ : Q.At Refuses) (hrevivable : Revivable w.db id) : ¬Harmless w w' tr := by
  obtain ⟨c, hrow, hclosed, hfree⟩ := hrevivable
  obtain ⟨w₁, tr, hdb, rfl, hrest⟩ := request_performed h hQ
  rw [hrow] at hrest
  have hrow₁ : w₁.db.conversation c.id = some c := by
    rw [hdb, Db.conversation_id hrow]
    exact hrow
  obtain ⟨x, hx, n, hn⟩ := revival_announced hrow₁ hclosed (hdb ▸ hfree) hrest hQ
  exact fun hharmless => hharmless.2 x (List.mem_cons_of_mem _ hx) n hn

theorem unrevived_harmless
    (h : Leaves (sem cfg) w [] (Operator.sendManualReply cfg id text operatorId) tr w' tx' Q)
    (hQ : Q.At Refuses) (hrevivable : ¬Revivable w.db id) : Harmless w w' tr := by
  obtain ⟨w₁, tr, hdb, rfl, hrest⟩ := request_performed h hQ
  refine .cons hdb nofun ?_
  cases hrow : w.db.conversation id with
  | none =>
    rw [hrow] at hrest
    exact harmless_of_refused hrest ⟨fun _ => rfl, nofun⟩ hQ
  | some c =>
    rw [hrow] at hrest
    by_cases hclosed : c.status = .closed
    · have hrow₁ : w₁.db.conversation c.id = some c := by
        rw [hdb, Db.conversation_id hrow]
        exact hrow
      have hbusy : w₁.db.activeFor c.userId ≠ [] := by
        rw [hdb]
        exact fun hfree => hrevivable ⟨c, hrow, hclosed, hfree⟩
      exact superseded_harmless hrow₁ hclosed hbusy hrest hQ
    · dsimp only at hrest
      rw [Operator.reviveForOperator, if_pos hclosed] at hrest
      exact harmless_of_refused hrest (replyOpen_careful cfg text operatorId c) hQ

namespace Sample

/-- A closed conversation of a customer who never wrote. -/
def closedWorld : World :=
  ⟨Db.empty.applyAll [.insertUser ⟨0, .whatsapp, "20100", some "20100", none⟩,
    .insertConversation (newConversation 1 0 .whatsapp 0), .updateConversation 1 0 (.close 0)], 1, 2⟩

end Sample

end Webhook
