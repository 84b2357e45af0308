import WhatsAppBot.Operator.Endpoints
import WhatsAppBot.Store.Proof.Owner

/-!
# The services of the admin endpoints, wherever they are interrupted

`Holds cfg K P Q w t`: `P` leaves the committed tables in `K` wherever it is interrupted, and
returns in `Q`. For each service, what it has committed when it returns, and which tables have to
satisfy `K` on the way: those before it, those with its conversation reopened (`Revived`), and those
after its own commit (`Assigned`, `Replied`, `deleteFrom`).
-/

set_option autoImplicit false

namespace Operator

open Lib Store Bot

variable {α β : Type}

/-! ## The services and what they return -/

theorem raise_bind (e : Exn) (f : α → BotM β) : (raise e : BotM α) >>= f = raise e :=
  congrArg (Prog.op (S := botSig) (Op.raise e)) (funext nofun)

/-- The takeover and the resume are those of the system, with their row. -/
theorem switchMode_eq_switched (conversationId : Nat) (mode : Mode) (operator : Option String)
    (reason : String) (operatorId : Option Nat) :
    switchMode conversationId mode operator reason operatorId =
      switchedMode conversationId mode operator reason operatorId >>= fun _ => pure () := by
  unfold switchMode switchedMode
  rw [Prog.bind_assoc]
  congr 1
  funext c
  cases c with
  | none => exact (raise_bind _ _).symm
  | some c =>
    simp only [Prog.bind_assoc]
    congr 1
    funext c
    congr 1
    funext c
    congr 1
    funext _
    congr 1
    funext _
    congr 1
    funext c
    cases c with
    | none => exact (raise_bind _ _).symm
    | some c => rfl

theorem deliverReply_eq_delivered (cfg : Config) (c : Conversation) (recipient text : String)
    (operatorId : Option Nat) : deliverReply cfg c recipient text operatorId =
      deliveredReply cfg c recipient text operatorId >>= fun _ => pure () := by
  unfold deliverReply deliveredReply
  rw [Prog.bind_assoc]
  congr 1
  funext wire
  cases wire.result with
  | failed | broken => exact (raise_bind _ _).symm
  | sent id => simp only [Prog.bind_assoc]; rfl

theorem sendManualReply_eq_sent (cfg : Config) (conversationId : Nat) (text : String)
    (operatorId : Option Nat) : sendManualReply cfg conversationId text operatorId =
      sentManualReply cfg conversationId text operatorId >>= fun _ => pure () := by
  unfold sendManualReply sentManualReply
  rw [Prog.bind_assoc]
  congr 1
  funext c
  cases c with
  | none => exact (raise_bind _ _).symm
  | some c =>
    dsimp only
    rw [Prog.bind_assoc]
    congr 1
    funext c
    rw [Prog.bind_assoc]
    congr 1
    funext user
    cases user with
    | none => exact (raise_bind _ _).symm
    | some user =>
      dsimp only
      cases user.recipientId with
      | none => exact (raise_bind _ _).symm
      | some recipient =>
        dsimp only
        split
        · exact (raise_bind _ _).symm
        · rw [Prog.bind_assoc]
          congr 1
          funext lastInbound
          cases lastInbound with
          | none => exact (raise_bind _ _).symm
          | some t =>
            dsimp only
            rw [Prog.bind_assoc]
            congr 1
            funext moment
            split
            · exact (raise_bind _ _).symm
            · exact deliverReply_eq_delivered ..

/-! ## The committed tables -/

structure Committed where
  db : Db
  operators : Auth.Accounts
  auditLogs : List AuditLog

def AdminWorld.committed (w : AdminWorld) : Committed := ⟨w.world.db, w.operators, w.auditLogs⟩

/-- What a commit makes of them. -/
def Committed.apply (s : Committed) (t : AdminTx) : Committed :=
  ⟨t.deleted.foldl deleteFrom (s.db.applyAll t.tx), s.operators, s.auditLogs ++ t.audits⟩

/-- A transaction that neither deletes nor records. -/
theorem Committed.apply_tx (s : Committed) (tx : Tx) :
    s.apply ⟨tx, [], []⟩ = { s with db := s.db.applyAll tx } := by
  simp [apply]

variable {cfg : Config} {K : Committed → Prop} {Q : α → AdminWorld → AdminTx → Prop}
  {w : AdminWorld} {t : AdminTx} {s : Committed}

/-- `wpc` with a crash condition on the committed tables. -/
abbrev Holds (cfg : Config) (K : Committed → Prop) (P : AdminM α)
    (Q : α → AdminWorld → AdminTx → Prop) (w : AdminWorld) (t : AdminTx) : Prop :=
  P.wpc (adminSem cfg) (fun w => K w.committed) Q w t

/-- A service's next call, and the rest of it. -/
theorem holds_bind {P : BotM β} {f : β → BotM α} {R : β → AdminWorld → AdminTx → Prop}
    (hP : Holds cfg K (bot P) R w t) (hf : ∀ x w t, R x w t → Holds cfg K (bot (f x)) Q w t) :
    Holds cfg K (bot (P >>= f)) Q w t := by
  rw [bot, Prog.inl_bind]
  exact Prog.wpc_bind (Prog.wpc_mono hP hf)

section

variable (hw : w.committed = s) (hK : K s)

include hw hK

theorem holds_ret {a : α} (h : Q a w t) : Holds cfg K (.ret a) Q w t := by
  subst hw
  exact ⟨hK, h⟩

theorem holds_sql {q : Stmt} {k : q.Resp → AdminM α}
    (h : ∀ r ws w', q.exec w.world.clock w.world.seq (lockedBy []) (s.db.applyAll t.tx) =
      some (r, ws) → w'.committed = s → Holds cfg K (k r) Q w' { t with tx := t.tx ++ ws }) :
    Holds cfg K (.op (S := adminSig) (.inl (.sql q)) k) Q w t := by
  subst hw
  refine ⟨hK, fun r w' t' hs => ?_⟩
  obtain ⟨⟨world, tx⟩, hstep, heq⟩ := Option.map_eq_some_iff.mp hs
  obtain ⟨ws, hexec, -, hdb, -, rfl⟩ := step_sql hstep
  obtain ⟨rfl, rfl⟩ := Prod.mk.inj heq
  refine h r ws _ hexec ?_
  rw [AdminWorld.committed, hdb]
  rfl

theorem holds_quiet {o : Op} (ho : o.isQuiet = true) {k : o.Resp → AdminM α}
    (h : ∀ r w', w'.committed = s → Holds cfg K (k r) Q w' t) :
    Holds cfg K (.op (S := adminSig) (.inl o) k) Q w t := by
  subst hw
  refine ⟨hK, fun r w' t' hs => ?_⟩
  have hstep : (Bot.step cfg ([].map AdminTx.tx) w.world t.tx o r).map (fun x =>
      (({ w with world := x.1 }, { t with tx := x.2 }) : AdminWorld × AdminTx)) =
        some (w', t') := by
    cases o with
    | sql | commit | rollback => cases ho
    | _ => exact hs
  obtain ⟨⟨world, tx⟩, hstep, heq⟩ := Option.map_eq_some_iff.mp hstep
  obtain ⟨hdb, -, rfl⟩ := step_quiet ho hstep
  obtain ⟨rfl, rfl⟩ := Prod.mk.inj heq
  refine h r _ ?_
  rw [AdminWorld.committed, hdb]
  rfl

theorem holds_commit {k : Unit → AdminM α}
    (h : ∀ w', w'.committed = s.apply t → Holds cfg K (k ()) Q w' .none) :
    Holds cfg K (.op (S := adminSig) (.inl .commit) k) Q w t := by
  subst hw
  refine ⟨hK, fun r w' t' hs => ?_⟩
  obtain ⟨rfl, rfl⟩ := Prod.mk.inj (Option.some.inj hs)
  exact h _ rfl

theorem holds_raise {e : Exn} : Holds cfg K (bot (raise e) : AdminM α) Q w t := by
  subst hw
  exact ⟨hK, fun r => nomatch r⟩

theorem holds_deleteRow {id : Nat} {f : Unit → AdminM α}
    (h : Holds cfg K (f ()) Q w { t with deleted := t.deleted ++ [id] }) :
    Holds cfg K (deleteRow id >>= f) Q w t := by
  subst hw
  refine ⟨hK, fun r w' t' hs => ?_⟩
  obtain ⟨rfl, rfl⟩ := Prod.mk.inj (Option.some.inj hs)
  exact h

theorem holds_addAudit {entry : AuditLog} {f : Unit → AdminM α}
    (h : Holds cfg K (f ()) Q w { t with audits := t.audits ++ [entry] }) :
    Holds cfg K (addAudit entry >>= f) Q w t := by
  subst hw
  refine ⟨hK, fun r w' t' hs => ?_⟩
  obtain ⟨rfl, rfl⟩ := Prod.mk.inj (Option.some.inj hs)
  exact h

theorem holds_getByUsername {username : String} {f : Option Auth.Operator → AdminM α}
    (h : Holds cfg K (f (s.operators.lookup username)) Q w t) :
    Holds cfg K (getByUsername username >>= f) Q w t := by
  subst hw
  refine ⟨hK, fun r w' t' hs => ?_⟩
  simp only [adminSem, adminStep] at hs
  split at hs
  · rename_i hr
    subst hr
    obtain ⟨rfl, rfl⟩ := Prod.mk.inj (Option.some.inj hs)
    exact h
  · cases hs

/-! The calls of a service. -/

theorem bot_sql {q : Stmt} {f : q.Resp → BotM α}
    (h : ∀ r ws w', q.exec w.world.clock w.world.seq (lockedBy []) (s.db.applyAll t.tx) =
      some (r, ws) → w'.committed = s → Holds cfg K (bot (f r)) Q w' { t with tx := t.tx ++ ws }) :
    Holds cfg K (bot (sql q >>= f)) Q w t := holds_sql hw hK h

theorem bot_exec {q : Stmt} {f : Unit → BotM α}
    (h : ∀ r ws w', q.exec w.world.clock w.world.seq (lockedBy []) (s.db.applyAll t.tx) =
      some (r, ws) → w'.committed = s → Holds cfg K (bot (f ())) Q w' { t with tx := t.tx ++ ws }) :
    Holds cfg K (bot (exec q >>= f)) Q w t := holds_sql hw hK h

theorem bot_call {o : Op} (ho : o.isQuiet = true) {f : o.Resp → BotM α}
    (h : ∀ r w', w'.committed = s → Holds cfg K (bot (f r)) Q w' t) :
    Holds cfg K (bot (Prog.call (S := botSig) o >>= f)) Q w t := holds_quiet hw hK ho h

/-- A query whose answer does not matter. -/
theorem bot_read {q : Stmt} {f : q.Resp → BotM α}
    (hread : ∀ now seq locked db r ws, q.exec now seq locked db = some (r, ws) → ws = [])
    (h : ∀ r w', w'.committed = s → Holds cfg K (bot (f r)) Q w' t) :
    Holds cfg K (bot (sql q >>= f)) Q w t := by
  refine bot_sql hw hK fun r ws w' hexec hw' => ?_
  obtain rfl := hread _ _ _ _ _ _ hexec
  have := h r w' hw'
  rwa [List.append_nil]

theorem bot_commit {f : Unit → BotM α}
    (h : ∀ w', w'.committed = s.apply t → Holds cfg K (bot (f ())) Q w' .none) :
    Holds cfg K (bot (commit >>= f)) Q w t := holds_commit hw hK h

theorem bot_getConversation {id : Nat} {f : Option Conversation → BotM α}
    (h : ∀ w', w'.committed = s →
      Holds cfg K (bot (f ((s.db.applyAll t.tx).conversation id))) Q w' t) :
    Holds cfg K (bot (getConversation id >>= f)) Q w t := by
  refine bot_sql hw hK fun r ws w' hexec hw' => ?_
  obtain ⟨rfl, rfl⟩ := Prod.mk.inj (Option.some.inj hexec)
  have := h w' hw'
  rwa [List.append_nil]

end

/-! ## The services -/

/-- Unchanged, or with a closed conversation reopened. -/
def Revived (db : Db) (id : Nat) (db' : Db) : Prop :=
  db' = db ∨ ∃ c at', db.conversation id = some c ∧ c.status = .closed ∧
    db' = db.updateConversation id (.revive at')

theorem conversation_apply_update {db : Db} {c : Conversation} (hc : db.conversation c.id = some c)
    (u : ConversationUpdate) (userId : Nat) :
    (db.applyAll [.updateConversation c.id userId u]).conversation c.id = some (u.apply c) := by
  rw [Db.conversation_applyAll hc]
  simp [Tx.on, Write.on]

/-- A closed conversation is reopened in a transaction of its own. -/
theorem reviveForOperator_holds {c : Conversation} (hw : w.committed = s)
    (hc : s.db.conversation c.id = some c) (hK : K s)
    (hrevived : ∀ db, Revived s.db c.id db → K { s with db := db }) :
    Holds cfg K (bot (reviveForOperator c)) (fun d w' t' => t' = .none ∧ d.id = c.id ∧
      ∃ db, Revived s.db c.id db ∧ w'.committed = { s with db := db } ∧
        db.conversation d.id = some d) w .none := by
  unfold reviveForOperator reopenRow
  split
  · exact holds_ret hw hK ⟨rfl, rfl, s.db, .inl rfl, hw, hc⟩
  · rename_i hclosed
    have hreopen : Holds cfg K (bot (reopenRow c.id)) (fun x w' t' => w'.committed = s ∧
        (x = none ∨ ∃ tx d, t' = ⟨tx, [], []⟩ ∧ x = some d ∧ d.id = c.id ∧
          (s.db.applyAll tx).conversation c.id = some d ∧
          Revived s.db c.id (s.db.applyAll tx))) w .none := by
      refine bot_call hw hK rfl fun revivedAt w₁ hw₁ =>
        bot_sql hw₁ hK fun r ws w₂ hexec hw₂ => ?_
      have hexec : some (revive s.db c revivedAt) = some (r, ws) := by
        have hfound : (s.db.applyAll AdminTx.none.tx).conversation c.id = some c := hc
        simp only [Stmt.exec, hfound] at hexec
        exact hexec
      unfold revive at hexec
      split at hexec
      · obtain ⟨rfl, rfl⟩ := Prod.mk.inj (Option.some.inj hexec)
        have hrow := conversation_apply_update hc (.revive revivedAt) c.userId
        refine holds_sql hw₂ hK fun x ws w₃ hexec hw₃ => holds_ret hw₃ hK ⟨hw₃, .inr ?_⟩
        obtain ⟨rfl, rfl⟩ := Prod.mk.inj (Option.some.inj hexec)
        refine ⟨_, _, rfl, hrow, rfl, hrow, .inr ⟨c, revivedAt, hc, not_not.mp hclosed, rfl⟩⟩
      · obtain ⟨rfl, rfl⟩ := Prod.mk.inj (Option.some.inj hexec)
        exact holds_ret hw₂ hK ⟨hw₂, .inl rfl⟩
    refine holds_bind hreopen ?_
    rintro x w₁ t₁ ⟨hw₁, rfl | ⟨tx, d, rfl, rfl, hid, hrow, hdb⟩⟩
    · exact holds_raise hw₁ hK
    · refine bot_commit hw₁ hK fun w₂ hw₂ => ?_
      rw [Committed.apply_tx] at hw₂
      refine bot_call hw₂ (hrevived _ hdb) rfl fun _ w₃ hw₃ => ?_
      exact holds_ret hw₃ (hrevived _ hdb) ⟨rfl, hid, _, hdb, hw₃, hid ▸ hrow⟩

/-- The row after a flush. -/
theorem conversation_flush {db : Db} {c : Conversation} {p : ModePatch} {now : Time} {seq : Nat}
    {locked : Nat → Bool} {r : Unit} {ws : Tx} (hc : db.conversation c.id = some c)
    (h : (Stmt.flushMode c.id p).exec now seq locked db = some (r, ws)) :
    (db.applyAll ws).conversation c.id = some (ConversationUpdate.apply c (.setMode p)) := by
  obtain ⟨-, rfl⟩ := Prod.mk.inj (Option.some.inj h)
  split
  · rename_i hempty
    obtain rfl := of_decide_eq_true hempty
    exact hc
  · rw [updateRow, hc]
    exact conversation_apply_update hc _ _

/-- The open transaction has left the row as `d`. -/
def Pending (s : Committed) (d : Conversation) (w : AdminWorld) (t : AdminTx) : Prop :=
  w.committed = s ∧ ∃ tx, t = ⟨tx, [], []⟩ ∧ (s.db.applyAll tx).conversation d.id = some d

theorem flushMode_holds {c : Conversation} {p : ModePatch} (h : Pending s c w t) (hK : K s) :
    Holds cfg K (bot (exec (.flushMode c.id p)))
      (fun _ => Pending s (ConversationUpdate.apply c (.setMode p))) w t := by
  obtain ⟨hw, tx, rfl, hc⟩ := h
  refine bot_sql hw hK fun r ws w' hexec hw' => holds_ret hw' hK ⟨hw', tx ++ ws, rfl, ?_⟩
  rw [Db.applyAll_append, ConversationUpdate.apply_id]
  exact conversation_flush hc hexec

theorem setMode_holds {c : Conversation} {mode : Mode} {operator : Option String}
    (h : Pending s c w t) (hK : K s) (hbot : mode = .bot → operator = none) :
    Holds cfg K (bot (Chat.setMode c mode operator none)) (fun d w' t' => Pending s d w' t' ∧
      d.id = c.id ∧ d.mode = mode ∧ d.assignedOperator = operator) w t := by
  have hpatch : ∀ (operator : Option String) (handoffAt : Option Time) (activity : Time),
      let d := ConversationUpdate.apply c
        (.setMode (Chat.modePatch c mode operator none handoffAt activity))
      d.id = c.id ∧ d.mode = mode ∧ d.assignedOperator = operator := by
    intro operator handoffAt activity
    refine ⟨rfl, ?_, ?_⟩ <;> simp only [ConversationUpdate.apply, Chat.modePatch] <;> split <;>
      simp_all
  cases mode with
  | human =>
    refine bot_call h.1 hK rfl fun handoffAt w₁ hw₁ =>
      bot_call hw₁ hK rfl fun activity w₂ hw₂ =>
        holds_bind (flushMode_holds ⟨hw₂, h.2⟩ hK) ?_
    intro _ w₃ t₃ hpending
    exact holds_ret hpending.1 hK ⟨hpending, hpatch ..⟩
  | bot =>
    obtain rfl := hbot rfl
    refine bot_call h.1 hK rfl fun activity w₁ hw₁ =>
      holds_bind (flushMode_holds ⟨hw₁, h.2⟩ hK) ?_
    intro _ w₂ t₂ hpending
    exact holds_ret hpending.1 hK ⟨hpending, hpatch ..⟩

theorem assignOperator_holds {c : Conversation} {operatorId : Option Nat}
    (h : Pending s c w t) (hK : K s) : Holds cfg K (bot (assignOperator c operatorId))
      (fun _ => Pending s { c with assignedOperatorId := operatorId }) w t := by
  unfold assignOperator
  split
  · rename_i heq
    subst heq
    exact holds_ret h.1 hK h
  · exact flushMode_holds h hK

/-- The owner an action gives its conversation. -/
def Assigned (id : Nat) (mode : Mode) (operator : Option String) (operatorId : Option Nat)
    (db : Db) : Prop :=
  ∃ c, db.conversation id = some c ∧ c.mode = mode ∧ c.assignedOperator = operator ∧
    c.assignedOperatorId = operatorId

theorem switchedMode_holds {id : Nat} {mode : Mode} {operator : Option String} {reason : String}
    {operatorId : Option Nat} (hw : w.committed = s) (hbot : mode = .bot → operator = none)
    (hrevived : ∀ db, Revived s.db id db → K { s with db := db })
    (hassigned : ∀ db, Assigned id mode operator operatorId db → K { s with db := db }) :
    Holds cfg K (bot (switchedMode id mode operator reason operatorId))
      (fun _ w' t' => t' = .none ∧
        ∃ db, Assigned id mode operator operatorId db ∧ w'.committed = { s with db := db })
      w .none := by
  have hK : K s := hrevived s.db (.inl rfl)
  refine bot_getConversation hw hK fun w₁ hw₁ => ?_
  cases hc : (s.db.applyAll AdminTx.none.tx).conversation id with
  | none => exact holds_raise hw₁ hK
  | some c =>
    replace hc : s.db.conversation id = some c := hc
    obtain rfl : c.id = id := (Lib.Table.find_some hc).2
    refine holds_bind (reviveForOperator_holds hw₁ hc hK hrevived) ?_
    rintro d w₂ _ ⟨rfl, hid, db, hdb, hw₂, hd⟩
    have hK₂ := hrevived db hdb
    refine holds_bind (setMode_holds ⟨hw₂, [], rfl, hd⟩ hK₂ hbot) ?_
    rintro e w₃ t₃ ⟨hpending, heid, hmode, hoperator⟩
    refine holds_bind (assignOperator_holds hpending hK₂) ?_
    rintro _ w₄ t₄ ⟨hw₄, tx, rfl, hrow⟩
    refine bot_commit hw₄ hK₂ fun w₅ hw₅ => ?_
    rw [Committed.apply_tx] at hw₅
    have heq : e.id = c.id := heid.trans hid
    have hdone : Assigned c.id mode operator operatorId (db.applyAll tx) :=
      ⟨{ e with assignedOperatorId := operatorId }, by rw [← heq]; exact hrow, hmode, hoperator,
        rfl⟩
    refine bot_getConversation hw₅ (hassigned _ hdone) fun w₆ hw₆ => ?_
    cases (Db.applyAll (db.applyAll tx) AdminTx.none.tx).conversation e.id with
    | none => exact holds_raise hw₆ (hassigned _ hdone)
    | some x =>
      refine bot_call hw₆ (hassigned _ hdone) rfl fun _ w₇ hw₇ => ?_
      exact holds_ret hw₇ (hassigned _ hdone) ⟨rfl, _, hdone, hw₇⟩

/-- One more message, the operator's reply. -/
def Replied (id : Nat) (text : String) (operatorId : Option Nat) (db db' : Db) : Prop :=
  db'.messages.length = db.messages.length + 1 ∧
    ∃ m ∈ db'.messages, m.conversationId = id ∧ m.direction = .outbound ∧ m.content = some text ∧
      m.status = some statusSent ∧ m.operatorId = operatorId

/-- The writes of a reply: its row, whose it is, and the idle timer. -/
theorem replied_writes {db : Db} {id seq : Nat} {text : String} {wireId : Option String}
    {operatorId : Option Nat} {now : Time} {tx touches : Tx}
    (htx : tx = [.insertMessage ⟨seq, id, wireId, none, .outbound, "text", some text, none,
      some statusSent, none, now⟩, .updateMessage seq (.setOperator operatorId)] ++ touches)
    (htouches : ∀ v ∈ touches, ∃ id userId u, v = .updateConversation id userId u) :
    Replied id text operatorId db (db.applyAll tx) := by
  subst htx
  have hmessages : ∀ db : Db, (db.applyAll touches).messages = db.messages := by
    clear db
    induction touches with
    | nil => exact fun _ => rfl
    | cons v touches ih =>
      intro db
      obtain ⟨i, userId, u, rfl⟩ := htouches _ List.mem_cons_self
      exact ih (fun v hv => htouches v (List.mem_cons_of_mem _ hv)) (db.updateConversation i u)
  unfold Replied
  rw [Db.applyAll_append, hmessages]
  simp only [Db.applyAll, List.foldl_cons, List.foldl_nil, Db.apply, Db.updateMessage,
    Db.insertMessage, List.length_map, List.length_append, List.length_singleton, true_and]
  exact ⟨_, List.mem_map_of_mem (List.mem_append_right _ (List.mem_singleton.mpr rfl)),
    by simp [MessageUpdate.apply]⟩

theorem create_writes {db : Db} {conversationId seq messageId : Nat} {content status : String}
    {waMessageId : Option String} {now : Time} {locked : Nat → Bool} {ws : Tx}
    (h : (Stmt.create conversationId content waMessageId status).exec now seq locked db =
      some (messageId, ws)) :
    messageId = seq ∧ ws = [.insertMessage ⟨seq, conversationId, waMessageId, none, .outbound,
      "text", some content, none, some status, none, now⟩] := by
  simp only [Stmt.exec] at h
  split at h
  · cases h
  · split at h
    · obtain ⟨rfl, rfl⟩ := Prod.mk.inj (Option.some.inj h)
      exact ⟨rfl, rfl⟩
    · cases h

section

variable {id : Nat} {text : String} {operatorId : Option Nat} (hw : w.committed = s) (hK : K s)
  (hreplied : ∀ db, Replied id text operatorId s.db db → K { s with db := db })

include hw hK hreplied

/-- The end of a reply. -/
theorem committedReply_holds {tx : Tx} {m : SentReply}
    (hdone : Replied id text operatorId s.db (s.db.applyAll tx)) :
    Holds cfg K (bot (do
        commit
        publish (.activity id false)
        pure m))
      (fun _ w' t' => t' = .none ∧
        ∃ db, Replied id text operatorId s.db db ∧ w'.committed = { s with db := db })
      w ⟨tx, [], []⟩ := by
  refine bot_commit hw hK fun w₁ hw₁ => ?_
  rw [Committed.apply_tx] at hw₁
  refine bot_call hw₁ (hreplied _ hdone) rfl fun _ w₂ hw₂ => ?_
  exact holds_ret hw₂ (hreplied _ hdone) ⟨rfl, _, hdone, hw₂⟩

theorem deliveredReply_holds {c : Conversation} {recipient : String} (hid : c.id = id) :
    Holds cfg K (bot (deliveredReply cfg c recipient text operatorId))
      (fun _ w' t' => t' = .none ∧
        ∃ db, Replied id text operatorId s.db db ∧ w'.committed = { s with db := db })
      w .none := by
  subst hid
  refine bot_call hw hK rfl fun wire w₁ hw₁ => ?_
  cases wire.result with
  | failed | broken => exact holds_raise hw₁ hK
  | sent wireId =>
    refine bot_sql hw₁ hK fun messageId ws w₂ hcreate hw₂ => ?_
    obtain ⟨rfl, rfl⟩ := create_writes hcreate
    refine bot_exec hw₂ hK fun _ ws w₃ hset hw₃ => ?_
    obtain ⟨-, rfl⟩ := Prod.mk.inj (Option.some.inj hset)
    change Holds cfg K _ _ w₃ ⟨[_, _], [], []⟩
    unfold when
    split
    · refine bot_call hw₃ hK rfl fun moment w₄ hw₄ => ?_
      refine bot_exec hw₄ hK fun _ ws w₅ htouch hw₅ => ?_
      refine committedReply_holds hw₅ hK hreplied (replied_writes rfl ?_)
      obtain ⟨-, rfl⟩ := Prod.mk.inj (Option.some.inj htouch)
      intro v hv
      unfold updateRow at hv
      split at hv
      · exact ⟨_, _, _, List.mem_singleton.mp hv⟩
      · cases hv
    · exact committedReply_holds hw₃ hK hreplied
        (replied_writes (List.append_nil _).symm fun _ hv => absurd hv List.not_mem_nil)

end

theorem Revived.messages {db db' : Db} {id : Nat} (h : Revived db id db') :
    db'.messages = db.messages := by
  obtain rfl | ⟨_, _, -, -, rfl⟩ := h
  · rfl
  · rfl

theorem sentManualReply_holds {id : Nat} {text : String} {operatorId : Option Nat}
    (hw : w.committed = s) (hrevived : ∀ db, Revived s.db id db → K { s with db := db })
    (hreplied : ∀ db, Replied id text operatorId s.db db → K { s with db := db }) :
    Holds cfg K (bot (sentManualReply cfg id text operatorId))
      (fun _ w' t' => t' = .none ∧
        ∃ db, Replied id text operatorId s.db db ∧ w'.committed = { s with db := db })
      w .none := by
  have hK : K s := hrevived s.db (.inl rfl)
  refine bot_getConversation hw hK fun w₁ hw₁ => ?_
  cases hc : (s.db.applyAll AdminTx.none.tx).conversation id with
  | none => exact holds_raise hw₁ hK
  | some c =>
    replace hc : s.db.conversation id = some c := hc
    obtain rfl : c.id = id := (Lib.Table.find_some hc).2
    refine holds_bind (reviveForOperator_holds hw₁ hc hK hrevived) ?_
    rintro d w₂ _ ⟨rfl, hid, db, hdb, hw₂, -⟩
    have hK₂ := hrevived db hdb
    have hsame : ∀ db', Replied c.id text operatorId db db' =
        Replied c.id text operatorId s.db db' := by
      intro db'
      rw [Replied, Replied, hdb.messages]
    refine bot_read hw₂ hK₂ ?_ fun user w₃ hw₃ => ?_
    · rintro _ _ _ _ _ _ ⟨⟩
      rfl
    cases user with
    | none => exact holds_raise hw₃ hK₂
    | some user =>
      dsimp only
      cases user.recipientId with
      | none => exact holds_raise hw₃ hK₂
      | some recipient =>
        dsimp only
        split
        · exact holds_raise hw₃ hK₂
        refine bot_read hw₃ hK₂ ?_ fun lastInbound w₄ hw₄ => ?_
        · rintro _ _ _ _ _ _ ⟨⟩
          rfl
        cases lastInbound with
        | none => exact holds_raise hw₄ hK₂
        | some lastInbound =>
          refine bot_call hw₄ hK₂ rfl fun moment w₅ hw₅ => ?_
          split
          · exact holds_raise hw₅ hK₂
          · refine Prog.wpc_mono (deliveredReply_holds hw₅ hK₂
              (fun db' h => hreplied db' (hsame db' ▸ h)) hid) ?_
            rintro _ w₆ t₆ ⟨ht, db', hdb', hw₆⟩
            exact ⟨ht, db', hsame db' ▸ hdb', hw₆⟩

theorem deleteConversation_holds {id : Nat} (hw : w.committed = s) (hK : K s)
    (hdeleted : (s.db.conversation id).isSome → K { s with db := deleteFrom s.db id }) :
    Holds cfg K (deleteConversation id) (fun _ w' t' => t' = .none ∧
      (s.db.conversation id).isSome ∧ w'.committed = { s with db := deleteFrom s.db id })
      w .none := by
  have hbody : deleteConversation id = bot (getConversation id) >>= fun row =>
      row.elim (bot (raise .notFound)) fun c => deleteRow c.id >>= fun _ => bot commit := by
    refine congrArg _ (funext fun row => ?_)
    cases row <;> rfl
  rw [hbody]
  refine holds_sql hw hK fun r ws w₁ hexec hw₁ => ?_
  obtain ⟨rfl, rfl⟩ := Prod.mk.inj (Option.some.inj hexec)
  change Holds cfg K ((s.db.conversation id).elim (bot (raise .notFound)) fun c =>
    deleteRow c.id >>= fun _ => bot commit) _ w₁ .none
  cases hc : s.db.conversation id with
  | none => exact holds_raise hw₁ hK
  | some c =>
    obtain rfl : c.id = id := (Lib.Table.find_some hc).2
    have hsome : (s.db.conversation c.id).isSome := by rw [hc]; rfl
    refine holds_deleteRow hw₁ hK (holds_commit hw₁ hK fun w₂ hw₂ => ?_)
    have hw₂ : w₂.committed = { s with db := deleteFrom s.db c.id } := by
      rw [hw₂]
      simp [Committed.apply, AdminTx.none, Db.applyAll]
    exact holds_ret hw₂ (hdeleted hsome) ⟨rfl, rfl, hw₂⟩

end Operator
