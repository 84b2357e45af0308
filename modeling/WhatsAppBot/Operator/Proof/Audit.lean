import WhatsAppBot.Operator.Proof.Services
import WhatsAppBot.Webhook.Sample

/-!
# Every audit row follows its action

The audit row of a request is committed in a transaction after the action's
(`audit_follows_action`), so a failure between the two leaves an action without its row
(`unrecorded_deletion`), and no failure leaves a row without its action.
-/

set_option autoImplicit false

namespace Operator

open Lib Store Bot

variable {cfg : Config} {K : Committed → Prop} {w : AdminWorld} {s : Committed}

/-! ## The audit row -/

/-- The row the request leaves. -/
structure Records (caller : Caller) (req : Request) (operators : Auth.Accounts) (entry : AuditLog) :
    Prop where
  action : entry.action = req.action
  resourceType : entry.resourceType = resourceConversation
  resourceId : entry.resourceId = some (toString req.conversationId)
  ipAddress : entry.ipAddress = caller.ipAddress
  operator : match caller.operatorId with
    | some id => entry.operatorId = id
    | none => ∃ o, operators.lookup legacyOperatorUsername = some o ∧ entry.operatorId = o.id

theorem recordRequest_holds {caller : Caller} {req : Request} {details : List (String × Json)}
    (hw : w.committed = s) (hK : K s)
    (hrecorded : ∀ entry, Records caller req s.operators entry →
      K { s with auditLogs := s.auditLogs ++ [entry] }) :
    Holds cfg K (recordRequest caller req details) (fun _ w' _ =>
      ∃ entry, Records caller req s.operators entry ∧
        w'.committed = { s with auditLogs := s.auditLogs ++ [entry] }) w .none := by
  have hadd : ∀ resolved, (match caller.operatorId with
      | some id => resolved = id
      | none => ∃ o, s.operators.lookup legacyOperatorUsername = some o ∧ resolved = o.id) →
      let entry : AuditLog := ⟨resolved, req.action, resourceConversation,
        some (toString req.conversationId), details, caller.ipAddress⟩
      Holds cfg K (do
        addAudit entry
        if true then do
          bot commit
          pure entry
        else pure entry) (fun _ w' _ => ∃ entry, Records caller req s.operators entry ∧
          w'.committed = { s with auditLogs := s.auditLogs ++ [entry] }) w .none := by
    intro resolved hresolved entry
    have hentry : Records caller req s.operators entry := ⟨rfl, rfl, rfl, rfl, hresolved⟩
    refine holds_addAudit hw hK (holds_commit hw hK fun w₁ hw₁ => ?_)
    exact holds_ret hw₁ (hrecorded entry hentry) ⟨entry, hentry, hw₁⟩
  unfold recordRequest record
  cases hcaller : caller.operatorId with
  | some id => exact hadd id (by rw [hcaller])
  | none =>
    refine holds_getByUsername hw hK ?_
    cases ho : s.operators.lookup legacyOperatorUsername with
    | none =>
      subst hw
      exact ⟨hK, fun r => nomatch r⟩
    | some o => exact hadd o.id (by rw [hcaller]; exact ⟨o, ho, rfl⟩)

/-! ## Requests -/

/-- The request's own change of the database. -/
def Changed (caller : Caller) : Request → Db → Db → Prop
  | .delete id, db, db' => (db.conversation id).isSome ∧ db' = deleteFrom db id
  | .takeOver id operator, _, db' => Assigned id .human operator caller.operatorId db'
  | .resumeAi id, _, db' => Assigned id .bot none none db'
  | .reply id text, db, db' => Replied id text caller.operatorId db db'

/-- The change is committed, and so is its audit row. -/
def Recorded (caller : Caller) (req : Request) (s s' : Committed) : Prop :=
  Changed caller req s.db s'.db ∧ ∃ entry, Records caller req s.operators entry ∧
    s'.auditLogs = s.auditLogs ++ [entry]

/-- Nothing of the action is committed; at most its conversation was reopened. -/
def Untouched (req : Request) (s s' : Committed) : Prop :=
  Revived s.db req.conversationId s'.db ∧ s'.auditLogs = s.auditLogs

/-- Where a request can be interrupted. -/
inductive Trail (caller : Caller) (req : Request) (s s' : Committed) : Prop
  | untouched (h : Untouched req s s')
  | changed (h : Changed caller req s.db s'.db) (hlogs : s'.auditLogs = s.auditLogs)
  | recorded (h : Recorded caller req s s')

theorem act_holds {caller : Caller} {req : Request} (hw : w.committed = s) :
    Holds cfg (Trail caller req s) (act cfg caller req) (fun _ w' t' => t' = .none ∧
      ∃ db, Changed caller req s.db db ∧ w'.committed = { s with db := db }) w .none := by
  have hrevived : ∀ db, Revived s.db req.conversationId db →
      Trail caller req s { s with db := db } := fun db h => .untouched ⟨h, rfl⟩
  have hchanged : ∀ db, Changed caller req s.db db → Trail caller req s { s with db := db } :=
    fun db h => .changed h rfl
  cases req with
  | delete id =>
    refine Prog.wpc_bind (Prog.wpc_mono (deleteConversation_holds hw (hrevived s.db (.inl rfl))
      fun hc => hchanged _ ⟨hc, rfl⟩) ?_)
    rintro _ w₁ _ ⟨rfl, hc, hw₁⟩
    exact holds_ret hw₁ (hchanged _ ⟨hc, rfl⟩) ⟨rfl, _, ⟨hc, rfl⟩, hw₁⟩
  | takeOver id operator =>
    refine Prog.wpc_bind (Prog.wpc_mono (switchedMode_holds hw nofun hrevived hchanged) ?_)
    rintro c w₁ _ ⟨rfl, db, hdb, hw₁⟩
    exact holds_ret hw₁ (hchanged db hdb) ⟨rfl, db, hdb, hw₁⟩
  | resumeAi id =>
    refine Prog.wpc_bind (Prog.wpc_mono (switchedMode_holds hw (fun _ => rfl) hrevived hchanged) ?_)
    rintro c w₁ _ ⟨rfl, db, hdb, hw₁⟩
    exact holds_ret hw₁ (hchanged db hdb) ⟨rfl, db, hdb, hw₁⟩
  | reply id text =>
    refine Prog.wpc_bind (Prog.wpc_mono (sentManualReply_holds hw hrevived hchanged) ?_)
    rintro m w₁ _ ⟨rfl, db, hdb, hw₁⟩
    exact holds_ret hw₁ (hchanged db hdb) ⟨rfl, db, hdb, hw₁⟩

theorem endpoint_holds {caller : Caller} {req : Request} :
    Holds cfg (Trail caller req w.committed) (endpoint cfg caller req)
      (fun _ w' _ => Recorded caller req w.committed w'.committed) w .none := by
  refine Prog.wpc_bind (Prog.wpc_mono (act_holds rfl) ?_)
  rintro details w₁ _ ⟨rfl, db, hdb, hw₁⟩
  have hrecorded : ∀ entry, Records caller req w.operators entry →
      Recorded caller req w.committed ⟨db, w.operators, w.auditLogs ++ [entry]⟩ :=
    fun entry hentry => ⟨hdb, entry, hentry, rfl⟩
  refine Prog.wpc_bind (Prog.wpc_mono (recordRequest_holds hw₁ (.changed hdb rfl)
    fun entry hentry => .recorded (hrecorded entry hentry)) ?_)
  rintro _ w₂ _ ⟨entry, hentry, hw₂⟩
  refine holds_ret hw₂ (.recorded (hrecorded entry hentry)) ?_
  rw [hw₂]
  exact hrecorded entry hentry

/-- **An audit row is committed only after its action, and a request that returns has committed
both**, wherever the process can fail. -/
theorem audit_follows_action {cfg : Config} {caller : Caller} {req : Request} {w w' : AdminWorld}
    {t' : AdminTx} {tr : List (Obs adminSig)} {e : Ending Unit}
    (h : Exec (adminSem cfg) w .none (endpoint cfg caller req) tr e w' t') :
    (Untouched req w.committed w'.committed ∨
      (Changed caller req w.world.db w'.world.db ∧ w'.auditLogs = w.auditLogs ∧ e.Interrupted) ∨
      Recorded caller req w.committed w'.committed) ∧
    (e = .returned () → Recorded caller req w.committed w'.committed) := by
  obtain ⟨htrail, hreturned⟩ := h.of_wpc endpoint_holds
  refine ⟨?_, hreturned ()⟩
  cases htrail with
  | untouched h => exact .inl h
  | recorded h => exact .inr (.inr h)
  | changed hchanged hlogs =>
    cases e with
    | returned u => exact .inr (.inr (hreturned u rfl))
    | raised | died => exact .inr (.inl ⟨hchanged, hlogs, trivial⟩)

/-! ## A deletion -/

namespace Sample

def caller : Caller := ⟨some 7, none⟩

def db : Db := (Db.empty.insertUser ⟨0, .whatsapp, "20100", some "20100", none⟩).insertConversation
  (newConversation 1 0 .whatsapp 0)

def before : AdminWorld := ⟨⟨db, 0, 2⟩, Serial.empty, []⟩

def deleted : World := ⟨deleteFrom db 1, 0, 3⟩

def entry : AuditLog := ⟨7, actionConversationDelete, resourceConversation, some "1", [], none⟩

/-- The trace of the service. -/
def deleting : List (Obs adminSig) :=
  [⟨.inl (.sql (.getConversation 1)), db.conversation 1⟩, ⟨.inr (.deleteConversation 1), ()⟩,
    ⟨.inl .commit, ()⟩]

def recording : List (Obs adminSig) := [⟨.inr (.addAudit entry), ()⟩, ⟨.inl .commit, ()⟩]

theorem deleting_run (tr : List (Obs adminSig)) {e : Ending Unit} {w' : AdminWorld} {t' : AdminTx}
    (h : Exec (adminSem Webhook.Sample.config) ⟨deleted, Serial.empty, []⟩ .none
      (recordRequest caller (.delete 1) [] >>= fun _ => pure ()) tr e w' t') :
    Exec (adminSem Webhook.Sample.config) before .none
      (endpoint Webhook.Sample.config caller (.delete 1)) (deleting ++ tr) e w' t' :=
  .op rfl (.op rfl (.op rfl h))

theorem recording_run : Exec (adminSem Webhook.Sample.config) ⟨deleted, Serial.empty, []⟩ .none
    (recordRequest caller (.delete 1) [] >>= fun _ => pure ()) recording (.returned ())
    ⟨deleted, Serial.empty, [entry]⟩ .none :=
  .op rfl (.op rfl .ret)

end Sample

theorem audit_follows_deletion : Recorded Sample.caller (.delete 1) Sample.before.committed
    ⟨deleteFrom Sample.db 1, Serial.empty, [Sample.entry]⟩ :=
  (audit_follows_action (Sample.deleting_run _ Sample.recording_run)).2 rfl

/-- **A deletion without a trace**: the process dies between the two commits. -/
theorem unrecorded_deletion : ¬∀ (cfg : Config) (caller : Caller) (req : Request)
    (w w' : AdminWorld) (t' : AdminTx) (tr : List (Obs adminSig)) (e : Ending Unit),
    Exec (adminSem cfg) w .none (endpoint cfg caller req) tr e w' t' →
    ((∃ entry, Records caller req w.operators entry ∧ w'.auditLogs = w.auditLogs ++ [entry]) ↔
      Changed caller req w.world.db w'.world.db) := by
  intro hclaim
  have hx := hclaim Webhook.Sample.config Sample.caller (.delete 1) Sample.before _ _ _ _
    (Sample.deleting_run [] .died)
  obtain ⟨entry, -, hlogs⟩ := hx.mpr ⟨rfl, rfl⟩
  cases hlogs

end Operator
