import WhatsAppBot.Webhook.Proof.DeadSession
import WhatsAppBot.Webhook.Proof.Request

/-!
# Operators act on live conversations

An operator's request reads its conversation, revives it when it is closed and writes to it later,
in another transaction. `acts_live`: where no request reads an archived row and no close of the
conversation is committed while a request has it in hand, every commit of a request finds the
conversation active, and the only active one of its customer.
-/

set_option autoImplicit false

namespace Webhook

open Lib Store Bot Chat

variable {a : Request} {c : Nat}

/-- An operator's request about the conversation reads an archived row. -/
def readsArchived (c : Nat) : Event botSig World Tx Task → Bool
  | .op _ l _ (.sql (.getConversation _)) r _ =>
    l.target = some c ∧ Option.any (fun x : Conversation => decide (x.status = .archived)) r
  | _ => false

/-- Process `i` is an operator's request and has the conversation in hand. -/
def hasInHand (c : Nat) (s : Sys botSig World Tx Task) (i : Nat) : Bool :=
  (s.proc i).any fun p => p.label.target = some c ∧
    (track (requestMonitor c p.label) .unread i s.hist).inHand

/-- No request reads an archived row, and no close is committed while a request has the conversation
in hand. -/
def Attended (c : Nat) (s : Sys botSig World Tx Task) (e : Event botSig World Tx Task) : Prop :=
  readsArchived c e = false ∧ (closes c e = true → ∀ i < s.procs.length, hasInHand c s i = false)

instance (c : Nat) (s : Sys botSig World Tx Task) (e : Event botSig World Tx Task) :
    Decidable (Attended c s e) :=
  inferInstanceAs (Decidable (readsArchived c e = false ∧ (closes c e = true →
    ∀ i < s.procs.length, hasInHand c s i = false)))

/-- Where an operator's request commits, its conversation is the customer's only active one. -/
def actsLive (c : Nat) : Event botSig World Tx Task → Bool
  | .op _ l _ .commit _ w => l.target ≠ some c || onlyActive w.db c
  | _ => true

variable {cfg : Config} {w₀ w w' : World} {s : Sys botSig World Tx Task} {tx ws : Tx}

/-- What a request's statement writes closes nothing. -/
theorem request_spares {l : Task} {st : Stmt} {r : st.Resp} {moment : Time} {seq : Nat}
    {locked : Nat → Bool} {db : Db} (hok : (requestMonitor c l).ok a (.sql st))
    (hexec : st.exec moment seq locked db = some (r, ws)) : Kind.close ∉ Tx.kinds ws c := by
  cases st with
  | getConversation id =>
    obtain ⟨-, rfl⟩ := Prod.mk.inj (Option.some.inj hexec)
    exact List.not_mem_nil
  | reopen id t =>
    have hopened := Stmt.exec_reopen hexec
    cases r with
    | none =>
      obtain rfl : ws = [] := hopened
      exact List.not_mem_nil
    | some d =>
      obtain ⟨u, v, rfl, hv⟩ := hopened
      intro hk
      obtain ⟨x, hx, hkind⟩ := List.mem_filterMap.mp hk
      obtain rfl := List.mem_singleton.mp hx
      exact hv.keeps c hkind
  | flushMode id p => exact not_close_kinds (exec_unfiled hexec rfl) c
  | _ => exact not_close_kinds (exec_unfiled hexec hok) c

/-- **A conversation comes into an operator's hand active**, unless it is archived. -/
theorem inHand_sql {st : Stmt} {r : st.Resp} {moment : Time} {seq i : Nat} {locked : Nat → Bool}
    {l : Task} (hl : l.target = some c) (hok : (requestMonitor c l).ok a (.sql st))
    (hmay : (requestMonitor c l).may (.sql st) r)
    (hexec : st.exec moment seq locked (w.db.applyAll tx) = some (r, ws))
    (harchived : readsArchived c (.op i l tx (.sql st) r w') = false)
    (hnew : ((requestMonitor c l).next a (.sql st) r).inHand = true) :
    a.inHand = true ∨ ((w.db.applyAll tx).applyAll ws).IsActive c := by
  cases st with
  | getConversation id =>
    obtain ⟨hrow, rfl⟩ := Prod.mk.inj (Option.some.inj hexec)
    change (a.fetch r).inHand = true at hnew
    cases a with
    | unread =>
      cases r with
      | none => cases hnew
      | some x =>
        obtain ⟨-, rfl⟩ := hok.resolve_left nofun
        have hnot : x.status ≠ .archived := by simpa [readsArchived, hl] using harchived
        cases hs : x.status with
        | active => exact .inr ⟨x, hrow, hs⟩
        | closed => simp [Request.fetch, hs, Request.inHand] at hnew
        | archived => exact absurd hs hnot
    | reviving | read => exact .inl rfl
    | ended => cases r <;> cases hnew
  | reopen id t =>
    have hopened := Stmt.exec_reopen hexec
    obtain rfl := hok.2
    cases r with
    | none => exact .inl hnew
    | some d =>
      obtain rfl : d = id := hmay d rfl
      obtain ⟨u, v, rfl, hv⟩ := hopened
      exact .inr hv.active
  | flushMode id p =>
    obtain ⟨-, x, m, rfl, -⟩ := hok
    exact .inl rfl
  | _ => exact .inl hnew

/-- What a request has in hand it sees active, and it does not close it. -/
theorem attended_rely (h₀ : Sound w₀) (c : Nat) : Rely (sem cfg) (Attended c) w₀
    (fun l => l.target = some c) (requestMonitor c) .unread
    (fun _ h => ∀ e ∈ h, actsLive c e = true)
    (fun _ a w _ tx => Kind.close ∉ Tx.kinds tx c ∧
      (a.inHand = true → (w.db.applyAll tx).IsActive c)) where
  program _ hl := request_discipline cfg hl
  may := request_may
  start _ he := absurd he List.not_mem_nil
  fresh _ _ := ⟨List.not_mem_nil, nofun⟩
  quiet {e w h} he hI := by
    refine ⟨fun e' he' => ?_, fun _ _ _ hF => hF⟩
    rcases List.mem_cons.mp he' with rfl | he'
    · cases e' with
      | op => cases he
      | _ => rfl
    · exact hI e' he'
  op {s i p o k r w tx} hr hI hF hp _ hok hstep hcond := by
    have htidy := tidy h₀ hr hp
    have hmay : (requestMonitor c p.label).may o r := request_may hstep
    have hplain : actsLive c (.op i p.label p.held o r w) = true →
        ∀ e ∈ Event.op i p.label p.held o r w :: s.hist, actsLive c e = true := by
      intro he e' he'
      rcases List.mem_cons.mp he' with rfl | he'
      · exact he
      · exact hI e' he'
    have hothers : w.db = s.shared.db → ∀ j q, j ≠ i → s.proc j = some q → q.label.target = some c →
        Kind.close ∉ Tx.kinds q.held c ∧
          ((track (requestMonitor c q.label) .unread j s.hist).inHand = true →
            (w.db.applyAll q.held).IsActive c) := by
      intro hdb j q _ hq hl
      rw [hdb]
      exact hF j q hq hl
    change step cfg _ _ _ o r = _ at hstep
    cases o with
    | sql st =>
      obtain ⟨ws, hexec, -, hdb, hseq, rfl⟩ := step_sql hstep
      refine ⟨hplain rfl, fun hl => ?_, hothers hdb⟩
      obtain ⟨hclose, hactive⟩ := hF i p hp hl
      have hspares := request_spares (hok hl) hexec
      refine ⟨by rw [Tx.kinds_append, List.mem_append, not_or]; exact ⟨hclose, hspares⟩, fun hc => ?_⟩
      rw [hdb, Db.applyAll_append]
      rcases inHand_sql hl (hok hl) hmay hexec hcond.1 hc with hc | hc
      · exact (hactive hc).applyAll hspares
      · exact hc
    | commit =>
      obtain ⟨hdb, hseq, rfl⟩ := step_commit hstep
      have hhas : p.label.target = some c → w.db.IsActive c := by
        intro hl
        rw [hdb]
        refine (hF i p hp hl).2 ?_
        rcases hok hl with ⟨x, hx⟩ | ⟨x, m, hx, -⟩ <;> rw [hx] <;> rfl
      refine ⟨hplain ?_, fun hl => ⟨List.not_mem_nil, fun _ => hhas hl⟩, fun j q hj hq hl => ?_⟩
      · by_cases hl : p.label.target = some c
        · simp [actsLive,
            onlyActive_of_isActive (htidy.commit (sound h₀ hr) hdb hseq).slots (hhas hl)]
        · simp [actsLive, hl]
      · obtain ⟨hclose, hactive⟩ := hF j q hq hl
        refine ⟨hclose, fun hc => ?_⟩
        rw [hdb]
        refine (hactive hc).interfere ⟨hclose, fun d hd => ((tidy h₀ hr hq).inserts d hd).1⟩
          ⟨fun hcloses => ?_, fun d hd => (htidy.inserts d hd).1⟩
        have hno := hcond.2 (decide_eq_true hcloses) j (Sys.lt_of_proc hq)
        simp [hasInHand, hq, hl, hc] at hno
    | rollback =>
      obtain ⟨rfl, rfl⟩ := step_rollback hstep
      exact ⟨hplain rfl, fun hl => (nomatch hok hl), hothers rfl⟩
    | raise => cases r
    | _ =>
      obtain ⟨hdb, -, rfl⟩ := step_quiet rfl hstep
      refine ⟨hplain rfl, fun hl => ?_, hothers hdb⟩
      rw [hdb]
      exact hF i p hp hl

/-- **Operators act on live conversations**: every commit of an operator's request finds its
conversation active and the only one of its customer, in every run in which no request reads an
archived row and no close is committed while a request has the conversation in hand. -/
theorem acts_live (h₀ : Sound w₀) (h : Reach (sem cfg) (Attended c) w₀ s) :
    ∀ e ∈ s.hist, actsLive c e = true :=
  (h.rely (attended_rely h₀ c)).1

/-- An operator takes conversation 5 over: the request reads the row. -/
def opensRow (i : Nat) : List Sample.Action :=
  [.spawn (.takeOver 5 (some "Mona") (some 1))] ++ Sample.steps i 1 Sample.acceptedUnnamed

/-- It writes the row and commits. -/
def writesRow (i : Nat) : List Sample.Action := Sample.steps i 5 Sample.acceptedUnnamed

/-- A commit of an operator's request about the conversation. -/
def acts (c : Nat) : Event botSig World Tx Task → Bool
  | .op _ l _ .commit _ _ => l.target = some c
  | _ => false

/-- The sweep ends the session, and the operator's request revives it. -/
theorem acts_live_revived : ∃ s : Sys botSig World Tx Task,
    s.hist.countP (acts 5) = 2 ∧ ∀ e ∈ s.hist, actsLive 5 e = true := by
  obtain ⟨s, hs, hrun⟩ := Reach.exists_of_run (M := sem Sample.config) (C := Attended 5)
    (w := World.empty 0) (claimed ++ swept ++ opensRow 2 ++
      Sample.steps 2 10 Sample.acceptedUnnamed)
    (fun s => s.hist.countP (acts 5) = 2) (by decide +kernel)
  exact ⟨s, of_decide_eq_true hrun, acts_live (sound_empty 0) hs⟩

/-- A database with a conversation that the migration archived. -/
def migrated : World where
  db := Db.empty.applyAll
    [.insertUser ⟨0, .whatsapp, "20100", some "20100", none⟩,
      .insertConversation { newConversation 5 0 .whatsapp 0 with status := .archived }]
  clock := 0
  seq := 6

theorem sound_migrated : Sound migrated where
  ids c hc := by
    have hall : migrated.db.conversations.rows.all (fun c => c.id < migrated.seq) = true := rfl
    exact of_decide_eq_true (List.all_eq_true.mp hall c hc)
  slots u := by
    have hnone : migrated.db.conversations.rows.all (fun c => c.status ≠ .active) = true := rfl
    have hempty : migrated.db.activeFor u = [] := by
      refine List.filter_eq_nil_iff.mpr fun c hc hactive => ?_
      exact of_decide_eq_true (List.all_eq_true.mp hnone c hc) (of_decide_eq_true hactive).2
    rw [hempty]
    exact Nat.zero_le 1

/-- A take-over commits on a conversation that a sweep has closed since it was read, and on one that
is archived. -/
theorem acts_dead :
    (∃ s, Reach (sem Sample.config) anyStep (World.empty 0) s ∧ (∃ e ∈ s.hist, actsLive 5 e = false) ∧
      (s.shared.db.conversation 5).any (fun c => c.status = .closed ∧ c.mode = .human) = true) ∧
    Sound migrated ∧ ∃ s, Reach (sem Sample.config) anyStep migrated s ∧
      (∃ e ∈ s.hist, actsLive 5 e = false) ∧
      (s.shared.db.conversation 5).any (fun c => c.status = .archived ∧ c.mode = .human) = true := by
  obtain ⟨s, hs, hrun⟩ := Reach.exists_of_run (M := sem Sample.config) (C := anyStep)
    (w := World.empty 0) (claimed ++ opensRow 2 ++ swept ++ writesRow 2)
    (fun s => s.hist.any (fun e => !actsLive 5 e) ∧
      (s.shared.db.conversation 5).any (fun c => c.status = .closed ∧ c.mode = .human) = true)
    (by decide +kernel)
  obtain ⟨s', hs', hrun'⟩ := Reach.exists_of_run (M := sem Sample.config) (C := anyStep)
    (w := migrated) (opensRow 0 ++ writesRow 0)
    (fun s => s.hist.any (fun e => !actsLive 5 e) ∧
      (s.shared.db.conversation 5).any (fun c => c.status = .archived ∧ c.mode = .human) = true)
    (by decide +kernel)
  obtain ⟨hdead, hclosed⟩ := of_decide_eq_true hrun
  obtain ⟨hdead', harchived⟩ := of_decide_eq_true hrun'
  simp only [List.any_eq_true, Bool.not_eq_true'] at hdead hdead'
  exact ⟨⟨s, hs, hdead, hclosed⟩, sound_migrated, s', hs', hdead', harchived⟩

end Webhook
