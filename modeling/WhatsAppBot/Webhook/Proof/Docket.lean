import WhatsAppBot.Webhook.Proof.Ledger
import WhatsAppBot.Webhook.Proof.Parts

/-!
# The claim of one message

`docketMonitor k` follows the claim of the message `k`: a part of a delivery that carries it has
claimed it when it returns (`part_docket`), unless it is an event that was too old.
`Docket.Fits` says what that means for the rows: the claim is committed, by this process or before it.
-/

set_option autoImplicit false

namespace Webhook

open Lib Store Bot Channels Chat

/-! ## The claim of one message -/

inductive Progress where
  | none
  | pending
  | done
  deriving DecidableEq

structure Docket where
  stage : Progress
  /-- What the clock showed. -/
  seen : List Time

def docketMonitor (k : String) : Monitor botSig Docket where
  ok _ _ := True
  next a o r :=
    match o, r with
    | .sql (.claimInbound _ key _ _ _), r =>
      if key = k ∧ a.stage ≠ .done then
        { a with stage := if Option.isSome (α := Nat) r then .pending else .done }
      else a
    | .commit, _ => if a.stage = .pending then { a with stage := .done } else a
    | .rollback, _ => if a.stage = .pending then { a with stage := .none } else a
    | .now, t => { a with seen := t :: a.seen }
    | _, _ => a

/-- The message is claimed, or the clock was past `deadline` when it was looked at. -/
def Filed (deadline : Option Time) (a : Docket) : Prop :=
  a.stage = .done ∨ ∃ t ∈ a.seen, ∃ d ∈ deadline, d < t

variable {k : String} {cfg : Config} {a : Docket} {α : Type}

theorem docket_next_done {o : Op} {r : o.Resp} (h : a.stage = .done) :
    ((docketMonitor k).next a o r).stage = .done := by
  cases o with
  | sql s =>
    cases s with
    | claimInbound => exact (congrArg Docket.stage (if_neg fun hk => hk.2 h)).trans h
    | _ => exact h
  | commit | rollback =>
    have hno : a.stage ≠ .pending := by simp [h]
    exact (congrArg Docket.stage (if_neg hno)).trans h
  | _ => exact h

theorem docket_next_seen {o : Op} {r : o.Resp} {t : Time} (h : t ∈ a.seen) :
    t ∈ ((docketMonitor k).next a o r).seen := by
  cases o with
  | sql s =>
    cases s with
    | claimInbound =>
      simp only [docketMonitor]
      split <;> exact h
    | _ => exact h
  | commit | rollback =>
    simp only [docketMonitor]
    split <;> exact h
  | now => exact List.mem_cons_of_mem _ h
  | _ => exact h

/-- No program takes a claim back. -/
theorem docket_wp {P : BotM α} {deadline : Option Time} (h : Filed deadline a) :
    P.wp (docketMonitor k) (fun _ => Filed deadline) a := by
  induction P generalizing a with
  | ret x => exact h
  | op o f ih =>
    refine ⟨trivial, fun r _ => ih r ?_⟩
    rcases h with h | ⟨t, ht, hlate⟩
    · exact .inl (docket_next_done h)
    · exact .inr ⟨t, docket_next_seen ht, hlate⟩

theorem docket_any {P : BotM α} : P.wp (docketMonitor k) (fun _ _ => True) a := by
  induction P generalizing a with
  | ret x => trivial
  | op o f ih => exact ⟨trivial, fun r _ => ih r⟩

/-- What a program does before the claim does not matter. -/
theorem docket_bind {β : Type} {P : BotM α} {f : α → BotM β} {Q : β → Docket → Prop}
    (hf : ∀ x b, (f x).wp (docketMonitor k) Q b) : (P >>= f).wp (docketMonitor k) Q a := by
  rw [Prog.wp_bind]
  exact Prog.wp_mono docket_any fun x b _ => hf x b

/-- A claim of `k` that finds it stored. -/
theorem docket_duplicate {c : Nat} {type : String} {content mediaId : Option String} :
    ((docketMonitor k).next a (.sql (.claimInbound c k type content mediaId))
      (none : Option Nat)).stage = .done := by
  by_cases h : a.stage = .done
  · simp [docketMonitor, h]
  · simp [docketMonitor, h]

/-- A claim of `k` that succeeds, and its commit. -/
theorem docket_commit {c n : Nat} {type : String} {content mediaId : Option String} {b : Docket}
    (hb : b.stage = ((docketMonitor k).next a (.sql (.claimInbound c k type content mediaId))
      (some n)).stage) : ((docketMonitor k).next b .commit ()).stage = .done := by
  by_cases h : a.stage = .done <;> simp [docketMonitor, h] at hb ⊢ <;> simp [hb]

theorem touch_docket {id : Nat} {outgoing : Bool} {stage : Progress} (h : a.stage = stage) :
    (touch cfg id outgoing).wp (docketMonitor k) (fun _ b => b.stage = stage) a := by
  refine (touch_onlyTouch cfg id outgoing).wp h fun b o hb ho => ⟨trivial, fun r _ => ?_⟩
  cases o with
  | sql s => cases s <;> first | exact hb | cases ho
  | now => exact hb
  | _ => cases ho

theorem receive_docket {channel : Channel} {waId type : String} {name content mediaId : Option String} :
    (receive cfg channel waId name k type content mediaId).wp (docketMonitor k)
      (fun _ b => b.stage = .done) a := by
  refine docket_bind fun c b => Prog.wp_call_bind trivial fun r _ => ?_
  cases r with
  | none => exact Prog.wp_call_bind trivial fun _ _ => docket_next_done docket_duplicate
  | some n =>
    dsimp only
    rw [Prog.wp_bind]
    exact Prog.wp_mono (touch_docket rfl) fun _ b hb =>
      Prog.wp_call_bind trivial fun _ _ => docket_commit hb

theorem recordWithoutAnswering_docket {waId type : String} {name content : Option String} :
    (recordWithoutAnswering cfg waId name k type content).wp (docketMonitor k)
      (fun _ b => b.stage = .done) a := by
  refine docket_bind fun c b => Prog.wp_call_bind trivial fun r _ => ?_
  cases r with
  | none => exact ⟨trivial, fun _ _ => docket_next_done docket_duplicate⟩
  | some n =>
    exact Prog.wp_call_bind trivial fun _ _ => ⟨trivial, fun _ _ => docket_commit rfl⟩

/-- Every handler claims first. -/
theorem opening_docket {channel : Channel} {waId type : String} {name content mediaId : Option String}
    {f : Option Conversation → BotM Unit} {deadline : Option Time} :
    (receive cfg channel waId name k type content mediaId >>= f).wp (docketMonitor k)
      (fun _ => Filed deadline) a := by
  rw [Prog.wp_bind]
  exact Prog.wp_mono receive_docket fun r b hb => docket_wp (.inl hb)

/-! ## A part that carries the message -/

/-- The part is the message `k` of a sender. -/
def Part.Carries (k : String) : Part → Prop
  | .message _ m => (∃ waId, m.getD "from" (.str "") = some (.str waId) ∧ waId ≠ "") ∧
      m.getD "id" (.str "") = some (.str k) ∧ k ≠ ""
  | .event _ e => e.routable = true ∧ e.providerMessageId = k
  | _ => False

/-- Only an event is dropped when it is too old; a message is stored all the same. -/
def Part.deadline (cfg : Config) : Part → Option Time
  | .event _ e => if cfg.inbound.enforced then e.sentAt.map (· + cfg.inbound.inboundMaxAge) else none
  | _ => none

theorem getString_bind {j : Json} {key s : String} {f : Json → BotM α}
    (h : j.getD key (.str "") = some (.str s)) : (get j key (.str "") >>= f) = f (.str s) := by
  rw [get_bind, h]

theorem asString_bind (s : String) (f : String → BotM α) : (asString (.str s) >>= f) = f s := rfl

section

variable {contacts : Contacts} {m : Json} {waId : String}
  (hfrom : m.getD "from" (.str "") = some (.str waId)) (hid : m.getD "id" (.str "") = some (.str k))
include hfrom hid

theorem handledAsStale_docket (hwaId : waId ≠ "") (hk : k ≠ "") :
    (handledAsStale cfg m contacts).wp (docketMonitor k)
      (fun handled b => handled = true → b.stage = .done) a := by
  unfold handledAsStale
  split
  · exact nofun
  · refine docket_bind fun stale b => ?_
    split
    · rw [getString_bind hfrom, getString_bind hid]
      have hboth : (!(Json.str waId).truthy || !(Json.str k).truthy) = false := by
        simp [Json.truthy, hwaId, hk]
      rw [if_neg (by rw [hboth]; exact nofun), asString_bind, asString_bind]
      refine docket_bind fun name b => docket_bind fun type b => docket_bind fun type b =>
        docket_bind fun content b => ?_
      rw [Prog.wp_bind]
      exact Prog.wp_mono recordWithoutAnswering_docket fun _ b hb _ => hb
    · exact nofun

theorem dispatchMessage_docket {deadline : Option Time} :
    (dispatchMessage cfg m contacts).wp (docketMonitor k) (fun _ => Filed deadline) a := by
  unfold dispatchMessage
  rw [getString_bind hfrom, asString_bind, getString_bind hid, asString_bind]
  refine docket_bind fun type b => docket_bind fun type b => docket_bind fun name b => ?_
  split
  · exact docket_bind fun text b => docket_bind fun body b => docket_bind fun body b =>
      opening_docket
  split
  · exact docket_bind fun media b => docket_bind fun id b => docket_bind fun id b =>
      docket_bind fun caption b => docket_bind fun caption b => opening_docket
  split
  · refine docket_bind fun selection b => ?_
    cases selection with
    | none => exact opening_docket
    | some selection => exact opening_docket
  split
  · refine docket_bind fun button b => ?_
    split
    · exact opening_docket
    · exact opening_docket
  · exact opening_docket

theorem processMessage_docket (hwaId : waId ≠ "") (hk : k ≠ "") {deadline : Option Time} :
    (processMessage cfg contacts m).wp (docketMonitor k) (fun _ => Filed deadline) a := by
  unfold processMessage
  rw [Prog.wp_bind]
  refine Prog.wp_mono (handledAsStale_docket hfrom hid hwaId hk) fun handled b hb => ?_
  cases handled with
  | true => exact .inl (hb rfl)
  | false => exact dispatchMessage_docket hfrom hid

end

/-- An event that is dropped was looked at after its deadline. -/
theorem eventIsStale_docket (channel : Channel) (e : InboundEvent) :
    (eventIsStale cfg e).wp (docketMonitor k)
      (fun stale b => stale = true → Filed ((Part.event channel e).deadline cfg) b) a := by
  unfold eventIsStale
  split
  · exact nofun
  · rename_i henforced
    have henforced : cfg.inbound.enforced = true := by simpa using henforced
    cases hsent : e.sentAt with
    | none => exact nofun
    | some sentAt =>
      refine Prog.wp_call_bind trivial fun moment _ hstale => .inr ⟨moment, ?_, ?_⟩
      · exact List.mem_cons_self
      · refine ⟨sentAt + cfg.inbound.inboundMaxAge, ?_, ?_⟩
        · simp [Part.deadline, henforced, hsent]
        · exact Int.add_lt_of_lt_sub_left (of_decide_eq_true hstale)

theorem processEvent_docket (channel : Channel) {e : InboundEvent} (hroutable : e.routable = true) :
    (processEvent cfg channel e).wp (docketMonitor e.providerMessageId)
      (fun _ => Filed ((Part.event channel e).deadline cfg)) a := by
  unfold processEvent
  rw [Prog.wp_bind]
  refine Prog.wp_mono (eventIsStale_docket channel e) fun stale b hb => ?_
  split
  · rename_i hstale
    exact hb hstale
  · rw [Prog.wp_bind]
    refine Prog.wp_mono (Q := fun _ => Filed ((Part.event channel e).deadline cfg)) ?_
      fun _ b hb => docket_wp hb
    unfold dispatchEvent
    rw [if_neg (by rw [hroutable]; exact nofun)]
    refine docket_bind fun name b => ?_
    cases e.kind with
    | text => exact opening_docket
    | selection =>
      dsimp only
      split
      · exact opening_docket
      · exact opening_docket
    | media => exact opening_docket
    | unsupported => exact opening_docket

/-- **A part that returns has claimed the message it carries.** -/
theorem part_docket {p : Part} (hp : p.Carries k) :
    (p.run cfg).wp (docketMonitor k) (fun _ => Filed (p.deadline cfg)) a := by
  cases p with
  | message contacts m =>
    obtain ⟨⟨waId, hfrom, hwaId⟩, hid, hk⟩ := hp
    exact processMessage_docket hfrom hid hwaId hk
  | event channel e =>
    obtain ⟨hroutable, rfl⟩ := hp
    exact processEvent_docket channel hroutable
  | status | malformed => cases hp

/-- So has a list of parts. -/
theorem parts_docket {ps : List Part} {p : Part} (hmem : p ∈ ps) (hp : p.Carries k) :
    (ps.forM (Part.run cfg)).wp (docketMonitor k) (fun _ => Filed (p.deadline cfg)) a := by
  induction ps generalizing a with
  | nil => cases hmem
  | cons q ps ih =>
    rw [Prog.forM_cons, Prog.wp_bind]
    rcases List.mem_cons.mp hmem with rfl | hmem
    · exact Prog.wp_mono (part_docket hp) fun _ b hb => docket_wp hb
    · exact Prog.wp_mono docket_any fun _ b _ => ih hmem

/-! ## The claim is committed -/

theorem part_ledger (cfg : Config) (p : Part) {b : Ledger} (hb : b = .clear) :
    (p.run cfg).wp ledgerMonitor (fun _ b => b = .clear) b := by
  have hd := (delivers_ledger cfg).dispatches
  cases p with
  | message contacts m => exact hd.processMessage_wp hb contacts m
  | status s => exact hd.processStatus_wp hb s
  | event channel e => exact hd.processEvent_wp hb channel e
  | malformed => exact hd.calm_wp (only_raise rfl) hb

theorem parts_ledger (cfg : Config) (ps : List Part) {b : Ledger} (hb : b = .clear) :
    (ps.forM (Part.run cfg)).wp ledgerMonitor (fun _ b => b = .clear) b :=
  Prog.wp_forM (fun p _ _ hb => part_ledger cfg p hb) hb

/-- Every message has an id the sequence has drawn. -/
def Numbered (w : World) : Prop := ∀ m ∈ w.db.messages, m.id < w.seq

theorem numbered_empty (clock : Time) : Numbered (World.empty clock) :=
  fun _ hm => absurd hm List.not_mem_nil

/-- What the two monitors know of the process's transaction. -/
structure Docket.Fits (k : String) (a : Ledger × Docket) (w : World) (tx : Tx) : Prop where
  numbered : ∀ m ∈ (w.db.applyAll tx).messages, m.id < w.seq
  unentered : a.1.entered = false → ∀ id, tx.enters id = false
  pending : a.2.stage = .pending →
    ∃ m ∈ (w.db.applyAll tx).messages, m.waMessageId = some k ∧ a.1.reserved ≠ some m.id
  done : a.2.stage = .done → Stays k a.1 w tx
  seen : ∀ t ∈ a.2.seen, t ≤ w.clock

namespace Docket.Fits

variable {a : Ledger × Docket} {w w' : World} {tx tx' ws : Tx} {s : Stmt} {r : s.Resp}
  {locked : Nat → Bool}

theorem start (h : Numbered w) : Fits k (.clear, ⟨.none, []⟩) w [] where
  numbered := h
  unentered _ _ := rfl
  pending := nofun
  done := nofun
  seen _ ht := absurd ht List.not_mem_nil

theorem numbered_statement (h : Fits k a w tx)
    (hexec : s.exec w.clock w.seq locked (w.db.applyAll tx) = some (r, ws)) :
    ∀ m ∈ (w.db.applyAll (tx ++ ws)).messages, m.id < w.seq + 1 := by
  intro m hm
  rw [Db.applyAll_append] at hm
  rcases Db.mem_messages_applyAll.mp hm with ⟨x, hx, rfl⟩ | hm
  · rw [Tx.revise_id]
    exact Nat.lt_succ_of_lt (h.numbered x hx)
  · obtain ⟨x, hx, hid⟩ := Tx.inserted_source hm
    rw [← hid, Stmt.exec_insert_id hexec hx]
    exact Nat.lt_succ_self _

/-- A row the transaction sees stays as it is, unless the process has reserved it. -/
theorem row_statement (h : Fits k a w tx) (hok : ledgerMonitor.ok a.1 (.sql s))
    (hexec : s.exec w.clock w.seq locked (w.db.applyAll tx) = some (r, ws)) {m : Message}
    (hm : m ∈ (w.db.applyAll tx).messages) (hk : m.waMessageId = some k)
    (hreserved : a.1.reserved ≠ some m.id) :
    ∃ n ∈ (w.db.applyAll (tx ++ ws)).messages, n.waMessageId = some k ∧
      (a.1.answered s r).reserved ≠ some n.id := by
  have hlt := h.numbered m hm
  have hfree : Tx.enters ws m.id = false := by
    refine Bool.eq_false_iff.mpr fun henters => ?_
    rcases Ledger.enters hok hexec henters with hnew | hmine
    · omega
    · exact hreserved hmine
  refine ⟨Tx.revise ws m, ?_, (Tx.revise_of_not_enters hfree).trans hk, fun hanswer => ?_⟩
  · rw [Db.applyAll_append]
    exact Db.mem_messages_applyAll.mpr (.inl ⟨m, hm, rfl⟩)
  · rw [Tx.revise_id] at hanswer
    rcases Ledger.reserved_answered hexec hanswer with hold | hnew
    · exact hreserved hold
    · omega

/-- What a transaction that has entered no row sees stored is committed. -/
theorem committed (h : Fits k a w tx) (ha : a.1 = .clear)
    (hhas : (w.db.applyAll tx).hasWaMessageId k = true) : Stays k a.1 w tx := by
  have hfree := h.unentered (by rw [ha]; rfl)
  obtain ⟨m, hm, hk⟩ := List.any_eq_true.mp hhas
  have hk : m.waMessageId = some k := of_decide_eq_true hk
  rcases Db.mem_messages_applyAll.mp hm with ⟨x, hx, rfl⟩ | hm
  · rw [Tx.revise_of_not_enters (hfree x.id)] at hk
    have hlt := h.numbered _ hm
    rw [Tx.revise_id] at hlt
    exact ⟨x, hx, hk, hlt, hfree x.id, by rw [ha]; exact nofun⟩
  · exact absurd (Tx.enters_of_inserted hm) (by rw [hfree]; exact nofun)

/-- A statement, once it is known what becomes of the claim. -/
theorem statement {b : Docket} (h : Fits k a w tx)
    (hexec : s.exec w.clock w.seq locked (w.db.applyAll tx) = some (r, ws)) (hdb : w'.db = w.db)
    (hseq : w'.seq = w.seq + 1) (hclock : w.clock ≤ w'.clock) (hseen : b.seen = a.2.seen)
    (hpending : b.stage = .pending →
      ∃ m ∈ (w.db.applyAll (tx ++ ws)).messages, m.waMessageId = some k ∧
        (a.1.answered s r).reserved ≠ some m.id)
    (hdone : b.stage = .done → Stays k (a.1.answered s r) w' (tx ++ ws)) :
    Fits k (a.1.answered s r, b) w' (tx ++ ws) where
  numbered := by
    rw [hdb, hseq]
    exact h.numbered_statement hexec
  unentered hno id := by
    have hbefore : a.1.entered = false := Bool.eq_false_iff.mpr fun hyes => by
      rw [Ledger.entered_answered hyes] at hno
      cases hno
    rw [Tx.enters_append, h.unentered hbefore id, Bool.false_or]
    refine Bool.eq_false_iff.mpr fun henters => ?_
    rw [Ledger.entered_of_enters hexec henters] at hno
    cases hno
  pending hb := by
    rw [hdb]
    exact hpending hb
  done := hdone
  seen t ht := Int.le_trans (h.seen t (hseen ▸ ht)) hclock

/-- The claim of `k`. -/
theorem claim {c : Nat} {type : String} {content mediaId : Option String} {r : Option Nat}
    (h : Fits k a w tx) (hok : a.1 = .clear)
    (hstep : Bot.step cfg [] w tx (.sql (.claimInbound c k type content mediaId)) r = some (w', tx')) :
    Fits k ((ledgerMonitor.both (docketMonitor k)).next a
      (.sql (.claimInbound c k type content mediaId)) r) w' tx' := by
  have hledger : ledgerMonitor.ok a.1 (.sql (.claimInbound c k type content mediaId)) := hok
  have hstays : Stays k a.1 w tx → Stays k _ w' tx' := fun hk => hk.step hledger hstep
  obtain ⟨ws, hexec, -, hdb, hseq, rfl⟩ := step_sql hstep
  have hclock := step_clock hstep
  refine h.statement hexec hdb hseq hclock ?_ ?_ ?_
  · simp only [docketMonitor]
    split <;> rfl
  · intro hb
    cases r with
    | none =>
      rw [docket_duplicate] at hb
      cases hb
    | some n =>
      simp only [Stmt.exec] at hexec
      split at hexec
      · cases (Prod.mk.inj (Option.some.inj hexec)).1
      · split at hexec
        · obtain ⟨-, rfl⟩ := Prod.mk.inj (Option.some.inj hexec)
          rw [Db.applyAll_append]
          exact ⟨_, Db.mem_messages_applyAll.mpr (.inr List.mem_cons_self), rfl,
            by rw [hok]; exact fun hno => by cases hno⟩
        · cases hexec
  · intro hb
    cases r with
    | none =>
      simp only [Stmt.exec] at hexec
      split at hexec
      · rename_i hhas
        exact hstays (h.committed hok hhas)
      · split at hexec
        · cases (Prod.mk.inj (Option.some.inj hexec)).1
        · cases hexec
    | some n =>
      by_cases hdone : a.2.stage = .done
      · exact hstays (h.done hdone)
      · simp [docketMonitor, hdone] at hb

/-- **One operation.** -/
theorem step {o : Op} {r : o.Resp} (h : Fits k a w tx)
    (hok : (ledgerMonitor.both (docketMonitor k)).ok a o)
    (hstep : Bot.step cfg [] w tx o r = some (w', tx')) :
    Fits k ((ledgerMonitor.both (docketMonitor k)).next a o r) w' tx' := by
  have hstays : Stays k a.1 w tx → Stays k _ w' tx' := fun hk => hk.step hok.1 hstep
  have hclock := step_clock hstep
  by_cases hclaim : ∃ c type content mediaId, o = .sql (.claimInbound c k type content mediaId)
  · obtain ⟨c, type, content, mediaId, rfl⟩ := hclaim
    exact h.claim hok.1 hstep
  · cases o with
    | sql s =>
      obtain ⟨ws, hexec, -, hdb, hseq, rfl⟩ := step_sql hstep
      have hsame : (docketMonitor k).next a.2 (.sql s) r = a.2 := by
        cases s with
        | claimInbound c key type content mediaId =>
          exact if_neg fun hk => hclaim ⟨c, type, content, mediaId, by rw [hk.1]⟩
        | _ => rfl
      show Fits k (a.1.answered s r, (docketMonitor k).next a.2 (.sql s) r) w' (tx ++ ws)
      rw [hsame]
      refine h.statement hexec hdb hseq hclock rfl (fun hpending => ?_) fun hdone =>
        hstays (h.done hdone)
      obtain ⟨m, hm, hk, hreserved⟩ := h.pending hpending
      exact h.row_statement hok.1 hexec hm hk hreserved
    | commit =>
      obtain ⟨hdb, hseq, rfl⟩ := step_commit hstep
      refine ⟨?_, fun _ _ => rfl, ?_, ?_, ?_⟩
      · rw [hdb, hseq]
        exact h.numbered
      · intro hb
        simp only [Monitor.both, docketMonitor] at hb
        split at hb <;> simp_all
      · intro hb
        by_cases hpending : a.2.stage = .pending
        · obtain ⟨m, hm, hk, hreserved⟩ := h.pending hpending
          exact ⟨m, hdb ▸ hm, hk, hseq ▸ h.numbered m hm, rfl, hreserved⟩
        · refine hstays (h.done ?_)
          simpa [Monitor.both, docketMonitor, hpending] using hb
      · intro t ht
        refine Int.le_trans (h.seen t ?_) hclock
        simp only [Monitor.both, docketMonitor] at ht
        split at ht <;> exact ht
    | rollback =>
      obtain ⟨rfl, rfl⟩ := step_rollback hstep
      refine ⟨fun m hm => ?_, fun _ _ => rfl, ?_, ?_, ?_⟩
      · have hlt := h.numbered _ (Db.mem_messages_applyAll.mpr (.inl ⟨m, hm, rfl⟩))
        rwa [Tx.revise_id] at hlt
      · intro hb
        simp only [Monitor.both, docketMonitor] at hb
        split at hb <;> simp_all
      · intro hb
        refine hstays (h.done ?_)
        simp only [Monitor.both, docketMonitor] at hb
        split at hb <;> simp_all
      · intro t ht
        refine h.seen t ?_
        simp only [Monitor.both, docketMonitor] at ht
        split at ht <;> exact ht
    | now =>
      obtain ⟨hdb, hseq, rfl⟩ := step_quiet rfl hstep
      refine ⟨?_, h.unentered, ?_, fun hb => hstays (h.done hb), fun t ht => ?_⟩
      · rw [hdb, hseq]
        exact h.numbered
      · rw [hdb]
        exact h.pending
      · rcases List.mem_cons.mp ht with rfl | ht
        · obtain ⟨-, rfl, -⟩ := step_now hstep
          exact Int.le_refl _
        · exact Int.le_trans (h.seen t ht) hclock
    | raise => cases r
    | _ =>
      obtain ⟨hdb, hseq, rfl⟩ := step_quiet rfl hstep
      refine ⟨?_, h.unentered, ?_, fun hb => hstays (h.done hb), fun t ht =>
        Int.le_trans (h.seen t ht) hclock⟩
      · rw [hdb, hseq]
        exact h.numbered
      · rw [hdb]
        exact h.pending

end Docket.Fits

end Webhook
