import WhatsAppBot.Lib.Ticket
import WhatsAppBot.Webhook.Proof.Locks
import WhatsAppBot.Webhook.Proof.Sweeping

/-!
# The claim of a session

The right to end the session `c` is a `Lib.Ticket`. The claim of a sweep takes it, its commit makes
it durable, the goodbye uses it and a committed revive rearms it. `SessionClaim.Fits` ties the ticket
to every process and `SessionClaim.Holds` to the committed row; `session_claim` is the invariant.
-/

set_option autoImplicit false

namespace Webhook

open Lib Store Bot

def isGoodbye (c : Nat) : Event botSig World Tx Task → Bool
  | .op _ _ _ (.send out) _ _ => out.purpose = .closing ∧ out.conversationId = c
  | _ => false

/-- A commit of a revive of the conversation. -/
def isRevive (c : Nat) : Event botSig World Tx Task → Bool
  | .op _ _ tx .commit _ _ => (Tx.kinds tx c).contains .revive
  | _ => false

/-- A sweep was cut off between the commit of its claim and that of its close. -/
def interrupted (c : Nat) : History → Bool
  | [] => false
  | .cut i _ :: h => (track (sweepMonitor c) .idle i h).busy || interrupted c h
  | .spawn _ _ :: h | .op _ _ _ _ _ _ :: h | .finish _ _ :: h => interrupted c h

/-! ## What the tasks keep -/

section

variable {cfg : Config} {t₀ : Time} {s : Sys botSig World Tx Task} {i : Nat}
  {p : Proc botSig Tx Task}

/-- A sweep creates no conversation, and nobody else claims one. -/
def TaskKeeps (l : Task) (a : Hold) (tx : Tx) : Prop :=
  match l with
  | .sweep => ∀ d, Write.insertConversation d ∉ tx
  | _ => a.Free

theorem sweep_inserts_nothing {others : List Tx} {w w' : World} {tx tx' : Tx} {o : Op}
    {r : o.Resp} (h : step cfg others w tx o r = some (w', tx')) (ho : inSweep o = true)
    (htx : ∀ d, Write.insertConversation d ∉ tx) : ∀ d, Write.insertConversation d ∉ tx' := by
  intro d
  cases o with
  | sql s =>
    obtain ⟨ws, hexec, -, -, -, rfl⟩ := step_sql h
    rw [List.mem_append]
    rintro (hd | hd)
    · exact htx d hd
    · obtain ⟨userId, channel, rfl, -⟩ := Stmt.exec_made hexec hd
      cases ho
  | commit => rw [(step_commit h).2.2]; exact List.not_mem_nil
  | rollback => rw [(step_rollback h).2]; exact List.not_mem_nil
  | raise => cases r
  | _ => rw [(step_quiet rfl h).2.2]; exact htx d

theorem tasks_keep (h : Reach (sem cfg) anyStep (World.empty t₀) s) (c : Nat)
    (hp : s.proc i = some p) :
    TaskKeeps p.label (track (sweepMonitor c) .idle i s.hist) p.held ∧
      p.rest.Only fun o => alphabetOf p.label o = true := by
  refine h.keeps (program_only cfg) (I := TaskKeeps) (fun l => ?_)
    (@fun l _ _ _ _ _ _ _ _ h ho hk => ?_) hp
  · cases l with
    | sweep => exact fun _ => List.not_mem_nil
    | _ => exact .inl rfl
  · cases l with
    | sweep => exact sweep_inserts_nothing h ho hk
    | webhook | metaWebhook => exact (free_of_inDelivery ho hk).2 _
    | takeOver | resumeAi | manualReply => exact (free_of_inOperator ho hk).2 _

/-- A process that has the session is a sweep. -/
theorem label_of_busy (h : Reach (sem cfg) anyStep (World.empty t₀) s) {c : Nat}
    (hp : s.proc i = some p) (hb : (track (sweepMonitor c) .idle i s.hist).busy = true) :
    p.label = .sweep := by
  have hk := (tasks_keep h c hp).1
  cases hl : p.label with
  | sweep => rfl
  | _ =>
    rw [hl] at hk
    rcases (hk : Hold.Free _) with ha | ha <;> rw [ha] at hb <;> cases hb

/-- A process that claims sessions has created none. -/
theorem inserts_nothing_of_claim (h : Reach (sem cfg) anyStep (World.empty t₀) s)
    (hp : s.proc i = some p) {idleBefore moment : Time} {limit : Nat}
    {k : List Nat → BotM Unit}
    (hrest : p.rest = .op (Op.sql (.claimIdleSessions idleBefore moment limit)) k) :
    ∀ d, Write.insertConversation d ∉ p.held := by
  obtain ⟨hk, honly⟩ := tasks_keep h 0 hp
  rw [hrest] at honly
  cases hl : p.label with
  | sweep => rwa [hl] at hk
  | _ => rw [hl] at honly; cases honly.1

end

namespace SessionClaim

def mark (c : Nat) (e : Event botSig World Tx Task) : Option Mark :=
  if isGoodbye c e then some .use else if isRevive c e then some .rearm else none

def marks (c : Nat) (h : History) : List Mark := h.filterMap (mark c)

/-- The stage of the row; `lost`: the claim will never be followed by a close. -/
def stageOf (t : Ticket) (lost : Bool) : Stage :=
  match t with
  | .armed | .taken _ => .fresh
  | .owned _ | .used _ => ⟨false, true⟩
  | .spent => ⟨!lost, true⟩

structure Holds (c : Nat) (t : Ticket) (lost : Bool) (w : World) (h : History) : Prop where
  run : t.Run (marks c h)
  interrupted : Webhook.interrupted c h = lost
  spent : lost = true → t = .spent
  there : t ≠ .armed → ∃ x, w.db.conversation c = some x
  stage : ∀ x, w.db.conversation c = some x → x.stage = stageOf t lost

/-- What a process has of the ticket. -/
def Has (i : Nat) (t : Ticket) (lost : Bool) : Hold → Prop
  | .idle => t ≠ .taken i ∧ t ≠ .owned i ∧ t ≠ .used i
  | .revived => t = .spent ∧ lost = false
  | .claimed => t = .taken i
  | .holding => t = .owned i
  | .sent => t = .used i
  | .closing => t = .owned i ∨ t = .used i
  | .missed => False

structure Fits (c : Nat) (t : Ticket) (lost : Bool) (i : Nat) (a : Hold) (tx : Tx) : Prop where
  has : Has i t lost a
  kinds : ∀ k ∈ Tx.kinds tx c, a.pending = some k
  pending : a.pending ≠ none → Tx.kinds tx c ≠ []
  fresh : ∀ d, .insertConversation d ∈ tx → d.stage = .fresh

variable {c i j : Nat} {t t' : Ticket} {lost lost' : Bool} {a : Hold} {tx : Tx} {w w' : World} {h : History}

/-- Nobody has an armed or a spent ticket in hand. -/
theorem has_idle (ht : t = .armed ∨ t = .spent) : Has i t lost .idle := by
  rcases ht with rfl | rfl <;> refine ⟨?_, ?_, ?_⟩ <;> intro ht <;> cases ht

theorem Fits.nil (hhas : Has i t lost a) (ha : a.pending = none) : Fits c t lost i a [] :=
  ⟨hhas, fun _ hk => absurd hk List.not_mem_nil, fun hn => absurd ha hn,
    fun _ hd => absurd hd List.not_mem_nil⟩

/-- The process has the ticket in hand. -/
def Mine (i : Nat) (t : Ticket) : Prop := t = .taken i ∨ t = .owned i ∨ t = .used i

/-- A ticket that moves between the hands of `i` and nobody's is the same to the others. -/
theorem Fits.other (hf : Fits c t lost j a tx) (hij : j ≠ i) (ht : Mine i t ∨ t = .armed)
    (ht' : Mine i t' ∨ t' = .armed ∨ t' = .spent) : Fits c t' lost' j a tx := by
  refine ⟨?_, hf.kinds, hf.pending, hf.fresh⟩
  have hnot : ∀ u, (Mine i u ∨ u = .armed ∨ u = .spent) →
      u ≠ .taken j ∧ u ≠ .owned j ∧ u ≠ .used j := by
    rintro u ((rfl | rfl | rfl) | rfl | rfl) <;> simp [Ne.symm hij]
  have hhas := hf.has
  have hn := hnot t (ht.imp_right .inl)
  cases a with
  | idle => exact hnot t' ht'
  | revived =>
    rw [hhas.1] at ht
    rcases ht with (ht | ht | ht) | ht <;> cases ht
  | claimed => exact absurd hhas hn.1
  | holding => exact absurd hhas hn.2.1
  | sent => exact absurd hhas hn.2.2
  | closing => exact (hhas.elim hn.2.1 hn.2.2).elim
  | missed => exact hhas

theorem Fits.kinds_nil (hf : Fits c t lost i a tx) (ha : a.pending = none) : Tx.kinds tx c = [] :=
  List.eq_nil_iff_forall_not_mem.mpr fun k hk => by
    rw [hf.kinds k hk] at ha
    cases ha

/-- The process whose claim is not committed. -/
theorem Fits.of_taken (hf : Fits c (.taken i) lost i a tx) : a = .claimed := by
  have hhas := hf.has
  cases a with
  | claimed => rfl
  | idle => exact absurd rfl hhas.1
  | closing => rcases hhas with hhas | hhas <;> cases hhas
  | revived => cases hhas.1
  | _ => cases hhas

/-! ## What a transaction sees -/

theorem view_there (tx : Tx) (hI : Holds c t lost w h) (ht : t ≠ .armed) :
    ∃ x, (w.db.applyAll tx).conversation c = some x := by
  obtain ⟨x, hx⟩ := hI.there ht
  obtain ⟨y, hy, -⟩ := Db.conversation_applyAll_some hx tx
  exact ⟨y, hy⟩

/-- A transaction that left the row alone sees it as it is committed. -/
theorem view_stage (hI : Holds c t lost w h) (hf : Fits c t lost i a tx) (ha : a.pending = none) {x : Conversation}
    (hx : (w.db.applyAll tx).conversation c = some x) : x.stage = stageOf t lost := by
  have hkinds := hf.kinds_nil ha
  cases hrow : w.db.conversation c with
  | some y =>
    obtain ⟨z, hz, hstage⟩ := Db.conversation_applyAll_some hrow tx
    obtain rfl := Option.some.inj (hx ▸ hz)
    rw [hstage, hkinds]
    exact hI.stage y hrow
  | none =>
    have ht : t = .armed := by
      by_contra ht
      obtain ⟨y, hy⟩ := hI.there ht
      rw [hrow] at hy
      cases hy
    subst ht
    rcases Db.conversation_applyAll_none hrow hf.fresh hkinds with hz | ⟨z, hz, hstage⟩
    · rw [hz] at hx
      cases hx
    · rw [hx] at hz
      rw [Option.some.inj hz]
      exact hstage

/-! ## The steps -/

section

variable {stmt : Stmt} {r : stmt.Resp} {ws : List Write} {clock : Time} {seq : Nat}
  {locked : Nat → Bool} {db : Db} {b : Hold} {k : Kind}

theorem fresh_append (hexec : stmt.exec clock seq locked db = some (r, ws))
    (h : ∀ d, Write.insertConversation d ∈ tx → d.stage = .fresh) :
    ∀ d, Write.insertConversation d ∈ tx ++ ws → d.stage = .fresh := by
  intro d hd
  rcases List.mem_append.mp hd with hd | hd
  · exact h d hd
  · obtain ⟨userId, channel, -, hstatus, hclosing⟩ := Stmt.exec_made hexec hd
    simp [Conversation.stage, hstatus, hclosing, Stage.fresh]

/-- A statement that leaves the row alone. -/
theorem Fits.aside (hf : Fits c t lost i a tx) (hexec : stmt.exec clock seq locked db = some (r, ws))
    (hk : stmt.kindOn c r = none) : Fits c t lost i a (tx ++ ws) := by
  have hws : Tx.kinds ws c = [] := List.eq_nil_iff_forall_not_mem.mpr fun k hmem => by
    rw [Stmt.exec_kinds hexec k hmem] at hk
    cases hk
  refine ⟨hf.has, ?_, ?_, fresh_append hexec hf.fresh⟩ <;> rw [Tx.kinds_append, hws, List.append_nil]
  · exact hf.kinds
  · exact hf.pending

/-- A statement that does something to the row. -/
theorem Fits.append (hf : Fits c t lost i a tx) (hexec : stmt.exec clock seq locked db = some (r, ws))
    (hk : stmt.kindOn c r = some k) (hws : Tx.kinds ws c ≠ [])
    (ha : a.pending = none ∨ a.pending = some k) (hb : b.pending = some k) (hhas : Has i t' lost b) :
    Fits c t' lost i b (tx ++ ws) := by
  refine ⟨hhas, fun x hx => ?_, fun _ => ?_, fresh_append hexec hf.fresh⟩
  · rw [hb]
    rw [Tx.kinds_append, List.mem_append] at hx
    rcases hx with hx | hx
    · rcases ha with ha | ha
      · rw [hf.kinds_nil ha] at hx
        cases hx
      · exact ha.symm.trans (hf.kinds x hx)
    · exact hk.symm.trans (Stmt.exec_kinds hexec x hx)
  · rw [Tx.kinds_append]
    exact fun he => hws (List.append_eq_nil_iff.mp he).2

end

theorem marks_cons (e : Event botSig World Tx Task) :
    marks c (e :: h) = (mark c e).toList ++ marks c h := by
  unfold marks
  cases he : mark c e with
  | none => rw [List.filterMap_cons_none he]; rfl
  | some m => rw [List.filterMap_cons_some he]; rfl

section

variable {view : Nat → Hold × Tx} {l : Task} {held : Tx} {o : Op} {r : o.Resp}

/-- What an operation of process `i` has to establish. -/
def Moves (c : Nat) (view : Nat → Hold × Tx) (i : Nat) (a : Hold) (tx : Tx) (w : World)
    (h : History) : Prop :=
  ∃ t lost, Holds c t lost w h ∧ Fits c t lost i a tx ∧
    ∀ j, j ≠ i → Fits c t lost j (view j).1 (view j).2

theorem Holds.keep (hI : Holds c t lost w h) (he : mark c (.op i l held o r w') = none)
    (hw : w'.db = w.db) : Holds c t lost w' (.op i l held o r w' :: h) := by
  refine ⟨?_, hI.interrupted, hI.spent, by rw [hw]; exact hI.there, by rw [hw]; exact hI.stage⟩
  rw [marks_cons, he]
  exact hI.run

theorem Holds.not_lost (hI : Holds c t lost w h) (ht : t ≠ .spent) : lost = false := by
  cases lost with
  | false => rfl
  | true => exact absurd (hI.spent rfl) ht

/-- What the commit of a pending change leaves of the row. -/
theorem row_after {k : Kind} {stage : Stage} (hf : Fits c t lost i a tx) (ha : a.pending = some k)
    (hthere : ∃ x, w.db.conversation c = some x)
    (hstage : ∀ x, w.db.conversation c = some x → x.stage = stage) :
    ∃ x, (w.db.applyAll tx).conversation c = some x ∧ x.stage = k.act stage := by
  obtain ⟨x, hx⟩ := hthere
  obtain ⟨y, hy, hy'⟩ := Db.conversation_applyAll_some hx tx
  refine ⟨y, hy, ?_⟩
  rw [hy', hstage x hx]
  exact Stage.after_same stage (hf.pending (by rw [ha]; nofun)) fun k' hk' =>
    Option.some.inj ((hf.kinds k' hk').symm.trans ha)

theorem mark_commit {u : Unit} (hf : Fits c t lost i a tx) (ha : a.pending ≠ some .revive) :
    mark c (.op i l tx Op.commit u w') = none := by
  have hnot : Kind.revive ∉ Tx.kinds tx c := fun hr => ha (hf.kinds _ hr)
  simp [mark, isGoodbye, isRevive, hnot]

variable (hI : Holds c t lost w h) (hF : ∀ j, Fits c t lost j (view j).1 (view j).2)
include hI hF

theorem keep (he : mark c (.op i l held o r w') = none) (hw : w'.db = w.db)
    (hf : Fits c t lost i a tx) : Moves c view i a tx w' (.op i l held o r w' :: h) :=
  ⟨t, lost, hI.keep he hw, hf, fun j _ => hF j⟩

theorem claim {others : List Tx} {idleBefore moment clock : Time} {limit seq : Nat} {ids : List Nat}
    {ws : Tx} (hothers : ∀ j, j ≠ i → (view j).2 = [] ∨ (view j).2 ∈ others)
    (hno : ∀ d, Write.insertConversation d ∉ (view i).2)
    (hexec : (Stmt.claimIdleSessions idleBefore moment limit).exec clock seq (lockedBy others)
      (w.db.applyAll (view i).2) = some (ids, ws))
    (ha : (view i).1 = .idle) (hids : c ∈ ids) (hw : w'.db = w.db) :
    Moves c view i .claimed ((view i).2 ++ ws) w'
      (.op i l held (Op.sql (.claimIdleSessions idleBefore moment limit)) ids w' :: h) := by
  have hf := hF i
  obtain ⟨x, hx, hidle, hlocked, hmem⟩ := Stmt.exec_claim hexec hids
  have hstage := view_stage hI hf (by rw [ha]; rfl) hx
  rw [Db.idleCandidate_stage hidle] at hstage
  have harmed : t = .armed := by
    cases t with
    | armed => rfl
    | taken j =>
      by_cases hji : j = i
      · subst hji
        have hhas := hf.has
        rw [ha] at hhas
        exact absurd rfl hhas.1
      · -- The row is locked by the process that claimed it.
        have hkinds : Tx.kinds (view j).2 c ≠ [] := (hF j).pending (by rw [(hF j).of_taken]; nofun)
        rcases hothers j hji with hnil | hother
        · rw [hnil] at hkinds
          exact absurd rfl hkinds
        · have hheld : lockedBy others c = true :=
            List.any_eq_true.mpr ⟨_, hother, Tx.holds_of_kinds hkinds⟩
          rw [hheld] at hlocked
          cases hlocked
    | owned | used | spent => cases congrArg Stage.claimed hstage
  subst harmed
  have hthere : ∃ x, w.db.conversation c = some x := by
    cases hrow : w.db.conversation c with
    | some x => exact ⟨x, rfl⟩
    | none =>
      rw [Db.conversation_applyAll_absent hrow hno] at hx
      cases hx
  obtain rfl := hI.not_lost nofun
  refine ⟨.taken i, false, ⟨?_, hI.interrupted, nofun, fun _ => by rw [hw]; exact hthere,
    by rw [hw]; exact hI.stage⟩, ?_, fun j hj => (hF j).other hj (.inr rfl) (.inl (.inl rfl))⟩
  · rw [marks_cons]
    exact hI.run.take i
  · exact hf.append hexec (if_pos hids) (kinds_of_mem hmem rfl) (.inl (by rw [ha]; rfl)) rfl rfl

/-- A session is closed by the process that has it. -/
theorem close {moment clock : Time} {seq : Nat} {locked : Nat → Bool} {u : Unit} {ws : Tx}
    (hexec : (Stmt.close c moment).exec clock seq locked (w.db.applyAll (view i).2) = some (u, ws))
    (ha : (view i).1 = .holding ∨ (view i).1 = .sent) (hw : w'.db = w.db) :
    Moves c view i .closing ((view i).2 ++ ws) w' (.op i l held (Op.sql (.close c moment)) u w' :: h) := by
  have hf := hF i
  have hhas := hf.has
  have hpending : (view i).1.pending = none := by rcases ha with ha | ha <;> rw [ha] <;> rfl
  have ht : t = .owned i ∨ t = .used i := by
    rcases ha with ha | ha <;> rw [ha] at hhas
    · exact .inl hhas
    · exact .inr hhas
  obtain ⟨x, hx⟩ := view_there (view i).2 hI (by rcases ht with rfl | rfl <;> nofun)
  exact keep hI hF rfl hw (hf.append hexec (if_pos rfl) (Stmt.exec_close hexec hx) (.inl hpending) rfl ht)

/-- A session is revived when its ticket is spent. -/
theorem revive {stmt : Stmt} {r : stmt.Resp} {clock : Time} {seq : Nat} {locked : Nat → Bool}
    {ws : Tx} (hexec : stmt.exec clock seq locked (w.db.applyAll (view i).2) = some (r, ws))
    (hk : stmt.kindOn c r = some .revive) (ha : (view i).1.Free) (hw : w'.db = w.db) :
    Moves c view i .revived ((view i).2 ++ ws) w' (.op i l held (Op.sql stmt) r w' :: h) := by
  have hf := hF i
  have hhas := hf.has
  obtain ⟨x, hx, hclosed, hws⟩ := Stmt.exec_revive hexec hk
  have ht : t = .spent ∧ lost = false := by
    rcases ha with ha | ha
    · have hstage := congrArg Stage.closed (view_stage hI hf (by rw [ha]; rfl) hx)
      rw [show x.stage.closed = true by simp [Conversation.stage, hclosed]] at hstage
      cases t with
      | spent => exact ⟨rfl, by simpa [stageOf] using hstage⟩
      | _ => cases hstage
    · rwa [ha] at hhas
  refine keep hI hF rfl hw (hf.append hexec hk hws ?_ rfl ht)
  rcases ha with ha | ha <;> rw [ha]
  · exact .inl rfl
  · exact .inr rfl

theorem commit_aside {u : Unit} (ha : (view i).1.pending = none)
    (hw : w'.db = w.db.applyAll (view i).2) :
    Moves c view i (view i).1 [] w' (.op i l (view i).2 Op.commit u w' :: h) := by
  have hf := hF i
  refine ⟨t, lost, ⟨?_, hI.interrupted, hI.spent, fun ht => ?_, fun x hx => ?_⟩, .nil hf.has ha,
    fun j _ => hF j⟩
  · rw [marks_cons, mark_commit hf (by rw [ha]; nofun)]
    exact hI.run
  · rw [hw]
    exact view_there _ hI ht
  · rw [hw] at hx
    exact view_stage hI hf ha hx

/-- The commit of a claim, of a close or of a revive. -/
theorem commit {u : Unit}
    (hlocks : ∀ j, j ≠ i → Tx.kinds (view i).2 c ≠ [] → Tx.kinds (view j).2 c = [])
    (hw : w'.db = w.db.applyAll (view i).2) :
    Moves c view i (view i).1.commit [] w' (.op i l (view i).2 Op.commit u w' :: h) := by
  have hf := hF i
  have hhas := hf.has
  cases ha : (view i).1 with
  | idle | holding | sent =>
    have haside := commit_aside (l := l) (u := u) hI hF (by rw [ha]; rfl) hw
    rwa [ha] at haside
  | missed =>
    rw [ha] at hhas
    exact hhas.elim
  | claimed =>
    rw [ha] at hhas hf
    obtain rfl : t = .taken i := hhas
    obtain ⟨x, hx, hstage⟩ := row_after hf rfl (hI.there nofun) hI.stage
    rw [← hw] at hx
    refine ⟨.owned i, lost, ⟨?_, hI.interrupted, fun hl => absurd (hI.spent hl) nofun, fun _ => ⟨x, hx⟩,
      fun y hy => ?_⟩, .nil rfl rfl,
      fun j hj => (hF j).other hj (.inl (.inl rfl)) (.inl (.inr (.inl rfl)))⟩
    · rw [marks_cons, mark_commit hf nofun]
      exact hI.run.own
    · obtain rfl := Option.some.inj (hx.symm.trans hy)
      exact hstage
  | closing =>
    rw [ha] at hhas hf
    have hmine : Mine i t := .inr hhas
    have hopen : stageOf t lost = ⟨false, true⟩ := by rcases hhas with rfl | rfl <;> rfl
    have ht : t ≠ .armed ∧ t ≠ .spent := by rcases hhas with rfl | rfl <;> simp
    obtain rfl := hI.not_lost ht.2
    obtain ⟨x, hx, hstage⟩ := row_after hf rfl (hI.there ht.1) hI.stage
    rw [← hw] at hx
    refine ⟨.spent, false, ⟨?_, hI.interrupted, nofun, fun _ => ⟨x, hx⟩, fun y hy => ?_⟩,
      .nil (has_idle (.inr rfl)) rfl, fun j hj => (hF j).other hj (.inl hmine) (.inr (.inr rfl))⟩
    · rw [marks_cons, mark_commit hf nofun]
      rcases hhas with rfl | rfl
      · exact hI.run.waste
      · exact hI.run.release
    · obtain rfl := Option.some.inj (hx.symm.trans hy)
      rw [hstage, hopen]
      rfl
  | revived =>
    rw [ha] at hhas hf
    obtain ⟨rfl, rfl⟩ := hhas
    obtain ⟨x, hx, hstage⟩ := row_after hf rfl (hI.there nofun) hI.stage
    rw [← hw] at hx
    have hkinds := hf.pending nofun
    refine ⟨.armed, false, ⟨?_, hI.interrupted, nofun, fun ht => absurd rfl ht, fun y hy => ?_⟩,
      .nil (has_idle (.inl rfl)) rfl, fun j hj => ?_⟩
    · obtain ⟨k, hk⟩ := List.exists_mem_of_ne_nil _ hkinds
      obtain rfl := Option.some.inj (hf.kinds k hk)
      have hmark : mark c (.op i l (view i).2 Op.commit u w') = some .rearm := by
        simp [mark, isGoodbye, isRevive, hk]
      rw [marks_cons, hmark]
      exact hI.run.rearm
    · obtain rfl := Option.some.inj (hx.symm.trans hy)
      exact hstage
    · -- Nobody else has the row locked, so nobody else is about to revive it.
      have hj' := hF j
      refine ⟨?_, hj'.kinds, hj'.pending, hj'.fresh⟩
      have hhas := hj'.has
      cases hb : (view j).1 with
      | idle => exact has_idle (.inl rfl)
      | revived => exact absurd (hlocks j hj hkinds) (hj'.pending (by rw [hb]; nofun))
      | closing =>
        rw [hb] at hhas
        rcases hhas with hhas | hhas <;> cases hhas
      | _ =>
        rw [hb] at hhas
        cases hhas

theorem rollback {u : Unit} (ha : (view i).1.Free) (hw : w' = w) :
    Moves c view i (view i).1.rollback [] w' (.op i l held Op.rollback u w' :: h) := by
  have hhas := (hF i).has
  refine keep hI hF rfl (by rw [hw]) ?_
  rcases ha with ha | ha <;> rw [ha] at hhas ⊢
  · exact .nil hhas rfl
  · obtain ⟨rfl, rfl⟩ := hhas
    exact .nil (has_idle (.inr rfl)) rfl

/-- The goodbye uses the ticket its process owns. -/
theorem send {out : Outbound} {r : Wire} (hok : (sweepMonitor c).ok (view i).1 (.send out))
    (hw : w'.db = w.db) :
    Moves c view i ((sweepMonitor c).next (view i).1 (.send out) r) (view i).2 w'
      (.op i l held (Op.send out) r w' :: h) := by
  have hf := hF i
  by_cases hp : out.purpose = .closing ∧ out.conversationId = c
  · have ha := hok hp.1 hp.2
    have hhas := hf.has
    rw [ha] at hhas
    obtain rfl : t = .owned i := hhas
    rw [show (sweepMonitor c).next (view i).1 (.send out) r = .sent from if_pos hp]
    refine ⟨.used i, lost, ⟨?_, hI.interrupted, fun hl => absurd (hI.spent hl) nofun,
      fun _ => by rw [hw]; exact hI.there nofun, by rw [hw]; exact hI.stage⟩, ?_,
      fun j hj => (hF j).other hj (.inl (.inr (.inl rfl))) (.inl (.inr (.inr rfl)))⟩
    · rw [marks_cons, show mark c (.op i l held (Op.send out) r w') = some .use from
        if_pos (decide_eq_true hp)]
      exact hI.run.use
    · exact ⟨rfl, by rw [hf.kinds_nil (by rw [ha]; rfl)]; nofun, fun hn => absurd rfl hn, hf.fresh⟩
  · rw [show (sweepMonitor c).next (view i).1 (.send out) r = (view i).1 from if_neg hp]
    refine keep hI hF ?_ hw ⟨hf.has, hf.kinds, hf.pending, hf.fresh⟩
    simp [mark, isGoodbye, isRevive, hp]

/-- A statement that leaves the row, and the monitor, alone. -/
theorem statement_aside {stmt : Stmt} {r : stmt.Resp} {clock : Time} {seq : Nat}
    {locked : Nat → Bool} {ws : Tx}
    (hexec : stmt.exec clock seq locked (w.db.applyAll (view i).2) = some (r, ws))
    (hk : stmt.kindOn c r = none)
    (hnext : (sweepMonitor c).next (view i).1 (.sql stmt) r = (view i).1) (hw : w'.db = w.db) :
    Moves c view i ((sweepMonitor c).next (view i).1 (.sql stmt) r) ((view i).2 ++ ws) w'
      (.op i l held (Op.sql stmt) r w' :: h) := by
  rw [hnext]
  exact keep hI hF rfl hw ((hF i).aside hexec hk)

theorem statement_revive {stmt : Stmt} {r : stmt.Resp} {x : Option Nat} {clock : Time} {seq : Nat}
    {locked : Nat → Bool} {ws : Tx}
    (hexec : stmt.exec clock seq locked (w.db.applyAll (view i).2) = some (r, ws))
    (hk : stmt.kindOn c r = reviveOn c x) (ha : (view i).1.Free)
    (hnext : (sweepMonitor c).next (view i).1 (.sql stmt) r = (view i).1.after (reviveOn c x))
    (hw : w'.db = w.db) :
    Moves c view i ((sweepMonitor c).next (view i).1 (.sql stmt) r) ((view i).2 ++ ws) w'
      (.op i l held (Op.sql stmt) r w' :: h) := by
  by_cases hx : x = some c
  · rw [show reviveOn c x = some .revive from if_pos hx] at hk hnext
    rw [hnext]
    exact revive hI hF hexec hk ha hw
  · rw [show reviveOn c x = none from if_neg hx] at hk hnext
    exact statement_aside hI hF hexec hk hnext hw

theorem statement {others : List Tx} {stmt : Stmt} {r : stmt.Resp} {clock : Time} {seq : Nat}
    {ws : Tx} (hothers : ∀ j, j ≠ i → (view j).2 = [] ∨ (view j).2 ∈ others)
    (hno : ∀ idleBefore moment limit, stmt = .claimIdleSessions idleBefore moment limit →
      ∀ d, Write.insertConversation d ∉ (view i).2)
    (hexec : stmt.exec clock seq (lockedBy others) (w.db.applyAll (view i).2) = some (r, ws))
    (hok : (sweepMonitor c).ok (view i).1 (.sql stmt)) (hw : w'.db = w.db) :
    Moves c view i ((sweepMonitor c).next (view i).1 (.sql stmt) r) ((view i).2 ++ ws) w'
      (.op i l held (Op.sql stmt) r w' :: h) := by
  cases stmt with
  | claimIdleSessions idleBefore moment limit =>
    change List Nat at r
    by_cases hids : c ∈ r
    · rw [show (sweepMonitor c).next (view i).1 (.sql (.claimIdleSessions idleBefore moment limit)) r =
        (view i).1.after (some .claim) from congrArg (view i).1.after (if_pos hids)]
      exact claim hI hF hothers (hno _ _ _ rfl) hexec hok hids hw
    · exact statement_aside hI hF hexec (if_neg hids) (congrArg (view i).1.after (if_neg hids)) hw
  | close id moment =>
    by_cases hid : id = c
    · subst hid
      rw [show (sweepMonitor id).next (view i).1 (.sql (.close id moment)) r =
        (view i).1.after (some .close) from congrArg (view i).1.after (if_pos rfl)]
      exact close hI hF hexec (hok rfl) hw
    · exact statement_aside hI hF hexec (if_neg hid) (congrArg (view i).1.after (if_neg hid)) hw
  | reopenRecent | reopen => exact statement_revive hI hF hexec rfl hok rfl hw
  | idleTargets ids =>
    refine statement_aside hI hF hexec rfl ?_ hw
    refine if_neg fun hmiss => ?_
    -- A claimed row is there, so its target was found.
    have hhas := (hF i).has
    rw [hmiss.1] at hhas
    obtain rfl : t = .taken i := hhas
    obtain ⟨x, hx⟩ := view_there (view i).2 hI nofun
    obtain ⟨rfl, -⟩ := Prod.mk.inj (Option.some.inj hexec)
    exact hmiss.2 (Db.mem_idleTargets hx (hok hmiss.1))
  | _ => exact statement_aside hI hF hexec rfl rfl hw

end

/-- A process that leaves drops a claim that is not committed; one that is stays on the row. -/
theorem leave {e : Event botSig World Tx Task} {l : Task} (hI : Holds c t lost w h)
    (hf : Fits c t lost i (track (sweepMonitor c) .idle i h) tx)
    (he : e = .finish i l ∧ (track (sweepMonitor c) .idle i h).Done ∨ e = .cut i l) :
    ∃ t' lost', Holds c t' lost' w (e :: h) ∧ Fits c t' lost' i .idle [] ∧
      ∀ j b u, j ≠ i → Fits c t lost j b u → Fits c t' lost' j b u := by
  have hmarks : marks c (e :: h) = marks c h := by
    rcases he with ⟨rfl, -⟩ | rfl <;> rfl
  have hinterrupted : interrupted c (e :: h) =
      ((track (sweepMonitor c) .idle i h).busy || interrupted c h) := by
    rcases he with ⟨rfl, hdone⟩ | rfl
    · have hidle : (track (sweepMonitor c) .idle i h).busy = false := by
        rcases hdone with (ha | ha) | ha <;> rw [ha] <;> rfl
      rw [hidle]
      rfl
    · rfl
  have hhas := hf.has
  -- Nothing to give back.
  have hsame : (track (sweepMonitor c) .idle i h).busy = false → Has i t lost .idle →
      ∃ t' lost', Holds c t' lost' w (e :: h) ∧ Fits c t' lost' i .idle [] ∧
        ∀ j b u, j ≠ i → Fits c t lost j b u → Fits c t' lost' j b u := by
    intro hbusy hidle
    rw [hbusy, Bool.false_or] at hinterrupted
    exact ⟨t, lost, ⟨hmarks ▸ hI.run, hinterrupted.trans hI.interrupted, hI.spent, hI.there,
      hI.stage⟩, .nil hidle rfl, fun _ _ _ _ hb => hb⟩
  -- A committed claim is left on the open row.
  have hlose : (track (sweepMonitor c) .idle i h).busy = true → t = .owned i ∨ t = .used i →
      ∃ t' lost', Holds c t' lost' w (e :: h) ∧ Fits c t' lost' i .idle [] ∧
        ∀ j b u, j ≠ i → Fits c t lost j b u → Fits c t' lost' j b u := by
    intro hbusy ht
    rw [hbusy, Bool.true_or] at hinterrupted
    refine ⟨.spent, true, ⟨?_, hinterrupted, fun _ => rfl, fun _ => hI.there ?_, ?_⟩,
      .nil (has_idle (.inr rfl)) rfl, fun j b u hj hb => hb.other hj (.inl (.inr ht)) (.inr (.inr rfl))⟩
    · rw [hmarks]
      rcases ht with rfl | rfl
      · exact hI.run.waste
      · exact hI.run.release
    · rcases ht with rfl | rfl <;> nofun
    · have hstage := hI.stage
      rcases ht with rfl | rfl <;> exact hstage
  cases ha : track (sweepMonitor c) .idle i h with
  | idle =>
    rw [ha] at hhas
    exact hsame (by rw [ha]; rfl) hhas
  | revived =>
    rw [ha] at hhas
    obtain ⟨rfl, -⟩ := hhas
    exact hsame (by rw [ha]; rfl) (has_idle (.inr rfl))
  | claimed =>
    rw [ha] at hhas hinterrupted
    obtain rfl : t = .taken i := hhas
    exact ⟨.armed, lost, ⟨hmarks ▸ hI.run.drop, hinterrupted.trans hI.interrupted,
      fun hl => absurd (hI.spent hl) nofun, fun hn => absurd rfl hn, hI.stage⟩,
      .nil (has_idle (.inl rfl)) rfl,
      fun j b u hj hb => hb.other hj (.inl (.inl rfl)) (.inr (.inl rfl))⟩
  | holding =>
    rw [ha] at hhas
    exact hlose (by rw [ha]; rfl) (.inl hhas)
  | sent =>
    rw [ha] at hhas
    exact hlose (by rw [ha]; rfl) (.inr hhas)
  | closing =>
    rw [ha] at hhas
    exact hlose (by rw [ha]; rfl) hhas
  | missed =>
    rw [ha] at hhas
    exact hhas.elim

/-- **The ticket follows every step.** -/
theorem simulated (cfg : Config) (t₀ : Time) (c : Nat) :
    Simulated (sem cfg) anyStep (World.empty t₀) (sweepMonitor c) Hold.idle Hold.Done
      (fun g : Ticket × Bool => Holds c g.1 g.2) (fun g _ i a tx => Fits c g.1 g.2 i a tx) where
  start := ⟨(.armed, false), ⟨.init, rfl, fun hl => (by cases hl), fun hn => absurd rfl hn,
    fun x hx => by simp [World.empty, Db.empty, Db.conversation, Lib.Table.find, Lib.Table.empty] at hx⟩,
    fun i => .nil (has_idle (.inl rfl)) rfl⟩
  spawn hI := ⟨hI.run, hI.interrupted, hI.spent, hI.there, hI.stage⟩
  leave hI hf he := by
    obtain ⟨t', lost', hI', hself, hother⟩ := leave hI hf he
    exact ⟨(t', lost'), hI', hself, hother⟩
  op {g s i p o rest r w tx} := by
    obtain ⟨t, lost⟩ := g
    intro view hreach hI hF hp hrest hok hstep _
    have hheld : p.held = (view i).2 := by rw [show view i = _ from Sys.view_some hp]
    have hothers : ∀ j, j ≠ i → (view j).2 = [] ∨ (view j).2 ∈ s.others i :=
      fun j hj => Sys.view_others hj
    have finish : ∀ {a tx h}, Moves c view i a tx w h → ∃ g' : Ticket × Bool, Holds c g'.1 g'.2 w h ∧
        Fits c g'.1 g'.2 i a tx ∧ ∀ j, j ≠ i → Fits c g'.1 g'.2 j (view j).1 (view j).2 := by
      rintro a tx h ⟨t', lost', hmoved⟩
      exact ⟨(t', lost'), hmoved⟩
    refine finish ?_
    change step cfg _ _ _ o r = _ at hstep
    cases o with
    | sql stmt =>
      have hno : ∀ idleBefore moment limit, stmt = .claimIdleSessions idleBefore moment limit →
          ∀ d, Write.insertConversation d ∉ (view i).2 := by
        rintro idleBefore moment limit rfl
        rw [← hheld]
        exact inserts_nothing_of_claim hreach hp hrest
      obtain ⟨ws, hexec, -, hw, -, rfl⟩ := step_sql hstep
      rw [hheld] at hexec ⊢
      exact statement hI hF hothers hno hexec hok hw
    | commit =>
      obtain ⟨hw, -, rfl⟩ := step_commit hstep
      rw [hheld] at hw ⊢
      refine commit hI hF (fun j hj hi => ?_) hw
      -- Two transactions cannot both have the row locked.
      by_contra hkinds
      cases hq : s.proc j with
      | none => exact hkinds (by rw [show view j = _ from Sys.view_none hq]; rfl)
      | some q =>
        rw [show view j = _ from Sys.view_some hq] at hkinds
        rw [← hheld] at hi
        exact hj (lock_exclusive hreach hq hp (Tx.holds_of_kinds hkinds) (Tx.holds_of_kinds hi))
    | rollback =>
      obtain ⟨hw, rfl⟩ := step_rollback hstep
      exact rollback hI hF hok hw
    | send out =>
      obtain ⟨hw, -, rfl⟩ := step_quiet rfl hstep
      rw [hheld]
      exact send hI hF hok hw
    | raise => cases r
    | _ =>
      obtain ⟨hw, -, rfl⟩ := step_quiet rfl hstep
      rw [hheld]
      exact keep hI hF rfl (by rw [hw]) (hF i)

end SessionClaim

/-- **Every session has one claim**: in every reachable state a ticket that fits the row and every
running process. -/
theorem session_claim {cfg : Config} {t₀ : Time} {s : Sys botSig World Tx Task}
    (h : Reach (sem cfg) anyStep (World.empty t₀) s) (c : Nat) :
    ∃ t lost, SessionClaim.Holds c t lost s.shared s.hist ∧ ∀ j, SessionClaim.Fits c t lost j
      (s.view (sem cfg) (sweepMonitor c) .idle j).1 (s.view (sem cfg) (sweepMonitor c) .idle j).2 := by
  obtain ⟨⟨t, lost⟩, hI, hF⟩ := h.simulated sweep_discipline (SessionClaim.simulated cfg t₀ c)
  exact ⟨t, lost, hI, hF⟩

end Webhook
