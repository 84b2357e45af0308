import WhatsAppBot.Chat.Proof.Reading
import WhatsAppBot.Lib.Rely
import WhatsAppBot.Webhook.Proof.Request
import WhatsAppBot.Webhook.Sample

/-!
# Who owns a conversation, over a whole run

A take-over or a hand-back writes the columns whose value differs from the one it read, so a column
that another operation has changed since stays as that one left it. `owned`: in a run in which every
take-over and every hand-back commits over a row that still has the values it leaves out, a
conversation the bot answers has no owner, and the label and the account of an owner are those of one
take-over. A handoff that the customer asks for never does harm: it leaves label and account alone.
-/

set_option autoImplicit false

namespace Webhook

open Lib Store Bot Chat

/-! ## Deliveries and sweeps -/

/-- The row, when it is the conversation's. -/
def Request.seen (c : Nat) (a : Request) : Option Conversation → Request
  | some x => if x.id = c then .read x x else a
  | none => a

/-- A handoff goes by the row that was read last. -/
def handoffMonitor (c : Nat) : Monitor botSig Request where
  ok a o :=
    match o with
    | .sql (.flushMode id p) => id = c → ∃ x, a = .read x x ∧ x.mode ≠ .human ∧ IsHandoff x p
    | _ => True
  next a o r :=
    match o, r with
    | .sql (.activeForUser _), r => a.seen c r
    | .sql (.getConversation _), r => a.seen c r
    | _, _ => a
  may _ _ := True

/-- The monitor knows what was read of the conversation. -/
def KnowsRow (c : Nat) (x : Conversation) (a : Request) : Prop := x.id = c → a = .read x x

variable {a : Request} {o : Op} {c : Nat} {l : Task} {cfg : Config}

def isFlush : Op → Bool
  | .sql (.flushMode _ _) => true
  | _ => false

def isLook : Op → Bool
  | .sql (.activeForUser _) | .sql (.getConversation _) => true
  | _ => false

theorem handoff_ok (h : isFlush o = false) : (handoffMonitor c).ok a o := by
  cases o with
  | sql s => cases s <;> trivial
  | _ => trivial

theorem handoff_same (h : isLook o = false) (r : o.Resp) : (handoffMonitor c).next a o r = a := by
  cases o with
  | sql s => cases s <;> first | rfl | cases h
  | _ => rfl

theorem not_look_of_isCalm (h : isCalm o = true) : isFlush o = false ∧ isLook o = false := by
  cases o with
  | sql s => cases s <;> first | exact ⟨rfl, rfl⟩ | cases h
  | _ => exact ⟨rfl, rfl⟩

theorem not_flush_of_inContext (h : inContext o = true) : isFlush o = false := by
  cases o with
  | sql s => cases s <;> first | rfl | cases h
  | _ => rfl

theorem not_flush_of_isConfirm (h : isConfirm o = true) : isFlush o = false := by
  cases o with
  | sql s => cases s <;> first | rfl | cases h
  | _ => cases h

theorem seen_knows (x : Conversation) : KnowsRow c x (a.seen c (some x)) := fun h => if_pos h

theorem receives_handoff (c : Nat) : Receives (handoffMonitor c) (fun _ => True) (KnowsRow c) where
  keep _ ho := ⟨handoff_ok (not_flush_of_inContext ho), fun _ _ => trivial⟩
  look _ := seen_knows _
  fetch _ := seen_knows _
  claim ha := ⟨trivial, fun _ => ha⟩
  calm ha ho :=
    have hplain := not_look_of_isCalm ho
    ⟨handoff_ok hplain.1, fun r _ => (handoff_same hplain.2 r).symm ▸ ha⟩
  leave _ := trivial

theorem serves_handoff (channel : Channel) (waId key : String) (x : Conversation) :
    Serves (handoffMonitor c) cfg channel waId key x (KnowsRow c x) (fun _ => True) where
  calm ha ho := (receives_handoff c).calm ha ho
  calmAfter _ ho := ⟨handoff_ok (not_look_of_isCalm ho).1, fun _ _ => trivial⟩
  le _ := trivial
  quota ha := ⟨trivial, fun _ _ => ha⟩
  human hx ha hp := ⟨fun hid => ⟨x, ha hid, hx, hp⟩, fun _ _ => ha⟩
  send _ _ := by
    refine sendOnce_wp (fun _ _ ho => ?_) (fun _ ho => ⟨handoff_ok ?_, fun _ _ => trivial⟩) trivial
      (fun _ => trivial) fun _ _ => ⟨trivial, trivial, fun _ => trivial⟩
    · have hplain := not_look_of_isCalm (isCalm_of_isTouch ho)
      exact ⟨handoff_ok hplain.1, handoff_same hplain.2⟩
    · exact ho.elim (fun ho => (not_look_of_isCalm ho).1) not_flush_of_isConfirm

theorem not_flush_of_inInvite (h : inInvite o = true) : isFlush o = false := by
  cases o with
  | sql s => cases s <;> first | rfl | cases h
  | _ => rfl

theorem delivers_handoff (cfg : Config) (c : Nat) :
    Delivers (handoffMonitor c) cfg fun _ => True where
  calm _ ho := ⟨handoff_ok (not_look_of_isCalm ho).1, fun _ _ => trivial⟩
  handles channel waId name key := by
    refine ⟨KnowsRow c, fun _ => True, fun {a type content mediaId} ha => ?_,
      fun x => serves_handoff channel waId key x, fun _ => trivial⟩
    exact (receives_handoff c).receive_wp ha cfg channel waId name key type content mediaId
  stale waId name key type content ha :=
    (receives_handoff c).recordWithoutAnswering_wp ha cfg waId name key type content
  status _ := ⟨trivial, fun _ _ => trivial⟩
  invite channel e ha := (inviteAfterComment_only cfg channel e).wp ha fun _ _ _ ho =>
    ⟨handoff_ok (not_flush_of_inInvite ho), fun _ _ => trivial⟩

/-- Deliveries and sweeps hand over by what they read. -/
theorem handoff_discipline (cfg : Config) (h : l.target = none) :
    (program cfg l).wp (handoffMonitor c) (fun _ _ => True) .unread := by
  cases l with
  | webhook payload => exact (delivers_handoff cfg c).processWebhookPayload_wp trivial payload
  | metaWebhook surfaces payload =>
    exact Prog.wp_forM (I := fun _ => True) (fun surface _ _ hb =>
      (delivers_handoff cfg c).processMetaPayload_wp hb surface payload) trivial
  | sweep =>
    refine (closeIdleSessions_only cfg).wp trivial fun _ o _ ho => ⟨handoff_ok ?_, fun _ _ => trivial⟩
    cases o with
    | sql s => cases s <;> first | rfl | cases ho
    | _ => rfl
  | _ => cases h

/-- Everything a process does to the owner of a conversation. -/
def ownerMonitor (c : Nat) (l : Task) : Monitor botSig Request :=
  match l.target with
  | some d => requestMonitor d l
  | none => handoffMonitor c

theorem ownerMonitor_of_target {d : Nat} (h : l.target = some d) :
    ownerMonitor c l = requestMonitor d l := by
  simp [ownerMonitor, h]

theorem ownerMonitor_of_none (h : l.target = none) : ownerMonitor c l = handoffMonitor c := by
  simp [ownerMonitor, h]

theorem owner_discipline (cfg : Config) (c : Nat) (l : Task) :
    (program cfg l).wp (ownerMonitor c l) (fun _ _ => True) .unread := by
  cases h : l.target with
  | some d =>
    rw [ownerMonitor_of_target h]
    exact request_discipline cfg h
  | none =>
    rw [ownerMonitor_of_none h]
    exact handoff_discipline cfg h

/-! ## The rows of a run -/

/-- A take-over of the conversation by this operator commits. -/
def tookOver (c : Nat) (operator : Option String) (operatorId : Option Nat) :
    Event botSig World Tx Task → Bool
  | .op _ (.takeOver d label account) _ .commit _ _ =>
    d = c ∧ label = operator ∧ account = operatorId
  | _ => false

/-- Nobody, or the label and the account of one take-over. -/
def owners (c : Nat) (h : History) (operator : Option String) (operatorId : Option Nat) : Prop :=
  (operator = none ∧ operatorId = none) ∨ ∃ e ∈ h, tookOver c operator operatorId e = true

/-- The columns that a request leaves out, because it read them with the value they are to have,
still have that value in the row `y`. A hand-back that read the bot's own conversation leaves all of
them out. -/
def Task.upToDate (l : Task) (r y : Conversation) : Bool :=
  match l with
  | .takeOver _ operator operatorId =>
    (r.mode = .human → y.mode = .human) ∧
    (r.assignedOperator = operator → y.assignedOperator = operator) ∧
    (r.assignedOperatorId = operatorId → y.assignedOperatorId = operatorId)
  | .resumeAi _ =>
    r.mode = .bot ∨ (r.assignedOperator = none → y.assignedOperator = none) ∧
      (r.assignedOperatorId = none → y.assignedOperatorId = none) ∧
      (r.handoffAt = none → y.handoffAt = none)
  | _ => true

def Request.upToDate (l : Task) : Request → Conversation → Bool
  | .read r _, y => l.upToDate r y
  | _, _ => true

def commitsUpToDate (c : Nat) (s : Sys botSig World Tx Task) : Event botSig World Tx Task → Bool
  | .op i l _ .commit _ _ => l.target ≠ some c ||
      (s.shared.db.conversation c).all ((track (requestMonitor c l) .unread i s.hist).upToDate l)
  | _ => true

/-- A request about the conversation commits over a row that is up to date. -/
def Current (c : Nat) (s : Sys botSig World Tx Task) (e : Event botSig World Tx Task) : Prop :=
  commitsUpToDate c s e = true

instance (c : Nat) (s : Sys botSig World Tx Task) (e : Event botSig World Tx Task) :
    Decidable (Current c s e) :=
  inferInstanceAs (Decidable (commitsUpToDate c s e = true))

variable {w w' : World} {h h' : History} {tx ws : Tx}

theorem owners_mono {operator : Option String} {operatorId : Option Nat}
    (hsub : ∀ e ∈ h, e ∈ h') (ho : owners c h operator operatorId) :
    owners c h' operator operatorId := by
  rcases ho with ho | ⟨e, he, ht⟩
  · exact .inl ho
  · exact .inr ⟨e, hsub e he, ht⟩

/-- **A request leaves an owner as it should be**, over a row that is up to date. -/
theorem settled {r m y : Conversation} {P : Option String → Option Nat → Prop}
    (hsets : l.Sets r m) (hnow : l.upToDate r y = true) (hr : r.ownership.Owned P)
    (hy : y.ownership.Owned P) (hnone : P none none)
    (htook : ∀ d operator operatorId, l = .takeOver d operator operatorId → P operator operatorId) :
    (Ownership.onto r.ownership m.ownership y.ownership).Owned P := by
  have hself : m.ownership = r.ownership →
      (Ownership.onto r.ownership m.ownership y.ownership).Owned P := by
    intro hm
    rw [hm, Ownership.onto_self]
    exact hy
  cases l with
  | takeOver d operator operatorId =>
    obtain ⟨hmode, rfl, rfl⟩ := hsets
    obtain ⟨hymode, hyoperator, hyid⟩ := of_decide_eq_true hnow
    obtain ⟨hmode', hoperator', hid'⟩ := Ownership.onto_eq (r := r.ownership) (m := m.ownership)
      (y := y.ownership) (fun h => (hymode (h.symm.trans hmode)).trans hmode.symm)
      (fun h => hyoperator h.symm) fun h => hyid h.symm
    refine ⟨fun hbot => ?_, ?_⟩
    · cases (hmode'.symm.trans hbot).symm.trans hmode
    · rw [hoperator', hid']
      exact htook d _ _ rfl
  | resumeAi d =>
    change m.ownership = _ at hsets
    cases hmode : r.mode with
    | bot =>
      obtain ⟨hoperator, hid, hat⟩ := hr.bot hmode
      refine hself (hsets.trans ?_)
      rw [← hoperator, ← hid, ← hat, ← hmode]
      rfl
    | human =>
      obtain ⟨hyoperator, hyid, hyat⟩ :=
        (of_decide_eq_true hnow).resolve_left fun hbot => by rw [hmode] at hbot; cases hbot
      have hall : Ownership.onto r.ownership m.ownership y.ownership = ⟨.bot, none, none, none⟩ := by
        rw [hsets]
        simp only [Ownership.onto, Conversation.ownership, hmode, Ownership.mk.injEq]
        refine ⟨rfl, ?_, ?_, ?_⟩
        · exact ite_eq_right_iff.mpr fun h => hyoperator h.symm
        · exact ite_eq_right_iff.mpr fun h => hyid h.symm
        · exact ite_eq_right_iff.mpr fun h => hyat h.symm
      rw [hall]
      exact ⟨fun _ => ⟨rfl, rfl, rfl⟩, hnone⟩
  | _ =>
    obtain rfl : m = r := hsets
    exact hself rfl

/-- What a request has made of the owner of the row `y`. -/
def Request.effect : Request → Ownership → Ownership
  | .read r m, y => Ownership.onto r.ownership m.ownership y
  | _, y => y

def Request.row : Request → Option Conversation
  | .read r _ => some r
  | .reviving x => x
  | _ => none

/-- What a request about the conversation relies on. -/
structure OwnsRow (c : Nat) (a : Request) (w : World) (h : History) (tx : Tx) : Prop where
  creates : ∀ d, .insertConversation d ∉ tx
  effect : ∀ y : Conversation, (Tx.on tx c y).ownership = a.effect y.ownership
  there : a.inHand = true → (w.db.conversation c).isSome = true
  row : ∀ r, a.row = some r → r.ownership.Owned (owners c h)

/-- What everybody else relies on. -/
structure Bystands (c : Nat) (l : Task) (a : Request) (h : History) (tx : Tx) : Prop where
  respects : ∀ P : Option String → Option Nat → Prop, P none none → ∀ v ∈ tx, v.Respects P c
  row : l.target = none → ∀ r, a.row = some r → r.ownership.Owned (owners c h)

namespace OwnsRow

theorem fresh (w : World) (h : History) : OwnsRow c .unread w h [] where
  creates _ := List.not_mem_nil
  effect _ := rfl
  there ha := by cases ha
  row _ hr := by cases hr

theorem fresh_of_ended (w : World) (h : History) : OwnsRow c .ended w h [] where
  creates _ := List.not_mem_nil
  effect _ := rfl
  there ha := by cases ha
  row _ hr := by cases hr

theorem grow (ho : OwnsRow c a w h tx) (hsub : ∀ e ∈ h, e ∈ h') (hdb : w.db.Within w'.db) :
    OwnsRow c a w' h' tx where
  creates := ho.creates
  effect := ho.effect
  there ha := hdb.there c (ho.there ha)
  row r hr := (ho.row r hr).mono fun _ _ => owners_mono hsub

/-- The committed row behind the one the transaction sees. -/
theorem committed (ho : OwnsRow c a w h tx) {x : Conversation}
    (hx : (w.db.applyAll tx).conversation c = some x) :
    ∃ y, w.db.conversation c = some y ∧ x.ownership = a.effect y.ownership := by
  cases hrow : w.db.conversation c with
  | none =>
    obtain ⟨d, hd, -⟩ := Db.created_of_absent hrow hx
    exact absurd hd (ho.creates d)
  | some y =>
    rw [Db.conversation_applyAll hrow tx] at hx
    obtain rfl := Option.some.inj hx
    exact ⟨y, rfl, ho.effect y⟩

/-- The row is read: the request has changed nothing of its owner yet. -/
theorem look (ho : OwnsRow c a w h tx) (hI : w.db.Owned (owners c h) c)
    (ha : ∀ y, a.effect y = y) {x : Conversation}
    (hx : (w.db.applyAll tx).conversation c = some x) :
    x.ownership.Owned (owners c h) ∧ (w.db.conversation c).isSome = true := by
  obtain ⟨y, hy, howner⟩ := ho.committed hx
  rw [howner, ha]
  exact ⟨hI y hy, by rw [hy]; rfl⟩

/-- Statements that leave the owner alone. -/
theorem append (ho : OwnsRow c a w h tx) (hdb : w'.db = w.db) (hsub : ∀ e ∈ h, e ∈ h')
    (hws : ∀ v ∈ ws, v.keepsOwner c = true) : OwnsRow c a w' h' (tx ++ ws) where
  creates d hd := by
    rcases List.mem_append.mp hd with hd | hd
    · exact ho.creates d hd
    · cases hws _ hd
  effect y := by rw [Tx.on_append, Tx.on_ownership hws, ho.effect]
  there ha := hdb ▸ ho.there ha
  row r hr := (ho.row r hr).mono fun _ _ => owners_mono hsub

/-- The request writes what it has changed in memory. -/
theorem flush {x m : Conversation} {p : ModePatch} {moment : Time} {seq : Nat}
    {locked : Nat → Bool} {u : Unit} (ho : OwnsRow c (.read x m) w h tx) (hdb : w'.db = w.db)
    (hsub : ∀ e ∈ h, e ∈ h') (hp : Ownership.Differs p x.ownership)
    (hexec : (Stmt.flushMode c p).exec moment seq locked (w.db.applyAll tx) = some (u, ws)) :
    OwnsRow c (.read x (ConversationUpdate.apply m (.setMode p))) w' h' (tx ++ ws) := by
  obtain ⟨y, hy⟩ := Option.isSome_iff_exists.mp
    (Db.conversation_applyAll_isSome (ho.there rfl) tx)
  obtain ⟨hset, hcreates⟩ := Stmt.exec_flush hy hexec
  exact
    { creates := fun d hd => (List.mem_append.mp hd).elim (ho.creates d) (hcreates d)
      effect := fun z => by
        rw [Tx.on_append, hset, ho.effect]
        simp only [Request.effect, ConversationUpdate.apply_ownership]
        exact Ownership.onto_set hp _ _
      there := fun _ => hdb ▸ ho.there rfl
      row := fun r hr => (ho.row r hr).mono fun _ _ => owners_mono hsub }

/-- What a request's statement does. -/
theorem sql (ho : OwnsRow c a w h tx) (hI : w.db.Owned (owners c h) c) {st : Stmt} {r : st.Resp}
    {moment : Time} {seq : Nat} {locked : Nat → Bool} (hok : (requestMonitor c l).ok a (.sql st))
    (hmay : (requestMonitor c l).may (.sql st) r)
    (hexec : st.exec moment seq locked (w.db.applyAll tx) = some (r, ws)) (hdb : w'.db = w.db)
    (hsub : ∀ e ∈ h, e ∈ h') :
    OwnsRow c ((requestMonitor c l).next a (.sql st) r) w' h' (tx ++ ws) := by
  have hplain : st.keepsOwner = true → OwnsRow c a w' h' (tx ++ ws) := fun hst =>
    ho.append hdb hsub (Stmt.exec_keepsOwner hexec hst)
  cases st with
  | getConversation id =>
    obtain ⟨hrow, rfl⟩ := Prod.mk.inj (Option.some.inj hexec)
    have hsame := hplain rfl
    rw [List.append_nil] at hsame ⊢
    change OwnsRow c (a.fetch r) w' h' tx
    cases r with
    | none => cases a <;> exact hsame
    | some x =>
      -- the row that the request reads, when it has changed nothing yet
      have hread : id = c → (∀ y, a.effect y = y) → ∀ b : Request, b.row = some x →
          (∀ y, b.effect y = y) → OwnsRow c b w' h' tx := by
        rintro rfl ha b hb heffect
        obtain ⟨howned, hthere⟩ := ho.look hI ha hrow
        exact
          { creates := ho.creates
            effect := fun y => by rw [ho.effect, ha, heffect]
            there := fun _ => hdb ▸ hthere
            row := fun r hr => by
              obtain rfl := Option.some.inj (hb.symm.trans hr)
              exact howned.mono fun _ _ => owners_mono hsub }
      cases a with
      | unread =>
        simp only [Request.fetch]
        split
        · exact hsame
        · exact hread (hok.resolve_left nofun).2 (fun _ => rfl) _ rfl fun _ => Ownership.onto_self _ _
      | reviving => exact hread (hok.resolve_left nofun).2 (fun _ => rfl) _ rfl fun _ => rfl
      | read => rcases hok with h | ⟨h | h, -⟩ <;> cases h
      | ended => exact hsame
  | reopen id t =>
    obtain ⟨rfl, rfl⟩ := hok
    have hsame := hplain rfl
    cases r with
    | none => exact hsame
    | some d =>
      obtain rfl : d = id := hmay d rfl
      refine { hsame with there := fun _ => ?_, row := fun r hr => by cases hr }
      simp only [Stmt.exec] at hexec
      split at hexec
      · rename_i x hx
        rw [hdb]
        exact (ho.look hI (fun _ => rfl) hx).2
      · cases (Prod.mk.inj (Option.some.inj hexec)).1
  | flushMode id p =>
    obtain ⟨rfl, x, m, rfl, hp⟩ := hok
    exact ho.flush hdb hsub hp hexec
  | insertConversation => cases hok
  | _ => exact hplain rfl

/-- **A request commits.** -/
theorem commit (ho : OwnsRow c a w h tx) (hI : w.db.Owned (owners c h) c)
    (hok : (requestMonitor c l).ok a .commit) (hdb : w'.db = w.db.applyAll tx)
    (hsub : ∀ e ∈ h, e ∈ h')
    (hnow : (w.db.conversation c).all (a.upToDate l) = true)
    (htook : ∀ d operator operatorId, l = .takeOver d operator operatorId →
      owners c h' operator operatorId) :
    w'.db.Owned (owners c h') c ∧ OwnsRow c a.commit w' h' [] := by
  have hmono : ∀ {o : Ownership}, o.Owned (owners c h) → o.Owned (owners c h') :=
    fun ho => ho.mono fun _ _ => owners_mono hsub
  constructor
  · intro x hx
    rw [hdb] at hx
    obtain ⟨y, hy, howner⟩ := ho.committed hx
    rw [howner]
    have hyowned := hmono (hI y hy)
    rcases hok with ⟨r, rfl⟩ | ⟨r, m, rfl, hsets⟩
    · exact hyowned
    · rw [hy] at hnow
      exact settled hsets hnow (hmono (ho.row r rfl)) hyowned (.inl ⟨rfl, rfl⟩) htook
  · have hthere : (w.db.conversation c).isSome = true → (w'.db.conversation c).isSome = true := by
      rw [hdb]
      exact fun hs => Db.conversation_applyAll_isSome hs tx
    rcases hok with ⟨r, rfl⟩ | ⟨r, m, rfl, -⟩
    · exact
        { creates := fun _ => List.not_mem_nil
          effect := fun _ => (Ownership.onto_self _ _).symm
          there := fun _ => hthere (ho.there rfl)
          row := fun x hx => hmono (ho.row x hx) }
    · exact fresh_of_ended _ _

end OwnsRow

namespace Bystands

variable {d : Nat}

theorem fresh (c : Nat) (l : Task) (h : History) : Bystands c l .unread h [] where
  respects _ _ _ hv := absurd hv List.not_mem_nil
  row _ _ hr := by cases hr

theorem grow (hb : Bystands c l a h tx) (hsub : ∀ e ∈ h, e ∈ h') : Bystands c l a h' tx where
  respects := hb.respects
  row hl r hr := (hb.row hl r hr).mono fun _ _ => owners_mono hsub

/-- Further statements, and what the monitor knows after them. -/
theorem append {b : Request} (hb : Bystands c l a h tx) (hsub : ∀ e ∈ h, e ∈ h')
    (hws : ∀ P : Option String → Option Nat → Prop, P none none → ∀ v ∈ ws, v.Respects P c)
    (hrow : l.target = none → ∀ r, b.row = some r → a.row = some r ∨ r.ownership.Owned (owners c h)) :
    Bystands c l b h' (tx ++ ws) where
  respects P hP v hv := (List.mem_append.mp hv).elim (hb.respects P hP v) (hws P hP v)
  row hl r hr := by
    refine Ownership.Owned.mono ?_ fun _ _ => owners_mono hsub
    rcases hrow hl r hr with hr | hr
    · exact hb.row hl r hr
    · exact hr

/-- A handoff leaves the label and the account alone: the row it goes by has none. -/
theorem handoff_respects {x : Conversation} {p : ModePatch} {o : Ownership}
    {P Q : Option String → Option Nat → Prop} (hx : x.mode ≠ .human) (hp : IsHandoff x p)
    (howned : x.ownership.Owned Q) (ho : o.Owned P) : (o.set p).Owned P := by
  have hbot : x.mode = .bot := by cases hm : x.mode with
    | bot => rfl
    | human => exact absurd hm hx
  obtain ⟨tag, handoffAt, activity, rfl⟩ := hp
  have hoperator : x.assignedOperator = none := (howned.bot hbot).1
  constructor
  · intro hset
    simp [Ownership.set, modePatch, hbot] at hset
  · simpa [Ownership.set, modePatch, hoperator] using ho.pair

/-- What another process's statement does. -/
theorem sql (hb : Bystands c l a h tx) (hl : l.target ≠ some c) (hI : w.db.Owned (owners c h) c)
    {st : Stmt} {r : st.Resp} {moment : Time} {seq : Nat} {locked : Nat → Bool}
    (hok : (ownerMonitor c l).ok a (.sql st))
    (hexec : st.exec moment seq locked (w.db.applyAll tx) = some (r, ws))
    (hsub : ∀ e ∈ h, e ∈ h') :
    Bystands c l ((ownerMonitor c l).next a (.sql st) r) h' (tx ++ ws) := by
  cases htarget : l.target with
  | some d =>
    refine hb.append hsub (fun P hP => Stmt.exec_respects hexec hP fun i p hst hi => ?_)
      fun hnone => by rw [htarget] at hnone; cases hnone
    -- a request flushes the row it is about
    subst hst hi
    rw [ownerMonitor_of_target htarget] at hok
    exact hl (htarget.trans (congrArg some hok.1.symm))
  | none =>
    rw [ownerMonitor_of_none htarget] at hok ⊢
    have hview : (w.db.applyAll tx).Owned (owners c h) c :=
      hI.applyAll (hb.respects _ (.inl ⟨rfl, rfl⟩))
    have hseen : ∀ q : Option Conversation, (∀ x, q = some x → (w.db.applyAll tx).conversation x.id = some x) →
        ∀ x, (a.seen c q).row = some x → a.row = some x ∨ x.ownership.Owned (owners c h) := by
      intro q hq x hx
      cases q with
      | none => exact .inl hx
      | some y =>
        simp only [Request.seen] at hx
        split at hx
        · rename_i hid
          obtain rfl := Option.some.inj hx
          exact .inr (hview y (hid ▸ hq y rfl))
        · exact .inl hx
    cases st with
    | flushMode id p =>
      refine hb.append hsub (fun P hP v hv => ?_) fun _ x hx => .inl hx
      obtain ⟨-, rfl⟩ := Prod.mk.inj (Option.some.inj hexec)
      split at hv
      · cases hv
      · obtain ⟨y, -, rfl⟩ := mem_updateRow hv
        intro hid o ho
        obtain ⟨x, rfl, hx, hp⟩ := hok hid
        exact handoff_respects hx hp (hb.row htarget x rfl) ho
    | activeForUser userId =>
      obtain ⟨rfl, -⟩ := Prod.mk.inj (Option.some.inj hexec)
      refine hb.append hsub (fun P hP => Stmt.exec_respects hexec hP fun i p hst => by cases hst)
        fun _ => hseen _ fun x hx => (Db.mem_activeFor.mp (newest_mem hx)).1
    | getConversation id =>
      obtain ⟨rfl, -⟩ := Prod.mk.inj (Option.some.inj hexec)
      refine hb.append hsub (fun P hP => Stmt.exec_respects hexec hP fun i p hst => by cases hst)
        fun _ => hseen _ fun x hx => (Db.conversation_id hx).symm ▸ hx
    | _ =>
      exact hb.append hsub (fun P hP => Stmt.exec_respects hexec hP fun i p hst => by cases hst)
        fun _ x hx => .inl hx

/-- The transaction has ended. -/
theorem ended (hb : Bystands c l a h tx) (hsub : ∀ e ∈ h, e ∈ h') {b : Request}
    (hrow : l.target = none → b = a) : Bystands c l b h' [] where
  respects _ _ _ hv := absurd hv List.not_mem_nil
  row hl r hr := (hb.row hl r (hrow hl ▸ hr)).mono fun _ _ => owners_mono hsub

end Bystands

variable {C : Sys botSig World Tx Task → Event botSig World Tx Task → Prop} {w₀ : World}
  {s : Sys botSig World Tx Task}

/-- The owner of a conversation, and what every process relies on about it. -/
theorem owner_rely (h₀ : w₀.db.Owned (owners c []) c) : Rely (sem cfg) (Current c) w₀
    (fun _ => True) (ownerMonitor c) .unread (fun w h => w.db.Owned (owners c h) c)
    (fun l a w h tx => (l.target = some c → OwnsRow c a w h tx) ∧
      (l.target ≠ some c → Bystands c l a h tx)) where
  program l _ := owner_discipline cfg c l
  may {l ts w t o r x} hstep := by
    cases hl : l.target with
    | some d => exact ownerMonitor_of_target hl ▸ request_may hstep
    | none => exact ownerMonitor_of_none hl ▸ trivial
  start := h₀
  fresh _ _ := ⟨fun _ => OwnsRow.fresh _ _, fun _ => Bystands.fresh _ _ _⟩
  quiet {e w h} _ hI := by
    have hsub : ∀ e' ∈ h, e' ∈ e :: h := fun _ => List.mem_cons_of_mem e
    refine ⟨fun x hx => (hI x hx).mono fun _ _ => owners_mono hsub, fun l a t ⟨ho, hb⟩ => ?_⟩
    exact ⟨fun hl => (ho hl).grow hsub ⟨fun v hv => ⟨v, hv, rfl⟩, fun _ h => h⟩,
      fun hl => (hb hl).grow hsub⟩
  op {s i p o k r w tx} hr hI hF hp _ hok hstep hcond := by
    obtain ⟨hown, hby⟩ := hF i p hp trivial
    have hok := hok trivial
    have hmay : p.label.target = some c → (requestMonitor c p.label).may o r := fun _ =>
      request_may hstep
    have hsub : ∀ e ∈ s.hist, e ∈ Event.op i p.label p.held o r w :: s.hist :=
      fun _ => List.mem_cons_of_mem _
    have hothers : s.shared.db.Within w.db → ∀ j q, j ≠ i → s.proc j = some q → True →
        (q.label.target = some c → OwnsRow c (track (ownerMonitor c q.label) .unread j s.hist) w
          (.op i p.label p.held o r w :: s.hist) q.held) ∧
        (q.label.target ≠ some c → Bystands c q.label (track (ownerMonitor c q.label) .unread j s.hist)
          (.op i p.label p.held o r w :: s.hist) q.held) := by
      intro hdb j q _ hq _
      obtain ⟨ho, hb⟩ := hF j q hq trivial
      exact ⟨fun hl => (ho hl).grow hsub hdb, fun hl => (hb hl).grow hsub⟩
    have hsame : w.db = s.shared.db → s.shared.db.Within w.db ∧
        w.db.Owned (owners c (.op i p.label p.held o r w :: s.hist)) c := by
      intro hdb
      rw [hdb]
      exact ⟨⟨fun v hv => ⟨v, hv, rfl⟩, fun _ h => h⟩,
        fun x hx => (hI x hx).mono fun _ _ => owners_mono hsub⟩
    change step cfg _ _ _ o r = _ at hstep
    cases o with
    | sql st =>
      obtain ⟨ws, hexec, -, hdb, -, rfl⟩ := step_sql hstep
      refine ⟨(hsame hdb).2, fun _ => ⟨fun hl => ?_, fun hl => ?_⟩, hothers (hsame hdb).1⟩
      · have hown := hown hl
        rw [ownerMonitor_of_target hl] at hok hown ⊢
        exact hown.sql hI hok (hmay hl) hexec hdb hsub
      · exact (hby hl).sql hl hI hok hexec hsub
    | commit =>
      obtain ⟨hdb, -, rfl⟩ := step_commit hstep
      have hwithin : s.shared.db.Within w.db := hdb ▸ Db.within_applyAll _ _
      by_cases hl : p.label.target = some c
      · have hown := hown hl
        rw [ownerMonitor_of_target hl] at hok hown ⊢
        have hnow : commitsUpToDate c s _ = true := hcond
        simp only [commitsUpToDate, hl, ne_eq, not_true_eq_false, decide_false, Bool.false_or] at hnow
        obtain ⟨hI', hnext⟩ := hown.commit hI hok hdb hsub hnow fun d operator operatorId hd => by
          rw [hd] at hl
          obtain rfl := Option.some.inj hl
          exact .inr ⟨_, List.mem_cons_self, by simp [tookOver, hd]⟩
        exact ⟨hI', fun _ => ⟨fun _ => hnext, fun hne => absurd hl hne⟩, hothers hwithin⟩
      · refine ⟨?_, fun _ => ⟨fun hl' => absurd hl' hl, fun _ => (hby hl).ended hsub fun hnone => ?_⟩,
          hothers hwithin⟩
        · rw [hdb]
          have howned := hI.applyAll ((hby hl).respects _ (.inl ⟨rfl, rfl⟩))
          exact fun x hx => (howned x hx).mono fun _ _ => owners_mono hsub
        · rw [ownerMonitor_of_none hnone]
          rfl
    | rollback =>
      obtain ⟨rfl, rfl⟩ := step_rollback hstep
      refine ⟨(hsame rfl).2, fun _ => ⟨fun hl => ?_, fun hl => (hby hl).ended hsub fun hnone => ?_⟩,
        hothers (hsame rfl).1⟩
      · rw [ownerMonitor_of_target hl] at hok
        cases hok
      · rw [ownerMonitor_of_none hnone]
        rfl
    | raise => cases r
    | _ =>
      obtain ⟨hdb, -, rfl⟩ := step_quiet rfl hstep
      refine ⟨(hsame hdb).2, fun _ => ⟨fun hl => ?_, fun hl => ?_⟩, hothers (hsame hdb).1⟩
      · have hown := hown hl
        rw [ownerMonitor_of_target hl] at hown ⊢
        exact hown.grow hsub (hsame hdb).1
      · have hnext := (hby hl).grow hsub
        cases htarget : p.label.target with
        | none =>
          rw [ownerMonitor_of_none htarget] at hnext ⊢
          exact hnext
        | some d =>
          rw [ownerMonitor_of_target htarget] at hnext ⊢
          exact hnext

/-- **A conversation the bot answers has no owner, and an owner's label and account are those of one
take-over**, in every state of a run in which every take-over and every hand-back commits over a row
that still has the values it leaves out. -/
theorem owned (h₀ : w₀.db.Owned (owners c []) c) (h : Reach (sem cfg) (Current c) w₀ s) :
    s.shared.db.Owned (owners c s.hist) c :=
  (h.rely (owner_rely h₀)).1

/-- A delivery of one text, to its end. -/
def delivered (body : String) (n : Nat) : List Sample.Action :=
  [.spawn (.webhook (Sample.delivery [Sample.textMessage "20100" "wamid.1" body]))] ++
    Sample.steps 0 n Sample.acceptedUnnamed ++ [.finish 0]

def byMona : Task := .takeOver 5 (some "Mona") (some 1)

/-- The conversation has this label and this account. -/
def labelled (operator : Option String) (operatorId : Option Nat) (s : Sys botSig World Tx Task) :
    Bool :=
  (s.shared.db.conversation 5).any fun x =>
    x.assignedOperator = operator ∧ x.assignedOperatorId = operatorId

/-- The customer asks for a human, and an operator takes over. -/
theorem owned_by_mona : ∃ s : Sys botSig World Tx Task,
    labelled (some "Mona") (some 1) s = true ∧ s.shared.db.Owned (owners 5 s.hist) 5 := by
  obtain ⟨s, hs, hrun⟩ := Reach.exists_of_run (M := sem Sample.config) (C := Current 5)
    (w := World.empty 0) (delivered "human" 30 ++ [.spawn byMona] ++
      Sample.steps 1 6 Sample.acceptedUnnamed)
    (labelled (some "Mona") (some 1)) (by decide +kernel)
  exact ⟨s, hrun, owned (fun x hx => by cases hx) hs⟩

/-- After a handoff a hand-back and a take-over both read the row, and the hand-back commits last: the
bot's conversation has an owner. And where two take-overs read the bot's row, one by an operator
without an account, the row ends with the label of the one and the account of the other. -/
theorem disowned :
    (∃ s, Reach (sem Sample.config) anyStep (World.empty 0) s ∧
      (s.shared.db.conversation 5).any (·.mode = .bot) = true ∧
      labelled (some "Mona") (some 1) s = true ∧ ¬s.shared.db.Owned (owners 5 s.hist) 5) ∧
    ∃ s, Reach (sem Sample.config) anyStep (World.empty 0) s ∧
      labelled (some "Ali") (some 1) s = true ∧ ¬s.shared.db.Owned (owners 5 s.hist) 5 := by
  constructor
  · obtain ⟨s, hs, hrun⟩ := Reach.exists_of_run (M := sem Sample.config) (C := anyStep)
      (w := World.empty 0) (delivered "human" 30 ++ [.spawn (.resumeAi 5), .spawn byMona] ++
        Sample.steps 1 1 Sample.acceptedUnnamed ++ Sample.steps 2 6 Sample.acceptedUnnamed ++
        Sample.steps 1 3 Sample.acceptedUnnamed)
      (fun s => (s.shared.db.conversation 5).any (·.mode = .bot) ∧ labelled (some "Mona") (some 1) s)
      (by decide +kernel)
    obtain ⟨hbot, hlabel⟩ := of_decide_eq_true hrun
    refine ⟨s, hs, hbot, hlabel, fun howned => ?_⟩
    obtain ⟨x, hx, hmode⟩ := (Option.any_eq_true _ _).mp hbot
    obtain ⟨y, hy, hpair⟩ := (Option.any_eq_true _ _).mp hlabel
    obtain rfl := Option.some.inj (hx.symm.trans hy)
    have hnone := ((howned x hx).bot (of_decide_eq_true hmode)).1
    cases hnone.symm.trans (of_decide_eq_true hpair).1
  · obtain ⟨s, hs, hrun⟩ := Reach.exists_of_run (M := sem Sample.config) (C := anyStep)
      (w := World.empty 0) (delivered "hello" 29 ++
        [.spawn (.takeOver 5 (some "Ali") none), .spawn byMona] ++
        Sample.steps 1 1 Sample.acceptedUnnamed ++ Sample.steps 2 6 Sample.acceptedUnnamed ++
        Sample.steps 1 5 Sample.acceptedUnnamed)
      (fun s => labelled (some "Ali") (some 1) s ∧
        s.hist.all fun e => !tookOver 5 (some "Ali") (some 1) e)
      (by decide +kernel)
    obtain ⟨hlabel, hnobody⟩ := of_decide_eq_true hrun
    refine ⟨s, hs, hlabel, fun howned => ?_⟩
    obtain ⟨x, hx, hpair⟩ := (Option.any_eq_true _ _).mp hlabel
    obtain ⟨hoperator, hid⟩ := of_decide_eq_true hpair
    rcases (howned x hx).pair with ⟨hnone, -⟩ | ⟨e, he, htook⟩
    · cases hnone.symm.trans hoperator
    · change tookOver 5 x.assignedOperator x.assignedOperatorId e = true at htook
      rw [hoperator, hid] at htook
      have hnot := List.all_eq_true.mp hnobody e he
      rw [htook] at hnot
      cases hnot

end Webhook
