import WhatsAppBot.Channels.Comments
import WhatsAppBot.Channels.Outbound
import WhatsAppBot.Lib.Rely
import WhatsAppBot.Store.Proof.Posting
import WhatsAppBot.Webhook.Proof.Teller
import WhatsAppBot.Webhook.Sample

/-!
# The transcript over a whole run

A row keeps the whole text; what reaches the customer went through the limit of the sender that was
used. `transcript_as_cut`: an outbound row that says `sent` stands for a send of its own text that
went well, and what reached the provider is the text, cut to the sender's limit: the text itself
exactly when it is within that limit. `transcript_shortened` is a run in which a long answer on Instagram is
stored whole and received in part.
-/

set_option autoImplicit false

namespace Webhook

open Lib Store Bot Chat Channels

/-! ## What a run has entered and sent -/

def entryOf (m : Message) : Entry := ⟨m.id, m.direction, m.conversationId, m.content⟩

/-- The row a statement inserts. -/
def inserts : (s : Stmt) → s.Resp → Option Entry
  | .claimInbound c _ _ content _, r => Option.map (α := Nat) (⟨·, .inbound, c, content⟩) r
  | .reserveReply c _ content _, r => Option.map (α := Nat) (⟨·, .outbound, c, some content⟩) r
  | .create c content _ _, id => some ⟨id, .outbound, c, some content⟩
  | _, _ => none

/-- The outbound row a statement marks as gone out. -/
def marks : (s : Stmt) → s.Resp → Option Nat
  | .confirmReply id waMessageId status, _ => if isMarked waMessageId status then some id else none
  | .create _ _ waMessageId status, id => if isMarked waMessageId status then some id else none
  | _, _ => none

def entered : History → List Entry
  | [] => []
  | .op _ _ _ (.sql s) r _ :: h => (inserts s r).toList ++ entered h
  | _ :: h => entered h

/-- The last send of a process. -/
def lastSend (i : Nat) : History → Option Sending
  | [] => none
  | .op j _ _ (.send out) wire _ :: h => if j = i then some (out, wire) else lastSend i h
  | _ :: h => lastSend i h

/-- The rows marked as gone out, each with the last send of the process that marked it. -/
def dispatched : History → List (Nat × Sending)
  | [] => []
  | .op i _ _ (.sql s) r _ :: h =>
    ((marks s r).bind fun id => (lastSend i h).map (id, ·)).toList ++ dispatched h
  | _ :: h => dispatched h

theorem entered_cons (e : Event botSig World Tx Task) (h : History) :
    entered h ⊆ entered (e :: h) := by
  cases e with
  | op i l held o r w =>
    cases o with
    | sql s => exact List.subset_append_right _ _
    | _ => exact List.Subset.refl _
  | _ => exact List.Subset.refl _

theorem dispatched_cons (e : Event botSig World Tx Task) (h : History) :
    dispatched h ⊆ dispatched (e :: h) := by
  cases e with
  | op i l held o r w =>
    cases o with
    | sql s => exact List.subset_append_right _ _
    | _ => exact List.Subset.refl _
  | _ => exact List.Subset.refl _

theorem lastSend_other {i : Nat} {e : Event botSig World Tx Task} {h : History} (hi : e.actor ≠ i) :
    lastSend i (e :: h) = lastSend i h := by
  cases e with
  | op j l held o r w =>
    cases o with
    | send => exact if_neg hi
    | _ => rfl
  | _ => rfl

/-! ## Accounts -/

/-- The row has been entered, and an outbound one has a send of its text that went well. -/
def Told (h : History) (id : Nat) : Prop :=
  ∃ e ∈ entered h, e.id = id ∧ (e.direction = .outbound →
    ∃ x, (id, x) ∈ dispatched h ∧ x.Tells e.conversationId e.content)

theorem Told.cons {h : History} {id : Nat} (ht : Told h id) (e : Event botSig World Tx Task) :
    Told (e :: h) id := by
  obtain ⟨f, hf, hid, hout⟩ := ht
  refine ⟨f, entered_cons e h hf, hid, fun hdir => ?_⟩
  obtain ⟨x, hx, htells⟩ := hout hdir
  exact ⟨x, dispatched_cons e h hx, htells⟩

/-- The row has gone out, or come in. -/
def isPosted (m : Message) : Prop := m.waMessageId ≠ none ∨ m.status = some statusSent

/-- The history accounts for the row. -/
structure Accounts (h : History) (m : Message) : Prop where
  entered : entryOf m ∈ entered h
  told : isPosted m → Told h m.id

/-- The history accounts for what the write says. -/
def Vouches (h : History) : Write → Prop
  | .insertMessage m => Accounts h m
  | .updateMessage id (.confirm waMessageId status) =>
    isMarked waMessageId status = true → Told h id
  | .updateMessage id (.setStatus _) => Told h id
  | _ => True

variable {h : History} {db : Db} {tx ws : Tx} {m : Message} {v : Write}

theorem Accounts.cons (ha : Accounts h m) (e : Event botSig World Tx Task) : Accounts (e :: h) m :=
  ⟨entered_cons e h ha.entered, fun hm => (ha.told hm).cons e⟩

theorem Vouches.cons (hv : Vouches h v) (e : Event botSig World Tx Task) : Vouches (e :: h) v := by
  cases v with
  | insertMessage m => exact Accounts.cons hv e
  | updateMessage id u =>
    cases u with
    | confirm waMessageId status => exact fun hm => (hv hm).cons e
    | setStatus status => exact Told.cons hv e
    | setOperator => trivial
  | _ => trivial

theorem isPosted_of_isMarked {wa : Option String} {status : String} :
    isMarked wa status = true ↔ (wa ≠ none ∨ some status = some statusSent) := by
  rw [isMarked, decide_eq_true_eq, Option.some.injEq]

/-- A vouched write keeps every row accounted for. -/
theorem accounts_apply (hdb : ∀ m ∈ db.messages, Accounts h m) (hv : Vouches h v) :
    ∀ m ∈ (db.apply v).messages, Accounts h m := by
  cases hmessage : v.isMessage with
  | false =>
    rw [Db.messages_apply hmessage]
    exact hdb
  | true =>
    cases v with
    | insertMessage n =>
      intro m hm
      rcases List.mem_append.mp hm with hm | hm
      · exact hdb m hm
      · rw [List.mem_singleton.mp hm]
        exact hv
    | updateMessage id u =>
      intro m hm
      obtain ⟨n, hn, rfl⟩ := List.mem_map.mp hm
      have hrow := hdb n hn
      split
      · rename_i hid
        subst hid
        cases u with
        | confirm wa status => exact ⟨hrow.entered, fun hm => hv (isPosted_of_isMarked.mpr hm)⟩
        | setStatus status => exact ⟨hrow.entered, fun _ => hv⟩
        | setOperator operatorId => exact ⟨hrow.entered, hrow.told⟩
      · exact hrow
    | _ => cases hmessage

theorem accounts_applyAll (hdb : ∀ m ∈ db.messages, Accounts h m) (htx : ∀ v ∈ tx, Vouches h v) :
    ∀ m ∈ (db.applyAll tx).messages, Accounts h m := by
  induction tx generalizing db with
  | nil => exact hdb
  | cons v tx ih =>
    refine ih (accounts_apply hdb (htx v (List.mem_cons_self ..))) fun x hx => ?_
    exact htx x (List.mem_cons_of_mem _ hx)

/-! ## One statement -/

variable {now : Time} {seq : Nat} {locked : Nat → Bool} {s : Stmt} {r : s.Resp}

/-- A statement that answers with a row inserts it under the next id. -/
theorem inserts_id (hexec : s.exec now seq locked db = some (r, ws)) {e : Entry}
    (he : inserts s r = some e) : e.id = seq := by
  cases s with
  | claimInbound | reserveReply =>
    simp only [Stmt.exec] at hexec
    split at hexec
    · obtain ⟨rfl, -⟩ := Prod.mk.inj (Option.some.inj hexec)
      cases he
    · split at hexec
      · obtain ⟨rfl, -⟩ := Prod.mk.inj (Option.some.inj hexec)
        obtain rfl := Option.some.inj he
        rfl
      · cases hexec
  | create =>
    simp only [Stmt.exec] at hexec
    split at hexec
    · cases hexec
    · split at hexec
      · obtain ⟨rfl, -⟩ := Prod.mk.inj (Option.some.inj hexec)
        obtain rfl := Option.some.inj he
        rfl
      · cases hexec
  | _ => cases he

/-- An inserted row is the one the statement answers with. One that has gone out is marked. -/
theorem inserts_of_exec (hexec : s.exec now seq locked db = some (r, ws))
    (hm : .insertMessage m ∈ ws) : inserts s r = some (entryOf m) ∧
      (m.direction = .outbound → isPosted m → marks s r = some m.id) := by
  have hmade := Stmt.exec_made hexec hm
  cases s with
  | claimInbound c key type content mediaId =>
    simp only [Stmt.exec] at hexec
    split at hexec
    · obtain ⟨-, rfl⟩ := Prod.mk.inj (Option.some.inj hexec)
      cases hm
    · split at hexec
      · obtain ⟨rfl, rfl⟩ := Prod.mk.inj (Option.some.inj hexec)
        cases List.mem_singleton.mp hm
        exact ⟨rfl, fun hout => by cases hout⟩
      · cases hexec
  | reserveReply c key content type =>
    simp only [Stmt.exec] at hexec
    split at hexec
    · obtain ⟨-, rfl⟩ := Prod.mk.inj (Option.some.inj hexec)
      cases hm
    · split at hexec
      · obtain ⟨rfl, rfl⟩ := Prod.mk.inj (Option.some.inj hexec)
        cases List.mem_singleton.mp hm
        refine ⟨rfl, fun _ hposted => ?_⟩
        rcases hposted with hwa | hstatus
        · exact absurd rfl hwa
        · exact absurd (Option.some.inj hstatus) (show statusPending ≠ statusSent by decide)
      · cases hexec
  | create c content wa status =>
    simp only [Stmt.exec] at hexec
    split at hexec
    · cases hexec
    · split at hexec
      · obtain ⟨rfl, rfl⟩ := Prod.mk.inj (Option.some.inj hexec)
        cases List.mem_singleton.mp hm
        exact ⟨rfl, fun _ hposted => if_pos (isPosted_of_isMarked.mpr hposted)⟩
      · cases hexec
  | _ => rcases hmade with ⟨_, _, _, _, h, -⟩ | ⟨_, _, _, h, -⟩ | ⟨_, _, _, h, -⟩ <;> cases h

/-- The history accounts for the writes of a statement that marks only what is told. -/
theorem vouches_exec {h' : History} (hexec : s.exec now seq locked db = some (r, ws))
    (hdb : ∀ m ∈ db.messages, Accounts h' m)
    (hinserts : ∀ e, inserts s r = some e → e ∈ entered h')
    (hmarks : ∀ id, marks s r = some id → Told h' id) (hv : v ∈ ws) : Vouches h' v := by
  have hmade := Stmt.exec_made hexec hv
  cases v with
  | insertMessage m =>
    obtain ⟨hentry, hmarked⟩ := inserts_of_exec hexec hv
    refine ⟨hinserts _ hentry, fun hposted => ?_⟩
    cases hdir : m.direction with
    | outbound => exact hmarks _ (hmarked hdir hposted)
    | inbound =>
      refine ⟨entryOf m, hinserts _ hentry, rfl, fun hout => ?_⟩
      exact nomatch hdir.symm.trans hout
  | updateMessage id u =>
    cases u with
    | confirm wa status =>
      obtain rfl : s = .confirmReply id wa status := hmade
      exact fun hmarked => hmarks id (if_pos hmarked)
    | setStatus status =>
      obtain ⟨k, rfl⟩ := hmade
      obtain ⟨-, rfl⟩ := Prod.mk.inj (Option.some.inj hexec)
      obtain ⟨m, hm, heq⟩ := List.mem_map.mp hv
      obtain ⟨hm, hk⟩ := List.mem_filter.mp hm
      cases heq
      refine (hdb m hm).told (.inl ?_)
      rw [of_decide_eq_true hk]
      exact nofun
    | setOperator => trivial
  | _ => trivial

/-! ## Every run -/

/-- What a process's teller knows is in the history. -/
structure Remembers (i : Nat) (a : Teller) (h : History) : Prop where
  reserved : ∀ e, a.reserved = some e → e ∈ entered h
  last : ∀ x, a.last = some x → lastSend i h = some x

theorem Remembers.own {i : Nat} {a : Teller} (ha : Remembers i a h) (l : Task) (held : Tx)
    (o : Op) (r : o.Resp) (w : World) :
    Remembers i (tellerMonitor.next a o r) (.op i l held o r w :: h) := by
  have hsame : ∀ e, a.reserved = some e → e ∈ entered (.op i l held o r w :: h) :=
    fun e he => entered_cons _ h (ha.reserved e he)
  cases o with
  | sql s =>
    cases s with
    | reserveReply c key content type =>
      refine ⟨fun e he => List.mem_append_left _ ?_, ha.last⟩
      exact Option.mem_toList.mpr he
    | _ => exact ⟨hsame, ha.last⟩
  | send out =>
    refine ⟨hsame, fun x hx => ?_⟩
    rw [← hx]
    exact if_pos rfl
  | _ => exact ⟨hsame, ha.last⟩

variable {cfg : Config} {clock : Time} {σ : Sys botSig World Tx Task}

theorem remembers (hr : Reach (sem cfg) anyStep (World.empty clock) σ) {i : Nat}
    {p : Proc botSig Tx Task} (hp : σ.proc i = some p) :
    Remembers i (track tellerMonitor .clear i σ.hist) σ.hist := by
  refine hr.traced (fun _ => True) (fun i h => ⟨nofun, nofun⟩) (fun hi ha => ?_)
    (fun _ _ _ _ _ ha => ha.own _ _ _ _ _) hp trivial
  refine ⟨fun e he => entered_cons _ _ (ha.reserved e he), fun x hx => ?_⟩
  rw [lastSend_other hi]
  exact ha.last x hx

/-- What is marked has been sent. -/
theorem told_of_marks {i : Nat} {a : Teller} (ha : Remembers i a h) {s : Stmt} {r : s.Resp}
    (hok : tellerMonitor.ok a (.sql s)) {id : Nat} (hid : marks s r = some id) (l : Task)
    (held : Tx) (w : World) : Told (.op i l held (.sql s) r w :: h) id := by
  have hsends : ∀ x, a.last = some x →
      (id, x) ∈ dispatched (.op i l held (.sql s) r w :: h) := by
    intro x hx
    refine List.mem_append_left _ (Option.mem_toList.mpr ?_)
    rw [hid, Option.bind_some, ha.last x hx]
    rfl
  cases s with
  | confirmReply n wa status =>
    simp only [marks] at hid
    split at hid
    · rename_i hmarked
      obtain ⟨e, x, hreserved, hlast, rfl, htells⟩ := hok hmarked
      obtain rfl := Option.some.inj hid
      exact ⟨e, entered_cons _ h (ha.reserved e hreserved), rfl, fun _ =>
        ⟨x, hsends x hlast, htells⟩⟩
    · cases hid
  | create c content wa status =>
    simp only [marks] at hid
    split at hid
    · rename_i hmarked
      obtain ⟨x, hlast, htells⟩ := hok hmarked
      obtain rfl := Option.some.inj hid
      exact ⟨_, List.mem_append_left _ (Option.mem_toList.mpr rfl), rfl, fun _ =>
        ⟨x, hsends x hlast, htells⟩⟩
    · cases hid
  | _ => cases hid

/-- The rows entered have ids of their own, and the committed ones are accounted for. -/
structure Kept (w : World) (h : History) : Prop where
  below : ∀ e ∈ entered h, e.id < w.seq
  distinct : ((entered h).map (·.id)).Nodup
  accounts : ∀ m ∈ w.db.messages, Accounts h m

theorem Kept.cons {w w' : World} (hk : Kept w h) {e : Event botSig World Tx Task}
    (he : entered (e :: h) = entered h) (hseq : w.seq ≤ w'.seq)
    (hdb : ∀ m ∈ w'.db.messages, Accounts (e :: h) m) : Kept w' (e :: h) := by
  refine ⟨fun f hf => ?_, ?_, hdb⟩
  · rw [he] at hf
    exact Nat.lt_of_lt_of_le (hk.below f hf) hseq
  · rw [he]
    exact hk.distinct

theorem Kept.statement {w w' : World} (hk : Kept w h) {i : Nat} {l : Task} {held : Tx} {s : Stmt}
    {r : s.Resp} (hid : ∀ e, inserts s r = some e → e.id = w.seq) (hseq : w'.seq = w.seq + 1)
    (hdb : w'.db = w.db) : Kept w' (.op i l held (.sql s) r w' :: h) := by
  have hrows : ∀ m ∈ w'.db.messages, Accounts (.op i l held (.sql s) r w' :: h) m := by
    rw [hdb]
    exact fun m hm => (hk.accounts m hm).cons _
  cases hinserts : inserts s r with
  | none =>
    refine hk.cons ?_ (by omega) hrows
    show (inserts s r).toList ++ entered h = entered h
    rw [hinserts]
    rfl
  | some e =>
    have hentered : entered (.op i l held (.sql s) r w' :: h) = e :: entered h := by
      show (inserts s r).toList ++ entered h = _
      rw [hinserts]
      rfl
    have hnew := hid e hinserts
    refine ⟨fun f hf => ?_, ?_, hrows⟩
    · rw [hentered] at hf
      rcases List.mem_cons.mp hf with rfl | hf
      · omega
      · have hlt := hk.below f hf
        omega
    · rw [hentered, List.map_cons, List.nodup_cons]
      refine ⟨fun hmem => ?_, hk.distinct⟩
      obtain ⟨f, hf, hfid⟩ := List.mem_map.mp hmem
      have hlt := hk.below f hf
      omega

theorem transcript_rely (cfg : Config) (clock : Time) : Rely (sem cfg) anyStep (World.empty clock)
    (fun _ => True) (fun _ => tellerMonitor) .clear Kept
    (fun _ _ _ h tx => ∀ v ∈ tx, Vouches h v) where
  program l _ := (teller_accepts cfg).program l
  may _ := trivial
  start := ⟨nofun, List.nodup_nil, nofun⟩
  fresh _ _ := fun _ hv => absurd hv List.not_mem_nil
  quiet {e w h} he hI := by
    have hsame : entered (e :: h) = entered h := by
      cases e with
      | op => cases he
      | _ => rfl
    exact ⟨hI.cons hsame (Nat.le_refl _) fun m hm => (hI.accounts m hm).cons e,
      fun _ _ _ hf v hv => (hf v hv).cons e⟩
  op {s i p o rest r w tx} := by
    intro hr hI hF hp _ hok hstep _ h
    have hself : ∀ v ∈ p.held, Vouches h v := fun v hv => (hF i p hp trivial v hv).cons _
    have hrows : ∀ m ∈ s.shared.db.messages, Accounts h m := fun m hm => (hI.accounts m hm).cons _
    have hothers : ∀ j q, j ≠ i → s.proc j = some q → True → ∀ v ∈ q.held, Vouches h v :=
      fun j q _ hq _ v hv => (hF j q hq trivial v hv).cons _
    change step cfg _ _ _ o r = _ at hstep
    cases o with
    | sql stmt =>
      obtain ⟨ws, hexec, -, hdb, hseq, rfl⟩ := step_sql hstep
      refine ⟨hI.statement (fun e => inserts_id hexec) hseq hdb, fun _ v hv => ?_, hothers⟩
      rcases List.mem_append.mp hv with hv | hv
      · exact hself v hv
      · refine vouches_exec hexec (accounts_applyAll hrows hself) (fun e he => ?_)
          (fun id hid => ?_) hv
        · exact List.mem_append_left _ (Option.mem_toList.mpr he)
        · exact told_of_marks (remembers hr hp) (hok trivial) hid _ _ _
    | commit =>
      obtain ⟨hdb, hseq, rfl⟩ := step_commit hstep
      refine ⟨hI.cons rfl (Nat.le_of_eq hseq.symm) ?_,
        fun _ _ hv => absurd hv List.not_mem_nil, hothers⟩
      rw [hdb]
      exact accounts_applyAll hrows hself
    | rollback =>
      obtain ⟨rfl, rfl⟩ := step_rollback hstep
      exact ⟨hI.cons rfl (Nat.le_refl _) hrows, fun _ _ hv => absurd hv List.not_mem_nil, hothers⟩
    | raise => cases r
    | _ =>
      obtain ⟨hdb, hseq, rfl⟩ := step_quiet rfl hstep
      refine ⟨hI.cons rfl (Nat.le_of_eq hseq.symm) ?_, fun _ => hself, hothers⟩
      rw [hdb]
      exact hrows

/-- The send behind an outbound row that has gone out. -/
theorem send_of_posted (hr : Reach (sem cfg) anyStep (World.empty clock) σ)
    (hm : m ∈ σ.shared.db.messages) (hout : m.direction = .outbound) (hposted : isPosted m) :
    ∃ x, (m.id, x) ∈ dispatched σ.hist ∧ x.Tells m.conversationId m.content := by
  obtain ⟨hkept, -⟩ := hr.rely (transcript_rely cfg clock)
  have hrow := hkept.accounts m hm
  obtain ⟨e, he, hid, htold⟩ := hrow.told hposted
  obtain rfl : e = entryOf m := List.inj_on_of_nodup_map hkept.distinct he hrow.entered hid
  exact htold hout

/-- **An outbound row that says `sent`** stands for a send of its text that went well. What reached
the provider is the text cut to the limit of the sender that was used: the whole text exactly when
it is within that limit. -/
theorem transcript_as_cut (hr : Reach (sem cfg) anyStep (World.empty clock) σ)
    (hm : m ∈ σ.shared.db.messages) (hout : m.direction = .outbound)
    (hsent : m.status = some statusSent) :
    ∃ out wire id, (m.id, out, wire) ∈ dispatched σ.hist ∧ wire.result = .sent id ∧
      out.conversationId = m.conversationId ∧ m.content = some out.text ∧ arrived out wire ≠ [] ∧
      ∀ r ∈ arrived out wire, r.limit.IsCut out.text r.text ∧
        (m.content = some r.text ↔ r.limit.Fits out.text) := by
  obtain ⟨⟨out, wire⟩, hsends, hconv, hcontent, id, hresult⟩ :=
    send_of_posted hr hm hout (.inr hsent)
  refine ⟨out, wire, id, hsends, hresult, hconv, hcontent, arrived_ne_nil hresult, fun r hr => ?_⟩
  refine ⟨arrived_isCut hr, ?_⟩
  rw [hcontent, Option.some.injEq, eq_comm]
  exact arrived_whole_iff hr

/-! ## A long answer -/

/-- An answer of `n` letters, each of which takes up two bytes. -/
def letters (n : Nat) : String := String.ofList (List.replicate n 'ا')

@[irreducible] def longAnswer : String := letters 1001

/-- Sessions open without a welcome. -/
def plainConfig : Config :=
  { Sample.config with session := { Sample.session with enableWelcomeOnNewSession := false } }

def answerAtLength (w : World) (tx : Tx) : (o : Op) → Option o.Resp
  | .generateReply _ _ => some (.ok ⟨longAnswer, "model", none, none, none, none⟩)
  | o => Sample.answer Sample.accepted w tx o

/-- A worker answers the comment `c1` under an Instagram post. -/
def answeredAtLength : List Sample.Action :=
  [.spawn (.metaWebhook [instagramComments plainConfig]
    (.obj [("entry", .arr [.obj [("id", .str "ig"), ("changes", .arr [.obj [
      ("field", .str "comments"), ("value", .obj [("id", .str "c1"), ("text", .str "which services?"),
        ("from", .obj [("id", .str "u1"), ("username", .str "sara")])])]])]])]))] ++
    List.replicate 32 (.op 0 answerAtLength)

/-- The row says `sent` and holds the answer; the provider took the public reply. -/
def storedAtLength (σ : Sys botSig World Tx Task) (m : Message) : Prop :=
  m.direction = .outbound ∧ m.status = some statusSent ∧ m.content = some longAnswer ∧
    ∃ y ∈ dispatched σ.hist, y.1 = m.id ∧ y.2.1.text = longAnswer ∧
      senderLimit y.2.1 = .bytes instagramCommentTextMaxBytes ∧ y.2.2 = Sample.accepted

instance (σ : Sys botSig World Tx Task) (m : Message) : Decidable (storedAtLength σ m) :=
  inferInstanceAs (Decidable (_ ∧ _ ∧ _ ∧ _))

set_option maxRecDepth 10000 in
theorem exists_storedAtLength : ∃ σ, Reach (sem plainConfig) anyStep (World.empty 0) σ ∧
    ∃ m ∈ σ.shared.db.messages, storedAtLength σ m := by
  obtain ⟨σ, hr, hrun⟩ := Reach.exists_of_run (M := sem plainConfig) (C := anyStep)
    (w := World.empty 0) answeredAtLength
    (fun σ => ∃ m ∈ σ.shared.db.messages, storedAtLength σ m) (by decide +kernel)
  exact ⟨σ, hr, of_decide_eq_true hrun⟩

theorem letters_bytes (n : Nat) : ((letters n).toList.map Char.utf8Size).sum = n * 2 := by
  rw [letters, String.toList_ofList, List.map_replicate, List.sum_replicate_nat]
  rfl

theorem not_fits_longAnswer : ¬ (Limit.bytes instagramCommentTextMaxBytes).Fits longAnswer := by
  intro h
  have hle : (longAnswer.toList.map Char.utf8Size).sum ≤ 2000 := h
  unfold longAnswer at hle
  rw [letters_bytes] at hle
  omega

theorem transcript_as_cut_longAnswer : ∃ (σ : Sys botSig World Tx Task) (m : Message),
    m ∈ σ.shared.db.messages ∧ m.content = some longAnswer ∧
    ∃ out wire, (m.id, out, wire) ∈ dispatched σ.hist ∧ arrived out wire ≠ [] ∧
      ∀ r ∈ arrived out wire, r.limit.IsCut longAnswer r.text := by
  obtain ⟨σ, hr, m, hm, hout, hsent, hcontent, -⟩ := exists_storedAtLength
  obtain ⟨out, wire, id, hsends, -, -, htext, harrived, hcut⟩ := transcript_as_cut hr hm hout hsent
  have hlong : out.text = longAnswer := Option.some.inj (htext.symm.trans hcontent)
  rw [hlong] at hcut
  exact ⟨σ, m, hm, hcontent, out, wire, hsends, harrived, fun r hr => (hcut r hr).1⟩

/-- A row that says `sent` and what reached the provider can differ. -/
theorem transcript_shortened : ¬ ∀ cfg clock σ, Reach (sem cfg) anyStep (World.empty clock) σ →
    ∀ m ∈ σ.shared.db.messages, m.direction = .outbound → m.status = some statusSent →
    ∀ out wire, (m.id, out, wire) ∈ dispatched σ.hist →
    ∀ r ∈ arrived out wire, m.content = some r.text := by
  intro h
  obtain ⟨σ, hr, m, hm, hout, hsent, hcontent, ⟨_, out, wire⟩, hy, rfl, htext, hlimit, rfl⟩ :=
    exists_storedAtLength
  dsimp only at htext hlimit
  have hall := h _ _ σ hr m hm hout hsent out Sample.accepted hy
    ⟨⟨true, .ok (some "out")⟩, senderLimit out, (senderLimit out).cut out.text⟩
    (List.mem_singleton.mpr rfl)
  rw [hcontent, hlimit, htext] at hall
  have hcut := (Option.some.inj hall).symm
  exact not_fits_longAnswer (Limit.cut_eq_self_iff.mp hcut)

end Webhook
