import WhatsAppBot.Store.Proof.Statuses

/-!
# Statuses under an open transaction

`Posting db seq own rs tx` is what an open transaction needs for `Tracked` to hold once it commits. A
statement is a small transaction over what its own sees, so its step is a composition
(`Posting.trans`, `Stmt.posting`); and the commit of any transaction that is apart from it leaves an
open one what it needs (`Posting.after`).
-/

set_option autoImplicit false

namespace Store

/-- What an open transaction, in which `own` was reported, needs. -/
structure Posting (db : Db) (seq : Nat) (own rs : List Report) (tx : Tx) : Prop where
  tracked : Tracked (db.applyAll tx) seq (own ++ rs)
  touches : Touches db tx
  keeps : ∀ m ∈ db.messages, ∀ k, m.waMessageId = some k →
    (Tx.revise tx m).waMessageId = some k ∧ m.rank ≤ (Tx.revise tx m).rank
  locked : ∀ r ∈ own, 1 < rankOf r.status → ∀ m ∈ (db.applyAll tx).messages,
    m.waMessageId = some r.waMessageId → Tx.holds tx (.message m.id) = true

variable {db : Db} {seq seq' : Nat} {own rs theirOwn : List Report} {tx mine theirs ws : Tx}
  {m n : Message} {k status : String} {r : Report}

/-! ## Statements -/

theorem Tx.revise_append (tx ws : Tx) (m : Message) :
    Tx.revise (tx ++ ws) m = Tx.revise ws (Tx.revise tx m) :=
  List.foldl_append

namespace Posting

/-- A transaction that has done nothing yet. -/
theorem start (h : Tracked db seq rs) : Posting db seq [] rs [] where
  tracked := h
  touches _ hid := nomatch hid
  keeps _ _ _ hk := ⟨hk, Nat.le_refl _⟩
  locked _ hr := nomatch hr

theorem mono (h : Posting db seq own rs tx) (hseq : seq ≤ seq') : Posting db seq' own rs tx :=
  { h with tracked := h.tracked.mono hseq }

/-- **A statement** is a small transaction over what its own sees. -/
theorem trans {new : List Report} (h : Posting db seq own rs tx)
    (hws : Posting (db.applyAll tx) seq' new (own ++ rs) ws) :
    Posting db seq' (new ++ own) rs (tx ++ ws) where
  tracked := by
    rw [Db.applyAll_append, List.append_assoc]
    exact hws.tracked
  touches id hid := by
    rw [Tx.holds_append, Bool.or_eq_true] at hid
    rw [Db.applyAll_append]
    rcases hid with hid | hid
    · exact (h.touches id hid).applyAll ws
    · exact hws.touches id hid
  keeps m hm k hk := by
    obtain ⟨hk', hle⟩ := h.keeps m hm k hk
    have hlater := hws.keeps _ (Db.mem_messages_applyAll.mpr (.inl ⟨m, hm, rfl⟩)) k hk'
    rw [Tx.revise_append]
    exact ⟨hlater.1, Nat.le_trans hle hlater.2⟩
  locked r hr hlt m hm hk := by
    rw [Db.applyAll_append] at hm
    rw [Tx.holds_append, Bool.or_eq_true]
    rcases List.mem_append.mp hr with hr | hr
    · exact .inr (hws.locked r hr hlt m hm hk)
    · obtain ⟨y, hy, hyk⟩ := h.tracked.kept r (List.mem_append_left _ hr) hlt
      have hid := hws.tracked.one _ (Db.mem_messages_applyAll.mpr (.inl ⟨y, hy, rfl⟩)) m hm _
        (hws.keeps y hy _ hyk).1 hk
      rw [Tx.revise_id] at hid
      exact .inl (hid ▸ h.locked r hr hlt y hy hyk)

end Posting

/-- The reports of a statement. -/
def Stmt.reports : Stmt → List Report
  | .updateStatusByWaId k status => [⟨k, status⟩]
  | _ => []

/-- What a statement is right to rely on: a row it confirms has no provider's id yet, a row that is
sent at once says so, and a status comes in order. -/
def Stmt.Apt (db : Db) : Stmt → Prop
  | .confirmReply id waMessageId status =>
    db.Unposted id ∧ (waMessageId ≠ none → status = statusSent)
  | .create _ _ _ status => status = statusSent
  | .setOperator id _ => db.HasMessage id
  | .updateStatusByWaId k status => db.InOrder k status
  | _ => True

/-- A statement that writes no message. -/
def Stmt.isAside : Stmt → Bool
  | .claimInbound _ _ _ _ _ | .reserveReply _ _ _ _ | .confirmReply _ _ _ | .create _ _ _ _
  | .setOperator _ _ | .updateStatusByWaId _ _ => false
  | _ => true

section

variable {now : Time} {locked : Nat → Bool} {s : Stmt} {resp : s.Resp}

theorem Stmt.exec_aside (h : s.exec now seq locked db = some (resp, ws)) (hs : s.isAside = true) :
    ∀ v ∈ ws, v.isMessage = false := by
  intro v hv
  have hmade := Stmt.exec_made h hv
  cases v with
  | insertMessage m =>
    rcases hmade with ⟨_, _, _, _, rfl, -⟩ | ⟨_, _, _, rfl, -⟩ | ⟨_, _, _, rfl, -⟩ <;> cases hs
  | updateMessage id u =>
    cases u with
    | confirm | setOperator => obtain rfl := hmade; cases hs
    | setStatus => obtain ⟨k, rfl⟩ := hmade; cases hs
  | _ => rfl

end

theorem Tx.holds_of_aside {id : Nat} (h : ∀ v ∈ ws, v.isMessage = false) :
    Tx.holds ws (.message id) = false := by
  refine List.any_eq_false.mpr fun v hv hlock => ?_
  have hno := h v hv
  cases v with
  | insertMessage | updateMessage => cases hno
  | insertUser u => cases hw : u.waId <;> simp [Write.locks, hw] at hlock
  | updateConversation _ _ u => cases u <;> simp [Write.locks] at hlock
  | _ => simp [Write.locks] at hlock

namespace Tracked

theorem aside (h : Tracked db seq rs) (hws : ∀ v ∈ ws, v.isMessage = false) :
    Posting db (seq + 1) [] rs ws where
  tracked := (h.of_messages (Db.messages_applyAll hws)).mono (Nat.le_succ seq)
  touches id hid := by
    rw [Tx.holds_of_aside hws] at hid
    cases hid
  keeps m _ k hk := by
    rw [Tx.revise_of_not_holds (Tx.holds_of_aside hws)]
    exact ⟨hk, Nat.le_refl _⟩
  locked _ hr := nomatch hr

theorem posting_insert (h : Tracked db seq rs) (hid : m.id = seq)
    (hnew : ∀ k, m.waMessageId = some k → db.hasWaMessageId k = false)
    (hsent : m.direction = .outbound → m.waMessageId ≠ none → m.rank = 1) :
    Posting db (seq + 1) [] rs [.insertMessage m] where
  tracked := h.insert hid hnew hsent
  touches id hheld := by
    cases hk : m.waMessageId <;> cases hr : m.replyToWaMessageId <;>
      simp [Tx.holds, Write.locks, hk, hr] at hheld
  keeps _ _ _ hk := ⟨hk, Nat.le_refl _⟩
  locked _ hr := nomatch hr

theorem update_touches {id : Nat} {u : MessageUpdate} (hn : n ∈ db.messages) (hid : n.id = id) :
    Touches db [.updateMessage id u] := by
  intro i hheld
  have hi : i = id := by
    cases u with
    | confirm wa _ => cases wa <;> simpa [Tx.holds, Write.locks] using hheld
    | _ => simpa [Tx.holds, Write.locks] using hheld
  exact ⟨_, Db.mem_messages_applyAll.mpr (.inl ⟨n, hn, rfl⟩), by rw [Tx.revise_id, hi, hid]⟩

theorem posting_confirm (h : Tracked db seq rs) {wa : Option String} (hn : n ∈ db.messages)
    (hnone : n.waMessageId = none) (hnew : ∀ k, wa = some k → db.hasWaMessageId k = false)
    (hsent : wa ≠ none → status = statusSent) :
    Posting db (seq + 1) [] rs [.updateMessage n.id (.confirm wa status)] where
  tracked := (h.confirm hn hnone hnew hsent).mono (Nat.le_succ seq)
  touches := update_touches hn rfl
  keeps m hm k hk := by
    have hne : m.id ≠ n.id := fun hid => by
      rw [h.distinct.eq hm hn hid, hnone] at hk
      cases hk
    rw [show Tx.revise [.updateMessage n.id (.confirm wa status)] m = m from if_neg hne]
    exact ⟨hk, Nat.le_refl _⟩
  locked _ hr := nomatch hr

theorem revise_setOperator (id : Nat) (operatorId : Option Nat) (m : Message) :
    let x := Tx.revise [.updateMessage id (.setOperator operatorId)] m
    x.waMessageId = m.waMessageId ∧ x.direction = m.direction ∧ x.rank = m.rank := by
  dsimp only [Tx.revise, List.foldl, Write.revise]
  split <;> exact ⟨rfl, rfl, rfl⟩

theorem posting_setOperator (h : Tracked db seq rs) {operatorId : Option Nat}
    (hn : n ∈ db.messages) :
    Posting db (seq + 1) [] rs [.updateMessage n.id (.setOperator operatorId)] := by
  have hsame := revise_setOperator n.id operatorId
  have htracked : Tracked (db.applyAll [.updateMessage n.id (.setOperator operatorId)]) seq rs :=
    h.revise rfl (fun m _ => (hsame m).1) (fun m _ => (hsame m).2.1)
      fun m _ _ => Nat.le_of_eq (hsame m).2.2.symm
  exact
    { tracked := htracked.mono (Nat.le_succ seq)
      touches := update_touches hn rfl
      keeps := fun m _ k hk => ⟨(hsame m).1.trans hk, Nat.le_of_eq (hsame m).2.2.symm⟩
      locked := fun _ hr => nomatch hr }

theorem posting_setStatuses (h : Tracked db seq rs) (hin : db.InOrder k status) :
    Posting db (seq + 1) [⟨k, status⟩] rs (db.setStatuses k status) where
  tracked := (h.setStatuses hin).mono (Nat.le_succ seq)
  touches id hheld := by
    obtain ⟨m, hm, -, rfl⟩ := Db.holds_setStatuses.mp hheld
    exact ⟨_, Db.mem_messages_applyAll.mpr (.inl ⟨m, hm, rfl⟩), Tx.revise_id _ m⟩
  keeps m hm j hj := by
    rw [h.revise_setStatuses hm]
    split
    · rename_i hk
      exact ⟨hj, hin.1 m hm hk⟩
    · exact ⟨hj, Nat.le_refl _⟩
  locked r hr _ m hm hk := by
    obtain rfl := List.mem_singleton.mp hr
    rcases Db.mem_messages_applyAll.mp hm with ⟨x, hx, rfl⟩ | hm
    · rw [Tx.revise_id]
      refine Db.holds_setStatuses.mpr ⟨x, hx, ?_, rfl⟩
      rw [h.revise_setStatuses hx] at hk
      split at hk
      · assumption
      · exact hk
    · rw [Db.inserted_setStatuses] at hm
      cases hm

end Tracked

theorem Db.absent_of {wa : Option String}
    (h : (db.messages.any fun m => m.waMessageId = wa ∧ wa ≠ none) = false) :
    ∀ k, wa = some k → db.hasWaMessageId k = false := by
  rintro k rfl
  simpa [Db.hasWaMessageId] using h

/-- **Every statement keeps the statuses tracked.** -/
theorem Stmt.posting {now : Time} {locked : Nat → Bool} {s : Stmt} {resp : s.Resp}
    (h : Tracked db seq rs) (hexec : s.exec now seq locked db = some (resp, ws)) (hs : s.Apt db) :
    Posting db (seq + 1) s.reports rs ws := by
  cases hside : s.isAside with
  | true =>
    have hnone : s.reports = [] := by cases s <;> first | rfl | cases hside
    rw [hnone]
    exact h.aside (Stmt.exec_aside hexec hside)
  | false =>
    cases s with
    | claimInbound c wa type content mediaId =>
      simp only [Stmt.exec] at hexec
      split at hexec
      · obtain ⟨-, rfl⟩ := Prod.mk.inj (Option.some.inj hexec)
        exact (Posting.start h).mono (Nat.le_succ seq)
      · rename_i hnew
        split at hexec
        · obtain ⟨-, rfl⟩ := Prod.mk.inj (Option.some.inj hexec)
          refine h.posting_insert rfl (fun k hk => ?_) fun hout => by cases hout
          obtain rfl := Option.some.inj hk
          exact Bool.eq_false_of_not_eq_true hnew
        · cases hexec
    | reserveReply c key content type =>
      simp only [Stmt.exec] at hexec
      split at hexec
      · obtain ⟨-, rfl⟩ := Prod.mk.inj (Option.some.inj hexec)
        exact (Posting.start h).mono (Nat.le_succ seq)
      · split at hexec
        · obtain ⟨-, rfl⟩ := Prod.mk.inj (Option.some.inj hexec)
          exact h.posting_insert rfl (fun _ hk => by cases hk) fun _ hno => absurd rfl hno
        · cases hexec
    | create c content wa status =>
      simp only [Stmt.exec] at hexec
      split at hexec
      · cases hexec
      · rename_i hnew
        split at hexec
        · obtain ⟨-, rfl⟩ := Prod.mk.inj (Option.some.inj hexec)
          obtain rfl : status = statusSent := hs
          exact h.posting_insert rfl (Db.absent_of (Bool.eq_false_of_not_eq_true hnew)) fun _ _ => rfl
        · cases hexec
    | confirmReply id wa status =>
      obtain ⟨⟨n, hn, rfl, hnone⟩, hsent⟩ := hs
      simp only [Stmt.exec] at hexec
      split at hexec
      · cases hexec
      · rename_i hnew
        obtain ⟨-, rfl⟩ := Prod.mk.inj (Option.some.inj hexec)
        refine h.posting_confirm hn hnone (fun k hk => Bool.eq_false_iff.mpr fun hhas => hnew ?_) hsent
        obtain ⟨m, hm, hmk⟩ := List.any_eq_true.mp hhas
        have hmk : m.waMessageId = some k := of_decide_eq_true hmk
        refine List.any_eq_true.mpr ⟨m, hm, decide_eq_true ⟨fun hid => ?_, hmk.trans hk.symm, ?_⟩⟩
        · rw [h.distinct.eq hm hn hid, hnone] at hmk
          cases hmk
        · rw [hk]
          exact Option.some_ne_none k
    | setOperator id operatorId =>
      obtain ⟨n, hn, rfl⟩ := hs
      obtain ⟨-, rfl⟩ := Prod.mk.inj (Option.some.inj hexec)
      exact h.posting_setOperator hn
    | updateStatusByWaId k status =>
      obtain ⟨-, rfl⟩ := Prod.mk.inj (Option.some.inj hexec)
      exact h.posting_setStatuses hs
    | _ => cases hside

/-- A new row gets the next id. -/
theorem Stmt.exec_insert_id {now : Time} {locked : Nat → Bool} {s : Stmt} {resp : s.Resp}
    (h : s.exec now seq locked db = some (resp, ws)) (hm : .insertMessage m ∈ ws) : m.id = seq := by
  have hone : ∀ {x : Message} {r : s.Resp}, x.id = seq →
      some (r, [Write.insertMessage x]) = some (resp, ws) → m.id = seq := by
    intro x r hx heq
    obtain ⟨-, rfl⟩ := Prod.mk.inj (Option.some.inj heq)
    rw [Write.insertMessage.inj (List.mem_singleton.mp hm), hx]
  have hnone : ∀ {r : s.Resp}, some (r, ([] : List Write)) = some (resp, ws) → m.id = seq := by
    intro r heq
    obtain ⟨-, rfl⟩ := Prod.mk.inj (Option.some.inj heq)
    cases hm
  rcases Stmt.exec_made h hm with ⟨_, _, _, _, rfl, -⟩ | ⟨_, _, _, rfl, -⟩ | ⟨_, _, _, rfl, -⟩ <;>
    simp only [Stmt.exec] at h <;> split at h
  · exact hnone h
  · split at h
    · exact hone rfl h
    · cases h
  · exact hnone h
  · split at h
    · exact hone rfl h
    · cases h
  · cases h
  · split at h
    · exact hone rfl h
    · cases h

/-- A statement enters a new row, or the one it confirms. -/
theorem Stmt.exec_enters {now : Time} {locked : Nat → Bool} {s : Stmt} {resp : s.Resp} {id : Nat}
    (h : s.exec now seq locked db = some (resp, ws)) (hid : Tx.enters ws id = true) :
    id = seq ∨ ∃ wa status, s = .confirmReply id wa status := by
  obtain ⟨v, hv, henters⟩ := List.any_eq_true.mp hid
  cases hside : s.isAside with
  | true =>
    have hno := Stmt.exec_aside h hside v hv
    cases v with
    | insertMessage | updateMessage => cases hno
    | _ => cases henters
  | false =>
    have hmade := Stmt.exec_made h hv
    cases v with
    | insertMessage m =>
      have hm : m.id = id := of_decide_eq_true henters
      rcases hmade with ⟨_, _, _, _, rfl, -⟩ | ⟨_, _, _, rfl, -⟩ | ⟨_, _, _, rfl, -⟩ <;>
        exact .inl (hm ▸ Stmt.exec_insert_id h hv)
    | updateMessage i u =>
      cases u with
      | confirm wa status =>
        obtain rfl : i = id := of_decide_eq_true henters
        exact .inr ⟨wa, status, hmade⟩
      | _ => cases henters
    | _ => cases henters

theorem Stmt.exec_reserve_unposted {now : Time} {locked : Nat → Bool} {c id : Nat}
    {key content type : String}
    (h : (Stmt.reserveReply c key content type).exec now seq locked db = some (some id, ws)) :
    id = seq ∧ (db.applyAll ws).Unposted id := by
  simp only [Stmt.exec] at h
  split at h
  · cases (Prod.mk.inj (Option.some.inj h)).1
  · split at h
    · obtain ⟨hid, rfl⟩ := Prod.mk.inj (Option.some.inj h)
      obtain rfl := Option.some.inj hid
      exact ⟨rfl, _, Db.mem_messages_applyAll.mpr (.inr (List.mem_cons_self ..)), rfl, rfl⟩
    · cases h

theorem Stmt.exec_create_seen {now : Time} {locked : Nat → Bool} {c id : Nat} {content status : String}
    {wa : Option String}
    (h : (Stmt.create c content wa status).exec now seq locked db = some (id, ws)) :
    (db.applyAll ws).HasMessage id := by
  simp only [Stmt.exec] at h
  split at h
  · cases h
  · split at h
    · obtain ⟨rfl, rfl⟩ := Prod.mk.inj (Option.some.inj h)
      exact ⟨_, Db.mem_messages_applyAll.mpr (.inr (List.mem_cons_self ..)), rfl⟩
    · cases h

/-! ## Another transaction commits -/

namespace Posting

theorem apart (hm : Posting db seq own rs mine) (ht : Posting db seq theirOwn rs theirs)
    (hlocks : ∀ l, Tx.holds mine l = true → Tx.holds theirs l = false)
    (hrows : ∀ id, mine.enters id = true → theirs.enters id = false) : Apart db mine theirs :=
  ⟨hlocks, hrows, hm.touches, ht.touches, hm.tracked.distinct, ht.tracked.distinct⟩

/-- A row that has its provider's id is seen with it. -/
theorem seen (h : Posting db seq own rs tx) (hn : n ∈ db.messages) (hk : n.waMessageId = some k) :
    ∃ m ∈ (db.applyAll tx).messages, m.id = n.id ∧ m.waMessageId = some k :=
  ⟨_, Db.mem_messages_applyAll.mpr (.inl ⟨n, hn, rfl⟩), Tx.revise_id tx n, (h.keeps n hn k hk).1⟩

variable (hm : Posting db seq own rs mine) (ht : Posting db seq theirOwn rs theirs)
  (ha : Apart db mine theirs)
include hm ht ha

/-- Two transactions never see one provider's id on different rows. -/
theorem cross (hx : m ∈ (db.applyAll mine).messages) (hy : n ∈ (db.applyAll theirs).messages)
    (hxk : m.waMessageId = some k) (hyk : n.waMessageId = some k) : m.id = n.id := by
  rcases Db.source hx hxk with ⟨x, hxdb, hid, hk⟩ | hheld
  · obtain ⟨z, hz, hzid, hzk⟩ := ht.seen hxdb hk
    rw [← hid, ← hzid]
    exact ht.tracked.one z hz n hy k hzk hyk
  · rcases Db.source hy hyk with ⟨y, hydb, hid, hk⟩ | hheld'
    · obtain ⟨z, hz, hzid, hzk⟩ := hm.seen hydb hk
      rw [← hid, ← hzid]
      exact hm.tracked.one m hx z hz k hxk hzk
    · rw [ha.locks _ hheld] at hheld'
      cases hheld'

/-- A row keeps its provider's id. -/
theorem keep_after (hn : n ∈ db.messages) (hk : n.waMessageId = some k) :
    ∃ m ∈ ((db.applyAll theirs).applyAll mine).messages, m.waMessageId = some k := by
  cases hheld : Tx.holds theirs (.message n.id) with
  | true =>
    obtain ⟨z, hz, hzid, hzk⟩ := ht.seen hn hk
    exact ⟨z, Apart.theirs_after hz (hzid ▸ ha.symm.locks _ hheld), hzk⟩
  | false =>
    obtain ⟨z, hz, hzid, hzk⟩ := hm.seen hn hk
    exact ⟨z, Apart.mine_after hz (hzid ▸ hheld), hzk⟩

theorem reported_after (hr : r ∈ own ++ (theirOwn ++ rs))
    (hx : m ∈ ((db.applyAll theirs).applyAll mine).messages)
    (hk : m.waMessageId = some r.waMessageId) (hout : m.direction = .outbound) :
    rankOf r.status ≤ m.rank := by
  have hposted : m.waMessageId ≠ none := by rw [hk]; exact nofun
  simp only [List.mem_append] at hr
  rcases ha.mem_after hx with hmine | htheirs
  · have hlow := hm.tracked.sent m hmine hout hposted
    rcases hr with hr | hr | hr
    · exact hm.tracked.reported r (List.mem_append_left _ hr) m hmine hk hout
    · by_cases hlt : 1 < rankOf r.status
      · -- the other transaction holds the row: it is as that one left it
        obtain ⟨y, hy, hyk⟩ := ht.tracked.kept r (List.mem_append_left _ hr) hlt
        have hid := hm.cross ht ha hmine hy hk hyk
        have hfree := ha.symm.locks _ (ht.locked r hr hlt y hy hyk)
        exact ht.tracked.reported r (List.mem_append_left _ hr) m
          (ha.of_after_theirs hy hid (hid ▸ hfree) hx) hk hout
      · omega
    · exact hm.tracked.reported r (List.mem_append_right _ hr) m hmine hk hout
  · have hlow := ht.tracked.sent m htheirs hout hposted
    rcases hr with hr | hr | hr
    · by_cases hlt : 1 < rankOf r.status
      · obtain ⟨y, hy, hyk⟩ := hm.tracked.kept r (List.mem_append_left _ hr) hlt
        have hid := hm.cross ht ha hy htheirs hyk hk
        have hfree := ha.locks _ (hm.locked r hr hlt y hy hyk)
        exact hm.tracked.reported r (List.mem_append_left _ hr) m
          (ha.of_after_mine hy hid.symm (hid ▸ hfree) hx) hk hout
      · omega
    · exact ht.tracked.reported r (List.mem_append_left _ hr) m htheirs hk hout
    · exact ht.tracked.reported r (List.mem_append_right _ hr) m htheirs hk hout

theorem kept_after (hdb : Tracked db seq rs) (hr : r ∈ own ++ (theirOwn ++ rs))
    (hlt : 1 < rankOf r.status) :
    ∃ m ∈ ((db.applyAll theirs).applyAll mine).messages, m.waMessageId = some r.waMessageId := by
  simp only [List.mem_append] at hr
  rcases hr with hr | hr | hr
  · obtain ⟨y, hy, hyk⟩ := hm.tracked.kept r (List.mem_append_left _ hr) hlt
    exact ⟨y, Apart.mine_after hy (ha.locks _ (hm.locked r hr hlt y hy hyk)), hyk⟩
  · obtain ⟨y, hy, hyk⟩ := ht.tracked.kept r (List.mem_append_left _ hr) hlt
    exact ⟨y, Apart.theirs_after hy (ha.symm.locks _ (ht.locked r hr hlt y hy hyk)), hyk⟩
  · obtain ⟨n, hn, hnk⟩ := hdb.kept r hr hlt
    exact hm.keep_after ht ha hn hnk

theorem one_after (hx : m ∈ ((db.applyAll theirs).applyAll mine).messages)
    (hy : n ∈ ((db.applyAll theirs).applyAll mine).messages) (hxk : m.waMessageId = some k)
    (hyk : n.waMessageId = some k) : m.id = n.id := by
  rcases ha.mem_after hx with hx | hx <;> rcases ha.mem_after hy with hy | hy
  · exact hm.tracked.one m hx n hy k hxk hyk
  · exact hm.cross ht ha hx hy hxk hyk
  · exact (hm.cross ht ha hy hx hyk hxk).symm
  · exact ht.tracked.one m hx n hy k hxk hyk

/-- **The commit of another transaction** leaves an open one what it needs. -/
theorem after (hdb : Tracked db seq rs) : Posting (db.applyAll theirs) seq own (theirOwn ++ rs) mine where
  tracked :=
    { distinct := ha.distinct_after
      below := fun x hx => (ha.mem_after hx).elim (hm.tracked.below x) (ht.tracked.below x)
      one := fun x hx y hy k hxk hyk => hm.one_after ht ha hx hy hxk hyk
      sent := fun x hx => (ha.mem_after hx).elim (hm.tracked.sent x) (ht.tracked.sent x)
      reported := fun r hr x hx hk hout => hm.reported_after ht ha hr hx hk hout
      kept := fun r hr hlt => hm.kept_after ht ha hdb hr hlt }
  touches id hid := Apart.id_after (hm.touches id hid)
  keeps x hx k hk := by
    cases hheld : Tx.holds mine (.message x.id) with
    | false => exact ⟨by rwa [Tx.revise_of_not_holds hheld], by rw [Tx.revise_of_not_holds hheld]⟩
    | true =>
      rcases Db.mem_messages_applyAll.mp hx with ⟨y, hy, rfl⟩ | hx
      · rw [Tx.revise_id] at hheld
        rw [Tx.revise_of_not_holds (ha.locks _ hheld)] at hk ⊢
        exact hm.keeps y hy k hk
      · rw [ha.untouched hx] at hheld
        cases hheld
  locked r hr hlt x hx hk := by
    obtain ⟨y, hy, hyk⟩ := hm.tracked.kept r (List.mem_append_left _ hr) hlt
    have hid : y.id = x.id := by
      rcases ha.mem_after hx with hx | hx
      · exact hm.tracked.one y hy x hx _ hyk hk
      · exact hm.cross ht ha hy hx hyk hk
    rw [← hid]
    exact hm.locked r hr hlt y hy hyk

end Posting

end Store
