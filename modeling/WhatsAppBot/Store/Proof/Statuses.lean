import WhatsAppBot.Store.Proof.Messages

/-!
# Delivery statuses

`Tracked db seq rs`: every provider's id belongs to one row, and an outbound row that has one stands
at least at `sent` and at every status of `rs` that was reported under its id. Inserting a row,
confirming a reserved one and updating a status in order (`Db.InOrder`) keep it.
-/

set_option autoImplicit false

namespace Store

/-- `pending < sent < delivered < read`; every other status counts as low as `pending`. -/
def rankOf (status : String) : Nat :=
  if status = statusSent then 1
  else if status = "delivered" then 2
  else if status = "read" then 3
  else 0

def Message.rank (m : Message) : Nat := (m.status.map rankOf).getD 0

/-- A status webhook. -/
structure Report where
  waMessageId : String
  status : String
  deriving DecidableEq

structure Tracked (db : Db) (seq : Nat) (rs : List Report) : Prop where
  distinct : db.DistinctIds
  below : ∀ m ∈ db.messages, m.id < seq
  one : ∀ m ∈ db.messages, ∀ n ∈ db.messages, ∀ k, m.waMessageId = some k →
    n.waMessageId = some k → m.id = n.id
  sent : ∀ m ∈ db.messages, m.direction = .outbound → m.waMessageId ≠ none → 1 ≤ m.rank
  reported : ∀ r ∈ rs, ∀ m ∈ db.messages, m.waMessageId = some r.waMessageId →
    m.direction = .outbound → rankOf r.status ≤ m.rank
  kept : ∀ r ∈ rs, 1 < rankOf r.status → ∃ m ∈ db.messages, m.waMessageId = some r.waMessageId

variable {db : Db} {seq seq' : Nat} {rs : List Report} {ws : Tx} {m n : Message} {k status : String}
  {r : Report}

theorem hasWaMessageId_of_mem (hm : m ∈ db.messages) (hk : m.waMessageId = some k) :
    db.hasWaMessageId k = true :=
  List.any_eq_true.mpr ⟨m, hm, decide_eq_true hk⟩

namespace Tracked

theorem mono (h : Tracked db seq rs) (hseq : seq ≤ seq') : Tracked db seq' rs :=
  { h with below := fun m hm => Nat.lt_of_lt_of_le (h.below m hm) hseq }

theorem of_messages {db' : Db} (h : Tracked db seq rs) (hsame : db'.messages = db.messages) :
    Tracked db' seq rs where
  distinct := by
    have hd := h.distinct
    rwa [Db.DistinctIds, ← hsame] at hd
  below := hsame ▸ h.below
  one := hsame ▸ h.one
  sent := hsame ▸ h.sent
  reported := hsame ▸ h.reported
  kept := hsame ▸ h.kept

/-- A report above `sent` has its row. -/
theorem rank_le_of_absent (h : Tracked db seq rs) (hr : r ∈ rs)
    (habsent : db.hasWaMessageId r.waMessageId = false) : rankOf r.status ≤ 1 := by
  by_contra hlt
  obtain ⟨m, hm, hk⟩ := h.kept r hr (Nat.lt_of_not_le hlt)
  rw [hasWaMessageId_of_mem hm hk] at habsent
  cases habsent

theorem insert (h : Tracked db seq rs) (hid : m.id = seq)
    (hnew : ∀ k, m.waMessageId = some k → db.hasWaMessageId k = false)
    (hsent : m.direction = .outbound → m.waMessageId ≠ none → m.rank = 1) :
    Tracked (db.insertMessage m) (seq + 1) rs := by
  have hmem : ∀ {x}, x ∈ (db.insertMessage m).messages ↔ x ∈ db.messages ∨ x = m := by
    simp [Db.insertMessage]
  -- the row's provider's id is not there yet
  have hother : ∀ {x k}, x ∈ db.messages → m.waMessageId = some k → x.waMessageId ≠ some k := by
    intro x k hx hk hxk
    have habsent := hnew k hk
    rw [hasWaMessageId_of_mem hx hxk] at habsent
    cases habsent
  refine ⟨?_, fun x hx => ?_, fun x hx y hy k hxk hyk => ?_, fun x hx hout hk => ?_,
    fun r hr x hx hk hout => ?_, fun r hr hlt => ?_⟩
  · rw [Db.DistinctIds, Db.insertMessage, List.map_append]
    refine h.distinct.append (List.nodup_singleton _) fun id hold hnewid => ?_
    obtain ⟨x, hx, rfl⟩ := List.mem_map.mp hold
    have hxm : x.id = m.id := List.mem_singleton.mp hnewid
    have hlt := h.below x hx
    omega
  · rcases hmem.mp hx with hx | rfl
    · exact Nat.lt_succ_of_lt (h.below x hx)
    · omega
  · rcases hmem.mp hx with hx' | hxm <;> rcases hmem.mp hy with hy' | hym
    · exact h.one x hx' y hy' k hxk hyk
    · exact absurd hxk (hother hx' (hym ▸ hyk))
    · exact absurd hyk (hother hy' (hxm ▸ hxk))
    · rw [hxm, hym]
  · rcases hmem.mp hx with hx | rfl
    · exact h.sent x hx hout hk
    · exact Nat.le_of_eq (hsent hout hk).symm
  · rcases hmem.mp hx with hx | rfl
    · exact h.reported r hr x hx hk hout
    · rw [hsent hout (by rw [hk]; exact Option.some_ne_none _)]
      exact h.rank_le_of_absent hr (hnew _ hk)
  · obtain ⟨x, hx, hk⟩ := h.kept r hr hlt
    exact ⟨x, hmem.mpr (.inl hx), hk⟩

/-- Updates that leave a row's provider's id alone and do not lower its status. -/
theorem revise (h : Tracked db seq rs) (hnone : Tx.inserted ws = [])
    (hk : ∀ m ∈ db.messages, (Tx.revise ws m).waMessageId = m.waMessageId)
    (hout : ∀ m ∈ db.messages, (Tx.revise ws m).direction = m.direction)
    (hrank : ∀ m ∈ db.messages, m.waMessageId ≠ none → m.rank ≤ (Tx.revise ws m).rank) :
    Tracked (db.applyAll ws) seq rs := by
  have hmem : ∀ {x}, x ∈ (db.applyAll ws).messages ↔ ∃ y ∈ db.messages, Tx.revise ws y = x := by
    intro x
    rw [Db.mem_messages_applyAll, hnone]
    simp
  refine ⟨?_, fun x hx => ?_, fun x hx y hy k hxk hyk => ?_, fun x hx hdir hposted => ?_,
    fun r hr x hx hxk hdir => ?_, fun r hr hlt => ?_⟩
  · rw [Db.DistinctIds, Db.ids_applyAll, hnone, List.map_nil, List.append_nil]
    exact h.distinct
  · obtain ⟨x', hx', rfl⟩ := hmem.mp hx
    rw [Tx.revise_id]
    exact h.below x' hx'
  · obtain ⟨x', hx', rfl⟩ := hmem.mp hx
    obtain ⟨y', hy', rfl⟩ := hmem.mp hy
    rw [Tx.revise_id, Tx.revise_id]
    exact h.one x' hx' y' hy' k (hk x' hx' ▸ hxk) (hk y' hy' ▸ hyk)
  · obtain ⟨x', hx', rfl⟩ := hmem.mp hx
    rw [hk x' hx'] at hposted
    exact Nat.le_trans (h.sent x' hx' (hout x' hx' ▸ hdir) hposted) (hrank x' hx' hposted)
  · obtain ⟨x', hx', rfl⟩ := hmem.mp hx
    rw [hk x' hx'] at hxk
    exact Nat.le_trans (h.reported r hr x' hx' hxk (hout x' hx' ▸ hdir))
      (hrank x' hx' (by rw [hxk]; exact Option.some_ne_none _))
  · obtain ⟨x, hx, hxk⟩ := h.kept r hr hlt
    exact ⟨_, hmem.mpr ⟨x, hx, rfl⟩, (hk x hx).trans hxk⟩

/-- A reserved row gets its provider's id, or is left without one. -/
theorem confirm (h : Tracked db seq rs) {wa : Option String} (hn : n ∈ db.messages)
    (hnone : n.waMessageId = none) (hnew : ∀ k, wa = some k → db.hasWaMessageId k = false)
    (hsent : wa ≠ none → status = statusSent) :
    Tracked (db.applyAll [.updateMessage n.id (.confirm wa status)]) seq rs := by
  let u : MessageUpdate := .confirm wa status
  have hrevise : ∀ {y}, y ∈ db.messages → Tx.revise [.updateMessage n.id u] y = u.apply n ∧ y = n ∨
      Tx.revise [.updateMessage n.id u] y = y ∧ y ≠ n := by
    intro y hy
    by_cases hid : y.id = n.id
    · obtain rfl := h.distinct.eq hy hn hid
      exact .inl ⟨if_pos rfl, rfl⟩
    · exact .inr ⟨if_neg hid, fun he => hid (he ▸ rfl)⟩
  have hmem : ∀ {x}, x ∈ (db.applyAll [.updateMessage n.id u]).messages ↔
      x = u.apply n ∨ x ∈ db.messages ∧ x ≠ n := by
    intro x
    rw [Db.mem_messages_applyAll]
    constructor
    · rintro (⟨y, hy, rfl⟩ | hx)
      · rcases hrevise hy with ⟨hy', rfl⟩ | ⟨hy', hne⟩
        · exact .inl hy'
        · exact .inr ⟨hy'.symm ▸ hy, hy'.symm ▸ hne⟩
      · cases hx
    · rintro (rfl | ⟨hx, hne⟩)
      · refine .inl ⟨n, hn, ?_⟩
        rcases hrevise hn with ⟨hy', -⟩ | ⟨-, hne⟩
        · exact hy'
        · exact absurd rfl hne
      · refine .inl ⟨x, hx, ?_⟩
        rcases hrevise hx with ⟨-, he⟩ | ⟨hx', -⟩
        · exact absurd he hne
        · exact hx'
  have hother : ∀ {x k}, x ∈ db.messages → (u.apply n).waMessageId = some k →
      x.waMessageId ≠ some k := by
    intro x k hx hk hxk
    have habsent := hnew k hk
    rw [hasWaMessageId_of_mem hx hxk] at habsent
    cases habsent
  have hone : (u.apply n).waMessageId ≠ none → (u.apply n).rank = 1 := by
    intro hk
    rw [Message.rank, show (u.apply n).status = some status from rfl, hsent hk]
    rfl
  refine ⟨?_, fun x hx => ?_, fun x hx y hy k hxk hyk => ?_, fun x hx hdir hposted => ?_,
    fun r hr x hx hxk hdir => ?_, fun r hr hlt => ?_⟩
  · have hnone' : Tx.inserted [.updateMessage n.id u] = [] := rfl
    rw [Db.DistinctIds, Db.ids_applyAll, hnone', List.map_nil, List.append_nil]
    exact h.distinct
  · rcases hmem.mp hx with rfl | ⟨hx, -⟩
    · rw [u.apply_id]
      exact h.below n hn
    · exact h.below x hx
  · rcases hmem.mp hx with hxn | ⟨hx', -⟩ <;> rcases hmem.mp hy with hyn | ⟨hy', -⟩
    · rw [hxn, hyn]
    · exact absurd hyk (hother hy' (hxn ▸ hxk))
    · exact absurd hxk (hother hx' (hyn ▸ hyk))
    · exact h.one x hx' y hy' k hxk hyk
  · rcases hmem.mp hx with rfl | ⟨hx, -⟩
    · exact Nat.le_of_eq (hone hposted).symm
    · exact h.sent x hx hdir hposted
  · rcases hmem.mp hx with rfl | ⟨hx, -⟩
    · rw [hone (by rw [hxk]; exact Option.some_ne_none _)]
      exact h.rank_le_of_absent hr (hnew _ hxk)
    · exact h.reported r hr x hx hxk hdir
  · obtain ⟨x, hx, hxk⟩ := h.kept r hr hlt
    exact ⟨x, hmem.mpr (.inr ⟨hx, fun he => by rw [he, hnone] at hxk; cases hxk⟩), hxk⟩

/-- One more report. -/
theorem report (h : Tracked db seq rs)
    (hrank : ∀ m ∈ db.messages, m.waMessageId = some r.waMessageId → rankOf r.status ≤ m.rank)
    (hkept : 1 < rankOf r.status → ∃ m ∈ db.messages, m.waMessageId = some r.waMessageId) :
    Tracked db seq (r :: rs) :=
  { h with
    reported := fun r' hr m hm hk hout => by
      rcases List.mem_cons.mp hr with rfl | hr
      · exact hrank m hm hk
      · exact h.reported r' hr m hm hk hout
    kept := fun r' hr hlt => by
      rcases List.mem_cons.mp hr with rfl | hr
      · exact hkept hlt
      · exact h.kept r' hr hlt }

end Tracked

/-! ## Status updates -/

/-- The writes of `update_status_by_wa_id`. -/
def Db.setStatuses (db : Db) (k status : String) : Tx :=
  (db.messages.filter fun m => m.waMessageId = some k).map fun m =>
    .updateMessage m.id (.setStatus status)

theorem Tx.revise_setStatus (hws : ∀ v ∈ ws, ∃ id, v = .updateMessage id (.setStatus status))
    (hheld : Tx.holds ws (.message m.id) = true) : Tx.revise ws m = { m with status := some status } := by
  induction ws generalizing m with
  | nil => cases hheld
  | cons v ws ih =>
    obtain ⟨id, rfl⟩ := hws v (by simp)
    have hws' : ∀ v ∈ ws, ∃ id, v = .updateMessage id (.setStatus status) := fun v hv =>
      hws v (List.mem_cons_of_mem _ hv)
    have hcons : Tx.revise (.updateMessage id (.setStatus status) :: ws) m =
        Tx.revise ws (if m.id = id then { m with status := some status } else m) := rfl
    rw [hcons]
    split
    · cases hrest : Tx.holds ws (.message m.id) with
      | true => exact ih (m := { m with status := some status }) hws' hrest
      | false => exact Tx.revise_of_not_holds (m := { m with status := some status }) hrest
    · rename_i hid
      refine ih hws' ?_
      rw [Tx.holds_cons, Bool.or_eq_true, decide_eq_true_eq] at hheld
      refine hheld.resolve_left fun hlock => hid ?_
      simpa [Write.locks] using hlock

theorem Db.mem_setStatuses {v : Write} : v ∈ db.setStatuses k status ↔
    ∃ m ∈ db.messages, m.waMessageId = some k ∧ v = .updateMessage m.id (.setStatus status) := by
  simp [setStatuses, and_assoc, eq_comm]

theorem Db.holds_setStatuses {id : Nat} : Tx.holds (db.setStatuses k status) (.message id) = true ↔
    ∃ m ∈ db.messages, m.waMessageId = some k ∧ m.id = id := by
  rw [Tx.holds, List.any_eq_true]
  constructor
  · rintro ⟨v, hv, hlock⟩
    obtain ⟨m, hm, hk, rfl⟩ := mem_setStatuses.mp hv
    exact ⟨m, hm, hk, by simpa [Write.locks, eq_comm] using hlock⟩
  · rintro ⟨m, hm, hk, rfl⟩
    exact ⟨_, mem_setStatuses.mpr ⟨m, hm, hk, rfl⟩, by simp [Write.locks]⟩

/-- The rows with the id get the status, the others stay. -/
theorem Tracked.revise_setStatuses (h : Tracked db seq rs) (hm : m ∈ db.messages) :
    Tx.revise (db.setStatuses k status) m =
      if m.waMessageId = some k then { m with status := some status } else m := by
  split
  · rename_i hk
    refine Tx.revise_setStatus (fun v hv => ?_) (Db.holds_setStatuses.mpr ⟨m, hm, hk, rfl⟩)
    obtain ⟨x, -, -, rfl⟩ := Db.mem_setStatuses.mp hv
    exact ⟨x.id, rfl⟩
  · rename_i hk
    refine Tx.revise_of_not_holds (Bool.eq_false_iff.mpr fun hheld => hk ?_)
    obtain ⟨x, hx, hxk, hid⟩ := Db.holds_setStatuses.mp hheld
    rwa [← h.distinct.eq hx hm hid]

theorem Db.inserted_setStatuses : Tx.inserted (db.setStatuses k status) = [] := by
  unfold setStatuses
  induction db.messages.filter fun m => m.waMessageId = some k with
  | nil => rfl
  | cons m ms ih => exact ih

/-- A status update finds no row that stands higher, and a row if it is above `sent`. -/
def Db.InOrder (db : Db) (k status : String) : Prop :=
  (∀ m ∈ db.messages, m.waMessageId = some k → m.rank ≤ rankOf status) ∧
    (db.hasWaMessageId k = false → rankOf status ≤ 1)

instance (db : Db) (k status : String) : Decidable (db.InOrder k status) :=
  inferInstanceAs (Decidable (_ ∧ _))

theorem Tracked.setStatuses (h : Tracked db seq rs) (hin : db.InOrder k status) :
    Tracked (db.applyAll (db.setStatuses k status)) seq (⟨k, status⟩ :: rs) := by
  have hrank : ∀ x : Message, { x with status := some status }.rank = rankOf status := fun _ => rfl
  have hkept : ∀ m ∈ db.messages, (Tx.revise (db.setStatuses k status) m).waMessageId =
      m.waMessageId := by
    intro m hm
    rw [h.revise_setStatuses hm]
    split <;> rfl
  refine (h.revise Db.inserted_setStatuses hkept (fun m hm => ?_) fun m hm _ => ?_).report
    (fun m hm hk => ?_) fun hlt => ?_
  · rw [h.revise_setStatuses hm]
    split <;> rfl
  · rw [h.revise_setStatuses hm]
    split
    · rename_i hk
      rw [hrank]
      exact hin.1 m hm hk
    · exact Nat.le_refl _
  · rcases Db.mem_messages_applyAll.mp hm with ⟨x, hx, rfl⟩ | hm
    · rw [hkept x hx] at hk
      rw [h.revise_setStatuses hx, if_pos hk, hrank]
    · rw [Db.inserted_setStatuses] at hm
      cases hm
  · cases hhas : db.hasWaMessageId k with
    | false => exact absurd (hin.2 hhas) (Nat.not_le_of_lt hlt)
    | true =>
      obtain ⟨m, hm, hk⟩ := List.any_eq_true.mp hhas
      refine ⟨_, Db.mem_messages_applyAll.mpr (.inl ⟨m, hm, rfl⟩), ?_⟩
      rw [hkept m hm]
      exact of_decide_eq_true hk

end Store
