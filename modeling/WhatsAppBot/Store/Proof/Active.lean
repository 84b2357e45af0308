import WhatsAppBot.Store.Proof.Stage

/-!
# The active conversations of a customer

How many a customer has after a transaction (`Db.activeFor_applyAll_le`, `Db.activeFor_le_applyAll`),
and that a conversation a transaction sees active stays active under what others commit, as long as
nobody closes it (`Db.IsActive.interfere`).
-/

set_option autoImplicit false

namespace Store

/-- The write makes a conversation of the customer active. -/
def Write.opens (u : Nat) : Write → Bool
  | .insertConversation d => d.userId = u
  | .updateConversation _ userId (.revive _) => userId = u
  | _ => false

/-- A revive names the customer whose row it is. -/
def Write.Sound (db : Db) : Write → Prop
  | .updateConversation id userId (.revive _) => ∃ x, db.conversation id = some x ∧ x.userId = userId
  | _ => True

def Db.IsActive (db : Db) (id : Nat) : Prop := ∃ x, db.conversation id = some x ∧ x.status = .active

variable {db db' : Db} {id u : Nat} {c : Conversation} {w : Write} {tx ws : Tx}

/-! ## The status -/

theorem ConversationUpdate.apply_status (v : ConversationUpdate) (c : Conversation) :
    (v.apply c).status = match v.kind with
      | some .close => .closed
      | some .revive => .active
      | _ => c.status := by
  cases v <;> rfl

theorem Write.on_status (w : Write) (id : Nat) (c : Conversation) :
    (w.on id c).status = match w.kindOn id with
      | some .close => .closed
      | some .revive => .active
      | _ => c.status := by
  cases w with
  | updateConversation i userId v =>
    simp only [Write.on, Write.kindOn]
    split
    · exact v.apply_status c
    · rfl
  | _ => rfl

theorem Write.on_active (hc : c.status = .active) (hw : w.kindOn id ≠ some .close) :
    (w.on id c).status = .active := by
  rw [on_status]
  split
  · rename_i hk
    exact absurd hk hw
  · rfl
  · exact hc

theorem Tx.not_close_of_mem (h : Kind.close ∉ Tx.kinds tx id) (hw : w ∈ tx) :
    w.kindOn id ≠ some .close :=
  fun hk => h (List.mem_filterMap.mpr ⟨w, hw, hk⟩)

theorem Tx.on_active (hc : c.status = .active) (htx : Kind.close ∉ Tx.kinds tx id) :
    (Tx.on tx id c).status = .active := by
  induction tx generalizing c with
  | nil => exact hc
  | cons w tx ih =>
    have hw := not_close_of_mem htx List.mem_cons_self
    rw [kinds_cons, List.mem_append, not_or] at htx
    exact ih (Write.on_active hc hw) htx.2

theorem Db.IsActive.applyAll (h : db.IsActive id) (htx : Kind.close ∉ Tx.kinds tx id) :
    (db.applyAll tx).IsActive id := by
  obtain ⟨x, hx, hactive⟩ := h
  exact ⟨_, conversation_applyAll hx tx, Tx.on_active hactive htx⟩

theorem Db.mem_activeFor {x : Conversation} :
    x ∈ db.activeFor u ↔ db.conversation x.id = some x ∧ x.userId = u ∧ x.status = .active := by
  simp only [activeFor, List.mem_filter, decide_eq_true_eq]
  constructor
  · rintro ⟨hx, hu, hactive⟩
    exact ⟨conversation_of_mem hx, hu, hactive⟩
  · rintro ⟨hx, hu, hactive⟩
    exact ⟨(Lib.Table.find_some hx).1, hu, hactive⟩

/-! ## Counting -/

theorem Write.Sound.apply (h : w.Sound db) (v : Write) : w.Sound (db.apply v) := by
  cases w with
  | updateConversation i userId upd =>
    cases upd with
    | revive t =>
      obtain ⟨x, hx, hu⟩ := h
      refine ⟨v.on i x, Db.conversation_apply hx v, ?_⟩
      rw [← hu]
      exact Tx.on_userId [v] i x
    | _ => exact h
  | _ => exact h

theorem Write.Sound.applyAll (h : w.Sound db) (tx : Tx) : w.Sound (db.applyAll tx) := by
  induction tx generalizing db with
  | nil => exact h
  | cons v tx ih => exact ih (h.apply v)

theorem Db.length_activeFor (db : Db) (u : Nat) : (db.activeFor u).length =
    db.conversations.rows.countP fun c => c.userId = u ∧ c.status = .active :=
  List.countP_eq_length_filter.symm

/-- What the update of a row does to the count, row by row. -/
theorem Db.activeFor_update (db : Db) (i userId : Nat) (v : ConversationUpdate) (u : Nat) :
    ((db.apply (.updateConversation i userId v)).activeFor u).length =
      db.conversations.rows.countP fun c =>
        c.userId = u ∧ (Write.on c.id c (.updateConversation i userId v)).status = .active := by
  rw [length_activeFor]
  simp only [Db.apply, updateConversation, Lib.Table.modify, List.countP_map]
  refine List.countP_congr fun c _ => ?_
  simp only [Function.comp_apply, Write.on, eq_comm (a := i)]
  split <;> simp

theorem Db.activeFor_insert (db : Db) (d : Conversation) (u : Nat) :
    (db.activeFor u).length ≤ ((db.apply (.insertConversation d)).activeFor u).length ∧
      ((db.apply (.insertConversation d)).activeFor u).length ≤
        (db.activeFor u).length + if d.userId = u then 1 else 0 := by
  simp only [length_activeFor, Db.apply, insertConversation]
  split
  · simp only [Lib.Table.insert]
    split
    · exact ⟨Nat.le_refl _, Nat.le_add_right _ _⟩
    · rw [List.countP_append, List.countP_singleton]
      by_cases hd : d.userId = u
      · refine ⟨Nat.le_add_right _ _, Nat.add_le_add_left ?_ _⟩
        rw [if_pos hd]
        split <;> omega
      · simp [hd]
  · exact ⟨Nat.le_refl _, Nat.le_add_right _ _⟩

/-- **A write opens at most what it says.** -/
theorem Db.activeFor_apply_le (hw : w.Sound db) (u : Nat) :
    ((db.apply w).activeFor u).length ≤ (db.activeFor u).length + if w.opens u then 1 else 0 := by
  cases w with
  | insertConversation d => simpa [Write.opens] using (db.activeFor_insert d u).2
  | updateConversation i userId v =>
    by_cases hopens : Write.opens u (.updateConversation i userId v) = true
    · rw [hopens, if_pos rfl, length_activeFor, length_activeFor]
      exact Lib.Table.countP_modify_le _ _ _ v.apply_id _
    · rw [if_neg hopens, Nat.add_zero, activeFor_update, length_activeFor]
      refine List.countP_mono_left fun c hc => ?_
      simp only [decide_eq_true_eq]
      rintro ⟨hu, hactive⟩
      refine ⟨hu, ?_⟩
      rw [Write.on_status] at hactive
      split at hactive
      · cases hactive
      · -- the row revived is the customer's own
        rename_i hk
        simp only [Write.kindOn] at hk
        split at hk
        · rename_i hi
          subst hi
          cases v with
          | revive t =>
            obtain ⟨x, hx, hxu⟩ := hw
            obtain rfl := Option.some.inj ((conversation_of_mem hc).symm.trans hx)
            exact absurd (by simpa [Write.opens] using hxu.symm.trans hu) hopens
          | _ => cases hk
        · cases hk
      · exact hactive
  | _ => exact Nat.le_add_right _ _

theorem Db.activeFor_applyAll_le (htx : ∀ w ∈ tx, w.Sound db) (u : Nat) :
    ((db.applyAll tx).activeFor u).length ≤
      (db.activeFor u).length + tx.countP (Write.opens u) := by
  induction tx generalizing db with
  | nil => exact Nat.le_refl _
  | cons w tx ih =>
    have hfirst := activeFor_apply_le (htx w List.mem_cons_self) u
    have hrest := ih fun v hv => (htx v (List.mem_cons_of_mem w hv)).apply w
    rw [show db.applyAll (w :: tx) = (db.apply w).applyAll tx from rfl, List.countP_cons]
    omega

theorem Db.activeFor_le_apply (hw : ∀ id, w.kindOn id ≠ some .close) (u : Nat) :
    (db.activeFor u).length ≤ ((db.apply w).activeFor u).length := by
  cases w with
  | insertConversation d => exact (db.activeFor_insert d u).1
  | updateConversation i userId v =>
    rw [activeFor_update, length_activeFor]
    refine List.countP_mono_left fun c _ => ?_
    simp only [decide_eq_true_eq]
    rintro ⟨hu, hactive⟩
    exact ⟨hu, Write.on_active hactive (hw c.id)⟩
  | _ => exact Nat.le_refl _

/-- A transaction that closes nothing leaves nobody with less. -/
theorem Db.activeFor_le_applyAll (htx : ∀ id, Kind.close ∉ Tx.kinds tx id) (u : Nat) :
    (db.activeFor u).length ≤ ((db.applyAll tx).activeFor u).length := by
  induction tx generalizing db with
  | nil => exact Nat.le_refl _
  | cons w tx ih =>
    have hfirst : (db.activeFor u).length ≤ ((db.apply w).activeFor u).length :=
      activeFor_le_apply (fun id => Tx.not_close_of_mem (htx id) List.mem_cons_self) u
    refine Nat.le_trans hfirst (ih fun id hk => htx id ?_)
    rw [Tx.kinds_cons]
    exact List.mem_append_right _ hk

theorem holds_of_opens (h : tx.countP (Write.opens u) ≠ 0) :
    Tx.holds tx (.activeSlot u) = true := by
  obtain ⟨w, hw, hu⟩ := List.countP_pos_iff.mp (Nat.pos_of_ne_zero h)
  refine holds_of_mem hw ?_
  cases w with
  | insertConversation d =>
    obtain rfl : d.userId = u := by simpa [Write.opens] using hu
    exact List.mem_singleton.mpr rfl
  | updateConversation i userId v =>
    cases v with
    | revive t =>
      obtain rfl : userId = u := by simpa [Write.opens] using hu
      simp [Write.locks]
    | _ => cases hu
  | _ => cases hu

/-! ## What others commit -/

/-- The customers `db` has are there in `db'`. -/
def Db.UsersIn (db db' : Db) : Prop := ∀ v ∈ db.users, ∃ v' ∈ db'.users, v'.id = v.id

/-- `db'` has the row as active as `db` has it. -/
structure Db.Behind (id : Nat) (db db' : Db) : Prop where
  users : db.UsersIn db'
  there : ∀ x, db.conversation id = some x → ∃ y, db'.conversation id = some y ∧
    (x.status = .active → y.status = .active)
  absent : db.conversation id = none → ∀ y, db'.conversation id = some y → y.status = .active

/-- The transaction does not close the row, and what it creates is active. -/
structure Tx.Spares (tx : Tx) (id : Nat) : Prop where
  close : Kind.close ∉ Tx.kinds tx id
  insert : ∀ d, .insertConversation d ∈ tx → d.status = .active

theorem Tx.Spares.of_cons (h : Tx.Spares (w :: tx) id) :
    w.kindOn id ≠ some .close ∧ (∀ d, w = .insertConversation d → d.status = .active) ∧
      Tx.Spares tx id := by
  refine ⟨not_close_of_mem h.close List.mem_cons_self, fun d hd => ?_, fun hk => h.close ?_, ?_⟩
  · exact h.insert d (hd ▸ List.mem_cons_self)
  · rw [kinds_cons]
    exact List.mem_append_right _ hk
  · exact fun d hd => h.insert d (List.mem_cons_of_mem w hd)

theorem Db.users_apply (db : Db) (w : Write) : db.UsersIn (db.apply w) := by
  intro v hv
  cases w with
  | insertUser n => exact ⟨v, List.mem_append_left _ hv, rfl⟩
  | setUserName i name =>
    refine ⟨_, List.mem_map_of_mem hv, ?_⟩
    split <;> rfl
  | insertConversation d =>
    simp only [Db.apply, insertConversation]
    split <;> exact ⟨v, hv, rfl⟩
  | _ => exact ⟨v, hv, rfl⟩

theorem Db.UsersIn.apply (h : db.UsersIn db') (w : Write) : (db.apply w).UsersIn (db'.apply w) := by
  intro v hv
  -- a customer the write did not create
  have hold : ∀ x ∈ db.users, x.id = v.id → ∃ v' ∈ (db'.apply w).users, v'.id = v.id := by
    intro x hx hxv
    obtain ⟨x', hx', hid⟩ := h x hx
    obtain ⟨v', hv', hid'⟩ := db'.users_apply w x' hx'
    exact ⟨v', hv', hid'.trans (hid.trans hxv)⟩
  cases w with
  | insertUser n =>
    rcases List.mem_append.mp hv with hv | hv
    · exact hold v hv rfl
    · exact ⟨v, List.mem_append_right _ hv, rfl⟩
  | setUserName i name =>
    obtain ⟨x, hx, rfl⟩ := List.mem_map.mp hv
    exact hold x hx (by split <;> rfl)
  | insertConversation d =>
    refine hold v ?_ rfl
    simp only [Db.apply, insertConversation] at hv
    split at hv <;> exact hv
  | _ => exact hold v hv rfl

/-- A row that was not there is the one a write creates. -/
theorem Db.conversation_created (h : db.conversation id = none) (w : Write) :
    (db.apply w).conversation id = none ∨ ∃ d, w = .insertConversation d ∧ d.id = id ∧
      (∃ v ∈ db.users, v.id = d.userId) ∧ (db.apply w).conversation id = some d := by
  cases w with
  | insertConversation d =>
    simp only [Db.apply, insertConversation]
    split
    · rename_i hfk
      simp only [conversation, Lib.Table.find_insert] at h ⊢
      rw [h]
      by_cases hd : d.id = id
      · exact .inr ⟨d, rfl, hd, hfk, by simp [hd]⟩
      · exact .inl (by simp [hd])
    · exact .inl h
  | _ => exact .inl (conversation_apply_absent h fun d hd => Write.noConfusion hd)

theorem Db.conversation_insert {d : Conversation} (h : db.conversation d.id = none)
    (hfk : ∃ v ∈ db.users, v.id = d.userId) :
    (db.apply (.insertConversation d)).conversation d.id = some d := by
  simp only [conversation] at h
  simp [Db.apply, insertConversation, hfk, conversation, Lib.Table.find_insert, h]

/-- A row that a transaction sees and that is not committed was created by it. -/
theorem Db.created_of_absent (h : db.conversation id = none) {x : Conversation}
    (hx : (db.applyAll tx).conversation id = some x) :
    ∃ d, .insertConversation d ∈ tx ∧ d.id = id := by
  induction tx generalizing db with
  | nil =>
    rw [show db.conversation id = some x from hx] at h
    cases h
  | cons w tx ih =>
    rcases conversation_created h w with hn | ⟨d, rfl, hd, -, -⟩
    · obtain ⟨d, hd, hid⟩ := ih hn hx
      exact ⟨d, List.mem_cons_of_mem w hd, hid⟩
    · exact ⟨d, List.mem_cons_self, hd⟩

/-- `db'` has the rows and the customers `db` has. -/
structure Db.Within (db db' : Db) : Prop where
  users : db.UsersIn db'
  there : ∀ id, (db.conversation id).isSome = true → (db'.conversation id).isSome = true

theorem Db.within_applyAll (db : Db) (tx : Tx) : db.Within (db.applyAll tx) := by
  refine ⟨?_, fun id h => conversation_applyAll_isSome h tx⟩
  induction tx generalizing db with
  | nil => exact fun v hv => ⟨v, hv, rfl⟩
  | cons w tx ih =>
    intro v hv
    obtain ⟨v', hv', hid⟩ := db.users_apply w v hv
    obtain ⟨v'', hv'', hid'⟩ := ih _ v' hv'
    exact ⟨v'', hv'', hid'.trans hid⟩

theorem Db.Within.refl (db : Db) : db.Within db := ⟨fun v hv => ⟨v, hv, rfl⟩, fun _ h => h⟩

theorem Db.Within.trans {db'' : Db} (h : db.Within db') (h' : db'.Within db'') : db.Within db'' := by
  refine ⟨fun v hv => ?_, fun id hsome => h'.there id (h.there id hsome)⟩
  obtain ⟨v', hv', hid⟩ := h.users v hv
  obtain ⟨v'', hv'', hid'⟩ := h'.users v' hv'
  exact ⟨v'', hv'', hid'.trans hid⟩

theorem Db.Within.apply (h : db.Within db') (w : Write) : (db.apply w).Within (db'.apply w) := by
  refine ⟨h.users.apply w, fun id hsome => ?_⟩
  cases hrow : db.conversation id with
  | some x =>
    obtain ⟨y, hy⟩ := Option.isSome_iff_exists.mp (h.there id (by rw [hrow]; rfl))
    rw [conversation_apply hy w]
    rfl
  | none =>
    rcases conversation_created hrow w with hn | ⟨d, rfl, rfl, ⟨v, hv, hvd⟩, -⟩
    · rw [hn] at hsome
      cases hsome
    cases hrow' : db'.conversation d.id with
    | some y =>
      rw [conversation_apply hrow' _]
      rfl
    | none =>
      obtain ⟨v', hv', hid⟩ := h.users v hv
      rw [conversation_insert hrow' ⟨v', hv', hid.trans hvd⟩]
      rfl

theorem Db.Within.applyAll (h : db.Within db') (tx : Tx) :
    (db.applyAll tx).Within (db'.applyAll tx) := by
  induction tx generalizing db db' with
  | nil => exact h
  | cons w tx ih => exact ih (h.apply w)

theorem Db.Behind.apply (h : Db.Behind id db db') (hw : w.kindOn id ≠ some .close)
    (hd : ∀ d, w = .insertConversation d → d.status = .active) :
    Db.Behind id (db.apply w) (db'.apply w) := by
  refine ⟨h.users.apply w, fun x' hx' => ?_, fun hnone y' hy' => ?_⟩
  · cases hrow : db.conversation id with
    | some x =>
      obtain ⟨y, hy, hactive⟩ := h.there x hrow
      obtain rfl := Option.some.inj ((conversation_apply hrow w).symm.trans hx')
      refine ⟨w.on id y, conversation_apply hy w, fun hx => ?_⟩
      rw [Write.on_status] at hx ⊢
      split at hx
      · exact hx
      · rfl
      · exact hactive hx
    | none =>
      -- the transaction created the row
      rcases conversation_created hrow w with hn | ⟨d, rfl, rfl, ⟨v, hv, hvd⟩, hsome⟩
      · rw [hn] at hx'
        cases hx'
      obtain rfl := Option.some.inj (hsome.symm.trans hx')
      cases hrow' : db'.conversation d.id with
      | some y =>
        exact ⟨_, conversation_apply hrow' _, fun _ =>
          Write.on_active (h.absent hrow y hrow') nofun⟩
      | none =>
        obtain ⟨v', hv', hid⟩ := h.users v hv
        exact ⟨d, conversation_insert hrow' ⟨v', hv', hid.trans hvd⟩, fun hx => hx⟩
  · cases hrow : db.conversation id with
    | some x =>
      rw [conversation_apply hrow w] at hnone
      cases hnone
    | none =>
      cases hrow' : db'.conversation id with
      | some y =>
        obtain rfl := Option.some.inj ((conversation_apply hrow' w).symm.trans hy')
        exact Write.on_active (h.absent hrow y hrow') hw
      | none =>
        rcases conversation_created hrow' w with hn | ⟨d, rfl, -, -, hsome⟩
        · rw [hn] at hy'
          cases hy'
        · obtain rfl := Option.some.inj (hsome.symm.trans hy')
          exact hd d rfl

theorem Db.Behind.applyAll (h : Db.Behind id db db') (htx : Tx.Spares tx id) :
    Db.Behind id (db.applyAll tx) (db'.applyAll tx) := by
  induction tx generalizing db db' with
  | nil => exact h
  | cons w tx ih =>
    obtain ⟨hclose, hinsert, hrest⟩ := htx.of_cons
    exact ih (h.apply hclose hinsert) hrest

theorem Db.behind_apply (db : Db) (hw : w.kindOn id ≠ some .close)
    (hd : ∀ d, w = .insertConversation d → d.status = .active) : Db.Behind id db (db.apply w) := by
  refine ⟨db.users_apply w, fun x hx => ?_, fun hnone y hy => ?_⟩
  · exact ⟨_, conversation_apply hx w, fun h => Write.on_active h hw⟩
  · rcases conversation_created hnone w with hn | ⟨d, rfl, -, -, hsome⟩
    · rw [hn] at hy
      cases hy
    · obtain rfl := Option.some.inj (hsome.symm.trans hy)
      exact hd d rfl

theorem Db.Behind.trans {db'' : Db} (h : Db.Behind id db db') (h' : Db.Behind id db' db'') :
    Db.Behind id db db'' := by
  refine ⟨fun v hv => ?_, fun x hx => ?_, fun hnone z hz => ?_⟩
  · obtain ⟨v', hv', hid⟩ := h.users v hv
    obtain ⟨v'', hv'', hid'⟩ := h'.users v' hv'
    exact ⟨v'', hv'', hid'.trans hid⟩
  · obtain ⟨y, hy, hactive⟩ := h.there x hx
    obtain ⟨z, hz, hactive'⟩ := h'.there y hy
    exact ⟨z, hz, fun hx => hactive' (hactive hx)⟩
  · cases hrow : db'.conversation id with
    | none => exact h'.absent hrow z hz
    | some y =>
      obtain ⟨z', hz', hactive⟩ := h'.there y hrow
      obtain rfl := Option.some.inj (hz'.symm.trans hz)
      exact hactive (h.absent hnone y hrow)

/-- A transaction that spares the row leaves it as active as it was. -/
theorem Db.behind_applyAll (db : Db) (htx : Tx.Spares tx id) :
    Db.Behind id db (db.applyAll tx) := by
  induction tx generalizing db with
  | nil =>
    refine ⟨fun v hv => ⟨v, hv, rfl⟩, fun x hx => ⟨x, hx, fun h => h⟩, fun hnone y hy => ?_⟩
    rw [show db.conversation id = some y from hy] at hnone
    cases hnone
  | cons w tx ih =>
    obtain ⟨hclose, hinsert, hrest⟩ := htx.of_cons
    exact (db.behind_apply hclose hinsert).trans (ih _ hrest)

theorem Db.IsActive.behind (h : (db.applyAll tx).IsActive id) (htx : Tx.Spares tx id)
    (hb : Db.Behind id db db') : (db'.applyAll tx).IsActive id := by
  obtain ⟨x, hx, hactive⟩ := h
  obtain ⟨y, hy, hstays⟩ := (hb.applyAll htx).there x hx
  exact ⟨y, hy, hstays hactive⟩

/-- **A row a transaction sees active** stays so when others commit what spares it. -/
theorem Db.IsActive.interfere (h : (db.applyAll tx).IsActive id) (htx : Tx.Spares tx id)
    (hws : Tx.Spares ws id) : ((db.applyAll ws).applyAll tx).IsActive id :=
  h.behind htx (db.behind_applyAll hws)

/-! ## A conversation that a transaction has opened -/

/-- Whose a row is: it was there, or the transaction has created it. -/
theorem Db.row_source {y : Conversation} (h : (db.applyAll tx).conversation id = some y) :
    (∃ x, db.conversation id = some x ∧ y.userId = x.userId) ∨
      (db.conversation id = none ∧
        ∃ d, .insertConversation d ∈ tx ∧ d.id = id ∧ y.userId = d.userId) := by
  induction tx generalizing db with
  | nil => exact .inl ⟨y, h, rfl⟩
  | cons w tx ih =>
    cases hrow : db.conversation id with
    | some x =>
      rw [conversation_applyAll hrow (w :: tx)] at h
      obtain rfl := Option.some.inj h
      exact .inl ⟨x, rfl, Tx.on_userId _ id x⟩
    | none =>
      refine .inr ⟨rfl, ?_⟩
      rcases ih h with ⟨x, hx, hu⟩ | ⟨-, d, hd, hid, hu⟩
      · rcases conversation_created hrow w with hn | ⟨d, rfl, hid, -, hsome⟩
        · rw [hn] at hx
          cases hx
        · obtain rfl := Option.some.inj (hsome.symm.trans hx)
          exact ⟨d, List.mem_cons_self, hid, hu⟩
      · exact ⟨d, List.mem_cons_of_mem w hd, hid, hu⟩

/-- A missing row that a transaction does not create is missing after it. -/
theorem Db.row_absent (h : db.conversation id = none)
    (htx : ∀ d, .insertConversation d ∈ tx → d.id ≠ id) : (db.applyAll tx).conversation id = none := by
  by_contra hrow
  obtain ⟨y, hy⟩ := Option.ne_none_iff_exists'.mp hrow
  obtain ⟨d, hd, hid⟩ := created_of_absent h hy
  exact htx d hd hid

/-- The transaction has revived the customer's row, which it has locked, or created it. -/
structure HasOpened (db : Db) (tx : Tx) (id u : Nat) : Prop where
  active : (db.applyAll tx).IsActive id
  spares : Tx.Spares tx id
  own : (∃ x, db.conversation id = some x ∧ x.userId = u ∧ Tx.holds tx (.conversation id) = true) ∨
    (db.conversation id = none ∧ ∀ d, .insertConversation d ∈ tx → d.id = id → d.userId = u)

namespace HasOpened

/-- The row is active and the customer's. -/
theorem row (h : HasOpened db tx id u) {y : Conversation}
    (hy : (db.applyAll tx).conversation id = some y) : y.userId = u ∧ y.status = .active := by
  obtain ⟨z, hz, hactive⟩ := h.active
  obtain rfl := Option.some.inj (hz.symm.trans hy)
  refine ⟨?_, hactive⟩
  rcases Db.row_source hy with ⟨x, hx, hu⟩ | ⟨hnone, d, hd, hid, hu⟩
  · rcases h.own with ⟨x', hx', hu', -⟩ | ⟨hnone, -⟩
    · obtain rfl := Option.some.inj (hx'.symm.trans hx)
      exact hu.trans hu'
    · rw [hnone] at hx
      cases hx
  · rcases h.own with ⟨x', hx', -⟩ | ⟨-, hown⟩
    · rw [hnone] at hx'
      cases hx'
    · exact hu.trans (hown d hd hid)

/-- **The commit of another transaction** leaves it open. -/
theorem interfere {theirs : Tx} (h : HasOpened db tx id u)
    (hlock : Tx.holds tx (.conversation id) = true → Tx.holds theirs (.conversation id) = false)
    (hnew : (∃ d, .insertConversation d ∈ tx ∧ d.id = id) →
      ∀ d, .insertConversation d ∈ theirs → d.id ≠ id)
    (hinsert : ∀ d, .insertConversation d ∈ theirs → d.status = .active) :
    HasOpened (db.applyAll theirs) tx id u := by
  rcases h.own with ⟨x, hx, hu, hheld⟩ | ⟨hnone, hown⟩
  · have htheirs : Tx.Spares theirs id := ⟨fun hk => ?_, hinsert⟩
    · refine ⟨h.active.interfere h.spares htheirs, h.spares, .inl ⟨_, Db.conversation_applyAll hx theirs,
        ?_, hheld⟩⟩
      rw [Tx.on_userId]
      exact hu
    · have hfree := hlock hheld
      rw [Tx.holds_of_kinds (List.ne_nil_of_mem hk)] at hfree
      cases hfree
  · obtain ⟨y, hy, -⟩ := h.active
    have habsent := Db.row_absent hnone (hnew (Db.created_of_absent hnone hy))
    have hb : Db.Behind id db (db.applyAll theirs) := by
      refine ⟨(db.within_applyAll theirs).users, fun x hx => ?_, fun _ z hz => ?_⟩
      · rw [hnone] at hx
        cases hx
      · rw [habsent] at hz
        cases hz
    exact ⟨h.active.behind h.spares hb, h.spares, .inr ⟨habsent, hown⟩⟩

end HasOpened

/-! ## Statements that open a conversation -/

/-- `w` makes the conversation `c` of a customer who has none active. -/
structure Opening (db : Db) (seq c u : Nat) (w : Write) : Prop where
  opens : ∀ v, w.opens v = true ↔ v = u
  slot : db.activeFor u = []
  sound : w.Sound db
  insert : ∀ d, w = .insertConversation d → d.status = .active ∧ d.id = seq
  keeps : ∀ id, w.kindOn id ≠ some .close
  active : (db.apply w).IsActive c

variable {now : Time} {seq : Nat} {locked : Nat → Bool} {r : Option Nat}

/-- A statement that answers the id of a conversation opened it. -/
def Opened (db : Db) (seq : Nat) (r : Option Nat) (ws : List Write) : Prop :=
  match r with
  | none => ws = []
  | some c => ∃ u w, ws = [w] ∧ Opening db seq c u w

theorem opened_revive (seq : Nat) (hc : c ∈ db.conversations.rows) (t : Time) :
    Opened db seq (revive db c t).1 (revive db c t).2 := by
  unfold revive
  split
  · rename_i h
    have hrow := Db.conversation_of_mem hc
    refine ⟨c.userId, .updateConversation c.id c.userId (.revive t), rfl, ?_⟩
    exact
      { opens := fun v => decide_eq_true_iff.trans eq_comm
        slot := h.2
        sound := ⟨c, hrow, rfl⟩
        insert := fun d hd => Write.noConfusion hd
        keeps := fun id hk => by
          simp only [Write.kindOn] at hk
          split at hk <;> cases hk
        active := ⟨_, Db.conversation_apply hrow _, by simp [Write.on, ConversationUpdate.apply]⟩ }
  · rfl

theorem Stmt.exec_reopenRecent {userId : Nat} {notBefore t : Time}
    (h : (Stmt.reopenRecent userId notBefore t).exec now seq locked db = some (r, ws)) :
    Opened db seq r ws := by
  simp only [Stmt.exec] at h
  split at h
  · rename_i d hd
    have hopened := opened_revive seq (Db.reopenCandidate_mem hd) t
    rwa [Option.some.inj h] at hopened
  · obtain ⟨rfl, rfl⟩ := Prod.mk.inj (Option.some.inj h)
    rfl

theorem Stmt.exec_reopen {t : Time} (h : (Stmt.reopen id t).exec now seq locked db = some (r, ws)) :
    Opened db seq r ws := by
  simp only [Stmt.exec] at h
  split at h
  · rename_i d hd
    have hopened := opened_revive seq (Lib.Table.find_some hd).1 t
    rwa [Option.some.inj h] at hopened
  · obtain ⟨rfl, rfl⟩ := Prod.mk.inj (Option.some.inj h)
    rfl

theorem Stmt.exec_insertConversation {userId : Nat} {channel : Channel}
    (hseq : db.conversation seq = none)
    (h : (Stmt.insertConversation userId channel).exec now seq locked db = some (r, ws)) :
    Opened db seq r ws := by
  simp only [Stmt.exec] at h
  split at h
  · obtain ⟨rfl, rfl⟩ := Prod.mk.inj (Option.some.inj h)
    rfl
  · rename_i hnone
    split at h
    · rename_i huser
      obtain ⟨rfl, rfl⟩ := Prod.mk.inj (Option.some.inj h)
      obtain ⟨v, hv, hid⟩ := List.any_eq_true.mp huser
      have hrow := Db.conversation_insert (d := newConversation seq userId channel now) hseq
        ⟨v, hv, of_decide_eq_true hid⟩
      refine ⟨userId, .insertConversation (newConversation seq userId channel now), rfl, ?_⟩
      exact
        { opens := fun v => decide_eq_true_iff.trans eq_comm
          slot := Decidable.of_not_not hnone
          sound := trivial
          insert := fun d hd => by
            obtain rfl := Write.insertConversation.inj hd
            exact ⟨rfl, rfl⟩
          keeps := fun id hk => by cases hk
          active := ⟨_, hrow, rfl⟩ }
    · cases h

/-- `reopen_recent` answers a row of the customer that it has revived. -/
theorem HasOpened.reopenRecent {userId : Nat} {notBefore t : Time}
    (h : (Stmt.reopenRecent userId notBefore t).exec now seq locked (db.applyAll tx) =
      some (some id, ws)) (hnone : ∀ d, .insertConversation d ∉ tx)
    (hclose : Kind.close ∉ Tx.kinds tx id) : HasOpened db (tx ++ ws) id userId := by
  simp only [Stmt.exec] at h
  split at h
  · rename_i c hc
    obtain ⟨hmem, huser, -, -⟩ : c ∈ (db.applyAll tx).conversations.rows ∧ c.userId = userId ∧
        c.status = .closed ∧ _ := by
      simpa using List.mem_filter.mp (newest_mem hc)
    have hrow := Db.conversation_of_mem hmem
    unfold revive at h
    split at h
    · obtain ⟨hid, rfl⟩ := Prod.mk.inj (Option.some.inj h)
      obtain rfl := Option.some.inj hid
      refine ⟨?_, ⟨?_, fun d hd => ?_⟩, .inl ?_⟩
      · rw [Db.applyAll_append]
        exact ⟨_, Db.conversation_applyAll hrow _, by simp [Tx.on, Write.on, ConversationUpdate.apply]⟩
      · rw [Tx.kinds_append, List.mem_append, not_or]
        exact ⟨hclose, by simp [Tx.kinds, Write.kindOn, ConversationUpdate.kind]⟩
      · rcases List.mem_append.mp hd with hd | hd
        · exact absurd hd (hnone d)
        · cases List.mem_singleton.mp hd
      · rcases Db.row_source hrow with ⟨x, hx, hu⟩ | ⟨-, d, hd, -⟩
        · exact ⟨x, hx, hu.symm.trans huser,
            holds_of_mem (List.mem_append_right _ List.mem_cons_self) (by simp [Write.locks])⟩
        · exact absurd hd (hnone d)
    · cases (Prod.mk.inj (Option.some.inj h)).1
  · cases (Prod.mk.inj (Option.some.inj h)).1

/-- The insert of `get_or_create_active` answers a row of the customer that it has created. -/
theorem HasOpened.insertConversation {userId : Nat} {channel : Channel}
    (h : (Stmt.insertConversation userId channel).exec now seq locked (db.applyAll tx) =
      some (some id, ws)) (hseq : (db.applyAll tx).conversation seq = none)
    (hinserts : ∀ d, .insertConversation d ∈ tx → d.status = .active ∧ d.id < seq)
    (hclose : Kind.close ∉ Tx.kinds tx id) : HasOpened db (tx ++ ws) id userId := by
  simp only [Stmt.exec] at h
  split at h
  · cases (Prod.mk.inj (Option.some.inj h)).1
  · split at h
    · rename_i huser
      obtain ⟨hid, rfl⟩ := Prod.mk.inj (Option.some.inj h)
      obtain rfl := Option.some.inj hid
      obtain ⟨v, hv, hvid⟩ := List.any_eq_true.mp huser
      refine ⟨?_, ⟨?_, fun d hd => ?_⟩, .inr ⟨?_, fun d hd hd' => ?_⟩⟩
      · rw [Db.applyAll_append]
        exact ⟨_, Db.conversation_insert (d := newConversation seq userId channel now) hseq
          ⟨v, hv, of_decide_eq_true hvid⟩, rfl⟩
      · rw [Tx.kinds_append, List.mem_append, not_or]
        exact ⟨hclose, by simp [Tx.kinds, Write.kindOn]⟩
      · rcases List.mem_append.mp hd with hd | hd
        · exact (hinserts d hd).1
        · rw [Write.insertConversation.inj (List.mem_singleton.mp hd)]
          rfl
      · by_contra hrow
        have hsome := Db.conversation_applyAll_isSome (Option.isSome_iff_ne_none.mpr hrow) tx
        rw [hseq] at hsome
        cases hsome
      · rcases List.mem_append.mp hd with hd | hd
        · exact absurd hd' (Nat.ne_of_lt (hinserts d hd).2)
        · rw [Write.insertConversation.inj (List.mem_singleton.mp hd)]
          rfl
    · cases h

/-! ## The savepoint of a revive -/

/-- `uq_active_conversation_per_user`. -/
def Db.OneActive (db : Db) : Prop := ∀ u, (db.activeFor u).length ≤ 1

/-- The UPDATE of `_revive` alone. -/
def reviveUpdate (c : Conversation) (t : Time) : List Write :=
  if c.status = .closed then [.updateConversation c.id c.userId (.revive t)] else []

theorem Db.OneActive.revive (h : db.OneActive) (hc : c ∈ db.conversations.rows)
    (hfree : db.activeFor c.userId = []) (t : Time) :
    (db.apply (.updateConversation c.id c.userId (.revive t))).OneActive := by
  intro u
  have hle := Db.activeFor_apply_le (w := .updateConversation c.id c.userId (.revive t))
    ⟨c, Db.conversation_of_mem hc, rfl⟩ u
  by_cases hu : c.userId = u
  · subst hu
    rw [hfree] at hle
    simpa [Write.opens] using hle
  · have hnot : Write.opens u (.updateConversation c.id c.userId (.revive t)) = false := by
      simp [Write.opens, hu]
    rw [hnot] at hle
    exact Nat.le_trans hle (h u)

theorem Db.not_oneActive_revive (hc : c ∈ db.conversations.rows) (hclosed : c.status = .closed)
    (hbusy : db.activeFor c.userId ≠ []) (t : Time) :
    ¬ (db.apply (.updateConversation c.id c.userId (.revive t))).OneActive := by
  intro hone
  obtain ⟨y, hy⟩ := List.exists_mem_of_ne_nil _ hbusy
  obtain ⟨hrow, hu, hactive⟩ := mem_activeFor.mp hy
  have hne : c.id ≠ y.id := fun hid => by
    rw [← hid, conversation_of_mem hc] at hrow
    obtain rfl := Option.some.inj hrow
    rw [hclosed] at hactive
    cases hactive
  -- both rows are active after the update
  have hcafter := conversation_apply (conversation_of_mem hc)
    (.updateConversation c.id c.userId (.revive t))
  have hyafter := conversation_apply hrow (.updateConversation c.id c.userId (.revive t))
  have hc' : ConversationUpdate.apply c (.revive t) ∈
      (db.apply (.updateConversation c.id c.userId (.revive t))).activeFor c.userId :=
    mem_activeFor.mpr ⟨by simpa [Write.on] using hcafter, rfl, rfl⟩
  have hy' : y ∈ (db.apply (.updateConversation c.id c.userId (.revive t))).activeFor c.userId :=
    mem_activeFor.mpr ⟨by simpa [Write.on, hne] using hyafter, hu, hactive⟩
  obtain ⟨z, hz⟩ := List.length_eq_one_iff.mp
    (Nat.le_antisymm (hone c.userId) (List.length_pos_of_mem hy'))
  rw [hz, List.mem_singleton] at hc' hy'
  have hid : c.id = (ConversationUpdate.apply c (.revive t)).id := rfl
  exact hne (hid.trans (congrArg Conversation.id (hc'.trans hy'.symm)))

open Classical in
/-- **A revive is its UPDATE in a savepoint**: it stands where it leaves the partial unique index
intact, and where it does not, nothing of it is left and `None` is answered. -/
theorem revive_savepoint (h : db.OneActive) (hc : c ∈ db.conversations.rows) (t : Time) :
    revive db c t =
      if c.status = .closed ∧ (db.applyAll (reviveUpdate c t)).OneActive then
        (some c.id, reviveUpdate c t)
      else (none, []) := by
  unfold revive
  by_cases hclosed : c.status = .closed
  · have hws : reviveUpdate c t = [.updateConversation c.id c.userId (.revive t)] := if_pos hclosed
    rw [hws]
    by_cases hfree : db.activeFor c.userId = []
    · rw [if_pos ⟨hclosed, hfree⟩, if_pos ⟨hclosed, h.revive hc hfree t⟩]
    · rw [if_neg fun hcond => hfree hcond.2,
        if_neg fun hcond => Db.not_oneActive_revive hc hclosed hfree t hcond.2]
  · rw [if_neg fun hcond => hclosed hcond.1, if_neg fun hcond => hclosed hcond.1]

end Store
