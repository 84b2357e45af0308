import WhatsAppBot.Store.Proof.Writes

/-!
# Message rows

What a transaction makes of the message rows: `Db.messages_applyAll_eq` splits the rows it sees into
those that were there, each with the transaction's updates of it (`Tx.revise`), and those it inserted
(`Tx.inserted`). Two transactions that are `Apart` never change the same row, so a row that one of
them sees after the other's commit is a row one of the two saw before (`Apart.mem_after`).
-/

set_option autoImplicit false

namespace Store

def Write.revise (m : Message) : Write → Message
  | .updateMessage id u => if m.id = id then u.apply m else m
  | _ => m

/-- A row that was there, with the updates a transaction makes of it. -/
def Tx.revise (tx : Tx) (m : Message) : Message := List.foldl Write.revise m tx

/-- The rows a transaction inserts, with its later updates of them. -/
def Tx.inserted : Tx → List Message
  | [] => []
  | .insertMessage m :: tx => Tx.revise tx m :: Tx.inserted tx
  | _ :: tx => Tx.inserted tx

variable {db : Db} {tx mine theirs : Tx} {m n : Message} {v : Write} {k : String}

@[simp] theorem MessageUpdate.apply_id (u : MessageUpdate) (m : Message) : (u.apply m).id = m.id := by
  cases u <;> rfl

@[simp] theorem Write.revise_id (v : Write) (m : Message) : (v.revise m).id = m.id := by
  cases v with
  | updateMessage id u =>
    simp only [revise]
    split
    · exact u.apply_id m
    · rfl
  | _ => rfl

@[simp] theorem Tx.revise_id (tx : Tx) (m : Message) : (tx.revise m).id = m.id := by
  induction tx generalizing m with
  | nil => rfl
  | cons v tx ih => exact (ih (v.revise m)).trans (v.revise_id m)

theorem Db.messages_applyAll_eq (db : Db) (tx : Tx) :
    (db.applyAll tx).messages = db.messages.map tx.revise ++ tx.inserted := by
  induction tx generalizing db with
  | nil => simp [Db.applyAll, Tx.inserted, show Tx.revise [] = id from rfl]
  | cons v tx ih =>
    rw [show db.applyAll (v :: tx) = (db.apply v).applyAll tx from rfl, ih]
    cases v with
    | insertMessage m =>
      have hsame : Tx.revise (.insertMessage m :: tx) = Tx.revise tx := rfl
      simp [Db.apply, Db.insertMessage, Tx.inserted, hsame]
    | updateMessage id u =>
      simp only [Db.apply, Db.updateMessage, Tx.inserted, List.map_map]
      rfl
    | insertConversation c =>
      simp only [Db.apply, Db.insertConversation]
      split <;> rfl
    | _ => rfl

theorem Db.mem_messages_applyAll : m ∈ (db.applyAll tx).messages ↔
    (∃ n ∈ db.messages, tx.revise n = m) ∨ m ∈ tx.inserted := by
  rw [messages_applyAll_eq, List.mem_append, List.mem_map]

/-! ## Rows a transaction leaves alone -/

theorem Write.revise_of_not_locked (h : .message m.id ∉ v.locks) : v.revise m = m := by
  cases v with
  | updateMessage id u =>
    refine if_neg fun hid => h ?_
    cases u <;> simp [Write.locks, hid]
  | _ => rfl

/-- A row whose lock the transaction does not hold. -/
theorem Tx.revise_of_not_holds (h : Tx.holds tx (.message m.id) = false) : tx.revise m = m := by
  induction tx with
  | nil => rfl
  | cons v tx ih =>
    simp only [Tx.holds, List.any_cons, Bool.or_eq_false_iff, decide_eq_false_iff_not] at h
    change Tx.revise tx (v.revise m) = m
    rw [Write.revise_of_not_locked h.1]
    exact ih h.2

/-- The provider's id of a row comes with a lock on it. -/
theorem Write.revise_waMessageId (h : (v.revise m).waMessageId = some k) :
    m.waMessageId = some k ∨ .waMessageId k ∈ v.locks := by
  cases v with
  | updateMessage id u =>
    simp only [revise] at h
    split at h
    · cases u with
      | confirm waMessageId status =>
        obtain rfl : waMessageId = some k := h
        exact .inr (by simp [Write.locks])
      | _ => exact .inl h
    · exact .inl h
  | _ => exact .inl h

theorem Tx.holds_cons {l : Lock} :
    Tx.holds (v :: tx) l = (decide (l ∈ v.locks) || Tx.holds tx l) := rfl

theorem Tx.revise_waMessageId (h : (tx.revise m).waMessageId = some k) :
    m.waMessageId = some k ∨ Tx.holds tx (.waMessageId k) = true := by
  induction tx generalizing m with
  | nil => exact .inl h
  | cons v tx ih =>
    rw [holds_cons, Bool.or_eq_true, decide_eq_true_eq]
    rcases ih h with hm | hm
    · exact (Write.revise_waMessageId hm).imp_right .inl
    · exact .inr (.inr hm)

theorem Tx.inserted_waMessageId (h : m ∈ tx.inserted) (hm : m.waMessageId = some k) :
    Tx.holds tx (.waMessageId k) = true := by
  induction tx with
  | nil => cases h
  | cons v tx ih =>
    rw [holds_cons, Bool.or_eq_true, decide_eq_true_eq]
    cases v with
    | insertMessage n =>
      rcases List.mem_cons.mp h with rfl | h
      · exact (Tx.revise_waMessageId hm).imp_left fun hn => by simp [Write.locks, hn]
      · exact .inr (ih h)
    | _ => exact .inr (ih h)

/-- Where the provider's id of a row comes from. -/
theorem Db.source (h : m ∈ (db.applyAll tx).messages) (hm : m.waMessageId = some k) :
    (∃ n ∈ db.messages, n.id = m.id ∧ n.waMessageId = some k) ∨
      Tx.holds tx (.waMessageId k) = true := by
  rcases mem_messages_applyAll.mp h with ⟨n, hn, rfl⟩ | h
  · exact (Tx.revise_waMessageId hm).imp_left fun hk => ⟨n, hn, (tx.revise_id n).symm, hk⟩
  · exact .inr (Tx.inserted_waMessageId h hm)

/-! ## Which rows a transaction claims -/

/-- The write enters the row `id`: it inserts it or gives it its provider's id. -/
def Write.enters (id : Nat) : Write → Bool
  | .insertMessage m => m.id = id
  | .updateMessage i (.confirm _ _) => i = id
  | _ => false

/-- The transaction enters the row. -/
def Tx.enters (tx : Tx) (id : Nat) : Bool := tx.any (Write.enters id)

theorem Tx.enters_append {ws : Tx} {id : Nat} :
    Tx.enters (tx ++ ws) id = (tx.enters id || Tx.enters ws id) :=
  List.any_append

theorem Tx.enters_of_inserted (h : m ∈ tx.inserted) : tx.enters m.id = true := by
  induction tx with
  | nil => cases h
  | cons v tx ih =>
    refine List.any_cons.trans (Bool.or_eq_true_iff.mpr ?_)
    cases v with
    | insertMessage n =>
      rcases List.mem_cons.mp h with rfl | h
      · exact .inl (decide_eq_true (Tx.revise_id tx n).symm)
      · exact .inr (ih h)
    | _ => exact .inr (ih h)

theorem Tx.inserted_source (h : m ∈ tx.inserted) : ∃ n, .insertMessage n ∈ tx ∧ n.id = m.id := by
  induction tx with
  | nil => cases h
  | cons v tx ih =>
    have hlater : m ∈ Tx.inserted tx → ∃ n, .insertMessage n ∈ v :: tx ∧ n.id = m.id := fun hm =>
      let ⟨n, hn, hid⟩ := ih hm
      ⟨n, List.mem_cons_of_mem _ hn, hid⟩
    cases v with
    | insertMessage n =>
      rcases List.mem_cons.mp h with rfl | h
      · exact ⟨n, List.mem_cons_self, (Tx.revise_id tx n).symm⟩
      · exact hlater h
    | _ => exact hlater h

/-- A row keeps its provider's id in a transaction that does not enter it. -/
theorem Tx.revise_of_not_enters (h : tx.enters m.id = false) :
    (tx.revise m).waMessageId = m.waMessageId := by
  induction tx generalizing m with
  | nil => rfl
  | cons v tx ih =>
    obtain ⟨hv, htx⟩ := Bool.or_eq_false_iff.mp (List.any_cons.symm.trans h)
    have hsame : (v.revise m).waMessageId = m.waMessageId := by
      cases v with
      | updateMessage id u =>
        simp only [Write.revise]
        split
        · rename_i hid
          cases u with
          | confirm => exact absurd hv (by simp [Write.enters, hid])
          | _ => rfl
        · rfl
      | _ => rfl
    rw [← hsame]
    exact ih (by rw [v.revise_id]; exact htx)

/-- The row is there and has no provider's id. -/
def Db.Unposted (db : Db) (id : Nat) : Prop := ∃ m ∈ db.messages, m.id = id ∧ m.waMessageId = none

def Db.HasMessage (db : Db) (id : Nat) : Prop := ∃ m ∈ db.messages, m.id = id

theorem Db.HasMessage.applyAll {id : Nat} (h : db.HasMessage id) (tx : Tx) :
    (db.applyAll tx).HasMessage id := by
  obtain ⟨m, hm, rfl⟩ := h
  exact ⟨_, mem_messages_applyAll.mpr (.inl ⟨m, hm, rfl⟩), Tx.revise_id tx m⟩

theorem Db.Unposted.applyAll {id : Nat} (h : db.Unposted id) (hfree : tx.enters id = false) :
    (db.applyAll tx).Unposted id := by
  obtain ⟨m, hm, rfl, hnone⟩ := h
  exact ⟨_, mem_messages_applyAll.mpr (.inl ⟨m, hm, rfl⟩), Tx.revise_id tx m,
    (Tx.revise_of_not_enters hfree).trans hnone⟩

/-! ## After another transaction's commit -/

/-- The rows of a database have ids of their own. -/
def Db.DistinctIds (db : Db) : Prop := (db.messages.map (·.id)).Nodup

/-- Every row a transaction updates is one it sees. -/
def Touches (db : Db) (tx : Tx) : Prop :=
  ∀ id, Tx.holds tx (.message id) = true → (db.applyAll tx).HasMessage id

theorem Db.ids_applyAll (db : Db) (tx : Tx) : (db.applyAll tx).messages.map (·.id) =
    db.messages.map (·.id) ++ tx.inserted.map (·.id) := by
  rw [messages_applyAll_eq, List.map_append, List.map_map]
  exact congrArg (· ++ _) (List.map_congr_left fun m _ => Tx.revise_id tx m)

theorem Db.DistinctIds.eq (h : db.DistinctIds) (hm : m ∈ db.messages) (hn : n ∈ db.messages)
    (hid : m.id = n.id) : m = n :=
  List.inj_on_of_nodup_map h hm hn hid

/-- An inserted row has a new id. -/
theorem Db.DistinctIds.new (h : (db.applyAll tx).DistinctIds) (hm : m ∈ tx.inserted)
    (hn : n ∈ db.messages) : n.id ≠ m.id := by
  rw [DistinctIds, ids_applyAll] at h
  intro hid
  refine List.disjoint_of_nodup_append h (List.mem_map_of_mem hn) ?_
  rw [hid]
  exact List.mem_map_of_mem hm

/-- Two open transactions that share no lock and enter no row in common. -/
structure Apart (db : Db) (mine theirs : Tx) : Prop where
  locks : ∀ l, Tx.holds mine l = true → Tx.holds theirs l = false
  rows : ∀ id, mine.enters id = true → theirs.enters id = false
  touchesMine : Touches db mine
  touchesTheirs : Touches db theirs
  distinctMine : (db.applyAll mine).DistinctIds
  distinctTheirs : (db.applyAll theirs).DistinctIds

namespace Apart

theorem symm (h : Apart db mine theirs) : Apart db theirs mine where
  locks l hl := by
    by_contra hm
    rw [h.locks l (Bool.eq_true_of_not_eq_false hm)] at hl
    cases hl
  rows id hid := by
    by_contra hm
    rw [h.rows id (Bool.eq_true_of_not_eq_false hm)] at hid
    cases hid
  touchesMine := h.touchesTheirs
  touchesTheirs := h.touchesMine
  distinctMine := h.distinctTheirs
  distinctTheirs := h.distinctMine

/-- A row one of them inserts is none the other sees. -/
theorem unseen (h : Apart db mine theirs) (hm : m ∈ (db.applyAll mine).messages)
    (hn : n ∈ theirs.inserted) : n.id ≠ m.id := by
  intro hid
  rcases Db.mem_messages_applyAll.mp hm with ⟨x, hx, rfl⟩ | hm
  · exact h.distinctTheirs.new hn hx (by rw [hid, Tx.revise_id])
  · have hfree := h.rows _ (Tx.enters_of_inserted hm)
    rw [← hid, Tx.enters_of_inserted hn] at hfree
    cases hfree

/-- Nor does the other update it. -/
theorem untouched (h : Apart db mine theirs) (hn : n ∈ theirs.inserted) :
    Tx.holds mine (.message n.id) = false := by
  by_contra hheld
  obtain ⟨m, hm, hid⟩ := h.touchesMine _ (Bool.eq_true_of_not_eq_false hheld)
  exact h.unseen hm hn hid.symm

theorem mem_after (h : Apart db mine theirs)
    (hm : m ∈ ((db.applyAll theirs).applyAll mine).messages) :
    m ∈ (db.applyAll mine).messages ∨ m ∈ (db.applyAll theirs).messages := by
  rcases Db.mem_messages_applyAll.mp hm with ⟨x, hx, rfl⟩ | hm
  · cases hheld : Tx.holds mine (.message x.id) with
    | false =>
      rw [Tx.revise_of_not_holds hheld]
      exact .inr hx
    | true =>
      rcases Db.mem_messages_applyAll.mp hx with ⟨y, hy, rfl⟩ | hx
      · rw [Tx.revise_id] at hheld
        rw [Tx.revise_of_not_holds (h.locks _ hheld)]
        exact .inl (Db.mem_messages_applyAll.mpr (.inl ⟨y, hy, rfl⟩))
      · rw [h.untouched hx] at hheld
        cases hheld
  · exact .inl (Db.mem_messages_applyAll.mpr (.inr hm))

/-- A row the other leaves alone. -/
theorem mine_after (hm : m ∈ (db.applyAll mine).messages)
    (hfree : Tx.holds theirs (.message m.id) = false) :
    m ∈ ((db.applyAll theirs).applyAll mine).messages := by
  rcases Db.mem_messages_applyAll.mp hm with ⟨x, hx, rfl⟩ | hm
  · rw [Tx.revise_id] at hfree
    refine Db.mem_messages_applyAll.mpr (.inl ⟨x, Db.mem_messages_applyAll.mpr (.inl ⟨x, hx, ?_⟩), rfl⟩)
    exact Tx.revise_of_not_holds hfree
  · exact Db.mem_messages_applyAll.mpr (.inr hm)

theorem theirs_after (hm : m ∈ (db.applyAll theirs).messages)
    (hfree : Tx.holds mine (.message m.id) = false) :
    m ∈ ((db.applyAll theirs).applyAll mine).messages :=
  Db.mem_messages_applyAll.mpr (.inl ⟨m, hm, Tx.revise_of_not_holds hfree⟩)

theorem of_after_mine (h : Apart db mine theirs) (hn : n ∈ (db.applyAll mine).messages)
    (hid : m.id = n.id) (hfree : Tx.holds theirs (.message m.id) = false)
    (hm : m ∈ ((db.applyAll theirs).applyAll mine).messages) : m ∈ (db.applyAll mine).messages := by
  rcases Db.mem_messages_applyAll.mp hm with ⟨x, hx, rfl⟩ | hm
  · rw [Tx.revise_id] at hid hfree
    rcases Db.mem_messages_applyAll.mp hx with ⟨y, hy, rfl⟩ | hx
    · rw [Tx.revise_id] at hfree
      rw [Tx.revise_of_not_holds hfree]
      exact Db.mem_messages_applyAll.mpr (.inl ⟨y, hy, rfl⟩)
    · exact absurd hid (h.unseen hn hx)
  · exact Db.mem_messages_applyAll.mpr (.inr hm)

theorem of_after_theirs (h : Apart db mine theirs) (hn : n ∈ (db.applyAll theirs).messages)
    (hid : m.id = n.id) (hfree : Tx.holds mine (.message m.id) = false)
    (hm : m ∈ ((db.applyAll theirs).applyAll mine).messages) : m ∈ (db.applyAll theirs).messages := by
  rcases Db.mem_messages_applyAll.mp hm with ⟨x, hx, rfl⟩ | hm
  · rw [Tx.revise_id] at hfree
    rwa [Tx.revise_of_not_holds hfree]
  · exact absurd hid (h.symm.unseen hn hm)

theorem distinct_after (h : Apart db mine theirs) :
    ((db.applyAll theirs).applyAll mine).DistinctIds := by
  have hmine := h.distinctMine
  rw [Db.DistinctIds, Db.ids_applyAll] at hmine ⊢
  refine h.distinctTheirs.append (List.nodup_append.mp hmine).2.1 fun id hid hid' => ?_
  obtain ⟨m, hm, rfl⟩ := List.mem_map.mp hid
  obtain ⟨n, hn, heq⟩ := List.mem_map.mp hid'
  exact h.symm.unseen hm hn heq

/-- A row keeps its place. -/
theorem id_after {id : Nat} (h : (db.applyAll mine).HasMessage id) :
    ((db.applyAll theirs).applyAll mine).HasMessage id := by
  obtain ⟨m, hm, rfl⟩ := h
  rcases Db.mem_messages_applyAll.mp hm with ⟨x, hx, rfl⟩ | hm
  · rw [Tx.revise_id]
    exact Db.HasMessage.applyAll (Db.HasMessage.applyAll ⟨x, hx, rfl⟩ theirs) mine
  · exact ⟨m, Db.mem_messages_applyAll.mpr (.inr hm), rfl⟩

/-- And a row without a provider's id stays without one, unless the other enters it. -/
theorem unposted_after (h : Apart db mine theirs) {id : Nat} (hun : (db.applyAll mine).Unposted id)
    (hfree : theirs.enters id = false) : ((db.applyAll theirs).applyAll mine).Unposted id := by
  obtain ⟨m, hm, rfl, hnone⟩ := hun
  rcases Db.mem_messages_applyAll.mp hm with ⟨x, hx, rfl⟩ | hm
  · rw [Tx.revise_id] at hfree ⊢
    cases hheld : Tx.holds mine (.message x.id) with
    | true =>
      have hseen : Tx.revise mine x ∈ (db.applyAll mine).messages :=
        Db.mem_messages_applyAll.mpr (.inl ⟨x, hx, rfl⟩)
      have hthere := Apart.mine_after hseen (by rw [Tx.revise_id mine x]; exact h.locks _ hheld)
      exact ⟨_, hthere, Tx.revise_id mine x, hnone⟩
    | false =>
      rw [Tx.revise_of_not_holds hheld] at hnone
      have hthere : Tx.revise theirs x ∈ (db.applyAll theirs).messages :=
        Db.mem_messages_applyAll.mpr (.inl ⟨x, hx, rfl⟩)
      exact ⟨_, Apart.theirs_after hthere (by rw [Tx.revise_id]; exact hheld), Tx.revise_id theirs x,
        (Tx.revise_of_not_enters hfree).trans hnone⟩
  · exact ⟨m, Db.mem_messages_applyAll.mpr (.inr hm), rfl, hnone⟩

end Apart

end Store
