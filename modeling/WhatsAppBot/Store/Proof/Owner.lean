import WhatsAppBot.Store.Proof.Active

/-!
# Who owns a conversation

The four columns that say who answers a conversation, and what writes do to them. `Ownership.onto r m`
is what becomes of a row when somebody who read it as `r` writes the columns of `m` that differ
(`Ownership.onto_set`). `Owned P` is the invariant: a conversation the bot answers has no owner, and
the label and the account of an owner are a pair that `P` allows.
-/

set_option autoImplicit false

namespace Store

structure Ownership where
  mode : Mode
  operator : Option String
  operatorId : Option Nat
  handoffAt : Option Time
  deriving DecidableEq

def Conversation.ownership (c : Conversation) : Ownership where
  mode := c.mode
  operator := c.assignedOperator
  operatorId := c.assignedOperatorId
  handoffAt := c.handoffAt

namespace Ownership

/-- What a flush writes. -/
def set (p : ModePatch) (o : Ownership) : Ownership where
  mode := p.mode.getD o.mode
  operator := p.assignedOperator.getD o.operator
  operatorId := p.assignedOperatorId.getD o.operatorId
  handoffAt := p.handoffAt.getD o.handoffAt

/-- The columns of `m` that differ from `r`, written over `y`. -/
def onto (r m y : Ownership) : Ownership where
  mode := if m.mode = r.mode then y.mode else m.mode
  operator := if m.operator = r.operator then y.operator else m.operator
  operatorId := if m.operatorId = r.operatorId then y.operatorId else m.operatorId
  handoffAt := if m.handoffAt = r.handoffAt then y.handoffAt else m.handoffAt

/-- The patch writes no column with the value it has in `r`. -/
structure Differs (p : ModePatch) (r : Ownership) : Prop where
  mode : p.mode ≠ some r.mode
  operator : p.assignedOperator ≠ some r.operator
  operatorId : p.assignedOperatorId ≠ some r.operatorId
  handoffAt : p.handoffAt ≠ some r.handoffAt

variable {p : ModePatch} {r m y : Ownership}

@[simp] theorem onto_self (r y : Ownership) : onto r r y = y := by
  simp [onto]

/-- One column of `onto_set`. -/
theorem column {α : Type} {q : Option α} {a b x : α} [Decidable (b = a)] [Decidable (q.getD b = a)]
    (h : q ≠ some a) :
    q.getD (if b = a then x else b) = if q.getD b = a then x else q.getD b := by
  cases q with
  | none => simp
  | some v =>
    have hv : v ≠ a := fun hva => h (congrArg some hva)
    simp [hv]

/-- A further patch of somebody who read the row as `r`. -/
theorem onto_set (h : Differs p r) (m y : Ownership) : (onto r m y).set p = onto r (m.set p) y := by
  simp only [set, onto, Ownership.mk.injEq]
  exact ⟨column h.mode, column h.operator, column h.operatorId, column h.handoffAt⟩

theorem onto_eq (hmode : m.mode = r.mode → y.mode = m.mode)
    (hoperator : m.operator = r.operator → y.operator = m.operator)
    (hid : m.operatorId = r.operatorId → y.operatorId = m.operatorId) :
    (onto r m y).mode = m.mode ∧ (onto r m y).operator = m.operator ∧
      (onto r m y).operatorId = m.operatorId := by
  simp only [onto]
  refine ⟨?_, ?_, ?_⟩ <;> split <;> simp_all

end Ownership

/-- A conversation the bot answers has no owner; a label and an account belong together. -/
structure Ownership.Owned (P : Option String → Option Nat → Prop) (o : Ownership) : Prop where
  bot : o.mode = .bot → o.operator = none ∧ o.operatorId = none ∧ o.handoffAt = none
  pair : P o.operator o.operatorId

/-- The row, if it is there, is as it should be. -/
def Db.Owned (P : Option String → Option Nat → Prop) (db : Db) (id : Nat) : Prop :=
  ∀ x, db.conversation id = some x → x.ownership.Owned P

/-! ## Under writes -/

theorem ConversationUpdate.apply_ownership (u : ConversationUpdate) (c : Conversation) :
    (u.apply c).ownership = match u with
      | .setMode p => c.ownership.set p
      | _ => c.ownership := by
  cases u <;> rfl

/-- The write creates no conversation and leaves the owner of the row alone. -/
def Write.keepsOwner (id : Nat) : Write → Bool
  | .updateConversation i _ (.setMode _) => i ≠ id
  | .insertConversation _ => false
  | _ => true

def Stmt.keepsOwner : Stmt → Bool
  | .flushMode _ _ | .insertConversation _ _ => false
  | _ => true

/-- The write leaves the row as it should be. -/
def Write.Respects (P : Option String → Option Nat → Prop) (id : Nat) : Write → Prop
  | .updateConversation i _ (.setMode p) => i = id → ∀ o : Ownership, o.Owned P → (o.set p).Owned P
  | .insertConversation d => d.id = id → d.ownership.Owned P
  | _ => True

variable {id : Nat} {c : Conversation} {w : Write} {tx ws : Tx} {db : Db}
  {P : Option String → Option Nat → Prop}

theorem Write.on_ownership (h : w.keepsOwner id = true) (c : Conversation) :
    (w.on id c).ownership = c.ownership := by
  cases w with
  | updateConversation i userId u =>
    simp only [Write.on]
    split
    · rename_i hi
      subst hi
      rw [u.apply_ownership]
      cases u with
      | setMode p => simp [Write.keepsOwner] at h
      | _ => rfl
    · rfl
  | _ => rfl

theorem Tx.on_ownership (h : ∀ v ∈ tx, v.keepsOwner id = true) (c : Conversation) :
    (Tx.on tx id c).ownership = c.ownership := by
  induction tx generalizing c with
  | nil => rfl
  | cons v tx ih =>
    exact (ih (fun x hx => h x (List.mem_cons_of_mem v hx)) (v.on id c)).trans
      (Write.on_ownership (h v List.mem_cons_self) c)

theorem Write.Respects.on (h : w.Respects P id) (hc : c.ownership.Owned P) :
    (w.on id c).ownership.Owned P := by
  cases w with
  | updateConversation i userId u =>
    simp only [Write.on]
    split
    · rename_i hi
      rw [u.apply_ownership]
      cases u with
      | setMode p => exact h hi _ hc
      | _ => exact hc
    · exact hc
  | _ => exact hc

theorem Db.Owned.apply (h : db.Owned P id) (hw : w.Respects P id) : (db.apply w).Owned P id := by
  intro x hx
  cases hrow : db.conversation id with
  | some y =>
    rw [conversation_apply hrow w] at hx
    obtain rfl := Option.some.inj hx
    exact hw.on (h y hrow)
  | none =>
    rcases conversation_created hrow w with hn | ⟨d, rfl, hd, -, hsome⟩
    · rw [hn] at hx
      cases hx
    · obtain rfl := Option.some.inj (hsome.symm.trans hx)
      exact hw hd

/-- **A transaction whose writes respect the row** leaves it as it should be. -/
theorem Db.Owned.applyAll (h : db.Owned P id) (htx : ∀ v ∈ tx, v.Respects P id) :
    (db.applyAll tx).Owned P id := by
  induction tx generalizing db with
  | nil => exact h
  | cons v tx ih =>
    exact ih (h.apply (htx v List.mem_cons_self)) fun x hx => htx x (List.mem_cons_of_mem v hx)

theorem Ownership.Owned.mono {Q : Option String → Option Nat → Prop} {o : Ownership}
    (h : o.Owned P) (hPQ : ∀ a b, P a b → Q a b) : o.Owned Q :=
  ⟨h.bot, hPQ _ _ h.pair⟩

/-! ## What statements write -/

variable {now : Time} {seq : Nat} {locked : Nat → Bool} {s : Stmt} {r : s.Resp}

/-- A new row has no owner. -/
theorem newConversation_owned (hP : P none none) (i userId : Nat) (channel : Channel) (t : Time) :
    (newConversation i userId channel t).ownership.Owned P :=
  ⟨fun _ => ⟨rfl, rfl, rfl⟩, hP⟩

/-- Only a flush of another operation can touch the owner. -/
theorem Stmt.exec_respects (h : s.exec now seq locked db = some (r, ws)) (hP : P none none)
    (hs : ∀ i p, s = .flushMode i p → i ≠ id) : ∀ v ∈ ws, v.Respects P id := by
  intro v hv
  have hmade := Stmt.exec_made h hv
  cases v with
  | insertConversation d =>
    obtain ⟨userId, channel, rfl, -⟩ := hmade
    simp only [Stmt.exec] at h
    split at h
    · obtain ⟨-, rfl⟩ := Prod.mk.inj (Option.some.inj h)
      cases hv
    · split at h
      · obtain ⟨-, rfl⟩ := Prod.mk.inj (Option.some.inj h)
        obtain rfl := Write.insertConversation.inj (List.mem_singleton.mp hv)
        exact fun _ => newConversation_owned hP _ _ _ _
      · cases h
  | updateConversation i userId u =>
    obtain ⟨x, -, -, hmade⟩ := hmade
    cases u with
    | setMode p => exact fun hi => absurd hi (hs i p hmade)
    | _ => trivial
  | _ => trivial

theorem Stmt.exec_keepsOwner (h : s.exec now seq locked db = some (r, ws))
    (hs : s.keepsOwner = true) : ∀ v ∈ ws, v.keepsOwner id = true := by
  intro v hv
  have hmade := Stmt.exec_made h hv
  cases v with
  | insertConversation d =>
    obtain ⟨userId, channel, rfl, -⟩ := hmade
    cases hs
  | updateConversation i userId u =>
    obtain ⟨x, -, -, hmade⟩ := hmade
    cases u with
    | setMode p =>
      subst hmade
      cases hs
    | _ => rfl
  | _ => rfl

theorem Ownership.set_of_isEmpty {p : ModePatch} (h : p.isEmpty = true) (o : Ownership) :
    o.set p = o := by
  obtain rfl := of_decide_eq_true h
  rfl

/-- The flush of a row that is there. -/
theorem Stmt.exec_flush {p : ModePatch} {u : Unit} (hrow : db.conversation id = some c)
    (h : (Stmt.flushMode id p).exec now seq locked db = some (u, ws)) :
    (∀ x, (Tx.on ws id x).ownership = x.ownership.set p) ∧ ∀ d, .insertConversation d ∉ ws := by
  obtain ⟨-, rfl⟩ := Prod.mk.inj (Option.some.inj h)
  split
  · rename_i hempty
    exact ⟨fun x => (Ownership.set_of_isEmpty hempty _).symm, fun _ => List.not_mem_nil⟩
  · rw [updateRow, hrow]
    refine ⟨fun x => ?_, fun d hd => Write.noConfusion (List.mem_singleton.mp hd)⟩
    simp [Tx.on, Write.on, ConversationUpdate.apply_ownership]

end Store
