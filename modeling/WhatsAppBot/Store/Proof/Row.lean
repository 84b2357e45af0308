import WhatsAppBot.Store.Proof.Writes

/-!
# A conversation row under writes

`Write.on id c w` is what a write makes of the row `c` under `id`, `Tx.on tx id c` what a transaction
makes of it. A row stays where it is (`Db.conversation_applyAll`); whose it is never changes, nothing
takes the welcome flag off, and only a flush hands it back to the bot.
-/

set_option autoImplicit false

namespace Store

def Write.on (id : Nat) (c : Conversation) : Write → Conversation
  | .updateConversation i _ u => if i = id then u.apply c else c
  | _ => c

def Tx.on (tx : Tx) (id : Nat) (c : Conversation) : Conversation := tx.foldl (Write.on id) c

variable {db : Db} {id : Nat} {c : Conversation} {tx : Tx}

theorem Db.conversation_apply (h : db.conversation id = some c) (w : Write) :
    (db.apply w).conversation id = some (w.on id c) := by
  cases w with
  | insertConversation d =>
    simp only [Db.apply, insertConversation]
    split
    · simp only [conversation, Lib.Table.find_insert] at h ⊢
      rw [h]
      rfl
    · exact h
  | updateConversation i userId u =>
    simp only [Db.apply, updateConversation, conversation, Lib.Table.find_modify, Write.on] at h ⊢
    by_cases hi : i = id
    · subst hi
      rw [if_pos rfl, if_pos rfl, h]
      rfl
    · rw [if_neg (Ne.symm hi), if_neg hi]
      exact h
  | _ => exact h

/-- **A row that is there** is what the transaction makes of it. -/
theorem Db.conversation_applyAll (h : db.conversation id = some c) (tx : Tx) :
    (db.applyAll tx).conversation id = some (Tx.on tx id c) := by
  induction tx generalizing db c with
  | nil => exact h
  | cons w tx ih => exact ih (conversation_apply h w)

theorem Db.conversation_applyAll_isSome (h : (db.conversation id).isSome = true) (tx : Tx) :
    ((db.applyAll tx).conversation id).isSome = true := by
  obtain ⟨c, hc⟩ := Option.isSome_iff_exists.mp h
  rw [conversation_applyAll hc tx]
  rfl

theorem Tx.on_append (tx ws : Tx) (id : Nat) (c : Conversation) :
    Tx.on (tx ++ ws) id c = Tx.on ws id (Tx.on tx id c) := List.foldl_append

/-- What every update of the row keeps, the transaction keeps. -/
theorem Tx.on_keeps {P : Conversation → Prop} (hc : P c)
    (hP : ∀ userId u x, .updateConversation id userId u ∈ tx → P x → P (u.apply x)) :
    P (Tx.on tx id c) := by
  induction tx generalizing c with
  | nil => exact hc
  | cons w tx ih =>
    refine ih ?_ fun userId u x hu => hP userId u x (List.mem_cons_of_mem w hu)
    cases w with
    | updateConversation i userId u =>
      simp only [Write.on]
      split
      · rename_i hi
        subst hi
        exact hP userId u c List.mem_cons_self hc
      · exact hc
    | _ => exact hc

@[simp] theorem Tx.on_id (tx : Tx) (id : Nat) (c : Conversation) : (Tx.on tx id c).id = c.id :=
  Tx.on_keeps (P := fun x => x.id = c.id) rfl fun _ u x _ hx => (u.apply_id x).trans hx

@[simp] theorem Tx.on_userId (tx : Tx) (id : Nat) (c : Conversation) :
    (Tx.on tx id c).userId = c.userId :=
  Tx.on_keeps (P := fun x => x.userId = c.userId) rfl fun _ u x _ hx => (u.apply_userId x).trans hx

/-- The row carries the welcome flag. -/
def Db.greeted (db : Db) (id : Nat) : Bool := (db.conversation id).any fun c => c.welcomeSentAt.isSome

theorem Db.greeted_row (h : db.greeted id = true) (hc : db.conversation id = some c) :
    c.welcomeSentAt.isSome = true := by
  rwa [greeted, hc] at h

/-- Nothing takes the flag off. -/
theorem Db.greeted_applyAll (h : db.greeted id = true) (tx : Tx) : (db.applyAll tx).greeted id = true := by
  cases hc : db.conversation id with
  | none => rw [greeted, hc] at h; cases h
  | some c =>
    rw [greeted, conversation_applyAll hc tx]
    refine Tx.on_keeps (P := fun x => x.welcomeSentAt.isSome = true) (greeted_row h hc)
      fun _ u x _ hx => ?_
    cases u <;> first | exact hx | rfl

/-- Who answers the conversation. -/
def Db.mode (db : Db) (id : Nat) : Option Mode := (db.conversation id).map (·.mode)

/-- The write hands a conversation back to the bot. -/
def Write.handsBack : Write → Bool
  | .updateConversation _ _ (.setMode p) => p.mode = some .bot
  | _ => false

/-- A human stays until a write hands the conversation back. -/
theorem Db.human_applyAll (h : db.mode id = some .human) (htx : ∀ w ∈ tx, w.handsBack = false) :
    (db.applyAll tx).mode id = some .human := by
  obtain ⟨c, hc, hhuman⟩ := Option.map_eq_some_iff.mp h
  rw [mode, conversation_applyAll hc tx]
  refine congrArg some (Tx.on_keeps (P := fun x => x.mode = .human) hhuman fun userId u x hu hx => ?_)
  cases u with
  | setMode p =>
    have hp : p.mode ≠ some .bot := of_decide_eq_false (htx _ hu)
    change p.mode.getD x.mode = .human
    cases hmode : p.mode with
    | none => exact hx
    | some m =>
      cases m with
      | bot => exact absurd hmode hp
      | human => rfl
  | _ => exact hx

/-- Only a flush hands a conversation back. -/
theorem Stmt.exec_handsBack {now : Time} {seq : Nat} {locked : Nat → Bool} {s : Stmt} {r : s.Resp}
    {ws : Tx} (h : s.exec now seq locked db = some (r, ws))
    (hs : ∀ i p, s = .flushMode i p → p.mode ≠ some .bot) : ∀ w ∈ ws, w.handsBack = false := by
  intro w hw
  have hmade := exec_made h hw
  cases w with
  | updateConversation i userId u =>
    obtain ⟨x, -, -, hmade⟩ := hmade
    cases u with
    | setMode p => exact decide_eq_false (hs i p hmade)
    | _ => rfl
  | _ => rfl

end Store
