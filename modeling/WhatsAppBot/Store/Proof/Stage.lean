import WhatsAppBot.Store.Proof.Row

/-!
# The stages of a session

What the sweep and the two revives do to a conversation row, up to what their invariants need: is it
closed, is it claimed (`Stage`). Only three kinds of update move a row to another stage (`Kind`).
`Tx.kinds tx id` are those a transaction made on the row `id`, `Stmt.kindOn id s r` the one a
statement that answered `r` makes on it.

* `Db.conversation_applyAll_some`, `Db.conversation_applyAll_none`: the row after a transaction.
* `Stmt.exec_kinds`, `Stmt.exec_kinds_ne_nil`: a statement makes the updates its answer says.
* `Stmt.exec_claim`, `Stmt.exec_revive`: what the claimed and the revived row were like.
-/

set_option autoImplicit false

namespace Store

inductive Kind where
  | claim
  | close
  | revive
  deriving DecidableEq

structure Stage where
  closed : Bool
  claimed : Bool
  deriving DecidableEq

/-- The stage of a new session. -/
def Stage.fresh : Stage := ⟨false, false⟩

def Kind.act : Kind → Stage → Stage
  | .claim, s => ⟨s.closed, true⟩
  | .close, s => ⟨true, s.claimed⟩
  | .revive, _ => Stage.fresh

def Conversation.stage (c : Conversation) : Stage := ⟨c.status = .closed, c.closingSentAt.isSome⟩

def ConversationUpdate.kind : ConversationUpdate → Option Kind
  | .claimIdle _ => some .claim
  | .close _ => some .close
  | .revive _ => some .revive
  | _ => none

/-- The stage after updates of these kinds. -/
def Stage.after (s : Stage) (ks : List Kind) : Stage := ks.foldl (fun s k => k.act s) s

def Write.kindOn (id : Nat) : Write → Option Kind
  | .updateConversation i _ u => if i = id then u.kind else none
  | _ => none

def Tx.kinds (tx : Tx) (id : Nat) : List Kind := tx.filterMap (Write.kindOn id)

def claimOn (id : Nat) (ids : List Nat) : Option Kind := if id ∈ ids then some .claim else none

def reviveOn (id : Nat) (r : Option Nat) : Option Kind :=
  if r = some id then some .revive else none

def Stmt.kindOn (id : Nat) : (s : Stmt) → s.Resp → Option Kind
  | .claimIdleSessions _ _ _, ids => claimOn id ids
  | .close i _, _ => if i = id then some .close else none
  | .reopenRecent _ _ _, r => reviveOn id r
  | .reopen _ _, r => reviveOn id r
  | _, _ => none

/-! ## The row after a transaction -/

theorem ConversationUpdate.stage_apply (u : ConversationUpdate) (c : Conversation) :
    (u.apply c).stage = c.stage.after u.kind.toList := by
  cases u <;> rfl

theorem Kind.act_act (k : Kind) (s : Stage) : k.act (k.act s) = k.act s := by
  cases k <;> rfl

/-- Several updates of one kind act as one. -/
theorem Stage.after_same {ks : List Kind} {k : Kind} (s : Stage) (hne : ks ≠ [])
    (h : ∀ x ∈ ks, x = k) : s.after ks = k.act s := by
  induction ks generalizing s with
  | nil => exact absurd rfl hne
  | cons x ks ih =>
    obtain rfl := h x (by simp)
    by_cases hks : ks = []
    · subst hks; rfl
    · have hrest : (x.act s).after ks = x.act (x.act s) :=
        ih (x.act s) hks fun y hy => h y (by simp [hy])
      calc s.after (x :: ks) = (x.act s).after ks := rfl
        _ = x.act s := by rw [hrest, Kind.act_act]

theorem Tx.kinds_append (tx ws : Tx) (id : Nat) :
    Tx.kinds (tx ++ ws) id = Tx.kinds tx id ++ Tx.kinds ws id :=
  List.filterMap_append

theorem Tx.kinds_cons (w : Write) (tx : Tx) (id : Nat) :
    Tx.kinds (w :: tx) id = (w.kindOn id).toList ++ Tx.kinds tx id := by
  unfold kinds
  cases h : w.kindOn id with
  | none => rw [List.filterMap_cons_none h]; rfl
  | some k => rw [List.filterMap_cons_some h]; rfl

/-- A transaction that moves a row to another stage has it locked. -/
theorem Tx.holds_of_kinds {tx : Tx} {id : Nat} (h : Tx.kinds tx id ≠ []) :
    Tx.holds tx (.conversation id) = true := by
  obtain ⟨k, hk⟩ := List.exists_mem_of_ne_nil _ h
  obtain ⟨w, hw, hkind⟩ := List.mem_filterMap.mp hk
  refine holds_of_mem hw ?_
  cases w with
  | updateConversation i userId u =>
    simp only [Write.kindOn] at hkind
    split at hkind
    · rename_i hi
      subst hi
      cases u <;> simp [Write.locks]
    · cases hkind
  | _ => cases hkind

variable {db : Db} {id : Nat} {c : Conversation}

theorem Write.on_stage (w : Write) (id : Nat) (c : Conversation) :
    (w.on id c).stage = c.stage.after (w.kindOn id).toList := by
  cases w with
  | updateConversation i userId u =>
    simp only [Write.on, Write.kindOn]
    split
    · exact u.stage_apply c
    · rfl
  | _ => rfl

theorem Tx.on_stage (tx : Tx) (id : Nat) (c : Conversation) :
    (Tx.on tx id c).stage = c.stage.after (Tx.kinds tx id) := by
  induction tx generalizing c with
  | nil => rfl
  | cons w tx ih =>
    have hrest : (Tx.on (w :: tx) id c).stage = (w.on id c).stage.after (Tx.kinds tx id) := ih _
    rw [hrest, w.on_stage, Tx.kinds_cons]
    exact List.foldl_append.symm

/-- **A row after a transaction** is in the stage its updates lead to. -/
theorem Db.conversation_applyAll_some (h : db.conversation id = some c) (tx : Tx) :
    ∃ c', (db.applyAll tx).conversation id = some c' ∧
      c'.stage = c.stage.after (Tx.kinds tx id) :=
  ⟨_, conversation_applyAll h tx, Tx.on_stage tx id c⟩

theorem Db.conversation_apply_absent (h : db.conversation id = none) {w : Write}
    (hw : ∀ d, w ≠ .insertConversation d) : (db.apply w).conversation id = none := by
  cases w with
  | insertConversation d => exact absurd rfl (hw d)
  | updateConversation i userId u =>
    simp only [Db.apply, updateConversation, conversation, Lib.Table.find_modify] at h ⊢
    rw [h]
    split <;> rfl
  | _ => exact h

/-- A transaction that creates no row leaves a missing one missing. -/
theorem Db.conversation_applyAll_absent (h : db.conversation id = none) {tx : Tx}
    (htx : ∀ d, Write.insertConversation d ∉ tx) : (db.applyAll tx).conversation id = none := by
  induction tx generalizing db with
  | nil => exact h
  | cons w tx ih =>
    refine ih (conversation_apply_absent h fun d hd => ?_) fun d hd => ?_
    · exact htx d (List.mem_cons.mpr (.inl hd.symm))
    · exact htx d (List.mem_cons_of_mem _ hd)

theorem Db.conversation_apply_none (h : db.conversation id = none) {w : Write}
    (hfresh : ∀ d, w = .insertConversation d → d.stage = Stage.fresh) :
    (db.apply w).conversation id = none ∨
      ∃ c', (db.apply w).conversation id = some c' ∧ c'.stage = Stage.fresh := by
  cases w with
  | insertConversation d =>
    simp only [Db.apply, insertConversation]
    split
    · simp only [conversation, Lib.Table.find_insert] at h ⊢
      rw [h]
      by_cases hd : d.id = id
      · exact .inr ⟨d, by simp [hd], hfresh d rfl⟩
      · exact .inl (by simp [hd])
    · exact .inl h
  | _ => exact .inl (conversation_apply_absent h fun d hd => Write.noConfusion hd)

/-- A row that a transaction created is a new session. -/
theorem Db.conversation_applyAll_none (h : db.conversation id = none) {tx : Tx}
    (hfresh : ∀ d, Write.insertConversation d ∈ tx → d.stage = Stage.fresh)
    (hkinds : Tx.kinds tx id = []) :
    (db.applyAll tx).conversation id = none ∨
      ∃ c', (db.applyAll tx).conversation id = some c' ∧ c'.stage = Stage.fresh := by
  induction tx generalizing db with
  | nil => exact .inl h
  | cons w tx ih =>
    rw [Tx.kinds_cons, List.append_eq_nil_iff] at hkinds
    rcases conversation_apply_none h fun d hd => hfresh d (List.mem_cons.mpr (.inl hd.symm)) with h₁ | ⟨c₁, h₁, hs₁⟩
    · exact ih h₁ (fun d hd => hfresh d (List.mem_cons_of_mem _ hd)) hkinds.2
    · obtain ⟨c₂, h₂, hs₂⟩ := conversation_applyAll_some h₁ tx
      exact .inr ⟨c₂, h₂, by rw [hs₂, hkinds.2]; exact hs₁⟩

/-! ## What the statements do to a row's stage -/

variable {now : Time} {seq : Nat} {locked : Nat → Bool} {s : Stmt} {r : s.Resp} {ws : List Write}

theorem mem_kinds {k : Kind} (h : k ∈ Tx.kinds ws id) :
    ∃ userId u, Write.updateConversation id userId u ∈ ws ∧ u.kind = some k := by
  obtain ⟨w, hw, hkind⟩ := List.mem_filterMap.mp h
  cases w with
  | updateConversation i userId u =>
    simp only [Write.kindOn] at hkind
    split at hkind
    · rename_i hi
      subst hi
      exact ⟨userId, u, hw, hkind⟩
    · cases hkind
  | _ => cases hkind

theorem kinds_of_mem {userId : Nat} {u : ConversationUpdate} {k : Kind}
    (h : Write.updateConversation id userId u ∈ ws) (hk : u.kind = some k) :
    Tx.kinds ws id ≠ [] := by
  refine List.ne_nil_of_mem (a := k) (List.mem_filterMap.mpr ⟨_, h, ?_⟩)
  simp [Write.kindOn, hk]

theorem Stmt.exec_kinds (h : s.exec now seq locked db = some (r, ws)) :
    ∀ k ∈ Tx.kinds ws id, s.kindOn id r = some k := by
  intro k hk
  obtain ⟨userId, u, hw, hu⟩ := mem_kinds hk
  obtain ⟨c, hc, -, hmade⟩ := exec_made h hw
  cases u with
  | claimIdle t =>
    obtain ⟨idleBefore, limit, rfl, -⟩ := hmade
    obtain ⟨rfl, rfl⟩ := Prod.mk.inj (Option.some.inj h)
    obtain ⟨d, hd, hwd⟩ := List.mem_map.mp hw
    obtain ⟨rfl, -, -⟩ := Write.updateConversation.inj hwd
    rw [← hu]
    exact if_pos (List.mem_map_of_mem hd)
  | close t =>
    subst hmade
    rw [← hu]
    exact if_pos rfl
  | revive t =>
    have hrevive : ∀ d, ws = (Store.revive db d t).2 → (Store.revive db d t).1 = some id := by
      rintro d rfl
      obtain ⟨-, hwd, hr⟩ := mem_revive hw
      obtain ⟨rfl, -, -⟩ := Write.updateConversation.inj hwd
      exact hr
    rw [← hu]
    rcases hmade.2 with ⟨uid, notBefore, rfl⟩ | rfl
    · simp only [Stmt.exec] at h
      split at h
      · have hr := congrArg Prod.fst (Option.some.inj h)
        exact if_pos (hr.symm.trans (hrevive _ (congrArg Prod.snd (Option.some.inj h)).symm))
      · obtain ⟨-, rfl⟩ := Prod.mk.inj (Option.some.inj h)
        cases hw
    · simp only [Stmt.exec] at h
      split at h
      · have hr := congrArg Prod.fst (Option.some.inj h)
        exact if_pos (hr.symm.trans (hrevive _ (congrArg Prod.snd (Option.some.inj h)).symm))
      · obtain ⟨-, rfl⟩ := Prod.mk.inj (Option.some.inj h)
        cases hw
  | touch | markWelcomeSent | setMode => cases hu

theorem Db.idleCandidate_stage {idleBefore : Time} (h : idleCandidate idleBefore c = true) :
    c.stage = Stage.fresh := by
  obtain ⟨hactive, -, -, hunclaimed, -⟩ := of_decide_eq_true h
  simp [Conversation.stage, hactive, hunclaimed, Stage.fresh]

/-- A claimed row was an idle candidate that nobody had locked. -/
theorem Stmt.exec_claim {idleBefore t : Time} {limit : Nat} {ids : List Nat}
    (h : (Stmt.claimIdleSessions idleBefore t limit).exec now seq locked db = some (ids, ws))
    (hid : id ∈ ids) : ∃ c, db.conversation id = some c ∧ Db.idleCandidate idleBefore c = true ∧
      locked id = false ∧ .updateConversation id c.userId (.claimIdle t) ∈ ws := by
  obtain ⟨rfl, rfl⟩ := Prod.mk.inj (Option.some.inj h)
  obtain ⟨c, hc, rfl⟩ := List.mem_map.mp hid
  obtain ⟨hmem, hidle, hlocked⟩ := Db.mem_idleCandidates hc
  exact ⟨c, Db.conversation_of_mem hmem, hidle, hlocked, List.mem_map_of_mem hc⟩

theorem revive_some {t : Time} (h : (revive db c t).1 = some id) :
    c.id = id ∧ c.status = .closed ∧
      .updateConversation id c.userId (.revive t) ∈ (revive db c t).2 := by
  unfold revive at h ⊢
  split at h
  · rename_i hc
    obtain rfl := Option.some.inj h
    rw [if_pos hc]
    exact ⟨rfl, hc.1, List.mem_singleton.mpr rfl⟩
  · cases h

/-- A revived row was closed. -/
theorem Stmt.exec_revive (h : s.exec now seq locked db = some (r, ws))
    (hk : s.kindOn id r = some .revive) : ∃ c, db.conversation id = some c ∧ c.status = .closed ∧
      Tx.kinds ws id ≠ [] := by
  have hfinish : ∀ d t, d ∈ db.conversations.rows → (Store.revive db d t).1 = some id →
      ws = (Store.revive db d t).2 → ∃ c, db.conversation id = some c ∧ c.status = .closed ∧
      Tx.kinds ws id ≠ [] := by
    rintro d t hd hr rfl
    obtain ⟨rfl, hclosed, hmem⟩ := revive_some hr
    exact ⟨d, Db.conversation_of_mem hd, hclosed, kinds_of_mem hmem rfl⟩
  have hanswer : ∀ a : Option Nat, reviveOn id a = some .revive → a = some id := by
    intro a ha
    unfold reviveOn at ha
    split at ha
    · assumption
    · cases ha
  cases s with
  | reopenRecent userId notBefore t =>
    have hr := hanswer r hk
    simp only [Stmt.exec] at h
    split at h
    · rename_i d hd
      exact hfinish d t (Db.reopenCandidate_mem hd)
        ((congrArg Prod.fst (Option.some.inj h)).trans hr)
        (congrArg Prod.snd (Option.some.inj h)).symm
    · have hnone := (congrArg Prod.fst (Option.some.inj h)).trans hr
      cases hnone
  | reopen i t =>
    have hr := hanswer r hk
    simp only [Stmt.exec] at h
    split at h
    · rename_i d hd
      exact hfinish d t (Lib.Table.find_some hd).1
        ((congrArg Prod.fst (Option.some.inj h)).trans hr)
        (congrArg Prod.snd (Option.some.inj h)).symm
    · have hnone := (congrArg Prod.fst (Option.some.inj h)).trans hr
      cases hnone
  | claimIdleSessions =>
    simp only [kindOn, claimOn] at hk
    split at hk <;> cases hk
  | close =>
    simp only [kindOn] at hk
    split at hk <;> cases hk
  | _ => cases hk

/-- A close of a row that is there. -/
theorem Stmt.exec_close {t : Time} {u : Unit}
    (h : (Stmt.close id t).exec now seq locked db = some (u, ws)) (hc : db.conversation id = some c) :
    Tx.kinds ws id ≠ [] := by
  obtain ⟨-, rfl⟩ := Prod.mk.inj (Option.some.inj h)
  simp [updateRow, hc, Tx.kinds, Write.kindOn, ConversationUpdate.kind]

/-! ## The targets of a sweep -/

/-- A sweep has one target for each claimed row. -/
theorem Db.idleTargets_sublist (db : Db) (ids : List Nat) :
    ((db.idleTargets ids).map (·.conversationId)).Sublist (db.conversations.rows.map (·.id)) := by
  refine List.Sublist.trans ?_ ((List.filter_sublist (p := fun d => ids.contains d.id)).map _)
  unfold idleTargets
  induction db.conversations.rows.filter fun d => ids.contains d.id with
  | nil => exact .slnil
  | cons d rows ih =>
    rw [List.filterMap_cons]
    cases db.users.find? fun u => u.id = d.userId with
    | none => exact ih.cons _
    | some u => exact ih.cons_cons _

theorem Db.idleTargets_nodup (db : Db) (ids : List Nat) :
    ((db.idleTargets ids).map (·.conversationId)).Nodup :=
  db.conversations.nodup.sublist (db.idleTargets_sublist ids)

theorem Db.mem_of_idleTargets {ids : List Nat} {t : IdleSession} (h : t ∈ db.idleTargets ids) :
    t.conversationId ∈ ids := by
  obtain ⟨d, hd, ht⟩ := List.mem_filterMap.mp h
  obtain ⟨u, -, rfl⟩ := Option.map_eq_some_iff.mp ht
  exact List.contains_iff_mem.mp (List.mem_filter.mp hd).2

/-- A claimed row is among the targets: its customer exists. -/
theorem Db.mem_idleTargets {ids : List Nat} (h : db.conversation id = some c) (hid : id ∈ ids) :
    id ∈ (db.idleTargets ids).map (·.conversationId) := by
  obtain ⟨hc, rfl⟩ := Lib.Table.find_some h
  obtain ⟨u, hu, huid⟩ := db.fk c hc
  obtain ⟨v, hv⟩ : ∃ v, (db.users.find? fun u => u.id = c.userId) = some v :=
    Option.isSome_iff_exists.mp (List.find?_isSome.mpr ⟨u, hu, by simpa using huid⟩)
  refine List.mem_map.mpr ⟨⟨c.id, c.channel, v.recipientId⟩, List.mem_filterMap.mpr ⟨c, ?_, ?_⟩, rfl⟩
  · exact List.mem_filter.mpr ⟨hc, List.contains_iff_mem.mpr hid⟩
  · rw [hv]; rfl

end Store
