import WhatsAppBot.Store.Sql

/-!
# What writes do

How a transaction's writes change what the invariants look at, and which writes a statement can
make: the replies reserved for a key (`Db.replies`), the pending reservations of a transaction, and
the locks behind them.
-/

set_option autoImplicit false

namespace Store

theorem Db.applyAll_append (db : Db) (tx ws : Tx) :
    db.applyAll (tx ++ ws) = (db.applyAll tx).applyAll ws :=
  List.foldl_append

/-! ## Locks -/

theorem Tx.holds_append {tx ws : Tx} {l : Lock} :
    Tx.holds (tx ++ ws) l = (Tx.holds tx l || Tx.holds ws l) :=
  List.any_append

theorem holds_of_mem {tx : Tx} {w : Write} {l : Lock} (hw : w ∈ tx) (hl : l ∈ w.locks) :
    Tx.holds tx l = true :=
  List.any_eq_true.mpr ⟨w, hw, by simpa using hl⟩

theorem not_holds_of_not_blocked {others : List Tx} {ws : List Write} {w : Write} {l : Lock}
    {tx : Tx} (hb : blocked others ws = false) (hw : w ∈ ws) (hl : l ∈ w.locks)
    (htx : tx ∈ others) : Tx.holds tx l = false := by
  by_contra h
  rw [Bool.not_eq_false] at h
  have : blocked others ws = true :=
    List.any_eq_true.mpr ⟨w, hw, List.any_eq_true.mpr ⟨l, hl, List.any_eq_true.mpr ⟨tx, htx, h⟩⟩⟩
  rw [hb] at this
  cases this

/-! ## Reservations -/

/-- The outbound rows committed in answer to the message `k`. -/
def Db.replies (db : Db) (k : String) : Nat :=
  db.messages.countP fun m => m.replyToWaMessageId = some k

def Write.isReply (k : String) : Write → Bool
  | .insertMessage m => m.replyToWaMessageId = some k
  | _ => false

theorem MessageUpdate.apply_replyTo (u : MessageUpdate) (m : Message) :
    (u.apply m).replyToWaMessageId = m.replyToWaMessageId := by
  cases u <;> rfl

theorem Db.replies_apply (db : Db) (k : String) (w : Write) :
    (db.apply w).replies k = db.replies k + if w.isReply k then 1 else 0 := by
  cases w with
  | insertMessage m =>
    simp [Db.apply, insertMessage, replies, Write.isReply, List.countP_append, List.countP_cons]
  | updateMessage id u =>
    simp only [Db.apply, updateMessage, replies, Write.isReply, List.countP_map]
    refine List.countP_congr fun m _ => ?_
    simp only [Function.comp_apply]
    split <;> simp [u.apply_replyTo]
  | insertConversation c =>
    simp only [Db.apply, insertConversation, Write.isReply]
    split <;> rfl
  | _ => rfl

theorem Db.replies_applyAll (db : Db) (k : String) (tx : Tx) :
    (db.applyAll tx).replies k = db.replies k + tx.countP (Write.isReply k) := by
  induction tx generalizing db with
  | nil => rfl
  | cons w tx ih =>
    rw [List.countP_cons, show db.applyAll (w :: tx) = (db.apply w).applyAll tx from rfl, ih,
      replies_apply]
    omega

theorem Db.hasReplyTo_eq (db : Db) (k : String) : db.hasReplyTo k = decide (0 < db.replies k) := by
  rw [Bool.eq_iff_iff]
  simp [hasReplyTo, replies, List.countP_pos_iff]

/-- Some pending reservation of `k` holds its key. -/
theorem holds_replyTo {tx : Tx} {k : String} (h : tx.countP (Write.isReply k) ≠ 0) :
    Tx.holds tx (.replyTo k) = true := by
  obtain ⟨w, hw, hk⟩ := List.countP_pos_iff.mp (Nat.pos_of_ne_zero h)
  refine holds_of_mem hw ?_
  cases w with
  | insertMessage m =>
    simp only [Write.isReply, decide_eq_true_eq] at hk
    simp [Write.locks, hk]
  | _ => cases hk

variable {now : Time} {seq : Nat} {locked : Nat → Bool} {db : Db}

/-- The update of one row. -/
theorem mem_updateRow {id : Nat} {u : ConversationUpdate} {w : Write}
    (h : w ∈ updateRow db id u) : ∃ c, db.conversation id = some c ∧
      w = .updateConversation id c.userId u := by
  unfold updateRow at h
  split at h
  · rename_i c hc
    exact ⟨c, hc, by simpa using h⟩
  · cases h

theorem mem_revive {c : Conversation} {t : Time} {w : Write} (h : w ∈ (revive db c t).2) :
    c.status = .closed ∧ w = .updateConversation c.id c.userId (.revive t) ∧
      (revive db c t).1 = some c.id := by
  unfold revive at h ⊢
  split at h
  · rename_i hc
    rw [if_pos hc]
    exact ⟨hc.1, by simpa using h, rfl⟩
  · cases h

/-- What each kind of write says about the statement that made it. -/
def Write.MadeBy (db : Db) (s : Stmt) : Write → Prop
  | .insertUser _ => (∃ waId name, s = .insertUser waId name) ∨
      ∃ channel externalId name, s = .insertChannelUser channel externalId name
  | .setUserName id name => s = .setUserName id name
  | .insertConversation c => ∃ userId channel, s = .insertConversation userId channel ∧
      c.status = .active ∧ c.closingSentAt = none
  | .updateConversation id userId u => ∃ c, db.conversation id = some c ∧ c.userId = userId ∧
      match u with
      | .touch t => s = .touch id t
      | .markWelcomeSent t => s = .markWelcomeSent id t
      | .claimIdle t => ∃ idleBefore limit, s = .claimIdleSessions idleBefore t limit ∧
          Db.idleCandidate idleBefore c
      | .close t => s = .close id t
      | .revive t => c.status = .closed ∧
          ((∃ userId notBefore, s = .reopenRecent userId notBefore t) ∨ s = .reopen id t)
      | .setMode p => s = .flushMode id p
  | .insertMessage m =>
      (∃ type content mediaId k, s = .claimInbound m.conversationId k type content mediaId ∧
        m.waMessageId = some k ∧ m.replyToWaMessageId = none ∧ m.direction = .inbound) ∨
      (∃ k content type, s = .reserveReply m.conversationId k content type ∧
        m.waMessageId = none ∧ m.replyToWaMessageId = some k ∧ m.direction = .outbound) ∨
      (∃ content waMessageId status, s = .create m.conversationId content waMessageId status ∧
        m.waMessageId = waMessageId ∧ m.replyToWaMessageId = none ∧ m.direction = .outbound)
  | .updateMessage id u =>
      match u with
      | .confirm waMessageId status => s = .confirmReply id waMessageId status
      | .setStatus status => ∃ k, s = .updateStatusByWaId k status
      | .setOperator operatorId => s = .setOperator id operatorId
  | .insertAiLog l => s = .createAiLog l

theorem Db.conversation_of_mem {c : Conversation} (h : c ∈ db.conversations.rows) :
    db.conversation c.id = some c :=
  Lib.Table.find_of_mem h

theorem Db.conversation_id {c : Conversation} {id : Nat} (h : db.conversation id = some c) :
    c.id = id :=
  (Lib.Table.find_some h).2

theorem newest_mem {α : Type} {f : α → Time} {xs : List α} {x : α} (h : newest f xs = some x) :
    x ∈ xs := by
  unfold newest at h
  exact (List.mem_insertionSort _).mp (List.mem_of_head? h)

theorem Db.mem_idleCandidates {idleBefore : Time} {limit : Nat} {c : Conversation}
    (h : c ∈ db.idleCandidates locked idleBefore limit) :
    c ∈ db.conversations.rows ∧ idleCandidate idleBefore c = true ∧ locked c.id = false := by
  have := (List.mem_insertionSort _).mp (List.mem_of_mem_take h)
  simpa using this

theorem Db.reopenCandidate_mem {userId : Nat} {notBefore : Time} {c : Conversation}
    (h : db.reopenCandidate userId notBefore = some c) : c ∈ db.conversations.rows :=
  List.mem_of_mem_filter (newest_mem h)

/-- **Every write of a statement is one its kind allows.** -/
theorem Stmt.exec_made {s : Stmt} {r : s.Resp} {ws : List Write}
    (h : s.exec now seq locked db = some (r, ws)) {w : Write} (hw : w ∈ ws) : w.MadeBy db s := by
  cases s <;> simp only [Stmt.exec] at h
  case getByWaId | getByChannelId | getUser | getConversation | activeForUser | countForUser |
      idleTargets | recent | lastInboundAt =>
    obtain ⟨-, rfl⟩ := Prod.mk.inj (Option.some.inj h)
    cases hw
  case insertUser | insertChannelUser =>
    split at h
    · obtain ⟨-, rfl⟩ := Prod.mk.inj (Option.some.inj h)
      cases hw
    · obtain ⟨-, rfl⟩ := Prod.mk.inj (Option.some.inj h)
      obtain rfl := List.mem_singleton.mp hw
      simp [Write.MadeBy]
  case setUserName | setOperator | createAiLog =>
    obtain ⟨-, rfl⟩ := Prod.mk.inj (Option.some.inj h)
    obtain rfl := List.mem_singleton.mp hw
    rfl
  case touch | close =>
    obtain ⟨-, rfl⟩ := Prod.mk.inj (Option.some.inj h)
    obtain ⟨c, hc, rfl⟩ := mem_updateRow hw
    exact ⟨c, hc, rfl, rfl⟩
  case flushMode | markWelcomeSent =>
    obtain ⟨-, rfl⟩ := Prod.mk.inj (Option.some.inj h)
    split at hw
    all_goals first
      | exact absurd hw List.not_mem_nil
      | obtain ⟨c, hc, rfl⟩ := mem_updateRow hw
        exact ⟨c, hc, rfl, rfl⟩
  case reopenRecent userId notBefore t =>
    split at h
    · rename_i c hc
      have hmem := Db.conversation_of_mem (Db.reopenCandidate_mem hc)
      have hws : ws = (revive db c t).2 := (congrArg Prod.snd (Option.some.inj h)).symm
      obtain ⟨hclosed, rfl, -⟩ := mem_revive (hws ▸ hw)
      exact ⟨c, hmem, rfl, hclosed, .inl ⟨userId, notBefore, rfl⟩⟩
    · obtain ⟨-, rfl⟩ := Prod.mk.inj (Option.some.inj h)
      cases hw
  case reopen id t =>
    split at h
    · rename_i c hc
      have hws : ws = (revive db c t).2 := (congrArg Prod.snd (Option.some.inj h)).symm
      obtain ⟨hclosed, rfl, -⟩ := mem_revive (hws ▸ hw)
      obtain rfl := Db.conversation_id hc
      exact ⟨c, hc, rfl, hclosed, .inr rfl⟩
    · obtain ⟨-, rfl⟩ := Prod.mk.inj (Option.some.inj h)
      cases hw
  case insertConversation userId channel =>
    split at h
    · obtain ⟨-, rfl⟩ := Prod.mk.inj (Option.some.inj h)
      cases hw
    · split at h
      · obtain ⟨-, rfl⟩ := Prod.mk.inj (Option.some.inj h)
        obtain rfl := List.mem_singleton.mp hw
        exact ⟨userId, channel, rfl, rfl, rfl⟩
      · cases h
  case claimIdleSessions idleBefore t limit =>
    obtain ⟨-, rfl⟩ := Prod.mk.inj (Option.some.inj h)
    obtain ⟨c, hc, rfl⟩ := List.mem_map.mp hw
    obtain ⟨hmem, hidle, -⟩ := Db.mem_idleCandidates hc
    exact ⟨c, Db.conversation_of_mem hmem, rfl, idleBefore, limit, rfl, hidle⟩
  case claimInbound | reserveReply =>
    split at h
    · obtain ⟨-, rfl⟩ := Prod.mk.inj (Option.some.inj h)
      cases hw
    · split at h
      · obtain ⟨-, rfl⟩ := Prod.mk.inj (Option.some.inj h)
        obtain rfl := List.mem_singleton.mp hw
        simp [Write.MadeBy]
      · cases h
  case create =>
    split at h
    · cases h
    · split at h
      · obtain ⟨-, rfl⟩ := Prod.mk.inj (Option.some.inj h)
        obtain rfl := List.mem_singleton.mp hw
        simp [Write.MadeBy]
      · cases h
  case confirmReply =>
    split at h
    · cases h
    · obtain ⟨-, rfl⟩ := Prod.mk.inj (Option.some.inj h)
      obtain rfl := List.mem_singleton.mp hw
      rfl
  case updateStatusByWaId k status =>
    obtain ⟨-, rfl⟩ := Prod.mk.inj (Option.some.inj h)
    obtain ⟨m, -, rfl⟩ := List.mem_map.mp hw
    exact ⟨k, rfl⟩

/-- A statement other than the reservation of `k` does not reserve it. -/
theorem Stmt.exec_no_reply {s : Stmt} {r : s.Resp} {ws : List Write} {k : String}
    (h : s.exec now seq locked db = some (r, ws))
    (hs : ∀ c content type, s ≠ .reserveReply c k content type) :
    ws.countP (Write.isReply k) = 0 := by
  refine List.countP_eq_zero.mpr fun w hw hk => ?_
  have hmade := exec_made h hw
  cases w with
  | insertMessage m =>
    have hkey : m.replyToWaMessageId = some k := by simpa [Write.isReply] using hk
    rcases hmade with ⟨_, _, _, _, -, -, hno, -⟩ | ⟨k', content, type, rfl, -, hk', -⟩ |
      ⟨_, _, _, -, -, hno, -⟩
    · rw [hno] at hkey; cases hkey
    · obtain rfl := Option.some.inj (hkey ▸ hk')
      exact hs _ _ _ rfl
    · rw [hno] at hkey; cases hkey
  | _ => cases hk

/-- A reservation of `k` succeeds only when the transaction sees none. -/
theorem Stmt.exec_reserve {c : Nat} {k content type : String} {r : Option Nat} {ws : List Write}
    (h : (Stmt.reserveReply c k content type).exec now seq locked db = some (r, ws)) :
    (r = none ∧ ws = [] ∧ 0 < db.replies k) ∨
    (r = some seq ∧ db.replies k = 0 ∧ ∃ m : Message, ws = [.insertMessage m] ∧
      m.replyToWaMessageId = some k ∧ m.id = seq ∧ m.direction = .outbound) := by
  simp only [Stmt.exec, Db.hasReplyTo_eq, decide_eq_true_eq] at h
  split at h
  · rename_i hpos
    obtain ⟨rfl, rfl⟩ := Prod.mk.inj (Option.some.inj h)
    exact .inl ⟨rfl, rfl, hpos⟩
  · rename_i hpos
    split at h
    · obtain ⟨rfl, rfl⟩ := Prod.mk.inj (Option.some.inj h)
      exact .inr ⟨rfl, Nat.eq_zero_of_not_pos hpos, _, rfl, rfl, rfl, rfl⟩
    · cases h

/-! ## Messages -/

def Write.isMessage : Write → Bool
  | .insertMessage _ | .updateMessage _ _ => true
  | _ => false

theorem Db.messages_apply {w : Write} (h : w.isMessage = false) :
    (db.apply w).messages = db.messages := by
  cases w with
  | insertMessage | updateMessage => cases h
  | insertConversation c =>
    simp only [Db.apply, insertConversation]
    split <;> rfl
  | _ => rfl

theorem Db.messages_applyAll {ws : Tx} (h : ∀ w ∈ ws, w.isMessage = false) :
    (db.applyAll ws).messages = db.messages := by
  induction ws generalizing db with
  | nil => rfl
  | cons w ws ih =>
    rw [show db.applyAll (w :: ws) = (db.apply w).applyAll ws from rfl,
      ih fun v hv => h v (List.mem_cons_of_mem _ hv), messages_apply (h w (by simp))]

end Store
