import WhatsAppBot.Store.Migrations
import WhatsAppBot.Webhook.Proof.Slots

/-!
# A database that has been upgraded

`upgrade_sound`: the revisions go through for every database of before, `Carried` says what they
make of it, and every run of the bot that starts in the result keeps one active conversation for a
customer. The way back gives the old tables, with the duplicates archived.
-/

set_option autoImplicit false

namespace Migrations

open Lib Store Bot

/-! ## One active conversation for a customer -/

section

variable {cs : List Conversation0000} {c : Conversation0000} {userId i : Nat}

instance : Std.Total NotOlder := ⟨fun a b => by
  rcases Int.lt_trichotomy a.createdAt b.createdAt with hlt | heq | hgt
  · exact .inr (.inl hlt)
  · rcases Nat.le_total a.id b.id with hid | hid
    · exact .inr (.inr ⟨heq, hid⟩)
    · exact .inl (.inr ⟨heq.symm, hid⟩)
  · exact .inl (.inl hgt)⟩

instance : IsTrans Conversation0000 NotOlder := ⟨fun a b c hab hbc => by
  rcases hab with hab | ⟨hab, hid⟩
  · rcases hbc with hbc | ⟨hbc, -⟩
    · exact .inl (Int.lt_trans hbc hab)
    · exact .inl (hbc.trans_lt hab)
  · rcases hbc with hbc | ⟨hbc, hid'⟩
    · exact .inl (hbc.trans_eq hab)
    · exact .inr ⟨hbc.trans hab, Nat.le_trans hid' hid⟩⟩

theorem newestActive_isNewest (h : newestActive cs userId = some i) :
    ∃ c ∈ cs, c.id = i ∧ c.userId = userId ∧ c.status = .active ∧
      ∀ d ∈ cs, d.userId = userId → d.status = .active → NotOlder c d := by
  obtain ⟨c, hc, rfl⟩ := Option.map_eq_some_iff.mp h
  obtain ⟨rest, hrest⟩ := List.head?_eq_some_iff.mp hc
  have hsorted := List.pairwise_insertionSort NotOlder
    (cs.filter fun c => c.userId = userId ∧ c.status = .active)
  have hmem : ∀ d, d ∈ c :: rest ↔ d ∈ cs ∧ d.userId = userId ∧ d.status = .active := fun d => by
    rw [← hrest, List.mem_insertionSort, List.mem_filter]
    simp
  rw [hrest, List.pairwise_cons] at hsorted
  obtain ⟨hin, huser, hactive⟩ := (hmem c).mp List.mem_cons_self
  refine ⟨c, hin, rfl, huser, hactive, fun d hd hu ha => ?_⟩
  rcases List.mem_cons.mp ((hmem d).mpr ⟨hd, hu, ha⟩) with rfl | hd
  · exact .inr ⟨rfl, Nat.le_refl _⟩
  · exact hsorted.1 d hd

theorem exists_newestActive (hc : c ∈ cs) (hactive : c.status = .active) :
    ∃ i, newestActive cs c.userId = some i := by
  unfold newestActive
  have hin : c ∈ (cs.filter fun d => d.userId = c.userId ∧ d.status = .active).insertionSort
      NotOlder := by
    rw [List.mem_insertionSort, List.mem_filter]
    simp [hc, hactive]
  obtain ⟨d, hd⟩ := Option.isSome_iff_exists.mp (List.isSome_head?.mpr (List.ne_nil_of_mem hin))
  exact ⟨d.id, by rw [hd]; rfl⟩

theorem archiveDuplicate_of_active (h : (archiveDuplicate cs c).status = .active) :
    archiveDuplicate cs c = c := by
  unfold archiveDuplicate at h ⊢
  split at h
  · cases h
  · rename_i hkeep
    rw [if_neg hkeep]

/-- What stays active is the newest. -/
theorem archiveDuplicate_active (hc : c ∈ cs) : (archiveDuplicate cs c).status = .active ↔
    c.status = .active ∧ newestActive cs c.userId = some c.id := by
  unfold archiveDuplicate
  split
  · rename_i hold
    refine iff_of_false (fun hactive => by cases hactive) fun hand => ?_
    rw [hand.2] at hold
    simp at hold
  · rename_i hkeep
    refine ⟨fun hactive => ⟨hactive, ?_⟩, And.left⟩
    obtain ⟨i, hi⟩ := exists_newestActive hc hactive
    rw [hi] at hkeep ⊢
    simp only [Option.any_some, decide_not, Bool.not_eq_true', decide_eq_false_iff_not, not_and,
      not_not] at hkeep
    rw [hkeep hactive]

theorem activeKey_eq_some {u : Nat} (h : activeKey c = some u) :
    c.status = .active ∧ c.userId = u := by
  unfold activeKey at h
  split at h
  · rename_i hactive
    exact ⟨hactive, Option.some.inj h⟩
  · cases h

/-- The unique index can be built. -/
theorem archiveDuplicates_unique (t : Rev0003) :
    Unique activeKey (archiveDuplicates t).conversations.rows := by
  have hids := List.pairwise_map.mp (archiveDuplicates t).conversations.nodup
  refine List.pairwise_filterMap.mpr (hids.imp_of_mem fun {a b} ha hb hne u hu v hv huv => hne ?_)
  obtain ⟨c, hc, rfl⟩ := List.mem_map.mp ha
  obtain ⟨d, hd, rfl⟩ := List.mem_map.mp hb
  obtain ⟨hactive, hu⟩ := activeKey_eq_some hu
  obtain ⟨hactive', hv⟩ := activeKey_eq_some hv
  rw [archiveDuplicate_userId] at hu hv
  have hnewest := ((archiveDuplicate_active hc).mp hactive).2
  have hnewest' := ((archiveDuplicate_active hd).mp hactive').2
  rw [hu, huv, ← hv, hnewest'] at hnewest
  rw [archiveDuplicate_id, archiveDuplicate_id]
  exact (Option.some.inj hnewest).symm

end

/-! ## The chain -/

theorem setNotNull_eq {U U' C M : Type} {uid : U → Nat} {uid' : U' → Nat} {cid owner : C → Nat}
    {mid thread : M → Nat} {t : Tables uid cid owner mid thread} (f : U → Option U')
    (hf : ∀ u u', f u = some u' → uid' u' = uid u)
    (h : ∀ u ∈ t.users.rows, (f u).isSome = true) :
    ∃ t', t.setNotNull f hf = some t' ∧ t'.users.rows = t.users.rows.filterMap f ∧
      t'.conversations = t.conversations ∧ t'.messages = t.messages :=
  ⟨_, dif_pos h, rfl, rfl, rfl⟩

/-- The customer that a row becomes. -/
def upgradedUser (u : User0000) : User := ⟨u.id, .whatsapp, u.waId, some u.waId, u.name⟩

/-- Something was sent in the conversation. -/
def wasAnswered (t : Rev0003) (id : Nat) : Bool :=
  t.messages.rows.any fun m => m.conversationId = id ∧ m.direction = .outbound

/-- The conversation that a row becomes, once duplicates are archived. -/
def upgradedConversation (t : Rev0003) (c : Conversation0000) : Conversation0011 :=
  { c with
    mode := .bot
    assignedOperator := none
    handoffAt := none
    tag := none
    lastActivityAt := c.updatedAt
    welcomeSentAt := if wasAnswered t c.id then some c.createdAt else none
    closingSentAt := none
    closedAt := none
    channel := .whatsapp
    assignedOperatorId := none }

def upgradedMessage (m : Message0000) : Message0011 :=
  { m with replyToWaMessageId := none, operatorId := none }

theorem unique_of_none {α κ : Type} {key : α → Option κ} {rows : List α}
    (h : ∀ r ∈ rows, key r = none) : Unique key rows := by
  rw [Unique, List.filterMap_eq_nil_iff.mpr h]
  exact List.nodup_nil

/-- Different numbers are different identities. -/
theorem unique_channelled {rows : List User0000} (h : Unique (fun u => some u.waId) rows) :
    Unique identityKey (rows.map channelled) := by
  have hnumbers : (rows.map User0000.waId).Nodup := by
    have hkeys : rows.filterMap (fun u => some u.waId) = rows.map User0000.waId :=
      congrFun List.filterMap_eq_map rows
    rwa [Unique, hkeys] at h
  have hkeys : (rows.map channelled).filterMap identityKey =
      (rows.map User0000.waId).map (Prod.mk Channel.whatsapp) := by
    rw [List.filterMap_map, List.map_map]
    exact congrFun List.filterMap_eq_map rows
  rw [Unique, hkeys]
  exact hnumbers.map fun _ _ heq => (Prod.mk.inj heq).2

theorem upgrade0003_eq (t : Rev0003) : upgrade0003 t = some (archiveDuplicates t) :=
  if_pos (archiveDuplicates_unique t)

/-- No row answers a message yet. -/
theorem upgrade0006_eq (t : Rev0005) : upgrade0006 t = some (addReplyTo t) :=
  if_pos (unique_of_none fun m hm => by
    obtain ⟨m, -, rfl⟩ := List.mem_map.mp hm
    rfl)

theorem hasOutbound_map (t : Rev0003) (f : Message0000 → Message0006)
    (hf : ∀ m, (f m).toMessage0000 = m) (id : Nat) :
    hasOutbound (t.messages.rows.map f) id = wasAnswered t id := by
  unfold hasOutbound wasAnswered
  rw [List.any_map]
  refine congrArg _ (funext fun m => ?_)
  simp only [Function.comp_apply, hf]

/-- Every revision goes through, and what the chain makes of the rows. -/
theorem upgrade_rows (t : Rev0002) : ∃ h, upgrade t.toTables = some h ∧
    h.users.rows = t.users.rows.map upgradedUser ∧
    h.conversations.rows = (archiveDuplicates t.toTables).conversations.rows.map
      (upgradedConversation t.toTables) ∧
    h.messages.rows = t.messages.rows.map upgradedMessage := by
  have h3 := upgrade0003_eq t.toTables
  generalize hkept : archiveDuplicates t.toTables = kept at h3
  have hrows : kept.users = t.users ∧ kept.messages = t.messages := by
    rw [← hkept]
    exact ⟨rfl, rfl⟩
  have h6 := upgrade0006_eq (upgrade0005 (upgrade0004 kept))
  generalize hreplies : addReplyTo (upgrade0005 (upgrade0004 kept)) = replies at h6
  have h9 : upgrade0009 (upgrade0007 replies) = some (addChannel (upgrade0007 replies)) := by
    refine if_pos ?_
    subst hreplies
    change Unique identityKey (kept.users.rows.map channelled)
    rw [hrows.1]
    exact unique_channelled t.uniqueWaId
  have husers : (backfillAll (upgrade0011 (addChannel (upgrade0007 replies)))).users.rows =
      t.users.rows.map channelled := by
    subst hreplies
    change (kept.users.rows.map channelled).map backfill = _
    rw [hrows.1, List.map_map]
    rfl
  obtain ⟨h, hh, hu, hc, hm⟩ := setNotNull_eq identified (fun _ _ => identified_id)
    (t := backfillAll (upgrade0011 (addChannel (upgrade0007 replies)))) fun u hu => by
      rw [husers] at hu
      obtain ⟨u, -, rfl⟩ := List.mem_map.mp hu
      rfl
  have h13 : upgrade0013 (upgrade0011 (addChannel (upgrade0007 replies))) = some h := by
    refine (if_pos ?_).trans hh
    rw [husers]
    exact unique_channelled t.uniqueWaId
  refine ⟨h, ?_, ?_, ?_, ?_⟩
  · unfold upgrade
    rw [h3, Option.bind_some, h6, Option.bind_some, h9, Option.bind_some, h13]
  · rw [hu, husers, List.filterMap_map]
    exact congrFun List.filterMap_eq_map _
  · rw [hc]
    subst hreplies
    change ((((kept.conversations.rows.map _).map _).map _).map _).map _ = _
    simp only [List.map_map]
    refine List.map_congr_left fun c _ => ?_
    simp only [Function.comp_apply, upgradedConversation, ← hasOutbound_map t.toTables
      (fun m => { m with replyToWaMessageId := none }) (fun _ => rfl), ← hrows.2]
    rfl
  · rw [hm]
    subst hreplies
    change (kept.messages.rows.map _).map _ = _
    rw [hrows.2, List.map_map]
    rfl

/-- The way back, where every customer has a number. -/
theorem downgrade_rows {h : Rev0013} {users : List User0000}
    (husers : h.users.rows = users.map upgradedUser) :
    ∃ t, downgrade h = some t ∧ t.users.rows = users ∧
      t.conversations.rows = h.conversations.rows.map (·.toConversation0000) ∧
      t.messages.rows = h.messages.rows.map (·.toMessage0000) := by
  have hback : (downgrade0011 (downgrade0013 h)).users.rows = users.map channelled := by
    change h.users.rows.map _ = _
    rw [husers, List.map_map]
    rfl
  obtain ⟨t, ht, hu, hc, hm⟩ := setNotNull_eq numbered (fun _ _ => numbered_id)
    (t := dropChannel (downgrade0011 (downgrade0013 h))) fun u hu => by
      change u ∈ (downgrade0011 (downgrade0013 h)).users.rows at hu
      rw [hback] at hu
      obtain ⟨u, -, rfl⟩ := List.mem_map.mp hu
      rfl
  have h9 : downgrade0009 (downgrade0011 (downgrade0013 h)) = some t := ht
  refine ⟨_, by rw [downgrade, h9]; rfl, ?_, ?_, ?_⟩
  · change t.users.rows = users
    rw [hu]
    change (downgrade0011 (downgrade0013 h)).users.rows.filterMap numbered = users
    rw [hback, List.filterMap_map]
    exact List.filterMap_some
  · change ((t.conversations.rows.map _).map _).map _ = _
    rw [hc]
    change (((((h.conversations.rows.map _).map _).map _).map _)).map _ = _
    simp only [List.map_map]
    rfl
  · change t.messages.rows.map _ = _
    rw [hm]
    change (h.messages.rows.map _).map _ = _
    rw [List.map_map]
    rfl

/-! ## What it is to the bot -/

/-- What the database of before has become. -/
structure Carried (t : Rev0003) (db : Db) : Prop where
  customers : db.users = t.users.rows.map upgradedUser
  threads : db.conversations.rows.map (fun c => (c.id, c.userId, c.createdAt)) =
    t.conversations.rows.map fun c => (c.id, c.userId, c.createdAt)
  messages : db.messages = t.messages.rows.map fun m => (upgradedMessage m).row
  /-- Of the active conversations of a customer, the newest is the one that stays active. -/
  newest : ∀ c ∈ t.conversations.rows, c.status = .active → ∃ d, db.activeFor c.userId = [d] ∧
    ∃ e ∈ t.conversations.rows, e.id = d.id ∧ e.userId = c.userId ∧ e.status = .active ∧
      NotOlder e c
  /-- A row keeps its status unless a newer one was active too, and is idle since its last write. -/
  rest : ∀ d ∈ db.conversations.rows, ∃ c ∈ t.conversations.rows, c.id = d.id ∧
    (d.status = c.status ∨ c.status = .active ∧ d.status = .archived) ∧
      d.lastActivityAt = c.updatedAt
  /-- Who was answered counts as greeted, and nobody else does. -/
  greeted : ∀ d ∈ db.conversations.rows, d.welcomeSentAt.isSome = true ↔
    ∃ m ∈ db.messages, m.conversationId = d.id ∧ m.direction = .outbound

section

variable {t : Rev0003} {h : Rev0013} {aiLogs : List AiLog}

theorem count_active (rows : List Conversation0000) (u : Nat) :
    (rows.filter fun c => c.userId = u ∧ c.status = .active).length =
      (rows.filterMap activeKey).count u := by
  rw [List.count_filterMap, ← List.countP_eq_length_filter]
  refine List.countP_congr fun c _ => ?_
  by_cases hactive : c.status = .active <;> simp [activeKey, hactive]

theorem activeFor_db (hc : h.conversations.rows =
    (archiveDuplicates t).conversations.rows.map (upgradedConversation t)) (u : Nat) :
    (h.db aiLogs).activeFor u = ((archiveDuplicates t).conversations.rows.filter fun c =>
      c.userId = u ∧ c.status = .active).map fun c => (upgradedConversation t c).row := by
  change (h.conversations.rows.map Conversation0011.row).filter _ = _
  rw [hc, List.map_map, List.filter_map]
  rfl

theorem slots_db (hc : h.conversations.rows =
    (archiveDuplicates t).conversations.rows.map (upgradedConversation t)) (u : Nat) :
    ((h.db aiLogs).activeFor u).length ≤ 1 := by
  rw [activeFor_db hc, List.length_map, count_active]
  exact List.nodup_iff_count_le_one.mp (archiveDuplicates_unique t) u

/-- A row of the upgraded database, and the row it was. -/
theorem mem_db (hc : h.conversations.rows =
    (archiveDuplicates t).conversations.rows.map (upgradedConversation t)) {d : Conversation}
    (hd : d ∈ (h.db aiLogs).conversations.rows) : ∃ c ∈ t.conversations.rows,
      d = (upgradedConversation t (archiveDuplicate t.conversations.rows c)).row := by
  obtain ⟨d', hd', rfl⟩ := List.mem_map.mp hd
  rw [hc] at hd'
  obtain ⟨c', hc', rfl⟩ := List.mem_map.mp hd'
  obtain ⟨c, hin, rfl⟩ := List.mem_map.mp hc'
  exact ⟨c, hin, rfl⟩

theorem archiveDuplicate_status (cs : List Conversation0000) (c : Conversation0000) :
    (archiveDuplicate cs c).status = c.status ∨
      c.status = .active ∧ (archiveDuplicate cs c).status = .archived := by
  unfold archiveDuplicate
  split
  · rename_i hold
    exact .inr ⟨hold.1, rfl⟩
  · exact .inl rfl

theorem archiveDuplicate_times (cs : List Conversation0000) (c : Conversation0000) :
    (archiveDuplicate cs c).createdAt = c.createdAt ∧
      (archiveDuplicate cs c).updatedAt = c.updatedAt := by
  unfold archiveDuplicate
  split <;> exact ⟨rfl, rfl⟩

/-- Of the active conversations of a customer, the newest is the one that stays active. -/
theorem stays_active (hc : h.conversations.rows =
    (archiveDuplicates t).conversations.rows.map (upgradedConversation t)) {c : Conversation0000}
    (hin : c ∈ t.conversations.rows) (hactive : c.status = .active) :
    ∃ d, (h.db aiLogs).activeFor c.userId = [d] ∧ ∃ e ∈ t.conversations.rows, e.id = d.id ∧
      e.userId = c.userId ∧ e.status = .active ∧ NotOlder e c := by
  obtain ⟨i, hi⟩ := exists_newestActive hin hactive
  obtain ⟨e, he, rfl, howner, heactive, hnewest⟩ := newestActive_isNewest hi
  have hkept : (archiveDuplicate t.conversations.rows e).status = .active :=
    (archiveDuplicate_active he).mpr ⟨heactive, by rw [howner]; exact hi⟩
  have hmem : (upgradedConversation t e).row ∈ (h.db aiLogs).activeFor c.userId := by
    rw [activeFor_db hc]
    refine List.mem_map_of_mem (List.mem_filter.mpr ⟨?_, by simp [howner, heactive]⟩)
    exact List.mem_map.mpr ⟨e, he, archiveDuplicate_of_active hkept⟩
  have hone : ((h.db aiLogs).activeFor c.userId).length ≤ 1 := slots_db hc c.userId
  obtain ⟨d, hd⟩ := List.length_eq_one_iff.mp
    (Nat.le_antisymm hone (List.length_pos_of_mem hmem))
  rw [hd, List.mem_singleton] at hmem
  exact ⟨d, hd, e, he, by rw [← hmem]; rfl, howner, heactive, hnewest c hin rfl hactive⟩

theorem wasAnswered_iff (hm : h.messages.rows = t.messages.rows.map upgradedMessage) (id : Nat) :
    wasAnswered t id = true ↔
      ∃ m ∈ (h.db aiLogs).messages, m.conversationId = id ∧ m.direction = .outbound := by
  have hmessages : ∀ m, m ∈ (h.db aiLogs).messages ↔
      ∃ m' ∈ t.messages.rows, (upgradedMessage m').row = m := fun m => by
    change m ∈ h.messages.rows.map Message0011.row ↔ _
    rw [hm, List.map_map]
    exact List.mem_map
  simp only [wasAnswered, List.any_eq_true, decide_eq_true_eq]
  constructor
  · rintro ⟨m, hmem, hthread, hout⟩
    exact ⟨_, (hmessages _).mpr ⟨m, hmem, rfl⟩, hthread, hout⟩
  · rintro ⟨m, hmem, hthread, hout⟩
    obtain ⟨m', hmem', rfl⟩ := (hmessages _).mp hmem
    exact ⟨m', hmem', hthread, hout⟩

theorem carried (hu : h.users.rows = t.users.rows.map upgradedUser)
    (hc : h.conversations.rows =
      (archiveDuplicates t).conversations.rows.map (upgradedConversation t))
    (hm : h.messages.rows = t.messages.rows.map upgradedMessage) : Carried t (h.db aiLogs) where
  customers := hu
  threads := by
    change (h.conversations.rows.map Conversation0011.row).map _ = _
    rw [hc]
    change (((t.conversations.rows.map _).map _).map _).map _ = _
    simp only [List.map_map]
    refine List.map_congr_left fun c _ => ?_
    have hid := archiveDuplicate_id t.conversations.rows c
    have howner := archiveDuplicate_userId t.conversations.rows c
    have hcreated := (archiveDuplicate_times t.conversations.rows c).1
    simp only [Function.comp_apply, upgradedConversation, Conversation0011.row, hid, howner,
      hcreated]
  messages := by
    change h.messages.rows.map Message0011.row = _
    rw [hm, List.map_map]
    rfl
  newest c hin hactive := stays_active hc hin hactive
  rest d hd := by
    obtain ⟨c, hin, rfl⟩ := mem_db hc hd
    exact ⟨c, hin, (archiveDuplicate_id _ c).symm, archiveDuplicate_status _ c,
      (archiveDuplicate_times _ c).2⟩
  greeted d hd := by
    obtain ⟨c, hin, rfl⟩ := mem_db hc hd
    change (if wasAnswered t _ then _ else none).isSome = true ↔ _
    rw [Option.isSome_ite]
    exact wasAnswered_iff hm _

end

/-- **The upgrade is sound**: it goes through for every database of before, loses nothing, and every
run of the bot that starts in what it leaves keeps the ids and the customers' slots in order. Taken
back at once, it gives the old tables with the duplicates archived. -/
theorem upgrade_sound (t : Rev0002) (aiLogs : List AiLog) (clock : Time) {seq : Nat}
    (hseq : ∀ c ∈ t.conversations.rows, c.id < seq) :
    ∃ h, upgrade t.toTables = some h ∧ Carried t.toTables (h.db aiLogs) ∧
      downgrade h = some (archiveDuplicates t.toTables) ∧
      ∀ cfg C s, Reach (Webhook.sem cfg) C ⟨h.db aiLogs, clock, seq⟩ s → Webhook.Sound s.shared := by
  obtain ⟨h, hh, hu, hc, hm⟩ := upgrade_rows t
  obtain ⟨back, hback, husers, hconversations, hmessages⟩ := downgrade_rows hu
  refine ⟨h, hh, carried hu hc hm, ?_, fun cfg C s hs => ?_⟩
  · rw [hback]
    refine congrArg some (Tables.ext husers ?_ ?_)
    · rw [hconversations, hc, List.map_map]
      exact List.map_id _
    · rw [hmessages, hm, List.map_map]
      exact List.map_id _
  · refine Webhook.sound ⟨fun d hd => ?_, slots_db hc⟩ hs
    obtain ⟨c, hin, rfl⟩ := mem_db hc hd
    exact (archiveDuplicate_id _ c).trans_lt (hseq c hin)

/-- A customer with two active conversations. -/
def Sample.before : Rev0002 where
  users := ⟨[⟨1, "20100", none⟩], by decide⟩
  conversations := ⟨[⟨3, 1, .active, 10, 40⟩, ⟨5, 1, .active, 20, 30⟩], by decide⟩
  messages :=
    ⟨[⟨4, 3, some "wamid.1", .inbound, "text", some "hello", none, none, 10⟩], by decide⟩
  fkUser := by decide
  fkConversation := by decide
  uniqueWaId := by decide
  uniqueWaMessageId := by decide

theorem upgrade_sound_sample : ∃ h, upgrade Sample.before.toTables = some h ∧
    Carried Sample.before.toTables (h.db []) := by
  have hseq : ∀ c ∈ Sample.before.conversations.rows, c.id < 6 := by decide
  obtain ⟨h, hh, hcarried, -⟩ := upgrade_sound Sample.before [] 50 hseq
  exact ⟨h, hh, hcarried⟩

end Migrations
