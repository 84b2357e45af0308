import WhatsAppBot.Lib.Rely
import WhatsAppBot.Webhook.Proof.Filing
import WhatsAppBot.Webhook.Proof.Locks

/-!
# One active conversation for a customer

`Sound w` is what a database can start from: its ids come from a sequence that is ahead of them, and
no customer has two active conversations. `slots`: it stays so in every run, and every open
transaction is `Tidy`. What the unique index does in the database is done here by the check that
opens a conversation and by the lock on the customer's slot.
-/

set_option autoImplicit false

namespace Webhook

open Lib Store Bot Chat

structure Sound (w : World) : Prop where
  ids : ∀ c ∈ w.db.conversations.rows, c.id < w.seq
  slots : ∀ u, (w.db.activeFor u).length ≤ 1

theorem sound_empty (t₀ : Time) : Sound (World.empty t₀) :=
  ⟨fun _ hc => absurd hc List.not_mem_nil, fun _ => Nat.zero_le 1⟩

/-- The writes that open or close a conversation or store a message of a customer. -/
def isFiling : Write → Bool
  | .insertConversation _ | .updateConversation _ _ (.close _)
  | .updateConversation _ _ (.revive _) => true
  | .insertMessage m => m.direction = .inbound
  | _ => false

/-- What an open transaction has done, as far as conversations and their customers go. -/
structure Tidy (a : Filing) (w : World) (tx : Tx) : Prop where
  inserts : ∀ d, .insertConversation d ∈ tx → d.status = .active ∧ d.id < w.seq
  sound : ∀ v ∈ tx, v.Sound w.db
  slots : ∀ u, (w.db.activeFor u).length + tx.countP (Write.opens u) ≤ 1
  opened : a = .fresh ∨ a = .closing → ∀ u, tx.countP (Write.opens u) = 0
  closed : a ≠ .closing → ∀ id, Kind.close ∉ Tx.kinds tx id
  inbound : ∀ m, .insertMessage m ∈ tx → m.direction = .inbound → a = .filed m.conversationId
  there : ∀ c, a.Has c → ((w.db.applyAll tx).conversation c).isSome = true
  found : a ≠ .missed

variable {a : Filing} {w w' : World} {tx ws : Tx} {u c : Nat}

theorem opens_of_isFiling {v : Write} (h : isFiling v = false) : v.opens u = false := by
  cases v with
  | insertConversation => cases h
  | updateConversation i userId upd => cases upd <;> first | rfl | cases h
  | _ => rfl

theorem kindOn_of_isFiling {v : Write} (h : isFiling v = false) : v.kindOn c ≠ some .close := by
  intro hk
  cases v with
  | updateConversation i userId upd =>
    simp only [Write.kindOn] at hk
    split at hk
    · cases upd with
      | close => cases h
      | _ => cases hk
    · cases hk
  | _ => cases hk

theorem not_close_kinds (h : ∀ v ∈ ws, isFiling v = false) (id : Nat) :
    Kind.close ∉ Tx.kinds ws id := by
  intro hk
  obtain ⟨v, hv, hkind⟩ := List.mem_filterMap.mp hk
  exact kindOn_of_isFiling (h v hv) hkind

/-- A statement the monitor does not look at. -/
theorem exec_unfiled {s : Stmt} {r : s.Resp} {now : Time} {seq : Nat} {locked : Nat → Bool} {db : Db}
    (h : s.exec now seq locked db = some (r, ws)) (hs : isUnfiled (.sql s) = true) :
    ∀ v ∈ ws, isFiling v = false := by
  intro v hv
  have hmade := Stmt.exec_made h hv
  cases v with
  | insertConversation d =>
    obtain ⟨_, _, rfl, -⟩ := hmade
    cases hs
  | updateConversation i userId upd =>
    obtain ⟨x, -, -, hmade⟩ := hmade
    cases upd with
    | close => subst hmade; cases hs
    | revive =>
      rcases hmade.2 with ⟨_, _, rfl⟩ | rfl <;> cases hs
    | _ => rfl
  | insertMessage m =>
    rcases hmade with ⟨_, _, _, _, rfl, -⟩ | ⟨_, _, _, -, -, -, hout⟩ | ⟨_, _, _, -, -, -, hout⟩
    · cases hs
    · simp [isFiling, hout]
    · simp [isFiling, hout]
  | _ => rfl

namespace Tidy

theorem nil (h : Sound w) : Tidy .fresh w [] where
  inserts _ hd := absurd hd List.not_mem_nil
  sound _ hv := absurd hv List.not_mem_nil
  slots := h.slots
  opened _ _ := rfl
  closed _ _ := List.not_mem_nil
  inbound _ hm := absurd hm List.not_mem_nil
  there c hc := by rcases hc with hc | hc <;> cases hc
  found := nofun

/-- Statements that open, close and file nothing. -/
theorem append (h : Tidy a w tx) (hdb : w'.db = w.db) (hseq : w.seq ≤ w'.seq)
    (hws : ∀ v ∈ ws, isFiling v = false) : Tidy a w' (tx ++ ws) where
  inserts d hd := by
    rcases List.mem_append.mp hd with hd | hd
    · exact ⟨(h.inserts d hd).1, Nat.lt_of_lt_of_le (h.inserts d hd).2 hseq⟩
    · cases hws _ hd
  sound v hv := by
    rw [hdb]
    rcases List.mem_append.mp hv with hv | hv
    · exact h.sound v hv
    · have hplain := hws v hv
      cases v with
      | updateConversation i userId upd =>
        cases upd with
        | revive => cases hplain
        | _ => trivial
      | _ => trivial
  slots u := by
    have hzero : ws.countP (Write.opens u) = 0 := List.countP_eq_zero.mpr fun v hv => by
      simp [opens_of_isFiling (hws v hv)]
    rw [hdb, List.countP_append, hzero]
    exact h.slots u
  opened ha u := by
    have hzero : ws.countP (Write.opens u) = 0 := List.countP_eq_zero.mpr fun v hv => by
      simp [opens_of_isFiling (hws v hv)]
    rw [List.countP_append, hzero, h.opened ha u]
  closed ha id := by
    rw [Tx.kinds_append, List.mem_append, not_or]
    exact ⟨h.closed ha id, not_close_kinds hws id⟩
  inbound m hm hin := by
    rcases List.mem_append.mp hm with hm | hm
    · exact h.inbound m hm hin
    · have hplain := hws _ hm
      simp [isFiling, hin] at hplain
  there c hc := by
    rw [hdb, Db.applyAll_append]
    exact Db.conversation_applyAll_isSome (h.there c hc) ws
  found := h.found

theorem keep (h : Tidy a w tx) (hdb : w'.db = w.db) (hseq : w.seq ≤ w'.seq) : Tidy a w' tx := by
  have hkeep : Tidy a w' (tx ++ []) := h.append hdb hseq fun _ hv => absurd hv List.not_mem_nil
  rwa [List.append_nil] at hkeep

/-- The active conversation of a customer is looked up. -/
theorem look (h : Tidy a w tx) {r : Option Conversation}
    (hr : ∀ x, r = some x → ((w.db.applyAll tx).conversation x.id).isSome = true) :
    Tidy (a.look r) w tx := by
  unfold Filing.look
  split
  · rename_i x
    exact
      { h with
        opened := fun ha => by rcases ha with ha | ha <;> cases ha
        closed := fun _ => h.closed nofun
        inbound := fun m hm hin => by cases h.inbound m hm hin
        there := fun c hc => by
          rcases hc with hc | hc
          · obtain rfl := Filing.loaded.inj hc
            exact hr x rfl
          · cases hc
        found := nofun }
  · exact h

/-- A row that was opened is found. -/
theorem refresh (h : Tidy a w tx) (id : Nat) :
    Tidy (a.refresh id ((w.db.applyAll tx).conversation id)) w tx := by
  unfold Filing.refresh
  split
  · rename_i hmiss
    have hthere := h.there id (.inl hmiss.1)
    rw [hmiss.2] at hthere
    cases hthere
  · exact h

/-- The conversation a transaction sees under the next id. -/
theorem next_free (hI : Sound w) (h : Tidy a w tx) : (w.db.applyAll tx).conversation w.seq = none := by
  by_contra hrow
  obtain ⟨x, hx⟩ := Option.ne_none_iff_exists'.mp hrow
  cases hcommitted : w.db.conversation w.seq with
  | some y =>
    obtain ⟨hy, hid⟩ := Lib.Table.find_some hcommitted
    have hlt := hI.ids y hy
    omega
  | none =>
    obtain ⟨d, hd, hid⟩ := Db.created_of_absent hcommitted hx
    have hlt := (h.inserts d hd).2
    omega

/-- A transaction that opened nothing has created nothing. -/
theorem creates_nothing (h : Tidy a w tx) (ha : a = .fresh ∨ a = .closing) (d : Conversation) :
    .insertConversation d ∉ tx := by
  intro hd
  have hzero := h.opened ha d.userId
  have hopens := List.countP_eq_zero.mp hzero _ hd
  simp [Write.opens] at hopens

/-- A transaction opens a conversation. -/
theorem opening (h : Tidy .fresh w tx) (hdb : w'.db = w.db) (hseq : w'.seq = w.seq + 1) {v : Write}
    (hv : Opening (w.db.applyAll tx) w.seq c u v) : Tidy (.loaded c) w' (tx ++ [v]) where
  inserts d hd := by
    rcases List.mem_append.mp hd with hd | hd
    · have hlt := (h.inserts d hd).2
      exact ⟨(h.inserts d hd).1, by omega⟩
    · obtain ⟨hactive, hid⟩ := hv.insert d (List.mem_singleton.mp hd).symm
      exact ⟨hactive, by omega⟩
  sound x hx := by
    rw [hdb]
    rcases List.mem_append.mp hx with hx | hx
    · exact h.sound x hx
    · obtain rfl := List.mem_singleton.mp hx
      have hsound := hv.sound
      cases x with
      | updateConversation i userId upd =>
        cases upd with
        | revive t =>
          -- the row was committed: the transaction has created none
          obtain ⟨y, hy, hu⟩ := hsound
          cases hrow : w.db.conversation i with
          | none =>
            obtain ⟨d, hd, -⟩ := Db.created_of_absent hrow hy
            exact absurd hd (h.creates_nothing (.inl rfl) d)
          | some z =>
            rw [Db.conversation_applyAll hrow tx] at hy
            obtain rfl := Option.some.inj hy
            exact ⟨z, hrow, by simpa using hu⟩
        | _ => trivial
      | _ => trivial
  slots x := by
    rw [hdb, List.countP_append, h.opened (.inl rfl) x, List.countP_singleton]
    have hle : (w.db.activeFor x).length ≤ ((w.db.applyAll tx).activeFor x).length :=
      Db.activeFor_le_applyAll (h.closed nofun) x
    have hslot := h.slots x
    by_cases hx : x = u
    · subst hx
      rw [hv.slot] at hle
      simp only [List.length_nil] at hle
      rw [if_pos ((hv.opens x).mpr rfl)]
      omega
    · rw [if_neg fun ho => hx ((hv.opens x).mp ho)]
      omega
  opened ha := by rcases ha with ha | ha <;> cases ha
  closed _ id := by
    rw [Tx.kinds_append, List.mem_append, not_or]
    refine ⟨h.closed nofun id, fun hk => ?_⟩
    obtain ⟨x, hx, hkind⟩ := List.mem_filterMap.mp hk
    obtain rfl := List.mem_singleton.mp hx
    exact hv.keeps id hkind
  inbound m hm hin := by
    rcases List.mem_append.mp hm with hm | hm
    · cases h.inbound m hm hin
    · have hopens := (hv.opens u).mpr rfl
      rw [← List.mem_singleton.mp hm] at hopens
      cases hopens
  there x hx := by
    rcases hx with hx | hx
    · obtain rfl := Filing.loaded.inj hx
      obtain ⟨y, hy, -⟩ := hv.active
      rw [hdb, Db.applyAll_append]
      exact Option.isSome_iff_exists.mpr ⟨y, hy⟩
    · cases hx
  found := nofun

/-- A sweep closes a session. -/
theorem close (h : Tidy a w tx) (ha : a = .fresh ∨ a = .closing) (hdb : w'.db = w.db)
    (hseq : w.seq ≤ w'.seq) {i : Nat} {t : Time}
    (hws : ∀ v ∈ ws, ∃ userId, v = .updateConversation i userId (.close t)) :
    Tidy .closing w' (tx ++ ws) where
  inserts d hd := by
    rcases List.mem_append.mp hd with hd | hd
    · exact ⟨(h.inserts d hd).1, Nat.lt_of_lt_of_le (h.inserts d hd).2 hseq⟩
    · obtain ⟨_, hd⟩ := hws _ hd
      cases hd
  sound v hv := by
    rw [hdb]
    rcases List.mem_append.mp hv with hv | hv
    · exact h.sound v hv
    · obtain ⟨_, rfl⟩ := hws v hv
      trivial
  slots u := by
    have hzero : ws.countP (Write.opens u) = 0 := List.countP_eq_zero.mpr fun v hv => by
      obtain ⟨_, rfl⟩ := hws v hv
      simp [Write.opens]
    rw [hdb, List.countP_append, hzero]
    exact h.slots u
  opened _ u := by
    have hzero : ws.countP (Write.opens u) = 0 := List.countP_eq_zero.mpr fun v hv => by
      obtain ⟨_, rfl⟩ := hws v hv
      simp [Write.opens]
    rw [List.countP_append, hzero, h.opened ha u]
  closed ha := absurd rfl ha
  inbound m hm hin := by
    rcases List.mem_append.mp hm with hm | hm
    · rcases ha with rfl | rfl <;> cases h.inbound m hm hin
    · obtain ⟨_, hm⟩ := hws _ hm
      cases hm
  there c hc := by rcases hc with hc | hc <;> cases hc
  found := nofun

/-- A message is stored in the conversation that was looked up. -/
theorem claim (h : Tidy (.loaded c) w tx) (hdb : w'.db = w.db) (hseq : w.seq ≤ w'.seq) {m : Message}
    (hm : m.conversationId = c) : Tidy (.filed c) w' (tx ++ [.insertMessage m]) where
  inserts d hd := by
    rcases List.mem_append.mp hd with hd | hd
    · exact ⟨(h.inserts d hd).1, Nat.lt_of_lt_of_le (h.inserts d hd).2 hseq⟩
    · cases List.mem_singleton.mp hd
  sound v hv := by
    rw [hdb]
    rcases List.mem_append.mp hv with hv | hv
    · exact h.sound v hv
    · obtain rfl := List.mem_singleton.mp hv
      trivial
  slots u := by
    rw [hdb, List.countP_append]
    exact h.slots u
  opened ha := by rcases ha with ha | ha <;> cases ha
  closed _ id := by
    rw [Tx.kinds_append]
    have hclosed := h.closed (fun hc => by cases hc) id
    simpa [Tx.kinds, Write.kindOn] using hclosed
  inbound n hn hin := by
    rcases List.mem_append.mp hn with hn | hn
    · cases h.inbound n hn hin
    · obtain rfl := Write.insertMessage.inj (List.mem_singleton.mp hn)
      rw [hm]
  there x hx := by
    rcases hx with hx | hx
    · cases hx
    · obtain rfl := Filing.filed.inj hx
      rw [hdb, Db.applyAll_append]
      exact Db.conversation_applyAll_isSome (h.there c (.inl rfl)) _
  found := fun hc => by cases hc

/-- **A commit** leaves nobody with two active conversations. -/
theorem commit (hI : Sound w) (h : Tidy a w tx) (hdb : w'.db = w.db.applyAll tx)
    (hseq : w'.seq = w.seq) : Sound w' where
  ids c hc := by
    rw [hdb] at hc
    have hrow := Db.conversation_of_mem hc
    cases hcommitted : w.db.conversation c.id with
    | some y =>
      obtain ⟨hy, hid⟩ := Lib.Table.find_some hcommitted
      have hlt := hI.ids y hy
      omega
    | none =>
      obtain ⟨d, hd, hid⟩ := Db.created_of_absent hcommitted hrow
      have hlt := (h.inserts d hd).2
      omega
  slots u := by
    rw [hdb]
    exact Nat.le_trans (Db.activeFor_applyAll_le h.sound u) (h.slots u)

/-- What another process commits. -/
theorem interfere (h : Tidy a w tx) {b : Filing} {theirs : Tx} (hI : Sound w) (ht : Tidy b w theirs)
    (hexcl : ∀ l, Tx.holds tx l = true → Tx.holds theirs l = false)
    (hdb : w'.db = w.db.applyAll theirs) (hseq : w'.seq = w.seq) : Tidy a w' tx where
  inserts d hd := by
    rw [hseq]
    exact h.inserts d hd
  sound v hv := by
    rw [hdb]
    exact (h.sound v hv).applyAll theirs
  slots u := by
    have hle := Db.activeFor_applyAll_le ht.sound u
    have hmine := h.slots u
    by_cases hu : tx.countP (Write.opens u) = 0
    · have hsound := (ht.commit hI hdb hseq).slots u
      omega
    · -- the others do not hold the customer's slot
      have hzero : theirs.countP (Write.opens u) = 0 := by
        by_contra hopens
        have hno := hexcl _ (holds_of_opens hu)
        rw [holds_of_opens hopens] at hno
        cases hno
      rw [hdb]
      omega
  opened := h.opened
  closed := h.closed
  inbound := h.inbound
  there c hc := by
    rw [hdb]
    exact ((w.db.within_applyAll theirs).applyAll tx).there c (h.there c hc)
  found := h.found

end Tidy

/-- What a statement does to a tidy transaction. -/
theorem tidy_sql {s : Stmt} {r : s.Resp} {now : Time} {locked : Nat → Bool} (hI : Sound w)
    (h : Tidy a w tx) (hok : filingMonitor.ok a (.sql s))
    (hexec : s.exec now w.seq locked (w.db.applyAll tx) = some (r, ws)) (hdb : w'.db = w.db)
    (hseq : w'.seq = w.seq + 1) : Tidy (filingMonitor.next a (.sql s) r) w' (tx ++ ws) := by
  have hle : w.seq ≤ w'.seq := by omega
  have hok := hok.resolve_left h.found
  have hopened : ∀ (q : Option Nat) b, a = .fresh → Opened (w.db.applyAll tx) w.seq q ws →
      b = a.opened q → Tidy b w' (tx ++ ws) := by
    rintro q b rfl ho rfl
    cases q with
    | none =>
      obtain rfl : ws = [] := ho
      exact h.append hdb hle fun _ hv => absurd hv List.not_mem_nil
    | some c =>
      obtain ⟨u, v, rfl, hv⟩ := ho
      exact h.opening hdb hseq hv
  cases s with
  | activeForUser userId =>
    obtain ⟨rfl, rfl⟩ := Prod.mk.inj (Option.some.inj hexec)
    rw [List.append_nil]
    change Tidy (if a = .missed then .missed else a.look _) w' tx
    rw [if_neg h.found]
    refine (h.look fun x hx => ?_).keep hdb hle
    exact Option.isSome_iff_exists.mpr ⟨x, (Db.mem_activeFor.mp (newest_mem hx)).1⟩
  | getConversation id =>
    obtain ⟨rfl, rfl⟩ := Prod.mk.inj (Option.some.inj hexec)
    rw [List.append_nil]
    change Tidy (if a = .missed then .missed else a.refresh id _) w' tx
    rw [if_neg h.found]
    exact (h.refresh id).keep hdb hle
  | reopenRecent userId notBefore t =>
    exact hopened r _ hok (Stmt.exec_reopenRecent hexec) (if_neg h.found)
  | reopen id t => exact hopened r _ hok (Stmt.exec_reopen hexec) (if_neg h.found)
  | insertConversation userId channel =>
    exact hopened r _ hok (Stmt.exec_insertConversation (h.next_free hI) hexec) (if_neg h.found)
  | close id t =>
    obtain ⟨-, rfl⟩ := Prod.mk.inj (Option.some.inj hexec)
    change Tidy (if a = .missed then .missed else .closing) w' _
    rw [if_neg h.found]
    refine h.close hok hdb hle (i := id) (t := t) fun v hv => ?_
    obtain ⟨x, -, rfl⟩ := mem_updateRow hv
    exact ⟨_, rfl⟩
  | claimInbound c key type content mediaId =>
    obtain rfl : a = .loaded c := hok
    simp only [Stmt.exec] at hexec
    split at hexec
    · obtain ⟨rfl, rfl⟩ := Prod.mk.inj (Option.some.inj hexec)
      exact h.append hdb hle fun _ hv => absurd hv List.not_mem_nil
    · split at hexec
      · obtain ⟨rfl, rfl⟩ := Prod.mk.inj (Option.some.inj hexec)
        exact h.claim hdb hle rfl
      · cases hexec
  | _ =>
    rw [unfiled_same rfl |>.2]
    exact h.append hdb hle (exec_unfiled hexec rfl)

theorem Sound.keep (h : Sound w) (hdb : w'.db = w.db) (hseq : w.seq ≤ w'.seq) : Sound w' := by
  refine ⟨fun c hc => ?_, fun u => ?_⟩
  · rw [hdb] at hc
    exact Nat.lt_of_lt_of_le (h.ids c hc) hseq
  · rw [hdb]
    exact h.slots u

variable {cfg : Config} {w₀ : World} {C : Sys botSig World Tx Task → Event botSig World Tx Task → Prop}
  {s : Sys botSig World Tx Task} {i : Nat} {p : Proc botSig Tx Task}

theorem slots_rely (h₀ : Sound w₀) : Rely (sem cfg) anyStep w₀ (fun _ => True)
    (fun _ => filingMonitor) .fresh (fun w _ => Sound w) (fun _ a w _ tx => Tidy a w tx) where
  program l _ := (filing_discipline cfg).program l
  may := (filing_discipline cfg).may
  start := h₀
  fresh h _ := Tidy.nil h
  quiet _ h := ⟨h, fun _ _ _ hF => hF⟩
  op {s i p o k r w tx} hr hI hF hp _ hok hstep _ := by
    have hself : Tidy (track filingMonitor .fresh i s.hist) s.shared p.held := hF i p hp trivial
    have hothers : w.db = s.shared.db → s.shared.seq ≤ w.seq → ∀ j q, j ≠ i → s.proc j = some q →
        True → Tidy (track filingMonitor .fresh j s.hist) w q.held :=
      fun hdb hseq j q _ hq _ => (hF j q hq trivial).keep hdb hseq
    change step cfg _ _ _ o r = _ at hstep
    cases o with
    | sql stmt =>
      obtain ⟨ws, hexec, -, hdb, hseq, rfl⟩ := step_sql hstep
      have hle : s.shared.seq ≤ w.seq := by omega
      exact ⟨hI.keep hdb hle, fun _ => tidy_sql hI hself (hok trivial) hexec hdb hseq,
        hothers hdb hle⟩
    | commit =>
      obtain ⟨hdb, hseq, rfl⟩ := step_commit hstep
      have hsound := hself.commit hI hdb hseq
      refine ⟨hsound, fun _ => ?_, fun j q hj hq _ => ?_⟩
      · change Tidy (if track filingMonitor .fresh i s.hist = .missed then .missed else .fresh) w []
        rw [if_neg hself.found]
        exact Tidy.nil hsound
      · refine (hF j q hq trivial).interfere hI hself (fun l hl => ?_) hdb hseq
        by_contra hheld
        exact hj (lock_exclusive hr hq hp hl (Bool.eq_true_of_not_eq_false hheld))
    | rollback =>
      obtain ⟨rfl, rfl⟩ := step_rollback hstep
      refine ⟨hI, fun _ => ?_, hothers rfl (Nat.le_refl _)⟩
      change Tidy (if track filingMonitor .fresh i s.hist = .missed then .missed else .fresh) _ []
      rw [if_neg hself.found]
      exact Tidy.nil hI
    | raise => cases r
    | _ =>
      obtain ⟨hdb, hseq, rfl⟩ := step_quiet rfl hstep
      have hle : s.shared.seq ≤ w.seq := Nat.le_of_eq hseq.symm
      refine ⟨hI.keep hdb hle, fun _ => ?_, hothers hdb hle⟩
      rw [unfiled_same rfl |>.2]
      exact hself.keep hdb hle

/-- **No customer ever has two active conversations**, from a sound database on. -/
theorem sound (h₀ : Sound w₀) (h : Reach (sem cfg) C w₀ s) : Sound s.shared :=
  (h.any.rely (slots_rely h₀)).1

theorem tidy (h₀ : Sound w₀) (h : Reach (sem cfg) C w₀ s) (hp : s.proc i = some p) :
    Tidy (track filingMonitor .fresh i s.hist) s.shared p.held :=
  (h.any.rely (slots_rely h₀)).2 i p hp trivial

end Webhook
