import Mathlib.Data.List.Induction
import WhatsAppBot.Lib.Headcount
import WhatsAppBot.Lib.Rely
import WhatsAppBot.Webhook.Proof.Desk
import WhatsAppBot.Webhook.Proof.Errands
import WhatsAppBot.Webhook.Sample

/-!
# One completion per message

The cache of `core/idempotency.py` is there so that no message is completed twice. What keeps it so
is the claim: the message's id is unique among the rows, a claim is committed before the model is
asked, and a customer's row never loses its id, because only outbound rows are confirmed
(`arrivals_rely`). Counted over all processes, the questions asked about a message and those still
to come are no more than its committed claims (`completions_le`), and there is one of these at most.
So the cache is never read after it was filled for the same message: `one_completion`.
-/

set_option autoImplicit false

namespace Webhook

open Lib Store Bot Chat

/-! ## The rows of a message -/

/-- The customer's message `k`. -/
def isArrival (k : String) (m : Message) : Bool := m.direction = .inbound ∧ m.waMessageId = some k

def arrivals (k : String) (db : Db) : Nat := db.messages.countP (isArrival k)

def isClaimOf (k : String) : Write → Bool
  | .insertMessage m => isArrival k m
  | _ => false

/-- The rows with this id are the bot's. -/
def IsOurs (db : Db) (n : Nat) : Prop := ∀ m ∈ db.messages, m.id = n → m.direction = .outbound

def Confirms (tx : Tx) (n : Nat) : Prop := ∃ wa status, .updateMessage n (.confirm wa status) ∈ tx

variable {db : Db} {tx ws mine theirs : Tx} {k : String} {n : Nat} {s : Stmt} {r : s.Resp}
  {now : Time} {seq : Nat} {locked : Nat → Bool} {v : Write}

theorem apply_direction (u : MessageUpdate) (m : Message) :
    (u.apply m).direction = m.direction := by
  cases u <;> rfl

theorem revise_direction (tx : Tx) (m : Message) : (tx.revise m).direction = m.direction := by
  induction tx generalizing m with
  | nil => rfl
  | cons v tx ih =>
    refine (ih (v.revise m)).trans ?_
    cases v with
    | updateMessage id u =>
      simp only [Write.revise]
      split
      · exact apply_direction u m
      · rfl
    | _ => rfl

theorem Confirms.enters (h : Confirms tx n) : tx.enters n = true := by
  obtain ⟨wa, status, hmem⟩ := h
  exact List.any_eq_true.mpr ⟨_, hmem, decide_eq_true rfl⟩

theorem IsOurs.before (h : IsOurs (db.applyAll tx) n) : IsOurs db n := by
  intro m hm hid
  have hseen : tx.revise m ∈ (db.applyAll tx).messages :=
    Db.mem_messages_applyAll.mpr (.inl ⟨m, hm, rfl⟩)
  rw [← revise_direction tx m]
  exact h _ hseen ((Tx.revise_id tx m).trans hid)

theorem IsOurs.exec (h : IsOurs db n) (hn : n < seq)
    (hexec : s.exec now seq locked db = some (r, ws)) : IsOurs (db.applyAll ws) n := by
  intro m hm hid
  rcases Db.mem_messages_applyAll.mp hm with ⟨x, hx, rfl⟩ | hm
  · rw [revise_direction]
    exact h x hx ((Tx.revise_id ws x).symm.trans hid)
  · obtain ⟨x, hx, hxid⟩ := Tx.inserted_source hm
    have hnew := Stmt.exec_insert_id hexec hx
    omega

/-- A transaction that does not enter the row leaves it the bot's. -/
theorem IsOurs.after (h : IsOurs (db.applyAll mine) n) (hfree : theirs.enters n = false) :
    IsOurs ((db.applyAll theirs).applyAll mine) n := by
  intro m hm hid
  rcases Db.mem_messages_applyAll.mp hm with ⟨x, hx, rfl⟩ | hm
  · rw [Tx.revise_id] at hid
    rw [revise_direction]
    rcases Db.mem_messages_applyAll.mp hx with ⟨y, hy, rfl⟩ | hx
    · rw [Tx.revise_id] at hid
      rw [revise_direction]
      exact h.before y hy hid
    · rw [← hid, Tx.enters_of_inserted hx] at hfree
      cases hfree
  · exact h m (Db.mem_messages_applyAll.mpr (.inr hm)) hid

theorem arrivals_apply (h : ∀ n, Confirms [v] n → IsOurs db n) :
    arrivals k (db.apply v) = arrivals k db + (isClaimOf k v).toNat := by
  cases v with
  | insertMessage m =>
    cases hm : isArrival k m <;>
      simp [arrivals, isClaimOf, Db.apply, Db.insertMessage, List.countP_append, hm]
  | updateMessage id u =>
    simp only [arrivals, isClaimOf, Db.apply, Db.updateMessage, List.countP_map, Bool.toNat_false,
      Nat.add_zero]
    refine List.countP_congr fun m hm => ?_
    rw [Function.comp_apply]
    split
    · rename_i hid
      cases u with
      | confirm wa status =>
        have hours := h id ⟨wa, status, List.mem_singleton.mpr rfl⟩ m hm hid
        simp [isArrival, MessageUpdate.apply, hours]
      | _ => rfl
    · rfl
  | insertConversation c =>
    simp only [Db.apply, Db.insertConversation]
    split <;> rfl
  | _ => rfl

/-- What a transaction adds to the rows of the message are its claims. -/
theorem arrivals_applyAll (h : ∀ n, Confirms tx n → IsOurs (db.applyAll tx) n) :
    arrivals k (db.applyAll tx) = arrivals k db + tx.countP (isClaimOf k) := by
  induction tx using List.reverseRecOn with
  | nil => rfl
  | append_singleton tx v ih =>
    have hsplit : db.applyAll (tx ++ [v]) = (db.applyAll tx).applyAll [v] := Db.applyAll_append ..
    have hone : ∀ n, Confirms (tx ++ [v]) n → IsOurs (db.applyAll tx) n := fun n hn =>
      IsOurs.before (hsplit ▸ h n hn)
    have hlast : arrivals k ((db.applyAll tx).apply v) = _ :=
      arrivals_apply fun n ⟨wa, status, hmem⟩ => hone n ⟨wa, status, List.mem_append_right _ hmem⟩
    rw [hsplit, List.countP_append, ← Nat.add_assoc,
      ← ih fun n ⟨wa, status, hmem⟩ => hone n ⟨wa, status, List.mem_append_left _ hmem⟩]
    refine hlast.trans (congrArg _ ?_)
    cases hv : isClaimOf k v <;> simp [hv]

/-! ## What a process can rely on -/

/-- A statement that claims the message sees no row of it. -/
theorem exec_claim (h : s.exec now seq locked db = some (r, ws)) :
    ws.countP (isClaimOf k) = 0 ∨ arrivals k db = 0 ∧ ws.countP (isClaimOf k) = 1 := by
  by_cases hpos : 0 < ws.countP (isClaimOf k)
  · right
    obtain ⟨v, hv, hclaim⟩ := List.countP_pos_iff.mp hpos
    have hmade := Stmt.exec_made h hv
    cases v with
    | insertMessage m =>
      obtain ⟨hin, hk⟩ := of_decide_eq_true hclaim
      rcases hmade with ⟨_, _, _, k', rfl, hk', -, -⟩ | ⟨_, _, _, -, -, -, hout⟩ |
        ⟨_, _, _, -, -, -, hout⟩
      · obtain rfl := Option.some.inj (hk.symm.trans hk')
        simp only [Stmt.exec] at h
        split at h
        · obtain ⟨-, rfl⟩ := Prod.mk.inj (Option.some.inj h)
          cases hv
        · rename_i hnone
          split at h
          · obtain ⟨-, rfl⟩ := Prod.mk.inj (Option.some.inj h)
            refine ⟨List.countP_eq_zero.mpr fun x hx hxk => hnone ?_, ?_⟩
            · exact List.any_eq_true.mpr ⟨x, hx, decide_eq_true (of_decide_eq_true hxk).2⟩
            · simp [isClaimOf, isArrival]
          · cases h
      · cases hin.symm.trans hout
      · cases hin.symm.trans hout
    | _ => cases hclaim
  · exact .inl (Nat.eq_zero_of_not_pos hpos)

theorem holds_claim (h : tx.countP (isClaimOf k) ≠ 0) : Tx.holds tx (.waMessageId k) = true := by
  obtain ⟨v, hv, hclaim⟩ := List.countP_pos_iff.mp (Nat.pos_of_ne_zero h)
  refine holds_of_mem hv ?_
  cases v with
  | insertMessage m => simp [Write.locks, (of_decide_eq_true hclaim).2]
  | _ => cases hclaim

/-- The commit of the message's claim. -/
def isClaimCommit (k : String) : Event botSig World Tx Task → Bool
  | .op _ _ tx .commit _ _ => 0 < tx.countP (isClaimOf k)
  | _ => false

/-- What holds of the committed rows. -/
structure Arrived (w : World) (h : History) : Prop where
  below : ∀ m ∈ w.db.messages, m.id < w.seq
  once : ∀ k, arrivals k w.db ≤ 1
  committed : ∀ k, h.countP (isClaimCommit k) ≤ arrivals k w.db

/-- What a process sees: no message twice, and only the bot's rows under what it confirms. -/
structure Desk.Sees (a : Desk) (w : World) (tx : Tx) : Prop where
  below : ∀ m ∈ (w.db.applyAll tx).messages, m.id < w.seq
  ours : ∀ n, Confirms tx n ∨ a.reserved = some n → n < w.seq ∧ IsOurs (w.db.applyAll tx) n
  once : ∀ k, arrivals k (w.db.applyAll tx) ≤ 1

namespace Desk.Sees

variable {a b : Desk} {w w' : World} {h : History}

theorem clear (hI : Arrived w h) : Desk.clear.Sees w [] :=
  ⟨hI.below, fun n hn => (by rcases hn with ⟨_, _, hn⟩ | hn <;> cases hn), hI.once⟩

theorem count (hf : a.Sees w tx) (k : String) :
    arrivals k (w.db.applyAll tx) = arrivals k w.db + tx.countP (isClaimOf k) :=
  arrivals_applyAll fun n hn => (hf.ours n (.inl hn)).2

theorem mono (hf : a.Sees w tx) (hdb : w'.db = w.db) (hseq : w.seq ≤ w'.seq) : a.Sees w' tx := by
  refine ⟨fun m hm => ?_, fun n hn => ?_, fun k => ?_⟩
  · rw [hdb] at hm
    exact Nat.lt_of_lt_of_le (hf.below m hm) hseq
  · rw [hdb]
    exact ⟨Nat.lt_of_lt_of_le (hf.ours n hn).1 hseq, (hf.ours n hn).2⟩
  · rw [hdb]
    exact hf.once k

/-- The row reserved last is the bot's. -/
theorem reserved_after (hf : a.Sees w tx)
    (hexec : s.exec now w.seq locked (w.db.applyAll tx) = some (r, ws)) {n : Nat}
    (hn : (a.answered s r).reserved = some n) :
    n < w.seq + 1 ∧ IsOurs ((w.db.applyAll tx).applyAll ws) n := by
  have hold : a.reserved = some n → n < w.seq + 1 ∧ IsOurs ((w.db.applyAll tx).applyAll ws) n :=
    fun hn =>
      have ⟨hlt, hours⟩ := hf.ours n (.inr hn)
      ⟨Nat.lt_succ_of_lt hlt, hours.exec hlt hexec⟩
  cases s with
  | reserveReply c key content type =>
    rcases Stmt.exec_reserve hexec with ⟨rfl, -, -⟩ | ⟨rfl, -, m, rfl, -, hid, hout⟩
    · exact hold hn
    · obtain rfl := Option.some.inj hn
      refine ⟨Nat.lt_succ_self _, fun x hx hxid => ?_⟩
      rcases Db.mem_messages_applyAll.mp hx with ⟨y, hy, rfl⟩ | hx
      · have hlt := hf.below y hy
        rw [Tx.revise_id] at hxid
        omega
      · obtain rfl := List.mem_singleton.mp hx
        exact hout
  | confirmReply => cases hn
  | _ => exact hold hn

/-- A statement of the process itself. -/
theorem statement (hf : a.Sees w tx) (hok : deskMonitor.ok a (.sql s))
    (hexec : s.exec now w.seq locked (w.db.applyAll tx) = some (r, ws)) (hdb : w'.db = w.db)
    (hseq : w'.seq = w.seq + 1) : (a.answered s r).Sees w' (tx ++ ws) := by
  have hconfirms : ∀ n, Confirms ws n → n < w.seq ∧ IsOurs (w.db.applyAll tx) n := by
    rintro n ⟨wa, status, hmem⟩
    obtain rfl : s = .confirmReply n wa status := Stmt.exec_made hexec hmem
    exact hf.ours n (.inr hok.1)
  refine ⟨fun m hm => ?_, fun n hn => ?_, fun k => ?_⟩
  · rw [hdb, Db.applyAll_append] at hm
    rw [hseq]
    rcases Db.mem_messages_applyAll.mp hm with ⟨x, hx, rfl⟩ | hm
    · rw [Tx.revise_id]
      exact Nat.lt_succ_of_lt (hf.below x hx)
    · obtain ⟨x, hx, hid⟩ := Tx.inserted_source hm
      have hnew := Stmt.exec_insert_id hexec hx
      omega
  · rw [hdb, hseq, Db.applyAll_append]
    rcases hn with ⟨wa, status, hmem⟩ | hn
    · have hseen : n < w.seq ∧ IsOurs (w.db.applyAll tx) n := by
        rcases List.mem_append.mp hmem with hmem | hmem
        · exact hf.ours n (.inl ⟨wa, status, hmem⟩)
        · exact hconfirms n ⟨wa, status, hmem⟩
      exact ⟨Nat.lt_succ_of_lt hseen.1, hseen.2.exec hseen.1 hexec⟩
    · exact hf.reserved_after hexec hn
  · rw [hdb, Db.applyAll_append, arrivals_applyAll fun n hn =>
      (hconfirms n hn).2.exec (hconfirms n hn).1 hexec]
    have honce := hf.once k
    rcases exec_claim (k := k) hexec with hnone | ⟨hzero, hone⟩ <;> omega

/-- The commit of another process. -/
theorem commit (hf : a.Sees w mine) (ht : b.Sees w theirs)
    (hlocks : ∀ l, Tx.holds mine l = true → Tx.holds theirs l = false)
    (hrows : ∀ n, Confirms mine n ∨ a.reserved = some n → theirs.enters n = false)
    (hdb : w'.db = w.db.applyAll theirs) (hseq : w'.seq = w.seq) : a.Sees w' mine := by
  have hours : ∀ n, Confirms mine n ∨ a.reserved = some n →
      n < w'.seq ∧ IsOurs (w'.db.applyAll mine) n := fun n hn => by
    rw [hdb, hseq]
    exact ⟨(hf.ours n hn).1, (hf.ours n hn).2.after (hrows n hn)⟩
  refine ⟨fun m hm => ?_, hours, fun k => ?_⟩
  · rw [hdb] at hm
    rw [hseq]
    rcases Db.mem_messages_applyAll.mp hm with ⟨x, hx, rfl⟩ | hm
    · rw [Tx.revise_id]
      exact ht.below x hx
    · exact hf.below m (Db.mem_messages_applyAll.mpr (.inr hm))
  · rw [arrivals_applyAll fun n hn => (hours n (.inl hn)).2, hdb, ht.count]
    have hmine := hf.once k
    have htheirs := ht.once k
    rw [hf.count] at hmine
    rw [ht.count] at htheirs
    -- the message is not claimed by both
    by_cases hzero : mine.countP (isClaimOf k) = 0
    · omega
    · have hfree : theirs.countP (isClaimOf k) = 0 := by
        by_contra hne
        have hheld := hlocks _ (holds_claim hzero)
        rw [holds_claim hne] at hheld
        cases hheld
      omega

/-- A commit of its own: what it saw is what there is. -/
theorem committed (hf : a.Sees w tx) (hdb : w'.db = w.db.applyAll tx) (hseq : w'.seq = w.seq) :
    ({ a with created := none, reports := [] } : Desk).Sees w' [] := by
  refine ⟨fun m hm => ?_, fun n hn => ?_, fun k => ?_⟩
  · rw [hseq]
    exact hf.below m (hdb ▸ hm)
  · rcases hn with ⟨_, _, hn⟩ | hn
    · cases hn
    · rw [hseq]
      exact ⟨(hf.ours n (.inr hn)).1, fun m hm => (hf.ours n (.inr hn)).2 m (hdb ▸ hm)⟩
  · change arrivals k w'.db ≤ 1
    rw [hdb]
    exact hf.once k

end Desk.Sees

theorem Arrived.same {w w' : World} {h h' : History} (hI : Arrived w h) (hdb : w'.db = w.db)
    (hseq : w.seq ≤ w'.seq) (hh : ∀ k, h'.countP (isClaimCommit k) = h.countP (isClaimCommit k)) :
    Arrived w' h' := by
  refine ⟨fun m hm => Nat.lt_of_lt_of_le (hI.below m (hdb ▸ hm)) hseq, fun k => ?_, fun k => ?_⟩
  · rw [hdb]
    exact hI.once k
  · rw [hdb, hh]
    exact hI.committed k

theorem arrivals_rely (cfg : Config) (t₀ : Time) : Rely (sem cfg) anyStep (World.empty t₀)
    (fun _ => True) (fun _ => deskMonitor) .clear Arrived (fun _ a w _ tx => a.Sees w tx) where
  program l _ := (desk_accepts cfg).program l
  may _ := trivial
  start := ⟨List.forall_mem_nil _, fun _ => Nat.zero_le _, fun _ => Nat.zero_le _⟩
  fresh hI _ := .clear hI
  quiet {e w h} he hI := by
    refine ⟨hI.same rfl (Nat.le_refl _) fun k => ?_, fun _ _ _ hf => hf⟩
    cases e with
    | op => cases he
    | _ => rfl
  op {s i p o rest r w tx} := by
    intro hr hI hF hp _ hok hstep _
    have hself : Desk.Sees _ _ p.held := hF i p hp trivial
    have hok := hok trivial
    change step cfg _ _ _ o r = _ at hstep
    cases o with
    | sql stmt =>
      obtain ⟨ws, hexec, -, hdb, hseq, rfl⟩ := step_sql hstep
      exact ⟨hI.same hdb (by omega) fun _ => rfl, fun _ => hself.statement hok hexec hdb hseq,
        fun j q _ hq _ => (hF j q hq trivial).mono hdb (by omega)⟩
    | commit =>
      obtain ⟨hdb, hseq, rfl⟩ := step_commit hstep
      have hdone := hself.committed hdb hseq
      refine ⟨⟨hdone.below, hdone.once, fun k => ?_⟩, fun _ => hdone, fun j q hij hq _ => ?_⟩
      · rw [countP_cons_toNat, hdb, hself.count]
        exact Nat.add_le_add (hI.committed k) (toNat_pos_le _)
      · refine (hF j q hq trivial).commit hself (fun l hl => ?_) (fun n hn => ?_) hdb hseq
        · exact Bool.eq_false_iff.mpr fun hheld => hij (lock_exclusive hr.any hq hp hl hheld)
        · rcases hn with hn | hn
          · exact (enters_exclusive hr.any hq hp hij hn.enters).1
          · exact Bool.eq_false_iff.mpr fun henters =>
              (enters_exclusive hr.any hp hq (Ne.symm hij) henters).2 hn
    | rollback =>
      obtain ⟨rfl, rfl⟩ := step_rollback hstep
      exact ⟨hI.same rfl (Nat.le_refl _) fun _ => rfl, fun _ => .clear hI,
        fun j q _ hq _ => hF j q hq trivial⟩
    | raise => cases r
    | _ =>
      obtain ⟨hdb, hseq, rfl⟩ := step_quiet rfl hstep
      have hle := Nat.le_of_eq hseq.symm
      exact ⟨hI.same hdb hle fun _ => rfl, fun _ => hself.mono hdb hle,
        fun j q _ hq _ => (hF j q hq trivial).mono hdb hle⟩

/-! ## The questions -/

/-- The errand process `i` is on. -/
def onErrand (i : Nat) (h : History) : Errand := track errandMonitor .idle i h

/-- The model is asked about the message `k`. -/
def isAsk (k : String) (a : Errand) : Op → Bool
  | .generateReply _ _ => a = .fresh k
  | _ => false

/-- How often the model was asked about the message. -/
def asks (k : String) : History → Nat
  | [] => 0
  | .op i _ _ o _ _ :: h => asks k h + (isAsk k (onErrand i h) o).toNat
  | _ :: h => asks k h

/-- A completion is stored for the message. -/
def isStored (k : String) : Event botSig World Tx Task → Bool
  | .op _ _ _ (.storeGeneration key _) _ _ => key = k
  | _ => false

def Errand.isFresh (k : String) (a : Errand) : Bool := a = .fresh k

section

variable {cfg : Config} {t₀ : Time} {s : Sys botSig World Tx Task} {i : Nat} {l : Task}
  {tx tx' : Tx} {w w' : World} {p : Proc botSig Tx Task} {others : List Tx} {a : Errand} {o : Op}

/-- A claim that waits for its commit is among the writes of its transaction. -/
theorem claim_step {r : o.Resp} (h : step cfg others w tx o r = some (w', tx'))
    (ha : a = .claimed k → 0 < tx.countP (isClaimOf k)) :
    errandMonitor.next a o r = .claimed k → 0 < tx'.countP (isClaimOf k) := by
  intro hnext
  cases o with
  | sql stmt =>
    obtain ⟨ws, hexec, -, -, -, rfl⟩ := step_sql h
    rw [List.countP_append]
    cases stmt with
    | claimInbound c key type content mediaId =>
      cases r with
      | none => cases hnext
      | some id =>
        obtain rfl : key = k := Errand.claimed.inj hnext
        simp only [Stmt.exec] at hexec
        split at hexec
        · cases (Prod.mk.inj (Option.some.inj hexec)).1
        · split at hexec
          · obtain ⟨-, rfl⟩ := Prod.mk.inj (Option.some.inj hexec)
            simp [isClaimOf, isArrival]
          · cases hexec
    | _ => exact Nat.add_pos_left (ha hnext) _
  | commit | rollback => cases a <;> cases hnext
  | generateReply =>
    obtain ⟨-, -, rfl⟩ := step_quiet rfl h
    cases a with
    | claimed => exact ha hnext
    | _ => cases hnext
  | raise => cases r
  | _ =>
    obtain ⟨-, -, rfl⟩ := step_quiet rfl h
    exact ha hnext

theorem claim_held (h : Reach (sem cfg) anyStep (World.empty t₀) s) (hp : s.proc i = some p)
    (ha : onErrand i s.hist = .claimed k) : 0 < p.held.countP (isClaimOf k) :=
  (h.keeps (I := fun _ (a : Errand) tx => a = .claimed k → 0 < List.countP (isClaimOf k) tx)
    (program_only cfg) (fun _ h => (by cases h)) (fun hs _ ha => claim_step hs ha) hp).1 ha

theorem next_asked {r : o.Resp} (h : errandMonitor.next a o r = .asked k) :
    a = .asked k ∨ isAsk k a o = true := by
  cases o with
  | sql stmt =>
    cases stmt with
    | claimInbound => cases r <;> cases h
    | _ => exact .inl h
  | commit | rollback =>
    cases a with
    | asked => exact .inl h
    | _ => cases h
  | generateReply =>
    cases a with
    | asked => exact .inl h
    | fresh key => exact .inr (decide_eq_true (congrArg _ (Errand.asked.inj h)))
    | _ => cases h
  | raise => cases r
  | _ => exact .inl h

/-- One operation: a question uses up its process's claim, and a process gets one by committing. -/
theorem ask_op {r : o.Resp} (ha : a = .claimed k → 0 < tx.countP (isClaimOf k)) :
    (isAsk k a o).toNat + ((errandMonitor.next a o r).isFresh k).toNat ≤
      (a.isFresh k).toNat + (isClaimCommit k (.op i l tx o r w)).toNat := by
  have hsame : 0 + (a.isFresh k).toNat ≤ (a.isFresh k).toNat + 0 := Nat.le_of_eq (Nat.zero_add _)
  cases o with
  | sql stmt =>
    cases stmt with
    | claimInbound => cases r <;> exact Nat.zero_le _
    | _ => exact hsame
  | commit =>
    cases a with
    | claimed key =>
      dsimp only [errandMonitor, Errand.committed, Errand.isFresh, isClaimCommit]
      by_cases hk : key = k
      · subst hk
        rw [decide_eq_true (ha rfl), decide_eq_true rfl]
        exact Nat.le_add_left _ _
      · rw [decide_eq_false fun h => hk (Errand.fresh.inj h)]
        exact Nat.zero_le _
    | _ => exact Nat.le_trans hsame (Nat.le_add_right _ _)
  | rollback =>
    cases a with
    | claimed => exact Nat.zero_le _
    | _ => exact hsame
  | generateReply =>
    cases a with
    | fresh key => exact Nat.le_refl _
    | _ => exact hsame
  | raise => cases r
  | _ => exact hsame

/-- The questions asked about a message and those still to come are no more than its committed
claims. -/
theorem completions_le (h : Reach (sem cfg) anyStep (World.empty t₀) s) (k : String) :
    asks k s.hist + s.headcount errandMonitor .idle (Errand.isFresh k) ≤
      s.hist.countP (isClaimCommit k) := by
  induction h with
  | start => rfl
  | @step s s' e hr hs hc ih =>
    cases hs with
    | spawn l =>
      rw [Sys.headcount_add]
      exact ih
    | @op i p o f r w tx hp hrest hstep =>
      have hop := ask_op (a := track errandMonitor .idle i s.hist) (i := i) (l := p.label) (w := w)
        (r := r) fun ha => claim_held (k := k) hr hp ha
      have hcount :=
        Sys.headcount_op errandMonitor .idle (Errand.isFresh k) hp ⟨p.label, tx, f r⟩ r w
      change asks k s.hist + (isAsk k (track errandMonitor .idle i s.hist) o).toNat + _ ≤
        (Event.op i p.label p.held o r w :: s.hist).countP _
      rw [countP_cons_toNat]
      omega
    | finish hp _ | cut hp =>
      exact Nat.le_trans (Nat.add_le_add_left (Sys.headcount_leave hp fun _ => rfl) _) ih

theorem claims_le_one (h : Reach (sem cfg) anyStep (World.empty t₀) s) (k : String) :
    s.hist.countP (isClaimCommit k) ≤ 1 :=
  have ⟨hI, _⟩ := h.rely (arrivals_rely cfg t₀)
  Nat.le_trans (hI.committed k) (hI.once k)

/-- A process that may still ask: nobody has asked, and the customer's message is a row. -/
theorem fresh_errand (h : Reach (sem cfg) anyStep (World.empty t₀) s) (hp : s.proc i = some p)
    (ha : onErrand i s.hist = .fresh k) :
    asks k s.hist = 0 ∧
      ∃ m ∈ s.shared.db.messages, m.direction = .inbound ∧ m.waMessageId = some k := by
  have hcounted : 0 < s.headcount errandMonitor .idle (Errand.isFresh k) := by
    refine List.countP_pos_iff.mpr ⟨i, List.mem_range.mpr (Sys.lt_of_proc hp), ?_⟩
    rw [Sys.has, hp, show track errandMonitor .idle i s.hist = .fresh k from ha]
    exact decide_eq_true rfl
  have hle := completions_le h k
  have hone := claims_le_one h k
  have hcommitted := (h.rely (arrivals_rely cfg t₀)).1.committed k
  refine ⟨by omega, ?_⟩
  obtain ⟨m, hm, hrow⟩ := List.countP_pos_iff.mp (show 0 < arrivals k s.shared.db by omega)
  exact ⟨m, hm, of_decide_eq_true hrow⟩

theorem asks_cons (k : String) (e : Event botSig World Tx Task) (h : History) :
    asks k h ≤ asks k (e :: h) := by
  cases e with
  | op => exact Nat.le_add_right _ _
  | _ => exact Nat.le_refl _

/-- A process that has asked is in the count. -/
theorem asked_errand (h : Reach (sem cfg) anyStep (World.empty t₀) s) (hp : s.proc i = some p)
    (ha : onErrand i s.hist = .asked k) : 0 < asks k s.hist := by
  suffices hcounted : track errandMonitor .idle i s.hist = .asked k → 0 < asks k s.hist from
    hcounted ha
  refine h.traced (fun _ => True) (Φ := fun _ a h => a = Errand.asked k → 0 < asks k h)
    (fun _ _ h => (by cases h)) ?_ ?_ hp trivial
  · exact fun _ hask ha => Nat.lt_of_lt_of_le (hask ha) (asks_cons k _ _)
  · intro s i p o f r w tx _ _ _ _ _ hask hnext
    change 0 < asks k s.hist + (isAsk k (onErrand i s.hist) o).toNat
    rcases next_asked hnext with ha | hasked
    · exact Nat.add_pos_left (hask ha) _
    · rw [show isAsk k (onErrand i s.hist) o = true from hasked]
      exact Nat.succ_pos _

/-- A completion is stored after the question. -/
theorem stored_asked (h : Reach (sem cfg) anyStep (World.empty t₀) s)
    {e : Event botSig World Tx Task} (he : e ∈ s.hist) (hstored : isStored k e = true) :
    0 < asks k s.hist := by
  induction h with
  | start => cases he
  | @step s s' e' hr hs hc ih =>
    rw [hs.hist_eq] at he ⊢
    refine (List.mem_cons.mp he).elim (fun hnow => ?_) fun hbefore =>
      Nat.lt_of_lt_of_le (ih hbefore) (asks_cons k _ _)
    subst hnow
    cases hs with
    | @op i p o f r w tx hp hrest hstep =>
      cases o with
      | storeGeneration key g =>
        obtain rfl : key = k := of_decide_eq_true hstored
        have hok := hr.ok (errand_discipline cfg) hp hrest
        exact Nat.lt_of_lt_of_le (asked_errand hr hp hok) (asks_cons key _ _)
      | _ => cases hstored
    | _ => cases hstored

end

/-- A worker dies with the completion stored, and a second one gets the redelivery. -/
def askedAndCut : List Sample.Action :=
  let task : Task := .webhook (Sample.delivery [Sample.textMessage "20100" "wamid.1" "you ship?"])
  [.spawn task] ++ Sample.steps 0 22 Sample.accepted ++ [.cut 0, .spawn task] ++
    Sample.steps 1 4 Sample.accepted ++ [.finish 1]

end Webhook
