import WhatsAppBot.Lib.Rely
import WhatsAppBot.Webhook.Proof.Desk
import WhatsAppBot.Webhook.Proof.Locks
import WhatsAppBot.Webhook.Sample

/-!
# Delivery statuses over a whole run

`update_status_by_wa_id` writes whatever status arrives to the rows that carry the id at that moment.
`status_forward`: in a run in which no status finds a row that stands higher, and none above `sent`
comes before its row has its id, an outbound row stands at every status that was reported for it,
whatever was open at the same time. `status_moves_back` is a run with a `sent` that comes late.
-/

set_option autoImplicit false

namespace Webhook

open Lib Store Bot Chat

/-- The statuses whose update has been committed, newest first. -/
def reported : History → List Report
  | [] => []
  | .op i _ _ .commit _ _ :: h => (track deskMonitor .clear i h).reports ++ reported h
  | _ :: h => reported h

/-- A status update comes in order, in what its transaction sees. -/
def ArrivesInOrder (s : Sys botSig World Tx Task) : Event botSig World Tx Task → Prop
  | .op _ _ held (.sql (.updateStatusByWaId k status)) _ _ =>
    (s.shared.db.applyAll held).InOrder k status
  | _ => True

/-- The status update, and what its transaction holds. -/
def updating : Event botSig World Tx Task → Option (Tx × String × String)
  | .op _ _ held (.sql (.updateStatusByWaId k status)) _ _ => some (held, k, status)
  | _ => none

theorem arrivesInOrder_iff (s : Sys botSig World Tx Task) (e : Event botSig World Tx Task) :
    ArrivesInOrder s e ↔ ∀ x ∈ updating e, (s.shared.db.applyAll x.1).InOrder x.2.1 x.2.2 := by
  unfold ArrivesInOrder updating
  split <;> simp

instance (s : Sys botSig World Tx Task) (e : Event botSig World Tx Task) :
    Decidable (ArrivesInOrder s e) :=
  decidable_of_iff' _ (arrivesInOrder_iff s e)

/-- What a process can rely on. -/
structure Desk.Fits (a : Desk) (w : World) (h : History) (tx : Tx) : Prop where
  posting : Posting w.db w.seq a.reports (reported h) tx
  reserved : ∀ n, a.reserved = some n → (w.db.applyAll tx).Unposted n
  created : ∀ n, a.created = some n → (w.db.applyAll tx).HasMessage n

namespace Desk.Fits

variable {cfg : Config} {a : Desk} {w w' : World} {h : History} {tx : Tx} {ws : List Write} {s : Stmt}
  {r : s.Resp} {locked : Nat → Bool} {now : Time}

theorem clear (hI : Tracked w.db w.seq (reported h)) : Desk.clear.Fits w h [] :=
  ⟨.start hI, nofun, nofun⟩

theorem apt (hf : a.Fits w h tx) (hok : deskMonitor.ok a (.sql s))
    (hin : ∀ k status, s = .updateStatusByWaId k status → (w.db.applyAll tx).InOrder k status) :
    s.Apt (w.db.applyAll tx) := by
  cases s with
  | confirmReply id wa status => exact ⟨hf.reserved id hok.1, hok.2⟩
  | create => exact hok
  | setOperator id _ => exact hf.created id hok
  | updateStatusByWaId k status => exact hin k status rfl
  | _ => trivial

/-- The row reserved last. -/
theorem reserved_after (hf : a.Fits w h tx)
    (hexec : s.exec now w.seq locked (w.db.applyAll tx) = some (r, ws)) {n : Nat}
    (hn : (a.answered s r).reserved = some n) : ((w.db.applyAll tx).applyAll ws).Unposted n := by
  have hold : a.reserved = some n → (∀ id wa status, s ≠ .confirmReply id wa status) →
      ((w.db.applyAll tx).applyAll ws).Unposted n := by
    intro hn hs
    have hseen := hf.reserved n hn
    refine hseen.applyAll (Bool.eq_false_iff.mpr fun henters => ?_)
    rcases Stmt.exec_enters hexec henters with rfl | ⟨wa, status, rfl⟩
    · obtain ⟨m, hm, hid, -⟩ := hseen
      have hlt := hf.posting.tracked.below m hm
      omega
    · exact hs _ _ _ rfl
  cases s with
  | reserveReply c key content type =>
    cases r with
    | none => exact hold hn nofun
    | some id =>
      obtain rfl := Option.some.inj hn
      exact (Stmt.exec_reserve_unposted hexec).2
  | confirmReply => cases hn
  | _ => exact hold hn nofun

/-- The row created last. -/
theorem created_after (hf : a.Fits w h tx)
    (hexec : s.exec now w.seq locked (w.db.applyAll tx) = some (r, ws)) {n : Nat}
    (hn : (a.answered s r).created = some n) : ((w.db.applyAll tx).applyAll ws).HasMessage n := by
  cases s with
  | create c content wa status =>
    obtain rfl := Option.some.inj hn
    exact Stmt.exec_create_seen hexec
  | _ => exact (hf.created n hn).applyAll ws

/-- A statement of the process itself. -/
theorem statement {h' : History} (hf : a.Fits w h tx) (hok : deskMonitor.ok a (.sql s))
    (hin : ∀ k status, s = .updateStatusByWaId k status → (w.db.applyAll tx).InOrder k status)
    (hexec : s.exec now w.seq locked (w.db.applyAll tx) = some (r, ws))
    (hdb : w'.db = w.db) (hseq : w'.seq = w.seq + 1) (hh : reported h' = reported h) :
    (a.answered s r).Fits w' h' (tx ++ ws) := by
  refine ⟨?_, fun n hn => ?_, fun n hn => ?_⟩
  · rw [hdb, hseq, hh, Desk.answered_reports]
    exact hf.posting.trans (Stmt.posting hf.posting.tracked hexec (hf.apt hok hin))
  · rw [hdb, Db.applyAll_append]
    exact hf.reserved_after hexec hn
  · rw [hdb, Db.applyAll_append]
    exact hf.created_after hexec hn

/-- A statement of another process. -/
theorem mono {h' : History} (hf : a.Fits w h tx) (hdb : w'.db = w.db) (hseq : w.seq ≤ w'.seq)
    (hh : reported h' = reported h) : a.Fits w' h' tx := by
  refine ⟨?_, fun n hn => ?_, fun n hn => ?_⟩
  · rw [hdb, hh]
    exact hf.posting.mono hseq
  · rw [hdb]
    exact hf.reserved n hn
  · rw [hdb]
    exact hf.created n hn

/-- The commit of another process. -/
theorem commit {b : Desk} {theirs : Tx} {h' : History} (hf : a.Fits w h tx) (ht : b.Fits w h theirs)
    (hI : Tracked w.db w.seq (reported h)) (hlocks : ∀ l, Tx.holds tx l = true → Tx.holds theirs l = false)
    (hrows : ∀ n, tx.enters n = true → theirs.enters n = false)
    (hreserved : ∀ n, a.reserved = some n → theirs.enters n = false)
    (hdb : w'.db = w.db.applyAll theirs) (hseq : w'.seq = w.seq)
    (hh : reported h' = b.reports ++ reported h) : a.Fits w' h' tx := by
  have hapart := hf.posting.apart ht.posting hlocks hrows
  refine ⟨?_, fun n hn => ?_, fun n hn => ?_⟩
  · rw [hdb, hseq, hh]
    exact hf.posting.after ht.posting hapart hI
  · rw [hdb]
    exact hapart.unposted_after (hf.reserved n hn) (hreserved n hn)
  · rw [hdb]
    exact Apart.id_after (hf.created n hn)

/-- A commit of its own: what it saw is what there is. -/
theorem committed {h' : History} (hf : a.Fits w h tx) (hI : Tracked w'.db w'.seq (reported h'))
    (hdb : w'.db = w.db.applyAll tx) :
    ({ a with created := none, reports := [] } : Desk).Fits w' h' [] :=
  ⟨.start hI, fun n hn => by rw [hdb]; exact hf.reserved n hn, nofun⟩

end Desk.Fits

/-! ## Every run -/

theorem forward_rely (cfg : Config) (clock : Time) : Rely (sem cfg) ArrivesInOrder (World.empty clock)
    (fun _ => True) (fun _ => deskMonitor) .clear (fun w h => Tracked w.db w.seq (reported h))
    (fun _ a w h tx => a.Fits w h tx) where
  program l _ := (desk_accepts cfg).program l
  may _ := trivial
  start := ⟨List.nodup_nil, nofun, nofun, nofun, nofun, nofun⟩
  fresh hI _ := .clear hI
  quiet {e w h} he hI := by
    have hsame : reported (e :: h) = reported h := by
      cases e with
      | op => cases he
      | _ => rfl
    exact ⟨hsame.symm ▸ hI, fun _ _ _ hf =>
      ⟨hsame.symm ▸ hf.posting, hf.reserved, hf.created⟩⟩
  op {s i p o rest r w tx} := by
    intro hr hI hF hp _ hok hstep hC
    have hself : Desk.Fits _ _ _ p.held := hF i p hp trivial
    have hok := hok trivial
    change step cfg _ _ _ o r = _ at hstep
    cases o with
    | sql stmt =>
      obtain ⟨ws, hexec, -, hdb, hseq, rfl⟩ := step_sql hstep
      refine ⟨?_, fun _ => ?_, fun j q _ hq _ => ?_⟩
      · change Tracked w.db w.seq (reported s.hist)
        rw [hdb, hseq]
        exact hI.mono (Nat.le_succ _)
      · refine hself.statement hok (fun k status hs => ?_) hexec hdb hseq rfl
        subst hs
        exact hC
      · exact (hF j q hq trivial).mono hdb (by omega) rfl
    | commit =>
      obtain ⟨hdb, hseq, rfl⟩ := step_commit hstep
      have hI' : Tracked w.db w.seq (reported (.op i p.label p.held .commit r w :: s.hist)) := by
        rw [hdb, hseq]
        exact hself.posting.tracked
      refine ⟨hI', fun _ => hself.committed hI' hdb, fun j q hij hq _ => ?_⟩
      refine (hF j q hq trivial).commit hself hI (fun l hl => ?_) (fun n hn => ?_) (fun n hn => ?_) hdb
        hseq rfl
      · exact Bool.eq_false_iff.mpr fun hheld => hij (lock_exclusive hr.any hq hp hl hheld)
      · exact (enters_exclusive hr.any hq hp hij hn).1
      · exact Bool.eq_false_iff.mpr fun henters =>
          (enters_exclusive hr.any hp hq (Ne.symm hij) henters).2 hn
    | rollback =>
      obtain ⟨rfl, rfl⟩ := step_rollback hstep
      exact ⟨hI, fun _ => .clear hI, fun j q _ hq _ =>
        (hF j q hq trivial).mono rfl (Nat.le_refl _) rfl⟩
    | raise => cases r
    | _ =>
      obtain ⟨hdb, hseq, rfl⟩ := step_quiet rfl hstep
      have hle := Nat.le_of_eq hseq.symm
      refine ⟨?_, fun _ => hself.mono hdb hle rfl, fun j q _ hq _ =>
        (hF j q hq trivial).mono hdb hle rfl⟩
      change Tracked w.db w.seq (reported s.hist)
      rw [hdb, hseq]
      exact hI

variable {cfg : Config} {clock : Time} {s s' : Sys botSig World Tx Task} {e : Event botSig World Tx Task}

/-- A row that has its provider's id keeps it, and its status is not lowered. -/
theorem step_forward (h : Reach (sem cfg) ArrivesInOrder (World.empty clock) s)
    (hs : Step (sem cfg) s e s') {m : Message} {k : String} (hm : m ∈ s.shared.db.messages)
    (hk : m.waMessageId = some k) :
    ∃ n ∈ s'.shared.db.messages, n.id = m.id ∧ n.waMessageId = some k ∧ m.rank ≤ n.rank := by
  obtain ⟨-, hF⟩ := h.rely (forward_rely cfg clock)
  cases hs with
  | @op i p o rest r w tx hp _ hstep =>
    change step cfg _ _ _ o r = _ at hstep
    cases o with
    | sql stmt =>
      obtain ⟨ws, -, -, hdb, -, -⟩ := step_sql hstep
      exact ⟨m, by rw [← hdb] at hm; exact hm, rfl, hk, Nat.le_refl _⟩
    | commit =>
      obtain ⟨hdb, -, -⟩ := step_commit hstep
      have hf : Desk.Fits _ _ _ p.held := hF i p hp trivial
      obtain ⟨hk', hle⟩ := hf.posting.keeps m hm k hk
      refine ⟨Tx.revise p.held m, ?_, Tx.revise_id _ m, hk', hle⟩
      change _ ∈ w.db.messages
      rw [hdb]
      exact Db.mem_messages_applyAll.mpr (.inl ⟨m, hm, rfl⟩)
    | rollback =>
      obtain ⟨rfl, -⟩ := step_rollback hstep
      exact ⟨m, hm, rfl, hk, Nat.le_refl _⟩
    | raise => cases r
    | _ =>
      obtain ⟨hdb, -, -⟩ := step_quiet rfl hstep
      exact ⟨m, by rw [← hdb] at hm; exact hm, rfl, hk, Nat.le_refl _⟩
  | _ => exact ⟨m, hm, rfl, hk, Nat.le_refl _⟩

/-- **Statuses only move forward** where they arrive in order: an outbound row stands at least at
every status received for it, no status above `sent` was for a row that is not there, and no step
lowers a row that has its id. -/
theorem status_forward (h : Reach (sem cfg) ArrivesInOrder (World.empty clock) s) :
    (∀ r ∈ reported s.hist, ∀ m ∈ s.shared.db.messages, m.waMessageId = some r.waMessageId →
      m.direction = .outbound → rankOf r.status ≤ m.rank) ∧
    (∀ r ∈ reported s.hist, 1 < rankOf r.status →
      ∃ m ∈ s.shared.db.messages, m.waMessageId = some r.waMessageId) ∧
    ∀ e s', Step (sem cfg) s e s' → ∀ m ∈ s.shared.db.messages, ∀ k, m.waMessageId = some k →
      ∃ n ∈ s'.shared.db.messages, n.id = m.id ∧ n.waMessageId = some k ∧ m.rank ≤ n.rank := by
  obtain ⟨hI, -⟩ := h.rely (forward_rely cfg clock)
  exact ⟨hI.reported, hI.kept, fun e s' hs m hm k hk => step_forward h hs hm hk⟩

/-- One worker answers a greeting; then a second one is told these statuses of the answer. -/
def told (statuses : List String) : List Sample.Action :=
  [.spawn (.webhook (Sample.delivery [Sample.textMessage "20100" "wamid.1" "hello"])),
    .spawn (.webhook (Sample.statusDelivery "out" statuses))] ++
    Sample.steps 0 29 Sample.accepted ++ [.finish 0] ++
    Sample.steps 1 (2 * statuses.length) Sample.accepted ++ [.finish 1]

theorem status_forward_told : ∃ s : Sys botSig World Tx Task,
    ⟨"out", "read"⟩ ∈ reported s.hist ∧
    (∃ m ∈ s.shared.db.messages, m.waMessageId = some "out" ∧ m.direction = .outbound) ∧
    ∀ m ∈ s.shared.db.messages, m.waMessageId = some "out" → m.direction = .outbound → 3 ≤ m.rank := by
  obtain ⟨s, hs, hrun⟩ := Reach.exists_of_run (M := sem Sample.config) (C := ArrivesInOrder)
    (w := World.empty 0) (told ["sent", "delivered", "read"])
    (fun s => ⟨"out", "read"⟩ ∈ reported s.hist ∧
      ∃ m ∈ s.shared.db.messages, m.waMessageId = some "out" ∧ m.direction = .outbound) (by decide)
  obtain ⟨hread, hrow⟩ := of_decide_eq_true hrun
  exact ⟨s, hread, hrow, (status_forward hs).1 _ hread⟩

/-- A `sent` that is overtaken by `delivered` takes the row back. -/
theorem status_moves_back : ¬ ∀ cfg clock s, Reach (sem cfg) anyStep (World.empty clock) s →
    ∀ r ∈ reported s.hist, ∀ m ∈ s.shared.db.messages, m.waMessageId = some r.waMessageId →
      m.direction = .outbound → rankOf r.status ≤ m.rank := by
  intro h
  obtain ⟨s, hs, hrun⟩ := Reach.exists_of_run (M := sem Sample.config) (C := anyStep)
    (w := World.empty 0) (told ["delivered", "sent"])
    (fun s => ⟨"out", "delivered"⟩ ∈ reported s.hist ∧ ∃ m ∈ s.shared.db.messages,
      m.waMessageId = some "out" ∧ m.direction = .outbound ∧ m.rank = 1) (by decide)
  obtain ⟨hreport, m, hm, hk, hout, hrank⟩ := of_decide_eq_true hrun
  have hle := h _ _ s hs _ hreport m hm hk hout
  rw [hrank] at hle
  exact absurd hle (by decide)

end Webhook
