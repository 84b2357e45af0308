import WhatsAppBot.Webhook.Proof.LiveSession
import WhatsAppBot.Webhook.Proof.Slots

/-!
# Messages filed in sessions that have ended

A delivery looks its customer's conversation up without a lock and stores the message there later. In
between a sweep can commit the close of that conversation, and the message is filed in a dead one.
`filed_live`: in a run in which no close of a conversation is committed while a process has it in
hand, every message of a customer that is committed finds its conversation active, and the only
active one its customer has.
-/

set_option autoImplicit false

namespace Webhook

open Lib Store Bot Chat

/-- A close of the row is committed. -/
def closes (c : Nat) : Event botSig World Tx Task → Bool
  | .op _ _ tx .commit _ _ => Kind.close ∈ Tx.kinds tx c
  | _ => false

def storesInbound (c : Nat) : Write → Bool
  | .insertMessage m => m.direction = .inbound ∧ m.conversationId = c
  | _ => false

/-- The conversation is its customer's only active one. -/
def onlyActive (db : Db) (c : Nat) : Bool :=
  (db.conversation c).any fun x => x.status = .active ∧ db.activeFor x.userId = [x]

/-- A customer's message is committed to the conversation. -/
def files (c : Nat) : Event botSig World Tx Task → Bool
  | .op _ _ tx .commit _ _ => tx.any (storesInbound c)
  | _ => false

/-- Where a customer's message is committed, its conversation is the customer's only active one. -/
def filedLive (c : Nat) : Event botSig World Tx Task → Bool
  | .op _ _ tx .commit _ w => !tx.any (storesInbound c) || onlyActive w.db c
  | _ => true

instance (a : Filing) (c : Nat) : Decidable (a.Has c) :=
  inferInstanceAs (Decidable (a = .loaded c ∨ a = .filed c))

/-- No close of the conversation is committed while a process has it in hand: it looked it up or
opened it in the transaction that it has open. -/
def Unclosed (c : Nat) (s : Sys botSig World Tx Task) (e : Event botSig World Tx Task) : Prop :=
  closes c e = true → ∀ i < s.procs.length, (s.proc i).isSome = true →
    ¬(track filingMonitor .fresh i s.hist).Has c

instance (c : Nat) (s : Sys botSig World Tx Task) (e : Event botSig World Tx Task) :
    Decidable (Unclosed c s e) :=
  inferInstanceAs (Decidable (closes c e = true → ∀ i < s.procs.length, (s.proc i).isSome = true →
    ¬(track filingMonitor .fresh i s.hist).Has c))

variable {a : Filing} {w w' : World} {tx ws : Tx} {c : Nat}

theorem has_look {x : Option Conversation} (h : (a.look x).Has c) :
    a.Has c ∨ ∃ y, x = some y ∧ y.id = c := by
  unfold Filing.look at h
  split at h
  · rename_i y
    rcases h with h | h
    · exact .inr ⟨y, rfl, Filing.loaded.inj h⟩
    · cases h
  · exact .inl h

/-- **A conversation comes into hand active.** -/
theorem has_sql {s : Stmt} {r : s.Resp} {now : Time} {locked : Nat → Bool} (hI : Sound w)
    (h : Tidy a w tx) (hok : filingMonitor.ok a (.sql s))
    (hexec : s.exec now w.seq locked (w.db.applyAll tx) = some (r, ws))
    (hnew : (filingMonitor.next a (.sql s) r).Has c) :
    a.Has c ∨ ((w.db.applyAll tx).applyAll ws).IsActive c := by
  have hok := hok.resolve_left h.found
  have hopened : ∀ q : Option Nat, Opened (w.db.applyAll tx) w.seq q ws → (a.opened q).Has c →
      a.Has c ∨ ((w.db.applyAll tx).applyAll ws).IsActive c := by
    intro q ho hq
    cases q with
    | none => exact .inl hq
    | some d =>
      obtain ⟨u, v, rfl, hv⟩ := ho
      rcases hq with hq | hq
      · obtain rfl := Filing.loaded.inj hq
        exact .inr hv.active
      · cases hq
  cases s with
  | activeForUser userId =>
    obtain ⟨rfl, rfl⟩ := Prod.mk.inj (Option.some.inj hexec)
    change (if a = .missed then Filing.missed else a.look _).Has c at hnew
    rw [if_neg h.found] at hnew
    rcases has_look hnew with hc | ⟨x, hx, rfl⟩
    · exact .inl hc
    · obtain ⟨hrow, -, hactive⟩ := Db.mem_activeFor.mp (newest_mem hx)
      exact .inr ⟨x, hrow, hactive⟩
  | getConversation id =>
    change (if a = .missed then Filing.missed else a.refresh id r).Has c at hnew
    rw [if_neg h.found] at hnew
    unfold Filing.refresh at hnew
    split at hnew
    · rcases hnew with hnew | hnew <;> cases hnew
    · exact .inl hnew
  | reopenRecent userId notBefore t =>
    change (if a = .missed then Filing.missed else a.opened r).Has c at hnew
    rw [if_neg h.found] at hnew
    exact hopened r (Stmt.exec_reopenRecent hexec) hnew
  | reopen id t =>
    change (if a = .missed then Filing.missed else a.opened r).Has c at hnew
    rw [if_neg h.found] at hnew
    exact hopened r (Stmt.exec_reopen hexec) hnew
  | insertConversation userId channel =>
    change (if a = .missed then Filing.missed else a.opened r).Has c at hnew
    rw [if_neg h.found] at hnew
    exact hopened r (Stmt.exec_insertConversation (h.next_free hI) hexec) hnew
  | close id t =>
    change (if a = .missed then Filing.missed else .closing).Has c at hnew
    rw [if_neg h.found] at hnew
    rcases hnew with hnew | hnew <;> cases hnew
  | claimInbound d key type content mediaId =>
    obtain rfl : a = .loaded d := hok
    change (if Filing.loaded d = .missed then Filing.missed else (Filing.loaded d).file d r).Has c
      at hnew
    rw [if_neg nofun] at hnew
    cases r with
    | none => exact .inl hnew
    | some n =>
      rcases hnew with hnew | hnew
      · cases hnew
      · obtain rfl := Filing.filed.inj hnew
        exact .inl (.inl rfl)
  | _ =>
    rw [unfiled_same rfl |>.2] at hnew
    exact .inl hnew

variable {cfg : Config} {w₀ : World} {s : Sys botSig World Tx Task}

theorem onlyActive_of_isActive {db : Db} (hslots : ∀ u, (db.activeFor u).length ≤ 1)
    (h : db.IsActive c) : onlyActive db c = true := by
  obtain ⟨x, hx, hactive⟩ := h
  have hmem : x ∈ db.activeFor x.userId :=
    Db.mem_activeFor.mpr ⟨(Db.conversation_id hx).symm ▸ hx, rfl, hactive⟩
  obtain ⟨y, hy⟩ := List.length_eq_one_iff.mp
    (Nat.le_antisymm (hslots x.userId) (List.length_pos_of_mem hmem))
  rw [hy] at hmem
  obtain rfl := List.mem_singleton.mp hmem
  simp [onlyActive, hx, hactive, hy]

/-- What a process has in hand it sees active. -/
theorem in_hand_rely (h₀ : Sound w₀) (c : Nat) : Rely (sem cfg) (Unclosed c) w₀ (fun _ => True)
    (fun _ => filingMonitor) .fresh (fun _ h => ∀ e ∈ h, filedLive c e = true)
    (fun _ a w _ tx => a.Has c → (w.db.applyAll tx).IsActive c) where
  program l _ := (filing_discipline cfg).program l
  may := (filing_discipline cfg).may
  start _ he := absurd he List.not_mem_nil
  fresh _ _ hc := by rcases hc with hc | hc <;> cases hc
  quiet {e w h} he hI := by
    refine ⟨fun e' he' => ?_, fun _ _ _ hF => hF⟩
    rcases List.mem_cons.mp he' with rfl | he'
    · cases e' with
      | op => cases he
      | _ => rfl
    · exact hI e' he'
  op {s i p o k r w tx} hr hI hF hp _ hok hstep hcond := by
    have htidy := tidy h₀ hr hp
    have hself := hF i p hp trivial
    have hothers : w.db = s.shared.db → ∀ j q, j ≠ i → s.proc j = some q → True →
        (track filingMonitor .fresh j s.hist).Has c → (w.db.applyAll q.held).IsActive c := by
      intro hdb j q _ hq _
      rw [hdb]
      exact hF j q hq trivial
    have hplain : filedLive c (.op i p.label p.held o r w) = true →
        ∀ e ∈ Event.op i p.label p.held o r w :: s.hist, filedLive c e = true := by
      intro he e' he'
      rcases List.mem_cons.mp he' with rfl | he'
      · exact he
      · exact hI e' he'
    change step cfg _ _ _ o r = _ at hstep
    cases o with
    | sql stmt =>
      obtain ⟨ws, hexec, -, hdb, hseq, rfl⟩ := step_sql hstep
      refine ⟨hplain rfl, fun _ hc => ?_, hothers hdb⟩
      rw [hdb, Db.applyAll_append]
      rcases has_sql (sound h₀ hr) htidy (hok trivial) hexec hc with hc' | hactive
      · have hnext := tidy_sql (sound h₀ hr) htidy (hok trivial) hexec hdb hseq
        have hclosed := hnext.closed (fun hclosing => by
          rw [hclosing] at hc
          rcases hc with hc | hc <;> cases hc) c
        rw [Tx.kinds_append, List.mem_append, not_or] at hclosed
        exact (hself hc').applyAll hclosed.2
      · exact hactive
    | commit =>
      obtain ⟨hdb, hseq, rfl⟩ := step_commit hstep
      refine ⟨hplain ?_, fun _ hc => ?_, fun j q hj hq _ hc => ?_⟩
      · cases hstores : p.held.any (storesInbound c) with
        | false => simp [filedLive, hstores]
        | true =>
          obtain ⟨v, hv, hin⟩ := List.any_eq_true.mp hstores
          cases v with
          | insertMessage m =>
            obtain ⟨hdir, rfl⟩ := of_decide_eq_true hin
            have hactive := hself (.inr (htidy.inbound m hv hdir))
            rw [← hdb] at hactive
            simp only [filedLive, hstores, Bool.not_true, Bool.false_or]
            exact onlyActive_of_isActive (htidy.commit (sound h₀ hr) hdb hseq).slots hactive
          | _ => cases hin
      · change (if track filingMonitor .fresh i s.hist = .missed then Filing.missed else .fresh).Has c
          at hc
        rw [if_neg htidy.found] at hc
        rcases hc with hc | hc <;> cases hc
      · have htheirs := tidy h₀ hr hq
        rw [hdb]
        refine (hF j q hq trivial hc).interfere ⟨htheirs.closed ?_ c, fun d hd =>
          (htheirs.inserts d hd).1⟩ ⟨fun hclose => ?_, fun d hd => (htidy.inserts d hd).1⟩
        · intro hclosing
          rw [hclosing] at hc
          rcases hc with hc | hc <;> cases hc
        · exact hcond (decide_eq_true hclose) j (Sys.lt_of_proc hq) (by rw [hq]; rfl) hc
    | rollback =>
      obtain ⟨rfl, rfl⟩ := step_rollback hstep
      refine ⟨hplain rfl, fun _ hc => ?_, hothers rfl⟩
      change (if track filingMonitor .fresh i s.hist = .missed then Filing.missed else .fresh).Has c
        at hc
      rw [if_neg htidy.found] at hc
      rcases hc with hc | hc <;> cases hc
    | raise => cases r
    | _ =>
      obtain ⟨hdb, -, rfl⟩ := step_quiet rfl hstep
      refine ⟨hplain rfl, fun _ hc => ?_, hothers hdb⟩
      rw [unfiled_same rfl |>.2] at hc
      rw [hdb]
      exact hself hc

/-- **Every message of a customer is filed in its customer's only active conversation**, in every run
in which nobody's conversation is closed while a process has it in hand. -/
theorem filed_live (h₀ : Sound w₀) (h : Reach (sem cfg) (Unclosed c) w₀ s) :
    ∀ e ∈ s.hist, filedLive c e = true :=
  (h.rely (in_hand_rely h₀ c)).1

/-- The first two steps of a second delivery: it has looked the session up. -/
def looksUp : List Sample.Action :=
  [.spawn (.webhook (Sample.delivery [Sample.textMessage "20100" "wamid.2" "hello"]))] ++
    Sample.steps 2 2 Sample.acceptedUnnamed

/-- It stores its message and commits. -/
def stores : List Sample.Action := Sample.steps 2 4 Sample.acceptedUnnamed

theorem filed_live_again : ∃ s : Sys botSig World Tx Task,
    s.hist.countP (files 5) = 2 ∧ ∀ e ∈ s.hist, filedLive 5 e = true := by
  obtain ⟨s, hs, hrun⟩ := Reach.exists_of_run (M := sem Sample.config) (C := Unclosed 5)
    (w := World.empty 0) (claimed ++ looksUp ++ stores)
    (fun s => s.hist.countP (files 5) = 2) (by decide +kernel)
  exact ⟨s, of_decide_eq_true hrun, filed_live (sound_empty 0) hs⟩

/-- A sweep closes the session between the look and the commit: the message is filed in a session
that is closed. -/
theorem filed_dead : ∃ s, Reach (sem Sample.config) anyStep (World.empty 0) s ∧
    (∃ e ∈ s.hist, filedLive 5 e = false) ∧
    (s.shared.db.conversation 5).any (·.status = .closed) = true := by
  obtain ⟨s, hs, hrun⟩ := Reach.exists_of_run (M := sem Sample.config) (C := anyStep)
    (w := World.empty 0) (claimed ++ looksUp ++ swept ++ stores)
    (fun s => s.hist.any (fun e => !filedLive 5 e) ∧
      (s.shared.db.conversation 5).any (·.status = .closed) = true) (by decide +kernel)
  obtain ⟨hdead, hclosed⟩ := of_decide_eq_true hrun
  obtain ⟨e, he, hfiled⟩ := List.any_eq_true.mp hdead
  exact ⟨s, hs, ⟨e, he, by simpa using hfiled⟩, hclosed⟩

end Webhook
