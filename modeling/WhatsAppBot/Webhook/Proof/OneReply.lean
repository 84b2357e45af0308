import WhatsAppBot.Lib.Ghost
import WhatsAppBot.Lib.Ticket
import WhatsAppBot.Store.Proof.Writes
import WhatsAppBot.Webhook.Proof.Tasks
import WhatsAppBot.Webhook.Sample

/-!
# At most one answer per inbound message

The right to answer the message `k` is a `Lib.Ticket`: a reservation takes it, its commit makes it
durable, the send uses it. `replyMonitor k` follows one process; `OneReply.Fits` ties the ticket to
every process and `OneReply.Holds` to the committed rows.

* `send_needs_reservation`: no task hands an answer to a sender without a committed reservation.
* `reply_ticket`: in every reachable state there is such a ticket.
* `replies_le_one`, `reply_sends_le_one`, and both for all messages: `one_answer`.
-/

set_option autoImplicit false

namespace Webhook

open Lib Store Bot Chat

/-! ## One process -/

/-- Where a process is in answering the message. -/
inductive Phase where
  | idle
  | pending
  | owner
  deriving DecidableEq

def replyMonitor (k : String) : Monitor botSig Phase where
  ok a o :=
    match o with
    | .send out => out.purpose = .reply (some k) → a = .owner
    | _ => True
  next a o r :=
    match o, r with
    | .sql (.reserveReply _ key _ _), r =>
      if key = k ∧ (r : Option Nat).isSome then .pending else a
    | .commit, _ => if a = .pending then .owner else a
    | .rollback, _ => if a = .pending then .idle else a
    | .send out, _ => if out.purpose = .reply (some k) then .idle else a
    | _, _ => a

namespace Phase

/-- No reservation is pending. -/
def Settled (a : Phase) : Prop := a ≠ .pending

end Phase

variable {k : String} {cfg : Config} {a : Phase} {o : Op}

/-- Neither a reservation nor the send of a reply. -/
def isPlain : Op → Bool
  | .sql (.reserveReply _ _ _ _) => false
  | .send out =>
    match out.purpose with
    | .reply (some _) => false
    | _ => true
  | _ => true

abbrev OnlyPlain {α : Type} (P : BotM α) : Prop := P.Only fun o => isPlain o = true

theorem isPlain_of_isCalm (h : isCalm o = true) : isPlain o = true := by
  cases o with
  | sql s => cases s <;> first | rfl | cases h
  | send => cases h
  | _ => rfl

theorem isPlain_of_isConfirm (h : isConfirm o = true) : isPlain o = true := by
  cases o with
  | sql s => cases s <;> first | rfl | cases h
  | _ => cases h

theorem isPlain_of_inContext (h : inContext o = true) : isPlain o = true := by
  cases o with
  | sql s => cases s <;> first | rfl | cases h
  | now | raise => rfl
  | _ => cases h

theorem isPlain_of_inSweep (h : inSweep o = true) : isPlain o = true := by
  cases o with
  | sql s => cases s <;> first | rfl | cases h
  | send out =>
    have hp : out.purpose = .closing := by simpa [inSweep] using h
    simp [isPlain, hp]
  | _ => rfl

theorem isPlain_of_inOperator (h : inOperator o = true) : isPlain o = true := by
  cases o with
  | sql s => cases s <;> first | rfl | cases h
  | send out =>
    have hp : out.purpose = .manual := by simpa [inOperator, inRequest] using h
    simp [isPlain, hp]
  | _ => rfl

theorem plain_settled (h : isPlain o = true) (ha : a.Settled) :
    (replyMonitor k).ok a o ∧ ∀ r, ((replyMonitor k).next a o r).Settled := by
  cases o with
  | sql s => cases s <;> first | exact ⟨trivial, fun _ => ha⟩ | cases h
  | send out =>
    have hp : out.purpose ≠ .reply (some k) := by
      intro hp
      simp [isPlain, hp] at h
    refine ⟨fun he => absurd he hp, fun _ => ?_⟩
    rw [show (replyMonitor k).next a (.send out) _ = a from if_neg hp]
    exact ha
  | commit | rollback =>
    refine ⟨trivial, fun _ => ?_⟩
    simp only [replyMonitor, if_neg ha]
    exact ha
  | _ => exact ⟨trivial, fun _ => ha⟩

/-- Programs that neither reserve nor send a reply keep a settled process settled. -/
theorem OnlyPlain.settled {α : Type} {P : BotM α} (hP : OnlyPlain P) (ha : a.Settled) :
    P.wp (replyMonitor k) (fun _ => Phase.Settled) a :=
  hP.wp ha fun _ _ hb ho => ⟨(plain_settled ho hb).1, fun r _ => (plain_settled ho hb).2 r⟩

theorem isPlain_of_inReceive (h : inReceive o = true) : isPlain o = true := by
  simp only [inReceive, Bool.or_eq_true] at h
  rcases h with (h | h) | h
  · exact isPlain_of_isCalm h
  · exact isPlain_of_inContext h
  · split at h
    · rfl
    · cases h

/-! ## Every task -/

/-- A reservation and its commit: the process owns the answer, or nothing changed. -/
theorem reserve_commit (k : String) (c n : Nat) (key content type : String) (ha : a.Settled) :
    let b := (replyMonitor k).next ((replyMonitor k).next a
      (.sql (.reserveReply c key content type)) (some n)) .commit ()
    b.Settled ∧ (key = k → b = .owner) := by
  by_cases hk : key = k
  · simp [replyMonitor, hk, Phase.Settled]
  · simp only [replyMonitor, hk, false_and, if_false, if_neg ha]
    exact ⟨ha, nofun⟩

theorem reserve_none {c : Nat} {key content type : String} (ha : a.Settled) :
    ((replyMonitor k).next a (.sql (.reserveReply c key content type))
      (none : Option Nat)).Settled := by
  simpa [replyMonitor] using ha

theorem ignoresTouch_reply : IgnoresTouch (replyMonitor k) := by
  intro a o h
  cases o with
  | sql s => cases s <;> first | exact ⟨trivial, fun _ => rfl⟩ | cases h
  | now => exact ⟨trivial, fun _ => rfl⟩
  | _ => cases h

theorem sendOnce_settled {channel : Channel} {waId key text : String} {id : Nat} {form : Form}
    (ha : a.Settled) :
    (sendOnce cfg channel waId id text (some key) form).wp (replyMonitor k)
      (fun _ => Phase.Settled) a := by
  refine sendOnce_wp ignoresTouch_reply (fun hb ho => ?_) trivial (fun _ => reserve_none ha)
    fun n _ => ?_
  · have hp := ho.elim isPlain_of_isCalm isPlain_of_isConfirm
    exact ⟨(plain_settled hp hb).1, fun r _ => (plain_settled hp hb).2 r⟩
  · have hb := reserve_commit k id n key text "text" ha
    refine ⟨trivial, fun hp => hb.2 (by simpa using hp), fun wire => ?_⟩
    dsimp only [replyMonitor]
    split
    · exact nofun
    · exact hb.1

theorem handles_settled (channel : Channel) (waId : String) (name : Option String) (key : String) :
    Handles (replyMonitor k) cfg channel waId name key Phase.Settled (fun _ => Phase.Settled)
      Phase.Settled where
  receive ha := Prog.wp_mono (OnlyPlain.settled
    ((receive_only ..).mono fun _ => isPlain_of_inReceive) ha) fun r _ h => by cases r <;> exact h
  serves c :=
    { calm := fun ha ho =>
        have h := plain_settled (isPlain_of_isCalm ho) ha
        ⟨h.1, fun r _ => h.2 r⟩
      calmAfter := fun ha ho =>
        have h := plain_settled (isPlain_of_isCalm ho) ha
        ⟨h.1, fun r _ => h.2 r⟩
      le := id
      quota := fun ha => ⟨trivial, fun _ _ => ha⟩
      human := fun _ ha _ => ⟨trivial, fun _ _ => ha⟩
      send := fun _ ha => sendOnce_settled ha }
  done := id

theorem invite_settled (channel : Channel) (e : Channels.InboundEvent) (ha : a.Settled) :
    (inviteAfterComment cfg channel e).wp (replyMonitor k) (fun _ => Phase.Settled) a := by
  have plain : ∀ {P : BotM Unit} {b : Phase}, OnlyPlain P → b.Settled →
      P.wp (replyMonitor k) (fun _ => Phase.Settled) b := fun hP hb => hP.settled hb
  unfold inviteAfterComment
  split
  · exact ha
  · split
    · exact ha
    · split
      · exact ha
      · rw [Prog.wp_bind]
        refine Prog.wp_mono (OnlyPlain.settled ((asOptional_only _).mono
          fun _ => isPlain_of_isCalm) ha) fun name b hb => ?_
        rw [Prog.wp_bind]
        refine Prog.wp_mono (OnlyPlain.settled ((getChannelContext_only ..).mono
          fun _ => isPlain_of_inContext) hb) fun c b hb =>
          Prog.wp_call_bind trivial fun r _ => ?_
        cases r with
        | none => exact plain (Prog.only_call.mpr rfl) (reserve_none hb)
        | some n =>
          refine Prog.wp_call_bind trivial fun _ _ => plain ?_ (reserve_commit k _ n _ _ _ hb).1
          refine Prog.Only.bind ?_ fun result => ?_
          · unfold inviteToPrivateThread
            exact Prog.Only.ite trivial (Prog.Only.call_bind rfl fun _ => trivial)
          · cases result with
            | failed => exact only_exec_bind rfl (Prog.only_call.mpr rfl)
            | broken => exact only_raise rfl
            | sent id => exact only_exec_bind rfl (Prog.only_call.mpr rfl)

theorem delivers_settled : Delivers (replyMonitor k) cfg Phase.Settled where
  calm ha ho :=
    have h := plain_settled (isPlain_of_isCalm ho) ha
    ⟨h.1, fun r _ => h.2 r⟩
  handles channel waId name key := ⟨_, _, handles_settled channel waId name key⟩
  stale _ _ _ _ _ ha :=
    OnlyPlain.settled ((recordWithoutAnswering_only ..).mono fun _ => isPlain_of_inReceive) ha
  status ha := ⟨trivial, fun _ _ => ha⟩
  invite channel e ha := invite_settled channel e ha

/-- **No task hands an answer to a sender without a committed reservation of its own.** -/
theorem send_needs_reservation :
    (replyMonitor k).Accepts Phase.idle Phase.Settled (sem cfg) where
  program l := by
    have hidle : Phase.idle.Settled := nofun
    cases l with
    | webhook payload => exact delivers_settled.processWebhookPayload_wp hidle payload
    | metaWebhook surfaces payload =>
      exact Prog.wp_forM
        (fun surface _ b hb => delivers_settled.processMetaPayload_wp hb surface payload) hidle
    | sweep =>
      exact OnlyPlain.settled ((program_only cfg .sweep).mono fun _ => isPlain_of_inSweep) hidle
    | takeOver id operator operatorId =>
      exact OnlyPlain.settled ((program_only cfg (.takeOver id operator operatorId)).mono
        fun _ => isPlain_of_inOperator) hidle
    | resumeAi id =>
      exact OnlyPlain.settled ((program_only cfg (.resumeAi id)).mono
        fun _ => isPlain_of_inOperator) hidle
    | manualReply id text operatorId =>
      exact OnlyPlain.settled ((program_only cfg (.manualReply id text operatorId)).mono
        fun _ => isPlain_of_inOperator) hidle
  may _ := trivial

/-! ## The ticket -/

/-- The answers to `k` handed to a sender. -/
def isReplySend (k : String) : Event botSig World Tx Task → Bool
  | .op _ _ _ (.send out) _ _ => out.purpose = .reply (some k)
  | _ => false

namespace OneReply

def marks (k : String) (h : History) : List Mark :=
  h.filterMap fun e => if isReplySend k e then some .use else none

/-- The rows committed in answer to the message. -/
def rows : Ticket → Nat
  | .armed | .taken _ => 0
  | .owned _ | .used _ | .spent => 1

def Holds (k : String) (t : Ticket) (w : World) (h : History) : Prop :=
  t.Run (marks k h) ∧ w.db.replies k = rows t

structure Fits (k : String) (t : Ticket) (i : Nat) (a : Phase) (tx : Tx) : Prop where
  pending : a = .pending ↔ t = .taken i
  owner : a = .owner ↔ t = .owned i
  reserved : tx.countP (Write.isReply k) = if a = .pending then 1 else 0

variable {t t' : Ticket} {i j : Nat} {tx : Tx} {h : History} {w w' : World}

theorem marks_cons {e : Event botSig World Tx Task} (he : isReplySend k e = false) :
    marks k (e :: h) = marks k h := by
  simp [marks, he]

theorem marks_send {e : Event botSig World Tx Task} (he : isReplySend k e = true) :
    marks k (e :: h) = .use :: marks k h := by
  simp [marks, he]

/-- A ticket that moves between the hands of `i` and nobody's is the same to the others. -/
theorem Fits.other (hf : Fits k t j a tx) (hij : j ≠ i)
    (ht : t = .taken i ∨ t = .owned i ∨ t = .armed)
    (ht' : t' = .taken i ∨ t' = .owned i ∨ t' = .armed ∨ t' = .spent) : Fits k t' j a tx := by
  have hne : t ≠ .taken j ∧ t ≠ .owned j := by
    rcases ht with rfl | rfl | rfl <;> simp [Ne.symm hij]
  have hne' : t' ≠ .taken j ∧ t' ≠ .owned j := by
    rcases ht' with rfl | rfl | rfl | rfl <;> simp [Ne.symm hij]
  exact ⟨by rw [hf.pending]; simp [hne.1, hne'.1], by rw [hf.owner]; simp [hne.2, hne'.2],
    hf.reserved⟩

theorem Fits.idle (ht : t ≠ .taken i) (ht' : t ≠ .owned i) : Fits k t i .idle [] :=
  ⟨by simp [ht], by simp [ht'], rfl⟩

/-- A process that leaves drops its pending reservation and wastes a committed one. -/
theorem leave (hI : Holds k t w h) (hf : Fits k t i a tx) :
    ∃ t', Holds k t' w h ∧ Fits k t' i .idle [] ∧
      ∀ j b u, j ≠ i → Fits k t j b u → Fits k t' j b u := by
  obtain ⟨hrun, hrows⟩ := hI
  by_cases htaken : t = .taken i
  · subst htaken
    exact ⟨.armed, ⟨hrun.drop, hrows⟩, .idle nofun nofun,
      fun j b u hj hb => hb.other hj (.inl rfl) (.inr (.inr (.inl rfl)))⟩
  · by_cases howned : t = .owned i
    · subst howned
      exact ⟨.spent, ⟨hrun.waste, hrows⟩, .idle nofun nofun,
        fun j b u hj hb => hb.other hj (.inr (.inl rfl)) (.inr (.inr (.inr rfl)))⟩
    · exact ⟨t, ⟨hrun, hrows⟩, .idle htaken howned, fun _ _ _ _ hb => hb⟩

section

variable {view : Nat → Phase × Tx} {e : Event botSig World Tx Task}

/-- What an operation of process `i` has to establish. -/
def Moves (k : String) (view : Nat → Phase × Tx) (i : Nat) (a : Phase) (tx : Tx) (w : World)
    (h : History) : Prop :=
  ∃ t, Holds k t w h ∧ Fits k t i a tx ∧ ∀ j, j ≠ i → Fits k t j (view j).1 (view j).2

variable (hI : Holds k t w h) (hF : ∀ j, Fits k t j (view j).1 (view j).2)
include hI hF

theorem keep (he : isReplySend k e = false) (ha : a = (view i).1)
    (htx : tx.countP (Write.isReply k) = (view i).2.countP (Write.isReply k))
    (hw : w'.db.replies k = w.db.replies k) : Moves k view i a tx w' (e :: h) := by
  refine ⟨t, ⟨by rw [marks_cons he]; exact hI.1, hw.trans hI.2⟩, ?_, fun j _ => hF j⟩
  have hf := hF i
  subst ha
  exact ⟨hf.pending, hf.owner, htx.trans hf.reserved⟩

/-- A reservation that succeeds finds the ticket armed: the transaction sees no reply, and no other
transaction has one pending. -/
theorem reserve {others : List Tx} {c seq : Nat} {content type : String} {ws : Tx} {r : Option Nat}
    {clock : Time} {locked : Nat → Bool}
    (hothers : ∀ j, j ≠ i → (view j).2 = [] ∨ (view j).2 ∈ others)
    (hexec : (Stmt.reserveReply c k content type).exec clock seq locked
      (w.db.applyAll (view i).2) = some (r, ws))
    (hb : blocked others ws = false) (he : isReplySend k e = false) (hw : w'.db = w.db) :
    Moves k view i ((replyMonitor k).next (view i).1 (.sql (.reserveReply c k content type)) r)
      ((view i).2 ++ ws) w' (e :: h) := by
  have hf := hF i
  rcases Stmt.exec_reserve hexec with ⟨rfl, rfl, -⟩ | ⟨rfl, hzero, m, rfl, hm, -, -⟩
  · exact keep hI hF he (by simp [replyMonitor]) (by rw [List.append_nil]) (by rw [hw])
  · rw [Db.replies_applyAll, hI.2] at hzero
    have harmed : t = .armed := by
      cases t with
      | armed => rfl
      | taken j =>
        by_cases hji : j = i
        · subst hji
          have := hf.reserved
          rw [if_pos (hf.pending.mpr rfl)] at this
          omega
        · have hcount := (hF j).reserved
          rw [if_pos ((hF j).pending.mpr rfl)] at hcount
          have hholds := holds_replyTo (by rw [hcount]; exact Nat.one_ne_zero)
          rcases hothers j hji with hnil | hmem
          · rw [hnil] at hcount; cases hcount
          · have hlock : Lock.replyTo k ∈ (Write.insertMessage m).locks := by
              simp [Write.locks, hm]
            rw [not_holds_of_not_blocked hb (List.mem_singleton.mpr rfl) hlock hmem] at hholds
            cases hholds
      | owned j | used j | spent => simp [rows] at hzero
    subst harmed
    refine ⟨.taken i, ⟨by rw [marks_cons he]; exact hI.1.take i, by rw [hw]; exact hI.2⟩, ?_,
      fun j hj => (hF j).other hj (.inr (.inr rfl)) (.inl rfl)⟩
    have hcount : (view i).2.countP (Write.isReply k) = 0 := by omega
    refine ⟨by simp [replyMonitor], by simp [replyMonitor], ?_⟩
    simp [replyMonitor, List.countP_append, hcount, Write.isReply, hm]

/-- A commit makes a pending reservation durable. -/
theorem commit (he : isReplySend k e = false) (hw : w'.db = w.db.applyAll (view i).2) :
    Moves k view i ((replyMonitor k).next (view i).1 .commit ()) [] w' (e :: h) := by
  have hf := hF i
  have hrows : w'.db.replies k = rows t + (view i).2.countP (Write.isReply k) := by
    rw [hw, Db.replies_applyAll, hI.2]
  by_cases ha : (view i).1 = .pending
  · have ht := hf.pending.mp ha
    rw [hf.reserved, if_pos ha] at hrows
    subst ht
    refine ⟨.owned i, ⟨by rw [marks_cons he]; exact hI.1.own, hrows⟩, ?_,
      fun j hj => (hF j).other hj (.inl rfl) (.inr (.inl rfl))⟩
    exact ⟨by simp [replyMonitor, ha], by simp [replyMonitor, ha], by simp [replyMonitor, ha]⟩
  · have hcount : (view i).2.countP (Write.isReply k) = 0 := by rw [hf.reserved, if_neg ha]
    refine keep hI hF he (by simp [replyMonitor, ha]) (by rw [hcount]; rfl) ?_
    rw [hrows, hcount, hI.2]
    rfl

theorem rollback (he : isReplySend k e = false) (hw : w' = w) :
    Moves k view i ((replyMonitor k).next (view i).1 .rollback ()) [] w' (e :: h) := by
  have hf := hF i
  subst hw
  by_cases ha : (view i).1 = .pending
  · have ht := hf.pending.mp ha
    subst ht
    refine ⟨.armed, ⟨by rw [marks_cons he]; exact hI.1.drop, hI.2⟩, ?_,
      fun j hj => (hF j).other hj (.inl rfl) (.inr (.inr (.inl rfl)))⟩
    simp only [replyMonitor, if_pos ha]
    exact .idle nofun nofun
  · refine keep hI hF he (by simp [replyMonitor, ha]) ?_ rfl
    rw [hf.reserved, if_neg ha]
    rfl

/-- The send uses the ticket its process owns. -/
theorem send {out : Outbound} {r : Wire} (hok : (replyMonitor k).ok (view i).1 (.send out))
    (he : isReplySend k e = decide (out.purpose = .reply (some k))) (hw : w'.db = w.db) :
    Moves k view i ((replyMonitor k).next (view i).1 (.send out) r) (view i).2 w' (e :: h) := by
  by_cases hp : out.purpose = .reply (some k)
  · have ha := hok hp
    have hf := hF i
    have ht := hf.owner.mp ha
    subst ht
    refine ⟨.spent, ⟨?_, by rw [hw]; exact hI.2⟩, ?_,
      fun j hj => (hF j).other hj (.inr (.inl rfl)) (.inr (.inr (.inr rfl)))⟩
    · rw [marks_send (by rw [he]; exact decide_eq_true hp)]
      exact hI.1.use.release
    · have hcount := hf.reserved
      rw [if_neg (by rw [ha]; exact nofun)] at hcount
      exact ⟨by simp [replyMonitor, hp], by simp [replyMonitor, hp],
        by simp [replyMonitor, hp, hcount]⟩
  · exact keep hI hF (by rw [he]; exact decide_eq_false hp) (by simp [replyMonitor, hp]) rfl
      (by rw [hw])

end

/-- **The ticket follows every step.** -/
theorem simulated (cfg : Config) (t₀ : Time) : Simulated (sem cfg) anyStep (World.empty t₀)
    (replyMonitor k) Phase.idle Phase.Settled (Holds k) (fun t _ i a tx => Fits k t i a tx) where
  start := ⟨.armed, ⟨.init, rfl⟩, fun i => .idle nofun nofun⟩
  spawn hI := hI
  leave hI hf he := by
    obtain ⟨t', hI', hself, hother⟩ := leave hI hf
    refine ⟨t', ?_, hself, hother⟩
    rcases he with ⟨rfl, -⟩ | rfl <;> exact hI'
  op {t s i p o rest r w tx} := by
    intro view _ hI hF hp _ hok hstep _
    have htx : p.held = (view i).2 := by rw [show view i = _ from Sys.view_some hp]
    have hothers : ∀ j, j ≠ i → (view j).2 = [] ∨ (view j).2 ∈ s.others i :=
      fun j hj => Sys.view_others hj
    rw [htx] at hstep ⊢
    change step cfg _ _ _ o r = _ at hstep
    cases o with
    | sql stmt =>
      obtain ⟨ws, hexec, hb, hw, -, rfl⟩ := step_sql hstep
      by_cases hr : ∃ c content type, stmt = .reserveReply c k content type
      · obtain ⟨c, content, type, rfl⟩ := hr
        exact reserve hI hF hothers hexec hb rfl hw
      · have hno := Stmt.exec_no_reply (k := k) hexec fun c content type he => hr ⟨c, content, type, he⟩
        refine keep hI hF rfl ?_ (by rw [List.countP_append, hno, Nat.add_zero]) (by rw [hw])
        cases stmt with
        | reserveReply c key content type =>
          exact if_neg fun h => hr ⟨c, content, type, by rw [h.1]⟩
        | _ => rfl
    | commit =>
      obtain ⟨hw, -, rfl⟩ := step_commit hstep
      exact commit hI hF rfl hw
    | rollback =>
      obtain ⟨hw, rfl⟩ := step_rollback hstep
      exact rollback hI hF rfl hw
    | send out =>
      obtain ⟨hw, -, rfl⟩ := step_quiet rfl hstep
      exact send hI hF hok rfl hw
    | raise => cases r
    | _ =>
      obtain ⟨hw, -, rfl⟩ := step_quiet rfl hstep
      exact keep hI hF rfl rfl rfl (by rw [hw])

end OneReply

variable {t₀ : Time} {s : Sys botSig World Tx Task}

/-- Every reachable state has a ticket for every message. -/
theorem reply_ticket (h : Reach (sem cfg) anyStep (World.empty t₀) s) (k : String) :
    ∃ t, OneReply.Holds k t s.shared s.hist :=
  let ⟨t, ht, _⟩ := h.simulated send_needs_reservation (OneReply.simulated cfg t₀)
  ⟨t, ht⟩

theorem replies_le_one (h : Reach (sem cfg) anyStep (World.empty t₀) s) (k : String) :
    s.shared.db.replies k ≤ 1 := by
  obtain ⟨t, -, hrows⟩ := reply_ticket h k
  rw [hrows]
  cases t <;> simp [OneReply.rows]

theorem OneReply.count_marks (k : String) (h : History) :
    (OneReply.marks k h).count .use = h.countP (isReplySend k) ∧
      (OneReply.marks k h).count .rearm = 0 := by
  induction h with
  | nil => exact ⟨rfl, rfl⟩
  | cons e h ih =>
    cases he : isReplySend k e with
    | true => rw [OneReply.marks_send he]; simp [he, ih.1, ih.2]
    | false => rw [OneReply.marks_cons he]; simp [he, ih.1, ih.2]

theorem reply_sends_le_one (h : Reach (sem cfg) anyStep (World.empty t₀) s) (k : String) :
    s.hist.countP (isReplySend k) ≤ 1 := by
  obtain ⟨t, hrun, -⟩ := reply_ticket h k
  have hle := hrun.uses_le
  rwa [(OneReply.count_marks k s.hist).1, (OneReply.count_marks k s.hist).2] at hle

/-- **At most one answer per inbound message**: however the tasks interleave, crash and are
retried, one row is reserved for it and the sender is invoked for it once, at most. -/
theorem one_answer (h : Reach (sem cfg) anyStep (World.empty t₀) s) (k : String) :
    s.shared.db.replies k ≤ 1 ∧ s.hist.countP (isReplySend k) ≤ 1 :=
  ⟨replies_le_one h k, reply_sends_le_one h k⟩

/-- A worker answers, a second one gets the redelivery, a third one dies after it started. -/
def redelivered : List Sample.Action :=
  let task : Task := .webhook (Sample.delivery [Sample.textMessage "20100" "wamid.1" "hello"])
  [.spawn task, .spawn task] ++ Sample.steps 1 1 Sample.accepted ++
    Sample.steps 0 29 Sample.accepted ++ [.finish 0] ++ Sample.steps 1 5 Sample.accepted ++ [.finish 1] ++
    [.spawn task] ++ Sample.steps 2 4 Sample.accepted ++ [.cut 2]

theorem one_answer_redelivered : ∃ s : Sys botSig World Tx Task,
    s.shared.db.replies "wamid.1" = 1 ∧ s.hist.countP (isReplySend "wamid.1") = 1 ∧
      s.shared.db.replies "wamid.1" ≤ 1 ∧ s.hist.countP (isReplySend "wamid.1") ≤ 1 := by
  obtain ⟨s, hs, hrun⟩ := Reach.exists_of_run (M := sem Sample.config) (C := anyStep) (w := World.empty 0)
    redelivered (fun s => s.shared.db.replies "wamid.1" = 1 ∧
      s.hist.countP (isReplySend "wamid.1") = 1) (by decide)
  obtain ⟨hrows, hsends⟩ := of_decide_eq_true hrun
  exact ⟨s, hrows, hsends, one_answer hs "wamid.1"⟩

end Webhook
