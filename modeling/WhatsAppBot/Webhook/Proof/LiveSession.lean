import WhatsAppBot.Webhook.Proof.SessionClaim
import WhatsAppBot.Webhook.Sample

/-!
# Sessions that come back to life

A sweep looks at a session when it claims it, and not again before the goodbye and the close. So a
message of the customer, or a switch to human mode, that is committed in between is lost on it.
`live_session_spared`: in a run in which nothing of the kind is committed to a session that a running
sweep has, every goodbye and every close finds the session as it was claimed.
-/

set_option autoImplicit false

namespace Webhook

open Lib Store Bot

/-! ## What happens to a session -/

/-- A message of the customer, or the switch to human mode. -/
def livens (c : Nat) : Write → Bool
  | .insertMessage m => m.conversationId = c ∧ m.direction = .inbound
  | .updateConversation id _ (.setMode p) => id = c ∧ p.mode = some .human
  | _ => false

def isLive (c : Nat) : Event botSig World Tx Task → Bool
  | .op _ _ tx .commit _ _ => tx.any (livens c)
  | _ => false

/-- Process `i` commits a claim, a close or a revive of the row. -/
def commits (c i : Nat) (k : Kind) : Event botSig World Tx Task → Bool
  | .op j _ tx .commit _ _ => j = i ∧ k ∈ Tx.kinds tx c
  | _ => false

/-- Process `i` says goodbye to the session or closes it. -/
def ends (c i : Nat) : Event botSig World Tx Task → Bool
  | .op j _ _ (.send out) _ _ => j = i ∧ out.purpose = .closing ∧ out.conversationId = c
  | e => commits c i .close e

/-- Process `i` has committed a claim of the session and not its close. -/
def hasSession (c i : Nat) : History → Bool
  | [] => false
  | e :: h => commits c i .claim e || (!commits c i .close e && hasSession c i h)

/-- What happened since process `i` committed its claim. -/
def sinceClaim (c i : Nat) (h : History) : History := h.takeWhile fun e => !commits c i .claim e

def quiet (c : Nat) (h : History) : Bool := h.all fun e => !isLive c e

/-- Process `i` ended the session only when it was quiet since its claim. -/
def spares (c i : Nat) : History → Bool
  | [] => true
  | e :: h => (!ends c i e || quiet c (sinceClaim c i h)) && spares c i h

/-- A session that a running sweep has does not come back to life. -/
def Undisturbed (c : Nat) (s : Sys botSig World Tx Task) (e : Event botSig World Tx Task) : Prop :=
  isLive c e = true → ∀ i < s.procs.length, (s.proc i).isSome = true → hasSession c i s.hist = false

instance (c : Nat) (s : Sys botSig World Tx Task) (e : Event botSig World Tx Task) :
    Decidable (Undisturbed c s e) :=
  inferInstanceAs (Decidable (isLive c e = true → ∀ i < s.procs.length, (s.proc i).isSome = true →
    hasSession c i s.hist = false))

/-! ## The monitor tells who has the session -/

variable {c i : Nat} {a : Hold} {o : Op}

theorem busy_of_free (ha : a.Free) : a.busy = false := by
  rcases ha with rfl | rfl <;> rfl

theorem busy_after_revive (ha : a.Free) (r : Option Nat) : (a.after (reviveOn c r)).busy = a.busy := by
  rw [busy_of_free ha, busy_of_free (reviveOn_free ha r)]

/-- Only a commit makes a process have the session, or not have it any more. -/
theorem busy_next (hok : (sweepMonitor c).ok a o) (ho : o ≠ .commit) (r : o.Resp) :
    ((sweepMonitor c).next a o r).busy = a.busy := by
  cases o with
  | sql s =>
    cases s with
    | claimIdleSessions idleBefore moment limit =>
      obtain rfl : a = .idle := hok
      change (Hold.idle.after (claimOn c r)).busy = false
      unfold claimOn
      split <;> rfl
    | reopenRecent | reopen => exact busy_after_revive hok r
    | close id moment =>
      change (a.after (if id = c then some .close else none)).busy = a.busy
      split
      · rename_i hid
        rcases hok hid with rfl | rfl <;> rfl
      · rfl
    | idleTargets ids =>
      change (a.look c r).busy = a.busy
      unfold Hold.look
      split
      · rename_i hmiss
        rw [hmiss.1]
        rfl
      · rfl
    | _ => rfl
  | commit => exact absurd rfl ho
  | rollback =>
    change a.rollback.busy = a.busy
    rcases hok with rfl | rfl <;> rfl
  | send out =>
    change (if out.purpose = .closing ∧ out.conversationId = c then Hold.sent else a).busy = a.busy
    split
    · rename_i hp
      rw [hok hp.1 hp.2]
      rfl
    · rfl
  | _ => rfl

open SessionClaim

theorem busy_commit {t : Ticket} {lost : Bool} {tx : Tx} (hf : Fits c t lost i a tx) :
    a.commit.busy =
      (decide (.claim ∈ Tx.kinds tx c) || (!decide (.close ∈ Tx.kinds tx c) && a.busy)) := by
  have hmem : ∀ k, a.pending = some k → ∀ k', k' ∈ Tx.kinds tx c ↔ k' = k := by
    intro k hk k'
    constructor
    · intro hk'
      exact Option.some.inj ((hf.kinds k' hk').symm.trans hk)
    · rintro rfl
      obtain ⟨k', hk'⟩ := List.exists_mem_of_ne_nil _ (hf.pending (by rw [hk]; nofun))
      obtain rfl := Option.some.inj ((hf.kinds k' hk').symm.trans hk)
      exact hk'
  cases a with
  | idle | holding | sent | missed => rw [hf.kinds_nil rfl]; rfl
  | claimed | closing | revived => simp [hmem _ rfl, Hold.commit, Hold.busy]

variable {cfg : Config} {t₀ : Time} {s : Sys botSig World Tx Task}

theorem hasSession_eq_busy (h : Reach (sem cfg) anyStep (World.empty t₀) s) (c i : Nat) :
    hasSession c i s.hist = (track (sweepMonitor c) .idle i s.hist).busy := by
  induction h with
  | start => rfl
  | @step s s' e hr hs _ ih =>
    cases hs with
    | spawn l =>
      rw [track_add]
      split
      · rename_i hi
        exact ih.trans (by rw [hr.track_fresh (Nat.le_of_eq hi.symm)])
      · exact ih
    | @op j p o k r w t hp hrest hstep =>
      change (commits c i .claim (.op j p.label p.held o r w) ||
        (!commits c i .close (.op j p.label p.held o r w) && hasSession c i s.hist)) = _
      by_cases hj : j = i
      · subst hj
        have hok : (sweepMonitor c).ok (track (sweepMonitor c) .idle j s.hist) o :=
          hr.ok sweep_discipline hp hrest
        rw [track_op_self, ih]
        by_cases ho : o = .commit
        · subst ho
          obtain ⟨t, lost, -, hF⟩ := session_claim hr c
          have hf := hF j
          rw [Sys.view_some hp] at hf
          exact (busy_commit hf).symm ▸ by simp [commits]
        · rw [busy_next hok ho]
          cases o <;> first | rfl | exact absurd rfl ho
      · rw [track_op_other (Ne.symm hj), ih]
        cases o <;> simp [commits, hj]
    | finish | cut => exact ih

/-- Who ends a session has it. -/
theorem hasSession_of_ends {e : Event botSig World Tx Task} {s' : Sys botSig World Tx Task}
    (h : Reach (sem cfg) anyStep (World.empty t₀) s) (hs : Step (sem cfg) s e s')
    (he : ends c i e = true) : (∃ p, s.proc i = some p) ∧ hasSession c i s.hist = true := by
  cases hs with
  | @op j p o k r w t hp hrest hstep =>
    have hok : (sweepMonitor c).ok (track (sweepMonitor c) .idle j s.hist) o :=
      h.ok sweep_discipline hp hrest
    cases o with
    | send out =>
      obtain ⟨rfl, hclosing, hid⟩ := of_decide_eq_true he
      rw [hasSession_eq_busy h, hok hclosing hid]
      exact ⟨⟨p, hp⟩, rfl⟩
    | commit =>
      obtain ⟨rfl, hclose⟩ := of_decide_eq_true he
      obtain ⟨t, lost, -, hF⟩ := session_claim h c
      have hf := hF j
      rw [Sys.view_some hp] at hf
      refine ⟨⟨p, hp⟩, ?_⟩
      have hpending := hf.kinds _ hclose
      rw [hasSession_eq_busy h]
      cases ha : track (sweepMonitor c) .idle j s.hist with
      | closing => rfl
      | _ => rw [ha] at hpending; cases hpending
    | _ => cases he
  | spawn | finish | cut => cases he

/-! ## Runs -/

/-- While a running process has the session nothing brings it back to life. -/
theorem quiet_sinceClaim (h : Reach (sem cfg) (Undisturbed c) (World.empty t₀) s)
    {p : Proc botSig Tx Task} (hp : s.proc i = some p) (hb : hasSession c i s.hist = true) :
    quiet c (sinceClaim c i s.hist) = true := by
  induction h generalizing p with
  | start => rfl
  | @step s s' e hr hs hc ih =>
    rw [hs.hist_eq] at hb ⊢
    unfold sinceClaim
    cases hclaim : commits c i .claim e with
    | true => simp [hclaim, quiet]
    | false =>
      simp only [hasSession, hclaim, Bool.false_or, Bool.and_eq_true] at hb
      obtain ⟨-, hb⟩ := hb
      obtain ⟨q, hq⟩ : ∃ q, s.proc i = some q := by
        rcases hs.proc_cases hp with hq | hi
        · exact hq
        · rw [hasSession_eq_busy hr.any, hr.track_fresh (Nat.le_of_eq hi.symm)] at hb
          cases hb
      have hlive : isLive c e = false := by
        by_contra hlive
        rw [Bool.not_eq_false] at hlive
        rw [hc hlive i (Sys.lt_of_proc hq) (by rw [hq]; rfl)] at hb
        cases hb
      have hrest := ih hq hb
      unfold sinceClaim at hrest
      simp only [List.takeWhile_cons, hclaim, Bool.not_false, if_true]
      simpa [quiet, hlive] using hrest

/-- **The sweeper spares live sessions** in every run in which no message of the customer and no
switch to human mode is committed to a session that a running sweep has. -/
theorem live_session_spared (h : Reach (sem cfg) (Undisturbed c) (World.empty t₀) s) (i : Nat) :
    spares c i s.hist = true := by
  induction h with
  | start => rfl
  | @step s s' e hr hs hc ih =>
    rw [hs.hist_eq]
    simp only [spares, Bool.and_eq_true, Bool.or_eq_true, Bool.not_eq_true']
    refine ⟨?_, ih⟩
    cases he : ends c i e with
    | false => exact .inl rfl
    | true =>
      obtain ⟨⟨p, hp⟩, hb⟩ := hasSession_of_ends hr.any hs he
      exact .inr (quiet_sinceClaim hr hp hb)

/-- The customer writes, and after the idle time a sweep claims the session. -/
def claimed : List Sample.Action :=
  [.spawn (.webhook (Sample.delivery [Sample.textMessage "20100" "wamid.1" "hello"]))] ++
    Sample.steps 0 29 Sample.acceptedUnnamed ++ [.finish 0, .spawn .sweep,
      Sample.later 1 (6 * Sample.minute)] ++ Sample.steps 1 4 Sample.acceptedUnnamed

/-- The sweep goes on to the end. -/
def swept : List Sample.Action := Sample.steps 1 10 Sample.acceptedUnnamed ++ [.finish 1]

theorem live_session_spared_swept : ∃ s : Sys botSig World Tx Task,
    s.hist.countP (isGoodbye 5) = 1 ∧ spares 5 1 s.hist = true := by
  obtain ⟨s, hs, hrun⟩ := Reach.exists_of_run (M := sem Sample.config) (C := Undisturbed 5)
    (w := World.empty 0) (claimed ++ swept)
    (fun s => s.hist.countP (isGoodbye 5) = 1) (by decide +kernel)
  exact ⟨s, of_decide_eq_true hrun, live_session_spared hs 1⟩

/-- The customer writes again before the sweep goes on. -/
def writesAgain : List Sample.Action :=
  [.spawn (.webhook (Sample.delivery [Sample.textMessage "20100" "wamid.2" "hello"]))] ++
    Sample.steps 2 15 Sample.acceptedUnnamed

/-- The sweep says goodbye to a session whose customer has just written, and closes it. -/
theorem live_session_ended : ∃ s, Reach (sem Sample.config) anyStep (World.empty 0) s ∧
    spares 5 1 s.hist = false ∧ s.hist.countP (isGoodbye 5) = 1 ∧
    (s.shared.db.conversation 5).any (·.status = .closed) = true := by
  obtain ⟨s, hs, hrun⟩ := Reach.exists_of_run (M := sem Sample.config) (C := anyStep)
    (w := World.empty 0) (claimed ++ writesAgain ++ swept)
    (fun s => spares 5 1 s.hist = false ∧ s.hist.countP (isGoodbye 5) = 1 ∧
      (s.shared.db.conversation 5).any (·.status = .closed) = true) (by decide +kernel)
  exact ⟨s, hs, of_decide_eq_true hrun⟩

end Webhook
