import WhatsAppBot.Webhook.Proof.SessionClaim
import WhatsAppBot.Webhook.Sample

/-!
# Sessions that are claimed but open

A sweep that is cut off between the commit of its claim and that of its close leaves the session
claimed but open, as `close_idle_sessions` says, and no later sweep takes it. `stuck_iff_interrupted`:
once no sweep is in flight there are no other such sessions.
-/

set_option autoImplicit false

namespace Webhook

open Lib Store Bot

namespace SessionClaim

variable {c i : Nat} {t : Ticket} {lost : Bool} {a : Hold} {tx : Tx}

theorem Fits.busy_of_owned (hf : Fits c t lost i a tx) (ht : t = .owned i ∨ t = .used i) :
    a.busy = true := by
  have hhas := hf.has
  cases a with
  | idle => exact (ht.elim hhas.2.1 hhas.2.2).elim
  | revived =>
    rw [hhas.1] at ht
    rcases ht with ht | ht <;> cases ht
  | claimed =>
    rw [show t = .taken i from hhas] at ht
    rcases ht with ht | ht <;> cases ht
  | missed => exact hhas.elim
  | holding | sent | closing => rfl

end SessionClaim

open SessionClaim

variable {cfg : Config} {t₀ : Time} {s : Sys botSig World Tx Task}

/-- Without a sweep in flight nobody has a session. -/
theorem not_busy (h : Reach (sem cfg) anyStep (World.empty t₀) s)
    (hs : ∀ i p, s.proc i = some p → p.label ≠ .sweep) (c i : Nat) :
    (s.view (sem cfg) (sweepMonitor c) .idle i).1.busy = false := by
  cases hp : s.proc i with
  | none => rw [Sys.view_none hp]; rfl
  | some p =>
    rw [Sys.view_some hp]
    by_contra hb
    rw [Bool.not_eq_false] at hb
    exact hs i p hp (label_of_busy h hp hb)

theorem claimed_iff_interrupted (h : Reach (sem cfg) anyStep (World.empty t₀) s)
    (hs : ∀ i p, s.proc i = some p → p.label ≠ .sweep) {c : Nat} {x : Conversation}
    (hx : s.shared.db.conversation c = some x) (hactive : x.status = .active) :
    x.closingSentAt.isSome = interrupted c s.hist := by
  obtain ⟨t, lost, hI, hF⟩ := session_claim h c
  have hstage := hI.stage x hx
  have hclaimed : x.closingSentAt.isSome = (stageOf t lost).claimed := congrArg Stage.claimed hstage
  have hopen : (stageOf t lost).closed = false := by
    rw [← hstage]
    simp [Conversation.stage, hactive]
  have hfree : ∀ i, ¬(t = .owned i ∨ t = .used i) := by
    intro i ht
    have hb := (hF i).busy_of_owned ht
    rw [not_busy h hs c i] at hb
    cases hb
  rw [hclaimed, hI.interrupted]
  cases t with
  | armed | taken => exact (hI.not_lost fun ht => by cases ht).symm
  | owned i => exact absurd (.inl rfl) (hfree i)
  | used i => exact absurd (.inr rfl) (hfree i)
  | spent => simpa [stageOf] using hopen

/-- **Without a sweep in flight** an active session has been claimed exactly when a sweep was cut off
with it, and an idle one can be claimed exactly when none was. -/
theorem stuck_iff_interrupted (h : Reach (sem cfg) anyStep (World.empty t₀) s)
    (hs : ∀ i p, s.proc i = some p → p.label ≠ .sweep) {c : Nat} {x : Conversation}
    (hx : s.shared.db.conversation c = some x) (hactive : x.status = .active) :
    (x.closingSentAt ≠ none ↔ interrupted c s.hist = true) ∧
      ∀ idleBefore, x.mode = .bot → sweepable x.channel = true → x.lastActivityAt < idleBefore →
        (Db.idleCandidate idleBefore x = true ↔ interrupted c s.hist = false) := by
  have hclaimed := claimed_iff_interrupted h hs hx hactive
  refine ⟨?_, fun idleBefore hmode hchannel hidle => ?_⟩
  · rw [← hclaimed, Option.isSome_iff_ne_none]
  · rw [← hclaimed]
    simp [Db.idleCandidate, hactive, hmode, hchannel, hidle]

/-- A sweep dies right after it committed its claim. -/
def cutOff : List Sample.Action :=
  [.spawn (.webhook (Sample.delivery [Sample.textMessage "20100" "wamid.1" "hello"]))] ++
    Sample.steps 0 29 Sample.accepted ++ [.finish 0, .spawn .sweep, Sample.later 1 (6 * Sample.minute)] ++
    Sample.steps 1 4 Sample.accepted ++ [.cut 1]

/-- Conversation 5 is claimed but open. -/
def stuck (s : Sys botSig World Tx Task) : Bool :=
  s.procs.all Option.isNone && (s.shared.db.conversation 5).any fun x =>
    x.status = .active ∧ x.closingSentAt ≠ none

theorem of_stuck (h : stuck s = true) : (∀ i, s.proc i = none) ∧ ∃ x,
    s.shared.db.conversation 5 = some x ∧ x.status = .active ∧ x.closingSentAt ≠ none := by
  obtain ⟨hprocs, hrow⟩ := Bool.and_eq_true_iff.mp h
  obtain ⟨x, hx, hstuck⟩ := (Option.any_eq_true _ _).mp hrow
  refine ⟨fun i => Sys.proc_of_all_none fun p hp => ?_, x, hx, of_decide_eq_true hstuck⟩
  exact Option.isNone_iff_eq_none.mp (List.all_eq_true.mp hprocs p hp)

/-- No sweep is in flight, and an active session is claimed. -/
theorem claimed_but_open : ∃ s, Reach (sem Sample.config) anyStep (World.empty 0) s ∧
    (∀ i, s.proc i = none) ∧ ∃ x, s.shared.db.conversation 5 = some x ∧ x.status = .active ∧
      x.closingSentAt ≠ none := by
  obtain ⟨s, hs, hrun⟩ := Reach.exists_of_run (M := sem Sample.config) (C := anyStep) (w := World.empty 0) cutOff
    stuck (by decide +kernel)
  exact ⟨s, hs, of_stuck hrun⟩

theorem stuck_iff_interrupted_cutOff : ∃ s : Sys botSig World Tx Task, interrupted 5 s.hist = true ∧
    ∃ x, s.shared.db.conversation 5 = some x ∧ x.status = .active ∧
      (x.closingSentAt ≠ none ↔ interrupted 5 s.hist = true) := by
  obtain ⟨s, hs, hrun⟩ := Reach.exists_of_run (M := sem Sample.config) (C := anyStep) (w := World.empty 0) cutOff
    stuck (by decide +kernel)
  obtain ⟨hprocs, x, hx, hactive, hclaimed⟩ := of_stuck hrun
  have hiff := (stuck_iff_interrupted hs (fun i p hp => by rw [hprocs i] at hp; cases hp) hx hactive).1
  exact ⟨s, hiff.mp hclaimed, x, hx, hactive, hiff⟩

end Webhook
