import Mathlib.Logic.Relation
import WhatsAppBot.Lib.Exec
import WhatsAppBot.Webhook.System

/-!
# The attempts at a delivery

`process_webhook_event` and `process_meta_webhook_event` are retried by the queue: a task message is
acknowledged when an attempt returns, or raises with no retry left; an attempt that raises earlier is
scheduled again with its count raised, and one whose worker dies goes back to the broker as it was.
Meta may send the same delivery again at any time, which is a task message of its own.
-/

set_option autoImplicit false

namespace Webhook

open Lib Store Bot

/-- `MAX_RETRIES`. -/
def maxRetries : Nat := 5

/-- A delivery between two attempts. -/
structure Delivery where
  world : World
  /-- The retries made so far, for each task message the broker has. -/
  pending : List Nat
  /-- What the attempts did, in order. -/
  trace : List (Obs botSig)
  /-- The payload is on the dead-letter list. -/
  deadLettered : Bool

/-- One attempt, or one more delivery by Meta. What an attempt has not committed is lost with it. -/
inductive Attempt (cfg : Config) (task : Task) : Delivery → Delivery → Prop
  | redelivered {d : Delivery} : Attempt cfg task d { d with pending := 0 :: d.pending }
  | returned {d : Delivery} {n : Nat} {tr : List (Obs botSig)} {w : World} {tx : Tx} :
      n ∈ d.pending → Exec (sem cfg) d.world [] (program cfg task) tr (.returned ()) w tx →
      Attempt cfg task d ⟨w, d.pending.erase n, d.trace ++ tr, d.deadLettered⟩
  | retried {d : Delivery} {n : Nat} {tr : List (Obs botSig)} {w : World} {tx : Tx} :
      n ∈ d.pending → n < maxRetries →
      Exec (sem cfg) d.world [] (program cfg task) tr .raised w tx →
      Attempt cfg task d ⟨w, (n + 1) :: d.pending.erase n, d.trace ++ tr, d.deadLettered⟩
  /-- `_dead_letter` logs a failure of its own and goes on: `kept` is false then. -/
  | exhausted {d : Delivery} {n : Nat} {tr : List (Obs botSig)} {w : World} {tx : Tx} (kept : Bool) :
      n ∈ d.pending → maxRetries ≤ n →
      Exec (sem cfg) d.world [] (program cfg task) tr .raised w tx →
      Attempt cfg task d ⟨w, d.pending.erase n, d.trace ++ tr, d.deadLettered || kept⟩
  | lost {d : Delivery} {n : Nat} {tr : List (Obs botSig)} {w : World} {tx : Tx} :
      n ∈ d.pending → Exec (sem cfg) d.world [] (program cfg task) tr .died w tx →
      Attempt cfg task d ⟨w, d.pending, d.trace ++ tr, d.deadLettered⟩

/-- Any number of attempts. -/
abbrev Attempts (cfg : Config) (task : Task) : Delivery → Delivery → Prop :=
  Relation.ReflTransGen (Attempt cfg task)

/-- Either nothing ran, or the task did and was kept or dropped. -/
theorem Attempt.exec {cfg : Config} {task : Task} {d d' : Delivery} (h : Attempt cfg task d d') :
    (d'.world = d.world ∧ d'.trace = d.trace) ∨
    ∃ tr e tx, Exec (sem cfg) d.world [] (program cfg task) tr e d'.world tx ∧
      d'.trace = d.trace ++ tr := by
  cases h with
  | redelivered => exact .inl ⟨rfl, rfl⟩
  | returned _ hrun => exact .inr ⟨_, _, _, hrun, rfl⟩
  | retried _ _ hrun => exact .inr ⟨_, _, _, hrun, rfl⟩
  | exhausted _ _ _ hrun => exact .inr ⟨_, _, _, hrun, rfl⟩
  | lost _ hrun => exact .inr ⟨_, _, _, hrun, rfl⟩

/-- `_process_inline` of the Meta webhook: a session and an error boundary for each surface, and no
retry. -/
inductive Inline (cfg : Config) (payload : Json) : List Channels.Surface → World → World → Prop
  | nil {w : World} : Inline cfg payload [] w w
  | cons {surface : Channels.Surface} {surfaces : List Channels.Surface} {w w₁ w₂ : World} {tx : Tx}
      {tr : List (Obs botSig)} {e : Ending Unit} :
      Exec (sem cfg) w [] (processMetaPayload cfg surface payload) tr e w₁ tx → e ≠ .died →
      Inline cfg payload surfaces w₁ w₂ → Inline cfg payload (surface :: surfaces) w w₂

end Webhook
