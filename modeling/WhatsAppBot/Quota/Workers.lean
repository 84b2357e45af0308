import WhatsAppBot.Lib.Headcount
import WhatsAppBot.Quota.Check

/-!
# The workers

Each worker checks a message, makes at most one completion for it and records what that used. They
share Redis and the clock. Between any two commands of one worker others run: a day that was read may
be over when its key is used. Whether the operators' kill switch is set is left open, and so is what
a completion uses, up to a bound on each total.
-/

set_option autoImplicit false

namespace Quota

open Lib

structure World where
  redis : Redis
  clock : Seconds

def World.empty (clock : Seconds) : World := ⟨.empty, clock⟩

structure Job where
  waId : String
  waMessageId : String
  text : Option String

/-- One turn of a worker. -/
def work (st : Settings) (job : Job) : QuotaM Unit := do
  let d ← check st job.waId job.waMessageId job.text
  if d.isAllowed then
    match ← perform .complete with
    | none => pure ()
    | some u => recordUsage st u
  else pure ()

/-- What a completion adds to a total. -/
def Usage.amount (st : Settings) (u : Usage) : Counter → ℚ
  | .spend => costOf st u
  | .tokens => u.total

variable (st : Settings) (most : Counter → ℚ)

/-- A completion adds at most `most` to each total. -/
def Usage.Fits (u : Usage) : Prop :=
  u.amount st .spend ≤ most .spend ∧ u.amount st .tokens ≤ most .tokens

instance (u : Usage) : Decidable (u.Fits st most) :=
  inferInstanceAs (Decidable (_ ∧ _))

/-- A command to Redis. -/
def serveStep (w : World) (o : Op) (r : o.Resp) : Option (World × Unit) :=
  if (serve w.clock o w.redis).1 = r then
    some ({ w with redis := (serve w.clock o w.redis).2 }, ())
  else none

def step (_ : List Unit) (w : World) (_ : Unit) : (o : Op) → o.Resp → Option (World × Unit)
  | .time, t => if w.clock ≤ t then some ({ w with clock := t }, ()) else none
  | .today, d =>
    if dayOf w.clock ≤ d then some ({ w with clock := max w.clock (d * daySeconds) }, ()) else none
  | .killed, _ => some (w, ())
  | .complete, u => if ∀ v ∈ u, v.Fits st most then some (w, ()) else none
  | o, r => serveStep w o r

def sem : Sem quotaSig World Unit Job where
  idle := ()
  program := work st
  step := step st most

theorem serveStep_some {w w' : World} {o : Op} {r : o.Resp} {u : Unit}
    (h : serveStep w o r = some (w', u)) :
    (serve w.clock o w.redis).1 = r ∧ w' = { w with redis := (serve w.clock o w.redis).2 } := by
  unfold serveStep at h
  split at h
  · rename_i hr
    exact ⟨hr, (Prod.mk.inj (Option.some.inj h)).1.symm⟩
  · cases h

/-- What the world answers when every completion uses `usage`. -/
def World.reply (usage : Usage) (w : World) (_ : Unit) : (o : Op) → Option o.Resp
  | .complete => some (some usage)
  | o => some (serve w.clock o w.redis).1

end Quota
