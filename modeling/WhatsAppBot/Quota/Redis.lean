import Mathlib.Data.Rat.Floor
import Mathlib.Logic.Function.Basic
import WhatsAppBot.Lib.Eval
import WhatsAppBot.Lib.Zset

/-!
# The quota's keys in Redis

`Redis`: the keys `quota.py` writes, each under the customer, text or day it belongs to, with the
instant it expires. `serve` answers one command, or one transaction of several, at a given reading of
the clock. Times are seconds since the epoch, in exact arithmetic.
-/

set_option autoImplicit false

namespace Quota

open Lib

abbrev Seconds := ℚ

/-- A UTC day, counted from the epoch. -/
abbrev Day := ℤ

def daySeconds : Seconds := 86400

def dayOf (t : Seconds) : Day := ⌊t / daySeconds⌋

structure Expiring (α : Type) where
  value : α
  deadline : Seconds

def live {α : Type} (clock : Seconds) (x : Option (Expiring α)) : Option α :=
  (x.filter fun e => clock ≤ e.deadline).map (·.value)

/-- The two running totals of a day. -/
inductive Counter where
  | spend
  | tokens
  deriving DecidableEq

abbrev Times := Zset String Seconds

structure Redis where
  messages : String → Option (Expiring Times)
  duplicates : String × String → Option (Expiring Times)
  blocked : String → Option Seconds
  totals : Counter × Day → Option (Expiring ℚ)

def Redis.empty : Redis := ⟨fun _ => none, fun _ => none, fun _ => none, fun _ => none⟩

/-- What the first transaction of `_check_customer` answers. -/
structure Tally where
  added : Bool
  burst : Nat
  perMinute : Nat
  perHour : Nat
  perDay : Nat
  deriving DecidableEq

/-- Token counts of a completion. -/
structure Usage where
  promptTokens : ℤ
  completionTokens : ℤ
  deriving DecidableEq

inductive Op where
  /-- `time.time()`. -/
  | time
  /-- `_today()`. -/
  | today
  | ttl (waId : String)
  | countMessage (waId member : String) (now burst : Seconds)
  | setBlock (waId : String) (seconds : Nat)
  | countText (waId fingerprint member : String) (now : Seconds) (window : Nat)
  /-- Whether the operators' kill switch is set. -/
  | killed
  | total (c : Counter) (day : Day)
  | addUsage (day : Day) (cost : ℚ) (tokens : ℤ)
  /-- The model call; it may not be made. -/
  | complete
  deriving DecidableEq

@[reducible] def Op.Resp : Op → Type
  | time => Seconds
  | today => Day
  | ttl _ => ℤ
  | countMessage _ _ _ _ => Tally
  | setBlock _ _ | killed => Bool
  | countText _ _ _ _ _ => Nat
  | total _ _ => Option ℚ
  | addUsage _ _ _ => Unit
  | complete => Option Usage

instance : (o : Op) → DecidableEq o.Resp
  | .time => inferInstanceAs (DecidableEq ℚ)
  | .today | .ttl _ => inferInstanceAs (DecidableEq ℤ)
  | .countMessage _ _ _ _ => inferInstanceAs (DecidableEq Tally)
  | .setBlock _ _ | .killed => inferInstanceAs (DecidableEq Bool)
  | .countText _ _ _ _ _ => inferInstanceAs (DecidableEq Nat)
  | .total _ _ => inferInstanceAs (DecidableEq (Option ℚ))
  | .addUsage _ _ _ => inferInstanceAs (DecidableEq Unit)
  | .complete => inferInstanceAs (DecidableEq (Option Usage))

abbrev quotaSig : Sig := ⟨Op, Op.Resp⟩

namespace Redis

/-- The messages that are left once those older than a day are removed. -/
def recentMessages (db : Redis) (clock : Seconds) (waId : String) (now : Seconds) : Times :=
  ((live clock (db.messages waId)).getD .empty).removeRange 0 (now - daySeconds)

def countMessage (db : Redis) (clock : Seconds) (waId member : String) (now burst : Seconds) :
    Tally × Redis :=
  let old := db.recentMessages clock waId now
  let z := old.add member now
  (⟨!old.has member, z.count (now - burst) now, z.count (now - 60) now, z.count (now - 3600) now,
      z.count (now - daySeconds) now⟩,
    { db with messages := Function.update db.messages waId (some ⟨z, clock + daySeconds⟩) })

def countText (db : Redis) (clock : Seconds) (waId fingerprint member : String) (now : Seconds)
    (window : Nat) : Nat × Redis :=
  let old := ((live clock (db.duplicates (waId, fingerprint))).getD .empty).removeRange 0
    (now - window)
  let z := old.add member now
  -- `EXPIRE` with no time to live deletes the key
  let stored := if window = 0 then none else some ⟨z, clock + window⟩
  (z.count (now - 60) now,
    { db with duplicates := Function.update db.duplicates (waId, fingerprint) stored })

/-- `TTL`: the remaining seconds to the nearest integer, `-2` for a key that is not there. -/
def ttl (db : Redis) (clock : Seconds) (waId : String) : ℤ :=
  match db.blocked waId with
  | some deadline => if clock ≤ deadline then ⌊deadline - clock + 1 / 2⌋ else -2
  | none => -2

/-- `SETEX` refuses a time to live of zero. -/
def setBlock (db : Redis) (clock : Seconds) (waId : String) (seconds : Nat) : Bool × Redis :=
  if seconds = 0 then (false, db)
  else (true, { db with blocked := Function.update db.blocked waId (some (clock + seconds)) })

/-- `INCRBY` and `EXPIRE` of one counter. -/
def increase (db : Redis) (clock : Seconds) (c : Counter) (day : Day) (amount : ℚ) : Redis :=
  let value := (live clock (db.totals (c, day))).getD 0 + amount
  { db with totals := Function.update db.totals (c, day) (some ⟨value, clock + 2 * daySeconds⟩) }

end Redis

/-- The answer to an operation at the reading `clock`, and what it leaves. -/
def serve (clock : Seconds) : (o : Op) → Redis → o.Resp × Redis
  | .time, db => (clock, db)
  | .today, db => (dayOf clock, db)
  | .ttl waId, db => (db.ttl clock waId, db)
  | .countMessage waId member now burst, db => db.countMessage clock waId member now burst
  | .setBlock waId seconds, db => db.setBlock clock waId seconds
  | .countText waId fingerprint member now window, db =>
    db.countText clock waId fingerprint member now window
  | .killed, db => (false, db)
  | .total c day, db => (live clock (db.totals (c, day)), db)
  | .addUsage day cost tokens, db =>
    ((), (db.increase clock .spend day cost).increase clock .tokens day tokens)
  | .complete, db => (none, db)

end Quota
