import WhatsAppBot.Analytics.Rows
import WhatsAppBot.Lib.Buckets

/-!
# The nightly rollup

`rollup_day` computes the figures of one UTC day and writes them into `analytics_daily`. A row keeps
what the table's types and `CHECK` constraints ask for (`Figures.Valid`); a write that breaks one of
them fails.
-/

set_option autoImplicit false

namespace Analytics

open Lib Store

/-- A UTC day, counted from the epoch. -/
abbrev Day := ℤ

def dayLength : Time := 24 * 3600 * 1000000

def dayStart (day : Day) : Time := day * dayLength

/-- `date_trunc('day', t)` where the session's time zone is UTC. -/
def dayOf (t : Time) : Day := t / dayLength

/-- The columns of `analytics_daily` that a run computes. -/
structure Figures where
  requests : ℕ
  errors : ℕ
  promptTokens : ℤ
  completionTokens : ℤ
  totalTokens : ℤ
  latencyMsSum : ℤ
  inputCostUsd : ℚ
  outputCostUsd : ℚ
  messages : ℕ
  deriving DecidableEq

/-- The two subqueries over the rows they select. -/
def aggregate (defaults : PriceDefaults) (rows : List Priced) (messages : List Message) :
    Figures where
  requests := rows.length
  errors := rows.countP fun r => r.1.error.isSome
  promptTokens := (rows.map fun r => r.1.promptTokens).sum
  completionTokens := (rows.map fun r => r.1.completionTokens).sum
  totalTokens := (rows.map fun r => r.1.totalTokens).sum
  latencyMsSum := (rows.map fun r => r.1.latencyMs).sum
  inputCostUsd := (rows.map (inputCost defaults)).sum
  outputCostUsd := (rows.map (outputCost defaults)).sum
  messages := messages.length

/-- The rows of a day: `day_bounds` is half open. -/
def InDay (day : Day) (t : Time) : Prop := InBucket dayStart day t

instance (day : Day) (t : Time) : Decidable (InDay day t) :=
  inferInstanceAs (Decidable (InBucket dayStart day t))

namespace Source

/-- The figures of one day, before they are stored. -/
def figuresOn (src : Source) (defaults : PriceDefaults) (day : Day) : Figures :=
  aggregate defaults (src.priced.filter fun r => InDay day r.1.createdAt)
    (src.messages.filter fun m => InDay day m.createdAt)

/-- The same aggregates over `n` days at once. -/
def figuresOver (src : Source) (defaults : PriceDefaults) (first : Day) (n : ℕ) : Figures :=
  aggregate defaults (src.priced.filter fun r => Within dayStart first n r.1.createdAt)
    (src.messages.filter fun m => Within dayStart first n m.createdAt)

end Source

/-! ## Storing -/

/-- `NUMERIC(18, 6)`. -/
def Figures.rounded (f : Figures) : Figures :=
  { f with inputCostUsd := toScale 6 f.inputCostUsd, outputCostUsd := toScale 6 f.outputCostUsd }

/-- The column types and the `CHECK` constraints. -/
structure Figures.Valid (f : Figures) : Prop where
  requests : f.requests < 2 ^ 31
  errors : f.errors ≤ f.requests
  promptTokens : 0 ≤ f.promptTokens ∧ f.promptTokens < 2 ^ 63
  completionTokens : 0 ≤ f.completionTokens ∧ f.completionTokens < 2 ^ 63
  totalTokens : 0 ≤ f.totalTokens ∧ f.totalTokens < 2 ^ 63
  latencyMsSum : 0 ≤ f.latencyMsSum ∧ f.latencyMsSum < 2 ^ 63
  inputCostUsd : 0 ≤ f.inputCostUsd ∧ f.inputCostUsd < 10 ^ 12
  outputCostUsd : 0 ≤ f.outputCostUsd ∧ f.outputCostUsd < 10 ^ 12
  messages : f.messages < 2 ^ 31

instance (f : Figures) : Decidable f.Valid :=
  decidable_of_iff
    (f.requests < 2 ^ 31 ∧ f.errors ≤ f.requests ∧
      (0 ≤ f.promptTokens ∧ f.promptTokens < 2 ^ 63) ∧
      (0 ≤ f.completionTokens ∧ f.completionTokens < 2 ^ 63) ∧
      (0 ≤ f.totalTokens ∧ f.totalTokens < 2 ^ 63) ∧
      (0 ≤ f.latencyMsSum ∧ f.latencyMsSum < 2 ^ 63) ∧
      (0 ≤ f.inputCostUsd ∧ f.inputCostUsd < 10 ^ 12) ∧
      (0 ≤ f.outputCostUsd ∧ f.outputCostUsd < 10 ^ 12) ∧ f.messages < 2 ^ 31)
    ⟨fun ⟨a, b, c, d, e, f, g, h, i⟩ => ⟨a, b, c, d, e, f, g, h, i⟩,
      fun ⟨a, b, c, d, e, f, g, h, i⟩ => ⟨a, b, c, d, e, f, g, h, i⟩⟩

/-- A row of `analytics_daily`; the day is its key. -/
structure AnalyticsDaily where
  figures : Figures
  updatedAt : Time
  valid : figures.Valid

abbrev DailyTable := Day → Option AnalyticsDaily

/-- `rollup_day`: an upsert that overwrites every column. `none` is a refused write. -/
def rollupDay (src : Source) (defaults : PriceDefaults) (now : Time) (day : Day)
    (t : DailyTable) : Option DailyTable :=
  let f := (src.figuresOn defaults day).rounded
  if h : f.Valid then some (Function.update t day (some ⟨f, now, h⟩)) else none

/-- `rollup_days`. -/
def rollupDays (src : Source) (defaults : PriceDefaults) (now : Time) :
    List Day → DailyTable → Option DailyTable
  | [], t => some t
  | day :: days, t => (rollupDay src defaults now day t).bind (rollupDays src defaults now days)

/-- The stored figures of a day. -/
def DailyTable.figures (t : DailyTable) (day : Day) : Option Figures := (t day).map (·.figures)

/-- A stored column summed over some days. -/
def DailyTable.total {M : Type} [AddCommMonoid M] (t : DailyTable) (column : Figures → M)
    (days : List Day) : M :=
  (days.map fun day => ((t.figures day).map column).getD 0).sum

/-- `AnalyticsDaily.avg_latency_ms`. -/
def Figures.avgLatencyMs (f : Figures) : ℚ :=
  if f.requests = 0 then 0 else f.latencyMsSum / f.requests

/-- `AnalyticsDaily.cost_usd`. -/
def Figures.costUsd (f : Figures) : ℚ := f.inputCostUsd + f.outputCostUsd

end Analytics
