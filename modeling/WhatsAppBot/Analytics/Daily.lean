import WhatsAppBot.Analytics.Rollup

/-!
# The dashboard's daily figures

`AnalyticsRepository.daily_usage` and `AnalyticsService.daily`, with UTC as the session's time zone.
Averages and sums are exact; what the service rounds it rounds once.
-/

set_option autoImplicit false

namespace Analytics

open Lib Store

structure DailyUsage where
  day : Day
  requests : ℕ
  promptTokens : ℤ
  completionTokens : ℤ
  totalTokens : ℤ
  avgLatencyMs : ℚ
  costUsd : ℚ
  messages : ℕ
  deriving DecidableEq

/-- `coalesce(avg(x), 0)`. -/
def average (xs : List ℤ) : ℚ := if xs = [] then 0 else xs.sum / xs.length

/-- The row of one day. A day without calls has no group; its sums are those of an empty one. -/
def usageOn (defaults : PriceDefaults) (rows : List Priced) (messages : List Message) (day : Day) :
    DailyUsage :=
  let group := rows.filter fun r => dayOf r.1.createdAt = day
  { day := day
    requests := group.length
    promptTokens := (group.map fun r => r.1.promptTokens).sum
    completionTokens := (group.map fun r => r.1.completionTokens).sum
    totalTokens := (group.map fun r => r.1.totalTokens).sum
    avgLatencyMs := average (group.map fun r => r.1.latencyMs)
    costUsd := (group.map fun r => inputCost defaults r + outputCost defaults r).sum
    messages := (messages.filter fun m => dayOf m.createdAt = day).length }

/-- `daily_usage`: the days of both tables. -/
def Source.dailyUsage (src : Source) (defaults : PriceDefaults) (since : Time) : List DailyUsage :=
  let rows := src.priced.filter fun r => since ≤ r.1.createdAt
  let messages := src.messages.filter fun m => since ≤ m.createdAt
  let days := (rows.map fun r => dayOf r.1.createdAt) ++ messages.map fun m => dayOf m.createdAt
  (days.dedup.insertionSort (· ≤ ·)).map (usageOn defaults rows messages)

/-- What the service rounds. -/
def DailyUsage.read (u : DailyUsage) : DailyUsage :=
  { u with avgLatencyMs := roundTo 1 u.avgLatencyMs, costUsd := roundTo 6 u.costUsd }

/-- `AnalyticsService.daily`. -/
def Source.daily (src : Source) (defaults : PriceDefaults) (now : Time) (days : ℕ) :
    List DailyUsage :=
  (src.dailyUsage defaults (now - days * dayLength)).map DailyUsage.read

end Analytics
