import WhatsAppBot.Lib.AsOf
import WhatsAppBot.Lib.Decimal
import WhatsAppBot.Store.Rows

/-!
# Calls and prices

The rows the cost figures are computed from, the price of a call (the one in force when it was made)
and `PricingService.add`. Money is exact: `NUMERIC` columns round when they store.
-/

set_option autoImplicit false

namespace Analytics

open Lib Store

structure AiLog where
  model : String
  promptTokens : ℤ
  completionTokens : ℤ
  totalTokens : ℤ
  latencyMs : ℤ
  error : Option String
  createdAt : Time
  deriving DecidableEq

structure ModelPricing where
  model : String
  inputPricePer1m : ℚ
  outputPricePer1m : ℚ
  effectiveFrom : Time
  deriving DecidableEq

/-- The columns of `uq_model_pricing_period`. -/
def ModelPricing.period (p : ModelPricing) : String × Time := (p.model, p.effectiveFrom)

/-- `model_pricing`, with its unique constraint. -/
structure PriceHistory where
  rows : List ModelPricing
  unique : rows.Pairwise (·.period ≠ ·.period)

structure PriceDefaults where
  inputPrice : ℚ
  outputPrice : ℚ

structure Source where
  aiLogs : List AiLog
  messages : List Message
  pricing : PriceHistory

namespace PriceHistory

/-- The prices of a model. -/
def ofModel (h : PriceHistory) (model : String) : List ModelPricing :=
  h.rows.filter fun p => p.model = model

/-- The price row in force for a call. -/
def priceOf (h : PriceHistory) (l : AiLog) : Option ModelPricing :=
  asOf ModelPricing.effectiveFrom l.createdAt (h.ofModel l.model)

/-- `_pricing_lateral`. -/
def lateral (h : PriceHistory) (l : AiLog) : List ModelPricing := (h.priceOf l).toList

end PriceHistory

/-- A call with its price. -/
abbrev Priced := AiLog × Option ModelPricing

def million : ℚ := 1000000

/-- The first half of `_cost_parts`. -/
def inputCost (defaults : PriceDefaults) (r : Priced) : ℚ :=
  r.1.promptTokens / million * (r.2.map (·.inputPricePer1m)).getD defaults.inputPrice

/-- The second half of `_cost_parts`. -/
def outputCost (defaults : PriceDefaults) (r : Priced) : ℚ :=
  r.1.completionTokens / million * (r.2.map (·.outputPricePer1m)).getD defaults.outputPrice

/-- `ai_logs` with the price of every call. -/
def Source.priced (src : Source) : List Priced := leftJoin src.aiLogs src.pricing.lateral

theorem Source.priced_eq (src : Source) :
    src.priced = src.aiLogs.map fun l => (l, src.pricing.priceOf l) :=
  leftJoin_eq_map src.aiLogs src.pricing.priceOf

/-! ## A new price -/

inductive PricingError where
  | duplicate
  | outOfRange
  deriving DecidableEq

/-- What a `NUMERIC(12, 6)` column takes. -/
def storedPrice (price : ℚ) : Option ℚ :=
  if |toScale 6 price| < 10 ^ 6 then some (toScale 6 price) else none

namespace PriceHistory

/-- The insert. -/
def insert (h : PriceHistory) (p : ModelPricing) : Except PricingError PriceHistory :=
  if hnew : ∀ q ∈ h.rows, q.period ≠ p.period then
    .ok ⟨h.rows ++ [p], by
      rw [List.pairwise_append]
      refine ⟨h.unique, List.pairwise_singleton _ _, fun q hq x hx => ?_⟩
      rw [List.mem_singleton.mp hx]
      exact hnew q hq⟩
  else .error .duplicate

/-- `PricingService.add`; without an `effective_from` the price holds from now on. -/
def add (h : PriceHistory) (now : Time) (model : String) (inputPrice outputPrice : ℚ)
    (effectiveFrom : Option Time) : Except PricingError (PriceHistory × ModelPricing) :=
  match storedPrice inputPrice, storedPrice outputPrice with
  | some input, some output =>
    let p : ModelPricing := ⟨model, input, output, effectiveFrom.getD now⟩
    (h.insert p).map fun h' => (h', p)
  | _, _ => .error .outOfRange

end PriceHistory

end Analytics
