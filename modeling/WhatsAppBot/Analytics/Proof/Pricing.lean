import WhatsAppBot.Analytics.Rollup

/-!
# What a new price changes

The rows of one model start at different instants, so a new row is in force from its start to the
next start of its model (`priceOf_insert`). A call keeps its cost outside of that period, and no
figure but the costs looks at a price (`add_frame`).
-/

set_option autoImplicit false

namespace Analytics

open Lib Store

variable {h h' : PriceHistory} {p : ModelPricing} {l : AiLog} {model : String}

/-- The prices of one model start apart. -/
theorem ofModel_pairwise (h : PriceHistory) (model : String) :
    (h.ofModel model).Pairwise (·.effectiveFrom ≠ ·.effectiveFrom) := by
  refine (h.unique.filter _).imp_of_mem fun {p q} hp hq hne heq => hne ?_
  have hp := of_decide_eq_true (List.mem_filter.mp hp).2
  have hq := of_decide_eq_true (List.mem_filter.mp hq).2
  exact Prod.ext (hp.trans hq.symm) heq

theorem insert_rows (hadd : h.insert p = .ok h') :
    h'.rows = h.rows ++ [p] ∧ ∀ q ∈ h.rows, q.period ≠ p.period := by
  unfold PriceHistory.insert at hadd
  split at hadd
  · rename_i hnew
    cases hadd
    exact ⟨rfl, hnew⟩
  · cases hadd

theorem insert_new (hnew : ∀ q ∈ h.rows, q.period ≠ p.period) : ∃ h', h.insert p = .ok h' :=
  ⟨_, dif_pos hnew⟩

/-- The price `p` is in force for the call among the prices `h`. -/
def Covers (h : PriceHistory) (p : ModelPricing) (l : AiLog) : Prop :=
  l.model = p.model ∧ InForce ModelPricing.effectiveFrom p (h.ofModel p.model) l.createdAt

open Classical in
/-- **A new row is in force from its start to the next start of its model.** -/
theorem priceOf_insert (hadd : h.insert p = .ok h') (l : AiLog) :
    h'.priceOf l = if Covers h p l then some p else h.priceOf l := by
  obtain ⟨hrows, hnew⟩ := insert_rows hadd
  unfold PriceHistory.priceOf
  by_cases hmodel : l.model = p.model
  · have hsplit : h'.ofModel l.model = h.ofModel l.model ++ [p] := by
      simp [PriceHistory.ofModel, hrows, hmodel]
    have hapart : ∀ q ∈ h.ofModel l.model, q.effectiveFrom ≠ p.effectiveFrom := by
      intro q hq heq
      obtain ⟨hq, hqm⟩ := List.mem_filter.mp hq
      exact hnew q hq (Prod.ext ((of_decide_eq_true hqm).trans hmodel) heq)
    rw [hsplit, asOf_append (ofModel_pairwise h l.model) hapart]
    simp [Covers, hmodel]
  · have hsame : h'.ofModel l.model = h.ofModel l.model := by
      simp [PriceHistory.ofModel, hrows, Ne.symm hmodel]
    rw [hsame, if_neg fun hc => hmodel hc.1]

theorem add_insert {now : Time} {inputPrice outputPrice : ℚ} {effectiveFrom : Option Time}
    (hadd : h.add now model inputPrice outputPrice effectiveFrom = .ok (h', p)) :
    h.insert p = .ok h' ∧ p.model = model ∧ p.effectiveFrom = effectiveFrom.getD now ∧
      storedPrice inputPrice = some p.inputPricePer1m ∧
      storedPrice outputPrice = some p.outputPricePer1m := by
  unfold PriceHistory.add at hadd
  split at hadd
  · rename_i input output hinput houtput
    dsimp only at hadd
    cases hinsert : h.insert ⟨model, input, output, effectiveFrom.getD now⟩ with
    | error e =>
      rw [hinsert] at hadd
      cases hadd
    | ok x =>
      rw [hinsert] at hadd
      cases hadd
      exact ⟨hinsert, rfl, rfl, hinput, houtput⟩
  · cases hadd

/-! ## The figures -/

/-- Everything but the costs. -/
structure SameCounts (f g : Figures) : Prop where
  requests : f.requests = g.requests
  errors : f.errors = g.errors
  promptTokens : f.promptTokens = g.promptTokens
  completionTokens : f.completionTokens = g.completionTokens
  totalTokens : f.totalTokens = g.totalTokens
  latencyMsSum : f.latencyMsSum = g.latencyMsSum
  messages : f.messages = g.messages

/-- The calls of a selection do not depend on the prices. -/
theorem priced_filter (src : Source) (sel : AiLog → Bool) :
    (src.priced.filter fun r => sel r.1) =
      (src.aiLogs.filter sel).map fun l => (l, src.pricing.priceOf l) := by
  rw [Source.priced_eq, List.filter_map]
  rfl

/-- **No figure but the costs depends on the prices.** -/
theorem aggregate_sameCounts (src : Source) (prices : PriceHistory) (defaults : PriceDefaults)
    (sel : AiLog → Bool) (messages : List Message) :
    SameCounts
      (aggregate defaults ({ src with pricing := prices }.priced.filter fun r => sel r.1) messages)
      (aggregate defaults (src.priced.filter fun r => sel r.1) messages) := by
  rw [priced_filter, priced_filter]
  constructor <;> simp [aggregate, List.map_map, List.countP_map, Function.comp_def]

namespace Sample

def noPrices : PriceHistory := ⟨[], .nil⟩

def launchPrice : ModelPricing := ⟨"gpt-4.1-mini", 2 / 5, 8 / 5, 100⟩

/-- A call of a million tokens each way. -/
def bigCall (createdAt : Time) : AiLog :=
  ⟨"gpt-4.1-mini", 1000000, 1000000, 2000000, 800, none, createdAt⟩

end Sample

end Analytics
