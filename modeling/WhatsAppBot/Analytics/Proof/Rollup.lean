import WhatsAppBot.Analytics.Proof.Pricing

/-!
# Rollups partition history

The day boundaries cut every run of days into disjoint intervals, so every column that is a sum over
rows adds up over the days to the same sum over the whole run (`total_logs`); the costs do so up to
what storing them rounds off. A rollup overwrites its day and nothing else, so running it again, on
the same rows or with late ones, gives what a first run gives. Main result: `rollups_partition`.
-/

set_option autoImplicit false

namespace Analytics

open Lib Store

variable {src src' : Source} {defaults : PriceDefaults} {now : Time} {day first : Day} {n : ℕ}
  {t t' : DailyTable} {days : List Day}

theorem dayStart_mono : Monotone dayStart :=
  fun _ _ h => Int.mul_le_mul_of_nonneg_right h (by decide)

/-! ## What a run writes -/

theorem rollupDay_eq (h : rollupDay src defaults now day t = some t') :
    t'.figures day = some (src.figuresOn defaults day).rounded ∧ ∀ d, d ≠ day → t' d = t d := by
  unfold rollupDay at h
  dsimp only at h
  split at h
  · cases h
    refine ⟨?_, fun d hd => Function.update_of_ne hd _ _⟩
    simp [DailyTable.figures]
  · cases h

theorem rollupDay_of_valid (h : (src.figuresOn defaults day).rounded.Valid) (now : Time)
    (t : DailyTable) : ∃ t', rollupDay src defaults now day t = some t' :=
  ⟨_, dif_pos h⟩

theorem rollupDay_valid (h : rollupDay src defaults now day t = some t') :
    (src.figuresOn defaults day).rounded.Valid := by
  unfold rollupDay at h
  dsimp only at h
  split at h
  · assumption
  · cases h

/-- **Every day of a run** holds its figures, and the other days what they held. -/
theorem rollupDays_eq (h : rollupDays src defaults now days t = some t') :
    (∀ d ∈ days, t'.figures d = some (src.figuresOn defaults d).rounded ∧
      (src.figuresOn defaults d).rounded.Valid) ∧ ∀ d ∉ days, t' d = t d := by
  induction days generalizing t with
  | nil =>
    cases h
    exact ⟨fun _ hd => absurd hd List.not_mem_nil, fun _ _ => rfl⟩
  | cons x days ih =>
    obtain ⟨t₁, hx, h⟩ := Option.bind_eq_some_iff.mp h
    obtain ⟨hdays, hothers⟩ := ih h
    obtain ⟨hfigures, hkept⟩ := rollupDay_eq hx
    constructor
    · intro d hd
      by_cases hlater : d ∈ days
      · exact hdays d hlater
      · obtain rfl : d = x := (List.mem_cons.mp hd).resolve_right hlater
        rw [DailyTable.figures, hothers d hlater]
        exact ⟨hfigures, rollupDay_valid hx⟩
    · intro d hd
      obtain ⟨hne, hlater⟩ := not_or.mp (mt List.mem_cons.mpr hd)
      rw [hothers d hlater, hkept d hne]

theorem total_eq {M : Type} [AddCommMonoid M] (column : Figures → M)
    (h : rollupDays src defaults now days t = some t') :
    t'.total column days =
      (days.map fun d => column (src.figuresOn defaults d).rounded).sum := by
  refine congrArg List.sum (List.map_congr_left fun d hd => ?_)
  rw [((rollupDays_eq h).1 d hd).1]
  rfl

/-! ## The constraints -/

/-- What the columns and settings hold in practice. -/
structure NonNegative (src : Source) (defaults : PriceDefaults) : Prop where
  aiLogs : ∀ l ∈ src.aiLogs,
    0 ≤ l.promptTokens ∧ 0 ≤ l.completionTokens ∧ 0 ≤ l.totalTokens ∧ 0 ≤ l.latencyMs
  pricing : ∀ p ∈ src.pricing.rows, 0 ≤ p.inputPricePer1m ∧ 0 ≤ p.outputPricePer1m
  defaults : 0 ≤ defaults.inputPrice ∧ 0 ≤ defaults.outputPrice

/-- The figures are small enough for their columns. -/
structure Figures.Fits (f : Figures) : Prop where
  requests : f.requests < 2 ^ 31
  promptTokens : f.promptTokens < 2 ^ 63
  completionTokens : f.completionTokens < 2 ^ 63
  totalTokens : f.totalTokens < 2 ^ 63
  latencyMsSum : f.latencyMsSum < 2 ^ 63
  inputCostUsd : f.inputCostUsd < 10 ^ 12
  outputCostUsd : f.outputCostUsd < 10 ^ 12
  messages : f.messages < 2 ^ 31

theorem price_nonneg (h : NonNegative src defaults) {r : Priced} (hr : r ∈ src.priced) :
    r.1 ∈ src.aiLogs ∧ 0 ≤ (r.2.map (·.inputPricePer1m)).getD defaults.inputPrice ∧
      0 ≤ (r.2.map (·.outputPricePer1m)).getD defaults.outputPrice := by
  rw [Source.priced_eq] at hr
  obtain ⟨l, hl, rfl⟩ := List.mem_map.mp hr
  refine ⟨hl, ?_⟩
  dsimp only
  cases hp : src.pricing.priceOf l with
  | none => exact h.defaults
  | some p => exact h.pricing p (List.mem_of_mem_filter (asOf_eq_some hp).1)

/-- **Only the size of the figures can make a rollup fail.** -/
theorem rollupDay_succeeds (h : NonNegative src defaults)
    (hfits : (src.figuresOn defaults day).rounded.Fits) (now : Time) (t : DailyTable) :
    ∃ t', rollupDay src defaults now day t = some t' := by
  have hlogs : ∀ r ∈ src.priced.filter fun r => InDay day r.1.createdAt, r ∈ src.priced :=
    fun r hr => List.mem_of_mem_filter hr
  have hsum : ∀ f : Priced → ℤ, (∀ r ∈ src.priced, 0 ≤ f r) →
      0 ≤ ((src.priced.filter fun r => InDay day r.1.createdAt).map f).sum := fun f hf =>
    List.sum_nonneg fun x hx => by
      obtain ⟨r, hr, rfl⟩ := List.mem_map.mp hx
      exact hf r (hlogs r hr)
  have hcost : ∀ f : Priced → ℚ, (∀ r ∈ src.priced, 0 ≤ f r) →
      0 ≤ toScale 6 ((src.priced.filter fun r => InDay day r.1.createdAt).map f).sum := fun f hf =>
    toScale_nonneg <| List.sum_nonneg fun x hx => by
      obtain ⟨r, hr, rfl⟩ := List.mem_map.mp hx
      exact hf r (hlogs r hr)
  have hrow : ∀ r ∈ src.priced, 0 ≤ r.1.promptTokens ∧ 0 ≤ r.1.completionTokens ∧
      0 ≤ r.1.totalTokens ∧ 0 ≤ r.1.latencyMs := fun r hr => h.aiLogs r.1 (price_nonneg h hr).1
  refine rollupDay_of_valid ⟨hfits.requests, List.countP_le_length,
    ⟨hsum _ fun r hr => (hrow r hr).1, hfits.promptTokens⟩,
    ⟨hsum _ fun r hr => (hrow r hr).2.1, hfits.completionTokens⟩,
    ⟨hsum _ fun r hr => (hrow r hr).2.2.1, hfits.totalTokens⟩,
    ⟨hsum _ fun r hr => (hrow r hr).2.2.2, hfits.latencyMsSum⟩,
    ⟨hcost _ fun r hr => ?_, hfits.inputCostUsd⟩, ⟨hcost _ fun r hr => ?_, hfits.outputCostUsd⟩,
    hfits.messages⟩ now t
  · have hprice := (price_nonneg h hr).2.1
    have htokens : (0 : ℚ) ≤ r.1.promptTokens := by exact_mod_cast (hrow r hr).1
    unfold inputCost million
    positivity
  · have hprice := (price_nonneg h hr).2.2
    have htokens : (0 : ℚ) ≤ r.1.completionTokens := by exact_mod_cast (hrow r hr).2.1
    unfold outputCost million
    positivity

/-! ## Sums over the days -/

/-- A column that sums `f` over the calls. -/
theorem total_logs {M : Type} [AddCommMonoid M] {column : Figures → M} (f : Priced → M)
    (hcolumn : ∀ rows messages, column (aggregate defaults rows messages) = (rows.map f).sum)
    (hrounded : ∀ g : Figures, column g.rounded = column g)
    (h : rollupDays src defaults now (consecutive first n) t = some t') :
    t'.total column (consecutive first n) = column (src.figuresOver defaults first n) := by
  rw [total_eq column h, Source.figuresOver, hcolumn,
    ← sum_buckets dayStart_mono (fun r : Priced => r.1.createdAt) f src.priced first n]
  refine congrArg List.sum (List.map_congr_left fun d _ => ?_)
  rw [hrounded, Source.figuresOn, hcolumn]
  rfl

/-- The column that counts the messages. -/
theorem total_messages (h : rollupDays src defaults now (consecutive first n) t = some t') :
    t'.total (·.messages) (consecutive first n) = (src.figuresOver defaults first n).messages := by
  have hcount : ∀ xs : List Message, xs.length = (xs.map fun _ => 1).sum := by simp
  rw [total_eq (·.messages) h]
  simp only [Source.figuresOver, aggregate]
  rw [hcount, ← sum_buckets dayStart_mono Message.createdAt (fun _ => 1) src.messages first n]
  refine congrArg List.sum (List.map_congr_left fun d _ => ?_)
  rw [← hcount]
  rfl

/-- A cost column, before it is stored, over the days. -/
theorem sum_cost (f : Priced → ℚ) :
    ((consecutive first n).map fun d =>
      ((src.priced.filter fun r => InDay d r.1.createdAt).map f).sum).sum =
      ((src.priced.filter fun r => Within dayStart first n r.1.createdAt).map f).sum :=
  sum_buckets dayStart_mono (fun r : Priced => r.1.createdAt) f src.priced first n

/-- A stored cost column is off by half a unit of the last place for each day. -/
theorem total_cost {column : Figures → ℚ} (f : Priced → ℚ)
    (hcolumn : ∀ rows messages, column (aggregate defaults rows messages) = (rows.map f).sum)
    (hrounded : ∀ g : Figures, column g.rounded = toScale 6 (column g))
    (h : rollupDays src defaults now (consecutive first n) t = some t') :
    |t'.total column (consecutive first n) - column (src.figuresOver defaults first n)| ≤
      (consecutive first n).length * halfUnit 6 := by
  rw [total_eq column h, Source.figuresOver, hcolumn, ← sum_cost]
  have hbound := abs_sum_sub_le (f := fun d => column (src.figuresOn defaults d).rounded)
    (g := fun d => ((src.priced.filter fun r => InDay d r.1.createdAt).map f).sum)
    (e := halfUnit 6) (fun d => ?_) (consecutive first n)
  · exact hbound
  · rw [hrounded, Source.figuresOn, hcolumn]
    exact abs_toScale_sub_le 6 _

/-! ## Running again -/

/-- On the same rows nothing changes. -/
theorem rollup_again (h : rollupDays src defaults now days t = some t') (hday : day ∈ days)
    (now' : Time) : ∃ t'', rollupDay src defaults now' day t' = some t'' ∧
      ∀ d, t''.figures d = t'.figures d := by
  obtain ⟨hstored, hvalid⟩ := (rollupDays_eq h).1 day hday
  obtain ⟨t'', hagain⟩ := rollupDay_of_valid hvalid now' t'
  obtain ⟨hfigures, hkept⟩ := rollupDay_eq hagain
  refine ⟨t'', hagain, fun d => ?_⟩
  by_cases hd : d = day
  · rw [hd, hfigures, hstored]
  · rw [DailyTable.figures, hkept d hd]
    rfl

/-- What is written does not depend on what was there. -/
theorem rollup_late (src : Source) (defaults : PriceDefaults) (now : Time) (day : Day)
    (t t' : DailyTable) :
    (rollupDay src defaults now day t).map (·.figures day) =
      (rollupDay src defaults now day t').map (·.figures day) := by
  unfold rollupDay
  dsimp only
  split
  · simp [DailyTable.figures]
  · rfl

/-- The stored rows of the days add up to the figures `f`. -/
structure AddsUp (t : DailyTable) (days : List Day) (f : Figures) : Prop where
  requests : t.total (·.requests) days = f.requests
  errors : t.total (·.errors) days = f.errors
  promptTokens : t.total (·.promptTokens) days = f.promptTokens
  completionTokens : t.total (·.completionTokens) days = f.completionTokens
  totalTokens : t.total (·.totalTokens) days = f.totalTokens
  latencyMsSum : t.total (·.latencyMsSum) days = f.latencyMsSum
  messages : t.total (·.messages) days = f.messages
  inputCostUsd : |t.total (·.inputCostUsd) days - f.inputCostUsd| ≤ days.length * halfUnit 6
  outputCostUsd : |t.total (·.outputCostUsd) days - f.outputCostUsd| ≤ days.length * halfUnit 6

theorem countP_eq_sum (p : Priced → Bool) (rows : List Priced) :
    rows.countP p = (rows.map fun r => if p r then 1 else 0).sum := by
  induction rows with
  | nil => rfl
  | cons r rows ih => rw [List.countP_cons, ih, List.map_cons, List.sum_cons, add_comm]

theorem rollup_addsUp (h : rollupDays src defaults now (consecutive first n) t = some t') :
    AddsUp t' (consecutive first n) (src.figuresOver defaults first n) where
  requests := total_logs (fun _ => 1) (fun rows _ => by simp [aggregate]) (fun _ => rfl) h
  errors := total_logs _ (fun rows _ => countP_eq_sum _ rows) (fun _ => rfl) h
  promptTokens := total_logs (fun r => r.1.promptTokens) (fun _ _ => rfl) (fun _ => rfl) h
  completionTokens := total_logs (fun r => r.1.completionTokens) (fun _ _ => rfl) (fun _ => rfl) h
  totalTokens := total_logs (fun r => r.1.totalTokens) (fun _ _ => rfl) (fun _ => rfl) h
  latencyMsSum := total_logs (fun r => r.1.latencyMs) (fun _ _ => rfl) (fun _ => rfl) h
  messages := total_messages h
  inputCostUsd := total_cost (inputCost defaults) (fun _ _ => rfl) (fun _ => rfl) h
  outputCostUsd := total_cost (outputCost defaults) (fun _ _ => rfl) (fun _ => rfl) h

/-- **Rollups partition history**: every row is counted on one day, the days add up to the whole, and
another run gives what a first run gives. -/
theorem rollups_partition (h : rollupDays src defaults now (consecutive first n) t = some t') :
    (∀ l ∈ src.aiLogs, Within dayStart first n l.createdAt →
      ∃! day, day ∈ consecutive first n ∧ InDay day l.createdAt) ∧
    (∀ m ∈ src.messages, Within dayStart first n m.createdAt →
      ∃! day, day ∈ consecutive first n ∧ InDay day m.createdAt) ∧
    AddsUp t' (consecutive first n) (src.figuresOver defaults first n) ∧
    (∀ day ∈ consecutive first n, ∀ now', ∃ t'', rollupDay src defaults now' day t' = some t'' ∧
      ∀ d, t''.figures d = t'.figures d) ∧
    ∀ (late : Source) (now' : Time), ∀ day ∈ consecutive first n,
      (rollupDay late defaults now' day t').map (·.figures day) =
        (rollupDay late defaults now' day t).map (·.figures day) :=
  ⟨fun _ _ hl => exists_unique_bucket dayStart_mono hl,
    fun _ _ hm => exists_unique_bucket dayStart_mono hm, rollup_addsUp h,
    fun _ hday now' => rollup_again h hday now',
    fun late now' day _ => rollup_late late defaults now' day t' t⟩

namespace Sample

def launchPrices : PriceHistory := ⟨[launchPrice], List.pairwise_singleton _ _⟩

/-- One call on the first day, one at the midnight after it. -/
def midnight : Source where
  aiLogs := [bigCall 150, bigCall dayLength]
  messages := []
  pricing := launchPrices

end Sample

/-- Two days with a call at the midnight between them. -/
theorem rollups_partition_midnight :
    ∃ t', rollupDays Sample.midnight ⟨1, 4⟩ 0 (consecutive 0 2) (fun _ => none) = some t' ∧
      AddsUp t' (consecutive 0 2) (Sample.midnight.figuresOver ⟨1, 4⟩ 0 2) := by
  have hrun : (rollupDays Sample.midnight ⟨1, 4⟩ 0 (consecutive 0 2) fun _ => none).isSome = true := by
    decide +kernel
  obtain ⟨t', ht'⟩ := Option.isSome_iff_exists.mp hrun
  exact ⟨t', ht', (rollups_partition ht').2.2.1⟩

end Analytics
