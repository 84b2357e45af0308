import WhatsAppBot.Analytics.Daily
import WhatsAppBot.Analytics.Proof.Rollup

/-!
# The dashboard against the rollup

`daily` groups what is not older than a rolling instant, the rollup the whole of a day
(`dayOf_eq`: the same days). A completed day that is listed shows the figures of its row exactly when
nothing of the day is older than that instant (`daily_agrees_iff`); the first day listed usually is
cut.
-/

set_option autoImplicit false

namespace Analytics

open Lib Store

variable {src : Source} {defaults : PriceDefaults} {now since stamp : Time} {day : Day} {days : ℕ}
  {t t' : DailyTable} {u : DailyUsage} {f : Figures}

/-- The half-open day of `day_bounds` is the day of `date_trunc`. -/
theorem dayOf_eq {t : Time} : dayOf t = day ↔ InDay day t := by
  have hpos : (0 : ℤ) < dayLength := by decide
  unfold dayOf InDay InBucket dayStart
  rw [Int.ediv_eq_iff_of_pos hpos, add_mul, one_mul]

/-- The figures of a day on the dashboard are those of its row, up to rounding. -/
structure Agrees (u : DailyUsage) (f : Figures) : Prop where
  requests : u.requests = f.requests
  promptTokens : u.promptTokens = f.promptTokens
  completionTokens : u.completionTokens = f.completionTokens
  totalTokens : u.totalTokens = f.totalTokens
  avgLatencyMs : u.avgLatencyMs = roundTo 1 f.avgLatencyMs
  costUsd : |u.costUsd - f.costUsd| ≤ 3 * halfUnit 6
  messages : u.messages = f.messages

/-- Nothing of the day is older than the window. -/
def Uncut (src : Source) (since : Time) (day : Day) : Prop :=
  (∀ l ∈ src.aiLogs, InDay day l.createdAt → since ≤ l.createdAt) ∧
    ∀ m ∈ src.messages, InDay day m.createdAt → since ≤ m.createdAt

/-! ## One day -/

/-- The part of a day that the window holds. -/
theorem filter_day {α : Type} (time : α → Time) (xs : List α) (since : Time) (day : Day) :
    ((xs.filter fun x => since ≤ time x).filter fun x => dayOf (time x) = day) =
      (xs.filter fun x => InDay day (time x)).filter fun x => since ≤ time x := by
  rw [List.filter_filter, List.filter_filter]
  refine List.filter_congr fun x _ => ?_
  rw [Bool.and_comm]
  simp only [dayOf_eq]

/-- A listed day is what `usageOn` makes of the window. -/
theorem mem_daily (hu : u ∈ src.daily defaults now days) :
    u = (usageOn defaults (src.priced.filter fun r => now - days * dayLength ≤ r.1.createdAt)
      (src.messages.filter fun m => now - days * dayLength ≤ m.createdAt) u.day).read := by
  obtain ⟨x, hx, rfl⟩ := List.mem_map.mp hu
  obtain ⟨day, -, rfl⟩ := List.mem_map.mp hx
  rfl

/-- All calls and messages of the day are in the window. -/
theorem uncut_iff (src : Source) (since : Time) (day : Day) :
    Uncut src since day ↔
      (∀ r ∈ src.priced.filter fun r => InDay day r.1.createdAt, since ≤ r.1.createdAt) ∧
        ∀ m ∈ src.messages.filter fun m => InDay day m.createdAt, since ≤ m.createdAt := by
  rw [Source.priced_eq]
  simp only [Uncut, List.mem_filter, List.mem_map, decide_eq_true_eq]
  constructor
  · rintro ⟨hlogs, hmessages⟩
    refine ⟨?_, fun m hm => hmessages m hm.1 hm.2⟩
    rintro r ⟨⟨l, hl, rfl⟩, hin⟩
    exact hlogs l hl hin
  · rintro ⟨hlogs, hmessages⟩
    exact ⟨fun l hl hin => hlogs _ ⟨⟨l, hl, rfl⟩, hin⟩, fun m hm hin => hmessages m ⟨hm, hin⟩⟩

theorem average_eq (rows : List Priced) (defaults : PriceDefaults) (messages : List Message) :
    average (rows.map fun r => r.1.latencyMs) =
      (aggregate defaults rows messages).rounded.avgLatencyMs := by
  simp only [average, Figures.avgLatencyMs, Figures.rounded, aggregate, List.map_eq_nil_iff,
    List.length_eq_zero_iff, List.length_map]

theorem cost_agrees (rows : List Priced) (defaults : PriceDefaults) (messages : List Message) :
    |roundTo 6 (rows.map fun r => inputCost defaults r + outputCost defaults r).sum -
      (aggregate defaults rows messages).rounded.costUsd| ≤ 3 * halfUnit 6 := by
  have hsum : (rows.map fun r => inputCost defaults r + outputCost defaults r).sum =
      (rows.map (inputCost defaults)).sum + (rows.map (outputCost defaults)).sum := List.sum_map_add
  have htotal := abs_le.mp (abs_roundTo_sub_le 6
    (rows.map fun r => inputCost defaults r + outputCost defaults r).sum)
  have hinput := abs_le.mp (abs_toScale_sub_le 6 (rows.map (inputCost defaults)).sum)
  have houtput := abs_le.mp (abs_toScale_sub_le 6 (rows.map (outputCost defaults)).sum)
  simp only [Figures.costUsd, Figures.rounded, aggregate]
  rw [abs_le]
  constructor <;> linarith

/-- **A completed day that is listed shows the figures of its row** exactly when nothing of the day
is older than the window. -/
theorem daily_agrees_iff (hrow : rollupDay src defaults stamp day t = some t')
    (hf : t'.figures day = some f) (hu : u ∈ src.daily defaults now days) (hday : u.day = day) :
    Agrees u f ↔ Uncut src (now - days * dayLength) day := by
  obtain rfl : (src.figuresOn defaults day).rounded = f :=
    Option.some.inj ((rollupDay_eq hrow).1.symm.trans hf)
  have hu := mem_daily hu
  rw [hday] at hu
  rw [uncut_iff]
  constructor
  · intro h
    have hrequests := h.requests
    have hmessages := h.messages
    rw [hu] at hrequests hmessages
    simp only [DailyUsage.read, usageOn] at hrequests hmessages
    rw [filter_day (fun r : Priced => r.1.createdAt)] at hrequests
    rw [filter_day Message.createdAt] at hmessages
    have hlogs := List.length_filter_eq_length_iff.mp hrequests
    have hmsgs := List.length_filter_eq_length_iff.mp hmessages
    exact ⟨fun r hr => of_decide_eq_true (hlogs r hr), fun m hm => of_decide_eq_true (hmsgs m hm)⟩
  · rintro ⟨hlogs, hmessages⟩
    have hgroup := (filter_day (fun r : Priced => r.1.createdAt) src.priced
      (now - days * dayLength) day).trans
        (List.filter_eq_self.mpr fun r hr => decide_eq_true (hlogs r hr))
    have hmsgs := (filter_day Message.createdAt src.messages (now - days * dayLength) day).trans
      (List.filter_eq_self.mpr fun m hm => decide_eq_true (hmessages m hm))
    rw [hu]
    constructor <;> simp only [DailyUsage.read, usageOn, hgroup, hmsgs]
    · rfl
    · rfl
    · rfl
    · rfl
    · exact congrArg (roundTo 1) (average_eq _ _ _)
    · exact cost_agrees _ _ _
    · rfl

/-- At midnight the window holds whole days. -/
theorem daily_agrees_midnight : ∃ t' f u,
    rollupDay Sample.midnight ⟨1, 4⟩ 0 0 (fun _ => none) = some t' ∧ t'.figures 0 = some f ∧
      u ∈ Sample.midnight.daily ⟨1, 4⟩ (2 * dayLength) 2 ∧ u.day = 0 ∧ Agrees u f := by
  have hrun : (rollupDay Sample.midnight ⟨1, 4⟩ 0 0 fun _ => none).isSome = true := by decide +kernel
  have hlisted : ∃ u ∈ Sample.midnight.daily ⟨1, 4⟩ (2 * dayLength) 2, u.day = 0 := by decide +kernel
  obtain ⟨t', ht'⟩ := Option.isSome_iff_exists.mp hrun
  obtain ⟨u, hu, hday⟩ := hlisted
  refine ⟨t', _, u, ht', (rollupDay_eq ht').1, hu, hday, ?_⟩
  exact (daily_agrees_iff ht' (rollupDay_eq ht').1 hu hday).mpr
    ⟨by decide +kernel, fun m hm => nomatch hm⟩

namespace Sample

/-- Two calls on the first day. -/
def twoCalls : Source where
  aiLogs := [bigCall 150, bigCall 250]
  messages := []
  pricing := launchPrices

end Sample

/-- **Just after midnight a window of one day holds one of yesterday's two calls.** -/
theorem daily_cut : ¬∀ (src : Source) (defaults : PriceDefaults) (now stamp : Time) (days : ℕ)
    (t t' : DailyTable) (day : Day) (f : Figures) (u : DailyUsage), 1 ≤ days →
    dayStart (day + 1) ≤ now → rollupDay src defaults stamp day t = some t' →
    t'.figures day = some f → u ∈ src.daily defaults now days → u.day = day → Agrees u f := by
  intro h
  have hrun : (rollupDay Sample.twoCalls ⟨1, 4⟩ 0 0 fun _ => none).isSome = true := by decide +kernel
  have hlisted : ∃ u ∈ Sample.twoCalls.daily ⟨1, 4⟩ (dayLength + 200) 1, u.day = 0 ∧ u.requests = 1 := by
    decide +kernel
  obtain ⟨t', ht'⟩ := Option.isSome_iff_exists.mp hrun
  obtain ⟨u, hu, hday, hone⟩ := hlisted
  have hrequests := (h Sample.twoCalls ⟨1, 4⟩ (dayLength + 200) 0 1 _ t' 0 _ u le_rfl (by decide) ht'
    (rollupDay_eq ht').1 hu hday).requests
  rw [hone] at hrequests
  revert hrequests
  decide +kernel

end Analytics
