import Mathlib.Tactic.Ring
import WhatsAppBot.Analytics.Proof.Rollup
import WhatsAppBot.Analytics.Rollup

/-!
# The nightly job

`_rollup_analytics`: every tick computes the last days that are over, in one transaction. A tick
that fails or never comes leaves the table as it was, so a history lists the ticks that committed.
`nights_figures`: after any nights, a stored day holds what the last tick that covered it computed.
Main result: `nights_cover`, that the days join up while the ticks do.
-/

set_option autoImplicit false

namespace Analytics

open Lib Store

def analyticsRollupLookbackDays : ℕ := 2

/-- `complete_days_before`. -/
def completeDaysBefore (now : Time) (lookback : ℕ) : List Day :=
  (List.range lookback).reverse.map fun k : ℕ => dayOf now - (k + 1)

/-- A tick that committed, with the rows it saw. -/
structure Tick where
  now : Time
  lookback : ℕ
  source : Source

def Tick.days (tick : Tick) : List Day := completeDaysBefore tick.now tick.lookback

/-- The ticks so far, newest first, and the table they have left. -/
inductive Nights (defaults : PriceDefaults) : List Tick → DailyTable → Prop
  | start : Nights defaults [] fun _ => none
  | tick {ticks : List Tick} {t t' : DailyTable} (tick : Tick) : Nights defaults ticks t →
      rollupDays tick.source defaults tick.now tick.days t = some t' →
      Nights defaults (tick :: ticks) t'

/-- From one set of rows to a later one, what was written before `t` stays as it is: its rows and
their prices. -/
structure Settled (t : Time) (src src' : Source) : Prop where
  aiLogs : (src'.priced.filter fun r => r.1.createdAt < t).Perm
    (src.priced.filter fun r => r.1.createdAt < t)
  messages : (src'.messages.filter fun m => m.createdAt < t).Perm
    (src.messages.filter fun m => m.createdAt < t)

/-- The next tick comes in time: its days join up with those of the last one, and the rows of the
days that were over have settled. -/
structure Tick.Follows (tick last : Tick) : Prop where
  now : last.now ≤ tick.now
  gap : dayOf tick.now ≤ dayOf last.now + tick.lookback
  settled : Settled (dayStart (dayOf last.now)) last.source tick.source

variable {defaults : PriceDefaults} {ticks : List Tick} {tick last : Tick} {t : DailyTable}
  {now : Time} {lookback : ℕ} {day : Day}

/-- Oldest first. -/
theorem completeDaysBefore_eq (now : Time) (lookback : ℕ) :
    completeDaysBefore now lookback = consecutive (dayOf now - lookback) lookback := by
  refine List.ext_getElem (by simp [completeDaysBefore, consecutive]) fun i hi _ => ?_
  have hlt : i < lookback := by simpa [completeDaysBefore] using hi
  simp only [completeDaysBefore, consecutive, List.getElem_map, List.getElem_reverse,
    List.getElem_range, List.length_range]
  have hcast : ((lookback - 1 - i : ℕ) : ℤ) = lookback - 1 - i := by omega
  rw [hcast]
  ring

theorem mem_completeDaysBefore :
    day ∈ completeDaysBefore now lookback ↔ dayOf now - lookback ≤ day ∧ day < dayOf now := by
  rw [completeDaysBefore_eq, mem_consecutive, Int.sub_add_cancel]

/-- **A stored day holds what the last tick that covered it computed.** -/
theorem nights_figures (h : Nights defaults ticks t) (day : Day) :
    t.figures day = (ticks.find? (day ∈ ·.days)).map
      fun tick => (tick.source.figuresOn defaults day).rounded := by
  induction h with
  | start => rfl
  | tick tick _ hrun ih =>
    obtain ⟨hwritten, hkept⟩ := rollupDays_eq hrun
    rw [List.find?_cons]
    by_cases hday : day ∈ tick.days
    · rw [(hwritten day hday).1]
      simp [hday]
    · rw [DailyTable.figures, hkept day hday, ← DailyTable.figures, ih]
      simp [hday]

theorem lt_dayStart (hday : day < dayOf now) {x : Time} (hx : InDay day x) :
    x < dayStart (dayOf now) :=
  hx.2.trans_le (dayStart_mono (Int.add_one_le_of_lt hday))

theorem filter_inDay {α : Type} (stamp : α → Time) {xs ys : List α} (hday : day < dayOf now)
    (h : (ys.filter fun x => stamp x < dayStart (dayOf now)).Perm
      (xs.filter fun x => stamp x < dayStart (dayOf now))) :
    (ys.filter fun x => InDay day (stamp x)).Perm (xs.filter fun x => InDay day (stamp x)) := by
  have hinner : ∀ zs : List α, zs.filter (fun x => InDay day (stamp x)) =
      (zs.filter fun x => stamp x < dayStart (dayOf now)).filter fun x => InDay day (stamp x) := by
    intro zs
    rw [List.filter_filter]
    refine List.filter_congr fun x _ => ?_
    by_cases hx : InDay day (stamp x)
    · simp [hx, lt_dayStart hday hx]
    · simp [hx]
  rw [hinner ys, hinner xs]
  exact h.filter _

theorem aggregate_perm {rows rows' : List Priced} {messages messages' : List Message}
    (hrows : rows.Perm rows') (hmessages : messages.Perm messages') :
    aggregate defaults rows messages = aggregate defaults rows' messages' := by
  simp only [aggregate, hrows.length_eq, hrows.countP_eq, hmessages.length_eq,
    (hrows.map _).sum_eq]

/-- A day that was over does not change any more. -/
theorem Settled.figuresOn {src src' : Source} (h : Settled (dayStart (dayOf now)) src src')
    (hday : day < dayOf now) : src'.figuresOn defaults day = src.figuresOn defaults day :=
  aggregate_perm (filter_inDay (fun r : Priced => r.1.createdAt) hday h.aiLogs)
    (filter_inDay (fun m : Message => m.createdAt) hday h.messages)

theorem dayOf_mono : Monotone dayOf := fun _ _ h => Int.ediv_le_ediv (by decide) h

theorem now_le (hchain : (tick :: ticks).IsChain Tick.Follows) :
    ∀ x ∈ tick :: ticks, x.now ≤ tick.now := by
  induction ticks generalizing tick with
  | nil => simp
  | cons last ticks ih =>
    obtain ⟨hfollows, hrest⟩ := List.isChain_cons_cons.mp hchain
    intro x hx
    rcases List.mem_cons.mp hx with rfl | hx
    · exact le_rfl
    · exact (ih hrest x hx).trans hfollows.now

/-- While every tick follows the one before it, the last of them agrees with the rows of today. -/
theorem find_figures (defaults : PriceDefaults) {first : Tick} (hchain : (tick :: ticks).IsChain Tick.Follows)
    (hfirst : (tick :: ticks).getLast? = some first)
    (hlo : dayOf first.now - first.lookback ≤ day) (hhi : day < dayOf tick.now) :
    ((tick :: ticks).find? (day ∈ ·.days)).map (fun x => x.source.figuresOn defaults day) =
      some (tick.source.figuresOn defaults day) := by
  induction ticks generalizing tick with
  | nil =>
    obtain rfl := Option.some.inj hfirst
    have hday : day ∈ tick.days := mem_completeDaysBefore.mpr ⟨hlo, hhi⟩
    simp [hday]
  | cons last ticks ih =>
    obtain ⟨hfollows, hrest⟩ := List.isChain_cons_cons.mp hchain
    rw [List.find?_cons]
    by_cases hday : day ∈ tick.days
    · simp [hday]
    · -- the day is one of those the last tick had behind it
      have hbefore : day < dayOf last.now := by
        have hout : ¬(dayOf tick.now - tick.lookback ≤ day ∧ day < dayOf tick.now) :=
          fun h => hday (mem_completeDaysBefore.mpr h)
        have hgap := hfollows.gap
        rcases not_and_or.mp hout with h | h
        · exact lt_of_lt_of_le (not_le.mp h) (sub_le_iff_le_add.mpr hgap)
        · exact absurd hhi h
      have hold := ih hrest (by simpa using hfirst) hbefore
      simp only [hday, decide_false]
      rw [hold, hfollows.settled.figuresOn hbefore]

/-- **The days join up while the ticks do**: from the first day of the first tick to the last day
that is over, every day is stored with the figures of today's rows, however many ticks computed it.
A day that is not over is not stored. -/
theorem nights_cover {first : Tick} (h : Nights defaults (tick :: ticks) t)
    (hchain : (tick :: ticks).IsChain Tick.Follows)
    (hfirst : (tick :: ticks).getLast? = some first) (day : Day) :
    (dayOf first.now - first.lookback ≤ day → day < dayOf tick.now →
      t.figures day = some (tick.source.figuresOn defaults day).rounded) ∧
    (dayOf tick.now ≤ day → t.figures day = none) := by
  rw [nights_figures h]
  constructor
  · intro hlo hhi
    have hfound := find_figures defaults hchain hfirst hlo hhi
    obtain ⟨x, hx, heq⟩ := Option.map_eq_some_iff.mp hfound
    rw [hx, Option.map_some, heq]
  · intro hover
    rw [Option.map_eq_none_iff, List.find?_eq_none]
    intro x hx hday
    have hbefore := (mem_completeDaysBefore.mp (of_decide_eq_true hday)).2
    exact absurd (hbefore.trans_le (dayOf_mono (now_le hchain x hx))) (not_lt.mpr hover)

namespace Sample

/-- The nights after the first and the third day; the one between them was missed. -/
def missed : List Tick := [⟨3 * dayLength + 1200, 2, midnight⟩, ⟨dayLength + 1200, 2, midnight⟩]

end Sample

/-- The missed night heals. -/
theorem nights_cover_missed : ∃ t, Nights ⟨1, 4⟩ Sample.missed t ∧
    ∀ day, (dayOf (dayLength + 1200) - 2 ≤ day → day < dayOf (3 * dayLength + 1200) →
      t.figures day = some (Sample.midnight.figuresOn ⟨1, 4⟩ day).rounded) ∧
      (dayOf (3 * dayLength + 1200) ≤ day → t.figures day = none) := by
  have hrun : ((rollupDays Sample.midnight ⟨1, 4⟩ (dayLength + 1200)
      (completeDaysBefore (dayLength + 1200) 2) fun _ => none).bind
        (rollupDays Sample.midnight ⟨1, 4⟩ (3 * dayLength + 1200)
          (completeDaysBefore (3 * dayLength + 1200) 2))).isSome = true := by
    decide +kernel
  obtain ⟨t, ht⟩ := Option.isSome_iff_exists.mp hrun
  obtain ⟨t₁, ht₁, ht⟩ := Option.bind_eq_some_iff.mp ht
  have hnights : Nights ⟨1, 4⟩ Sample.missed t := .tick _ (.tick _ .start ht₁) ht
  have hchain : Sample.missed.IsChain Tick.Follows := by
    refine List.isChain_cons_cons.mpr ⟨⟨by decide, by decide, ?_⟩, List.isChain_singleton _⟩
    exact ⟨List.Perm.refl _, List.Perm.refl _⟩
  exact ⟨t, hnights, nights_cover hnights hchain rfl⟩

end Analytics
