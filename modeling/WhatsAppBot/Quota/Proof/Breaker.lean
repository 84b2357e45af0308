import Mathlib.Tactic.Linarith
import WhatsAppBot.Quota.Sample
import WhatsAppBot.Quota.Workers

/-!
# The spend breaker

A worker that has read a total below its limit adds to it later, on whatever day it is then. For a day
`d`, `Phase.mayAdd` says which workers can still add to its total without reading it first; each of
them adds at most `most`. `budget`: what is recorded for `d`, with `most` for each of those workers,
stays within the limit and `most` for every worker. `overshoot_bounded` reads the claimed bound off.
-/

set_option autoImplicit false

namespace Quota

open Lib

/-! ## One worker and one total -/

inductive Phase where
  | free
  /-- It goes by the total of day `e`. -/
  | checking (e : Day)
  /-- It read a total below the limit. -/
  | cleared
  /-- It adds to the total of day `e`. -/
  | recording (e : Day)
  deriving DecidableEq

namespace Phase

def readDay (a : Phase) (e : Day) : Phase := if a = cleared then recording e else checking e

/-- On day `today`: it can add to the total of `d` without reading that total first. -/
def mayAdd (today d : Day) : Phase → Bool
  | free => false
  | checking e => e ≠ d ∧ today ≤ d
  | cleared => today ≤ d
  | recording e => e = d

/-- The days it has read are not to come. -/
def Past (today : Day) : Phase → Prop
  | checking e | recording e => e ≤ today
  | free | cleared => True

/-- It read a total below the limit. -/
def passed : Phase → Bool
  | cleared | recording _ => true
  | free | checking _ => false

end Phase

def added (k : Counter) (cost : ℚ) (tokens : ℤ) : ℚ :=
  match k with
  | .spend => cost
  | .tokens => tokens

variable (st : Settings) (most : Counter → ℚ) (k : Counter)

def meter : Monitor quotaSig Phase where
  ok a o :=
    match o with
    | .total c d => c = k → a = .checking d
    | .addUsage d cost tokens => a = .recording d ∧ added k cost tokens ≤ most k
    | _ => True
  next a o r :=
    match o, r with
    | .today, d => a.readDay d
    | .total c _, v => if c = k then if st.limit k ≤ (v : Option ℚ).getD 0 then .free else .cleared else a
    | .addUsage _ _ _, _ => .free
    | _, _ => a
  may o r :=
    match o, r with
    | .complete, u => ∀ v ∈ (u : Option Usage), v.Fits st most
    | _, _ => True

variable {st most k} {a : Phase} {W : Nat} {t₀ : Seconds} {s : Sys quotaSig World Unit Job}

/-- The operations of a customer's check. -/
def isCustomer : Op → Bool
  | .time | .ttl _ | .countMessage _ _ _ _ | .setBlock _ _ | .countText _ _ _ _ _ => true
  | _ => false

theorem checkCustomer_only (waId id : String) (text : Option String) :
    (checkCustomer st waId id text).Only fun o => isCustomer o = true := by
  have hperform : ∀ {α : Type} {o : Op} {f : o.Resp → QuotaM α}, isCustomer o = true →
      (∀ r, (f r).Only fun o => isCustomer o = true) →
      (perform o >>= f).Only fun o => isCustomer o = true := fun ho hf => Prog.Only.call_bind ho hf
  refine hperform rfl fun now => hperform rfl fun ttl => Prog.Only.ite (Prog.only_pure _) ?_
  refine hperform rfl fun t => Prog.Only.ite (Prog.only_pure _) (Prog.Only.ite ?_ ?_)
  · exact hperform rfl fun set => Prog.Only.ite (Prog.only_pure _) (Prog.only_pure _)
  · refine Prog.Only.bind ?_ fun repeats => Prog.Only.ite (Prog.only_pure _) (Prog.only_pure _)
    unfold repeatsOf
    cases text with
    | none => exact Prog.only_pure _
    | some body =>
      exact Prog.Only.ite (Prog.only_pure _) (hperform rfl fun n => Prog.only_pure _)

theorem customer_same {o : Op} (h : isCustomer o = true) :
    (meter st most k).ok a o ∧ ∀ r, (meter st most k).next a o r = a := by
  cases o with
  | time | ttl | countMessage | setBlock | countText => exact ⟨trivial, fun _ => rfl⟩
  | _ => cases h

/-- The spend check passes only what reads a total below its limit. -/
theorem checkSpend_wp : (checkSpend st).wp (meter st most k)
    (fun d a => d.isAllowed = true → a = .cleared) .free := by
  refine Prog.wp_call_bind trivial fun day _ => Prog.wp_call_bind trivial fun killed _ =>
    Prog.wp_call_bind (fun _ => rfl) fun spend _ => ?_
  have htokens : (meter st most k).ok ((meter st most k).next (.checking day) (.total .spend day) spend)
      (.total .tokens day) := by
    rintro rfl
    rfl
  refine Prog.wp_call_bind htokens fun tokens _ => ?_
  split
  · exact nofun
  · split
    · exact nofun
    · rename_i hspend
      split
      · exact nofun
      · rename_i hlimit
        refine fun _ => ?_
        cases k with
        | spend => exact if_neg hspend
        | tokens => exact if_neg hlimit

theorem recordUsage_wp {u : Usage} (hu : u.Fits st most) :
    (recordUsage st u).wp (meter st most k) (fun _ _ => True) .cleared := by
  unfold recordUsage
  split
  · trivial
  · split
    · trivial
    · refine Prog.wp_call_bind trivial fun day _ => ⟨⟨rfl, ?_⟩, fun _ _ => trivial⟩
      cases k with
      | spend => exact hu.1
      | tokens => exact hu.2

theorem work_eq (st : Settings) (job : Job) :
    work st job = check st job.waId job.waMessageId job.text >>= fun d =>
      if d.isAllowed = true then
        perform .complete >>= fun u => u.elim (pure ()) (recordUsage st) else pure () := by
  unfold work
  refine congrArg _ (funext fun d => if_congr Iff.rfl (congrArg _ (funext fun u => ?_)) rfl)
  cases u <;> rfl

/-- **A worker adds only to a day it has read since it passed the check.** -/
theorem work_wp (hguard : st.spendGuardEnabled = true) (job : Job) :
    (work st job).wp (meter st most k) (fun _ _ => True) .free := by
  rw [work_eq, check, hguard, Bool.not_true, Bool.and_false, if_neg Bool.false_ne_true, if_pos rfl,
    Prog.wp_bind, Prog.wp_bind]
  refine Prog.wp_mono checkSpend_wp fun spend a hspend => ?_
  dsimp only
  -- what follows a check that passed
  have hrest : ∀ d : Decision, a = .cleared ∨ d.isAllowed = false →
      Prog.wp (meter st most k) (if d.isAllowed = true then
        perform .complete >>= fun u => u.elim (pure ()) (recordUsage st) else pure ())
        (fun _ _ => True) a := by
    rintro d (rfl | hd)
    · split
      · refine Prog.wp_call_bind trivial fun u hu => ?_
        cases u with
        | none => trivial
        | some u => exact recordUsage_wp (hu u rfl)
      · trivial
    · rw [hd]
      trivial
  split
  · rename_i hnot
    exact hrest spend (.inr (by simpa using hnot))
  · rename_i hall
    have hcleared : a = .cleared := hspend (by simpa using hall)
    split
    · exact hrest allowed (.inl hcleared)
    · exact (checkCustomer_only ..).wp_bind (fun o ho => customer_same ho) fun d =>
        hrest (d.getD allowed) (.inl hcleared)

theorem meter_accepts (hguard : st.spendGuardEnabled = true) :
    (meter st most k).Accepts .free (fun _ => True) (sem st most) where
  program := work_wp hguard
  may {ts w t o r x} h := by
    change step st most ts w t o r = _ at h
    cases o with
    | complete =>
      simp only [step] at h
      split at h
      · assumption
      · cases h
    | _ => trivial

/-! ## Days -/

theorem lt_day {t : Seconds} {d : Day} (h : dayOf t ≤ d) : t < (d + 1) * daySeconds := by
  have hpos : (0 : ℚ) < daySeconds := by norm_num [daySeconds]
  have hlt : t / daySeconds < d + 1 := by
    have := Int.lt_floor_add_one (t / daySeconds)
    have hle : ((dayOf t : ℤ) : ℚ) ≤ d := by exact_mod_cast h
    unfold dayOf at hle
    linarith
  rwa [div_lt_iff₀ hpos] at hlt

theorem day_le {t : Seconds} {d : Day} : d ≤ dayOf t ↔ (d : ℚ) * daySeconds ≤ t := by
  have hpos : (0 : ℚ) < daySeconds := by norm_num [daySeconds]
  rw [dayOf, Int.le_floor, le_div_iff₀ hpos]

theorem dayOf_mono {t u : Seconds} (h : t ≤ u) : dayOf t ≤ dayOf u :=
  day_le.mpr ((day_le.mp (le_refl _)).trans h)

/-- The clock once day `d` was read. -/
theorem dayOf_max {t : Seconds} {d : Day} (h : dayOf t ≤ d) :
    dayOf (max t (d * daySeconds)) = d := by
  refine le_antisymm ?_ (day_le.mpr (le_max_right _ _))
  refine Int.lt_add_one_iff.mp (Int.not_le.mp fun hle => ?_)
  have hmax := day_le.mp hle
  have hpos : (0 : ℚ) < daySeconds := by norm_num [daySeconds]
  push_cast at hmax
  rcases le_max_iff.mp hmax with hlate | hlate
  · exact absurd (lt_day h) (not_lt.mpr hlate)
  · nlinarith

/-! ## What a step does to the totals -/

/-- The operations that leave the clock and the totals alone. -/
def isAside : Op → Bool
  | .time | .today | .addUsage _ _ _ => false
  | _ => true

variable {ts : List Unit} {w w' : World} {u u' : Unit}

theorem step_aside {o : Op} {r : o.Resp} (ho : isAside o = true)
    (h : step st most ts w u o r = some (w', u')) :
    w'.clock = w.clock ∧ w'.redis.totals = w.redis.totals := by
  cases o with
  | time | today | addUsage => cases ho
  | killed =>
    obtain ⟨rfl, -⟩ := Prod.mk.inj (Option.some.inj h)
    exact ⟨rfl, rfl⟩
  | complete =>
    simp only [step] at h
    split at h
    · obtain ⟨rfl, -⟩ := Prod.mk.inj (Option.some.inj h)
      exact ⟨rfl, rfl⟩
    · cases h
  | setBlock waId seconds =>
    obtain ⟨-, rfl⟩ := serveStep_some h
    dsimp only [serve, Redis.setBlock]
    split <;> exact ⟨rfl, rfl⟩
  | ttl | countMessage | countText | total =>
    obtain ⟨-, rfl⟩ := serveStep_some h
    exact ⟨rfl, rfl⟩

theorem step_total {c : Counter} {d : Day} {v : Option ℚ}
    (h : step st most ts w u (.total c d) v = some (w', u')) :
    v = live w.clock (w.redis.totals (c, d)) :=
  (serveStep_some h).1.symm

theorem step_time {t : Seconds} (h : step st most ts w u .time t = some (w', u')) :
    w.clock ≤ w'.clock ∧ w'.redis = w.redis := by
  simp only [step] at h
  split at h
  · rename_i hle
    obtain ⟨rfl, -⟩ := Prod.mk.inj (Option.some.inj h)
    exact ⟨hle, rfl⟩
  · cases h

theorem step_today {d : Day} (h : step st most ts w u .today d = some (w', u')) :
    dayOf w.clock ≤ d ∧ dayOf w'.clock = d ∧ w'.redis = w.redis := by
  simp only [step] at h
  split at h
  · rename_i hle
    obtain ⟨rfl, -⟩ := Prod.mk.inj (Option.some.inj h)
    exact ⟨hle, dayOf_max hle, rfl⟩
  · cases h

/-- What is stored under the total of a day, whether it is still live or not. -/
def recorded (w : World) (k : Counter) (d : Day) : ℚ :=
  ((w.redis.totals (k, d)).map (·.value)).getD 0

theorem step_addUsage {d : Day} {cost : ℚ} {tokens : ℤ} {r : Unit} (k : Counter)
    (h : step st most ts w u (.addUsage d cost tokens) r = some (w', u')) :
    w'.clock = w.clock ∧ (∀ e, e ≠ d → w'.redis.totals (k, e) = w.redis.totals (k, e)) ∧
      w'.redis.totals (k, d) = some ⟨(live w.clock (w.redis.totals (k, d))).getD 0 +
        added k cost tokens, w.clock + 2 * daySeconds⟩ := by
  obtain ⟨-, rfl⟩ := serveStep_some h
  cases k <;> simp +contextual [serve, Redis.increase, added, Function.update]

/-! ## Every worker and one total -/

variable (st most k W) in
/-- What holds in every reachable state. -/
structure Budget (s : Sys quotaSig World Unit Job) : Prop where
  past : ∀ i x, s.proc i = some x →
    (track (meter st most k) .free i s.hist).Past (dayOf s.shared.clock)
  stored : ∀ d x, s.shared.redis.totals (k, d) = some x →
    d ≤ dayOf s.shared.clock ∧ ((d : ℚ) + 2) * daySeconds ≤ x.deadline
  positive : ∀ d x, s.shared.redis.totals (k, d) = some x → 0 < st.limit k
  passed : ∀ i x, s.proc i = some x →
    (track (meter st most k) .free i s.hist).passed = true → 0 < st.limit k
  bound : 0 < st.limit k → ∀ d, recorded s.shared k d +
    most k * s.headcount (meter st most k) .free (Phase.mayAdd (dayOf s.shared.clock) d) ≤
      st.limit k + W * most k

variable {today later d : Day} {i : Nat} {x : Proc quotaSig Unit Job}

theorem Phase.Past.mono (h : a.Past today) (hle : today ≤ later) : a.Past later := by
  cases a with
  | checking e | recording e => exact le_trans h hle
  | free | cleared => trivial

theorem Phase.mayAdd_mono (hle : today ≤ later) (h : a.mayAdd later d = true) :
    a.mayAdd today d = true := by
  cases a with
  | free => cases h
  | checking e =>
    have h := of_decide_eq_true h
    exact decide_eq_true ⟨h.1, hle.trans h.2⟩
  | cleared => exact decide_eq_true (hle.trans (of_decide_eq_true h))
  | recording e => exact h

/-- How the step of a worker in phase `a` moves what can be recorded for day `d`: it records nothing
there and gives the worker no new right to; or the total is within the limit anyway; or the worker
adds, and has used its right up. -/
inductive Moves (st : Settings) (most : Counter → ℚ) (k : Counter) (later d : Day) (a a' : Phase)
    (w w' : World) : Prop
  | same (h : recorded w' k d = recorded w k d)
      (hright : a'.mayAdd later d = true → a.mayAdd later d = true)
  | within (h : recorded w' k d ≤ st.limit k)
  | adds (h : recorded w' k d ≤ recorded w k d + most k ∨ recorded w' k d ≤ most k)
      (hbefore : a.mayAdd later d = true) (hafter : a'.mayAdd later d = false)

/-- One move keeps the bound: `n` workers could add before, `n'` can after. -/
theorem Moves.bound {a' : Phase} {n n' m : Nat} (h : Moves st most k later d a a' w w')
    (hmost : 0 ≤ most k) (hlimit : 0 < st.limit k)
    (hbound : recorded w k d + most k * n ≤ st.limit k + W * most k)
    (hcount : n' + (a.mayAdd later d).toNat = m + (a'.mayAdd later d).toNat) (hm : m ≤ n)
    (hW : n' ≤ W) (hmW : m ≤ W) :
    recorded w' k d + most k * n' ≤ st.limit k + W * most k := by
  have hscale : ∀ {x y : Nat}, x ≤ y → most k * x ≤ most k * y := fun hxy =>
    mul_le_mul_of_nonneg_left (by exact_mod_cast hxy) hmost
  cases h with
  | same h hright =>
    have hle : n' ≤ n := by
      have : (a'.mayAdd later d).toNat ≤ (a.mayAdd later d).toNat := by
        cases h' : a'.mayAdd later d with
        | false => exact Nat.zero_le _
        | true => rw [hright h']
      omega
    rw [h]
    linarith [hscale hle]
  | within h => linarith [hscale hW]
  | adds h hbefore hafter =>
    rw [hbefore, hafter] at hcount
    have hone : n' + 1 = m := hcount
    have hn : most k * (n' + 1 : ℕ) ≤ most k * n := hscale (hone ▸ hm)
    have hN : most k * (n' + 1 : ℕ) ≤ most k * W := hscale (hone ▸ hmW)
    push_cast at hn hN
    rcases h with h | h <;> linarith


theorem recorded_eq_zero (h : ∀ x, w.redis.totals (k, d) = some x → d ≤ dayOf w.clock)
    (hd : dayOf w.clock < d) : recorded w k d = 0 := by
  unfold recorded
  cases htotal : w.redis.totals (k, d) with
  | none => rfl
  | some x => exact absurd (h x htotal) (Int.not_le.mpr hd)

/-- A day's total is live until the day is over. -/
theorem live_eq_recorded
    (h : ∀ x, w.redis.totals (k, d) = some x → ((d : ℚ) + 2) * daySeconds ≤ x.deadline)
    (hd : dayOf w.clock ≤ d) : (live w.clock (w.redis.totals (k, d))).getD 0 = recorded w k d := by
  unfold recorded
  cases htotal : w.redis.totals (k, d) with
  | none => rfl
  | some x =>
    have hlive : w.clock ≤ x.deadline := by
      have hpos : (0 : ℚ) < daySeconds := by norm_num [daySeconds]
      have hlt := lt_day hd
      have hdeadline := h x htotal
      nlinarith
    simp [live, Option.filter, hlive]

/-- A step of one worker keeps the budget, when its move does. -/
theorem Budget.put {o : Op} {r : o.Resp} {rest : QuotaM Unit} (h : Budget st most k W s)
    (hmost : 0 ≤ most k) (hp : s.proc i = some x)
    (hreach : (s.put i (some ⟨x.label, (), rest⟩) w (.op i x.label x.held o r w)).running ≤ W)
    (hW : s.running ≤ W) (hclock : dayOf s.shared.clock ≤ dayOf w.clock)
    (hstored : ∀ d x, w.redis.totals (k, d) = some x →
      d ≤ dayOf w.clock ∧ ((d : ℚ) + 2) * daySeconds ≤ x.deadline)
    (hpositive : ∀ d x, w.redis.totals (k, d) = some x → 0 < st.limit k)
    (hpast : ((meter st most k).next (track (meter st most k) .free i s.hist) o r).Past (dayOf w.clock))
    (hpassed : ((meter st most k).next (track (meter st most k) .free i s.hist) o r).passed = true →
      0 < st.limit k)
    (hmoves : 0 < st.limit k → ∀ d, Moves st most k (dayOf w.clock) d
      (track (meter st most k) .free i s.hist)
      ((meter st most k).next (track (meter st most k) .free i s.hist) o r) s.shared w) :
    Budget st most k W (s.put i (some ⟨x.label, (), rest⟩) w (.op i x.label x.held o r w)) := by
  have hself : track (meter st most k) .free i (.op i x.label x.held o r w :: s.hist) =
      (meter st most k).next (track (meter st most k) .free i s.hist) o r := by simp [track]
  have hothers : ∀ j, j ≠ i → track (meter st most k) .free j (.op i x.label x.held o r w :: s.hist) =
      track (meter st most k) .free j s.hist := fun j hj => by simp [track, Ne.symm hj]
  -- what the budget says of one worker
  have hproc : ∀ {P : Phase → Prop}, (∀ j y, s.proc j = some y →
      P (track (meter st most k) .free j s.hist)) →
      P ((meter st most k).next (track (meter st most k) .free i s.hist) o r) →
      ∀ j y, (s.put i (some ⟨x.label, (), rest⟩) w (.op i x.label x.held o r w)).proc j = some y →
        P (track (meter st most k) .free j (.op i x.label x.held o r w :: s.hist)) := by
    intro P hall hnext j y hy
    rw [Sys.proc_put hp] at hy
    split at hy
    · rename_i hj
      rw [hj, hself]
      exact hnext
    · rename_i hj
      rw [hothers j hj]
      exact hall j y hy
  refine ⟨hproc (fun j y hy => (h.past j y hy).mono hclock) hpast, hstored, hpositive,
    hproc (P := fun a => a.passed = true → _) h.passed hpassed, fun hlimit d => ?_⟩
  have hcount := Sys.headcount_put (p := Phase.mayAdd (dayOf w.clock) d)
    (y := some ⟨x.label, (), rest⟩) (w := w) hp hothers
  rw [hself, Option.isSome_some, Bool.true_and] at hcount
  exact (hmoves hlimit d).bound hmost hlimit (h.bound hlimit d) hcount
    (Sys.headcount_mono fun a ha => Phase.mayAdd_mono hclock ha)
    (Nat.le_trans Sys.headcount_le_running hreach) (Nat.le_trans Sys.headcount_le_running hW)

/-- A step that leaves the totals alone, of a worker whose phase gives no right it did not have. -/
theorem Budget.aside {o : Op} {r : o.Resp} {rest : QuotaM Unit} (h : Budget st most k W s)
    (hmost : 0 ≤ most k) (hp : s.proc i = some x)
    (hreach : (s.put i (some ⟨x.label, (), rest⟩) w (.op i x.label x.held o r w)).running ≤ W)
    (hW : s.running ≤ W) (hclock : dayOf s.shared.clock ≤ dayOf w.clock)
    (htotals : w.redis.totals = s.shared.redis.totals)
    (hnext : (meter st most k).next (track (meter st most k) .free i s.hist) o r =
      track (meter st most k) .free i s.hist) :
    Budget st most k W (s.put i (some ⟨x.label, (), rest⟩) w (.op i x.label x.held o r w)) := by
  refine h.put hmost hp hreach hW hclock (fun d x hx => ?_) (fun d x hx => ?_) ?_ ?_ fun _ d => ?_
  · rw [htotals] at hx
    exact ⟨(h.stored d x hx).1.trans hclock, (h.stored d x hx).2⟩
  · rw [htotals] at hx
    exact h.positive d x hx
  · rw [hnext]
    exact (h.past i x hp).mono hclock
  · rw [hnext]
    exact h.passed i x hp
  · rw [hnext]
    exact .same (by rw [recorded, recorded, htotals]) id

/-- Reading the day. -/
theorem Budget.readToday {r : Day} {rest : QuotaM Unit} {ts : List Unit} {u : Unit}
    (h : Budget st most k W s) (hmost : 0 ≤ most k) (hp : s.proc i = some x)
    (hreach : (s.put i (some ⟨x.label, (), rest⟩) w (.op i x.label x.held .today r w)).running ≤ W)
    (hW : s.running ≤ W) (hstep : step st most ts s.shared x.held .today r = some (w, u)) :
    Budget st most k W (s.put i (some ⟨x.label, (), rest⟩) w (.op i x.label x.held .today r w)) := by
  obtain ⟨hle, hday, hredis⟩ := step_today hstep
  have hclock : dayOf s.shared.clock ≤ dayOf w.clock := hday.symm ▸ hle
  have hold : recorded w k = recorded s.shared k := by
    funext d
    rw [recorded, recorded, hredis]
  refine h.put hmost hp hreach hW hclock (fun d x hx => ?_) (fun d x hx => ?_) ?_ ?_
    fun hlimit d => ?_
  · rw [hredis] at hx
    exact ⟨(h.stored d x hx).1.trans hclock, (h.stored d x hx).2⟩
  · rw [hredis] at hx
    exact h.positive d x hx
  · change Phase.Past _ (Phase.readDay _ r)
    rw [hday]
    unfold Phase.readDay
    split <;> exact le_refl r
  · change (Phase.readDay _ r).passed = true → _
    unfold Phase.readDay
    split
    · rename_i hcleared
      exact fun _ => h.passed i x hp (by rw [hcleared]; rfl)
    · exact nofun
  · change Moves _ _ _ _ _ _ (Phase.readDay _ r) _ _
    rw [hday]
    unfold Phase.readDay
    split
    · rename_i hcleared
      refine .same (congrFun hold d) fun hright => ?_
      rw [hcleared]
      exact decide_eq_true (le_of_eq (of_decide_eq_true hright))
    · -- a day to come has no total yet
      by_cases hright : Phase.mayAdd r d (.checking r) = true
      · obtain ⟨hne, hrd⟩ := of_decide_eq_true hright
        refine .within ?_
        rw [congrFun hold d, recorded_eq_zero (fun x hx => (h.stored d x hx).1)
          (hle.trans_lt (lt_of_le_of_ne hrd hne))]
        exact hlimit.le
      · exact .same (congrFun hold d) fun hyes => absurd hyes hright

/-- Reading the total. -/
theorem Budget.total {e : Day} {v : Option ℚ} {rest : QuotaM Unit} {ts : List Unit} {u : Unit}
    (h : Budget st most k W s) (hmost : 0 ≤ most k) (hp : s.proc i = some x)
    (hreach : (s.put i (some ⟨x.label, (), rest⟩) w (.op i x.label x.held (.total k e) v w)).running ≤ W)
    (hW : s.running ≤ W) (hok : track (meter st most k) .free i s.hist = .checking e)
    (hstep : step st most ts s.shared x.held (.total k e) v = some (w, u)) :
    Budget st most k W
      (s.put i (some ⟨x.label, (), rest⟩) w (.op i x.label x.held (.total k e) v w)) := by
  obtain ⟨hclock, htotals⟩ := step_aside rfl hstep
  have hv := step_total hstep
  have hold : recorded w k = recorded s.shared k := by
    funext d
    rw [recorded, recorded, htotals]
  have hnext : (meter st most k).next (track (meter st most k) .free i s.hist) (.total k e) v =
      if st.limit k ≤ v.getD 0 then .free else .cleared := if_pos rfl
  have hpast := h.past i x hp
  rw [hok] at hpast
  refine h.put hmost hp hreach hW (by rw [hclock]) (fun d x hx => ?_) (fun d x hx => ?_) ?_ ?_
    fun hlimit d => ?_
  · rw [htotals] at hx
    rw [hclock]
    exact h.stored d x hx
  · rw [htotals] at hx
    exact h.positive d x hx
  · rw [hnext]
    split <;> trivial
  · rw [hnext]
    split
    · exact nofun
    · rename_i hbelow
      intro _
      cases htotal : s.shared.redis.totals (k, e) with
      | none =>
        rw [hv, htotal] at hbelow
        exact not_le.mp hbelow
      | some y => exact h.positive e y htotal
  · rw [hnext, hclock]
    split
    · exact .same (congrFun hold d) nofun
    · rename_i hbelow
      by_cases hd : dayOf s.shared.clock ≤ d
      · by_cases hde : e = d
        · -- the day whose total it read
          subst hde
          refine .within ?_
          rw [congrFun hold e, ← live_eq_recorded (fun y hy => (h.stored e y hy).2) hd, ← hv]
          exact (not_le.mp hbelow).le
        · refine .same (congrFun hold d) fun _ => ?_
          rw [hok]
          exact decide_eq_true ⟨hde, hd⟩
      · exact .same (congrFun hold d) fun hright => absurd (of_decide_eq_true hright) hd

/-- Adding to the total. -/
theorem Budget.addUsage {e : Day} {cost : ℚ} {tokens : ℤ} {r : Unit} {rest : QuotaM Unit}
    {ts : List Unit} {u : Unit} (h : Budget st most k W s) (hmost : 0 ≤ most k)
    (hp : s.proc i = some x)
    (hreach : (s.put i (some ⟨x.label, (), rest⟩) w
      (.op i x.label x.held (.addUsage e cost tokens) r w)).running ≤ W)
    (hW : s.running ≤ W) (hok : track (meter st most k) .free i s.hist = .recording e)
    (hamount : added k cost tokens ≤ most k)
    (hstep : step st most ts s.shared x.held (.addUsage e cost tokens) r = some (w, u)) :
    Budget st most k W (s.put i (some ⟨x.label, (), rest⟩) w
      (.op i x.label x.held (.addUsage e cost tokens) r w)) := by
  obtain ⟨hclock, hother, hnew⟩ := step_addUsage k hstep
  have hpast := h.past i x hp
  rw [hok] at hpast
  have hlimit := h.passed i x hp (by rw [hok]; rfl)
  refine h.put hmost hp hreach hW (by rw [hclock]) (fun d x hx => ?_) (fun _ _ _ => hlimit) trivial
    nofun fun _ d => ?_
  · rw [hclock]
    by_cases hd : d = e
    · subst hd
      obtain rfl := Option.some.inj (hnew.symm.trans hx)
      refine ⟨hpast, ?_⟩
      have hstart := day_le.mp hpast
      dsimp only
      linarith
    · rw [hother d hd] at hx
      exact h.stored d x hx
  · rw [hok]
    by_cases hd : d = e
    · subst hd
      refine .adds ?_ (decide_eq_true rfl) rfl
      unfold recorded
      rw [hnew]
      cases htotal : s.shared.redis.totals (k, d) with
      | none => exact .inr (by simpa [live] using hamount)
      | some y =>
        by_cases hlive : s.shared.clock ≤ y.deadline
        · exact .inl (by simpa [live, Option.filter, hlive] using hamount)
        · exact .inr (by simpa [live, Option.filter, hlive] using hamount)
    · refine .same ?_ nofun
      rw [recorded, recorded, hother d hd]

/-- A worker that leaves. -/
theorem Budget.leave {e : Event quotaSig World Unit Job} (h : Budget st most k W s)
    (hmost : 0 ≤ most k) (hp : s.proc i = some x)
    (he : ∀ j, track (meter st most k) .free j (e :: s.hist) = track (meter st most k) .free j s.hist) :
    Budget st most k W (s.put i none s.shared e) := by
  have hproc : ∀ j y, (s.put i none s.shared e).proc j = some y → s.proc j = some y := by
    intro j y hy
    rw [Sys.proc_put hp] at hy
    split at hy
    · cases hy
    · exact hy
  refine ⟨fun j y hy => ?_, h.stored, h.positive, fun j y hy => ?_, fun hlimit d => ?_⟩
  · rw [show (s.put i none s.shared e).hist = e :: s.hist from rfl, he]
    exact h.past j y (hproc j y hy)
  · rw [show (s.put i none s.shared e).hist = e :: s.hist from rfl, he]
    exact h.passed j y (hproc j y hy)
  · have hle : (s.put i none s.shared e).headcount (meter st most k) .free
        (Phase.mayAdd (dayOf s.shared.clock) d) ≤
        s.headcount (meter st most k) .free (Phase.mayAdd (dayOf s.shared.clock) d) :=
      Sys.headcount_leave hp he
    have hscale := mul_le_mul_of_nonneg_left (Nat.cast_le (α := ℚ).mpr hle) hmost
    have hbound := h.bound hlimit d
    change recorded s.shared k d + most k * (Sys.headcount _ _ (Phase.mayAdd (dayOf s.shared.clock) d)
      (s.put i none s.shared e) : ℚ) ≤ _
    linarith

/-- **The budget holds in every reachable state.** -/
theorem budget (hguard : st.spendGuardEnabled = true) (hmost : 0 ≤ most k)
    (h : Reach (sem st most) (crowd W) (World.empty t₀) s) : Budget st most k W s := by
  induction h with
  | start =>
    refine ⟨fun i x hx => ?_, fun d x hx => (by cases hx), fun d x hx => (by cases hx),
      fun i x hx => ?_, fun hlimit d => ?_⟩
    · simp [Sys.proc, Sys.start] at hx
    · simp [Sys.proc, Sys.start] at hx
    · have hW : 0 ≤ (W : ℚ) * most k := mul_nonneg (Nat.cast_nonneg W) hmost
      rw [Sys.headcount_start]
      simp only [recorded, Sys.start, World.empty, Redis.empty, Option.map_none, Option.getD_none,
        Nat.cast_zero, mul_zero, add_zero]
      linarith
  | @step s s' e hr hs hc ih =>
    have hW := hr.running_le
    have hreach := (hr.step hs hc).running_le
    cases hs with
    | spawn l =>
      have hproc : ∀ {P : Phase → Prop}, (∀ j y, s.proc j = some y →
          P (track (meter st most k) .free j s.hist)) → P .free →
          ∀ j y, (s.add ⟨l, (), work st l⟩).proc j = some y →
            P (track (meter st most k) .free j (s.add ⟨l, (), work st l⟩).hist) := by
        intro P hall hfree j y hy
        rw [Sys.proc_add] at hy
        rw [track_add]
        split at hy
        · rename_i hj
          rw [if_pos hj]
          exact hfree
        · rename_i hj
          rw [if_neg hj]
          exact hall j y hy
      refine ⟨hproc ih.past trivial, ih.stored, ih.positive,
        hproc (P := fun a => a.passed = true → _) ih.passed (fun hpassed => by cases hpassed), fun hlimit d => ?_⟩
      rw [Sys.headcount_add]
      exact ih.bound hlimit d
    | @op i x o f r w u hp hrest hstep =>
      have hok := hr.ok (meter_accepts hguard (k := k)) hp hrest
      change step st most (s.others i) s.shared x.held o r = some (w, u) at hstep
      cases o with
      | today => exact ih.readToday hmost hp hreach hW hstep
      | total c d =>
        by_cases hck : c = k
        · subst hck
          exact ih.total hmost hp hreach hW (hok rfl) hstep
        · obtain ⟨hclock, htotals⟩ := step_aside rfl hstep
          exact ih.aside hmost hp hreach hW (by rw [hclock]) htotals (if_neg hck)
      | addUsage d cost tokens => exact ih.addUsage hmost hp hreach hW hok.1 hok.2 hstep
      | time =>
        obtain ⟨hclock, hredis⟩ := step_time hstep
        exact ih.aside hmost hp hreach hW (dayOf_mono hclock) (by rw [hredis]) rfl
      | _ =>
        obtain ⟨hclock, htotals⟩ := step_aside rfl hstep
        exact ih.aside hmost hp hreach hW (by rw [hclock]) htotals rfl
    | finish hp _ | cut hp => exact ih.leave hmost hp fun _ => rfl

/-- What is recorded for a day. -/
theorem total_le (hguard : st.spendGuardEnabled = true) (hmost : 0 ≤ most k)
    (h : Reach (sem st most) (crowd W) (World.empty t₀) s) {y : Expiring ℚ}
    (hy : s.shared.redis.totals (k, d) = some y) : y.value ≤ st.limit k + W * most k := by
  have hbudget := budget hguard hmost h
  have hbound := hbudget.bound (hbudget.positive d y hy) d
  rw [recorded, hy] at hbound
  have hn : 0 ≤ most k * (s.headcount (meter st most k) .free
      (Phase.mayAdd (dayOf s.shared.clock) d) : ℚ) := mul_nonneg hmost (Nat.cast_nonneg _)
  simp only [Option.map_some, Option.getD_some] at hbound
  linarith

/-- **The breaker overshoots by at most one completion for each worker**: with at most `W` workers at
a time, each of whose completions costs at most `most .spend` and `most .tokens`, no day's total
exceeds its limit by more than `W` times that. -/
theorem overshoot_bounded (hguard : st.spendGuardEnabled = true) (hspend : 0 ≤ most .spend)
    (htokens : 0 ≤ most .tokens) (h : Reach (sem st most) (crowd W) (World.empty t₀) s) (d : Day) :
    (∀ y, s.shared.redis.totals (.spend, d) = some y →
      y.value ≤ st.dailySpendLimitUsd + W * most .spend) ∧
    ∀ y, s.shared.redis.totals (.tokens, d) = some y →
      y.value ≤ st.dailyTokenLimit + W * most .tokens :=
  ⟨fun _ hy => total_le hguard hspend h hy, fun _ hy => total_le hguard htokens h hy⟩

/-- Two workers pass the check before either records: a dollar over the limit of 25. -/
theorem overshoot_bounded_pair :
    let st := { Sample.settings with customerRateLimitEnabled := false }
    let usage : Usage := ⟨32500000, 0⟩
    ∃ s, Reach (sem st (usage.amount st)) (crowd 2) (World.empty 0) s ∧
      (∃ y, s.shared.redis.totals (.spend, 0) = some y ∧ 25 < y.value) ∧
      ∀ y, s.shared.redis.totals (.spend, 0) = some y →
        y.value ≤ 25 + (2 : ℕ) * usage.amount st .spend := by
  intro st usage
  let turn (i : Nat) : Act quotaSig World Unit Job := .op i (World.reply usage)
  obtain ⟨s, hs, hover⟩ := Reach.exists_of_run (M := sem st (usage.amount st)) (C := crowd 2)
    (w := World.empty 0)
    ([.spawn ⟨"20100", "a", none⟩, .spawn ⟨"20101", "b", none⟩] ++
      [0, 1, 0, 1, 0, 1, 0, 1, 0, 1, 0, 0, 1, 1].map turn)
    (fun s => (s.shared.redis.totals (.spend, 0)).any fun y => decide ((25 : ℚ) < y.value))
    (by decide +kernel)
  obtain ⟨y, hy, hlt⟩ := (Option.any_eq_true _ _).mp hover
  have hspend : 0 ≤ usage.amount st .spend := by decide +kernel
  have htokens : 0 ≤ usage.amount st .tokens := by decide +kernel
  exact ⟨s, hs, ⟨y, hy, of_decide_eq_true hlt⟩, (overshoot_bounded rfl hspend htokens hs 0).1⟩

end Quota
