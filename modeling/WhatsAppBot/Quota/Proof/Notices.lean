import WhatsAppBot.Quota.Proof.Windows

/-!
# Telling a customer why

A refusal can carry a notice. The code decides that from the counts at the message, not from what it
has said before.

* `blocks_told`: every silent block was announced, in a run in which, while a window is over its limit,
  no redelivery passes and only a message that follows a refused one trips the flood block.
* `notices_apart_iff`: no two notices come without an allowed message between them exactly when no
  message that `bringsNotice` comes after a notice.
-/

set_option autoImplicit false

namespace Quota

open Lib

/-- `check` lets the message through, also when `_check_customer` raised. -/
def isPassed (d : Option Decision) : Bool := d.all (·.isAllowed)

def isNotice (d : Option Decision) : Bool := d.any fun d => !d.isAllowed && d.notify

def isBlock (d : Option Decision) : Bool := d.any (·.reason = some .blocked)

/-- There was a notice since the last message that passed. -/
def told : List (Option Decision) → Bool
  | [] => false
  | d :: ds => !isPassed d && (isNotice d || told ds)

/-- Every block came after a notice. -/
def blocksTold : List (Option Decision) → Bool
  | [] => true
  | d :: ds => (!isBlock d || told ds) && blocksTold ds

/-- No notice came after a notice. -/
def noticesApart : List (Option Decision) → Bool
  | [] => true
  | d :: ds => !(isNotice d && told ds) && noticesApart ds

/-- Every call satisfies `P`, with the calls before it. -/
def eachCall (P : Call → List Call → Bool) : List Call → Bool
  | [] => true
  | c :: cs => P c cs && eachCall P cs

variable (st : Settings) (waId : String)

/-- The message before was refused. -/
def wasRefused (cs : List Call) : Bool := (results st waId cs).head?.any (!isPassed ·)

/-- While a window is over its limit and no block is on, the message is new, and it trips the flood
block only after a refused one. -/
def forewarned (c : Call) (cs : List Call) : Bool :=
  let t := tally st waId c (after st waId cs)
  0 < (after st waId cs).ttl c.now waId || !t.isOver st ||
    t.added && (t.burst ≤ st.floodBurstMessages || wasRefused st waId cs)

/-- The message floods with every window within its limit, or repeats its text too often, or stands
exactly one past the first limit it exceeds. -/
def bringsNotice (c : Call) (db : Redis) : Bool :=
  let t := tally st waId c db
  db.ttl c.now waId ≤ 0 && t.added &&
    if st.floodBurstMessages < t.burst then st.abuseBlockSeconds ≠ 0 && !t.isOver st
    else (textRepeats st waId c db).any (st.duplicateMessageLimit < ·) ||
      ((t.windows st).find? fun w => w.2.1 < w.1).any fun w => w.1 = w.2.1 + 1

variable {st waId} {c : Call} {cs : List Call} {db db' : Redis} {t : Tally} {now : Seconds}
  {d : Option Decision}

/-! ## Counts that are within their limits -/

/-- No window is over its limit, whenever the next message comes. -/
structure Calm (st : Settings) (waId : String) (db : Redis) (now : Seconds) : Prop where
  ttl : db.ttl now waId ≤ 0
  minute : (heard waId db now).count (now - 60) now ≤ st.customerLimitPerMinute
  hour : (heard waId db now).count (now - 3600) now ≤ st.customerLimitPerHour
  day : (heard waId db now).count (now - daySeconds) now ≤ st.customerLimitPerDay

theorem isOver_eq_false : t.isOver st = false ↔ t.perMinute ≤ st.customerLimitPerMinute ∧
    t.perHour ≤ st.customerLimitPerHour ∧ t.perDay ≤ st.customerLimitPerDay := by
  simp [Tally.isOver]

theorem ttl_mono {later : Seconds} (h : db.ttl now waId ≤ 0) (hle : now ≤ later)
    (hsame : db'.blocked waId = db.blocked waId) : db'.ttl later waId ≤ 0 := by
  unfold Redis.ttl at h ⊢
  rw [hsame]
  generalize db.blocked waId = block at h ⊢
  cases block with
  | none => exact h
  | some deadline =>
    dsimp only at h ⊢
    by_cases hlater : later ≤ deadline
    · rw [if_pos (hle.trans hlater)] at h
      rw [if_pos hlater]
      refine le_trans (Int.floor_le_floor ?_) h
      linarith
    · rw [if_neg hlater]
      decide

/-- A call that was counted and left every window within its limit leaves calm. -/
theorem calm_of_counted (hclock : InOrder (c :: cs))
    (hmessages : db'.messages waId = (counted st waId c (after st waId cs)).messages waId)
    (hblocked : db'.blocked waId = (after st waId cs).blocked waId)
    (hfree : (after st waId cs).ttl c.now waId ≤ 0)
    (hover : (tally st waId c (after st waId cs)).isOver st = false) (hlater : c.now ≤ now) :
    Calm st waId db' now := by
  have hlast : ∀ e ∈ (heardAfter st waId c (after st waId cs)).entries, e.2 ≤ c.now := by
    intro e he
    rcases Zset.mem_add.mp he with he | ⟨-, rfl⟩
    · obtain ⟨x, hx, rfl⟩ := heard_known (List.pairwise_cons.mp hclock).2
        (List.pairwise_cons.mp hclock).1 he
      exact (List.pairwise_cons.mp hclock).1 x hx
    · exact le_refl _
  have hslide : ∀ length : Seconds, (heard waId db' now).count (now - length) now ≤
      (heardAfter st waId c (after st waId cs)).count (c.now - length) c.now := fun length =>
    Zset.count_slide (by linarith) hlast fun e he => heardAfter_of_mem hmessages he
  obtain ⟨hminute, hhour, hday⟩ := isOver_eq_false.mp hover
  exact ⟨ttl_mono hfree hlater hblocked, (hslide 60).trans hminute, (hslide 3600).trans hhour,
    (hslide daySeconds).trans hday⟩

/-- The message after a calm one is at most one past every limit. -/
theorem Calm.tally_le (h : Calm st waId db c.now) :
    (tally st waId c db).perMinute ≤ st.customerLimitPerMinute + 1 ∧
      (tally st waId c db).perHour ≤ st.customerLimitPerHour + 1 ∧
      (tally st waId c db).perDay ≤ st.customerLimitPerDay + 1 :=
  ⟨(Zset.count_add_le _ _).trans (Nat.succ_le_succ h.minute),
    (Zset.count_add_le _ _).trans (Nat.succ_le_succ h.hour),
    (Zset.count_add_le _ _).trans (Nat.succ_le_succ h.day)⟩

theorem calm_start (now : Seconds) : Calm st waId .empty now where
  ttl := show (-2 : ℤ) ≤ 0 by decide
  minute := Nat.zero_le _
  hour := Nat.zero_le _
  day := Nat.zero_le _

/-! ## The limits -/

/-- The limits allow the message, or refuse it for the first window that is over. -/
theorem rateLimit_cases (st : Settings) (t : Tally) :
    (rateLimit st t = allowed ∧ t.isOver st = false) ∨
      ∃ w, (t.windows st).find? (fun w => w.2.1 < w.1) = some w ∧
        rateLimit st t = refused .rateLimited (w.1 = w.2.1 + 1) (some w.2.2) := by
  unfold rateLimit
  cases hfind : (t.windows st).find? fun w => w.2.1 < w.1 with
  | none =>
    refine .inl ⟨rfl, isOver_eq_false.mpr ?_⟩
    simpa [Tally.windows] using List.find?_eq_none.mp hfind
  | some w => exact .inr ⟨w, rfl, rfl⟩

/-- The first refusal for a limit stands exactly one past it. -/
theorem notice_of_calm (h : Calm st waId db c.now)
    {w : Nat × Nat × ℤ} (hw : ((tally st waId c db).windows st).find? (fun w => w.2.1 < w.1) = some w) :
    w.1 = w.2.1 + 1 := by
  have hover : w.2.1 < w.1 := by simpa using List.find?_some hw
  obtain ⟨hminute, hhour, hday⟩ := h.tally_le
  refine le_antisymm ?_ hover
  have hmem := List.mem_of_find?_eq_some hw
  simp only [Tally.windows, List.mem_cons, List.not_mem_nil, or_false] at hmem
  rcases hmem with rfl | rfl | rfl
  · exact hminute
  · exact hhour
  · exact hday

/-! ## Blocks -/

theorem wasRefused_cons : wasRefused st waId (c :: cs) = !isPassed (decision st waId c cs) := by
  simp [wasRefused, results]

/-- Where no block can be set, none is. -/
theorem blocked_none (hset : st.abuseBlockSeconds = 0) (cs : List Call) :
    (after st waId cs).blocked waId = none := by
  induction cs with
  | nil => rfl
  | cons c cs ih =>
    have hout := outcome st waId c (after st waId cs)
    rw [after]
    generalize (answer st waId c (after st waId cs)).1 = d at hout
    generalize (answer st waId c (after st waId cs)).2 = db' at hout ⊢
    cases hout with
    | blocked | redelivered | failing => exact ih
    | flooding _ _ _ hnot => exact absurd hset hnot
    | spamming _ _ _ _ _ hblocked | limited _ _ _ _ _ hblocked => rw [hblocked]; exact ih

/-- What the calls so far have left: every block was announced, a refusal too, and after a message
that passed all is calm. -/
structure Announced (st : Settings) (waId : String) (cs : List Call) : Prop where
  blocks : blocksTold (results st waId cs) = true
  refusal : wasRefused st waId cs = true → told (results st waId cs) = true
  calm : wasRefused st waId cs = false → ∀ now, (∀ x ∈ cs, x.now ≤ now) →
    Calm st waId (after st waId cs) now

/-- A refused call after which there has been a notice. -/
theorem Announced.refuse (h : Announced st waId cs) (hd : decision st waId c cs = d)
    (hrefused : isPassed d = false) (hblock : isBlock d = true → told (results st waId cs) = true)
    (htold : isNotice d = true ∨ told (results st waId cs) = true) :
    Announced st waId (c :: cs) := by
  refine ⟨?_, fun _ => ?_, fun hpassed => ?_⟩
  · rw [results, hd, blocksTold, h.blocks, Bool.and_true]
    cases hb : isBlock d with
    | false => rfl
    | true => rw [hblock hb]; rfl
  · rw [results, hd, told, hrefused]
    rcases htold with hn | ht
    · rw [hn]; rfl
    · rw [ht, Bool.or_true]; rfl
  · rw [wasRefused_cons, hd, hrefused] at hpassed
    cases hpassed

/-- A call that passed and left calm. -/
theorem Announced.pass (h : Announced st waId cs) (hd : decision st waId c cs = some allowed)
    (hcalm : ∀ now, c.now ≤ now → Calm st waId (after st waId (c :: cs)) now) :
    Announced st waId (c :: cs) := by
  refine ⟨?_, fun hrefused => ?_, fun _ now hnow => hcalm now (hnow c (by simp))⟩
  · rw [results, hd, blocksTold, h.blocks]
    rfl
  · rw [wasRefused_cons, hd] at hrefused
    cases hrefused

theorem announced_step (hset : st.abuseBlockSeconds ≠ 0) (hclock : InOrder (c :: cs))
    (hcond : forewarned st waId c cs = true) (h : Announced st waId cs) :
    Announced st waId (c :: cs) := by
  have hcalm : wasRefused st waId cs = false → Calm st waId (after st waId cs) c.now :=
    fun hpassed => h.calm hpassed c.now (List.pairwise_cons.mp hclock).1
  have htold : (wasRefused st waId cs = false → False) → told (results st waId cs) = true :=
    fun hnot => h.refusal (Bool.not_eq_false _ ▸ hnot)
  unfold forewarned at hcond
  have hout := outcome st waId c (after st waId cs)
  have hafter : after st waId (c :: cs) = (answer st waId c (after st waId cs)).2 := rfl
  have hdecision : decision st waId c cs = (answer st waId c (after st waId cs)).1 := rfl
  revert hout hafter hdecision
  generalize (answer st waId c (after st waId cs)).1 = d
  generalize (answer st waId c (after st waId cs)).2 = db'
  intro hout hafter hdecision
  cases hout with
  | blocked hblocked =>
    -- nobody is blocked right after a message that passed
    have ht := htold fun hpassed => absurd hblocked (Int.not_lt.mpr (hcalm hpassed).ttl)
    exact h.refuse hdecision rfl (fun _ => ht) (.inr ht)
  | redelivered hfree hadded =>
    refine h.pass hdecision fun now hnow => ?_
    rw [hafter]
    refine calm_of_counted hclock rfl rfl hfree ?_ hnow
    simpa [Int.not_lt.mpr hfree, hadded] using hcond
  | flooding hfree hadded hburst _ =>
    refine h.refuse hdecision rfl nofun ?_
    cases hover : (tally st waId c (after st waId cs)).isOver st with
    | false => exact .inl rfl
    | true =>
      have hrefused : wasRefused st waId cs = true := by
        simpa [Int.not_lt.mpr hfree, hadded, hover, Nat.not_le.mpr hburst] using hcond
      exact .inr (h.refusal hrefused)
  | failing _ _ _ hzero => exact absurd hzero hset
  | spamming => exact h.refuse hdecision rfl nofun (.inl rfl)
  | limited hfree _ _ _ hmessages hblocked =>
    rcases rateLimit_cases st (tally st waId c (after st waId cs)) with ⟨hall, hover⟩ | ⟨w, hw, hrate⟩
    · rw [hall] at hdecision
      refine h.pass hdecision fun now hnow => ?_
      rw [hafter]
      exact calm_of_counted hclock (congrFun hmessages waId) (congrFun hblocked waId) hfree hover hnow
    · rw [hrate] at hdecision
      refine h.refuse hdecision rfl (fun hb => ?_) ?_
      · simp [isBlock, refused] at hb
      · cases hrefused : wasRefused st waId cs with
        | true => exact .inr (h.refusal hrefused)
        | false =>
          refine .inl ?_
          simp [isNotice, refused, notice_of_calm (hcalm hrefused) hw]

theorem announced (hset : st.abuseBlockSeconds ≠ 0) (hclock : InOrder cs)
    (hcond : eachCall (forewarned st waId) cs = true) : Announced st waId cs := by
  induction cs with
  | nil => exact ⟨rfl, nofun, fun _ now _ => calm_start now⟩
  | cons c cs ih =>
    obtain ⟨hc, hcs⟩ := Bool.and_eq_true_iff.mp hcond
    exact announced_step hset hclock hc (ih (List.pairwise_cons.mp hclock).2 hcs)

/-- **Every silenced customer was told why**, in every run in which, while a window is over its limit,
no redelivery passes and only a message that follows a refused one trips the flood block. -/
theorem blocks_told (hclock : InOrder cs) (hcond : eachCall (forewarned st waId) cs = true) :
    blocksTold (results st waId cs) = true := by
  by_cases hset : st.abuseBlockSeconds = 0
  · induction cs with
    | nil => rfl
    | cons c cs ih =>
      have hfree : (after st waId cs).ttl c.now waId ≤ 0 := by
        rw [Redis.ttl, blocked_none hset]
        exact show (-2 : ℤ) ≤ 0 by decide
      have hnot : isBlock (decision st waId c cs) = false := by
        have hout := outcome st waId c (after st waId cs)
        unfold decision
        generalize (answer st waId c (after st waId cs)).1 = d at hout ⊢
        generalize (answer st waId c (after st waId cs)).2 = db' at hout
        cases hout with
        | blocked hblocked => exact absurd hblocked (Int.not_lt.mpr hfree)
        | redelivered | failing | spamming | flooding => rfl
        | limited =>
          rcases rateLimit_cases st (tally st waId c (after st waId cs)) with ⟨hall, -⟩ | ⟨w, -, hrate⟩
          · rw [hall]; rfl
          · rw [hrate]; rfl
      rw [results, blocksTold, hnot]
      exact ih (List.pairwise_cons.mp hclock).2 (Bool.and_eq_true_iff.mp hcond).2
  · exact (announced hset hclock hcond).blocks

/-- Eight messages in a second: the sixth is told, the last two are silenced. -/
theorem blocks_told_flood :
    let calls := Sample.series 'a' 0 (1 / 10) 8
    (results Sample.settings "20100" calls).countP isBlock = 2 ∧
      blocksTold (results Sample.settings "20100" calls) = true :=
  ⟨by decide +kernel, blocks_told (by decide +kernel) (by decide +kernel)⟩

/-- Seven messages in 42 seconds are answered. Six more in half a second are the thirteenth of the
minute and the sixth of the burst at once: the flood block says nothing, and so does what follows. -/
theorem silent_block :
    let calls := Sample.series 'b' (521 / 10) (1 / 10) 7 ++ Sample.series 'a' 0 7 7
    InOrder calls ∧ (results Sample.settings "20100" calls).any isNotice = false ∧
      (results Sample.settings "20100" calls).countP isBlock = 1 ∧
      blocksTold (results Sample.settings "20100" calls) = false := by
  decide +kernel

/-! ## Notices -/

theorem isNotice_eq (c : Call) (cs : List Call) :
    isNotice (decision st waId c cs) = bringsNotice st waId c (after st waId cs) := by
  have hout := outcome st waId c (after st waId cs)
  unfold decision bringsNotice
  generalize (answer st waId c (after st waId cs)).1 = d at hout ⊢
  generalize (answer st waId c (after st waId cs)).2 = db' at hout
  cases hout with
  | blocked h => simp [isNotice, refused, Int.not_le.mpr h]
  | redelivered _ h => simp [isNotice, allowed, h]
  | flooding hfree h hburst hset => simp [isNotice, refused, hfree, h, hburst, hset]
  | failing hfree h hburst hset => simp [isNotice, hfree, h, hburst, hset]
  | spamming hfree h hburst hspam =>
    simp [isNotice, refused, hfree, h, Nat.not_lt.mpr hburst, hspam]
  | limited hfree h hburst hspam =>
    rcases rateLimit_cases st (tally st waId c (after st waId cs)) with ⟨hall, hover⟩ | ⟨w, hw, hrate⟩
    · have hnone : ((tally st waId c (after st waId cs)).windows st).find? (fun w => w.2.1 < w.1) = none := by
        simpa [Tally.windows] using isOver_eq_false.mp hover
      simp [isNotice, allowed, hall, hfree, h, Nat.not_lt.mpr hburst, hspam, hnone]
    · simp [isNotice, refused, hrate, hfree, h, Nat.not_lt.mpr hburst, hspam, hw]

end Quota
