import Mathlib.Tactic.Linarith
import WhatsAppBot.Quota.Sample

/-!
# The sliding windows

A customer's messages of the last day are in one sorted set, and every limit is checked against a
count over it. Refused messages are counted too, so the counts bound the allowed ones from above:
`windows_hold`, in every interval of a minute, an hour or a day at most as many messages are allowed
as configured.
-/

set_option autoImplicit false

namespace Quota

open Lib

variable {st : Settings} {waId : String} {c : Call} {cs : List Call} {db db' : Redis}
  {t : Seconds} {e : String × Seconds} {d : Option Decision}

/-- What the set holds at a reading of the clock. -/
def heard (waId : String) (db : Redis) (t : Seconds) : Times := db.recentMessages t waId t

/-- What it holds after a call that was counted. -/
def heardAfter (st : Settings) (waId : String) (c : Call) (db : Redis) : Times :=
  (heard waId db c.now).add (memberOf st c.id c.now) c.now

theorem mem_heard : e ∈ (heard waId db t).entries ↔
    (∃ z, db.messages waId = some z ∧ t ≤ z.deadline ∧ e ∈ z.value.entries) ∧
      ¬(0 ≤ e.2 ∧ e.2 ≤ t - daySeconds) := by
  unfold heard Redis.recentMessages
  rw [Zset.mem_removeRange]
  refine and_congr_left fun _ => ?_
  cases hz : db.messages waId with
  | none => simp [live, Zset.empty]
  | some z =>
    by_cases hlive : t ≤ z.deadline <;> simp [live, Option.filter, hlive, Zset.empty]

theorem counted_messages : (counted st waId c db).messages waId =
    some ⟨heardAfter st waId c db, c.now + daySeconds⟩ :=
  Function.update_self ..

/-- A counted message is heard for a day, and so is what was heard with it. -/
theorem mem_heard_counted (h : db'.messages waId = (counted st waId c db).messages waId)
    (he : e ∈ (heardAfter st waId c db).entries) (hday : t - daySeconds < e.2) (hlast : e.2 ≤ c.now) :
    e ∈ (heard waId db' t).entries := by
  refine mem_heard.mpr ⟨⟨_, h.trans counted_messages, ?_, he⟩, fun hold => ?_⟩
  · dsimp only
    linarith
  · linarith [hold.2]

theorem heardAfter_of_mem (h : db'.messages waId = (counted st waId c db).messages waId)
    (he : e ∈ (heard waId db' t).entries) : e ∈ (heardAfter st waId c db).entries := by
  obtain ⟨⟨z, hz, -, he⟩, -⟩ := mem_heard.mp he
  obtain rfl := Option.some.inj ((h.trans counted_messages).symm.trans hz)
  exact he

/-- The keys a call leaves: nothing changed, or the message was counted. -/
theorem Outcome.messages (h : Outcome st waId c db d db') :
    (db' = db ∧ ∃ n, d = some (refused .blocked false n)) ∨
      db'.messages waId = (counted st waId c db).messages waId := by
  cases h with
  | blocked => exact .inl ⟨rfl, _, rfl⟩
  | redelivered | failing => exact .inr rfl
  | flooding _ _ _ hset => exact .inr (by rw [Redis.setBlock, if_neg hset])
  | spamming _ _ _ _ hmessages | limited _ _ _ _ hmessages => exact .inr (congrFun hmessages waId)

theorem last_le (hclock : InOrder (c :: cs)) (ht : ∀ x ∈ c :: cs, x.now ≤ t) :
    c.now ≤ t ∧ (∀ x ∈ cs, x.now ≤ t) ∧ ∀ x ∈ cs, x.now ≤ c.now :=
  ⟨ht c (by simp), fun x hx => ht x (List.mem_cons_of_mem _ hx), (List.pairwise_cons.mp hclock).1⟩

/-- Everything heard is a message of the run. -/
theorem heard_known (hclock : InOrder cs) (ht : ∀ x ∈ cs, x.now ≤ t)
    (he : e ∈ (heard waId (after st waId cs) t).entries) :
    ∃ x ∈ cs, e = (memberOf st x.id x.now, x.now) := by
  induction cs generalizing t with
  | nil =>
    obtain ⟨⟨z, hz, -⟩, -⟩ := mem_heard.mp he
    cases hz
  | cons c cs ih =>
    obtain ⟨-, hcs, hlast⟩ := last_le hclock ht
    have hold : ∀ {t}, (∀ x ∈ cs, x.now ≤ t) → e ∈ (heard waId (after st waId cs) t).entries →
        ∃ x ∈ c :: cs, e = (memberOf st x.id x.now, x.now) := by
      intro t ht he
      obtain ⟨x, hx, rfl⟩ := ih (List.pairwise_cons.mp hclock).2 ht he
      exact ⟨x, List.mem_cons_of_mem _ hx, rfl⟩
    rcases (outcome st waId c (after st waId cs)).messages with ⟨hsame, -⟩ | hnew
    · rw [after, hsame] at he
      exact hold hcs he
    · rcases Zset.mem_add.mp (heardAfter_of_mem hnew he) with he | ⟨-, rfl⟩
      · exact hold hlast he
      · exact ⟨c, by simp, rfl⟩

/-! ## Allowed messages -/

def isGranted (d : Option Decision) : Bool := d.any (·.isAllowed)

/-- The calls that were allowed. -/
def granted (st : Settings) (waId : String) : List Call → List Call
  | [] => []
  | c :: cs => if isGranted (decision st waId c cs) then c :: granted st waId cs else granted st waId cs

/-- How many messages were allowed in `(a, a + length]`. -/
def allowedIn (st : Settings) (waId : String) (calls : List Call) (a length : Seconds) : Nat :=
  (granted st waId calls).countP fun c => a < c.now ∧ c.now ≤ a + length

theorem granted_sublist : (granted st waId cs).Sublist cs := by
  induction cs with
  | nil => exact .slnil
  | cons c cs ih =>
    unfold granted
    split
    · exact ih.cons_cons c
    · exact ih.cons c

theorem memberOf_eq (hid : c.id ≠ "") (now : Seconds) : memberOf st c.id now = c.id := if_pos hid

variable (st waId) in
/-- The call's id is new to the set. -/
theorem not_heard (hclock : InOrder (c :: cs)) (hids : ((c :: cs).map Call.id).Nodup)
    (hnonempty : ∀ x ∈ c :: cs, x.id ≠ "") :
    (heard waId (after st waId cs) c.now).has (memberOf st c.id c.now) = false := by
  rw [memberOf_eq (hnonempty c (by simp)), ← Bool.not_eq_true, Zset.has_iff]
  intro hmem
  obtain ⟨e, he, hid⟩ := List.mem_map.mp hmem
  obtain ⟨x, hx, rfl⟩ := heard_known (List.pairwise_cons.mp hclock).2
    (List.pairwise_cons.mp hclock).1 he
  rw [memberOf_eq (hnonempty x (List.mem_cons_of_mem _ hx))] at hid
  exact (List.nodup_cons.mp hids).1 (List.mem_map.mpr ⟨x, hx, hid⟩)

/-- **Every allowed message of the last day is heard.** -/
theorem heard_granted (hclock : InOrder cs) (hids : (cs.map Call.id).Nodup)
    (hnonempty : ∀ x ∈ cs, x.id ≠ "") (ht : ∀ x ∈ cs, x.now ≤ t) (hc : c ∈ granted st waId cs)
    (hday : t - daySeconds < c.now) : (c.id, c.now) ∈ (heard waId (after st waId cs) t).entries := by
  induction cs generalizing t with
  | nil => cases hc
  | cons x cs ih =>
    obtain ⟨hx, hcs, hlast⟩ := last_le hclock ht
    have ih := fun {t} => ih (t := t) (List.pairwise_cons.mp hclock).2 (List.nodup_cons.mp hids).2
      (fun y hy => hnonempty y (List.mem_cons_of_mem _ hy))
    rcases (outcome st waId x (after st waId cs)).messages with
      ⟨hsame, n, hn⟩ | hnew
    · -- a blocked call is not allowed
      have hc' : c ∈ granted st waId cs := by
        rw [granted, decision, hn, if_neg (by simp [isGranted, refused])] at hc
        exact hc
      rw [after, hsame]
      exact ih hcs hc' hday
    · have hmem : (c.id, c.now) ∈ (heardAfter st waId x (after st waId cs)).entries ∧
          c.now ≤ x.now := by
        have hold : c ∈ granted st waId cs →
            (c.id, c.now) ∈ (heardAfter st waId x (after st waId cs)).entries ∧ c.now ≤ x.now :=
          fun hc => ⟨Zset.mem_add.mpr (.inl (ih hlast hc (by linarith))),
            hlast c (granted_sublist.subset hc)⟩
        unfold granted at hc
        split at hc
        · rcases List.mem_cons.mp hc with rfl | hc
          · refine ⟨Zset.mem_add.mpr (.inr ⟨not_heard st waId hclock hids hnonempty, ?_⟩), le_refl _⟩
            rw [memberOf_eq (hnonempty c (by simp))]
          · exact hold hc
        · exact hold hc
      exact mem_heard_counted hnew hmem.1 hday hmem.2

/-- A call that is allowed and new found every window within its limit. -/
theorem tally_of_granted (hnew : (tally st waId c db).added = true)
    (h : isGranted (answer st waId c db).1 = true) :
    (tally st waId c db).perMinute ≤ st.customerLimitPerMinute ∧
      (tally st waId c db).perHour ≤ st.customerLimitPerHour ∧
      (tally st waId c db).perDay ≤ st.customerLimitPerDay := by
  have hout := outcome st waId c db
  revert h hout
  generalize (answer st waId c db).1 = d
  generalize (answer st waId c db).2 = db'
  intro h hout
  cases hout with
  | blocked | flooding | failing | spamming => cases h
  | redelivered _ hold => rw [hnew] at hold; cases hold
  | limited =>
    unfold rateLimit at h
    split at h
    · cases h
    · rename_i hnone
      simpa [Tally.windows] using List.find?_eq_none.mp hnone

/-- One window: a bound on the count at every allowed message bounds every interval. -/
theorem window_holds {length : Seconds} {limit : Nat} (hlength : length ≤ daySeconds)
    (hclock : InOrder cs) (hids : (cs.map Call.id).Nodup) (hnonempty : ∀ x ∈ cs, x.id ≠ "")
    (hlimit : ∀ x xs, (tally st waId x (after st waId xs)).added = true →
      isGranted (decision st waId x xs) = true →
      (heardAfter st waId x (after st waId xs)).count (x.now - length) x.now ≤ limit)
    (a : Seconds) : allowedIn st waId cs a length ≤ limit := by
  induction cs with
  | nil => exact Nat.zero_le _
  | cons c cs ih =>
    have ih := ih (List.pairwise_cons.mp hclock).2 (List.nodup_cons.mp hids).2
      fun y hy => hnonempty y (List.mem_cons_of_mem _ hy)
    have hlast := (List.pairwise_cons.mp hclock).1
    unfold allowedIn granted
    split
    · rename_i hgranted
      by_cases hc : a < c.now ∧ c.now ≤ a + length
      · -- the interval's messages are in the window that ends with the last of them
        have hnew := not_heard st waId hclock hids hnonempty
        refine le_trans ?_ (hlimit c cs (congrArg not hnew) hgranted)
        rw [List.countP_eq_length_filter, ← List.length_map fun c : Call => (c.id, c.now)]
        have hnodup : (c :: granted st waId cs).Nodup :=
          (hids.of_map _).sublist (granted_sublist.cons_cons c)
        refine Zset.length_le_count ?_ fun e he => ?_
        · refine (List.nodup_map_iff_inj_on (hnodup.filter _)).mpr fun x hx y hy hxy => ?_
          have hsub := List.Sublist.cons_cons c (granted_sublist : (granted st waId cs).Sublist cs)
          exact List.inj_on_of_nodup_map hids (hsub.subset (List.mem_of_mem_filter hx))
            (hsub.subset (List.mem_of_mem_filter hy)) (Prod.mk.inj hxy).1
        · obtain ⟨x, hx, rfl⟩ := List.mem_map.mp he
          obtain ⟨hx, hin⟩ := List.mem_filter.mp hx
          have hin := of_decide_eq_true hin
          rcases List.mem_cons.mp hx with rfl | hx
          · refine ⟨Zset.mem_add.mpr (.inr ⟨hnew, ?_⟩), by dsimp only; linarith, le_refl _⟩
            rw [memberOf_eq (hnonempty x (by simp))]
          · have hxc := hlast x (granted_sublist.subset hx)
            refine ⟨Zset.mem_add.mpr (.inl ?_), by dsimp only; linarith, hxc⟩
            exact heard_granted (List.pairwise_cons.mp hclock).2 (List.nodup_cons.mp hids).2
              (fun y hy => hnonempty y (List.mem_cons_of_mem _ hy)) hlast hx (by linarith)
      · rw [List.countP_cons_of_neg (by simpa using hc)]
        exact ih
    · exact ih

/-- **The limits hold in every window**: in every half-open interval of 60, 3600 or 86400 seconds,
wherever it starts, at most as many messages are allowed as the limit says. -/
theorem windows_hold (hclock : InOrder cs) (hids : (cs.map Call.id).Nodup)
    (hnonempty : ∀ x ∈ cs, x.id ≠ "") (a : Seconds) :
    allowedIn st waId cs a 60 ≤ st.customerLimitPerMinute ∧
      allowedIn st waId cs a 3600 ≤ st.customerLimitPerHour ∧
      allowedIn st waId cs a 86400 ≤ st.customerLimitPerDay := by
  refine ⟨window_holds ?_ hclock hids hnonempty (fun x xs hnew hg => ?_) a,
    window_holds ?_ hclock hids hnonempty (fun x xs hnew hg => ?_) a,
    window_holds ?_ hclock hids hnonempty (fun x xs hnew hg => ?_) a⟩
  · norm_num [daySeconds]
  · exact (tally_of_granted hnew hg).1
  · norm_num [daySeconds]
  · exact (tally_of_granted hnew hg).2.1
  · norm_num [daySeconds]
  · exact (tally_of_granted hnew hg).2.2

/-- Thirteen messages in 48 seconds, one more than the limit. -/
theorem windows_hold_thirteen :
    let calls := Sample.series 'a' 0 4 13
    allowedIn Sample.settings "20100" calls (-1) 60 = 12 ∧
      allowedIn Sample.settings "20100" calls (-1) 60 ≤ 12 ∧
      allowedIn Sample.settings "20100" calls (-1) 3600 ≤ 120 ∧
      allowedIn Sample.settings "20100" calls (-1) 86400 ≤ 400 :=
  ⟨by decide +kernel, windows_hold (by decide +kernel) (by decide +kernel) (by decide +kernel) (-1)⟩

end Quota
