import WhatsAppBot.Quota.Check

/-!
# The checks of one customer

A run of `_check_customer` for one customer is the list of its calls, newest first: each starts from
the keys the earlier ones left. A call takes no time; Redis's clock and the worker's agree.
-/

set_option autoImplicit false

namespace Quota

open Lib

structure Call where
  now : Seconds
  id : String
  text : Option String

variable (st : Settings) (waId : String)

def answer (c : Call) (db : Redis) : Option Decision × Redis :=
  (checkCustomer st waId c.id c.text).eval (serve c.now) db

/-- The keys after the calls. -/
def after : List Call → Redis
  | [] => .empty
  | c :: cs => (answer st waId c (after cs)).2

/-- What a call is answered after the calls before it. -/
def decision (c : Call) (cs : List Call) : Option Decision := (answer st waId c (after st waId cs)).1

def results : List Call → List (Option Decision)
  | [] => []
  | c :: cs => decision st waId c cs :: results cs

/-- What the first transaction of a call counts. -/
def tally (c : Call) (db : Redis) : Tally :=
  (db.countMessage c.now waId (memberOf st c.id c.now) c.now st.floodBurstSeconds).1

def counted (c : Call) (db : Redis) : Redis :=
  (db.countMessage c.now waId (memberOf st c.id c.now) c.now st.floodBurstSeconds).2

/-- How often the text of a call was sent in the last minute. -/
def textRepeats (c : Call) (db : Redis) : Option Nat :=
  ((repeatsOf st waId (memberOf st c.id c.now) c.text c.now).eval (serve c.now) db).1

/-- The calls were made one after the other. -/
def InOrder (calls : List Call) : Prop := calls.Pairwise fun later earlier => earlier.now ≤ later.now

instance (calls : List Call) : Decidable (InOrder calls) :=
  inferInstanceAs (Decidable (calls.Pairwise fun later earlier => earlier.now ≤ later.now))

/-! ## What a call can do -/

/-- The branches of `_check_customer`. -/
inductive Outcome (c : Call) (db : Redis) : Option Decision → Redis → Prop
  | blocked (h : 0 < db.ttl c.now waId) :
      Outcome c db (some (refused .blocked false (some (db.ttl c.now waId)))) db
  | redelivered (hfree : db.ttl c.now waId ≤ 0) (h : (tally st waId c db).added = false) :
      Outcome c db (some allowed) (counted st waId c db)
  | flooding (hfree : db.ttl c.now waId ≤ 0) (h : (tally st waId c db).added = true)
      (hburst : st.floodBurstMessages < (tally st waId c db).burst) (hset : st.abuseBlockSeconds ≠ 0) :
      Outcome c db
        (some (refused .flooding (!(tally st waId c db).isOver st) (some st.abuseBlockSeconds)))
        ((counted st waId c db).setBlock c.now waId st.abuseBlockSeconds).2
  | failing (hfree : db.ttl c.now waId ≤ 0) (h : (tally st waId c db).added = true)
      (hburst : st.floodBurstMessages < (tally st waId c db).burst) (hset : st.abuseBlockSeconds = 0) :
      Outcome c db none (counted st waId c db)
  | spamming {db' : Redis} (hfree : db.ttl c.now waId ≤ 0) (h : (tally st waId c db).added = true)
      (hburst : (tally st waId c db).burst ≤ st.floodBurstMessages)
      (hspam : (textRepeats st waId c db).any (st.duplicateMessageLimit < ·) = true)
      (hmessages : db'.messages = (counted st waId c db).messages) (hblocked : db'.blocked = db.blocked) :
      Outcome c db (some (refused .spamming true (some st.abuseBlockSeconds))) db'
  | limited {db' : Redis} (hfree : db.ttl c.now waId ≤ 0) (h : (tally st waId c db).added = true)
      (hburst : (tally st waId c db).burst ≤ st.floodBurstMessages)
      (hspam : (textRepeats st waId c db).any (st.duplicateMessageLimit < ·) = false)
      (hmessages : db'.messages = (counted st waId c db).messages) (hblocked : db'.blocked = db.blocked) :
      Outcome c db (some (rateLimit st (tally st waId c db))) db'

/-- Counting a text writes neither the messages nor the block, and does not look at them. -/
theorem eval_repeatsOf (member : String) (text : Option String) (now : Seconds) {db db' : Redis}
    (h : db'.duplicates = db.duplicates) :
    let counting (db : Redis) := (repeatsOf st waId member text now).eval (serve now) db
    (counting db').1 = (counting db).1 ∧ (counting db').2.messages = db'.messages ∧
      (counting db').2.blocked = db'.blocked := by
  unfold repeatsOf
  cases text with
  | none => exact ⟨rfl, rfl, rfl⟩
  | some body =>
    dsimp only
    split
    · exact ⟨rfl, rfl, rfl⟩
    · refine ⟨?_, rfl, rfl⟩
      change some (db'.countText _ _ _ _ _ _).1 = some (db.countText _ _ _ _ _ _).1
      rw [Redis.countText, Redis.countText, h]

/-- **Every call takes one of the branches.** -/
theorem outcome (c : Call) (db : Redis) :
    Outcome st waId c db (answer st waId c db).1 (answer st waId c db).2 := by
  have hanswer : answer st waId c db = if 0 < db.ttl c.now waId then
      (some (refused .blocked false (some (db.ttl c.now waId))), db)
      else (judge st waId (memberOf st c.id c.now) c.text c.now (tally st waId c db)).eval
        (serve c.now) (counted st waId c db) := by
    change Prog.eval _ (if 0 < db.ttl c.now waId then _ else _) _ = _
    split <;> rfl
  rw [hanswer]
  split
  · rename_i hblocked
    exact .blocked hblocked
  · rename_i hblocked
    have hfree := Int.not_lt.mp hblocked
    unfold judge
    split
    · rename_i hadded
      exact .redelivered hfree hadded
    · rename_i hadded
      have hadded := Bool.not_eq_false _ ▸ hadded
      split
      · rename_i hburst
        let setting := serve c.now (.setBlock waId st.abuseBlockSeconds) (counted st waId c db)
        change Outcome st waId c db (Prog.eval _ (if setting.1 = true then _ else _) setting.2).1
          (Prog.eval _ (if setting.1 = true then _ else _) setting.2).2
        by_cases hset : st.abuseBlockSeconds = 0
        · have hsetting : setting = (false, counted st waId c db) := if_pos hset
          rw [hsetting]
          exact .failing hfree hadded hburst hset
        · have hdone : setting.1 = true := by
            simp only [setting, serve, Redis.setBlock, if_neg hset]
          rw [hdone]
          exact .flooding hfree hadded hburst hset
      · rename_i hburst
        have hburst := Nat.le_of_not_lt hburst
        have hduplicates : (counted st waId c db).duplicates = db.duplicates := rfl
        obtain ⟨hrepeats, hmessages, hkept⟩ := eval_repeatsOf st waId (memberOf st c.id c.now)
          c.text c.now hduplicates
        unfold judgeText
        rw [Prog.eval_bind, hrepeats]
        by_cases hspam : (textRepeats st waId c db).any (st.duplicateMessageLimit < ·) = true
        · rw [textRepeats] at hspam
          rw [if_pos hspam]
          exact .spamming hfree hadded hburst hspam hmessages hkept
        · rw [textRepeats] at hspam
          rw [if_neg hspam]
          exact .limited hfree hadded hburst (Bool.not_eq_true _ ▸ hspam) hmessages hkept

end Quota
