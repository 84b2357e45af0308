import WhatsAppBot.Quota.Sample
import WhatsAppBot.Store.Rows

/-!
# The checks of several customers over one Redis

The keys as the strings `quota.py` writes (`KeySpace`), and the checks of any number of customers
over them: a schedule starts checks and performs their commands one by one, in any order. A command
can fail, before or after Redis performed it; `check` then fails open. What the spend guard reads is
part of the schedule.
-/

set_option autoImplicit false

namespace Quota

open Lib

/-- Who sends a message: `(channel, external_id)`. -/
structure Customer where
  channel : Store.Channel
  externalId : String
  deriving DecidableEq

/-! ## Keys -/

def messagesKey (waId : String) : String := "quota:msgs:" ++ waId
def duplicateKey (waId fingerprint : String) : String := "quota:dup:" ++ waId ++ ":" ++ fingerprint
def blockedKey (waId : String) : String := "quota:blocked:" ++ waId

inductive Cell where
  | times (e : Expiring Times)
  | block (deadline : Seconds)

def Cell.times? : Cell → Option (Expiring Times)
  | .times e => some e
  | .block _ => none

def Cell.block? : Cell → Option Seconds
  | .times _ => none
  | .block deadline => some deadline

abbrev KeySpace := String → Option Cell

namespace KeySpace

/-- The keys of the customers under what they belong to. -/
def redis (ks : KeySpace) : Redis where
  messages waId := (ks (messagesKey waId)).bind Cell.times?
  duplicates x := (ks (duplicateKey x.1 x.2)).bind Cell.times?
  blocked waId := (ks (blockedKey waId)).bind Cell.block?
  totals _ := none

def set (ks : KeySpace) (key : String) (c : Option Cell) : KeySpace := Function.update ks key c

@[simp] theorem set_self (ks : KeySpace) (key : String) (c : Option Cell) :
    ks.set key c key = c := by
  simp [set]

theorem set_other (ks : KeySpace) {key key' : String} (c : Option Cell) (h : key' ≠ key) :
    ks.set key c key' = ks key' := by
  simp [set, h]

end KeySpace

/-- What `_check_spend` reads. -/
structure Spend where
  killed : Bool
  total : Counter → Option ℚ

/-- `serve` on the keys themselves. -/
def serveKeys (clock : Seconds) (spend : Spend) : (o : Op) → KeySpace → o.Resp × KeySpace
  | .countMessage waId member now burst, ks =>
    let (tally, db) := ks.redis.countMessage clock waId member now burst
    (tally, ks.set (messagesKey waId) ((db.messages waId).map .times))
  | .countText waId fingerprint member now window, ks =>
    let (n, db) := ks.redis.countText clock waId fingerprint member now window
    (n, ks.set (duplicateKey waId fingerprint) ((db.duplicates (waId, fingerprint)).map .times))
  | .setBlock waId seconds, ks =>
    let (done, db) := ks.redis.setBlock clock waId seconds
    (done, if done then ks.set (blockedKey waId) ((db.blocked waId).map .block) else ks)
  | .ttl waId, ks => (ks.redis.ttl clock waId, ks)
  | .time, ks => (clock, ks)
  | .today, ks => (dayOf clock, ks)
  | .killed, ks => (spend.killed, ks)
  | .total c _, ks => (spend.total c, ks)
  | .addUsage _ _ _, ks => ((), ks)
  | .complete, ks => (none, ks)

/-! ## Checks of a customer -/

/-- The commands a check of the customer `waId` sends. -/
def Op.About (st : Settings) (waId : String) : Op → Prop
  | .ttl id | .countMessage id _ _ _ | .setBlock id _ => id = waId
  | .countText id fingerprint _ _ _ => id = waId ∧ ∃ body, fingerprint = st.fingerprint body
  | .time | .today | .killed | .total _ _ => True
  | .addUsage _ _ _ | .complete => False

theorem repeatsOf_only (st : Settings) (waId member : String) (text : Option String)
    (now : Seconds) : (repeatsOf st waId member text now).Only (Op.About st waId) := by
  unfold repeatsOf
  cases text with
  | none => exact Prog.only_pure _
  | some body => exact .ite (Prog.only_pure _) (.call_bind ⟨rfl, body, rfl⟩ fun _ => Prog.only_pure _)

theorem judge_only (st : Settings) (waId member : String) (text : Option String) (now : Seconds)
    (t : Tally) : (judge st waId member text now t).Only (Op.About st waId) := by
  refine .ite (Prog.only_pure _) (.ite (.call_bind rfl fun set => ?_) ?_)
  · exact .ite (Prog.only_pure _) (Prog.only_pure _)
  · exact (repeatsOf_only st waId member text now).bind fun _ =>
      .ite (Prog.only_pure _) (Prog.only_pure _)

theorem checkSpend_only (st : Settings) (waId : String) :
    (checkSpend st).Only (Op.About st waId) := by
  refine .call_bind trivial fun _ => .call_bind trivial fun _ => .call_bind trivial fun _ =>
    .call_bind trivial fun _ => .ite (Prog.only_pure _) (.ite (Prog.only_pure _) ?_)
  exact .ite (Prog.only_pure _) (Prog.only_pure _)

/-- A check is about its customer. -/
theorem check_only (st : Settings) (waId waMessageId : String) (text : Option String) :
    (check st waId waMessageId text).Only (Op.About st waId) := by
  have hcustomer : (checkCustomer st waId waMessageId text).Only (Op.About st waId) :=
    .call_bind trivial fun now => .call_bind rfl fun _ => .ite (Prog.only_pure _)
      (.call_bind rfl fun t => judge_only st waId _ text now t)
  have hrest : ∀ spend : Decision, Prog.Only (Op.About st waId)
      (if !spend.isAllowed then pure spend
        else if !st.customerRateLimitEnabled then pure allowed
        else checkCustomer st waId waMessageId text >>= fun d => pure (d.getD allowed)) :=
    fun spend => .ite (Prog.only_pure _) (.ite (Prog.only_pure _)
      (hcustomer.bind fun _ => Prog.only_pure _))
  exact .ite (Prog.only_pure _) (.ite ((checkSpend_only st waId).bind hrest) (hrest allowed))

/-- What is left of a check of the customer; a decision, once nothing is. -/
def Checking (st : Settings) (c : Customer) : Type :=
  { P : QuotaM Decision // P.Only (Op.About st c.externalId) }

namespace Checking

variable {st : Settings} {c : Customer}

/-- `_within_quota` passes the platform's id. -/
def start (st : Settings) (c : Customer) (waMessageId : String) (text : Option String) :
    Checking st c :=
  ⟨check st c.externalId waMessageId text, check_only st _ _ _⟩

/-- What a command that raised leaves. -/
def failed (st : Settings) (c : Customer) : Checking st c := ⟨pure allowed, Prog.only_pure _⟩

def decision (x : Checking st c) : Option Decision :=
  match x.val with
  | .ret d => some d
  | .op _ _ => none

end Checking

/-! ## Runs -/

/-- What became of a command: it was answered, its answer was lost, or it never arrived. -/
inductive Fate where
  | answered
  | lost
  | unsent
  deriving DecidableEq

inductive Action where
  | receive (waMessageId : String) (text : Option String)
  /-- The `n`-th check of the customer sends its next command. -/
  | perform (n : Nat) (clock : Seconds) (spend : Spend) (fate : Fate)

structure Checks (st : Settings) where
  keys : KeySpace
  of : (c : Customer) → List (Checking st c)

namespace Checks

variable {st : Settings}

def empty (st : Settings) : Checks st := ⟨fun _ => none, fun _ => []⟩

/-- A check sends its next command. -/
def advance {c : Customer} (clock : Seconds) (spend : Spend) (fate : Fate) (ks : KeySpace) :
    Checking st c → KeySpace × Checking st c
  | ⟨.ret d, h⟩ => (ks, ⟨.ret d, h⟩)
  | ⟨.op o k, h⟩ =>
    let answer := serveKeys clock spend o ks
    match fate with
    | .answered => (answer.2, ⟨k answer.1, h.2 answer.1⟩)
    | .lost => (answer.2, .failed st c)
    | .unsent => (ks, .failed st c)

def step (s : Checks st) (x : Customer × Action) : Checks st :=
  match x.2 with
  | .receive waMessageId text =>
    { s with of := Function.update s.of x.1 (s.of x.1 ++ [.start st x.1 waMessageId text]) }
  | .perform n clock spend fate =>
    match (s.of x.1)[n]? with
    | none => s
    | some check =>
      let next := advance clock spend fate s.keys check
      ⟨next.1, Function.update s.of x.1 ((s.of x.1).set n next.2)⟩

def run (s : Checks st) (xs : List (Customer × Action)) : Checks st := xs.foldl step s

/-- What the customer's messages were answered, in the order they came. -/
def decisions (s : Checks st) (c : Customer) : List (Option Decision) :=
  (s.of c).map Checking.decision

end Checks

end Quota
