import WhatsAppBot.Quota.Redis

/-!
# The checks in front of the model

`check`, `_check_spend`, `_check_customer` and `record_usage`. With Redis there, one command can still
fail: `SETEX` refuses to set a block that lasts no time. `_check_customer` then answers `none`, and
`check` lets the message through, as it does whenever a check raises. Logs, metrics and the
once-a-day alerts are left out: nothing here reads them.
-/

set_option autoImplicit false

namespace Quota

open Lib

inductive Reason where
  | rateLimited
  | flooding
  | spamming
  | blocked
  | spendExceeded
  | tokensExceeded
  | aiDisabledManually
  deriving DecidableEq

/-- `QuotaDecision`. -/
structure Decision where
  isAllowed : Bool
  reason : Option Reason
  notify : Bool
  retryAfterSeconds : Option ℤ
  deriving DecidableEq

/-- `ALLOWED`. -/
def allowed : Decision := ⟨true, none, false, none⟩

def refused (reason : Reason) (notify : Bool) (retryAfterSeconds : Option ℤ) : Decision :=
  ⟨false, some reason, notify, retryAfterSeconds⟩

structure Settings where
  customerRateLimitEnabled : Bool
  customerLimitPerMinute : Nat
  customerLimitPerHour : Nat
  customerLimitPerDay : Nat
  floodBurstMessages : Nat
  floodBurstSeconds : Nat
  duplicateMessageLimit : Nat
  duplicateMessageWindowSeconds : Nat
  abuseBlockSeconds : Nat
  spendGuardEnabled : Bool
  dailySpendLimitUsd : ℚ
  dailyTokenLimit : ℤ
  openaiInputPricePer1m : ℚ
  openaiOutputPricePer1m : ℚ
  /-- `_fingerprint`. -/
  fingerprint : String → String
  /-- The text of a float. -/
  formatFloat : Seconds → String

abbrev QuotaM (α : Type) := Prog quotaSig α

def perform (o : Op) : QuotaM o.Resp := Prog.call (S := quotaSig) o

/-! ## Customers -/

/-- `wa_message_id or f"t{now}"`. -/
def memberOf (st : Settings) (waMessageId : String) (now : Seconds) : String :=
  if waMessageId ≠ "" then waMessageId else "t" ++ st.formatFloat now

/-- Some window holds more than its limit. -/
def Tally.isOver (st : Settings) (t : Tally) : Bool :=
  st.customerLimitPerMinute < t.perMinute ∨ st.customerLimitPerHour < t.perHour ∨
    st.customerLimitPerDay < t.perDay

/-- The windows with their counts, limits and retry times, in the order they are looked at. -/
def Tally.windows (st : Settings) (t : Tally) : List (Nat × Nat × ℤ) :=
  [(t.perMinute, st.customerLimitPerMinute, 60), (t.perHour, st.customerLimitPerHour, 3600),
    (t.perDay, st.customerLimitPerDay, 86400)]

/-- The loop over the windows. -/
def rateLimit (st : Settings) (t : Tally) : Decision :=
  match (t.windows st).find? fun w => w.2.1 < w.1 with
  | some (count, limit, retryAfter) => refused .rateLimited (count = limit + 1) (some retryAfter)
  | none => allowed

/-- How often the text was sent in the last minute; `none` for an empty text. -/
def repeatsOf (st : Settings) (waId member : String) (text : Option String) (now : Seconds) :
    QuotaM (Option Nat) :=
  match text with
  | none => pure none
  | some body =>
    if body = "" then pure none
    else do
      let n ← perform (.countText waId (st.fingerprint body) member now
        st.duplicateMessageWindowSeconds)
      pure (some n)

/-- The end of `_check_customer`: repeated text, then the limits. -/
def judgeText (st : Settings) (waId member : String) (text : Option String) (now : Seconds)
    (t : Tally) : QuotaM (Option Decision) := do
  let repeats ← repeatsOf st waId member text now
  if repeats.any (st.duplicateMessageLimit < ·) then
    pure (some (refused .spamming true (some st.abuseBlockSeconds)))
  else pure (some (rateLimit st t))

/-- `_check_customer` from its first transaction on. -/
def judge (st : Settings) (waId member : String) (text : Option String) (now : Seconds) (t : Tally) :
    QuotaM (Option Decision) :=
  if t.added = false then pure (some allowed)
  else if st.floodBurstMessages < t.burst then do
    let set ← perform (.setBlock waId st.abuseBlockSeconds)
    if set = true then
      pure (some (refused .flooding (!t.isOver st) (some st.abuseBlockSeconds)))
    else pure none
  else judgeText st waId member text now t

/-- `_check_customer`. -/
def checkCustomer (st : Settings) (waId waMessageId : String) (text : Option String) :
    QuotaM (Option Decision) := do
  let now ← perform .time
  let ttl ← perform (.ttl waId)
  if 0 < ttl then pure (some (refused .blocked false (some ttl)))
  else
    let member := memberOf st waMessageId now
    let t ← perform (.countMessage waId member now st.floodBurstSeconds)
    judge st waId member text now t

/-! ## Spend -/

def Settings.limit (st : Settings) : Counter → ℚ
  | .spend => st.dailySpendLimitUsd
  | .tokens => st.dailyTokenLimit

/-- `_check_spend`. The pipeline is not a transaction: its three commands run one by one. -/
def checkSpend (st : Settings) : QuotaM Decision := do
  let day ← perform .today
  let killed ← perform .killed
  let spend ← perform (.total .spend day)
  let tokens ← perform (.total .tokens day)
  if killed = true then pure (refused .aiDisabledManually true none)
  else if st.limit .spend ≤ spend.getD 0 then pure (refused .spendExceeded true none)
  else if st.limit .tokens ≤ tokens.getD 0 then pure (refused .tokensExceeded true none)
  else pure allowed

/-- `check`. -/
def check (st : Settings) (waId waMessageId : String) (text : Option String) : QuotaM Decision :=
  if !st.customerRateLimitEnabled && !st.spendGuardEnabled then pure allowed
  else do
    let spend ← if st.spendGuardEnabled then checkSpend st else pure allowed
    if !spend.isAllowed then pure spend
    else if !st.customerRateLimitEnabled then pure allowed
    else
      let d ← checkCustomer st waId waMessageId text
      pure (d.getD allowed)

def Usage.total (u : Usage) : ℤ := max 0 u.promptTokens + max 0 u.completionTokens

def costOf (st : Settings) (u : Usage) : ℚ :=
  (u.promptTokens * st.openaiInputPricePer1m + u.completionTokens * st.openaiOutputPricePer1m) /
    1000000

/-- `record_usage`. -/
def recordUsage (st : Settings) (u : Usage) : QuotaM Unit :=
  if !st.spendGuardEnabled then pure ()
  else if u.total = 0 then pure ()
  else do
    let day ← perform .today
    perform (.addUsage day (costOf st u) u.total)

end Quota
