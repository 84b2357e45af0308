import WhatsAppBot.Quota.Customer

/-!
# The default limits

The settings' defaults, and calls that come at given times.
-/

set_option autoImplicit false

namespace Quota.Sample

def settings : Settings where
  customerRateLimitEnabled := true
  customerLimitPerMinute := 12
  customerLimitPerHour := 120
  customerLimitPerDay := 400
  floodBurstMessages := 5
  floodBurstSeconds := 10
  duplicateMessageLimit := 5
  duplicateMessageWindowSeconds := 300
  abuseBlockSeconds := 900
  spendGuardEnabled := true
  dailySpendLimitUsd := 25
  dailyTokenLimit := 5000000
  openaiInputPricePer1m := 2 / 5
  openaiOutputPricePer1m := 8 / 5
  fingerprint body := body
  formatFloat _ := "0"

/-- `n` messages, `gap` apart, with texts of their own. -/
def series (name : Char) (start gap : Seconds) : Nat → List Call
  | 0 => []
  | n + 1 =>
    let id := String.ofList (List.replicate (n + 1) name)
    ⟨start + n * gap, id, some id⟩ :: series name start gap n

/-- The same with one text. -/
def repeating (body : String) (name : Char) (start gap : Seconds) (n : Nat) : List Call :=
  (series name start gap n).map fun c => { c with text := some body }

end Quota.Sample
