import Mathlib.Algebra.GroupWithZero.Nat
import WhatsAppBot.Bot.Proof.Wire
import WhatsAppBot.Webhook.Proof.OneReply

/-!
# How many copies of an answer arrive

One answer is one invocation of a sender (`one_answer`), and one invocation is several requests. The
provider accepts at most one copy of the answer to a message exactly when it behaves as `Wire.Once`
says (`one_copy_iff`); it can accept two (`two_copies`). The answers a send can get are those of a
provider with some behaviour (`send_made`).
-/

set_option autoImplicit false

namespace Webhook

open Lib Store Bot Chat

variable {cfg : Config} {t₀ : Time} {s : Sys botSig World Tx Task} {k : String} {h : History}
  {i : Nat} {l : Task} {tx : Tx} {out : Outbound} {wire : Wire} {w : World}

/-- The copies of the answer to `k` an event delivers. -/
def copiesOf (k : String) : Event botSig World Tx Task → Nat
  | .op _ _ _ (.send out) wire _ => if out.purpose = .reply (some k) then Wire.copies wire else 0
  | _ => 0

/-- The copies of the answer to `k` the provider accepted. -/
def acceptedCopies (k : String) (h : History) : Nat := (h.map (copiesOf k)).sum

theorem copiesOf_eq_zero {e : Event botSig World Tx Task} (he : isReplySend k e = false) :
    copiesOf k e = 0 := by
  unfold copiesOf
  split
  · exact if_neg (of_decide_eq_false he)
  · rfl

theorem acceptedCopies_eq_zero (h0 : h.countP (isReplySend k) = 0) : acceptedCopies k h = 0 := by
  induction h with
  | nil => rfl
  | cons e h ih =>
    obtain ⟨hh, he⟩ := Nat.add_eq_zero_iff.mp (List.countP_cons ▸ h0)
    have he : isReplySend k e = false := by simpa using he
    simp only [acceptedCopies, List.map_cons, List.sum_cons, copiesOf_eq_zero he]
    rw [Nat.zero_add]
    exact ih hh

/-- With one send in the history its copies are all there are. -/
theorem acceptedCopies_eq {e : Event botSig World Tx Task} (hle : h.countP (isReplySend k) ≤ 1)
    (hmem : e ∈ h) (he : isReplySend k e = true) : acceptedCopies k h = copiesOf k e := by
  induction h with
  | nil => cases hmem
  | cons x h ih =>
    rw [List.countP_cons] at hle
    rcases List.mem_cons.mp hmem with rfl | hmem
    · rw [he, if_pos rfl] at hle
      have hrest : acceptedCopies k h = 0 := acceptedCopies_eq_zero (by omega)
      simp only [acceptedCopies, List.map_cons, List.sum_cons]
      rw [show (h.map (copiesOf k)).sum = 0 from hrest, Nat.add_zero]
    · have hpos : 0 < h.countP (isReplySend k) := List.countP_pos_iff.mpr ⟨e, hmem, he⟩
      have hx : isReplySend k x = false := by
        by_contra hx
        rw [Bool.not_eq_false] at hx
        rw [hx, if_pos rfl] at hle
        omega
      simp only [acceptedCopies, List.map_cons, List.sum_cons, copiesOf_eq_zero hx]
      rw [Nat.zero_add]
      exact ih (by omega) hmem

/-- Every answered send was answered by a provider with some behaviour. -/
theorem send_made (h : Reach (sem cfg) anyStep (World.empty t₀) s)
    (he : Event.op i l tx (Op.send out) wire w ∈ s.hist) :
    ∃ b b', wire = Wire.made cfg.extraAttempts out.form b b' := by
  obtain ⟨h₁, h₂, hsplit⟩ := List.append_of_mem he
  obtain ⟨s₁, s₂, -, hstep, -, -⟩ := h.event hsplit
  cases hstep with
  | op _ _ hs =>
    have hstep : Bot.step cfg (s₁.others i) s₁.shared _ (.send out) wire = some (w, _) := hs
    exact Wire.made_of_legal (step_send hstep).1

/-- **One copy of an answer arrives**, after every run, exactly when the provider accepts at most one
of the requests its behaviour makes the client send. -/
theorem one_copy_iff (h : Reach (sem cfg) anyStep (World.empty t₀) s)
    (he : Event.op i l tx (Op.send out) wire w ∈ s.hist) (hp : out.purpose = .reply (some k))
    {b b' : Nat → Post} (hw : wire = Wire.made cfg.extraAttempts out.form b b') :
    acceptedCopies k s.hist ≤ 1 ↔ Wire.Once cfg.extraAttempts out.form b b' := by
  rw [acceptedCopies_eq (reply_sends_le_one h k) he (decide_eq_true hp)]
  simp only [copiesOf, if_pos hp, hw]
  exact Wire.copies_made_le_one

/-- The event hands an answer to `k` to a sender that answers `wire`. -/
def sentWith (k : String) (form : Form) (wire : Wire) : Event botSig World Tx Task → Bool
  | .op _ _ _ (.send out) w _ => out.purpose = .reply (some k) ∧ out.form = form ∧ w = wire
  | _ => false

theorem sentWith_iff {form : Form} {e : Event botSig World Tx Task}
    (he : sentWith k form wire e = true) : ∃ i l tx out w, e = .op i l tx (Op.send out) wire w ∧
      out.purpose = .reply (some k) ∧ out.form = form := by
  unfold sentWith at he
  split at he
  · rename_i i l tx out w post
    obtain ⟨hp, hform, hw⟩ := of_decide_eq_true he
    exact ⟨i, l, tx, out, post, by rw [← hw], hp, hform⟩
  · cases he

/-- One worker answers a greeting, and the provider answers the send with `wire`. -/
def answered (wire : Wire) : List Sample.Action :=
  [.spawn (.webhook (Sample.delivery [Sample.textMessage "20100" "wamid.1" "hello"]))] ++
    Sample.steps 0 29 wire

/-- The provider rejects the first request with a 503 and accepts the second. -/
def acceptedOnce (i : Nat) : Post := if i = 0 then ⟨false, .status 503⟩ else ⟨true, .ok (some "out")⟩

theorem one_copy_iff_sample : ∃ s : Sys botSig World Tx Task, acceptedCopies "wamid.1" s.hist = 1 ∧
    (acceptedCopies "wamid.1" s.hist ≤ 1 ↔ Wire.Once 2 .text acceptedOnce acceptedOnce) := by
  let wire := Wire.made 2 .text acceptedOnce acceptedOnce
  obtain ⟨s, hs, hrun⟩ := Reach.exists_of_run (M := sem Sample.config) (C := anyStep) (w := World.empty 0)
    (answered wire) (fun s => acceptedCopies "wamid.1" s.hist = 1 ∧
      s.hist.any (sentWith "wamid.1" .text wire)) (by decide)
  obtain ⟨hcopies, hany⟩ := of_decide_eq_true hrun
  obtain ⟨e, hmem, he⟩ := List.any_eq_true.mp hany
  obtain ⟨i, l, tx, out, w, rfl, hp, hform⟩ := sentWith_iff he
  have hwire : wire = Wire.made Sample.config.extraAttempts out.form acceptedOnce acceptedOnce := by
    rw [hform]; rfl
  have hiff := one_copy_iff hs hmem hp hwire
  rw [hform] at hiff
  exact ⟨s, hcopies, hiff⟩

/-- The provider accepts a request, the client times out and sends it again. -/
def acceptedTwice : Wire := ⟨[⟨true, .transport⟩, ⟨true, .ok (some "out")⟩], none⟩

/-- Two copies of one answer arrive. -/
theorem two_copies : ∃ s, Reach (sem Sample.config) anyStep (World.empty 0) s ∧
    acceptedCopies "wamid.1" s.hist = 2 := by
  obtain ⟨s, hs, hrun⟩ := Reach.exists_of_run (M := sem Sample.config) (C := anyStep) (w := World.empty 0)
    (answered acceptedTwice) (fun s => acceptedCopies "wamid.1" s.hist = 2) (by decide)
  exact ⟨s, hs, of_decide_eq_true hrun⟩

end Webhook
