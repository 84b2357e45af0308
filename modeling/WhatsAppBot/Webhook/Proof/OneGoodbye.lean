import WhatsAppBot.Webhook.Proof.SessionClaim
import WhatsAppBot.Webhook.Sample

/-!
# At most one goodbye for each time a session was opened

`one_goodbye`: the goodbyes said to a conversation are at most one more than the committed revives
of it, and between any two of them there is one. Both are read off the ticket of `session_claim`.
-/

set_option autoImplicit false

namespace Webhook

open Lib Store Bot

variable {c : Nat} {h h₁ h₂ h₃ : History} {e e' : Event botSig World Tx Task}

namespace SessionClaim

theorem mark_goodbye (he : isGoodbye c e = true) : mark c e = some .use := if_pos he

theorem mark_eq_rearm : mark c e = some .rearm ↔ isRevive c e = true := by
  unfold mark
  by_cases hg : isGoodbye c e = true
  · have hr : isRevive c e = false := by
      cases e with
      | op i l tx o r w => cases o <;> first | rfl | cases hg
      | _ => cases hg
    simp [hg, hr]
  · simp [hg]

theorem marks_append : marks c (h₁ ++ h₂) = marks c h₁ ++ marks c h₂ := List.filterMap_append

theorem marks_goodbye (he : isGoodbye c e = true) : marks c (e :: h) = .use :: marks c h := by
  rw [marks_cons, mark_goodbye he]
  rfl

/-- The marks count the goodbyes and the revives. -/
theorem count_marks (c : Nat) (h : History) :
    (marks c h).count .use = h.countP (isGoodbye c) ∧
      (marks c h).count .rearm = h.countP (isRevive c) := by
  induction h with
  | nil => exact ⟨rfl, rfl⟩
  | cons e h ih =>
    rw [marks_cons, List.count_append, List.count_append, List.countP_cons, List.countP_cons, ih.1,
      ih.2]
    by_cases hg : isGoodbye c e = true
    · have hr : isRevive c e = false := by
        rw [← Bool.not_eq_true, ← mark_eq_rearm, mark_goodbye hg]
        nofun
      simp [mark_goodbye hg, hg, hr, Nat.add_comm]
    · by_cases hr : isRevive c e = true
      · simp [mark_eq_rearm.mpr hr, hg, hr, Nat.add_comm]
      · simp [mark, hg, hr]

end SessionClaim

open SessionClaim

/-- **At most one goodbye per arming**: the goodbyes are at most one more than the committed revives,
and between any two there is one. -/
theorem one_goodbye {cfg : Config} {t₀ : Time} {s : Sys botSig World Tx Task}
    (h : Reach (sem cfg) anyStep (World.empty t₀) s) (c : Nat) :
    s.hist.countP (isGoodbye c) ≤ 1 + s.hist.countP (isRevive c) ∧
      ∀ h₁ h₂ h₃ e e', s.hist = h₁ ++ e :: (h₂ ++ e' :: h₃) → isGoodbye c e = true →
        isGoodbye c e' = true → ∃ r ∈ h₂, isRevive c r = true := by
  obtain ⟨t, lost, hI, -⟩ := session_claim h c
  refine ⟨?_, fun h₁ h₂ h₃ e e' hsplit he he' => ?_⟩
  · have hle := hI.run.uses_le
    rwa [(count_marks c s.hist).1, (count_marks c s.hist).2, Nat.add_comm] at hle
  · have hmarks : marks c s.hist = marks c h₁ ++ .use :: (marks c h₂ ++ .use :: marks c h₃) := by
      rw [hsplit, marks_append, marks_goodbye he, marks_append, marks_goodbye he']
    obtain ⟨r, hr, hmark⟩ := List.mem_filterMap.mp (hI.run.rearm_between hmarks)
    exact ⟨r, hr, mark_eq_rearm.mp hmark⟩

/-- A session is ended, its customer comes back in time, and it is ended again. -/
def endedTwice : List Sample.Action :=
  let task (id : String) : Task := .webhook (Sample.delivery [Sample.textMessage "20100" id "hello"])
  let sweep (i : Nat) : List Sample.Action := [.spawn .sweep, Sample.later i (6 * Sample.minute)] ++
    Sample.steps i 14 Sample.acceptedUnnamed ++ [.finish i]
  [.spawn (task "wamid.1")] ++ Sample.steps 0 29 Sample.acceptedUnnamed ++ [.finish 0] ++ sweep 1 ++
    [.spawn (task "wamid.2")] ++ Sample.steps 2 32 Sample.acceptedUnnamed ++ [.finish 2] ++ sweep 3

theorem one_goodbye_each : ∃ s : Sys botSig World Tx Task, s.hist.countP (isGoodbye 5) = 2 ∧
    s.hist.countP (isRevive 5) = 1 ∧
      s.hist.countP (isGoodbye 5) ≤ 1 + s.hist.countP (isRevive 5) := by
  obtain ⟨s, hs, hrun⟩ := Reach.exists_of_run (M := sem Sample.config) (C := anyStep) (w := World.empty 0) endedTwice
    (fun s => s.hist.countP (isGoodbye 5) = 2 ∧ s.hist.countP (isRevive 5) = 1) (by decide +kernel)
  obtain ⟨hgoodbyes, hrevives⟩ := of_decide_eq_true hrun
  exact ⟨s, hgoodbyes, hrevives, (one_goodbye hs 5).1⟩

end Webhook
