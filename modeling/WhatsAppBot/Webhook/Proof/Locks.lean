import WhatsAppBot.Lib.Ghost
import WhatsAppBot.Store.Proof.Writes
import WhatsAppBot.Webhook.System

/-!
# What is held by one process

Two open transactions never hold the same lock: `lock_exclusive`. The ghost state is the owner of
every lock. `Claims`: a process lays claim to an id only when it draws it from the sequence; then no
id is claimed by two (`claims_exclusive`), and in particular no conversation is created by two
(`creates_exclusive`).
-/

set_option autoImplicit false

namespace Webhook

open Lib Store Bot

/-- A monitor that watches nothing. -/
def idleMonitor : Monitor botSig Unit where
  ok _ _ := True
  next _ _ _ := ()

theorem idleMonitor_accepts (cfg : Config) :
    idleMonitor.Accepts () (fun _ => True) (sem cfg) where
  program l := by
    have h : (program cfg l).Only fun _ => True := by
      generalize program cfg l = P
      induction P with
      | ret x => trivial
      | op o k ih => exact ⟨trivial, ih⟩
    exact Prog.wp_mono (h.wp (B := fun _ => True) trivial fun _ _ _ _ => ⟨trivial, fun _ _ => trivial⟩)
      fun _ _ h => h
  may _ := trivial

namespace Locks

/-- Every lock a transaction holds is owned by its process. -/
def Owns (owner : Lock → Option Nat) (i : Nat) (tx : Tx) : Prop :=
  ∀ l, Tx.holds tx l = true → owner l = some i

theorem owns_nil (owner : Lock → Option Nat) (i : Nat) : Owns owner i [] := by
  intro l h
  cases h

theorem simulated (cfg : Config) (w₀ : World) : Simulated (sem cfg) anyStep w₀
    idleMonitor () (fun _ => True) (fun _ _ _ => True) (fun owner _ i _ tx => Owns owner i tx) where
  start := ⟨fun _ => none, trivial, owns_nil _⟩
  spawn h := h
  leave {owner w h i tx e l} := fun _ _ _ =>
    ⟨owner, trivial, owns_nil owner i, fun _ _ _ _ h => h⟩
  op {owner s i p o rest r w tx} := by
    intro view _ _ hF hp _ _ hstep _
    have hview : (view i).2 = p.held := by rw [show view i = _ from Sys.view_some hp]
    have hself : Owns owner i p.held := hview ▸ hF i
    change step cfg _ _ _ o r = _ at hstep
    cases o with
    | sql stmt =>
      obtain ⟨ws, -, hb, -, -, rfl⟩ := step_sql hstep
      refine ⟨fun l => if Tx.holds ws l then some i else owner l, trivial, fun l hl => ?_,
        fun j hj l hl => ?_⟩
      · rw [Tx.holds_append, Bool.or_eq_true] at hl
        by_cases hws : Tx.holds ws l = true
        · exact if_pos hws
        · exact (if_neg hws).trans (hself l (hl.resolve_right hws))
      · have hnot : Tx.holds ws l = false := by
          by_contra hws
          obtain ⟨wr, hwr, hlock⟩ := List.any_eq_true.mp (Bool.not_eq_false _ ▸ hws)
          have hmem : (view j).2 ∈ s.others i := by
            rcases Sys.view_others hj with hnil | hmem
            · rw [show (view j).2 = [] from hnil] at hl; cases hl
            · exact hmem
          rw [not_holds_of_not_blocked hb hwr (of_decide_eq_true hlock) hmem] at hl
          cases hl
        simpa [hnot] using hF j l hl
    | commit =>
      obtain ⟨-, -, rfl⟩ := step_commit hstep
      exact ⟨owner, trivial, owns_nil owner i, fun j _ => hF j⟩
    | rollback =>
      obtain ⟨-, rfl⟩ := step_rollback hstep
      exact ⟨owner, trivial, owns_nil owner i, fun j _ => hF j⟩
    | raise => cases r
    | _ =>
      obtain ⟨-, -, rfl⟩ := step_quiet rfl hstep
      exact ⟨owner, trivial, hself, fun j _ => hF j⟩

end Locks

/-- **No lock is held by two running processes.** -/
theorem lock_exclusive {cfg : Config} {w₀ : World} {s : Sys botSig World Tx Task}
    (h : Reach (sem cfg) anyStep w₀ s) {i j : Nat} {p q : Proc botSig Tx Task}
    (hp : s.proc i = some p) (hq : s.proc j = some q) {l : Lock} (hi : Tx.holds p.held l = true)
    (hj : Tx.holds q.held l = true) : i = j := by
  obtain ⟨owner, -, hF⟩ := h.simulated (idleMonitor_accepts cfg) (Locks.simulated cfg w₀)
  have hpi := hF i
  have hqj := hF j
  rw [Sys.view_some hp] at hpi
  rw [Sys.view_some hq] at hqj
  exact Option.some.inj ((hpi l hi).symm.trans (hqj l hj))

/-! ## Ids -/

variable {A : Type} {mon : Monitor botSig A} {a₀ : A} {claims : A → Tx → Nat → Prop} {cfg : Config}

/-- A claim to an id starts with its draw from the sequence. -/
structure Claims (cfg : Config) (mon : Monitor botSig A) (a₀ : A) (claims : A → Tx → Nat → Prop) :
    Prop where
  idle : ∀ n, ¬ claims a₀ [] n
  draw : ∀ {others w a tx o r w' tx' n}, mon.ok a o → step cfg others w tx o r = some (w', tx') →
    claims (mon.next a o r) tx' n → claims a tx n ∨ (n = w.seq ∧ w.seq < w'.seq)

theorem step_seq_le {others : List Tx} {w w' : World} {tx tx' : Tx} {o : Op} {r : o.Resp}
    (h : step cfg others w tx o r = some (w', tx')) : w.seq ≤ w'.seq := by
  cases o with
  | sql =>
    obtain ⟨-, -, -, -, hseq, -⟩ := step_sql h
    omega
  | commit => exact Nat.le_of_eq (step_commit h).2.1.symm
  | rollback =>
    obtain ⟨rfl, -⟩ := step_rollback h
    exact Nat.le_refl _
  | raise => cases r
  | _ => exact Nat.le_of_eq (step_quiet rfl h).2.1.symm

theorem Claims.simulated (hC : Claims cfg mon a₀ claims) (w₀ : World) :
    Simulated (sem cfg) anyStep w₀ mon a₀ (fun _ => True)
      (fun (owner : Nat → Option Nat) w _ => ∀ n, owner n ≠ none → n < w.seq)
      (fun owner _ i a tx => ∀ n, claims a tx n → owner n = some i) where
  start := ⟨fun _ => none, fun _ h => absurd rfl h, fun _ n hn => absurd hn (hC.idle n)⟩
  spawn h := h
  leave {owner w h i tx e l} := fun hI _ _ =>
    ⟨owner, hI, fun n hn => absurd hn (hC.idle n), fun _ _ _ _ h => h⟩
  op {owner s i p o rest r w tx} := by
    intro view _ hI hF hp _ hok hstep _
    have hview : view i = (track mon a₀ i s.hist, p.held) := Sys.view_some hp
    have hself := hF i
    rw [hview] at hself hok
    rw [hview]
    change step cfg _ _ _ o r = _ at hstep
    have hle := step_seq_le hstep
    have hfree : owner s.shared.seq = none := by
      by_contra hne
      exact Nat.lt_irrefl _ (hI _ hne)
    -- the owners stay, and an id that was drawn gets one
    refine ⟨fun n => if n = s.shared.seq ∧ s.shared.seq < w.seq then some i else owner n,
      fun n hn => ?_, fun n hn => ?_, fun j hj n hn => ?_⟩
    · dsimp only at hn
      split at hn
      · omega
      · have := hI n hn
        omega
    · by_cases hnew : n = s.shared.seq ∧ s.shared.seq < w.seq
      · exact if_pos hnew
      · exact (if_neg hnew).trans (hself n ((hC.draw hok hstep hn).resolve_right hnew))
    · have howner := hF j n hn
      refine (if_neg fun hnew => ?_).trans howner
      rw [hnew.1, hfree] at howner
      cases howner

/-- **No id is claimed by two running processes.** -/
theorem claims_exclusive (hA : mon.Accepts a₀ (fun _ => True) (sem cfg))
    (hC : Claims cfg mon a₀ claims) {w₀ : World} {s : Sys botSig World Tx Task}
    (h : Reach (sem cfg) anyStep w₀ s) {i j : Nat} {p q : Proc botSig Tx Task}
    (hp : s.proc i = some p) (hq : s.proc j = some q) {n : Nat}
    (hi : claims (track mon a₀ i s.hist) p.held n) (hj : claims (track mon a₀ j s.hist) q.held n) :
    i = j := by
  obtain ⟨owner, -, hF⟩ := h.simulated hA (hC.simulated w₀)
  have hpi := hF i
  have hqj := hF j
  rw [Sys.view_some hp] at hpi
  rw [Sys.view_some hq] at hqj
  exact Option.some.inj ((hpi n hi).symm.trans (hqj n hj))

/-- The transaction creates the conversation. -/
def Creates (tx : Tx) (id : Nat) : Prop := ∃ d, .insertConversation d ∈ tx ∧ d.id = id

theorem creates_claims (cfg : Config) : Claims cfg idleMonitor () fun _ tx => Creates tx where
  idle n hn := by
    obtain ⟨d, hd, -⟩ := hn
    cases hd
  draw {others w a tx o r w' tx' n} := by
    intro _ hstep hn
    cases o with
    | sql s =>
      obtain ⟨ws, hexec, -, -, hseq, rfl⟩ := step_sql hstep
      obtain ⟨d, hd, rfl⟩ := hn
      rcases List.mem_append.mp hd with hd | hd
      · exact .inl ⟨d, hd, rfl⟩
      · refine .inr ⟨?_, by omega⟩
        obtain ⟨userId, channel, rfl, -⟩ := Stmt.exec_made hexec hd
        simp only [Stmt.exec] at hexec
        split at hexec
        · obtain ⟨-, rfl⟩ := Prod.mk.inj (Option.some.inj hexec)
          cases hd
        · split at hexec
          · obtain ⟨-, rfl⟩ := Prod.mk.inj (Option.some.inj hexec)
            rw [Write.insertConversation.inj (List.mem_singleton.mp hd)]
            rfl
          · cases hexec
    | commit =>
      obtain ⟨-, -, rfl⟩ := step_commit hstep
      obtain ⟨d, hd, -⟩ := hn
      cases hd
    | rollback =>
      obtain ⟨-, rfl⟩ := step_rollback hstep
      obtain ⟨d, hd, -⟩ := hn
      cases hd
    | raise => cases r
    | _ =>
      obtain ⟨-, -, rfl⟩ := step_quiet rfl hstep
      exact .inl hn

/-- No conversation is created by two running processes. -/
theorem creates_exclusive {w₀ : World} {s : Sys botSig World Tx Task}
    (h : Reach (sem cfg) anyStep w₀ s) {i j : Nat} {p q : Proc botSig Tx Task}
    (hp : s.proc i = some p) (hq : s.proc j = some q) {n : Nat} (hi : Creates p.held n)
    (hj : Creates q.held n) : i = j :=
  claims_exclusive (idleMonitor_accepts cfg) (creates_claims cfg) h hp hq hi hj

end Webhook
