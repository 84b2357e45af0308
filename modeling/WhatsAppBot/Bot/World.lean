import WhatsAppBot.Bot.Ops

/-!
# The world the workers share

`World`: the committed database, the server's clock and the next row id. `step` performs one
operation of a process whose open transaction is `tx`: a statement sees the committed rows under its
own writes and waits for the locks other transactions hold (read committed), a commit applies the
writes, a rollback forgets them. What services answer is not constrained, except that a send answers
with requests the retrying client can have made and the clock does not go back.
-/

set_option autoImplicit false

namespace Bot

open Lib Store

structure World where
  db : Db
  clock : Time
  seq : Nat

/-- The empty database at a given time. -/
def World.empty (clock : Time) : World := ⟨Db.empty, clock, 0⟩

/-- Another transaction has the conversation row locked. -/
def lockedBy (others : List Tx) (id : Nat) : Bool :=
  others.any fun tx => Tx.holds tx (.conversation id)

/-- `max(1, attempts) - 1`: tenacity makes the first attempt whatever the setting is. -/
def Config.extraAttempts (cfg : Config) : Nat := cfg.retryMaxAttempts - 1

/-- Every statement draws an id, used or not: sequences have gaps. -/
def sqlStep (others : List Tx) (w : World) (tx : Tx) (s : Stmt) (r : s.Resp) :
    Option (World × Tx) :=
  match s.exec w.clock w.seq (lockedBy others) (w.db.applyAll tx) with
  | none => none
  | some (r', ws) =>
    if r' = r ∧ blocked others ws = false then some ({ w with seq := w.seq + 1 }, tx ++ ws)
    else none

def step (cfg : Config) (others : List Tx) (w : World) (tx : Tx) :
    (o : Op) → o.Resp → Option (World × Tx)
  | .sql s, r => sqlStep others w tx s r
  | .commit, _ => some ({ w with db := w.db.applyAll tx }, [])
  | .rollback, _ => some (w, [])
  | .now, t => if w.clock ≤ t then some ({ w with clock := t }, tx) else none
  | .send out, wire => if wire.legal cfg.extraAttempts out.form then some (w, tx) else none
  | .raise _, r => nomatch r
  | .publish _, _ | .markAsRead _, _ | .quotaCheck _ _ _, _ | .recordUsage _ _ _, _
  | .getCachedGeneration _, _ | .storeGeneration _ _, _ | .clearGeneration _, _ | .retrieve _ _, _
  | .generateReply _ _, _ => some (w, tx)

/-! ## What a step can do -/

/-- The operations that leave the database and the transaction alone. -/
def Op.isQuiet : Op → Bool
  | .sql _ | .commit | .rollback => false
  | _ => true

variable {cfg : Config} {others : List Tx} {w w' : World} {tx tx' : Tx}

theorem sqlStep_eq_some {s : Stmt} {r : s.Resp} (h : sqlStep others w tx s r = some (w', tx')) :
    ∃ ws, s.exec w.clock w.seq (lockedBy others) (w.db.applyAll tx) = some (r, ws) ∧
      blocked others ws = false ∧ w' = { w with seq := w.seq + 1 } ∧ tx' = tx ++ ws := by
  unfold sqlStep at h
  split at h
  · cases h
  · rename_i r' ws hexec
    obtain ⟨⟨rfl, hb⟩, hsome⟩ := Option.ite_none_right_eq_some.mp h
    obtain ⟨rfl, rfl⟩ := Prod.mk.inj (Option.some.inj hsome)
    exact ⟨ws, hexec, hb, rfl, rfl⟩

theorem step_sql {s : Stmt} {r : s.Resp} (h : step cfg others w tx (.sql s) r = some (w', tx')) :
    ∃ ws, s.exec w.clock w.seq (lockedBy others) (w.db.applyAll tx) = some (r, ws) ∧
      blocked others ws = false ∧ w'.db = w.db ∧ w'.seq = w.seq + 1 ∧ tx' = tx ++ ws := by
  obtain ⟨ws, hexec, hb, rfl, rfl⟩ := sqlStep_eq_some h
  exact ⟨ws, hexec, hb, rfl, rfl, rfl⟩

theorem step_commit {r : Unit} (h : step cfg others w tx .commit r = some (w', tx')) :
    w'.db = w.db.applyAll tx ∧ w'.seq = w.seq ∧ tx' = [] := by
  obtain ⟨rfl, rfl⟩ := Prod.mk.inj (Option.some.inj h)
  exact ⟨rfl, rfl, rfl⟩

theorem step_rollback {r : Unit} (h : step cfg others w tx .rollback r = some (w', tx')) :
    w' = w ∧ tx' = [] := by
  obtain ⟨rfl, rfl⟩ := Prod.mk.inj (Option.some.inj h)
  exact ⟨rfl, rfl⟩

theorem step_now {t : Time} (h : step cfg others w tx .now t = some (w', tx')) :
    w.clock ≤ t ∧ w' = { w with clock := t } ∧ tx' = tx := by
  obtain ⟨hle, hsome⟩ := Option.ite_none_right_eq_some.mp h
  obtain ⟨rfl, rfl⟩ := Prod.mk.inj (Option.some.inj hsome)
  exact ⟨hle, rfl, rfl⟩

theorem step_send {out : Outbound} {wire : Wire}
    (h : step cfg others w tx (.send out) wire = some (w', tx')) :
    wire.legal cfg.extraAttempts out.form = true ∧ w' = w ∧ tx' = tx := by
  obtain ⟨hlegal, hsome⟩ := Option.ite_none_right_eq_some.mp h
  obtain ⟨rfl, rfl⟩ := Prod.mk.inj (Option.some.inj hsome)
  exact ⟨hlegal, rfl, rfl⟩

theorem step_quiet {o : Op} {r : o.Resp} (ho : o.isQuiet = true)
    (h : step cfg others w tx o r = some (w', tx')) :
    w'.db = w.db ∧ w'.seq = w.seq ∧ tx' = tx := by
  cases o with
  | sql | commit | rollback => cases ho
  | raise => cases r
  | now =>
    obtain ⟨-, rfl, rfl⟩ := step_now h
    exact ⟨rfl, rfl, rfl⟩
  | send =>
    obtain ⟨-, rfl, rfl⟩ := step_send h
    exact ⟨rfl, rfl, rfl⟩
  | _ =>
    obtain ⟨rfl, rfl⟩ := Prod.mk.inj (Option.some.inj h)
    exact ⟨rfl, rfl, rfl⟩

theorem step_uncommitted {o : Op} {r : o.Resp} (ho : o ≠ .commit)
    (h : step cfg others w tx o r = some (w', tx')) : w'.db = w.db := by
  cases o with
  | sql =>
    obtain ⟨_, -, -, hdb, -⟩ := step_sql h
    exact hdb
  | commit => exact absurd rfl ho
  | rollback =>
    obtain ⟨rfl, -⟩ := step_rollback h
    rfl
  | raise => cases r
  | _ => exact (step_quiet rfl h).1

/-- The clock does not go back. -/
theorem step_clock {o : Op} {r : o.Resp} (h : step cfg others w tx o r = some (w', tx')) :
    w.clock ≤ w'.clock := by
  cases o with
  | sql =>
    obtain ⟨_, -, -, rfl, -⟩ := sqlStep_eq_some h
    exact Int.le_refl _
  | now =>
    obtain ⟨hle, rfl, -⟩ := step_now h
    exact hle
  | raise => cases r
  | send =>
    obtain ⟨-, rfl, -⟩ := step_send h
    exact Int.le_refl _
  | _ =>
    obtain ⟨rfl, -⟩ := Prod.mk.inj (Option.some.inj h)
    exact Int.le_refl _

end Bot
