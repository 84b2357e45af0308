import Mathlib.Data.Finset.Basic
import WhatsAppBot.Analytics.Rollup
import WhatsAppBot.Operator.Endpoints

/-!
# How long the audit log is kept

The statements on `audit_logs` with the trigger that migration 0012 leaves behind, and
`purge_older_than` with the task that runs it every day. A row that is inserted gets the next number
of the sequence and never another one; what a transaction inserts, deletes and rewrites is there for
everybody when it commits. A statement that raises leaves the transaction with nothing to do but to
end.
-/

set_option autoImplicit false

namespace Retention

open Lib Store Operator

structure AuditRow where
  entry : AuditLog
  createdAt : Time

/-- The rows by their ids, and the ids that are in the table. -/
structure AuditTable where
  written : List AuditRow
  present : Finset Nat
  clock : Time

/-- A row of the table. -/
def AuditTable.Has (w : AuditTable) (id : Nat) (row : AuditRow) : Prop :=
  id ∈ w.present ∧ w.written[id]? = some row

/-! ## The trigger -/

inductive TgOp where
  | update
  | delete
  deriving DecidableEq

def immutableMessage : String := "audit_logs is append-only; UPDATE and DELETE are blocked"

/-- `audit_logs_immutable`: what the setting `audit.allow_purge` permits. -/
def auditLogsImmutable (op : TgOp) (allowPurge : Option String) : Except String Unit :=
  if op = .delete ∧ allowPurge.getD "off" = "on" then .ok () else .error immutableMessage

/-- A row trigger is not asked when there are no rows. -/
def fires (op : TgOp) (allowPurge : Option String) (ids : Finset Nat) : Except String Unit :=
  if ids = ∅ then .ok () else auditLogsImmutable op allowPurge

/-! ## Statements -/

inductive AuditOp where
  | now
  | setAllowPurge
  | selectOlder (cutoff : Time) (limit : Nat)
  | delete (ids : List Nat)
  | update (ids : List Nat) (entry : AuditLog)
  | insert (entry : AuditLog)
  | commit
  | rollback
  | raise (message : String)

@[reducible] def AuditOp.Resp : AuditOp → Type
  | now => Time
  | selectOlder _ _ => List Nat
  | delete _ | update _ _ => Except String Unit
  | setAllowPurge | insert _ | commit | rollback => Unit
  | raise _ => Empty

abbrev auditSig : Sig := ⟨AuditOp, AuditOp.Resp⟩

abbrev AuditM (α : Type) := Prog auditSig α

/-- An open transaction. -/
structure AuditTx where
  began : Option Time
  allowPurge : Option String
  inserted : Finset Nat
  deleted : Finset Nat
  updated : List (Nat × AuditLog)
  aborted : Bool

namespace AuditTx

def none : AuditTx := ⟨.none, .none, ∅, ∅, [], false⟩

/-- `now()` is the time the transaction began. -/
def start (t : AuditTx) (w : AuditTable) : AuditTx := { t with began := some (t.began.getD w.clock) }

/-- The ids a statement of the transaction finds. -/
def visible (t : AuditTx) (w : AuditTable) : Finset Nat := (w.present ∪ t.inserted) \ t.deleted

/-- What other transactions have to wait for. -/
def locks (t : AuditTx) : Finset Nat := t.deleted ∪ (t.updated.map (·.1)).toFinset

end AuditTx

namespace AuditTable

variable (w : AuditTable)

def isOlder (cutoff : Time) (id : Nat) : Bool := w.written[id]?.any (·.createdAt < cutoff)

/-- `WHERE created_at < cutoff ORDER BY id`. -/
def older (cutoff : Time) (ids : Finset Nat) : List Nat :=
  (List.range w.written.length).filter fun id => id ∈ ids && w.isOlder cutoff id

def rewrite (updates : List (Nat × AuditLog)) : AuditTable :=
  let set (rows : List AuditRow) (u : Nat × AuditLog) :=
    rows.modify u.1 fun row => { row with entry := u.2 }
  { w with written := updates.foldl set w.written }

end AuditTable

/-- The rows of a statement, once no other transaction holds them. -/
def found (others : List AuditTx) (w : AuditTable) (t : AuditTx) (ids : List Nat) :
    Option (Finset Nat) :=
  let rows := (t.visible w).filter (· ∈ ids)
  if t.aborted ∨ ∃ u ∈ others, ¬ Disjoint rows u.locks then none else some rows

def auditStep (others : List AuditTx) (w : AuditTable) (t : AuditTx) :
    (o : AuditOp) → o.Resp → Option (AuditTable × AuditTx)
  | .now, (time : Time) => if w.clock ≤ time then some ({ w with clock := time }, t) else none
  | .rollback, _ => some (w, .none)
  | .commit, _ =>
    if t.aborted then some (w, .none)
    else some ({ w.rewrite t.updated with present := t.visible w }, .none)
  | .raise _, r => nomatch r
  | .setAllowPurge, _ =>
    if t.aborted then none else some (w, { t.start w with allowPurge := some "on" })
  | .selectOlder cutoff limit, (ids : List Nat) =>
    if !t.aborted ∧ ids = (w.older cutoff (t.visible w)).take limit then some (w, t.start w)
    else none
  | .insert entry, _ =>
    if t.aborted then none
    else some ({ w with written := w.written ++ [⟨entry, t.began.getD w.clock⟩] },
      { t.start w with inserted := insert w.written.length t.inserted })
  | .delete ids, (answer : Except String Unit) =>
    (found others w t ids).bind fun rows =>
      match fires .delete t.allowPurge rows, answer with
      | .ok _, .ok _ => some (w, { t.start w with deleted := t.deleted ∪ rows })
      | .error message, .error message' =>
        if message = message' then some (w, { t.start w with aborted := true }) else none
      | _, _ => none
  | .update ids entry, (answer : Except String Unit) =>
    (found others w t ids).bind fun rows =>
      match fires .update t.allowPurge rows, answer with
      | .ok _, .ok _ =>
        some (w, { t.start w with
          updated := t.updated ++ (ids.filter (· ∈ rows)).map fun id => (id, entry) })
      | .error message, .error message' =>
        if message = message' then some (w, { t.start w with aborted := true }) else none
      | _, _ => none

def now : AuditM Time := Prog.call (S := auditSig) .now
def setAllowPurge : AuditM Unit := Prog.call (S := auditSig) .setAllowPurge
def selectOlder (cutoff : Time) (limit : Nat) : AuditM (List Nat) :=
  Prog.call (S := auditSig) (.selectOlder cutoff limit)
def commit : AuditM Unit := Prog.call (S := auditSig) .commit
def rollback : AuditM Unit := Prog.call (S := auditSig) .rollback

/-- A statement whose error the caller does not catch. -/
def deleteRows (ids : List Nat) : AuditM Unit := do
  match ← Prog.call (S := auditSig) (.delete ids) with
  | .ok _ => pure ()
  | .error message => .op (S := auditSig) (.raise message) nofun

/-! ## The purge -/

def purgeBatchSize : Nat := 1000
def purgeMaxBatches : Nat := 50

/-- The loop of `purge_older_than`, with the batches that are left. -/
def purgeBatches (cutoff : Time) (batchSize : Nat) : Nat → Nat → AuditM Nat
  | 0, removed => pure removed
  | left + 1, removed => do
    setAllowPurge
    let ids ← selectOlder cutoff batchSize
    if ids = [] then do
      rollback
      pure removed
    else do
      deleteRows ids
      commit
      purgeBatches cutoff batchSize left (removed + ids.length)

/-- `AuditService.purge_older_than`. -/
def purgeOlderThan (cutoff : Time) (batchSize maxBatches : Nat) : AuditM Nat :=
  purgeBatches cutoff batchSize maxBatches 0

/-- `RetentionSettings`. -/
structure RetentionSettings where
  auditRetentionDays : Nat

def RetentionSettings.auditRetention (s : RetentionSettings) : Time :=
  s.auditRetentionDays * Analytics.dayLength

def RetentionSettings.enforced (s : RetentionSettings) : Bool := s.auditRetentionDays > 0

/-- `_purge_audit_logs`. -/
def purgeAuditLogs (retention : RetentionSettings) : AuditM Nat := do
  if !retention.enforced then pure 0
  else
    let time ← now
    purgeOlderThan (time - retention.auditRetention) purgeBatchSize purgeMaxBatches

/-! ## The processes -/

/-- The nightly task, and whatever else talks to the database: any statements at all, without the
setting. -/
inductive AuditTask where
  | purge
  | other (statements : AuditM Unit) (h : statements.Only (· ≠ AuditOp.setAllowPurge))

def AuditTask.program (retention : RetentionSettings) : AuditTask → AuditM Unit
  | purge => do
    let _ ← purgeAuditLogs retention
    pure ()
  | other statements _ => statements

def auditSem (retention : RetentionSettings) : Sem auditSig AuditTable AuditTx AuditTask where
  idle := .none
  program := AuditTask.program retention
  step := auditStep

end Retention
