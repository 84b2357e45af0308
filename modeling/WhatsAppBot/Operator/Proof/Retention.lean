import WhatsAppBot.Lib.Rely
import WhatsAppBot.Operator.Retention

/-!
# What the purge removes

`step_facts` says what a statement does to the table: rows are never rewritten, and only those go
that a transaction with the setting has marked. Main results: `history_kept`, over every run of the
purge among any other programs, and `purge_takes_oldest`, about one purge that runs alone.
-/

set_option autoImplicit false

namespace Retention

open Lib Store Operator

variable {retention : RetentionSettings} {w w' : AuditTable} {t t' : AuditTx}

/-! ## One statement -/

/-- The trigger lets no update through, and a delete only with the setting. -/
theorem auditLogsImmutable_ok {op : TgOp} {allowPurge : Option String} {u : Unit}
    (h : auditLogsImmutable op allowPurge = .ok u) : op = .delete ∧ allowPurge = some "on" := by
  unfold auditLogsImmutable at h
  split at h
  · rename_i hon
    refine ⟨hon.1, ?_⟩
    cases allowPurge with
    | none => simp at hon
    | some value => simpa using hon.2
  · cases h

theorem fires_ok {op : TgOp} {allowPurge : Option String} {ids : Finset Nat} {u : Unit}
    (h : fires op allowPurge ids = .ok u) :
    ids = ∅ ∨ op = .delete ∧ allowPurge = some "on" := by
  unfold fires at h
  split at h
  · exact .inl ‹_›
  · exact .inr (auditLogsImmutable_ok h)

/-- The table goes on: nothing written is changed, and time does not go back. -/
structure Follows (w w' : AuditTable) : Prop where
  written : w.written <+: w'.written
  clock : w.clock ≤ w'.clock

theorem Follows.refl (w : AuditTable) : Follows w w := ⟨List.prefix_refl _, le_refl _⟩

theorem Follows.row {id : Nat} {row : AuditRow} (h : Follows w w')
    (hrow : w.written[id]? = some row) : w'.written[id]? = some row := by
  obtain ⟨rest, hrest⟩ := h.written
  have hlt := (List.getElem?_eq_some_iff.mp hrow).1
  rw [← hrest, List.getElem?_append_left hlt, hrow]

@[simp] theorem rewrite_nil (w : AuditTable) : w.rewrite [] = w := rfl

theorem found_eq_some {others : List AuditTx} {ids : List Nat} {rows : Finset Nat}
    (h : found others w t ids = some rows) :
    t.aborted = false ∧ rows = (t.visible w).filter (· ∈ ids) := by
  unfold found at h
  simp only at h
  split at h
  · cases h
  · rename_i hfree
    simp only [not_or, Bool.not_eq_true] at hfree
    exact ⟨hfree.1, (Option.some.inj h).symm⟩

/-- What a statement does. -/
structure Facts (w : AuditTable) (t : AuditTx) (o : AuditOp) (w' : AuditTable) (t' : AuditTx) :
    Prop where
  follows : Follows w w'
  updated : t'.updated = []
  present : ∀ id ∈ w.present, id ∈ w'.present ∨ id ∈ t.deleted
  deleted : ∀ id ∈ t'.deleted,
    id ∈ t.deleted ∨ t.allowPurge = some "on" ∧ ∃ ids, o = .delete ids ∧ id ∈ ids
  allowPurge : t'.allowPurge = none ∨ t'.allowPurge = t.allowPurge ∨ o = .setAllowPurge

theorem step_facts {others : List AuditTx} {o : AuditOp} {r : o.Resp}
    (h : auditStep others w t o r = some (w', t')) (hu : t.updated = []) : Facts w t o w' t' := by
  cases o with
  | now =>
    simp only [auditStep, Option.ite_none_right_eq_some, Option.some.injEq, Prod.mk.injEq] at h
    obtain ⟨hclock, rfl, rfl⟩ := h
    exact ⟨⟨List.prefix_refl _, hclock⟩, hu, fun _ hid => .inl hid, fun _ hid => .inl hid,
      .inr (.inl rfl)⟩
  | setAllowPurge =>
    simp only [auditStep, Option.ite_none_left_eq_some, Option.some.injEq, Prod.mk.injEq] at h
    obtain ⟨-, rfl, rfl⟩ := h
    exact ⟨.refl w, hu, fun _ hid => .inl hid, fun _ hid => .inl hid, .inr (.inr rfl)⟩
  | selectOlder cutoff limit =>
    simp only [auditStep, Option.ite_none_right_eq_some, Option.some.injEq, Prod.mk.injEq] at h
    obtain ⟨-, rfl, rfl⟩ := h
    exact ⟨.refl w, hu, fun _ hid => .inl hid, fun _ hid => .inl hid, .inr (.inl rfl)⟩
  | delete ids =>
    simp only [auditStep, Option.bind_eq_some_iff] at h
    obtain ⟨rows, hfound, h⟩ := h
    obtain ⟨-, rfl⟩ := found_eq_some hfound
    split at h
    · rename_i hfires
      obtain ⟨rfl, rfl⟩ := Prod.mk.inj (Option.some.inj h)
      refine ⟨.refl w, hu, fun _ hid => .inl hid, fun id hid => ?_, .inr (.inl rfl)⟩
      rcases Finset.mem_union.mp hid with hid | hid
      · exact .inl hid
      · obtain hempty | ⟨-, hon⟩ := fires_ok hfires
        · rw [hempty] at hid
          cases hid
        · exact .inr ⟨hon, ids, rfl, (Finset.mem_filter.mp hid).2⟩
    · simp only [Option.ite_none_right_eq_some, Option.some.injEq, Prod.mk.injEq] at h
      obtain ⟨-, rfl, rfl⟩ := h
      exact ⟨.refl w, hu, fun _ hid => .inl hid, fun _ hid => .inl hid, .inr (.inl rfl)⟩
    · cases h
  | update ids entry =>
    simp only [auditStep, Option.bind_eq_some_iff] at h
    obtain ⟨rows, hfound, h⟩ := h
    split at h
    · rename_i hfires
      obtain ⟨rfl, rfl⟩ := Prod.mk.inj (Option.some.inj h)
      obtain rfl | ⟨hdelete, -⟩ := fires_ok hfires
      · exact ⟨.refl w, by simp [hu], fun _ hid => .inl hid, fun _ hid => .inl hid, .inr (.inl rfl)⟩
      · cases hdelete
    · simp only [Option.ite_none_right_eq_some, Option.some.injEq, Prod.mk.injEq] at h
      obtain ⟨-, rfl, rfl⟩ := h
      exact ⟨.refl w, hu, fun _ hid => .inl hid, fun _ hid => .inl hid, .inr (.inl rfl)⟩
    · cases h
  | insert entry =>
    simp only [auditStep, Option.ite_none_left_eq_some, Option.some.injEq, Prod.mk.injEq] at h
    obtain ⟨-, rfl, rfl⟩ := h
    exact ⟨⟨List.prefix_append _ _, le_refl _⟩, hu, fun _ hid => .inl hid, fun _ hid => .inl hid,
      .inr (.inl rfl)⟩
  | commit =>
    simp only [auditStep] at h
    split at h
    · obtain ⟨rfl, rfl⟩ := Prod.mk.inj (Option.some.inj h)
      exact ⟨.refl w, rfl, fun _ hid => .inl hid, nofun, .inl rfl⟩
    · obtain ⟨rfl, rfl⟩ := Prod.mk.inj (Option.some.inj h)
      rw [hu, rewrite_nil]
      refine ⟨⟨List.prefix_refl _, le_refl _⟩, rfl, fun id hid => ?_, nofun, .inl rfl⟩
      by_cases hdeleted : id ∈ t.deleted
      · exact .inr hdeleted
      · exact .inl (Finset.mem_sdiff.mpr ⟨Finset.mem_union_left _ hid, hdeleted⟩)
  | rollback =>
    obtain ⟨rfl, rfl⟩ := Prod.mk.inj (Option.some.inj h)
    exact ⟨.refl w, rfl, fun _ hid => .inl hid, nofun, .inl rfl⟩
  | raise message => exact nomatch r

/-! ## Every run -/

/-- The row is older than the log is kept. -/
def Expired (retention : RetentionSettings) (w : AuditTable) (id : Nat) : Prop :=
  retention.enforced = true ∧ ∃ row, w.written[id]? = some row ∧
    row.createdAt < w.clock - retention.auditRetention

theorem Expired.follows {id : Nat} (h : Expired retention w id) (hw : Follows w w') :
    Expired retention w' id := by
  obtain ⟨henforced, row, hrow, hold⟩ := h
  exact ⟨henforced, row, hw.row hrow, hold.trans_le (Int.sub_le_sub_right hw.clock _)⟩

/-- What the purge knows: the time it read and the ids it found. -/
structure Horizon where
  time : Option Time
  ids : List Nat

/-- The purge deletes what it found to be older than what it computed from the clock; everything
else leaves the setting alone. -/
def horizon (retention : RetentionSettings) : AuditTask → Monitor auditSig Horizon
  | .other _ _ =>
    { ok := fun _ o => o ≠ .setAllowPurge
      next := fun a _ _ => a }
  | .purge =>
    { ok := fun a o =>
        match o with
        | .selectOlder cutoff _ =>
          retention.enforced = true ∧ ∃ time, a.time = some time ∧
            cutoff = time - retention.auditRetention
        | .delete ids => ids = a.ids
        | _ => True
      next := fun a o r =>
        match o, r with
        | .now, time => { a with time := some time }
        | .selectOlder _ _, ids => { a with ids := ids }
        | _, _ => a }

theorem purgeBatches_wp {time : Time} {batchSize : Nat} (henforced : retention.enforced = true)
    (left removed : Nat) (ids : List Nat) :
    (purgeBatches (time - retention.auditRetention) batchSize left removed).wp
      (horizon retention .purge) (fun _ _ => True) ⟨some time, ids⟩ := by
  induction left generalizing removed ids with
  | zero => trivial
  | succ left ih =>
    refine ⟨trivial, fun _ _ => ⟨⟨henforced, time, rfl, rfl⟩, fun found _ => ?_⟩⟩
    change Prog.wp _ (if found = [] then _ else _) _ _
    split
    · exact ⟨trivial, fun _ _ => trivial⟩
    · refine ⟨rfl, fun answer _ => ?_⟩
      cases answer with
      | ok => exact ⟨trivial, fun _ _ => ih _ _⟩
      | error message => exact ⟨trivial, fun r => nomatch r⟩

theorem program_wp (l : AuditTask) :
    ((auditSem retention).program l).wp (horizon retention l) (fun _ _ => True) ⟨none, []⟩ := by
  cases l with
  | other statements h =>
    exact h.wp (B := fun _ => True) trivial fun _ o _ ho => ⟨ho, fun _ _ => trivial⟩
  | purge =>
    change Prog.wp _ (purgeAuditLogs retention >>= fun _ => pure ()) _ _
    rw [Prog.wp_bind]
    unfold purgeAuditLogs
    cases henforced : retention.enforced with
    | false => trivial
    | true =>
      exact ⟨trivial, fun time _ =>
        Prog.wp_mono (purgeBatches_wp henforced _ _ _) fun _ _ _ => trivial⟩

/-- The row has been in the table. -/
def Seen (w₀ : AuditTable) (h : List (Event auditSig AuditTable AuditTx AuditTask)) (id : Nat)
    (row : AuditRow) : Prop :=
  w₀.Has id row ∨ ∃ i l held o r w, Event.op i l held o r w ∈ h ∧ w.Has id row

/-- What was in the table is there, or has been there for too long. -/
def Keeps (retention : RetentionSettings) (w₀ w : AuditTable)
    (h : List (Event auditSig AuditTable AuditTx AuditTask)) : Prop :=
  ∀ id row, Seen w₀ h id row → w.Has id row ∨ w.written[id]? = some row ∧ Expired retention w id

/-- What a process relies on. -/
structure Marks (retention : RetentionSettings) (l : AuditTask) (a : Horizon) (w : AuditTable)
    (t : AuditTx) : Prop where
  updated : t.updated = []
  allowPurge : l = .purge ∨ t.allowPurge = none
  deleted : ∀ id ∈ t.deleted, Expired retention w id
  time : ∀ time, a.time = some time → time ≤ w.clock
  ids : ∀ id ∈ a.ids, Expired retention w id

theorem Marks.follows {l : AuditTask} {a : Horizon} (h : Marks retention l a w t)
    (hw : Follows w w') : Marks retention l a w' t where
  updated := h.updated
  allowPurge := h.allowPurge
  deleted id hid := (h.deleted id hid).follows hw
  time time htime := (h.time time htime).trans hw.clock
  ids id hid := (h.ids id hid).follows hw

theorem Keeps.step {w₀ : AuditTable} {h : List (Event auditSig AuditTable AuditTx AuditTask)}
    {o : AuditOp} {i : Nat} {l : AuditTask} {r : o.Resp} {held : AuditTx}
    (hkeeps : Keeps retention w₀ w h) (hfacts : Facts w t o w' t')
    (hdeleted : ∀ id ∈ t.deleted, Expired retention w id) :
    Keeps retention w₀ w' (.op (S := auditSig) i l held o r w' :: h) := by
  have hold : ∀ id row, w.Has id row →
      w'.Has id row ∨ w'.written[id]? = some row ∧ Expired retention w' id := by
    rintro id row ⟨hid, hrow⟩
    have hrow' := hfacts.follows.row hrow
    rcases hfacts.present id hid with hid | hid
    · exact .inl ⟨hid, hrow'⟩
    · exact .inr ⟨hrow', (hdeleted id hid).follows hfacts.follows⟩
  have hseen : ∀ id row, Seen w₀ h id row →
      w'.Has id row ∨ w'.written[id]? = some row ∧ Expired retention w' id := by
    intro id row hseen
    rcases hkeeps id row hseen with hhas | ⟨hrow, hexpired⟩
    · exact hold id row hhas
    · exact .inr ⟨hfacts.follows.row hrow, hexpired.follows hfacts.follows⟩
  rintro id row (hstart | ⟨i', l', held', o', r', post, hmem, hhas⟩)
  · exact hseen id row (.inl hstart)
  · rcases List.mem_cons.mp hmem with heq | hmem
    · cases heq
      exact .inl hhas
    · exact hseen id row (.inr ⟨i', l', held', o', r', post, hmem, hhas⟩)

theorem selectOlder_expired {cutoff time : Time} {limit id : Nat} {others : List AuditTx}
    {ids : List Nat} (henforced : retention.enforced = true)
    (h : auditStep others w t (.selectOlder cutoff limit) ids = some (w', t'))
    (hcutoff : cutoff = time - retention.auditRetention) (htime : time ≤ w.clock) (hid : id ∈ ids) :
    Expired retention w' id := by
  simp only [auditStep, Option.ite_none_right_eq_some, Option.some.injEq, Prod.mk.injEq] at h
  obtain ⟨⟨-, rfl⟩, rfl, rfl⟩ := h
  have hmem := List.mem_of_mem_take hid
  simp only [AuditTable.older, List.mem_filter, Bool.and_eq_true, AuditTable.isOlder] at hmem
  obtain ⟨row, hrow, hold⟩ := (Option.any_eq_true _ _).mp hmem.2.2
  refine ⟨henforced, row, hrow, ?_⟩
  rw [hcutoff] at hold
  exact (of_decide_eq_true hold).trans_le (Int.sub_le_sub_right htime _)

theorem marks_step {l : AuditTask} {a : Horizon} {others : List AuditTx} {o : AuditOp} {r : o.Resp}
    (hmarks : Marks retention l a w t) (hok : (horizon retention l).ok a o)
    (h : auditStep others w t o r = some (w', t')) :
    Marks retention l ((horizon retention l).next a o r) w' t' := by
  have hfacts := step_facts h hmarks.updated
  have hfollows := hmarks.follows hfacts.follows
  refine ⟨hfacts.updated, ?_, fun id hid => ?_, ?_, ?_⟩
  · rcases hfacts.allowPurge with hnone | heq | rfl
    · exact .inr hnone
    · rw [heq]
      exact hmarks.allowPurge
    · cases l with
      | purge => exact .inl rfl
      | other => exact absurd rfl hok
  · rcases hfacts.deleted id hid with hid | ⟨hon, ids, rfl, hid⟩
    · exact hfollows.deleted id hid
    · rcases hmarks.allowPurge with rfl | hnone
      · exact hfollows.ids id ((hok : ids = a.ids) ▸ hid)
      · rw [hnone] at hon
        cases hon
  · cases l with
    | other => exact hfollows.time
    | purge =>
      cases o with
      | now =>
        simp only [auditStep, Option.ite_none_right_eq_some, Option.some.injEq, Prod.mk.injEq] at h
        obtain ⟨-, rfl, -⟩ := h
        exact fun time htime => le_of_eq (Option.some.inj htime).symm
      | _ => exact hfollows.time
  · cases l with
    | other => exact hfollows.ids
    | purge =>
      cases o with
      | selectOlder cutoff limit =>
        obtain ⟨henforced, time, htime, hcutoff⟩ := hok
        exact fun id hid => selectOlder_expired henforced h hcutoff (hmarks.time time htime) hid
      | _ => exact hfollows.ids

/-- **The log is append-only for as long as it is kept**: whatever runs over the table, a row that
was in it is there, as it was, until it is older than the retention; with the retention off it is
there for good. -/
theorem history_kept {w₀ : AuditTable} {s : Sys auditSig AuditTable AuditTx AuditTask}
    (h : Reach (auditSem retention) anyStep w₀ s) {id : Nat} {row : AuditRow}
    (hseen : Seen w₀ s.hist id row) :
    s.shared.Has id row ∨
      retention.enforced = true ∧ row.createdAt < s.shared.clock - retention.auditRetention := by
  have hR : Rely (auditSem retention) anyStep w₀ (fun _ => True) (horizon retention) ⟨none, []⟩
      (Keeps retention w₀) (fun l a w _ t => Marks retention l a w t) := by
    refine ⟨fun l _ => program_wp l, fun {l} _ => ?_, ?_, fun _ _ => ?_, fun he hI => ?_, ?_⟩
    · cases l <;> exact fun _ => trivial
    · rintro id row (hstart | ⟨_, _, _, _, _, _, hmem, _⟩)
      · exact .inl hstart
      · cases hmem
    · exact ⟨rfl, .inr rfl, nofun, nofun, nofun⟩
    · refine ⟨?_, fun _ _ _ hF => hF⟩
      rintro id row (hstart | ⟨i, l, held, o, r, post, hmem, hhas⟩)
      · exact hI id row (.inl hstart)
      · rcases List.mem_cons.mp hmem with rfl | hmem
        · cases he
        · exact hI id row (.inr ⟨i, l, held, o, r, post, hmem, hhas⟩)
    · intro s i p o k r w t _ hI hF hp _ hok hstep _
      have hmarks := hF i p hp trivial
      have hfacts := step_facts hstep hmarks.updated
      refine ⟨hI.step hfacts hmarks.deleted, fun _ => marks_step hmarks (hok trivial) hstep, ?_⟩
      exact fun j q _ hq _ => (hF j q hq trivial).follows hfacts.follows
  rcases (h.rely hR).1 id row hseen with hhas | ⟨hrow, henforced, row', hrow', hold⟩
  · exact .inl hhas
  · obtain rfl := Option.some.inj (hrow.symm.trans hrow')
    exact .inr ⟨henforced, hold⟩

def sampleRow (createdAt : Time) : AuditRow :=
  ⟨⟨1, actionConversationReply, resourceConversation, some "41", [], none⟩, createdAt⟩

/-- One row is a day old and one was written in the last hour. -/
def sampleTable : AuditTable :=
  ⟨[sampleRow 0, sampleRow (2 * Analytics.dayLength)], {0, 1}, 2 * Analytics.dayLength⟩

/-- How the database answers the purge. -/
def sampleAnswer (w : AuditTable) (t : AuditTx) : (o : AuditOp) → Option o.Resp
  | .now => some w.clock
  | .setAllowPurge | .commit | .rollback => some ()
  | .selectOlder cutoff limit => some ((w.older cutoff (t.visible w)).take limit)
  | .delete _ => some (.ok ())
  | _ => none

theorem history_kept_sample : ∃ s, Reach (auditSem ⟨1⟩) anyStep sampleTable s ∧
    s.shared.present = {1} ∧
      (s.shared.Has 1 (sampleRow (2 * Analytics.dayLength)) ∨
        (RetentionSettings.mk 1).enforced = true ∧ 2 * Analytics.dayLength <
          s.shared.clock - (RetentionSettings.mk 1).auditRetention) := by
  obtain ⟨s, hs, hpresent⟩ := Reach.exists_of_run (M := auditSem ⟨1⟩) (C := anyStep)
    (w := sampleTable) (.spawn .purge :: List.replicate 5 (.op 0 sampleAnswer))
    (fun s => s.shared.present = {1}) (by decide)
  exact ⟨s, hs, of_decide_eq_true hpresent, history_kept hs (.inl ⟨by decide, rfl⟩)⟩

/-! ## One purge -/

theorem filter_notMem_take {ids : List Nat} (h : ids.Nodup) (m : Nat) :
    (ids.filter fun id => id ∉ ids.take m) = ids.drop m := by
  have hdisjoint := List.disjoint_take_drop h (le_refl m)
  calc (ids.filter fun id => id ∉ ids.take m)
      = (ids.take m ++ ids.drop m).filter fun id => id ∉ ids.take m := by
        rw [List.take_append_drop]
    _ = (ids.drop m).filter fun id => id ∉ ids.take m := by
        rw [List.filter_append, List.filter_eq_nil_iff.mpr (by simp), List.nil_append]
    _ = ids.drop m :=
        List.filter_eq_self.mpr fun id hid => decide_eq_true fun htaken => hdisjoint htaken hid

namespace AuditTable

/-- The table without the first `m` of `ids`. -/
def without (w : AuditTable) (ids : List Nat) (m : Nat) : AuditTable :=
  { w with present := w.present \ (ids.take m).toFinset }

@[simp] theorem without_zero (w : AuditTable) (ids : List Nat) : w.without ids 0 = w := by
  simp [without]

theorem older_nodup (w : AuditTable) (cutoff : Time) (ids : Finset Nat) :
    (w.older cutoff ids).Nodup :=
  List.nodup_range.filter _

theorem older_without (w : AuditTable) (cutoff : Time) (m : Nat) :
    let old := w.older cutoff w.present
    (w.without old m).older cutoff (w.without old m).present = old.drop m := by
  intro old
  rw [← filter_notMem_take (w.older_nodup cutoff w.present) m]
  change List.filter _ _ = List.filter _ (List.filter _ _)
  rw [List.filter_filter]
  refine List.filter_congr fun id _ => ?_
  have hwritten : (w.without old m).isOlder cutoff id = w.isOlder cutoff id := rfl
  rw [hwritten]
  simp [without, old, Bool.and_left_comm, Bool.and_assoc]

/-- The batch that follows the first `m`. -/
theorem without_add (w : AuditTable) (ids : List Nat) (m n : Nat) :
    { w.without ids m with present := (w.without ids m).present \ ((ids.drop m).take n).toFinset } =
      w.without ids (m + n) := by
  simp only [without, List.take_add, List.toFinset_append, Finset.sdiff_union_distrib,
    Finset.sdiff_sdiff_left']

end AuditTable

/-- A transaction of the purge before its delete. -/
structure Allowed (t : AuditTx) : Prop where
  allowPurge : t.allowPurge = some "on"
  inserted : t.inserted = ∅
  deleted : t.deleted = ∅
  updated : t.updated = []
  aborted : t.aborted = false

theorem Allowed.visible (h : Allowed t) (w : AuditTable) : t.visible w = w.present := by
  simp [AuditTx.visible, h.inserted, h.deleted]

theorem setAllowPurge_step {u : Unit} (h : auditStep [] w .none .setAllowPurge u = some (w', t')) :
    w' = w ∧ Allowed t' := by
  obtain ⟨rfl, rfl⟩ := Prod.mk.inj (Option.some.inj h)
  exact ⟨rfl, rfl, rfl, rfl, rfl, rfl⟩

theorem selectOlder_step {cutoff : Time} {limit : Nat} {ids : List Nat} (ht : Allowed t)
    (h : auditStep [] w t (.selectOlder cutoff limit) ids = some (w', t')) :
    w' = w ∧ Allowed t' ∧ ids = (w.older cutoff w.present).take limit := by
  simp only [auditStep, Option.ite_none_right_eq_some, Option.some.injEq, Prod.mk.injEq] at h
  obtain ⟨⟨-, hids⟩, rfl, rfl⟩ := h
  rw [ht.visible] at hids
  exact ⟨rfl, ⟨ht.allowPurge, ht.inserted, ht.deleted, ht.updated, ht.aborted⟩, hids⟩

/-- The delete, which the trigger lets through, and the commit behind it. -/
theorem delete_step {ids : List Nat} {answer : Except String Unit} (ht : Allowed t)
    (hids : ∀ id ∈ ids, id ∈ w.present)
    (h : auditStep [] w t (.delete ids) answer = some (w', t')) :
    answer = .ok () ∧ w' = w ∧ ∀ u, auditStep [] w t' .commit u =
      some ({ w with present := w.present \ ids.toFinset }, .none) := by
  simp only [auditStep, Option.bind_eq_some_iff] at h
  obtain ⟨rows, hfound, h⟩ := h
  obtain ⟨-, rfl⟩ := found_eq_some hfound
  have hrows : (t.visible w).filter (· ∈ ids) = ids.toFinset := by
    ext id
    simpa [ht.visible] using hids id
  have hfires : ∀ rows, fires .delete t.allowPurge rows = .ok () := by
    intro rows
    unfold fires auditLogsImmutable
    simp [ht.allowPurge]
  rw [hfires, hrows] at h
  split at h
  · obtain ⟨rfl, rfl⟩ := Prod.mk.inj (Option.some.inj h)
    refine ⟨rfl, rfl, fun _ => ?_⟩
    simp [auditStep, AuditTx.start, AuditTx.visible, ht.aborted, ht.updated, ht.inserted, ht.deleted]
  · cases ‹Except.ok () = Except.error _›
  · cases h

theorem purgeBatches_takes (cutoff : Time) (batchSize maxBatches : Nat) {left k : Nat}
    (hk : left + k = maxBatches) :
    let old := w.older cutoff w.present
    (purgeBatches cutoff batchSize left (old.take (batchSize * k)).length).wpc
      (auditSem retention) (fun w' => ∃ k ≤ maxBatches, w' = w.without old (batchSize * k))
      (fun n w' t' => t' = .none ∧ w' = w.without old (batchSize * maxBatches) ∧
        n = (old.take (batchSize * maxBatches)).length)
      (w.without old (batchSize * k)) .none := by
  intro old
  induction left generalizing k with
  | zero =>
    obtain rfl : k = maxBatches := by omega
    exact ⟨⟨k, le_refl k, rfl⟩, rfl, rfl, rfl⟩
  | succ left ih =>
    have hC : ∃ k' ≤ maxBatches, w.without old (batchSize * k) = w.without old (batchSize * k') :=
      ⟨k, by omega, rfl⟩
    refine ⟨hC, fun u w₁ t₁ h₁ => ?_⟩
    obtain ⟨rfl, ht₁⟩ := setAllowPurge_step (u := u) h₁
    refine ⟨hC, fun ids w₂ t₂ h₂ => ?_⟩
    obtain ⟨rfl, ht₂, hids⟩ := selectOlder_step ht₁ h₂
    have hpresent : ∀ id ∈ ids, id ∈ (w.without old (batchSize * k)).present := by
      intro id hid
      have hmem := List.mem_of_mem_take (hids ▸ hid)
      simp only [AuditTable.older, List.mem_filter, Bool.and_eq_true, decide_eq_true_eq] at hmem
      exact hmem.2.1
    rw [w.older_without cutoff (batchSize * k)] at hids
    change Prog.wpc _ _ (if ids = [] then _ else _) _ _ _
    split
    · -- nothing is left: the transaction ends, and the purge with it
      rename_i hnil
      have hend : old.take (batchSize * k) = old.take (batchSize * maxBatches) := by
        rw [hnil] at hids
        rcases List.take_eq_nil_iff.mp hids.symm with rfl | hdrop
        · simp
        · have hlen := List.drop_eq_nil_iff.mp hdrop
          have hmul : batchSize * k ≤ batchSize * maxBatches := Nat.mul_le_mul_left _ (by omega)
          rw [List.take_of_length_le hlen, List.take_of_length_le (hlen.trans hmul)]
      refine ⟨hC, fun _ w₃ t₃ h₃ => ?_⟩
      obtain ⟨rfl, rfl⟩ := Prod.mk.inj (Option.some.inj h₃)
      refine ⟨hC, rfl, ?_, by rw [hend]⟩
      rw [AuditTable.without, hend, AuditTable.without]
    · refine ⟨hC, fun answer w₃ t₃ h₃ => ?_⟩
      obtain ⟨rfl, rfl, hcommit⟩ := delete_step ht₂ hpresent h₃
      refine ⟨hC, fun u w₄ t₄ h₄ => ?_⟩
      obtain ⟨rfl, rfl⟩ := Prod.mk.inj (Option.some.inj ((hcommit u).symm.trans h₄))
      have hnext := ih (k := k + 1) (by omega)
      rw [Nat.mul_succ, List.take_add, ← hids, List.length_append] at hnext
      rw [hids, w.without_add, ← Nat.mul_succ, ← hids]
      exact hnext

/-- **A purge takes the oldest rows first**, and whole batches of them wherever it stops: when it
returns, the rows it counts are gone and no others. -/
theorem purge_takes_oldest {cutoff : Time} {batchSize maxBatches : Nat}
    {tr : List (Obs auditSig)} {e : Ending Nat}
    (h : Exec (auditSem retention) w .none (purgeOlderThan cutoff batchSize maxBatches) tr e w' t') :
    let old := w.older cutoff w.present
    (∃ k ≤ maxBatches, w' = w.without old (batchSize * k)) ∧
      ∀ n, e = .returned n → t' = .none ∧ w' = w.without old (batchSize * maxBatches) ∧
        n = min (batchSize * maxBatches) old.length := by
  intro old
  have hloop := @purgeBatches_takes retention w cutoff batchSize maxBatches maxBatches 0 rfl
  simp only [Nat.mul_zero, AuditTable.without_zero] at hloop
  obtain ⟨hC, hQ⟩ := h.of_wpc hloop
  refine ⟨hC, fun n hn => ?_⟩
  obtain ⟨ht, hw, hcount⟩ := hQ n hn
  exact ⟨ht, hw, by rw [hcount, List.length_take]⟩

theorem purge_takes_oldest_sample : ∃ w' t', w'.present = {1} ∧
    (∃ k ≤ purgeMaxBatches, w' = sampleTable.without [0] (purgeBatchSize * k)) ∧
      ∀ n, Ending.returned 1 = .returned n → t' = AuditTx.none ∧
        w' = sampleTable.without [0] (purgeBatchSize * purgeMaxBatches) ∧
          n = min (purgeBatchSize * purgeMaxBatches) 1 := by
  have hplay : (play (auditSem ⟨1⟩) (List.replicate 7 sampleAnswer) sampleTable .none
      (purgeOlderThan Analytics.dayLength purgeBatchSize purgeMaxBatches)).any (fun x =>
        x.2.1.present = {1} ∧ (match x.2.2.2 with | .ret n => n == 1 | .op _ _ => false) = true) =
          true := by
    decide
  obtain ⟨⟨tr, w', t', P⟩, hrun, hend⟩ := (Option.any_eq_true _ _).mp hplay
  obtain ⟨hpresent, hret⟩ := of_decide_eq_true hend
  cases P with
  | op => cases hret
  | ret n =>
    obtain rfl : n = 1 := by simpa using hret
    exact ⟨w', t', hpresent, purge_takes_oldest (Exec.of_play hrun .ret)⟩

end Retention
