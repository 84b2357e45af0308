import WhatsAppBot.Knowledge.Ingestion
import Mathlib.Data.List.Nodup

/-!
# What ingesting one file does

`ingest_file` commits once, as the last thing it does, so a run that is cut short leaves the
committed store alone (`failed_keeps`). `ingestFile_returned` lists the runs that come to
their end: what they replace or remove is filed under the file's source (`VectorStore.Elsewhere`).
-/

set_option autoImplicit false

namespace Knowledge

open Lib Prompt

variable {V : Type}

namespace VectorStore

variable {db db' : VectorStore V} {source s : String} {d : Document}

theorem find_eq_none : db.find source = none ↔ ∀ d ∈ db.documents, d.source ≠ source := by
  simp [find]

theorem find_eq_some : db.find source = some d ↔ d ∈ db.documents ∧ d.source = source := by
  constructor
  · intro h
    exact ⟨List.mem_of_find?_eq_some h, by simpa using List.find?_some h⟩
  · rintro ⟨hd, hs⟩
    cases hfind : db.find source with
    | none => exact absurd hs (find_eq_none.mp hfind d hd)
    | some e =>
      have he : e ∈ db.documents := List.mem_of_find?_eq_some hfind
      have hes : e.source = source := by simpa using List.find?_some hfind
      rw [List.inj_on_of_nodup_map db.constraints.sources he hd (hes.trans hs.symm)]

/-- Two documents of a store with one id are one. -/
theorem eq_of_id (h : db.find source = some d) {e : Document} (he : e ∈ db.documents) :
    e.id = d.id ↔ e.source = source := by
  obtain ⟨hd, hs⟩ := find_eq_some.mp h
  constructor
  · intro hid
    rw [List.inj_on_of_nodup_map db.constraints.ids he hd hid, hs]
  · intro hes
    rw [List.inj_on_of_nodup_map db.constraints.sources he hd (hes.trans hs.symm)]

theorem write_eq {f : List Document → List Document}
    {g : List (DocumentChunk V) → List (DocumentChunk V)} (h : db.write f g = some db') :
    db'.documents = f db.documents ∧ db'.chunks = g db.chunks := by
  unfold write at h
  split at h
  · cases h
    exact ⟨rfl, rfl⟩
  · cases h

/-- Two stores differ at most in what is filed under the source. -/
structure Elsewhere (source : String) (db db' : VectorStore V) : Prop where
  documents : ∀ d, d.source ≠ source → (d ∈ db'.documents ↔ d ∈ db.documents)
  chunks : ∀ d ∈ db.documents, d.source ≠ source → db'.chunksOf d.id = db.chunksOf d.id

theorem Elsewhere.refl : Elsewhere source db db := ⟨fun _ _ => Iff.rfl, fun _ _ _ => rfl⟩

theorem Elsewhere.trans {db'' : VectorStore V} (h : Elsewhere source db db')
    (h' : Elsewhere source db' db'') : Elsewhere source db db'' := by
  refine ⟨fun d hs => (h'.documents d hs).trans (h.documents d hs), fun d hd hs => ?_⟩
  rw [h'.chunks d ((h.documents d hs).mpr hd) hs, h.chunks d hd hs]

theorem Elsewhere.find (h : Elsewhere source db db') (hs : s ≠ source) : db'.find s = db.find s := by
  refine Option.ext fun d => ?_
  rw [find_eq_some, find_eq_some]
  constructor
  · rintro ⟨hd, rfl⟩
    exact ⟨(h.documents d hs).mp hd, rfl⟩
  · rintro ⟨hd, rfl⟩
    exact ⟨(h.documents d hs).mpr hd, rfl⟩

/-- The chunks of other documents are not among those that a condition on the owner takes out. -/
theorem filter_owner {id : Nat} (hid : d.id ≠ id) :
    (db.chunks.filter (·.documentId ≠ id)).filter (·.documentId = d.id) = db.chunksOf d.id := by
  rw [chunksOf, List.filter_filter]
  refine List.filter_congr fun c _ => ?_
  by_cases hc : c.documentId = d.id
  · simp [hc, hid]
  · simp [hc]

/-- An update of one row, found by its source. -/
theorem update {g : Document → Document} (hd : db.find source = some d)
    (h : db'.documents = db.documents.map fun e => if e.id = d.id then g e else e)
    (hg : ∀ e, (g e).source = e.source) :
    (∀ e, e.source ≠ source → (e ∈ db'.documents ↔ e ∈ db.documents)) ∧
      db'.find source = some (g d) := by
  refine ⟨fun e hne => ?_, ?_⟩
  · rw [h, List.mem_map]
    constructor
    · rintro ⟨x, hx, rfl⟩
      by_cases hid : x.id = d.id
      · rw [if_pos hid, hg] at hne
        exact absurd ((eq_of_id hd hx).mp hid) hne
      · rwa [if_neg hid]
    · intro he
      have hid : e.id ≠ d.id := fun hid => hne ((eq_of_id hd he).mp hid)
      exact ⟨e, he, if_neg hid⟩
  · obtain ⟨hmem, hs⟩ := find_eq_some.mp hd
    rw [find_eq_some, h, hg]
    exact ⟨List.mem_map.mpr ⟨d, hmem, if_pos rfl⟩, hs⟩

/-- What was filed under the source is gone. -/
structure Removed (source : String) (db db' : VectorStore V) : Prop where
  documents : db'.documents = db.documents.filter (·.source ≠ source)
  elsewhere : Elsewhere source db db'

theorem Removed.find (h : Removed source db db') : db'.find source = none := by
  rw [find_eq_none, h.documents]
  simp

end VectorStore

open VectorStore

variable {db db' : VectorStore V} {seen seen' : Option (VectorStore V)}
  {tr : List (Obs (ingestSig V))} {source : String}

/-- A statement writes to what the session sees. -/
theorem wrote {v : VectorStore V} {f : List Document → List Document}
    {g : List (DocumentChunk V) → List (DocumentChunk V)}
    (h : (v.write f g).map (fun new => (db, some new)) = some (db', seen')) :
    db' = db ∧ ∃ new, seen' = some new ∧ new.documents = f v.documents ∧ new.chunks = g v.chunks := by
  obtain ⟨new, hnew, heq⟩ := Option.map_eq_some_iff.mp h
  cases heq
  exact ⟨rfl, new, rfl, write_eq hnew⟩

/-- A read changes nothing. -/
theorem looked {c : Prop} {_ : Decidable c}
    (h : (if c then some (db, seen) else none) = some (db', seen')) :
    c ∧ db' = db ∧ seen' = seen := by
  split at h
  · rename_i hc
    cases h
    exact ⟨hc, rfl, rfl⟩
  · cases h

/-! ## The repository -/

theorem deleteBySource_returned {b : Bool}
    (h : Exec (ingestSem V) db seen (deleteBySource source) tr (.returned b) db' seen') :
    db' = db ∧ Removed source (seen.getD db) (seen'.getD db) := by
  obtain ⟨found, db₁, seen₁, tr₁, -, hfound, h⟩ := Exec.call_bind_returned h
  obtain ⟨rfl, rfl, rfl⟩ := looked hfound
  cases hd : (seen₁.getD db₁).find source with
  | none =>
    rw [hd] at h
    obtain ⟨-, -, rfl, rfl⟩ := Exec.pure_returned h
    refine ⟨rfl, ?_, .refl⟩
    rw [eq_comm, List.filter_eq_self]
    intro e he
    simpa using find_eq_none.mp hd e he
  | some d =>
    rw [hd] at h
    obtain ⟨_, db₂, seen₂, tr₂, -, hdel, h⟩ := Exec.call_bind_returned h
    obtain ⟨rfl, new, rfl, hdocs, hchunks⟩ := wrote hdel
    obtain ⟨-, -, rfl, rfl⟩ := Exec.pure_returned h
    have hkeep : ∀ e ∈ (seen₁.getD db').documents, (e.id = d.id ↔ e.source = source) :=
      fun e he => eq_of_id hd he
    refine ⟨rfl, ?_, ?_, ?_⟩
    · show new.documents = _
      rw [hdocs]
      exact List.filter_congr fun e he => by simp [hkeep e he]
    · intro e hne
      show e ∈ new.documents ↔ _
      rw [hdocs, List.mem_filter]
      constructor
      · exact fun he => he.1
      · intro he
        exact ⟨he, by simpa [hkeep e he] using hne⟩
    · intro e he hne
      show new.chunksOf e.id = _
      rw [chunksOf, hchunks]
      exact filter_owner fun hid => hne ((hkeep e he).mp hid)

theorem upsert_returned {title : Text} {contentHash : String} {id : Nat}
    (h : Exec (ingestSem V) db seen (upsert source title contentHash) tr (.returned id) db' seen') :
    db' = db ∧ ∃ new d, seen' = some new ∧ Elsewhere source (seen.getD db) new ∧
      new.find source = some d ∧ d.id = id ∧ d.title = title ∧ d.contentHash = contentHash := by
  obtain ⟨found, db₁, seen₁, tr₁, -, hfound, h⟩ := Exec.call_bind_returned h
  obtain ⟨rfl, rfl, rfl⟩ := looked hfound
  cases hd : (seen₁.getD db₁).find source with
  | none =>
    rw [hd] at h
    obtain ⟨rfl, new, rfl, hdocs, hchunks⟩ := wrote (Exec.call_returned h)
    have hnew : (⟨id, source, title, contentHash, 0⟩ : Document) ∈ new.documents := by
      rw [hdocs]
      simp
    refine ⟨rfl, new, _, rfl, ⟨fun e hne => ?_, fun e _ _ => ?_⟩, find_eq_some.mpr ⟨hnew, rfl⟩, rfl,
      rfl, rfl⟩
    · rw [hdocs, List.mem_append, List.mem_singleton]
      exact or_iff_left fun he => hne (by rw [he])
    · rw [chunksOf, hchunks, chunksOf]
  | some d =>
    rw [hd] at h
    obtain ⟨_, db₂, seen₂, tr₂, -, hupdate, h⟩ := Exec.call_bind_returned h
    obtain ⟨rfl, new, rfl, hdocs, hchunks⟩ := wrote hupdate
    obtain ⟨rfl, -, rfl, rfl⟩ := Exec.pure_returned h
    obtain ⟨hothers, hfind⟩ := update hd hdocs fun _ => rfl
    refine ⟨rfl, new, _, rfl, ⟨hothers, fun e _ _ => ?_⟩, hfind, rfl, rfl, rfl⟩
    rw [chunksOf, hchunks, chunksOf]

theorem replaceChunks_returned {d : Document} {chunks : List (ChunkInput V)} {u : Unit}
    (hd : (seen.getD db).find source = some d)
    (h : Exec (ingestSem V) db seen (replaceChunks d.id chunks) tr (.returned u) db' seen') :
    db' = db ∧ ∃ new, seen' = some new ∧ Elsewhere source (seen.getD db) new ∧
      new.find source = some { d with chunkCount := chunks.length } ∧
      new.chunksOf d.id = chunks.map fun c => ⟨c, d.id⟩ := by
  obtain ⟨_, db₁, seen₁, tr₁, -, hdelete, h⟩ := Exec.call_bind_returned h
  obtain ⟨rfl, new₁, rfl, hdocs₁, hchunks₁⟩ := wrote hdelete
  obtain ⟨_, db₂, seen₂, tr₂, -, hinsert, h⟩ := Exec.call_bind_returned h
  obtain ⟨rfl, new₂, rfl, hdocs₂, hchunks₂⟩ := wrote hinsert
  obtain ⟨rfl, new, rfl, hdocs, hchunks⟩ := wrote (Exec.call_returned h)
  have hsum : new.chunks = (seen.getD db').chunks.filter (·.documentId ≠ d.id) ++
      chunks.map fun c => ⟨c, d.id⟩ := by
    rw [hchunks]
    show new₂.chunks = _
    rw [hchunks₂]
    show new₁.chunks ++ _ = _
    rw [hchunks₁]
  have hrows : new.documents = (seen.getD db').documents.map fun e =>
      if e.id = d.id then { e with chunkCount := chunks.length } else e := by
    rw [hdocs]
    show new₂.documents.map _ = _
    rw [hdocs₂]
    show new₁.documents.map _ = _
    rw [hdocs₁]
  obtain ⟨hothers, hfind⟩ := update hd hrows fun _ => rfl
  refine ⟨rfl, new, rfl, ⟨hothers, fun e he hne => ?_⟩, hfind, ?_⟩
  · have hid : e.id ≠ d.id := fun hid => hne ((eq_of_id hd he).mp hid)
    have hnone : (chunks.map fun c => (⟨c, d.id⟩ : DocumentChunk V)).filter
        (·.documentId = e.id) = [] := by
      simp [List.filter_eq_nil_iff, Ne.symm hid]
    rw [chunksOf, hsum, List.filter_append, hnone, List.append_nil]
    exact filter_owner hid
  · have hnone : ((seen.getD db').chunks.filter (·.documentId ≠ d.id)).filter
        (·.documentId = d.id) = [] := by
      simp
    rw [chunksOf, hsum, List.filter_append, hnone, List.nil_append, List.filter_eq_self]
    simp

/-! ## `ingest_file` -/

variable {sv : IngestionService} {f : File} {force : Bool}

/-- The document of a file is the new one, with the new chunks and no others. -/
structure Stored (sv : IngestionService) (f : File) (payload : List (ChunkInput V))
    (db db' : VectorStore V) : Prop where
  document : ∃ d, db'.find f.source = some d ∧ d.title = sv.humanize f.stem ∧
    d.contentHash = f.contentHash ∧ d.chunkCount = payload.length ∧
    db'.chunksOf d.id = payload.map fun c => ⟨c, d.id⟩
  elsewhere : Elsewhere f.source db db'

/-- What `ingest_file` can return, and what it has done then. -/
inductive Effect (sv : IngestionService) (f : File) (force : Bool) (db : VectorStore V) :
    IngestionResult → VectorStore V → Prop
  | unchanged {d : Document} : db.find f.source = some d → d.contentHash = f.contentHash →
      force = false → Effect sv f force db ⟨f.source, .unchanged, d.chunkCount, none, none⟩ db
  | noText : readPages f = [] → Effect sv f force db (failure f.source noText) db
  | skipped : isUnfilled (fullText (readPages f)) = true → db.find f.source = none →
      Effect sv f force db ⟨f.source, .skipped, 0, none, some (describe (fullText (readPages f)))⟩ db
  | withdrawn {db' : VectorStore V} : isUnfilled (fullText (readPages f)) = true →
      Removed f.source db db' → Effect sv f force db
        ⟨f.source, .skipped, 0, none, some (describe (fullText (readPages f)) ++ removedNote)⟩ db'
  | noChunks : isUnfilled (fullText (readPages f)) = false → sv.piecesOf (readPages f) = .ok [] →
      Effect sv f force db (failure f.source noChunks) db
  | indexed {pieces : List (Option Nat × TextChunk)} {vectors : List V}
      {payload : List (ChunkInput V)} {db' : VectorStore V} :
      isUnfilled (fullText (readPages f)) = false → sv.piecesOf (readPages f) = .ok pieces →
      payloadOf pieces vectors = some payload → Stored sv f payload db db' →
      Effect sv f force db ⟨f.source, .indexed, payload.length, none, none⟩ db'

theorem store_returned {payload : List (ChunkInput V)} {r : IngestionResult}
    (h : Exec (ingestSem V) db none (sv.store f f.contentHash payload) tr (.returned r) db' seen') :
    seen' = none ∧ r = ⟨f.source, .indexed, payload.length, none, none⟩ ∧
      Stored sv f payload db db' := by
  obtain ⟨id, db₁, seen₁, tr₁, tr₂, -, hupsert, h⟩ := Exec.bind_returned h
  obtain ⟨rfl, new, d, rfl, hother, hfind, rfl, htitle, hhash⟩ := upsert_returned hupsert
  obtain ⟨_, db₂, seen₂, tr₃, tr₄, -, hreplace, h⟩ := Exec.bind_returned h
  obtain ⟨rfl, new', rfl, hother', hfind', hchunks⟩ := replaceChunks_returned
    (show (Option.getD (some new) _).find f.source = some d from hfind) hreplace
  obtain ⟨_, db₃, seen₃, tr₅, -, hcommit, h⟩ := Exec.call_bind_returned h
  cases hcommit
  obtain ⟨rfl, -, rfl, rfl⟩ := Exec.pure_returned h
  exact ⟨rfl, rfl, ⟨_, hfind', htitle, hhash, rfl, hchunks⟩, hother.trans hother'⟩

theorem index_returned {r : IngestionResult} (hfilled : isUnfilled (fullText (readPages f)) = false)
    (h : Exec (ingestSem V) db none (sv.index f f.contentHash (readPages f)) tr (.returned r) db'
      seen') : seen' = none ∧ Effect sv f force db r db' := by
  unfold IngestionService.index at h
  split at h
  · obtain ⟨x, -⟩ := Exec.op_inv h
    exact x.elim
  · rename_i hpieces
    obtain ⟨rfl, -, rfl, rfl⟩ := Exec.pure_returned h
    exact ⟨rfl, .noChunks hfilled hpieces⟩
  · rename_i pieces _ hpieces
    obtain ⟨vectors, db₁, seen₁, tr₁, -, hembed, h⟩ := Exec.call_bind_returned h
    cases hembed
    split at h
    · obtain ⟨x, -⟩ := Exec.op_inv h
      exact x.elim
    · rename_i payload hpayload
      obtain ⟨rfl, rfl, hstored⟩ := store_returned h
      exact ⟨rfl, .indexed hfilled hpieces hpayload hstored⟩

theorem skip_returned {r : IngestionResult} (hunfilled : isUnfilled (fullText (readPages f)) = true)
    (h : Exec (ingestSem V) db none (skip f (db.find f.source) (fullText (readPages f))) tr
      (.returned r) db' seen') : seen' = none ∧ Effect sv f force db r db' := by
  unfold skip at h
  split at h
  · rename_i hnone
    obtain ⟨rfl, -, rfl, rfl⟩ := Exec.pure_returned h
    exact ⟨rfl, .skipped hunfilled hnone⟩
  · obtain ⟨_, db₁, seen₁, tr₁, tr₂, -, hdelete, hcommitting⟩ := Exec.bind_returned h
    obtain ⟨rfl, hremoved⟩ := deleteBySource_returned hdelete
    obtain ⟨_, db₂, seen₂, tr₃, -, hcommit, hreport⟩ := Exec.call_bind_returned hcommitting
    cases hcommit
    obtain ⟨rfl, -, rfl, rfl⟩ := Exec.pure_returned hreport
    exact ⟨rfl, .withdrawn hunfilled hremoved⟩

/-- **What `ingest_file` has done when it returns.** -/
theorem ingestFile_returned {r : IngestionResult}
    (h : Exec (ingestSem V) db none (sv.ingestFile f force) tr (.returned r) db' seen') :
    seen' = none ∧ Effect sv f force db r db' := by
  obtain ⟨_, db₁, seen₁, tr₁, -, hhash, h⟩ := Exec.call_bind_returned h
  obtain ⟨rfl, rfl, rfl⟩ := looked hhash
  obtain ⟨_, db₂, seen₂, tr₂, -, hfind, h⟩ := Exec.call_bind_returned h
  obtain ⟨rfl, rfl, rfl⟩ := looked hfind
  split at h
  · rename_i d hd
    obtain ⟨rfl, -, rfl, rfl⟩ := Exec.pure_returned h
    rw [Option.filter_eq_some_iff] at hd
    obtain ⟨hd, hsame⟩ := hd
    simp only [Bool.and_eq_true, beq_iff_eq, Bool.not_eq_true'] at hsame
    exact ⟨rfl, .unchanged hd hsame.1 hsame.2⟩
  · obtain ⟨_, db₃, seen₃, tr₃, -, hpages, h⟩ := Exec.call_bind_returned h
    obtain ⟨rfl, rfl, rfl⟩ := looked hpages
    unfold IngestionService.ingestPages at h
    split at h
    · rename_i hnone
      obtain ⟨rfl, -, rfl, rfl⟩ := Exec.pure_returned h
      exact ⟨rfl, .noText hnone⟩
    · split at h
      · rename_i hunfilled
        exact skip_returned hunfilled h
      · rename_i hfilled
        exact index_returned (Bool.not_eq_true _ ▸ hfilled) h

/-! ## Failures -/

def IsCommit : Op V → Prop
  | .commit => True
  | _ => False

theorem deleteBySource_only (source : String) :
    (deleteBySource source : IngestM V Bool).Only fun o => ¬IsCommit o := by
  refine .call_bind (fun h => h) fun found => ?_
  cases found with
  | none => exact Prog.only_pure _
  | some d => exact .call_bind (fun h => h) fun _ => Prog.only_pure _

theorem upsert_only (source : String) (title : Text) (contentHash : String) :
    (upsert source title contentHash : IngestM V Nat).Only fun o => ¬IsCommit o := by
  refine .call_bind (fun h => h) fun found => ?_
  cases found with
  | none => exact Prog.only_call.mpr fun h => h
  | some d => exact .call_bind (fun h => h) fun _ => Prog.only_pure _

theorem replaceChunks_only (id : Nat) (chunks : List (ChunkInput V)) :
    (replaceChunks id chunks).Only fun o => ¬IsCommit o :=
  .call_bind (fun h => h) fun _ => .call_bind (fun h => h) fun _ => Prog.only_call.mpr fun h => h

theorem raiseError_last {α : Type} : (raiseError : IngestM V α).Last IsCommit :=
  ⟨False.elim, nofun⟩

theorem index_last (contentHash : String) (pages : List Page) :
    (sv.index f contentHash pages : IngestM V IngestionResult).Last IsCommit := by
  unfold IngestionService.index
  split
  · exact raiseError_last
  · exact Prog.last_pure _
  · refine .bind (Prog.only_call.mpr fun h => h) fun vectors => ?_
    split
    · exact raiseError_last
    · refine .bind (upsert_only _ _ _) fun id => .bind (replaceChunks_only _ _) fun _ => ?_
      exact Prog.last_op fun _ => ⟨_, rfl⟩

/-- Nothing follows the commit. -/
theorem ingestFile_last : (sv.ingestFile f force : IngestM V IngestionResult).Last IsCommit := by
  refine .bind (Prog.only_call.mpr fun h => h) fun contentHash => ?_
  refine .bind (Prog.only_call.mpr fun h => h) fun existing => ?_
  split
  · exact Prog.last_pure _
  · refine .bind (Prog.only_call.mpr fun h => h) fun pages => ?_
    unfold IngestionService.ingestPages
    split
    · exact Prog.last_pure _
    · split
      · unfold skip
        split
        · exact Prog.last_pure _
        · exact .bind (deleteBySource_only _) fun _ => Prog.last_op fun _ => ⟨_, rfl⟩
      · exact index_last _ _

/-- Only a commit changes what is committed. -/
theorem serve_keeps {o : Op V} {r : o.Resp} (h : serve db seen o r = some (db', seen'))
    (ho : ¬IsCommit o) : db' = db := by
  cases o with
  | commit => exact absurd True.intro ho
  | raise => exact r.elim
  | embedTexts => cases h; rfl
  | fileHash | readPages | getBySource | listDocuments => exact (looked h).2.1
  | insertDocument | updateDocument | deleteDocument | deleteChunks | insertChunks | setChunkCount =>
    exact (wrote h).1

/-- **A failure leaves the committed store alone.** -/
theorem failed_keeps {rest : IngestM V IngestionResult}
    (h : Leaves (ingestSem V) db seen (sv.ingestFile f force) tr db' seen' rest)
    (hrest : rest.At fun _ => True) : db' = db :=
  h.keeps (I := fun w _ => w = db) (fun ho hs hw => (serve_keeps hs ho).trans hw)
    (h.before_last ingestFile_last hrest) rfl

/-- **What a run of `ingest_file` has done.** -/
theorem FileRun.effect {o : Outcome} (h : FileRun sv force f db none o tr db' seen') :
    seen' = none ∧
      ((∃ r, o = .returned r ∧ Effect sv f force db r db') ∨ (∃ e, o = .caught e) ∧ db' = db) := by
  cases h with
  | returned h =>
    obtain ⟨hseen, heffect⟩ := ingestFile_returned h
    exact ⟨hseen, .inl ⟨_, rfl, heffect⟩⟩
  | caught e h hrest => exact ⟨rfl, .inr ⟨⟨e, rfl⟩, failed_keeps h hrest⟩⟩

/-- What is filed under other sources stays. -/
theorem FileRun.elsewhere {o : Outcome} (h : FileRun sv force f db none o tr db' seen') :
    Elsewhere f.source db db' := by
  obtain ⟨-, ⟨r, -, heffect⟩ | ⟨-, rfl⟩⟩ := h.effect
  · cases heffect with
    | unchanged | noText | skipped | noChunks => exact .refl
    | withdrawn _ hremoved => exact hremoved.elsewhere
    | indexed _ _ _ hstored => exact hstored.elsewhere
  · exact .refl

end Knowledge
