import WhatsAppBot.Knowledge.Proof.Ingestion
import WhatsAppBot.Knowledge.Sample

/-!
# Ingesting a folder twice

A file is `Settled` when ingesting it again would only read. The files of a run are settled after
it unless an exception cut them short (`FilesRun.settled`), pruning keeps them so, and a second run
finds nothing to do (`ingestion_atomic`).
-/

set_option autoImplicit false

namespace Knowledge

open Lib Prompt VectorStore

variable {V : Type} {sv : IngestionService} {f : File} {force : Bool} {db db' : VectorStore V}
  {seen seen' : Option (VectorStore V)} {tr : List (Obs (ingestSig V))} {fs : List (File × Outcome)}

/-- The file has text that cannot be chunked. -/
def Unchunkable (sv : IngestionService) (f : File) : Prop :=
  isUnfilled (fullText (readPages f)) = false ∧ ∃ e, sv.piecesOf (readPages f) = .error e

inductive Settled (sv : IngestionService) (f : File) (db : VectorStore V) : Prop
  | unchanged {d : Document} : db.find f.source = some d → d.contentHash = f.contentHash →
      Settled sv f db
  | noText : readPages f = [] → Settled sv f db
  | skipped : isUnfilled (fullText (readPages f)) = true → db.find f.source = none → Settled sv f db
  | noChunks : isUnfilled (fullText (readPages f)) = false → sv.piecesOf (readPages f) = .ok [] →
      Settled sv f db
  | unchunkable : Unchunkable sv f → Settled sv f db

theorem Settled.congr (h : Settled sv f db) (hfind : db'.find f.source = db.find f.source) :
    Settled sv f db' := by
  cases h with
  | unchanged hd hhash => exact .unchanged (hfind.trans hd) hhash
  | noText h => exact .noText h
  | skipped hunfilled hnone => exact .skipped hunfilled (hfind.trans hnone)
  | noChunks hfilled hpieces => exact .noChunks hfilled hpieces
  | unchunkable h => exact .unchunkable h

theorem FileRun.settled {o : Outcome} (h : FileRun sv force f db none o tr db' seen')
    (hcaught : ∀ e, o = .caught e → Unchunkable sv f) : Settled sv f db' := by
  obtain ⟨-, ⟨r, -, heffect⟩ | ⟨⟨e, he⟩, -⟩⟩ := h.effect
  · cases heffect with
    | unchanged hd hhash => exact .unchanged hd hhash
    | noText hnone => exact .noText hnone
    | skipped hunfilled hnone => exact .skipped hunfilled hnone
    | withdrawn hunfilled hremoved => exact .skipped hunfilled hremoved.find
    | noChunks hfilled hpieces => exact .noChunks hfilled hpieces
    | indexed _ _ _ hstored =>
      obtain ⟨d, hd, -, hhash, -⟩ := hstored.document
      exact .unchanged hd hhash
  · exact .unchunkable (hcaught e he)

/-- The index holds the file's document. -/
def Kept (db : VectorStore V) (source : String) (status : Status) : Prop :=
  status = .indexed ∨ status = .unchanged ∨ (status = .failed ∧ (db.find source).isSome)

theorem FileRun.kept {o : Outcome} (h : FileRun sv force f db none o tr db' seen') :
    (db'.find f.source).isSome ↔ Kept db f.source (o.result f.source).status := by
  obtain ⟨-, ⟨r, rfl, heffect⟩ | ⟨⟨e, rfl⟩, rfl⟩⟩ := h.effect
  · cases heffect with
    | unchanged hd => simp [Kept, Outcome.result, hd]
    | noText | noChunks => simp [Kept, Outcome.result, failure]
    | skipped _ hnone => simp [Kept, Outcome.result, hnone]
    | withdrawn _ hremoved => simp [Kept, Outcome.result, hremoved.find]
    | indexed _ _ _ hstored =>
      obtain ⟨d, hd, -⟩ := hstored.document
      simp [Kept, Outcome.result, hd]
  · simp [Kept, Outcome.result, failure]

/-! ## The files of a folder -/

theorem FilesRun.find {s : String} (h : FilesRun sv force db seen fs tr db' seen')
    (hseen : seen = none) (hs : ∀ x ∈ fs, x.1.source ≠ s) : seen' = none ∧ db'.find s = db.find s := by
  induction h with
  | nil => exact ⟨hseen, rfl⟩
  | cons hf _ ih =>
    subst hseen
    obtain ⟨hclean, -⟩ := hf.effect
    obtain ⟨hseen, hfind⟩ := ih hclean fun x hx => hs x (List.mem_cons_of_mem _ hx)
    exact ⟨hseen, hfind.trans (hf.elsewhere.find (hs _ List.mem_cons_self).symm)⟩

theorem FilesRun.settled (h : FilesRun sv force db seen fs tr db' seen') (hseen : seen = none)
    (hnd : (fs.map fun x => x.1.source).Nodup)
    (hcaught : ∀ x ∈ fs, ∀ e, x.2 = .caught e → Unchunkable sv x.1) :
    ∀ x ∈ fs, Settled sv x.1 db' := by
  induction h with
  | nil => simp
  | @cons db db₁ db' seen seen₁ seen' f o fs tr tr' hf hrest ih =>
    subst hseen
    rw [List.map_cons, List.nodup_cons] at hnd
    obtain ⟨hclean, -⟩ := hf.effect
    intro x hx
    rcases List.mem_cons.mp hx with rfl | hx
    · have hother : ∀ y ∈ fs, y.1.source ≠ f.source :=
        fun y hy he => hnd.1 (List.mem_map.mpr ⟨y, hy, he⟩)
      exact (hf.settled (hcaught _ List.mem_cons_self)).congr (hrest.find hclean hother).2
    · exact ih hclean hnd.2 (fun y hy => hcaught y (List.mem_cons_of_mem _ hy)) x hx

theorem FilesRun.kept (h : FilesRun sv force db seen fs tr db' seen') (hseen : seen = none)
    (hnd : (fs.map fun x => x.1.source).Nodup) :
    ∀ x ∈ fs, ((db'.find x.1.source).isSome ↔
      Kept db x.1.source (x.2.result x.1.source).status) := by
  induction h with
  | nil => simp
  | @cons db db₁ db' seen seen₁ seen' f o fs tr tr' hf hrest ih =>
    subst hseen
    rw [List.map_cons, List.nodup_cons] at hnd
    obtain ⟨hclean, -⟩ := hf.effect
    intro x hx
    rcases List.mem_cons.mp hx with rfl | hx
    · have hother : ∀ y ∈ fs, y.1.source ≠ f.source :=
        fun y hy he => hnd.1 (List.mem_map.mpr ⟨y, hy, he⟩)
      rw [(hrest.find hclean hother).2]
      exact hf.kept
    · have hne : x.1.source ≠ f.source := fun he => hnd.1 (List.mem_map.mpr ⟨x, hx, he⟩)
      rw [ih hclean hnd.2 x hx, Kept, Kept, hf.elsewhere.find hne]

/-! ## Pruning -/

theorem removeAbsent_returned {present : List String} {ds : List Document}
    {results : List IngestionResult}
    (h : Exec (ingestSem V) db seen (removeAbsent present ds) tr (.returned results) db' seen') :
    db' = db ∧ ∀ s, (seen'.getD db).find s =
      if s ∈ present ∨ ∀ d ∈ ds, d.source ≠ s then (seen.getD db).find s else none := by
  induction ds generalizing db db' seen seen' tr results with
  | nil =>
    obtain ⟨-, -, rfl, rfl⟩ := Exec.pure_returned h
    exact ⟨rfl, fun s => by simp⟩
  | cons d ds ih =>
    unfold removeAbsent at h
    split at h
    · rename_i hd
      obtain ⟨rfl, hfind⟩ := ih h
      refine ⟨rfl, fun s => ?_⟩
      rw [hfind s]
      refine if_congr ?_ rfl rfl
      constructor
      · rintro (hs | hs)
        · exact .inl hs
        · by_cases hds : d.source = s
          · exact .inl (hds ▸ hd)
          · exact .inr (List.forall_mem_cons.mpr ⟨hds, hs⟩)
      · rintro (hs | hs)
        · exact .inl hs
        · exact .inr (List.forall_mem_cons.mp hs).2
    · rename_i hd
      obtain ⟨_, db₁, seen₁, tr₁, tr₂, -, hdelete, hrest⟩ := Exec.bind_returned h
      obtain ⟨rfl, hremoved⟩ := deleteBySource_returned hdelete
      obtain ⟨_, db₂, seen₂, tr₃, tr₄, -, hloop, hreturn⟩ := Exec.bind_returned hrest
      obtain ⟨rfl, hfind⟩ := ih hloop
      obtain ⟨-, -, rfl, rfl⟩ := Exec.pure_returned hreturn
      refine ⟨rfl, fun s => ?_⟩
      rw [hfind s]
      by_cases hds : d.source = s
      · subst hds
        rw [hremoved.find, ite_self, if_neg]
        rintro (hs | hs)
        · exact hd hs
        · exact hs d List.mem_cons_self rfl
      · rw [hremoved.elsewhere.find (Ne.symm hds)]
        refine if_congr ?_ rfl rfl
        rw [List.forall_mem_cons]
        exact ⟨Or.imp id fun hs => ⟨hds, hs⟩, Or.imp id And.right⟩

theorem prune_returned {files : List File} {results : List IngestionResult}
    (h : Exec (ingestSem V) db none (prune files) tr (.returned results) db' seen') (s : String) :
    db'.find s = if s ∈ files.map (·.source) then db.find s else none := by
  obtain ⟨ds, db₁, seen₁, tr₁, -, hlist, h⟩ := Exec.call_bind_returned h
  obtain ⟨hperm, rfl, rfl⟩ := looked hlist
  obtain ⟨_, db₂, seen₂, tr₂, tr₃, -, hloop, hrest⟩ := Exec.bind_returned h
  obtain ⟨rfl, hfind⟩ := removeAbsent_returned hloop
  obtain ⟨_, db₃, seen₃, tr₄, -, hcommit, hreturn⟩ := Exec.call_bind_returned hrest
  cases hcommit
  obtain ⟨-, -, rfl, rfl⟩ := Exec.pure_returned hreturn
  rw [hfind s]
  by_cases hs : s ∈ files.map (·.source)
  · rw [if_pos (.inl hs), if_pos hs]
    rfl
  · rw [if_neg hs]
    split
    · rename_i hor
      have hnone : ∀ d ∈ db₂.documents, d.source ≠ s :=
        fun d hd => hor.resolve_left hs d (hperm.mem_iff.mpr hd)
      exact find_eq_none.mpr hnone
    · rfl

/-! ## The second run -/

/-- The operations that neither embed nor write. -/
def IsQuiet : Op V → Prop
  | .embedTexts _ | .insertDocument _ _ _ | .updateDocument _ _ _ | .deleteDocument _
  | .deleteChunks _ | .insertChunks _ | .setChunkCount _ _ => False
  | _ => True

def IsEmbedding : Op V → Prop
  | .embedTexts _ => True
  | _ => False

/-- Only quiet operations, answered from the store. -/
def quiet (db : VectorStore V) : Monitor (ingestSig V) Unit where
  ok _ o := IsQuiet o
  next _ _ _ := ()
  may o r := serve db none o r = some (db, none)

theorem serve_quiet {o : Op V} {r : o.Resp} (h : serve db none o r = some (db', seen'))
    (ho : IsQuiet o) : db' = db ∧ seen' = none := by
  cases o with
  | commit => cases h; exact ⟨rfl, rfl⟩
  | raise => exact r.elim
  | fileHash | readPages | getBySource | listDocuments => exact (looked h).2
  | embedTexts | insertDocument | updateDocument | deleteDocument | deleteChunks | insertChunks
  | setChunkCount => exact ho.elim

/-- A program that only performs quiet operations leaves everything as it is. -/
theorem quiet_exec {α : Type} {P : IngestM V α} {Q : α → Unit → Prop} {e : Ending α}
    (hP : P.wp (quiet db) Q ()) (h : Exec (ingestSem V) db none P tr e db' seen') :
    db' = db ∧ seen' = none ∧ ∀ x ∈ tr, ¬IsEmbedding x.1 := by
  have hL : ∀ {w t a o r w' t'}, (ingestSem V).step [] w t o r = some (w', t') →
      (quiet db).ok a o → (w = db ∧ t = none) →
      (quiet db).may o r ∧ (w' = db ∧ t' = none) := by
    rintro w t a o r w' t' hs ho ⟨rfl, rfl⟩
    obtain ⟨rfl, rfl⟩ := serve_quiet hs ho
    exact ⟨hs, rfl, rfl⟩
  obtain ⟨⟨hdb, hseen⟩, -⟩ := h.sound hL hP ⟨rfl, rfl⟩
  refine ⟨hdb, hseen, fun x hx hembed => ?_⟩
  obtain ⟨w, t, a, -, hok⟩ := h.sound_mem hL hP ⟨rfl, rfl⟩ hx
  obtain ⟨o, r⟩ := x
  cases o with
  | embedTexts => exact hok
  | _ => exact hembed

theorem pure_quiet {α : Type} (x : α) (u : Unit) :
    (pure x : IngestM V α).wp (quiet db) (fun _ _ => True) u := True.intro

variable {pages : List Page} {existing : Option Document} {contentHash : String}

theorem index_quiet (h : (∃ e, sv.piecesOf pages = .error e) ∨ sv.piecesOf pages = .ok []) :
    (sv.index f contentHash pages).wp (quiet db) (fun _ _ => True) () := by
  unfold IngestionService.index
  rcases h with ⟨e, h⟩ | h
  · rw [h]
    exact ⟨True.intro, nofun⟩
  · rw [h]
    exact pure_quiet _ _

theorem ingestPages_quiet (h : pages = [] ∨ (isUnfilled (fullText pages) = true ∧ existing = none) ∨
    (isUnfilled (fullText pages) = false ∧
      ((∃ e, sv.piecesOf pages = .error e) ∨ sv.piecesOf pages = .ok []))) :
    (sv.ingestPages f contentHash existing pages).wp (quiet db) (fun _ _ => True) () := by
  unfold IngestionService.ingestPages
  rcases h with rfl | ⟨hunfilled, rfl⟩ | ⟨hfilled, hpieces⟩
  · exact pure_quiet _ _
  · split
    · exact pure_quiet _ _
    · exact pure_quiet _ _
  · split
    · exact pure_quiet _ _
    · rw [hfilled, if_neg Bool.false_ne_true]
      exact index_quiet hpieces

/-- Why a settled file whose contents are new is read in vain. -/
theorem Settled.of_changed (h : Settled sv f db)
    (hchanged : ∀ d, db.find f.source = some d → d.contentHash ≠ f.contentHash) :
    readPages f = [] ∨ (isUnfilled (fullText (readPages f)) = true ∧ db.find f.source = none) ∨
      (isUnfilled (fullText (readPages f)) = false ∧
        ((∃ e, sv.piecesOf (readPages f) = .error e) ∨ sv.piecesOf (readPages f) = .ok [])) := by
  cases h with
  | unchanged hd hhash => exact absurd hhash (hchanged _ hd)
  | noText hnone => exact .inl hnone
  | skipped hunfilled hnone => exact .inr (.inl ⟨hunfilled, hnone⟩)
  | noChunks hfilled hpieces => exact .inr (.inr ⟨hfilled, .inr hpieces⟩)
  | unchunkable h => exact .inr (.inr ⟨h.1, .inl h.2⟩)

theorem Settled.quiet (h : Settled sv f db) :
    (sv.ingestFile f false).wp (quiet db) (fun _ _ => True) () := by
  refine Prog.wp_call_bind True.intro fun contentHash hhash => ?_
  obtain rfl := (looked hhash).1
  refine Prog.wp_call_bind True.intro fun existing hfind => ?_
  obtain rfl := (looked hfind).1
  split
  · exact pure_quiet _ _
  · rename_i hchanged
    refine Prog.wp_call_bind True.intro fun pages hpages => ?_
    obtain rfl := (looked hpages).1
    refine ingestPages_quiet (h.of_changed fun d hd hhash => ?_)
    change (db.find f.source).filter _ = none at hchanged
    rw [hd] at hchanged
    simp [hhash] at hchanged

theorem removeAbsent_present {present : List String} {ds : List Document}
    (h : ∀ d ∈ ds, d.source ∈ present) :
    removeAbsent present ds = (pure [] : IngestM V (List IngestionResult)) := by
  induction ds with
  | nil => rfl
  | cons d ds ih =>
    rw [removeAbsent, if_pos (h d List.mem_cons_self)]
    exact ih fun e he => h e (List.mem_cons_of_mem _ he)

theorem prune_quiet {files : List File} (h : ∀ d ∈ db.documents, d.source ∈ files.map (·.source)) :
    (prune files).wp (quiet db) (fun _ _ => True) () := by
  refine Prog.wp_call_bind True.intro fun ds hlist => ?_
  have hperm := (looked hlist).1
  rw [removeAbsent_present fun d hd => h d (hperm.mem_iff.mp hd)]
  exact Prog.wp_call_bind True.intro fun _ _ => True.intro

theorem FileRun.idle {o : Outcome} (h : Settled sv f db)
    (hrun : FileRun sv false f db none o tr db' seen') :
    db' = db ∧ seen' = none ∧ ∀ x ∈ tr, ¬IsEmbedding x.1 := by
  cases hrun with
  | returned hexec => exact quiet_exec h.quiet hexec
  | caught e hleaves =>
    have hexec := hleaves.exec .raised
    rw [List.append_nil] at hexec
    obtain ⟨hdb, -, hembed⟩ := quiet_exec h.quiet hexec
    exact ⟨hdb, rfl, hembed⟩

theorem FilesRun.idle (h : FilesRun sv false db seen fs tr db' seen') (hseen : seen = none)
    (hsettled : ∀ x ∈ fs, Settled sv x.1 db) :
    db' = db ∧ seen' = none ∧ ∀ x ∈ tr, ¬IsEmbedding x.1 := by
  induction h with
  | nil => exact ⟨rfl, hseen, by simp⟩
  | cons hf hrest ih =>
    subst hseen
    obtain ⟨rfl, hclean, hembed⟩ := hf.idle (hsettled _ List.mem_cons_self)
    obtain ⟨rfl, hclean', hembed'⟩ := ih hclean fun x hx => hsettled x (List.mem_cons_of_mem _ hx)
    refine ⟨rfl, hclean', fun x hx => ?_⟩
    rcases List.mem_append.mp hx with hx | hx
    · exact hembed x hx
    · exact hembed' x hx

/-! ## Both runs -/

variable {folder : Folder}

theorem Folder.supported_nodup (folder : Folder) : (folder.supported.map (·.source)).Nodup :=
  folder.sources.sublist (List.filter_sublist.map _)

theorem sources_eq (h : fs.map Prod.fst = folder.supported) :
    (fs.map fun x => x.1.source) = folder.supported.map (·.source) := by
  rw [← h, List.map_map]
  rfl

theorem FilesRun.clean (h : FilesRun sv force db seen fs tr db' seen') (hseen : seen = none) :
    seen' = none := by
  induction h with
  | nil => exact hseen
  | cons hf _ ih =>
    subst hseen
    exact ih hf.effect.1

/-- A run with pruning that came to its end. -/
theorem DirectoryRun.finished {results : List IngestionResult}
    (h : DirectoryRun sv force folder true db fs (.returned results) tr db') :
    fs.map Prod.fst = folder.supported ∧ ∃ db₁ tr₁ tr₂ gone seen',
      FilesRun sv force db none fs tr₁ db₁ none ∧
      Exec (ingestSem V) db₁ none (prune folder.supported) tr₂ (.returned gone) db' seen' := by
  generalize he : Ending.returned results = e at h
  cases h with
  | notFound => cases he
  | @pruned db db₁ db' seen seen' fs e' tr₁ tr₂ _ hfiles hfs hprune =>
    cases e' with
    | raised | died => cases he
    | returned gone =>
      obtain rfl := hfiles.clean rfl
      exact ⟨hfs, db₁, tr₁, tr₂, gone, seen', hfiles, hprune⟩

/-- **What a run with pruning leaves in the index.** -/
theorem DirectoryRun.index {results : List IngestionResult}
    (h : DirectoryRun sv force folder true db fs (.returned results) tr db') (s : String) :
    (db'.find s).isSome ↔ ∃ x ∈ fs, x.1.source = s ∧ Kept db s (x.2.result s).status := by
  obtain ⟨hfs, db₁, tr₁, tr₂, gone, seen', hfiles, hprune⟩ := h.finished
  have hsources := sources_eq hfs
  have hnd : (fs.map fun x => x.1.source).Nodup := hsources ▸ folder.supported_nodup
  have hkept := hfiles.kept rfl hnd
  rw [prune_returned hprune s, ← hsources]
  constructor
  · intro hs
    split at hs
    · rename_i hmem
      obtain ⟨x, hx, rfl⟩ := List.mem_map.mp hmem
      exact ⟨x, hx, rfl, (hkept x hx).mp hs⟩
    · cases hs
  · rintro ⟨x, hx, rfl, hs⟩
    rw [if_pos (List.mem_map.mpr ⟨x, hx, rfl⟩)]
    exact (hkept x hx).mpr hs

/-- **A second run finds nothing to do.** -/
theorem DirectoryRun.again {results : List IngestionResult} {fs' : List (File × Outcome)}
    {e : Ending (List IngestionResult)} {tr' : List (Obs (ingestSig V))} {db'' : VectorStore V}
    (h : DirectoryRun sv force folder true db fs (.returned results) tr db')
    (hcaught : ∀ x ∈ fs, ∀ e, x.2 = .caught e → Unchunkable sv x.1)
    (h' : DirectoryRun sv false folder true db' fs' e tr' db'') :
    db'' = db' ∧ ∀ x ∈ tr', ¬IsEmbedding x.1 := by
  obtain ⟨hfs, db₁, tr₁, tr₂, gone, seen', hfiles, hprune⟩ := h.finished
  have hsources := sources_eq hfs
  have hnd : (fs.map fun x => x.1.source).Nodup := hsources ▸ folder.supported_nodup
  have hsettled : ∀ f ∈ folder.supported, Settled sv f db' := by
    intro f hf
    rw [← hfs] at hf
    obtain ⟨x, hx, rfl⟩ := List.mem_map.mp hf
    refine (hfiles.settled rfl hnd hcaught x hx).congr ?_
    rw [prune_returned hprune, ← hsources, if_pos (List.mem_map.mpr ⟨x, hx, rfl⟩)]
  have hpresent : ∀ d ∈ db'.documents, d.source ∈ folder.supported.map (·.source) := by
    intro d hd
    by_contra habsent
    have hfind := prune_returned hprune d.source
    rw [if_neg habsent] at hfind
    exact find_eq_none.mp hfind d hd rfl
  cases h' with
  | notFound => exact ⟨rfl, by simp⟩
  | pruned _ hfiles' hfs' hprune' =>
    obtain ⟨rfl, rfl, hembed⟩ := hfiles'.idle rfl fun x hx =>
      hsettled x.1 (hfs' ▸ List.mem_map_of_mem hx)
    obtain ⟨rfl, -, hembed'⟩ := quiet_exec (prune_quiet hpresent) hprune'
    refine ⟨rfl, fun x hx => ?_⟩
    rcases List.mem_append.mp hx with hx | hx
    · exact hembed x hx
    · exact hembed' x hx

/-- The chunks a file was indexed with are its own, numbered in the order of its pages. -/
def Faithful (sv : IngestionService) (f : File) (payload : List (ChunkInput V)) : Prop :=
  ∃ pieces, sv.piecesOf (readPages f) = .ok pieces ∧
    payload.map (fun c => (c.page, c.content, c.tokenCount)) =
      pieces.map (fun p => (p.1, p.2.text, p.2.tokenCount)) ∧
    payload.map (·.chunkIndex) = List.range payload.length

theorem payloadOf_faithful {pieces : List (Option Nat × TextChunk)} {vectors : List V}
    {payload : List (ChunkInput V)} (hpieces : sv.piecesOf (readPages f) = .ok pieces)
    (h : payloadOf pieces vectors = some payload) : Faithful sv f payload := by
  unfold payloadOf at h
  split at h
  · rename_i hlength
    cases h
    have hfst : ((pieces.zip vectors).zipIdx.map fun x => x.1.1) = pieces := by
      rw [show (fun x : ((Option Nat × TextChunk) × V) × Nat => x.1.1) = Prod.fst ∘ Prod.fst from rfl,
        ← List.map_map, List.zipIdx_map_fst, List.map_fst_zip (Nat.le_of_eq hlength)]
    refine ⟨pieces, hpieces, ?_, ?_⟩
    · rw [List.map_map]
      conv_rhs => rw [← hfst, List.map_map]
      rfl
    · rw [List.map_map, List.length_map, List.length_zipIdx, List.range_eq_range',
        ← List.zipIdx_map_snd]
      rfl
  · cases h

/-! ## One file in an empty index -/

theorem returned_of_play {α : Type} [DecidableEq α] {n : Nat} {db db' : VectorStore Unit}
    {P : IngestM Unit α} {x : α}
    (h : ((play (ingestSem Unit) (List.replicate n Sample.answer) db none P).any fun y =>
      y.2.1.documents = db'.documents ∧ y.2.1.chunks = db'.chunks ∧ y.2.2.1.isNone ∧
        (match y.2.2.2 with
          | .ret z => decide (z = x)
          | .op _ _ => false) = true) = true) :
    ∃ tr, Exec (ingestSem Unit) db none P tr (.returned x) db' none := by
  obtain ⟨⟨tr, w, t, Q⟩, hplay, hend⟩ := (Option.any_eq_true _ _).mp h
  simp only [decide_eq_true_eq] at hend
  obtain ⟨hdocs, hchunks, hseen, hQ⟩ := hend
  obtain rfl := VectorStore.ext hdocs hchunks
  obtain rfl := Option.isNone_iff_eq_none.mp hseen
  cases Q with
  | op => cases hQ
  | ret z =>
    obtain rfl := of_decide_eq_true hQ
    exact ⟨tr, .of_play hplay .ret⟩

theorem supported_folder : Sample.folder.supported = [Sample.file] := by
  simp [Folder.supported, Sample.folder, Sample.file, lower, supportedSuffixes]

theorem indexes : ∃ tr, Exec (ingestSem Unit) Sample.empty none
    (Sample.service.ingestFile Sample.file false) tr
    (.returned ⟨"a.txt", .indexed, 1, none, none⟩) Sample.indexed none :=
  returned_of_play (n := 10) (by decide +kernel)

theorem prunes {db : VectorStore Unit} (h : db = Sample.empty ∨ db = Sample.indexed) :
    ∃ tr, Exec (ingestSem Unit) db none (prune Sample.folder.supported) tr (.returned []) db
      none := by
  rw [supported_folder]
  rcases h with rfl | rfl
  · exact returned_of_play (n := 2) (by decide +kernel)
  · exact returned_of_play (n := 2) (by decide +kernel)

/-- The file is found new, and is indexed. -/
theorem indexed_run : ∃ tr, DirectoryRun Sample.service false Sample.folder true Sample.empty
    [(Sample.file, .returned ⟨"a.txt", .indexed, 1, none, none⟩)]
    (.returned [⟨"a.txt", .indexed, 1, none, none⟩]) tr Sample.indexed := by
  obtain ⟨tr, hindex⟩ := indexes
  obtain ⟨tr', hprune⟩ := prunes (.inr rfl)
  exact ⟨_, .pruned rfl (.cons (.returned hindex) .nil) supported_folder.symm hprune⟩

/-- The embedding service is down. -/
theorem failed_run : ∃ tr, DirectoryRun Sample.service false Sample.folder true Sample.empty
    [(Sample.file, .caught [])] (.returned [failure "a.txt" []]) tr Sample.empty := by
  have hplay : ((play (ingestSem Unit) (List.replicate 3 Sample.answer) Sample.empty none
      (Sample.service.ingestFile Sample.file false)).any fun y =>
        match y.2.2.2 with
        | .op (.embedTexts _) _ => true
        | _ => false) = true := by decide +kernel
  obtain ⟨⟨tr, w, t, Q⟩, hplay, hend⟩ := (Option.any_eq_true _ _).mp hplay
  have hrun := Leaves.of_play hplay
  have hQ : Q.At fun _ => True := by
    cases Q with
    | ret => cases hend
    | op => exact True.intro
  obtain rfl := failed_keeps hrun hQ
  obtain ⟨tr', hprune⟩ := prunes (.inl rfl)
  exact ⟨_, .pruned rfl (.cons (.caught [] hrun hQ) .nil) supported_folder.symm hprune⟩

/-- A file whose embedding failed is embedded by the second run. -/
theorem failed_file_retried : ¬ ∀ (sv : IngestionService) (folder : Folder)
    (db db' db'' : VectorStore Unit) (fs fs' : List (File × Outcome))
    (results : List IngestionResult) (e : Ending (List IngestionResult))
    (tr tr' : List (Obs (ingestSig Unit))),
    DirectoryRun sv false folder true db fs (.returned results) tr db' →
    DirectoryRun sv false folder true db' fs' e tr' db'' →
    db'' = db' ∧ ∀ x ∈ tr', ¬IsEmbedding x.1 := by
  intro h
  obtain ⟨tr, hfirst⟩ := failed_run
  obtain ⟨tr', hsecond⟩ := indexed_run
  obtain ⟨hsame, -⟩ := h _ _ _ _ _ _ _ _ _ _ _ hfirst hsecond
  cases congrArg (fun db : VectorStore Unit => db.documents.length) hsame

/-- **Ingestion is atomic, and a second run finds nothing to do.** -/
theorem ingestion_atomic (V : Type) (sv : IngestionService) :
    (∀ (f : File) (force : Bool) (db db' : VectorStore V) (seen' : Option (VectorStore V))
      (o : Outcome) (tr : List (Obs (ingestSig V))), FileRun sv force f db none o tr db' seen' →
      ((∃ e, o = .caught e) → (o.result f.source).status = .failed) ∧
      ((o.result f.source).status = .failed → db' = db ∧ seen' = none) ∧
      ((o.result f.source).status = .indexed →
        ∃ payload, Faithful sv f payload ∧ Stored sv f payload db db' ∧ seen' = none ∧
          (o.result f.source).chunks = payload.length)) ∧
    (∀ (folder : Folder) (force : Bool) (db db' : VectorStore V) (fs : List (File × Outcome))
      (results : List IngestionResult) (tr : List (Obs (ingestSig V))),
      DirectoryRun sv force folder true db fs (.returned results) tr db' →
      (∀ s, (db'.find s).isSome ↔ ∃ x ∈ fs, x.1.source = s ∧ Kept db s (x.2.result s).status) ∧
      ((∀ x ∈ fs, ∀ e, x.2 = .caught e → Unchunkable sv x.1) →
        ∀ (fs' : List (File × Outcome)) (e : Ending (List IngestionResult))
          (tr' : List (Obs (ingestSig V))) (db'' : VectorStore V),
          DirectoryRun sv false folder true db' fs' e tr' db'' →
          db'' = db' ∧ ∀ x ∈ tr', ¬IsEmbedding x.1)) := by
  refine ⟨fun f force db db' seen' o tr h => ⟨?_, ?_, ?_⟩, fun folder force db db' fs results tr h =>
    ⟨h.index, fun hcaught fs' e tr' db'' h' => h.again hcaught h'⟩⟩
  · rintro ⟨e, rfl⟩
    rfl
  · intro hstatus
    obtain ⟨hseen, ⟨r, rfl, heffect⟩ | ⟨-, rfl⟩⟩ := h.effect
    · cases heffect with
      | noText | noChunks => exact ⟨rfl, hseen⟩
      | unchanged | skipped | withdrawn | indexed => cases hstatus
    · exact ⟨rfl, hseen⟩
  · intro hstatus
    obtain ⟨hseen, ⟨r, rfl, heffect⟩ | ⟨⟨e, rfl⟩, -⟩⟩ := h.effect
    · cases heffect with
      | indexed _ hpieces hpayload hstored =>
        exact ⟨_, payloadOf_faithful hpieces hpayload, hstored, hseen, rfl⟩
      | unchanged | noText | skipped | withdrawn | noChunks => cases hstatus
    · cases hstatus

theorem ingestion_atomic_indexed : ∃ (fs : List (File × Outcome)) (results : List IngestionResult)
    (tr : List (Obs (ingestSig Unit))),
    DirectoryRun Sample.service false Sample.folder true Sample.empty fs (.returned results) tr
      Sample.indexed ∧
    ∀ (fs' : List (File × Outcome)) (e : Ending (List IngestionResult))
      (tr' : List (Obs (ingestSig Unit))) (db'' : VectorStore Unit),
      DirectoryRun Sample.service false Sample.folder true Sample.indexed fs' e tr' db'' →
      db'' = Sample.indexed ∧ ∀ x ∈ tr', ¬IsEmbedding x.1 := by
  obtain ⟨tr, hrun⟩ := indexed_run
  refine ⟨_, _, tr, hrun, ((ingestion_atomic Unit Sample.service).2 _ _ _ _ _ _ _ hrun).2 ?_⟩
  intro x hx e he
  obtain rfl := List.mem_singleton.mp hx
  cases he

end Knowledge
