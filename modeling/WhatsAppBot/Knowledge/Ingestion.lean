import WhatsAppBot.Knowledge.Chunking
import WhatsAppBot.Lib.Exec
import WhatsAppBot.Prompt.Texts

/-!
# Ingestion

`ingestion.py`, with what it uses of `repositories/document.py` and `knowledge_guard.py`. A file is
what reading it gives. The operations are the reads of the file, the embedding service and the
statements on the vector store, of embeddings `V`; the store's constraints travel with it, and a
statement that would break one raises.
-/

set_option autoImplicit false

namespace Knowledge

open Lib Prompt

/-! ## Files -/

structure File where
  /-- Its path below the folder. -/
  source : String
  stem : String
  suffix : String
  /-- `file_hash`. -/
  contentHash : String
  /-- What the PDF reader extracts, page by page. -/
  extracted : List Text
  /-- Its bytes read as UTF-8. -/
  decoded : Text

def lower (suffix : String) : String := String.ofList (suffix.toList.map Char.toLower)

/-- `SUPPORTED_SUFFIXES`. -/
def supportedSuffixes : List String := [".pdf", ".md", ".txt"]

abbrev Page := Option Nat × Text

/-- `_read_pdf`. -/
def readPdf (f : File) : List Page :=
  (f.extracted.zipIdx 1).filterMap fun page =>
    let text := stripText page.1
    if text ≠ [] then some (some page.2, text) else none

/-- `read_pages`. -/
def readPages (f : File) : List Page :=
  if lower f.suffix = ".pdf" then readPdf f
  else
    let text := stripText f.decoded
    if text ≠ [] then [(none, text)] else []

/-! ## Unfinished documents -/

/-- `PLACEHOLDER_MARKER`. -/
def placeholderMarker : Text := "[[TODO]]".toList

/-- `is_unfilled`. -/
def isUnfilled (text : Text) : Bool := placeholderMarker <:+: text

/-- `describe`. The marker does not overlap itself. -/
def describe (text : Text) : Text :=
  let remaining := occurrences placeholderMarker text
  (toString remaining).toList ++ " unfilled ".toList ++ placeholderMarker ++ " placeholder".toList ++
    (if remaining = 1 then [] else ['s'])

/-! ## The vector store -/

structure Document where
  id : Nat
  source : String
  title : Text
  contentHash : String
  chunkCount : Nat
  deriving DecidableEq

structure ChunkInput (V : Type) where
  chunkIndex : Nat
  content : Text
  tokenCount : Nat
  embedding : V
  page : Option Nat
  deriving DecidableEq

structure DocumentChunk (V : Type) extends ChunkInput V where
  documentId : Nat
  deriving DecidableEq

variable {V : Type}

/-- The keys of the two tables. -/
structure Constraints (documents : List Document) (chunks : List (DocumentChunk V)) : Prop where
  ids : (documents.map (·.id)).Nodup
  sources : (documents.map (·.source)).Nodup
  positions : (chunks.map fun c => (c.documentId, c.chunkIndex)).Nodup
  owned : ∀ c ∈ chunks, c.documentId ∈ documents.map (·.id)

instance (documents : List Document) (chunks : List (DocumentChunk V)) :
    Decidable (Constraints documents chunks) :=
  decidable_of_iff
    ((documents.map (·.id)).Nodup ∧ (documents.map (·.source)).Nodup ∧
      (chunks.map fun c => (c.documentId, c.chunkIndex)).Nodup ∧
      ∀ c ∈ chunks, c.documentId ∈ documents.map (·.id))
    ⟨fun h => ⟨h.1, h.2.1, h.2.2.1, h.2.2.2⟩, fun h => ⟨h.ids, h.sources, h.positions, h.owned⟩⟩

@[ext]
structure VectorStore (V : Type) where
  documents : List Document
  chunks : List (DocumentChunk V)
  constraints : Constraints documents chunks

namespace VectorStore

/-- `get_by_source`. -/
def find (db : VectorStore V) (source : String) : Option Document :=
  db.documents.find? (·.source = source)

def chunksOf (db : VectorStore V) (documentId : Nat) : List (DocumentChunk V) :=
  db.chunks.filter (·.documentId = documentId)

/-- What a statement makes of the tables, unless it breaks a constraint. -/
def write (db : VectorStore V) (f : List Document → List Document)
    (g : List (DocumentChunk V) → List (DocumentChunk V)) : Option (VectorStore V) :=
  if h : Constraints (f db.documents) (g db.chunks) then some ⟨_, _, h⟩ else none

end VectorStore

/-! ## Operations -/

inductive Op (V : Type) where
  | fileHash (f : File)
  | readPages (f : File)
  | embedTexts (texts : List Text)
  | getBySource (source : String)
  | listDocuments
  | insertDocument (source : String) (title : Text) (contentHash : String)
  | updateDocument (id : Nat) (title : Text) (contentHash : String)
  | deleteDocument (id : Nat)
  | deleteChunks (documentId : Nat)
  | insertChunks (rows : List (DocumentChunk V))
  | setChunkCount (id count : Nat)
  | commit
  /-- An exception of the program's own. -/
  | raise

def Op.Resp : Op V → Type
  | .fileHash _ => String
  | .readPages _ => List Page
  | .embedTexts _ => List V
  | .getBySource _ => Option Document
  | .listDocuments => List Document
  | .insertDocument _ _ _ => Nat
  | .raise => Empty
  | _ => Unit

def ingestSig (V : Type) : Sig := ⟨Op V, Op.Resp⟩

abbrev IngestM (V α : Type) := Prog (ingestSig V) α

def perform (o : Op V) : IngestM V o.Resp := Prog.call (S := ingestSig V) o

def raiseError {α : Type} : IngestM V α := .op Op.raise Empty.elim

/-! ## The repository -/

/-- `upsert`. The row's id. -/
def upsert (source : String) (title : Text) (contentHash : String) : IngestM V Nat := do
  match ← perform (.getBySource source) with
  | none => perform (.insertDocument source title contentHash)
  | some document =>
    perform (.updateDocument document.id title contentHash)
    pure document.id

/-- `replace_chunks`. -/
def replaceChunks (documentId : Nat) (chunks : List (ChunkInput V)) : IngestM V Unit := do
  perform (.deleteChunks documentId)
  perform (.insertChunks (chunks.map fun c => ⟨c, documentId⟩))
  perform (.setChunkCount documentId chunks.length)

/-- `delete_by_source`. -/
def deleteBySource (source : String) : IngestM V Bool := do
  match ← perform (.getBySource source) with
  | none => pure false
  | some document =>
    perform (.deleteDocument document.id)
    pure true

/-! ## `ingest_file` -/

inductive Status where
  | indexed
  | unchanged
  | skipped
  | removed
  | failed
  deriving DecidableEq

structure IngestionResult where
  source : String
  status : Status
  chunks : Nat
  error : Option Text
  note : Option Text
  deriving DecidableEq

def failure (source : String) (error : Text) : IngestionResult :=
  ⟨source, .failed, 0, some error, none⟩

def noText : Text := "no extractable text (scanned PDF? needs OCR)".toList

def noChunks : Text := "produced no chunks".toList

def removedNote : Text := "; removed from the index".toList

/-- `KnowledgeIngestionService`, with the settings and the libraries it uses. -/
structure IngestionService where
  unicode : Unicode
  tokenizer : Tokenizer
  /-- `str.title`. -/
  titled : Text → Text
  chunkMaxTokens : ℤ
  chunkOverlapTokens : ℤ

/-- `zip(strict=True)` and `enumerate`. -/
def payloadOf (pieces : List (Option Nat × TextChunk)) (vectors : List V) :
    Option (List (ChunkInput V)) :=
  if pieces.length = vectors.length then
    some (((pieces.zip vectors).zipIdx).map fun x =>
      ⟨x.2, x.1.1.2.text, x.1.1.2.tokenCount, x.1.2, x.1.1.1⟩)
  else none

namespace IngestionService

variable (sv : IngestionService)

/-- `humanize`. -/
def humanize (stem : String) : Text :=
  let title := sv.titled (stripText (replace ['-'] [' '] (replace ['_'] [' '] stem.toList)))
  if title ≠ [] then title else stem.toList

/-- The chunks of the pages, each with its page. -/
def piecesOf (pages : List Page) : Except ChunkError (List (Option Nat × TextChunk)) :=
  (pages.mapM fun page =>
    (sv.tokenizer.chunkText sv.unicode page.2 sv.chunkMaxTokens sv.chunkOverlapTokens).map
      fun chunks => chunks.map fun c => (page.1, c)).map List.flatten

/-- `ingest_file` once the chunks are embedded. -/
def store (f : File) (contentHash : String) (payload : List (ChunkInput V)) :
    IngestM V IngestionResult := do
  let documentId ← upsert f.source (sv.humanize f.stem) contentHash
  replaceChunks documentId payload
  perform .commit
  pure ⟨f.source, .indexed, payload.length, none, none⟩

/-- `ingest_file` once the pages are read and nothing is left to fill in. -/
def index (f : File) (contentHash : String) (pages : List Page) : IngestM V IngestionResult :=
  match sv.piecesOf pages with
  | .error _ => raiseError
  | .ok [] => pure (failure f.source noChunks)
  | .ok pieces => do
    let vectors ← perform (.embedTexts (pieces.map fun piece => piece.2.text))
    match payloadOf pieces vectors with
    | none => raiseError
    | some payload => sv.store f contentHash payload

end IngestionService

/-- `ingest_file` for a file with slots left to fill in. -/
def skip (f : File) (existing : Option Document) (fullText : Text) : IngestM V IngestionResult :=
  match existing with
  | none => pure ⟨f.source, .skipped, 0, none, some (describe fullText)⟩
  | some _ => do
    let _ ← deleteBySource f.source
    perform .commit
    pure ⟨f.source, .skipped, 0, none, some (describe fullText ++ removedNote)⟩

/-- The text of all pages. -/
def fullText (pages : List Page) : Text := joinLines (pages.map (·.2))

namespace IngestionService

variable (sv : IngestionService)

/-- `ingest_file` once the pages are read. -/
def ingestPages (f : File) (contentHash : String) (existing : Option Document) (pages : List Page) :
    IngestM V IngestionResult :=
  if pages = [] then pure (failure f.source noText)
  else if isUnfilled (fullText pages) then skip f existing (fullText pages)
  else sv.index f contentHash pages

/-- `ingest_file`, without what catches its exceptions. -/
def ingestFile (f : File) (force : Bool) : IngestM V IngestionResult := do
  let contentHash : String ← perform (.fileHash f)
  let existing : Option Document ← perform (.getBySource f.source)
  match existing.filter fun document => document.contentHash == contentHash && !force with
  | some document => pure ⟨f.source, .unchanged, document.chunkCount, none, none⟩
  | none =>
    let pages ← perform (.readPages f)
    sv.ingestPages f contentHash existing pages

end IngestionService

/-! ## `ingest_directory` -/

/-- The files under the folder in order, if it is one. -/
structure Folder where
  isDir : Bool
  files : List File
  sources : (files.map (·.source)).Nodup

def Folder.supported (folder : Folder) : List File :=
  folder.files.filter fun f => lower f.suffix ∈ supportedSuffixes

def removed (source : String) : IngestionResult := ⟨source, .removed, 0, none, none⟩

/-- The loop that removes what is not present any more. -/
def removeAbsent (present : List String) : List Document → IngestM V (List IngestionResult)
  | [] => pure []
  | document :: documents =>
    if document.source ∈ present then removeAbsent present documents
    else do
      let _ ← deleteBySource document.source
      let results ← removeAbsent present documents
      pure (removed document.source :: results)

def prune (files : List File) : IngestM V (List IngestionResult) := do
  let documents ← perform .listDocuments
  let results ← removeAbsent (files.map (·.source)) documents
  perform .commit
  pure results

/-! ## Running it -/

/-- The committed store and, once the session has written, what it sees of it. Reading a file and
embedding leave both alone. -/
def serve (db : VectorStore V) (seen : Option (VectorStore V)) : (o : Op V) → o.Resp →
    Option (VectorStore V × Option (VectorStore V))
  | .fileHash f, (r : String) => if r = f.contentHash then some (db, seen) else none
  | .readPages f, (r : List Page) => if r = readPages f then some (db, seen) else none
  | .embedTexts _, _ => some (db, seen)
  | .getBySource source, (r : Option Document) =>
    if r = (seen.getD db).find source then some (db, seen) else none
  | .listDocuments, (r : List Document) =>
    if r.Perm (seen.getD db).documents then some (db, seen) else none
  | .insertDocument source title contentHash, id =>
    ((seen.getD db).write (· ++ [⟨id, source, title, contentHash, 0⟩]) fun cs => cs).map
      fun new => (db, some new)
  | .updateDocument id title contentHash, _ =>
    ((seen.getD db).write (·.map fun d =>
      if d.id = id then { d with title := title, contentHash := contentHash } else d) fun cs => cs).map
      fun new => (db, some new)
  | .deleteDocument id, _ =>
    ((seen.getD db).write (·.filter (·.id ≠ id)) (·.filter (·.documentId ≠ id))).map
      fun new => (db, some new)
  | .deleteChunks id, _ =>
    ((seen.getD db).write (fun ds => ds) (·.filter (·.documentId ≠ id))).map fun new => (db, some new)
  | .insertChunks rows, _ =>
    ((seen.getD db).write (fun ds => ds) (· ++ rows)).map fun new => (db, some new)
  | .setChunkCount id count, _ =>
    ((seen.getD db).write (·.map fun d => if d.id = id then { d with chunkCount := count } else d)
      fun cs => cs).map fun new => (db, some new)
  | .commit, _ => some (seen.getD db, none)
  | .raise, r => r.elim

def ingestSem (V : Type) : Sem (ingestSig V) (VectorStore V) (Option (VectorStore V)) Empty where
  idle := none
  program := nofun
  step _ db seen o r := serve db seen o r

/-- How `ingest_file` comes by its result. -/
inductive Outcome where
  | returned (r : IngestionResult)
  /-- An operation raised, with the text of the exception. -/
  | caught (error : Text)

def Outcome.result (source : String) : Outcome → IngestionResult
  | .returned r => r
  | .caught error => failure source error

variable (sv : IngestionService) (force : Bool)

/-- A run of `ingest_file` with its operations. Any operation can raise, and then has no effect; the
session is rolled back. -/
inductive FileRun (f : File) : VectorStore V → Option (VectorStore V) → Outcome →
    List (Obs (ingestSig V)) → VectorStore V → Option (VectorStore V) → Prop
  | returned {db db' : VectorStore V} {seen seen' : Option (VectorStore V)} {r : IngestionResult}
      {tr : List (Obs (ingestSig V))} :
      Exec (ingestSem V) db seen (sv.ingestFile f force) tr (.returned r) db' seen' →
      FileRun f db seen (.returned r) tr db' seen'
  | caught {db db' : VectorStore V} {seen seen' : Option (VectorStore V)}
      {tr : List (Obs (ingestSig V))} {rest : IngestM V IngestionResult} (error : Text) :
      Leaves (ingestSem V) db seen (sv.ingestFile f force) tr db' seen' rest →
      rest.At (fun _ => True) → FileRun f db seen (.caught error) tr db' none

/-- The runs over a list of files, with one session. -/
inductive FilesRun : VectorStore V → Option (VectorStore V) → List (File × Outcome) →
    List (Obs (ingestSig V)) → VectorStore V → Option (VectorStore V) → Prop
  | nil {db : VectorStore V} {seen : Option (VectorStore V)} : FilesRun db seen [] [] db seen
  | cons {db db' db'' : VectorStore V} {seen seen' seen'' : Option (VectorStore V)} {f : File}
      {o : Outcome} {fs : List (File × Outcome)} {tr tr' : List (Obs (ingestSig V))} :
      FileRun sv force f db seen o tr db' seen' → FilesRun db' seen' fs tr' db'' seen'' →
      FilesRun db seen ((f, o) :: fs) (tr ++ tr') db'' seen''

/-- The results of the files of a run. -/
def resultsOf (fs : List (File × Outcome)) : List IngestionResult :=
  fs.map fun x => x.2.result x.1.source

/-- What `ingest_directory` ends with, given how the pruning ended. -/
def reported (fs : List (File × Outcome)) : Ending (List IngestionResult) →
    Ending (List IngestionResult)
  | .returned results => .returned (resultsOf fs ++ results)
  | e => e

/-- A run of `ingest_directory` with its operations; `fs` is what became of the files. -/
inductive DirectoryRun (folder : Folder) : Bool → VectorStore V → List (File × Outcome) →
    Ending (List IngestionResult) → List (Obs (ingestSig V)) → VectorStore V → Prop
  /-- `Knowledge folder not found`. -/
  | notFound {withPrune : Bool} {db : VectorStore V} :
      folder.isDir = false → DirectoryRun folder withPrune db [] .raised [] db
  | kept {db db' : VectorStore V} {seen : Option (VectorStore V)} {fs : List (File × Outcome)}
      {tr : List (Obs (ingestSig V))} :
      folder.isDir = true → FilesRun sv force db none fs tr db' seen →
      fs.map Prod.fst = folder.supported →
      DirectoryRun folder false db fs (.returned (resultsOf fs)) tr db'
  | pruned {db db' db'' : VectorStore V} {seen seen' : Option (VectorStore V)}
      {fs : List (File × Outcome)} {e : Ending (List IngestionResult)}
      {tr tr' : List (Obs (ingestSig V))} :
      folder.isDir = true → FilesRun sv force db none fs tr db' seen →
      fs.map Prod.fst = folder.supported →
      Exec (ingestSem V) db' seen (prune folder.supported) tr' e db'' seen' →
      DirectoryRun folder true db fs (reported fs e) (tr ++ tr') db''

end Knowledge
