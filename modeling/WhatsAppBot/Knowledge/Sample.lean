import WhatsAppBot.Knowledge.Ingestion
import WhatsAppBot.Lib.SelfSync
import WhatsAppBot.Prompt.Sample

/-!
# Tokenizers and a folder to try things on

Every character is a token, or every byte. The folder holds one file, of one chunk.
-/

set_option autoImplicit false

namespace Knowledge.Sample

open Prompt

def tokenizer : Tokenizer := ⟨Char, some, id⟩

def byteTokenizer : Tokenizer := ⟨UInt8, fun s => some (Lib.encodeUtf8 s), Lib.decodeReplaced⟩

def service : IngestionService := ⟨Prompt.Sample.characters, tokenizer, id, 10, 0⟩

def file : File := ⟨"a.txt", "a", ".txt", "h", [], ['a', 'b']⟩

def folder : Folder := ⟨true, [file], by simp⟩

def empty : VectorStore Unit := ⟨[], [], by decide⟩

/-- The store with the file's document. -/
def indexed : VectorStore Unit :=
  ⟨[⟨1, "a.txt", ['a'], "h", 1⟩], [⟨⟨0, ['a', 'b'], 2, (), none⟩, 1⟩], by decide⟩

/-- What every operation is answered when nothing fails. -/
def answer (db : VectorStore Unit) (seen : Option (VectorStore Unit)) : (o : Op Unit) → Option o.Resp
  | .fileHash f => some f.contentHash
  | .readPages f => some (readPages f)
  | .embedTexts texts => some (texts.map fun _ => ())
  | .getBySource source => some ((seen.getD db).find source)
  | .listDocuments => some (seen.getD db).documents
  | .insertDocument _ _ _ => some (1 : Nat)
  | .raise => none
  | .updateDocument _ _ _ | .deleteDocument _ | .deleteChunks _ | .insertChunks _ | .setChunkCount _ _
  | .commit => some ()

end Knowledge.Sample
