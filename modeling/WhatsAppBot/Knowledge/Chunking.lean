import WhatsAppBot.Prompt.PricePolicy

/-!
# Chunking

`chunking.py`: `normalize_text` tidies up a page, `chunk_text` splits it into paragraphs, cuts the
oversized ones into windows of tokens and packs the pieces into chunks that overlap. `Tokenizer` is
tiktoken's encoding: `encode` raises (`none`) on the literal of a special token.
-/

set_option autoImplicit false

namespace Knowledge

open Lib Prompt

structure Tokenizer where
  Token : Type
  encode : Text → Option (List Token)
  decode : List Token → Text

structure TextChunk where
  text : Text
  tokenCount : Nat
  deriving DecidableEq

inductive ChunkError where
  /-- `max_tokens must be positive`. -/
  | maxTokens
  | specialToken
  deriving DecidableEq

/-! ## Text -/

/-- `(\w)-\n(\w)`. -/
def hyphenated (u : Unicode) : Pattern Char :=
  ⟨.one u.word, .all [.one (· = '-'), .one (· = '\n')], .one u.word⟩

/-- `\1\2` for a hyphenated word. -/
def unhyphenated (whole _ : Text) : Text := whole.take 1 ++ whole.drop 3

/-- `(?<!\n)\n(?!\n)` becomes a space; `behind` says whether a line break is behind. -/
def unwrapLines : Bool → Text → Text
  | _, [] => []
  | behind, c :: s =>
    (if c = '\n' ∧ behind = false ∧ s.head? ≠ some '\n' then ' ' else c) :: unwrapLines (c = '\n') s

/-- `[ \t]+` becomes a space; `within` says whether the run has begun. -/
def squeeze : Bool → Text → Text
  | _, [] => []
  | within, c :: s =>
    if c = ' ' ∨ c = '\t' then
      if within then squeeze true s else ' ' :: squeeze true s
    else c :: squeeze false s

/-- `normalize_text`. -/
def normalizeText (u : Unicode) (text : Text) : Text :=
  let text := replace ['\r'] ['\n'] (replace ['\r', '\n'] ['\n'] text)
  let text := (hyphenated u).sub u.word unhyphenated text
  stripText (squeeze false (unwrapLines false text))

/-- `_PARAGRAPH_SPLIT`. -/
def paragraphBreak : Re Char := .all [.one (· = '\n'), spaces, .one (· = '\n')]

/-- The paragraphs of a normalised text, without the blank ones. -/
def paragraphs (u : Unicode) (cleaned : Text) : List Text :=
  ((paragraphBreak.split u.word cleaned).map stripText).filter (· ≠ [])

/-! ## Tokens -/

section

variable {α : Type}

/-- The loop of `_windows`, for at most the given number of rounds. -/
def windowsFrom (tokens : List α) (size step : Nat) : Nat → Nat → List (List α)
  | 0, _ => []
  | n + 1, start =>
    if start < tokens.length then
      (tokens.drop start).take size :: windowsFrom tokens size step n (start + step)
    else []

/-- `_windows`. Every round moves on, so there are no more rounds than tokens. -/
def windows (tokens : List α) (size step : Nat) : List (List α) :=
  windowsFrom tokens size step tokens.length 0

/-- `current[-overlap:] if overlap else []`. -/
def tailOf (overlap : Nat) (current : List α) : List α :=
  if overlap ≠ 0 then current.drop (current.length - overlap) else []

/-- `current + separator + unit if current else list(unit)`. -/
def extend (separator current unit : List α) : List α :=
  if current ≠ [] then current ++ separator ++ unit else unit

/-- The packing loop, with the chunk under construction. -/
def pack (separator : List α) (maxTokens overlap : Nat) : List α → List (List α) → List (List α)
  | current, [] => if current ≠ [] then [current] else []
  | current, unit :: units =>
    if current ≠ [] ∧ current.length + separator.length + unit.length > maxTokens then
      current :: pack separator maxTokens overlap
        (extend separator (tailOf overlap current) unit) units
    else pack separator maxTokens overlap (extend separator current unit) units

/-- What a paragraph is packed as: an oversized one in windows, with room for the overlap and the
separator. -/
def unitsOf (sepLength maxTokens overlap : Nat) (tokens : List α) : List (List α) :=
  if tokens.length ≤ maxTokens then [tokens]
  else
    let windowSize := max 1 (maxTokens - overlap - sepLength)
    windows tokens windowSize (max 1 (windowSize - overlap))

end

/-! ## `chunk_text` -/

namespace Tokenizer

variable (tk : Tokenizer)

/-- The tokens of the separator and of each paragraph. -/
def encodeAll (ps : List Text) : Option (List tk.Token × List (List tk.Token)) := do
  let separator ← tk.encode "\n\n".toList
  let tokens ← ps.mapM tk.encode
  pure (separator, tokens)

/-- The chunks before they are decoded. -/
def tokenChunks (maxTokens overlap : Nat) (separator : List tk.Token)
    (tokens : List (List tk.Token)) : List (List tk.Token) :=
  pack separator maxTokens overlap [] (tokens.flatMap (unitsOf separator.length maxTokens overlap))

/-- A chunk that is blank is dropped. -/
def chunkOf (tokens : List tk.Token) : Option TextChunk :=
  let decoded := stripText (tk.decode tokens)
  if decoded ≠ [] then some ⟨decoded, tokens.length⟩ else none

/-- `max(0, min(overlap_tokens, max_tokens - 1))`. -/
def overlapOf (maxTokens overlapTokens : Int) : Nat := (max 0 (min overlapTokens (maxTokens - 1))).toNat

/-- `chunk_text`. -/
def chunkText (u : Unicode) (text : Text) (maxTokens overlapTokens : Int) :
    Except ChunkError (List TextChunk) :=
  if maxTokens ≤ 0 then .error .maxTokens
  else
    let cleaned := normalizeText u text
    if cleaned = [] then .ok []
    else
      match tk.encodeAll (paragraphs u cleaned) with
      | none => .error .specialToken
      | some (separator, tokens) =>
        .ok ((tk.tokenChunks maxTokens.toNat (overlapOf maxTokens overlapTokens) separator
          tokens).filterMap tk.chunkOf)

end Tokenizer

end Knowledge
