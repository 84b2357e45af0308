import WhatsAppBot.Knowledge.Proof.Coverage
import WhatsAppBot.Lib.SelfSync

/-!
# Where the chunks are source text

A tokenizer of bytes can cut a character: `_windows` cuts an oversized paragraph at any token, and so
does the overlap. `chunkText_source_iff`: the chunks are source text when no cut is inside a character,
and where the input has no U+FFFD only then.
-/

set_option autoImplicit false

namespace Knowledge

open Lib Prompt

/-! ## Pieces -/

/-- What stands between separators, a run without a line break, is a run of the source. -/
def FromSource (source text : Text) : Prop :=
  ∀ piece, '\n' ∉ piece → piece <:+: text → piece <:+: source

theorem infix_append_cons {α : Type} {a : α} {p x y : List α} (ha : a ∉ p)
    (h : p <:+: x ++ a :: y) : p <:+: x ∨ p <:+: y := by
  obtain ⟨s, t, hst⟩ := h
  rcases List.append_eq_append_iff.mp hst with ⟨k, hx, -⟩ | ⟨k, hsp, hk⟩
  · exact .inl ⟨s, k, hx.symm⟩
  cases k with
  | nil => exact .inl ⟨s, [], by simpa using hsp⟩
  | cons b k =>
    obtain ⟨rfl, rfl⟩ := List.cons.inj hk
    -- the symbol is behind what comes before the piece or inside the piece
    rcases List.append_eq_append_iff.mp hsp with ⟨m, -, hp⟩ | ⟨m, -, hm⟩
    · exact absurd (by rw [hp]; simp) ha
    · cases m with
      | nil => exact absurd (by rw [← List.nil_append p, ← hm]; simp) ha
      | cons c m =>
        obtain ⟨-, rfl⟩ := List.cons.inj hm
        exact .inr ⟨m, t, rfl⟩

namespace FromSource

variable {source s t : Text}

theorem of_infix (h : s <:+: source) : FromSource source s := fun _ _ hp => hp.trans h

theorem mono (h : FromSource source s) (hts : t <:+: s) : FromSource source t :=
  fun piece hn hp => h piece hn (hp.trans hts)

theorem separated (hs : FromSource source s) (ht : FromSource source t) :
    FromSource source (s ++ "\n\n".toList ++ t) := by
  intro piece hn hp
  have hp : piece <:+: s ++ '\n' :: '\n' :: t := by simpa using hp
  rcases infix_append_cons hn hp with hp | hp
  · exact hs piece hn hp
  · rcases infix_append_cons (x := []) hn hp with hp | hp
    · rw [List.infix_nil.mp hp]
      exact List.nil_infix
    · exact ht piece hn hp

end FromSource

theorem infix_stripText_self (s : Text) : stripText s <:+: s := by
  rw [stripText_eq]
  have hback : ((s.dropWhile isSpace).reverse.dropWhile isSpace).reverse <+: s.dropWhile isSpace := by
    have h := List.dropWhile_suffix (l := (s.dropWhile isSpace).reverse) isSpace
    simpa using List.reverse_prefix.mpr h
  exact hback.isInfix.trans (List.dropWhile_suffix isSpace).isInfix

theorem mem_stripText {s : Text} {c : Char} (hc : isSpace c = false) (h : c ∈ s) :
    c ∈ stripText s := by
  have hdrop : ∀ t : Text, c ∈ t → c ∈ t.dropWhile isSpace := by
    intro t ht
    rw [← List.takeWhile_append_dropWhile (p := isSpace) (l := t)] at ht
    rcases List.mem_append.mp ht with ht | ht
    · have hspace := List.all_eq_true.mp List.all_takeWhile c ht
      rw [hc] at hspace
      cases hspace
    · exact ht
  rw [stripText_eq, List.mem_reverse]
  exact hdrop _ (List.mem_reverse.mpr (hdrop s h))

/-! ## What is done to a text -/

theorem infix_of_mem_splitFrom {word : Char → Bool} {r : Re Char} (skip : Nat) (w : Bool) (s : Text) :
    (∀ piece ∈ r.splitFrom word skip w s, piece <:+: s) ∧
      (skip = 0 → ∀ piece ∈ (r.splitFrom word skip w s).head?, piece <+: s) := by
  induction s generalizing skip w with
  | nil => cases skip <;> simp [Re.splitFrom]
  | cons c s ih =>
    cases skip with
    | succ skip =>
      refine ⟨fun piece hp => ?_, fun h => absurd h (Nat.succ_ne_zero skip)⟩
      exact ((ih skip (word c)).1 piece hp).trans (List.suffix_cons c s).isInfix
    | zero =>
      unfold Re.splitFrom
      split
      · rename_i last _
        refine ⟨fun piece hp => ?_, fun _ piece hp => ?_⟩
        · rcases List.mem_cons.mp hp with rfl | hp
          · exact List.nil_infix
          · exact ((ih _ (word c)).1 piece hp).trans (List.suffix_cons c s).isInfix
        · obtain rfl := Option.some.inj hp
          exact List.nil_prefix
      · obtain ⟨hall, hhead⟩ := ih 0 (word c)
        cases hsplit : r.splitFrom word 0 (word c) s with
        | nil => simp
        | cons first pieces =>
          have hfirst : c :: first <+: c :: s :=
            List.cons_prefix_cons.mpr ⟨rfl, hhead rfl first (by rw [hsplit]; rfl)⟩
          refine ⟨fun piece hp => ?_, fun _ piece hp => ?_⟩
          · rcases List.mem_cons.mp hp with rfl | hp
            · exact hfirst.isInfix
            · have hpiece := hall piece (by rw [hsplit]; exact List.mem_cons_of_mem _ hp)
              exact hpiece.trans (List.suffix_cons c s).isInfix
          · obtain rfl := Option.some.inj hp
            exact hfirst

/-- A paragraph is part of the text. -/
theorem infix_of_mem_paragraphs {u : Unicode} {cleaned p : Text} (h : p ∈ paragraphs u cleaned) :
    p <:+: cleaned := by
  obtain ⟨q, hq, rfl⟩ := List.mem_map.mp (List.mem_filter.mp h).1
  exact (infix_stripText_self q).trans ((infix_of_mem_splitFrom 0 false cleaned).1 q hq)

theorem mem_subFrom {word : Char → Bool} {p : Pattern Char} {f : Text → Text → Text}
    (hf : ∀ whole group, ∀ c ∈ f whole group, c ∈ whole) {c : Char} (skip : Nat) (w : Bool) (s : Text)
    (h : c ∈ p.subFrom word f skip w s) : c ∈ s := by
  induction s generalizing skip w with
  | nil => cases skip <;> simp [Pattern.subFrom] at h
  | cons a s ih =>
    cases skip with
    | succ skip => exact List.mem_cons_of_mem _ (ih skip _ h)
    | zero =>
      unfold Pattern.subFrom at h
      split at h
      · rename_i whole group hfind
        rcases List.mem_append.mp h with h | h
        · obtain ⟨start, -, hmem⟩ := List.mem_flatMap.mp (List.mem_of_mem_head? hfind)
          obtain ⟨close, -, hmem⟩ := List.mem_flatMap.mp hmem
          obtain ⟨last, -, hpair⟩ := List.mem_map.mp hmem
          obtain ⟨rfl, rfl⟩ := Prod.mk.inj hpair
          exact List.mem_of_mem_take (hf _ _ c h)
        · exact List.mem_cons_of_mem _ (ih _ _ h)
      · rcases List.mem_cons.mp h with rfl | h
        · exact List.mem_cons_self
        · exact List.mem_cons_of_mem _ (ih 0 _ h)

theorem mem_squeeze {c : Char} (hc : c ≠ ' ') (within : Bool) (s : Text)
    (h : c ∈ squeeze within s) : c ∈ s := by
  induction s generalizing within with
  | nil => simp [squeeze] at h
  | cons a s ih =>
    unfold squeeze at h
    split at h
    · split at h
      · exact List.mem_cons_of_mem _ (ih true h)
      · exact List.mem_cons_of_mem _ (ih true ((List.mem_cons.mp h).resolve_left hc))
    · rcases List.mem_cons.mp h with rfl | h
      · exact List.mem_cons_self
      · exact List.mem_cons_of_mem _ (ih false h)

theorem mem_unwrapLines {c : Char} (hc : c ≠ ' ') (behind : Bool) (s : Text)
    (h : c ∈ unwrapLines behind s) : c ∈ s := by
  induction s generalizing behind with
  | nil => simp [unwrapLines] at h
  | cons a s ih =>
    rcases List.mem_cons.mp h with h | h
    · split at h
      · exact absurd h hc
      · exact h ▸ List.mem_cons_self
    · exact List.mem_cons_of_mem _ (ih _ h)

/-- A normalised text has no characters of its own but spaces and line breaks. -/
theorem mem_normalizeText {u : Unicode} {text : Text} {c : Char} (hs : c ≠ ' ') (hn : c ≠ '\n')
    (h : c ∈ normalizeText u text) : c ∈ text := by
  have hbreak : ∀ {old s : Text}, old ≠ [] → c ∈ replace old ['\n'] s → c ∈ s := fun ho hc =>
    (mem_replace ho hc).resolve_right (by simpa using hn)
  have hunit : ∀ whole group, ∀ a ∈ unhyphenated whole group, a ∈ whole := by
    intro whole group a ha
    rcases List.mem_append.mp ha with ha | ha
    · exact List.mem_of_mem_take ha
    · exact List.mem_of_mem_drop ha
  have h := (infix_stripText_self _).subset h
  have h := mem_unwrapLines hs false _ (mem_squeeze hs false _ h)
  have h := mem_subFrom hunit 0 false _ h
  exact hbreak (by simp) (hbreak (by simp) h)

/-! ## The packing loop -/

section

variable {α : Type} {sep cur unit : List α} {maxTokens overlap : Nat}

/-- Wherever the loop starts a new chunk, what it carries over is `whole`. -/
def CarriesWhole (whole : List α → Prop) (sep : List α) (maxTokens overlap : Nat) :
    List α → List (List α) → Prop
  | _, [] => True
  | cur, unit :: units =>
    if cur ≠ [] ∧ cur.length + sep.length + unit.length > maxTokens then
      whole (tailOf overlap cur) ∧
        CarriesWhole whole sep maxTokens overlap (extend sep (tailOf overlap cur) unit) units
    else CarriesWhole whole sep maxTokens overlap (extend sep cur unit) units

/-- The chunks are whole exactly when all they are made of is. -/
theorem pack_whole_iff {whole : List α → Prop} (hnil : whole [])
    (hextend : ∀ cur unit, whole (extend sep cur unit) ↔ whole cur ∧ whole unit)
    {units : List (List α)} :
    (∀ c ∈ pack sep maxTokens overlap cur units, whole c) ↔
      whole cur ∧ (∀ u ∈ units, whole u) ∧ CarriesWhole whole sep maxTokens overlap cur units := by
  induction units generalizing cur with
  | nil =>
    by_cases hcur : cur = []
    · subst hcur
      simp [pack, CarriesWhole, hnil]
    · simp [pack, CarriesWhole, hcur]
  | cons u units ih =>
    unfold pack CarriesWhole
    split
    · rw [List.forall_mem_cons, List.forall_mem_cons, ih, hextend]
      tauto
    · rw [List.forall_mem_cons, ih, hextend]
      tauto

/-- What units and carried tails satisfy, the chunks do. -/
theorem pack_forall {whole good : List α → Prop}
    (hextend : ∀ cur unit, good cur → good unit → good (extend sep cur unit))
    (htail : ∀ cur, good cur → whole (tailOf overlap cur) → good (tailOf overlap cur))
    {units : List (List α)} (hcur : good cur) (hunits : ∀ u ∈ units, good u)
    (hcarries : CarriesWhole whole sep maxTokens overlap cur units) :
    ∀ c ∈ pack sep maxTokens overlap cur units, good c := by
  induction units generalizing cur with
  | nil =>
    intro c hc
    unfold pack at hc
    split at hc
    · exact List.mem_singleton.mp hc ▸ hcur
    · cases hc
  | cons u units ih =>
    obtain ⟨hu, hrest⟩ := List.forall_mem_cons.mp hunits
    unfold CarriesWhole at hcarries
    unfold pack
    split at hcarries
    · rename_i hflush
      rw [if_pos hflush, List.forall_mem_cons]
      exact ⟨hcur, ih (hextend _ u (htail cur hcur hcarries.1) hu) hrest hcarries.2⟩
    · rename_i hgo
      rw [if_neg hgo]
      exact ih (hextend cur u hcur hu) hrest hcarries

theorem infix_of_mem_unitsOf {sepLength : Nat} {tokens : List α}
    (h : unit ∈ unitsOf sepLength maxTokens overlap tokens) : unit <:+: tokens := by
  unfold unitsOf at h
  split at h
  · rw [List.mem_singleton.mp h]
  · exact (of_mem_windows (by omega) h).1

end

namespace Tokenizer

variable (tk : Tokenizer)

/-- Tokens are bytes of a text in UTF-8: encoding divides the bytes up among tokens, decoding puts them
together and reads bytes that are no text with U+FFFD among the characters. -/
structure ByteLevel (bytes : tk.Token → List UInt8) : Prop where
  encode : ∀ s ts, tk.encode s = some ts → ts.flatMap bytes = encodeUtf8 s
  decode : ∀ s ts, ts.flatMap bytes = encodeUtf8 s → tk.decode ts = s
  replaced : ∀ ts, ¬Whole String.utf8EncodeChar (ts.flatMap bytes) → '\ufffd' ∈ tk.decode ts

variable {tk} {bytes : tk.Token → List UInt8}

/-- No character is cut at either end. -/
def Uncut (bytes : tk.Token → List UInt8) (ts : List tk.Token) : Prop :=
  Whole String.utf8EncodeChar (ts.flatMap bytes)

theorem uncut_extend {separator : List tk.Token} (htk : tk.ByteLevel bytes)
    (hsep : tk.encode "\n\n".toList = some separator) (cur unit : List tk.Token) :
    Uncut bytes (extend separator cur unit) ↔ Uncut bytes cur ∧ Uncut bytes unit := by
  by_cases hcur : cur = []
  · rw [hcur, extend_nil]
    exact ⟨fun h => ⟨Whole.nil, h⟩, And.right⟩
  · have hbytes := htk.encode _ _ hsep
    rw [extend_of_ne hcur, Uncut, List.flatMap_append, List.flatMap_append, hbytes]
    exact Whole.separated utf8_selfSync (by simp)

/-- The tokens are those of a text from the source. -/
def Sound (bytes : tk.Token → List UInt8) (source : Text) (ts : List tk.Token) : Prop :=
  ∃ s, ts.flatMap bytes = encodeUtf8 s ∧ FromSource source s

theorem Sound.extend {source : Text} {separator : List tk.Token} (htk : tk.ByteLevel bytes)
    (hsep : tk.encode "\n\n".toList = some separator) (cur unit : List tk.Token)
    (hcur : Sound bytes source cur) (hunit : Sound bytes source unit) :
    Sound bytes source (extend separator cur unit) := by
  by_cases hnil : cur = []
  · rwa [hnil, extend_nil]
  · obtain ⟨s, hs, hsource⟩ := hcur
    obtain ⟨t, ht, htsource⟩ := hunit
    refine ⟨s ++ "\n\n".toList ++ t, ?_, hsource.separated htsource⟩
    rw [extend_of_ne hnil, List.flatMap_append, List.flatMap_append, hs, ht, htk.encode _ _ hsep]
    simp only [encodeUtf8, List.flatMap_append]

/-- A run of the tokens that cuts no character. -/
theorem Sound.of_infix {source : Text} {ts run : List tk.Token} (h : Sound bytes source ts)
    (hrun : run <:+: ts) (huncut : Uncut bytes run) : Sound bytes source run := by
  obtain ⟨s, hs, hsource⟩ := h
  obtain ⟨t, ht⟩ := huncut
  refine ⟨t, ht.symm, hsource.mono (utf8_selfSync.infix_of_encoded ?_)⟩
  obtain ⟨before, after, rfl⟩ := hrun
  rw [ht]
  refine ⟨before.flatMap bytes, after.flatMap bytes, ?_⟩
  rw [← List.flatMap_append, ← List.flatMap_append]
  exact hs

/-- No cut is inside a character: neither an end of a window nor the start of what a chunk carries
over. -/
def NoneCut (bytes : tk.Token → List UInt8) (separator : List tk.Token)
    (tokens : List (List tk.Token)) (maxTokens overlap : Nat) : Prop :=
  (∀ unit ∈ tokens.flatMap (unitsOf separator.length maxTokens overlap), Uncut bytes unit) ∧
    CarriesWhole (Uncut bytes) separator maxTokens overlap []
      (tokens.flatMap (unitsOf separator.length maxTokens overlap))

/-- No chunk is cut exactly when nothing it is made of is. -/
theorem noneCut_iff {separator : List tk.Token} {tokens : List (List tk.Token)} {maxTokens overlap : Nat}
    (htk : tk.ByteLevel bytes) (hsep : tk.encode "\n\n".toList = some separator) :
    NoneCut bytes separator tokens maxTokens overlap ↔
      ∀ ts ∈ tk.tokenChunks maxTokens overlap separator tokens, Uncut bytes ts := by
  have hnil : Uncut bytes ([] : List tk.Token) := Whole.nil
  rw [tokenChunks, pack_whole_iff hnil (uncut_extend htk hsep), NoneCut]
  simp [hnil]

/-- The chunks are those of texts from the source. -/
theorem sound_tokenChunks {u : Unicode} {cleaned : Text} {separator : List tk.Token}
    {tokens : List (List tk.Token)} {maxTokens overlap : Nat} (htk : tk.ByteLevel bytes)
    (henc : tk.encodeAll (paragraphs u cleaned) = some (separator, tokens))
    (hcut : NoneCut bytes separator tokens maxTokens overlap) :
    ∀ ts ∈ tk.tokenChunks maxTokens overlap separator tokens, Sound bytes cleaned ts := by
  obtain ⟨hsep, hmap⟩ := encodeAll_eq_some.mp henc
  obtain ⟨hunits, hcarries⟩ := hcut
  have hempty : Sound bytes cleaned ([] : List tk.Token) :=
    ⟨[], rfl, FromSource.of_infix List.nil_infix⟩
  refine pack_forall (Sound.extend htk hsep)
    (fun cur hcur huncut => hcur.of_infix (tailOf_suffix overlap cur).isInfix huncut) hempty ?_ hcarries
  intro unit hunit
  obtain ⟨ts, hts, hin⟩ := List.mem_flatMap.mp hunit
  obtain ⟨p, hp, hencode⟩ := (mem_mapM_iff hmap ts).mp hts
  have hparagraph : Sound bytes cleaned ts :=
    ⟨p, htk.encode p ts hencode, FromSource.of_infix (infix_of_mem_paragraphs hp)⟩
  exact hparagraph.of_infix (infix_of_mem_unitsOf hin) (hunits unit hunit)

/-- The chunk has U+FFFD only if the input does, and between line breaks it is normalised text. -/
def FromInput (u : Unicode) (text : Text) (chunk : TextChunk) : Prop :=
  ('\ufffd' ∈ chunk.text → '\ufffd' ∈ text) ∧ FromSource (normalizeText u text) chunk.text

theorem FromInput.of_fromSource {u : Unicode} {text : Text} {chunk : TextChunk}
    (h : FromSource (normalizeText u text) chunk.text) : FromInput u text chunk := by
  refine ⟨fun hmem => ?_, h⟩
  have hin : ['\ufffd'] <:+: normalizeText u text := by
    refine h ['\ufffd'] (by decide) ?_
    obtain ⟨before, after, hsplit⟩ := List.append_of_mem hmem
    exact ⟨before, after, by rw [hsplit]; simp⟩
  exact mem_normalizeText (by decide) (by decide) (hin.subset List.mem_cons_self)

/-- **Chunk text is source text** when no cut is inside a character, and for a text without U+FFFD
only then. -/
theorem chunkText_source_iff (tk : Tokenizer) (bytes : tk.Token → List UInt8)
    (htk : tk.ByteLevel bytes) (u : Unicode) (text : Text) (maxTokens overlapTokens : Int)
    (separator : List tk.Token) (tokens : List (List tk.Token)) (chunks : List TextChunk)
    (htokens : tk.encodeAll (paragraphs u (normalizeText u text)) = some (separator, tokens))
    (h : tk.chunkText u text maxTokens overlapTokens = .ok chunks) :
    (NoneCut bytes separator tokens maxTokens.toNat (overlapOf maxTokens overlapTokens) →
      ∀ c ∈ chunks, FromInput u text c) ∧
    ('\ufffd' ∉ text → (∀ c ∈ chunks, FromInput u text c) →
      NoneCut bytes separator tokens maxTokens.toNat (overlapOf maxTokens overlapTokens)) := by
  obtain ⟨hsep, hmap⟩ := encodeAll_eq_some.mp htokens
  obtain ⟨-, ⟨hnone, rfl⟩ | ⟨separator', tokens', henc, rfl⟩⟩ := chunkText_ok h
  · rw [hnone] at hmap
    obtain rfl := Option.some.inj hmap
    have hnothing : NoneCut bytes separator [] maxTokens.toNat (overlapOf maxTokens overlapTokens) := by
      simp [NoneCut, CarriesWhole]
    exact ⟨fun _ => nofun, fun _ _ => hnothing⟩
  · obtain ⟨rfl, rfl⟩ := Prod.mk.inj (Option.some.inj (htokens.symm.trans henc))
    constructor
    · intro hcut c hc
      obtain ⟨ts, hts, hchunk⟩ := List.mem_filterMap.mp hc
      obtain ⟨-, rfl⟩ := chunkOf_eq_some.mp hchunk
      obtain ⟨s, hs, hsource⟩ := sound_tokenChunks htk htokens hcut ts hts
      refine FromInput.of_fromSource (hsource.mono ?_)
      rw [htk.decode s ts hs]
      exact infix_stripText_self s
    · intro htext hall
      rw [noneCut_iff htk hsep]
      intro ts hts
      by_contra hcut
      have hmem : '\ufffd' ∈ stripText (tk.decode ts) :=
        mem_stripText (by decide) (htk.replaced ts hcut)
      have hkept : ¬tk.Blank ts := List.ne_nil_of_mem hmem
      have hchunk := List.mem_filterMap.mpr ⟨ts, hts, chunkOf_eq_some.mpr ⟨hkept, rfl⟩⟩
      exact htext ((hall _ hchunk).1 hmem)

theorem byteLevel_byteTokenizer : Sample.byteTokenizer.ByteLevel fun b => [b] := by
  have hbytes : ∀ ts : List UInt8, ts.flatMap (fun b => [b]) = ts := List.flatMap_singleton'
  constructor
  · intro s ts h
    obtain rfl := Option.some.inj h
    exact hbytes (encodeUtf8 s)
  · intro s ts h
    have hts : ts = encodeUtf8 s := (hbytes ts).symm.trans h
    rw [hts]
    exact decodeReplaced_encodeUtf8 s
  · intro ts h
    by_contra hnone
    exact h ⟨decodeReplaced ts, (encode_decodeReplaced hnone).trans (hbytes ts).symm⟩

/-- Two paragraphs of two characters of two bytes each. -/
def twoByTwo : Text := "من\n\nلا".toList

theorem paragraphs_twoByTwo : paragraphs Prompt.Sample.characters
    (normalizeText Prompt.Sample.characters twoByTwo) = ["من".toList, "لا".toList] := by
  decide +kernel

/-- An overlap of one byte carries over half a character. -/
theorem chunkText_half : Sample.byteTokenizer.chunkText Prompt.Sample.characters twoByTwo 8 1 =
    .ok [⟨"من".toList, 4⟩, ⟨"\ufffd\n\nلا".toList, 7⟩] := by
  decide +kernel

theorem overlap_cuts_character : ¬∀ (tk : Tokenizer) (bytes : tk.Token → List UInt8),
    tk.ByteLevel bytes → ∀ u text maxTokens overlapTokens chunks,
    tk.chunkText u text maxTokens overlapTokens = .ok chunks → ∀ c ∈ chunks, FromInput u text c := by
  intro h
  have hchunk := h _ _ byteLevel_byteTokenizer _ _ _ _ _ chunkText_half ⟨"\ufffd\n\nلا".toList, 7⟩
    (List.mem_cons_of_mem _ List.mem_cons_self)
  exact absurd (hchunk.1 (by decide)) (by decide)

/-- An overlap of two bytes carries over a whole one. -/
theorem chunkText_source_iff_overlap :
    Sample.byteTokenizer.chunkText Prompt.Sample.characters twoByTwo 8 2 =
      .ok [⟨"من".toList, 4⟩, ⟨"ن\n\nلا".toList, 8⟩] ∧
    ∀ c ∈ ([⟨"من".toList, 4⟩, ⟨"ن\n\nلا".toList, 8⟩] : List TextChunk),
      FromInput Prompt.Sample.characters twoByTwo c := by
  have hchunks : Sample.byteTokenizer.chunkText Prompt.Sample.characters twoByTwo 8 2 =
      .ok [⟨"من".toList, 4⟩, ⟨"ن\n\nلا".toList, 8⟩] := by decide +kernel
  have htokens : Sample.byteTokenizer.encodeAll (paragraphs Prompt.Sample.characters
      (normalizeText Prompt.Sample.characters twoByTwo)) =
        some (encodeUtf8 "\n\n".toList, [encodeUtf8 "من".toList, encodeUtf8 "لا".toList]) := by
    rw [paragraphs_twoByTwo]
    rfl
  have hunits : [encodeUtf8 "من".toList, encodeUtf8 "لا".toList].flatMap (unitsOf 2 8 2) =
      [encodeUtf8 "من".toList, encodeUtf8 "لا".toList] := by decide +kernel
  have hwhole : ∀ s : Text, @Uncut Sample.byteTokenizer (fun b => [b]) (encodeUtf8 s) :=
    fun s => ⟨s, (List.flatMap_singleton' _).symm⟩
  refine ⟨hchunks, (chunkText_source_iff _ _ byteLevel_byteTokenizer _ _ _ _ _ _ _ htokens hchunks).1 ⟨?_, ?_⟩⟩
  · intro unit hunit
    have hunit := hunits ▸ hunit
    rcases List.mem_cons.mp hunit with rfl | hunit
    · exact hwhole _
    · exact List.mem_singleton.mp hunit ▸ hwhole _
  · show CarriesWhole _ (encodeUtf8 "\n\n".toList) 8 2 []
      ([encodeUtf8 "من".toList, encodeUtf8 "لا".toList].flatMap (unitsOf 2 8 2))
    rw [hunits]
    simp only [CarriesWhole]
    rw [if_neg (by simp), if_pos (by decide +kernel)]
    refine ⟨?_, trivial⟩
    have htail : tailOf 2 (extend (encodeUtf8 "\n\n".toList) [] (encodeUtf8 "من".toList)) =
        encodeUtf8 "ن".toList := by decide +kernel
    rw [htail]
    exact hwhole _

end Tokenizer

end Knowledge
