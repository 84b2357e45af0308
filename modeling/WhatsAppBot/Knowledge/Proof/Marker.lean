import WhatsAppBot.Knowledge.Proof.Cuts
import WhatsAppBot.Knowledge.Proof.Rerun

/-!
# Unfinished documents in the index

`ingest_file` looks for the placeholder marker in the text of the pages, but it stores what
`normalize_text` and the chunker make of them, and a hyphen at the end of a line is taken out there.
`no_marker_stored_iff` says when no stored chunk has the marker.
-/

set_option autoImplicit false

namespace Knowledge

open Lib Prompt

/-! ## What a split leaves together -/

section

variable {α : Type} {word p : α → Bool} {r : Re α} {m s : List α}

/-- A run is not in what shares no symbol with it. -/
theorem infix_of_disjoint {x : List α} (hne : m ≠ []) (hx : ∀ a ∈ m, a ∉ x) (h : m <:+: x ++ s) :
    m <:+: s := by
  induction x with
  | nil => exact h
  | cons c x ih =>
    have hc : c ∉ m := fun hmem => hx c hmem List.mem_cons_self
    rcases infix_append_cons (x := []) hc h with hnil | htail
    · exact absurd (List.infix_nil.mp hnil) hne
    · exact ih (fun a ha hax => hx a ha (List.mem_cons_of_mem _ hax)) htail

theorem leads_shorter (hr : r.Leads p) {cur c : Cursor α} (h : c ∈ r.run word cur) :
    c.rest.length < cur.rest.length := by
  induction hr generalizing c with
  | one =>
    obtain ⟨a, -, hs, -⟩ := Re.mem_run_one h
    rw [hs]
    exact Nat.lt_succ_self _
  | seq s _ ih =>
    obtain ⟨d, hd, hc⟩ := Re.mem_run_seq.mp h
    obtain ⟨x, hx, -⟩ := Re.exists_consumed hc
    have hshort := ih hd
    rw [hx, List.length_append] at hshort
    omega

theorem prefix_splitFrom (hr : r.Leads p) (hm : ∀ a ∈ m, p a = false) (w : Bool) (h : m <+: s) :
    ∃ piece ∈ (r.splitFrom word 0 w s).head?, m <+: piece := by
  induction s generalizing m w with
  | nil =>
    rw [List.prefix_nil.mp h]
    exact ⟨[], rfl, List.nil_prefix⟩
  | cons c s ih =>
    unfold Re.splitFrom
    split
    · rename_i last hlast
      refine ⟨[], rfl, ?_⟩
      -- the match starts at `c`, so that the run is empty
      obtain ⟨a, t, hstart, ha⟩ := hr.exists (List.mem_of_mem_head? hlast)
      obtain ⟨rfl, -⟩ := List.cons.inj hstart
      cases m with
      | nil => exact List.nil_prefix
      | cons b m =>
        obtain ⟨rfl, -⟩ := List.cons_prefix_cons.mp h
        rw [hm b List.mem_cons_self] at ha
        cases ha
    · rename_i hnone
      cases m with
      | nil =>
        obtain ⟨piece, hpiece, -⟩ := ih (m := []) (fun a ha => absurd ha List.not_mem_nil) (word c) List.nil_prefix
        refine ⟨c :: piece, ?_, List.nil_prefix⟩
        rw [List.head?_modifyHead, Option.mem_def.mp hpiece]
        rfl
      | cons b m =>
        obtain ⟨rfl, htail⟩ := List.cons_prefix_cons.mp h
        obtain ⟨piece, hpiece, hpre⟩ :=
          ih (fun a ha => hm a (List.mem_cons_of_mem _ ha)) (word b) htail
        refine ⟨b :: piece, ?_, List.cons_prefix_cons.mpr ⟨rfl, hpre⟩⟩
        rw [List.head?_modifyHead, Option.mem_def.mp hpiece]
        rfl

theorem infix_splitFrom (hr : r.Leads p) (hm : ∀ a ∈ m, p a = false)
    (hmem : ∀ a ∈ m, r.avoids a = true) (hne : m ≠ []) (w : Bool) (x : List α)
    (hx : ∀ a ∈ m, a ∉ x) (h : m <:+: s) :
    ∃ piece ∈ r.splitFrom word x.length w (x ++ s), m <:+: piece := by
  induction hn : (x ++ s).length generalizing s x w with
  | zero =>
    rw [List.length_append] at hn
    rw [List.length_eq_zero_iff.mp (by omega : s.length = 0)] at h
    exact absurd (List.infix_nil.mp h) hne
  | succ n ih =>
    cases x with
    | cons c x =>
      have hlen : (x ++ s).length = n := by simpa using hn
      exact ih (word c) x (fun a ha hax => hx a ha (List.mem_cons_of_mem _ hax)) h hlen
    | nil =>
      cases s with
      | nil => exact absurd (List.infix_nil.mp h) hne
      | cons c s =>
        have hlen : ([] ++ s).length = n := by simpa using hn
        rw [List.nil_append, List.length_nil]
        rcases List.infix_cons_iff.mp h with hpre | hin
        · obtain ⟨piece, hpiece, hrun⟩ := prefix_splitFrom hr hm w hpre
          exact ⟨piece, List.mem_of_mem_head? hpiece, hrun.isInfix⟩
        · unfold Re.splitFrom
          split
          · rename_i last hlast
            have hrun := List.mem_of_mem_head? hlast
            obtain ⟨y, hy, hav⟩ := Re.exists_consumed hrun
            cases y with
            | nil =>
              have hshort := leads_shorter hr hrun
              rw [hy] at hshort
              exact absurd hshort (Nat.lt_irrefl _)
            | cons d y =>
              simp only [List.cons_append, List.cons.injEq] at hy
              obtain ⟨rfl, rfl⟩ := hy
              have hy : ∀ a ∈ m, a ∉ y := fun a ha hay =>
                hav a (hmem a ha) (List.mem_cons_of_mem _ hay)
              obtain ⟨piece, hpiece, hpre⟩ :=
                ih (word c) y hy (infix_of_disjoint hne hy hin) hlen
              refine ⟨piece, List.mem_cons_of_mem _ ?_, hpre⟩
              rwa [show (y ++ last.rest).length - last.rest.length = y.length by simp]
          · obtain ⟨piece, hpiece, hrun⟩ := ih (word c) [] (fun a _ => List.not_mem_nil) hin hlen
            rw [List.nil_append, List.length_nil] at hpiece
            cases hsplit : r.splitFrom word 0 (word c) s with
            | nil =>
              rw [hsplit] at hpiece
              cases hpiece
            | cons first pieces =>
              rw [hsplit] at hpiece
              rcases List.mem_cons.mp hpiece with rfl | hpiece
              · exact ⟨c :: piece, List.mem_cons_self, hrun.trans (List.suffix_cons c piece).isInfix⟩
              · exact ⟨piece, List.mem_cons_of_mem _ hpiece, hrun⟩

/-- **A run without a separator's symbols** is whole in one of the pieces. -/
theorem infix_split (hr : r.Leads p) (hm : ∀ a ∈ m, p a = false)
    (hmem : ∀ a ∈ m, r.avoids a = true) (hne : m ≠ []) (h : m <:+: s) :
    ∃ piece ∈ r.split word s, m <:+: piece :=
  infix_splitFrom hr hm hmem hne false [] (fun _ _ => List.not_mem_nil) h

end

/-! ## The marker -/

theorem marker_no_space : placeholderMarker.all (fun c => !isSpace c) = true := by decide

theorem marker_no_break : '\n' ∉ placeholderMarker := by decide

theorem marker_ne_nil : placeholderMarker ≠ [] := by decide

theorem infix_stripText {m s : Text} (hne : m ≠ []) (hm : m.all (fun c => !isSpace c) = true)
    (h : m <:+: s) : m <:+: stripText s := by
  have hdrop : ∀ {m s : Text}, m ≠ [] → m.all (fun c => !isSpace c) = true → m <:+: s →
      m <:+: s.dropWhile isSpace := by
    intro m s hne hm h
    rw [← List.takeWhile_append_dropWhile (p := isSpace) (l := s)] at h
    refine infix_of_disjoint hne (fun a ha hspace => ?_) h
    have hyes := List.all_eq_true.mp List.all_takeWhile a hspace
    have hno := List.all_eq_true.mp hm a ha
    rw [hyes] at hno
    cases hno
  rw [stripText_eq]
  have hback := hdrop (m := m.reverse) (by simpa using hne) (by simpa using hm)
    (List.reverse_infix.mpr (hdrop hne hm h))
  simpa using List.reverse_infix.mpr hback

theorem isUnfilled_iff {s : Text} : isUnfilled s = true ↔ placeholderMarker <:+: s := by
  simp [isUnfilled]

@[simp] theorem isUnfilled_nil : isUnfilled [] = false := by decide

@[simp] theorem isUnfilled_stripText (s : Text) : isUnfilled (stripText s) = isUnfilled s := by
  rw [Bool.eq_iff_iff, isUnfilled_iff, isUnfilled_iff]
  exact ⟨fun h => h.trans (infix_stripText_self s), infix_stripText marker_ne_nil marker_no_space⟩

theorem isUnfilled_of_infix {s t : Text} (h : t <:+: s) (hs : isUnfilled s = false) :
    isUnfilled t = false := by
  rw [Bool.eq_false_iff, Ne, isUnfilled_iff] at *
  exact fun ht => hs (ht.trans h)

/-- A marker in a text is in one of its paragraphs. -/
theorem isUnfilled_paragraphs {u : Unicode} {cleaned : Text} :
    isUnfilled cleaned = true ↔ ∃ p ∈ paragraphs u cleaned, isUnfilled p = true := by
  constructor
  · intro h
    have hlead : paragraphBreak.Leads fun c => decide (c = '\n') := .seq _ .one
    have hbreak : ∀ a ∈ placeholderMarker, decide (a = '\n') = false := by
      intro a ha
      exact decide_eq_false fun heq => marker_no_break (heq ▸ ha)
    have havoids : ∀ a ∈ placeholderMarker, paragraphBreak.avoids a = true := by
      intro a ha
      have hspace := List.all_eq_true.mp marker_no_space a ha
      simp only [Bool.not_eq_true'] at hspace
      simp [paragraphBreak, spaces, Re.all, Re.avoids, hspace, hbreak a ha]
    obtain ⟨piece, hpiece, hin⟩ := infix_split hlead hbreak havoids marker_ne_nil
      (isUnfilled_iff.mp h)
    have hstrip : isUnfilled (stripText piece) = true := by
      rw [isUnfilled_stripText]
      exact isUnfilled_iff.mpr hin
    refine ⟨stripText piece, List.mem_filter.mpr ⟨List.mem_map_of_mem hpiece, ?_⟩, hstrip⟩
    refine decide_eq_true fun hnil => ?_
    rw [hnil, isUnfilled_nil] at hstrip
    cases hstrip
  · rintro ⟨p, hp, hmarked⟩
    exact isUnfilled_iff.mpr ((isUnfilled_iff.mp hmarked).trans (infix_of_mem_paragraphs hp))

/-! ## Chunks -/

namespace Tokenizer

/-- A token is some bytes of a text in UTF-8, and an ASCII text is in what decoding gives exactly
where its bytes are in those of the tokens: decoding replaces no others. -/
structure ReadsAscii (tk : Tokenizer) (bytes : tk.Token → List UInt8) : Prop where
  encode : ∀ s ts, tk.encode s = some ts → ts.flatMap bytes = encodeUtf8 s
  ascii : ∀ (s : Text) ts, s.all (fun c => c.toNat < 128) = true →
    (s <:+: tk.decode ts ↔ encodeUtf8 s <:+: ts.flatMap bytes)

variable {tk : Tokenizer} {bytes : tk.Token → List UInt8}

/-- The tokens read as a text without the marker. -/
def Filled (tk : Tokenizer) (ts : List tk.Token) : Prop := isUnfilled (tk.decode ts) = false

theorem filled_iff (htk : tk.ReadsAscii bytes) {ts : List tk.Token} :
    tk.Filled ts ↔ ¬encodeUtf8 placeholderMarker <:+: ts.flatMap bytes := by
  rw [← htk.ascii placeholderMarker ts (by decide), Filled, Bool.eq_false_iff, Ne, isUnfilled_iff]

theorem filled_nil (htk : tk.ReadsAscii bytes) : tk.Filled [] := by
  rw [filled_iff htk, List.flatMap_nil, List.infix_nil]
  decide

theorem Filled.of_infix (htk : tk.ReadsAscii bytes) {ts run : List tk.Token} (h : tk.Filled ts)
    (hrun : run <:+: ts) : tk.Filled run := by
  rw [filled_iff htk] at *
  obtain ⟨before, after, rfl⟩ := hrun
  refine fun hmarked => h (hmarked.trans ⟨before.flatMap bytes, after.flatMap bytes, ?_⟩)
  rw [← List.flatMap_append, ← List.flatMap_append]

/-- The marker has no line break, so it is on one side of the separator. -/
theorem filled_extend (htk : tk.ReadsAscii bytes) {separator : List tk.Token}
    (hsep : tk.encode "\n\n".toList = some separator) (cur unit : List tk.Token) :
    tk.Filled (extend separator cur unit) ↔ tk.Filled cur ∧ tk.Filled unit := by
  by_cases hcur : cur = []
  · rw [hcur, extend_nil]
    exact ⟨fun h => ⟨filled_nil htk, h⟩, And.right⟩
  · rw [extend_of_ne hcur]
    constructor
    · intro h
      refine ⟨h.of_infix htk ⟨[], separator ++ unit, by simp⟩, h.of_infix htk ⟨cur ++ separator, [], ?_⟩⟩
      rw [List.append_nil]
    · rintro ⟨h, h'⟩
      rw [filled_iff htk] at *
      have hbreaks : encodeUtf8 "\n\n".toList = [10, 10] := by decide
      have hno : (10 : UInt8) ∉ encodeUtf8 placeholderMarker := by decide
      rw [List.flatMap_append, List.flatMap_append, htk.encode _ _ hsep, hbreaks]
      intro hmarked
      rw [List.append_assoc, List.cons_append, List.cons_append, List.nil_append] at hmarked
      rcases infix_append_cons hno hmarked with hleft | hright
      · exact h hleft
      · rcases infix_append_cons (x := []) hno hright with hnil | hright
        · exact absurd (List.infix_nil.mp hnil) (by decide)
        · exact h' hright

/-- **A chunk has the marker** exactly if one of the pieces it is packed from has it. -/
theorem filled_tokenChunks_iff (htk : tk.ReadsAscii bytes) {maxTokens overlap : Nat}
    {separator : List tk.Token} {tokens : List (List tk.Token)}
    (hsep : tk.encode "\n\n".toList = some separator) :
    (∀ ts ∈ tk.tokenChunks maxTokens overlap separator tokens, tk.Filled ts) ↔
      ∀ unit ∈ tokens.flatMap (unitsOf separator.length maxTokens overlap), tk.Filled unit := by
  constructor
  · intro h
    exact ((pack_whole_iff (filled_nil htk) (filled_extend htk hsep)).mp h).2.1
  · intro h
    have hcarries : ∀ (cur : List tk.Token) units, CarriesWhole (fun _ => True) separator maxTokens
        overlap cur units := by
      intro cur units
      induction units generalizing cur with
      | nil => trivial
      | cons u units ih =>
        unfold CarriesWhole
        split
        · exact ⟨trivial, ih _⟩
        · exact ih _
    exact pack_forall (fun cur unit hcur hunit => (filled_extend htk hsep cur unit).mpr ⟨hcur, hunit⟩)
      (fun cur hcur _ => hcur.of_infix htk (tailOf_suffix overlap cur).isInfix) (filled_nil htk) h
      (hcarries [] _)

end Tokenizer

/-! ## Pages -/

open Tokenizer

namespace IngestionService

/-- What the chunks of a page are packed from: its paragraphs, an oversized one in windows. -/
def unitsOfPage (sv : IngestionService) (page : Page) : List (List sv.tokenizer.Token) :=
  match sv.tokenizer.encodeAll (paragraphs sv.unicode (normalizeText sv.unicode page.2)) with
  | none => []
  | some (separator, tokens) => tokens.flatMap (unitsOf separator.length sv.chunkMaxTokens.toNat
      (overlapOf sv.chunkMaxTokens sv.chunkOverlapTokens))

variable {sv : IngestionService} {bytes : sv.tokenizer.Token → List UInt8} {page : Page}

theorem chunkText_filled_iff (htk : sv.tokenizer.ReadsAscii bytes) {chunks : List TextChunk}
    (h : sv.tokenizer.chunkText sv.unicode page.2 sv.chunkMaxTokens sv.chunkOverlapTokens
      = .ok chunks) :
    (∀ c ∈ chunks, isUnfilled c.text = false) ↔
      ∀ unit ∈ sv.unitsOfPage page, sv.tokenizer.Filled unit := by
  obtain ⟨-, ⟨hnone, rfl⟩ | ⟨separator, tokens, henc, rfl⟩⟩ := chunkText_ok h
  · have hunits : sv.unitsOfPage page = [] := by
      unfold unitsOfPage
      rw [hnone]
      split
      · rfl
      · rename_i separator tokens henc
        obtain rfl := Option.some.inj (encodeAll_eq_some.mp henc).2
        rfl
    rw [hunits]
    exact iff_of_true nofun nofun
  · have hunits : sv.unitsOfPage page = tokens.flatMap (unitsOf separator.length
        sv.chunkMaxTokens.toNat (overlapOf sv.chunkMaxTokens sv.chunkOverlapTokens)) := by
      unfold unitsOfPage
      rw [henc]
    rw [hunits, ← filled_tokenChunks_iff htk (encodeAll_eq_some.mp henc).1]
    constructor
    · intro h ts hts
      by_cases hblank : sv.tokenizer.Blank ts
      · rw [Filled, ← isUnfilled_stripText, hblank, isUnfilled_nil]
      · have hfilled := h _ (List.mem_filterMap.mpr ⟨ts, hts, chunkOf_eq_some.mpr ⟨hblank, rfl⟩⟩)
        rwa [isUnfilled_stripText] at hfilled
    · intro h c hc
      obtain ⟨ts, hts, hchunk⟩ := List.mem_filterMap.mp hc
      obtain ⟨-, rfl⟩ := chunkOf_eq_some.mp hchunk
      rw [isUnfilled_stripText]
      exact h ts hts

theorem piecesOf_cons {pages : List Page} {pieces : List (Option Nat × TextChunk)}
    (h : sv.piecesOf (page :: pages) = .ok pieces) : ∃ chunks rest,
      sv.tokenizer.chunkText sv.unicode page.2 sv.chunkMaxTokens sv.chunkOverlapTokens
        = .ok chunks ∧
      sv.piecesOf pages = .ok rest ∧ pieces = (chunks.map fun c => (page.1, c)) ++ rest := by
  unfold piecesOf at h ⊢
  rw [List.mapM_cons] at h
  cases hchunks : sv.tokenizer.chunkText sv.unicode page.2 sv.chunkMaxTokens
      sv.chunkOverlapTokens with
  | error e =>
    rw [hchunks] at h
    cases h
  | ok chunks =>
    rw [hchunks] at h
    cases hrest : pages.mapM fun page =>
        (sv.tokenizer.chunkText sv.unicode page.2 sv.chunkMaxTokens sv.chunkOverlapTokens).map
          fun chunks => chunks.map fun c => (page.1, c) with
    | error e =>
      simp only [hrest] at h
      cases h
    | ok groups =>
      simp only [hrest] at h
      obtain rfl := Except.ok.inj h
      exact ⟨chunks, _, rfl, rfl, List.flatten_cons⟩

theorem chunked_of_piecesOf {pages : List Page} {pieces : List (Option Nat × TextChunk)}
    (h : sv.piecesOf pages = .ok pieces) : ∀ page ∈ pages, ∃ chunks,
      sv.tokenizer.chunkText sv.unicode page.2 sv.chunkMaxTokens sv.chunkOverlapTokens
        = .ok chunks := by
  induction pages generalizing pieces with
  | nil => exact nofun
  | cons page pages ih =>
    obtain ⟨chunks, rest, hchunks, hrest, -⟩ := piecesOf_cons h
    exact List.forall_mem_cons.mpr ⟨⟨chunks, hchunks⟩, ih hrest⟩

theorem piecesOf_filled_iff (htk : sv.tokenizer.ReadsAscii bytes) {pages : List Page}
    {pieces : List (Option Nat × TextChunk)} (h : sv.piecesOf pages = .ok pieces) :
    (∀ piece ∈ pieces, isUnfilled piece.2.text = false) ↔
      ∀ page ∈ pages, ∀ unit ∈ sv.unitsOfPage page, sv.tokenizer.Filled unit := by
  induction pages generalizing pieces with
  | nil =>
    obtain rfl := Except.ok.inj h
    exact iff_of_true nofun nofun
  | cons page pages ih =>
    obtain ⟨chunks, rest, hchunks, hrest, rfl⟩ := piecesOf_cons h
    have hhead := chunkText_filled_iff htk hchunks
    rw [List.forall_mem_cons, ← hhead, ← ih hrest, List.forall_mem_append, List.forall_mem_map]

/-- A page whose normalised text has no marker has none in its chunks. -/
theorem filled_of_normalized (htk : sv.tokenizer.ReadsAscii bytes)
    (h : isUnfilled (normalizeText sv.unicode page.2) = false) :
    ∀ unit ∈ sv.unitsOfPage page, sv.tokenizer.Filled unit := by
  intro unit hunit
  unfold unitsOfPage at hunit
  split at hunit
  · cases hunit
  · rename_i separator tokens henc
    obtain ⟨ts, hts, hin⟩ := List.mem_flatMap.mp hunit
    obtain ⟨p, hp, hencode⟩ := (mem_mapM_iff (encodeAll_eq_some.mp henc).2 ts).mp hts
    refine Filled.of_infix htk ?_ (infix_of_mem_unitsOf hin)
    rw [filled_iff htk, htk.encode p ts hencode]
    intro hmarked
    have hparagraph := isUnfilled_of_infix (infix_of_mem_paragraphs hp) h
    rw [isUnfilled_iff.mpr (utf8_selfSync.infix_of_encoded hmarked)] at hparagraph
    cases hparagraph

/-- No paragraph of the page is cut into windows. -/
def NoneOversized (sv : IngestionService) (page : Page) : Prop :=
  ∀ p ∈ paragraphs sv.unicode (normalizeText sv.unicode page.2), ∀ ts,
    sv.tokenizer.encode p = some ts → ts.length ≤ sv.chunkMaxTokens.toNat

theorem normalized_of_filled (htk : sv.tokenizer.ReadsAscii bytes) {chunks : List TextChunk}
    (h : sv.tokenizer.chunkText sv.unicode page.2 sv.chunkMaxTokens sv.chunkOverlapTokens
      = .ok chunks)
    (hsize : sv.NoneOversized page)
    (hfilled : ∀ unit ∈ sv.unitsOfPage page, sv.tokenizer.Filled unit) :
    isUnfilled (normalizeText sv.unicode page.2) = false := by
  rw [Bool.eq_false_iff, Ne, isUnfilled_paragraphs (u := sv.unicode)]
  rintro ⟨p, hp, hmarked⟩
  obtain ⟨-, ⟨hnone, -⟩ | ⟨separator, tokens, henc, -⟩⟩ := chunkText_ok h
  · rw [hnone] at hp
    cases hp
  · obtain ⟨-, hmap⟩ := encodeAll_eq_some.mp henc
    obtain ⟨ts, hencode⟩ := Option.isSome_iff_exists.mp
      (mapM_isSome_iff.mp (Option.isSome_of_eq_some hmap) p hp)
    have hunit : ts ∈ sv.unitsOfPage page := by
      unfold unitsOfPage
      rw [henc]
      refine List.mem_flatMap.mpr ⟨ts, (mem_mapM_iff hmap ts).mpr ⟨p, hp, hencode⟩, ?_⟩
      rw [unitsOf, if_pos (hsize p hp ts hencode)]
      exact List.mem_singleton_self ts
    have hnone := (filled_iff htk).mp (hfilled ts hunit)
    rw [htk.encode p ts hencode] at hnone
    obtain ⟨before, after, hp⟩ := isUnfilled_iff.mp hmarked
    refine hnone ⟨encodeUtf8 before, encodeUtf8 after, ?_⟩
    rw [← hp]
    simp only [encodeUtf8, List.flatMap_append]

end IngestionService

/-! ## `ingest_file` -/

variable {V : Type}

/-- No chunk that is stored for the file has the marker. -/
def NoMarkerStored (f : File) (db : VectorStore V) : Prop :=
  ∀ d, db.find f.source = some d → ∀ c ∈ db.chunksOf d.id, isUnfilled c.content = false

theorem noMarkerStored_iff {sv : IngestionService} {f : File} {db db' : VectorStore V}
    {pieces : List (Option Nat × TextChunk)} {vectors : List V} {payload : List (ChunkInput V)}
    (hpieces : sv.piecesOf (readPages f) = .ok pieces)
    (hpayload : payloadOf pieces vectors = some payload) (hstored : Stored sv f payload db db') :
    NoMarkerStored f db' ↔ ∀ piece ∈ pieces, isUnfilled piece.2.text = false := by
  obtain ⟨d, hd, -, -, -, hchunks⟩ := hstored.document
  obtain ⟨pieces', hpieces', hcontents, -⟩ := payloadOf_faithful hpieces hpayload
  obtain rfl := Except.ok.inj (hpieces.symm.trans hpieces')
  have hsame : payload.map (·.content) = pieces.map (·.2.text) := by
    have h := congrArg (List.map fun x : Option Nat × Text × Nat => x.2.1) hcontents
    simpa [List.map_map, Function.comp_def] using h
  have hall : (∀ c ∈ payload, isUnfilled c.content = false) ↔
      ∀ piece ∈ pieces, isUnfilled piece.2.text = false := by
    rw [← List.forall_mem_map (f := fun c : ChunkInput V => c.content)
      (P := fun text => isUnfilled text = false), hsame, List.forall_mem_map]
  rw [← hall]
  unfold NoMarkerStored
  constructor
  · intro h c hc
    exact h d hd ⟨c, d.id⟩ (hchunks ▸ List.mem_map_of_mem hc)
  · intro h e he c hc
    obtain rfl := Option.some.inj (hd.symm.trans he)
    rw [hchunks] at hc
    obtain ⟨input, hinput, rfl⟩ := List.mem_map.mp hc
    exact h input hinput

/-- **No unfinished document is indexed** exactly if nothing its chunks are packed from has the
marker: it is enough that the normalised text of no page has it, and, where no paragraph is
oversized, necessary. -/
theorem no_marker_stored_iff (V : Type) (sv : IngestionService)
    (bytes : sv.tokenizer.Token → List UInt8) (htk : sv.tokenizer.ReadsAscii bytes) (f : File)
    (force : Bool) (db db' : VectorStore V) (seen' : Option (VectorStore V)) (o : Outcome)
    (tr : List (Obs (ingestSig V))) (h : FileRun sv force f db none o tr db' seen')
    (hindexed : (o.result f.source).status = .indexed) :
    (NoMarkerStored f db' ↔
      ∀ page ∈ readPages f, ∀ unit ∈ sv.unitsOfPage page, sv.tokenizer.Filled unit) ∧
    ((∀ page ∈ readPages f, isUnfilled (normalizeText sv.unicode page.2) = false) →
      NoMarkerStored f db') ∧
    ((∀ page ∈ readPages f, sv.NoneOversized page) → NoMarkerStored f db' →
      ∀ page ∈ readPages f, isUnfilled (normalizeText sv.unicode page.2) = false) := by
  obtain ⟨-, ⟨r, rfl, heffect⟩ | ⟨⟨e, rfl⟩, -⟩⟩ := h.effect
  · cases heffect with
    | indexed _ hpieces hpayload hstored =>
      have hexact := (noMarkerStored_iff hpieces hpayload hstored).trans
        (IngestionService.piecesOf_filled_iff htk hpieces)
      refine ⟨hexact, fun hnormal => hexact.mpr fun page hpage =>
        IngestionService.filled_of_normalized htk (hnormal page hpage), fun hsize hfree page hpage => ?_⟩
      obtain ⟨chunks, hchunks⟩ := IngestionService.chunked_of_piecesOf hpieces page hpage
      exact IngestionService.normalized_of_filled htk hchunks (hsize page hpage)
        (hexact.mp hfree page hpage)
    | unchanged | noText | skipped | withdrawn | noChunks => cases hindexed
  · cases hindexed

/-! ## A hyphen inside the marker -/

theorem readsAscii_tokenizer : Sample.tokenizer.ReadsAscii String.utf8EncodeChar where
  encode s ts h := by
    obtain rfl := Option.some.inj h
    rfl
  ascii s ts _ := by
    constructor
    · rintro ⟨before, after, rfl⟩
      refine ⟨encodeUtf8 before, encodeUtf8 after, ?_⟩
      have hbytes : encodeUtf8 (before ++ s ++ after)
          = encodeUtf8 before ++ encodeUtf8 s ++ encodeUtf8 after := by
        simp only [encodeUtf8, List.flatMap_append]
      exact hbytes.symm
    · exact utf8_selfSync.infix_of_encoded

def hyphenatedFile : File := ⟨"a.txt", "a", ".txt", "h", [], "[[TO-\nDO]]".toList⟩

def hyphenatedStore : VectorStore Unit :=
  ⟨[⟨1, "a.txt", ['a'], "h", 1⟩], [⟨⟨0, placeholderMarker, 8, (), none⟩, 1⟩], by decide⟩

/-- The marker is broken in the file, and whole in its chunk. -/
theorem hyphenated_marker_stored : ¬∀ (f : File) (db' : VectorStore Unit) (o : Outcome)
    (tr : List (Obs (ingestSig Unit))), FileRun Sample.service false f Sample.empty none o tr db' none →
      (o.result f.source).status = .indexed → NoMarkerStored f db' := by
  intro h
  have hplayed : ∃ tr, Exec (ingestSem Unit) Sample.empty none
      (Sample.service.ingestFile hyphenatedFile false) tr
      (.returned ⟨"a.txt", .indexed, 1, none, none⟩) hyphenatedStore none :=
    returned_of_play (n := 10) (by decide +kernel)
  obtain ⟨tr, hrun⟩ := hplayed
  have hfree := h _ _ _ tr (.returned hrun) rfl ⟨1, "a.txt", ['a'], "h", 1⟩ rfl
    ⟨⟨0, placeholderMarker, 8, (), none⟩, 1⟩ List.mem_cons_self
  exact absurd hfree (by decide)

theorem no_marker_stored_plain : ∃ tr, FileRun Sample.service false Sample.file Sample.empty none
    (.returned ⟨"a.txt", .indexed, 1, none, none⟩) tr Sample.indexed none ∧
      NoMarkerStored Sample.file Sample.indexed := by
  obtain ⟨tr, hrun⟩ := indexes
  have hrun : FileRun Sample.service false Sample.file Sample.empty none
    (.returned ⟨"a.txt", .indexed, 1, none, none⟩) tr Sample.indexed none := .returned hrun
  refine ⟨tr, hrun, (no_marker_stored_iff Unit Sample.service _ readsAscii_tokenizer _ _ _ _ _ _ _
    hrun rfl).2.1 ?_⟩
  intro page hpage
  obtain rfl : page = (none, ['a', 'b']) := by
    have hpages : readPages Sample.file = [(none, ['a', 'b'])] := by decide +kernel
    rw [hpages] at hpage
    exact List.mem_singleton.mp hpage
  decide +kernel

end Knowledge
