import WhatsAppBot.Knowledge.Proof.Packing
import WhatsAppBot.Knowledge.Sample

/-!
# When the chunks are within the bound

`chunk_text` leaves room for the overlap and the separator when it cuts an oversized paragraph into
windows, and only then: a paragraph within the bound is packed as it is, behind the tail of the chunk
before it. `chunkText_bounded_iff`: the chunks are within `max_tokens` exactly when every unit fits
behind the last `overlap` tokens of what comes before it and a separator.
-/

set_option autoImplicit false

namespace Knowledge

open Lib Prompt

section

variable {α : Type} {sep cur unit : List α} {maxTokens overlap : Nat} {blank : List α → Prop}

/-- The unit and a separator fit behind what is carried over from the units before, unless nothing is
carried over or the chunk they make is blank. -/
def Fits (sep : List α) (maxTokens : Nat) (blank : List α → Prop) (carried unit : List α) : Prop :=
  carried = [] ∨ blank (carried ++ sep ++ unit) ∨
    carried.length + sep.length + unit.length ≤ maxTokens

/-- The units, each behind what is carried over to it. -/
def AllFit (sep : List α) (maxTokens overlap : Nat) (blank : List α → Prop) (cur : List α)
    (units : List (List α)) : Prop :=
  ∀ before unit after, units = before ++ unit :: after →
    Fits sep maxTokens blank (tailOf overlap (before.foldl (extend sep) cur)) unit

theorem AllFit.cons {units : List (List α)} : AllFit sep maxTokens overlap blank cur (unit :: units) ↔
    Fits sep maxTokens blank (tailOf overlap cur) unit ∧
      AllFit sep maxTokens overlap blank (extend sep cur unit) units := by
  constructor
  · intro h
    refine ⟨h [] unit units rfl, fun before u after hsplit => ?_⟩
    exact h (unit :: before) u after (by rw [hsplit, List.cons_append])
  · rintro ⟨hunit, hunits⟩ before u after hsplit
    cases before with
    | nil =>
      obtain ⟨rfl, rfl⟩ := List.cons.inj hsplit
      exact hunit
    | cons v before =>
      obtain ⟨rfl, hrest⟩ := List.cons.inj hsplit
      exact hunits before u after hrest

/-- Only the tail of what came before matters. -/
theorem AllFit.congr {cur' : List α} (h : tailOf overlap cur = tailOf overlap cur')
    {units : List (List α)} : AllFit sep maxTokens overlap blank cur units ↔
      AllFit sep maxTokens overlap blank cur' units := by
  simp only [AllFit, tailOf_foldl_extend sep h]

theorem fits_iff {carried : List α} (hunit : unit.length ≤ maxTokens) :
    Fits sep maxTokens blank carried unit ↔
      ((extend sep carried unit).length ≤ maxTokens ∨ blank (extend sep carried unit)) := by
  by_cases hc : carried = []
  · simp [Fits, hc, hunit]
  · rw [extend_of_ne hc, List.length_append, List.length_append, Fits, or_comm (b := blank _)]
    simp [hc]

/-- The chunks are within the bound or blank exactly when the chunk under construction is and every
unit fits. -/
theorem pack_bounded_iff {units : List (List α)} (hunits : ∀ u ∈ units, u.length ≤ maxTokens) :
    (∀ c ∈ pack sep maxTokens overlap cur units, c.length ≤ maxTokens ∨ blank c) ↔
      (cur.length ≤ maxTokens ∨ blank cur) ∧ AllFit sep maxTokens overlap blank cur units := by
  induction units generalizing cur with
  | nil =>
    have hnone : AllFit sep maxTokens overlap blank cur [] := by
      intro before unit after hsplit
      simp at hsplit
    by_cases hcur : cur = []
    · subst hcur
      simp [pack, hnone]
    · simp [pack, hcur, hnone]
  | cons u units ih =>
    have hu := hunits u List.mem_cons_self
    have hrest : ∀ v ∈ units, v.length ≤ maxTokens := fun v hv => hunits v (List.mem_cons_of_mem _ hv)
    unfold pack
    split
    · have htail : tailOf overlap (extend sep (tailOf overlap cur) u) =
          tailOf overlap (extend sep cur u) := tailOf_extend (tailOf_tailOf overlap cur)
      rw [List.forall_mem_cons, ih hrest, AllFit.cons, AllFit.congr htail, fits_iff hu]
    · -- no flush: the chunk under construction goes on and stays within the bound
      rename_i hgo
      have hfits : (extend sep cur u).length ≤ maxTokens := by
        by_cases hcur : cur = []
        · simpa [hcur] using hu
        · have hle := Nat.le_of_not_lt fun hlt => hgo ⟨hcur, hlt⟩
          simpa [extend_of_ne hcur, Nat.add_assoc] using hle
      have hcurrent : cur.length ≤ maxTokens := by
        refine Nat.le_trans ?_ hfits
        by_cases hcur : cur = []
        · simp [hcur]
        · rw [extend_of_ne hcur, List.length_append, List.length_append]
          omega
      have hunit : Fits sep maxTokens blank (tailOf overlap cur) u := by
        by_cases ht : tailOf overlap cur = []
        · exact .inl ht
        · refine .inr (.inr ?_)
          have hcur : cur ≠ [] := fun hnil => ht (by rw [hnil, tailOf_nil])
          rw [extend_of_ne hcur, List.length_append, List.length_append] at hfits
          have hle := (tailOf_suffix overlap cur).length_le
          omega
      rw [ih hrest, AllFit.cons]
      simp [hfits, hcurrent, hunit]

theorem unitsOf_bounded {sepLength : Nat} (hmax : 0 < maxTokens) {tokens : List α}
    (h : unit ∈ unitsOf sepLength maxTokens overlap tokens) : unit.length ≤ maxTokens := by
  unfold unitsOf at h
  split at h
  · rename_i hle
    rwa [List.mem_singleton.mp h]
  · obtain ⟨-, -, hle⟩ := of_mem_windows (by omega) h
    omega

end

namespace Tokenizer

variable (tk : Tokenizer)

/-- A chunk that is dropped. -/
def Blank (tokens : List tk.Token) : Prop := stripText (tk.decode tokens) = []

variable {tk}

theorem chunkOf_eq_some {tokens : List tk.Token} {c : TextChunk} :
    tk.chunkOf tokens = some c ↔
      ¬tk.Blank tokens ∧ c = ⟨stripText (tk.decode tokens), tokens.length⟩ := by
  unfold chunkOf Blank
  dsimp only
  split
  · rename_i h
    simp [h, eq_comm]
  · rename_i h
    simp [not_not.mp h]

theorem paragraphs_nil (u : Unicode) : paragraphs u [] = [] := by
  simp [paragraphs, Re.split, Re.splitFrom, stripText_eq]

/-- The separator is encoded first, then one paragraph after the other. -/
theorem encodeAll_eq_some {ps : List Text} {separator : List tk.Token}
    {tokens : List (List tk.Token)} : tk.encodeAll ps = some (separator, tokens) ↔
      tk.encode "\n\n".toList = some separator ∧ ps.mapM tk.encode = some tokens := by
  unfold encodeAll
  constructor
  · intro h
    obtain ⟨sep, hsep, h⟩ := Option.bind_eq_some_iff.mp h
    obtain ⟨ts, hts, h⟩ := Option.bind_eq_some_iff.mp h
    obtain ⟨rfl, rfl⟩ := Prod.mk.inj (Option.some.inj h)
    exact ⟨hsep, hts⟩
  · rintro ⟨hsep, hts⟩
    rw [hsep, hts]
    rfl

theorem chunkText_ok {u : Unicode} {text : Text} {maxTokens overlapTokens : Int}
    {chunks : List TextChunk} (h : tk.chunkText u text maxTokens overlapTokens = .ok chunks) :
    0 < maxTokens ∧ (paragraphs u (normalizeText u text) = [] ∧ chunks = [] ∨
      ∃ separator tokens, tk.encodeAll (paragraphs u (normalizeText u text)) = some (separator, tokens) ∧
        chunks = (tk.tokenChunks maxTokens.toNat (overlapOf maxTokens overlapTokens) separator
          tokens).filterMap tk.chunkOf) := by
  unfold chunkText at h
  split at h
  · cases h
  · rename_i hmax
    refine ⟨by omega, ?_⟩
    dsimp only at h
    split at h
    · rename_i hnil
      obtain rfl := Except.ok.inj h
      exact .inl ⟨by rw [hnil, paragraphs_nil], rfl⟩
    · split at h
      · cases h
      · rename_i separator tokens henc
        obtain rfl := Except.ok.inj h
        exact .inr ⟨separator, tokens, henc, rfl⟩

/-- **The chunks are within the bound** exactly when every unit fits, with a separator, behind the last
`overlap` tokens of the units before it. -/
theorem chunkText_bounded_iff (tk : Tokenizer) (u : Unicode) (text : Text)
    (maxTokens overlapTokens : Int) (chunks : List TextChunk)
    (h : tk.chunkText u text maxTokens overlapTokens = .ok chunks) :
    (∀ c ∈ chunks, c.tokenCount ≤ maxTokens) ↔
      ∀ separator tokens,
        tk.encodeAll (paragraphs u (normalizeText u text)) = some (separator, tokens) →
        ∀ before unit after,
          tokens.flatMap (unitsOf separator.length maxTokens.toNat (overlapOf maxTokens overlapTokens)) =
            before ++ unit :: after →
          Fits separator maxTokens.toNat tk.Blank
            (tailOf (overlapOf maxTokens overlapTokens) (before.foldl (extend separator) [])) unit := by
  obtain ⟨hmax, ⟨hnone, rfl⟩ | ⟨separator, tokens, henc, rfl⟩⟩ := chunkText_ok h
  · refine iff_of_true nofun fun separator tokens henc before unit after hsplit => ?_
    rw [hnone, encodeAll_eq_some] at henc
    obtain rfl := Option.some.inj henc.2
    simp at hsplit
  · have hbound : (∀ c ∈ (tk.tokenChunks maxTokens.toNat (overlapOf maxTokens overlapTokens) separator
        tokens).filterMap tk.chunkOf, c.tokenCount ≤ maxTokens) ↔
        ∀ ts ∈ tk.tokenChunks maxTokens.toNat (overlapOf maxTokens overlapTokens) separator tokens,
          ts.length ≤ maxTokens.toNat ∨ tk.Blank ts := by
      constructor
      · intro hall ts hts
        by_cases hblank : tk.Blank ts
        · exact .inr hblank
        · have hle := hall _ (List.mem_filterMap.mpr ⟨ts, hts, chunkOf_eq_some.mpr ⟨hblank, rfl⟩⟩)
          exact .inl (by dsimp only at hle; omega)
      · intro hall c hc
        obtain ⟨ts, hts, hchunk⟩ := List.mem_filterMap.mp hc
        obtain ⟨hblank, rfl⟩ := chunkOf_eq_some.mp hchunk
        have hle := (hall ts hts).resolve_right hblank
        show (ts.length : Int) ≤ maxTokens
        omega
    have hunits : ∀ unit ∈ tokens.flatMap (unitsOf separator.length maxTokens.toNat
        (overlapOf maxTokens overlapTokens)), unit.length ≤ maxTokens.toNat := by
      intro unit hunit
      obtain ⟨ts, -, hts⟩ := List.mem_flatMap.mp hunit
      exact unitsOf_bounded (by omega) hts
    rw [hbound, tokenChunks, pack_bounded_iff hunits]
    constructor
    · rintro ⟨-, hfit⟩ separator' tokens' henc'
      obtain ⟨rfl, rfl⟩ := Prod.mk.inj (Option.some.inj (henc.symm.trans henc'))
      exact hfit
    · intro hfit
      exact ⟨.inl (Nat.zero_le _), hfit separator tokens henc⟩

/-- Two paragraphs within the bound. -/
def twoParagraphs : Text := "aaaa\n\nbbbb".toList

theorem chunkText_twoParagraphs : Sample.tokenizer.chunkText Prompt.Sample.characters twoParagraphs 5 2 =
    .ok [⟨"aaaa".toList, 4⟩, ⟨"aa\n\nbbbb".toList, 8⟩] := by
  decide +kernel

/-- The second chunk of two short paragraphs is above the bound. -/
theorem chunk_above_bound : ¬∀ (tk : Tokenizer) u text maxTokens overlapTokens chunks,
    tk.chunkText u text maxTokens overlapTokens = .ok chunks → ∀ c ∈ chunks, c.tokenCount ≤ maxTokens := by
  intro h
  have hle := h _ _ _ _ _ _ chunkText_twoParagraphs ⟨"aa\n\nbbbb".toList, 8⟩
    (List.mem_cons_of_mem _ List.mem_cons_self)
  exact absurd hle (by decide)

theorem chunkText_bounded_iff_roomy :
    Sample.tokenizer.chunkText Prompt.Sample.characters twoParagraphs 9 2 =
      .ok [⟨"aaaa".toList, 4⟩, ⟨"aa\n\nbbbb".toList, 8⟩] ∧
    ∀ separator tokens, Sample.tokenizer.encodeAll
        (paragraphs Prompt.Sample.characters (normalizeText Prompt.Sample.characters twoParagraphs)) =
          some (separator, tokens) →
      ∀ before unit after, tokens.flatMap (unitsOf separator.length 9 2) = before ++ unit :: after →
        Fits separator 9 Sample.tokenizer.Blank (tailOf 2 (before.foldl (extend separator) [])) unit := by
  have hchunks : Sample.tokenizer.chunkText Prompt.Sample.characters twoParagraphs 9 2 =
      .ok [⟨"aaaa".toList, 4⟩, ⟨"aa\n\nbbbb".toList, 8⟩] := by decide +kernel
  refine ⟨hchunks, (chunkText_bounded_iff _ _ _ _ _ _ hchunks).mp fun c hc => ?_⟩
  rcases List.mem_cons.mp hc with rfl | hc
  · decide
  · rw [List.mem_singleton.mp hc]
    decide

end Tokenizer

end Knowledge
