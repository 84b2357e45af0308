import WhatsAppBot.Knowledge.Proof.Bound
import WhatsAppBot.Lib.MapM

/-!
# What the chunks keep of the text

`chunkText_covers`: when the windows are larger than the overlap, every paragraph within the bound is
whole in one chunk, every run of at most `overlap + 1` tokens of a longer one too, and the chunks are
the units in source order, in groups, each chunk behind the tail of the one before it.
-/

set_option autoImplicit false

namespace Knowledge

open Lib Prompt

section

variable {α : Type} {sep carried unit : List α} {overlap : Nat}

/-- A unit is whole in the chunk of its group. -/
theorem exists_chunk_of_mem {groups : List (List (List α))} (h : unit ∈ groups.flatten) :
    ∃ chunk ∈ assemble sep overlap carried groups, unit <:+: chunk := by
  induction groups generalizing carried with
  | nil => cases h
  | cons group groups ih =>
    rw [List.flatten_cons] at h
    rcases List.mem_append.mp h with h | h
    · exact ⟨_, List.mem_cons_self, infix_foldl_extend sep carried h⟩
    · obtain ⟨chunk, hchunk, hunit⟩ := ih h
      exact ⟨chunk, List.mem_cons_of_mem _ hchunk, hunit⟩

theorem length_assemble (groups : List (List (List α))) (carried : List α) :
    (assemble sep overlap carried groups).length = groups.length := by
  induction groups generalizing carried with
  | nil => rfl
  | cons group groups ih => exact congrArg (· + 1) (ih _)

/-- The chunks of the groups: the first one is its units, a later one the tail of the chunk before it
and its units, all joined by separators. -/
def Chained (sep : List α) (overlap : Nat) (groups : List (List (List α)))
    (chunks : List (List α)) : Prop :=
  groups.length = chunks.length ∧
    (∀ chunk ∈ chunks.head?, ∀ group ∈ groups.head?, chunk = sep.intercalate group) ∧
    ∀ n group previous chunk, groups[n + 1]? = some group → chunks[n]? = some previous →
      chunks[n + 1]? = some chunk →
      chunk = tailOf overlap previous ++ sep ++ sep.intercalate group

theorem assemble_next {groups : List (List (List α))} {carried : List α} (hoverlap : overlap ≠ 0)
    (hgroups : ∀ g ∈ groups, g ≠ []) (hunits : ∀ g ∈ groups, ∀ u ∈ g, u ≠ []) {n : Nat}
    {group : List (List α)} {previous chunk : List α} (hgroup : groups[n + 1]? = some group)
    (hprevious : (assemble sep overlap carried groups)[n]? = some previous)
    (hchunk : (assemble sep overlap carried groups)[n + 1]? = some chunk) :
    chunk = tailOf overlap previous ++ sep ++ sep.intercalate group := by
  induction groups generalizing carried n with
  | nil => cases hgroup
  | cons g groups ih =>
    have hrest : ∀ g ∈ groups, g ≠ [] := fun x hx => hgroups x (List.mem_cons_of_mem _ hx)
    have hrestUnits : ∀ g ∈ groups, ∀ u ∈ g, u ≠ [] := fun x hx =>
      hunits x (List.mem_cons_of_mem _ hx)
    cases n with
    | succ n => exact ih hrest hrestUnits hgroup hprevious hchunk
    | zero =>
      cases groups with
      | nil => cases hgroup
      | cons g' groups =>
        obtain rfl := Option.some.inj hgroup
        obtain rfl := Option.some.inj hprevious
        obtain rfl := Option.some.inj hchunk
        -- the chunk before is not empty, so neither is its tail
        obtain ⟨u, g, rfl⟩ := List.exists_cons_of_ne_nil (hgroups g List.mem_cons_self)
        have hu := hunits _ List.mem_cons_self u List.mem_cons_self
        have hchunk : (u :: g).foldl (extend sep) carried ≠ [] := by
          intro hnil
          have hin := infix_foldl_extend sep carried (List.mem_cons_self (a := u) (l := g))
          rw [hnil] at hin
          exact hu (List.infix_nil.mp hin)
        refine foldl_extend_of_ne (fun htail => ?_) (hrest g' List.mem_cons_self)
        exact (tailOf_eq_nil.mp htail).elim hoverlap hchunk

theorem chained_assemble {groups : List (List (List α))} (hoverlap : overlap ≠ 0)
    (hgroups : ∀ g ∈ groups, g ≠ []) (hunits : ∀ g ∈ groups, ∀ u ∈ g, u ≠ []) :
    Chained sep overlap groups (assemble sep overlap [] groups) := by
  refine ⟨(length_assemble groups []).symm, ?_, fun n group previous chunk hgroup hprevious hchunk =>
    assemble_next hoverlap hgroups hunits hgroup hprevious hchunk⟩
  cases groups with
  | nil => exact nofun
  | cons g groups =>
    intro chunk hchunk group hgroup
    obtain rfl := Option.some.inj hchunk
    obtain rfl := Option.some.inj hgroup
    exact foldl_extend_nil (hunits g List.mem_cons_self)

end

namespace Tokenizer

variable {tk : Tokenizer}

/-- **Nothing is lost.** When the windows are larger than the overlap the chunks are the units in
source order, in groups, each chunk after the first one behind the last `overlap` tokens of the chunk
before it; a paragraph within the bound is whole in a chunk, and so is every run of at most
`overlap + 1` tokens of a longer one. -/
theorem chunkText_covers (tk : Tokenizer)
    (hencode : ∀ s tokens, s ≠ [] → tk.encode s = some tokens → tokens ≠ [])
    (u : Unicode) (text : Text) (maxTokens overlapTokens : Int) (separator : List tk.Token)
    (tokens : List (List tk.Token))
    (htokens : tk.encodeAll (paragraphs u (normalizeText u text)) = some (separator, tokens))
    (hoverlap : 1 ≤ overlapTokens)
    (hroom : overlapTokens < maxTokens - overlapTokens - separator.length) :
    ∃ chunks, tk.chunkText u text maxTokens overlapTokens = .ok (chunks.filterMap tk.chunkOf) ∧
      (∃ groups, groups.flatten =
          tokens.flatMap (unitsOf separator.length maxTokens.toNat overlapTokens.toNat) ∧
        (∀ group ∈ groups, group ≠ []) ∧ Chained separator overlapTokens.toNat groups chunks) ∧
      ∀ p ∈ paragraphs u (normalizeText u text), ∀ ts, tk.encode p = some ts →
        (ts.length ≤ maxTokens → ∃ chunk ∈ chunks, ts <:+: chunk) ∧
        (maxTokens < ts.length → ∀ run, run <:+: ts → run.length ≤ overlapTokens + 1 →
          ∃ chunk ∈ chunks, run <:+: chunk) := by
  have hoverlapOf : overlapOf maxTokens overlapTokens = overlapTokens.toNat := by
    unfold overlapOf
    congr 1
    omega
  obtain ⟨hsep, hmap⟩ := encodeAll_eq_some.mp htokens
  have hparagraph : ∀ ts ∈ tokens, ts ≠ [] := by
    intro ts hts
    obtain ⟨p, hp, henc⟩ := (mem_mapM_iff hmap ts).mp hts
    exact hencode p ts (of_decide_eq_true (List.mem_filter.mp hp).2) henc
  have hunits : ∀ unit ∈ tokens.flatMap (unitsOf separator.length maxTokens.toNat overlapTokens.toNat),
      unit ≠ [] := by
    intro unit hunit
    obtain ⟨ts, hts, hmem⟩ := List.mem_flatMap.mp hunit
    unfold unitsOf at hmem
    split at hmem
    · rw [List.mem_singleton.mp hmem]
      exact hparagraph ts hts
    · exact (of_mem_windows (by omega) hmem).2.1
  obtain ⟨groups, hflatten, hgroups, hpack⟩ := pack_groups separator maxTokens.toNat
    overlapTokens.toNat hunits
  have hmem : ∀ unit ∈ tokens.flatMap (unitsOf separator.length maxTokens.toNat overlapTokens.toNat),
      ∃ chunk ∈ tk.tokenChunks maxTokens.toNat overlapTokens.toNat separator tokens,
        unit <:+: chunk := by
    intro unit hunit
    rw [tokenChunks, hpack]
    exact exists_chunk_of_mem (hflatten ▸ hunit)
  refine ⟨tk.tokenChunks maxTokens.toNat overlapTokens.toNat separator tokens, ?_,
    ⟨groups, hflatten, hgroups, ?_⟩, fun p hp ts henc => ⟨fun hle => ?_, fun hlong run hrun hlen => ?_⟩⟩
  · unfold chunkText
    rw [if_neg (by omega)]
    dsimp only
    rw [htokens, hoverlapOf]
    split
    · rename_i hnil
      rw [hnil, paragraphs_nil] at hmap
      obtain rfl := Option.some.inj hmap
      rfl
    · rfl
  · rw [tokenChunks, hpack]
    refine chained_assemble (by omega) hgroups fun g hg unit hunit => hunits unit ?_
    rw [← hflatten]
    exact List.mem_flatten.mpr ⟨g, hg, hunit⟩
  · refine hmem ts (List.mem_flatMap.mpr ⟨ts, (mem_mapM_iff hmap ts).mpr ⟨p, hp, henc⟩, ?_⟩)
    rw [unitsOf, if_pos (by omega)]
    exact List.mem_singleton.mpr rfl
  · have hts := (mem_mapM_iff hmap ts).mpr ⟨p, hp, henc⟩
    obtain ⟨w, hw, hrunw⟩ := exists_window
      (max 1 (maxTokens.toNat - overlapTokens.toNat - separator.length))
      (max 1 (max 1 (maxTokens.toNat - overlapTokens.toNat - separator.length) -
        overlapTokens.toNat)) (by omega) (hparagraph ts hts) hrun (by omega)
    obtain ⟨chunk, hchunk, hwc⟩ := hmem w (List.mem_flatMap.mpr ⟨ts, hts, by
      rw [unitsOf, if_neg (by omega)]
      exact hw⟩)
    exact ⟨chunk, hchunk, hrunw.trans hwc⟩

/-- A paragraph in two windows. -/
theorem chunkText_covers_long : ∃ chunks : List (List Char), Sample.tokenizer.chunkText Prompt.Sample.characters
      "abcdefgh".toList 6 1 = .ok (chunks.filterMap Sample.tokenizer.chunkOf) ∧
    ∃ chunk ∈ chunks, "cd".toList <:+: chunk := by
  have hparagraphs : paragraphs Prompt.Sample.characters
      (normalizeText Prompt.Sample.characters "abcdefgh".toList) = ["abcdefgh".toList] := by
    decide +kernel
  obtain ⟨chunks, hok, -, hall⟩ := chunkText_covers Sample.tokenizer
    (fun s tokens hs h => Option.some.inj h ▸ hs) Prompt.Sample.characters "abcdefgh".toList 6 1
    "\n\n".toList ["abcdefgh".toList] (by rw [hparagraphs]; rfl) (by decide) (by decide)
  refine ⟨chunks, hok, (hall _ (by rw [hparagraphs]; exact List.mem_cons_self) _ rfl).2 (by decide)
    "cd".toList ?_ (by decide)⟩
  exact ⟨"ab".toList, "efgh".toList, rfl⟩

end Tokenizer

end Knowledge
