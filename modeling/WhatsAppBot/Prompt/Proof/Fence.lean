import Mathlib.Algebra.GroupWithZero.Nat
import WhatsAppBot.Prompt.Proof.Name
import WhatsAppBot.Prompt.Proof.Plain
import WhatsAppBot.Prompt.Sample

/-!
# The fence around the retrieved documents

`_neutralise` deletes the three delimiters in one pass each. `Hides` describes the texts in which a
delimiter comes together while others are taken out, and `neutralise_clean_iff` shows that these are
the only ones that leave a delimiter behind. `fence_contained_iff` carries this to the prompt.
-/

set_option autoImplicit false

namespace Prompt

open Lib

theorem closingFence_tag : IsTag '<' '>' closingFence :=
  ⟨"/retrieved_documents".toList, by decide, by decide, by decide⟩

theorem openingFence_tag : IsTag '<' '>' openingFence :=
  ⟨"retrieved_documents".toList, by decide, by decide, by decide⟩

theorem closingDocument_tag : IsTag '<' '>' closingDocument :=
  ⟨"/document".toList, by decide, by decide, by decide⟩

theorem fenceEscapes_tag {tag : Text} (h : tag ∈ fenceEscapes) : IsTag '<' '>' tag := by
  simp only [fenceEscapes, List.mem_cons, List.not_mem_nil, or_false] at h
  rcases h with rfl | rfl | rfl
  · exact closingFence_tag
  · exact openingFence_tag
  · exact closingDocument_tag

/-- A delimiter is in `content` with others laced into it: it comes together as the passes take
those out, and the pass that would take it out comes too early. -/
def Hides (content : Text) : Prop :=
  ∃ tag ∈ fenceEscapes, ∃ x y z, Laced closingDocument tag x ∧ x ≠ closingDocument ∧
    Laced openingFence x y ∧ y ≠ openingFence ∧ Laced closingFence y z ∧ z ≠ closingFence ∧
    z <:+: content

/-! ## Neutralising -/

theorem infix_dropWhile {p : Char → Bool} {d : Text} (hd : d ≠ []) (hp : ∀ c ∈ d, p c = false)
    (s : Text) : d <:+: s.dropWhile p ↔ d <:+: s := by
  induction s with
  | nil => simp
  | cons c s ih =>
    by_cases hc : p c
    · have hn : ¬ d <+: c :: s := by
        obtain ⟨x, d, rfl⟩ := List.exists_cons_of_ne_nil hd
        intro h
        obtain ⟨rfl, -⟩ := List.cons_prefix_cons.1 h
        simp [hp x (by simp)] at hc
      simp [hc, ih, List.infix_cons_iff, hn]
    · simp [hc]

/-- Stripping white space takes no delimiter away. -/
theorem infix_stripText {d : Text} (hd : d ≠ []) (hp : ∀ c ∈ d, isSpace c = false) (s : Text) :
    d <:+: stripText s ↔ d <:+: s := by
  have hr : d.reverse ≠ [] := by simpa using hd
  have hpr : ∀ c ∈ d.reverse, isSpace c = false := fun c hc => hp c (List.mem_reverse.1 hc)
  rw [stripText_eq, ← List.reverse_infix, List.reverse_reverse, infix_dropWhile hr hpr,
    List.reverse_infix, infix_dropWhile hd hp]

theorem fenceEscapes_plain : ∀ tag ∈ fenceEscapes, ∀ c ∈ tag, isSpace c = false := by
  have h : fenceEscapes.all (fun tag => tag.all fun c => !isSpace c) = true := by decide
  intro tag ht c hc
  have htag := List.all_eq_true.1 h tag ht
  simpa using List.all_eq_true.1 htag c hc

/-- What the three passes leave has the delimiter exactly when it was laced with the others. -/
theorem infix_neutralise_iff {tag : Text} (ht : tag ∈ fenceEscapes) (content : Text) :
    tag <:+: neutralise content ↔ ∃ x y z, Laced closingDocument tag x ∧ x ≠ closingDocument ∧
      Laced openingFence x y ∧ y ≠ openingFence ∧ Laced closingFence y z ∧ z ≠ closingFence ∧
      z <:+: content := by
  have hab : '<' ≠ '>' := by decide
  have htag := fenceEscapes_tag ht
  have hod : openingFence ≠ closingDocument := by decide
  have hfd : closingFence ≠ closingDocument := by decide
  have hfo : closingFence ≠ openingFence := by decide
  -- a delimiter in a delimiter laced with others is that delimiter, with nothing laced into it
  have hself : ∀ {d : Text}, IsTag '<' '>' d → d <:+: tag → tag = d :=
    fun hd h => (hd.eq_of_infix htag hab h).symm
  have hx_self : ∀ {x}, Laced closingDocument tag x → ∀ {d}, IsTag '<' '>' d →
      d ≠ closingDocument → d <:+: x → x = d := fun hx _ hd hne h =>
    hx.eq_of_infix hd closingDocument_tag hab hne (hself hd) h
  rw [neutralise, infix_stripText htag.ne_nil (fenceEscapes_plain _ ht)]
  simp only [fenceEscapes, List.foldl_cons, List.foldl_nil]
  rw [infix_delete_iff closingDocument_tag hab htag.bracketed (hself closingDocument_tag)]
  constructor
  · rintro ⟨x, hx, hxd, hi⟩
    have hxb := hx.bracketed hab htag.bracketed
    rw [infix_delete_iff openingFence_tag hab hxb (hx_self hx openingFence_tag hod)] at hi
    obtain ⟨y, hy, hyo, hi⟩ := hi
    rw [infix_delete_iff closingFence_tag hab (hy.bracketed hab hxb) fun h =>
      hy.eq_of_infix closingFence_tag openingFence_tag hab hfo
        (hx_self hx closingFence_tag hfd) h] at hi
    obtain ⟨z, hz, hzf, hi⟩ := hi
    exact ⟨x, y, z, hx, hxd, hy, hyo, hz, hzf, hi⟩
  · rintro ⟨x, y, z, hx, hxd, hy, hyo, hz, hzf, hi⟩
    have hxb := hx.bracketed hab htag.bracketed
    refine ⟨x, hx, hxd, ?_⟩
    rw [infix_delete_iff openingFence_tag hab hxb (hx_self hx openingFence_tag hod)]
    refine ⟨y, hy, hyo, ?_⟩
    rw [infix_delete_iff closingFence_tag hab (hy.bracketed hab hxb) fun h =>
      hy.eq_of_infix closingFence_tag openingFence_tag hab hfo
        (hx_self hx closingFence_tag hfd) h]
    exact ⟨z, hz, hzf, hi⟩

theorem neutralise_clean_iff (content : Text) :
    (∀ tag ∈ fenceEscapes, ¬ tag <:+: neutralise content) ↔ ¬ Hides content := by
  constructor
  · rintro h ⟨tag, ht, hx⟩
    exact h tag ht ((infix_neutralise_iff ht content).2 hx)
  · intro h tag ht hi
    exact h ⟨tag, ht, (infix_neutralise_iff ht content).1 hi⟩

/-! ## Counting the closing tags of a prompt -/

/-- What the two closing tags have in common: the symbols around an insertion are none of theirs. -/
structure Closing (tag : Text) : Prop where
  head : ∃ rest, tag = '<' :: rest
  plain : ∀ c ∈ tag, isSpace c = false
  apart : ∀ c ∈ ['\n', '"', '.'], c ∉ tag
  opening : occurrences tag "<document id=".toList = 0 ∧ occurrences tag openingFence = 0

theorem closing_closingFence : Closing closingFence where
  head := ⟨"/retrieved_documents>".toList, by decide⟩
  plain := fenceEscapes_plain _ (by decide)
  apart := by
    simp only [List.forall_mem_cons]
    exact ⟨by decide, by decide, by decide, nofun⟩
  opening := by decide

theorem closing_closingDocument : Closing closingDocument where
  head := ⟨"/document>".toList, by decide⟩
  plain := fenceEscapes_plain _ (by decide)
  apart := by
    simp only [List.forall_mem_cons]
    exact ⟨by decide, by decide, by decide, nofun⟩
  opening := by decide

section Count

variable {tag : Text} (ht : Closing tag)
include ht

theorem Closing.ne_nil : tag ≠ [] := by
  obtain ⟨rest, rfl⟩ := ht.head
  simp

/-- Text without an opening bracket in front of an insertion. -/
theorem count_after {p : Text} (hp : '<' ∉ p) (s : Text) :
    occurrences tag (p ++ s) = occurrences tag s := by
  obtain ⟨rest, rfl⟩ := ht.head
  exact occurrences_append_right rest hp s

theorem count_plain {p : Text} (hp : '<' ∉ p) : occurrences tag p = 0 := by
  simpa [occurrences] using count_after ht hp []

theorem count_apart {c : Char} (hc : c ∈ ['\n', '"', '.']) (p s : Text) :
    occurrences tag (p ++ c :: s) = occurrences tag p + occurrences tag s :=
  occurrences_append_cons ht.ne_nil (ht.apart c hc) p s

theorem count_intercalate {sep : Text} (hs : '<' ∉ sep) (ss : List Text) :
    occurrences tag (List.intercalate ('\n' :: sep) ss) = (ss.map (occurrences tag)).sum := by
  induction ss with
  | nil => rfl
  | cons s ss ih =>
    cases ss with
    | nil => simp
    | cons t ss =>
      rw [List.intercalate_cons_cons, List.append_assoc, List.cons_append,
        count_apart ht (by simp), count_after ht hs, ih]
      simp

theorem count_stripText (s : Text) : occurrences tag (stripText s) = 0 ↔ occurrences tag s = 0 := by
  rw [occurrences_eq_zero ht.ne_nil, occurrences_eq_zero ht.ne_nil,
    infix_stripText ht.ne_nil ht.plain]

theorem count_joinLines (ls : List Text) :
    occurrences tag (joinLines ls) = (ls.map (occurrences tag)).sum :=
  count_intercalate ht List.not_mem_nil ls

theorem count_joined {ls : List String} (hl : ∀ l ∈ ls, '<' ∉ l.toList) :
    occurrences tag (joined ls) = 0 := by
  rw [joined, count_joinLines ht, List.map_map, List.sum_eq_zero_iff_forall_eq_nat]
  intro n hn
  obtain ⟨l, h, rfl⟩ := List.mem_map.1 hn
  exact count_plain ht (hl l h)

end Count

/-! ## The sections -/

section Sections

variable {tag : Text} (ht : Closing tag) (s : Settings)
include ht

theorem count_fixed (ls : List String) (hl : ∀ l ∈ ls, l ∈ fixedLines) :
    occurrences tag (joined ls) = 0 :=
  count_joined ht fun l h => plain_fixedLines l (hl l h)

theorem count_systemSection :
    occurrences tag (systemSection s) = 0 ↔ occurrences tag s.systemPrompt = 0 := by
  rw [systemSection, ← count_stripText ht s.systemPrompt]
  split
  · rfl
  · rename_i h
    rw [not_not] at h
    simp [h, occurrences, count_fixed ht persona fun l h => mem_fixedLines.2 (.inl h)]

theorem count_companySection :
    ((companySection s).map (occurrences tag)).sum = 0 ↔ occurrences tag s.companyInfo = 0 := by
  have hlabel : '<' ∉ "# Company information\n".toList := not_mem_toList rfl
  have hcount := count_after ht hlabel (stripText s.companyInfo)
  rw [companySection, ← count_stripText ht s.companyInfo]
  by_cases h : stripText s.companyInfo = []
  · simp [h, occurrences]
  · rw [if_pos h, List.map_singleton, hcount, List.sum_singleton]

/-- The portfolio link is there only beside a website, and repeats it when it has none of its own. -/
theorem count_portfolioSection :
    ((portfolioSection s).map (occurrences tag)).sum = 0 ↔ occurrences tag s.companyWebsite = 0 ∧
      (stripText s.companyWebsite ≠ [] → occurrences tag s.companyPortfolioUrl = 0) := by
  have hwebsite : '<' ∉ "Website: ".toList := not_mem_toList rfl
  have hportfolio : '<' ∉ "Portfolio: ".toList := not_mem_toList rfl
  have hopening := count_fixed ht portfolioOpening fun l h => mem_fixedLines.2 (by simp [h])
  have hclosing := count_fixed ht portfolioClosing fun l h => mem_fixedLines.2 (by simp [h])
  have hw := count_after ht hwebsite (stripText s.companyWebsite)
  have hp := count_after ht hportfolio s.portfolioUrl
  -- a blank link, and one that repeats the website, adds no line and no tag
  have hlink : occurrences tag (stripText s.companyWebsite) = 0 →
      (((if s.portfolioUrl ≠ [] ∧ s.portfolioUrl ≠ stripText s.companyWebsite then
          ["Portfolio: ".toList ++ s.portfolioUrl] else []).map (occurrences tag)).sum = 0 ↔
        occurrences tag (stripText s.companyPortfolioUrl) = 0) := by
    intro h0
    by_cases hu : stripText s.companyPortfolioUrl = []
    · have hurl : s.portfolioUrl = stripText s.companyWebsite := by
        rw [Settings.portfolioUrl, if_neg (not_not.2 hu)]
      rw [if_neg fun h => h.2 hurl, hu]
      simp [occurrences]
    · have hurl : s.portfolioUrl = stripText s.companyPortfolioUrl := by
        rw [Settings.portfolioUrl, if_pos hu]
      by_cases hl : s.portfolioUrl = stripText s.companyWebsite
      · rw [if_neg fun h => h.2 hl, ← hurl, hl, h0]
        simp
      · rw [if_pos ⟨hurl ▸ hu, hl⟩, List.map_singleton, List.sum_singleton, hp, hurl]
  rw [← count_stripText ht s.companyWebsite, ← count_stripText ht s.companyPortfolioUrl]
  unfold portfolioSection
  by_cases h : stripText s.companyWebsite = []
  · simp [h, occurrences]
  · rw [if_pos h, List.map_singleton, List.sum_singleton, count_joinLines ht]
    simp only [List.map_append, List.map_cons, List.map_nil, List.sum_append, List.sum_cons,
      List.sum_nil, hw, hopening, hclosing, Nat.zero_add, Nat.add_zero, Nat.add_eq_zero_iff]
    exact and_congr_right fun h0 => (hlink h0).trans ⟨fun h1 _ => h1, fun h1 => h1 h⟩

end Sections

/-! ## The documents -/

section Documents

variable {tag : Text} (ht : Closing tag) (u : Unicode)
include ht

omit ht in
theorem renderDocument_eq (doc : RetrievedDocument) (i : Nat) :
    renderDocument u doc i = "<document id=".toList ++ '"' :: (Nat.toDigits 10 i ++ '"' ::
      (" source=".toList ++ '"' :: (prepare u doc.source ++ '"' ::
        (['>'] ++ '\n' :: (prepare u doc.content ++ '\n' :: closingDocument))))) := by
  have hid : "<document id=\"".toList = "<document id=".toList ++ ['"'] := by decide
  have hsource : "\" source=\"".toList = '"' :: (" source=".toList ++ ['"']) := by decide
  have hend : "\">\n".toList = ['"', '>', '\n'] := by decide
  unfold renderDocument
  simp only [hid, hsource, hend]
  simp only [List.append_assoc, List.cons_append, List.nil_append]

theorem count_pieces {p₁ p₂ p₃ p₄ : Text} (h₁ : occurrences tag p₁ = 0) (h₂ : '<' ∉ p₂)
    (h₃ : '<' ∉ p₃) (h₄ : '<' ∉ p₄) (source content last : Text) :
    occurrences tag (p₁ ++ '"' :: (p₂ ++ '"' :: (p₃ ++ '"' :: (source ++ '"' ::
      (p₄ ++ '\n' :: (content ++ '\n' :: last)))))) =
    occurrences tag source + occurrences tag content + occurrences tag last := by
  have hq := ht.apart
  rw [count_apart ht (by simp), count_apart ht (by simp), count_apart ht (by simp),
    count_apart ht (by simp), count_apart ht (by simp), count_apart ht (by simp), h₁,
    count_plain ht h₂, count_plain ht h₃, count_plain ht h₄]
  omega

theorem count_renderDocument (doc : RetrievedDocument) (i : Nat) :
    occurrences tag (renderDocument u doc i) = occurrences tag (prepare u doc.source) +
      occurrences tag (prepare u doc.content) + occurrences tag closingDocument := by
  have hdigits : '<' ∉ Nat.toDigits 10 i := not_mem_toDigits (by decide) i
  have hsource : '<' ∉ " source=".toList := not_mem_toList rfl
  have hbracket : '<' ∉ ['>'] := by decide
  rw [renderDocument_eq]
  exact count_pieces ht ht.opening.1 hdigits hsource hbracket _ _ _

theorem count_rendered (documents : List RetrievedDocument) :
    occurrences tag (rendered u documents) =
      (documents.map fun doc => occurrences tag (prepare u doc.source) +
        occurrences tag (prepare u doc.content)).sum +
      documents.length * occurrences tag closingDocument := by
  have hsum : ∀ n, ((documents.zipIdx n).map fun doc =>
      occurrences tag (renderDocument u doc.1 doc.2)).sum =
      (documents.map fun doc => occurrences tag (prepare u doc.source) +
        occurrences tag (prepare u doc.content)).sum +
      documents.length * occurrences tag closingDocument := by
    induction documents with
    | nil => simp
    | cons doc docs ih =>
      intro n
      have hdocs := ih (n + 1)
      have hdoc := count_renderDocument ht u doc n
      simp only [List.zipIdx_cons, List.map_cons, List.sum_cons, List.length_cons, Nat.succ_mul,
        hdocs, hdoc]
      omega
  have hblank : "\n\n".toList = '\n' :: ['\n'] := by decide
  rw [rendered, hblank, count_intercalate ht (by simp), List.map_map]
  exact hsum 1

theorem count_retrievedSection (documents : List RetrievedDocument) :
    occurrences tag (retrievedSection u documents) = occurrences tag (rendered u documents) +
      occurrences tag closingFence := by
  have hpreface := count_fixed ht retrievedPreface fun l h => mem_fixedLines.2 (by simp [h])
  have hblank : "\n\n".toList = ['\n', '\n'] := by decide
  have hpieces : retrievedSection u documents = joined retrievedPreface ++ '\n' :: ([] ++ '\n' ::
      (openingFence ++ '\n' :: (rendered u documents ++ '\n' :: closingFence))) := by
    unfold retrievedSection
    simp only [hblank, List.append_assoc, List.cons_append, List.nil_append]
  rw [hpieces, count_apart ht (by simp), count_apart ht (by simp), count_apart ht (by simp),
    count_apart ht (by simp), hpreface, ht.opening.2]
  simp [occurrences]

end Documents

section Rest

variable {tag : Text} (ht : Closing tag) (u : Unicode) (s : Settings)
include ht

theorem count_nameLines' (name : Option Text) :
    ((nameLines name).map (occurrences tag)).sum = occurrences tag (name.getD []) := by
  have hlabel : '<' ∉ "Customer name: ".toList := not_mem_toList rfl
  cases name with
  | none => rfl
  | some n =>
    have hn := count_after ht hlabel n
    by_cases h : n = []
    · simp [nameLines, h, occurrences]
    · simp only [nameLines, if_pos h, List.map_singleton, hn, List.sum_singleton, Option.getD_some]

theorem count_contextSection (moment : DateTime) (name : Option Text) :
    occurrences tag (contextSection moment name) = occurrences tag (name.getD []) := by
  have hheading : '<' ∉ "# Conversation context\n".toList := not_mem_toList rfl
  have htime : occurrences tag (timeLine moment) = 0 := by
    have hlabel : '<' ∉ "Current UTC time: ".toList := not_mem_toList rfl
    have hformat := not_mem_format (c := '<') (by decide) (by decide) moment
    exact count_plain ht fun h => (List.mem_append.1 h).elim hlabel hformat
  have hlines := count_joinLines ht (timeLine moment :: nameLines name)
  have hsection := count_after ht hheading (joinLines (timeLine moment :: nameLines name))
  rw [List.map_cons, List.sum_cons, htime, count_nameLines' ht, Nat.zero_add] at hlines
  exact hsection.trans hlines

theorem count_instructionLayer :
    occurrences tag (instructionLayer s.salesPhone) = 0 ↔ occurrences tag s.salesPhone = 0 := by
  have hplain : ∀ l ∈ [pricingInvitation, pricingWithPhone, pricingAfterPhone,
      pricingWithoutPhone], '<' ∉ l.toList := fun l h =>
    plain_fixedLines l (mem_fixedLines.2 (by simp [h]))
  have hopening := count_fixed ht pricingOpening fun l h => mem_fixedLines.2 (by simp [h])
  have hclosing := count_fixed ht pricingClosing fun l h => mem_fixedLines.2 (by simp [h])
  obtain ⟨rest, hrest⟩ : ∃ rest, pricingAfterPhone.toList = '.' :: rest :=
    ⟨_, String.toList_ofList⟩
  have hrest0 : '<' ∉ rest := fun h => hplain pricingAfterPhone (by simp) (by simp [hrest, h])
  have hcontact : ∀ contact, occurrences tag (joined pricingOpening ++ ['\n'] ++
      pricingInvitation.toList ++ contact ++ ['\n'] ++ joined pricingClosing) =
      occurrences tag contact := by
    intro contact
    have hi := count_after ht (hplain pricingInvitation (by simp)) (contact ++ '\n' ::
      joined pricingClosing)
    have hpieces : joined pricingOpening ++ ['\n'] ++ pricingInvitation.toList ++ contact ++
        ['\n'] ++ joined pricingClosing = joined pricingOpening ++ '\n' ::
          (pricingInvitation.toList ++ (contact ++ '\n' :: joined pricingClosing)) := by
      simp only [List.append_assoc, List.cons_append, List.nil_append]
    rw [hpieces, count_apart ht (by simp), hopening, hi, count_apart ht (by simp), hclosing]
    omega
  rw [← count_stripText ht s.salesPhone, instructionLayer, hcontact]
  by_cases h : stripText s.salesPhone = []
  · have hwithout := count_plain ht (hplain pricingWithoutPhone (by simp))
    rw [if_neg (not_not.2 h), hwithout, h]
    rfl
  · have hwith := count_after ht (hplain pricingWithPhone (by simp))
      (stripText s.salesPhone ++ '.' :: rest)
    rw [if_pos h, hrest, List.append_assoc, hwith, count_apart ht (by simp),
      count_plain ht hrest0, Nat.add_zero]

end Rest

/-! ## Main theorem -/

/-- No text of a document has a delimiter, and the prompt has one closing tag for the fence, behind
all the documents, and one for each document. -/
structure FenceContained (u : Unicode) (documents : List RetrievedDocument) (prompt : Text) :
    Prop where
  prepared : ∀ doc ∈ documents, ∀ tag ∈ fenceEscapes,
    ¬ tag <:+: prepare u doc.source ∧ ¬ tag <:+: prepare u doc.content
  fence : occurrences closingFence prompt = if documents = [] then 0 else 1
  behind : documents ≠ [] → ∃ head tail,
    prompt = head ++ (rendered u documents ++ '\n' :: closingFence) ++ tail
  each : occurrences closingDocument prompt = documents.length

/-- What else a prompt is made from; the portfolio link is used only beside a website. -/
def insertedTexts (s : Settings) (name : Option Text) : List Text :=
  [s.systemPrompt, s.companyInfo, s.companyWebsite] ++
    (if stripText s.companyWebsite ≠ [] then [s.companyPortfolioUrl] else []) ++
    [name.getD [], s.salesPhone]

section Main

variable (u : Unicode) (s : Settings) (moment : DateTime) (name : Option Text)
  (documents : List RetrievedDocument) (retrievalAttempted isFirstMessage generalQuestion : Bool)

def countInserted (tag : Text) : Nat :=
  occurrences tag (systemSection s) + ((companySection s).map (occurrences tag)).sum +
    ((portfolioSection s).map (occurrences tag)).sum + occurrences tag (contextSection moment name) +
    occurrences tag (instructionLayer s.salesPhone)

omit u s moment name documents retrievalAttempted isFirstMessage generalQuestion in
theorem count_sections {tag : Text} (ht : Closing tag) (a e g h : Text) (b c d f : List Text) :
    occurrences tag (List.intercalate ['\n', '\n'] ([a] ++ b ++ c ++ d ++ [e] ++ f ++ [g, h])) =
      occurrences tag a + (b.map (occurrences tag)).sum + (c.map (occurrences tag)).sum +
        (d.map (occurrences tag)).sum + occurrences tag e + (f.map (occurrences tag)).sum +
        occurrences tag g + occurrences tag h := by
  rw [count_intercalate ht (by simp)]
  simp only [List.map_append, List.map_cons, List.map_nil, List.sum_append, List.sum_cons,
    List.sum_nil]
  omega

theorem count_buildInstructions {tag : Text} (ht : Closing tag) :
    occurrences tag (buildInstructions u s moment name documents retrievalAttempted isFirstMessage
      generalQuestion) =
    ((knowledgeSection u documents retrievalAttempted generalQuestion).map (occurrences tag)).sum +
      countInserted s moment name tag := by
  have hblank : "\n\n".toList = ['\n', '\n'] := by decide
  have hfirst := count_fixed ht firstMessageLayer fun l h => mem_fixedLines.2 (by simp [h])
  have hrules := count_fixed ht responseRules fun l h => mem_fixedLines.2 (by simp [h])
  have hopt : (((if isFirstMessage then [joined firstMessageLayer] else []) : List Text).map
      (occurrences tag)).sum = 0 := by
    cases isFirstMessage
    · rfl
    · rw [if_pos rfl, List.map_singleton, List.sum_singleton, hfirst]
  rw [buildInstructions, hblank, sections, count_sections ht, hopt, hrules, countInserted]
  omega

theorem mem_insertedTexts {P : Text → Prop} : (∀ t ∈ insertedTexts s name, P t) ↔
    P s.systemPrompt ∧ P s.companyInfo ∧ P s.companyWebsite ∧
      (stripText s.companyWebsite ≠ [] → P s.companyPortfolioUrl) ∧ P (name.getD []) ∧
        P s.salesPhone := by
  unfold insertedTexts
  by_cases h : stripText s.companyWebsite = [] <;> simp [h]

theorem countInserted_eq_zero {tag : Text} (ht : Closing tag) :
    countInserted s moment name tag = 0 ↔ ∀ t ∈ insertedTexts s name, ¬ tag <:+: t := by
  have hz := fun t => occurrences_eq_zero (s := t) ht.ne_nil
  have hcontext := count_contextSection ht moment name
  rw [mem_insertedTexts]
  simp only [← hz, countInserted, Nat.add_eq_zero_iff, count_systemSection ht,
    count_companySection ht, count_portfolioSection ht, hcontext, count_instructionLayer ht]
  simp only [and_assoc]

theorem count_knowledge_plain {tag : Text} (ht : Closing tag) :
    ((knowledgeSection u [] retrievalAttempted generalQuestion).map (occurrences tag)).sum = 0 := by
  have hnothing := count_fixed ht nothingRetrieved fun l h => mem_fixedLines.2 (by simp [h])
  have hgeneral := count_fixed ht generalQuestionLayer fun l h =>
    mem_fixedLines.2 (by simp [h])
  unfold knowledgeSection
  rw [if_neg (by simp)]
  split
  · rw [List.map_singleton, List.sum_singleton, hnothing]
  · split
    · rw [List.map_singleton, List.sum_singleton, hgeneral]
    · rfl

/-- Documents whose texts have no delimiter have only the closing tags that frame them. -/
theorem count_knowledgeSection {tag : Text} (ht : Closing tag) (hne : documents ≠ [])
    (hclean : ∀ doc ∈ documents, ¬ tag <:+: prepare u doc.source ∧ ¬ tag <:+: prepare u doc.content) :
    ((knowledgeSection u documents retrievalAttempted generalQuestion).map (occurrences tag)).sum =
      documents.length * occurrences tag closingDocument + occurrences tag closingFence := by
  have hdocs : (documents.map fun doc => occurrences tag (prepare u doc.source) +
      occurrences tag (prepare u doc.content)).sum = 0 := by
    rw [List.sum_eq_zero_iff_forall_eq_nat]
    intro n hn
    obtain ⟨doc, hd, rfl⟩ := List.mem_map.1 hn
    rw [(occurrences_eq_zero ht.ne_nil).2 (hclean doc hd).1,
      (occurrences_eq_zero ht.ne_nil).2 (hclean doc hd).2]
  rw [knowledgeSection, if_pos hne, List.map_singleton, List.sum_singleton,
    count_retrievedSection ht, count_rendered ht, hdocs, Nat.zero_add]

theorem clean_iff : (∀ doc ∈ documents, ∀ tag ∈ fenceEscapes,
      ¬ tag <:+: prepare u doc.source ∧ ¬ tag <:+: prepare u doc.content) ↔
    ∀ doc ∈ documents, ¬ Hides (redact u doc.source) ∧ ¬ Hides (redact u doc.content) := by
  refine forall₂_congr fun doc _ => ?_
  rw [← neutralise_clean_iff, ← neutralise_clean_iff]
  exact forall₂_and

theorem count_tags : occurrences closingFence closingFence = 1 ∧
    occurrences closingFence closingDocument = 0 ∧ occurrences closingDocument closingFence = 0 ∧
    occurrences closingDocument closingDocument = 1 := by decide

theorem count_closingFence (hclean : ∀ doc ∈ documents, ∀ tag ∈ fenceEscapes,
      ¬ tag <:+: prepare u doc.source ∧ ¬ tag <:+: prepare u doc.content) :
    ((knowledgeSection u documents retrievalAttempted generalQuestion).map
      (occurrences closingFence)).sum = if documents = [] then 0 else 1 := by
  obtain ⟨hff, hfd, -, -⟩ := count_tags
  by_cases hne : documents = []
  · rw [hne, count_knowledge_plain _ _ _ closing_closingFence, if_pos rfl]
  · rw [count_knowledgeSection _ _ _ _ closing_closingFence hne
      fun doc hd => hclean doc hd _ (by simp [fenceEscapes]), hff, hfd, if_neg hne]
    simp

theorem count_closingDocument (hclean : ∀ doc ∈ documents, ∀ tag ∈ fenceEscapes,
      ¬ tag <:+: prepare u doc.source ∧ ¬ tag <:+: prepare u doc.content) :
    ((knowledgeSection u documents retrievalAttempted generalQuestion).map
      (occurrences closingDocument)).sum = documents.length := by
  obtain ⟨-, -, hdf, hdd⟩ := count_tags
  by_cases hne : documents = []
  · rw [hne, count_knowledge_plain _ _ _ closing_closingDocument]
    rfl
  · rw [count_knowledgeSection _ _ _ _ closing_closingDocument hne
      fun doc hd => hclean doc hd _ (by simp [fenceEscapes]), hdf, hdd]
    simp

theorem rendered_in_prompt (hne : documents ≠ []) : ∃ head tail,
    buildInstructions u s moment name documents retrievalAttempted isFirstMessage generalQuestion =
      head ++ (rendered u documents ++ '\n' :: closingFence) ++ tail := by
  have hsections : sections u s moment name documents retrievalAttempted isFirstMessage
      generalQuestion = ([systemSection s] ++ companySection s ++ portfolioSection s) ++
        ([retrievedSection u documents] ++ ([contextSection moment name] ++
          sectionsAfter s isFirstMessage)) := by
    simp [sections, sectionsAfter, knowledgeSection, hne]
  have hpieces : retrievedSection u documents = (joined retrievedPreface ++ "\n\n".toList ++
      openingFence ++ ['\n']) ++ (rendered u documents ++ '\n' :: closingFence) := by
    simp only [retrievedSection, List.append_assoc, List.cons_append, List.nil_append]
  rw [buildInstructions, hsections, intercalate_append
    ([systemSection s] ++ companySection s ++ portfolioSection s) _ (by simp) (by simp),
    intercalate_append [retrievedSection u documents] _ (by simp) (by simp),
    List.intercalate_singleton, hpieces]
  have hframe : ∀ a b p x c d : Text,
      a ++ b ++ (p ++ x ++ c ++ d) = (a ++ b ++ p) ++ x ++ (c ++ d) := by
    intro a b p x c d
    simp only [List.append_assoc]
  exact ⟨_, _, hframe ..⟩

/-- The documents stay inside the fence exactly when no text of theirs, redacted, hides a delimiter,
and nothing else that is written into the prompt has a closing tag. -/
theorem fence_contained_iff :
    FenceContained u documents (buildInstructions u s moment name documents retrievalAttempted
      isFirstMessage generalQuestion) ↔
    (∀ doc ∈ documents, ¬ Hides (redact u doc.source) ∧ ¬ Hides (redact u doc.content)) ∧
      ∀ t ∈ insertedTexts s name, ¬ closingFence <:+: t ∧ ¬ closingDocument <:+: t := by
  have hfence := count_buildInstructions u s moment name documents retrievalAttempted
    isFirstMessage generalQuestion closing_closingFence
  have heach := count_buildInstructions u s moment name documents retrievalAttempted
    isFirstMessage generalQuestion closing_closingDocument
  have hf0 := countInserted_eq_zero s moment name closing_closingFence
  have hd0 := countInserted_eq_zero s moment name closing_closingDocument
  rw [← clean_iff, forall₂_and]
  constructor
  · intro h
    have hkf := count_closingFence u documents retrievalAttempted generalQuestion h.prepared
    have hkd := count_closingDocument u documents retrievalAttempted generalQuestion h.prepared
    refine ⟨h.prepared, hf0.1 ?_, hd0.1 ?_⟩
    · have := h.fence
      omega
    · have := h.each
      omega
  · rintro ⟨hclean, hf, hd⟩
    have hkf := count_closingFence u documents retrievalAttempted generalQuestion hclean
    have hkd := count_closingDocument u documents retrievalAttempted generalQuestion hclean
    rw [hkf, hf0.2 hf, Nat.add_zero] at hfence
    rw [hkd, hd0.2 hd, Nat.add_zero] at heach
    exact ⟨hclean, hfence, rendered_in_prompt u s moment name documents retrievalAttempted
      isFirstMessage generalQuestion, heach⟩

end Main

/-- The tag comes together when the pass takes out the one inside it. -/
theorem document_escapes :
    ¬ FenceContained Sample.characters [Sample.document "</docu</document>ment>"]
      (Sample.prompt none [Sample.document "</docu</document>ment>"]) := by
  intro h
  have hclean := h.prepared _ (List.mem_singleton.2 rfl) closingDocument (by simp [fenceEscapes])
  exact hclean.2 (by decide +kernel)

end Prompt
