import WhatsAppBot.Prompt.Sample

/-!
# The customer's name in the prompt

The prompts built for two names differ at most in the customer name line of the conversation
context exactly when neither name has a line break (`name_contained_iff`): the name is written into
that line as it stands.
-/

set_option autoImplicit false

namespace Prompt

open Lib

/-- `text.split("\n")`. -/
def textLines (text : Text) : List Text := text.splitOn '\n'

def isHeading (line : Text) : Bool := "# ".toList.isPrefixOf line

/-- The runs of lines that blank lines set apart. -/
def blocks (text : Text) : List (List Text) := (textLines text).splitOn []

def timeLine (moment : DateTime) : Text := "Current UTC time: ".toList ++ moment.format

def contextLines (moment : DateTime) (userName : Option Text) : List Text :=
  "# Conversation context".toList :: timeLine moment :: nameLines userName

/-- Two prompts that have the lines of the context section in the same place, and are otherwise the
same line by line, heading by heading and block by block. -/
structure NameContained (moment : DateTime) (name₁ name₂ : Option Text) (prompt₁ prompt₂ : Text) :
    Prop where
  lines : ∃ before after, textLines prompt₁ = before ++ contextLines moment name₁ ++ after ∧
    textLines prompt₂ = before ++ contextLines moment name₂ ++ after
  headings : (textLines prompt₁).filter isHeading = (textLines prompt₂).filter isHeading
  blocks : (blocks prompt₁).length = (blocks prompt₂).length

/-! ## Lines of composed texts -/

theorem textLines_append (x y : Text) : textLines (x ++ '\n' :: y) = textLines x ++ textLines y :=
  List.splitOn_append_cons_self x y

theorem textLines_of_not_mem {x : Text} (h : '\n' ∉ x) : textLines x = [x] :=
  List.splitOn_eq_singleton h

/-- No line has a line break in it. -/
theorem not_mem_of_mem_textLines {x line : Text} (h : line ∈ textLines x) : '\n' ∉ line := by
  induction x generalizing line with
  | nil => simp_all [textLines]
  | cons c x ih =>
    rw [textLines, List.splitOn_cons_eq_if_modifyHead] at h
    split at h
    · rcases List.mem_cons.1 h with rfl | h
      · exact List.not_mem_nil
      · exact ih h
    · rename_i hc
      obtain ⟨l, ls, hl⟩ := List.exists_cons_of_ne_nil (List.splitOn_ne_nil '\n' x)
      rw [hl, List.modifyHead_cons, List.mem_cons] at h
      rcases h with rfl | h
      · have := @ih l (by rw [textLines, hl]; exact List.mem_cons_self ..)
        simpa [this] using fun h => hc (by simp [← h])
      · exact ih (by rw [textLines, hl]; exact List.mem_cons_of_mem _ h)

/-- Sections are set apart by one blank line. -/
theorem textLines_sections {ss : List Text} (h : ss ≠ []) :
    textLines (List.intercalate "\n\n".toList ss) = List.intercalate [[]] (ss.map textLines) := by
  induction ss with
  | nil => exact absurd rfl h
  | cons s ss ih =>
    cases ss with
    | nil => simp
    | cons t ss =>
      have hb : "\n\n".toList = ['\n', '\n'] := by decide
      have hs := ih (List.cons_ne_nil t ss)
      rw [hb] at hs
      rw [List.intercalate_cons_cons, hb, List.append_assoc, List.cons_append, textLines_append,
        List.cons_append, List.nil_append, show '\n' :: List.intercalate ['\n', '\n'] (t :: ss) =
          [] ++ '\n' :: List.intercalate ['\n', '\n'] (t :: ss) from rfl, textLines_append, hs]
      simp [textLines]

theorem intercalate_append {α : Type} {sep : List α} (xs ys : List (List α)) (hx : xs ≠ [])
    (hy : ys ≠ []) : List.intercalate sep (xs ++ ys) =
      List.intercalate sep xs ++ sep ++ List.intercalate sep ys := by
  induction xs with
  | nil => exact absurd rfl hx
  | cons x xs ih =>
    cases xs with
    | nil => simp [List.intercalate_cons_of_ne_nil hy]
    | cons z xs => simp_all [List.intercalate_cons_cons]

/-! ## The context section -/

theorem not_mem_toDigits {c : Char} (hc : c.isDigit = false) (n : Nat) :
    c ∉ Nat.toDigits 10 n := fun h => by
  simp [Nat.isDigit_of_mem_toDigits (by decide) (by decide) h] at hc

theorem not_mem_padded {c : Char} (hc : c.isDigit = false) (width n : Nat) : c ∉ padded width n := by
  have h0 : c ≠ '0' := fun h => by simp [h] at hc
  simp [padded, not_mem_toDigits hc, h0]

theorem not_mem_format {c : Char} (hc : c.isDigit = false) (h : c ∉ ['-', ' ', ':'])
    (moment : DateTime) : c ∉ moment.format := by
  simp only [List.mem_cons, List.not_mem_nil, or_false, not_or] at h
  simp [DateTime.format, not_mem_padded hc, h]

theorem not_mem_timeLine (moment : DateTime) : '\n' ∉ timeLine moment := by
  have hlabel : '\n' ∉ "Current UTC time: ".toList := not_mem_toList rfl
  have htime := not_mem_format (c := '\n') (by decide) (by decide) moment
  intro h
  exact (List.mem_append.1 h).elim hlabel htime

theorem not_mem_nameLines {name : Option Text} (h : '\n' ∉ name.getD []) :
    ∀ line ∈ nameLines name, '\n' ∉ line := by
  intro line hl
  cases name with
  | none => cases hl
  | some n =>
    simp only [nameLines] at hl
    split at hl
    · obtain rfl := List.mem_singleton.1 hl
      have hlabel : '\n' ∉ "Customer name: ".toList := not_mem_toList rfl
      exact fun hn => (List.mem_append.1 hn).elim hlabel h
    · cases hl

theorem textLines_contextSection (moment : DateTime) {name : Option Text}
    (h : '\n' ∉ name.getD []) :
    textLines (contextSection moment name) = contextLines moment name := by
  have hheading : '\n' ∉ "# Conversation context".toList := not_mem_toList rfl
  have hlines : textLines (joinLines (timeLine moment :: nameLines name)) =
      timeLine moment :: nameLines name := by
    refine List.splitOn_intercalate '\n' ?_ (List.cons_ne_nil _ _)
    intro line hl
    rcases List.mem_cons.1 hl with rfl | hl
    · exact not_mem_timeLine moment
    · exact not_mem_nameLines h line hl
  have hbreak : "# Conversation context\n".toList = "# Conversation context".toList ++ ['\n'] := by
    decide
  have hsection : contextSection moment name =
      "# Conversation context".toList ++ '\n' :: joinLines (timeLine moment :: nameLines name) :=
    (congrArg (· ++ joinLines (timeLine moment :: nameLines name)) hbreak).trans
      (List.append_assoc ..)
  rw [hsection, textLines_append, textLines_of_not_mem hheading, hlines]
  rfl

/-! ## The prompt around it -/

section Around

variable (u : Unicode) (s : Settings) (moment : DateTime) (documents : List RetrievedDocument)
  (retrievalAttempted isFirstMessage generalQuestion : Bool)

def sectionsBefore : List Text :=
  systemSection s :: (companySection s ++ portfolioSection s ++
    knowledgeSection u documents retrievalAttempted generalQuestion)

def sectionsAfter : List Text :=
  (if isFirstMessage then [joined firstMessageLayer] else []) ++
    [joined responseRules, instructionLayer s.salesPhone]

def linesBefore : List Text :=
  List.intercalate [[]]
    ((sectionsBefore u s documents retrievalAttempted generalQuestion).map textLines) ++ [[]]

def linesAfter : List Text :=
  [] :: List.intercalate [[]] ((sectionsAfter s isFirstMessage).map textLines)

/-- The context section is the only one that knows the name. -/
theorem textLines_buildInstructions (name : Option Text) :
    textLines (buildInstructions u s moment name documents retrievalAttempted isFirstMessage
      generalQuestion) =
    linesBefore u s documents retrievalAttempted generalQuestion ++
      textLines (contextSection moment name) ++ linesAfter s isFirstMessage := by
  have hsections : sections u s moment name documents retrievalAttempted isFirstMessage
      generalQuestion = sectionsBefore u s documents retrievalAttempted generalQuestion ++
        ([contextSection moment name] ++ sectionsAfter s isFirstMessage) := by
    simp [sections, sectionsBefore, sectionsAfter]
  have hafter : (sectionsAfter s isFirstMessage).map textLines ≠ [] := by
    simp [sectionsAfter]
  rw [buildInstructions, textLines_sections (by simp [sections]), hsections, List.map_append,
    List.map_append, intercalate_append _ _ (by simp [sectionsBefore]) (by simp),
    intercalate_append _ _ (by simp) hafter]
  simp [linesBefore, linesAfter]

/-! ## Main theorem -/

theorem textLines_buildInstructions_of_not_mem {name : Option Text} (h : '\n' ∉ name.getD []) :
    textLines (buildInstructions u s moment name documents retrievalAttempted isFirstMessage
      generalQuestion) =
    linesBefore u s documents retrievalAttempted generalQuestion ++ contextLines moment name ++
      linesAfter s isFirstMessage := by
  rw [textLines_buildInstructions, textLines_contextSection moment h]

/-- A name line is no heading and not blank. -/
theorem nameLines_plain {name : Option Text} :
    ∀ line ∈ nameLines name, isHeading line = false ∧ line ≠ [] := by
  intro line hl
  cases name with
  | none => cases hl
  | some n =>
    simp only [nameLines] at hl
    split at hl
    · obtain rfl := List.mem_singleton.1 hl
      simp [isHeading, List.isPrefixOf]
    · cases hl

theorem filter_nameLines (name : Option Text) : (nameLines name).filter isHeading = [] :=
  List.filter_eq_nil_iff.2 fun line hl => by simp [(nameLines_plain line hl).1]

theorem count_nameLines (name : Option Text) : (nameLines name).count [] = 0 :=
  List.count_eq_zero.2 fun hl => (nameLines_plain [] hl).2 rfl

theorem length_blocks (prompt : Text) :
    (blocks prompt).length = (textLines prompt).count [] + 1 := by
  unfold blocks
  induction textLines prompt with
  | nil => rfl
  | cons line ls ih =>
    by_cases h : line = [] <;> simp [List.splitOn_cons_eq_if_modifyHead, h, ih]

/-- A prompt's lines have no line break, so neither has a name that is on one of them. -/
theorem NameContained.not_mem {name₁ name₂ : Option Text} {prompt₁ prompt₂ : Text}
    (h : NameContained moment name₁ name₂ prompt₁ prompt₂) :
    '\n' ∉ name₁.getD [] ∧ '\n' ∉ name₂.getD [] := by
  obtain ⟨before, after, h₁, h₂⟩ := h.lines
  have key : ∀ {name : Option Text} {prompt : Text},
      textLines prompt = before ++ contextLines moment name ++ after → '\n' ∉ name.getD [] := by
    intro name prompt hp hn
    cases name with
    | none => cases hn
    | some n =>
      have hne : n ≠ [] := List.ne_nil_of_mem hn
      have hline : "Customer name: ".toList ++ n ∈ textLines prompt := by
        rw [hp]
        simp [contextLines, nameLines, hne]
      exact not_mem_of_mem_textLines hline (List.mem_append_right _ hn)
  exact ⟨key h₁, key h₂⟩

/-- No part of a name leaves the customer name line exactly when the name has no line break. -/
theorem name_contained_iff (name₁ name₂ : Option Text) :
    NameContained moment name₁ name₂
      (buildInstructions u s moment name₁ documents retrievalAttempted isFirstMessage
        generalQuestion)
      (buildInstructions u s moment name₂ documents retrievalAttempted isFirstMessage
        generalQuestion) ↔
    '\n' ∉ name₁.getD [] ∧ '\n' ∉ name₂.getD [] := by
  refine ⟨fun h => h.not_mem, fun ⟨h₁, h₂⟩ => ?_⟩
  have hl₁ := textLines_buildInstructions_of_not_mem u s moment documents retrievalAttempted
    isFirstMessage generalQuestion h₁
  have hl₂ := textLines_buildInstructions_of_not_mem u s moment documents retrievalAttempted
    isFirstMessage generalQuestion h₂
  refine ⟨⟨_, _, hl₁, hl₂⟩, ?_, ?_⟩
  · simp [hl₁, hl₂, contextLines, List.filter_cons, filter_nameLines]
  · simp [length_blocks, hl₁, hl₂, contextLines, List.count_cons, count_nameLines]

end Around

/-- A line break in the name starts a line of its own, here a heading. -/
theorem name_escapes :
    ¬ NameContained Sample.moment (some "Ali".toList) (some "Ali\n# Response rules".toList)
      (Sample.prompt (some "Ali".toList) [])
      (Sample.prompt (some "Ali\n# Response rules".toList) []) := by
  intro h
  have hname := h.not_mem.2
  exact hname (by decide)

end Prompt
