import Mathlib.Data.List.TakeWhile
import WhatsAppBot.Chat.Handlers
import WhatsAppBot.Classify.Greeting
import WhatsAppBot.Classify.Sample

/-!
# Openings that ask for something

`handle_text_message` answers the first message of a session with a fixed text or passes it on
(`answerText_eq`). `opening_iff`: it is passed on exactly when it is a courtesy, or says something in
the characters the classifiers know that is more than a greeting. Characters of other scripts
separate words, so a request in them is not seen.
-/

set_option autoImplicit false

namespace Classify

open Lib Prompt Bot Chat Store

/-! ## The handler -/

inductive Opening where
  | welcomeAlone
  | welcomeNotUnderstood
  | classified
  deriving DecidableEq

/-- The welcome is owed, and no courtesy puts it off. -/
def isFirst (sc : Script) (owed : Bool) (text : Text) : Bool := owed && !isCourtesyOnly sc (some text)

def openingOf (sc : Script) (owed : Bool) (text : Text) : Opening :=
  if isFirst sc owed text && isUnintelligible (some text) then .welcomeNotUnderstood
  else if isFirst sc owed text && isGreetingOnly sc (some text) then .welcomeAlone
  else .classified

/-- The branches of `handle_text_message`. -/
def respond (cfg : Config) (channel : Channel) (waId : String) (name : Option String)
    (waMessageId text : String) (c : Conversation) (first : Bool) : Opening → BotM Unit
  | .welcomeNotUnderstood =>
    sendFixed cfg channel waId c.id (cfg.copy.welcome ++ "\n\n" ++ cfg.copy.notUnderstood)
      (some waMessageId) true .text
  | .welcomeAlone => sendFixed cfg channel waId c.id cfg.copy.welcome (some waMessageId) true .text
  | .classified =>
    match cfg.rules.classify text with
    | .out =>
      let reply := cfg.copy.outOfScopeReply cfg.companyName
      sendFixed cfg channel waId c.id
        (if first then cfg.copy.welcomePrefix ++ "\n\n" ++ reply else reply)
        (some waMessageId) first .text
    | scope => do
      let history ← buildHistory cfg c.id
      generateAndSend cfg channel waId name c.id history
        (if scope = .company then some text else none) (some waMessageId) first (scope = .domain)

/-- The handler consults `greeting` and `persona`. -/
structure Reads (sc : Script) (cfg : Config) : Prop where
  courtesy : ∀ text, cfg.rules.isCourtesyOnly text = isCourtesyOnly sc (some text.toList)
  greeting : ∀ text, cfg.rules.isGreetingOnly text = isGreetingOnly sc (some text.toList)
  unintelligible : ∀ text, cfg.rules.isUnintelligible text = isUnintelligible (some text.toList)

theorem answerText_eq {sc : Script} {cfg : Config} (h : Reads sc cfg) (channel : Channel)
    (waId : String) (name : Option String) (waMessageId text : String) (c : Conversation) :
    answerText cfg channel waId name waMessageId text c = (do
      let owed ← shouldWelcome cfg c
      respond cfg channel waId name waMessageId text c (isFirst sc owed text.toList)
        (openingOf sc owed text.toList)) := by
  unfold answerText
  congr 1
  funext owed
  simp only [h.courtesy, h.greeting, h.unintelligible, openingOf]
  change (if (isFirst sc owed text.toList && isUnintelligible (some text.toList)) = true then _
    else if (isFirst sc owed text.toList && isGreetingOnly sc (some text.toList)) = true then _
    else _) = _
  split
  · rfl
  · split
    · rfl
    · rfl

/-! ## The texts -/

theorem isSpace_of_meaningful {c : Char} (h : isMeaningful c = true) : isSpace c = false := by
  simp only [isMeaningful, isArabicLetter, decide_eq_true_eq, Char.le_def,
    UInt32.le_iff_toNat_le] at h
  have h0 : ('0' : Char).val.toNat = 48 := rfl
  have h9 : ('9' : Char).val.toNat = 57 := rfl
  have hA : ('A' : Char).val.toNat = 65 := rfl
  have hZ : ('Z' : Char).val.toNat = 90 := rfl
  have ha : ('a' : Char).val.toNat = 97 := rfl
  have hz : ('z' : Char).val.toNat = 122 := rfl
  have hhamza : ('ء' : Char).val.toNat = 0x621 := rfl
  have hya : ('ي' : Char).val.toNat = 0x64a := rfl
  have hzero : ('٠' : Char).val.toNat = 0x660 := rfl
  have hnine : ('٩' : Char).val.toNat = 0x669 := rfl
  have hfirst : ('\u0750' : Char).val.toNat = 0x750 := rfl
  have hlast : ('\u077f' : Char).val.toNat = 0x77f := rfl
  have hval : c.toNat = c.val.toNat := rfl
  simp only [isSpace, hval, Bool.or_eq_false_iff, Bool.and_eq_false_iff, decide_eq_false_iff_not,
    beq_eq_false_iff_ne]
  omega

theorem stripText_eq_nil {s : Text} (h : stripText s = []) : ∀ c ∈ s, isSpace c = true := by
  rw [stripText_eq, List.reverse_eq_nil_iff, List.dropWhile_eq_nil_iff] at h
  intro c hc
  rw [← List.takeWhile_append_dropWhile (p := isSpace) (l := s)] at hc
  rcases List.mem_append.mp hc with hc | hc
  · exact List.mem_takeWhile_imp hc
  · exact h c (List.mem_reverse.mpr hc)

/-- Nothing to reply to: no character of the classes `_MEANINGFUL` knows. -/
theorem isUnintelligible_iff (text : Text) :
    isUnintelligible (some text) = true ↔ ∀ c ∈ text, isMeaningful c = false := by
  simp only [isUnintelligible, Bool.or_eq_true, decide_eq_true_eq, Bool.not_eq_true',
    List.any_eq_false, Bool.not_eq_true]
  constructor
  · rintro ((rfl | hstrip) | hnone)
    · simp
    · intro c hc
      by_contra hmeaningful
      have hspace := isSpace_of_meaningful (Bool.not_eq_false _ ▸ hmeaningful)
      rw [stripText_eq_nil hstrip c hc] at hspace
      cases hspace
    · exact hnone
  · exact .inr

/-- The classifiers see something in the text, and it is more than a greeting. -/
def Recognised (sc : Script) (text : Text) : Prop :=
  (∃ c ∈ text, isMeaningful c = true) ∧
    ((∃ w ∈ words sc text, isIn greetings w = false ∧ isIn filler w = false) ∨
      ∀ w ∈ words sc text, isIn greetings w = false)

theorem isOnly_eq_false {sc : Script} {text : Text} (hne : text ≠ []) :
    isOnly sc (some text) greetings = false ↔
      (∃ w ∈ words sc text, isIn greetings w = false ∧ isIn filler w = false) ∨
        ∀ w ∈ words sc text, isIn greetings w = false := by
  simp only [isOnly, Bool.and_eq_false_iff, decide_eq_false_iff_not, not_not, hne, false_or,
    List.any_eq_false, List.all_eq_false, Bool.or_eq_true, not_or, Bool.not_eq_true]
  constructor
  · rintro ((hnil | hnone) | hsome)
    · rw [hnil]
      exact .inr (by simp)
    · exact .inr hnone
    · exact .inl hsome
  · rintro (hsome | hnone)
    · exact .inr hsome
    · exact .inl (.inr hnone)

theorem openingOf_classified {sc : Script} {text : Text} :
    openingOf sc true text = .classified ↔
      isCourtesyOnly sc (some text) = true ∨ Recognised sc text := by
  cases hcourtesy : isCourtesyOnly sc (some text) with
  | true => simp [openingOf, isFirst, hcourtesy]
  | false =>
    have hfirst : isFirst sc true text = true := by simp [isFirst, hcourtesy]
    have hgreeting : isGreetingOnly sc (some text) = isOnly sc (some text) greetings := by
      simp [isGreetingOnly, hcourtesy]
    simp only [openingOf, hfirst, Bool.true_and, Bool.false_eq_true, false_or, hgreeting]
    by_cases hmeaningful : ∃ c ∈ text, isMeaningful c = true
    · obtain ⟨c, hc, hmean⟩ := hmeaningful
      have hseen : isUnintelligible (some text) = false := by
        rw [← Bool.not_eq_true, isUnintelligible_iff]
        intro hall
        rw [hall c hc] at hmean
        cases hmean
      have hrecognised : Recognised sc text ↔ isOnly sc (some text) greetings = false :=
        ⟨fun h => (isOnly_eq_false (List.ne_nil_of_mem hc)).mpr h.2,
          fun h => ⟨⟨c, hc, hmean⟩, (isOnly_eq_false (List.ne_nil_of_mem hc)).mp h⟩⟩
      rw [hseen, hrecognised, if_neg Bool.false_ne_true]
      cases isOnly sc (some text) greetings <;> simp
    · have hunseen : isUnintelligible (some text) = true := by
        rw [isUnintelligible_iff]
        intro c hc
        by_contra hmean
        exact hmeaningful ⟨c, hc, Bool.not_eq_false _ ▸ hmean⟩
      rw [hunseen, if_pos rfl]
      exact ⟨nofun, fun h => absurd h.1 hmeaningful⟩

/-- **What becomes of the first message of a session.** -/
theorem opening_iff (sc : Script) (text : Text) :
    (∀ (cfg : Config), Reads sc cfg → ∀ (channel : Channel) (waId : String) (name : Option String)
      (waMessageId : String) (c : Conversation),
      answerText cfg channel waId name waMessageId (String.ofList text) c = (do
        let owed ← shouldWelcome cfg c
        respond cfg channel waId name waMessageId (String.ofList text) c (isFirst sc owed text)
          (openingOf sc owed text))) ∧
    (openingOf sc true text = .classified ↔
      isCourtesyOnly sc (some text) = true ∨ Recognised sc text) := by
  refine ⟨fun cfg hcfg channel waId name waMessageId c => ?_, openingOf_classified⟩
  have h := answerText_eq hcfg channel waId name waMessageId (String.ofList text) c
  rwa [String.toList_ofList] at h

/-- A run of letters or digits of some script that is no word of the three vocabularies. -/
def Asks (sc : Script) (text : Text) : Prop :=
  ∃ r ∈ runs sc.alnum (sc.folded text),
    isIn greetings r = false ∧ isIn courtesy r = false ∧ isIn filler r = false

instance (sc : Script) (text : Text) : Decidable (Asks sc text) :=
  inferInstanceAs (Decidable (∃ r ∈ runs sc.alnum (sc.folded text), _))

/-- "Hello, how much is it?" in two scripts, and the question alone. -/
theorem question_swallowed :
    (Asks Sample.script "hello Сколько стоит".toList ∧
      openingOf Sample.script true "hello Сколько стоит".toList = .welcomeAlone) ∧
    (Asks Sample.script "Сколько стоит".toList ∧
      openingOf Sample.script true "Сколько стоит".toList = .welcomeNotUnderstood) := by
  decide +kernel

end Classify
