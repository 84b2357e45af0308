import Mathlib.Tactic.FinCases
import WhatsAppBot.Prompt.Proof.Classes
import WhatsAppBot.Prompt.Proof.Gate
import WhatsAppBot.Prompt.Proof.Traced

/-!
# Units

What the alternatives of `_UNIT` read is a list of texts (`spells_unit`), and what a currency, a symbol,
a thousands word or a per-metre marker starts with is another (`tokens_open`). None of the one starts or
goes on with one of the other, so that no token stands where a unit does (`UnitNext.no_token`).
-/

set_option autoImplicit false

namespace Prompt

open Lib

section Spells

variable {u : Unicode} {r s : Re Char} {A B : List Text}

/-- Every match of `r` reads one of the texts, up to case. -/
def Spells (u : Unicode) (r : Re Char) (texts : List Text) : Prop :=
  ∀ cur c, c ∈ r.run u.word cur → ∃ x, cur.rest = x ++ c.rest ∧ x.map fold ∈ texts

theorem Spells.mono (h : Spells u r A) (hAB : A ⊆ B) : Spells u r B := by
  intro cur c hc
  obtain ⟨x, hx, hmem⟩ := h cur c hc
  exact ⟨x, hx, hAB hmem⟩

theorem Spells.letter (c : Char) : Spells u (letter c) [[fold c]] := by
  intro cur d hd
  obtain ⟨a, ha, hrest, -⟩ := Re.mem_run_one hd
  refine ⟨[a], hrest, List.mem_singleton.mpr ?_⟩
  rw [List.map_singleton, beq_iff_eq.mp ha]

theorem Spells.empty : Spells u .empty [[]] := by
  intro cur d hd
  obtain rfl := List.mem_singleton.mp hd
  exact ⟨[], rfl, List.mem_singleton.mpr rfl⟩

theorem Spells.seq (hr : Spells u r A) (hs : Spells u s B) :
    Spells u (.seq r s) (A.flatMap fun x => B.map (x ++ ·)) := by
  intro cur c hc
  obtain ⟨d, hd, hc⟩ := Re.mem_run_seq.mp hc
  obtain ⟨x, hx, hxA⟩ := hr cur d hd
  obtain ⟨y, hy, hyB⟩ := hs d c hc
  refine ⟨x ++ y, by rw [hx, hy, List.append_assoc], ?_⟩
  rw [List.map_append]
  exact List.mem_flatMap.mpr ⟨_, hxA, List.mem_map.mpr ⟨_, hyB, rfl⟩⟩

theorem Spells.alt (hr : Spells u r A) (hs : Spells u s A) : Spells u (.alt r s) A := by
  intro cur c hc
  rcases List.mem_append.mp (show c ∈ r.run u.word cur ++ s.run u.word cur from hc) with hc | hc
  · exact hr cur c hc
  · exact hs cur c hc

theorem Spells.any {rs : List (Re Char)} (h : ∀ r ∈ rs, Spells u r A) : Spells u (.any rs) A := by
  intro cur c hc
  obtain ⟨r, hr, hc⟩ := Re.mem_run_any hc
  exact h r hr cur c hc

theorem Spells.literal (s : String) : Spells u (literal s) [s.toList.map fold] := by
  unfold Prompt.literal
  induction s.toList with
  | nil => exact .empty
  | cons c cs ih => exact (Spells.letter c).seq ih

theorem Spells.maybe (c : Char) : Spells u (.opt (Prompt.letter c)) [[fold c], []] :=
  ((Spells.letter c).mono (by simp)).alt (Spells.empty.mono (by simp))

theorem Spells.maybeLast (s : String) (c : Char) :
    Spells u (maybeLast s c) [s.toList.map fold ++ [fold c], s.toList.map fold] := by
  have h := (Spells.literal (u := u) s).seq (Spells.maybe c)
  simpa [Prompt.maybeLast] using h

end Spells

/-- What the alternatives of `_UNIT` read. -/
def unitTexts : List Text :=
  ["متر", "أمتار", "امتار", "م²", "م2", "م 2", "يوم", "أيام", "ايام", "أسبوع", "أسابيع", "شهر",
    "شهور", "أشهر", "سنة", "سنوات", "سنتين", "ساعة", "ساعات", "غرفة", "غرف", "حمام", "حمامات",
    "دور", "أدوار", "طبقة", "طبقات", "قطعة", "قطع", "سم", "مم", "meter", "meters", "metre",
    "metres", "day", "days", "week", "weeks", "month", "months", "year", "years", "hour", "hours",
    "room", "rooms", "cm", "mm"].map String.toList

theorem spells_unit (u : Unicode) : Spells u unit unitTexts := by
  have hmetre : Spells u metre ["meter".toList, "metre".toList] := by
    have hend : Spells u (.any [literal "er", literal "re"]) ["er".toList, "re".toList] := by
      refine .any fun r hr => ?_
      fin_cases hr
      · exact (Spells.literal "er").mono (by decide)
      · exact (Spells.literal "re").mono (by decide)
    exact ((Spells.literal "met").seq hend).mono (by decide)
  refine .any fun r hr => ?_
  fin_cases hr
  all_goals first
    | exact (Spells.literal _).mono (by decide)
    | exact (Spells.maybeLast _ _).mono (by decide)
    | skip
  · exact ((Spells.letter 'م').seq ((Spells.maybe ' ').seq ((Spells.letter '2').seq .empty))).mono
      (by decide)
  · exact (hmetre.seq (Spells.maybe 's')).mono (by decide)

/-! ## Tokens -/

/-- What the tokens start with. -/
def tokenStarts : List String :=
  currencyStarts ++ ["$", "€", "£", "ألف", "الف", "آلاف", "الاف", "مليون", "ملايين", "k", "/", "per",
    "للمتر", "المتر المربع"]

theorem opens_char (u : Unicode) (c : Char) : Opens u (letter c) [c] := by
  intro cur hne
  obtain ⟨d, hd⟩ := List.exists_mem_of_ne_nil _ hne
  obtain ⟨a, ha, hs, -⟩ := Re.mem_run_one hd
  rw [hs, List.map_cons, List.map_cons, List.cons_prefix_cons]
  exact ⟨(beq_iff_eq.mp ha).symm, List.nil_prefix⟩

theorem thousands_opens (u : Unicode) {cur : Cursor Char} (h : thousands.run u.word cur ≠ []) :
    ∃ s ∈ tokenStarts, s.toList.map fold <+: cur.rest.map fold := by
  obtain ⟨last, hlast⟩ := List.exists_mem_of_ne_nil _ h
  obtain ⟨r, hr, hlast⟩ := Re.mem_run_any hlast
  have hne := List.ne_nil_of_mem hlast
  fin_cases hr
  all_goals first
    | exact ⟨_, by decide, opens_literal _ cur hne⟩
    | exact ⟨"k", by decide, opens_seq (opens_char u 'k') cur hne⟩

theorem perMetre_opens (u : Unicode) {cur : Cursor Char} (h : perMetre.run u.word cur ≠ []) :
    ∃ s ∈ tokenStarts, s.toList.map fold <+: cur.rest.map fold := by
  obtain ⟨last, hlast⟩ := List.exists_mem_of_ne_nil _ h
  obtain ⟨r, hr, hlast⟩ := Re.mem_run_any hlast
  have hne := List.ne_nil_of_mem hlast
  fin_cases hr
  all_goals first
    | exact ⟨"/", by decide, opens_letter '/' _ cur hne⟩
    | exact ⟨"per", by decide, opens_seq (opens_literal "per") cur hne⟩
    | exact ⟨_, by decide, opens_literal _ cur hne⟩

theorem symbol_opens {word : Char → Bool} {cur : Cursor Char}
    (h : Re.run word (.one isSymbol) cur ≠ []) :
    ∃ s ∈ tokenStarts, s.toList.map fold <+: cur.rest.map fold := by
  obtain ⟨last, hlast⟩ := List.exists_mem_of_ne_nil _ h
  obtain ⟨a, ha, hrest, -⟩ := Re.mem_run_one hlast
  simp only [isSymbol, Bool.or_eq_true, decide_eq_true_eq] at ha
  rcases ha with (rfl | rfl) | rfl
  · exact ⟨"$", by decide, by simp [hrest]⟩
  · exact ⟨"€", by decide, by simp [hrest]⟩
  · exact ⟨"£", by decide, by simp [hrest]⟩

theorem tokens_open (u : Unicode) {r : Re Char} (hr : r ∈ tokens) {cur : Cursor Char}
    (h : r.run u.word cur ≠ []) : ∃ s ∈ tokenStarts, s.toList.map fold <+: cur.rest.map fold := by
  simp only [tokens, List.mem_cons, List.not_mem_nil, or_false] at hr
  rcases hr with rfl | rfl | rfl | rfl
  · obtain ⟨s, hs, hstart⟩ := currency_opens u h
    exact ⟨s, List.mem_append_left _ hs, hstart⟩
  · exact symbol_opens h
  · exact thousands_opens u h
  · exact perMetre_opens u h

/-! ## Units and tokens -/

/-- A character with one of these folds belongs to a word. -/
def isWordFold (c : Char) : Bool :=
  isArabicLetter c || decide ('a' ≤ c ∧ c ≤ 'z') || isDigit c || c == '²'

theorem unit_apart : ∀ t ∈ unitTexts, ∀ s ∈ tokenStarts,
    ¬s.toList.map fold <+: t ∧ ¬t <+: s.toList.map fold := by
  decide +kernel

theorem unit_no_currency : ∀ t ∈ unitTexts, ∀ x ∈ t.tails, ∀ s ∈ currencyStarts,
    s.toList.map fold <+: x → x = [] := by
  decide +kernel

/-- How a unit starts and ends, and what is in it. -/
theorem unit_text : ∀ t ∈ unitTexts,
    (t.head?.any fun h => (whiteSpace ++ numberParts).all fun c => fold c != h) = true ∧
      t.getLast?.any isWordFold = true ∧ (t.all fun c => !isSymbol c && c != '[') = true ∧
      ((t.all fun c => !isDigit c) = true ∨ t = ['م', '2'] ∨ t = ['م', ' ', '2']) := by
  decide

theorem start_text : ∀ s ∈ tokenStarts,
    ((s.toList.map fold).head?.any fun h => whiteSpace.all fun c => fold c != h) = true ∧
      (s ∈ currencyStarts → (s.toList.map fold).all isWordFold = true) ∧
      ((s.toList.map fold).all fun c => c != '[') = true := by
  decide

theorem Alphabet.word {u : Unicode} (hu : Alphabet u) {c : Char} (h : isWordFold (fold c) = true) :
    u.word c = true := by
  rcases fold_eq_or c with hc | hc
  · rw [hc] at h
    simp only [isWordFold, Bool.or_eq_true, beq_iff_eq] at h
    rcases h with ((h | h) | h) | rfl
    · exact hu.arabic c h
    · exact hu.latin c (by simpa [isLatinLetter, hc] using h)
    · exact hu.digit c h
    · exact hu.square
  · exact hu.latin c (by simpa [isLatinLetter] using hc)

/-! ## The unit behind a numeral -/

variable {u : Unicode} {x r s t a' : Text} {c : Char}

/-- A unit and what comes behind it, which does not go on with the word. -/
structure UnitNext (u : Unicode) (x r : Text) : Prop where
  takes : unit.Takes u.word x
  text : x.map fold ∈ unitTexts
  ends : Re.startsWord u.word r = false

theorem UnitNext.ne_nil (h : UnitNext u x r) : x ≠ [] := by
  rintro rfl
  exact absurd h.text (by decide)

theorem exists_last (hu : Alphabet u) (h : x.map fold ∈ unitTexts) :
    ∃ y c, x = y ++ [c] ∧ u.word c = true := by
  obtain ⟨-, hends, -, -⟩ := unit_text _ h
  rcases List.eq_nil_or_concat x with rfl | ⟨y, c, hc⟩
  · cases hends
  · rw [List.concat_eq_append] at hc
    subst hc
    exact ⟨y, c, rfl, hu.word (by simpa using hends)⟩

/-- The unit that is measured in. -/
theorem exists_unit (hu : Alphabet u) {n a : Text} (h : comesNext u wholeUnit n a = true) :
    ∃ s x r, a = s ++ (x ++ r) ∧ (∀ c ∈ s, isSpace c = true) ∧ UnitNext u x r := by
  obtain ⟨last, hlast⟩ := List.exists_mem_of_ne_nil _ (by simpa [comesNext] using h)
  obtain ⟨d, hd, hlast⟩ := Re.mem_run_seq.mp hlast
  obtain ⟨e, he, hlast⟩ := Re.mem_run_seq.mp hlast
  obtain ⟨g, hg, -⟩ := Re.mem_run_seq.mp hlast
  obtain ⟨s, hs, hspace⟩ := Re.mem_starFrom hd
  obtain ⟨x, hx, htext⟩ := spells_unit u d e he
  have htakes : unit.Takes u.word x := by
    obtain ⟨v, rest⟩ := d
    obtain rfl : rest = x ++ e.rest := hx
    intro w t
    obtain ⟨c, hc, hrest⟩ : ∃ c ∈ unit.run u.word ⟨w, x ++ t⟩, c.rest = t :=
      Re.run_context (by decide) (.inl (by decide)) he rfl
    exact ⟨c.afterWord, by rw [← hrest] at hc ⊢; exact hc⟩
  refine ⟨s, x, e.rest, by rw [hs, hx], hspace, htakes, htext, ?_⟩
  obtain ⟨y, c, rfl, hword⟩ := exists_last hu htext
  have hafter : e.afterWord = true := by
    rw [Re.afterWord_eq he hx, List.foldl_append]
    exact hword
  obtain ⟨-, hne⟩ := Re.mem_run_boundary.mp hg
  rw [hafter] at hne
  exact Bool.eq_false_iff.mpr (Ne.symm hne)

theorem UnitNext.whole (hu : Alphabet u) (h : UnitNext u x r) (hs : ∀ c ∈ s, isSpace c = true)
    (w : Bool) : wholeUnit.run u.word ⟨w, s ++ (x ++ r)⟩ ≠ [] := by
  have htakes : Re.Takes u.word spaces s := .star hs
  obtain ⟨v, hd⟩ := htakes w (x ++ r)
  obtain ⟨v', hunit⟩ := h.takes v r
  obtain ⟨y, c, rfl, hword⟩ := exists_last hu h.text
  have hv' : v' = true := by
    have hafter : v' = (y ++ [c]).foldl (fun _ a => u.word a) v := Re.afterWord_eq hunit rfl
    rw [hafter, List.foldl_append]
    exact hword
  refine List.ne_nil_of_mem (a := ⟨v', r⟩) (Re.mem_run_seq.mpr ⟨_, hd, Re.mem_run_seq.mpr ⟨_, hunit,
    Re.mem_run_seq.mpr ⟨⟨v', r⟩, ?_, List.mem_singleton.mpr rfl⟩⟩⟩)
  simp [Re.run, hv', h.ends]

/-- No currency starts in a unit. -/
theorem UnitNext.no_currency (hu : Alphabet u) (h : UnitNext u x r) {x₁ x₂ : Text} (hx : x = x₁ ++ x₂)
    (hne : x₂ ≠ []) (w : Bool) : currency.run u.word ⟨w, x₂ ++ r⟩ = [] := by
  by_contra hrun
  obtain ⟨s, hs, hstart⟩ := currency_opens u hrun
  rw [show (x₂ ++ r).map fold = x₂.map fold ++ r.map fold from List.map_append] at hstart
  have hnot : ¬s.toList.map fold <+: x₂.map fold := by
    intro hpre
    have htail : x₂.map fold ∈ (x.map fold).tails :=
      (List.mem_tails _ _).mpr ⟨x₁.map fold, by rw [hx, List.map_append]⟩
    exact hne (List.map_eq_nil_iff.mp (unit_no_currency _ h.text _ htail s hs hpre))
  rcases List.prefix_or_prefix_of_prefix hstart (List.prefix_append _ _) with hpre | ⟨k, hk⟩
  · exact hnot hpre
  · cases k with
    | nil => exact hnot (by rw [← hk, List.append_nil])
    | cons d k =>
      -- the currency goes on behind the unit, with a letter
      rw [← hk, List.prefix_append_right_inj] at hstart
      obtain ⟨t, ht⟩ := hstart
      cases r with
      | nil => cases ht
      | cons c r =>
        obtain ⟨hd, -⟩ := List.cons.inj (show d :: (k ++ t) = fold c :: r.map fold from ht)
        obtain ⟨-, hletters, -⟩ := start_text s (List.mem_append_left _ hs)
        have hletter := List.all_eq_true.mp (hletters hs) d (by rw [← hk]; simp)
        have hends : u.word c = false := h.ends
        rw [hu.word (by rw [← hd]; exact hletter)] at hends
        cases hends

theorem not_head {l : Text} (h : t.head?.any (fun h => l.all fun c => fold c != h) = true)
    (hx : x.map fold = t) (hc : c ∈ l) : ∀ y, x ≠ c :: y := by
  rintro y rfl
  rw [← hx] at h
  have hne := List.all_eq_true.mp (show l.all (fun d => fold d != fold c) = true from h) c hc
  simp at hne

theorem UnitNext.no_space (h : UnitNext u x r) (hc : isSpace c = true) (y : Text) : x ≠ c :: y :=
  not_head (unit_text _ h.text).1 rfl (List.mem_append_left _ (mem_whiteSpace hc)) y

theorem UnitNext.no_part (h : UnitNext u x r) (hc : isNumberPart c = true) (y : Text) : x ≠ c :: y :=
  not_head (unit_text _ h.text).1 rfl (List.mem_append_right _ (mem_numberParts hc)) y

/-- The digit of a unit is that of `م2`. -/
theorem UnitNext.cases (h : UnitNext u x r) :
    (∀ c ∈ x, isDigit c = false) ∨ x = ['م', '2'] ∨ x = ['م', ' ', '2'] := by
  have hlow : ∀ {a d : Char}, fold a = d → d ∈ ['م', ' ', '2'] → a = d := by
    intro a d ha hd
    refine eq_of_fold ?_ ha
    have hall : ['م', ' ', '2'].all (fun d => decide ¬('a' ≤ d ∧ d ≤ 'z')) = true := by decide
    exact of_decide_eq_true (List.all_eq_true.mp hall d hd)
  obtain ⟨-, -, -, hnone | htwo | htwo⟩ := unit_text _ h.text
  · refine .inl fun c hc => ?_
    by_contra hdigit
    have hfold : digits.all (fun c => fold c == c) = true := by decide
    have hc' := List.all_eq_true.mp hnone (fold c) (List.mem_map_of_mem hc)
    rw [beq_iff_eq.mp (of_digit hfold (by simpa using hdigit))] at hc'
    simp [hdigit] at hc'
  · right; left
    obtain ⟨a, y, rfl, ha, hy⟩ := List.map_eq_cons_iff.mp htwo
    obtain ⟨b, z, rfl, hb, hz⟩ := List.map_eq_cons_iff.mp hy
    rw [List.map_eq_nil_iff.mp hz, hlow ha (by simp), hlow hb (by simp)]
  · right; right
    obtain ⟨a, y, rfl, ha, hy⟩ := List.map_eq_cons_iff.mp htwo
    obtain ⟨b, z, rfl, hb, hz⟩ := List.map_eq_cons_iff.mp hy
    obtain ⟨c, y, rfl, hc, hy⟩ := List.map_eq_cons_iff.mp hz
    rw [List.map_eq_nil_iff.mp hy, hlow ha (by simp), hlow hb (by simp), hlow hc (by simp)]

theorem UnitNext.no_symbol (h : UnitNext u x r) : ∀ c ∈ x, isSymbol c = false := by
  intro c hc
  by_contra hsymbol
  have hsymbol : isSymbol c = true := by simpa using hsymbol
  have hfold : fold c = c := by
    simp only [isSymbol, Bool.or_eq_true, decide_eq_true_eq] at hsymbol
    rcases hsymbol with (rfl | rfl) | rfl <;> decide
  obtain ⟨-, -, hplain, -⟩ := unit_text _ h.text
  have hnone := List.all_eq_true.mp hplain (fold c) (List.mem_map_of_mem hc)
  rw [hfold, hsymbol] at hnone
  cases hnone

/-- Spaces in front of something else are those of any split. -/
theorem spaces_unique {s s' y y' : Text} (hs : ∀ c ∈ s, isSpace c = true)
    (hs' : ∀ c ∈ s', isSpace c = true) (hy : ∀ c ∈ y.head?, isSpace c = false)
    (hy' : ∀ c ∈ y'.head?, isSpace c = false) (h : s ++ y = s' ++ y') : s = s' ∧ y = y' := by
  induction s generalizing s' with
  | nil =>
    cases s' with
    | nil => exact ⟨rfl, h⟩
    | cons c s' =>
      have hc := hs' c List.mem_cons_self
      rw [hy c (by rw [show y = c :: (s' ++ y') from h]; rfl)] at hc
      cases hc
  | cons c s ih =>
    cases s' with
    | nil =>
      have hc := hs c List.mem_cons_self
      rw [hy' c (by rw [← show c :: (s ++ y) = y' from h]; rfl)] at hc
      cases hc
    | cons c' s' =>
      obtain ⟨rfl, htail⟩ := List.cons.inj (show c :: (s ++ y) = c' :: (s' ++ y') from h)
      obtain ⟨hs₂, hy₂⟩ := ih (fun d hd => hs d (List.mem_cons_of_mem _ hd))
        (fun d hd => hs' d (List.mem_cons_of_mem _ hd)) htail
      exact ⟨by rw [hs₂], hy₂⟩

/-- No token stands where the unit does, nor where a mark has hidden a part of it. -/
theorem UnitNext.no_token (h : UnitNext u x r) (hs : ∀ c ∈ s, isSpace c = true)
    (ha : Starts (s ++ (x ++ r)) a') {k : Re Char} (hk : k ∈ tokens) (w : Bool) :
    (Re.seq spaces k).run u.word ⟨w, a'⟩ = [] := by
  rw [List.eq_nil_iff_forall_not_mem]
  intro c hc
  obtain ⟨d, hd, hc⟩ := Re.mem_run_seq.mp hc
  obtain ⟨s', hs', hspace⟩ := Re.mem_starFrom hd
  obtain ⟨start, hstart, hpre⟩ := tokens_open u hk (List.ne_nil_of_mem hc)
  obtain ⟨hhead, -, hplain⟩ := start_text _ hstart
  obtain ⟨y, z, hdz, hy⟩ : ∃ y z, d.rest = y ++ z ∧ y.map fold = start.toList.map fold := by
    obtain ⟨z, hz⟩ := hpre
    obtain ⟨y, z', hd, hy, -⟩ := List.map_eq_append_iff.mp hz.symm
    exact ⟨y, z', hd, hy⟩
  have hbracket : '[' ∉ s' ++ y := by
    intro hmem
    rcases List.mem_append.mp hmem with hmem | hmem
    · exact absurd (hspace _ hmem) (by decide)
    · rw [← hy] at hplain
      exact absurd (List.all_eq_true.mp hplain _ (List.mem_map_of_mem hmem)) (by decide)
  obtain ⟨t, ht⟩ := ha (s' ++ y) hbracket ⟨z, by rw [hs', hdz, List.append_assoc]⟩
  have hyhead : ∀ c ∈ (y ++ t).head?, isSpace c = false := by
    cases y with
    | nil => rw [← hy] at hhead; cases hhead
    | cons e y =>
      rintro c ⟨⟩
      by_contra hspace
      exact not_head (c := e) hhead hy (mem_whiteSpace (by simpa using hspace)) y rfl
  have hxhead : ∀ c ∈ (x ++ r).head?, isSpace c = false := by
    obtain ⟨e, x, rfl⟩ := List.exists_cons_of_ne_nil h.ne_nil
    rintro c ⟨⟩
    by_contra hspace
    exact h.no_space (by simpa using hspace) x rfl
  obtain ⟨-, hxy⟩ := spaces_unique hspace hs hyhead hxhead (by rw [← List.append_assoc]; exact ht)
  have hapart := unit_apart _ h.text start hstart
  rw [← hy] at hapart
  rcases List.append_eq_append_iff.mp hxy with ⟨k, hk, -⟩ | ⟨k, hk, -⟩
  · exact hapart.1 ⟨k.map fold, by rw [hk, List.map_append]⟩
  · exact hapart.2 ⟨k.map fold, by rw [hk, List.map_append]⟩

/-- What comes behind the unit still does not go on with the word. -/
theorem UnitNext.starts (hu : Alphabet u) (h : UnitNext u x r) {r' : Text} (hr : Starts r r') :
    UnitNext u x r' := by
  refine ⟨h.takes, h.text, ?_⟩
  have hends := h.ends
  cases r' with
  | nil => rfl
  | cons c t =>
    show u.word c = false
    rcases hr.head with hnil | hc | hc
    · cases hnil
    · obtain rfl := Option.some.inj hc
      exact hu.bracket
    · cases r with
      | nil => cases hc
      | cons d r =>
        obtain rfl := Option.some.inj hc
        exact hends

theorem not_bracket {c : Char} (h : isNumberPart c = true) : c ≠ '[' ∧ c ≠ ']' := by
  have hall : numberParts.all (fun c => decide (c ≠ '[' ∧ c ≠ ']')) = true := by decide
  exact of_decide_eq_true (of_numberPart hall h)

/-- What comes behind the numeral goes on with no number. -/
theorem UnitNext.no_part_next (h : UnitNext u x r) (hs : ∀ c ∈ s, isSpace c = true)
    (ha : Starts (s ++ (x ++ r)) a') : ∀ c t, a' = c :: t → isNumberPart c = false := by
  rintro c t rfl
  by_contra hpart
  have hpart : isNumberPart c = true := by simpa using hpart
  rcases ha.head with hnil | hc | hc
  · cases hnil
  · exact (not_bracket hpart).1 (Option.some.inj hc)
  · cases s with
    | nil =>
      obtain ⟨e, x, rfl⟩ := List.exists_cons_of_ne_nil h.ne_nil
      obtain rfl := Option.some.inj hc
      exact h.no_part hpart x rfl
    | cons e s =>
      obtain rfl := Option.some.inj hc
      have hspace := hs c List.mem_cons_self
      rw [not_space_of_numberPart hpart] at hspace
      cases hspace

end Prompt
