import WhatsAppBot.Prompt.Proof.Digits
import WhatsAppBot.Prompt.Sample

/-!
# The two scripts

`swapDigits_iff`: an amount is found in one script and not in the other exactly when nothing else is one
and a unit or a rate is there whose digit is of one script, and `redact` treats the scripts alike where no
pass meets such a unit or rate behind a number.
-/

set_option autoImplicit false

namespace Prompt

open Lib

/-! ## What the digit decides -/

/-- A price word, a gap and a number, and what comes behind it. -/
def behindPrice (next : Re Char) : Re Char := .seq (.seq priceWord (.upTo 25 isGap)) (.seq number next)

def behindNumber (next : Re Char) : Re Char := .seq .empty (.seq number next)

def behindThousands (next : Re Char) : Re Char :=
  .seq .empty (.seq (.all [number, spaces, thousands]) next)

def metreNext (two : Re Char) : Re Char := .all [spaces, squareMetre two, .boundary]

def rateNext (two : Re Char) : Re Char := .seq spaces (squareRate two)

/-- The units in either script. -/
def anyUnit : Re Char := .alt (.any (unit.alternatives.eraseIdx 4)) (squareMetre (.one isTwo))

/-- Neither a digit nor a unit in either script may follow. -/
def notAnyUnit : Re Char := .seq (.fails (.one isDigit)) (.fails (.all [spaces, anyUnit, .boundary]))

/-- The rates without a digit. -/
def wordRate : Re Char := .any (perMetre.alternatives.eraseIdx 2)

/-- What is an amount whatever the script. -/
def amounts : List (Re Char) :=
  (money.take 4 ++ money.drop 7).map Pattern.re ++
    [behindPrice notAnyUnit, behindNumber (.seq spaces wordRate), behindThousands notAnyUnit]

/-- What is an amount for the script of a unit or a rate only. -/
def scriptAmount (metre rate : Re Char) : Re Char :=
  .any [behindPrice (metreNext metre), behindThousands (metreNext metre), behindNumber (rateNext rate)]

/-- The text that the first `n` passes of `redact` leave. -/
def passes (u : Unicode) (n : Nat) (content : Text) : Text :=
  (redactMoney.take n).foldl (fun cleaned p => p.sub u.word hide cleaned) content

section

variable {u : Unicode}

theorem word_swapDigit (hword : ∀ c, isDigit c = true → u.word c = true) (c : Char) :
    u.word (swapDigit c) = u.word c := by
  have hall : digits.all isDigit = true := by decide
  refine class_swapDigit (b := true) ?_ c
  rw [List.all_eq_true] at hall ⊢
  intro d hd
  simp [hword d (hall d hd)]

/-! ### Redaction -/

theorem prefix_map_iff {x y : Text} : x.map swapDigit <+: y.map swapDigit ↔ x <+: y := by
  induction x generalizing y with
  | nil => simp
  | cons a x ih =>
    cases y with
    | nil => simp
    | cons b y =>
      simp only [List.map_cons, List.cons_prefix_cons, ih, swapDigit_injective.eq_iff]

theorem hide_swapDigits (whole amount : Text) :
    hide (whole.map swapDigit) (amount.map swapDigit) = (hide whole amount).map swapDigit := by
  have hmark : redacted.map swapDigit = redacted := by decide
  unfold hide
  induction whole with
  | nil => rfl
  | cons c s ih =>
    simp only [List.map_cons, replaceFirst]
    by_cases h : amount <+: c :: s
    · have hm : amount.map swapDigit <+: swapDigit c :: s.map swapDigit := by
        rw [← List.map_cons]
        exact prefix_map_iff.mpr h
      rw [if_pos h, if_pos hm, List.map_append, hmark, List.map_drop, List.length_map, List.map_cons]
    · have hm : ¬amount.map swapDigit <+: swapDigit c :: s.map swapDigit := by
        rw [← List.map_cons]
        exact mt prefix_map_iff.mp h
      rw [if_neg h, if_neg hm, ih, List.map_cons]

/-- A pass that does the same when read through the other script. -/
theorem pass_swapDigits (hword : ∀ c, isDigit c = true → u.word c = true) {p : Pattern Char} {s : Text}
    (h : (p.comap swapDigit).sub u.word hide s = p.sub u.word hide s) :
    p.sub u.word hide (swapDigits s) = swapDigits (p.sub u.word hide s) := by
  have hmap := Pattern.sub_map u.word swapDigit p hide_swapDigits s
  rw [show (fun c => u.word (swapDigit c)) = u.word from funext (word_swapDigit hword), h] at hmap
  exact hmap

theorem run_squareMetre {word : Char → Bool} {d : Char} (hd : d = '2' ∨ d = '٢') {k : Re Char}
    {cur : Cursor Char} (h : Re.run word (.seq (squareMetre (.one isTwo)) k) cur = []) :
    Re.run word (.seq (squareMetre (letter d)) k) cur = [] := by
  rw [List.eq_nil_iff_forall_not_mem] at h ⊢
  intro c hc
  obtain ⟨e, he, hk⟩ := Re.mem_run_seq.mp hc
  refine h c (Re.mem_run_seq.mpr ⟨e, squareMetre_two.mpr ?_, hk⟩)
  rcases hd with rfl | rfl
  · exact .inl he
  · exact .inr he

theorem run_squareRate {word : Char → Bool} {d : Char} (hd : d = '2' ∨ d = '٢')
    {cur : Cursor Char} (h : Re.run word (squareRate (.one isTwo)) cur = []) :
    Re.run word (squareRate (letter d)) cur = [] := by
  rw [List.eq_nil_iff_forall_not_mem] at h ⊢
  intro c hc
  obtain ⟨c₁, h₁, hc⟩ := Re.mem_run_seq.mp hc
  obtain ⟨c₂, h₂, hc⟩ := Re.mem_run_seq.mp hc
  obtain ⟨c₃, h₃, hend⟩ := Re.mem_run_seq.mp hc
  obtain ⟨c₄, h₄, h₃⟩ := Re.mem_run_seq.mp h₃
  obtain ⟨c₅, h₅, h₃⟩ := Re.mem_run_seq.mp h₃
  have h₅ := Re.run_one_mono (fun _ => isTwo_of_fold hd) h₅
  exact h c (Re.mem_run_seq.mpr ⟨c₁, h₁, Re.mem_run_seq.mpr ⟨c₂, h₂, Re.mem_run_seq.mpr ⟨c₃,
    Re.mem_run_seq.mpr ⟨c₄, h₄, Re.mem_run_seq.mpr ⟨c₅, h₅, h₃⟩⟩, hend⟩⟩⟩)

/-- Where no square metre comes next the unit reads the same in both scripts. -/
theorem run_notAUnit_comap (cur : Cursor Char)
    (h : (metreNext (.one isTwo)).run u.word cur = []) :
    (notAUnit.comap swapDigit).run u.word cur = notAUnit.run u.word cur := by
  have hdigit : (Re.fails (.one isDigit)).comap swapDigit = .fails (.one isDigit) :=
    Re.Fixed.fails (.one isDigit_swapDigit)
  have hspaces : spaces.comap swapDigit = spaces := fixed_spaces
  have hunit : Re.run u.word (.seq spaces (.seq (unit.comap swapDigit) (.all [.boundary]))) cur =
      Re.run u.word (.seq spaces (.seq unit (.all [.boundary]))) cur := by
    refine List.flatMap_congr fun d hd => Re.run_seq_comap_congr fun s hs => ?_
    have hnone := List.flatMap_eq_nil_iff.mp h d hd
    rcases mem_eraseIdx_or unit_squareMetre hs with hs | rfl
    · rw [fixed_units s hs]
    · rw [comap_squareMetre, comap_letter_two]
      exact (run_squareMetre (.inr rfl) hnone).trans (run_squareMetre (.inl rfl) hnone).symm
  show Re.run u.word (.seq ((Re.fails (.one isDigit)).comap swapDigit)
    (.fails (.seq (spaces.comap swapDigit) (.seq (unit.comap swapDigit) (.all [.boundary]))))) cur = _
  rw [hdigit, hspaces]
  refine List.flatMap_congr fun d hd => ?_
  obtain ⟨rfl, -⟩ := Re.mem_run_fails.mp hd
  show (if (Re.run u.word _ d).isEmpty then [d] else []) = if (Re.run u.word _ d).isEmpty then [d] else []
  rw [hunit]
  rfl

/-- Where no rate with a digit comes next a rate reads the same in both scripts. -/
theorem run_perMetre_comap (cur : Cursor Char)
    (h : (rateNext (.one isTwo)).run u.word cur = []) :
    ((Re.seq spaces perMetre).comap swapDigit).run u.word cur =
      (Re.seq spaces perMetre).run u.word cur := by
  have hspaces : spaces.comap swapDigit = spaces := fixed_spaces
  show Re.run u.word (.seq (spaces.comap swapDigit) (perMetre.comap swapDigit)) cur = _
  rw [hspaces]
  refine List.flatMap_congr fun d hd => ?_
  have hnone := List.flatMap_eq_nil_iff.mp h d hd
  rw [Re.run_alternatives, Re.run_alternatives perMetre, Re.alternatives_comap, List.flatMap_map]
  refine List.flatMap_congr fun s hs => ?_
  rcases mem_eraseIdx_or perMetre_squareRate hs with hs | rfl
  · rw [fixed_rates s hs]
  · rw [comap_squareRate, comap_letter_two, run_squareRate (.inr rfl) hnone,
      run_squareRate (.inl rfl) hnone]

/-- The pass of a pattern that reads the same in both scripts wherever `tail` does not come next. -/
theorem sub_comap {p : Pattern Char} {tail : Re Char} (hbefore : p.before.Fixed swapDigit)
    (hgroup : p.group.Fixed swapDigit)
    (hafter : ∀ cur, tail.run u.word cur = [] →
      (p.after.comap swapDigit).run u.word cur = p.after.run u.word cur) {s : Text}
    (hs : (Re.seq p.before (.seq p.group tail)).search u.word s = false) :
    (p.comap swapDigit).sub u.word hide s = p.sub u.word hide s := by
  have hp : p.comap swapDigit = ⟨p.before, p.group, p.after.comap swapDigit⟩ := by
    rw [Pattern.comap, hbefore, hgroup]
  rw [hp]
  exact Pattern.subFrom_congr (Pattern.find?_congr hafter) hs 0

/-- **No pass meets** a number before a square metre, or a rate, that is written with a digit. -/
def Undecided (u : Unicode) (content : Text) : Prop :=
  (behindPrice (metreNext (.one isTwo))).search u.word (passes u 4 content) = false ∧
    (behindNumber (rateNext (.one isTwo))).search u.word (passes u 5 content) = false ∧
    (behindThousands (metreNext (.one isTwo))).search u.word (passes u 6 content) = false

theorem redact_swapDigits (hword : ∀ c, isDigit c = true → u.word c = true) {content : Text}
    (h : Undecided u content) :
    redact u (swapDigits content) = swapDigits (redact u content) := by
  obtain ⟨hprice, hrate, hthousands⟩ := h
  have hfixed : ∀ (r : Re Char), r.Fixed swapDigit → ∀ s : Text,
      ((⟨.empty, r, .empty⟩ : Pattern Char).comap swapDigit).sub u.word hide s =
        (⟨.empty, r, .empty⟩ : Pattern Char).sub u.word hide s := by
    intro r hr s
    rw [Pattern.comap, hr]
    rfl
  have h1 : passes u 1 (swapDigits content) = swapDigits (passes u 1 content) :=
    pass_swapDigits hword (hfixed _ (fixed_behindNumber fixed_currency) _)
  have h2 : passes u 2 (swapDigits content) = swapDigits (passes u 2 content) := by
    show Pattern.sub _ _ _ (passes u 1 (swapDigits content)) = _
    rw [h1]
    exact pass_swapDigits hword (hfixed _ (fixed_beforeNumber fixed_currency) _)
  have h3 : passes u 3 (swapDigits content) = swapDigits (passes u 3 content) := by
    show Pattern.sub _ _ _ (passes u 2 (swapDigits content)) = _
    rw [h2]
    exact pass_swapDigits hword (hfixed _ (fixed_beforeNumber fixed_symbol) _)
  have h4 : passes u 4 (swapDigits content) = swapDigits (passes u 4 content) := by
    show Pattern.sub _ _ _ (passes u 3 (swapDigits content)) = _
    rw [h3]
    exact pass_swapDigits hword (hfixed _ (fixed_behindNumber fixed_symbol) _)
  have h5 : passes u 5 (swapDigits content) = swapDigits (passes u 5 content) := by
    show Pattern.sub _ _ _ (passes u 4 (swapDigits content)) = _
    rw [h4]
    exact pass_swapDigits hword
      (sub_comap (fixed_priceWord.seq (fixed_gap 25)) fixed_number run_notAUnit_comap hprice)
  have h6 : passes u 6 (swapDigits content) = swapDigits (passes u 6 content) := by
    show Pattern.sub _ _ _ (passes u 5 (swapDigits content)) = _
    rw [h5]
    exact pass_swapDigits hword (sub_comap .empty fixed_number run_perMetre_comap hrate)
  show Pattern.sub _ _ _ (passes u 6 (swapDigits content)) = _
  rw [h6]
  exact pass_swapDigits hword
    (sub_comap .empty (fixed_behindNumber fixed_thousands) run_notAUnit_comap hthousands)

/-! ### Detection -/

/-- White space starts no unit. -/
theorem run_unit_space {word : Char → Bool} {a : Char} (ha : isSpace a = true) (w : Bool) (t : Text) :
    Re.run word unit ⟨w, a :: t⟩ = [] := by
  have hall : whiteSpace.all (fun a => !unit.heads.any (fun p => p a)) = true := by decide +kernel
  exact Re.run_eq_nil_of_heads (by decide +kernel) (by simpa using of_space hall ha) w t

theorem mem_run_anyUnit {word : Char → Bool} {cur c : Cursor Char} :
    c ∈ Re.run word anyUnit cur ↔
      c ∈ Re.run word unit cur ∨ c ∈ Re.run word (squareMetre (letter '٢')) cur := by
  have hmetre : squareMetre (letter '2') ∈ unit.alternatives := List.mem_of_getElem? unit_squareMetre
  constructor
  · intro h
    rcases List.mem_append.mp (show c ∈ Re.run word (.any _) cur ++ Re.run word _ cur from h) with h | h
    · obtain ⟨r, hr, hc⟩ := Re.mem_run_any h
      exact .inl (Re.mem_run_alternatives.mpr ⟨r, List.mem_of_mem_eraseIdx hr, hc⟩)
    · rcases squareMetre_two.mp h with hc | hc
      · exact .inl (Re.mem_run_alternatives.mpr ⟨_, hmetre, hc⟩)
      · exact .inr hc
  · intro h
    show c ∈ Re.run word (.any _) cur ++ Re.run word _ cur
    rcases h with h | h
    · obtain ⟨r, hr, hc⟩ := Re.mem_run_alternatives.mp h
      rcases mem_eraseIdx_or unit_squareMetre hr with hr | rfl
      · exact List.mem_append_left _ (Re.mem_run_any_of_mem hr hc)
      · exact List.mem_append_right _ (squareMetre_two.mpr (.inl hc))
    · exact List.mem_append_right _ (squareMetre_two.mpr (.inr h))

theorem mem_run_whole {word : Char → Bool} {r : Re Char} {cur c : Cursor Char} :
    c ∈ Re.run word (.all [spaces, r, .boundary]) cur ↔
      ∃ d ∈ Re.run word spaces cur, ∃ e ∈ Re.run word r d, c ∈ Re.run word .boundary e := by
  unfold Re.all
  simp only [List.foldr, Re.mem_run_seq]
  constructor
  · rintro ⟨d, hd, e, he, c', hc, hend⟩
    obtain rfl := List.mem_singleton.mp hend
    exact ⟨d, hd, e, he, hc⟩
  · rintro ⟨d, hd, e, he, hc⟩
    exact ⟨d, hd, e, he, c, hc, List.mem_singleton.mpr rfl⟩

/-- A square metre with an Arabic-Indic digit. -/
theorem rest_squareMetre {word : Char → Bool} {cur c : Cursor Char}
    (h : c ∈ Re.run word (squareMetre (letter '٢')) cur) :
    cur.rest = 'م' :: '٢' :: c.rest ∨ cur.rest = 'م' :: ' ' :: '٢' :: c.rest := by
  obtain ⟨d, hd, e, he, hc⟩ := mem_run_squareMetre.mp h
  obtain ⟨a, ha, hcur, -⟩ := Re.mem_run_one hd
  obtain ⟨b, hb, hlast, -⟩ := Re.mem_run_one hc
  obtain rfl : a = 'م' := eq_of_fold (by decide) ((beq_iff_eq.mp ha).trans (by decide))
  obtain rfl : b = '٢' := eq_of_fold (by decide) ((beq_iff_eq.mp hb).trans (by decide))
  rcases List.mem_append.mp (show e ∈ Re.run word (letter ' ') d ++ Re.run word .empty d from he) with he | he
  · obtain ⟨x, hx, hd, -⟩ := Re.mem_run_one he
    obtain rfl : x = ' ' := eq_of_fold (by decide) ((beq_iff_eq.mp hx).trans (by decide))
    exact .inr (by rw [hcur, hd, hlast])
  · obtain rfl := List.mem_singleton.mp he
    exact .inl (by rw [hcur, hlast])

/-- Such a square metre is no unit, however the white space before it is divided up. -/
theorem run_unit_squareMetre {word : Char → Bool} {cur d c : Cursor Char} (hd : d ∈ Re.run word spaces cur)
    (hc : c ∈ Re.run word (squareMetre (letter '٢')) d) :
    Re.run word (.all [spaces, unit, .boundary]) cur = [] := by
  rw [List.eq_nil_iff_forall_not_mem]
  intro c' hc'
  obtain ⟨⟨w, t⟩, hd', e, he, -⟩ := mem_run_whole.mp hc'
  obtain ⟨x, hx, hspaces⟩ := Re.mem_starFrom hd
  obtain ⟨x', hx', hspaces'⟩ := Re.mem_starFrom hd'
  have hmetre := rest_squareMetre hc
  have hletter : ∀ y, d.rest = y ++ t → (∀ a ∈ y, isSpace a = true) → t = d.rest := by
    intro y hy hall
    cases y with
    | nil => exact hy.symm
    | cons a y =>
      have ha := hall a List.mem_cons_self
      rcases hmetre with h | h
      all_goals
        rw [h] at hy
        obtain ⟨rfl, -⟩ := List.cons.inj hy
        exact absurd ha (by decide)
  have hno : Re.run word unit ⟨w, t⟩ = [] := by
    rcases List.append_eq_append_iff.mp (hx.symm.trans hx') with ⟨y, hy, hrest⟩ | ⟨y, hy, hrest⟩
    · rw [hletter y hrest fun a ha => hspaces' a (by rw [hy]; exact List.mem_append_right _ ha)]
      rcases hmetre with h | h <;> rw [h] <;> rfl
    · cases y with
      | nil =>
        rw [List.nil_append] at hrest
        rw [show t = d.rest from hrest]
        rcases hmetre with h | h <;> rw [h] <;> rfl
      | cons a y =>
        rw [show t = a :: (y ++ d.rest) from hrest]
        exact run_unit_space (hspaces a (by rw [hy]; simp)) w _
  rw [hno] at he
  cases he

theorem mem_run_notUnit {word : Char → Bool} {r : Re Char} {cur c : Cursor Char} :
    c ∈ Re.run word (.seq (.fails (.one isDigit)) (.fails r)) cur ↔
      c = cur ∧ Re.run word (.one isDigit) cur = [] ∧ Re.run word r cur = [] := by
  rw [Re.mem_run_seq]
  constructor
  · rintro ⟨d, hd, hc⟩
    obtain ⟨rfl, hdigit⟩ := Re.mem_run_fails.mp hd
    obtain ⟨rfl, hr⟩ := Re.mem_run_fails.mp hc
    exact ⟨rfl, hdigit, hr⟩
  · rintro ⟨rfl, hdigit, hr⟩
    exact ⟨c, Re.mem_run_fails.mpr ⟨rfl, hdigit⟩, Re.mem_run_fails.mpr ⟨rfl, hr⟩⟩

/-- What is no unit is no unit in either script or a square metre with an Arabic-Indic digit. -/
theorem splits_notAUnit (word : Char → Bool) :
    Re.Splits word notAUnit notAnyUnit (metreNext (letter '٢')) := by
  intro cur
  constructor
  · rintro ⟨c, hc⟩
    obtain ⟨-, hdigit, hunit⟩ := mem_run_notUnit.mp hc
    by_cases hany : Re.run word (.all [spaces, anyUnit, .boundary]) cur = []
    · exact .inl ⟨cur, mem_run_notUnit.mpr ⟨rfl, hdigit, hany⟩⟩
    · obtain ⟨c', hc'⟩ := List.exists_mem_of_ne_nil _ hany
      obtain ⟨d, hd, e, he, hend⟩ := mem_run_whole.mp hc'
      rcases mem_run_anyUnit.mp he with he | he
      · have hin := mem_run_whole.mpr ⟨d, hd, e, he, hend⟩
        rw [hunit] at hin
        cases hin
      · exact .inr ⟨c', mem_run_whole.mpr ⟨d, hd, e, he, hend⟩⟩
  · rintro (⟨c, hc⟩ | ⟨c, hc⟩)
    · obtain ⟨-, hdigit, hany⟩ := mem_run_notUnit.mp hc
      refine ⟨cur, mem_run_notUnit.mpr ⟨rfl, hdigit, ?_⟩⟩
      rw [List.eq_nil_iff_forall_not_mem] at hany ⊢
      intro c' hc'
      obtain ⟨d, hd, e, he, hend⟩ := mem_run_whole.mp hc'
      exact hany c' (mem_run_whole.mpr ⟨d, hd, e, mem_run_anyUnit.mpr (.inl he), hend⟩)
    · obtain ⟨d, hd, e, he, -⟩ := mem_run_whole.mp hc
      refine ⟨cur, mem_run_notUnit.mpr ⟨rfl, ?_, run_unit_squareMetre hd he⟩⟩
      -- a space or the letter comes next, no digit
      rw [List.eq_nil_iff_forall_not_mem]
      intro c' hc'
      obtain ⟨a, ha, hrest, -⟩ := Re.mem_run_one hc'
      obtain ⟨x, hx, hspaces⟩ := Re.mem_starFrom hd
      cases x with
      | nil =>
        rcases rest_squareMetre he with h | h
        all_goals
          rw [hrest, h] at hx
          obtain ⟨rfl, -⟩ := List.cons.inj hx
          exact absurd ha (by decide)
      | cons b x =>
        rw [hrest] at hx
        obtain ⟨rfl, -⟩ := List.cons.inj hx
        have hspace := hspaces a List.mem_cons_self
        rw [not_space_of_numberPart (numberPart_of_digit ha)] at hspace
        cases hspace

theorem splits_perMetre (word : Char → Bool) :
    Re.Splits word (.seq spaces perMetre) (.seq spaces wordRate) (rateNext (letter '2')) := by
  refine Re.Splits.seq (fun cur => ?_) spaces
  constructor
  · rintro ⟨c, hc⟩
    obtain ⟨r, hr, hc⟩ := Re.mem_run_alternatives.mp hc
    rcases mem_eraseIdx_or perMetre_squareRate hr with hr | rfl
    · exact .inl ⟨c, Re.mem_run_any_of_mem hr hc⟩
    · exact .inr ⟨c, hc⟩
  · rintro (⟨c, hc⟩ | ⟨c, hc⟩)
    · obtain ⟨r, hr, hc⟩ := Re.mem_run_any hc
      exact ⟨c, Re.mem_run_alternatives.mpr ⟨r, List.mem_of_mem_eraseIdx hr, hc⟩⟩
    · exact ⟨c, Re.mem_run_alternatives.mpr ⟨_, List.mem_of_getElem? perMetre_squareRate, hc⟩⟩

theorem search_scriptAmount (word : Char → Bool) (metre rate : Re Char) (t : Text) :
    (scriptAmount metre rate).search word t =
      ((behindPrice (metreNext metre)).search word t ||
        ((behindThousands (metreNext metre)).search word t ||
          (behindNumber (rateNext rate)).search word t)) := by
  show (Re.alt _ (.alt _ _)).search word t = _
  rw [(Re.Splits.alt _ _).search, (Re.Splits.alt _ _).search]
  rfl

/-- The patterns of `money`, those that look for no digit of a unit or a rate first. -/
theorem any_money (f : Re Char → Bool) : money.any (fun p => f p.re) =
    (((money.take 4 ++ money.drop 7).map Pattern.re).any f || (f (behindPrice notAUnit) ||
      (f (behindNumber (.seq spaces perMetre)) || f (behindThousands notAUnit)))) := by
  have hprice : Pattern.re ⟨.seq priceWord (.upTo 25 isGap), number, notAUnit⟩ =
      behindPrice notAUnit := rfl
  have hrate : Pattern.re ⟨.empty, number, .seq spaces perMetre⟩ =
      behindNumber (.seq spaces perMetre) := rfl
  have hthousands : Pattern.re ⟨.empty, .all [number, spaces, thousands], notAUnit⟩ =
      behindThousands notAUnit := rfl
  simp only [money, redactMoney, List.cons_append, List.nil_append, List.take_succ_cons, List.take_zero,
    List.drop_succ_cons, List.drop_zero, List.map_cons, List.map_nil, List.any_cons, List.any_nil,
    Bool.or_false, hprice, hrate, hthousands]
  ac_rfl

/-- An amount is one in either script or one for the script of its unit or rate. -/
theorem mentionsAmount_eq (u : Unicode) (t : Text) : mentionsAmount u t [] =
    (amounts.any (fun r => r.search u.word t) ||
      (scriptAmount (letter '٢') (letter '2')).search u.word t) := by
  have hprice : (behindPrice notAUnit).search u.word t =
      ((behindPrice notAnyUnit).search u.word t || (behindPrice (metreNext (letter '٢'))).search u.word t) :=
    (((splits_notAUnit u.word).seq number).seq _).search t
  have hthousands : (behindThousands notAUnit).search u.word t =
      ((behindThousands notAnyUnit).search u.word t ||
        (behindThousands (metreNext (letter '٢'))).search u.word t) :=
    (((splits_notAUnit u.word).seq _).seq _).search t
  have hrate : (behindNumber (.seq spaces perMetre)).search u.word t =
      ((behindNumber (.seq spaces wordRate)).search u.word t ||
        (behindNumber (rateNext (letter '2'))).search u.word t) :=
    (((splits_perMetre u.word).seq _).seq _).search t
  have hphone : stripPhone u t [] = t := by simp [stripPhone, stripText_eq]
  have hany : money.any (fun p => p.re.search u.word t) = (amounts.any (fun r => r.search u.word t) ||
      (scriptAmount (letter '٢') (letter '2')).search u.word t) := by
    rw [any_money fun r => r.search u.word t, hprice, hthousands, hrate, search_scriptAmount, amounts,
      List.any_append]
    simp only [List.any_cons, List.any_nil, Bool.or_false]
    ac_rfl
  rw [mentionsAmount, hphone, hany]
  cases t with
  | nil => rfl
  | cons c t => simp

theorem search_swapDigits (hword : ∀ c, isDigit c = true → u.word c = true) (r : Re Char) (t : Text) :
    r.search u.word (swapDigits t) = (r.comap swapDigit).search u.word t := by
  have hmap := Re.searchFrom_map u.word swapDigit r false t
  rwa [show (fun c => u.word (swapDigit c)) = u.word from funext (word_swapDigit hword)] at hmap

theorem fixed_notAnyUnit : notAnyUnit.Fixed swapDigit := by
  have hmetre : (squareMetre (.one isTwo)).Fixed swapDigit := by
    have htwo : ∀ c, isTwo (swapDigit c) = isTwo c := by
      intro c
      cases hc : isDigit c with
      | false => rw [swapDigit_of_not_digit hc]
      | true =>
        have hall : digits.all (fun d => isTwo (swapDigit d) == isTwo d) = true := by decide
        exact beq_iff_eq.mp (of_digit hall hc)
    exact (fixed_letter (by decide)).seq ((fixed_opt (fixed_letter (by decide))).seq
      ((Re.Fixed.one htwo).seq .empty))
  have hunit : anyUnit.Fixed swapDigit := (Re.Fixed.any fixed_units).alt hmetre
  exact (Re.Fixed.fails (.one isDigit_swapDigit)).seq
    (.fails (fixed_spaces.seq (hunit.seq (Re.Fixed.boundary.seq .empty))))

theorem fixed_amounts : ∀ r ∈ amounts, r.Fixed swapDigit := by
  intro r hr
  fin_cases hr
  · exact Re.Fixed.empty.seq ((fixed_behindNumber fixed_currency).seq .empty)
  · exact Re.Fixed.empty.seq ((fixed_beforeNumber fixed_currency).seq .empty)
  · exact Re.Fixed.empty.seq ((fixed_beforeNumber fixed_symbol).seq .empty)
  · exact Re.Fixed.empty.seq ((fixed_behindNumber fixed_symbol).seq .empty)
  · exact (fixed_discount.seq (fixed_gap 15)).seq ((fixed_behindNumber (fixed_letter (by decide))).seq .empty)
  · exact Re.Fixed.empty.seq ((fixed_number.seq fixed_spaces).seq ((fixed_gap 15).seq fixed_discount))
  · exact (fixed_priceWord.seq (fixed_gap 25)).seq (fixed_number.seq fixed_notAnyUnit)
  · exact Re.Fixed.empty.seq (fixed_number.seq (fixed_spaces.seq (.any fixed_rates)))
  · exact Re.Fixed.empty.seq ((fixed_behindNumber fixed_thousands).seq fixed_notAnyUnit)

theorem comap_scriptAmount (metre rate : Re Char) : (scriptAmount metre rate).comap swapDigit =
    scriptAmount (metre.comap swapDigit) (rate.comap swapDigit) := by
  have hprice : (Re.seq priceWord (.upTo 25 isGap)).comap swapDigit = .seq priceWord (.upTo 25 isGap) :=
    fixed_priceWord.seq (fixed_gap 25)
  have hthousands : (Re.all [number, spaces, thousands]).comap swapDigit =
      .all [number, spaces, thousands] := fixed_behindNumber fixed_thousands
  have hnumber : number.comap swapDigit = number := fixed_number
  have hspaces : spaces.comap swapDigit = spaces := fixed_spaces
  have hmetre : (metreNext metre).comap swapDigit = metreNext (metre.comap swapDigit) := by
    show Re.seq (spaces.comap swapDigit) (.seq ((squareMetre metre).comap swapDigit) _) = _
    rw [hspaces, comap_squareMetre]
    rfl
  have hrate : (rateNext rate).comap swapDigit = rateNext (rate.comap swapDigit) := by
    show Re.seq (spaces.comap swapDigit) ((squareRate rate).comap swapDigit) = _
    rw [hspaces, comap_squareRate]
    rfl
  show Re.alt (.seq _ (.seq _ _)) (.alt (.seq .empty (.seq _ _)) (.seq .empty (.seq _ _))) = _
  rw [hprice, hthousands, hnumber, hmetre, hrate]
  rfl

theorem characters_digits (c : Char) (h : isDigit c = true) : Sample.characters.word c = true := by
  simp [Sample.characters, h]

/-- A price, and a measurement of five years. -/
def priceAndWarranty : Text := "سعر 2500 5 سنوات".toList

/-- A price word and 120 square metres. -/
def priceOfArea : Text := "سعر 120 م2".toList

end

end Prompt
