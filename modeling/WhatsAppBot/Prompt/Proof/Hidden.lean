import WhatsAppBot.Prompt.Proof.Kept
import WhatsAppBot.Prompt.Sample

/-!
# Measurements that are hidden

Behind the price word of `lead` a numeral with a separator among its first fourteen characters loses
what stands in front of it (`unbroken_of_kept`), and one whose unit `م2` loses its digit to an amount
loses everything (`not_taken_of_kept`). Main result: `measurement_kept_iff`.
-/

set_option autoImplicit false

namespace Prompt

open Lib

variable {u : Unicode} {p : Pattern Char} {ps : List (Pattern Char)}
  {n a a' m t x r s sp y v : Text} {d e : Char}

/-! ## Behind a price word -/

/-- A price word that no pass but its own touches. -/
def lead : Text := "قسط ".toList

theorem stated_lead :
    stated.all (fun p => lead.all fun c => !p.re.heads.any (fun q => q c)) = true := by
  decide

theorem tokens_lead : tokens.all (fun k => !(Re.seq k spaces).skips &&
    (lead ++ digits).all fun c => !(Re.seq k spaces).heads.any (fun q => q c)) = true := by
  decide

theorem lead_no_digit {c : Char} (h : c ∈ lead) : isDigit c = false := by
  have hlead : lead.all (fun c => !isDigit c) = true := by decide
  simpa using List.all_eq_true.mp hlead c h

theorem Measurement.behind_lead (h : Measurement u [] n a) : Measurement u lead n a := by
  obtain ⟨d, n, rfl, hd, -⟩ := numeral_cons h.numeral
  refine { h with first := fun y hy hnumeral => ?_, not_before := fun k hk => ?_ }
  · cases y with
    | nil => rfl
    | cons c y =>
      have hdigit : isDigit c = true := by
        simp only [isNumeral, Bool.and_eq_true] at hnumeral
        exact hnumeral.1.1
      rw [lead_no_digit (((List.mem_tails _ _).mp hy).subset List.mem_cons_self)] at hdigit
      cases hdigit
  · have htoken := List.all_eq_true.mp tokens_lead k hk
    rw [Bool.and_eq_true, Bool.not_eq_true', List.all_eq_true] at htoken
    refine List.any_eq_false.mpr fun i _ => ?_
    obtain ⟨c, t, ht, hc⟩ : ∃ c t, lead.drop i ++ (d :: n ++ a) = c :: t ∧ c ∈ lead ++ digits := by
      cases hdrop : lead.drop i with
      | nil => exact ⟨d, n ++ a, rfl, List.mem_append_right _ (mem_digits hd)⟩
      | cons c t =>
        exact ⟨c, _, rfl, List.mem_append_left _
          (List.mem_of_mem_drop (by rw [hdrop]; exact List.mem_cons_self))⟩
    rw [ht, Re.run_eq_nil_of_heads htoken.1 (by simpa using htoken.2 c hc)]
    exact Bool.false_ne_true

/-- A pass that spares what comes behind the numeral. -/
theorem lead_pass (hu : Alphabet u) (h : Measurement u lead n a) (hp : p ∈ stated)
    (ht : Starts a (m ++ t)) (hm : p.Spares u.word m t) :
    ∃ t', tracedPass u p (trace lead n (m ++ t)) = trace lead n (m ++ t') ∧ Starts t t' ∧
      Marks u p t t' := by
  obtain ⟨-, -, -, -, hn⟩ := numeral_cons h.numeral
  obtain ⟨s, x, r, rfl, hs, hx⟩ := exists_unit hu h.measured
  have hlead : p.Spares u.word lead (n ++ (m ++ t)) := .of_heads (stated_skips p hp) fun c hc => by
    simpa using List.all_eq_true.mp (List.all_eq_true.mp stated_lead p hp) c hc
  have hnumeral : p.Spares u.word n (m ++ t) :=
    stated_spares hn (hx.no_part_next hs ht) (fun k hk w => hx.no_token hs ht hk w) p hp
  have hsplit : ∀ {t : Text}, trace lead n (m ++ t) =
      (traced false lead ++ (traced true n ++ traced false m)) ++ traced false t := by
    simp [trace, traced]
  have hY : (traced false lead ++ (traced true n ++ traced false m)).map Prod.fst =
      lead ++ (n ++ m) := by simp
  have hspares : p.Spares u.word (lead ++ (n ++ m)) t := Pattern.spares_append.mpr
    ⟨by rwa [List.append_assoc], Pattern.spares_append.mpr ⟨hnumeral, hm⟩⟩
  obtain ⟨t', hpass, hmasked, hmark⟩ := tracedPass_spares (stated_skips p hp) hY hspares
  exact ⟨t', by rw [hsplit, hpass, hsplit], (Starts.refl t).step hmasked, hmark⟩

theorem lead_passes (hu : Alphabet u) (h : Measurement u lead n a) (hps : ∀ p ∈ ps, p ∈ stated)
    (ht : Starts a (m ++ t)) (hm : ∀ p ∈ ps, ∀ t', p.Spares u.word m t') :
    ∃ t', tracedPasses u ps (trace lead n (m ++ t)) = trace lead n (m ++ t') := by
  induction ps generalizing t with
  | nil => exact ⟨t, rfl⟩
  | cons p ps ih =>
    obtain ⟨t₁, hpass, ht₁, -⟩ := lead_pass hu h (hps p List.mem_cons_self) ht
      (hm p List.mem_cons_self t)
    obtain ⟨t₂, hpasses⟩ := ih (fun q hq => hps q (List.mem_cons_of_mem _ hq))
      (ht.trans (ht₁.append m)) fun q hq => hm q (List.mem_cons_of_mem _ hq)
    exact ⟨t₂, by rw [tracedPasses_cons, hpass, hpasses]⟩

/-! ## The price pass -/

/-- The first occurrence is behind `x` when it cannot start in it. -/
theorem replaceTraced_behind {old : Text} {d : Char} {X S : Traced} (hX : ∀ c ∈ X, c.1 ≠ d) :
    replaceTraced (d :: old) (X ++ S) = X ++ replaceTraced (d :: old) S := by
  induction X with
  | nil => rfl
  | cons c X ih =>
    obtain ⟨hc, hX⟩ := List.forall_mem_cons.mp hX
    rw [List.cons_append, replaceTraced, if_neg, ih hX, List.cons_append]
    rw [List.map_cons, List.cons_prefix_cons]
    exact fun h => hc h.1.symm

/-- How much of the numeral is left. -/
def left (t : Traced) : Nat := t.countP Prod.snd

theorem left_trace : left (trace m n a) = n.length := by
  have hfalse : ∀ t : Text, (traced false t).countP Prod.snd = 0 := fun t => by
    simp [traced, List.countP_eq_zero]
  have htrue : (traced true n).countP Prod.snd = n.length := by
    simp [traced, List.countP_map, Function.comp_def, List.countP_true]
  rw [left, trace, List.countP_append, List.countP_append, hfalse, hfalse, htrue]
  omega

theorem left_subFrom (hskip : p.re.skips = false) (skip : Nat) (w : Bool) (t : Traced) :
    left ((p.comap Prod.fst).subFrom (fun c : Char × Bool => u.word c.1) hideTraced skip w t) ≤
      left (t.drop skip) := by
  have hskip' : (p.comap (Prod.fst : Char × Bool → Char)).re.skips = false :=
    (Re.skips_comap Prod.fst p.re).trans hskip
  exact (Pattern.masked_subFrom hskip' masked_hideTraced skip w t).countP_le (by simp [traced])

theorem left_tracedPasses (hps : ∀ p ∈ ps, p.re.skips = false) (t : Traced) :
    left (tracedPasses u ps t) ≤ left t := by
  induction ps generalizing t with
  | nil => exact Nat.le_refl _
  | cons p ps ih =>
    exact (ih (fun q hq => hps q (List.mem_cons_of_mem _ hq)) _).trans
      (left_subFrom (hps p List.mem_cons_self) 0 false t)

/-- The price that is found behind the lead starts with the numeral. -/
theorem find_priced (hd : isDigit d = true) {whole group : Traced}
    (hfind : (priced.comap Prod.fst).find? (fun c : Char × Bool => u.word c.1)
      ⟨false, trace lead (d :: n) t⟩ = some (whole, group)) :
    ∃ g, group = (d, true) :: g ∧ whole = traced false lead ++ group := by
  obtain ⟨start, hstart, close, hclose, last, hlast, hwhole, hgroup⟩ := Pattern.find?_eq_some hfind
  have hwhole : whole ++ last.rest = trace lead (d :: n) t := hwhole
  -- the number starts with the first digit
  obtain ⟨x, hx, hrest⟩ := run_before_digit (r := priced.before) (by decide) hd
    (show (trace lead (d :: n) t).map Prod.fst = lead ++ d :: (n ++ t) from map_trace)
    (Re.mem_run_comap hstart)
  obtain ⟨e, y, hy, he, -, -⟩ := mem_run_number (Re.mem_run_comap hclose)
  have hnil : x = [] := by
    cases x with
    | nil => rfl
    | cons c x =>
      obtain ⟨rfl, -⟩ := List.cons.inj (hrest.symm.trans hy)
      rw [lead_no_digit (hx.subset List.mem_cons_self)] at he
      cases he
  rw [hnil] at hrest
  have hnumeral : start.rest = traced true (d :: n) ++ traced false t := by
    obtain ⟨z, hz, -⟩ := Re.exists_consumed hstart
    have hlen := congrArg List.length hrest
    have hlen : start.rest.length = (traced true (d :: n) ++ traced false t).length := by
      simpa [Cursor.map, traced] using hlen
    have hsuffix : traced true (d :: n) ++ traced false t <:+ trace lead (d :: n) t :=
      ⟨traced false lead, rfl⟩
    exact (List.suffix_of_suffix_length_le ⟨z, hz.symm⟩ hsuffix hlen.le).eq_of_length hlen
  -- and nothing is matched behind it
  have hlast := congrArg (fun c : Cursor Char => c.rest.length)
    (notAUnit_stays (Re.mem_run_comap hlast))
  have hlast : last.rest.length = close.rest.length := by simpa [Cursor.map] using hlast
  rw [show trace lead (d :: n) t = traced false lead ++ start.rest by rw [hnumeral]; rfl, ← hgroup,
    ← List.append_assoc] at hwhole
  refine ⟨group.tail, ?_, (List.append_inj' hwhole hlast).1⟩
  have hne : group.map Prod.fst ≠ [] := map_group_ne_nil rfl hclose hgroup
  rw [hnumeral] at hgroup
  cases group with
  | nil => exact absurd rfl hne
  | cons c g =>
    obtain ⟨rfl, -⟩ := List.cons.inj (show c :: (g ++ close.rest) = (d, true) :: _ from hgroup)
    rfl

/-- **The price behind the price word is hidden**, with what it has of the numeral. -/
theorem left_priced (hd : isDigit d = true)
    (hhit : priced.re.run u.word ⟨false, lead ++ (d :: n ++ t)⟩ ≠ []) :
    left (tracedPass u priced (trace lead (d :: n) t)) < (d :: n).length := by
  have htext : (trace lead (d :: n) t).map Prod.fst = lead ++ (d :: n ++ t) := map_trace
  obtain ⟨whole, group, hfind⟩ := exists_find (T := trace lead (d :: n) t) (by rwa [htext])
  obtain ⟨g, rfl, hwhole⟩ := find_priced hd hfind
  have hhidden : hideTraced whole ((d, true) :: g) = traced false lead ++ traced false redacted := by
    have hskip : ∀ c ∈ traced false lead, c.1 ≠ d := by
      intro c hc heq
      obtain ⟨b, hb, rfl⟩ := List.mem_map.mp hc
      rw [← show b = d from heq, lead_no_digit hb] at hd
      cases hd
    have hstart := replaceTraced_start (s := (d, true) :: g) (t := []) (List.cons_ne_nil d _) rfl
    rw [List.append_nil, List.append_nil] at hstart
    rw [hideTraced, hwhole, List.map_cons, replaceTraced_behind hskip]
    exact congrArg _ hstart
  have hskip : priced.re.skips = false := by decide
  have hskip' : (priced.comap (Prod.fst : Char × Bool → Char)).re.skips = false :=
    (Re.skips_comap Prod.fst priced.re).trans hskip
  obtain ⟨c, S, hcons⟩ : ∃ c S, trace lead (d :: n) t = c :: S := ⟨_, _, rfl⟩
  have htrace : left (trace lead (d :: n) t) = (d :: n).length := left_trace
  rw [hcons] at hfind htrace ⊢
  have hpass : tracedPass u priced (c :: S) = (traced false lead ++ traced false redacted) ++
      (priced.comap Prod.fst).subFrom (fun c : Char × Bool => u.word c.1) hideTraced
        (whole.length - 1) (u.word c.1) S := by
    rw [tracedPass, Pattern.sub, Pattern.subFrom, hfind]
    show hideTraced whole _ ++ _ = _
    rw [hhidden]
  obtain ⟨hexists, -⟩ := Pattern.exists_rest hskip' hfind
  have htotal : left (c :: S) = left whole + left (S.drop (whole.length - 1)) :=
    (congrArg left hexists).trans List.countP_append
  have hmore := left_subFrom (u := u) hskip (whole.length - 1) (u.word c.1) S
  have hsome : 0 < left whole := List.countP_pos_iff.mpr ⟨(d, true), by rw [hwhole]; simp, rfl⟩
  have hnone : left (traced false lead ++ traced false redacted) = 0 := by
    simp [left, traced, List.countP_eq_zero]
  calc left (tracedPass u priced (c :: S))
      = left (traced false lead ++ traced false redacted) + left _ := by
        rw [hpass]
        exact List.countP_append
    _ ≤ left (S.drop (whole.length - 1)) := by rw [hnone, Nat.zero_add]; exact hmore
    _ < left (c :: S) := by omega
    _ = (d :: n).length := htrace

/-- The price pass finds a number behind the lead, where neither a digit nor a unit comes next. -/
theorem priced_hits (hd : isDigit d = true) (hy : ∀ c ∈ y, isNumberPart c = true)
    (hlen : y.length ≤ 12) (hafter : ∀ w, notAUnit.run u.word ⟨w, t⟩ ≠ []) :
    priced.re.run u.word ⟨false, lead ++ (d :: y ++ t)⟩ ≠ [] := by
  have hword : Re.Takes u.word priceWord "قسط".toList :=
    .any (r := literal "قسط") (by simp) (takes_literal _)
  have hgap : Re.Takes u.word (.upTo 25 isGap) [' '] := .upTo (by decide)
    (List.forall_mem_singleton.mpr (by decide))
  obtain ⟨w₁, h₁⟩ := (hword.seq hgap) false (d :: y ++ t)
  obtain ⟨w₂, h₂⟩ := takes_number hd hy hlen w₁ t
  obtain ⟨c, hc⟩ := List.exists_mem_of_ne_nil _ (hafter w₂)
  exact List.ne_nil_of_mem (mem_run_priced.mpr ⟨_, h₁, _, h₂, hc⟩)

/-- What a price pass that finds the numeral leaves is less than the numeral. -/
theorem not_kept (hd : isDigit d = true)
    (hstated : tracedPasses u stated (trace lead (d :: n) a) = trace lead (d :: n) a')
    (hhit : priced.re.run u.word ⟨false, lead ++ (d :: n ++ a')⟩ ≠ []) : ¬Kept u lead (d :: n) a := by
  rintro ⟨b, t, hkept⟩
  rw [redact_split, hstated, tracedPasses_cons] at hkept
  have hless := left_priced hd hhit
  have hskips : ∀ p ∈ [rated, numberThen thousands notAUnit], p.re.skips = false := by decide
  have hrest := left_tracedPasses (u := u) hskips (tracedPass u priced (trace lead (d :: n) a'))
  rw [hkept, left_trace] at hrest
  omega

/-! ## A numeral that a number ends in -/

theorem run_notAUnit {word : Char → Bool} {w : Bool} (hd : (Re.one isDigit).run word ⟨w, t⟩ = [])
    (hunit : wholeUnit.run word ⟨w, t⟩ = []) : notAUnit.run word ⟨w, t⟩ ≠ [] :=
  List.ne_nil_of_mem (Re.mem_run_seq.mpr
    ⟨_, Re.mem_run_fails.mpr ⟨rfl, hd⟩, Re.mem_run_fails.mpr ⟨rfl, hunit⟩⟩)

/-- **A separator among the first characters** is where the price ends. -/
theorem unbroken_of_kept (hu : Alphabet u) (h : Measurement u lead n a) (hkept : Kept u lead n a) :
    Unbroken n := by
  obtain ⟨d, n, rfl, hd, hn⟩ := numeral_cons h.numeral
  obtain ⟨a', hstated⟩ : ∃ a', tracedPasses u stated (trace lead (d :: n) a) =
      trace lead (d :: n) a' :=
    lead_passes (m := []) hu h (fun p hp => hp) (.refl a) fun _ _ _ => trivial
  by_contra hbroken
  obtain ⟨e, he, hbreak⟩ : ∃ e ∈ n.take 13, isDigit e = false := by
    by_contra hall
    refine hbroken fun c hc => ?_
    rw [List.take_succ_cons] at hc
    rcases List.mem_cons.mp hc with rfl | hc
    · exact hd
    · by_contra hdigit
      exact hall ⟨c, hc, by simpa using hdigit⟩
  obtain ⟨y, z, hsplit⟩ := List.append_of_mem he
  have hsplit' : n = y ++ e :: (z ++ n.drop 13) := by
    rw [← List.cons_append, ← List.append_assoc, ← hsplit, List.take_append_drop]
  have hlen : y.length ≤ 12 := by
    have hlen := congrArg List.length hsplit
    rw [List.length_take, List.length_append, List.length_cons] at hlen
    omega
  have hpart : isNumberPart e = true := hn e (List.mem_cons_of_mem _ (by rw [hsplit']; simp))
  refine not_kept hd hstated ?_ hkept
  rw [hsplit', show d :: (y ++ e :: (z ++ n.drop 13)) ++ a' =
      d :: y ++ (e :: ((z ++ n.drop 13) ++ a')) by simp]
  refine priced_hits hd (fun c hc => hn c (List.mem_cons_of_mem _ (by rw [hsplit']; simp [hc])))
    hlen fun w => ?_
  exact run_notAUnit (by simp [Re.run, hbreak])
    (run_at_part (by decide) (by decide) hpart w _)

/-! ## A unit whose digit is an amount -/

/-- What makes the digit of `م2` an amount. -/
structure SquareNext (u : Unicode) (a s sp r : Text) (d : Char) : Prop where
  split : a = (s ++ 'م' :: sp) ++ d :: r
  space : ∀ c ∈ s, isSpace c = true
  gap : sp = [] ∨ sp = [' ']
  digit : isDigit d = true

theorem letter_arabic {word : Char → Bool} {l : Char} (hl : ¬('a' ≤ fold l ∧ fold l ≤ 'z'))
    (hfold : fold l = l) {cur c : Cursor Char} (h : c ∈ (letter l).run word cur) :
    cur.rest = l :: c.rest := by
  obtain ⟨a, ha, hrest, -⟩ := Re.mem_run_one h
  rw [hrest, eq_of_fold hl (beq_iff_eq.mp ha), hfold]

/-- The amount, after the letter. -/
theorem exists_square (h : comesNext u squareTaken n a = true) :
    ∃ s sp r d, SquareNext u a s sp r d ∧ ∃ w, ∃ c ∈ number.run u.word ⟨w, d :: r⟩,
      (Re.seq spaces (.alt currency looseSymbol)).run u.word c ≠ [] := by
  obtain ⟨last, hlast⟩ := List.exists_mem_of_ne_nil _ (by simpa [comesNext] using h)
  obtain ⟨c₁, h₁, hbehind₁⟩ := Re.mem_run_seq.mp hlast
  obtain ⟨c₂, h₂, hbehind₂⟩ := Re.mem_run_seq.mp hbehind₁
  obtain ⟨c₃, h₃, hbehind₃⟩ := Re.mem_run_seq.mp hbehind₂
  obtain ⟨c₄, h₄, hbehind⟩ := Re.mem_run_seq.mp hbehind₃
  obtain ⟨s, hs, hspace⟩ := Re.mem_starFrom h₁
  obtain ⟨d, y, hy, hd, -, -⟩ := mem_run_number h₄
  have hletter := letter_arabic (by decide) (by decide) h₂
  obtain ⟨sp, hsp, hgap⟩ : ∃ sp, c₂.rest = sp ++ c₃.rest ∧ (sp = [] ∨ sp = [' ']) := by
    rcases List.mem_append.mp
      (show c₃ ∈ (letter ' ').run u.word c₂ ++ Re.empty.run u.word c₂ from h₃) with h₃ | h₃
    · exact ⟨[' '], letter_arabic (by decide) (by decide) h₃, .inr rfl⟩
    · exact ⟨[], by rw [List.mem_singleton.mp h₃]; rfl, .inl rfl⟩
  obtain ⟨w, rest⟩ := c₃
  obtain rfl : rest = d :: (y ++ c₄.rest) := hy
  refine ⟨s, sp, y ++ c₄.rest, d, ⟨?_, hspace, hgap, hd⟩, w, c₄, h₄,
    List.ne_nil_of_mem (mem_run_spaced.mp hbehind)⟩
  rw [show a = s ++ c₁.rest from hs, hletter, hsp]
  simp

theorem stated_plain : stated.all (fun p => (whiteSpace ++ ['م', '[']).all fun c =>
    !p.re.heads.any (fun q => q c)) = true := by
  decide

theorem SquareNext.plain (h : SquareNext u a s sp r d) : ∀ c ∈ (s ++ 'م' :: sp) ++ ['['],
    c ∈ whiteSpace ++ ['م', '['] := by
  intro c hc
  simp only [List.mem_append, List.mem_cons, List.not_mem_nil, or_false] at hc ⊢
  rcases hc with (hc | rfl | hc) | rfl
  · exact .inl (mem_whiteSpace (h.space c hc))
  · exact .inr (.inl rfl)
  · rcases h.gap with rfl | rfl
    · cases hc
    · rw [List.mem_singleton.mp hc]
      exact .inl (mem_whiteSpace (by decide))
  · exact .inr (.inr rfl)

theorem SquareNext.spares_mark (h : SquareNext u a s sp r d) (hp : p ∈ stated) (t : Text) :
    p.Spares u.word ((s ++ 'م' :: sp) ++ ['[']) t :=
  .of_heads (stated_skips p hp) fun c hc => by
    simpa using List.all_eq_true.mp (List.all_eq_true.mp stated_plain p hp) c (h.plain c hc)

theorem SquareNext.spares (h : SquareNext u a s sp r d) (hp : p ∈ stated) (t : Text) :
    p.Spares u.word (s ++ 'م' :: sp) t :=
  .of_heads (stated_skips p hp) fun c hc => by
    simpa using List.all_eq_true.mp (List.all_eq_true.mp stated_plain p hp) c
      (h.plain c (List.mem_append_left _ hc))

/-- A mark behind the letter stays there. -/
theorem SquareNext.marked (hsquare : SquareNext u a s sp r d) (hu : Alphabet u)
    (h : Measurement u lead n a) (hps : ∀ p ∈ ps, p ∈ stated)
    (ht : Starts a ((s ++ 'م' :: sp) ++ t)) (hmark : redacted <+: t) :
    ∃ z, tracedPasses u ps (trace lead n ((s ++ 'م' :: sp) ++ t)) =
      trace lead n ((s ++ 'م' :: sp) ++ '[' :: z) := by
  obtain ⟨z, rfl⟩ := hmark
  have hsplit : ∀ z, (s ++ 'م' :: sp) ++ '[' :: z = ((s ++ 'م' :: sp) ++ ['[']) ++ z :=
    fun z => by simp
  have hopen : redacted ++ z = '[' :: (redacted.tail ++ z) := rfl
  rw [hopen, hsplit] at ht ⊢
  obtain ⟨z', hz'⟩ := lead_passes hu h hps ht fun p hp t' => hsquare.spares_mark (hps p hp) t'
  exact ⟨z', by rw [hz', ← hsplit]⟩

theorem stated_mem : numberCurrency ∈ stated ∧ thenNumber currency ∈ stated ∧
    thenNumber (.one isSymbol) ∈ stated ∧ numberSymbol ∈ stated := by
  simp [stated_eq]

theorem spares_symbol (hy : ∀ c ∈ y, isNumberPart c = true)
    (hv : ∀ c ∈ v, isSpace c = true) (he : isSymbol e = true) (t : Text) :
    numberCurrency.Spares u.word (y ++ (v ++ [e])) t := by
  obtain ⟨hdigit, hpart, hspace, hcurrency⟩ := symbol_class he
  have hsplit : (v ++ [e]) ++ t = v ++ e :: t := by simp
  refine Pattern.spares_append.mpr
    ⟨spares_numberThen (by decide) (by decide) hy ?_ fun w => ?_, ?_⟩
  · rw [hsplit]
    exact no_part_behind hv hpart
  · rw [hsplit]
    exact spaced_none (by decide) (by decide) hv hspace hcurrency w
  · refine numberThen_spares_plain fun c hc => ?_
    rcases List.mem_append.mp hc with hc | hc
    · exact not_digit_of_space (hv c hc)
    · rw [List.mem_singleton.mp hc]
      exact hdigit

/-- No number comes behind the symbol, once those with a currency are hidden. -/
theorem exists_unnumbered (hu : Alphabet u) (h : Measurement u lead n a) {w : Bool}
    (ht : Starts a (m ++ t)) (hm : ∀ t, numberCurrency.Spares u.word m t)
    (hloose : noNumber.run u.word ⟨w, t⟩ ≠ []) :
    ∃ t', tracedPass u numberCurrency (trace lead n (m ++ t)) = trace lead n (m ++ t') ∧ Starts t t' ∧
      ∀ w, (Re.seq spaces (.one isDigit)).run u.word ⟨w, t'⟩ = [] := by
  obtain ⟨last, hlast⟩ := List.exists_mem_of_ne_nil _ hloose
  rcases List.mem_append.mp hlast with hnone | hsome
  · obtain ⟨-, hnone⟩ := Re.mem_run_fails.mp hnone
    obtain ⟨t', hpass, ht', -⟩ := lead_pass hu h stated_mem.1 ht (hm t)
    refine ⟨t', hpass, ht', fun w' => ?_⟩
    by_contra hrun
    exact ht'.run_ne_nil (by decide) (by decide) (by decide) hrun
      ((Re.run_blind rfl w' w t).trans hnone)
  · -- the number behind the symbol has a currency
    obtain ⟨c₁, h₁, hbehind₁⟩ := Re.mem_run_seq.mp hsome
    obtain ⟨c₂, h₂, hbehind⟩ := Re.mem_run_seq.mp hbehind₁
    obtain ⟨y, hy, hspace⟩ := Re.mem_starFrom h₁
    obtain ⟨d, p, hp, hd, -, -⟩ := mem_run_number h₂
    obtain ⟨w₁, rest⟩ := c₁
    obtain rfl : rest = d :: (p ++ c₂.rest) := hp
    obtain rfl : t = y ++ d :: (p ++ c₂.rest) := hy
    have hhit : ∀ w, numberCurrency.re.run u.word ⟨w, d :: (p ++ c₂.rest)⟩ ≠ [] := fun w =>
      List.ne_nil_of_mem (mem_run_numberThen.mpr
        ⟨c₂, number_anywhere h₂, last, mem_run_spaced.mp hbehind, List.mem_singleton.mpr rfl⟩)
    have hplain : numberCurrency.Spares u.word y (d :: (p ++ c₂.rest)) :=
      numberThen_spares_plain fun c hc => not_digit_of_space (hspace c hc)
    rw [← List.append_assoc] at ht ⊢
    obtain ⟨t', hpass, ht', hmarks⟩ := lead_pass hu h stated_mem.1 ht
      (Pattern.spares_append.mpr ⟨hm _, hplain⟩)
    obtain ⟨z, rfl⟩ := hmarks rfl rfl (List.cons_ne_nil _ _) hhit
    refine ⟨y ++ (redacted ++ z), by rw [hpass, List.append_assoc], ht'.append y, fun w => ?_⟩
    rw [show redacted ++ z = '[' :: (redacted.tail ++ z) from rfl]
    exact spaced_none (by decide) (by decide) hspace (by decide) (by decide) w

/-- A number with a symbol behind it is hidden when no number comes behind the symbol. -/
theorem SquareNext.hidden_symbol (hsquare : SquareNext u a s sp r d) (hu : Alphabet u)
    (h : Measurement u lead n a) {q : Text} (hsplit : r = y ++ (v ++ e :: q))
    (hy : ∀ c ∈ y, isNumberPart c = true) (hlen : y.length ≤ 12) (hv : ∀ c ∈ v, isSpace c = true)
    (he : isSymbol e = true) {w : Bool} (hloose : noNumber.run u.word ⟨w, q⟩ ≠ []) :
    ∃ z, tracedPasses u stated (trace lead n a) = trace lead n ((s ++ 'م' :: sp) ++ '[' :: z) := by
  obtain ⟨m, hm⟩ : ∃ m, m = s ++ 'م' :: sp := ⟨_, rfl⟩
  have hdy : ∀ c ∈ d :: y, isNumberPart c = true :=
    List.forall_mem_cons.mpr ⟨numberPart_of_digit hsquare.digit, hy⟩
  have ha : a = (m ++ (d :: y ++ (v ++ [e]))) ++ q := by rw [hsquare.split, hsplit, hm]; simp
  have hletter : ∀ {p}, p ∈ stated → ∀ t, p.Spares u.word m t := fun hp t => hm ▸ hsquare.spares hp t
  have hstart : Starts a ((m ++ (d :: y ++ (v ++ [e]))) ++ q) := ha ▸ .refl a
  obtain ⟨t₁, h₁, ht₁, hnone⟩ := exists_unnumbered hu h hstart (fun t => Pattern.spares_append.mpr
    ⟨hletter stated_mem.1 _, spares_symbol hdy hv he t⟩) hloose
  have ht₁' := hstart.trans (ht₁.append _)
  have hclass : ∀ c ∈ d :: y ++ (v ++ [e]),
      isNumberPart c = true ∨ isSpace c = true ∨ isSymbol c = true := by
    intro c hc
    rcases List.mem_append.mp hc with hc | hc
    · exact .inl (hdy c hc)
    · rcases List.mem_append.mp hc with hc | hc
      · exact .inr (.inl (hv c hc))
      · rw [List.mem_singleton.mp hc]
        exact .inr (.inr he)
  obtain ⟨t₂, h₂, ht₂, -⟩ := lead_pass hu h stated_mem.2.1 ht₁' (Pattern.spares_append.mpr
    ⟨hletter stated_mem.2.1 _, spares_thenCurrency_of hclass t₁⟩)
  have ht₂' := ht₁'.trans (ht₂.append _)
  -- the symbol has no number behind it
  have hsymbol : (thenNumber (.one isSymbol)).Spares u.word (d :: y ++ (v ++ [e])) t₂ := by
    rw [← List.append_assoc]
    refine Pattern.spares_append.mpr ⟨spares_thenSymbol_of fun c hc =>
      (List.mem_append.mp hc).imp (hdy c) (hv c), fun w => ?_, trivial⟩
    refine List.eq_nil_iff_forall_not_mem.mpr fun c hc => ?_
    obtain ⟨⟨w', rest⟩, hg, f, hf, hc⟩ := mem_run_thenNumber.mp hc
    obtain ⟨e', -, hrest, -⟩ := Re.mem_run_one hg
    obtain ⟨-, rfl⟩ := List.cons.inj (show e :: t₂ = e' :: rest from hrest)
    obtain ⟨g, hg, -⟩ := Re.mem_run_seq.mp hc
    have hdigit : (Re.seq spaces (.one isDigit)).run u.word ⟨w', t₂⟩ ≠ [] :=
      List.ne_nil_of_mem (Re.mem_run_seq.mpr ⟨f, hf, hg⟩)
    exact ht₂.run_ne_nil (by decide) (by decide) (by decide) hdigit (hnone w')
  obtain ⟨t₃, h₃, ht₃, -⟩ := lead_pass hu h stated_mem.2.2.1 ht₂' (Pattern.spares_append.mpr
    ⟨hletter stated_mem.2.2.1 _, hsymbol⟩)
  have ht₃' := ht₂'.trans (ht₃.append _)
  have hbehind : ∀ t, (m ++ (d :: y ++ (v ++ [e]))) ++ t = m ++ d :: (y ++ (v ++ e :: t)) :=
    fun t => by simp
  rw [hbehind] at ht₃'
  have hhit : ∀ w, numberSymbol.re.run u.word ⟨w, d :: (y ++ (v ++ e :: t₃))⟩ ≠ [] := by
    intro w
    have hnumber : Re.Takes u.word number (d :: y) := takes_number hsquare.digit hy hlen
    have hspaces : Re.Takes u.word spaces v := .star hv
    obtain ⟨w₁, h₁⟩ := hnumber w (v ++ e :: t₃)
    obtain ⟨w₂, h₂⟩ := hspaces w₁ (e :: t₃)
    refine List.ne_nil_of_mem (a := ⟨u.word e, t₃⟩) (mem_run_numberThen.mpr
      ⟨_, h₁, _, Re.mem_run_seq.mpr ⟨_, h₂, ?_⟩, List.mem_singleton.mpr rfl⟩)
    simp [Re.run, he]
  obtain ⟨t₄, h₄, -, hmarks⟩ := lead_pass hu h stated_mem.2.2.2 ht₃' (hletter stated_mem.2.2.2 _)
  obtain ⟨z, rfl⟩ := hmarks rfl rfl (List.cons_ne_nil _ _) hhit
  refine ⟨redacted.tail ++ z, ?_⟩
  rw [← hm, stated_eq, tracedPasses_cons, ha, h₁, tracedPasses_cons, h₂, tracedPasses_cons, h₃,
    tracedPasses_cons, hbehind, h₄]
  rfl

/-- **The digit behind the letter is hidden** when it is a number with a currency, or with a symbol
that makes no other amount. -/
theorem SquareNext.hidden (hsquare : SquareNext u a s sp r d) (hu : Alphabet u)
    (h : Measurement u lead n a)
    (hnext : ∃ w, ∃ c ∈ number.run u.word ⟨w, d :: r⟩,
      (Re.seq spaces (.alt currency looseSymbol)).run u.word c ≠ []) :
    ∃ z, tracedPasses u stated (trace lead n a) = trace lead n ((s ++ 'م' :: sp) ++ '[' :: z) := by
  obtain ⟨w, c, hc, hne⟩ := hnext
  obtain ⟨last, hlast⟩ := List.exists_mem_of_ne_nil _ hne
  obtain ⟨g, hg, hbehind⟩ := Re.mem_run_seq.mp hlast
  rcases List.mem_append.mp
    (show last ∈ currency.run u.word g ++ looseSymbol.run u.word g from hbehind) with
    hcurrency | hloose
  · have hhit : ∀ w, numberCurrency.re.run u.word ⟨w, d :: r⟩ ≠ [] := fun w => List.ne_nil_of_mem
      (mem_run_numberThen.mpr ⟨c, number_anywhere hc, last, Re.mem_run_seq.mpr ⟨g, hg, hcurrency⟩,
        List.mem_singleton.mpr rfl⟩)
    have hstart : Starts a ((s ++ 'م' :: sp) ++ d :: r) := hsquare.split ▸ .refl a
    obtain ⟨t, hpass, ht, hmarks⟩ := lead_pass hu h stated_mem.1 hstart
      (hsquare.spares stated_mem.1 _)
    rw [stated_eq, tracedPasses_cons, hsquare.split, hpass]
    exact hsquare.marked hu h (fun p hp => List.mem_cons_of_mem _ hp) (hstart.trans (ht.append _))
      (hmarks rfl rfl (List.cons_ne_nil d r) hhit)
  · obtain ⟨d', y, hrest, -, hy, hlen⟩ := mem_run_number hc
    obtain ⟨rfl, hr⟩ := List.cons.inj (show d :: r = d' :: (y ++ c.rest) from hrest)
    obtain ⟨v, hv, hspace⟩ := Re.mem_starFrom hg
    obtain ⟨f, hf, hend⟩ := Re.mem_run_seq.mp hloose
    obtain ⟨e, he, hsymbol, -⟩ := Re.mem_run_one hf
    have hv : c.rest = v ++ g.rest := hv
    exact hsquare.hidden_symbol hu h (by rw [hr, hv, hsymbol]) hy hlen hspace he
      (List.ne_nil_of_mem hend)

theorem unit_letter : ∀ x ∈ [[], ['م'], ['م', ' ']], x.map fold ∉ unitTexts := by decide

/-- Neither a digit nor a unit stands where the mark hides the digit of `م2`. -/
theorem SquareNext.passes (h : SquareNext u a s sp r d) (w : Bool) (z : Text) :
    notAUnit.run u.word ⟨w, (s ++ 'م' :: sp) ++ '[' :: z⟩ ≠ [] := by
  refine run_notAUnit ?_ (List.eq_nil_iff_forall_not_mem.mpr fun c hc => ?_)
  · cases s with
    | nil => rfl
    | cons e s =>
      have hdigit : isDigit e = false := not_digit_of_space (h.space e List.mem_cons_self)
      simp [Re.run, hdigit]
  · obtain ⟨f, hf, hc⟩ := Re.mem_run_seq.mp hc
    obtain ⟨g, hg, -⟩ := Re.mem_run_seq.mp hc
    obtain ⟨s', hs', hspace⟩ := Re.mem_starFrom hf
    obtain ⟨x, hx, htext⟩ := spells_unit u f g hg
    obtain ⟨hstart, -, hplain, -⟩ := unit_text _ htext
    have hbracket : '[' ∉ x := fun hmem =>
      absurd (List.all_eq_true.mp hplain _ (List.mem_map_of_mem hmem)) (by decide)
    have hhead : ∀ c ∈ (x ++ g.rest).head?, isSpace c = false := by
      cases x with
      | nil => exact absurd htext (unit_letter _ (by simp))
      | cons e x =>
        rintro c ⟨⟩
        by_contra hspace
        exact not_head hstart rfl (List.mem_append_left _ (mem_whiteSpace (by simpa using hspace)))
          x rfl
    have hletter : ∀ c ∈ ('م' :: sp ++ '[' :: z).head?, isSpace c = false := by
      rintro c ⟨⟩
      decide
    obtain ⟨-, hxz⟩ := spaces_unique hspace h.space hhead hletter (by
      rw [← hx, ← hs', List.cons_append, List.append_assoc, List.cons_append])
    -- the unit ends in front of the mark
    obtain ⟨k, hk⟩ : x <+: 'م' :: sp := by
      rcases List.append_eq_append_iff.mp hxz with ⟨k, hk, -⟩ | ⟨k, hk, hz⟩
      · exact ⟨k, hk.symm⟩
      · cases k with
        | nil => exact ⟨[], by rw [hk]; simp⟩
        | cons e k =>
          obtain ⟨rfl, -⟩ := List.cons.inj (show '[' :: z = e :: (k ++ g.rest) from hz)
          exact absurd (by rw [hk]; simp) hbracket
    have hcases : x ∈ [[], ['م'], ['م', ' ']] := by
      rcases h.gap with rfl | rfl
      · have hmem := (List.mem_inits x ['م']).mpr ⟨k, hk⟩
        revert hmem
        simp
        tauto
      · have hmem := (List.mem_inits x ['م', ' ']).mpr ⟨k, hk⟩
        revert hmem
        simp
    exact unit_letter x hcases htext

/-- **The unit is not taken** for an amount where the numeral is kept. -/
theorem not_taken_of_kept (hu : Alphabet u) (h : Measurement u lead n a) (hkept : Kept u lead n a)
    (hlen : n.length ≤ 13) : comesNext u squareTaken n a = false := by
  obtain ⟨e, n, rfl, he, hn⟩ := numeral_cons h.numeral
  by_contra htaken
  obtain ⟨s, sp, r, d, hsquare, hnext⟩ := exists_square (by simpa using htaken)
  obtain ⟨z, hstated⟩ := hsquare.hidden hu h hnext
  exact not_kept he hstated (priced_hits he (fun c hc => hn c (List.mem_cons_of_mem _ hc))
    (Nat.le_of_succ_le_succ hlen) fun w => hsquare.passes w z) hkept

namespace Sample

/-- The characters, and the square of `م²`. -/
def alphabet : Unicode where
  word c := characters.word c || c = '²'
  decimal := characters.decimal
  word_newline := by decide
  decimal_newline := characters.decimal_newline

theorem alphabet_fits : Alphabet alphabet where
  arabic c hc := by simp [alphabet, characters, hc]
  latin c hc := by simp [alphabet, characters, hc]
  digit c hc := by simp [alphabet, characters, hc]
  square := by decide
  bracket := by decide

end Sample

end Prompt
