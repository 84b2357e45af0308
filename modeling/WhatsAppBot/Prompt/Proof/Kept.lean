import WhatsAppBot.Prompt.Proof.Numeral

/-!
# Measurements are kept

The first four passes leave the unit where its digit is no amount (`stated_keeps_unit`): where a symbol
behind it starts a number of its own, the third pass hides that one first. Behind them the last three
find nothing at an unbroken numeral, as each shorter number is followed by a digit (`no_price`). Main
result: `kept_of_unbroken`.
-/

set_option autoImplicit false

namespace Prompt

open Lib

variable {u : Unicode} {b n a a' b' x r s m : Text} {k after : Re Char} {p : Pattern Char}

/-! ## The first four passes -/

/-- The four passes that hide an amount with a currency or a symbol. -/
def stated : List (Pattern Char) := redactMoney.take 4

abbrev numberCurrency : Pattern Char := numberThen currency .empty

abbrev numberSymbol : Pattern Char := numberThen (.one isSymbol) .empty

theorem stated_eq : stated =
    [numberCurrency, thenNumber currency, thenNumber (.one isSymbol), numberSymbol] := by
  rw [stated, redactMoney_eq]
  rfl

theorem stated_skips : ∀ p ∈ stated, p.re.skips = false := by
  intro p hp
  have hall : stated.all (fun p => !p.re.skips) = true := by decide
  simpa using List.all_eq_true.mp hall p hp

theorem stated_apart {t : Text} (h : Measurement u b n a) (hb : Ends b b') :
    ∀ p ∈ stated, p.Apart u.word b' (n ++ t) := by
  intro p hp
  have hempty : ∀ {c e : Cursor Char}, c ∈ Re.empty.run u.word e → c = e := List.mem_singleton.mp
  simp only [stated_eq, List.mem_cons, List.not_mem_nil, or_false] at hp
  rcases hp with rfl | rfl | rfl | rfl
  · exact apart_numberThen h hb (by decide) hempty
  · exact apart_thenNumber h hb (by simp [tokens]) transfers_currency (by decide)
      (by decide)
  · exact apart_thenNumber h hb (by simp [tokens]) transfers_symbol (by decide) (by decide)
  · exact apart_numberThen h hb (by decide) hempty

theorem thenNumber_heads : [thenNumber currency, thenNumber (.one isSymbol)].all (fun p =>
    numberParts.all fun c => !p.re.heads.any (fun q => q c)) = true := by
  decide

theorem stated_spares (hn : ∀ c ∈ n, isNumberPart c = true)
    (ha : ∀ c t, a = c :: t → isNumberPart c = false)
    (hk : ∀ k ∈ tokens, ∀ w, (Re.seq spaces k).run u.word ⟨w, a⟩ = []) :
    ∀ p ∈ stated, p.Spares u.word n a := by
  intro p hp
  have hheads : ∀ q ∈ [thenNumber currency, thenNumber (.one isSymbol)], ∀ c ∈ n,
      q.re.heads.any (fun p => p c) = false := fun q hq c hc => by
    simpa using of_numberPart (List.all_eq_true.mp thenNumber_heads q hq) (hn c hc)
  have hskips := stated_skips p hp
  simp only [stated_eq, List.mem_cons, List.not_mem_nil, or_false] at hp
  rcases hp with rfl | rfl | rfl | rfl
  · exact spares_numberThen (by decide) (by decide) hn ha (hk _ (by simp [tokens]))
  · exact .of_heads hskips (hheads _ (by simp))
  · exact .of_heads hskips (hheads _ (by simp))
  · exact spares_numberThen (by decide) (by decide) hn ha (hk _ (by simp [tokens]))

/-- Passes that spare a run whatever they have left around it. -/
theorem passes_keep {ps : List (Pattern Char)} {Y : Traced} {y : Text} (hY : Y.map Prod.fst = y)
    (hskips : ∀ p ∈ ps, p.re.skips = false)
    (hapart : ∀ p ∈ ps, ∀ b' t, Ends b b' → p.Apart u.word b' (y ++ t))
    (hspares : ∀ p ∈ ps, ∀ a', Starts a a' → p.Spares u.word y a') (hb : Ends b b')
    (ha : Starts a a') :
    ∃ b'' a'', tracedPasses u ps (traced false b' ++ (Y ++ traced false a')) =
      traced false b'' ++ (Y ++ traced false a'') ∧ Ends b b'' ∧ Starts a a'' := by
  induction ps generalizing b' a' with
  | nil => exact ⟨b', a', rfl, hb, ha⟩
  | cons p ps ih =>
    obtain ⟨hskip, hskips⟩ := List.forall_mem_cons.mp hskips
    obtain ⟨hapart₁, hapart⟩ := List.forall_mem_cons.mp hapart
    obtain ⟨hspares₁, hspares⟩ := List.forall_mem_cons.mp hspares
    obtain ⟨b₁, a₁, hpass, hmb, hma, -⟩ :=
      tracedPass_apart hskip hY (hapart₁ b' a' hb) (hspares₁ a' ha)
    obtain ⟨b₂, a₂, hrest, hb₂, ha₂⟩ := ih hskips hapart hspares (hb.step hmb) (ha.step hma)
    refine ⟨b₂, a₂, ?_, hb₂, ha₂⟩
    rw [← hrest, ← hpass]
    rfl

/-! ## The digit of `م2` -/

/-- Where the digit of `م2` stands and is no amount. -/
theorem not_taken (hs : ∀ c ∈ s, isSpace c = true) (hx : UnitNext u x r) {y : Text}
    (hy : x = y ++ ['2']) (h : comesNext u squareTaken n (s ++ (x ++ r)) = false) {w : Bool}
    {d : Cursor Char} (hd : d ∈ number.run u.word ⟨w, '2' :: r⟩)
    (hk : k = currency ∨ k = looseSymbol) :
    (Re.seq spaces k).run u.word d = [] := by
  refine List.eq_nil_iff_forall_not_mem.mpr fun c hc => ?_
  have hy' : y = ['م'] ∨ y = ['م', ' '] := by
    rcases hx.cases with hnone | hx | hx
    · exact absurd (hnone '2' (by rw [hy]; simp)) (by decide)
    · exact .inl (List.append_cancel_right (hy.symm.trans hx))
    · exact .inr (List.append_cancel_right (hy.symm.trans hx))
  have htakes : Re.Takes u.word spaces s := .star hs
  obtain ⟨v, he⟩ := htakes (endsWord u n) (x ++ r)
  obtain ⟨f, hf, hc⟩ := Re.mem_run_seq.mp hc
  have htail : c ∈ (Re.all [spaces, .alt currency looseSymbol]).run u.word d := by
    refine mem_run_spaced.mpr (Re.mem_run_seq.mpr ⟨f, hf, List.mem_append.mpr ?_⟩)
    rcases hk with rfl | rfl
    · exact .inl hc
    · exact .inr hc
  have hletter : ⟨u.word 'م', y.tail ++ '2' :: r⟩ ∈ (letter 'م').run u.word ⟨v, x ++ r⟩ := by
    rcases hy' with rfl | rfl <;> simp [hy, letter, Re.run]
  obtain ⟨v, hspace⟩ : ∃ v, ⟨v, '2' :: r⟩ ∈
      (Re.opt (letter ' ')).run u.word ⟨u.word 'م', y.tail ++ '2' :: r⟩ := by
    rcases hy' with rfl | rfl
    · exact ⟨_, List.mem_append_right _ (List.mem_singleton.mpr rfl)⟩
    · exact ⟨u.word ' ', List.mem_append_left _ (by simp [letter, Re.run])⟩
  have hmem : c ∈ squareTaken.run u.word ⟨endsWord u n, s ++ (x ++ r)⟩ :=
    Re.mem_run_seq.mpr ⟨_, he, Re.mem_run_seq.mpr ⟨_, hletter, Re.mem_run_seq.mpr ⟨_, hspace,
      Re.mem_run_seq.mpr ⟨d, number_anywhere hd, htail⟩⟩⟩⟩
  simp only [comesNext, Bool.not_eq_false', List.isEmpty_iff] at h
  rw [h] at hmem
  cases hmem

/-- A number with a symbol behind it, where the symbol starts a number of its own. -/
structure SymbolNext (u : Unicode) (r p v y t : Text) (e d : Char) : Prop where
  split : r = p ++ (v ++ e :: (y ++ d :: t))
  parts : ∀ c ∈ p, isNumberPart c = true
  gap : ∀ c ∈ v, isSpace c = true
  symbol : isSymbol e = true
  space : ∀ c ∈ y, isSpace c = true
  digit : isDigit d = true
  plain : ∀ w, numberCurrency.re.run u.word ⟨w, d :: t⟩ = []

theorem exists_symbolNext {w : Bool} {c : Cursor Char}
    (hc : c ∈ numberSymbol.re.run u.word ⟨w, '2' :: r⟩)
    (hloose : ∀ {w : Bool} {d : Cursor Char}, d ∈ number.run u.word ⟨w, '2' :: r⟩ →
      (Re.seq spaces looseSymbol).run u.word d = []) :
    ∃ p v y t e d, SymbolNext u r p v y t e d := by
  obtain ⟨f, hf, g, hg, -⟩ := mem_run_numberThen.mp hc
  have hnone := hloose hf
  obtain ⟨_, p, hp, -, hparts, -⟩ := mem_run_number hf
  obtain ⟨rfl, hr⟩ := List.cons.inj (show '2' :: r = _ :: (p ++ f.rest) from hp)
  obtain ⟨f', hf', hg⟩ := Re.mem_run_seq.mp hg
  obtain ⟨v, hv, hspace⟩ := Re.mem_starFrom hf'
  obtain ⟨e, he, hrest, -⟩ := Re.mem_run_one hg
  have hstuck : ∀ c, c ∉ noNumber.run u.word g := fun c hc => by
    have hmem : c ∈ (Re.seq spaces looseSymbol).run u.word f :=
      Re.mem_run_seq.mpr ⟨f', hf', Re.mem_run_seq.mpr ⟨g, hg, hc⟩⟩
    rw [hnone] at hmem
    cases hmem
  have hdigit : (Re.seq spaces (.one isDigit)).run u.word g ≠ [] := fun hnil =>
    hstuck g (List.mem_append_left _ (Re.mem_run_fails.mpr ⟨rfl, hnil⟩))
  obtain ⟨c', hc'⟩ := List.exists_mem_of_ne_nil _ hdigit
  obtain ⟨g', hg', hc'⟩ := Re.mem_run_seq.mp hc'
  obtain ⟨y, hy, hspace'⟩ := Re.mem_starFrom hg'
  obtain ⟨d, hd, hrest', -⟩ := Re.mem_run_one hc'
  refine ⟨p, v, y, c'.rest, e, d, ?_, hparts, hspace, he, hspace', hd, fun w => ?_⟩
  · rw [hr, hv, hrest, hy, hrest']
  · refine List.eq_nil_iff_forall_not_mem.mpr fun c hc => ?_
    obtain ⟨f₁, hf₁, g₁, hg₁, hend⟩ := mem_run_numberThen.mp hc
    obtain rfl := List.mem_singleton.mp hend
    obtain ⟨v', rest⟩ := g'
    obtain rfl : rest = d :: c'.rest := hrest'
    exact hstuck c (List.mem_append_right _ (Re.mem_run_seq.mpr ⟨_, hg',
      Re.mem_run_seq.mpr ⟨f₁, number_anywhere hf₁, mem_run_spaced.mpr hg₁⟩⟩))

/-- The passes in the middle touch no number that a symbol comes behind. -/
theorem SymbolNext.spares {p v y t : Text} {e d : Char} (h : SymbolNext u r p v y t e d) (t' : Text) :
    (thenNumber currency).Spares u.word (p ++ (v ++ e :: (y ++ [d]))) t' := by
  refine spares_thenCurrency_of (fun c hc => ?_) t'
  simp only [List.mem_append, List.mem_cons, List.not_mem_nil, or_false] at hc
  rcases hc with hc | hc | rfl | hc | rfl
  · exact .inl (h.parts c hc)
  · exact .inr (.inl (h.gap c hc))
  · exact .inr (.inr h.symbol)
  · exact .inr (.inl (h.space c hc))
  · exact .inl (numberPart_of_digit h.digit)

/-- Behind the spaces `k` would have to start with `e`. -/
theorem spaced_none {word : Char → Bool} (hskip : k.skips = false)
    (hspaces : whiteSpace.all (fun c => !k.heads.any (fun p => p c)) = true) {v z : Text} {e : Char}
    (hv : ∀ c ∈ v, isSpace c = true) (he : isSpace e = false)
    (hk : k.heads.any (fun p => p e) = false) (w : Bool) :
    (Re.seq spaces k).run word ⟨w, v ++ e :: z⟩ = [] := by
  refine List.eq_nil_iff_forall_not_mem.mpr fun c hc => ?_
  obtain ⟨⟨w', rest⟩, hd, hc⟩ := Re.mem_run_seq.mp hc
  obtain ⟨v₁, hv₁, hspace⟩ := Re.mem_starFrom hd
  have hhead : ∃ c t, rest = c :: t ∧ k.heads.any (fun p => p c) = false := by
    rcases List.append_eq_append_iff.mp (show v ++ e :: z = v₁ ++ rest from hv₁) with
      ⟨t, ht, hrest⟩ | ⟨t, ht, hrest⟩
    · cases t with
      | nil => exact ⟨e, z, hrest.symm, hk⟩
      | cons c t =>
        obtain ⟨rfl, -⟩ := List.cons.inj (show e :: z = c :: (t ++ rest) from hrest)
        have hspace := hspace e (by rw [ht]; simp)
        rw [he] at hspace
        cases hspace
    · cases t with
      | nil => exact ⟨e, z, hrest, hk⟩
      | cons c t =>
        exact ⟨c, t ++ e :: z, hrest, by simpa using of_space hspaces (hv c (by rw [ht]; simp))⟩
  obtain ⟨c', t, rfl, hhead⟩ := hhead
  rw [Re.run_eq_nil_of_heads hskip hhead w' t] at hc
  cases hc

theorem no_part_behind {v z : Text} {e : Char} (hv : ∀ c ∈ v, isSpace c = true)
    (he : isNumberPart e = false) : ∀ c t, v ++ e :: z = c :: t → isNumberPart c = false := by
  intro c t h
  cases v with
  | nil =>
    obtain ⟨rfl, -⟩ := List.cons.inj h
    exact he
  | cons d v =>
    obtain ⟨rfl, -⟩ := List.cons.inj h
    by_contra hpart
    have hspace := hv d List.mem_cons_self
    rw [not_space_of_numberPart (by simpa using hpart)] at hspace
    cases hspace

/-- The first pass touches no number that a symbol comes behind, nor the digit behind the symbol. -/
theorem SymbolNext.spares_first {p v y t : Text} {e d : Char} (h : SymbolNext u r p v y t e d) :
    numberCurrency.Spares u.word (p ++ (v ++ e :: (y ++ [d]))) t := by
  obtain ⟨hdigit, hpart, hspace, hcurrency⟩ := symbol_class h.symbol
  refine Pattern.spares_append.mpr
    ⟨spares_numberThen (by decide) (by decide) h.parts ?_ fun w => ?_, ?_⟩
  · rw [List.append_assoc]
    exact no_part_behind h.gap hpart
  · rw [List.append_assoc]
    exact spaced_none (by decide) (by decide) h.gap hspace hcurrency w
  · rw [show v ++ e :: (y ++ [d]) = (v ++ e :: y) ++ [d] by simp]
    refine Pattern.spares_append.mpr ⟨numberThen_spares_plain fun c hc => ?_, h.plain, trivial⟩
    rcases List.mem_append.mp hc with hc | hc
    · exact not_digit_of_space (h.gap c hc)
    · rcases List.mem_cons.mp hc with rfl | hc
      · exact hdigit
      · exact not_digit_of_space (h.space c hc)

/-- Nothing of a number that a mark comes behind makes an amount with a symbol. -/
theorem no_symbol_behind_mark {p v z : Text} {e : Char} (he : isNumberPart e = true)
    (hp : ∀ c ∈ p, isNumberPart c = true) (hv : ∀ c ∈ v, isSpace c = true) (hz : redacted <+: z)
    (w : Bool) : numberSymbol.re.run u.word ⟨w, e :: ((p ++ v) ++ z)⟩ = [] := by
  obtain ⟨t, rfl⟩ := hz
  rw [show redacted = '[' :: redacted.tail by decide, List.cons_append]
  refine List.eq_nil_iff_forall_not_mem.mpr fun c hc => ?_
  obtain ⟨d, hd, g, hg, -⟩ := mem_run_numberThen.mp hc
  have hnone : (Re.seq spaces (.one isSymbol)).run u.word d = [] := by
    rw [List.append_assoc, ← List.cons_append] at hd
    exact no_number_then (by decide) (by decide) (List.forall_mem_cons.mpr ⟨he, hp⟩)
      (no_part_behind hv (by decide)) (spaced_none (by decide) (by decide) hv (by decide) (by decide))
      (List.cons_ne_nil e p) hd
  rw [hnone] at hg
  cases hg

/-- A symbol and a number behind it, whatever comes further on. -/
theorem SymbolNext.hits {p v y t : Text} {e d : Char} (h : SymbolNext u r p v y t e d) (t' : Text)
    (w : Bool) : (thenNumber (.one isSymbol)).re.run u.word ⟨w, e :: (y ++ d :: t')⟩ ≠ [] := by
  have hspaces : Re.Takes u.word spaces y := .star h.space
  have hnumber : Re.Takes u.word number [d] :=
    takes_number h.digit (fun _ ha => absurd ha List.not_mem_nil) (Nat.zero_le _)
  obtain ⟨v, hv⟩ := hspaces (u.word e) (d :: t')
  obtain ⟨v', hv'⟩ := hnumber v t'
  refine List.ne_nil_of_mem (mem_run_thenNumber.mpr ⟨⟨u.word e, y ++ d :: t'⟩, ?_, _, hv, hv'⟩)
  simp [Re.run, h.symbol]

/-! ## The unit -/

/-- The numeral is spared wherever the unit stands. -/
theorem UnitNext.spares_numeral (hx : UnitNext u x r) (hs : ∀ c ∈ s, isSpace c = true)
    (hn : ∀ c ∈ n, isNumberPart c = true) : ∀ p ∈ stated, p.Spares u.word n ((s ++ x) ++ r) := by
  rw [List.append_assoc]
  exact stated_spares hn (hx.no_part_next hs (.refl _)) fun k hk w => hx.no_token hs (.refl _) hk w

theorem UnitNext.spares_first (hx : UnitNext u x r) (hs : ∀ c ∈ s, isSpace c = true)
    (htaken : comesNext u squareTaken n (s ++ (x ++ r)) = false) :
    numberCurrency.Spares u.word (s ++ x) r := by
  refine hx.spares_numberThen hs ?_
  rintro ⟨y, hy⟩ w
  refine List.eq_nil_iff_forall_not_mem.mpr fun c hc => ?_
  obtain ⟨d, hd, e, he, -⟩ := mem_run_numberThen.mp hc
  rw [not_taken hs hx hy htaken hd (.inl rfl)] at he
  cases he

/-- The unit stays where no symbol comes behind its digit. -/
theorem UnitNext.keeps (hu : Alphabet u) (h : Measurement u b n (s ++ (x ++ r)))
    (hs : ∀ c ∈ s, isSpace c = true) (hx : UnitNext u x r)
    (htaken : comesNext u squareTaken n (s ++ (x ++ r)) = false)
    (hsymbol : ∀ y, x = y ++ ['2'] → ∀ w, numberSymbol.re.run u.word ⟨w, '2' :: r⟩ = []) :
    ∃ b' r', tracedPasses u stated (trace b n ((s ++ x) ++ r)) = trace b' n ((s ++ x) ++ r') ∧
      Ends b b' ∧ UnitNext u x r' := by
  obtain ⟨-, -, -, -, hn⟩ := numeral_cons h.numeral
  have hmem : ∀ p ∈ stated.tail, p ∈ stated := fun p => List.mem_of_mem_tail
  have hfourth : ∀ r', Starts r r' → numberSymbol.Spares u.word (s ++ x) r' := by
    intro r' hr'
    refine (hx.starts hu hr').spares_numberThen hs ?_
    rintro ⟨y, hy⟩ w
    by_contra hrun
    have hstarts : Starts ('2' :: r) ('2' :: r') := hr'.append ['2']
    exact hstarts.run_ne_nil (by decide) (by decide) (by decide) hrun (hsymbol y hy w)
  have hspares : ∀ p ∈ stated.tail, ∀ r', Starts r r' → p.Spares u.word (n ++ (s ++ x)) r' := by
    intro p hp r' hr'
    have hx' := hx.starts hu hr'
    refine Pattern.spares_append.mpr ⟨hx'.spares_numeral hs hn p (hmem p hp), ?_⟩
    simp only [stated_eq, List.tail_cons, List.mem_cons, List.not_mem_nil, or_false] at hp
    rcases hp with rfl | rfl | rfl
    · exact hx'.spares_thenCurrency hu hs
    · exact hx'.spares_thenSymbol hs
    · exact hfourth r' hr'
  obtain ⟨b₁, r₁, h₁, hb₁, hr₁, -⟩ := pass_keeps (stated_skips numberCurrency (by simp [stated_eq]))
    (stated_apart h (.refl b) _ (by simp [stated_eq]))
    (hx.spares_numeral hs hn _ (by simp [stated_eq])) (hx.spares_first hs htaken)
  obtain ⟨b₂, r₂, hrest, hb₂, hr₂⟩ := passes_keep (y := n ++ (s ++ x))
    (Y := traced true n ++ traced false (s ++ x)) (by simp) (fun p hp => stated_skips p (hmem p hp))
    (fun p hp b' t hb => by rw [List.append_assoc]; exact stated_apart h hb p (hmem p hp)) hspares
    ((Ends.refl b).step hb₁) ((Starts.refl r).step hr₁)
  refine ⟨b₂, r₂, ?_, hb₂, hx.starts hu hr₂⟩
  rw [show stated = numberCurrency :: stated.tail from rfl, tracedPasses_cons, h₁, ← trace_append,
    hrest, trace_append]

/-- The unit stays where the symbol behind its digit goes to the number behind it: the third pass hides
that one. -/
theorem SymbolNext.keeps {p v y t : Text} {e d : Char} (hsym : SymbolNext u r p v y t e d)
    (hu : Alphabet u) (h : Measurement u b n (s ++ (x ++ r))) (hs : ∀ c ∈ s, isSpace c = true)
    (hx : UnitNext u x r) (htaken : comesNext u squareTaken n (s ++ (x ++ r)) = false) :
    ∃ b' r', tracedPasses u stated (trace b n ((s ++ x) ++ r)) = trace b' n ((s ++ x) ++ r') ∧
      Ends b b' ∧ UnitNext u x r' := by
  obtain ⟨-, -, -, -, hn⟩ := numeral_cons h.numeral
  have hnumeral : ∀ p ∈ stated, ∀ r', UnitNext u x r' → p.Spares u.word n ((s ++ x) ++ r') :=
    fun p hp r' hx' => hx'.spares_numeral hs hn p hp
  have hskip : ∀ p ∈ stated, p.re.skips = false := stated_skips
  have hapart : ∀ p ∈ stated, ∀ b' t, Ends b b' → p.Apart u.word b' (n ++ t) :=
    fun p hp b' t hb => stated_apart h hb p hp
  rw [stated_eq] at hnumeral hskip hapart ⊢
  -- the first two passes keep everything up to the digit behind the symbol
  obtain ⟨q, hq⟩ : ∃ q, q = p ++ (v ++ e :: (y ++ [d])) := ⟨_, rfl⟩
  have hr : r = q ++ t := by rw [hsym.split, hq]; simp
  have hnext : ∀ {t'}, Starts t t' → UnitNext u x (q ++ t') := fun ht =>
    hx.starts hu (by rw [hr]; exact ht.append q)
  have hunit : ∀ {t'}, (s ++ x) ++ (q ++ t') = ((s ++ x) ++ q) ++ t' := (List.append_assoc ..).symm
  have hfirst : numberCurrency.Spares u.word (s ++ x) (q ++ t) := hr ▸ hx.spares_first hs htaken
  obtain ⟨b₁, t₁, h₁, hb₁, ht₁, -⟩ := pass_keeps (m := (s ++ x) ++ q) (hskip _ (by simp))
    (hapart _ (by simp) b _ (.refl b)) (hunit ▸ hnumeral _ (by simp) _ (hnext (.refl t)))
    (Pattern.spares_append.mpr ⟨hfirst, hq ▸ hsym.spares_first⟩)
  have hb₁ := (Ends.refl b).step hb₁
  have ht₁ := (Starts.refl t).step ht₁
  obtain ⟨b₂, t₂, h₂, hb₂, ht₂, -⟩ := pass_keeps (m := (s ++ x) ++ q) (hskip _ (by simp))
    (hapart _ (by simp) b₁ _ hb₁) (hunit ▸ hnumeral _ (by simp) _ (hnext ht₁))
    (Pattern.spares_append.mpr ⟨(hnext ht₁).spares_thenCurrency hu hs, hq ▸ hsym.spares t₁⟩)
  have hb₂ := hb₁.step hb₂
  have ht₂ := ht₁.step ht₂
  -- the third pass leaves a mark in the place of the symbol
  have hopen : ∀ {t'}, q ++ t' = (p ++ v) ++ (e :: (y ++ d :: t')) := fun {t'} => by rw [hq]; simp
  have hkept : ∀ c ∈ p ++ v, isNumberPart c = true ∨ isSpace c = true := fun c hc =>
    (List.mem_append.mp hc).imp (hsym.parts c) (hsym.gap c)
  have hunit' : ∀ {t'}, ((s ++ x) ++ (p ++ v)) ++ (e :: (y ++ d :: t')) = (s ++ x) ++ (q ++ t') :=
    fun {t'} => by rw [hopen, List.append_assoc]
  obtain ⟨b₃, a₃, h₃, hb₃, -, hmark⟩ := pass_keeps (m := (s ++ x) ++ (p ++ v))
    (a := e :: (y ++ d :: t₂)) (hskip _ (by simp)) (hapart _ (by simp) b₂ _ hb₂)
    (hunit' ▸ hnumeral (thenNumber (.one isSymbol)) (by simp) _ (hnext ht₂))
    (Pattern.spares_append.mpr
      ⟨hopen ▸ (hnext ht₂).spares_thenSymbol hs, spares_thenSymbol_of hkept⟩)
  have hmark := hmark rfl rfl (List.cons_ne_nil _ _) (hsym.hits t₂)
  have hb₃ := hb₂.step hb₃
  have hx₃ : UnitNext u x ((p ++ v) ++ a₃) := hx.starts hu (by
    rw [hr, hopen]
    exact (Starts.mark _ hmark).append (p ++ v))
  obtain ⟨b₄, r₄, h₄, hb₄, hr₄, -⟩ := pass_keeps (hskip _ (by simp)) (hapart _ (by simp) b₃ _ hb₃)
    (hnumeral _ (by simp) _ hx₃) (hx₃.spares_numberThen hs fun _ w =>
      no_symbol_behind_mark (by decide) hsym.parts hsym.gap hmark w)
  refine ⟨b₄, r₄, ?_, hb₃.step hb₄, hx₃.starts hu ((Starts.refl _).step hr₄)⟩
  rw [tracedPasses_cons, hr, hunit, h₁, tracedPasses_cons, h₂, tracedPasses_cons, ← hunit, ← hunit',
    h₃, tracedPasses_cons, List.append_assoc, h₄]
  rfl

/-- **The unit stays** where its digit is no amount. -/
theorem stated_keeps_unit (hu : Alphabet u) (h : Measurement u b n (s ++ (x ++ r)))
    (hs : ∀ c ∈ s, isSpace c = true) (hx : UnitNext u x r)
    (htaken : comesNext u squareTaken n (s ++ (x ++ r)) = false) :
    ∃ b' r', tracedPasses u stated (trace b n ((s ++ x) ++ r)) = trace b' n ((s ++ x) ++ r') ∧
      Ends b b' ∧ UnitNext u x r' := by
  by_cases hsymbol : ∃ y, x = y ++ ['2'] ∧ ∃ w c, c ∈ numberSymbol.re.run u.word ⟨w, '2' :: r⟩
  · obtain ⟨y, hy, w, c, hc⟩ := hsymbol
    obtain ⟨p, v, z, t, e, d, hsym⟩ :=
      exists_symbolNext hc fun hd => not_taken hs hx hy htaken hd (.inr rfl)
    exact hsym.keeps hu h hs hx htaken
  · refine hx.keeps hu h hs htaken fun y hy w => ?_
    rw [List.eq_nil_iff_forall_not_mem]
    exact fun c hc => hsymbol ⟨y, hy, w, c, hc⟩

/-! ## The last three passes -/

/-- Where nothing of the numeral passes for a price. -/
theorem no_price (hn : ∀ c ∈ n, isNumberPart c = true) (hne : n ≠ []) (hplain : Unbroken n)
    (ha : ∀ c t, a = c :: t → isNumberPart c = false)
    (hunit : n.length ≤ 13 → ∀ w, wholeUnit.run u.word ⟨w, a⟩ ≠ []) (w : Bool) :
    ∀ c ∈ number.run u.word ⟨w, n ++ a⟩, notAUnit.run u.word c = [] := by
  intro c hc
  obtain ⟨y, n', rfl, hrest, hy, hlen⟩ := number_within hn ha hc hne
  obtain ⟨v, rest⟩ := c
  obtain rfl : rest = n' ++ a := hrest
  refine List.eq_nil_iff_forall_not_mem.mpr fun c hc => ?_
  obtain ⟨d, hd, hc⟩ := Re.mem_run_seq.mp hc
  obtain ⟨rfl, hdigit⟩ := Re.mem_run_fails.mp hd
  obtain ⟨-, hunit'⟩ := Re.mem_run_fails.mp hc
  cases n' with
  | nil =>
    rw [List.append_nil] at hunit
    exact hunit hlen v hunit'
  | cons e n' =>
    have hmem : e ∈ (y ++ e :: n').take 14 := by
      rw [List.take_append, List.mem_append]
      refine .inr ?_
      rw [show 14 - y.length = (13 - y.length) + 1 by omega]
      exact List.mem_cons_self
    simp [Re.run, hplain e hmem] at hdigit

theorem priced_spares (hn : ∀ c ∈ n, isNumberPart c = true) : priced.Spares u.word n a := by
  have hall : numberParts.all (fun c => !priced.re.heads.any (fun q => q c)) = true := by
    decide
  exact .of_heads (by decide) fun c hc => by simpa using of_numberPart hall (hn c hc)

/-- The last three passes keep a numeral that is no price where the unit, or what is left of it,
stands. -/
theorem later_keep (h : Measurement u b n a) (hb : Ends b b')
    (hpart : ∀ t, Starts a' t → ∀ c z, t = c :: z → isNumberPart c = false)
    (htokens : ∀ t, Starts a' t → ∀ k ∈ tokens, ∀ w, (Re.seq spaces k).run u.word ⟨w, t⟩ = [])
    (hprice : ∀ w, ∀ c ∈ number.run u.word ⟨w, n ++ a'⟩, notAUnit.run u.word c = []) :
    ∃ b'' a'', tracedPasses u [priced, rated, numberThen thousands notAUnit] (trace b' n a') =
      trace b'' n a'' := by
  obtain ⟨-, -, -, -, hn⟩ := numeral_cons h.numeral
  obtain ⟨b₁, a₁, h₁, hb₁, ha₁, -⟩ := pass_keeps (m := []) (by decide)
    (apart_priced h hb hprice) (priced_spares hn) trivial
  have hb₁ := hb.step hb₁
  have ha₁ := (Starts.refl a').step ha₁
  have hrated : rated.Spares u.word (n ++ []) a₁ := by
    rw [List.append_nil]
    exact spares_rated hn (hpart _ ha₁) (htokens _ ha₁ _ (by simp [tokens]))
  obtain ⟨b₂, a₂, h₂, hb₂, ha₂⟩ := tracedPass_keeps (m := []) (by decide) (by decide)
    (rated_hides_none h hb₁) hrated
  have hb₂ := hb₁.step hb₂
  have ha₂ := ha₁.step ha₂
  obtain ⟨b₃, a₃, h₃, -, -, -⟩ := pass_keeps (p := numberThen thousands notAUnit) (m := [])
    (by decide) (apart_numberThen h hb₂ (by decide) notAUnit_stays)
    (spares_numberThen (by decide) (by decide) hn (hpart _ ha₂)
      (htokens _ ha₂ _ (by simp [tokens]))) trivial
  refine ⟨b₃, a₃, ?_⟩
  rw [tracedPasses_cons, show trace b' n a' = trace b' n ([] ++ a') from rfl, h₁, tracedPasses_cons,
    h₂, tracedPasses_cons, h₃]
  rfl

theorem redact_split (t : Traced) : tracedPasses u redactMoney t =
    tracedPasses u [priced, rated, numberThen thousands notAUnit] (tracedPasses u stated t) := rfl

/-- **A measurement is kept** when its numeral is unbroken and its unit is not taken for an amount. -/
theorem kept_of_unbroken (hu : Alphabet u) (h : Measurement u b n a) (hplain : Unbroken n)
    (htaken : n.length ≤ 13 → comesNext u squareTaken n a = false) : Kept u b n a := by
  obtain ⟨_, _, hcons, -, hn⟩ := numeral_cons h.numeral
  have hne : n ≠ [] := by rw [hcons]; exact List.cons_ne_nil _ _
  obtain ⟨s, x, r, rfl, hs, hx⟩ := exists_unit hu h.measured
  unfold Kept
  rw [redact_split]
  by_cases hlen : n.length ≤ 13
  · obtain ⟨b₄, r₄, hstated, hb₄, hx₄⟩ := stated_keeps_unit hu h hs hx (htaken hlen)
    rw [List.append_assoc, List.append_assoc] at hstated
    rw [hstated]
    exact later_keep h hb₄ (fun t ht => hx₄.no_part_next hs ht)
      (fun t ht k hk w => hx₄.no_token hs ht hk w)
      (no_price hn hne hplain (hx₄.no_part_next hs (.refl _)) fun _ => hx₄.whole hu hs)
  · obtain ⟨b₄, a₄, hstated, hb₄, ha₄⟩ := passes_keep (map_traced true n) stated_skips
      (fun p hp b' t hb => stated_apart h hb p hp)
      (fun p hp a' ha => stated_spares hn (hx.no_part_next hs ha)
        (fun k hk w => hx.no_token hs ha hk w) p hp) (.refl b) (.refl (s ++ (x ++ r)))
    rw [show trace b n (s ++ (x ++ r)) =
      traced false b ++ (traced true n ++ traced false (s ++ (x ++ r))) from rfl, hstated]
    exact later_keep h hb₄ (fun t ht => hx.no_part_next hs (ha₄.trans ht))
      (fun t ht k hk w => hx.no_token hs (ha₄.trans ht) hk w)
      (no_price hn hne hplain (hx.no_part_next hs ha₄) fun hle => absurd hle hlen)

end Prompt
