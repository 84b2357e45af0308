import WhatsAppBot.Prompt.Proof.Digits
import WhatsAppBot.Prompt.Proof.Units

/-!
# Passes and a numeral

The patterns of redaction are a number and something behind it, a number and something in front of it,
and a number behind a price word (`redactMoney_eq`). A number that starts in front of a numeral ends
there, as the numeral is maximal (`number_stays`), and one that starts in it ends in it
(`number_within`). So a pass that finds neither a token nor a price spares the numeral, and its matches
in front stay in front.
-/

set_option autoImplicit false

namespace Prompt

open Lib

/-! ## The patterns of redaction -/

/-- A number and `k` behind it. -/
def numberThen (k after : Re Char) : Pattern Char := ⟨.empty, .all [number, spaces, k], after⟩

/-- A number and `k` in front of it. -/
def thenNumber (k : Re Char) : Pattern Char := ⟨.empty, .all [k, spaces, number], .empty⟩

def priced : Pattern Char := ⟨.seq priceWord (.upTo 25 isGap), number, notAUnit⟩

def rated : Pattern Char := ⟨.empty, number, .seq spaces perMetre⟩

theorem redactMoney_eq : redactMoney = [numberThen currency .empty, thenNumber currency,
    thenNumber (.one isSymbol), numberThen (.one isSymbol) .empty, priced, rated,
    numberThen thousands notAUnit] := rfl

section

variable {word : Char → Bool} {k after : Re Char} {cur c : Cursor Char}

theorem mem_run_spaced : c ∈ (Re.seq spaces (.seq k .empty)).run word cur ↔
    c ∈ (Re.seq spaces k).run word cur := by
  simp only [Re.mem_run_seq]
  constructor
  · rintro ⟨d, hd, e, he, hc⟩
    obtain rfl := List.mem_singleton.mp hc
    exact ⟨d, hd, he⟩
  · rintro ⟨d, hd, he⟩
    exact ⟨d, hd, c, he, List.mem_singleton.mpr rfl⟩

theorem mem_run_numberThen : c ∈ (numberThen k after).re.run word cur ↔
    ∃ d ∈ number.run word cur, ∃ e ∈ (Re.seq spaces k).run word d, c ∈ after.run word e := by
  constructor
  · intro h
    obtain ⟨b, hb, hre⟩ := Re.mem_run_seq.mp h
    obtain ⟨e, he, hc⟩ := Re.mem_run_seq.mp hre
    obtain ⟨d, hd, hspaced⟩ := Re.mem_run_seq.mp he
    rw [List.mem_singleton.mp hb] at hd
    exact ⟨d, hd, e, mem_run_spaced.mp hspaced, hc⟩
  · rintro ⟨d, hd, e, he, hc⟩
    exact Re.mem_run_seq.mpr ⟨cur, List.mem_singleton.mpr rfl,
      Re.mem_run_seq.mpr ⟨e, Re.mem_run_seq.mpr ⟨d, hd, mem_run_spaced.mpr he⟩, hc⟩⟩

theorem mem_run_thenNumber : c ∈ (thenNumber k).re.run word cur ↔
    ∃ d ∈ k.run word cur, ∃ e ∈ spaces.run word d, c ∈ number.run word e := by
  constructor
  · intro h
    obtain ⟨b, hb, hre⟩ := Re.mem_run_seq.mp h
    obtain ⟨f, hf, hc⟩ := Re.mem_run_seq.mp hre
    obtain ⟨d, hd, hspaced⟩ := Re.mem_run_seq.mp hf
    obtain ⟨e, he, hf⟩ := Re.mem_run_seq.mp (mem_run_spaced.mp hspaced)
    rw [List.mem_singleton.mp hb] at hd
    rw [List.mem_singleton.mp hc]
    exact ⟨d, hd, e, he, hf⟩
  · rintro ⟨d, hd, e, he, hc⟩
    exact Re.mem_run_seq.mpr ⟨cur, List.mem_singleton.mpr rfl, Re.mem_run_seq.mpr
      ⟨c, Re.mem_run_seq.mpr ⟨d, hd, mem_run_spaced.mpr (Re.mem_run_seq.mpr ⟨e, he, hc⟩)⟩,
        List.mem_singleton.mpr rfl⟩⟩

theorem mem_run_priced : c ∈ priced.re.run word cur ↔
    ∃ d ∈ (Re.seq priceWord (.upTo 25 isGap)).run word cur, ∃ e ∈ number.run word d,
      c ∈ notAUnit.run word e := by
  constructor
  · intro h
    obtain ⟨d, hd, h⟩ := Re.mem_run_seq.mp h
    obtain ⟨e, he, h⟩ := Re.mem_run_seq.mp h
    exact ⟨d, hd, e, he, h⟩
  · rintro ⟨d, hd, e, he, hc⟩
    exact Re.mem_run_seq.mpr ⟨d, hd, Re.mem_run_seq.mpr ⟨e, he, hc⟩⟩

theorem mem_run_rated : c ∈ rated.re.run word cur ↔
    ∃ d ∈ number.run word cur, c ∈ (Re.seq spaces perMetre).run word d := by
  constructor
  · intro h
    obtain ⟨b, hb, hre⟩ := Re.mem_run_seq.mp h
    obtain ⟨d, hd, hc⟩ := Re.mem_run_seq.mp hre
    rw [List.mem_singleton.mp hb] at hd
    exact ⟨d, hd, hc⟩
  · rintro ⟨d, hd, hc⟩
    exact Re.mem_run_seq.mpr ⟨cur, List.mem_singleton.mpr rfl, Re.mem_run_seq.mpr ⟨d, hd, hc⟩⟩

theorem notAUnit_stays (h : c ∈ notAUnit.run word cur) : c = cur := by
  obtain ⟨d, hd, hc⟩ := Re.mem_run_seq.mp h
  rw [(Re.mem_run_fails.mp hc).1, (Re.mem_run_fails.mp hd).1]

/-! ## Numbers -/

theorem mem_run_number (h : c ∈ number.run word cur) :
    ∃ d y, cur.rest = d :: y ++ c.rest ∧ isDigit d = true ∧ (∀ a ∈ y, isNumberPart a = true) ∧
      y.length ≤ 12 := by
  obtain ⟨e, he, hc⟩ := Re.mem_run_seq.mp h
  obtain ⟨d, hd, hcur, -⟩ := Re.mem_run_one he
  obtain ⟨y, hy, hparts⟩ := Re.mem_upToFrom hc
  have hlen := Re.length_of_mem_upToFrom hc
  rw [hy, List.length_append] at hlen
  exact ⟨d, y, by rw [hcur, hy, List.cons_append], hd, hparts, by omega⟩

theorem takes_number {d : Char} {y : Text} (hd : isDigit d = true)
    (hy : ∀ a ∈ y, isNumberPart a = true) (hlen : y.length ≤ 12) : Re.Takes word number (d :: y) :=
  (Re.Takes.one hd).seq (.upTo hlen hy)

theorem number_anywhere {w w' : Bool} {t : Text} {c : Cursor Char} {e : Char}
    (h : c ∈ number.run word ⟨w, e :: t⟩) : c ∈ number.run word ⟨w', e :: t⟩ := h

/-- A match that avoids the digits ends before the next digit. -/
theorem run_before_digit {r : Re Char} (hr : digits.all r.avoids = true) {d : Char}
    (hd : isDigit d = true) {x t : Text} (hcur : cur.rest = x ++ d :: t) (hc : c ∈ r.run word cur) :
    ∃ x', x' <:+ x ∧ c.rest = x' ++ d :: t := by
  obtain ⟨y, hy, havoid⟩ := Re.exists_consumed hc
  rw [hcur] at hy
  rcases List.append_eq_append_iff.mp hy with ⟨k, hk, ht⟩ | ⟨k, hk, ht⟩
  · cases k with
    | nil => exact ⟨[], List.nil_suffix, ht.symm⟩
    | cons e k =>
      obtain ⟨rfl, -⟩ := List.cons.inj (show d :: t = e :: (k ++ c.rest) from ht)
      have hmem : d ∈ y := by rw [hk]; simp
      exact absurd hmem (havoid d (of_digit hr hd))
  · exact ⟨k, ⟨y, hk.symm⟩, ht⟩

/-- A number that starts among number parts ends with the last of them. -/
theorem number_within {n a : Text} (hn : ∀ c ∈ n, isNumberPart c = true)
    (ha : ∀ c t, a = c :: t → isNumberPart c = false) {w : Bool}
    (hc : c ∈ number.run word ⟨w, n ++ a⟩) (hne : n ≠ []) :
    ∃ y n', n = y ++ n' ∧ c.rest = n' ++ a ∧ y ≠ [] ∧ y.length ≤ 13 := by
  obtain ⟨d, y, hy, -, hparts, hlen⟩ := mem_run_number hc
  have hlen : (d :: y).length ≤ 13 := Nat.succ_le_succ hlen
  rcases List.append_eq_append_iff.mp (show n ++ a = (d :: y) ++ c.rest from hy) with
    ⟨k, hk, ht⟩ | ⟨k, hk, ht⟩
  · cases k with
    | nil =>
      rw [List.append_nil] at hk
      exact ⟨d :: y, [], by rw [hk, List.append_nil], ht.symm, List.cons_ne_nil d y, hlen⟩
    | cons e k =>
      obtain ⟨m, n, rfl⟩ := List.exists_cons_of_ne_nil hne
      obtain ⟨-, hk⟩ := List.cons.inj (show d :: y = m :: (n ++ e :: k) from hk)
      have hpart := hparts e (by rw [hk]; simp)
      rw [ha e _ ht] at hpart
      cases hpart
  · exact ⟨d :: y, k, hk, ht, List.cons_ne_nil d y, hlen⟩

/-- Nothing that starts with neither a digit nor a separator matches at one. -/
theorem run_at_part {r : Re Char} (hskip : r.skips = false)
    (hheads : numberParts.all (fun c => !r.heads.any (fun p => p c)) = true) {e : Char}
    (he : isNumberPart e = true) (w : Bool) (t : Text) : r.run word ⟨w, e :: t⟩ = [] :=
  Re.run_eq_nil_of_heads hskip (by simpa using of_numberPart hheads he) w t

/-! ## Passes over a numeral -/

variable {n a : Text}

/-- Where a number of the numeral can be followed by nothing of `r`. -/
theorem no_number_then {r : Re Char} (hskip : r.skips = false)
    (hheads : numberParts.all (fun c => !r.heads.any (fun p => p c)) = true)
    (hn : ∀ c ∈ n, isNumberPart c = true) (ha : ∀ c t, a = c :: t → isNumberPart c = false)
    (hr : ∀ w, r.run word ⟨w, a⟩ = []) (hne : n ≠ []) {w : Bool} {d : Cursor Char}
    (hd : d ∈ number.run word ⟨w, n ++ a⟩) : r.run word d = [] := by
  obtain ⟨y, n', hn', hrest, -, -⟩ := number_within hn ha hd hne
  obtain ⟨v, rest⟩ := d
  obtain rfl : rest = n' ++ a := hrest
  cases n' with
  | nil => exact hr v
  | cons e n' =>
    exact run_at_part hskip hheads (hn e (by rw [hn']; simp)) v (n' ++ a)

theorem spares_numberThen (hskip : (Re.seq spaces k).skips = false)
    (hheads : numberParts.all (fun c => !(Re.seq spaces k).heads.any (fun p => p c)) = true)
    (hn : ∀ c ∈ n, isNumberPart c = true) (ha : ∀ c t, a = c :: t → isNumberPart c = false)
    (hk : ∀ w, (Re.seq spaces k).run word ⟨w, a⟩ = []) : (numberThen k after).Spares word n a := by
  refine .of_suffix fun y₁ y₂ hy hne w => List.eq_nil_iff_forall_not_mem.mpr fun c hc => ?_
  obtain ⟨d, hd, e, he, -⟩ := mem_run_numberThen.mp hc
  have hy₂ : ∀ c ∈ y₂, isNumberPart c = true :=
    fun c hc => hn c (by rw [hy]; exact List.mem_append_right _ hc)
  rw [no_number_then hskip hheads hy₂ ha hk hne hd] at he
  cases he

theorem spares_rated (hn : ∀ c ∈ n, isNumberPart c = true)
    (ha : ∀ c t, a = c :: t → isNumberPart c = false)
    (hk : ∀ w, (Re.seq spaces perMetre).run word ⟨w, a⟩ = []) : rated.Spares word n a := by
  refine .of_suffix fun y₁ y₂ hy hne w => List.eq_nil_iff_forall_not_mem.mpr fun c hc => ?_
  obtain ⟨d, hd, hc⟩ := mem_run_rated.mp hc
  have hy₂ : ∀ c ∈ y₂, isNumberPart c = true :=
    fun c hc => hn c (by rw [hy]; exact List.mem_append_right _ hc)
  rw [no_number_then (by decide) (by decide) hy₂ ha hk hne hd] at hc
  cases hc

end

/-! ## Passes in front of a numeral -/

section

variable {u : Unicode} {b n a b' t x r s : Text} {k after : Re Char}

theorem numeral_cons (h : isNumeral n = true) :
    ∃ d t, n = d :: t ∧ isDigit d = true ∧ ∀ c ∈ n, isNumberPart c = true := by
  simp only [isNumeral, Bool.and_eq_true, List.all_eq_true] at h
  obtain ⟨⟨hfirst, -⟩, hparts⟩ := h
  cases n with
  | nil => cases hfirst
  | cons d t => exact ⟨d, t, rfl, hfirst, hparts⟩

theorem numeral_append (h : isNumeral n = true) {d : Char} {y : Text} (hd : isDigit d = true)
    (hy : ∀ c ∈ y, isNumberPart c = true) : isNumeral (d :: y ++ n) = true := by
  obtain ⟨e, t, rfl, -, -⟩ := numeral_cons h
  simp only [isNumeral, Bool.and_eq_true, List.all_eq_true] at h ⊢
  refine ⟨⟨hd, ?_⟩, ?_⟩
  · rw [List.getLast?_append, List.getLast?_cons]
    simpa [List.getLast?_cons] using h.1.2
  · intro c hc
    rcases List.mem_append.mp hc with hc | hc
    · rcases List.mem_cons.mp hc with rfl | hc
      · exact numberPart_of_digit hd
      · exact hy c hc
    · exact h.2 c hc

/-- **A number of the text before** ends before the numeral. -/
theorem number_stays (h : Measurement u b n a) (hb : Ends b b') {x : Text} (hx : x <:+ b')
    (hne : x ≠ []) {cur c : Cursor Char} (hcur : cur.rest = x ++ (n ++ t))
    (hc : c ∈ number.run u.word cur) : ∃ x', x' <:+ x ∧ c.rest = x' ++ (n ++ t) := by
  obtain ⟨d, y, hy, hd, hparts, -⟩ := mem_run_number hc
  rw [hcur] at hy
  rcases List.append_eq_append_iff.mp hy with ⟨k, hk, -⟩ | ⟨k, hk, ht⟩
  · -- the number goes on into the numeral, which is maximal
    obtain ⟨e, x, rfl⟩ := List.exists_cons_of_ne_nil hne
    obtain ⟨rfl, rfl⟩ := List.cons.inj (show d :: y = e :: (x ++ k) from hk)
    have hx' : ∀ c ∈ x, isNumberPart c = true := fun c hc => hparts c (List.mem_append_left _ hc)
    have hbracket : ']' ∉ d :: x := by
      intro hmem
      rcases List.mem_cons.mp hmem with heq | hmem
      · exact (not_bracket (numberPart_of_digit hd)).2 heq.symm
      · exact (not_bracket (hx' _ hmem)).2 rfl
    have hnil := h.first (d :: x) ((List.mem_tails _ _).mpr (hb _ hbracket hx))
      (numeral_append h.numeral hd hx')
    cases hnil
  · exact ⟨k, ⟨d :: y, hk.symm⟩, ht⟩

/-- What avoids the digits ends before the numeral. -/
theorem stays_before (h : Measurement u b n a) {r : Re Char} (hr : digits.all r.avoids = true)
    {x : Text} {cur c : Cursor Char} (hcur : cur.rest = x ++ (n ++ t))
    (hc : c ∈ r.run u.word cur) : ∃ x', x' <:+ x ∧ c.rest = x' ++ (n ++ t) := by
  obtain ⟨d, m, rfl, hd, -⟩ := numeral_cons h.numeral
  exact run_before_digit hr hd hcur hc

/-- Where a number of the text before ends. -/
theorem number_ends (h : Measurement u b n a) (hb : Ends b b') {x₁ x₂ : Text} (hx : b' = x₁ ++ x₂)
    (hne : x₂ ≠ []) {w : Bool} {d : Cursor Char} (hd : d ∈ number.run u.word ⟨w, x₂ ++ (n ++ t)⟩) :
    ∃ x', d.rest = x' ++ (n ++ t) := by
  obtain ⟨x', -, hx'⟩ := number_stays h hb ⟨x₁, hx.symm⟩ hne rfl hd
  exact ⟨x', hx'⟩

theorem apart_numberThen (h : Measurement u b n a) (hb : Ends b b')
    (hk : digits.all (Re.seq spaces k).avoids = true)
    (hafter : ∀ {c e : Cursor Char}, c ∈ after.run u.word e → c = e) :
    (numberThen k after).Apart u.word b' (n ++ t) := by
  intro x₁ x₂ hx hne w c hc
  obtain ⟨d, hd, e, he, hc⟩ := mem_run_numberThen.mp hc
  obtain ⟨x', hx'⟩ := number_ends h hb hx hne hd
  obtain ⟨x'', -, hx''⟩ := stays_before h hk hx' he
  exact ⟨x'', by rw [hafter hc, hx'']⟩

theorem rated_hides_none (h : Measurement u b n a) (hb : Ends b b') :
    HidesNone u rated b' (n ++ t) := by
  intro x₁ x₂ hx hne w start hstart close hclose last _
  obtain rfl := List.mem_singleton.mp hstart
  exact .inr ⟨rfl, number_ends h hb hx hne hclose⟩

/-- A currency or a symbol that stands in front of the numeral would do so in the text. -/
def Transfers (u : Unicode) (k : Re Char) : Prop :=
  ∀ {w w' : Bool} {x s s' : Text} {c : Cursor Char}, s.head? = s'.head? →
    (∀ e ∈ s.head?, isLatinLetter e = false) → c ∈ k.run u.word ⟨w, x ++ s⟩ → c.rest = s →
      ∃ c' ∈ k.run u.word ⟨w', x ++ s'⟩, c'.rest = s'

theorem transfers_symbol : Transfers u (.one isSymbol) :=
  fun hhead _ hc hrest => Re.run_context rfl (.inr hhead) hc hrest

theorem transfers_currency : Transfers u currency := by
  intro w w' x s s' c hhead hlatin hc hrest
  obtain ⟨r, hr, hc⟩ := Re.mem_run_any hc
  have hnear : ∀ r ∈ currencyForms.eraseIdx 16, r.near = true := by
    have hall : (currencyForms.eraseIdx 16).all Re.near = true := by decide
    exact fun r => List.all_eq_true.mp hall r
  rcases mem_eraseIdx_or (i := 16) (a := .all [.boundary, literal "LE", .boundary]) rfl hr
    with hr' | rfl
  · obtain ⟨c', hc', hrest'⟩ : ∃ c' ∈ r.run u.word ⟨w', x ++ s'⟩, c'.rest = s' :=
      Re.run_context (hnear r hr') (.inr hhead) hc hrest
    exact ⟨c', Re.mem_run_any_of_mem hr hc', hrest'⟩
  · -- `LE` is also `L.E.` without the points, as no letter comes behind it
    obtain ⟨d, hd, hc⟩ := Re.mem_run_seq.mp hc
    obtain ⟨e, he, hc⟩ := Re.mem_run_seq.mp hc
    obtain ⟨g, hg, hc⟩ := Re.mem_run_seq.mp hc
    obtain rfl := List.mem_singleton.mp hc
    obtain ⟨y, hy, htext⟩ := Spells.literal "LE" d e he
    have hx : x = y := by
      rw [(Re.mem_run_boundary.mp hd).1, ← (Re.mem_run_boundary.mp hg).1, hrest] at hy
      exact List.append_cancel_right hy
    have htext : y.map fold = [fold 'L', fold 'E'] := (List.mem_singleton.mp htext).trans (by decide)
    obtain ⟨l, y, rfl, hl, hy⟩ := List.map_eq_cons_iff.mp htext
    obtain ⟨m, z, rfl, hm, hz⟩ := List.map_eq_cons_iff.mp hy
    obtain rfl := List.map_eq_nil_iff.mp hz
    have hnone : (Re.one isLatinLetter).run u.word ⟨u.word m, s'⟩ = [] := by
      cases s' with
      | nil => rfl
      | cons e s' =>
        simp [Re.run, hlatin e (by rw [hhead]; rfl)]
    refine ⟨⟨u.word m, s'⟩, Re.mem_run_any_of_mem (r := currencyForms[15]) (List.getElem_mem _) ?_,
      rfl⟩
    rw [hx]
    refine Re.mem_run_seq.mpr ⟨⟨u.word l, m :: s'⟩, by simp [letter, Re.run, hl], ?_⟩
    refine Re.mem_run_seq.mpr
      ⟨⟨u.word l, m :: s'⟩, List.mem_append_right _ (List.mem_singleton.mpr rfl), ?_⟩
    refine Re.mem_run_seq.mpr ⟨⟨u.word m, s'⟩, by simp [letter, Re.run, hm], ?_⟩
    refine Re.mem_run_seq.mpr
      ⟨⟨u.word m, s'⟩, List.mem_append_right _ (List.mem_singleton.mpr rfl), ?_⟩
    exact Re.mem_run_seq.mpr ⟨_, Re.mem_run_fails.mpr ⟨rfl, hnone⟩, List.mem_singleton.mpr rfl⟩

theorem endsBefore_of {k : Re Char} {b₀ y : Text} {v : Bool} (hb : b₀ ++ y = b)
    (hk : ⟨v, t⟩ ∈ k.run u.word ⟨endsWord u b₀, y ++ t⟩) : endsBefore u k b t = true := by
  refine List.any_eq_true.mpr
    ⟨b₀.length, List.mem_range.mpr ?_, List.any_eq_true.mpr ⟨⟨v, t⟩, ?_, ?_⟩⟩
  · rw [← hb, List.length_append]
    omega
  · rw [← hb, List.take_left, List.drop_left]
    exact hk
  · exact beq_self_eq_true t

/-- No token of the text stands in front of the numeral. -/
theorem no_token_before (h : Measurement u b n a) (hk : k ∈ tokens) {b₀ y : Text}
    (hb : b₀ ++ (y ++ s) = b) (hs : ∀ c ∈ s, isSpace c = true) (v : Bool) :
    ⟨v, s ++ (n ++ a)⟩ ∉ k.run u.word ⟨endsWord u b₀, y ++ (s ++ (n ++ a))⟩ := by
  intro hmem
  have htakes : Re.Takes u.word spaces s := .star hs
  obtain ⟨v', hspaces⟩ := htakes v (n ++ a)
  have hbefore : endsBefore u (.seq k spaces) b (n ++ a) = true := by
    refine endsBefore_of hb (v := v') ?_
    rw [List.append_assoc]
    exact Re.mem_run_seq.mpr ⟨_, hmem, hspaces⟩
  rw [h.not_before k hk] at hbefore
  cases hbefore

theorem head_numeral (hn : isNumeral n = true) (hs : ∀ c ∈ s, isSpace c = true) (t : Text) :
    ∃ e, isLatinLetter e = false ∧ (s ++ (n ++ t)).head? = some e ∧
      (s ++ (n ++ a)).head? = some e := by
  cases s with
  | nil =>
    obtain ⟨d, n, rfl, hd, -⟩ := numeral_cons hn
    have hall : digits.all (fun c => !isLatinLetter c) = true := by decide
    exact ⟨d, by simpa using of_digit hall hd, rfl, rfl⟩
  | cons c s =>
    have hall : whiteSpace.all (fun c => !isLatinLetter c) = true := by decide
    exact ⟨c, by simpa using of_space hall (hs c List.mem_cons_self), rfl, rfl⟩

theorem apart_thenNumber (h : Measurement u b n a) (hb : Ends b b') (hk : k ∈ tokens)
    (htransfer : Transfers u k) (hdigits : digits.all k.avoids = true)
    (hbracket : k.avoids ']' = true) : (thenNumber k).Apart u.word b' (n ++ t) := by
  intro x₁ x₂ hx hne w c hc
  obtain ⟨d, hd, e, he, hc⟩ := mem_run_thenNumber.mp hc
  obtain ⟨x', hsuffix, hx'⟩ := stays_before h hdigits rfl hd
  obtain ⟨x'', hsuffix', hx''⟩ := stays_before h (by decide) hx' he
  by_cases hnil : x'' = []
  · -- `k` stands in front of the numeral, in the text too
    exfalso
    subst hnil
    obtain ⟨y, hy, havoid⟩ := Re.exists_consumed hd
    obtain ⟨s, hs, hspace⟩ := Re.mem_starFrom he
    obtain rfl : s = x' := by
      rw [hx', hx''] at hs
      exact (List.append_cancel_right hs).symm
    have hy : x₂ ++ (n ++ t) = y ++ (s ++ (n ++ t)) := by
      rw [← hx']
      exact hy
    obtain rfl : x₂ = y ++ s := List.append_cancel_right (hy.trans (List.append_assoc ..).symm)
    have hnot : ']' ∉ y ++ s := by
      intro hmem
      rcases List.mem_append.mp hmem with hmem | hmem
      · exact havoid _ hbracket hmem
      · exact absurd (hspace _ hmem) (by decide)
    obtain ⟨b₀, hb₀⟩ := hb _ hnot ⟨x₁, hx.symm⟩
    obtain ⟨m, hm, ht, ha⟩ := head_numeral (a := a) h.numeral hspace t
    rw [hy] at hd
    obtain ⟨⟨v, rest⟩, hmem, hrest⟩ : ∃ c' ∈ k.run u.word ⟨endsWord u b₀, y ++ (s ++ (n ++ a))⟩,
        c'.rest = s ++ (n ++ a) := by
      refine htransfer (ht.trans ha.symm) (fun e he => ?_) hd hx'
      rwa [Option.some.inj (he.symm.trans ht)]
    obtain rfl : rest = s ++ (n ++ a) := hrest
    exact no_token_before h hk hb₀ hspace v hmem
  · obtain ⟨x₃, -, hx₃⟩ := number_stays h hb
      ((hsuffix'.trans hsuffix).trans ⟨x₁, hx.symm⟩) hnil hx'' hc
    exact ⟨x₃, hx₃⟩

theorem apart_priced (h : Measurement u b n a) (hb : Ends b b')
    (hsafe : ∀ w, ∀ c ∈ number.run u.word ⟨w, n ++ t⟩, notAUnit.run u.word c = []) :
    priced.Apart u.word b' (n ++ t) := by
  intro x₁ x₂ hx hne w c hc
  obtain ⟨d, hd, e, he, hc⟩ := mem_run_priced.mp hc
  obtain ⟨x', hsuffix, hx'⟩ := stays_before h (by decide) rfl hd
  obtain rfl := notAUnit_stays hc
  by_cases hnil : x' = []
  · subst hnil
    obtain ⟨v, rest⟩ := d
    obtain rfl : rest = n ++ t := hx'
    rw [hsafe v _ he] at hc
    cases hc
  · obtain ⟨x₃, -, hx₃⟩ := number_stays h hb (hsuffix.trans ⟨x₁, hx.symm⟩) hnil hx' he
    exact ⟨x₃, hx₃⟩

/-! ## Passes over a unit -/

theorem of_symbol {q : Char → Bool} (h : ['$', '€', '£'].all q = true) {e : Char}
    (he : isSymbol e = true) : q e = true := by
  refine List.all_eq_true.mp h e ?_
  simp only [isSymbol, Bool.or_eq_true, decide_eq_true_eq] at he
  rcases he with (rfl | rfl) | rfl <;> simp

theorem symbol_class {e : Char} (h : isSymbol e = true) :
    isDigit e = false ∧ isNumberPart e = false ∧ isSpace e = false ∧
      currency.heads.any (fun p => p e) = false := by
  have hall : ['$', '€', '£'].all (fun e => decide (isDigit e = false ∧ isNumberPart e = false ∧
      isSpace e = false ∧ currency.heads.any (fun p => p e) = false)) = true := by
    decide
  exact of_decide_eq_true (of_symbol hall h)

theorem not_digit_of_space {c : Char} (h : isSpace c = true) : isDigit c = false := by
  have hall : whiteSpace.all (fun c => !isDigit c) = true := by decide
  simpa using of_space hall h

theorem spares_thenCurrency_of {l : Text}
    (hl : ∀ c ∈ l, isNumberPart c = true ∨ isSpace c = true ∨ isSymbol c = true) (t : Text) :
    (thenNumber currency).Spares u.word l t := by
  have hall : ∀ l : List Char, l = numberParts ∨ l = whiteSpace ∨ l = ['$', '€', '£'] →
      l.all (fun c => !(thenNumber currency).re.heads.any (fun q => q c)) = true := by
    rintro l (rfl | rfl | rfl) <;> decide
  refine .of_heads (by decide) fun c hc => ?_
  rcases hl c hc with hc | hc | hc
  · simpa using of_numberPart (hall _ (.inl rfl)) hc
  · simpa using of_space (hall _ (.inr (.inl rfl))) hc
  · simpa using of_symbol (hall _ (.inr (.inr rfl))) hc

theorem spares_thenSymbol_of {y z : Text} (hy : ∀ c ∈ y, isNumberPart c = true ∨ isSpace c = true) :
    (thenNumber (.one isSymbol)).Spares u.word y z := by
  refine .of_heads (by decide) fun c hc => ?_
  show (isSymbol c || false) = false
  have hpart : numberParts.all (fun c => !isSymbol c) = true := by decide
  have hspace : whiteSpace.all (fun c => !isSymbol c) = true := by decide
  rcases hy c hc with hc | hc
  · simpa using of_numberPart hpart hc
  · simpa using of_space hspace hc

theorem numberThen_spares_plain {y z : Text} (hy : ∀ c ∈ y, isDigit c = false) :
    (numberThen k after).Spares u.word y z := by
  refine .of_heads (by simp [numberThen, Pattern.re, Re.skips, Re.all, number]) fun c hc => ?_
  show (isDigit c || false) = false
  rw [hy c hc, Bool.or_false]

theorem UnitNext.spares_thenCurrency (hu : Alphabet u) (h : UnitNext u x r)
    (hs : ∀ c ∈ s, isSpace c = true) : (thenNumber currency).Spares u.word (s ++ x) r := by
  refine Pattern.spares_append.mpr ⟨spares_thenCurrency_of (fun c hc => .inr (.inl (hs c hc))) _, ?_⟩
  refine .of_suffix fun y₁ y₂ hy hne w => List.eq_nil_iff_forall_not_mem.mpr fun c hc => ?_
  obtain ⟨d, hd, -⟩ := mem_run_thenNumber.mp hc
  rw [h.no_currency hu hy hne w] at hd
  cases hd

theorem UnitNext.spares_thenSymbol (h : UnitNext u x r) (hs : ∀ c ∈ s, isSpace c = true) :
    (thenNumber (.one isSymbol)).Spares u.word (s ++ x) r := by
  refine Pattern.spares_append.mpr
    ⟨spares_thenSymbol_of fun c hc => .inr (hs c hc), .of_heads (by decide) fun c hc => ?_⟩
  show (isSymbol c || false) = false
  rw [h.no_symbol c hc, Bool.or_false]

/-- A number can only start at the digit of `م2`. -/
theorem UnitNext.spares_numberThen (h : UnitNext u x r) (hs : ∀ c ∈ s, isSpace c = true)
    (htwo : (∃ y, x = y ++ ['2']) → ∀ w, (numberThen k after).re.run u.word ⟨w, '2' :: r⟩ = []) :
    (numberThen k after).Spares u.word (s ++ x) r := by
  refine Pattern.spares_append.mpr
    ⟨numberThen_spares_plain fun c hc => not_digit_of_space (hs c hc), ?_⟩
  have hlast : ∀ {y : Text}, (∀ c ∈ y, isDigit c = false) → x = y ++ ['2'] →
      (numberThen k after).Spares u.word x r := by
    intro y hy hx
    rw [hx]
    exact Pattern.spares_append.mpr ⟨numberThen_spares_plain hy, htwo ⟨y, hx⟩, trivial⟩
  have hletter : ∀ c ∈ ['م', ' '], isDigit c = false := by
    have hall : ['م', ' '].all (fun c => !isDigit c) = true := by decide
    simpa using hall
  rcases h.cases with hx | hx | hx
  · exact numberThen_spares_plain hx
  · exact hlast (y := ['م']) (fun c hc => hletter c (List.mem_append_left [' '] hc)) hx
  · exact hlast (y := ['م', ' ']) hletter hx

end

end Prompt
