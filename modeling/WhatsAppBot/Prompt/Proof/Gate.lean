import WhatsAppBot.Prompt.Proof.Plain

/-!
# The price gate

Whatever passes `mentionsAmount` still passes it behind the welcome prefix (`gate_prefix`), and the
deflection passes it whatever phone number it carries (`gate_deflection`). Every pattern needs a
digit; the prefix has none, it ends in a blank line that no price word reaches across, and it names
no currency. The phone number is taken out of both parts alike, unless it has a blank line itself.
-/

set_option autoImplicit false

namespace Prompt

open Lib

def Plain (s : Text) : Prop := ∀ c ∈ s, isDigit c = false

/-! ## What the patterns need -/

theorem number_requires : Re.Requires isDigit number := .left _ (.one fun _ h => h)

theorem all_requires {r : Re Char} {rs : List (Re Char)} (hr : r ∈ rs)
    (h : Re.Requires isDigit r) : Re.Requires isDigit (.all rs) := by
  induction rs with
  | nil => cases hr
  | cons t rs ih =>
    rcases List.mem_cons.1 hr with rfl | hr
    · exact .left _ h
    · exact .right _ (ih hr)

theorem money_requires : ∀ p ∈ money, Re.Requires isDigit p.re := by
  intro p hp
  simp only [money, redactMoney, List.cons_append, List.nil_append, List.mem_cons,
    List.not_mem_nil, or_false] at hp
  rcases hp with rfl | rfl | rfl | rfl | rfl | rfl | rfl | rfl | rfl
  · exact .right _ (.left _ (all_requires (by simp) number_requires))
  · exact .right _ (.left _ (all_requires (by simp) number_requires))
  · exact .right _ (.left _ (all_requires (by simp) number_requires))
  · exact .right _ (.left _ (all_requires (by simp) number_requires))
  · exact .right _ (.left _ number_requires)
  · exact .right _ (.left _ number_requires)
  · exact .right _ (.left _ (all_requires (by simp) number_requires))
  · exact .right _ (.left _ (all_requires (by simp) number_requires))
  · exact .right _ (.left _ (.left _ number_requires))

/-- No pattern matches a text without digits. -/
theorem search_of_plain (u : Unicode) {s : Text} (hs : Plain s) :
    ∀ p ∈ money, p.re.search u.word s = false := by
  intro p hp
  refine Re.searchFrom_eq_false (fun w y z hz => ?_) false
  rw [List.eq_nil_iff_forall_not_mem]
  intro c hc
  obtain ⟨a, ha, hd⟩ := (money_requires p hp).exists hc
  have := hs a (by rw [hz]; exact List.mem_append_right _ ha)
  simp [this] at hd

/-! ## Literals -/

theorem fold_newline : fold '\n' = '\n' := by decide

/-- Every match of `r` starts with `chunk`, up to case. -/
def Opens (u : Unicode) (r : Re Char) (chunk : Text) : Prop :=
  ∀ cur, r.run u.word cur ≠ [] → chunk.map fold <+: cur.rest.map fold

section Opens

variable {u : Unicode}

theorem opens_seq {r s : Re Char} {chunk : Text} (h : Opens u r chunk) :
    Opens u (.seq r s) chunk := by
  intro cur hne
  refine h cur fun hr => hne ?_
  simp [Re.run, hr]

theorem opens_all {cs : Text} {rs : List (Re Char)} :
    Opens u (.all (cs.map letter ++ rs)) cs := by
  induction cs with
  | nil => intro cur _; simp
  | cons c cs ih =>
    intro cur hne
    obtain ⟨last, hl⟩ := List.exists_mem_of_ne_nil _ hne
    obtain ⟨d, hd, hl⟩ := Re.mem_run_seq.1 hl
    obtain ⟨a, ha, hs, -⟩ := Re.mem_run_one hd
    have hrest := ih d (List.ne_nil_of_mem hl)
    rw [hs, List.map_cons, List.map_cons, List.cons_prefix_cons]
    exact ⟨(beq_iff_eq.1 ha).symm, hrest⟩

theorem opens_literal (s : String) : Opens u (literal s) s.toList := by
  have h : Opens u (.all (s.toList.map letter ++ [])) s.toList := opens_all
  rwa [List.append_nil] at h

theorem opens_letter (c : Char) (rs : List (Re Char)) : Opens u (.all (letter c :: rs)) [c] :=
  @opens_all u [c] rs

theorem opens_boundary {r : Re Char} {chunk : Text} {rs : List (Re Char)} (h : Opens u r chunk) :
    Opens u (.all (.boundary :: r :: rs)) chunk := by
  intro cur hne
  obtain ⟨last, hlast⟩ := List.exists_mem_of_ne_nil _ hne
  obtain ⟨d, hd, hrest⟩ := Re.mem_run_seq.1 hlast
  obtain ⟨e, he, -⟩ := Re.mem_run_seq.1 hrest
  obtain ⟨rfl, -⟩ := Re.mem_run_boundary.1 hd
  exact h d (List.ne_nil_of_mem he)

end Opens

/-- What the alternatives of `_CURRENCY` start with. -/
def currencyStarts : List String :=
  ["جنيهات", "جنيه", "جنتة", "ج", "ريال", "دولار", "يورو", "درهم", "EGP", "SAR", "AED", "KWD", "USD",
    "EUR", "GBP", "L", "LE", "pound", "dollar", "riyal", "euro"]

theorem currencyForms_open (u : Unicode) :
    ∀ r ∈ currencyForms, ∃ start ∈ currencyStarts, Opens u r start.toList := by
  have hj : "ج".toList = ['ج'] := by decide
  have hl : "L".toList = ['L'] := by decide
  have literals : ∀ s ∈ currencyStarts, ∃ start ∈ currencyStarts, Opens u (literal s) start.toList :=
    fun s hs => ⟨s, hs, opens_literal s⟩
  have plurals : ∀ s ∈ currencyStarts, ∃ start ∈ currencyStarts,
      Opens u (maybeLast s 's') start.toList :=
    fun s hs => ⟨s, hs, opens_seq (opens_literal s)⟩
  repeat' refine List.forall_mem_cons.2 ⟨?_, ?_⟩
  all_goals first
    | exact literals _ (by simp [currencyStarts])
    | exact plurals _ (by simp [currencyStarts])
    | exact ⟨"ج", by simp [currencyStarts], hj ▸ opens_letter _ _⟩
    | exact ⟨"L", by simp [currencyStarts], hl ▸ opens_letter _ _⟩
    | exact ⟨"LE", by simp [currencyStarts], opens_boundary (opens_literal _)⟩
    | exact fun _ h => absurd h List.not_mem_nil

theorem currency_opens (u : Unicode) {cur : Cursor Char} (h : currency.run u.word cur ≠ []) :
    ∃ start ∈ currencyStarts, start.toList.map fold <+: cur.rest.map fold := by
  obtain ⟨last, hlast⟩ := List.exists_mem_of_ne_nil _ h
  obtain ⟨r, hr, hlast⟩ := Re.mem_run_any hlast
  obtain ⟨start, hs, ho⟩ := currencyForms_open u r hr
  exact ⟨start, hs, ho cur (List.ne_nil_of_mem hlast)⟩

/-! ## In front of a reply -/

/-- Text that no pattern can start in when a line break follows it. -/
structure Quiet (x : Text) : Prop where
  plain : Plain x
  symbols : ∀ c ∈ x, isSymbol c = false
  folded : ∀ c ∈ x, fold c = c
  currency : ∀ start ∈ currencyStarts, ¬ start.toList.map fold <:+: x

theorem currencyStarts_inline :
    ∀ start ∈ currencyStarts, ' ' ∉ start.toList.map fold ∧ '\n' ∉ start.toList.map fold ∧
      start.toList.map fold ≠ [] := by
  decide +kernel

/-- A word without spaces is not made by putting spaces for something. -/
theorem infix_of_replace {old e : Text} (ho : old ≠ []) (he : ' ' ∉ e) (s : Text) :
    (e <+: replace old [' '] s → e <+: s) ∧ (e <:+: replace old [' '] s → e <:+: s) := by
  have hstart : ∀ (s : Text) {e : Text}, ' ' ∉ e → e <+: replace old [' '] s → e <+: s := by
    refine replace_induction ho (motive := fun s r => ∀ {e : Text}, ' ' ∉ e → e <+: r → e <+: s)
      (fun _ h => h) ?_ ?_
    · intro s _ e he h
      cases e with
      | nil => exact List.nil_prefix
      | cons c e =>
        obtain rfl := (List.cons_prefix_cons.1 h).1
        exact absurd (List.mem_cons_self ..) he
    · intro c s _ ih e he h
      cases e with
      | nil => exact List.nil_prefix
      | cons b e =>
        obtain ⟨hb, ht⟩ := List.cons_prefix_cons.1 h
        exact List.cons_prefix_cons.2 ⟨hb, ih (fun hm => he (List.mem_cons_of_mem _ hm)) ht⟩
  refine ⟨hstart s he, ?_⟩
  refine replace_induction ho (motive := fun s r => e <:+: r → e <:+: s) (fun h => h) ?_ ?_ s
  · intro s ih h
    rcases List.infix_cons_iff.1 h with h | h
    · cases e with
      | nil => exact List.nil_infix
      | cons c e =>
        obtain rfl := (List.cons_prefix_cons.1 h).1
        exact absurd (List.mem_cons_self ..) he
    · exact (ih h).trans (List.suffix_append old s).isInfix
  · intro c s hp ih h
    rcases List.infix_cons_iff.1 h with h | h
    · have hr : replace old [' '] (c :: s) = c :: replace old [' '] s := replace_cons hp
      exact (hstart (c :: s) he (hr ▸ h)).isInfix
    · exact List.infix_cons (ih h)

theorem Quiet.replace {old x : Text} (ho : old ≠ []) (h : Quiet x) :
    Quiet (replace old [' '] x) := by
  have hmem : ∀ c ∈ Lib.replace old [' '] x, c ∈ x ∨ c = ' ' := fun c hc =>
    (mem_replace ho hc).imp_right List.mem_singleton.1
  refine ⟨fun c hc => ?_, fun c hc => ?_, fun c hc => ?_, fun start hs hi => ?_⟩
  · rcases hmem c hc with hc | rfl
    · exact h.plain c hc
    · decide
  · rcases hmem c hc with hc | rfl
    · exact h.symbols c hc
    · decide
  · rcases hmem c hc with hc | rfl
    · exact h.folded c hc
    · decide
  · exact h.currency start hs ((infix_of_replace ho (currencyStarts_inline start hs).1 x).2 hi)

section Skip

variable (u : Unicode) {x : Text} (hx : Quiet x)
include hx

omit hx in
/-- A pattern whose group starts with a symbol that is not there, and does not reach across a line
break to one that is. -/
theorem no_match_led {p : Pattern Char} {q : Char → Bool} (hb : p.before.avoids '\n' = true)
    (hg : Re.Leads q p.group) (hq : ∀ c ∈ x, q c = false) (hn : q '\n' = false) (w : Bool)
    {y z : Text} (hz : x = y ++ z) (s : Text) :
    p.re.run u.word ⟨w, z ++ '\n' :: s⟩ = [] := by
  rw [List.eq_nil_iff_forall_not_mem]
  intro c hc
  obtain ⟨d, hd, hc⟩ := Re.mem_run_seq.1 hc
  obtain ⟨e, he, -⟩ := Re.mem_run_seq.1 hc
  obtain ⟨v, hv, hvn⟩ := Re.exists_consumed hd
  obtain ⟨a, t, ha, hqa⟩ := hg.exists he
  have hmem : a ∈ z ++ ['\n'] := by
    rw [ha] at hv
    rcases List.append_eq_append_iff.1 hv with ⟨k, hk, hks⟩ | ⟨k, hk, hks⟩
    · cases k with
      | nil => simp [← (List.cons.inj hks).1]
      | cons b k =>
        -- the part before the group would have crossed the line break
        obtain rfl := (List.cons.inj hks).1
        exact absurd (by rw [hk]; simp) (hvn _ hb)
    · cases k with
      | nil => simp [(List.cons.inj hks).1]
      | cons b k =>
        obtain rfl := (List.cons.inj hks).1
        simp [hk]
  rcases List.mem_append.1 hmem with hm | hm
  · have := hq a (by rw [hz]; exact List.mem_append_right _ hm)
    simp [this] at hqa
  · obtain rfl := List.mem_singleton.1 hm
    simp [hn] at hqa

/-- The one pattern that starts with a currency. -/
theorem no_match_currency {rs : List (Re Char)} (w : Bool) {y z : Text} (hz : x = y ++ z)
    (s : Text) :
    (Pattern.mk .empty (.all (currency :: rs)) .empty).re.run u.word ⟨w, z ++ '\n' :: s⟩ = [] := by
  rw [List.eq_nil_iff_forall_not_mem]
  intro c hc
  obtain ⟨d, hd, hc⟩ := Re.mem_run_seq.1 hc
  obtain ⟨e, he, -⟩ := Re.mem_run_seq.1 hc
  obtain ⟨f, hf, -⟩ := Re.mem_run_seq.1 he
  obtain rfl : d = ⟨w, z ++ '\n' :: s⟩ := List.mem_singleton.1 hd
  obtain ⟨start, hs, hpre⟩ := currency_opens u (List.ne_nil_of_mem hf)
  have hfold : z.map fold = z := by
    refine (List.map_congr_left fun a ha => ?_).trans (List.map_id z)
    exact hx.folded a (by rw [hz]; exact List.mem_append_right _ ha)
  have hz' : start.toList.map fold <+: z := by
    rw [List.map_append, List.map_cons, fold_newline, hfold] at hpre
    rcases List.prefix_or_prefix_of_prefix hpre (List.prefix_append z _) with h | h
    · exact h
    · obtain ⟨k, hk⟩ := h
      rw [← hk, List.prefix_append_right_inj] at hpre
      cases k with
      | nil => exact ⟨[], by simpa using hk.symm⟩
      | cons b k =>
        obtain rfl := (List.cons_prefix_cons.1 hpre).1
        exact absurd (by rw [← hk]; simp) (currencyStarts_inline start hs).2.1
  refine hx.currency start hs (hz'.isInfix.trans ?_)
  rw [hz]
  exact (List.suffix_append y z).isInfix

/-- No pattern matches anywhere in quiet text in front of a line break. -/
theorem no_match_quiet {p : Pattern Char} (hp : p ∈ money) (w : Bool) {y z : Text}
    (hz : x = y ++ z) (s : Text) : p.re.run u.word ⟨w, z ++ '\n' :: s⟩ = [] := by
  have hdigit : isDigit '\n' = false := by decide
  have hsymbol : isSymbol '\n' = false := by decide
  simp only [money, redactMoney, List.cons_append, List.nil_append, List.mem_cons,
    List.not_mem_nil, or_false] at hp
  rcases hp with rfl | rfl | rfl | rfl | rfl | rfl | rfl | rfl | rfl
  · exact no_match_led u rfl (.seq _ (.seq _ .one)) hx.plain hdigit w hz s
  · exact no_match_currency u hx w hz s
  · exact no_match_led u rfl (.seq _ .one) hx.symbols hsymbol w hz s
  · exact no_match_led u rfl (.seq _ (.seq _ .one)) hx.plain hdigit w hz s
  · exact no_match_led u (by decide) (.seq _ .one) hx.plain hdigit w hz s
  · exact no_match_led u rfl (.seq _ .one) hx.plain hdigit w hz s
  · exact no_match_led u rfl (.seq _ (.seq _ .one)) hx.plain hdigit w hz s
  · exact no_match_led u (by decide) (.seq _ (.seq _ .one)) hx.plain hdigit w hz s
  · exact no_match_led u rfl (.seq _ (.seq _ .one)) hx.plain hdigit w hz s

end Skip

/-! ## The phone number -/

/-- Text that stays on its side of a blank line. -/
structure Inline (old : Text) : Prop where
  ne_nil : old ≠ []
  first : old.head? ≠ some '\n'
  last : old.getLast? ≠ some '\n'
  blank : ¬ ['\n', '\n'] <:+: old

theorem Inline.replace_append {old : Text} (h : Inline old) (new p s : Text) :
    replace old new (p ++ '\n' :: '\n' :: s) =
      replace old new p ++ '\n' :: '\n' :: replace old new s := by
  have hfirst : ∀ t : Text, ¬ old <+: '\n' :: t := by
    intro t hp
    obtain ⟨c, old, rfl⟩ := List.exists_cons_of_ne_nil h.ne_nil
    obtain rfl := (List.cons_prefix_cons.1 hp).1
    exact h.first rfl
  refine replace_induction h.ne_nil (motive := fun p r =>
    replace old new (p ++ '\n' :: '\n' :: s) = r ++ '\n' :: '\n' :: replace old new s) ?_ ?_ ?_ p
  · rw [List.nil_append, replace_cons (hfirst _), replace_cons (hfirst _), List.nil_append]
  · intro p ih
    rw [List.append_assoc, Lib.replace_append h.ne_nil, ih, List.append_assoc]
  · intro c p hp ih
    have hc : ¬ old <+: c :: (p ++ '\n' :: '\n' :: s) := by
      rintro ⟨k, hk⟩
      rw [← List.cons_append] at hk
      rcases List.append_eq_append_iff.1 hk with ⟨l, hl, -⟩ | ⟨l, hl, hr⟩
      · exact hp ⟨l, hl.symm⟩
      · -- it would end in the blank line or contain it
        rcases l with _ | ⟨a, _ | ⟨b, l⟩⟩
        · exact hp ⟨[], by simpa using hl⟩
        · obtain rfl := (List.cons.inj hr).1
          exact h.last (by rw [hl]; exact List.getLast?_concat ..)
        · have htail := (List.cons.inj hr).2
          obtain rfl := (List.cons.inj hr).1
          obtain rfl := (List.cons.inj htail).1
          exact h.blank ⟨c :: p, l, by simp [hl]⟩
    rw [List.cons_append, replace_cons hc, ih, List.cons_append]

theorem inline_phone {salesPhone : Text} (hne : stripText salesPhone ≠ [])
    (hb : ¬ ['\n', '\n'] <:+: stripText salesPhone) : Inline (stripText salesPhone) :=
  ⟨hne, (stripText_ends (by decide)).1, (stripText_ends (by decide)).2, hb⟩

theorem inline_bare (u : Unicode) {phone : Text} (h : 7 ≤ (phone.filter u.decimal).length) :
    Inline (phone.filter u.decimal) := by
  have hn : '\n' ∉ phone.filter u.decimal := by simp [u.decimal_newline]
  refine ⟨List.ne_nil_of_length_pos (by omega), fun hh => hn ?_, fun hl => hn ?_, fun hi => hn ?_⟩
  · exact List.mem_of_head? hh
  · exact List.mem_of_getLast? hl
  · exact hi.subset (by simp)

/-- The phone number is taken out of the two sides of a blank line apart. -/
theorem stripPhone_append (u : Unicode) {p : Text} (hp : Quiet p) (s : Text) {salesPhone : Text}
    (hb : ¬ ['\n', '\n'] <:+: stripText salesPhone) :
    ∃ q, Quiet q ∧ stripPhone u (p ++ '\n' :: '\n' :: s) salesPhone =
      q ++ '\n' :: '\n' :: stripPhone u s salesPhone := by
  unfold stripPhone
  by_cases hne : stripText salesPhone = []
  · exact ⟨p, hp, by simp [hne]⟩
  · have hphone := inline_phone hne hb
    by_cases hlen : 7 ≤ ((stripText salesPhone).filter u.decimal).length
    · have hbare := inline_bare u hlen
      refine ⟨_, (hp.replace hphone.ne_nil).replace hbare.ne_nil, ?_⟩
      simp only [hne, if_false, hlen, if_true, hphone.replace_append, hbare.replace_append]
    · refine ⟨_, hp.replace hphone.ne_nil, ?_⟩
      simp only [hne, if_false, hlen, hphone.replace_append]

/-! ## Main results -/

theorem quiet_nil : Quiet [] :=
  ⟨by simp [Plain], by simp, by simp, fun start hs hi =>
    (currencyStarts_inline start hs).2.2 (List.infix_nil.1 hi)⟩

theorem quiet_toList {cs ds : List Char}
    (hc : (cs ++ ds).all (fun c => !isDigit c && !isSymbol c && fold c == c) = true)
    (hs : ∀ start ∈ currencyStarts, ¬ start.toList.map fold <:+: cs ++ ds) :
    Quiet ((String.ofList cs).toList ++ (String.ofList ds).toList) := by
  have hchar : ∀ c ∈ cs ++ ds, (isDigit c = false ∧ isSymbol c = false) ∧ fold c = c := by
    intro c h
    simpa using List.all_eq_true.1 hc c h
  rw [String.toList_ofList, String.toList_ofList]
  exact ⟨fun c h => (hchar c h).1.1, fun c h => (hchar c h).1.2, fun c h => (hchar c h).2, hs⟩

theorem quiet_welcomePrefix : Quiet welcomePrefix :=
  quiet_toList (by decide +kernel) (by decide +kernel)

theorem search_behind_quiet (u : Unicode) {q : Text} (hq : Quiet q) (s : Text) {p : Pattern Char}
    (hp : p ∈ money) :
    p.re.search u.word (q ++ '\n' :: '\n' :: s) = p.re.search u.word s := by
  have hskip : ∀ w y z, q ++ ['\n', '\n'] = y ++ z → z ≠ [] →
      p.re.run u.word ⟨w, z ++ s⟩ = [] := by
    intro w y z hz hne
    rcases List.append_eq_append_iff.1 hz with ⟨k, hk, hkz⟩ | ⟨k, hk, hkz⟩
    · have hempty := fun t => no_match_quiet u quiet_nil hp w (y := []) (z := []) rfl t
      rcases k with _ | ⟨a, _ | ⟨b, k⟩⟩
      · rw [← show ['\n', '\n'] = z from hkz]
        exact hempty ('\n' :: s)
      · obtain rfl : ['\n'] = z := (List.cons.inj hkz).2
        exact hempty s
      · exact absurd (List.append_eq_nil_iff.1 (List.cons.inj (List.cons.inj hkz).2).2.symm).2 hne
    · rw [hkz, List.append_assoc]
      exact no_match_quiet u hq hp w hk _
  have h := Re.searchFrom_append hskip false
  rw [List.append_assoc, List.foldl_append] at h
  simpa [Re.search, u.word_newline] using h

/-- A reply that passes the gate still passes it behind the welcome prefix. -/
theorem gate_prefix (u : Unicode) {reply salesPhone : Text}
    (hb : ¬ ['\n', '\n'] <:+: stripText salesPhone)
    (h : mentionsAmount u reply salesPhone = false) :
    mentionsAmount u (welcomePrefix ++ '\n' :: '\n' :: reply) salesPhone = false := by
  obtain ⟨q, hq, hs⟩ := stripPhone_append u quiet_welcomePrefix reply hb
  have hreply : ∀ p ∈ money, p.re.search u.word (stripPhone u reply salesPhone) = false := by
    by_cases hr : reply = []
    · have hempty : stripPhone u [] salesPhone = [] := by simp [stripPhone]
      rw [hr, hempty]
      exact search_of_plain u quiet_nil.plain
    · simpa [mentionsAmount, hr] using h
  simp only [mentionsAmount, Bool.and_eq_false_iff, List.any_eq_false, Bool.not_eq_true, hs]
  exact .inr fun p hp => (search_behind_quiet u hq _ hp).trans (hreply p hp)

/-! ## The deflection -/

theorem plain_toList {cs : List Char} (h : cs.all (fun c => !isDigit c) = true) :
    Plain (String.ofList cs).toList := by
  rw [String.toList_ofList]
  intro c hc
  simpa using List.all_eq_true.1 h c hc

theorem Plain.append {s t : Text} (hs : Plain s) (ht : Plain t) : Plain (s ++ t) := fun c hc =>
  (List.mem_append.1 hc).elim (hs c) (ht c)

set_option maxRecDepth 4000 in
theorem plain_deflectionOpening : Plain deflectionOpening := by
  exact .append (.append (.append (plain_toList rfl) (plain_toList rfl)) (plain_toList rfl))
    (plain_toList rfl)

theorem plain_space : Plain [' '] := List.forall_mem_singleton.2 (by decide)

set_option maxRecDepth 4000 in
theorem plain_withoutPhone : Plain withoutPhone := plain_toList rfl

/-- What is left of the deflection without the phone number has no digit. -/
theorem plain_deflection (u : Unicode) (salesPhone : Text) :
    Plain (stripPhone u (deflection salesPhone) salesPhone) := by
  have hbefore : Plain beforePhone := plain_toList rfl
  have hafter : Plain afterPhone := plain_toList rfl
  unfold stripPhone deflection
  by_cases hne : stripText salesPhone = []
  · simpa [hne] using plain_deflectionOpening.append plain_withoutPhone
  · have hphone : Plain (replace (stripText salesPhone) [' '] (deflectionOpening ++
        (beforePhone ++ stripText salesPhone ++ afterPhone))) := by
      have h : Plain (replace (stripText salesPhone) [' '] ((deflectionOpening ++ beforePhone) ++
          (stripText salesPhone ++ afterPhone))) :=
        replace_between hne (plain_deflectionOpening.append hbefore) hafter plain_space
      simpa only [List.append_assoc] using h
    simp only [hne, if_false]
    split
    · rename_i hlen
      have hbare := inline_bare u hlen
      exact fun c hc => (mem_replace hbare.ne_nil hc).elim (hphone c) (plain_space c)
    · exact hphone

theorem gate_deflection (u : Unicode) (salesPhone : Text) :
    mentionsAmount u (deflection salesPhone) salesPhone = false := by
  simp only [mentionsAmount, Bool.and_eq_false_iff, List.any_eq_false, Bool.not_eq_true]
  exact .inr (search_of_plain u (plain_deflection u salesPhone))

end Prompt
