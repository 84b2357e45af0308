import WhatsAppBot.Lib.Passes
import WhatsAppBot.Prompt.Measurement

/-!
# Traced texts

Without the marks the traced passes are those of `redact` (`map_tracedPasses`). A pass keeps a numeral
that it spares when what it hides in front of it ends there (`tracedPass_keeps`, `tracedPass_apart`).
What it leaves behind the numeral is the text up to a mark (`Starts`), what it leaves in front of it is
the text behind one (`Ends`).
-/

set_option autoImplicit false

namespace Prompt

open Lib

variable {u : Unicode} {p : Pattern Char} {b b' b'' n m a a' a'' y : Text} {Y : Traced}

@[simp] theorem map_traced (on : Bool) (t : Text) : (traced on t).map Prod.fst = t := by
  simp [traced, Function.comp_def]

theorem map_trace : (trace b n a).map Prod.fst = b ++ (n ++ a) := by
  simp [trace]

theorem map_traced_of (h : Y.map Prod.fst = b) : (Y ++ traced false a).map Prod.fst = b ++ a := by
  rw [List.map_append, h, map_traced]

theorem trace_append (b n m a : Text) :
    traced false b ++ ((traced true n ++ traced false m) ++ traced false a) = trace b n (m ++ a) := by
  simp [trace, traced]

theorem map_hideTraced (whole amount : Traced) :
    hide (whole.map Prod.fst) (amount.map Prod.fst) = (hideTraced whole amount).map Prod.fst := by
  unfold hide hideTraced
  induction whole with
  | nil => rfl
  | cons c s ih =>
    rw [List.map_cons, replaceFirst, replaceTraced, ← List.map_cons]
    split
    · rw [List.map_append, map_traced, List.map_drop]
    · rw [List.map_cons, ih]

/-- **Without the marks** the traced passes are the passes. -/
theorem map_tracedPasses (ps : List (Pattern Char)) (t : Traced) :
    (tracedPasses u ps t).map Prod.fst =
      ps.foldl (fun cleaned p => p.sub u.word hide cleaned) (t.map Prod.fst) := by
  induction ps generalizing t with
  | nil => rfl
  | cons p ps ih =>
    have hpass : (tracedPass u p t).map Prod.fst = p.sub u.word hide (t.map Prod.fst) :=
      (Pattern.sub_map u.word Prod.fst p map_hideTraced t).symm
    rw [List.foldl_cons, ← hpass, ← ih]
    rfl

theorem tracedPasses_cons (p : Pattern Char) (ps : List (Pattern Char)) (t : Traced) :
    tracedPasses u (p :: ps) t = tracedPasses u ps (tracedPass u p t) := rfl

/-- **What is kept stays in the text.** -/
theorem redact_of_kept (h : Kept u b n a) :
    ∃ b' a', redact u (b ++ (n ++ a)) = b' ++ (n ++ a') := by
  obtain ⟨b', a', hkept⟩ := h
  refine ⟨b', a', ?_⟩
  have hmap := map_tracedPasses (u := u) redactMoney (trace b n a)
  rw [hkept, map_trace, map_trace] at hmap
  exact hmap.symm

theorem masked_hideTraced (whole amount : Traced) :
    Masked (traced false redacted) whole (hideTraced whole amount) := by
  unfold hideTraced
  induction whole with
  | nil => exact .nil
  | cons c s ih =>
    rw [replaceTraced]
    split
    · have h : Masked (traced false redacted)
          ((c :: s).take (amount.map Prod.fst).length ++ (c :: s).drop (amount.map Prod.fst).length)
          (traced false redacted ++ (c :: s).drop (amount.map Prod.fst).length) := .hide _ (.refl _)
      rwa [List.take_append_drop] at h
    · exact .keep c ih

/-- Hidden parts of an unmarked text are unmarked. -/
theorem traced_of_masked {t : Text} {t' : Traced}
    (h : Masked (traced false redacted) (traced false t) t') :
    ∃ t'', t' = traced false t'' ∧ Masked redacted t t'' := by
  have hall : ∀ c ∈ t', c.2 = false := h.forall_mem (by simp [traced]) (by simp [traced])
  refine ⟨t'.map Prod.fst, ?_, ?_⟩
  · rw [traced, List.map_map]
    refine (List.map_id t').symm.trans (List.map_congr_left fun c hc => ?_)
    exact Prod.ext rfl (hall c hc)
  · simpa using h.map Prod.fst

theorem replaceTraced_start {old : Text} {s t : Traced} (hne : old ≠ []) (h : s.map Prod.fst = old) :
    replaceTraced old (s ++ t) = traced false redacted ++ t := by
  cases s with
  | nil => exact absurd h.symm hne
  | cons c s =>
    have hlen : old.length = (c :: s).length := by rw [← h, List.length_map]
    rw [List.cons_append, replaceTraced, if_pos, hlen, ← List.cons_append, List.drop_left]
    rw [← List.cons_append, List.map_append, h]
    exact List.prefix_append old _

/-- What the text matches, the traced text does. -/
theorem exists_find {w : Bool} {T : Traced} (h : p.re.run u.word ⟨w, T.map Prod.fst⟩ ≠ []) :
    ∃ whole group, (p.comap Prod.fst).find? (fun c : Char × Bool => u.word c.1) ⟨w, T⟩ =
      some (whole, group) := by
  have hrun := Re.run_map u.word Prod.fst p.re ⟨w, T⟩
  simp only [Cursor.map] at hrun
  have hsome : (p.comap Prod.fst).find? (fun c : Char × Bool => u.word c.1) ⟨w, T⟩ ≠ none := by
    rw [Ne, Pattern.find?_eq_none]
    intro hnone
    rw [show (p.comap Prod.fst).re = p.re.comap Prod.fst from rfl] at hnone
    exact h (by rw [hrun, hnone]; rfl)
  obtain ⟨⟨whole, group⟩, hfind⟩ := Option.ne_none_iff_exists'.1 hsome
  exact ⟨whole, group, hfind⟩

/-- A group that consumes is not empty. -/
theorem map_group_ne_nil {T group : Traced} {w : Bool} {close : Cursor (Char × Bool)}
    (hskip : p.group.skips = false)
    (h : close ∈ (p.comap Prod.fst).group.run (fun c : Char × Bool => u.word c.1) ⟨w, T⟩)
    (hgroup : group ++ close.rest = T) : group.map Prod.fst ≠ [] := by
  intro hnil
  have hlt := Re.length_lt_of_mem_run ((Re.skips_comap _ _).trans hskip) h
  rw [← hgroup, List.map_eq_nil_iff.1 hnil, List.nil_append] at hlt
  exact Nat.lt_irrefl _ hlt

/-! ## A pass over a traced text -/

/-- No match that starts in `x` hides anything of `t`. -/
def HidesNone (u : Unicode) (p : Pattern Char) (x t : Text) : Prop :=
  ∀ x₁ x₂, x = x₁ ++ x₂ → x₂ ≠ [] → ∀ w, ∀ start ∈ p.before.run u.word ⟨w, x₂ ++ t⟩,
    ∀ close ∈ p.group.run u.word start, ∀ last ∈ p.after.run u.word close,
      (∃ x', last.rest = x' ++ t) ∨ p.before = .empty ∧ ∃ x', close.rest = x' ++ t

/-- What a match that starts before the numeral does to it, seen from the untraced match. -/
theorem hidden_before (hskip : p.group.skips = false) {x₂ t : Text}
    (hwithin : ∀ w, ∀ start ∈ p.before.run u.word ⟨w, x₂ ++ t⟩, ∀ close ∈ p.group.run u.word start,
      ∀ last ∈ p.after.run u.word close,
        (∃ x', last.rest = x' ++ t) ∨ p.before = .empty ∧ ∃ x', close.rest = x' ++ t)
    {X T : Traced} (hX : X.map Prod.fst = x₂) (hT : T.map Prod.fst = t) {w : Bool}
    {whole group : Traced}
    (hfind : (p.comap Prod.fst).find? (fun c : Char × Bool => u.word c.1) ⟨w, X ++ T⟩ =
      some (whole, group)) :
    whole.length ≤ X.length ∨ ∃ x', hideTraced whole group = x' ++ whole.drop X.length ∧
      Masked (traced false redacted) X x' := by
  obtain ⟨start, hstart, close, hclose, last, hlast, hwhole, hgroup⟩ := Pattern.find?_eq_some hfind
  have hcur : (⟨w, X ++ T⟩ : Cursor (Char × Bool)).map Prod.fst = ⟨w, x₂ ++ t⟩ := by
    simp [Cursor.map, hX, hT]
  have hstart' := Re.mem_run_comap hstart
  rw [hcur] at hstart'
  have hlen : ∀ {s : List (Char × Bool)} {x' : Text}, s.map Prod.fst = x' ++ t →
      T.length ≤ s.length := fun {s x'} hs => by
    have h := congrArg List.length hs
    rw [List.length_map, List.length_append, ← hT, List.length_map] at h
    omega
  have hwhole' : whole ++ last.rest = X ++ T := hwhole
  rcases hwithin w _ hstart' _ (Re.mem_run_comap hclose) _ (Re.mem_run_comap hlast) with
    ⟨x', hlast'⟩ | ⟨hempty, x', hclose'⟩
  · have hle := hlen hlast'
    have htotal := congrArg List.length hwhole'
    rw [List.length_append, List.length_append] at htotal
    exact .inl (by omega)
  · by_cases hshort : whole.length ≤ X.length
    · exact .inl hshort
    · -- the group ends within `X` and the match behind it
      right
      rw [Pattern.comap, hempty] at hstart
      obtain rfl := List.mem_singleton.1 hstart
      have hgroup' : group ++ close.rest = X ++ T := hgroup
      obtain ⟨k, hX'⟩ : group <+: X := by
        refine List.prefix_of_prefix_length_le ⟨close.rest, hgroup'⟩ (List.prefix_append X T) ?_
        have hle := hlen hclose'
        have htotal := congrArg List.length hgroup'
        rw [List.length_append, List.length_append] at htotal
        omega
      obtain ⟨m, hm⟩ : X <+: whole :=
        List.prefix_of_prefix_length_le (List.prefix_append X T) ⟨last.rest, hwhole'⟩ (by omega)
      have hne : group.map Prod.fst ≠ [] := map_group_ne_nil hskip hclose hgroup'
      refine ⟨traced false redacted ++ k, ?_, ?_⟩
      · rw [← hm, List.drop_left, ← hX', List.append_assoc, hideTraced, replaceTraced_start hne rfl,
          List.append_assoc]
      · rw [← hX']
        exact .hide _ (.refl k)

/-- **A pass keeps the numeral** and the text `m` behind it when it spares them and no match that
starts before them hides anything of them. -/
theorem tracedPass_keeps (hskip : p.re.skips = false) (hgroup : p.group.skips = false)
    (hb : HidesNone u p b (n ++ (m ++ a))) (hspares : p.Spares u.word (n ++ m) a) :
    ∃ b' a', tracedPass u p (trace b n (m ++ a)) = trace b' n (m ++ a') ∧
      Masked redacted b b' ∧ Masked redacted a a' := by
  have hx : ∀ x₁ x₂, traced false b = x₁ ++ x₂ → x₂ ≠ [] → ∀ w whole group,
      (p.comap Prod.fst).find? (fun c : Char × Bool => u.word c.1)
        ⟨w, x₂ ++ ((traced true n ++ traced false m) ++ traced false a)⟩ = some (whole, group) →
      whole.length ≤ x₂.length ∨ ∃ x', hideTraced whole group = x' ++ whole.drop x₂.length ∧
        Masked (traced false redacted) x₂ x' := by
    intro x₁ x₂ hsplit hne w whole group hfind
    have hmap := congrArg (List.map Prod.fst) hsplit
    rw [map_traced, List.map_append] at hmap
    have hne' : x₂.map Prod.fst ≠ [] := fun h => hne (List.map_eq_nil_iff.1 h)
    exact hidden_before hgroup (hb _ _ hmap hne') rfl (by simp) hfind
  have hy : Pattern.Spares (fun c : Char × Bool => u.word c.1) (p.comap Prod.fst)
      (traced true n ++ traced false m) (traced false a) := by
    rw [Pattern.spares_comap]
    simpa using hspares
  have hskip' : (p.comap (Prod.fst : Char × Bool → Char)).re.skips = false :=
    (Re.skips_comap Prod.fst p.re).trans hskip
  obtain ⟨B, A, hsub, hB, hA⟩ := Pattern.sub_keeps hskip' masked_hideTraced hx hy
  obtain ⟨b', rfl, hb'⟩ := traced_of_masked hB
  obtain ⟨a', rfl, ha'⟩ := traced_of_masked hA
  refine ⟨b', a', ?_, hb', ha'⟩
  rw [← trace_append, ← trace_append, tracedPass, hsub]

theorem apart_comap {x t : Traced} (h : p.Apart u.word (x.map Prod.fst) (t.map Prod.fst)) :
    (p.comap Prod.fst).Apart (fun c : Char × Bool => u.word c.1) x t := by
  intro x₁ x₂ hsplit hne w c hc
  have hmem : c.map Prod.fst ∈ p.re.run u.word ⟨w, x₂.map Prod.fst ++ t.map Prod.fst⟩ := by
    have hrun := Re.mem_run_comap (r := p.re) hc
    simp only [Cursor.map, List.map_append] at hrun
    exact hrun
  obtain ⟨k, hk⟩ := h _ _ (by rw [hsplit, List.map_append])
    (fun hnil => hne (List.map_eq_nil_iff.1 hnil)) w _ hmem
  have hk : c.rest.map Prod.fst = k ++ t.map Prod.fst := hk
  have hlen := congrArg List.length hk
  rw [List.length_map, List.length_append, List.length_map] at hlen
  obtain ⟨y, hy, -⟩ := Re.exists_consumed hc
  obtain ⟨k', hk'⟩ : t <:+ c.rest := List.suffix_of_suffix_length_le (List.suffix_append x₂ t)
    ⟨y, (show x₂ ++ t = y ++ c.rest from hy).symm⟩ (by omega)
  exact ⟨k', hk'.symm⟩

/-- Where a match that hides all of itself starts at the place, the mark comes there. -/
def Marks (u : Unicode) (p : Pattern Char) (a a' : Text) : Prop :=
  p.before = .empty → p.group.skips = false → a ≠ [] → (∀ w, p.re.run u.word ⟨w, a⟩ ≠ []) →
    redacted <+: a'

/-- A substitution goes over a run that it spares. -/
theorem subFrom_keeps (hskip : p.re.skips = false) (hY : Y.map Prod.fst = y)
    (hspares : p.Spares u.word y a) (w : Bool) :
    ∃ a', (p.comap Prod.fst).subFrom (fun c : Char × Bool => u.word c.1) hideTraced 0 w
          (Y ++ traced false a) =
        Y ++ traced false a' ∧ Masked redacted a a' ∧ Marks u p a a' := by
  have hskip' : (p.comap (Prod.fst : Char × Bool → Char)).re.skips = false :=
    (Re.skips_comap Prod.fst p.re).trans hskip
  have hspares' : (p.comap Prod.fst).Spares (fun c : Char × Bool => u.word c.1) Y
      (traced false a) := by
    rwa [Pattern.spares_comap, hY, map_traced]
  obtain ⟨w', hsub⟩ := Pattern.subFrom_spares (f := hideTraced) hspares' w
  obtain ⟨a', ha, ha'⟩ :=
    traced_of_masked (Pattern.masked_subFrom hskip' masked_hideTraced 0 w' (traced false a))
  refine ⟨a', by rw [hsub, ha], ha', fun hempty hgroup hnil hhit => ?_⟩
  obtain ⟨c, s, rfl⟩ := List.exists_cons_of_ne_nil hnil
  obtain ⟨whole, group, hfind⟩ := exists_find (T := traced false (c :: s))
    (by rw [map_traced]; exact hhit w')
  obtain ⟨start, hstart, close, hclose, last, hlast, hwhole, hg⟩ := Pattern.find?_eq_some hfind
  rw [Pattern.comap, hempty] at hstart
  obtain rfl := List.mem_singleton.1 hstart
  have hgne : group.map Prod.fst ≠ [] := map_group_ne_nil hgroup hclose hg
  obtain ⟨x, hx⟩ : group <+: whole := by
    obtain ⟨y, hy, -⟩ := Re.exists_consumed hlast
    refine List.prefix_of_prefix_length_le ⟨close.rest, hg⟩ ⟨last.rest, hwhole⟩ ?_
    have h₁ := congrArg List.length hg
    have h₂ := congrArg List.length hwhole
    have h₃ := congrArg List.length hy
    simp only [List.length_append] at h₁ h₂ h₃
    omega
  have hstart : (traced false a') = traced false redacted ++
      (x ++ (p.comap Prod.fst).subFrom (fun c : Char × Bool => u.word c.1) hideTraced
        (whole.length - 1) (u.word c) (traced false s)) := by
    rw [← ha, show traced false (c :: s) = (c, false) :: traced false s from rfl, Pattern.subFrom]
    rw [show traced false (c :: s) = (c, false) :: traced false s from rfl] at hfind
    rw [hfind]
    show hideTraced whole group ++ _ = _
    rw [hideTraced, ← hx, replaceTraced_start hgne rfl, List.append_assoc]
  have hmap := congrArg (List.map Prod.fst) hstart
  rw [map_traced, List.map_append, map_traced] at hmap
  exact ⟨_, hmap.symm⟩

/-- **A pass keeps a run that it spares**, with the traces in it, when the matches in front of it end
there. -/
theorem tracedPass_apart (hskip : p.re.skips = false) (hY : Y.map Prod.fst = y)
    (hapart : p.Apart u.word b (y ++ a)) (hspares : p.Spares u.word y a) :
    ∃ b' a', tracedPass u p (traced false b ++ (Y ++ traced false a)) =
        traced false b' ++ (Y ++ traced false a') ∧
      Masked redacted b b' ∧ Masked redacted a a' ∧ Marks u p a a' := by
  have hskip' : (p.comap (Prod.fst : Char × Bool → Char)).re.skips = false :=
    (Re.skips_comap Prod.fst p.re).trans hskip
  have hapart' : (p.comap Prod.fst).Apart (fun c : Char × Bool => u.word c.1) (traced false b)
      (Y ++ traced false a) := apart_comap (by rwa [map_traced, map_traced_of hY])
  obtain ⟨B, w, hsub, hB⟩ := Pattern.subFrom_apart hskip' masked_hideTraced hapart'
    (Nat.zero_le _) false
  obtain ⟨b', rfl, hb'⟩ := traced_of_masked hB
  obtain ⟨a', ha, ha'⟩ := subFrom_keeps hskip hY hspares w
  exact ⟨b', a', by rw [tracedPass, Pattern.sub, hsub, ha], hb', ha'⟩

/-- A pass keeps a text that it spares. -/
theorem tracedPass_spares (hskip : p.re.skips = false) (hY : Y.map Prod.fst = y)
    (hspares : p.Spares u.word y a) :
    ∃ a', tracedPass u p (Y ++ traced false a) = Y ++ traced false a' ∧
      Masked redacted a a' ∧ Marks u p a a' :=
  subFrom_keeps hskip hY hspares false

/-- **A pass keeps the numeral** and what comes next, when it spares them. -/
theorem pass_keeps (hne : p.re.skips = false) (hapart : p.Apart u.word b (n ++ (m ++ a)))
    (hn : p.Spares u.word n (m ++ a)) (hm : p.Spares u.word m a) :
    ∃ b' a', tracedPass u p (trace b n (m ++ a)) = trace b' n (m ++ a') ∧
      Masked redacted b b' ∧ Masked redacted a a' ∧ Marks u p a a' := by
  obtain ⟨b', a', hpass, hrest⟩ := tracedPass_apart (y := n ++ m) (a := a) hne
    (show (traced true n ++ traced false m).map Prod.fst = n ++ m by simp)
    (by rwa [List.append_assoc]) (Pattern.spares_append.mpr ⟨hn, hm⟩)
  exact ⟨b', a', by rw [← trace_append, hpass, trace_append], hrest⟩

/-! ## What marks leave -/

/-- Up to a mark it is the text itself. -/
def Starts (a a' : Text) : Prop := ∀ y, '[' ∉ y → y <+: a' → y <+: a

/-- Behind the marks it is the text itself. -/
def Ends (b b' : Text) : Prop := ∀ y, ']' ∉ y → y <:+ b' → y <:+ b

theorem Starts.refl (a : Text) : Starts a a := fun _ _ => id

theorem Ends.refl (b : Text) : Ends b b := fun _ _ => id

theorem Starts.trans (h : Starts a a') (h' : Starts a' a'') : Starts a a'' :=
  fun y hy hpre => h y hy (h' y hy hpre)

theorem Starts.step (h : Starts a a') (ha : Masked redacted a' a'') : Starts a a'' :=
  fun y hy hpre => h y hy (ha.start (m := redacted.tail) (by decide) hpre hy)

theorem Ends.step (h : Ends b b') (hb : Masked redacted b' b'') : Ends b b'' :=
  fun y hy hsuffix => h y hy (hb.tail (m := redacted.dropLast) (by decide) hsuffix hy)

theorem Starts.head (h : Starts a a') :
    a'.head? = none ∨ a'.head? = some '[' ∨ a'.head? = a.head? := by
  cases a' with
  | nil => exact .inl rfl
  | cons c t =>
    by_cases hc : c = '['
    · exact .inr (.inl (by rw [hc]; rfl))
    · obtain ⟨z, rfl⟩ := h [c] (by simpa using Ne.symm hc) ⟨t, rfl⟩
      exact .inr (.inr rfl)

theorem Starts.append (q : Text) (h : Starts a a') : Starts (q ++ a) (q ++ a') := by
  intro y hy hpre
  rcases List.prefix_or_prefix_of_prefix hpre (List.prefix_append q a') with hpre' | ⟨y', rfl⟩
  · exact hpre'.trans (List.prefix_append q a)
  · rw [List.prefix_append_right_inj] at hpre ⊢
    exact h y' (fun hmem => hy (List.mem_append_right q hmem)) hpre

theorem Starts.mark (a : Text) (h : redacted <+: a') : Starts a a' := by
  intro y hy hpre
  obtain ⟨t, rfl⟩ := h
  cases y with
  | nil => exact List.nil_prefix
  | cons c y =>
    rw [show redacted = '[' :: redacted.tail by decide] at hpre
    obtain ⟨rfl, -⟩ := List.cons_prefix_cons.mp hpre
    simp at hy

/-- What matches without looking further, and consumes no mark, matches in the text. -/
theorem Starts.run_ne_nil {k : Re Char} (h : Starts a a') (hnear : k.near = true)
    (hplain : k.plain = true) (hbracket : k.avoids '[' = true) {w : Bool}
    (hrun : k.run u.word ⟨w, a'⟩ ≠ []) : k.run u.word ⟨w, a⟩ ≠ [] := by
  obtain ⟨c, hc⟩ := List.exists_mem_of_ne_nil _ hrun
  obtain ⟨z, hz, havoid⟩ := Re.exists_consumed hc
  have hz : a' = z ++ c.rest := hz
  obtain ⟨t, rfl⟩ := h z (havoid _ hbracket) ⟨c.rest, hz.symm⟩
  rw [hz] at hc
  obtain ⟨c', hc', -⟩ : ∃ c' ∈ k.run u.word ⟨w, z ++ t⟩, c'.rest = t :=
    Re.run_context hnear (.inl hplain) hc rfl
  exact List.ne_nil_of_mem hc'

end Prompt
