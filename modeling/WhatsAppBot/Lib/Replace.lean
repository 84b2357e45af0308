import Mathlib.Data.List.Infix
import Mathlib.Data.List.Basic

/-!
# Literal replacement

`replace old new s` is what a single left-to-right pass makes of `s`; `replace_induction` is its
induction rule and `count` the number of places where a word occurs.

Deleting a word can bring together symbols that were apart. `Laced d e w` says that `w` is `e` with
copies of `d` between its symbols, and `infix_delete_iff` that `e` is in what deleting `d` leaves
exactly when such a `w` was there before: `e` and `d` are *tags*, words whose first and last symbols
do not occur further inside.
-/

set_option autoImplicit false

namespace Lib

variable {α : Type}

/-! ## Tags -/

def Bracketed (a b : α) (d : List α) : Prop := ∃ m, d = a :: (m ++ [b])

/-- `a` is its first symbol and `b` its last, and neither is anywhere between. -/
def IsTag (a b : α) (d : List α) : Prop := ∃ m, d = a :: (m ++ [b]) ∧ a ∉ m ∧ b ∉ m

theorem IsTag.bracketed {a b : α} {d : List α} (h : IsTag a b d) : Bracketed a b d :=
  h.imp fun _ hm => hm.1

namespace IsTag

variable {a b : α} {d e : List α}

theorem ne_nil (h : IsTag a b d) : d ≠ [] := by
  obtain ⟨m, rfl, -, -⟩ := h
  simp

/-- The opening symbol is the first one only. -/
theorem eq_nil_of_open (h : IsTag a b d) (hab : a ≠ b) {p s : List α} (hd : d = p ++ a :: s) :
    p = [] := by
  obtain ⟨m, rfl, ha, -⟩ := h
  cases p with
  | nil => rfl
  | cons c p =>
    have hm : a ∈ m ++ [b] := by
      rw [List.cons_append, List.cons.injEq] at hd
      rw [hd.2]
      simp
    simp [ha, hab] at hm

/-- The closing symbol is the last one only. -/
theorem eq_nil_of_close (h : IsTag a b d) (hab : a ≠ b) {p s : List α} (hd : d = p ++ b :: s) :
    s = [] := by
  obtain ⟨m, rfl, -, hb⟩ := h
  rcases List.eq_nil_or_concat s with rfl | ⟨s, c, rfl⟩
  · rfl
  · have hm : b ∈ a :: m := by
      have := congrArg List.dropLast hd
      rw [← List.cons_append, List.dropLast_concat, List.concat_eq_append, ← List.cons_append,
        ← List.append_assoc, List.dropLast_concat] at this
      rw [this]
      simp
    simp [hb, Ne.symm hab] at hm

/-- An occurrence that starts before an opening symbol ends before it. -/
theorem prefix_open (h : IsTag a b d) (hab : a ≠ b) {p s : List α} (hp : p ≠ [])
    (hd : d <+: p ++ a :: s) : d <+: p := by
  obtain ⟨t, ht⟩ := hd
  rcases List.append_eq_append_iff.1 ht with ⟨k, hk, -⟩ | ⟨k, hk, hs⟩
  · exact ⟨k, hk.symm⟩
  · cases k with
    | nil => exact ⟨[], by simpa using hk⟩
    | cons x k =>
      rw [List.cons_append, List.cons.injEq] at hs
      exact absurd (h.eq_nil_of_open hab (hs.1 ▸ hk)) hp

/-- An occurrence that reaches past a closing symbol starts after it. -/
theorem prefix_close (h : IsTag a b d) (hab : a ≠ b) {p s : List α}
    (hd : d <+: p ++ b :: s) : d <+: p ++ [b] := by
  obtain ⟨t, ht⟩ := hd
  rw [show p ++ b :: s = (p ++ [b]) ++ s by simp] at ht
  rcases List.append_eq_append_iff.1 ht with ⟨k, hk, -⟩ | ⟨k, hk, -⟩
  · exact ⟨k, hk.symm⟩
  · have := h.eq_nil_of_close hab (p := p) (s := k) (by simpa using hk)
    subst this
    exact ⟨[], by simpa using hk⟩

/-- A tag in a tag is the whole of it. -/
theorem eq_of_infix (h : IsTag a b d) (he : IsTag a b e) (hab : a ≠ b) (hd : d <:+: e) : d = e := by
  obtain ⟨p, s, hps⟩ := hd
  obtain ⟨m, rfl, -, -⟩ := h
  have hp : p = [] := he.eq_nil_of_open hab (p := p) (s := m ++ [b] ++ s) (by simpa using hps.symm)
  have hs : s = [] := he.eq_nil_of_close hab (p := p ++ a :: m) (s := s) (by simpa using hps.symm)
  simpa [hp, hs] using hps

theorem infix_close (h : IsTag a b d) (hab : a ≠ b) {p s : List α} (hd : d <:+: p ++ b :: s) :
    d <:+: p ++ [b] ∨ d <:+: s := by
  induction p with
  | nil =>
    rcases List.infix_cons_iff.1 hd with hd | hd
    · exact .inl (h.prefix_close hab (p := []) hd).isInfix
    · exact .inr hd
  | cons c p ih =>
    rcases List.infix_cons_iff.1 hd with hd | hd
    · exact .inl (h.prefix_close hab (p := c :: p) hd).isInfix
    · exact (ih hd).imp_left List.infix_cons

/-- An occurrence does not overlap a tag: it is before it, or the tag, or behind it. -/
theorem infix_append (h : IsTag a b d) (he : IsTag a b e) (hab : a ≠ b) {p s : List α}
    (hd : d <:+: p ++ (e ++ s)) : d <:+: p ∨ d = e ∨ d <:+: s := by
  obtain ⟨m, hm, -, -⟩ := id he
  induction p with
  | nil =>
    right
    have hd : d <:+: (a :: m) ++ b :: s := by simpa [hm] using hd
    rcases h.infix_close hab hd with hd | hd
    · exact .inl (h.eq_of_infix he hab (by simpa [hm] using hd))
    · exact .inr hd
  | cons c p ih =>
    rcases List.infix_cons_iff.1 hd with hd | hd
    · have hp : d <+: (c :: p) ++ a :: (m ++ [b] ++ s) := by simpa [hm] using hd
      exact .inl (h.prefix_open hab (List.cons_ne_nil c p) hp).isInfix
    · exact (ih hd).imp_left List.infix_cons

end IsTag

/-! ## The pass -/

variable [DecidableEq α]

/-- The pass, with `skip` symbols of the last occurrence still to go. -/
def replaceFrom (old new : List α) : Nat → List α → List α
  | _, [] => []
  | skip + 1, _ :: s => replaceFrom old new skip s
  | 0, c :: s =>
    if old <+: c :: s then new ++ replaceFrom old new (old.length - 1) s
    else c :: replaceFrom old new 0 s

/-- `s.replace(old, new)`, for a nonempty `old`. -/
def replace (old new s : List α) : List α := replaceFrom old new 0 s

variable {old new : List α}

@[simp] theorem replace_nil : replace old new [] = [] := rfl

theorem replaceFrom_eq (n : Nat) (s : List α) :
    replaceFrom old new n s = replace old new (s.drop n) := by
  induction s generalizing n with
  | nil => simp [replaceFrom]
  | cons c s ih =>
    cases n with
    | zero => rfl
    | succ n => simpa [replaceFrom] using ih n

theorem replace_cons {c : α} {s : List α} (h : ¬ old <+: c :: s) :
    replace old new (c :: s) = c :: replace old new s := by
  simp [replace, replaceFrom, h]

theorem replace_append (ho : old ≠ []) (s : List α) :
    replace old new (old ++ s) = new ++ replace old new s := by
  cases old with
  | nil => exact absurd rfl ho
  | cons c old =>
    have hp : c :: old <+: c :: (old ++ s) := List.prefix_append (c :: old) s
    have hs : replaceFrom (c :: old) new old.length (old ++ s) = replace (c :: old) new s := by
      rw [replaceFrom_eq, List.drop_left]
    rw [List.cons_append, replace, replaceFrom, if_pos hp, List.length_cons, Nat.add_sub_cancel, hs]

/-- Induction along the pass. -/
theorem replace_induction (ho : old ≠ []) {motive : List α → List α → Prop} (nil : motive [] [])
    (hit : ∀ s, motive s (replace old new s) → motive (old ++ s) (new ++ replace old new s))
    (miss : ∀ c s, ¬ old <+: c :: s → motive s (replace old new s) →
      motive (c :: s) (c :: replace old new s)) (s : List α) : motive s (replace old new s) := by
  induction h : s.length using Nat.strong_induction_on generalizing s with
  | _ n ih =>
    subst h
    cases s with
    | nil => exact nil
    | cons c s =>
      by_cases hp : old <+: c :: s
      · obtain ⟨t, ht⟩ := hp
        rw [← ht, replace_append ho]
        refine hit t (ih t.length ?_ t rfl)
        have := List.length_pos_iff.2 ho
        rw [← ht, List.length_append]
        omega
      · rw [replace_cons hp]
        exact miss c s hp (ih s.length (by simp) s rfl)

theorem replace_of_absent {s : List α} (h : ¬ old <:+: s) : replace old new s = s := by
  induction s with
  | nil => rfl
  | cons c s ih =>
    rw [replace_cons fun hp => h hp.isInfix, ih fun hi => h (List.infix_cons hi)]

/-- Only symbols of `new` are added. -/
theorem mem_replace (ho : old ≠ []) {s : List α} {c : α} (h : c ∈ replace old new s) :
    c ∈ s ∨ c ∈ new := by
  revert h
  refine replace_induction ho (motive := fun s r => c ∈ r → c ∈ s ∨ c ∈ new) (by simp) ?_ ?_ s
  · intro s ih h
    rw [List.mem_append] at h
    rcases h with h | h
    · exact .inr h
    · exact (ih h).imp_left (List.mem_append_right _)
  · intro d s _ ih h
    rw [List.mem_cons] at h
    rcases h with rfl | h
    · exact .inl (List.mem_cons_self ..)
    · exact (ih h).imp_left (List.mem_cons_of_mem _)

variable {a b : α}

omit [DecidableEq α] in
/-- A word that starts with `x` and goes on as it began is made of the symbols of `x`. -/
theorem mem_of_periodic {x k : List α} (hx : x ≠ []) (hk : k <+: x ++ k) : ∀ c ∈ x ++ k, c ∈ x := by
  induction h : k.length using Nat.strong_induction_on generalizing k with
  | _ n ih =>
    subst h
    intro c hc
    rcases List.mem_append.1 hc with hc | hc
    · exact hc
    · rcases List.prefix_or_prefix_of_prefix hk (List.prefix_append x k) with h | h
      · exact h.subset hc
      · obtain ⟨l, rfl⟩ := h
        rw [List.prefix_append_right_inj] at hk
        have hpos := List.length_pos_iff.2 hx
        exact ih l.length (by rw [List.length_append]; omega) hk rfl c hc

/-- Where a word occurs among symbols of a kind, replacing it by some leaves only these. -/
theorem replace_between {P : α → Prop} (ho : old ≠ []) {x y : List α} (hx : ∀ c ∈ x, P c)
    (hy : ∀ c ∈ y, P c) (hn : ∀ c ∈ new, P c) : ∀ c ∈ replace old new (x ++ (old ++ y)), P c := by
  have hrest : ∀ s : List α, (∀ c ∈ s, P c) → ∀ c ∈ replace old new s, P c := fun s hs c hc =>
    (mem_replace ho hc).elim (hs c) (hn c)
  induction h : x.length using Nat.strong_induction_on generalizing x with
  | _ n ih =>
    subst h
    cases x with
    | nil =>
      rw [List.nil_append, replace_append ho]
      intro c hc
      exact (List.mem_append.1 hc).elim (hn c) (hrest y hy c)
    | cons a x =>
      by_cases hp : old <+: a :: (x ++ (old ++ y))
      · obtain ⟨t, ht⟩ := hp
        rw [← List.cons_append] at ht
        rcases List.append_eq_append_iff.1 ht with ⟨k, hk, rfl⟩ | ⟨k, hk, hkt⟩
        · -- an occurrence before the word itself
          rw [hk, List.append_assoc, replace_append ho]
          have hlen := congrArg List.length hk
          have hpos := List.length_pos_iff.2 ho
          rw [List.length_append] at hlen
          have hkx : ∀ c ∈ k, P c := fun c hc => hx c (by rw [hk]; exact List.mem_append_right _ hc)
          intro c hc
          exact (List.mem_append.1 hc).elim (hn c) (ih k.length (by omega) hkx rfl c)
        · -- an occurrence that overlaps it: the word repeats what is before it
          have hper : k <+: (a :: x) ++ k :=
            List.prefix_of_prefix_length_le ⟨t, hkt.symm⟩
              (by rw [hk]; exact List.prefix_append ..) (by simp; omega)
          have hold : ∀ c ∈ old, P c := fun c hc =>
            hx c (mem_of_periodic (List.cons_ne_nil a x) hper c (hk ▸ hc))
          refine hrest _ fun c hc => ?_
          rcases List.mem_append.1 hc with hc | hc
          · exact hx c hc
          · exact (List.mem_append.1 hc).elim (hold c) (hy c)
      · have hr : replace old new (a :: (x ++ (old ++ y))) =
            a :: replace old new (x ++ (old ++ y)) := replace_cons hp
        rw [List.cons_append, hr]
        intro c hc
        rcases List.mem_cons.1 hc with rfl | hc
        · exact hx c (List.mem_cons_self ..)
        · exact ih x.length (by simp) (fun c hc => hx c (List.mem_cons_of_mem _ hc)) rfl c hc

/-- The pass is cut where a tag could begin. -/
theorem replace_append_open (h : IsTag a b old) (hab : a ≠ b) (p s : List α) :
    replace old new (p ++ a :: s) = replace old new p ++ replace old new (a :: s) := by
  refine replace_induction h.ne_nil
    (motive := fun p r => replace old new (p ++ a :: s) = r ++ replace old new (a :: s)) ?_ ?_ ?_ p
  · rfl
  · intro p ih
    rw [List.append_assoc, replace_append h.ne_nil, ih, List.append_assoc]
  · intro c p hp ih
    have hc : ¬ old <+: c :: (p ++ a :: s) := fun hd =>
      hp (h.prefix_open hab (p := c :: p) (List.cons_ne_nil c p) hd)
    rw [List.cons_append, replace_cons hc, ih, List.cons_append]

theorem replace_append_tag (h : IsTag a b old) (hab : a ≠ b) (p s : List α) :
    replace old new (p ++ (old ++ s)) = replace old new p ++ replace old new (old ++ s) := by
  obtain ⟨m, hm, -, -⟩ := id h
  have hs : old ++ s = a :: (m ++ [b] ++ s) := by simp [hm]
  rw [hs, replace_append_open h hab]

/-- The pass is cut where a tag could end. -/
theorem replace_append_close (h : IsTag a b old) (hab : a ≠ b) (p s : List α) :
    replace old new (p ++ b :: s) = replace old new (p ++ [b]) ++ replace old new s := by
  suffices main : ∀ x, (∀ p c, x = p ++ [c] → c = b) →
      replace old new (x ++ s) = replace old new x ++ replace old new s by
    simpa using main (p ++ [b]) (by simp)
  intro x
  refine replace_induction h.ne_nil (motive := fun x r => (∀ p c, x = p ++ [c] → c = b) →
    replace old new (x ++ s) = r ++ replace old new s) (fun _ => rfl) ?_ ?_ x
  · intro x ih hx
    rw [List.append_assoc, replace_append h.ne_nil, List.append_assoc,
      ih fun p c hp => hx (old ++ p) c (by rw [hp, List.append_assoc])]
  · intro c x hp ih hx
    have hc : ¬ old <+: c :: (x ++ s) := by
      intro hd
      rcases List.eq_nil_or_concat (c :: x) with hn | ⟨q, e, hq⟩
      · cases hn
      · obtain rfl := hx q e (by simpa using hq)
        rw [← List.cons_append, hq] at hd
        exact hp (by simpa [hq] using h.prefix_close hab (p := q) (s := s) (by simpa using hd))
    rw [List.cons_append, replace_cons hc, List.cons_append,
      ih fun p e hp => hx (c :: p) e (by rw [hp, List.cons_append])]

/-! ## What deleting a tag brings together -/

/-- `w` is `e` with copies of `d` between its symbols. -/
inductive Laced (d : List α) : List α → List α → Prop
  | last (c : α) : Laced d [c] [c]
  | cons (c : α) (n : Nat) {e w : List α} : Laced d e w →
      Laced d (c :: e) (c :: ((List.replicate n d).flatten ++ w))

section Laced

omit [DecidableEq α]

variable {d e w : List α}

theorem Laced.ne_nil (h : Laced d e w) : e ≠ [] := by cases h <;> simp

theorem Laced.head_eq {c : α} (h : Laced d (c :: e) w) : ∃ w', w = c :: w' := by
  cases h with
  | last => exact ⟨[], rfl⟩
  | cons _ n h => exact ⟨_, rfl⟩

theorem Laced.last_eq {c : α} (h : Laced d (e ++ [c]) w) : ∃ w', w = w' ++ [c] := by
  generalize hx : e ++ [c] = x at h
  induction h generalizing e with
  | last x =>
    cases e with
    | nil => exact ⟨[], by simpa using hx.symm⟩
    | cons y e => simp at hx
  | cons x n h ih =>
    cases e with
    | nil => exact absurd (by simpa using hx.symm : x = c ∧ _ = []).2 h.ne_nil
    | cons y e =>
      obtain ⟨w', rfl⟩ := ih (List.cons.inj hx).2
      exact ⟨x :: ((List.replicate n d).flatten ++ w'), by simp⟩

theorem Laced.bracketed (hab : a ≠ b) (he : Bracketed a b e) (h : Laced d e w) :
    Bracketed a b w := by
  obtain ⟨m, rfl⟩ := he
  obtain ⟨x, hx⟩ := h.head_eq
  obtain ⟨y, hy⟩ := Laced.last_eq (e := a :: m) h
  cases y with
  | nil => exact absurd (by simpa [hx] using hy : a = b ∧ x = []).1 hab
  | cons c y =>
    have hc : a :: x = c :: (y ++ [b]) := hx.symm.trans hy
    obtain rfl := (List.cons.inj hc).1
    exact ⟨y, hy⟩

/-- Another tag in a laced word is in the word, and is not cut by a copy. -/
theorem Laced.infix_run {t : List α} (ht : IsTag a b t) (hd : IsTag a b d) (hab : a ≠ b)
    (htd : t ≠ d) (h : Laced d e w) (x : List α) (hi : t <:+: x ++ w) :
    t <:+: x ++ e ∧ ((x ++ e).length ≤ t.length → w = e) := by
  induction h generalizing x with
  | last c => exact ⟨hi, fun _ => rfl⟩
  | @cons c n e w h ih =>
    have hpos := List.length_pos_iff.2 h.ne_nil
    cases n with
    | zero =>
      obtain ⟨hin, hle⟩ := ih (x ++ [c]) (by simpa using hi)
      exact ⟨by simpa using hin, fun hl => by simpa using hle (by simpa using hl)⟩
    | succ n =>
      have htail : t <:+: w → t <:+: e := fun hi => by simpa using (ih [] (by simpa using hi)).1
      have hcopies : ∀ n, t <:+: (List.replicate n d).flatten ++ w → t <:+: e := by
        intro n
        induction n with
        | zero => simpa using htail
        | succ n ihn =>
          intro hi
          rw [List.replicate_succ, List.flatten_cons, List.append_assoc] at hi
          rcases ht.infix_append hd hab (p := []) hi with hi | hi | hi
          · exact absurd (List.infix_nil.1 hi) ht.ne_nil
          · exact absurd hi htd
          · exact ihn hi
      rw [List.replicate_succ, List.flatten_cons] at hi
      rcases ht.infix_append hd hab (p := x ++ [c])
        (s := (List.replicate n d).flatten ++ w) (by simpa using hi) with hi | hi | hi
      · have hl := hi.length_le
        refine ⟨hi.trans ⟨[], e, by simp⟩, fun hle => ?_⟩
        simp only [List.length_append, List.length_cons, List.length_nil] at hl hle
        omega
      · exact absurd hi htd
      · have he := hcopies n hi
        have hl := he.length_le
        refine ⟨he.trans ⟨x ++ [c], [], by simp⟩, fun hle => ?_⟩
        simp only [List.length_append, List.length_cons] at hle
        omega

/-- A word that another tag is in only as the whole of it stays so when it is laced. -/
theorem Laced.eq_of_infix {t : List α} (ht : IsTag a b t) (hd : IsTag a b d) (hab : a ≠ b)
    (htd : t ≠ d) (h : Laced d e w) (he : t <:+: e → e = t) (hi : t <:+: w) : w = t := by
  obtain ⟨hin, hle⟩ := h.infix_run ht hd hab htd [] hi
  obtain rfl := he hin
  exact hle (Nat.le_refl _)

end Laced

/-- What the pass leaves at the front of `r` was there, laced, behind copies of the word. -/
theorem exists_laced_at {d : List α} (hd : d ≠ []) {e r : List α} (he : e ≠ [])
    (h : e <+: replace d [] r) :
    ∃ n w s, r = (List.replicate n d).flatten ++ (w ++ s) ∧ Laced d e w ∧ w ≠ d := by
  revert e
  refine replace_induction hd (motive := fun r r' => ∀ {e}, e ≠ [] → e <+: r' →
    ∃ n w s, r = (List.replicate n d).flatten ++ (w ++ s) ∧ Laced d e w ∧ w ≠ d) ?_ ?_ ?_ r
  · intro e he h
    exact absurd (List.prefix_nil.1 h) he
  · intro r ih e he h
    obtain ⟨n, w, s, rfl, hw⟩ := ih he (by simpa using h)
    exact ⟨n + 1, w, s, by simp [List.replicate_succ], hw⟩
  · intro c r hp ih e he h
    obtain ⟨x, e, rfl⟩ := List.exists_cons_of_ne_nil he
    obtain ⟨hx, ht⟩ := List.cons_prefix_cons.1 h
    subst hx
    cases e with
    | nil =>
      refine ⟨0, [x], r, by simp, .last x, ?_⟩
      rintro rfl
      exact hp ⟨r, by simp⟩
    | cons y e =>
      obtain ⟨n, w, s, rfl, hw, -⟩ := ih (List.cons_ne_nil y e) ht
      refine ⟨0, x :: ((List.replicate n d).flatten ++ w), s, by simp, .cons x n hw, ?_⟩
      intro hd
      refine hp ⟨s, ?_⟩
      nth_rewrite 1 [← hd]
      simp

theorem exists_laced_within {d : List α} (hd : d ≠ []) {e r : List α} (he : e ≠ [])
    (h : e <:+: replace d [] r) : ∃ w, Laced d e w ∧ w ≠ d ∧ w <:+: r := by
  revert h
  refine replace_induction hd (motive := fun r r' => e <:+: r' →
    ∃ w, Laced d e w ∧ w ≠ d ∧ w <:+: r) ?_ ?_ ?_ r
  · intro h
    exact absurd (List.infix_nil.1 h) he
  · intro r ih h
    obtain ⟨w, hw, hn, hi⟩ := ih (by simpa using h)
    exact ⟨w, hw, hn, hi.trans (List.suffix_append d r).isInfix⟩
  · intro c r hp ih h
    rcases List.infix_cons_iff.1 h with h | h
    · have hr : replace d [] (c :: r) = c :: replace d [] r := replace_cons hp
      rw [← hr] at h
      obtain ⟨n, w, s, hr, hw, hn⟩ := exists_laced_at hd he h
      exact ⟨w, hw, hn, _, _, by rw [hr, List.append_assoc]⟩
    · obtain ⟨w, hw, hn, hi⟩ := ih h
      exact ⟨w, hw, hn, List.infix_cons hi⟩

theorem replace_flatten {d : List α} (hd : d ≠ []) (n : Nat) (s : List α) :
    replace d [] ((List.replicate n d).flatten ++ s) = replace d [] s := by
  induction n with
  | zero => simp
  | succ n ih =>
    rw [List.replicate_succ, List.flatten_cons, List.append_assoc, replace_append hd, ih,
      List.nil_append]

/-- Deleting the tag takes the copies out and nothing else. -/
theorem Laced.replace_eq {d : List α} (hd : IsTag a b d) (hab : a ≠ b) {e w : List α}
    (hw : Laced d e w) (x : List α) (hx : ¬ d <:+: x ++ e ∨ x ++ e = d ∧ w ≠ e) :
    replace d [] (x ++ w) = x ++ e := by
  induction hw generalizing x with
  | last c =>
    rcases hx with hx | ⟨-, hx⟩
    · exact replace_of_absent hx
    · exact absurd rfl hx
  | @cons c n e w hw ih =>
    cases n with
    | zero =>
      have h := ih (x ++ [c]) (by simpa using hx)
      simpa using h
    | succ n =>
      have he := hw.ne_nil
      -- a run between two copies, and what follows it, are too short to be the tag itself
      have hrun : ¬ d <:+: x ++ [c] := by
        intro hi
        rcases hx with hx | ⟨hx, -⟩
        · exact hx (hi.trans ⟨[], e, by simp⟩)
        · have := hi.length_le
          have := List.length_pos_iff.2 he
          simp only [← hx, List.length_append, List.length_cons, List.length_nil] at *
          omega
      have hrest : ¬ d <:+: e := by
        intro hi
        rcases hx with hx | ⟨hx, -⟩
        · exact hx (hi.trans ⟨x ++ [c], [], by simp⟩)
        · have := hi.length_le
          simp only [← hx, List.length_append, List.length_cons] at *
          omega
      have hcut : replace d [] ((x ++ [c]) ++ (d ++ ((List.replicate n d).flatten ++ w))) = _ :=
        replace_append_tag hd hab _ _
      have hih := ih [] (.inl (by simpa using hrest))
      rw [replace_of_absent hrun, replace_append hd.ne_nil, replace_flatten hd.ne_nil] at hcut
      simp only [List.replicate_succ, List.flatten_cons, List.append_assoc, List.cons_append,
        List.nil_append] at hcut hih ⊢
      rw [hcut, hih]

/-- What deleting the tag brings together is what the tag was laced into. -/
theorem infix_delete_iff {d e : List α} (hd : IsTag a b d) (hab : a ≠ b) (he : Bracketed a b e)
    (hself : d <:+: e → e = d) (r : List α) :
    e <:+: replace d [] r ↔ ∃ w, Laced d e w ∧ w ≠ d ∧ w <:+: r := by
  obtain ⟨m, rfl⟩ := id he
  refine ⟨exists_laced_within hd.ne_nil (List.cons_ne_nil _ _), ?_⟩
  rintro ⟨w, hw, hne, p, s, rfl⟩
  have hmid : replace d [] w = a :: (m ++ [b]) := by
    refine hw.replace_eq hd hab [] ?_
    by_cases he : a :: (m ++ [b]) = d
    · exact .inr ⟨he, fun h => hne (h.trans he)⟩
    · exact .inl fun hi => he (hself hi)
  obtain ⟨x, hx⟩ := hw.bracketed hab he
  have hleft : replace d [] (p ++ w ++ s) = replace d [] p ++ replace d [] (w ++ s) := by
    rw [hx, List.append_assoc]
    exact replace_append_open hd hab p _
  have hright : replace d [] (w ++ s) = replace d [] w ++ replace d [] s := by
    have hb : w ++ s = (a :: x) ++ b :: s := by simp [hx]
    rw [hb, replace_append_close hd hab, hx, List.cons_append]
  rw [hleft, hright, hmid]
  exact ⟨_, _, List.append_assoc ..⟩

/-! ## Counting -/

/-- The places of a text where a word occurs. -/
def occurrences (d : List α) : List α → Nat
  | [] => 0
  | c :: s => (if d <+: c :: s then 1 else 0) + occurrences d s

variable {d : List α}

theorem occurrences_eq_zero (hd : d ≠ []) {s : List α} : occurrences d s = 0 ↔ ¬ d <:+: s := by
  induction s with
  | nil => simp [occurrences, hd]
  | cons c s ih =>
    rw [occurrences, List.infix_cons_iff]
    by_cases h : d <+: c :: s
    · simp [h]
    · simpa [h] using ih

/-- The first symbol of an occurrence is one of the text's. -/
theorem occurrences_append_right {c : α} (d' : List α) {p : List α} (h : c ∉ p) (s : List α) :
    occurrences (c :: d') (p ++ s) = occurrences (c :: d') s := by
  induction p with
  | nil => rfl
  | cons x p ih =>
    rw [List.mem_cons, not_or] at h
    have hx : ¬ c :: d' <+: x :: (p ++ s) := fun hp => h.1 (List.cons_prefix_cons.1 hp).1
    rw [List.cons_append, occurrences, if_neg hx, ih h.2, Nat.zero_add]

/-- No occurrence crosses a symbol that the word does not have. -/
theorem occurrences_append_cons (hd : d ≠ []) {c : α} (h : c ∉ d) (p s : List α) :
    occurrences d (p ++ c :: s) = occurrences d p + occurrences d s := by
  induction p with
  | nil =>
    have hc : ¬ d <+: c :: s := by
      obtain ⟨x, d, rfl⟩ := List.exists_cons_of_ne_nil hd
      exact fun hp => h (by simp [(List.cons_prefix_cons.1 hp).1])
    simp [occurrences, hc]
  | cons x p ih =>
    have hx : d <+: x :: (p ++ c :: s) ↔ d <+: x :: p := by
      rw [← List.cons_append]
      refine ⟨fun hp => ?_, fun hp => hp.trans (List.prefix_append ..)⟩
      rcases List.prefix_or_prefix_of_prefix hp (List.prefix_append (x :: p) (c :: s)) with hl | hl
      · exact hl
      · obtain ⟨t, rfl⟩ := hl
        rw [List.prefix_append_right_inj] at hp
        cases t with
        | nil => simp
        | cons y t =>
          obtain rfl := (List.cons_prefix_cons.1 hp).1
          exact absurd (by simp) h
    simp only [List.cons_append, occurrences, hx, ih]
    omega

end Lib
