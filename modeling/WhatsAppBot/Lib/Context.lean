import WhatsAppBot.Lib.Comap

/-!
# What a match depends on

`Re.heads` are the classes a match can start with (`head_of_mem_run`). A pattern that looks no further
than the next symbol matches the same in any context with that symbol (`run_context`).

A pass of `sub` whose matches hide nothing on the other side of a place works on both sides by itself
(`subFrom_append`). When what it substitutes hides part of a match behind a mark the result is `Masked`:
up to the first mark and behind the last one it is the text itself.
-/

set_option autoImplicit false

namespace Lib

variable {α : Type}

namespace Re

variable {word : α → Bool}

/-! ## How a match starts -/

/-- A match may consume nothing. -/
def skips : Re α → Bool
  | one _ => false
  | seq r s => skips r && skips s
  | alt r s => skips r || skips s
  | _ => true

/-- The classes of the first symbol. -/
def heads : Re α → List (α → Bool)
  | one p | star p | upTo _ p => [p]
  | seq r s => heads r ++ if skips r then heads s else []
  | alt r s => heads r ++ heads s
  | _ => []

theorem head_of_class {p : α → Bool} {x s t : List α} (hs : s = x ++ t) (hx : ∀ a ∈ x, p a = true) :
    (∃ a s', s = a :: s' ∧ p a = true) ∨ t = s := by
  cases x with
  | nil => exact .inr hs.symm
  | cons a x => exact .inl ⟨a, _, hs, hx a List.mem_cons_self⟩

theorem head_of_mem_run {r : Re α} {cur c : Cursor α} (h : c ∈ run word r cur) :
    (∃ a s, cur.rest = a :: s ∧ r.heads.any (fun p => p a) = true) ∨
      r.skips = true ∧ c.rest = cur.rest := by
  induction r generalizing cur c with
  | empty =>
    obtain rfl := List.mem_singleton.1 h
    exact .inr ⟨rfl, rfl⟩
  | one p =>
    obtain ⟨a, ha, hs, -⟩ := mem_run_one h
    exact .inl ⟨a, _, hs, by simp [heads, ha]⟩
  | seq r s ihr ihs =>
    obtain ⟨d, hd, hc⟩ := mem_run_seq.1 h
    rcases ihr hd with ⟨a, t, hcur, ha⟩ | ⟨hskip, hrest⟩
    · exact .inl ⟨a, t, hcur, by rw [heads, List.any_append, ha, Bool.true_or]⟩
    · rcases ihs hc with ⟨a, t, hd, ha⟩ | ⟨hskip', hrest'⟩
      · refine .inl ⟨a, t, hrest ▸ hd, ?_⟩
        rw [heads, if_pos hskip, List.any_append, ha, Bool.or_true]
      · exact .inr ⟨by rw [skips, hskip, hskip', Bool.true_and], hrest'.trans hrest⟩
  | alt r s ihr ihs =>
    rcases List.mem_append.1 (show c ∈ run word r cur ++ run word s cur from h) with h | h
    · rcases ihr h with ⟨a, t, hcur, ha⟩ | ⟨hskip, hrest⟩
      · exact .inl ⟨a, t, hcur, by rw [heads, List.any_append, ha, Bool.true_or]⟩
      · exact .inr ⟨by rw [skips, hskip, Bool.true_or], hrest⟩
    · rcases ihs h with ⟨a, t, hcur, ha⟩ | ⟨hskip, hrest⟩
      · exact .inl ⟨a, t, hcur, by rw [heads, List.any_append, ha, Bool.or_true]⟩
      · exact .inr ⟨by rw [skips, hskip, Bool.or_true], hrest⟩
  | star p =>
    obtain ⟨x, hx, hp⟩ := mem_starFrom h
    rcases head_of_class hx hp with ⟨a, t, hs, ha⟩ | hrest
    · exact .inl ⟨a, t, hs, by simp [heads, ha]⟩
    · exact .inr ⟨rfl, hrest⟩
  | upTo n p =>
    obtain ⟨x, hx, hp⟩ := mem_upToFrom h
    rcases head_of_class hx hp with ⟨a, t, hs, ha⟩ | hrest
    · exact .inl ⟨a, t, hs, by simp [heads, ha]⟩
    · exact .inr ⟨rfl, hrest⟩
  | fails r =>
    obtain ⟨rfl, -⟩ := mem_run_fails.1 h
    exact .inr ⟨rfl, rfl⟩
  | boundary =>
    obtain ⟨rfl, -⟩ := mem_run_boundary.1 h
    exact .inr ⟨rfl, rfl⟩

/-- Nothing matches in front of a symbol of another kind. -/
theorem run_eq_nil_of_heads {r : Re α} (hskip : r.skips = false) {a : α}
    (ha : r.heads.any (fun p => p a) = false) (w : Bool) (s : List α) : run word r ⟨w, a :: s⟩ = [] := by
  rw [List.eq_nil_iff_forall_not_mem]
  intro c hc
  rcases head_of_mem_run hc with ⟨b, t, hs, hb⟩ | ⟨hyes, -⟩
  · obtain ⟨rfl, -⟩ := List.cons.inj hs
    rw [ha] at hb
    cases hb
  · rw [hskip] at hyes
    cases hyes

theorem length_lt_of_mem_run {r : Re α} (hskip : r.skips = false) {cur c : Cursor α}
    (h : c ∈ run word r cur) : c.rest.length < cur.rest.length := by
  have hle : ∀ {s : Re α} {d e : Cursor α}, e ∈ run word s d → e.rest.length ≤ d.rest.length := by
    intro s d e he
    obtain ⟨x, hx, -⟩ := exists_consumed he
    rw [hx, List.length_append]
    omega
  induction r generalizing cur c with
  | one p =>
    obtain ⟨a, -, hs, -⟩ := mem_run_one h
    rw [hs, List.length_cons]
    omega
  | seq r s ihr ihs =>
    obtain ⟨d, hd, hc⟩ := mem_run_seq.1 h
    have hd' := hle hd
    have hc' := hle hc
    rcases Bool.and_eq_false_iff.1 hskip with hr | hs
    · have hlt := ihr hr hd
      omega
    · have hlt := ihs hs hc
      omega
  | alt r s ihr ihs =>
    obtain ⟨hr, hs⟩ := Bool.or_eq_false_iff.1 hskip
    rcases List.mem_append.1 (show c ∈ run word r cur ++ run word s cur from h) with h | h
    · exact ihr hr h
    · exact ihs hs h
  | _ => cases hskip

/-! ## The context of a match -/

/-- It looks at nothing but what it consumes. -/
def plain : Re α → Bool
  | seq r s | alt r s => plain r && plain s
  | fails _ | boundary => false
  | _ => true

/-- It looks at what it consumes and the next symbol. -/
def near : Re α → Bool
  | seq r s | alt r s => near r && near s
  | fails (one _) => true
  | fails _ | boundary => false
  | _ => true

/-- It does not look at the symbol behind. -/
def blind : Re α → Bool
  | one _ => true
  | seq (star _) s => blind s
  | seq r _ => blind r
  | alt r s => blind r && blind s
  | _ => false

theorem run_blind {r : Re α} (h : r.blind = true) (w w' : Bool) (s : List α) :
    run word r ⟨w, s⟩ = run word r ⟨w', s⟩ := by
  induction r using blind.induct with
  | case1 p => rfl
  | case2 p r ih =>
    have hr := ih h
    cases s with
    | nil => simpa [run, starFrom] using hr
    | cons a s =>
      simp only [run, starFrom]
      split
      · rw [List.flatMap_append, List.flatMap_append, List.flatMap_singleton, List.flatMap_singleton, hr]
      · rw [List.flatMap_singleton, List.flatMap_singleton, hr]
  | case3 r s hstar ih =>
    rw [blind] at h
    · rw [run, run, ih h]
    · exact hstar
  | case4 r s ihr ihs =>
    rw [blind, Bool.and_eq_true] at h
    rw [run, run, ihr h.1, ihs h.2]
  | case5 r h1 h2 h3 h4 => simp [blind] at h

theorem length_of_mem_upToFrom {p : α → Bool} {n : Nat} {w : Bool} {s : List α} {c : Cursor α}
    (h : c ∈ upToFrom word p n w s) : s.length ≤ n + c.rest.length := by
  have hstay : ∀ {m : Nat} {v : Bool} {t : List α}, t.length ≤ m + (⟨v, t⟩ : Cursor α).rest.length :=
    fun {m _ t} => Nat.le_add_left t.length m
  induction n generalizing w s with
  | zero =>
    obtain rfl := List.mem_singleton.1 h
    exact hstay
  | succ n ih =>
    cases s with
    | nil => exact Nat.zero_le _
    | cons a s =>
      simp only [upToFrom] at h
      split at h
      · rcases List.mem_append.1 h with h | h
        · have hle := ih h
          rw [List.length_cons]
          omega
        · obtain rfl := List.mem_singleton.1 h
          exact hstay
      · obtain rfl := List.mem_singleton.1 h
        exact hstay

/-- **In another context** a pattern matches the same when the next symbol is the same, and one that
looks at nothing else in any context. -/
theorem run_context {r : Re α} (hnear : r.near = true) {w w' : Bool} {x s s' : List α}
    (hs : r.plain = true ∨ s.head? = s'.head?) {c : Cursor α} (h : c ∈ run word r ⟨w, x ++ s⟩)
    (hrest : c.rest = s) : ∃ c' ∈ run word r ⟨w', x ++ s'⟩, c'.rest = s' := by
  induction r generalizing w w' x s s' c with
  | empty =>
    obtain rfl := List.mem_singleton.1 h
    obtain rfl : x = [] := List.self_eq_append_left.1 (show s = x ++ s from hrest.symm)
    exact ⟨⟨w', s'⟩, List.mem_singleton.2 rfl, rfl⟩
  | one p =>
    obtain ⟨a, ha, hcur, -⟩ := mem_run_one h
    rw [hrest] at hcur
    obtain rfl : x = [a] := List.append_cancel_right (show x ++ s = [a] ++ s from hcur)
    exact ⟨⟨word a, s'⟩, by simp [run, ha], rfl⟩
  | seq r₁ r₂ ih₁ ih₂ =>
    obtain ⟨d, hd, hc⟩ := mem_run_seq.1 h
    obtain ⟨x₁, hx₁, -⟩ := exists_consumed hd
    obtain ⟨x₂, hx₂, -⟩ := exists_consumed hc
    rw [hrest] at hx₂
    have hx₁ : x ++ s = x₁ ++ (x₂ ++ s) := by rw [← hx₂]; exact hx₁
    obtain rfl : x = x₁ ++ x₂ := List.append_cancel_right (by rw [hx₁, List.append_assoc])
    simp only [near, Bool.and_eq_true] at hnear
    have hhead : r₁.plain = true ∨ (x₂ ++ s).head? = (x₂ ++ s').head? := by
      cases x₂ with
      | nil => exact hs.imp_left fun hp => (Bool.and_eq_true_iff.1 hp).1
      | cons a x₂ => exact .inr rfl
    have hhead₂ : r₂.plain = true ∨ s.head? = s'.head? :=
      hs.imp_left fun hp => (Bool.and_eq_true_iff.1 hp).2
    rw [List.append_assoc] at hd
    obtain ⟨⟨w₁, t₁⟩, hd', ht₁⟩ : ∃ d' ∈ run word r₁ ⟨w', x₁ ++ (x₂ ++ s')⟩, d'.rest = x₂ ++ s' :=
      ih₁ hnear.1 hhead hd hx₂
    obtain rfl : t₁ = x₂ ++ s' := ht₁
    obtain ⟨w₂, t₂⟩ := d
    obtain rfl : t₂ = x₂ ++ s := hx₂
    obtain ⟨c', hc', hend⟩ : ∃ c' ∈ run word r₂ ⟨w₁, x₂ ++ s'⟩, c'.rest = s' :=
      ih₂ hnear.2 hhead₂ hc hrest
    refine ⟨c', mem_run_seq.2 ⟨_, ?_, hc'⟩, hend⟩
    rw [List.append_assoc]
    exact hd'
  | alt r₁ r₂ ih₁ ih₂ =>
    simp only [near, Bool.and_eq_true] at hnear
    rcases List.mem_append.1 (show c ∈ run word r₁ _ ++ run word r₂ _ from h) with h | h
    · obtain ⟨c', hc', hend⟩ : ∃ c' ∈ run word r₁ ⟨w', x ++ s'⟩, c'.rest = s' :=
        ih₁ hnear.1 (hs.imp_left fun hp => (Bool.and_eq_true_iff.1 hp).1) h hrest
      exact ⟨c', List.mem_append_left _ hc', hend⟩
    · obtain ⟨c', hc', hend⟩ : ∃ c' ∈ run word r₂ ⟨w', x ++ s'⟩, c'.rest = s' :=
        ih₂ hnear.2 (hs.imp_left fun hp => (Bool.and_eq_true_iff.1 hp).2) h hrest
      exact ⟨c', List.mem_append_right _ hc', hend⟩
  | star p =>
    obtain ⟨y, hy, hp⟩ := mem_starFrom h
    rw [hrest] at hy
    obtain rfl : x = y := List.append_cancel_right hy
    obtain ⟨w₁, hw⟩ : ∃ w₁, ⟨w₁, s'⟩ ∈ run word (star p) ⟨w', x ++ s'⟩ := Takes.star hp w' s'
    exact ⟨_, hw, rfl⟩
  | upTo n p =>
    obtain ⟨y, hy, hp⟩ := mem_upToFrom h
    have hlen := length_of_mem_upToFrom h
    rw [hrest] at hy hlen
    obtain rfl : x = y := List.append_cancel_right hy
    rw [List.length_append] at hlen
    obtain ⟨w₁, hw⟩ : ∃ w₁, ⟨w₁, s'⟩ ∈ run word (upTo n p) ⟨w', x ++ s'⟩ :=
      Takes.upTo (by omega) hp w' s'
    exact ⟨_, hw, rfl⟩
  | fails r =>
    cases r with
    | one p =>
      obtain ⟨rfl, hnone⟩ := mem_run_fails.1 h
      obtain rfl : x = [] := List.self_eq_append_left.1 (show s = x ++ s from hrest.symm)
      refine ⟨⟨w', s'⟩, mem_run_fails.2 ⟨rfl, ?_⟩, rfl⟩
      rcases hs with hs | hs
      · cases hs
      · rw [List.eq_nil_iff_forall_not_mem] at hnone ⊢
        intro c' hc'
        obtain ⟨a, ha, hcur, -⟩ := mem_run_one hc'
        obtain rfl : s' = a :: c'.rest := hcur
        cases s with
        | nil => cases hs
        | cons b s =>
          obtain rfl := Option.some.inj hs
          exact hnone ⟨word b, s⟩ (by simp [run, ha])
    | _ => cases hnear
  | boundary => cases hnear

/-- The cursor knows the last symbol that was consumed. -/
theorem afterWord_eq {r : Re α} {cur c : Cursor α} (h : c ∈ run word r cur) {x : List α}
    (hx : cur.rest = x ++ c.rest) : c.afterWord = x.foldl (fun _ a => word a) cur.afterWord := by
  have hstay : ∀ {cur c : Cursor α} {x : List α}, c = cur → cur.rest = x ++ c.rest →
      c.afterWord = x.foldl (fun _ a => word a) cur.afterWord := by
    intro cur c x hc hx
    obtain rfl := hc
    obtain rfl := List.self_eq_append_left.1 hx
    rfl
  induction r generalizing cur c x with
  | empty => exact hstay (List.mem_singleton.1 h) hx
  | one p =>
    obtain ⟨a, -, hrest, hafter⟩ := mem_run_one h
    obtain rfl : x = [a] := List.append_cancel_right (hx.symm.trans hrest)
    exact hafter
  | seq r s ihr ihs =>
    obtain ⟨d, hd, hc⟩ := mem_run_seq.1 h
    obtain ⟨y, hy, -⟩ := exists_consumed hd
    obtain ⟨z, hz, -⟩ := exists_consumed hc
    obtain rfl : x = y ++ z := List.append_cancel_right (by rw [← hx, hy, hz, List.append_assoc])
    rw [ihs hc hz, ihr hd hy, List.foldl_append]
  | alt r s ihr ihs =>
    rcases List.mem_append.1 (show c ∈ run word r cur ++ run word s cur from h) with h | h
    · exact ihr h hx
    · exact ihs h hx
  | star p =>
    obtain ⟨w, s⟩ := cur
    induction s generalizing w x with
    | nil => exact hstay (List.mem_singleton.1 h) hx
    | cons a s ih =>
      simp only [run, starFrom] at h ih
      split at h
      · rcases List.mem_append.1 h with h | h
        · obtain ⟨y, hy, -⟩ := mem_starFrom h
          obtain rfl : x = a :: y := List.append_cancel_right (hx.symm.trans (congrArg (a :: ·) hy))
          exact ih (word a) h hy
        · exact hstay (List.mem_singleton.1 h) hx
      · exact hstay (List.mem_singleton.1 h) hx
  | upTo n p =>
    obtain ⟨w, s⟩ := cur
    induction s generalizing n w x with
    | nil => cases n <;> exact hstay (List.mem_singleton.1 h) hx
    | cons a s ih =>
      cases n with
      | zero => exact hstay (List.mem_singleton.1 h) hx
      | succ n =>
        simp only [run, upToFrom] at h ih
        split at h
        · rcases List.mem_append.1 h with h | h
          · obtain ⟨y, hy, -⟩ := mem_upToFrom h
            obtain rfl : x = a :: y := List.append_cancel_right (hx.symm.trans (congrArg (a :: ·) hy))
            exact ih n (word a) h hy
          · exact hstay (List.mem_singleton.1 h) hx
        · exact hstay (List.mem_singleton.1 h) hx
  | fails r => exact hstay (mem_run_fails.1 h).1 hx
  | boundary => exact hstay (mem_run_boundary.1 h).1 hx

theorem skips_comap {β : Type} (f : β → α) (r : Re α) : (r.comap f).skips = r.skips := by
  induction r with
  | seq r s ihr ihs => simp [comap, skips, ihr, ihs]
  | alt r s ihr ihs => simp [comap, skips, ihr, ihs]
  | _ => rfl

end Re

/-! ## Masked texts -/

/-- The second list is the first one with runs of it hidden behind the mark. -/
inductive Masked (mark : List α) : List α → List α → Prop
  | nil : Masked mark [] []
  | keep (a : α) {s t : List α} : Masked mark s t → Masked mark (a :: s) (a :: t)
  | hide (x : List α) {s t : List α} : Masked mark s t → Masked mark (x ++ s) (mark ++ t)

namespace Masked

variable {mark s t x y : List α}

theorem refl (s : List α) : Masked mark s s := by
  induction s with
  | nil => exact .nil
  | cons a s ih => exact .keep a ih

theorem append (h : Masked mark s t) (hxy : Masked mark x y) : Masked mark (s ++ x) (t ++ y) := by
  induction h with
  | nil => exact hxy
  | keep a _ ih => exact .keep a ih
  | hide z _ ih =>
    rw [List.append_assoc, List.append_assoc]
    exact .hide z ih

theorem map {β : Type} (f : α → β) (h : Masked mark s t) :
    Masked (mark.map f) (s.map f) (t.map f) := by
  induction h with
  | nil => exact .nil
  | keep a _ ih => exact .keep (f a) ih
  | hide z _ ih =>
    rw [List.map_append, List.map_append]
    exact .hide _ ih

theorem forall_mem {P : α → Prop} (hmark : ∀ a ∈ mark, P a) (h : Masked mark s t)
    (hs : ∀ a ∈ s, P a) : ∀ a ∈ t, P a := by
  induction h with
  | nil => exact hs
  | keep a _ ih =>
    obtain ⟨ha, hs⟩ := List.forall_mem_cons.1 hs
    exact List.forall_mem_cons.2 ⟨ha, ih hs⟩
  | hide z _ ih =>
    intro a ha
    rcases List.mem_append.1 ha with ha | ha
    · exact hmark a ha
    · exact ih (fun b hb => hs b (List.mem_append_right z hb)) a ha

theorem countP_le {p : α → Bool} (hmark : ∀ a ∈ mark, p a = false) (h : Masked mark s t) :
    t.countP p ≤ s.countP p := by
  induction h with
  | nil => exact Nat.le_refl _
  | keep a _ ih =>
    rw [List.countP_cons, List.countP_cons]
    omega
  | hide z _ ih =>
    have hnone : mark.countP p = 0 := List.countP_eq_zero.2 fun a ha => by rw [hmark a ha]; decide
    rw [List.countP_append, List.countP_append, hnone]
    omega

theorem eq_of_not_mem {b : α} (hb : b ∈ mark) (h : Masked mark s t) (ht : b ∉ t) : s = t := by
  induction h with
  | nil => rfl
  | keep a _ ih => rw [ih fun hmem => ht (List.mem_cons_of_mem a hmem)]
  | hide z _ ih => exact absurd (List.mem_append_left _ hb) ht

/-- Up to the first mark it is the text itself. -/
theorem start {b : α} {m : List α} (hmark : mark = b :: m) (h : Masked mark s t) (hy : y <+: t)
    (hb : b ∉ y) : y <+: s := by
  induction h generalizing y with
  | nil => exact hy
  | keep a _ ih =>
    cases y with
    | nil => exact List.nil_prefix
    | cons c y =>
      obtain ⟨rfl, hy'⟩ := List.cons_prefix_cons.1 hy
      exact List.cons_prefix_cons.2 ⟨rfl, ih hy' fun hmem => hb (List.mem_cons_of_mem _ hmem)⟩
  | hide z _ ih =>
    cases y with
    | nil => exact List.nil_prefix
    | cons c y =>
      rw [hmark] at hy
      obtain ⟨rfl, -⟩ := List.cons_prefix_cons.1 hy
      exact absurd List.mem_cons_self hb

/-- Behind the last mark it is the text itself. -/
theorem tail {b : α} {m : List α} (hmark : mark = m ++ [b]) (h : Masked mark s t) (hy : y <:+ t)
    (hb : b ∉ y) : y <:+ s := by
  have hmem : b ∈ mark := by simp [hmark]
  induction h with
  | nil => exact hy
  | keep a h ih =>
    rcases List.suffix_cons_iff.1 hy with rfl | hy
    · obtain rfl := h.eq_of_not_mem hmem fun hmem => hb (List.mem_cons_of_mem a hmem)
      exact List.suffix_rfl
    · exact (ih hy).trans (List.suffix_cons a _)
  | hide z _ ih =>
    refine (ih ?_).trans (List.suffix_append z _)
    rename_i u _
    obtain ⟨v, hv⟩ := hy
    rw [hmark, List.append_assoc] at hv
    rcases List.append_eq_append_iff.1 hv with ⟨k, -, hk⟩ | ⟨k, -, hk⟩
    · exact absurd (by rw [hk]; simp) hb
    · cases k with
      | nil => exact absurd (by rw [show y = b :: u from hk.symm]; simp) hb
      | cons c k =>
        obtain ⟨-, hk⟩ := List.cons.inj (show b :: u = c :: (k ++ y) from hk)
        exact ⟨k, hk.symm⟩

end Masked

/-! ## Substitution on both sides of a place -/

namespace Pattern

variable {word : α → Bool} {p : Pattern α} {f : List α → List α → List α} {mark : List α}

theorem between_eq {r : Re α} {cur c : Cursor α} (h : c ∈ r.run word cur) :
    between cur c ++ c.rest = cur.rest := by
  obtain ⟨x, hx, -⟩ := Re.exists_consumed h
  rw [between, hx, List.length_append, Nat.add_sub_cancel, List.take_left]

/-- The first match, in its three parts. -/
theorem find?_eq_some {cur : Cursor α} {whole group : List α}
    (h : p.find? word cur = some (whole, group)) :
    ∃ start ∈ p.before.run word cur, ∃ close ∈ p.group.run word start, ∃ last ∈ p.after.run word close,
      whole ++ last.rest = cur.rest ∧ group ++ close.rest = start.rest := by
  obtain ⟨start, hstart, h⟩ := List.mem_flatMap.1 (List.mem_of_mem_head? h)
  obtain ⟨close, hclose, h⟩ := List.mem_flatMap.1 h
  obtain ⟨last, hlast, h⟩ := List.mem_map.1 h
  obtain ⟨rfl, rfl⟩ := Prod.mk.inj h
  have hre : last ∈ p.re.run word cur :=
    Re.mem_run_seq.2 ⟨start, hstart, Re.mem_run_seq.2 ⟨close, hclose, hlast⟩⟩
  exact ⟨start, hstart, close, hclose, last, hlast, between_eq hre, between_eq hclose⟩

theorem find?_eq_none {cur : Cursor α} : p.find? word cur = none ↔ p.re.run word cur = [] := by
  unfold find?
  rw [List.head?_eq_none_iff, List.flatMap_eq_nil_iff, re, Re.run, List.flatMap_eq_nil_iff]
  refine forall₂_congr fun start _ => ?_
  rw [List.flatMap_eq_nil_iff, Re.run, List.flatMap_eq_nil_iff]
  refine forall₂_congr fun close _ => ?_
  rw [List.map_eq_nil_iff]

/-- A match is a run of the text, and not an empty one. -/
theorem exists_rest (hne : p.re.skips = false) {w : Bool} {c : α} {s whole group : List α}
    (h : p.find? word ⟨w, c :: s⟩ = some (whole, group)) :
    c :: s = whole ++ s.drop (whole.length - 1) ∧ 0 < whole.length := by
  obtain ⟨start, hstart, close, hclose, last, hlast, hwhole, -⟩ := find?_eq_some h
  have hlt := Re.length_lt_of_mem_run hne
    (Re.mem_run_seq.2 ⟨start, hstart, Re.mem_run_seq.2 ⟨close, hclose, hlast⟩⟩)
  have hlen := congrArg List.length hwhole
  rw [List.length_append] at hlen
  cases whole with
  | nil =>
    rw [List.length_nil, Nat.zero_add] at hlen
    exact absurd hlt (hlen ▸ Nat.lt_irrefl _)
  | cons a whole =>
    obtain ⟨rfl, rfl⟩ := List.cons.inj (show a :: (whole ++ last.rest) = c :: s from hwhole)
    simp

theorem subFrom_skip (k : Nat) (w : Bool) (x v : List α) :
    ∃ w', p.subFrom word f (x.length + k) w (x ++ v) = p.subFrom word f k w' v := by
  induction x generalizing w with
  | nil => exact ⟨w, by rw [List.length_nil, Nat.zero_add, List.nil_append]⟩
  | cons c x ih =>
    obtain ⟨w', hsub⟩ := ih (word c)
    refine ⟨w', ?_⟩
    rw [List.length_cons, Nat.add_right_comm, List.cons_append]
    exact hsub

/-- **Where no match hides anything behind a place** the pass hides what comes before it by itself, and
goes on at the place or a little behind it. -/
theorem subFrom_append (hne : p.re.skips = false)
    (hmask : ∀ whole group, Masked mark whole (f whole group)) {x v : List α}
    (hx : ∀ x₁ x₂, x = x₁ ++ x₂ → x₂ ≠ [] → ∀ w whole group,
      p.find? word ⟨w, x₂ ++ v⟩ = some (whole, group) →
        whole.length ≤ x₂.length ∨ ∃ y, f whole group = y ++ whole.drop x₂.length ∧ Masked mark x₂ y)
    {skip : Nat} (hskip : skip ≤ x.length) (w : Bool) :
    ∃ x' w' k, p.subFrom word f skip w (x ++ v) = x' ++ (v.take k ++ p.subFrom word f k w' v) ∧
      Masked mark (x.drop skip) x' := by
  induction x generalizing skip w with
  | nil =>
    obtain rfl := Nat.le_zero.1 hskip
    exact ⟨[], w, 0, rfl, .nil⟩
  | cons c x ih =>
    have hrest : ∀ x₁ x₂, x = x₁ ++ x₂ → x₂ ≠ [] → ∀ w whole group,
        p.find? word ⟨w, x₂ ++ v⟩ = some (whole, group) → whole.length ≤ x₂.length ∨
          ∃ y, f whole group = y ++ whole.drop x₂.length ∧ Masked mark x₂ y :=
      fun x₁ x₂ hsplit => hx (c :: x₁) x₂ (by rw [hsplit, List.cons_append])
    cases skip with
    | succ skip => exact ih hrest (Nat.le_of_succ_le_succ hskip) (word c)
    | zero =>
      cases hfind : p.find? word ⟨w, c :: (x ++ v)⟩ with
      | none =>
        obtain ⟨x', w', k, hsub, hmasked⟩ := ih hrest (Nat.zero_le _) (word c)
        refine ⟨c :: x', w', k, ?_, .keep c hmasked⟩
        rw [List.cons_append, subFrom, hfind]
        exact congrArg (c :: ·) hsub
      | some m =>
        obtain ⟨whole, group⟩ := m
        obtain ⟨hwhole, hpos⟩ := exists_rest hne hfind
        have hsub : p.subFrom word f 0 w (c :: (x ++ v)) =
            f whole group ++ p.subFrom word f (whole.length - 1) (word c) (x ++ v) := by
          rw [subFrom, hfind]
        rw [List.cons_append, List.drop_zero, hsub]
        by_cases hshort : whole.length ≤ x.length + 1
        · have hskip' : whole.length - 1 ≤ x.length := by omega
          obtain ⟨x', w', k, hsub', hmasked⟩ := ih hrest hskip' (word c)
          refine ⟨f whole group ++ x', w', k, by rw [hsub', List.append_assoc], ?_⟩
          have hsplit : c :: x = whole ++ x.drop (whole.length - 1) := by
            rw [List.drop_append_of_le_length hskip', ← List.append_assoc, ← List.cons_append] at hwhole
            exact List.append_cancel_right hwhole
          rw [hsplit]
          exact (hmask whole group).append hmasked
        · rcases hx [] (c :: x) rfl (List.cons_ne_nil c x) w whole group hfind with hle | ⟨y, hy, hmasked⟩
          · exact absurd hle hshort
          · -- the match goes on for `k` symbols behind the place, and they stay
            obtain ⟨k, hk⟩ := Nat.exists_eq_add_of_lt (Nat.lt_of_not_le hshort)
            obtain ⟨w', hsub'⟩ := subFrom_skip (k + 1) (word c) x v
            refine ⟨y, w', k + 1, ?_, hmasked⟩
            have hlen : whole.length - 1 = x.length + (k + 1) := by omega
            have hbehind : whole.drop (x.length + 1) = v.take (k + 1) := by
              have htake : whole = ((c :: x) ++ v).take whole.length := by
                rw [List.cons_append, hwhole, List.take_left]
              rw [htake, hk, List.drop_take, Nat.add_assoc, Nat.add_sub_cancel_left, ← List.length_cons,
                List.drop_left]
            rw [hy, hlen, hsub', List.length_cons, hbehind, List.append_assoc]

theorem subFrom_nil (n : Nat) (w : Bool) : p.subFrom word f n w [] = [] := by
  cases n <;> rfl

theorem masked_subFrom (hne : p.re.skips = false)
    (hmask : ∀ whole group, Masked mark whole (f whole group)) (skip : Nat) (w : Bool) (s : List α) :
    Masked mark (s.drop skip) (p.subFrom word f skip w s) := by
  by_cases hskip : skip ≤ s.length
  · have hwithin : ∀ x₁ x₂, s = x₁ ++ x₂ → x₂ ≠ [] → ∀ w whole group,
        p.find? word ⟨w, x₂ ++ []⟩ = some (whole, group) → whole.length ≤ x₂.length ∨
          ∃ y, f whole group = y ++ whole.drop x₂.length ∧ Masked mark x₂ y := by
      intro x₁ x₂ _ _ w whole group hfind
      obtain ⟨_, _, _, _, last, _, hwhole, -⟩ := find?_eq_some hfind
      have hlen := congrArg List.length hwhole
      simp only [List.append_nil, List.length_append] at hlen
      omega
    obtain ⟨s', w', k, hsub, hmasked⟩ := subFrom_append hne hmask hwithin hskip w
    rw [List.append_nil] at hsub
    rwa [hsub, subFrom_nil, List.append_nil, List.take_nil, List.append_nil]
  · obtain ⟨k, hk⟩ := Nat.exists_eq_add_of_lt (Nat.lt_of_not_le hskip)
    obtain ⟨w', hsub⟩ := subFrom_skip (k + 1) w s []
    rw [List.append_nil, subFrom_nil] at hsub
    rw [hk, Nat.add_assoc, hsub, List.drop_eq_nil_of_le (Nat.le_add_right ..)]
    exact .nil

end Pattern

end Lib
