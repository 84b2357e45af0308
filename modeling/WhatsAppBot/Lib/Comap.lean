import WhatsAppBot.Lib.Regex

/-!
# Patterns over another alphabet

`Re.comap f` reads a text through `f`. Its matches in a text are those of the pattern in the image of
the text (`run_map`), so searching and substituting commute with `f` (`searchFrom_map`, `sub_map`). A
pattern is `Fixed` by a renaming of the alphabet when reading through it changes nothing.
-/

set_option autoImplicit false

namespace Lib

variable {α β : Type}

def Cursor.map (f : β → α) (cur : Cursor β) : Cursor α := ⟨cur.afterWord, cur.rest.map f⟩

namespace Re

def comap (f : β → α) : Re α → Re β
  | empty => empty
  | one p => one fun b => p (f b)
  | seq r s => seq (comap f r) (comap f s)
  | alt r s => alt (comap f r) (comap f s)
  | star p => star fun b => p (f b)
  | upTo n p => upTo n fun b => p (f b)
  | fails r => fails (comap f r)
  | boundary => boundary

section

variable (word : α → Bool) (f : β → α)

theorem starFrom_map {p : α → Bool} (w : Bool) (s : List β) :
    starFrom word p w (s.map f) =
      (starFrom (fun b => word (f b)) (fun b => p (f b)) w s).map (Cursor.map f) := by
  induction s generalizing w with
  | nil => rfl
  | cons b s ih =>
    simp only [List.map_cons, starFrom]
    split
    · rw [ih, List.map_append]
      rfl
    · rfl

theorem upToFrom_map {p : α → Bool} (n : Nat) (w : Bool) (s : List β) :
    upToFrom word p n w (s.map f) =
      (upToFrom (fun b => word (f b)) (fun b => p (f b)) n w s).map (Cursor.map f) := by
  induction n generalizing w s with
  | zero => rfl
  | succ n ih =>
    cases s with
    | nil => rfl
    | cons b s =>
      simp only [List.map_cons, upToFrom]
      split
      · rw [ih, List.map_append]
        rfl
      · rfl

/-- **The matches in the image** of a text are the images of the matches in it. -/
theorem run_map (r : Re α) (cur : Cursor β) :
    run word r (cur.map f) = (run (fun b => word (f b)) (r.comap f) cur).map (Cursor.map f) := by
  induction r generalizing cur with
  | empty => rfl
  | one p =>
    obtain ⟨w, s⟩ := cur
    cases s with
    | nil => rfl
    | cons b s =>
      show (if p (f b) then [_] else []) = (if p (f b) then [_] else []).map _
      split <;> rfl
  | seq r s ihr ihs =>
    simp only [comap, run, ihr, List.flatMap_map, List.map_flatMap, ihs]
  | alt r s ihr ihs => simp only [comap, run, ihr, ihs, List.map_append]
  | star p => exact starFrom_map word f cur.afterWord cur.rest
  | upTo n p => exact upToFrom_map word f n cur.afterWord cur.rest
  | fails r ih =>
    simp only [comap, run, ih, List.isEmpty_map]
    split <;> rfl
  | boundary =>
    obtain ⟨w, s⟩ := cur
    have hstart : startsWord word (s.map f) = startsWord (fun b => word (f b)) s := by
      cases s <;> rfl
    show (if w = startsWord word (s.map f) then [] else [_]) = _
    rw [hstart]
    show _ = (if w = startsWord (fun b => word (f b)) s then [] else [_]).map _
    split <;> rfl

variable {word f} in
theorem mem_run_comap {r : Re α} {cur c : Cursor β}
    (h : c ∈ run (fun b => word (f b)) (r.comap f) cur) : c.map f ∈ run word r (cur.map f) := by
  rw [run_map]
  exact List.mem_map_of_mem h

theorem searchFrom_map (r : Re α) (w : Bool) (s : List β) :
    searchFrom word r w (s.map f) = searchFrom (fun b => word (f b)) (r.comap f) w s := by
  induction s generalizing w with
  | nil =>
    have h := run_map word f r ⟨w, []⟩
    simp only [Cursor.map, List.map_nil] at h
    simp [searchFrom, h]
  | cons b s ih =>
    have h := run_map word f r ⟨w, b :: s⟩
    simp only [Cursor.map, List.map_cons] at h
    simp [searchFrom, h, ih]

end

theorem run_one_mono {word p q : α → Bool} (h : ∀ a, p a = true → q a = true) {cur c : Cursor α}
    (hc : c ∈ run word (.one p) cur) : c ∈ run word (.one q) cur := by
  obtain ⟨w, s⟩ := cur
  cases s with
  | nil => exact hc
  | cons a s =>
    simp only [run] at hc ⊢
    split at hc
    · rename_i ha
      rwa [if_pos (h a ha)]
    · cases hc

/-! ## Fixed patterns -/

/-- Reading through the renaming changes nothing. -/
def Fixed (f : α → α) (r : Re α) : Prop := r.comap f = r

namespace Fixed

variable {f : α → α} {r s : Re α}

theorem empty : Fixed f .empty := rfl

theorem boundary : Fixed f .boundary := rfl

theorem one {p : α → Bool} (h : ∀ a, p (f a) = p a) : Fixed f (.one p) :=
  congrArg Re.one (funext h)

theorem star {p : α → Bool} (h : ∀ a, p (f a) = p a) : Fixed f (.star p) :=
  congrArg Re.star (funext h)

theorem upTo {p : α → Bool} (n : Nat) (h : ∀ a, p (f a) = p a) : Fixed f (.upTo n p) :=
  congrArg (Re.upTo n) (funext h)

theorem seq (hr : Fixed f r) (hs : Fixed f s) : Fixed f (.seq r s) := congrArg₂ Re.seq hr hs

theorem alt (hr : Fixed f r) (hs : Fixed f s) : Fixed f (.alt r s) := congrArg₂ Re.alt hr hs

theorem fails (hr : Fixed f r) : Fixed f (.fails r) := congrArg Re.fails hr

theorem all {rs : List (Re α)} (h : ∀ r ∈ rs, Fixed f r) : Fixed f (.all rs) := by
  induction rs with
  | nil => exact .empty
  | cons r rs ih =>
    obtain ⟨hr, hrs⟩ := List.forall_mem_cons.1 h
    exact hr.seq (ih hrs)

theorem any {rs : List (Re α)} (h : ∀ r ∈ rs, Fixed f r) : Fixed f (.any rs) := by
  induction rs with
  | nil => exact .fails .empty
  | cons r rs ih =>
    obtain ⟨hr, hrs⟩ := List.forall_mem_cons.1 h
    cases rs with
    | nil => exact hr
    | cons s rs => exact hr.alt (ih hrs)

end Fixed

/-! ## Alternatives -/

/-- What the pattern offers, one after the other. -/
def alternatives : Re α → List (Re α)
  | alt r s => r :: alternatives s
  | r => [r]

theorem mem_run_any_of_mem {word : α → Bool} {rs : List (Re α)} {r : Re α} (hr : r ∈ rs) {cur c : Cursor α}
    (h : c ∈ run word r cur) : c ∈ run word (.any rs) cur := by
  induction rs with
  | nil => cases hr
  | cons q rs ih =>
    cases rs with
    | nil =>
      obtain rfl := List.mem_singleton.1 hr
      exact h
    | cons q' rs =>
      show c ∈ run word q cur ++ run word (.any (q' :: rs)) cur
      rcases List.mem_cons.1 hr with rfl | hr
      · exact List.mem_append_left _ h
      · exact List.mem_append_right _ (ih hr)

theorem run_alternatives {word : α → Bool} (r : Re α) (cur : Cursor α) :
    run word r cur = r.alternatives.flatMap fun s => run word s cur := by
  induction r with
  | alt r s _ ih =>
    show run word r cur ++ run word s cur = _
    rw [ih, alternatives, List.flatMap_cons]
  | _ => simp [alternatives]

theorem mem_run_alternatives {word : α → Bool} {r : Re α} {cur c : Cursor α} :
    c ∈ run word r cur ↔ ∃ s ∈ r.alternatives, c ∈ run word s cur := by
  rw [run_alternatives, List.mem_flatMap]

theorem alternatives_comap (f : β → α) (r : Re α) :
    (r.comap f).alternatives = r.alternatives.map (comap f) := by
  induction r with
  | alt r s _ ih => simp [comap, alternatives, ih]
  | _ => rfl

/-- Reading the alternatives through `f` changes nothing where it changes nothing of each. -/
theorem run_seq_comap_congr {word : α → Bool} {f : α → α} {r k : Re α} {cur : Cursor α}
    (h : ∀ s ∈ r.alternatives, run word (.seq (s.comap f) k) cur = run word (.seq s k) cur) :
    run word (.seq (r.comap f) k) cur = run word (.seq r k) cur := by
  have hseq : ∀ s : Re α, run word (.seq s k) cur = (run word s cur).flatMap (run word k) :=
    fun _ => rfl
  rw [hseq, hseq, run_alternatives, run_alternatives r, alternatives_comap, List.flatMap_map,
    List.flatMap_assoc, List.flatMap_assoc]
  exact List.flatMap_congr h

/-! ## One pattern for two -/

/-- Wherever `r` has a match one of `s` and `t` has, and the other way round. -/
def Splits (word : α → Bool) (r s t : Re α) : Prop :=
  ∀ cur, (∃ c, c ∈ run word r cur) ↔ (∃ c, c ∈ run word s cur) ∨ ∃ c, c ∈ run word t cur

namespace Splits

variable {word : α → Bool} {r s t : Re α}

theorem seq (h : Splits word r s t) (k : Re α) : Splits word (.seq k r) (.seq k s) (.seq k t) := by
  intro cur
  simp only [mem_run_seq]
  constructor
  · rintro ⟨c, d, hd, hc⟩
    rcases (h d).1 ⟨c, hc⟩ with ⟨c, hc⟩ | ⟨c, hc⟩
    · exact .inl ⟨c, d, hd, hc⟩
    · exact .inr ⟨c, d, hd, hc⟩
  · rintro (⟨c, d, hd, hc⟩ | ⟨c, d, hd, hc⟩)
    · obtain ⟨c, hc⟩ := (h d).2 (.inl ⟨c, hc⟩)
      exact ⟨c, d, hd, hc⟩
    · obtain ⟨c, hc⟩ := (h d).2 (.inr ⟨c, hc⟩)
      exact ⟨c, d, hd, hc⟩

theorem alt (r s : Re α) : Splits word (.alt r s) r s := by
  intro cur
  constructor
  · rintro ⟨c, hc⟩
    rcases List.mem_append.1 (show c ∈ run word r cur ++ run word s cur from hc) with hc | hc
    · exact .inl ⟨c, hc⟩
    · exact .inr ⟨c, hc⟩
  · rintro (⟨c, hc⟩ | ⟨c, hc⟩)
    · exact ⟨c, List.mem_append_left _ hc⟩
    · exact ⟨c, List.mem_append_right _ hc⟩

theorem search (h : Splits word r s t) (x : List α) :
    Re.search word r x = (Re.search word s x || Re.search word t x) := by
  have hempty : ∀ (q : Re α) cur, (!(run word q cur).isEmpty) = true ↔ ∃ c, c ∈ run word q cur := by
    intro q cur
    cases run word q cur <;> simp
  have hcur : ∀ cur, (!(run word r cur).isEmpty) =
      (!(run word s cur).isEmpty || !(run word t cur).isEmpty) := by
    intro cur
    rw [Bool.eq_iff_iff, Bool.or_eq_true, hempty, hempty, hempty]
    exact h cur
  unfold Re.search
  generalize false = w
  induction x generalizing w with
  | nil => exact hcur ⟨w, []⟩
  | cons a x ih =>
    simp only [searchFrom, ih, hcur]
    ac_rfl

end Splits

end Re

/-! ## Substitution -/

namespace Pattern

def comap (f : β → α) (p : Pattern α) : Pattern β :=
  ⟨p.before.comap f, p.group.comap f, p.after.comap f⟩

variable (word : α → Bool) (f : β → α)

theorem between_map (first last : Cursor β) :
    between (first.map f) (last.map f) = (between first last).map f := by
  simp [between, Cursor.map, List.map_take]

theorem find?_map (p : Pattern α) (cur : Cursor β) :
    p.find? word (cur.map f) =
      ((p.comap f).find? (fun b => word (f b)) cur).map fun m => (m.1.map f, m.2.map f) := by
  unfold find?
  rw [← List.head?_map]
  simp only [comap, Re.run_map, List.flatMap_map, List.map_flatMap, List.map_map]
  congr 2
  funext start
  congr 1
  funext close
  congr 1
  funext last
  simp [between_map]

/-- What is substituted may be computed in either alphabet. -/
theorem subFrom_map (p : Pattern α) {g : List β → List β → List β} {h : List α → List α → List α}
    (hg : ∀ whole group, h (whole.map f) (group.map f) = (g whole group).map f) (skip : Nat) (w : Bool)
    (s : List β) : p.subFrom word h skip w (s.map f) =
      ((p.comap f).subFrom (fun b => word (f b)) g skip w s).map f := by
  induction s generalizing skip w with
  | nil => cases skip <;> rfl
  | cons b s ih =>
    cases skip with
    | succ skip => exact ih skip (word (f b))
    | zero =>
      have hfind := find?_map word f p ⟨w, b :: s⟩
      simp only [Cursor.map, List.map_cons] at hfind
      simp only [List.map_cons, subFrom, hfind]
      cases hm : (p.comap f).find? (fun b => word (f b)) ⟨w, b :: s⟩ with
      | none => simp [ih]
      | some m => simp [ih, hg]

theorem sub_map (p : Pattern α) {g : List β → List β → List β} {h : List α → List α → List α}
    (hg : ∀ whole group, h (whole.map f) (group.map f) = (g whole group).map f) (s : List β) :
    p.sub word h (s.map f) = ((p.comap f).sub (fun b => word (f b)) g s).map f :=
  subFrom_map word f p hg 0 false s

/-- Two patterns that agree wherever a third one has no match make the same of a text in which it is
not found. -/
theorem subFrom_congr {word : α → Bool} {p q : Pattern α} {r : Re α} {g : List α → List α → List α}
    (h : ∀ cur, r.run word cur = [] → p.find? word cur = q.find? word cur) {s : List α} {w : Bool}
    (hs : r.searchFrom word w s = false) (skip : Nat) :
    p.subFrom word g skip w s = q.subFrom word g skip w s := by
  induction s generalizing skip w with
  | nil => cases skip <;> rfl
  | cons c s ih =>
    rw [Re.searchFrom, Bool.or_eq_false_iff, Bool.not_eq_false', List.isEmpty_iff] at hs
    cases skip with
    | succ skip => exact ih hs.2 skip
    | zero => simp only [subFrom, h _ hs.1, ih hs.2]

/-- What comes behind the group only matters where the pattern before it matches. -/
theorem find?_congr {word : α → Bool} {p : Pattern α} {after tail : Re α}
    (h : ∀ cur, tail.run word cur = [] → after.run word cur = p.after.run word cur) (cur : Cursor α)
    (hnone : (Re.seq p.before (.seq p.group tail)).run word cur = []) :
    (⟨p.before, p.group, after⟩ : Pattern α).find? word cur = p.find? word cur := by
  have hstart := List.flatMap_eq_nil_iff.1 hnone
  unfold find?
  congr 1
  refine List.flatMap_congr fun start hs => List.flatMap_congr fun close hc => ?_
  rw [h close (List.flatMap_eq_nil_iff.1 (hstart start hs) close hc)]

end Pattern

end Lib
