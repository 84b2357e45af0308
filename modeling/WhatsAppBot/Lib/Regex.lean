import Mathlib.Data.List.Basic

/-!
# Backtracking regular expressions

`Re` has what a backtracking matcher offers beyond the regular languages: ordered choice, greedy
repetition of a class, negative lookahead and word boundaries. `Re.run` lists the matches at a
cursor in the order the matcher tries them, so the first of the list is the match it reports.
A cursor knows the symbol behind it only as far as `\b` does, by whether it belongs to a word.
-/

set_option autoImplicit false

namespace Lib

structure Cursor (α : Type) where
  afterWord : Bool
  rest : List α
  deriving DecidableEq

inductive Re (α : Type) where
  | empty
  | one (p : α → Bool)
  | seq (r s : Re α)
  | alt (r s : Re α)
  | star (p : α → Bool)
  | upTo (n : Nat) (p : α → Bool)
  | fails (r : Re α)
  | boundary

namespace Re

variable {α : Type}

def opt (r : Re α) : Re α := .alt r .empty

def plus (p : α → Bool) : Re α := .seq (.one p) (.star p)

def all (rs : List (Re α)) : Re α := rs.foldr .seq .empty

/-- The first alternative is tried first. -/
def any : List (Re α) → Re α
  | [] => .fails .empty
  | [r] => r
  | r :: rs => .alt r (any rs)

section Run

variable (word : α → Bool)

def startsWord : List α → Bool
  | [] => false
  | c :: _ => word c

def starFrom (p : α → Bool) : Bool → List α → List (Cursor α)
  | w, [] => [⟨w, []⟩]
  | w, c :: s => if p c then starFrom p (word c) s ++ [⟨w, c :: s⟩] else [⟨w, c :: s⟩]

def upToFrom (p : α → Bool) : Nat → Bool → List α → List (Cursor α)
  | 0, w, s => [⟨w, s⟩]
  | _ + 1, w, [] => [⟨w, []⟩]
  | n + 1, w, c :: s => if p c then upToFrom p n (word c) s ++ [⟨w, c :: s⟩] else [⟨w, c :: s⟩]

/-- The cursors behind the matches, the one the matcher reports first. -/
def run : Re α → Cursor α → List (Cursor α)
  | empty, cur => [cur]
  | one p, ⟨_, s⟩ =>
    match s with
    | [] => []
    | c :: s => if p c then [⟨word c, s⟩] else []
  | seq r s, cur => (run r cur).flatMap (run s)
  | alt r s, cur => run r cur ++ run s cur
  | star p, ⟨w, s⟩ => starFrom word p w s
  | upTo n p, ⟨w, s⟩ => upToFrom word p n w s
  | fails r, cur => if (run r cur).isEmpty then [cur] else []
  | boundary, ⟨w, s⟩ => if w = startsWord word s then [] else [⟨w, s⟩]

/-- `re.search`, from a place where the symbol behind is in a word or not. -/
def searchFrom (r : Re α) : Bool → List α → Bool
  | w, [] => !(run word r ⟨w, []⟩).isEmpty
  | w, c :: s => !(run word r ⟨w, c :: s⟩).isEmpty || searchFrom r (word c) s

def search (r : Re α) (s : List α) : Bool := searchFrom word r false s

/-- The pieces between the matches, with `skip` symbols of the last match still to go. -/
def splitFrom (r : Re α) : Nat → Bool → List α → List (List α)
  | _, _, [] => [[]]
  | skip + 1, _, c :: s => splitFrom r skip (word c) s
  | 0, w, c :: s =>
    match (run word r ⟨w, c :: s⟩).head? with
    | some last => [] :: splitFrom r (s.length - last.rest.length) (word c) s
    | none => (splitFrom r 0 (word c) s).modifyHead (c :: ·)

/-- `re.split`, for a pattern that matches no empty text. -/
def split (r : Re α) (s : List α) : List (List α) := splitFrom word r 0 false s

end Run

/-! ## What a match consumes -/

/-- No match of `r` consumes `a`. -/
def avoids (a : α) : Re α → Bool
  | empty | fails _ | boundary => true
  | one p | star p | upTo _ p => !p a
  | seq r s | alt r s => avoids a r && avoids a s

/-- Every match of `r` consumes a symbol of the class `p`. -/
inductive Requires (p : α → Bool) : Re α → Prop
  | one {q : α → Bool} (h : ∀ c, q c = true → p c = true) : Requires p (.one q)
  | left {r : Re α} (s : Re α) : Requires p r → Requires p (.seq r s)
  | right (r : Re α) {s : Re α} : Requires p s → Requires p (.seq r s)
  | alt {r s : Re α} : Requires p r → Requires p s → Requires p (.alt r s)

/-- Every match of `r` starts with a symbol of the class `p`. -/
inductive Leads (p : α → Bool) : Re α → Prop
  | one : Leads p (.one p)
  | seq {r : Re α} (s : Re α) : Leads p r → Leads p (.seq r s)

variable {word : α → Bool}

theorem mem_run_seq {r s : Re α} {cur c : Cursor α} :
    c ∈ run word (.seq r s) cur ↔ ∃ d ∈ run word r cur, c ∈ run word s d := by
  simp [run]

theorem mem_run_one {p : α → Bool} {cur c : Cursor α} (h : c ∈ run word (.one p) cur) :
    ∃ a, p a = true ∧ cur.rest = a :: c.rest ∧ c.afterWord = word a := by
  obtain ⟨w, s⟩ := cur
  cases s with
  | nil => simp [run] at h
  | cons a s =>
    simp only [run] at h
    split at h
    · rename_i ha
      obtain rfl := List.mem_singleton.1 h
      exact ⟨a, ha, rfl, rfl⟩
    · cases h

theorem mem_run_any {rs : List (Re α)} {cur c : Cursor α} (h : c ∈ run word (.any rs) cur) :
    ∃ r ∈ rs, c ∈ run word r cur := by
  induction rs with
  | nil => simp [any, run] at h
  | cons r rs ih =>
    cases rs with
    | nil => exact ⟨r, List.mem_singleton.2 rfl, h⟩
    | cons t rs =>
      rcases List.mem_append.1 (show c ∈ run word r cur ++ run word (.any (t :: rs)) cur from h)
        with h | h
      · exact ⟨r, List.mem_cons_self .., h⟩
      · obtain ⟨q, hq, hc⟩ := ih h
        exact ⟨q, List.mem_cons_of_mem _ hq, hc⟩

theorem mem_run_fails {r : Re α} {cur c : Cursor α} :
    c ∈ run word (.fails r) cur ↔ c = cur ∧ run word r cur = [] := by
  show c ∈ (if (run word r cur).isEmpty then [cur] else []) ↔ _
  split
  · rename_i h
    simp [List.isEmpty_iff.1 h]
  · rename_i h
    simp [mt List.isEmpty_iff.2 h]

theorem mem_run_boundary {cur c : Cursor α} :
    c ∈ run word .boundary cur ↔ c = cur ∧ cur.afterWord ≠ startsWord word cur.rest := by
  obtain ⟨w, s⟩ := cur
  show c ∈ (if w = startsWord word s then [] else [⟨w, s⟩]) ↔ _
  split <;> rename_i h <;> simp [h]

theorem mem_starFrom {p : α → Bool} {w : Bool} {s : List α} {c : Cursor α}
    (h : c ∈ starFrom word p w s) : ∃ x, s = x ++ c.rest ∧ ∀ a ∈ x, p a = true := by
  induction s generalizing w with
  | nil =>
    obtain rfl := List.mem_singleton.1 h
    exact ⟨[], rfl, by simp⟩
  | cons a s ih =>
    simp only [starFrom] at h
    split at h
    · rename_i ha
      rcases List.mem_append.1 h with h | h
      · obtain ⟨x, hs, hx⟩ := ih h
        exact ⟨a :: x, by simp [← hs], by simpa [ha] using hx⟩
      · obtain rfl := List.mem_singleton.1 h
        exact ⟨[], rfl, by simp⟩
    · obtain rfl := List.mem_singleton.1 h
      exact ⟨[], rfl, by simp⟩

theorem mem_upToFrom {p : α → Bool} {n : Nat} {w : Bool} {s : List α} {c : Cursor α}
    (h : c ∈ upToFrom word p n w s) : ∃ x, s = x ++ c.rest ∧ ∀ a ∈ x, p a = true := by
  induction n generalizing w s with
  | zero =>
    obtain rfl := List.mem_singleton.1 h
    exact ⟨[], rfl, by simp⟩
  | succ n ih =>
    cases s with
    | nil =>
      obtain rfl := List.mem_singleton.1 h
      exact ⟨[], rfl, by simp⟩
    | cons a s =>
      simp only [upToFrom] at h
      split at h
      · rename_i ha
        rcases List.mem_append.1 h with h | h
        · obtain ⟨x, hs, hx⟩ := ih h
          exact ⟨a :: x, by simp [← hs], by simpa [ha] using hx⟩
        · obtain rfl := List.mem_singleton.1 h
          exact ⟨[], rfl, by simp⟩
      · obtain rfl := List.mem_singleton.1 h
        exact ⟨[], rfl, by simp⟩

/-- A match leaves the text behind what it consumes. -/
theorem exists_consumed {r : Re α} {cur c : Cursor α} (h : c ∈ run word r cur) :
    ∃ x, cur.rest = x ++ c.rest ∧ ∀ a, r.avoids a = true → a ∉ x := by
  induction r generalizing cur c with
  | empty =>
    obtain rfl := List.mem_singleton.1 h
    exact ⟨[], rfl, by simp⟩
  | one p =>
    obtain ⟨a, ha, hs, -⟩ := mem_run_one h
    refine ⟨[a], hs, fun b hb hm => ?_⟩
    obtain rfl := List.mem_singleton.1 hm
    simp [avoids, ha] at hb
  | seq r s ihr ihs =>
    obtain ⟨d, hd, hc⟩ := mem_run_seq.1 h
    obtain ⟨x, hx, hxa⟩ := ihr hd
    obtain ⟨y, hy, hya⟩ := ihs hc
    refine ⟨x ++ y, by rw [hx, hy, List.append_assoc], fun a ha => ?_⟩
    simp only [avoids, Bool.and_eq_true] at ha
    simp [hxa a ha.1, hya a ha.2]
  | alt r s ihr ihs =>
    rcases List.mem_append.1 (show c ∈ run word r cur ++ run word s cur from h) with h | h
    · obtain ⟨x, hx, hxa⟩ := ihr h
      exact ⟨x, hx, fun a ha => hxa a (Bool.and_eq_true .. ▸ ha).1⟩
    · obtain ⟨x, hx, hxa⟩ := ihs h
      exact ⟨x, hx, fun a ha => hxa a (Bool.and_eq_true .. ▸ ha).2⟩
  | star p =>
    obtain ⟨x, hx, hxa⟩ := mem_starFrom h
    exact ⟨x, hx, fun a ha hm => by simp [avoids, hxa a hm] at ha⟩
  | upTo n p =>
    obtain ⟨x, hx, hxa⟩ := mem_upToFrom h
    exact ⟨x, hx, fun a ha hm => by simp [avoids, hxa a hm] at ha⟩
  | fails r =>
    simp only [run] at h
    split at h
    · obtain rfl := List.mem_singleton.1 h
      exact ⟨[], rfl, by simp⟩
    · cases h
  | boundary =>
    simp only [run] at h
    split at h
    · cases h
    · obtain rfl := List.mem_singleton.1 h
      exact ⟨[], rfl, by simp⟩

theorem Requires.exists {p : α → Bool} {r : Re α} (hr : Requires p r) {cur c : Cursor α}
    (h : c ∈ run word r cur) : ∃ a ∈ cur.rest, p a = true := by
  induction hr generalizing cur c with
  | one hq =>
    obtain ⟨a, ha, hs, -⟩ := mem_run_one h
    exact ⟨a, by rw [hs]; exact List.mem_cons_self .., hq a ha⟩
  | left s _ ih =>
    obtain ⟨d, hd, -⟩ := mem_run_seq.1 h
    exact ih hd
  | right r _ ih =>
    obtain ⟨d, hd, hc⟩ := mem_run_seq.1 h
    obtain ⟨x, hx, -⟩ := exists_consumed hd
    obtain ⟨a, ha, hp⟩ := ih hc
    exact ⟨a, by rw [hx]; exact List.mem_append_right _ ha, hp⟩
  | alt _ _ ihr ihs =>
    rename_i r s _ _
    rcases List.mem_append.1 (show c ∈ run word r cur ++ run word s cur from h) with h | h
    · exact ihr h
    · exact ihs h

theorem Leads.exists {p : α → Bool} {r : Re α} (hr : Leads p r) {cur c : Cursor α}
    (h : c ∈ run word r cur) : ∃ a t, cur.rest = a :: t ∧ p a = true := by
  induction hr generalizing c with
  | one =>
    obtain ⟨a, ha, hs, -⟩ := mem_run_one h
    exact ⟨a, _, hs, ha⟩
  | seq s _ ih =>
    obtain ⟨d, hd, -⟩ := mem_run_seq.1 h
    exact ih hd

/-! ## Searching -/

theorem searchFrom_eq_false {r : Re α} {s : List α}
    (h : ∀ w y z, s = y ++ z → run word r ⟨w, z⟩ = []) (w : Bool) :
    searchFrom word r w s = false := by
  induction s generalizing w with
  | nil => simp [searchFrom, h w [] [] rfl]
  | cons c s ih =>
    have hs := ih (fun w y z hs => h w (c :: y) z (by rw [hs, List.cons_append])) (word c)
    simp [searchFrom, h w [] (c :: s) rfl, hs]

/-- A text at whose places nothing matches can be skipped; the symbol behind stays known. -/
theorem searchFrom_append {r : Re α} {x s : List α}
    (h : ∀ w y z, x = y ++ z → z ≠ [] → run word r ⟨w, z ++ s⟩ = []) (w : Bool) :
    searchFrom word r w (x ++ s) = searchFrom word r (x.foldl (fun _ c => word c) w) s := by
  induction x generalizing w with
  | nil => rfl
  | cons c x ih =>
    have hx := ih (fun w y z hs => h w (c :: y) z (by rw [hs, List.cons_append])) (word c)
    have hc := h w [] (c :: x) rfl (List.cons_ne_nil c x)
    rw [List.cons_append] at hc ⊢
    simp [searchFrom, hc, hx]

/-! ## What a match can consume -/

/-- Whatever is around `x`, the matches of `r` that start with it include one that ends with it. -/
def Takes (word : α → Bool) (r : Re α) (x : List α) : Prop :=
  ∀ (w : Bool) (s : List α), ∃ w', ⟨w', s⟩ ∈ run word r ⟨w, x ++ s⟩

namespace Takes

variable {r s : Re α} {x y : List α} {p : α → Bool}

theorem empty : Takes word .empty [] := fun w _ => ⟨w, List.mem_singleton.2 rfl⟩

theorem one {a : α} (h : p a = true) : Takes word (.one p) [a] := fun w s => ⟨word a, by simp [run, h]⟩

theorem seq (hr : Takes word r x) (hs : Takes word s y) : Takes word (.seq r s) (x ++ y) := by
  intro w t
  obtain ⟨w₁, h₁⟩ := hr w (y ++ t)
  obtain ⟨w₂, h₂⟩ := hs w₁ t
  rw [List.append_assoc]
  exact ⟨w₂, mem_run_seq.2 ⟨_, h₁, h₂⟩⟩

theorem any {rs : List (Re α)} (hr : r ∈ rs) (h : Takes word r x) : Takes word (.any rs) x := by
  intro w t
  obtain ⟨w', hw⟩ := h w t
  refine ⟨w', ?_⟩
  induction rs with
  | nil => cases hr
  | cons q rs ih =>
    cases rs with
    | nil =>
      obtain rfl := List.mem_singleton.1 hr
      exact hw
    | cons q' rs =>
      show _ ∈ run word q _ ++ run word (.any (q' :: rs)) _
      rcases List.mem_cons.1 hr with rfl | hr
      · exact List.mem_append_left _ hw
      · exact List.mem_append_right _ (ih hr)

theorem upTo {n : Nat} (hn : x.length ≤ n) (hx : ∀ a ∈ x, p a = true) :
    Takes word (.upTo n p) x := by
  intro w t
  show ∃ w', _ ∈ upToFrom word p n w (x ++ t)
  induction x generalizing n w with
  | nil =>
    refine ⟨w, ?_⟩
    cases n with
    | zero => exact List.mem_singleton.2 rfl
    | succ n =>
      cases t with
      | nil => exact List.mem_singleton.2 rfl
      | cons a t =>
        simp only [List.nil_append, upToFrom]
        split
        · exact List.mem_append_right _ (List.mem_singleton.2 rfl)
        · exact List.mem_singleton.2 rfl
  | cons a x ih =>
    cases n with
    | zero => simp at hn
    | succ n =>
      obtain ⟨w', hw⟩ := ih (Nat.le_of_succ_le_succ hn) (fun b hb => hx b (List.mem_cons_of_mem _ hb))
        (word a)
      refine ⟨w', ?_⟩
      rw [List.cons_append, upToFrom, if_pos (hx a List.mem_cons_self)]
      exact List.mem_append_left _ hw

theorem star (hx : ∀ a ∈ x, p a = true) : Takes word (.star p) x := by
  intro w t
  show ∃ w', _ ∈ starFrom word p w (x ++ t)
  induction x generalizing w with
  | nil =>
    refine ⟨w, ?_⟩
    cases t with
    | nil => exact List.mem_singleton.2 rfl
    | cons a t =>
      simp only [List.nil_append, starFrom]
      split
      · exact List.mem_append_right _ (List.mem_singleton.2 rfl)
      · exact List.mem_singleton.2 rfl
  | cons a x ih =>
    obtain ⟨ha, hx⟩ := List.forall_mem_cons.1 hx
    obtain ⟨w', hw⟩ := ih hx (word a)
    refine ⟨w', ?_⟩
    rw [List.cons_append, starFrom, if_pos ha]
    exact List.mem_append_left _ hw

/-- What a pattern can consume is found wherever it stands. -/
theorem search (h : Takes word r x) (before after : List α) :
    Re.search word r (before ++ x ++ after) = true := by
  unfold Re.search
  generalize false = w
  rw [List.append_assoc]
  induction before generalizing w with
  | nil =>
    obtain ⟨w', hw⟩ := h w after
    have hne : (run word r ⟨w, x ++ after⟩).isEmpty = false := by
      cases hrun : run word r ⟨w, x ++ after⟩ with
      | nil => rw [hrun] at hw; cases hw
      | cons => rfl
    rw [List.nil_append]
    cases hs : x ++ after with
    | nil => rw [searchFrom, ← hs, hne]; rfl
    | cons a s => rw [searchFrom, ← hs, hne]; rfl
  | cons a before ih =>
    rw [List.cons_append, searchFrom, ih, Bool.or_true]

end Takes

/-- A pattern whose matches need a symbol of a class is not found in a text without one. -/
theorem Requires.search {p : α → Bool} {r : Re α} (hr : Requires p r) {s : List α}
    (hs : ∀ a ∈ s, p a = false) : search word r s = false := by
  refine searchFrom_eq_false (fun w y z hyz => ?_) false
  cases hrun : run word r ⟨w, z⟩ with
  | nil => rfl
  | cons c cs =>
    obtain ⟨a, ha, hp⟩ := hr.exists (hrun ▸ List.mem_cons_self : c ∈ run word r ⟨w, z⟩)
    rw [hs a (hyz ▸ List.mem_append_right y ha)] at hp
    cases hp

theorem Requires.all {p : α → Bool} {r : Re α} {rs : List (Re α)} (hr : Requires p r) (h : r ∈ rs) :
    Requires p (.all rs) := by
  induction rs with
  | nil => cases h
  | cons q rs ih =>
    rcases List.mem_cons.1 h with rfl | h
    · exact .left _ hr
    · exact .right _ (ih h)

theorem Requires.any {p : α → Bool} {rs : List (Re α)} (hne : rs ≠ [])
    (h : ∀ r ∈ rs, Requires p r) : Requires p (.any rs) := by
  induction rs with
  | nil => exact absurd rfl hne
  | cons r rs ih =>
    cases rs with
    | nil => exact h r List.mem_cons_self
    | cons q rs =>
      exact .alt (h r List.mem_cons_self)
        (ih (List.cons_ne_nil q rs) fun t ht => h t (List.mem_cons_of_mem _ ht))

end Re

/-- A pattern with one group. -/
structure Pattern (α : Type) where
  before : Re α
  group : Re α
  after : Re α

namespace Pattern

variable {α : Type} (word : α → Bool)

def re (p : Pattern α) : Re α := .seq p.before (.seq p.group p.after)

/-- What lies between two cursors. -/
def between (first last : Cursor α) : List α :=
  first.rest.take (first.rest.length - last.rest.length)

/-- The first match at a cursor: the whole of it and its group. -/
def find? (p : Pattern α) (cur : Cursor α) : Option (List α × List α) :=
  (((p.before.run word cur).flatMap fun start =>
    (p.group.run word start).flatMap fun close =>
      (p.after.run word close).map fun last => (between cur last, between start close))).head?

/-- The pass of `sub`, with `skip` symbols of the last match still to go. -/
def subFrom (p : Pattern α) (f : List α → List α → List α) : Nat → Bool → List α → List α
  | _, _, [] => []
  | skip + 1, _, c :: s => subFrom p f skip (word c) s
  | 0, w, c :: s =>
    match p.find? word ⟨w, c :: s⟩ with
    | some (whole, group) => f whole group ++ subFrom p f (whole.length - 1) (word c) s
    | none => c :: subFrom p f 0 (word c) s

/-- `re.sub`, for a pattern that matches no empty text. -/
def sub (p : Pattern α) (f : List α → List α → List α) (s : List α) : List α :=
  subFrom word p f 0 false s

end Pattern

end Lib
