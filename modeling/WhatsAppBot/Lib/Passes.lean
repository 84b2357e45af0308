import WhatsAppBot.Lib.Context

/-!
# What a pass leaves alone

No match of the pattern starts in a text that it `Spares`, so a pass goes over it (`subFrom_spares`). A
text that is `Apart` holds every match that starts in it (`subFrom_apart`). `sub_keeps`: a run that is
spared stays when the matches in front of it hide nothing of it, and both sides of it are masked.
-/

set_option autoImplicit false

namespace Lib.Pattern

variable {α β : Type} {word : α → Bool} {p : Pattern α} {f : List α → List α → List α} {mark : List α}

/-! ## Texts without a match -/

/-- No match starts in the first text when the second comes next. -/
def Spares (word : α → Bool) (p : Pattern α) : List α → List α → Prop
  | [], _ => True
  | c :: y, z => (∀ w, p.re.run word ⟨w, c :: (y ++ z)⟩ = []) ∧ Spares word p y z

theorem spares_append {x y z : List α} :
    Spares word p (x ++ y) z ↔ Spares word p x (y ++ z) ∧ Spares word p y z := by
  induction x with
  | nil => exact (true_and _).symm ▸ Iff.rfl
  | cons c x ih =>
    rw [List.cons_append, Spares, Spares, ih, List.append_assoc, and_assoc]

theorem Spares.of_heads (hskip : p.re.skips = false) {y z : List α}
    (hy : ∀ c ∈ y, p.re.heads.any (fun q => q c) = false) : Spares word p y z := by
  induction y with
  | nil => trivial
  | cons c y ih =>
    obtain ⟨hc, hy⟩ := List.forall_mem_cons.1 hy
    exact ⟨fun w => Re.run_eq_nil_of_heads hskip hc w _, ih hy⟩

theorem Spares.of_suffix {y z : List α}
    (h : ∀ y₁ y₂, y = y₁ ++ y₂ → y₂ ≠ [] → ∀ w, p.re.run word ⟨w, y₂ ++ z⟩ = []) :
    Spares word p y z := by
  induction y with
  | nil => trivial
  | cons c y ih =>
    refine ⟨h [] (c :: y) rfl (List.cons_ne_nil c y), ih fun y₁ y₂ hy => ?_⟩
    exact h (c :: y₁) y₂ (by rw [hy, List.cons_append])

theorem spares_comap {f : β → α} {y z : List β} :
    Spares (fun b => word (f b)) (p.comap f) y z ↔ Spares word p (y.map f) (z.map f) := by
  induction y with
  | nil => exact Iff.rfl
  | cons c y ih =>
    refine and_congr (forall_congr' fun w => ?_) ih
    have hrun := Re.run_map word f p.re ⟨w, c :: (y ++ z)⟩
    simp only [Cursor.map, List.map_cons, List.map_append] at hrun
    rw [hrun, List.map_eq_nil_iff]
    rfl

/-- A pass goes over what it spares. -/
theorem subFrom_spares {y z : List α} (h : Spares word p y z) (w : Bool) :
    ∃ w', p.subFrom word f 0 w (y ++ z) = y ++ p.subFrom word f 0 w' z := by
  induction y generalizing w with
  | nil => exact ⟨w, rfl⟩
  | cons c y ih =>
    obtain ⟨w', hsub⟩ := ih h.2 (word c)
    refine ⟨w', ?_⟩
    rw [List.cons_append, subFrom, find?_eq_none.2 (h.1 w)]
    exact congrArg (c :: ·) hsub

/-- A run that no match touches stays, and both sides of it are masked. -/
theorem sub_keeps (hne : p.re.skips = false)
    (hmask : ∀ whole group, Masked mark whole (f whole group)) {x y z : List α}
    (hx : ∀ x₁ x₂, x = x₁ ++ x₂ → x₂ ≠ [] → ∀ w whole group,
      p.find? word ⟨w, x₂ ++ (y ++ z)⟩ = some (whole, group) →
        whole.length ≤ x₂.length ∨
          ∃ x', f whole group = x' ++ whole.drop x₂.length ∧ Masked mark x₂ x')
    (hy : Spares word p y z) :
    ∃ x' z', p.sub word f (x ++ (y ++ z)) = x' ++ (y ++ z') ∧
      Masked mark x x' ∧ Masked mark z z' := by
  have hrun : ∀ k w, ∃ z', (y ++ z).take k ++ p.subFrom word f k w (y ++ z) = y ++ z' ∧
      Masked mark z z' := by
    clear hx
    induction y with
    | nil =>
      intro k w
      refine ⟨z.take k ++ p.subFrom word f k w z, rfl, ?_⟩
      have hmasked : Masked mark (z.take k ++ z.drop k) (z.take k ++ p.subFrom word f k w z) :=
        (Masked.refl _).append (masked_subFrom hne hmask k w z)
      rwa [List.take_append_drop] at hmasked
    | cons c y ih =>
      intro k w
      cases k with
      | zero =>
        obtain ⟨z', hrun, hmasked⟩ := ih hy.2 0 (word c)
        refine ⟨z', ?_, hmasked⟩
        rw [List.cons_append, subFrom, find?_eq_none.2 (hy.1 w)]
        exact congrArg (c :: ·) hrun
      | succ k =>
        obtain ⟨z', hrun, hmasked⟩ := ih hy.2 k (word c)
        exact ⟨z', congrArg (c :: ·) hrun, hmasked⟩
  obtain ⟨x', w₁, k, hsub, hmasked⟩ := subFrom_append hne hmask hx (Nat.zero_le _) false
  obtain ⟨z', hz, hmasked'⟩ := hrun k w₁
  exact ⟨x', z', by rw [sub, hsub, hz], hmasked, hmasked'⟩

/-! ## Matches that stay on their side -/

/-- Every match that starts in the first text ends in it. -/
def Apart (word : α → Bool) (p : Pattern α) (x t : List α) : Prop :=
  ∀ x₁ x₂, x = x₁ ++ x₂ → x₂ ≠ [] → ∀ w, ∀ c ∈ p.re.run word ⟨w, x₂ ++ t⟩, ∃ k, c.rest = k ++ t

theorem Apart.cons {c : α} {x t : List α} (h : Apart word p (c :: x) t) : Apart word p x t :=
  fun x₁ x₂ hx => h (c :: x₁) x₂ (by rw [hx, List.cons_append])

theorem subFrom_apart (hne : p.re.skips = false)
    (hmask : ∀ whole group, Masked mark whole (f whole group)) {x t : List α}
    (hx : Apart word p x t) {skip : Nat} (hskip : skip ≤ x.length) (w : Bool) :
    ∃ x' w', p.subFrom word f skip w (x ++ t) = x' ++ p.subFrom word f 0 w' t ∧
      Masked mark (x.drop skip) x' := by
  induction x generalizing skip w with
  | nil =>
    obtain rfl := Nat.le_zero.1 hskip
    exact ⟨[], w, rfl, .nil⟩
  | cons c x ih =>
    cases skip with
    | succ skip => exact ih hx.cons (Nat.le_of_succ_le_succ hskip) (word c)
    | zero =>
      rw [List.cons_append, List.drop_zero]
      cases hfind : p.find? word ⟨w, c :: (x ++ t)⟩ with
      | none =>
        obtain ⟨x', w', hsub, hmasked⟩ := ih hx.cons (Nat.zero_le _) (word c)
        refine ⟨c :: x', w', ?_, .keep c hmasked⟩
        rw [subFrom, hfind]
        exact congrArg (c :: ·) hsub
      | some m =>
        obtain ⟨whole, group⟩ := m
        obtain ⟨start, hstart, close, hclose, last, hlast, hwhole, -⟩ := find?_eq_some hfind
        obtain ⟨k, hk⟩ := hx [] (c :: x) rfl (List.cons_ne_nil c x) w last
          (Re.mem_run_seq.2 ⟨start, hstart, Re.mem_run_seq.2 ⟨close, hclose, hlast⟩⟩)
        obtain ⟨hrest, hpos⟩ := exists_rest hne hfind
        have hsplit : whole ++ k = c :: x := by
          have hall : (whole ++ k) ++ t = (c :: x) ++ t := by
            rw [List.append_assoc, ← hk]
            exact hwhole
          exact List.append_cancel_right hall
        have hlen := congrArg List.length hsplit
        rw [List.length_append, List.length_cons] at hlen
        obtain ⟨x', w', hsub, hmasked⟩ :=
          ih hx.cons (show whole.length - 1 ≤ x.length by omega) (word c)
        refine ⟨f whole group ++ x', w', ?_, ?_⟩
        · rw [subFrom, hfind]
          show f whole group ++ _ = _
          rw [hsub, List.append_assoc]
        · have hdrop : x.drop (whole.length - 1) = k := by
            cases whole with
            | nil => cases hpos
            | cons a whole =>
              obtain ⟨-, htail⟩ := List.cons.inj (show a :: (whole ++ k) = c :: x from hsplit)
              rw [← htail, List.length_cons, Nat.add_sub_cancel, List.drop_left]
          rw [hdrop] at hmasked
          rw [← hsplit]
          exact (hmask whole group).append hmasked

end Lib.Pattern
