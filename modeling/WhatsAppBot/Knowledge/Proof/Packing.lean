import WhatsAppBot.Knowledge.Chunking

/-!
# Windows and packing

What the two loops of `chunk_text` do to lists of tokens. A chunk is what `extend` makes of the tail
of the chunk before it and a group of units (`pack_groups`), and a tail depends on the tail of what
came before only (`tailOf_foldl_extend`). `exists_window`: the windows of a paragraph overlap so far
that a short run lies within one of them.
-/

set_option autoImplicit false

namespace Knowledge

variable {α : Type} {sep cur cur' unit xs ys : List α} {maxTokens overlap : Nat}

/-! ## Tails -/

@[simp] theorem tailOf_zero (xs : List α) : tailOf 0 xs = [] := rfl

@[simp] theorem tailOf_nil (k : Nat) : tailOf k ([] : List α) = [] := by
  unfold tailOf
  split
  · exact List.drop_nil
  · rfl

theorem tailOf_suffix (k : Nat) (xs : List α) : tailOf k xs <:+ xs := by
  unfold tailOf
  split
  · exact List.drop_suffix _ xs
  · exact List.nil_suffix

@[simp] theorem length_tailOf (k : Nat) (xs : List α) : (tailOf k xs).length = min k xs.length := by
  unfold tailOf
  split
  · rw [List.length_drop]
    omega
  · simp_all

theorem tailOf_eq_nil {k : Nat} {xs : List α} : tailOf k xs = [] ↔ k = 0 ∨ xs = [] := by
  rw [← List.length_eq_zero_iff, length_tailOf, ← List.length_eq_zero_iff]
  omega

/-- The tail of a longer list only depends on the tail of what it begins with. -/
theorem tailOf_append (k : Nat) (xs ys : List α) : tailOf k (xs ++ ys) = tailOf k (tailOf k xs ++ ys) := by
  unfold tailOf
  split
  · rw [List.length_append, List.length_append, List.length_drop, List.drop_append,
      List.drop_append, List.drop_drop, List.length_drop]
    congr 2 <;> omega
  · rfl

@[simp] theorem tailOf_tailOf (k : Nat) (xs : List α) : tailOf k (tailOf k xs) = tailOf k xs := by
  have h := tailOf_append k xs []
  rwa [List.append_nil, List.append_nil, eq_comm] at h

/-! ## Packing -/

@[simp] theorem extend_nil (sep unit : List α) : extend sep [] unit = unit := rfl

theorem extend_of_ne (h : cur ≠ []) : extend sep cur unit = cur ++ sep ++ unit := if_pos h

theorem extend_ne_nil (h : unit ≠ []) : extend sep cur unit ≠ [] := by
  unfold extend
  split
  · simp [h]
  · exact h

theorem tailOf_extend {k : Nat} (h : tailOf k cur = tailOf k cur') :
    tailOf k (extend sep cur unit) = tailOf k (extend sep cur' unit) := by
  by_cases hk : k = 0
  · rw [hk, tailOf_zero, tailOf_zero]
  · have hnil : cur = [] ↔ cur' = [] := by
      have hcur : tailOf k cur = [] ↔ tailOf k cur' = [] := by rw [h]
      simpa [tailOf_eq_nil, hk] using hcur
    by_cases hcur : cur = []
    · rw [hcur, hnil.mp hcur]
    · rw [extend_of_ne hcur, extend_of_ne (mt hnil.mpr hcur), List.append_assoc, List.append_assoc,
        tailOf_append, h, ← tailOf_append]

theorem tailOf_foldl_extend {k : Nat} (sep : List α) (h : tailOf k cur = tailOf k cur')
    (units : List (List α)) : tailOf k (units.foldl (extend sep) cur) = tailOf k (units.foldl (extend sep) cur') := by
  induction units generalizing cur cur' with
  | nil => exact h
  | cons u units ih => exact ih (tailOf_extend h)

/-- What came before, joined by separators. -/
theorem foldl_extend_of_ne {units : List (List α)} (hcur : cur ≠ []) (hunits : units ≠ []) :
    units.foldl (extend sep) cur = cur ++ sep ++ sep.intercalate units := by
  induction units generalizing cur with
  | nil => exact absurd rfl hunits
  | cons u units ih =>
    rw [List.foldl_cons, extend_of_ne hcur]
    cases units with
    | nil => simp [List.intercalate]
    | cons v units =>
      rw [ih (by simp [hcur]) (List.cons_ne_nil _ _)]
      simp [List.intercalate]

theorem foldl_extend_nil {units : List (List α)} (h : ∀ u ∈ units, u ≠ []) :
    units.foldl (extend sep) [] = sep.intercalate units := by
  cases units with
  | nil => rfl
  | cons u units =>
    rw [List.foldl_cons, extend_nil]
    cases units with
    | nil => simp [List.intercalate]
    | cons v units =>
      rw [foldl_extend_of_ne (h u List.mem_cons_self) (List.cons_ne_nil _ _)]
      simp [List.intercalate]

theorem prefix_foldl_extend (units : List (List α)) (cur : List α) (hcur : cur ≠ []) :
    cur <+: units.foldl (extend sep) cur := by
  induction units generalizing cur with
  | nil => exact List.prefix_refl cur
  | cons u units ih =>
    rw [List.foldl_cons, extend_of_ne hcur]
    refine List.IsPrefix.trans ?_ (ih _ (by simp [hcur]))
    rw [List.append_assoc]
    exact List.prefix_append cur _

/-- A unit is whole in the chunk it is packed into. -/
theorem infix_foldl_extend {units : List (List α)} (sep cur : List α) (h : unit ∈ units) :
    unit <:+: units.foldl (extend sep) cur := by
  induction units generalizing cur with
  | nil => cases h
  | cons u units ih =>
    rcases List.mem_cons.mp h with rfl | h
    · by_cases hnil : unit = []
      · rw [hnil]
        exact List.nil_infix
      · have hin : unit <:+: extend sep cur unit := by
          by_cases hcur : cur = []
          · rw [hcur]
            exact List.infix_refl unit
          · rw [extend_of_ne hcur]
            exact (List.suffix_append _ unit).isInfix
        exact hin.trans (prefix_foldl_extend units _ (extend_ne_nil hnil)).isInfix
    · exact ih _ h

/-- The chunks that groups of units make, each with the tail of the chunk before it. -/
def assemble (sep : List α) (overlap : Nat) : List α → List (List (List α)) → List (List α)
  | _, [] => []
  | carried, group :: groups =>
    group.foldl (extend sep) carried ::
      assemble sep overlap (tailOf overlap (group.foldl (extend sep) carried)) groups

variable (sep maxTokens overlap) in
/-- The chunk under construction takes up a group of units, and the others follow. -/
theorem pack_cons (hcur : cur ≠ []) {units : List (List α)} (hunits : ∀ u ∈ units, u ≠ []) :
    ∃ group groups, units = group ++ groups.flatten ∧ (∀ g ∈ groups, g ≠ []) ∧
      pack sep maxTokens overlap cur units = group.foldl (extend sep) cur ::
        assemble sep overlap (tailOf overlap (group.foldl (extend sep) cur)) groups := by
  induction units generalizing cur with
  | nil => exact ⟨[], [], rfl, nofun, if_pos hcur⟩
  | cons u units ih =>
    have hrest : ∀ v ∈ units, v ≠ [] := fun v hv => hunits v (List.mem_cons_of_mem _ hv)
    have hext : ∀ c, extend sep c u ≠ [] := fun c => extend_ne_nil (hunits u List.mem_cons_self)
    unfold pack
    split
    · obtain ⟨group, groups, hsplit, hne, hpack⟩ := ih (hext (tailOf overlap cur)) hrest
      refine ⟨[], (u :: group) :: groups, ?_, ?_, ?_⟩
      · rw [hsplit, List.nil_append, List.flatten_cons, List.cons_append]
      · exact List.forall_mem_cons.mpr ⟨List.cons_ne_nil _ _, hne⟩
      · rw [hpack]
        rfl
    · obtain ⟨group, groups, hsplit, hne, hpack⟩ := ih (hext cur) hrest
      exact ⟨u :: group, groups, by rw [hsplit, List.cons_append], hne, hpack⟩

variable (sep maxTokens overlap) in
/-- **Packing** cuts the units into groups and makes a chunk of each. -/
theorem pack_groups {units : List (List α)} (hunits : ∀ u ∈ units, u ≠ []) :
    ∃ groups, groups.flatten = units ∧ (∀ g ∈ groups, g ≠ []) ∧
      pack sep maxTokens overlap [] units = assemble sep overlap [] groups := by
  cases units with
  | nil => exact ⟨[], rfl, nofun, rfl⟩
  | cons u units =>
    have hu := hunits u List.mem_cons_self
    obtain ⟨group, groups, hsplit, hne, hpack⟩ := pack_cons sep maxTokens overlap hu
      fun v hv => hunits v (List.mem_cons_of_mem _ hv)
    refine ⟨(u :: group) :: groups, ?_, ?_, ?_⟩
    · rw [hsplit, List.flatten_cons, List.cons_append]
    · exact List.forall_mem_cons.mpr ⟨List.cons_ne_nil _ _, hne⟩
    · rw [pack, if_neg (by simp), extend_nil, hpack]
      rfl

/-! ## Windows -/

theorem mem_windowsFrom {tokens : List α} {size step n start j : Nat} (hj : j < n)
    (h : start + j * step < tokens.length) :
    (tokens.drop (start + j * step)).take size ∈ windowsFrom tokens size step n start := by
  induction j generalizing n start with
  | zero =>
    obtain ⟨n, rfl⟩ : ∃ m, n = m + 1 := ⟨n - 1, by omega⟩
    rw [Nat.zero_mul, Nat.add_zero] at h ⊢
    rw [windowsFrom, if_pos h]
    exact List.mem_cons_self
  | succ j ih =>
    obtain ⟨n, rfl⟩ : ∃ m, n = m + 1 := ⟨n - 1, by omega⟩
    rw [Nat.succ_mul, Nat.add_comm (j * step), ← Nat.add_assoc] at h ⊢
    rw [windowsFrom, if_pos (by omega)]
    exact List.mem_cons_of_mem _ (ih (by omega) h)

theorem mem_windowsFrom_iff {tokens w : List α} {size step n start : Nat}
    (h : w ∈ windowsFrom tokens size step n start) :
    ∃ k < tokens.length, w = (tokens.drop k).take size := by
  induction n generalizing start with
  | zero => cases h
  | succ n ih =>
    unfold windowsFrom at h
    split at h
    · rename_i hlt
      rcases List.mem_cons.mp h with rfl | h
      · exact ⟨start, hlt, rfl⟩
      · exact ih h
    · cases h

/-- A window is a run of at most `size` tokens, and not an empty one. -/
theorem of_mem_windows {tokens w : List α} {size step : Nat} (hsize : 0 < size)
    (h : w ∈ windows tokens size step) : w <:+: tokens ∧ w ≠ [] ∧ w.length ≤ size := by
  obtain ⟨k, hk, rfl⟩ := mem_windowsFrom_iff h
  refine ⟨(List.take_prefix _ _).isInfix.trans (List.drop_suffix _ _).isInfix, ?_, ?_⟩
  · rw [← List.length_pos_iff, List.length_take, List.length_drop]
    omega
  · rw [List.length_take]
    exact Nat.min_le_left _ _

/-- **A short run lies within one window**: it is no longer than what two windows share and one. -/
theorem exists_window {tokens run : List α} (size step : Nat) (hstep : 0 < step)
    (hne : tokens ≠ []) (hrun : run <:+: tokens) (hlen : run.length + step ≤ size + 1) :
    ∃ w ∈ windows tokens size step, run <:+: w := by
  obtain ⟨before, after, rfl⟩ := hrun
  by_cases hnil : run = []
  · refine ⟨_, mem_windowsFrom (j := 0) (List.length_pos_iff.mpr hne) ?_, ?_⟩
    · simpa using List.length_pos_iff.mpr hne
    · rw [hnil]
      exact List.nil_infix
  -- the last window that starts no later than the run
  have hpos := List.length_pos_iff.mpr hnil
  have hdiv := Nat.div_add_mod before.length step
  have hmod := Nat.mod_lt before.length hstep
  have hle : before.length / step * step ≤ before.length := Nat.div_mul_le_self _ _
  have hcount : before.length / step ≤ before.length := Nat.div_le_self _ _
  have htotal : (before ++ run ++ after).length = before.length + run.length + after.length := by
    simp only [List.length_append]
  refine ⟨_, mem_windowsFrom (j := before.length / step) (by omega) (by omega), ?_⟩
  rw [Nat.zero_add]
  refine ⟨before.drop (before.length / step * step),
    ((before ++ run ++ after).drop (before.length / step * step)).take size |>.drop
      (before.length - before.length / step * step + run.length), ?_⟩
  rw [Nat.mul_comm] at hdiv
  have hdrop : (before ++ run ++ after).drop (before.length / step * step) =
      before.drop (before.length / step * step) ++ run ++ after := by
    rw [List.append_assoc, List.drop_append_of_le_length hle, List.append_assoc]
  have hfront : (before.drop (before.length / step * step) ++ run).length =
      before.length - before.length / step * step + run.length := by
    rw [List.length_append, List.length_drop]
  rw [hdrop, List.take_append, List.take_of_length_le (by omega), ← hfront, List.drop_left]

end Knowledge
