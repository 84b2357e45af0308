import Mathlib.Data.List.Nodup

/-!
# Tables with a serial key and a unique column

A `Serial key col` numbers its rows by a sequence, which counts on when rows are deleted, and holds
no two rows with the same `col`: `insert` of such a row is refused. What each operation does to a
lookup by `col`: `lookup_insert`, `lookup_modify`, `lookup_modify_found`, `lookup_deleteWhere`.
-/

set_option autoImplicit false

namespace Lib

variable {ρ κ : Type} {key : ρ → Nat} {col : ρ → κ}

structure Serial (key : ρ → Nat) (col : ρ → κ) where
  rows : List ρ
  next : Nat
  keys : (rows.map key).Nodup
  cols : (rows.map col).Nodup
  below : ∀ r ∈ rows, key r < next

namespace Serial

def empty : Serial key col := ⟨[], 0, List.nodup_nil, List.nodup_nil, nofun⟩

def find (t : Serial key col) (k : Nat) : Option ρ := t.rows.find? (key · == k)

def lookup [DecidableEq κ] (t : Serial key col) (c : κ) : Option ρ := t.rows.find? (col · == c)

/-- `none` is the violated constraint. -/
def insert [DecidableEq κ] (t : Serial key col) (make : Nat → ρ) (hmake : ∀ n, key (make n) = n) :
    Option (Serial key col) :=
  if h : col (make t.next) ∈ t.rows.map col then none
  else some {
    rows := t.rows ++ [make t.next]
    next := t.next + 1
    keys := by
      rw [List.map_append, List.nodup_append]
      refine ⟨t.keys, by simp, fun a ha b hb => ?_⟩
      obtain ⟨r, hr, rfl⟩ := List.mem_map.mp ha
      obtain rfl : b = t.next := by simpa [hmake] using hb
      exact Nat.ne_of_lt (t.below r hr)
    cols := by
      rw [List.map_append, List.nodup_append]
      refine ⟨t.cols, by simp, fun a ha b hb => ?_⟩
      obtain rfl : b = col (make t.next) := by simpa using hb
      exact fun heq => h (heq ▸ ha)
    below := by
      intro r hr
      rcases List.mem_append.mp hr with hr | hr
      · exact Nat.lt_succ_of_lt (t.below r hr)
      · obtain rfl := List.mem_singleton.mp hr
        rw [hmake]
        exact Nat.lt_succ_self _ }

def modify (t : Serial key col) (k : Nat) (f : ρ → ρ) (hkey : ∀ r, key (f r) = key r)
    (hcol : ∀ r, col (f r) = col r) : Serial key col where
  rows := t.rows.map fun r => if key r = k then f r else r
  next := t.next
  keys := by
    rw [List.map_map]
    convert t.keys using 1
    exact List.map_congr_left fun r _ => by simp only [Function.comp_apply]; split <;> simp [hkey]
  cols := by
    rw [List.map_map]
    convert t.cols using 1
    exact List.map_congr_left fun r _ => by simp only [Function.comp_apply]; split <;> simp [hcol]
  below := by
    intro r hr
    obtain ⟨x, hx, rfl⟩ := List.mem_map.mp hr
    have := t.below x hx
    split <;> simpa [hkey]

/-- `DELETE ... WHERE key IN ks`. -/
def deleteAll (t : Serial key col) (ks : List Nat) : Serial key col where
  rows := t.rows.filter fun r => key r ∉ ks
  next := t.next
  keys := t.keys.sublist (List.filter_sublist.map key)
  cols := t.cols.sublist (List.filter_sublist.map col)
  below := fun r hr => t.below r (List.mem_of_mem_filter hr)

variable {t t' : Serial key col} {r : ρ} {k : Nat} {c : κ}

/-- Under a unique function, the search for a value finds the row that has it. -/
theorem find?_eq_some_iff {β : Type} [DecidableEq β] {f : ρ → β} {rows : List ρ} {b : β}
    (hf : (rows.map f).Nodup) : rows.find? (f · == b) = some r ↔ r ∈ rows ∧ f r = b := by
  constructor
  · intro h
    exact ⟨List.mem_of_find?_eq_some h, by simpa using List.find?_some h⟩
  · rintro ⟨hr, rfl⟩
    cases hx : rows.find? (f · == f r) with
    | none => simpa using List.find?_eq_none.mp hx r hr
    | some x =>
      have heq : f x = f r := by simpa using List.find?_some hx
      rw [List.inj_on_of_nodup_map hf (List.mem_of_find?_eq_some hx) hr heq]

theorem find_eq_some : t.find k = some r ↔ r ∈ t.rows ∧ key r = k := find?_eq_some_iff t.keys

section

variable [DecidableEq κ]

theorem lookup_eq_some : t.lookup c = some r ↔ r ∈ t.rows ∧ col r = c := find?_eq_some_iff t.cols

theorem lookup_eq_none : t.lookup c = none ↔ c ∉ t.rows.map col := by
  simp [lookup]

variable {make : Nat → ρ} {hmake : ∀ n, key (make n) = n}

theorem insert_eq_none : t.insert make hmake = none ↔ t.lookup (col (make t.next)) ≠ none := by
  rw [Ne, lookup_eq_none, not_not, insert]
  split <;> simp [*]

theorem lookup_insert (h : t.insert make hmake = some t') (c : κ) :
    t'.lookup c = if c = col (make t.next) then some (make t.next) else t.lookup c := by
  unfold insert at h
  split at h
  · cases h
  · rename_i hnew
    obtain rfl := Option.some.inj h
    simp only [lookup, List.find?_append]
    split
    · rename_i hc
      subst hc
      have hnone : t.lookup (col (make t.next)) = none := lookup_eq_none.mpr hnew
      rw [lookup] at hnone
      simp [hnone]
    · rename_i hne
      simp [Ne.symm hne]

theorem lookup_modify {f : ρ → ρ} {hkey : ∀ r, key (f r) = key r} {hcol : ∀ r, col (f r) = col r} :
    (t.modify k f hkey hcol).lookup c =
      (t.lookup c).map fun r => if key r = k then f r else r := by
  simp only [lookup, modify, List.find?_map]
  congr 2
  funext x
  simp only [Function.comp_apply]
  split <;> simp [hcol]

/-- A change of the row found under `c`. -/
theorem lookup_modify_found {f : ρ → ρ} {hkey : ∀ r, key (f r) = key r}
    {hcol : ∀ r, col (f r) = col r} (h : t.lookup c = some r) (d : κ) :
    (t.modify (key r) f hkey hcol).lookup d = if d = c then some (f r) else t.lookup d := by
  obtain ⟨hr, rfl⟩ := lookup_eq_some.mp h
  rw [lookup_modify]
  split
  · rename_i hd
    subst hd
    simp [h]
  · rename_i hd
    cases hx : t.lookup d with
    | none => rfl
    | some x =>
      obtain ⟨hmem, rfl⟩ := lookup_eq_some.mp hx
      have hne : key x ≠ key r := fun heq =>
        hd (congrArg col (List.inj_on_of_nodup_map t.keys hmem hr heq))
      simp [hne]

/-- Deleting by the keys of the rows that satisfy `p` deletes these rows. -/
theorem lookup_deleteWhere (p : ρ → Bool) :
    (t.deleteAll ((t.rows.filter p).map key)).lookup c = (t.lookup c).filter fun r => !p r := by
  have hkeys : ∀ {r}, r ∈ t.rows → (key r ∈ (t.rows.filter p).map key ↔ p r = true) := by
    intro r hr
    constructor
    · intro h
      obtain ⟨x, hx, heq⟩ := List.mem_map.mp h
      obtain ⟨hmem, hp⟩ := List.mem_filter.mp hx
      exact List.inj_on_of_nodup_map t.keys hmem hr heq ▸ hp
    · intro hp
      exact List.mem_map_of_mem (List.mem_filter.mpr ⟨hr, hp⟩)
  ext r
  rw [lookup_eq_some, Option.filter_eq_some_iff, lookup_eq_some, deleteAll]
  dsimp only
  rw [List.mem_filter, decide_eq_true_iff, Bool.not_eq_true', ← Bool.not_eq_true]
  constructor
  · rintro ⟨⟨hr, hnot⟩, hc⟩
    exact ⟨⟨hr, hc⟩, fun hp => hnot ((hkeys hr).mpr hp)⟩
  · rintro ⟨⟨hr, hc⟩, hnot⟩
    exact ⟨⟨hr, fun hk => hnot ((hkeys hr).mp hk)⟩, hc⟩

end

end Serial

end Lib
