import Mathlib.Data.List.Nodup

/-!
# Tables with a primary key

A `Table key` holds rows with pairwise distinct keys; the proof travels with it. `find` looks a key
up, `insert` adds a row whose key is new, `modify` changes the row under a key and keeps the key,
`remove` deletes the row under a key.
-/

set_option autoImplicit false

namespace Lib

variable {ρ : Type} {key : ρ → Nat}

structure Table (key : ρ → Nat) where
  rows : List ρ
  nodup : (rows.map key).Nodup

namespace Table

def empty : Table key := ⟨[], List.nodup_nil⟩

def find (t : Table key) (k : Nat) : Option ρ := t.rows.find? fun r => key r == k

def insert (t : Table key) (r : ρ) : Table key :=
  if h : key r ∈ t.rows.map key then t
  else ⟨t.rows ++ [r], by
    rw [List.map_append, List.nodup_append]
    refine ⟨t.nodup, by simp, fun a ha b hb => ?_⟩
    rintro rfl
    simp only [List.map_cons, List.map_nil, List.mem_singleton] at hb
    exact h (hb ▸ ha)⟩

def modify (t : Table key) (k : Nat) (f : ρ → ρ) (hf : ∀ r, key (f r) = key r) : Table key :=
  ⟨t.rows.map fun r => if key r = k then f r else r, by
    have hkey : (t.rows.map fun r => if key r = k then f r else r).map key = t.rows.map key := by
      rw [List.map_map]
      refine List.map_congr_left fun r _ => ?_
      simp only [Function.comp_apply]
      split <;> simp [hf]
    rw [hkey]
    exact t.nodup⟩

def remove (t : Table key) (k : Nat) : Table key :=
  ⟨t.rows.filter fun r => key r ≠ k, t.nodup.sublist (List.filter_sublist.map key)⟩

variable {t : Table key} {r : ρ} {k j : Nat}

theorem find_some (h : t.find k = some r) : r ∈ t.rows ∧ key r = k :=
  ⟨List.mem_of_find?_eq_some h, by simpa using List.find?_some h⟩

theorem find_of_mem (h : r ∈ t.rows) : t.find (key r) = some r := by
  obtain ⟨rows, hnd⟩ := t
  unfold find
  dsimp only at h ⊢
  induction rows with
  | nil => cases h
  | cons x xs ih =>
    rw [List.map_cons, List.nodup_cons] at hnd
    rcases List.mem_cons.mp h with rfl | hr
    · simp
    · have hne : key x ≠ key r := fun he => hnd.1 (he ▸ List.mem_map_of_mem hr)
      simp [hne, ih hnd.2 hr]

theorem mem_keys : k ∈ t.rows.map key ↔ ∃ r, t.find k = some r := by
  constructor
  · intro h
    obtain ⟨r, hr, rfl⟩ := List.mem_map.mp h
    exact ⟨r, find_of_mem hr⟩
  · rintro ⟨r, hr⟩
    obtain ⟨hmem, rfl⟩ := find_some hr
    exact List.mem_map_of_mem hmem

theorem find_insert (t : Table key) (r : ρ) (k : Nat) :
    (t.insert r).find k = (t.find k).or (if key r = k then some r else none) := by
  unfold insert
  split
  · rename_i h
    by_cases hk : key r = k
    · subst hk
      obtain ⟨x, hx⟩ := mem_keys.mp h
      simp [hx]
    · simp [hk]
  · simp only [find, List.find?_append]
    by_cases hk : key r = k <;> simp [hk]

theorem find_modify (t : Table key) (k : Nat) (f : ρ → ρ) (hf : ∀ r, key (f r) = key r) (j : Nat) :
    (t.modify k f hf).find j = if j = k then (t.find j).map f else t.find j := by
  unfold modify find
  dsimp only
  rw [List.find?_map]
  have hcomp : (fun x => key x == j) ∘ (fun r => if key r = k then f r else r) =
      fun x => key x == j := by
    funext x
    simp only [Function.comp_apply]
    split <;> simp [hf]
  rw [hcomp]
  cases hfind : t.rows.find? (fun x => key x == j) with
  | none => simp
  | some x =>
    have hx : key x = j := by simpa using List.find?_some hfind
    simp only [Option.map_some, hx]
    split <;> rfl

theorem mem_insert {x : ρ} (h : x ∈ (t.insert r).rows) : x ∈ t.rows ∨ x = r := by
  unfold insert at h
  split at h
  · exact .inl h
  · simpa using h

theorem mem_modify {f : ρ → ρ} {hf : ∀ r, key (f r) = key r} {x : ρ}
    (h : x ∈ (t.modify k f hf).rows) : x ∈ t.rows ∨ ∃ y ∈ t.rows, key y = k ∧ x = f y := by
  simp only [modify, List.mem_map] at h
  obtain ⟨y, hy, rfl⟩ := h
  split
  · rename_i hk; exact .inr ⟨y, hy, hk, rfl⟩
  · exact .inl hy

/-- A change of one row counts for one. -/
theorem countP_modify_le (t : Table key) (k : Nat) (f : ρ → ρ) (hf : ∀ r, key (f r) = key r)
    (p : ρ → Bool) : (t.modify k f hf).rows.countP p ≤ t.rows.countP p + 1 := by
  obtain ⟨rows, hnd⟩ := t
  unfold modify
  dsimp only
  induction rows with
  | nil => simp
  | cons x xs ih =>
    rw [List.map_cons, List.nodup_cons] at hnd
    have hx := ih hnd.2
    by_cases hk : key x = k
    · -- the others have other keys
      have hrest : (xs.map fun r => if key r = k then f r else r) = xs := by
        refine List.map_congr_left (g := id) (fun r hr => ?_) |>.trans (List.map_id xs)
        rw [if_neg fun hrk => hnd.1 (List.mem_map.mpr ⟨r, hr, hrk.trans hk.symm⟩)]
        rfl
      have hone : (if p (f x) = true then 1 else 0) ≤ 1 := by split <;> omega
      rw [List.map_cons, hrest, if_pos hk, List.countP_cons, List.countP_cons]
      omega
    · rw [List.map_cons, if_neg hk, List.countP_cons, List.countP_cons]
      omega

end Table

end Lib
