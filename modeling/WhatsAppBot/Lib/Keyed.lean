import Mathlib.Data.List.Nodup

/-!
# Tables that are written by upsert

A `Keyed col` holds rows that differ in the column `col`. `put` writes the row of a column value,
made from the one that is there or new; `update` changes a row that is there. `find_put` and
`find_update` say what they do to a lookup.
-/

set_option autoImplicit false

namespace Lib

variable {ρ κ : Type} [DecidableEq κ] {col : ρ → κ}

structure Keyed (col : ρ → κ) where
  rows : List ρ
  nodup : (rows.map col).Nodup

namespace Keyed

def find (t : Keyed col) (c : κ) : Option ρ := t.rows.find? (col · == c)

theorem map_col {rows : List ρ} {c : κ} {f : ρ → ρ} (hf : ∀ r, col r = c → col (f r) = c) :
    (rows.map fun r => if col r = c then f r else r).map col = rows.map col := by
  rw [List.map_map]
  refine List.map_congr_left fun r _ => ?_
  simp only [Function.comp_apply]
  split
  · rename_i hr
    rw [hf r hr, hr]
  · rfl

def update (t : Keyed col) (c : κ) (f : ρ → ρ) (hf : ∀ r, col r = c → col (f r) = c) : Keyed col where
  rows := t.rows.map fun r => if col r = c then f r else r
  nodup := by
    rw [map_col hf]
    exact t.nodup

def put (t : Keyed col) (c : κ) (new : ρ) (f : ρ → ρ) (hnew : col new = c)
    (hf : ∀ r, col r = c → col (f r) = c) : Keyed col :=
  if h : c ∈ t.rows.map col then t.update c f hf
  else ⟨t.rows ++ [new], by
    rw [List.map_append, List.nodup_append]
    refine ⟨t.nodup, by simp, fun a ha b hb => ?_⟩
    obtain rfl : b = c := by simpa [hnew] using hb
    exact fun heq => h (heq ▸ ha)⟩

variable {t : Keyed col} {r : ρ} {c d : κ} {f : ρ → ρ}

theorem find_eq_some : t.find c = some r ↔ r ∈ t.rows ∧ col r = c := by
  constructor
  · intro h
    exact ⟨List.mem_of_find?_eq_some h, by simpa using List.find?_some h⟩
  · rintro ⟨hr, rfl⟩
    cases hx : t.rows.find? (col · == col r) with
    | none => simpa using List.find?_eq_none.mp hx r hr
    | some x =>
      have heq : col x = col r := by simpa using List.find?_some hx
      rw [find, hx, List.inj_on_of_nodup_map t.nodup (List.mem_of_find?_eq_some hx) hr heq]

theorem find_eq_none : t.find c = none ↔ c ∉ t.rows.map col := by
  simp [find]

theorem find_update {hf : ∀ r, col r = c → col (f r) = c} :
    (t.update c f hf).find d = if d = c then (t.find c).map f else t.find d := by
  simp only [find, update, List.find?_map]
  have hcomp : (fun x => col x == d) ∘ (fun r => if col r = c then f r else r) =
      fun x => col x == d := by
    funext x
    simp only [Function.comp_apply]
    split
    · rename_i hx
      rw [hf x hx, hx]
    · rfl
  rw [hcomp]
  cases hx : t.rows.find? (col · == d) with
  | none =>
    split
    · rename_i hd
      rw [← hd, hx]
      rfl
    · rfl
  | some x =>
    have hcol : col x = d := by simpa using List.find?_some hx
    split
    · rename_i hd
      rw [← hd, hx, Option.map_some, Option.map_some, if_pos hcol]
    · rename_i hd
      rw [Option.map_some, if_neg (hcol ▸ hd)]

theorem find_put {new : ρ} {hnew : col new = c} {hf : ∀ r, col r = c → col (f r) = c} :
    (t.put c new f hnew hf).find d =
      if d = c then some (((t.find c).map f).getD new) else t.find d := by
  unfold put
  split
  · rename_i hc
    rw [find_update]
    split
    · cases hx : t.find c with
      | none => exact absurd hc (find_eq_none.mp hx)
      | some x => rfl
    · rfl
  · rename_i hc
    have hnone := find_eq_none.mpr hc
    rw [hnone]
    simp only [find, List.find?_append]
    split
    · rename_i hd
      rw [hd, ← find, hnone]
      simp [hnew]
    · rename_i hd
      have : ([new].find? fun x => col x == d) = none := by simp [hnew, Ne.symm hd]
      rw [this, Option.or_none]

end Keyed

end Lib
