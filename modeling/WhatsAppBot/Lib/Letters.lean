import Mathlib.Data.List.Basic

/-!
# Upper and lower case

`Char.toLower` changes the letters of ASCII only. `str.lower` (`Lowercase`) does so for all
characters; of what it makes of those outside ASCII, only that it is no punctuation is said.
-/

set_option autoImplicit false

namespace Lib

/-- A text as a list of characters. -/
abbrev Chars := List Char

theorem toLower_cases (c : Char) : c.toLower = c ∨ ∃ n < 26, c = Char.ofNat (65 + n) := by
  by_cases h : c.val ≥ 'A'.val ∧ c.val ≤ 'Z'.val
  · have hlo : 65 ≤ c.toNat := UInt32.le_iff_toNat_le.mp h.1
    have hhi : c.toNat ≤ 90 := UInt32.le_iff_toNat_le.mp h.2
    refine .inr ⟨c.toNat - 65, by omega, ?_⟩
    rw [show 65 + (c.toNat - 65) = c.toNat by omega, Char.ofNat_toNat]
  · exact .inl (dif_neg h)

/-- What does not tell the 26 capitals from their small letters does not see the case. -/
theorem apply_toLower {β : Type} {f : Char → β}
    (h : ∀ n < 26, f (Char.ofNat (65 + n)).toLower = f (Char.ofNat (65 + n))) (c : Char) :
    f c.toLower = f c := by
  rcases toLower_cases c with heq | ⟨n, hn, rfl⟩
  · rw [heq]
  · exact h n hn

theorem toLower_toLower (c : Char) : c.toLower.toLower = c.toLower := apply_toLower (by decide) c

theorem isAlpha_toLower (c : Char) : c.toLower.isAlpha = c.isAlpha := apply_toLower (by decide) c

/-- A character that is no letter keeps apart from the letters. -/
theorem toLower_eq_iff {d : Char} (hd : d.isAlpha = false) (c : Char) : c.toLower = d ↔ c = d := by
  have hcapital : ∀ n < 26, (Char.ofNat (65 + n)).isAlpha = true := by decide
  rcases toLower_cases c with h | ⟨n, hn, rfl⟩
  · rw [h]
  · constructor
    · rintro rfl
      rw [isAlpha_toLower, hcapital n hn] at hd
      cases hd
    · rintro rfl
      rw [hcapital n hn] at hd
      cases hd

theorem toLower_of_isDigit {c : Char} (h : c.isDigit = true) : c.toLower = c := by
  have hcapital : ∀ n < 26, (Char.ofNat (65 + n)).isDigit = false := by decide
  rcases toLower_cases c with heq | ⟨n, hn, rfl⟩
  · exact heq
  · rw [hcapital n hn] at h
    cases h

/-! ## All characters -/

/-- The characters that NFKC takes to a text with one of `/?#@:` in it. -/
def expands : Chars :=
  ['⁇', '⁈', '⁉', '℀', '℁', '℅', '℆', '⩴', '︓', '︖', '﹕', '﹖', '﹟', '﹫', '＃', '／', '：', '？', '＠']

/-- What a character becomes: outside ASCII it stays, or becomes letters and marks. -/
def Lowers (c : Char) (w : Chars) : Prop :=
  if c.toNat < 128 then w = [c.toLower]
  else w ≠ [] ∧ ∀ d ∈ w, d = c ∨ (d.toNat < 128 → d.isAlpha = true) ∧ d ∉ expands

inductive LowersTo : Chars → Chars → Prop
  | nil : LowersTo [] []
  | cons {c : Char} {w s t : Chars} : Lowers c w → LowersTo s t → LowersTo (c :: s) (w ++ t)

/-- `str.lower`. What a letter becomes may depend on its place. -/
structure Lowercase where
  lower : Chars → Chars
  lowersTo : ∀ s, LowersTo s (lower s)
  idem : ∀ s, lower (lower s) = lower s

variable (L : Lowercase) {c d : Char} {w s t u : Chars}

theorem Lowers.ne_nil (h : Lowers c w) : w ≠ [] := by
  unfold Lowers at h
  split at h
  · rw [h]
    exact List.cons_ne_nil _ _
  · exact h.1

theorem Lowers.eq_of_mem (h : Lowers c w) (hd : d ∈ w)
    (hplain : d.toNat < 128 ∧ d.isAlpha = false ∨ d ∈ expands) : d = c := by
  unfold Lowers at h
  split at h
  · rename_i hascii
    obtain rfl : d = c.toLower := by simpa [h] using hd
    rcases toLower_cases c with heq | ⟨n, hn, rfl⟩
    · exact heq
    · have hcapital : ∀ n < 26, (Char.ofNat (65 + n)).toLower.isAlpha = true ∧
          (Char.ofNat (65 + n)).toLower ∉ expands := by decide
      rcases hplain with ⟨-, halpha⟩ | hexpands
      · rw [(hcapital n hn).1] at halpha
        cases halpha
      · exact absurd hexpands (hcapital n hn).2
  · rcases h.2 d hd with rfl | ⟨hletter, hexpands⟩
    · rfl
    · rcases hplain with ⟨hascii, halpha⟩ | hexpands'
      · rw [hletter hascii] at halpha
        cases halpha
      · exact absurd hexpands' hexpands

namespace LowersTo

theorem mem (h : LowersTo s t) (hd : d ∈ t)
    (hplain : d.toNat < 128 ∧ d.isAlpha = false ∨ d ∈ expands) : d ∈ s := by
  induction h with
  | nil => exact hd
  | cons hw _ ih =>
    rcases List.mem_append.mp hd with hd | hd
    · exact hw.eq_of_mem hd hplain ▸ List.mem_cons_self
    · exact List.mem_cons_of_mem _ (ih hd)

/-- ASCII in front is taken by itself. -/
theorem append_left (hs : ∀ c ∈ s, c.toNat < 128) (h : LowersTo (s ++ t) u) :
    ∃ t', u = s.map Char.toLower ++ t' ∧ LowersTo t t' := by
  induction s generalizing u with
  | nil => exact ⟨u, rfl, h⟩
  | cons c s ih =>
    cases h with
    | cons hw h =>
      rw [Lowers, if_pos (hs c List.mem_cons_self)] at hw
      obtain ⟨t', rfl, ht⟩ := ih (fun d hd => hs d (List.mem_cons_of_mem _ hd)) h
      exact ⟨t', by rw [hw]; rfl, ht⟩

theorem nil_iff (h : LowersTo s t) : t = [] ↔ s = [] := by
  cases h with
  | nil => exact Iff.rfl
  | cons hw h =>
    exact iff_of_false (fun heq => hw.ne_nil (List.append_eq_nil_iff.mp heq).1)
      (List.cons_ne_nil _ _)

theorem mem_of_plain (h : LowersTo s t) (hd : d ∈ s) (hascii : d.toNat < 128)
    (halpha : d.isAlpha = false) : d ∈ t := by
  induction h with
  | nil => exact hd
  | cons hw _ ih =>
    rcases List.mem_cons.mp hd with rfl | hd
    · rw [Lowers, if_pos hascii] at hw
      rw [hw, (toLower_eq_iff halpha _).mpr rfl]
      exact List.mem_cons_self
    · exact List.mem_append_right _ (ih hd)

end LowersTo

namespace Lowercase

/-- Punctuation stays. -/
theorem mem_lower_iff (hascii : d.toNat < 128) (halpha : d.isAlpha = false) :
    d ∈ L.lower s ↔ d ∈ s :=
  ⟨fun h => (L.lowersTo s).mem h (.inl ⟨hascii, halpha⟩),
    fun h => (L.lowersTo s).mem_of_plain h hascii halpha⟩

theorem lower_ascii (hs : ∀ c ∈ s, c.toNat < 128) : L.lower s = s.map Char.toLower := by
  have h := L.lowersTo (s ++ [])
  obtain ⟨t, heq, ht⟩ := h.append_left hs
  rw [List.append_nil, ht.nil_iff.mpr rfl, List.append_nil] at heq
  exact heq

end Lowercase

/-- Lower case for texts in ASCII; what is not, stays. -/
def asciiLowercase : Lowercase where
  lower s := s.map Char.toLower
  lowersTo s := by
    induction s with
    | nil => exact .nil
    | cons c s ih =>
      refine .cons (w := [c.toLower]) ?_ ih
      unfold Lowers
      split
      · rfl
      · rename_i hascii
        refine ⟨List.cons_ne_nil _ _, fun d hd => .inl ?_⟩
        rw [List.mem_singleton.mp hd]
        rcases toLower_cases c with heq | ⟨n, hn, rfl⟩
        · exact heq
        · have hcapital : ∀ n < 26, (Char.ofNat (65 + n)).toNat < 128 := by decide
          exact absurd (hcapital n hn) hascii
  idem s := by
    rw [List.map_map]
    exact congrArg (fun f => s.map f) (funext toLower_toLower)

end Lib
