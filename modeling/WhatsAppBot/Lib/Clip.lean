import Mathlib.Algebra.GroupWithZero.Nat
import Mathlib.Algebra.BigOperators.Group.List.Basic
import Mathlib.Data.List.Infix

/-!
# Clipping to a budget

`clip size n xs` is the longest prefix of `xs` whose elements take up at most `n` together
(`clip_start`, `clip_fits`, `prefix_clip`); `clip_eq_self_iff` says when nothing is cut.

`decodeUtf8` reads bytes as a lenient decoder does: what is not a character is left out. Cutting an
encoded text at `n` bytes and reading the rest back is `clip` by the size of a character
(`decodeUtf8_take`): the cut never leaves part of a character behind.
-/

set_option autoImplicit false

namespace Lib

variable {α : Type} {size : α → Nat} {n : Nat} {xs ys : List α}

def clip (size : α → Nat) : Nat → List α → List α
  | _, [] => []
  | n, x :: xs => if size x ≤ n then x :: clip size (n - size x) xs else []

theorem clip_cons_of_le {x : α} (h : size x ≤ n) :
    clip size n (x :: xs) = x :: clip size (n - size x) xs := by
  rw [clip, if_pos h]

theorem clip_cons_of_lt {x : α} (h : n < size x) : clip size n (x :: xs) = [] := by
  rw [clip, if_neg (by omega)]

theorem clip_start (size : α → Nat) (n : Nat) (xs : List α) : clip size n xs <+: xs := by
  induction xs generalizing n with
  | nil => exact List.prefix_rfl
  | cons x xs ih =>
    by_cases hx : size x ≤ n
    · rw [clip_cons_of_le hx, List.cons_prefix_cons]
      exact ⟨rfl, ih _⟩
    · rw [clip_cons_of_lt (by omega)]
      exact List.nil_prefix

theorem clip_fits (size : α → Nat) (n : Nat) (xs : List α) :
    ((clip size n xs).map size).sum ≤ n := by
  induction xs generalizing n with
  | nil => exact Nat.zero_le n
  | cons x xs ih =>
    by_cases hx : size x ≤ n
    · have hrest := ih (n - size x)
      rw [clip_cons_of_le hx, List.map_cons, List.sum_cons]
      omega
    · rw [clip_cons_of_lt (by omega)]
      exact Nat.zero_le n

/-- Every prefix that fits is within the clipped one. -/
theorem prefix_clip (hpre : ys <+: xs) (hfits : (ys.map size).sum ≤ n) : ys <+: clip size n xs := by
  induction xs generalizing n ys with
  | nil => exact hpre
  | cons x xs ih =>
    cases ys with
    | nil => exact List.nil_prefix
    | cons y ys =>
      obtain ⟨rfl, htail⟩ := List.cons_prefix_cons.mp hpre
      rw [List.map_cons, List.sum_cons] at hfits
      rw [clip_cons_of_le (by omega), List.cons_prefix_cons]
      exact ⟨rfl, ih htail (by omega)⟩

theorem clip_eq_self_iff : clip size n xs = xs ↔ (xs.map size).sum ≤ n := by
  constructor
  · intro h
    have hfits := clip_fits size n xs
    rw [h] at hfits
    exact hfits
  · intro h
    exact (clip_start size n xs).eq_of_length_le (prefix_clip List.prefix_rfl h).length_le

/-- Where every element takes up one, `n` of them remain. -/
theorem clip_one (n : Nat) (xs : List α) : clip (fun _ => 1) n xs = xs.take n := by
  induction xs generalizing n with
  | nil => exact List.take_nil.symm
  | cons x xs ih =>
    cases n with
    | zero => exact clip_cons_of_lt Nat.zero_lt_one
    | succ n => rw [clip_cons_of_le (by omega), Nat.add_sub_cancel, ih, List.take_succ_cons]

/-! ## Bytes -/

def encodeUtf8 (cs : List Char) : List UInt8 := cs.flatMap String.utf8EncodeChar

/-- A byte at which no character starts is skipped. -/
def decodeUtf8 : List UInt8 → List Char
  | [] => []
  | b :: bs =>
    match (b :: bs).toByteArray.utf8DecodeChar? 0 with
    | some c => c :: decodeUtf8 (bs.drop (c.utf8Size - 1))
    | none => decodeUtf8 bs
termination_by bs => bs.length

theorem toByteArray_eq_append {bs cs : List UInt8} {l : ByteArray}
    (h : bs.toByteArray = cs.toByteArray ++ l) : bs = cs ++ l.data.toList := by
  have hdata := congrArg (fun b : ByteArray => b.data.toList) h
  simpa using hdata

theorem toByteArray_append (bs cs : List UInt8) :
    (bs ++ cs).toByteArray = bs.toByteArray ++ cs.toByteArray := by
  simp

/-- A character that decodes is encoded there. -/
theorem encoded_of_decode {bs : List UInt8} {c : Char}
    (h : bs.toByteArray.utf8DecodeChar? 0 = some c) : String.utf8EncodeChar c <+: bs := by
  obtain ⟨l, hl⟩ := ByteArray.exists_of_utf8DecodeChar?_eq_some h
  exact ⟨l.data.toList, (toByteArray_eq_append hl).symm⟩

theorem decode_encoded (c : Char) (bs : List UInt8) :
    (String.utf8EncodeChar c ++ bs).toByteArray.utf8DecodeChar? 0 = some c := by
  rw [toByteArray_append]
  exact ByteArray.utf8DecodeChar?_utf8EncodeChar_append

theorem decodeUtf8_encoded (c : Char) (bs : List UInt8) :
    decodeUtf8 (String.utf8EncodeChar c ++ bs) = c :: decodeUtf8 bs := by
  have hdecode := decode_encoded c bs
  have hlen := String.length_utf8EncodeChar c
  have hpos := c.utf8Size_pos
  cases hc : String.utf8EncodeChar c with
  | nil => rw [hc] at hlen; simp at hlen; omega
  | cons b rest =>
    rw [hc, List.cons_append] at hdecode
    rw [hc, List.length_cons] at hlen
    rw [List.cons_append, decodeUtf8, hdecode]
    have hdrop : (rest ++ bs).drop (c.utf8Size - 1) = bs :=
      List.drop_left' (by omega)
    simp only [hdrop]

/-- Inside an encoded character no other one starts. -/
theorem no_start_inside {c d : Char} {k : Nat} (hk : 0 < k) {bs : List UInt8}
    (hpre : bs <+: (String.utf8EncodeChar c).drop k) :
    bs.toByteArray.utf8DecodeChar? 0 ≠ some d := by
  intro h
  have hd : String.utf8EncodeChar d <+: (String.utf8EncodeChar c).drop k :=
    (encoded_of_decode h).trans hpre
  have hpos : 0 < (String.utf8EncodeChar d).length := by
    rw [String.length_utf8EncodeChar]
    exact d.utf8Size_pos
  have hfirst := UInt8.isUTF8FirstByte_getElem_zero_utf8EncodeChar (c := d)
  rw [hd.getElem hpos, List.getElem_drop, UInt8.isUTF8FirstByte_getElem_utf8EncodeChar] at hfirst
  omega

theorem prefix_drop_succ {x : α} {k : Nat} (h : x :: xs <+: ys.drop k) :
    xs <+: ys.drop (k + 1) := by
  obtain ⟨zs, hzs⟩ := h
  refine ⟨zs, ?_⟩
  rw [← List.tail_drop, ← hzs]
  rfl

/-- What is left of a character that was cut is no character. -/
theorem decodeUtf8_inside {c : Char} {k : Nat} (hk : 0 < k) {bs : List UInt8}
    (hpre : bs <+: (String.utf8EncodeChar c).drop k) : decodeUtf8 bs = [] := by
  induction bs generalizing k with
  | nil => rw [decodeUtf8]
  | cons b bs ih =>
    rw [decodeUtf8]
    cases hd : (b :: bs).toByteArray.utf8DecodeChar? 0 with
    | some d => exact absurd hd (no_start_inside hk hpre)
    | none => exact ih (Nat.succ_pos k) (prefix_drop_succ hpre)

theorem decodeUtf8_cut {c : Char} (h : n < c.utf8Size) :
    decodeUtf8 ((String.utf8EncodeChar c).take n) = [] := by
  cases hcut : (String.utf8EncodeChar c).take n with
  | nil => rw [decodeUtf8]
  | cons b bs =>
    have hpre : b :: bs <+: String.utf8EncodeChar c := hcut ▸ List.take_prefix n _
    rw [decodeUtf8]
    cases hd : (b :: bs).toByteArray.utf8DecodeChar? 0 with
    | some d =>
      -- the character would be `c` itself, of which there are too few bytes
      have hshort : d.utf8Size ≤ n := by
        have hle := (encoded_of_decode hd).length_le
        rw [← hcut, String.length_utf8EncodeChar, List.length_take] at hle
        omega
      obtain ⟨l, hl⟩ := (encoded_of_decode hd).trans hpre
      have hc := decode_encoded c []
      rw [List.append_nil, ← hl, decode_encoded d l] at hc
      obtain rfl := Option.some.inj hc
      omega
    | none => exact decodeUtf8_inside Nat.zero_lt_one (prefix_drop_succ (k := 0) hpre)

/-- **A cut at `n` bytes** leaves the characters that fit into them. -/
theorem decodeUtf8_take (n : Nat) (cs : List Char) :
    decodeUtf8 ((encodeUtf8 cs).take n) = clip Char.utf8Size n cs := by
  induction cs generalizing n with
  | nil => simp [encodeUtf8, clip, decodeUtf8]
  | cons c cs ih =>
    have hlen := String.length_utf8EncodeChar c
    rw [encodeUtf8, List.flatMap_cons]
    by_cases hc : c.utf8Size ≤ n
    · rw [List.take_append, List.take_of_length_le (by omega), hlen, decodeUtf8_encoded,
        clip_cons_of_le hc, ← ih (n - c.utf8Size)]
      rfl
    · rw [List.take_append_of_le_length (by omega), decodeUtf8_cut (by omega),
        clip_cons_of_lt (by omega)]

theorem length_encodeUtf8 (cs : List Char) :
    (encodeUtf8 cs).length = (cs.map Char.utf8Size).sum := by
  simp [encodeUtf8, List.length_flatMap]

end Lib
