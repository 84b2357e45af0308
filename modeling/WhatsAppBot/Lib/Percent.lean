import WhatsAppBot.Lib.Clip

/-!
# Percent-encoding

`quote` writes every byte of a text that is not unreserved as `%XX`; `unquoteToBytes` reads the
bytes back (`unquoteToBytes_quote`).
-/

set_option autoImplicit false

namespace Lib

/-- `_ALWAYS_SAFE`. -/
def isUnreserved (c : Char) : Bool :=
  c.isAlphanum || c == '_' || c == '.' || c == '-' || c == '~'

def upperHex (n : Nat) : Char := (Nat.digitChar n).toUpper

def quoteByte (b : UInt8) : List Char :=
  if isUnreserved (Char.ofNat b.toNat) && b < 128 then [Char.ofNat b.toNat]
  else ['%', upperHex (b.toNat / 16), upperHex (b.toNat % 16)]

/-- `quote(s, safe='')`. -/
def quote (s : List Char) : List Char := (encodeUtf8 s).flatMap quoteByte

/-- The value of a hexadecimal digit. -/
def hexValue (b : UInt8) : Option Nat :=
  if 48 ≤ b ∧ b ≤ 57 then some (b.toNat - 48)
  else if 65 ≤ b ∧ b ≤ 70 then some (b.toNat - 55)
  else if 97 ≤ b ∧ b ≤ 102 then some (b.toNat - 87)
  else none

/-- `unquote_to_bytes`, of the encoded text: a `%` without two digits after it stays. -/
def unquoteToBytes : List UInt8 → List UInt8
  | [] => []
  | b :: bs =>
    if b = 37 then
      match bs with
      | x :: y :: rest =>
        match hexValue x, hexValue y with
        | some hi, some lo => UInt8.ofNat (16 * hi + lo) :: unquoteToBytes rest
        | _, _ => b :: unquoteToBytes (x :: y :: rest)
      | [x] => [b, x]
      | [] => [b]
    else b :: unquoteToBytes bs

variable {b : UInt8} {bs : List UInt8} {c : Char} {s : List Char}

theorem encodeUtf8_append (s t : List Char) : encodeUtf8 (s ++ t) = encodeUtf8 s ++ encodeUtf8 t :=
  List.flatMap_append

theorem encodeUtf8_eq_nil_iff : encodeUtf8 s = [] ↔ s = [] := by
  constructor
  · intro h
    cases s with
    | nil => rfl
    | cons c s => exact absurd (List.append_eq_nil_iff.mp h).1 String.utf8EncodeChar_ne_nil
  · rintro rfl
    rfl

/-! ## Reading back -/

theorem unquoteToBytes_of_ne (h : b ≠ 37) : unquoteToBytes (b :: bs) = b :: unquoteToBytes bs := by
  cases bs with
  | nil => simp [unquoteToBytes, h]
  | cons x bs => cases bs <;> simp [unquoteToBytes, h]

theorem unquoteToBytes_escape {x y : UInt8} {hi lo : Nat} (hx : hexValue x = some hi)
    (hy : hexValue y = some lo) :
    unquoteToBytes (37 :: x :: y :: bs) = UInt8.ofNat (16 * hi + lo) :: unquoteToBytes bs := by
  simp [unquoteToBytes, hx, hy]

theorem unquoteToBytes_ne_nil (h : bs ≠ []) : unquoteToBytes bs ≠ [] := by
  fun_cases unquoteToBytes bs <;> simp_all

theorem encode_upperHex (n : Nat) (h : n < 16) :
    ∃ x, String.utf8EncodeChar (upperHex n) = [x] ∧ hexValue x = some n := by
  have hdigit : ∀ n < 16, String.utf8EncodeChar (upperHex n) = [UInt8.ofNat (upperHex n).toNat] ∧
      hexValue (UInt8.ofNat (upperHex n).toNat) = some n := by decide
  exact ⟨_, hdigit n h⟩

theorem encode_ofNat : ∀ n < 128, String.utf8EncodeChar (Char.ofNat n) = [UInt8.ofNat n] := by
  decide

theorem isUnreserved_upperHex : ∀ n < 16, isUnreserved (upperHex n) = true := by decide

theorem quoteByte_ne_nil (b : UInt8) : quoteByte b ≠ [] := by
  unfold quoteByte
  split <;> exact List.cons_ne_nil _ _

theorem unquoteToBytes_quoteByte (b : UInt8) (bs : List UInt8) :
    unquoteToBytes (encodeUtf8 (quoteByte b) ++ bs) = b :: unquoteToBytes bs := by
  unfold quoteByte
  split
  · rename_i hsafe
    rw [Bool.and_eq_true, decide_eq_true_eq] at hsafe
    have hencoded : encodeUtf8 [Char.ofNat b.toNat] = [b] := by
      rw [encodeUtf8, List.flatMap_singleton, encode_ofNat _ (UInt8.lt_iff_toNat_lt.mp hsafe.2),
        UInt8.ofNat_toNat]
    rw [hencoded]
    refine unquoteToBytes_of_ne ?_
    rintro rfl
    exact absurd hsafe.1 (by decide)
  · have hlt := b.toNat_lt
    obtain ⟨x, hx, hhi⟩ := encode_upperHex (b.toNat / 16) (by omega)
    obtain ⟨y, hy, hlo⟩ := encode_upperHex (b.toNat % 16) (by omega)
    have hpercent : String.utf8EncodeChar '%' = [37] := by decide
    have hencoded : encodeUtf8 ['%', upperHex (b.toNat / 16), upperHex (b.toNat % 16)] =
        [37, x, y] := by
      simp [encodeUtf8, hpercent, hx, hy]
    rw [hencoded]
    refine (unquoteToBytes_escape hhi hlo).trans ?_
    rw [show 16 * (b.toNat / 16) + b.toNat % 16 = b.toNat by omega, UInt8.ofNat_toNat]
    rfl

/-- **What is quoted reads back.** -/
theorem unquoteToBytes_quote (s : List Char) :
    unquoteToBytes (encodeUtf8 (quote s)) = encodeUtf8 s := by
  unfold quote
  induction encodeUtf8 s with
  | nil => rfl
  | cons b bs ih => rw [List.flatMap_cons, encodeUtf8_append, unquoteToBytes_quoteByte, ih]

theorem quote_ne_nil (h : s ≠ []) : quote s ≠ [] := by
  obtain ⟨b, bs, hbytes⟩ := List.exists_cons_of_ne_nil fun hnil => h (encodeUtf8_eq_nil_iff.mp hnil)
  rw [quote, hbytes, List.flatMap_cons]
  exact fun hnil => quoteByte_ne_nil b (List.append_eq_nil_iff.mp hnil).1

/-- A quoted text is unreserved characters and percent signs. -/
theorem isUnreserved_of_mem_quote (h : c ∈ quote s) : isUnreserved c = true ∨ c = '%' := by
  obtain ⟨b, -, hc⟩ := List.mem_flatMap.mp h
  have hlt := b.toNat_lt
  unfold quoteByte at hc
  split at hc
  · rename_i hsafe
    rw [Bool.and_eq_true] at hsafe
    rw [List.mem_singleton.mp hc]
    exact .inl hsafe.1
  · simp only [List.mem_cons, List.not_mem_nil, or_false] at hc
    rcases hc with rfl | rfl | rfl
    · exact .inr rfl
    · exact .inl (isUnreserved_upperHex _ (by omega))
    · exact .inl (isUnreserved_upperHex _ (by omega))

end Lib
