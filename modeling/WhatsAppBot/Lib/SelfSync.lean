import WhatsAppBot.Lib.Clip

/-!
# Self-synchronising codes

A code is self-synchronising when each of its words starts with a symbol that stands nowhere else in
a word. A coded text can be entered at any such symbol: cut in front of it, both parts are coded texts
(`SelfSync.split`), and a coded text that stands in another one is part of what the other encodes
(`SelfSync.infix_of_encoded`). UTF-8 is such a code (`utf8_selfSync`); `decodeReplaced` reads it with
U+FFFD in place of the bytes at which no character starts.
-/

set_option autoImplicit false

namespace Lib

/-- `lead` holds of the first symbol of a word and of no other one, and no word begins another. -/
structure SelfSync {α β : Type} (enc : α → List β) (lead : β → Prop) : Prop where
  starts : ∀ a, ∃ b rest, enc a = b :: rest ∧ lead b ∧ ∀ c ∈ rest, ¬lead c
  decodable : ∀ {a d x y}, enc a ++ x = enc d ++ y → a = d

/-- The symbols are those of a text: no word is cut at either end. -/
def Whole {α β : Type} (enc : α → List β) (x : List β) : Prop := ∃ s : List α, s.flatMap enc = x

namespace SelfSync

variable {α β : Type} {enc : α → List β} {lead : β → Prop} {s t : List α} {x y : List β}

theorem lead_of_encoded (h : SelfSync enc lead) {b : β} (hs : s.flatMap enc = b :: x) : lead b := by
  cases s with
  | nil => cases hs
  | cons a s =>
    obtain ⟨b', rest, henc, hlead, -⟩ := h.starts a
    rw [List.flatMap_cons, henc, List.cons_append, List.cons.injEq] at hs
    exact hs.1 ▸ hlead

theorem eq_nil_of_encoded (h : SelfSync enc lead) (hs : s.flatMap enc = []) : s = [] := by
  cases s with
  | nil => rfl
  | cons a s =>
    obtain ⟨b, rest, henc, -⟩ := h.starts a
    rw [List.flatMap_cons, henc] at hs
    cases hs

theorem head_lead (h : SelfSync enc lead) (ht : t ≠ []) :
    ∀ b ∈ (t.flatMap enc ++ y).head?, lead b := by
  intro b hb
  cases henc : t.flatMap enc with
  | nil => exact absurd (h.eq_nil_of_encoded henc) ht
  | cons c rest =>
    rw [henc] at hb
    obtain rfl := Option.some.inj hb
    exact h.lead_of_encoded henc

/-- **A cut** in front of a leading symbol, or at the end, leaves two coded texts. -/
theorem split (h : SelfSync enc lead) (hs : s.flatMap enc = x ++ y) (hy : ∀ b ∈ y.head?, lead b) :
    ∃ s₁ s₂, s = s₁ ++ s₂ ∧ s₁.flatMap enc = x ∧ s₂.flatMap enc = y := by
  induction s generalizing x with
  | nil =>
    obtain ⟨rfl, rfl⟩ := List.append_eq_nil_iff.mp hs.symm
    exact ⟨[], [], rfl, rfl, rfl⟩
  | cons a s ih =>
    cases x with
    | nil => exact ⟨[], a :: s, rfl, rfl, hs⟩
    | cons b x =>
      obtain ⟨b', rest, henc, -, hrest⟩ := h.starts a
      have hsplit := hs
      rw [List.flatMap_cons, henc, List.cons_append, List.cons_append, List.cons.injEq] at hsplit
      obtain ⟨rfl, hsplit⟩ := hsplit
      rcases List.append_eq_append_iff.mp hsplit with ⟨k, hx, hk⟩ | ⟨k, hx, hk⟩
      · obtain ⟨s₁, s₂, hcut, h₁, h₂⟩ := ih hk
        refine ⟨a :: s₁, s₂, by rw [hcut, List.cons_append], ?_, h₂⟩
        rw [List.flatMap_cons, henc, h₁, hx, List.cons_append]
      · cases k with
        | nil =>
          refine ⟨[a], s, rfl, ?_, by rw [hk, List.nil_append]⟩
          rw [List.append_nil] at hx
          simp [henc, hx]
        | cons c k =>
          -- the cut would be inside the word of `a`
          have hlead := hy c (by rw [hk]; rfl)
          exact absurd hlead (hrest c (by rw [hx]; simp))

/-- What a text encodes as can be taken off. -/
theorem cancel (h : SelfSync enc lead) (hs : s.flatMap enc = t.flatMap enc ++ y) :
    ∃ s', s = t ++ s' ∧ s'.flatMap enc = y := by
  induction t generalizing s with
  | nil => exact ⟨s, rfl, hs⟩
  | cons d t ih =>
    rw [List.flatMap_cons, List.append_assoc] at hs
    cases s with
    | nil =>
      obtain ⟨b, rest, henc, -⟩ := h.starts d
      rw [henc] at hs
      cases hs
    | cons a s =>
      rw [List.flatMap_cons] at hs
      obtain rfl := h.decodable hs
      obtain ⟨s', rfl, hs'⟩ := ih (List.append_cancel_left hs)
      exact ⟨s', rfl, hs'⟩

/-- A coded text within another one encodes part of it. -/
theorem infix_of_encoded (h : SelfSync enc lead) (hin : t.flatMap enc <:+: s.flatMap enc) :
    t <:+: s := by
  obtain ⟨x, y, hs⟩ := hin
  rw [List.append_assoc] at hs
  by_cases ht : t = []
  · rw [ht]
    exact List.nil_infix
  obtain ⟨s₁, s₂, rfl, -, h₂⟩ := h.split hs.symm (h.head_lead ht)
  obtain ⟨s₃, rfl, -⟩ := h.cancel h₂
  exact ⟨s₁, s₃, by rw [List.append_assoc]⟩

end SelfSync

namespace Whole

variable {α β : Type} {enc : α → List β} {lead : β → Prop} {t : List α} {x y : List β}

theorem nil : Whole enc [] := ⟨[], rfl⟩

theorem encoded (s : List α) : Whole enc (s.flatMap enc) := ⟨s, rfl⟩

theorem append (hx : Whole enc x) (hy : Whole enc y) : Whole enc (x ++ y) := by
  obtain ⟨s, rfl⟩ := hx
  obtain ⟨s', rfl⟩ := hy
  exact ⟨s ++ s', List.flatMap_append⟩

/-- Two parts with a text between them are coded texts when they make one. -/
theorem separated (h : SelfSync enc lead) (ht : t ≠ []) :
    Whole enc (x ++ t.flatMap enc ++ y) ↔ Whole enc x ∧ Whole enc y := by
  constructor
  · rintro ⟨s, hs⟩
    rw [List.append_assoc] at hs
    obtain ⟨s₁, s₂, -, h₁, h₂⟩ := h.split hs (h.head_lead ht)
    obtain ⟨s₃, -, h₃⟩ := h.cancel h₂
    exact ⟨⟨s₁, h₁⟩, ⟨s₃, h₃⟩⟩
  · rintro ⟨hx, hy⟩
    exact (hx.append (encoded t)).append hy

end Whole

/-! ## UTF-8 -/

theorem utf8_selfSync : SelfSync String.utf8EncodeChar UInt8.IsUTF8FirstByte where
  starts := by
    intro c
    have hpos := c.utf8Size_pos
    cases henc : String.utf8EncodeChar c with
    | nil => exact absurd henc String.utf8EncodeChar_ne_nil
    | cons b rest =>
      refine ⟨b, rest, rfl, ?_, fun d hd => ?_⟩
      · have hfirst := UInt8.isUTF8FirstByte_getElem_zero_utf8EncodeChar (c := c)
        simpa [henc] using hfirst
      · obtain ⟨i, hi, rfl⟩ := List.getElem_of_mem hd
        have hlen : i + 1 < (String.utf8EncodeChar c).length := by
          rw [henc]
          exact Nat.succ_lt_succ hi
        have hlater : ((String.utf8EncodeChar c)[i + 1]).IsUTF8FirstByte ↔ i + 1 = 0 :=
          UInt8.isUTF8FirstByte_getElem_utf8EncodeChar
        simpa [henc] using hlater
  decodable := by
    intro c d x y h
    have hc := decode_encoded c x
    rw [h, decode_encoded d y] at hc
    exact (Option.some.inj hc).symm

/-- The pass of `decodeReplaced`, with `skip` bytes of the last character still to go. -/
def replacedFrom : Nat → List UInt8 → List Char
  | _, [] => []
  | skip + 1, _ :: bs => replacedFrom skip bs
  | 0, b :: bs =>
    match (b :: bs).toByteArray.utf8DecodeChar? 0 with
    | some c => c :: replacedFrom (c.utf8Size - 1) bs
    | none => '\ufffd' :: replacedFrom 0 bs

/-- Each byte at which no character starts is read as U+FFFD. -/
def decodeReplaced (bs : List UInt8) : List Char := replacedFrom 0 bs

theorem replacedFrom_eq (n : Nat) (bs : List UInt8) :
    replacedFrom n bs = decodeReplaced (bs.drop n) := by
  induction bs generalizing n with
  | nil => simp [replacedFrom, decodeReplaced]
  | cons b bs ih =>
    cases n with
    | zero => rfl
    | succ n => simpa [replacedFrom] using ih n

theorem decodeReplaced_encoded (c : Char) (bs : List UInt8) :
    decodeReplaced (String.utf8EncodeChar c ++ bs) = c :: decodeReplaced bs := by
  have hdecode := decode_encoded c bs
  have hlen := String.length_utf8EncodeChar c
  cases henc : String.utf8EncodeChar c with
  | nil => exact absurd henc String.utf8EncodeChar_ne_nil
  | cons b rest =>
    rw [henc, List.cons_append] at hdecode
    rw [henc, List.length_cons] at hlen
    rw [List.cons_append, decodeReplaced, replacedFrom, hdecode]
    show c :: replacedFrom _ _ = _
    rw [replacedFrom_eq, List.drop_left' (by omega)]

theorem decodeReplaced_encodeUtf8 (s : List Char) : decodeReplaced (encodeUtf8 s) = s := by
  induction s with
  | nil => rfl
  | cons c s ih =>
    rw [encodeUtf8, List.flatMap_cons, decodeReplaced_encoded]
    exact congrArg (c :: ·) ih

/-- Where no U+FFFD is read, every byte is part of a character. -/
theorem encode_decodeReplaced {bs : List UInt8} (h : '\ufffd' ∉ decodeReplaced bs) :
    encodeUtf8 (decodeReplaced bs) = bs := by
  induction hn : bs.length using Nat.strong_induction_on generalizing bs with
  | _ n ih =>
    cases bs with
    | nil => rfl
    | cons b bs =>
      cases hd : (b :: bs).toByteArray.utf8DecodeChar? 0 with
      | none =>
        rw [decodeReplaced, replacedFrom, hd] at h
        simp at h
      | some c =>
        obtain ⟨rest, hrest⟩ := encoded_of_decode hd
        rw [← hrest, decodeReplaced_encoded] at h ⊢
        have hpos := c.utf8Size_pos
        have hlen := String.length_utf8EncodeChar c
        have htotal := congrArg List.length hrest
        rw [List.length_append] at htotal
        have hih := ih rest.length (by omega) (fun hmem => h (List.mem_cons_of_mem _ hmem)) rfl
        rw [encodeUtf8, List.flatMap_cons]
        exact congrArg (String.utf8EncodeChar c ++ ·) hih

end Lib
