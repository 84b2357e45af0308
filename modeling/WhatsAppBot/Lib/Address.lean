import WhatsAppBot.Lib.Cut
import WhatsAppBot.Lib.Letters

/-!
# Hosts in brackets

Which hosts may stand in the brackets of a URL: IPv6 addresses, as Python's `ipaddress` reads them,
and the addresses of versions to come. The case of their letters does not matter
(`isIPv6_lower`).
-/

set_option autoImplicit false

namespace Lib

def isHexDigit (c : Char) : Bool :=
  c.isDigit || ('a' ≤ c && c ≤ 'f') || ('A' ≤ c && c ≤ 'F')

/-- `_parse_octet`. -/
def isOctet (s : List Char) : Bool :=
  !s.isEmpty && s.all Char.isDigit && s.length ≤ 3 && (s == ['0'] || s.head? != some '0') &&
    Nat.ofDigitChars 10 s 0 ≤ 255

/-- `IPv4Address`. -/
def isIPv4 (s : List Char) : Bool := (splits '.' s).length == 4 && (splits '.' s).all isOctet

/-- What stands between two colons. -/
inductive Part where
  | empty
  | hextet
  | dotted
  | bad
  deriving DecidableEq

def part (s : List Char) : Part :=
  if s.isEmpty then .empty
  else if s.all isHexDigit && s.length ≤ 4 then .hextet
  else if isIPv4 s then .dotted
  else .bad

/-- The parts `1` to `n - 2` that are empty: there is a `::` at each. -/
def skips (parts : List Part) : List Nat :=
  (List.range parts.length).filter fun i =>
    1 ≤ i && i + 1 < parts.length && parts[i]? == some .empty

/-- `_ip_int_from_string`, from the parts: what is not left out is a hextet. -/
def isAddress (parts : List Part) : Bool :=
  -- an IPv4 suffix is two hextets
  let parts' := if parts.getLast? = some .dotted then parts.dropLast ++ [.hextet, .hextet] else parts
  let n := parts'.length
  let leading := parts'.head? == some .empty
  let trailing := parts'.getLast? == some .empty
  3 ≤ parts.length && n ≤ 9 && parts'.all (fun part => part == .hextet || part == .empty) &&
    match skips parts' with
    | [] => n == 8 && !leading && !trailing
    | [skip] =>
      let hi := if leading then skip - 1 else skip
      let lo := if trailing then n - skip - 2 else n - skip - 1
      (!leading || hi == 0) && (!trailing || lo == 0) && hi + lo < 8
    | _ => false

/-- `IPv6Address`: an address, and a scope after `%`. -/
def isIPv6 (s : List Char) : Bool :=
  !s.contains '/' &&
    match cut '%' s with
    | (address, none) => isAddress ((splits ':' address).map part)
    | (address, some scope) =>
      !scope.isEmpty && !scope.contains '%' && isAddress ((splits ':' address).map part)

/-- `v[a-fA-F0-9]+\..+`, after the `v`. -/
def isIPvFuture (s : List Char) : Bool :=
  match cut '.' s with
  | (version, some rest) =>
    !version.isEmpty && version.all isHexDigit && !rest.isEmpty && !rest.contains '\n'
  | (_, none) => false

/-- `_check_bracketed_host`. -/
def checkBracketedHost : List Char → Bool
  | 'v' :: rest => isIPvFuture rest
  | s => isIPv6 s

/-! ## Letters of either case -/

theorem isHexDigit_toLower (c : Char) : isHexDigit c.toLower = isHexDigit c :=
  apply_toLower (by decide) c

theorem isDigit_toLower (c : Char) : c.toLower.isDigit = c.isDigit := apply_toLower (by decide) c

theorem isOctet_lower (s : List Char) : isOctet (s.map Char.toLower) = isOctet s := by
  by_cases hdigits : s.all Char.isDigit = true
  · have hsame : s.map Char.toLower = s.map id :=
      List.map_congr_left fun c hc => toLower_of_isDigit (List.all_eq_true.mp hdigits c hc)
    rw [hsame, List.map_id]
  · have hdigits' : ¬(s.map Char.toLower).all Char.isDigit = true := by
      rw [List.all_map]
      simpa [Function.comp_def, isDigit_toLower] using hdigits
    simp [isOctet, hdigits, hdigits']

theorem isIPv4_lower (s : List Char) : isIPv4 (s.map Char.toLower) = isIPv4 s := by
  unfold isIPv4
  rw [splits_map (toLower_eq_iff rfl), List.length_map, List.all_map]
  simp only [Function.comp_def, isOctet_lower]

theorem part_lower (s : List Char) : part (s.map Char.toLower) = part s := by
  unfold part
  rw [isIPv4_lower, List.isEmpty_map, List.length_map, List.all_map]
  simp only [Function.comp_def, isHexDigit_toLower]

theorem parts_lower (s : List Char) :
    (splits ':' (s.map Char.toLower)).map part = (splits ':' s).map part := by
  rw [splits_map (toLower_eq_iff rfl), List.map_map]
  simp only [Function.comp_def, part_lower]

/-! ## What an address is made of -/

theorem isHexDigit_of_isDigit {c : Char} (h : c.isDigit = true) : isHexDigit c = true := by
  simp [isHexDigit, h]

theorem mem_isIPv4 {c : Char} {s : List Char} (h : isIPv4 s = true) (hc : c ∈ s) :
    isHexDigit c = true ∨ c = '.' := by
  rw [isIPv4, Bool.and_eq_true, List.all_eq_true] at h
  rcases mem_splits '.' hc with rfl | ⟨octet, hoctet, hc⟩
  · exact .inr rfl
  · have hdigits := h.2 octet hoctet
    simp only [isOctet, Bool.and_eq_true, List.all_eq_true] at hdigits
    exact .inl (isHexDigit_of_isDigit (hdigits.1.1.1.2 c hc))

theorem mem_part {c : Char} {s : List Char} (h : part s ≠ .bad) (hc : c ∈ s) :
    isHexDigit c = true ∨ c = '.' := by
  unfold part at h
  split at h
  · rename_i hempty
    rw [List.isEmpty_iff.mp hempty] at hc
    cases hc
  · split at h
    · rename_i hhex
      rw [Bool.and_eq_true, List.all_eq_true] at hhex
      exact .inl (hhex.1 c hc)
    · split at h
      · rename_i hdotted
        exact mem_isIPv4 hdotted hc
      · exact absurd rfl h

theorem bad_notMem {parts : List Part} (h : isAddress parts = true) : Part.bad ∉ parts := by
  intro hbad
  simp only [isAddress, Bool.and_eq_true, List.all_eq_true] at h
  have hall := h.1.2 .bad
  by_cases hlast : parts.getLast? = some .dotted
  · rw [if_pos hlast] at hall
    obtain ⟨front, rfl⟩ := List.getLast?_eq_some_iff.mp hlast
    rw [List.dropLast_concat] at hall
    refine absurd (hall (List.mem_append_left _ ?_)) (by decide)
    simpa using hbad
  · rw [if_neg hlast] at hall
    exact absurd (hall hbad) (by decide)

/-- An address is hexadecimal digits, colons and dots. -/
theorem mem_address {c : Char} {s : List Char} (h : isAddress ((splits ':' s).map part) = true)
    (hc : c ∈ s) : isHexDigit c = true ∨ c = ':' ∨ c = '.' := by
  rcases mem_splits ':' hc with rfl | ⟨piece, hpiece, hc⟩
  · exact .inr (.inl rfl)
  · have hpart : part piece ≠ .bad := fun hbad =>
      bad_notMem h (List.mem_map.mpr ⟨piece, hpiece, hbad⟩)
    exact (mem_part hpart hc).imp_right .inr

theorem isHexDigit_ascii {c : Char} (h : isHexDigit c = true) : c.toNat < 128 := by
  simp only [isHexDigit, Char.isDigit, Bool.or_eq_true, Bool.and_eq_true, decide_eq_true_eq,
    Char.le_def, UInt32.le_iff_toNat_le] at h
  rcases h with (h | h) | h
  · exact Nat.lt_of_le_of_lt h.2 (by decide)
  · exact Nat.lt_of_le_of_lt h.2 (by decide)
  · exact Nat.lt_of_le_of_lt h.2 (by decide)

/-! ## Hosts in lower case -/

/-- A host in lower case, up to its scope. -/
def lowerHost (L : Lowercase) (host : Chars) : Chars :=
  match cut '%' host with
  | (name, some zone) => L.lower name ++ '%' :: zone
  | (name, none) => L.lower name

variable {L : Lowercase} {host : Chars}

theorem lowerHost_of_notMem (h : '%' ∉ host) : lowerHost L host = L.lower host := by
  rw [lowerHost, cut_of_notMem h]

theorem lowerHost_append {name zone : Chars} (h : '%' ∉ name) :
    lowerHost L (name ++ '%' :: zone) = L.lower name ++ '%' :: zone := by
  rw [lowerHost, cut_append h]

theorem lowerHost_cases (L : Lowercase) (host : Chars) :
    '%' ∉ host ∧ lowerHost L host = L.lower host ∨
      ∃ name zone, '%' ∉ name ∧ host = name ++ '%' :: zone ∧
        lowerHost L host = L.lower name ++ '%' :: zone := by
  rcases cut_cases '%' host with ⟨hnot, -⟩ | ⟨name, zone, hnot, rfl, -⟩
  · exact .inl ⟨hnot, lowerHost_of_notMem hnot⟩
  · exact .inr ⟨name, zone, hnot, rfl, lowerHost_append hnot⟩

theorem percent_notMem_lower {name : Chars} (h : '%' ∉ name) : '%' ∉ L.lower name :=
  fun hmem => h ((L.mem_lower_iff (by decide) rfl).mp hmem)

theorem lowerHost_lowerHost : lowerHost L (lowerHost L host) = lowerHost L host := by
  rcases lowerHost_cases L host with ⟨hnot, heq⟩ | ⟨name, zone, hnot, -, heq⟩
  · rw [heq, lowerHost_of_notMem (percent_notMem_lower hnot), L.idem]
  · rw [heq, lowerHost_append (percent_notMem_lower hnot), L.idem]

theorem lowerHost_eq_nil_iff : lowerHost L host = [] ↔ host = [] := by
  rcases lowerHost_cases L host with ⟨-, heq⟩ | ⟨name, zone, -, rfl, heq⟩
  · rw [heq]
    exact (L.lowersTo host).nil_iff
  · rw [heq]
    exact iff_of_false (by simp) (by simp)

/-- Punctuation stays. -/
theorem mem_lowerHost_iff {c : Char} (hascii : c.toNat < 128) (halpha : c.isAlpha = false) :
    c ∈ lowerHost L host ↔ c ∈ host := by
  rcases lowerHost_cases L host with ⟨-, heq⟩ | ⟨name, zone, -, rfl, heq⟩
  · rw [heq, L.mem_lower_iff hascii halpha]
  · rw [heq, List.mem_append, List.mem_append, L.mem_lower_iff hascii halpha]

theorem mem_of_mem_lowerHost {c : Char} (hc : c ∈ expands) (h : c ∈ lowerHost L host) : c ∈ host := by
  rcases lowerHost_cases L host with ⟨-, heq⟩ | ⟨name, zone, -, rfl, heq⟩
  · rw [heq] at h
    exact (L.lowersTo host).mem h (.inr hc)
  · rw [heq, List.mem_append] at h
    rw [List.mem_append]
    exact h.imp_left fun h => (L.lowersTo name).mem h (.inr hc)

theorem address_lower {s : Chars} (h : isAddress ((splits ':' s).map part) = true) :
    L.lower s = s.map Char.toLower := by
  refine L.lower_ascii fun c hc => ?_
  rcases mem_address h hc with hhex | rfl | rfl
  · exact isHexDigit_ascii hhex
  · decide
  · decide

theorem isIPv6_lowerHost (h : isIPv6 host = true) : isIPv6 (lowerHost L host) = true := by
  have hslash : (lowerHost L host).contains '/' = host.contains '/' := by
    rw [Bool.eq_iff_iff, List.contains_iff_mem, List.contains_iff_mem]
    exact mem_lowerHost_iff (by decide) rfl
  rw [isIPv6, Bool.and_eq_true] at h ⊢
  rw [hslash]
  refine ⟨h.1, ?_⟩
  have haddress := h.2
  rcases cut_cases '%' host with ⟨hnot, hcut⟩ | ⟨name, zone, hnot, rfl, hcut⟩
  · rw [hcut] at haddress
    dsimp only at haddress
    rw [lowerHost_of_notMem hnot, cut_of_notMem (percent_notMem_lower hnot)]
    dsimp only
    rw [address_lower haddress, parts_lower]
    exact haddress
  · rw [hcut] at haddress
    dsimp only at haddress
    rw [lowerHost_append hnot, cut_append (percent_notMem_lower hnot)]
    dsimp only
    rw [Bool.and_eq_true] at haddress ⊢
    rw [address_lower haddress.2, parts_lower]
    exact haddress

theorem isIPv6_v (rest : Chars) : isIPv6 ('v' :: rest) = false := by
  rw [Bool.eq_false_iff]
  intro h
  rw [isIPv6, Bool.and_eq_true] at h
  have haddress := h.2
  have hv (name : Chars) (hname : 'v' ∈ name) :
      ¬isAddress ((splits ':' name).map part) = true := fun h => by
    rcases mem_address h hname with h | h | h <;> exact absurd h (by decide)
  rcases cut_cases '%' ('v' :: rest) with ⟨-, hcut⟩ | ⟨name, zone, -, hname, hcut⟩
  · rw [hcut] at haddress
    exact hv _ List.mem_cons_self haddress
  · rw [hcut] at haddress
    simp only [Bool.and_eq_true] at haddress
    cases name with
    | nil => cases hname
    | cons c name =>
      obtain ⟨rfl, -⟩ := List.cons.inj hname
      exact hv _ List.mem_cons_self haddress.2

theorem checkBracketedHost_of_isIPv6 {s : Chars} (h : isIPv6 s = true) :
    checkBracketedHost s = true := by
  unfold checkBracketedHost
  split
  · rename_i rest
    rw [isIPv6_v] at h
    cases h
  · exact h

/-- ASCII in front is taken by itself. -/
theorem lowerHost_append_left {front back : Chars} (hascii : ∀ c ∈ front, c.toNat < 128)
    (hpercent : '%' ∉ front) : ∃ back', lowerHost L (front ++ back) = front.map Char.toLower ++ back' ∧
      (back' = [] ↔ back = []) ∧
        ∀ c ∈ back', c.toNat < 128 → c.isAlpha = false → c ∈ back := by
  rcases cut_cases '%' back with ⟨hnot, -⟩ | ⟨name, zone, hnot, rfl, -⟩
  · rw [lowerHost_of_notMem (by simp [hpercent, hnot])]
    obtain ⟨back', heq, h⟩ := (L.lowersTo (front ++ back)).append_left hascii
    exact ⟨back', heq, h.nil_iff, fun c hc hc' halpha => h.mem hc (.inl ⟨hc', halpha⟩)⟩
  · rw [← List.append_assoc, lowerHost_append (by simp [hpercent, hnot])]
    obtain ⟨name', heq, h⟩ := (L.lowersTo (front ++ name)).append_left hascii
    refine ⟨name' ++ '%' :: zone, by rw [heq, List.append_assoc], by simp, fun c hc hc' halpha => ?_⟩
    rw [List.mem_append] at hc ⊢
    exact hc.imp_left fun hc => h.mem hc (.inl ⟨hc', halpha⟩)

theorem isIPvFuture_lowerHost {rest : Chars} (h : isIPvFuture rest = true) :
    checkBracketedHost (lowerHost L ('v' :: rest)) = true := by
  unfold isIPvFuture at h
  rcases cut_cases '.' rest with ⟨-, hcut⟩ | ⟨version, address, -, rfl, hcut⟩
  · rw [hcut] at h
    cases h
  · rw [hcut] at h
    simp only [Bool.and_eq_true, List.all_eq_true, Bool.not_eq_true', List.isEmpty_eq_false_iff,
      List.contains_eq_mem, decide_eq_false_iff_not] at h
    obtain ⟨⟨⟨hversion, hhex⟩, haddress⟩, hnewline⟩ := h
    have hfront (c : Char) (hc : c ∈ 'v' :: (version ++ ['.'])) :
        c.toNat < 128 ∧ c ≠ '%' := by
      simp only [List.mem_cons, List.mem_append, List.not_mem_nil, or_false] at hc
      rcases hc with rfl | hc | rfl
      · decide
      · refine ⟨isHexDigit_ascii (hhex c hc), ?_⟩
        rintro rfl
        exact absurd (hhex _ hc) (by decide)
      · decide
    obtain ⟨address', heq, hnil, hmem⟩ := @lowerHost_append_left L _ address
      (fun c hc => (hfront c hc).1) fun hc => (hfront _ hc).2 rfl
    have hdot : '.' ∉ version.map Char.toLower := by
      rw [List.mem_map]
      rintro ⟨c, hc, hlower⟩
      rw [(toLower_eq_iff rfl c).mp hlower] at hc
      exact absurd (hhex _ hc) (by decide)
    have hhost : lowerHost L ('v' :: (version ++ '.' :: address)) =
        'v' :: (version.map Char.toLower ++ '.' :: address') := by
      simpa using heq
    rw [hhost]
    change isIPvFuture _ = true
    rw [isIPvFuture, cut_append hdot]
    simp only [Bool.and_eq_true, List.all_map, List.all_eq_true, Bool.not_eq_true',
      List.isEmpty_eq_false_iff, List.contains_eq_mem, decide_eq_false_iff_not, Function.comp_def, isHexDigit_toLower]
    exact ⟨⟨⟨by simpa using hversion, hhex⟩, fun h => haddress (hnil.mp h)⟩,
      fun h => hnewline (hmem _ h (by decide) rfl)⟩

theorem checkBracketedHost_lowerHost (h : checkBracketedHost host = true) :
    checkBracketedHost (lowerHost L host) = true := by
  unfold checkBracketedHost at h
  split at h
  · exact isIPvFuture_lowerHost h
  · exact checkBracketedHost_of_isIPv6 (isIPv6_lowerHost h)

end Lib
