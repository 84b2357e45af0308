import WhatsAppBot.Lib.Clip

/-!
# Shared secrets

`verify_meta_signature`, `verify_token_matches` (`core/security.py`) and `_api_key_matches`
(`dependencies/deps.py`) compare what a request presents with a configured secret.
`hmac.compare_digest` takes two `str` only where both are ASCII, and headers and query strings are
the caller's: `checks_exact_iff` says at which inputs each check answers, and answers right.

A check that raises is `none`. `hmacSha256` is the digest of `hmac.new(key, msg, hashlib.sha256)`.
-/

set_option autoImplicit false

namespace Auth

open Lib

/-- `str.isascii`. -/
def isAscii (s : String) : Bool := s.toList.all fun c => c.toNat < 128

/-- `hmac.compare_digest` of two strings: a `TypeError` unless both are ASCII. -/
def compareDigest (a b : String) : Option Bool :=
  if isAscii a && isAscii b then some (a == b) else none

def hexByte (b : UInt8) : List Char := [Nat.digitChar (b.toNat / 16), Nat.digitChar (b.toNat % 16)]

/-- `hexdigest`. -/
def hexdigest (digest : List UInt8) : String := String.ofList (digest.flatMap hexByte)

def signaturePrefix : String := "sha256="

variable (hmacSha256 : List UInt8 → List UInt8 → List UInt8)

/-- What Meta sends in `X-Hub-Signature-256`. -/
def signature (appSecret : String) (payload : List UInt8) : String :=
  hexdigest (hmacSha256 (encodeUtf8 appSecret.toList) payload)

def verifyMetaSignature (appSecret : String) (payload : List UInt8)
    (signatureHeader : Option String) (allowUnsigned : Bool) : Option Bool :=
  if appSecret = "" then some allowUnsigned
  else
    match signatureHeader with
    | none => some false
    | some header =>
      if header = "" || !(signaturePrefix.toList.isPrefixOf header.toList) then some false
      else
        compareDigest (signature hmacSha256 appSecret payload)
          (String.ofList (header.toList.drop signaturePrefix.toList.length))

def verifyTokenMatches (configured : String) (provided : Option String) : Option Bool :=
  match provided with
  | none => some false
  | some presented =>
    if configured = "" || presented = "" then some false else compareDigest configured presented

/-- `_api_key_matches`. -/
def apiKeyMatches (xApiKey adminApiKey : String) : Option Bool :=
  if xApiKey = "" then some false else compareDigest xApiKey adminApiKey

/-! ## What the checks are for -/

/-- The check does not raise, and its answer is whether `right`. -/
def Exact (check : Option Bool) (right : Prop) : Prop := ∃ b, check = some b ∧ (b = true ↔ right)

/-- The delivery is Meta's, or need not be signed. -/
def Signed (appSecret : String) (payload : List UInt8) (signatureHeader : Option String)
    (allowUnsigned : Bool) : Prop :=
  if appSecret = "" then allowUnsigned = true
  else signatureHeader = some (signaturePrefix ++ signature hmacSha256 appSecret payload)

variable {right : Prop} {a b : String}

theorem exact_some {answer : Bool} : Exact (some answer) right ↔ (answer = true ↔ right) := by
  constructor
  · rintro ⟨b, hb, hright⟩
    rwa [Option.some.inj hb]
  · intro h
    exact ⟨answer, rfl, h⟩

theorem not_exact_none : ¬ Exact none right := by
  rintro ⟨b, hb, -⟩
  cases hb

theorem compareDigest_exact_iff (h : right ↔ a = b) :
    Exact (compareDigest a b) right ↔ isAscii a = true ∧ isAscii b = true := by
  unfold compareDigest
  split
  · rename_i hascii
    simp only [Bool.and_eq_true] at hascii
    rw [exact_some, h, beq_iff_eq]
    exact iff_of_true Iff.rfl hascii
  · rename_i hascii
    rw [Bool.and_eq_true] at hascii
    exact iff_of_false not_exact_none hascii

theorem digitChar_ascii {n : Nat} (h : n < 16) : (Nat.digitChar n).toNat < 128 := by
  revert n
  decide

theorem isAscii_hexdigest (digest : List UInt8) : isAscii (hexdigest digest) = true := by
  simp only [isAscii, hexdigest, String.toList_ofList, List.all_eq_true, decide_eq_true_eq]
  intro c hc
  obtain ⟨b, -, hc⟩ := List.mem_flatMap.mp hc
  have hb := b.toNat_lt
  simp only [hexByte, List.mem_cons, List.not_mem_nil, or_false] at hc
  rcases hc with rfl | rfl
  · exact digitChar_ascii (by omega)
  · exact digitChar_ascii (by omega)

theorem isAscii_append : isAscii (a ++ b) = (isAscii a && isAscii b) := by
  simp [isAscii]

theorem isAscii_signaturePrefix : isAscii signaturePrefix = true := by decide

/-! ## The three checks -/

section

variable {appSecret : String} {payload : List UInt8} {signatureHeader : Option String}
  {allowUnsigned : Bool}

theorem starts_with (rest : String) :
    signaturePrefix.toList <+: (signaturePrefix ++ rest).toList := by
  rw [String.toList_append]
  exact List.prefix_append _ _

theorem exists_rest {header : String} (h : signaturePrefix.toList <+: header.toList) :
    ∃ rest, header = signaturePrefix ++ rest := by
  obtain ⟨rest, hrest⟩ := h
  refine ⟨String.ofList rest, ?_⟩
  rw [← String.toList_inj, String.toList_append, String.toList_ofList, hrest]

theorem verifyMetaSignature_presented {rest : String} (h : appSecret ≠ "") :
    verifyMetaSignature hmacSha256 appSecret payload (some (signaturePrefix ++ rest)) allowUnsigned
      = compareDigest (signature hmacSha256 appSecret payload) rest := by
  have hne : ¬ signaturePrefix ++ rest = "" := by
    intro hempty
    have hlist := congrArg String.toList hempty
    rw [String.toList_append] at hlist
    cases hlist
  have hhas := List.isPrefixOf_iff_prefix.mpr (starts_with rest)
  have hdrop : String.ofList ((signaturePrefix ++ rest).toList.drop signaturePrefix.toList.length)
      = rest := by
    rw [String.toList_append, List.drop_left, String.ofList_toList]
  unfold verifyMetaSignature
  simp only [if_neg h, hne, hhas, hdrop, decide_false, Bool.not_true, Bool.or_self,
    Bool.false_eq_true, if_false]

theorem verifyMetaSignature_other {header : String} (h : appSecret ≠ "")
    (hstart : ¬ signaturePrefix.toList <+: header.toList) :
    verifyMetaSignature hmacSha256 appSecret payload (some header) allowUnsigned = some false := by
  have hhas : signaturePrefix.toList.isPrefixOf header.toList = false :=
    Bool.eq_false_iff.mpr fun hyes => hstart (List.isPrefixOf_iff_prefix.mp hyes)
  unfold verifyMetaSignature
  simp only [if_neg h, hhas, Bool.not_false, Bool.or_true, if_true]

theorem verifyMetaSignature_exact_iff :
    Exact (verifyMetaSignature hmacSha256 appSecret payload signatureHeader allowUnsigned)
        (Signed hmacSha256 appSecret payload signatureHeader allowUnsigned) ↔
      (appSecret ≠ "" → ∀ header, signatureHeader = some header →
        signaturePrefix.toList <+: header.toList → isAscii header = true) := by
  unfold Signed
  by_cases hsecret : appSecret = ""
  · simp [verifyMetaSignature, hsecret, exact_some]
  rw [if_neg hsecret]
  cases signatureHeader with
  | none => simp [verifyMetaSignature, hsecret, exact_some]
  | some header =>
    by_cases hstart : signaturePrefix.toList <+: header.toList
    · obtain ⟨rest, rfl⟩ := exists_rest hstart
      rw [verifyMetaSignature_presented hmacSha256 hsecret, compareDigest_exact_iff (by
        rw [Option.some.injEq, String.append_right_inj]
        exact eq_comm)]
      simp [signature, isAscii_hexdigest, isAscii_append, isAscii_signaturePrefix, hsecret]
    · have hne : ¬ header = signaturePrefix ++ signature hmacSha256 appSecret payload := by
        rintro rfl
        exact hstart (starts_with _)
      rw [verifyMetaSignature_other hmacSha256 hsecret hstart, exact_some]
      simp [hne, hstart]

end

theorem verifyTokenMatches_exact_iff {configured : String} {provided : Option String} :
    Exact (verifyTokenMatches configured provided)
        (configured ≠ "" ∧ provided = some configured) ↔
      (configured ≠ "" → ∀ presented, provided = some presented → presented ≠ "" →
        isAscii configured = true ∧ isAscii presented = true) := by
  cases provided with
  | none => simp [verifyTokenMatches, exact_some]
  | some presented =>
    by_cases hsecret : configured = ""
    · simp [verifyTokenMatches, exact_some, hsecret]
    by_cases hempty : presented = ""
    · simp [verifyTokenMatches, exact_some, hempty, Ne.symm hsecret]
    have hcheck : verifyTokenMatches configured (some presented)
        = compareDigest configured presented := by
      simp [verifyTokenMatches, hsecret, hempty]
    have hright : configured ≠ "" ∧ some presented = some configured ↔ configured = presented := by
      rw [Option.some.injEq]
      exact ⟨fun h => h.2.symm, fun h => ⟨hsecret, h.symm⟩⟩
    rw [hcheck, compareDigest_exact_iff hright]
    simp [hsecret, hempty]

theorem apiKeyMatches_exact_iff {xApiKey adminApiKey : String} :
    Exact (apiKeyMatches xApiKey adminApiKey) (adminApiKey ≠ "" ∧ xApiKey = adminApiKey) ↔
      (xApiKey ≠ "" → isAscii xApiKey = true ∧ isAscii adminApiKey = true) := by
  unfold apiKeyMatches
  by_cases hempty : xApiKey = ""
  · simp [exact_some, hempty]
  · rw [if_neg hempty, compareDigest_exact_iff]
    · simp [hempty]
    · constructor
      · exact And.right
      · intro h
        exact ⟨h ▸ hempty, h⟩

/-- **Credential checks**: each answers, and answers right, unless two strings are compared of
which one is not ASCII. -/
theorem checks_exact_iff (appSecret : String) (payload : List UInt8)
    (signatureHeader : Option String) (allowUnsigned : Bool) (configured : String)
    (provided : Option String) (xApiKey adminApiKey : String) :
    (Exact (verifyMetaSignature hmacSha256 appSecret payload signatureHeader allowUnsigned)
        (Signed hmacSha256 appSecret payload signatureHeader allowUnsigned) ↔
      (appSecret ≠ "" → ∀ header, signatureHeader = some header →
        signaturePrefix.toList <+: header.toList → isAscii header = true)) ∧
    (Exact (verifyTokenMatches configured provided)
        (configured ≠ "" ∧ provided = some configured) ↔
      (configured ≠ "" → ∀ presented, provided = some presented → presented ≠ "" →
        isAscii configured = true ∧ isAscii presented = true)) ∧
    (Exact (apiKeyMatches xApiKey adminApiKey) (adminApiKey ≠ "" ∧ xApiKey = adminApiKey) ↔
      (xApiKey ≠ "" → isAscii xApiKey = true ∧ isAscii adminApiKey = true)) :=
  ⟨verifyMetaSignature_exact_iff hmacSha256, verifyTokenMatches_exact_iff, apiKeyMatches_exact_iff⟩

/-- One byte of an `X-API-Key`, a token or a signature that is not ASCII, and the check raises. -/
theorem accented_credentials :
    (apiKeyMatches "é" "key" = none ∧ ¬ Exact (apiKeyMatches "é" "key") ("key" ≠ "" ∧ "é" = "key")) ∧
    (verifyTokenMatches "token" (some "é") = none ∧
      ¬ Exact (verifyTokenMatches "token" (some "é")) ("token" ≠ "" ∧ some "é" = some "token")) ∧
    verifyMetaSignature (fun _ _ => []) "secret" [] (some "sha256=é") false = none := by
  have hkey : apiKeyMatches "é" "key" = none := by decide
  have htoken : verifyTokenMatches "token" (some "é") = none := by decide
  refine ⟨⟨hkey, ?_⟩, ⟨htoken, ?_⟩, by decide⟩
  · rw [hkey]
    exact not_exact_none
  · rw [htoken]
    exact not_exact_none

end Auth
