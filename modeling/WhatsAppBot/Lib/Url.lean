import Mathlib.Data.List.TakeWhile
import WhatsAppBot.Lib.Address

/-!
# URLs

`urllib.parse`: `urlsplit` takes a URL apart, `urlunsplit` puts it together, and the parts of a
`netloc` are read off it. A text is a list of characters; `none` is a `ValueError`.

Main result: `urlsplit_urlunsplit`, what is put together from parts that fit (`Fits`) is taken apart
into them.
-/

set_option autoImplicit false

namespace Lib

/-- The five parts; a missing one is empty. -/
structure SplitResult where
  scheme : Chars
  netloc : Chars
  path : Chars
  query : Chars
  fragment : Chars
  deriving DecidableEq

/-! ## Taking apart -/

/-- `_UNSAFE_URL_BYTES_TO_REMOVE`. -/
def isUnsafe (c : Char) : Bool := c == '\t' || c == '\r' || c == '\n'

/-- Leading spaces and controls go, and the unsafe characters everywhere. -/
def cleaned (url : Chars) : Chars := (url.dropWhile fun c => c.toNat ≤ 32).filter fun c => !isUnsafe c

/-- `scheme_chars`. -/
def isSchemeChar (c : Char) : Bool := c.isAlphanum || c == '+' || c == '-' || c == '.'

def splitScheme (url : Chars) : Chars × Chars :=
  match cut ':' url with
  | (scheme, some rest) =>
    if scheme.head?.any Char.isAlpha && scheme.all isSchemeChar then (scheme.map Char.toLower, rest)
    else ([], url)
  | (_, none) => ([], url)

/-- The end of a `netloc`. -/
def isDelimiter (c : Char) : Bool := c == '/' || c == '?' || c == '#'

/-- `_splitnetloc`, after two slashes. -/
def splitNetloc : Chars → Chars × Chars
  | '/' :: '/' :: rest =>
    (rest.takeWhile fun c => !isDelimiter c, rest.dropWhile fun c => !isDelimiter c)
  | url => ([], url)

/-- What is before the first `c`, and after it; nothing without one. -/
def splitTail (c : Char) (url : Chars) : Chars × Chars := ((cut c url).1, (cut c url).2.getD [])

/-- `_check_bracketed_netloc`. -/
def checkBracketedNetloc (netloc : Chars) : Bool :=
  let hostnameAndPort := (rcut '@' netloc).2
  match cut '[' hostnameAndPort with
  | (before, some bracketed) =>
    let (hostname, port) := splitTail ']' bracketed
    before.isEmpty && (port.isEmpty || port.head? == some ':') && checkBracketedHost hostname
  | (_, none) => checkBracketedHost (splitTail ':' hostnameAndPort).1

/-- Brackets come in pairs, around an address. -/
def checkBrackets (netloc : Chars) : Bool :=
  if netloc.contains '[' && netloc.contains ']' then checkBracketedNetloc netloc
  else !netloc.contains '[' && !netloc.contains ']'

/-- `_checknetloc`. -/
def checkNetloc (netloc : Chars) : Bool := netloc.all fun c => !expands.contains c

def checks (netloc : Chars) : Bool := checkBrackets netloc && checkNetloc netloc

def urlsplit (url : Chars) : Option SplitResult :=
  let (scheme, url) := splitScheme (cleaned url)
  let (netloc, url) := splitNetloc url
  if checks netloc then
    let (url, fragment) := splitTail '#' url
    let (path, query) := splitTail '?' url
    some { scheme, netloc, path, query, fragment }
  else none

/-! ## Putting together -/

/-- `uses_netloc`. -/
def usesNetloc : List Chars :=
  ["", "ftp", "http", "gopher", "nntp", "telnet", "imap", "wais", "file", "mms", "https", "shttp",
    "snews", "prospero", "rtsp", "rtsps", "rtspu", "rsync", "svn", "svn+ssh", "sftp", "nfs", "git",
    "git+ssh", "ws", "wss", "itms-services"].map String.toList

/-- A path under a `netloc` starts with a slash. -/
def rooted (path : Chars) : Chars :=
  if !path.isEmpty && path.head? != some '/' then '/' :: path else path

def withNetloc (p : SplitResult) : Chars :=
  if !p.netloc.isEmpty then '/' :: '/' :: p.netloc ++ rooted p.path
  else if p.path.take 2 == ['/', '/'] then '/' :: '/' :: p.path
  else if !p.scheme.isEmpty && usesNetloc.contains p.scheme &&
      (p.path.isEmpty || p.path.head? == some '/') then '/' :: '/' :: p.path
  else p.path

/-- A part after `c`, unless it is empty. -/
def withTail (c : Char) (part : Chars) : Chars := if part.isEmpty then [] else c :: part

def urlunsplit (p : SplitResult) : Chars :=
  (if p.scheme.isEmpty then withNetloc p else p.scheme ++ ':' :: withNetloc p) ++
    withTail '?' p.query ++ withTail '#' p.fragment

/-! ## The parts of a `netloc` -/

/-- The host and the port after the credentials. -/
def hostPort (info : Chars) : Chars × Chars :=
  match (cut '[' info).2 with
  | some bracketed => ((splitTail ']' bracketed).1, (splitTail ':' (splitTail ']' bracketed).2).2)
  | none => splitTail ':' info

namespace SplitResult

variable (p : SplitResult)

/-- `_userinfo`. -/
def userinfo : Option Chars × Option Chars :=
  match (rcut '@' p.netloc).1 with
  | some info => (some (cut ':' info).1, (cut ':' info).2)
  | none => (none, none)

def username : Option Chars := p.userinfo.1

def password : Option Chars := p.userinfo.2

/-- `_hostinfo`; a port with nothing in it is `none`. -/
def hostinfo : Chars × Option Chars :=
  let (hostname, port) := hostPort (rcut '@' p.netloc).2
  (hostname, if port.isEmpty then none else some port)

def hostname (L : Lowercase) : Option Chars :=
  if p.hostinfo.1.isEmpty then none else some (lowerHost L p.hostinfo.1)

/-- How many digits `int` reads. -/
def maxStrDigits : Nat := 4300

/-- `none` outside is a `ValueError`. -/
def port : Option (Option Nat) :=
  match p.hostinfo.2 with
  | none => some none
  | some digits =>
    if digits.all Char.isDigit && digits.length ≤ maxStrDigits &&
        Nat.ofDigitChars 10 digits 0 ≤ 65535 then
      some (some (Nat.ofDigitChars 10 digits 0))
    else none

end SplitResult

/-! ## Parts that fit -/

/-- The parts can be told apart in the URL that is put together from them. -/
structure Fits (p : SplitResult) : Prop where
  alpha : p.scheme.head?.any Char.isAlpha = true
  chars : p.scheme.all isSchemeChar = true
  lower : p.scheme.map Char.toLower = p.scheme
  safe : ∀ c, c ∈ p.netloc ∨ c ∈ p.path ∨ c ∈ p.query ∨ c ∈ p.fragment → isUnsafe c = false
  netloc : ∀ c ∈ p.netloc, isDelimiter c = false
  path : ∀ c ∈ p.path, c ≠ '?' ∧ c ≠ '#'
  query : '#' ∉ p.query

variable {p : SplitResult} {url front back : Chars} {c : Char}

theorem cleaned_of_safe (hfirst : ∀ c ∈ url.head?, 32 < c.toNat)
    (hsafe : ∀ c ∈ url, isUnsafe c = false) : cleaned url = url := by
  have hdrop : (url.dropWhile fun c => c.toNat ≤ 32) = url := by
    cases url with
    | nil => rfl
    | cons c url =>
      refine List.dropWhile_cons_of_neg ?_
      have := hfirst c rfl
      simpa using this
  rw [cleaned, hdrop, List.filter_eq_self]
  exact fun c hc => by simp [hsafe c hc]

theorem splitScheme_append {scheme rest : Chars} (halpha : scheme.head?.any Char.isAlpha = true)
    (hchars : scheme.all isSchemeChar = true) :
    splitScheme (scheme ++ ':' :: rest) = (scheme.map Char.toLower, rest) := by
  have hcolon : ':' ∉ scheme := fun h => absurd (List.all_eq_true.mp hchars _ h) (by decide)
  rw [splitScheme, cut_append hcolon]
  exact if_pos (by rw [halpha, hchars]; rfl)

theorem splitNetloc_append (hfront : ∀ c ∈ front, isDelimiter c = false)
    (hback : ∀ c ∈ back.head?, isDelimiter c = true) :
    splitNetloc ('/' :: '/' :: (front ++ back)) = (front, back) := by
  have hall : ∀ c ∈ front, (!isDelimiter c) = true := fun c hc => by rw [hfront c hc]; rfl
  rw [splitNetloc, List.takeWhile_append_of_pos hall, List.dropWhile_append_of_pos hall]
  cases back with
  | nil => simp
  | cons c back =>
    have := hback c rfl
    simp [this]

theorem splitNetloc_of_ne (h : url.take 2 ≠ ['/', '/']) : splitNetloc url = ([], url) := by
  unfold splitNetloc
  split
  · exact absurd rfl h
  · rfl

theorem splitTail_append (h : c ∉ front) (back : Chars) :
    splitTail c (front ++ withTail c back) = (front, back) := by
  unfold splitTail withTail
  cases back with
  | nil => rw [List.isEmpty_nil, if_pos rfl, List.append_nil, cut_of_notMem h]; rfl
  | cons x back => rw [List.isEmpty_cons, if_neg Bool.false_ne_true, cut_append h]; rfl

/-- The query and the fragment as they stand in a URL. -/
def tails (p : SplitResult) : Chars := withTail '?' p.query ++ withTail '#' p.fragment

theorem head_tails (h : c ∈ (tails p).head?) : c = '?' ∨ c = '#' := by
  unfold tails withTail at h
  cases hq : p.query with
  | cons x q =>
    rw [hq] at h
    exact .inl (Option.some.inj h).symm
  | nil =>
    cases hf : p.fragment with
    | cons x f =>
      rw [hq, hf] at h
      exact .inr (Option.some.inj h).symm
    | nil =>
      rw [hq, hf] at h
      cases h

theorem rooted_eq (path : Chars) : rooted path = path ∨ rooted path = '/' :: path := by
  unfold rooted
  split
  · exact .inr rfl
  · exact .inl rfl

theorem head_rooted {path : Chars} (h : c ∈ (rooted path).head?) : c = '/' := by
  unfold rooted at h
  split at h
  · exact (Option.some.inj h).symm
  · rename_i hpath
    cases path with
    | nil => cases h
    | cons x path =>
      have hx : x = '/' := by simpa using hpath
      rw [← Option.some.inj h, hx]

theorem isDelimiter_head {path : Chars} (h : c ∈ (rooted path ++ tails p).head?) :
    isDelimiter c = true := by
  cases hpath : rooted path with
  | nil =>
    rw [hpath] at h
    rcases head_tails h with rfl | rfl <;> rfl
  | cons x rest =>
    rw [hpath] at h
    have hx : x = '/' := @head_rooted x path (by rw [hpath]; rfl)
    rw [← Option.some.inj h, hx]
    rfl

/-- The parts as they come back: a path under a `netloc` is rooted. -/
def SplitResult.placed (p : SplitResult) : SplitResult :=
  if p.netloc.isEmpty then p else { p with path := rooted p.path }

theorem take_two_append {path : Chars} (h : path.take 2 ≠ ['/', '/']) :
    (path ++ tails p).take 2 ≠ ['/', '/'] := by
  have hnot : (tails p).head? ≠ some '/' := fun hhead => by
    rcases head_tails hhead with h | h <;> cases h
  intro heq
  match path with
  | [] =>
    cases ht : tails p with
    | nil => simp [ht] at heq
    | cons x rest =>
      rw [ht, List.nil_append, List.take_succ_cons] at heq
      exact hnot (by rw [ht, (List.cons.inj heq).1]; rfl)
  | [x] =>
    cases ht : tails p with
    | nil => simp [ht] at heq
    | cons y rest =>
      rw [ht, List.cons_append, List.nil_append, List.take_succ_cons, List.take_succ_cons] at heq
      exact hnot (by rw [ht, (List.cons.inj (List.cons.inj heq).2).1]; rfl)
  | x :: y :: rest => exact h heq

theorem rooted_of_head {path : Chars} (h : path.isEmpty || path.head? == some '/') :
    rooted path = path := by
  refine if_neg ?_
  revert h
  cases path.isEmpty <;> simp

theorem splitNetloc_withNetloc (hnetloc : ∀ c ∈ p.netloc, isDelimiter c = false) :
    splitNetloc (withNetloc p ++ tails p) = (p.netloc, p.placed.path ++ tails p) := by
  unfold withNetloc SplitResult.placed
  cases hn : p.netloc with
  | cons x netloc =>
    rw [hn] at hnetloc
    simp only [List.isEmpty_cons, Bool.not_false, if_true, Bool.false_eq_true, if_false]
    rw [List.cons_append, List.cons_append, List.append_assoc]
    exact splitNetloc_append hnetloc fun c hc => isDelimiter_head hc
  | nil =>
    have hslashes (hrooted : rooted p.path = p.path) :
        splitNetloc ('/' :: '/' :: p.path ++ tails p) = ([], p.path ++ tails p) := by
      rw [List.cons_append, List.cons_append, ← List.nil_append (p.path ++ tails p)]
      exact splitNetloc_append (List.forall_mem_nil _) fun c hc =>
        isDelimiter_head (hrooted.symm ▸ hc)
    simp only [List.isEmpty_nil, Bool.not_true, Bool.false_eq_true, if_false, if_true]
    split
    · rename_i hpath
      refine hslashes (rooted_of_head ?_)
      cases hp : p.path with
      | nil => rfl
      | cons x path =>
        rw [hp, beq_iff_eq, List.take_succ_cons] at hpath
        rw [(List.cons.inj hpath).1]
        rfl
    · rename_i hpath
      split
      · rename_i huses
        rw [Bool.and_eq_true] at huses
        exact hslashes (rooted_of_head huses.2)
      · exact splitNetloc_of_ne (take_two_append (by simpa using hpath))

theorem mem_placed (h : c ∈ p.placed.path) : c = '/' ∨ c ∈ p.path := by
  unfold SplitResult.placed at h
  split at h
  · exact .inr h
  · change c ∈ rooted p.path at h
    rcases rooted_eq p.path with heq | heq
    · exact .inr (heq ▸ h)
    · rw [heq] at h
      exact List.mem_cons.mp h

theorem mem_withNetloc (h : c ∈ withNetloc p) : c = '/' ∨ c ∈ p.netloc ∨ c ∈ p.path := by
  unfold withNetloc at h
  split at h
  · simp only [List.cons_append, List.mem_cons, List.mem_append] at h
    rcases rooted_eq p.path with heq | heq
    · rw [heq] at h
      tauto
    · rw [heq, List.mem_cons] at h
      tauto
  · split at h
    · simp only [List.mem_cons] at h
      tauto
    · split at h
      · simp only [List.mem_cons] at h
        tauto
      · exact .inr (.inr h)

theorem mem_withTail {part : Chars} {d : Char} (h : c ∈ withTail d part) : c = d ∨ c ∈ part := by
  unfold withTail at h
  split at h
  · cases h
  · exact List.mem_cons.mp h

theorem lt_of_isAlpha (h : c.isAlpha = true) : 32 < c.toNat := by
  rcases Bool.or_eq_true_iff.mp h with hupper | hlower
  · have hA : 'A'.val ≤ c.val := (of_decide_eq_true hupper).1
    exact Nat.lt_of_lt_of_le (by decide) (UInt32.le_iff_toNat_le.mp hA)
  · have ha : 'a'.val ≤ c.val := of_decide_eq_true (Bool.and_eq_true_iff.mp hlower).1
    exact Nat.lt_of_lt_of_le (by decide) (UInt32.le_iff_toNat_le.mp ha)

theorem isUnsafe_of_isSchemeChar (h : isSchemeChar c = true) : isUnsafe c = false := by
  by_contra hunsafe
  rw [Bool.not_eq_false] at hunsafe
  simp only [isUnsafe, Bool.or_eq_true, beq_iff_eq] at hunsafe
  rcases hunsafe with (rfl | rfl) | rfl <;> exact absurd h (by decide)

theorem Fits.scheme_ne_nil (h : Fits p) : p.scheme ≠ [] := by
  intro hnil
  have := h.alpha
  rw [hnil] at this
  cases this

theorem urlunsplit_eq (h : p.scheme ≠ []) :
    urlunsplit p = p.scheme ++ ':' :: (withNetloc p ++ tails p) := by
  rw [urlunsplit, if_neg (by simpa using h), List.append_assoc, List.append_assoc]
  rfl

theorem Fits.cleaned (h : Fits p) : cleaned (urlunsplit p) = urlunsplit p := by
  rw [urlunsplit_eq h.scheme_ne_nil]
  refine cleaned_of_safe (fun c hc => ?_) fun c hc => ?_
  · have halpha := h.alpha
    cases hs : p.scheme with
    | nil => exact absurd hs h.scheme_ne_nil
    | cons x scheme =>
      rw [hs] at hc halpha
      rw [← Option.some.inj hc]
      exact lt_of_isAlpha halpha
  · simp only [List.mem_append, List.mem_cons, tails] at hc
    rcases hc with hc | rfl | hc | hc | hc
    · exact isUnsafe_of_isSchemeChar (List.all_eq_true.mp h.chars c hc)
    · rfl
    · rcases mem_withNetloc hc with rfl | hc | hc
      · rfl
      · exact h.safe c (.inl hc)
      · exact h.safe c (.inr (.inl hc))
    · rcases mem_withTail hc with rfl | hc
      · rfl
      · exact h.safe c (.inr (.inr (.inl hc)))
    · rcases mem_withTail hc with rfl | hc
      · rfl
      · exact h.safe c (.inr (.inr (.inr hc)))

/-- **What is put together is taken apart again**, if it passes the checks. -/
theorem urlsplit_urlunsplit (h : Fits p) :
    urlsplit (urlunsplit p) = if checks p.netloc then some p.placed else none := by
  have hscheme : splitScheme (urlunsplit p) = (p.scheme, withNetloc p ++ tails p) := by
    rw [urlunsplit_eq h.scheme_ne_nil, splitScheme_append h.alpha h.chars, h.lower]
  have hquestion : '?' ∉ p.placed.path := fun hc => (mem_placed hc).elim (by decide)
    fun hc => (h.path _ hc).1 rfl
  have hhash : '#' ∉ p.placed.path ++ withTail '?' p.query := fun hc => by
    rcases List.mem_append.mp hc with hc | hc
    · exact (mem_placed hc).elim (by decide) fun hc => (h.path _ hc).2 rfl
    · exact (mem_withTail hc).elim (by decide) h.query
  have hfragment : splitTail '#' (p.placed.path ++ tails p) =
      (p.placed.path ++ withTail '?' p.query, p.fragment) := by
    rw [tails, ← List.append_assoc, splitTail_append hhash]
  have hparts : p.placed = ⟨p.scheme, p.netloc, p.placed.path, p.query, p.fragment⟩ := by
    unfold SplitResult.placed
    split <;> rfl
  rw [urlsplit, h.cleaned, hscheme]
  simp only [splitNetloc_withNetloc h.netloc, hfragment, splitTail_append hquestion]
  rw [← hparts]

/-! ## What is taken apart -/

theorem mem_cleaned (h : c ∈ cleaned url) : isUnsafe c = false := by
  have := (List.mem_filter.mp h).2
  simpa using this

theorem isSchemeChar_toLower (c : Char) : isSchemeChar c.toLower = isSchemeChar c :=
  apply_toLower (by decide) c

theorem splitScheme_spec (url : Chars) :
    (∀ c ∈ (splitScheme url).2, c ∈ url) ∧ ((splitScheme url).1 ≠ [] →
      (splitScheme url).1.head?.any Char.isAlpha = true ∧
        (splitScheme url).1.all isSchemeChar = true ∧
          (splitScheme url).1.map Char.toLower = (splitScheme url).1) := by
  unfold splitScheme
  rcases cut_cases ':' url with ⟨-, hcut⟩ | ⟨scheme, rest, -, rfl, hcut⟩
  · rw [hcut]
    exact ⟨fun c hc => hc, fun h => absurd rfl h⟩
  · rw [hcut]
    dsimp only
    split
    · rename_i hscheme
      rw [Bool.and_eq_true] at hscheme
      refine ⟨fun c hc => ?_, fun _ => ⟨?_, ?_, ?_⟩⟩
      · exact List.mem_append_right _ (List.mem_cons_of_mem _ hc)
      · rw [List.head?_map, Option.any_map]
        exact (congrArg (fun f => Option.any f scheme.head?) (funext isAlpha_toLower)).trans hscheme.1
      · rw [List.all_map]
        exact (congrArg scheme.all (funext isSchemeChar_toLower)).trans hscheme.2
      · rw [List.map_map]
        exact congrArg (fun f => scheme.map f) (funext toLower_toLower)
    · exact ⟨fun c hc => hc, fun h => absurd rfl h⟩

theorem splitNetloc_spec (url : Chars) :
    (∀ c ∈ (splitNetloc url).1, c ∈ url ∧ isDelimiter c = false) ∧
      (∀ c ∈ (splitNetloc url).2, c ∈ url) ∧
        ((splitNetloc url).1 ≠ [] → ∀ c ∈ (splitNetloc url).2.head?, isDelimiter c = true) := by
  unfold splitNetloc
  split
  · rename_i rest
    refine ⟨fun c hc => ⟨?_, ?_⟩, fun c hc => ?_, fun _ c hc => ?_⟩
    · exact List.mem_cons_of_mem _ (List.mem_cons_of_mem _ ((List.takeWhile_subset _) hc))
    · have := List.mem_takeWhile_imp hc
      simpa using this
    · exact List.mem_cons_of_mem _ (List.mem_cons_of_mem _ ((List.dropWhile_subset _) hc))
    · have hnot := List.head?_dropWhile_not (fun c => !isDelimiter c) rest
      rw [Option.mem_def.mp hc] at hnot
      simpa using hnot
  · exact ⟨List.forall_mem_nil _, fun c hc => hc, fun h => absurd rfl h⟩

theorem splitTail_spec (c : Char) (url : Chars) :
    c ∉ (splitTail c url).1 ∧ (splitTail c url).1 <+: url ∧ ∀ d ∈ (splitTail c url).2, d ∈ url := by
  unfold splitTail
  rcases cut_cases c url with ⟨hnot, hcut⟩ | ⟨front, back, hnot, rfl, hcut⟩
  · rw [hcut]
    exact ⟨hnot, List.prefix_rfl, List.forall_mem_nil _⟩
  · rw [hcut]
    exact ⟨hnot, List.prefix_append _ _, fun d hd =>
      List.mem_append_right _ (List.mem_cons_of_mem _ hd)⟩

theorem rooted_of_prefix {path rest : Chars} (hrest : ∀ c ∈ rest.head?, isDelimiter c = true)
    (hpath : path <+: rest) (hquestion : '?' ∉ path) (hhash : '#' ∉ path) : rooted path = path := by
  refine rooted_of_head ?_
  cases path with
  | nil => rfl
  | cons x path =>
    obtain ⟨tail, rfl⟩ := hpath
    have hx := hrest x rfl
    simp only [isDelimiter, Bool.or_eq_true, beq_iff_eq] at hx
    rcases hx with (rfl | rfl) | rfl
    · rfl
    · exact absurd List.mem_cons_self hquestion
    · exact absurd List.mem_cons_self hhash

/-- The parts of a URL with a scheme fit. -/
theorem fits_of_urlsplit (h : urlsplit url = some p) (hscheme : p.scheme ≠ []) :
    Fits p ∧ checks p.netloc = true ∧ p.placed = p := by
  obtain ⟨hrest, hscheme'⟩ := splitScheme_spec (cleaned url)
  unfold urlsplit at h
  generalize splitScheme (cleaned url) = s at h hrest hscheme'
  obtain ⟨hnetloc, hpath, hhead⟩ := splitNetloc_spec s.2
  dsimp only at h
  generalize splitNetloc s.2 = n at h hnetloc hpath hhead
  split at h
  · rename_i hchecked
    obtain ⟨hhash, hinit, hfragment⟩ := splitTail_spec '#' n.2
    generalize splitTail '#' n.2 = t at h hhash hinit hfragment
    obtain ⟨hquestion, hinit', hquery⟩ := splitTail_spec '?' t.1
    generalize splitTail '?' t.1 = q at h hquestion hinit' hquery
    obtain rfl := Option.some.inj h
    obtain ⟨halpha, hchars, hlower⟩ := hscheme' hscheme
    have hurl (c : Char) (hc : c ∈ n.2) : isUnsafe c = false := mem_cleaned (hrest c (hpath c hc))
    have hhash' : '#' ∉ q.1 := fun hc => hhash (hinit'.subset hc)
    refine ⟨⟨halpha, hchars, hlower, ?_, fun c hc => (hnetloc c hc).2, ?_, ?_⟩, hchecked, ?_⟩
    · rintro c (hc | hc | hc | hc)
      · exact mem_cleaned (hrest c (hnetloc c hc).1)
      · exact hurl c (hinit.subset (hinit'.subset hc))
      · exact hurl c (hinit.subset (hquery c hc))
      · exact hurl c (hfragment c hc)
    · rintro c hc
      constructor
      · rintro rfl
        exact hquestion hc
      · rintro rfl
        exact hhash' hc
    · exact fun hc => hhash (hquery _ hc)
    · unfold SplitResult.placed
      split
      · rfl
      · rename_i hne
        have hroot := rooted_of_prefix (hhead (by simpa using hne)) (hinit'.trans hinit)
          hquestion hhash'
        dsimp only at hroot ⊢
        rw [hroot]
  · cases h

end Lib
