import WhatsAppBot.Config.Redis

/-!
# Credentials that read back

`applyRedisCredentials` composes a new `netloc` for a Redis URL without a password. `round_trip_iff`:
what it returns reads back as the credentials that were given and the URL as it was, exactly if the
URL is `Injectable`. That a URL without a host means `localhost` is part of the purpose here.
-/

set_option autoImplicit false

namespace Config

open Lib

variable {L : Lowercase} {url username password r : Chars} {tls : Bool} {parts parts' : SplitResult}
  {c : Char}

/-- The bytes a percent-encoded text stands for. -/
def unquote (s : Chars) : List UInt8 := unquoteToBytes (encodeUtf8 s)

/-- What was read from the URL is in the new one, with the credentials; a username that is not given
is the URL's own. -/
structure Carries (L : Lowercase) (parts parts' : SplitResult) (username password : Chars) : Prop where
  password : unquote (parts'.password.getD []) = encodeUtf8 password
  username : unquote (parts'.username.getD []) =
    if username = [] then unquote (parts.username.getD []) else encodeUtf8 username
  host : hostOf L parts' = hostOf L parts
  port : parts'.port = parts.port
  path : parts'.path = parts.path
  query : parts'.query = parts.query

/-- A Redis URL that has no password yet. -/
structure Open (url : Chars) (parts : SplitResult) : Prop where
  urlsplit : urlsplit url = some parts
  scheme : parts.scheme ∈ redisSchemes
  password : hasPassword parts = false

/-- **The credentials round-trip**: nothing is raised, doing it again changes nothing, and what is
returned carries the credentials; another URL is left alone. -/
def RoundTrips (L : Lowercase) (url username password : Chars) (tls : Bool) : Prop :=
  ∃ r, applyRedisCredentials L url username password tls = some r ∧
    applyRedisCredentials L r username password tls = some r ∧
      (∀ parts, Open url parts →
        ∃ parts', urlsplit r = some parts' ∧ Carries L parts parts' username password) ∧
          ((∀ parts, urlsplit url = some parts → parts.scheme ∉ redisSchemes) → r = url)

/-- What the URL must be like. -/
structure Injectable (L : Lowercase) (parts : SplitResult) (username password : Chars) : Prop where
  /-- A username alone is not put in. -/
  alone : password = [] → username = [] ∨ unquote (parts.username.getD []) = encodeUtf8 username
  /-- The port can be read, and is not 0. -/
  port : password ≠ [] → ∃ port, parts.port = some port ∧ port ≠ some 0
  /-- The URL's own username is not kept. -/
  username : password ≠ [] → username = [] → parts.username.getD [] = []
  path : password ≠ [] → rooted parts.path = parts.path
  /-- Brackets without a colon between them are lost. -/
  host : password ≠ [] → ':' ∈ hostOf L parts ∨ '[' ∉ hostOf L parts ∧ ']' ∉ hostOf L parts

/-! ## The host -/

theorem localhost_spec (c : Char) (h : c ∈ localhost) : c.toNat < 128 ∧
    ¬(c.toNat < 128 ∧ c.isAlpha = false ∨ c ∈ expands) := by
  have hall : (localhost.all fun c => c.toNat < 128 &&
      !decide (c.toNat < 128 ∧ c.isAlpha = false ∨ c ∈ expands)) = true := by decide
  simpa only [Bool.and_eq_true, decide_eq_true_eq, Bool.not_eq_true', decide_eq_false_iff_not] using
    List.all_eq_true.mp hall c h

theorem lowerHost_localhost : lowerHost L localhost = localhost := by
  rw [lowerHost_of_notMem (by decide), L.lower_ascii fun c hc => (localhost_spec c hc).1]
  decide

theorem hostOf_eq (L : Lowercase) (parts : SplitResult) : hostOf L parts =
    if parts.hostinfo.1 = [] then localhost else lowerHost L parts.hostinfo.1 := by
  unfold hostOf SplitResult.hostname
  by_cases h : parts.hostinfo.1 = []
  · rw [if_pos h, if_pos (List.isEmpty_iff.mpr h)]
    rfl
  · have hlower : lowerHost L parts.hostinfo.1 ≠ [] := fun heq => h (lowerHost_eq_nil_iff.mp heq)
    rw [if_neg h, if_neg fun heq => h (List.isEmpty_iff.mp heq), Option.filter_some,
      if_pos (by simpa using hlower)]
    rfl

/-- The host that is written is in lower case, and made of what the URL has. -/
structure HostOk (L : Lowercase) (netloc host : Chars) : Prop extends IsHost host where
  ne_nil : host ≠ []
  lower : lowerHost L host = host
  mem : ∀ c ∈ host, c.toNat < 128 ∧ c.isAlpha = false ∨ c ∈ expands → c ∈ netloc

theorem hostOk_hostOf (h : checks parts.netloc = true) : HostOk L parts.netloc (hostOf L parts) := by
  rw [checks, Bool.and_eq_true] at h
  obtain ⟨hhost, hmem⟩ := isHost_hostPort h.1
  rw [hostOf_eq]
  split
  · exact ⟨⟨by decide, by decide, by decide⟩, by decide, lowerHost_localhost,
      fun c hc hplain => absurd hplain (localhost_spec c hc).2⟩
  · rename_i hne
    change parts.hostinfo.1 ≠ [] at hne
    have hmem' (c : Char) (hc : c ∈ lowerHost L parts.hostinfo.1)
        (hplain : c.toNat < 128 ∧ c.isAlpha = false ∨ c ∈ expands) : c ∈ parts.hostinfo.1 := by
      rcases hplain with ⟨hascii, halpha⟩ | hexpands
      · exact (mem_lowerHost_iff hascii halpha).mp hc
      · exact mem_of_mem_lowerHost hexpands hc
    have hiff (c : Char) (hascii : c.toNat < 128) (halpha : c.isAlpha = false) :=
      @mem_lowerHost_iff L parts.hostinfo.1 c hascii halpha
    refine ⟨⟨?_, ?_, ?_⟩, fun heq => hne (lowerHost_eq_nil_iff.mp heq), lowerHost_lowerHost,
      fun c hc hplain => hmem c (hmem' c hc hplain)⟩
    · rw [hiff '@' (by decide) rfl]
      exact hhost.at_notMem
    · rw [hiff '[' (by decide) rfl, hiff ']' (by decide) rfl]
      exact hhost.not_both
    · rw [hiff ':' (by decide) rfl, hiff ']' (by decide) rfl]
      exact fun h => (hhost.address h).imp_right checkBracketedHost_lowerHost

/-! ## The new `netloc` -/

/-- The port as it is written. -/
def portText : Option Nat → Chars
  | some (n + 1) => Nat.toDigits 10 (n + 1)
  | _ => []

theorem authority_eq (host : Chars) (port : Option Nat) :
    authority host port = withBrackets host ++ withTail ':' (portText port) := by
  unfold authority portText withTail
  rcases port with _ | _ | n
  · exact (List.append_nil _).symm
  · exact (List.append_nil _).symm
  · have hne : (Nat.toDigits 10 (n + 1)).isEmpty = false :=
      List.isEmpty_eq_false_iff.mpr Nat.toDigits_ne_nil
    rw [hne]
    rfl

/-- What neither credentials nor a port have in them. -/
def reserved : Chars := ['\t', '\r', '\n', '/', '?', '#', '@', ':', '[', ']'] ++ expands

theorem reserved_spec (c : Char) (h : c ∈ reserved) : isUnreserved c = false ∧ c ≠ '%' ∧
    c.isDigit = false ∧ (c.toNat < 128 ∧ c.isAlpha = false ∨ c ∈ expands) := by
  have hall : (reserved.all fun c => decide (isUnreserved c = false ∧ c ≠ '%' ∧ c.isDigit = false ∧
      (c.toNat < 128 ∧ c.isAlpha = false ∨ c ∈ expands))) = true := by decide
  exact of_decide_eq_true (List.all_eq_true.mp hall c h)

theorem notMem_quote (h : c ∈ reserved) (s : Chars) : c ∉ quote s := fun hc => by
  obtain ⟨hunreserved, hpercent, -⟩ := reserved_spec c h
  rcases isUnreserved_of_mem_quote hc with heq | heq
  · rw [hunreserved] at heq
    cases heq
  · exact hpercent heq

theorem notMem_portText (h : c ∈ reserved) (port : Option Nat) : c ∉ portText port := fun hc => by
  obtain ⟨-, -, hdigit, -⟩ := reserved_spec c h
  unfold portText at hc
  split at hc
  · rw [Nat.isDigit_of_mem_toDigits (by decide) (by decide) hc] at hdigit
    cases hdigit
  · cases hc

variable {port : Option Nat} {host : Chars}

/-- The credentials and the host with its port. -/
def newNetloc (username password host : Chars) (port : Option Nat) : Chars :=
  quote username ++ ':' :: quote password ++ '@' :: authority host port

theorem mem_newNetloc (hreserved : c ∈ reserved)
    (h : c ∈ newNetloc username password host port) (hcolon : c ≠ ':') (hat : c ≠ '@') :
    (c = '[' ∨ c = ']') ∨ c ∈ host := by
  rw [newNetloc, authority_eq] at h
  simp only [List.mem_append, List.mem_cons, notMem_quote hreserved, hcolon, hat, false_or] at h
  rcases h with h | h
  · unfold withBrackets at h
    split at h
    · simp only [List.cons_append, List.mem_cons, List.mem_append, List.not_mem_nil, or_false] at h
      tauto
    · exact .inr h
  · exact absurd (mem_withTail h) (by simp [hcolon, notMem_portText hreserved])

theorem expands_reserved (h : c ∈ expands) :
    c ∈ reserved ∧ c ≠ ':' ∧ c ≠ '@' ∧ ¬(c = '[' ∨ c = ']') := by
  have hall : (expands.all fun c => decide (c ∈ reserved ∧ c ≠ ':' ∧ c ≠ '@' ∧
      ¬(c = '[' ∨ c = ']'))) = true := by decide
  exact of_decide_eq_true (List.all_eq_true.mp hall c h)

theorem checkNetloc_newNetloc (hchecks : checks parts.netloc = true)
    (hhost : HostOk L parts.netloc host) :
    checkNetloc (newNetloc username password host port) = true := by
  rw [checks, Bool.and_eq_true, checkNetloc, List.all_eq_true] at hchecks
  rw [checkNetloc, List.all_eq_true]
  intro c hc
  rw [Bool.not_eq_true', List.contains_eq_mem, decide_eq_false_iff_not]
  intro hexpands
  obtain ⟨hreserved, hcolon, hat, hbracket⟩ := expands_reserved hexpands
  have hmem := (mem_newNetloc hreserved hc hcolon hat).resolve_left hbracket
  have hnot := hchecks.2 c (hhost.mem c hmem (.inr hexpands))
  rw [Bool.not_eq_true', List.contains_eq_mem, decide_eq_false_iff_not] at hnot
  exact hnot hexpands

theorem checks_newNetloc_iff (hchecks : checks parts.netloc = true)
    (hhost : HostOk L parts.netloc host) :
    checks (newNetloc username password host port) = true ↔
      ':' ∈ host ∨ '[' ∉ host ∧ ']' ∉ host := by
  have hquote (c : Char) (hreserved : c ∈ reserved) (hcolon : c ≠ ':') :
      c ∉ quote username ++ ':' :: quote password := by
    simp [notMem_quote hreserved, hcolon]
  rw [checks, checkNetloc_newNetloc hchecks hhost, Bool.and_true, newNetloc, authority_eq]
  refine checkBrackets_iff hhost.toIsHost ⟨hquote _ ?_ ?_, hquote _ ?_ ?_⟩
    ⟨notMem_portText ?_ port, notMem_portText ?_ port, notMem_portText ?_ port⟩
  all_goals decide

theorem delimiter_reserved (h : isDelimiter c = true) :
    c ∈ reserved ∧ c ≠ ':' ∧ c ≠ '@' ∧ ¬(c = '[' ∨ c = ']') := by
  simp only [isDelimiter, Bool.or_eq_true, beq_iff_eq] at h
  rcases h with (rfl | rfl) | rfl <;> decide

theorem unsafe_reserved (h : isUnsafe c = true) :
    c ∈ reserved ∧ c ≠ ':' ∧ c ≠ '@' ∧ ¬(c = '[' ∨ c = ']') := by
  simp only [isUnsafe, Bool.or_eq_true, beq_iff_eq] at h
  rcases h with (rfl | rfl) | rfl <;> decide

theorem mem_netloc_of_newNetloc (hhost : HostOk L parts.netloc host)
    (hc : c ∈ newNetloc username password host port)
    (h : c ∈ reserved ∧ c ≠ ':' ∧ c ≠ '@' ∧ ¬(c = '[' ∨ c = ']')) : c ∈ parts.netloc := by
  obtain ⟨hreserved, hcolon, hat, hbracket⟩ := h
  obtain ⟨-, -, -, hplain⟩ := reserved_spec c hreserved
  exact hhost.mem c ((mem_newNetloc hreserved hc hcolon hat).resolve_left hbracket) hplain

theorem redisScheme_spec : ∀ scheme ∈ redisSchemes, scheme.head?.any Char.isAlpha = true ∧
    scheme.all isSchemeChar = true ∧ scheme.map Char.toLower = scheme := by
  decide

/-- The new parts fit as the old ones did. -/
theorem fits_newNetloc (hfits : Fits parts) (hhost : HostOk L parts.netloc host) {scheme : Chars}
    (hscheme : scheme ∈ redisSchemes) :
    Fits { parts with scheme, netloc := newNetloc username password host port } := by
  obtain ⟨halpha, hchars, hlower⟩ := redisScheme_spec scheme hscheme
  refine ⟨halpha, hchars, hlower, fun c hc => ?_, fun c hc => ?_, hfits.path, hfits.query⟩
  · rcases hc with hc | hc
    · by_contra hunsafe
      rw [Bool.not_eq_false] at hunsafe
      have hmem := mem_netloc_of_newNetloc hhost hc (unsafe_reserved hunsafe)
      rw [hfits.safe c (.inl hmem)] at hunsafe
      cases hunsafe
    · exact hfits.safe c (.inr hc)
  · by_contra hdelimiter
    rw [Bool.not_eq_false] at hdelimiter
    have hmem := mem_netloc_of_newNetloc hhost hc (delimiter_reserved hdelimiter)
    rw [hfits.netloc c hmem] at hdelimiter
    cases hdelimiter

/-! ## Reading the new `netloc` -/

section

variable (hhost : HostOk L parts.netloc host) (hbrackets : ':' ∈ host ∨ '[' ∉ host ∧ ']' ∉ host)
  (hnetloc : parts'.netloc = newNetloc username password host port)

include hhost

theorem at_notMem_authority : '@' ∉ authority host port := by
  have hat := hhost.at_notMem
  rw [authority_eq, withBrackets]
  split <;> simp [hat, withTail, notMem_portText (show '@' ∈ reserved by decide)]

include hnetloc

theorem userinfo_newNetloc : parts'.userinfo = (some (quote username), some (quote password)) :=
  userinfo_of hnetloc (notMem_quote (by decide) _) (at_notMem_authority hhost)

include hbrackets

theorem hostinfo_newNetloc : parts'.hostinfo =
    (host, if (portText port).isEmpty then none else some (portText port)) := by
  have hinner : ':' ∈ host ∧ ']' ∉ host ∨ '[' ∉ host ∧ ':' ∉ host := by
    by_cases hcolon : ':' ∈ host
    · exact .inl ⟨hcolon, (hhost.address hcolon).1⟩
    · exact .inr ⟨(hbrackets.resolve_left hcolon).1, hcolon⟩
  rw [hostinfo_of hnetloc (at_notMem_authority hhost), authority_eq,
    hostPort_withBrackets hinner (notMem_portText (by decide) port)]

theorem hostOf_newNetloc : hostOf L parts' = host := by
  rw [hostOf_eq, hostinfo_newNetloc hhost hbrackets hnetloc, if_neg hhost.ne_nil]
  exact hhost.lower

theorem port_newNetloc (hport : ∀ n, port = some n → n ≤ 65535) :
    parts'.port = some (port.filter fun n => n ≠ 0) := by
  rw [SplitResult.port, hostinfo_newNetloc hhost hbrackets hnetloc]
  rcases port with _ | _ | n
  · rfl
  · rfl
  · have hne : (Nat.toDigits 10 (n + 1)).isEmpty = false :=
      List.isEmpty_eq_false_iff.mpr Nat.toDigits_ne_nil
    have hn := hport _ rfl
    have hdigits : (Nat.toDigits 10 (n + 1)).all Char.isDigit = true :=
      List.all_eq_true.mpr fun c hc => Nat.isDigit_of_mem_toDigits (by decide) (by decide) hc
    have hlength : (Nat.toDigits 10 (n + 1)).length ≤ 5 :=
      (Nat.length_toDigits_le_iff (by decide) (by decide)).mpr (by omega)
    have hvalue : Nat.ofDigitChars 10 (Nat.toDigits 10 (n + 1)) 0 = n + 1 :=
      Nat.ofDigitChars_toDigits (by decide) (by decide)
    have hshort : (Nat.toDigits 10 (n + 1)).length ≤ SplitResult.maxStrDigits :=
      hlength.trans (by decide)
    simp [portText, hne, hdigits, hvalue, hshort, hn, Option.filter_some]

end

theorem port_le {n : Nat} (h : parts.port = some (some n)) : n ≤ 65535 := by
  unfold SplitResult.port at h
  split at h
  · cases h
  · split at h
    · rename_i hdigits
      simp only [Bool.and_eq_true, decide_eq_true_eq] at hdigits
      rw [← Option.some.inj (Option.some.inj h)]
      exact hdigits.2
    · cases h

/-! ## The function -/

/-- The scheme that is written. -/
def newScheme (tls : Bool) (parts : SplitResult) : Chars :=
  if tls then "rediss".toList else parts.scheme

theorem newScheme_mem (h : parts.scheme ∈ redisSchemes) : newScheme tls parts ∈ redisSchemes := by
  unfold newScheme
  split
  · decide
  · exact h

theorem apply_other (h : ∀ parts, urlsplit url = some parts → parts.scheme ∉ redisSchemes) :
    applyRedisCredentials L url username password tls = some url := by
  unfold applyRedisCredentials
  split
  · rfl
  · split
    · rfl
    · rename_i parts hparts
      exact if_pos (by simpa using h parts hparts)

theorem scheme_ne_nil (h : parts.scheme ∈ redisSchemes) : parts.scheme ≠ [] := by
  have hne : ∀ scheme ∈ redisSchemes, scheme ≠ [] := by decide
  exact hne _ h

section

variable (hurl : urlsplit url = some parts) (hscheme : parts.scheme ∈ redisSchemes)

include hurl hscheme

theorem url_ne_nil : url.isEmpty = false := by
  rw [List.isEmpty_eq_false_iff]
  rintro rfl
  obtain rfl := Option.some.inj (hurl.symm.trans (show urlsplit [] = some ⟨[], [], [], [], []⟩ from rfl))
  exact scheme_ne_nil hscheme rfl

/-- Without anything to put in, the URL is put together as it was. -/
theorem apply_kept (h : hasPassword parts = true ∨ password = []) :
    applyRedisCredentials L url username password tls =
      some (urlunsplit { parts with scheme := newScheme tls parts }) := by
  have hmem : redisSchemes.contains parts.scheme = true := by simpa using hscheme
  rw [applyRedisCredentials, url_ne_nil hurl hscheme, hurl]
  dsimp only
  rw [hmem]
  rcases h with h | rfl
  · rw [h]
    rfl
  · cases hasPassword parts <;> rfl

theorem apply_put (hpassword : hasPassword parts = false) (h : password ≠ []) :
    applyRedisCredentials L url username password tls = parts.port.map fun port =>
      urlunsplit { parts with
        scheme := newScheme tls parts
        netloc := newNetloc username password (hostOf L parts) port } := by
  have hmem : redisSchemes.contains parts.scheme = true := by simpa using hscheme
  have hne : password.isEmpty = false := List.isEmpty_eq_false_iff.mpr h
  rw [applyRedisCredentials, url_ne_nil hurl hscheme, hurl]
  dsimp only
  rw [hmem, hpassword, hne]
  cases parts.port <;> rfl

end

/-- A URL that was made stays as it is. -/
theorem apply_again (hurl : urlsplit (urlunsplit parts) = some parts)
    (hscheme : parts.scheme ∈ redisSchemes) (htls : newScheme tls parts = parts.scheme)
    (h : hasPassword parts = true ∨ password = []) :
    applyRedisCredentials L (urlunsplit parts) username password tls = some (urlunsplit parts) := by
  rw [apply_kept hurl hscheme h, htls]

theorem Open.unique (h : Open url parts) (h' : Open url parts') : parts' = parts :=
  Option.some.inj (h'.urlsplit.symm.trans h.urlsplit)

/-! ## Nothing to put in -/

theorem urlsplit_kept (hurl : urlsplit url = some parts) (hscheme : parts.scheme ∈ redisSchemes) :
    urlsplit (urlunsplit { parts with scheme := newScheme tls parts }) =
      some { parts with scheme := newScheme tls parts } := by
  obtain ⟨hfits, hchecks, hplaced⟩ := fits_of_urlsplit hurl (scheme_ne_nil hscheme)
  obtain ⟨halpha, hchars, hlower⟩ := redisScheme_spec _ (@newScheme_mem tls parts hscheme)
  have hfits' : Fits { parts with scheme := newScheme tls parts } :=
    ⟨halpha, hchars, hlower, hfits.safe, hfits.netloc, hfits.path, hfits.query⟩
  have hplaced' : ({ parts with scheme := newScheme tls parts } : SplitResult).placed =
      { parts.placed with scheme := newScheme tls parts } := by
    unfold SplitResult.placed
    dsimp only
    split <;> rfl
  rw [urlsplit_urlunsplit hfits', if_pos hchecks, hplaced', hplaced]

theorem round_trips_other (h : ∀ parts, urlsplit url = some parts → parts.scheme ∉ redisSchemes) :
    RoundTrips L url username password tls :=
  ⟨url, apply_other h, apply_other h, fun parts hopen => absurd hopen.scheme (h parts hopen.urlsplit),
    fun _ => rfl⟩

theorem round_trips_kept (hurl : urlsplit url = some parts) (hscheme : parts.scheme ∈ redisSchemes)
    (h : hasPassword parts = true) : RoundTrips L url username password tls := by
  refine ⟨_, apply_kept hurl hscheme (.inl h), ?_, fun parts' hopen => ?_, fun hother => ?_⟩
  · exact apply_again (urlsplit_kept hurl hscheme) (newScheme_mem hscheme) (by cases tls <;> rfl)
      (.inl h)
  · rw [Option.some.inj (hopen.urlsplit.symm.trans hurl)] at hopen
    rw [hopen.password] at h
    cases h
  · exact absurd hscheme (hother parts hurl)

theorem password_eq_nil (h : hasPassword parts = false) : parts.password.getD [] = [] := by
  unfold hasPassword at h
  cases hp : parts.password with
  | none => rfl
  | some password =>
    rw [hp] at h
    simpa using h

theorem round_trips_alone_iff (hopen : Open url parts) : RoundTrips L url username [] tls ↔
    username = [] ∨ unquote (parts.username.getD []) = encodeUtf8 username := by
  have hkept := @urlsplit_kept url tls parts hopen.urlsplit hopen.scheme
  constructor
  · rintro ⟨r, happly, -, hcarries, -⟩
    rw [apply_kept hopen.urlsplit hopen.scheme (.inr rfl)] at happly
    obtain rfl := Option.some.inj happly
    obtain ⟨parts', hparts', h⟩ := hcarries parts hopen
    obtain rfl := Option.some.inj (hkept.symm.trans hparts')
    by_cases husername : username = []
    · exact .inl husername
    · have hname := h.username
      rw [if_neg husername] at hname
      exact .inr hname
  · intro h
    refine ⟨_, apply_kept hopen.urlsplit hopen.scheme (.inr rfl), ?_, fun parts' hopen' => ?_,
      fun hother => absurd hopen.scheme (hother parts hopen.urlsplit)⟩
    · exact apply_again hkept (newScheme_mem hopen.scheme) (by cases tls <;> rfl) (.inr rfl)
    · rw [hopen.unique hopen']
      refine ⟨_, hkept, ?_, ?_, rfl, rfl, rfl, rfl⟩
      · change unquote (parts.password.getD []) = _
        rw [password_eq_nil hopen.password]
        rfl
      · change unquote (parts.username.getD []) = _
        split
        · rfl
        · rename_i husername
          exact h.resolve_left husername

/-! ## Credentials put in -/

/-- The URL with the credentials, in its parts. -/
def putParts (L : Lowercase) (tls : Bool) (parts : SplitResult) (username password : Chars)
    (port : Option Nat) : SplitResult :=
  { parts with
    scheme := newScheme tls parts
    netloc := newNetloc username password (hostOf L parts) port }

theorem newNetloc_ne_nil : newNetloc username password host port ≠ [] := by simp [newNetloc]

theorem urlsplit_put (hopen : Open url parts) :
    urlsplit (urlunsplit (putParts L tls parts username password port)) =
      if checks (newNetloc username password (hostOf L parts) port) then
        some { putParts L tls parts username password port with path := rooted parts.path }
      else none := by
  obtain ⟨hfits, hchecks, -⟩ := fits_of_urlsplit hopen.urlsplit (scheme_ne_nil hopen.scheme)
  have hfits' : Fits (putParts L tls parts username password port) :=
    fits_newNetloc hfits (hostOk_hostOf hchecks) (newScheme_mem hopen.scheme)
  have hplaced : (putParts L tls parts username password port).placed =
      { putParts L tls parts username password port with path := rooted parts.path } :=
    if_neg fun h => newNetloc_ne_nil (List.isEmpty_iff.mp h)
  rw [urlsplit_urlunsplit hfits', hplaced]
  rfl

theorem unquote_eq_nil_iff {s : Chars} : unquote s = [] ↔ s = [] := by
  constructor
  · intro h
    by_contra hne
    exact unquoteToBytes_ne_nil (fun hnil => hne (encodeUtf8_eq_nil_iff.mp hnil)) h
  · rintro rfl
    rfl

theorem carries_put_iff (hopen : Open url parts) (hport : parts.port = some port)
    (hbrackets : ':' ∈ hostOf L parts ∨ '[' ∉ hostOf L parts ∧ ']' ∉ hostOf L parts) :
    Carries L parts { putParts L tls parts username password port with path := rooted parts.path }
        username password ↔
      port ≠ some 0 ∧ (username = [] → parts.username.getD [] = []) ∧
        rooted parts.path = parts.path := by
  obtain ⟨-, hchecks, -⟩ := fits_of_urlsplit hopen.urlsplit (scheme_ne_nil hopen.scheme)
  have hhost : HostOk L parts.netloc (hostOf L parts) := hostOk_hostOf hchecks
  generalize hq : ({ putParts L tls parts username password port with path := rooted parts.path } :
    SplitResult) = q
  have hnetloc : q.netloc = newNetloc username password (hostOf L parts) port := by
    rw [← hq]
    rfl
  have huserinfo := userinfo_newNetloc hhost hnetloc
  have hqport := port_newNetloc hhost hbrackets hnetloc fun n hn => port_le (hn ▸ hport)
  have husername : unquote (q.username.getD []) = encodeUtf8 username := by
    rw [SplitResult.username, huserinfo]
    exact unquoteToBytes_quote username
  constructor
  · intro h
    refine ⟨?_, fun hnone => ?_, ?_⟩
    · rintro rfl
      have hzero := h.port
      rw [hqport, hport] at hzero
      cases hzero
    · have hname := h.username
      rw [husername, if_pos hnone, hnone] at hname
      exact unquote_eq_nil_iff.mp hname.symm
    · have hpath := h.path
      rw [← hq] at hpath
      exact hpath
  · rintro ⟨hzero, hname, hpath⟩
    refine ⟨?_, ?_, hostOf_newNetloc hhost hbrackets hnetloc, ?_, ?_, ?_⟩
    · rw [SplitResult.password, huserinfo]
      exact unquoteToBytes_quote password
    · rw [husername]
      split
      · rename_i hnone
        rw [hname hnone, hnone]
        rfl
      · rfl
    · rw [hqport, hport]
      rcases port with _ | _ | n
      · rfl
      · exact absurd rfl hzero
      · rfl
    · rw [← hq]
      exact hpath
    · rw [← hq]
      rfl

theorem round_trips_put_iff (hopen : Open url parts) (hpassword : password ≠ []) :
    RoundTrips L url username password tls ↔ Injectable L parts username password := by
  obtain ⟨-, hchecks, -⟩ := fits_of_urlsplit hopen.urlsplit (scheme_ne_nil hopen.scheme)
  have happly := @apply_put L url username password tls parts hopen.urlsplit hopen.scheme
    hopen.password hpassword
  have hhost : HostOk L parts.netloc (hostOf L parts) := hostOk_hostOf hchecks
  constructor
  · rintro ⟨r, hr, -, hcarries, -⟩
    rw [happly] at hr
    obtain ⟨port, hport, rfl⟩ := Option.map_eq_some_iff.mp hr
    obtain ⟨parts', hparts', h⟩ := hcarries parts hopen
    change urlsplit (urlunsplit (putParts L tls parts username password port)) = _ at hparts'
    rw [urlsplit_put hopen] at hparts'
    split at hparts'
    · rename_i hpasses
      have hbrackets := (checks_newNetloc_iff hchecks hhost).mp hpasses
      obtain rfl := Option.some.inj hparts'
      obtain ⟨hzero, hname, hpath⟩ := (carries_put_iff hopen hport hbrackets).mp h
      exact ⟨fun hnil => absurd hnil hpassword, fun _ => ⟨port, hport, hzero⟩, fun _ => hname,
        fun _ => hpath, fun _ => hbrackets⟩
    · cases hparts'
  · intro h
    obtain ⟨port, hport, hzero⟩ := h.port hpassword
    have hbrackets := h.host hpassword
    have hpath := h.path hpassword
    have hread : urlsplit (urlunsplit (putParts L tls parts username password port)) =
        some (putParts L tls parts username password port) := by
      rw [urlsplit_put hopen, if_pos ((checks_newNetloc_iff hchecks hhost).mpr hbrackets), hpath]
      rfl
    have hcarries : Carries L parts
        { putParts L tls parts username password port with path := rooted parts.path }
        username password :=
      (carries_put_iff hopen hport hbrackets).mpr ⟨hzero, h.username hpassword, hpath⟩
    have hhas : hasPassword (putParts L tls parts username password port) = true := by
      rw [hasPassword, SplitResult.password, userinfo_newNetloc hhost rfl]
      simpa using quote_ne_nil hpassword
    refine ⟨urlunsplit (putParts L tls parts username password port), ?_, ?_, fun parts' hopen' => ?_,
      fun hother => absurd hopen.scheme (hother parts hopen.urlsplit)⟩
    · rw [happly, hport]
      rfl
    · exact apply_again hread (newScheme_mem hopen.scheme) (by cases tls <;> rfl) (.inl hhas)
    · rw [hopen.unique hopen']
      rw [hpath] at hcarries
      exact ⟨_, hread, hcarries⟩

/-- **The credentials round-trip** exactly for the URLs that are not Redis's, that have a password, or
that are `Injectable`. -/
theorem round_trip_iff (L : Lowercase) (url username password : Chars) (tls : Bool) :
    RoundTrips L url username password tls ↔
      ∀ parts, Open url parts → Injectable L parts username password := by
  by_cases hother : ∀ parts, urlsplit url = some parts → parts.scheme ∉ redisSchemes
  · exact iff_of_true (round_trips_other hother) fun parts hopen =>
      absurd hopen.scheme (hother parts hopen.urlsplit)
  push Not at hother
  obtain ⟨parts, hurl, hscheme⟩ := hother
  by_cases hhas : hasPassword parts = true
  · refine iff_of_true (round_trips_kept hurl hscheme hhas) fun parts' hopen => ?_
    rw [Option.some.inj (hopen.urlsplit.symm.trans hurl)] at hopen
    rw [hopen.password] at hhas
    cases hhas
  have hopen : Open url parts := ⟨hurl, hscheme, Bool.eq_false_iff.mpr hhas⟩
  have hparts : (∀ parts, Open url parts → Injectable L parts username password) ↔
      Injectable L parts username password :=
    ⟨fun h => h parts hopen, fun h parts' hopen' => hopen.unique hopen' ▸ h⟩
  rw [hparts]
  by_cases hpassword : password = []
  · subst hpassword
    rw [round_trips_alone_iff hopen]
    constructor
    · exact fun h => ⟨fun _ => h, fun hne => absurd rfl hne, fun hne => absurd rfl hne,
        fun hne => absurd rfl hne, fun hne => absurd rfl hne⟩
    · exact fun h => h.alone rfl
  · exact round_trips_put_iff hopen hpassword

/-- The check at start-up sees the password that was put in. -/
theorem redisUrlHasPassword_of_carries (hr : urlsplit r = some parts')
    (h : Carries L parts parts' username password) (hpassword : password ≠ []) :
    redisUrlHasPassword r = true := by
  have hne : parts'.password.getD [] ≠ [] := fun hnil => by
    have hread := h.password
    rw [hnil] at hread
    exact hpassword (encodeUtf8_eq_nil_iff.mp hread.symm)
  have hhas : hasPassword parts' = true := by
    unfold hasPassword
    cases hp : parts'.password with
    | none =>
      rw [hp] at hne
      exact absurd rfl hne
    | some password =>
      rw [hp] at hne
      simpa using hne
  rw [redisUrlHasPassword, hr, Option.any_some, hhas, Bool.and_true, Bool.not_eq_true',
    List.isEmpty_eq_false_iff]
  rintro rfl
  obtain rfl := Option.some.inj hr
  exact hne rfl

/-- A port that is out of range raises. -/
theorem credentials_lost : ¬∀ (L : Lowercase) (url username password : Chars) (tls : Bool),
    RoundTrips L url username password tls := by
  intro h
  obtain ⟨r, hr, -⟩ := h asciiLowercase "redis://redis:65536/0".toList [] "s3cret".toList false
  have hraises : applyRedisCredentials asciiLowercase "redis://redis:65536/0".toList []
      "s3cret".toList false = none := by decide
  rw [hraises] at hr
  cases hr

end Config
