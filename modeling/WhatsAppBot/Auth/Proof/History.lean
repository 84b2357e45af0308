import Mathlib.Data.List.Induction
import WhatsAppBot.Auth.Proof.Register

/-!
# Sessions authenticate as issued

The grant of a token read off the history: the login that drew it (`Register.exists_login`), and
whether a revocation followed (`Register.run_grants_login`). With the refinement, who is behind a
token is what the history says, and a purge is not noticed (`sessions_as_issued`).
-/

set_option autoImplicit false

namespace Auth

open Lib Store

section

variable {hashing : Hashing} {known : Set String} {t : Time}

/-! ## History -/

/-- Whether an event revokes the token. -/
def Event.revokes (token : String) : Event → Bool
  | .revoke presented _ => presented = token
  | _ => false

namespace Register

variable {r : Register} {token : String}

theorem step_grants_undrawn {e : Event} (h : e.drawn ≠ some token) :
    (r.step hashing e).grants token =
      (r.grants token).map fun g => { g with revoked := g.revoked || e.revokes token } := by
  cases e with
  | login username password userAgent ipAddress drawn now =>
    have hne : token ≠ drawn.text := fun heq => h (congrArg some heq.symm)
    simp only [step]
    split
    · simp [Event.revokes]
    · simp [Event.revokes, hne]
  | revoke presented now =>
    by_cases heq : token = presented
    · subst heq
      simp only [step, Function.update_self, Event.revokes, decide_true, Bool.or_true]
      rfl
    · simp [step, Event.revokes, heq, Ne.symm heq]
  | _ => simp [step, Event.revokes]

/-- While no login draws the token, only a revocation changes its grant. -/
theorem run_grants_undrawn {events : List Event} (h : token ∉ events.filterMap Event.drawn) :
    (r.run hashing events).grants token =
      (r.grants token).map fun g =>
        { g with revoked := g.revoked || events.any (·.revokes token) } := by
  induction events generalizing r with
  | nil => simp [run]
  | cons e events ih =>
    have he : e.drawn ≠ some token := fun hdrawn => h (List.mem_filterMap.mpr ⟨e, by simp, hdrawn⟩)
    have hrest : token ∉ events.filterMap Event.drawn := by
      intro hmem
      obtain ⟨x, hx, hdrawn⟩ := List.mem_filterMap.mp hmem
      exact h (List.mem_filterMap.mpr ⟨x, List.mem_cons_of_mem _ hx, hdrawn⟩)
    show ((r.step hashing e).run hashing events).grants token = _
    rw [ih hrest, step_grants_undrawn he, Option.map_map]
    simp [Function.comp_def, Bool.or_assoc]

/-- A grant comes from a login. -/
theorem exists_login {events : List Event} {g : Grant} (hnone : r.grants token = none)
    (h : (r.run hashing events).grants token = some g) :
    ∃ pre username password userAgent ipAddress drawn now since o,
      events = pre ++ .login username password userAgent ipAddress drawn now :: since ∧
        drawn.text = token ∧
        (r.run hashing pre).operators.authenticate hashing username password = some o := by
  induction events using List.reverseRecOn generalizing g with
  | nil =>
    rw [show (r.run hashing []).grants token = none from hnone] at h
    cases h
  | append_singleton events e ih =>
    rw [run_concat] at h
    cases hbefore : (r.run hashing events).grants token with
    | some g' =>
      obtain ⟨pre, username, password, userAgent, ipAddress, drawn, now, since, o, rfl, hlogin⟩ :=
        ih hbefore
      exact ⟨pre, username, password, userAgent, ipAddress, drawn, now, since ++ [e], o, by simp,
        hlogin⟩
    | none =>
      have hdrawn : e.drawn = some token := by
        by_contra hne
        rw [step_grants_undrawn hne, hbefore] at h
        cases h
      cases e with
      | login username password userAgent ipAddress drawn now =>
        cases hauth : (r.run hashing events).operators.authenticate hashing username password with
        | none =>
          simp only [step, hauth, hbefore] at h
          cases h
        | some o =>
          exact ⟨events, username, password, userAgent, ipAddress, drawn, now, [], o, rfl,
            Option.some.inj hdrawn, hauth⟩
      | _ => cases hdrawn

/-- The grant a login leaves, once the rest of the run is over. -/
theorem run_grants_login {pre since : List Event} {username password : String}
    {userAgent ipAddress : Option String} {drawn : Token} {now : Time} {o : Operator}
    (hauth : (r.run hashing pre).operators.authenticate hashing username password = some o)
    (hdistinct : ((pre ++ .login username password userAgent ipAddress drawn now ::
      since).filterMap Event.drawn).Nodup) :
    (r.run hashing (pre ++ .login username password userAgent ipAddress drawn now :: since)).grants
        drawn.text =
      some ⟨o.id, now + sessionTtl, since.any (·.revokes drawn.text)⟩ := by
  have hsince : drawn.text ∉ since.filterMap Event.drawn := by
    rw [List.filterMap_append] at hdistinct
    exact (List.nodup_cons.mp (List.nodup_append.mp hdistinct).2.1).1
  rw [run_append]
  show (((r.run hashing pre).step hashing (.login ..)).run hashing since).grants _ = _
  rw [run_grants_undrawn hsince]
  simp [step, hauth]

end Register

/-! ## Runs of the tables -/

/-- No token is drawn twice, and the hash tells the tokens of the run apart. -/
structure Legal (hashing : Hashing) (events : List Event) (token : String) : Prop where
  distinct : (events.filterMap Event.drawn).Nodup
  injective : Set.InjOn hashing.hashToken {s | s = token ∨ s ∈ events.filterMap Event.token}

/-- A successful login issued the token to the operator, until `expiresAt`; `since` is what happened
since. -/
def Issued (hashing : Hashing) (db₀ : Tables) (events : List Event) (token : String) (id : Nat)
    (expiresAt : Time) (since : List Event) : Prop :=
  ∃ pre username password userAgent ipAddress drawn now o,
    events = pre ++ .login username password userAgent ipAddress drawn now :: since ∧
      drawn.text = token ∧ o.id = id ∧
      ((db₀.run hashing pre).login hashing username password userAgent ipAddress drawn now).2 =
        .ok (o, drawn, expiresAt)

/-- Issued to the operator, not expired, not revoked since, and the operator is active. -/
def Entitled (hashing : Hashing) (db₀ : Tables) (events : List Event) (token : String) (t : Time)
    (o : Operator) : Prop :=
  ∃ expiresAt since, Issued hashing db₀ events token o.id expiresAt since ∧ t < expiresAt ∧
    (∀ now, .revoke token now ∉ since) ∧
    (db₀.run hashing events).operators.find o.id = some o ∧ o.isActive = true

variable {db₀ : Tables} {events : List Event} {token : String}

/-- The register before any login. -/
def Tables.register (db₀ : Tables) : Register := ⟨db₀.operators, fun _ => none⟩

theorem Refines.start (hnone : db₀.sessions.rows = []) :
    Refines hashing known t db₀ db₀.register := by
  refine ⟨rfl, fun token _ => .inl ?_⟩
  by_cases hne : token = ""
  · subst hne
    rfl
  · rw [Tables.grant_eq hne, Serial.lookup, hnone]
    rfl

/-- A token that no login drew has no grant. -/
theorem Register.grants_undrawn (h : token ∉ events.filterMap Event.drawn) :
    (db₀.register.run hashing events).grants token = none := by
  rw [run_grants_undrawn h]
  rfl

theorem Refines.run (hnone : db₀.sessions.rows = [])
    (hinj : Set.InjOn hashing.hashToken known)
    (htokens : ∀ s ∈ events.filterMap Event.token, s ∈ known)
    (hdistinct : (events.filterMap Event.drawn).Nodup)
    (hpurge : ∀ moment, .purge moment ∈ events → moment ≤ t) :
    Refines hashing known t (db₀.run hashing events) (db₀.register.run hashing events) := by
  induction events using List.reverseRecOn with
  | nil => exact Refines.start hnone
  | append_singleton events e ih =>
    rw [List.filterMap_append] at hdistinct htokens
    obtain ⟨hbefore, -, hnew⟩ := List.nodup_append.mp hdistinct
    rw [Register.run_concat, Tables.run, List.foldl_append]
    refine Refines.step hinj (ih ?_ hbefore ?_) ?_ ?_ ?_
    · exact fun s hs => htokens s (List.mem_append_left _ hs)
    · exact fun moment hmem => hpurge moment (List.mem_append_left _ hmem)
    · intro s hs
      exact htokens s (List.mem_append_right _ (by simp [hs]))
    · intro s hs
      refine Register.grants_undrawn fun hmem => ?_
      exact hnew s hmem s (by simp [hs]) rfl
    · intro moment hmoment
      exact hpurge moment (List.mem_append_right _ (by simp [hmoment]))

/-- A login succeeds on the credentials alone. -/
theorem Refines.login_ok {db : Tables} {r : Register} (h : Refines hashing known t db r)
    (hinj : Set.InjOn hashing.hashToken known) {username password : String}
    {userAgent ipAddress : Option String} {drawn : Token} {now expiresAt : Time} {o : Operator}
    (hdrawn : drawn.text ∈ known) (hfresh : r.grants drawn.text = none) :
    (db.login hashing username password userAgent ipAddress drawn now).2 =
        .ok (o, drawn, expiresAt) ↔
      ∃ o', r.operators.authenticate hashing username password = some o' ∧
        o = { o' with lastLoginAt := some now } ∧ expiresAt = now + sessionTtl := by
  have hnew : db.grant hashing drawn.text = none := by
    rcases h.grants _ hdrawn with heq | ⟨heq, -⟩
    · rw [heq, hfresh]
    · exact heq
  rw [← h.operators]
  cases hauth : db.operators.authenticate hashing username password with
  | none =>
    rw [Tables.login_refused hauth]
    simp
  | some o' =>
    rw [(Tables.login_grant hinj hauth hdrawn hnew).1]
    simp [eq_comm]

/-- A login of the run, as the tables and as the register see it. -/
theorem Legal.login_ok {pre since : List Event} {username password : String}
    {userAgent ipAddress : Option String} {drawn : Token} {now expiresAt : Time} {o : Operator}
    (hnone : db₀.sessions.rows = [])
    (hlegal : Legal hashing (pre ++ .login username password userAgent ipAddress drawn now :: since)
      token)
    (hpurge : ∀ moment, .purge moment ∈ pre → moment ≤ t) :
    ((db₀.run hashing pre).login hashing username password userAgent ipAddress drawn now).2 =
        .ok (o, drawn, expiresAt) ↔
      ∃ o', (db₀.register.run hashing pre).operators.authenticate hashing username password =
        some o' ∧ o = { o' with lastLoginAt := some now } ∧ expiresAt = now + sessionTtl := by
  obtain ⟨hdistinct, hinjective⟩ := hlegal
  rw [List.filterMap_append] at hdistinct hinjective
  obtain ⟨hbefore, -, hnew⟩ := List.nodup_append.mp hdistinct
  have hpre : Refines hashing _ t (db₀.run hashing pre) (db₀.register.run hashing pre) :=
    Refines.run hnone hinjective (fun s hs => .inr (List.mem_append_left _ hs)) hbefore hpurge
  refine hpre.login_ok hinjective (.inr ?_) (Register.grants_undrawn fun hmem => ?_)
  · exact List.mem_append_right _ List.mem_cons_self
  · exact hnew _ hmem _ List.mem_cons_self rfl

/-- What the register answers is what the history says. -/
theorem answer_iff_entitled (hnone : db₀.sessions.rows = []) (hlegal : Legal hashing events token)
    (hpurge : ∀ moment, .purge moment ∈ events → moment ≤ t) {o : Operator} :
    (db₀.register.run hashing events).answer token t = some o ↔
      Entitled hashing db₀ events token t o := by
  have hrefines := Refines.run hnone hlegal.injective (fun s hs => .inr hs) hlegal.distinct hpurge
  constructor
  · intro h
    obtain ⟨g, hg, ho⟩ := Option.bind_eq_some_iff.mp h
    obtain ⟨hgrant, hlive⟩ := Option.filter_eq_some_iff.mp hg
    obtain ⟨hfind, hactive⟩ := Option.filter_eq_some_iff.mp ho
    obtain ⟨pre, username, password, userAgent, ipAddress, drawn, now, since, o', rfl, rfl,
      hauth⟩ := Register.exists_login rfl hgrant
    obtain rfl := Option.some.inj
      (hgrant.symm.trans (Register.run_grants_login hauth hlegal.distinct))
    have hid : o.id = o'.id := (Serial.find_eq_some.mp hfind).2
    simp only [Grant.live, Bool.and_eq_true, Bool.not_eq_true', decide_eq_true_eq,
      List.any_eq_false] at hlive
    have hok := (hlegal.login_ok hnone fun moment hmem =>
      hpurge moment (List.mem_append_left _ hmem)).mpr ⟨o', hauth, rfl, rfl⟩
    refine ⟨now + sessionTtl, since, ⟨pre, username, password, userAgent, ipAddress, drawn, now,
      { o' with lastLoginAt := some now }, rfl, rfl, hid.symm, hok⟩, hlive.2, ?_, ?_, hactive⟩
    · intro now' hmem
      exact hlive.1 _ hmem (by simp [Event.revokes])
    · rw [hrefines.operators, hid]
      exact hfind
  · rintro ⟨expiresAt, since, ⟨pre, username, password, userAgent, ipAddress, drawn, now, o', rfl,
      rfl, hid, hok⟩, hlt, hrevoked, hfind, hactive⟩
    obtain ⟨o'', hauth, rfl, rfl⟩ := (hlegal.login_ok hnone fun moment hmem =>
      hpurge moment (List.mem_append_left _ hmem)).mp hok
    have hany : since.any (·.revokes drawn.text) = false := by
      rw [List.any_eq_false]
      intro e he
      cases e with
      | revoke presented now' =>
        intro heq
        obtain rfl : presented = drawn.text := by simpa [Event.revokes] using heq
        exact hrevoked now' he
      | _ => simp [Event.revokes]
    have hgrant := Register.run_grants_login hauth hlegal.distinct
    rw [hany] at hgrant
    have hlive : Grant.live ⟨o''.id, now + sessionTtl, false⟩ t = true := by
      simpa [Grant.live] using hlt
    rw [hrefines.operators, show o.id = o''.id from hid.symm] at hfind
    simp [Register.answer, hgrant, Option.filter_some, hlive, hfind, hactive]

/-- **Operator sessions authenticate exactly as issued**, and no purge is noticed. -/
theorem sessions_as_issued (hnone : db₀.sessions.rows = []) (hlegal : Legal hashing events token)
    (hpurge : ∀ moment, .purge moment ∈ events → moment ≤ t) :
    (∀ now o, ((db₀.run hashing events).resolve hashing token t now).2 = some o ↔
      Entitled hashing db₀ events token t o) ∧
    ∀ pre post moment now, events = pre ++ .purge moment :: post →
      ((db₀.run hashing events).resolve hashing token t now).2 =
        ((db₀.run hashing (pre ++ post)).resolve hashing token t now).2 := by
  have hrefines := Refines.run hnone hlegal.injective (fun s hs => .inr hs) hlegal.distinct hpurge
  constructor
  · intro now o
    rw [hrefines.answer (.inl rfl)]
    exact answer_iff_entitled hnone hlegal hpurge
  · rintro pre post moment now rfl
    have hsub : (pre ++ post).Sublist (pre ++ Event.purge moment :: post) :=
      (List.sublist_cons_self _ _).append_left pre
    have hwithout := Refines.run hnone hlegal.injective
      (fun s hs => .inr ((hsub.filterMap _).subset hs)) (hlegal.distinct.sublist (hsub.filterMap _))
      fun moment' hmem => hpurge moment' (hsub.subset hmem)
    rw [hrefines.answer (.inl rfl), hwithout.answer (.inl rfl), Register.run_purge]

end

namespace Sample

def token : Token := ⟨"q3v0TzK7dX2mWfYb9LpHs1uJcR8nEaGx5iOkVtMwZyA", by decide +kernel⟩

def scryptHash (key : String) : String :=
  "scrypt$16384$8$1$000102030405060708090a0b0c0d0e0f$" ++ key

def sara : Operator :=
  ⟨0, "sara", "Sara",
    scryptHash "25b376840366f4d3b0e21e414476676e3cd0e89af4430356a234ce0b65a021b5", true, false, none⟩

/-- The hashes of one token and one password. -/
def hashing : Hashing where
  hashToken s := if s = token.text then
    "b23178df3ff8f7f9c9e04330d46b66bf206a12ab3f9aadfa8d3794cb9efeb4c0" else ""
  verifyPassword password encoded := password = "correct horse" && encoded = sara.passwordHash
  dummyHash := scryptHash "2c2c2ccaaafde5ece8f66d82bf2e03f6b8df6734169ed81b758dd0963ab2d8cf"

def hour : Time := 60 * 60 * second

/-- A working day: a purge while the session is live. -/
def day : List Event :=
  [.createOperator "sara" sara.passwordHash "Sara" false,
    .login "sara" "correct horse" none none token 0, .resolve token.text hour hour, .purge (2 * hour)]

def noTables : Tables := ⟨Serial.empty, Serial.empty⟩

theorem day_legal : Legal hashing day token.text where
  distinct := by decide +kernel
  injective := by
    intro x hx y hy _
    have hall : ∀ s, s = token.text ∨ s ∈ day.filterMap Event.token → s = token.text := by
      rintro s (rfl | hs)
      · rfl
      · simpa [day, Event.token, eq_comm] using hs
    rw [hall x hx, hall y hy]

end Sample

theorem sessions_as_issued_day :
    Entitled Sample.hashing Sample.noTables Sample.day Sample.token.text (3 * Sample.hour)
        { Sample.sara with lastLoginAt := some 0 } := by
  have hpurge : ∀ moment, .purge moment ∈ Sample.day → moment ≤ 3 * Sample.hour := by
    intro moment hmem
    obtain rfl : moment = 2 * Sample.hour := by simpa [Sample.day] using hmem
    decide
  exact ((sessions_as_issued rfl Sample.day_legal hpurge).1 (3 * Sample.hour) _).mp
    (by decide +kernel)

end Auth
