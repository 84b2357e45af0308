import Mathlib.Data.Set.Function
import WhatsAppBot.Auth.Sessions

/-!
# A register of grants

A `Register` keeps a grant for every token ever issued and forgets none. The tables refine it
(`Refines`, kept by every event: `Refines.step`): they hold the same grants, apart from purged ones,
which had expired. So they answer alike (`Refines.answer`).
-/

set_option autoImplicit false

namespace Auth

open Lib Store

/-! ## The register -/

structure Grant where
  operatorId : Nat
  expiresAt : Time
  revoked : Bool

namespace Grant

def live (g : Grant) (t : Time) : Bool := !g.revoked && t < g.expiresAt

def revoke (g : Grant) : Grant := { g with revoked := true }

end Grant

structure Register where
  operators : Accounts
  grants : String → Option Grant

namespace Register

variable (hashing : Hashing)

def step (r : Register) : Event → Register
  | .createOperator username passwordHash displayName isAdmin =>
    { r with operators :=
        (r.operators.create username passwordHash displayName isAdmin).getD r.operators }
  | .setActive id isActive => { r with operators := r.operators.setActive id isActive }
  | .login username password _ _ token now =>
    match r.operators.authenticate hashing username password with
    | none => r
    | some o =>
      ⟨r.operators.touch o.id now,
        Function.update r.grants token.text (some ⟨o.id, now + sessionTtl, false⟩)⟩
  | .resolve .. => r
  | .revoke token _ =>
    { r with grants := Function.update r.grants token ((r.grants token).map Grant.revoke) }
  | .purge _ => r

def run (r : Register) (events : List Event) : Register := events.foldl (step hashing) r

/-- The operator behind a token. -/
def answer (r : Register) (token : String) (t : Time) : Option Operator :=
  ((r.grants token).filter (·.live t)).bind fun g =>
    (r.operators.find g.operatorId).filter (·.isActive)

theorem run_append (r : Register) (xs ys : List Event) :
    r.run hashing (xs ++ ys) = (r.run hashing xs).run hashing ys := List.foldl_append

theorem run_concat (r : Register) (xs : List Event) (e : Event) :
    r.run hashing (xs ++ [e]) = (r.run hashing xs).step hashing e := by
  simp [run]

/-- A purge leaves no trace. -/
theorem run_purge (r : Register) (pre post : List Event) (moment : Time) :
    r.run hashing (pre ++ .purge moment :: post) = r.run hashing (pre ++ post) := by
  rw [run_append, run_append]
  rfl

end Register

/-! ## What the events are about -/

/-- The token a login draws. -/
def Event.drawn : Event → Option String
  | .login _ _ _ _ token _ => some token.text
  | _ => none

/-- The token an event hashes. -/
def Event.token : Event → Option String
  | .login _ _ _ _ token _ => some token.text
  | .resolve token _ _ => some token
  | .revoke token _ => some token
  | _ => none

/-! ## The grants of the tables -/

def OperatorSession.grant (s : OperatorSession) : Grant :=
  ⟨s.operatorId, s.expiresAt, s.revokedAt.isSome⟩

theorem OperatorSession.isValid_eq_live (s : OperatorSession) (t : Time) :
    s.isValid t = s.grant.live t := by
  unfold isValid grant Grant.live
  cases s.revokedAt <;> rfl

namespace Tables

variable {hashing : Hashing} {db : Tables} {token : String} {t now : Time}

def grant (hashing : Hashing) (db : Tables) (token : String) : Option Grant :=
  (db.sessionFor hashing token).map OperatorSession.grant

theorem resolve_answer (db : Tables) (token : String) (t now : Time) :
    (db.resolve hashing token t now).2 = ((db.grant hashing token).filter (·.live t)).bind fun g =>
      (db.operators.find g.operatorId).filter (·.isActive) := by
  have hfilter : ((db.sessionFor hashing token).filter (·.isValid t)).map OperatorSession.grant =
      (db.grant hashing token).filter (·.live t) := by
    cases hs : db.sessionFor hashing token with
    | none => simp [grant, hs]
    | some s =>
      simp only [grant, hs, Option.map_some, Option.filter_some, s.isValid_eq_live]
      split <;> rfl
  rw [← hfilter]
  unfold resolve
  cases (db.sessionFor hashing token).filter (·.isValid t) with
  | none => rfl
  | some s =>
    show _ = (db.operators.find s.operatorId).filter (·.isActive)
    dsimp only
    cases (db.operators.find s.operatorId).filter (·.isActive) with
    | none => rfl
    | some o =>
      dsimp only
      split <;> rfl

/-- The grants are read off the sessions by their hashes. -/
theorem grant_eq (hne : token ≠ "") : db.grant hashing token =
    (db.sessions.lookup (hashing.hashToken token)).map OperatorSession.grant := by
  simp [grant, sessionFor, hne]

theorem grant_empty : db.grant hashing "" = none := rfl

theorem resolve_operators (db : Tables) (presented : String) (t now : Time) :
    (db.resolve hashing presented t now).1.operators = db.operators := by
  unfold resolve
  split
  · rfl
  · split
    · rfl
    · split <;> rfl

/-- `last_used_at` is no part of a grant. -/
theorem resolve_grant (db : Tables) (presented : String) (t now : Time) (token : String) :
    (db.resolve hashing presented t now).1.grant hashing token = db.grant hashing token := by
  unfold resolve
  split
  · rfl
  · split
    · rfl
    · split
      · by_cases hne : token = ""
        · subst hne
          rfl
        · rw [grant_eq hne, grant_eq hne, Sessions.markUsed, Serial.lookup_modify, Option.map_map]
          congr 1
          funext x
          simp only [Function.comp_apply]
          split <;> rfl
      · rfl

variable {known : Set String} (hinj : Set.InjOn hashing.hashToken known)

include hinj in
/-- A login whose token is new. -/
theorem login_grant {username password : String} {userAgent ipAddress : Option String}
    {drawn : Token} {o : Operator}
    (hauth : db.operators.authenticate hashing username password = some o)
    (hdrawn : drawn.text ∈ known) (hnew : db.grant hashing drawn.text = none) :
    let result := db.login hashing username password userAgent ipAddress drawn now
    result.2 = .ok ({ o with lastLoginAt := some now }, drawn, now + sessionTtl) ∧
      result.1.operators = db.operators.touch o.id now ∧
      ∀ token ∈ known, result.1.grant hashing token =
        if token = drawn.text then some ⟨o.id, now + sessionTtl, false⟩
        else db.grant hashing token := by
  have hlookup : db.sessions.lookup (hashing.hashToken drawn.text) = none := by
    rw [grant_eq drawn.text_ne_empty] at hnew
    exact Option.map_eq_none_iff.mp hnew
  unfold login
  simp only [hauth]
  split
  · rename_i hconflict
    exact absurd hlookup (Serial.insert_eq_none.mp hconflict)
  · rename_i sessions hinsert
    refine ⟨rfl, rfl, fun token htoken => ?_⟩
    by_cases hne : token = ""
    · subst hne
      simp [grant_empty, drawn.text_ne_empty.symm]
    · rw [grant_eq hne, grant_eq hne, Serial.lookup_insert hinsert]
      by_cases heq : token = drawn.text
      · subst heq
        simp only [if_true]
        rfl
      · have hhash : hashing.hashToken token ≠ hashing.hashToken drawn.text :=
          fun h => heq (hinj htoken hdrawn h)
        simp only [hhash, heq, if_false]

theorem login_refused {username password : String} {userAgent ipAddress : Option String}
    {drawn : Token} (hauth : db.operators.authenticate hashing username password = none) :
    db.login hashing username password userAgent ipAddress drawn now =
      (db, .error .authentication) := by
  simp only [login, hauth]

include hinj in
theorem revoke_grant {presented : String} (hpresented : presented ∈ known)
    (htoken : token ∈ known) : (db.revoke hashing presented now).1.grant hashing token =
      if token = presented then (db.grant hashing token).map Grant.revoke
      else db.grant hashing token := by
  unfold revoke
  split
  · -- nothing to end: no session, or one that ended before
    rename_i hnone
    split
    · rename_i heq
      subst heq
      cases hs : db.sessionFor hashing token with
      | none => simp [grant, hs]
      | some s =>
        have hended : s.revokedAt.isSome = true := by
          cases hrev : s.revokedAt with
          | none => simp [hs, hrev] at hnone
          | some t => rfl
        simp [grant, hs, OperatorSession.grant, Grant.revoke, hended]
    · rfl
  · rename_i s hs
    have hfound := (Option.filter_eq_some_iff.mp hs).1
    by_cases hp : presented = ""
    · rw [hp] at hfound
      cases hfound
    have hlookup : db.sessions.lookup (hashing.hashToken presented) = some s := by
      rw [sessionFor, if_neg hp] at hfound
      exact hfound
    by_cases hne : token = ""
    · subst hne
      simp [grant_empty]
    · rw [grant_eq hne, grant_eq hne, Sessions.markRevoked, Serial.lookup_modify_found hlookup]
      by_cases heq : token = presented
      · subst heq
        simp only [if_true, hlookup]
        rfl
      · have hhash : hashing.hashToken token ≠ hashing.hashToken presented :=
          fun h => heq (hinj htoken hpresented h)
        simp only [hhash, heq, if_false]

theorem purge_grant {moment : Time} : (db.purgeExpiredSessions moment).1.grant hashing token =
    (db.grant hashing token).filter fun g => moment ≤ g.expiresAt := by
  by_cases hne : token = ""
  · subst hne
    rfl
  · rw [grant_eq hne, grant_eq hne]
    show ((db.sessions.deleteAll (db.sessions.expired moment)).lookup _).map _ = _
    rw [Sessions.expired, Serial.lookup_deleteWhere]
    cases db.sessions.lookup (hashing.hashToken token) with
    | none => rfl
    | some s =>
      by_cases hlt : s.expiresAt < moment
      · simp [Option.filter_some, OperatorSession.grant, hlt, not_le.mpr hlt]
      · simp [Option.filter_some, OperatorSession.grant, hlt, not_lt.mp hlt]

end Tables

/-! ## Refinement -/

variable {hashing : Hashing} {known : Set String} {t : Time}

/-- The tables hold the register's grants for the known tokens, but for some that expired before
`t`. -/
structure Refines (hashing : Hashing) (known : Set String) (t : Time) (db : Tables) (r : Register) :
    Prop where
  operators : db.operators = r.operators
  grants : ∀ token ∈ known, db.grant hashing token = r.grants token ∨
    db.grant hashing token = none ∧ ∃ g, r.grants token = some g ∧ g.expiresAt < t

namespace Refines

variable {db : Tables} {r : Register}

theorem step (hinj : Set.InjOn hashing.hashToken known) (h : Refines hashing known t db r)
    {e : Event} (htoken : ∀ token, e.token = some token → token ∈ known)
    (hfresh : ∀ token, e.drawn = some token → r.grants token = none)
    (hpurge : ∀ moment, e = .purge moment → moment ≤ t) :
    Refines hashing known t (db.step hashing e) (r.step hashing e) := by
  cases e with
  | createOperator username passwordHash displayName isAdmin =>
    refine ⟨?_, h.grants⟩
    show (db.operators.create _ _ _ _).getD _ = (r.operators.create _ _ _ _).getD _
    rw [h.operators]
  | setActive id isActive => exact ⟨congrArg (·.setActive id isActive) h.operators, h.grants⟩
  | resolve presented t' now =>
    refine ⟨(Tables.resolve_operators db presented t' now).trans h.operators, ?_⟩
    intro token hknown
    simp only [Tables.step, Register.step, Tables.resolve_grant]
    exact h.grants token hknown
  | login username password userAgent ipAddress drawn now =>
    have hdrawn : drawn.text ∈ known := htoken _ rfl
    have hnew : db.grant hashing drawn.text = none := by
      have hnone : r.grants drawn.text = none := hfresh _ rfl
      rcases h.grants _ hdrawn with heq | ⟨heq, -⟩
      · rw [heq, hnone]
      · exact heq
    simp only [Tables.step, Register.step, ← h.operators]
    cases hauth : db.operators.authenticate hashing username password with
    | none =>
      rw [Tables.login_refused hauth]
      exact h
    | some o =>
      obtain ⟨-, hoperators, hgrant⟩ := Tables.login_grant hinj hauth hdrawn hnew
      refine ⟨hoperators, fun token hknown => ?_⟩
      rw [hgrant token hknown]
      by_cases heq : token = drawn.text
      · subst heq
        left
        simp
      · simpa [heq] using h.grants token hknown
  | revoke presented now =>
    have hpresented : presented ∈ known := htoken _ rfl
    refine ⟨?_, fun token hknown => ?_⟩
    · show (db.revoke hashing presented now).1.operators = r.operators
      rw [← h.operators]
      unfold Tables.revoke
      split <;> rfl
    · simp only [Tables.step, Register.step, Tables.revoke_grant hinj hpresented hknown]
      by_cases heq : token = presented
      · subst heq
        simp only [if_true, Function.update_self]
        rcases h.grants token hknown with hgrant | ⟨hgone, g, hg, hlt⟩
        · exact .inl (congrArg _ hgrant)
        · exact .inr ⟨by simp [hgone], g.revoke, by simp [hg], hlt⟩
      · simpa [heq] using h.grants token hknown
  | purge moment =>
    refine ⟨h.operators, fun token hknown => ?_⟩
    simp only [Tables.step, Register.step, Tables.purge_grant]
    rcases h.grants token hknown with hgrant | ⟨hgone, hlost⟩
    · cases hg : r.grants token with
      | none => simp [hgrant, hg]
      | some g =>
        by_cases hle : moment ≤ g.expiresAt
        · simp [hgrant, hg, Option.filter_some, hle]
        · refine .inr ⟨?_, g, rfl, ?_⟩
          · simp [hgrant, hg, Option.filter_some, hle]
          · exact lt_of_lt_of_le (not_le.mp hle) (hpurge moment rfl)
    · exact .inr ⟨by simp [hgone], hlost⟩

/-- What is missing could not have answered. -/
theorem answer (h : Refines hashing known t db r) {token : String} (htoken : token ∈ known)
    (now : Time) : (db.resolve hashing token t now).2 = r.answer token t := by
  rw [Tables.resolve_answer, Register.answer, h.operators]
  rcases h.grants token htoken with heq | ⟨hnone, g, hg, hlt⟩
  · rw [heq]
  · have hdead : g.live t = false := by
      have hexpired : ¬t < g.expiresAt := not_lt_of_gt hlt
      simp [Grant.live, hexpired]
    simp [hnone, hg, Option.filter_some, hdead]

end Refines

end Auth
