import WhatsAppBot.Lib.Serial
import WhatsAppBot.Store.Rows

/-!
# Operator accounts and their sessions

`AuthService`: a login exchanges a password for a bearer token, of which only the hash is stored;
`resolve` finds the operator behind a token; `revoke` ends a session; `purge_expired_sessions`
deletes rows. What checks passwords and hashes tokens is an argument (`Hashing`).
-/

set_option autoImplicit false

namespace Auth

open Lib Store

structure Operator where
  id : Nat
  username : String
  displayName : String
  passwordHash : String
  isActive : Bool
  isAdmin : Bool
  lastLoginAt : Option Time
  deriving DecidableEq

/-- The hash no password produces: the account is there to be attributed to. -/
def unusablePasswordHash : String := "!"

def Operator.canLogIn (o : Operator) : Bool := o.isActive && o.passwordHash != unusablePasswordHash

structure OperatorSession where
  id : Nat
  operatorId : Nat
  tokenHash : String
  expiresAt : Time
  revokedAt : Option Time
  lastUsedAt : Option Time
  userAgent : Option String
  ipAddress : Option String

/-- `OperatorSession.is_valid`. -/
def OperatorSession.isValid (s : OperatorSession) (now : Time) : Bool :=
  s.revokedAt.isNone && now < s.expiresAt

/-- `secrets.token_urlsafe(_TOKEN_BYTES)`. -/
structure Token where
  text : String
  length_text : text.length = 43

theorem Token.text_ne_empty (token : Token) : token.text ≠ "" := by
  intro h
  have := token.length_text
  rw [h] at this
  cases this

/-- `hash_token`, `verify_password` and `_DUMMY_HASH`. -/
structure Hashing where
  hashToken : String → String
  verifyPassword : String → String → Bool
  dummyHash : String

def second : Time := 1000000

/-- `SESSION_TTL`. -/
def sessionTtl : Time := 12 * 60 * 60 * second

/-- `_LAST_USED_RESOLUTION`. -/
def lastUsedResolution : Time := 60 * second

/-- `_USER_AGENT_MAX`. -/
def userAgentMax : Nat := 256

/-- `user_agent[:_USER_AGENT_MAX] if user_agent else None`. -/
def clipAgent : Option String → Option String
  | some agent => if agent = "" then none else some (String.ofList (agent.toList.take userAgentMax))
  | none => none

inductive AuthError where
  | authentication
  | integrity
  deriving DecidableEq

/-- Whether `resolve` writes `last_used_at`. -/
def OperatorSession.stale (s : OperatorSession) (now : Time) : Bool :=
  match s.lastUsedAt with
  | none => true
  | some t => lastUsedResolution < now - t

abbrev Accounts := Serial Operator.id Operator.username

namespace Accounts

def create (accounts : Accounts) (username passwordHash displayName : String) (isAdmin : Bool) :
    Option Accounts :=
  accounts.insert (fun id => ⟨id, username, displayName, passwordHash, true, isAdmin, none⟩)
    fun _ => rfl

/-- An operator leaves, or comes back. -/
def setActive (accounts : Accounts) (id : Nat) (isActive : Bool) : Accounts :=
  accounts.modify id (fun o => { o with isActive }) (fun _ => rfl) fun _ => rfl

def touch (accounts : Accounts) (id : Nat) (now : Time) : Accounts :=
  accounts.modify id (fun o => { o with lastLoginAt := some now }) (fun _ => rfl) fun _ => rfl

/-- Whom `login` lets in. An unknown username costs a verification too. -/
def authenticate (accounts : Accounts) (hashing : Hashing) (username password : String) :
    Option Operator :=
  let operator := accounts.lookup username
  let encoded := match operator with
    | some o => o.passwordHash
    | none => hashing.dummyHash
  let passwordOk := hashing.verifyPassword password encoded
  operator.filter fun o => passwordOk && o.canLogIn

end Accounts

abbrev Sessions := Serial OperatorSession.id OperatorSession.tokenHash

namespace Sessions

def markUsed (sessions : Sessions) (id : Nat) (now : Time) : Sessions :=
  sessions.modify id (fun s => { s with lastUsedAt := some now }) (fun _ => rfl) fun _ => rfl

def markRevoked (sessions : Sessions) (id : Nat) (now : Time) : Sessions :=
  sessions.modify id (fun s => { s with revokedAt := some now }) (fun _ => rfl) fun _ => rfl

/-- The ids of the rows a purge deletes. -/
def expired (sessions : Sessions) (moment : Time) : List Nat :=
  (sessions.rows.filter (·.expiresAt < moment)).map (·.id)

end Sessions

structure Tables where
  operators : Accounts
  sessions : Sessions

namespace Tables

def createOperator (db : Tables) (username passwordHash displayName : String) (isAdmin : Bool) :
    Tables :=
  { db with operators :=
      (db.operators.create username passwordHash displayName isAdmin).getD db.operators }

def setActive (db : Tables) (id : Nat) (isActive : Bool) : Tables :=
  { db with operators := db.operators.setActive id isActive }

variable (hashing : Hashing)

def login (db : Tables) (username password : String) (userAgent ipAddress : Option String)
    (token : Token) (now : Time) : Tables × Except AuthError (Operator × Token × Time) :=
  match db.operators.authenticate hashing username password with
  | none => (db, .error .authentication)
  | some o =>
    let expiresAt := now + sessionTtl
    match db.sessions.insert (fun id => {
        id
        operatorId := o.id
        tokenHash := hashing.hashToken token.text
        expiresAt
        revokedAt := none
        lastUsedAt := none
        userAgent := clipAgent userAgent
        ipAddress }) fun _ => rfl with
    | none => (db, .error .integrity)
    | some sessions =>
      (⟨db.operators.touch o.id now, sessions⟩,
        .ok ({ o with lastLoginAt := some now }, token, expiresAt))

/-- `_session_for`. -/
def sessionFor (db : Tables) (token : String) : Option OperatorSession :=
  if token = "" then none else db.sessions.lookup (hashing.hashToken token)

/-- The clock is read twice: `t` by `is_valid`, `now` for `last_used_at`. -/
def resolve (db : Tables) (token : String) (t now : Time) : Tables × Option Operator :=
  match (db.sessionFor hashing token).filter (·.isValid t) with
  | none => (db, none)
  | some s =>
    match (db.operators.find s.operatorId).filter (·.isActive) with
    | none => (db, none)
    | some o =>
      if s.stale now then ({ db with sessions := db.sessions.markUsed s.id now }, some o)
      else (db, some o)

def revoke (db : Tables) (token : String) (now : Time) : Tables × Bool :=
  match (db.sessionFor hashing token).filter (·.revokedAt.isNone) with
  | none => (db, false)
  | some s => ({ db with sessions := db.sessions.markRevoked s.id now }, true)

/-- The ids first, then the rows under them. -/
def purgeExpiredSessions (db : Tables) (moment : Time) : Tables × Nat :=
  let expired := db.sessions.expired moment
  ({ db with sessions := db.sessions.deleteAll expired }, expired.length)

end Tables

/-! ## Runs -/

inductive Event where
  | createOperator (username passwordHash displayName : String) (isAdmin : Bool)
  | setActive (id : Nat) (isActive : Bool)
  | login (username password : String) (userAgent ipAddress : Option String) (token : Token)
      (now : Time)
  | resolve (token : String) (t now : Time)
  | revoke (token : String) (now : Time)
  | purge (moment : Time)

namespace Tables

variable (hashing : Hashing)

def step (db : Tables) : Event → Tables
  | .createOperator username passwordHash displayName isAdmin =>
    db.createOperator username passwordHash displayName isAdmin
  | .setActive id isActive => db.setActive id isActive
  | .login username password userAgent ipAddress token now =>
    (db.login hashing username password userAgent ipAddress token now).1
  | .resolve token t now => (db.resolve hashing token t now).1
  | .revoke token now => (db.revoke hashing token now).1
  | .purge moment => (db.purgeExpiredSessions moment).1

def run (db : Tables) (events : List Event) : Tables := events.foldl (step hashing) db

end Tables

end Auth
