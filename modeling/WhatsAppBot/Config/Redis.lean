import WhatsAppBot.Lib.Netloc
import WhatsAppBot.Lib.Percent

/-!
# The Redis URLs

`apply_redis_credentials` (`config.py`) puts the configured user and password into a Redis URL that
carries no password of its own, for every consumer of Redis. `none` is an exception. `urlsplit` and
its kin are those of Python 3.12.
-/

set_option autoImplicit false

namespace Config

open Lib

/-- `_REDIS_SCHEMES`. -/
def redisSchemes : List Chars := ["redis".toList, "rediss".toList]

def localhost : Chars := "localhost".toList

/-- `bool(parts.password)`. -/
def hasPassword (parts : SplitResult) : Bool := parts.password.any fun password => !password.isEmpty

/-- `_redis_url_has_password`. -/
def redisUrlHasPassword (url : Chars) : Bool := !url.isEmpty && (urlsplit url).any hasPassword

/-- `parts.hostname or "localhost"`. -/
def hostOf (L : Lowercase) (parts : SplitResult) : Chars :=
  ((parts.hostname L).filter fun host => !host.isEmpty).getD localhost

/-- A port is written unless it is falsy. -/
def authority (host : Chars) (port : Option Nat) : Chars :=
  let host := if ':' ∈ host then '[' :: host ++ [']'] else host
  match port with
  | some (n + 1) => host ++ ':' :: Nat.toDigits 10 (n + 1)
  | _ => host

def applyRedisCredentials (L : Lowercase) (url username password : Chars) (tls : Bool) : Option Chars :=
  if url.isEmpty then some url
  else
    match urlsplit url with
    -- not parseable: handed back untouched
    | none => some url
    | some parts =>
      if !redisSchemes.contains parts.scheme then some url
      else
        let scheme := if tls then "rediss".toList else parts.scheme
        let netloc :=
          if hasPassword parts then some parts.netloc
          else if !password.isEmpty then
            -- reading the port of the URL may raise
            parts.port.map fun port =>
              quote username ++ ':' :: quote password ++ '@' :: authority (hostOf L parts) port
          else some parts.netloc
        netloc.map fun netloc =>
          urlunsplit { scheme, netloc, path := parts.path, query := parts.query,
                       fragment := parts.fragment }

end Config
