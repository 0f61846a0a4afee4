import Teller.Bank.Store
import Teller.Token.Issuer

/-! Logging in, and trading a refresh token for a new access token. Renewal looks at the token, at the
session behind it, at whether that is blocked, at whether both belong together, and last at the
session's end. It writes nothing. -/
namespace Teller

inductive SessionError where
  | token (cause : TokenError)
  | notFound
  | blocked
  | mismatch
  | expired
  | store (cause : StoreError)
  deriving DecidableEq, Repr, Inhabited

namespace SessionError

def message : SessionError → String
  | token cause => cause.message
  | notFound => "session not found"
  | blocked => "blocked session"
  | mismatch => "mismatched session"
  | expired => "expired session"
  | store cause => cause.message

def source : SessionError → Option String
  | token cause => some cause.message
  | store cause => some cause.message
  | _ => none

def status : SessionError → Status
  | token cause => cause.status
  | notFound => .sessionNotFound
  | blocked => .sessionBlocked
  | mismatch => .sessionMismatch
  | expired => .sessionExpired
  | store cause => cause.status

end SessionError

structure Minted where
  token : String
  claims : Claims
  deriving DecidableEq

structure Login where
  user : User
  sessionId : Uuid
  access : Minted
  refresh : Minted
  deriving DecidableEq

namespace Bank

def mint (issuer : Issuer) (username : String) (role : Role) (duration : Span) (b : Bank) :
    Except TokenError Minted × Bank :=
  let (id, b) := b.drawId
  let (nonce, b) := b.drawNonce
  ((Claims.issue id username role duration b.now).map fun claims => ⟨issuer.token nonce claims, claims⟩, b)

def refresh (issuer : Issuer) (user : User) (access : Minted) (agent ip : String) (b : Bank) :
    Outcome SessionError Login :=
  match mint issuer user.username user.role b.plan.sessions.refresh b with
  | (.error e, b) => (.error (.failed (.token e)), b)
  | (.ok minted, b) =>
      let (made, b) := createSession
        { id := minted.claims.id, username := user.username, refreshToken := minted.token
          userAgent := agent, clientIp := ip, isBlocked := false, expiresAt := minted.claims.expiresAt } b
      (match made with
        | .ok session => .ok ⟨user, session.id, access, minted⟩
        | .error e => .error (e.map .store), b)

def login (issuer : Issuer) (username agent ip : String) (b : Bank) : Outcome SessionError Login :=
  match getUser username b with
  | (.error e, b) => (.error (e.map .store), b)
  | (.ok user, b) =>
      match mint issuer user.username user.role b.plan.sessions.access b with
      | (.error e, b) => (.error (.failed (.token e)), b)
      | (.ok access, b) => refresh issuer user access agent ip b

def judge (session : Session) (claims : Claims) (token : String) (now : Moment) : Except SessionError Unit :=
  match session.state now with
  | .blocked => .error .blocked
  | state =>
      if session.username ≠ claims.username ∨ session.refreshToken ≠ token then .error .mismatch
      else if state = .expired then .error .expired
      else .ok ()

def sessionFailure : Stop StoreError → Stop SessionError
  | .failed .notFound => .failed .notFound
  | other => other.map .store

def renew (issuer : Issuer) (token : String) (b : Bank) : Outcome SessionError Minted :=
  match issuer.verify b.now token with
  | .error e => (.error (.failed (.token e)), b)
  | .ok claims =>
      match getSession claims.id b with
      | (.error e, b) => (.error (sessionFailure e), b)
      | (.ok session, b) =>
          match judge session claims token b.now with
          | .error e => (.error (.failed e), b)
          | .ok () =>
              let (minted, b) := mint issuer claims.username claims.role b.plan.sessions.access b
              (minted.mapError fun e => .failed (.token e), b)

end Bank
end Teller
