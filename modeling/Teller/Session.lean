import Teller.Moment

/-! Login sessions: each stands behind one refresh token and has that token's id. -/
namespace Teller

structure Session where
  id : Uuid
  username : String
  refreshToken : String
  userAgent : String
  clientIp : String
  isBlocked : Bool
  expiresAt : Moment
  createdAt : Moment
  deriving DecidableEq

structure NewSession where
  id : Uuid
  username : String
  refreshToken : String
  userAgent : String
  clientIp : String
  isBlocked : Bool
  expiresAt : Moment
  deriving DecidableEq

inductive SessionState where
  | active
  | blocked
  | expired
  deriving DecidableEq, Repr

def SessionState.of (isBlocked : Bool) (expiresAt now : Moment) : SessionState :=
  if isBlocked then blocked else if expiresAt < now then expired else active

namespace Session
open Json (Fields Codec)

def create (new : NewSession) (now : Moment) : Session :=
  { id := new.id, username := new.username, refreshToken := new.refreshToken
    userAgent := new.userAgent, clientIp := new.clientIp, isBlocked := new.isBlocked
    expiresAt := new.expiresAt, createdAt := now }

def state (s : Session) (now : Moment) : SessionState := .of s.isBlocked s.expiresAt now

def fields : Fields [Uuid, String, String, String, String, Bool, Moment, Moment] :=
  .cons "id" .uuid <| .cons "username" .string <| .cons "refresh_token" .string <|
    .cons "user_agent" .string <| .cons "client_ip" .string <| .cons "is_blocked" .bool <|
    .cons "expires_at" Moment.codec <| .cons "created_at" Moment.codec .nil

def codec : Codec Session :=
  .ofFields "struct Session" fields
    (fun (id, username, refreshToken, userAgent, clientIp, isBlocked, expiresAt, createdAt, ()) =>
      ⟨id, username, refreshToken, userAgent, clientIp, isBlocked, expiresAt, createdAt⟩)
    fun s => (s.id, s.username, s.refreshToken, s.userAgent, s.clientIp, s.isBlocked, s.expiresAt,
      s.createdAt, ())

end Session
end Teller
