import Teller.Moment
import Teller.Role
import Teller.Status

/-! What a token says: who holds it, in which role, and from when until when. -/
namespace Teller

inductive TokenError where
  | invalid
  | expired
  | key (reason : String)
  | encoding (reason : String)
  deriving DecidableEq, Repr, Inhabited

namespace TokenError

def message : TokenError → String
  | invalid => "token is invalid"
  | expired => "token has expired"
  | key reason => "invalid key: " ++ reason
  | encoding reason => "cannot encode token: " ++ reason

def status : TokenError → Status
  | invalid => .invalidToken
  | expired => .expiredToken
  | key _ | encoding _ => .internal

end TokenError

structure Claims where
  id : Uuid
  username : String
  role : Role
  issuedAt : Moment
  expiresAt : Moment
  deriving DecidableEq

namespace Claims

def issue (id : Uuid) (username : String) (role : Role) (duration : Span) (now : Moment) :
    Except TokenError Claims :=
  match now.add? duration with
  | some expiresAt => .ok ⟨id, username, role, now, expiresAt⟩
  | none => .error (.encoding ("token duration " ++ duration.toText ++ " is out of range"))

def check (c : Claims) (now : Moment) : Except TokenError Claims :=
  if c.expiresAt ≤ now then .error .expired else .ok c

open Json (Fields Codec)

def fields : Fields [Uuid, String, Role, Moment, Moment] :=
  .cons "id" .uuid <| .cons "username" .string <| .cons "role" Role.codec <|
    .cons "issued_at" Moment.codec <| .cons "expired_at" Moment.codec .nil

def codec : Codec Claims :=
  .ofFields "struct Payload" fields
    (fun (id, username, role, issuedAt, expiresAt, ()) => ⟨id, username, role, issuedAt, expiresAt⟩)
    fun c => (c.id, c.username, c.role, c.issuedAt, c.expiresAt, ())

def toBytes (c : Claims) : List UInt8 := codec.write c

def ofBytes? (text : List UInt8) : Option Claims := (Json.decode codec text).toOption

end Claims
end Teller
