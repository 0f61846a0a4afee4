import Teller.Text.Blank
import Teller.Token.Issuer

/-! The header in which a request brings its token, and who may pass. -/
namespace Teller

inductive AccessError where
  | noHeader
  | malformed
  | scheme (found : String)
  | token (cause : TokenError)
  | role (found : Role)
  deriving DecidableEq, Inhabited

namespace AccessError

def message : AccessError → String
  | noHeader => "authorization header is not provided"
  | malformed => "invalid authorization header format"
  | scheme found => "unsupported authorization type '" ++ found ++ "'"
  | token cause => "invalid access token: " ++ cause.message
  | role found => "role '" ++ found.name ++ "' is not permitted"

def status : AccessError → Status
  | noHeader | malformed | scheme _ => .malformedAuthorization
  | token cause => cause.status
  | role _ => .permissionDenied

def source : AccessError → Option String
  | token cause => some cause.message
  | _ => none

end AccessError

namespace Bearer

def headerName : String := "authorization"

def scheme : String := "bearer"

def token (header : Option String) : Except AccessError String :=
  match header with
  | none => .error .noHeader
  | some value =>
      match Blank.fields value with
      | [kind, token] => if kind.map Char.toLower = scheme then .ok token else .error (.scheme kind)
      | _ => .error .malformed

def authorize (issuer : Issuer) (now : Moment) (roles : List Role) (header : Option String) :
    Except AccessError Claims := do
  let token ← Bearer.token header
  let claims ← (issuer.verify now token).mapError .token
  if roles.contains claims.role then return claims else .error (.role claims.role)

end Bearer
end Teller
