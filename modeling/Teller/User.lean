import Teller.Moment
import Teller.Role

/-! The accounts of the bank's users. -/
namespace Teller

structure User where
  username : String
  role : Role
  hashedPassword : String
  fullName : String
  email : String
  isEmailVerified : Bool
  passwordChangedAt : Moment
  createdAt : Moment
  deriving DecidableEq

structure NewUser where
  username : String
  role : Role
  hashedPassword : String
  fullName : String
  email : String
  deriving DecidableEq

namespace User
open Json (Fields Codec)

def create (new : NewUser) (now : Moment) : User :=
  { username := new.username, role := new.role, hashedPassword := new.hashedPassword
    fullName := new.fullName, email := new.email, isEmailVerified := false
    passwordChangedAt := .epoch, createdAt := now }

def fields : Fields [String, Role, String, String, String, Bool, Moment, Moment] :=
  .cons "username" .string <| .cons "role" Role.codec <| .cons "hashed_password" .string <|
    .cons "full_name" .string <| .cons "email" .string <| .cons "is_email_verified" .bool <|
    .cons "password_changed_at" Moment.codec <| .cons "created_at" Moment.codec .nil

def codec : Codec User :=
  .ofFields "struct User" fields
    (fun (username, role, hashedPassword, fullName, email, isEmailVerified, passwordChangedAt,
        createdAt, ()) =>
      ⟨username, role, hashedPassword, fullName, email, isEmailVerified, passwordChangedAt, createdAt⟩)
    fun u => (u.username, u.role, u.hashedPassword, u.fullName, u.email, u.isEmailVerified,
      u.passwordChangedAt, u.createdAt, ())

end User
end Teller
