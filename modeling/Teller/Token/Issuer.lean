import Teller.Token.Sealed
import Teller.Token.Signed

/-! Makes tokens under one key and believes only those. -/
namespace Teller

inductive Scheme where
  | signed
  | sealed
  deriving DecidableEq, Repr

namespace Scheme

def parse (s : String) : Except String Scheme :=
  let lower := s.map Char.toLower
  if lower = "jwt" then .ok signed
  else if lower = "sealed" then .ok sealed
  else .error ("unknown token scheme '" ++ lower ++ "'")

end Scheme

structure Issuer where
  scheme : Scheme
  key : List UInt8
  fits : match scheme with
    | .signed => Signed.leastKeySize ≤ key.length
    | .sealed => key.length = Sealed.keySize

namespace Issuer

def ofSecret (key : List UInt8) : Except TokenError Issuer :=
  if h : key.length < Signed.leastKeySize then .error (.key Signed.keyMessage)
  else .ok ⟨.signed, key, Nat.le_of_not_lt h⟩

def ofCipherKey (key : List UInt8) : Except TokenError Issuer :=
  if h : key.length = Sealed.keySize then .ok ⟨.sealed, key, h⟩
  else .error (.key Sealed.keyMessage)

def ofKey : Scheme → List UInt8 → Except TokenError Issuer
  | .signed => ofSecret
  | .sealed => ofCipherKey

def token (i : Issuer) (nonce : Nonce) (claims : Claims) : String :=
  match i.scheme with
  | .signed => Signed.make i.key claims.toBytes
  | .sealed => Sealed.make i.key nonce claims.toBytes

def claims? (i : Issuer) (token : String) : Option Claims :=
  match i.scheme with
  | .sealed => (Sealed.open? i.key token).bind Claims.ofBytes?
  | .signed => do
      let text ← Signed.open? i.key token
      let claims ← Claims.ofBytes? text
      if Signed.readsRegistered text then some claims else none

def verify (i : Issuer) (now : Moment) (token : String) : Except TokenError Claims :=
  match i.claims? token with
  | some claims => claims.check now
  | none => .error .invalid

end Issuer
end Teller
