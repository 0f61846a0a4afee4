import Teller.Crypto.Sealing
import Teller.Text.Base64Url
import Teller.Token.Claims

/-! Sealed tokens: a header and, in base64, a nonce with the encrypted claims. The header is covered
by the seal, so that it cannot be exchanged. -/
namespace Teller

structure Nonce where
  bytes : List UInt8
  length_eq : bytes.length = Sealing.nonceSize
  deriving DecidableEq

def Nonce.ofNat (n : Nat) : Nonce :=
  ⟨(List.range Sealing.nonceSize).map fun i => (n >>> (8 * i)).toUInt8, by simp⟩

namespace Sealed

def keySize : Nat := 32

def keyMessage : String := "key must be exactly " ++ toString keySize ++ " bytes"

def header : String := "v1.sealed."

def headerBytes : List UInt8 := Json.utf8 header

def make (key : List UInt8) (nonce : Nonce) (plaintext : List UInt8) : String :=
  header ++ Base64Url.encode (nonce.bytes ++ Sealing.close key nonce.bytes headerBytes plaintext)

def body? (token : String) : Option (List UInt8) :=
  let cs := token.toList
  if header.toList.isPrefixOf cs then Base64Url.decodeList? (cs.drop header.length) else none

def open? (key : List UInt8) (token : String) : Option (List UInt8) := do
  let body ← body? token
  if body.length ≤ Sealing.nonceSize then none
  else
    Sealing.open? key (body.take Sealing.nonceSize) headerBytes (body.drop Sealing.nonceSize)

end Sealed
end Teller
