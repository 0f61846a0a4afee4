import Teller.Crypto.Hmac
import Teller.Text.Base64Url
import Teller.Token.Claims
import Teller.Token.Header
import Teller.Token.Registered

/-! Signed tokens: header, claims and the check value of both, each in base64 and parted by dots. -/
namespace Teller.Signed

def leastKeySize : Nat := 32

def keyMessage : String := "secret must be at least " ++ toString leastKeySize ++ " bytes"

def header : String := "\x7b\"typ\":\"JWT\",\"alg\":\"HS256\"\x7d"

def message (claims : List UInt8) : String :=
  Base64Url.encode (Json.utf8 header) ++ "." ++ Base64Url.encode claims

def signature (key : List UInt8) (message : String) : String :=
  Base64Url.encode (Hmac.sign key (Json.utf8 message))

def make (key claims : List UInt8) : String :=
  message claims ++ "." ++ signature key (message claims)

def splitLast? (cs : List Char) : Option (List Char × List Char) :=
  let back := cs.reverse
  match back.dropWhile (· ≠ '.') with
  | _ :: front => some (front.reverse, (back.takeWhile (· ≠ '.')).reverse)
  | [] => none

def open? (key : List UInt8) (token : String) : Option (List UInt8) := do
  let (message, check) ← splitLast? token.toList
  let (first, second) ← splitLast? message
  let header ← Base64Url.decodeList? first
  if !isHeader header then none
  if String.ofList check ≠ signature key (String.ofList message) then none
  Base64Url.decodeList? second

end Teller.Signed
