import Teller.Crypto.Sha256

/-! The keyed check value HMAC over SHA-256. -/
namespace Teller.Hmac
open Sha256 (blockSize digest)

def blockKey (key : List UInt8) : List UInt8 :=
  let short := if key.length > blockSize then digest key else key
  short ++ List.replicate (blockSize - short.length) 0

def sign (key message : List UInt8) : List UInt8 :=
  let k := blockKey key
  digest (k.map (· ^^^ 0x5C) ++ digest (k.map (· ^^^ 0x36) ++ message))

end Teller.Hmac
