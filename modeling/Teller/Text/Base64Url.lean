/-! Base64 text with the alphabet that is safe in addresses, without padding. Each byte string has one
text: what would leave bits over that are not zero is refused. -/
namespace Teller.Base64Url

def digit (n : Nat) : Char :=
  if n < 26 then Char.ofNat (65 + n)
  else if n < 52 then Char.ofNat (71 + n)
  else if n < 62 then Char.ofNat (n - 4)
  else if n = 62 then '-'
  else '_'

def value? (c : Char) : Option Nat :=
  if 'A' ≤ c ∧ c ≤ 'Z' then some (c.toNat - 65)
  else if 'a' ≤ c ∧ c ≤ 'z' then some (c.toNat - 71)
  else if '0' ≤ c ∧ c ≤ '9' then some (c.toNat + 4)
  else if c = '-' then some 62
  else if c = '_' then some 63
  else none

def encodeList : List UInt8 → List Char
  | [] => []
  | [a] => [digit (a.toNat / 4), digit (a.toNat % 4 * 16)]
  | [a, b] =>
      [digit (a.toNat / 4), digit (a.toNat % 4 * 16 + b.toNat / 16), digit (b.toNat % 16 * 4)]
  | a :: b :: c :: rest =>
      digit (a.toNat / 4) :: digit (a.toNat % 4 * 16 + b.toNat / 16) ::
        digit (b.toNat % 16 * 4 + c.toNat / 64) :: digit (c.toNat % 64) :: encodeList rest

def decodeList? : List Char → Option (List UInt8)
  | [] => some []
  | [_] => none
  | [p, q] => do
      let p ← value? p
      let q ← value? q
      if q % 16 = 0 then some [(p * 4 + q / 16).toUInt8] else none
  | [p, q, r] => do
      let p ← value? p
      let q ← value? q
      let r ← value? r
      if r % 4 = 0 then some [(p * 4 + q / 16).toUInt8, (q % 16 * 16 + r / 4).toUInt8] else none
  | p :: q :: r :: s :: rest => do
      let p ← value? p
      let q ← value? q
      let r ← value? r
      let s ← value? s
      return (p * 4 + q / 16).toUInt8 :: (q % 16 * 16 + r / 4).toUInt8 ::
        (r % 4 * 64 + s).toUInt8 :: (← decodeList? rest)

def encode (bytes : List UInt8) : String := String.ofList (encodeList bytes)

def decode? (s : String) : Option (List UInt8) := decodeList? s.toList

end Teller.Base64Url
