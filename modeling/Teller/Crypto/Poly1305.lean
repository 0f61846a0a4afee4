import Teller.Bytes

/-! The one-time check value Poly1305: a polynomial whose coefficients are the message, evaluated at
the first half of the key modulo a prime, plus the second half. -/
namespace Teller.Poly1305

def prime : Nat := .pow 2 130 - 5

def clamp (r : Nat) : Nat := r &&& 0x0ffffffc0ffffffc0ffffffc0fffffff

def evaluate (r : Nat) : (groups : Nat) → (sum : Nat) → List UInt8 → Nat
  | 0, sum, _ => sum
  | groups + 1, sum, message =>
      let coefficient := Bytes.natOfLittleEndian (message.take 16 ++ [1])
      evaluate r groups ((sum + coefficient) * r % prime) (message.drop 16)

def tag (key message : List UInt8) : List UInt8 :=
  let r := clamp (Bytes.natOfLittleEndian (key.take 16))
  let s := Bytes.natOfLittleEndian (key.drop 16)
  (Bytes.littleEndian 16 (evaluate r ((message.length + 15) / 16) 0 message + s)).data.toList

end Teller.Poly1305
