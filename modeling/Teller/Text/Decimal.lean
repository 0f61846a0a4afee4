/-! Whole numbers in decimal digits: how they are written, and how a text is read as a number with a
largest value. Reading goes from left to right and reports the first thing that is wrong. -/
namespace Teller.Decimal

def digit (n : Nat) : UInt8 := (48 + n % 10).toUInt8

def ofNat (n : Nat) : List UInt8 :=
  if n < 10 then [digit n] else ofNat (n / 10) ++ [digit n]

def ofInt : Int → List UInt8
  | .ofNat n => ofNat n
  | .negSucc n => 45 :: ofNat (n + 1)

def isDigit (b : UInt8) : Bool := 48 ≤ b && b ≤ 57

def value (b : UInt8) : Nat := b.toNat - 48

inductive Error where
  | empty
  | invalidDigit
  | tooLarge
  deriving DecidableEq, Repr

def Error.message : Error → String
  | empty => "cannot parse integer from empty string"
  | invalidDigit => "invalid digit found in string"
  | tooLarge => "number too large to fit in target type"

def digits (max : Nat) : (sum : Nat) → List Char → Except Error Nat
  | sum, [] => .ok sum
  | sum, c :: rest =>
      if c.isDigit then
        let next := sum * 10 + (c.toNat - 48)
        if next ≤ max then digits max next rest else .error .tooLarge
      else .error .invalidDigit

def parse (max : Nat) (s : String) : Except Error Nat :=
  match s.toList with
  | [] => .error .empty
  | ['+'] => .error .invalidDigit
  | '+' :: rest => digits max 0 rest
  | cs => digits max 0 cs

end Teller.Decimal
