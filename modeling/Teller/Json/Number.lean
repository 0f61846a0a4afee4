import Teller.Json.Failure

/-! Numbers of JSON. An integer that fits in 64 bits stays exact; any other number becomes a binary
floating-point number of 64 bits, from at most 64 bits of its digits and a power of ten. -/
namespace Teller.Json
open Decimal (isDigit)

inductive Number where
  | natural (n : UInt64)
  | negative (n : Int64)
  | float (bits : UInt64)
  deriving DecidableEq, Repr

def Number.seen : Number → Seen
  | natural n => .integer n.toNat
  | negative n => .integer n.toInt
  | float bits => .float bits

def maxNatural : Nat := UInt64.size - 1

def gather : (sum count : Nat) → List UInt8 → Nat × Nat × List UInt8
  | sum, count, b :: rest =>
      if isDigit b ∧ sum * 10 + Decimal.value b ≤ maxNatural then
        gather (sum * 10 + Decimal.value b) (count + 1) rest
      else (sum, count, b :: rest)
  | sum, count, [] => (sum, count, [])

def startsWithDigit : List UInt8 → Bool
  | b :: _ => isDigit b
  | [] => false

def startsWithE : List UInt8 → Bool
  | b :: _ => b = 101 || b = 69
  | [] => false

def power (k : Nat) : Float := Float.ofScientific 1 false k

def scale (f : Float) : (steps : Nat) → (exponent : Int) → Option Float
  | 0, _ => some f
  | steps + 1, exponent =>
      if exponent.natAbs ≤ 308 then
        if exponent ≥ 0 then
          let g := f * power exponent.natAbs
          if g.isInf then none else some g
        else some (f / power exponent.natAbs)
      else if f == 0.0 then some f
      else if exponent ≥ 0 then none
      else scale (f / power 308) steps (exponent + 308)

def signed (positive : Bool) (f : Float) : Number := .float (if positive then f else -f).toBits

def finish (positive : Bool) (significand : Nat) (exponent : Int) (rest : List UInt8) : Except Failure (Number × List UInt8) :=
  match scale significand.toUInt64.toFloat 5 exponent with
  | some f => .ok (signed positive f, rest)
  | none => stop .numberRange rest

def maxExponent : Nat := 0x7FFFFFFF

def clampExponent (e : Int) : Int := max (-0x80000000) (min e 0x7FFFFFFF)

def exponentDigits : (sum : Nat) → List UInt8 → Except (List UInt8) (Nat × List UInt8)
  | sum, b :: rest =>
      if isDigit b then
        let next := sum * 10 + Decimal.value b
        if next ≤ maxExponent then exponentDigits next rest else .error rest
      else .ok (sum, b :: rest)
  | sum, [] => .ok (sum, [])

def readExponent (positive : Bool) (significand : Nat) (start : Int) (text : List UInt8) : Except Failure (Number × List UInt8) :=
  let (up, rest) : Bool × List UInt8 := match text.tail with
    | 43 :: rest => (true, rest)
    | 45 :: rest => (false, rest)
    | rest => (true, rest)
  match rest with
  | [] => stop .endInValue rest
  | b :: rest =>
      if !isDigit b then stop .number rest
      else match exponentDigits (Decimal.value b) rest with
        | .ok (e, rest) =>
            finish positive significand (clampExponent (if up then start + e else start - e)) rest
        | .error rest =>
            if significand ≠ 0 ∧ up then stop .numberRange rest
            else .ok (signed positive 0.0, rest.dropWhile isDigit)

def readFraction (positive : Bool) (significand : Nat) (before : Int) (text : List UInt8) : Except Failure (Number × List UInt8) :=
  let (significand, count, rest) := gather significand 0 text.tail
  let exponent := before - count
  if startsWithDigit rest then
    let rest := rest.dropWhile isDigit
    if startsWithE rest then readExponent positive significand exponent rest
    else finish positive significand exponent rest
  else if count = 0 then
    stopBehind (if rest.isEmpty then .endInValue else .number) rest
  else if startsWithE rest then readExponent positive significand exponent rest
  else finish positive significand exponent rest

def whole (positive : Bool) (significand : Nat) : Number :=
  if positive then .natural significand.toUInt64
  else if 0 < significand ∧ significand ≤ 0x8000000000000000 then .negative (Int64.ofInt (-significand))
  else signed false significand.toUInt64.toFloat

def readNumber (positive : Bool) (text : List UInt8) : Except Failure (Number × List UInt8) :=
  match text with
  | [] => stop .endInValue text
  | b :: rest =>
      if b = 48 then
        if startsWithDigit rest then stopBehind .number rest
        else match rest with
          | 46 :: _ => readFraction positive 0 0 rest
          | _ => if startsWithE rest then readExponent positive 0 0 rest
                 else .ok (whole positive 0, rest)
      else if isDigit b then
        let (significand, _, rest) := gather (Decimal.value b) 0 rest
        let dropped := (rest.takeWhile isDigit).length
        let tail := rest.drop dropped
        match tail with
        | 46 :: _ => readFraction positive significand dropped tail
        | _ =>
            if startsWithE tail then readExponent positive significand dropped tail
            else if dropped = 0 then .ok (whole positive significand, tail)
            else finish positive significand dropped tail
      else stop .number rest

end Teller.Json
