import Teller.Text.Decimal

/-! The shortest decimal text of a binary floating-point number of 64 bits. A number is `m · 2^q`;
every real between the middles to its two neighbours reads back as it. Of the decimals with the
fewest digits in that interval the nearest is chosen. -/
namespace Teller.Shortest

structure Binary where
  mantissa : Nat
  exponent : Int
  deriving DecidableEq, Repr

def magnitude (bits : UInt64) : Binary :=
  let fraction := (bits &&& 0xFFFFFFFFFFFFF).toNat
  let power := ((bits >>> 52) &&& 0x7FF).toNat
  if power = 0 then ⟨fraction, -1074⟩ else ⟨fraction + 0x10000000000000, power - 1075⟩

def isNegative (bits : UInt64) : Bool := bits >>> 63 = 1

/-- `n / d` is the number, in quarters of its last binary place: the ends of its interval are
`(4m - below) / 4` and `(4m + 2) / 4` of that place. -/
structure Interval where
  low : Nat
  middle : Nat
  high : Nat
  scale : Nat
  closed : Bool

def interval (x : Binary) : Interval :=
  let below := if x.mantissa = 0x10000000000000 ∧ x.exponent > -1074 then 1 else 2
  let up := x.exponent.toNat
  let down := (-x.exponent).toNat
  ⟨(4 * x.mantissa - below) * .pow 2 up, 4 * x.mantissa * .pow 2 up, (4 * x.mantissa + 2) * .pow 2 up,
    4 * .pow 2 down, x.mantissa % 2 = 0⟩

def Interval.holds (i : Interval) (k : Nat) (p : Int) : Bool :=
  let value := k * .pow 10 p.toNat * i.scale
  let unit := .pow 10 (-p).toNat
  if i.closed then i.low * unit ≤ value && value ≤ i.high * unit
  else i.low * unit < value && value < i.high * unit

def Interval.nearest? (i : Interval) (p : Int) : Option Nat :=
  let top := i.middle * .pow 10 (-p).toNat
  let unit := i.scale * .pow 10 p.toNat
  let k := top / unit
  let rest := top % unit
  match i.holds k p, i.holds (k + 1) p with
  | true, true =>
      if 2 * rest < unit ∨ (2 * rest = unit ∧ k % 2 = 0) then some k else some (k + 1)
  | true, false => some k
  | false, true => some (k + 1)
  | false, false => none

def search (i : Interval) : (steps : Nat) → (p : Int) → Nat × Int
  | 0, p => (i.middle * .pow 10 (-p).toNat / (i.scale * .pow 10 p.toNat), p)
  | steps + 1, p =>
      match i.nearest? p with
      | some (k + 1) => (k + 1, p)
      | _ => search i steps (p - 1)

def digits (x : Binary) : Nat × Int := search (interval x) 650 310

structure Layout where
  least : Int
  most : Int

def layout : Layout := ⟨-5, 16⟩

def text (bits : UInt64) : String :=
  let sign := if isNegative bits then "-" else ""
  let x := magnitude bits
  if x.mantissa = 0 then sign ++ "0.0" else
  let (k, p) := digits x
  let ds := (toString k).toList
  let point : Int := ds.length + p
  let body :=
    if 0 ≤ p ∧ point ≤ layout.most then
      ds ++ List.replicate p.toNat '0' ++ ['.', '0']
    else if 0 < point ∧ point ≤ layout.most then
      ds.take point.toNat ++ '.' :: ds.drop point.toNat
    else if layout.least < point ∧ point ≤ 0 then
      '0' :: '.' :: (List.replicate (-point).toNat '0' ++ ds)
    else
      let power := 'e' :: (if 0 < point then ['+'] else []) ++ (toString (point - 1)).toList
      match ds with
      | [d] => d :: power
      | d :: more => d :: '.' :: (more ++ power)
      | [] => power
  sign ++ String.ofList body

end Teller.Shortest
