import Teller.Json.Codec

/-! Points in time and distances between them, in whole milliseconds. A moment lies within the
262143 years before and after the common era's first; a sum that leaves them is no moment. -/
namespace Teller

structure Span where
  ms : Int
  inRange : -0x7FFFFFFFFFFFFFFF ≤ ms ∧ ms ≤ 0x7FFFFFFFFFFFFFFF
  deriving DecidableEq

namespace Span

def ofMs? (ms : Int) : Option Span :=
  if h : -0x7FFFFFFFFFFFFFFF ≤ ms ∧ ms ≤ 0x7FFFFFFFFFFFFFFF then some ⟨ms, h⟩ else none

def longest : Span := ⟨0x7FFFFFFFFFFFFFFF, by decide⟩
def shortest : Span := ⟨-0x7FFFFFFFFFFFFFFF, by decide⟩
def zero : Span := ⟨0, by decide⟩

instance : Inhabited Span := ⟨zero⟩

def fraction (ms : Nat) : String :=
  if ms = 0 then ""
  else if ms % 100 = 0 then "." ++ toString (ms / 100)
  else if ms % 10 = 0 then (if ms < 100 then ".0" else ".") ++ toString (ms / 10)
  else (if ms < 10 then ".00" else if ms < 100 then ".0" else ".") ++ toString ms

def toText (s : Span) : String :=
  let n := s.ms.natAbs
  if n = 0 then "P0D"
  else (if s.ms < 0 then "-" else "") ++ "PT" ++ toString (n / 1000) ++ fraction (n % 1000) ++ "S"

end Span

namespace Moment

def first : Int := -8334601228800000
def last : Int := 8210266876799999

end Moment

structure Moment where
  ms : Int
  inRange : Moment.first ≤ ms ∧ ms ≤ Moment.last
  deriving DecidableEq

namespace Moment

def ofMs? (ms : Int) : Option Moment :=
  if h : first ≤ ms ∧ ms ≤ last then some ⟨ms, h⟩ else none

def epoch : Moment := ⟨0, by decide⟩
def latest : Moment := ⟨last, by decide⟩

instance : Inhabited Moment := ⟨epoch⟩
instance : Ord Moment := ⟨compareOn Moment.ms⟩
instance : LE Moment := ⟨fun a b => a.ms ≤ b.ms⟩
instance : LT Moment := ⟨fun a b => a.ms < b.ms⟩
instance (a b : Moment) : Decidable (a ≤ b) := inferInstanceAs (Decidable (a.ms ≤ b.ms))
instance (a b : Moment) : Decidable (a < b) := inferInstanceAs (Decidable (a.ms < b.ms))

def add? (m : Moment) (s : Span) : Option Moment := ofMs? (m.ms + s.ms)
def sub? (m : Moment) (s : Span) : Option Moment := ofMs? (m.ms - s.ms)

theorem ofMs?_ms (m : Moment) : ofMs? m.ms = some m := by simp [ofMs?, m.inRange]

open Json (Misfit)

def ofNumber (n : Json.Number) : Except Misfit Moment :=
  match n.seen with
  | .integer i => match ofMs? i with
    | some m => .ok m
    | none => .error (.timestamp i)
  | other => .error (.kind other "a unix timestamp in milliseconds")

def codec : Json.Codec Moment :=
  .ofInteger "a unix timestamp in milliseconds" Moment.ms ofNumber

def optionCodec : Json.Codec (Option Moment) := codec.option.required

end Moment

structure Clock where
  ms : Int64
  deriving DecidableEq, Repr

namespace Clock

def start : Clock := ⟨1700000000000⟩

def advance (c : Clock) (ms : Int64) : Clock := ⟨c.ms + ms⟩

def now (c : Clock) : Moment := (Moment.ofMs? c.ms.toInt).getD .epoch

end Clock
end Teller
