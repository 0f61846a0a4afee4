import Teller.Bytes

/-! Sixteen-byte identifiers and their texts. They are written in lowercase groups of 8, 4, 4, 4 and
12 digits; they are read in that form, without hyphens, in braces and behind a `urn:uuid:`. Digits and
urn may be in either case. -/
namespace Teller

structure Uuid where
  bytes : List UInt8
  length_eq : bytes.length = 16
  deriving DecidableEq

inductive UuidError where
  | character (found : Char) (place : Nat)
  | length (found : Nat)
  | groupCount (found : Nat)
  | groupLength (group found : Nat)
  deriving DecidableEq, Repr

namespace UuidError

def groupSizes : List Nat := [8, 4, 4, 4, 12]

def message : UuidError → String
  | character found place =>
      "invalid character: found `" ++ String.singleton found ++ "` at " ++ toString place
  | length found => "invalid length: found " ++ toString found
  | groupCount found => "invalid group count: expected 5, found " ++ toString found
  | groupLength group found =>
      "invalid group length in group " ++ toString group ++ ": expected " ++
        toString (groupSizes.getD group 0) ++ ", found " ++ toString found

end UuidError

namespace Uuid

def key (u : Uuid) : Bytes := ⟨u.bytes.toArray⟩

def ofBytes? (l : List UInt8) : Option Uuid := if h : l.length = 16 then some ⟨l, h⟩ else none

def digits (u : Uuid) : List Char := u.bytes.flatMap Bytes.hexByte

def hyphenate (ds : List Char) : List Char :=
  ds.take 8 ++ '-' :: (ds.drop 8).take 4 ++ '-' :: (ds.drop 12).take 4 ++
    '-' :: (ds.drop 16).take 4 ++ '-' :: ds.drop 20

def toText (u : Uuid) : String := String.ofList (hyphenate u.digits)

def ofDigits? (ds : List Char) : Option Uuid := (Bytes.hexPairs? ds).bind ofBytes?

def dehyphenate? (cs : List Char) : Option (List Char) :=
  match cs[8]?, cs[13]?, cs[18]?, cs[23]? with
  | some '-', some '-', some '-', some '-' =>
      some (cs.take 8 ++ (cs.drop 9).take 4 ++ (cs.drop 14).take 4 ++ (cs.drop 19).take 4 ++ cs.drop 24)
  | _, _, _, _ => none

def ofHyphenated? (cs : List Char) : Option Uuid := (dehyphenate? cs).bind ofDigits?

def urn : List Char := "urn:uuid:".toList

inductive Wrapping where
  | none
  | braces
  | urn
  deriving DecidableEq

def unwrap (cs : List Char) : List Char × Wrapping :=
  if cs.length ≥ 2 ∧ cs.head? = some '{' ∧ cs.getLast? = some '}' then
    (cs.tail.dropLast, .braces)
  else if (cs.take urn.length).map Char.toLower = urn then (cs.drop urn.length, .urn)
  else (cs, .none)

def Wrapping.before : Wrapping → Nat
  | none => 0
  | braces => 1
  | urn => Uuid.urn.length

def Wrapping.size : Wrapping → Nat
  | none => 0
  | braces => 2
  | urn => Uuid.urn.length

def plainSize : Nat := 32
def hyphenatedSize : Nat := 36

def longest : Nat := Wrapping.urn.size + hyphenatedSize

def hyphens : (place : Nat) → List Char → Except (Char × Nat) (List Nat)
  | _, [] => .ok []
  | place, c :: rest =>
      if c = '-' then (place :: ·) <$> hyphens (place + 1) rest
      else if (Bytes.hexValue? c).isSome then hyphens (place + 1) rest
      else .error (c, place)

/-- Why a text that is no identifier is none. The size of the text says first which form it has: one that
is longer than any form is not looked into, and one of the size with hyphens is not unwrapped. The
place of a character counts from the identifier on where the wrapping has the right size, else from the
beginning of the text. -/
def diagnose (s : String) : UuidError :=
  let size := s.utf8ByteSize
  if longest < size then .length size else
  let (inner, wrapping) :=
    if size = hyphenatedSize then (s.toList, .none) else unwrap s.toList
  let fits := size = hyphenatedSize + wrapping.size
  match hyphens 0 inner with
  | .error (c, place) => .character c (if fits then place else wrapping.before + place)
  | .ok [] => if wrapping = .none ∧ ¬ fits then .length size else .groupCount 1
  | .ok [a, b, c, d] =>
      if a ≠ 8 then .groupLength 0 a
      else if b ≠ 13 then .groupLength 1 (b - 9)
      else if c ≠ 18 then .groupLength 2 (c - 14)
      else if d ≠ 23 then .groupLength 3 (d - 19)
      else .groupLength 4 (size - 24)
  | .ok places => .groupCount (places.length + 1)

def ofText? (s : String) : Option Uuid :=
  let cs := s.toList
  if cs.length = plainSize then ofDigits? cs
  else if cs.length = hyphenatedSize then ofHyphenated? cs
  else match unwrap cs with
    | (_, .none) => none
    | (inner, _) => if inner.length = hyphenatedSize then ofHyphenated? inner else none

def parse (s : String) : Except UuidError Uuid :=
  match ofText? s with
  | some u => .ok u
  | none => .error (diagnose s)

def versionFour (n : Nat) : Uuid :=
  ⟨(List.range 16).map fun i =>
    let b := (n >>> (8 * (15 - i))).toUInt8
    if i = 6 then 0x40 ||| (b &&& 0x0F) else if i = 8 then 0x80 ||| (b &&& 0x3F) else b, by simp⟩

def isVersionFour (u : Uuid) : Bool :=
  (u.bytes.getD 6 0) >>> 4 == 4 && (u.bytes.getD 8 0) >>> 6 == 2

end Uuid
end Teller
