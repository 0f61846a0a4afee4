/-! White space as Unicode lists it, and the fields of a text that it separates. -/
namespace Teller.Blank

def isBlank (c : Char) : Bool :=
  let n := c.toNat
  (9 ≤ n && n ≤ 13) || n = 0x20 || n = 0x85 || n = 0xA0 || n = 0x1680 || (0x2000 ≤ n && n ≤ 0x200A) ||
    n = 0x2028 || n = 0x2029 || n = 0x202F || n = 0x205F || n = 0x3000

def trim (cs : List Char) : List Char :=
  ((cs.dropWhile isBlank).reverse.dropWhile isBlank).reverse

def split : (current : List Char) → List Char → List (List Char)
  | current, [] => if current.isEmpty then [] else [current.reverse]
  | current, c :: rest =>
      if isBlank c then
        if current.isEmpty then split [] rest else current.reverse :: split [] rest
      else split (c :: current) rest

def fields (s : String) : List String := (split [] s.toList).map String.ofList

end Teller.Blank
