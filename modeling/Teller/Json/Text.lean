import Teller.Json.Number
import Teller.Text.Coding

/-! Blanks, words and strings of JSON, as they are read and written. -/
namespace Teller.Json

def isSpace (b : UInt8) : Bool := b = 32 || b = 10 || b = 9 || b = 13

def skipSpace (text : List UInt8) : List UInt8 := text.dropWhile isSpace

def utf8 (s : String) : List UInt8 := s.toUTF8.data.toList

def readWord : (word : List UInt8) → List UInt8 → Except Failure (Unit × List UInt8)
  | [], text => .ok ((), text)
  | _ :: _, [] => stop .endInValue []
  | w :: word, b :: rest => if w = b then readWord word rest else stop .word rest

def hexUnit? (a b c d : UInt8) : Option Nat := do
  let digit (x : UInt8) := Bytes.hexValue? (Char.ofNat x.toNat)
  return (((← digit a).toNat * 16 + (← digit b).toNat) * 16 + (← digit c).toNat) * 16 + (← digit d).toNat

def readHex : List UInt8 → Except Failure (Nat × List UInt8)
  | a :: b :: c :: d :: rest =>
      match hexUnit? a b c d with
      | some n => .ok (n, rest)
      | none => stop .escape rest
  | _ => stop .endInString []

def isLeading (n : Nat) : Bool := 0xD800 ≤ n && n ≤ 0xDBFF
def isTrailing (n : Nat) : Bool := 0xDC00 ≤ n && n ≤ 0xDFFF

def readUnicode (text : List UInt8) : Except Failure (Char × List UInt8) := do
  let (n, rest) ← readHex text
  if isTrailing n then stop .loneSurrogate rest
  else if !isLeading n then return (Char.ofNat n, rest)
  else match rest with
    | [] => stop .endInString []
    | 92 :: [] => stop .endInString []
    | 92 :: 117 :: rest => do
        let (low, rest) ← readHex rest
        if isTrailing low then
          return (Char.ofNat (0x10000 + (n - 0xD800) * 1024 + (low - 0xDC00)), rest)
        else stop .loneSurrogate rest
    | 92 :: _ :: rest => stop .hexEscapeEnd rest
    | _ :: rest => stop .hexEscapeEnd rest

def readEscape : List UInt8 → Except Failure (Char × List UInt8)
  | [] => stop .endInString []
  | 34 :: rest => .ok ('"', rest)
  | 92 :: rest => .ok ('\\', rest)
  | 47 :: rest => .ok ('/', rest)
  | 98 :: rest => .ok ('\x08', rest)
  | 102 :: rest => .ok ('\x0c', rest)
  | 110 :: rest => .ok ('\n', rest)
  | 114 :: rest => .ok ('\r', rest)
  | 116 :: rest => .ok ('\t', rest)
  | 117 :: rest => readUnicode rest
  | _ :: rest => stop .escape rest

def readQuoted : (steps : List UInt8) → List UInt8 → Except Failure (List UInt8 × List UInt8)
  | _, [] => stop .endInString []
  | [], text => stop .endInString text
  | _ :: steps, b :: rest =>
      if b = 34 then .ok ([], rest)
      else if b = 92 then do
        let (first, rest) ← readEscape rest
        let (more, rest) ← readQuoted steps rest
        return (String.utf8EncodeChar first ++ more, rest)
      else if b < 32 then stop .control rest
      else do
        let (more, rest) ← readQuoted steps rest
        return (b :: more, rest)

/-- The text of a string whose opening quote has been read. It is judged as a whole, behind the closing
quote: its first bad byte is placed as many bytes before that as there are bytes from it on. -/
def readString (text : List UInt8) : Except Failure (String × List UInt8) := do
  let (bytes, rest) ← readQuoted text text
  match Bytes.toText? bytes.toByteArray with
  | some s => return (s, rest)
  | none => .error (.placed .codePoint (rest.length + (Coding.miscoded bytes bytes).length))

def hexDigit (n : UInt8) : UInt8 := if n < 10 then 48 + n else 87 + n

def writeByte (b : UInt8) : List UInt8 :=
  if b = 34 then [92, 34]
  else if b = 92 then [92, 92]
  else if b = 8 then [92, 98]
  else if b = 9 then [92, 116]
  else if b = 10 then [92, 110]
  else if b = 12 then [92, 102]
  else if b = 13 then [92, 114]
  else if b < 32 then [92, 117, 48, 48, hexDigit (b >>> 4), hexDigit (b &&& 15)]
  else [b]

def writeString (s : String) : List UInt8 := 34 :: ((utf8 s).flatMap writeByte ++ [34])

end Teller.Json
