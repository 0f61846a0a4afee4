import Teller.Bytes

/-! Texts of characters in the coding UTF-8, and what is made of bytes that code no text. -/
namespace Teller.Coding

def firstChar? (text : List UInt8) : Option (Char × List UInt8) :=
  ((text.take 4).toByteArray.utf8DecodeChar? 0).map fun c => (c, text.drop c.utf8Size)

def miscoded : (steps : List UInt8) → List UInt8 → List UInt8
  | [], text => text
  | _ :: steps, text => match firstChar? text with
    | some (_, rest) => miscoded steps rest
    | none => text

def isChar (bytes : List UInt8) : Bool := (firstChar? bytes).any (·.2.isEmpty)

/-- How many bytes of a text that begins with no character begin the coding of one, but at least one. Where
any bytes could complete a coding, the lowest bytes that continue one do. -/
def spoilt (text : List UInt8) : Nat :=
  if isChar (text.take 3 ++ [128]) then 3
  else if isChar (text.take 2 ++ [128]) || isChar (text.take 2 ++ [128, 128]) then 2
  else 1

def repair : (steps : List UInt8) → List UInt8 → List Char
  | _, [] => []
  | [], _ => []
  | _ :: steps, text => match firstChar? text with
    | some (c, rest) => c :: repair steps rest
    | none => '\ufffd' :: repair steps (text.drop (spoilt text))

def readable (bytes : Bytes) : String :=
  bytes.toText?.getD (String.ofList (repair bytes.data.toList bytes.data.toList))

example : readable ⟨#[97, 255, 254, 128, 97]⟩ = "a\ufffd\ufffd\ufffda" := by decide +kernel
example : readable ⟨#[226, 130]⟩ = "\ufffd" := by decide +kernel
example : readable ⟨#[240, 159, 166, 34, 240, 159]⟩ = "\ufffd\"\ufffd" := by decide +kernel
example : readable ⟨#[237, 160, 128]⟩ = "\ufffd\ufffd\ufffd" := by decide +kernel

end Teller.Coding
