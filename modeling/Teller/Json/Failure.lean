import Teller.Text.Quoted
import Teller.Text.Shortest
import Teller.Uuid

/-! What can be wrong with a JSON text: its grammar, or the fit between a well-formed value and what
was expected of it. A misfit is noticed while the text is read and gets its place afterwards. -/
namespace Teller.Json

inductive Seen where
  | null
  | bool (b : Bool)
  | integer (n : Int)
  | float (bits : UInt64)
  | text (s : String)
  | list
  | object
  deriving DecidableEq, Repr

def Seen.message : Seen → String
  | null => "null"
  | bool b => "boolean `" ++ (if b then "true" else "false") ++ "`"
  | integer n => "integer `" ++ toString n ++ "`"
  | float bits => "floating point `" ++ Shortest.text bits ++ "`"
  | text s => "string " ++ Quoted.quote s
  | list => "sequence"
  | object => "map"

inductive Misfit where
  | missing (field : String)
  | duplicate (field : String)
  | variant (found : String) (known : List String)
  | kind (found : Seen) (expected : String)
  | value (found : Seen) (expected : String)
  | length (found : Nat) (expected : String)
  | timestamp (found : Int)
  | uuid (cause : UuidError)
  | other (words : String)
  deriving DecidableEq, Repr

def ticked (s : String) : String := "`" ++ s ++ "`"

def alternatives : List String → String
  | [] => "there are no variants"
  | [a] => "expected " ++ ticked a
  | [a, b] => "expected " ++ ticked a ++ " or " ++ ticked b
  | many => "expected one of " ++ ", ".intercalate (many.map ticked)

def Misfit.message : Misfit → String
  | missing field => "missing field " ++ ticked field
  | duplicate field => "duplicate field " ++ ticked field
  | variant found known => "unknown variant " ++ ticked found ++ ", " ++ alternatives known
  | kind found expected => "invalid type: " ++ found.message ++ ", expected " ++ expected
  | value found expected => "invalid value: " ++ found.message ++ ", expected " ++ expected
  | length found expected => "invalid length " ++ toString found ++ ", expected " ++ expected
  | timestamp found => "value is not a legal timestamp: " ++ toString found
  | uuid cause => "UUID parsing failed: " ++ cause.message
  | other words => words

inductive Cause where
  | endInList
  | endInObject
  | endInString
  | endInValue
  | colon
  | listCommaOrEnd
  | objectCommaOrEnd
  | word
  | value
  | escape
  | number
  | numberRange
  | codePoint
  | control
  | keyText
  | loneSurrogate
  | trailingComma
  | trailing
  | hexEscapeEnd
  | depth
  | misfit (cause : Misfit)
  deriving DecidableEq, Repr

def Cause.message : Cause → String
  | endInList => "EOF while parsing a list"
  | endInObject => "EOF while parsing an object"
  | endInString => "EOF while parsing a string"
  | endInValue => "EOF while parsing a value"
  | colon => "expected `:`"
  | listCommaOrEnd => "expected `,` or `]`"
  | objectCommaOrEnd => "expected `,` or `\x7d`"
  | word => "expected ident"
  | value => "expected value"
  | escape => "invalid escape"
  | number => "invalid number"
  | numberRange => "number out of range"
  | codePoint => "invalid unicode code point"
  | control => "control character (\\u0000-\\u001F) found while parsing a string"
  | keyText => "key must be a string"
  | loneSurrogate => "lone leading surrogate in hex escape"
  | trailingComma => "trailing comma"
  | trailing => "trailing characters"
  | hexEscapeEnd => "unexpected end of hex escape"
  | depth => "recursion limit exceeded"
  | misfit cause => cause.message

inductive Category where
  | grammar
  | ended
  | misfit
  deriving DecidableEq, Repr

def Cause.category : Cause → Category
  | endInList | endInObject | endInString | endInValue => .ended
  | misfit _ => .misfit
  | _ => .grammar

/-- A reader stops with a placed failure, where `left` bytes of the text were not yet read, or with a
misfit that has no place yet, at the bytes still to be read. -/
inductive Failure where
  | placed (cause : Cause) (left : Nat)
  | loose (cause : Misfit) (rest : List UInt8)
  deriving DecidableEq

variable {α : Type}

def stop (cause : Cause) (rest : List UInt8) : Except Failure α := .error (.placed cause rest.length)

def stopBehind (cause : Cause) (rest : List UInt8) : Except Failure α :=
  .error (.placed cause (rest.length - 1))

def settle (r : Except Failure α) : Except Failure α :=
  match r with
  | .error (.loose cause rest) => stop (.misfit cause) rest
  | r => r

structure Error where
  cause : Cause
  place : Option (Nat × Nat)
  deriving DecidableEq, Repr

namespace Error

def message (e : Error) : String :=
  match e.place with
  | some (line, column) =>
      e.cause.message ++ " at line " ++ toString line ++ " column " ++ toString column
  | none => e.cause.message

def category (e : Error) : Category := e.cause.category

def splitLast? (mark : List Char) : List Char → Option (List Char × List Char)
  | [] => none
  | c :: rest => match splitLast? mark rest with
    | some (before, behind) => some (c :: before, behind)
    | none => if mark.isPrefixOf (c :: rest) then some ([], (c :: rest).drop mark.length) else none

def count? (digits : List Char) : Option Nat :=
  if digits.all Char.isDigit then (Decimal.parse (UInt64.size - 1) (String.ofList digits)).toOption else none

def splitPlace? (words : List Char) : Option (List Char × Nat × Nat) := do
  let (words, behind) ← splitLast? " at line ".toList words
  let (line, column) ← splitLast? " column ".toList behind
  return (words, ← count? line, ← count? column)

def ofWords (words : String) : Error :=
  match splitPlace? words.toList with
  | some (words, line, column) =>
      ⟨.misfit (.other (String.ofList words)), if line = 0 then none else some (line, column)⟩
  | none => ⟨.misfit (.other words), none⟩

end Error

def place (consumed : List UInt8) : Nat × Nat :=
  (1 + consumed.count 10, (consumed.reverse.takeWhile (· ≠ 10)).length)

def Failure.toError (text : List UInt8) : Failure → Error
  | placed cause left => ⟨cause, some (place (text.take (text.length - left)))⟩
  | loose cause _ => ⟨.misfit cause, none⟩

end Teller.Json
