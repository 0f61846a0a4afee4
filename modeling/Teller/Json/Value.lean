import Teller.Json.Text

/-! Values of JSON, with the members of an object in the order of the text, repeated ones included. -/
namespace Teller

inductive Json where
  | null
  | bool (b : Bool)
  | number (n : Json.Number)
  | string (s : String)
  | list (items : List Json)
  | object (members : List (String × Json))

namespace Json
open Decimal (isDigit)

def seen : Json → Seen
  | null => .null
  | bool b => .bool b
  | number n => n.seen
  | string s => .text s
  | list _ => .list
  | object _ => .object

def depthLimit : Nat := 128

def nextElement (first : Bool) (text : List UInt8) : Except Failure (Bool × List UInt8) :=
  let text := skipSpace text
  match text with
  | [] => stopBehind .endInList []
  | b :: rest =>
      if b = 93 then .ok (false, text)
      else if first then .ok (true, text)
      else if b = 44 then
        let rest := skipSpace rest
        match rest with
        | [] => stopBehind .endInValue []
        | c :: _ => if c = 93 then stopBehind .trailingComma rest else .ok (true, rest)
      else stopBehind .listCommaOrEnd text

def nextMember (first : Bool) (text : List UInt8) : Except Failure (Bool × List UInt8) :=
  let text := skipSpace text
  match text with
  | [] => stopBehind .endInObject []
  | b :: rest =>
      if b = 125 then .ok (false, text)
      else if first then if b = 34 then .ok (true, rest) else stopBehind .keyText text
      else if b = 44 then
        let rest := skipSpace rest
        match rest with
        | [] => stopBehind .endInValue []
        | c :: behind =>
            if c = 34 then .ok (true, behind)
            else stopBehind (if c = 125 then .trailingComma else .keyText) rest
      else stopBehind .objectCommaOrEnd text

def nextKey (first : Bool) (text : List UInt8) : Except Failure (Option String × List UInt8) := do
  match ← nextMember first text with
  | (false, rest) => return (none, rest)
  | (true, rest) =>
      let (key, rest) ← readString rest
      return (some key, rest)

def readColon (text : List UInt8) : Except Failure (List UInt8) :=
  let text := skipSpace text
  match text with
  | [] => stopBehind .endInObject []
  | b :: rest => if b = 58 then .ok rest else stopBehind .colon text

def endList (text : List UInt8) : Except Failure (List UInt8) :=
  let text := skipSpace text
  match text with
  | [] => stopBehind .endInList []
  | b :: rest =>
      if b = 93 then .ok rest
      else if b = 44 then
        let rest := skipSpace rest
        stopBehind (if rest.head? = some 93 then .trailingComma else .trailing) rest
      else stopBehind .trailing text

def endObject (text : List UInt8) : Except Failure (List UInt8) :=
  let text := skipSpace text
  match text with
  | [] => stopBehind .endInObject []
  | b :: rest =>
      if b = 125 then .ok rest
      else stopBehind (if b = 44 then .trailingComma else .trailing) text

def behindList (text : List UInt8) : List UInt8 :=
  match skipSpace text with
  | 93 :: rest => rest
  | 44 :: rest => skipSpace rest
  | text => text

def behindObject (text : List UInt8) : List UInt8 :=
  match skipSpace text with
  | 125 :: rest => rest
  | text => text

mutual

def readValue : (steps : Nat) → (depth : Nat) → List UInt8 → Except Failure (Json × List UInt8)
  | 0, _, text => stopBehind .endInValue text
  | steps + 1, depth, text =>
      let text := skipSpace text
      match text with
      | [] => stopBehind .endInValue []
      | b :: rest =>
          if b = 110 then (readWord [117, 108, 108] rest).map fun r => (null, r.2)
          else if b = 116 then (readWord [114, 117, 101] rest).map fun r => (bool true, r.2)
          else if b = 102 then (readWord [97, 108, 115, 101] rest).map fun r => (bool false, r.2)
          else if b = 45 then (readNumber false rest).map fun r => (number r.1, r.2)
          else if isDigit b then (readNumber true text).map fun r => (number r.1, r.2)
          else if b = 34 then (readString rest).map fun r => (string r.1, r.2)
          else if b = 91 then
            if depth ≤ 1 then stopBehind .depth text
            else do
              let (items, rest) ← readElements steps (depth - 1) true rest
              return (list items, ← endList rest)
          else if b = 123 then
            if depth ≤ 1 then stopBehind .depth text
            else do
              let (members, rest) ← readMembers steps (depth - 1) true rest
              return (object members, ← endObject rest)
          else stopBehind .value text

def readElements : (steps : Nat) → (depth : Nat) → (first : Bool) → List UInt8 →
    Except Failure (List Json × List UInt8)
  | 0, _, _, text => stopBehind .endInList text
  | steps + 1, depth, first, text => do
      match ← nextElement first text with
      | (false, rest) => return ([], rest)
      | (true, rest) =>
          let (item, rest) ← readValue steps depth rest
          let (items, rest) ← readElements steps depth false rest
          return (item :: items, rest)

def readMembers : (steps : Nat) → (depth : Nat) → (first : Bool) → List UInt8 →
    Except Failure (List (String × Json) × List UInt8)
  | 0, _, _, text => stopBehind .endInObject text
  | steps + 1, depth, first, text => do
      match ← nextKey first text with
      | (none, rest) => return ([], rest)
      | (some key, rest) =>
          let (item, rest) ← readValue steps depth (← readColon rest)
          let (members, rest) ← readMembers steps depth false rest
          return ((key, item) :: members, rest)

end

def stepsFor (text : List UInt8) : Nat := 2 * text.length + 2

def writeNumber : Number → List UInt8
  | .natural n => Decimal.ofNat n.toNat
  | .negative n => Decimal.ofInt n.toInt
  | .float bits => utf8 (Shortest.text bits)

def separate : List (List UInt8) → List UInt8
  | [] => []
  | [a] => a
  | a :: rest => a ++ 44 :: separate rest

mutual

def write : Json → List UInt8
  | null => utf8 "null"
  | bool true => utf8 "true"
  | bool false => utf8 "false"
  | number n => writeNumber n
  | string s => writeString s
  | list items => 91 :: (separate (writeItems items) ++ [93])
  | object members => 123 :: (separate (writeMembers members) ++ [125])

def writeItems : List Json → List (List UInt8)
  | [] => []
  | item :: rest => item.write :: writeItems rest

def writeMembers : List (String × Json) → List (List UInt8)
  | [] => []
  | (key, item) :: rest => (writeString key ++ 58 :: item.write) :: writeMembers rest

end

end Json
end Teller
