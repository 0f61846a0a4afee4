import Teller.Json.Skip
import Teller.Json.Value

/-! Typed rows as JSON: one codec writes a type and reads it back. A row is read member by member, in
any order, from an object or in declaration order from a list; the first thing that is wrong is
reported, with the place that reading had come to. -/
namespace Teller.Json
open Decimal (isDigit)

abbrev Reader (τ : Type) := (depth : Nat) → List UInt8 → Except Failure (τ × List UInt8)

structure Codec (τ : Type) where
  write : τ → List UInt8
  read : Reader τ
  ofValue : Json → Except Misfit τ
  absent : Option τ := none

def wrongKind {τ : Type} (expected : String) (text : List UInt8) : Except Failure τ :=
  let as (r : Except Failure (Seen × List UInt8)) : Except Failure τ := do
    let (found, rest) ← r
    stop (.misfit (.kind found expected)) rest
  match text with
  | [] => stopBehind .value text
  | b :: rest =>
      if b = 110 then as ((readWord [117, 108, 108] rest).map fun r => (.null, r.2))
      else if b = 116 then as ((readWord [114, 117, 101] rest).map fun r => (.bool true, r.2))
      else if b = 102 then as ((readWord [97, 108, 115, 101] rest).map fun r => (.bool false, r.2))
      else if b = 45 then as ((readNumber false rest).map fun r => (r.1.seen, r.2))
      else if isDigit b then as ((readNumber true text).map fun r => (r.1.seen, r.2))
      else if b = 34 then as ((readString rest).map fun r => (.text r.1, r.2))
      else if b = 91 then as (.ok (.list, text))
      else if b = 123 then as (.ok (.object, text))
      else stopBehind .value text

def judge {σ τ : Type} (check : σ → Except Misfit τ) (r : Except Failure (σ × List UInt8)) :
    Except Failure (τ × List UInt8) := do
  let (found, rest) ← r
  match check found with
  | .ok v => return (v, rest)
  | .error cause => stop (.misfit cause) rest

namespace Codec
variable {σ τ : Type}

def ofText (expected : String) (write : τ → String) (check : String → Except Misfit τ) : Codec τ where
  write v := writeString (write v)
  read _ text :=
    match skipSpace text with
    | [] => stopBehind .endInValue []
    | 34 :: rest => judge check (readString rest)
    | text => wrongKind expected text
  ofValue
    | .string s => check s
    | other => .error (.kind other.seen expected)

def ofInteger (expected : String) (write : τ → Int) (check : Number → Except Misfit τ) : Codec τ where
  write v := Decimal.ofInt (write v)
  read _ text :=
    match skipSpace text with
    | [] => stopBehind .endInValue []
    | b :: rest =>
        if b = 45 then judge check (readNumber false rest)
        else if isDigit b then judge check (readNumber true (b :: rest))
        else wrongKind expected (b :: rest)
  ofValue
    | .number n => check n
    | other => .error (.kind other.seen expected)

def string : Codec String := ofText "a string" id .ok

def any : Codec Json where
  write := Json.write
  read depth text := readValue (stepsFor text) depth text
  ofValue := .ok

def bool : Codec Bool where
  write b := utf8 (if b then "true" else "false")
  read _ text :=
    match skipSpace text with
    | [] => stopBehind .endInValue []
    | b :: rest =>
        if b = 116 then (readWord [114, 117, 101] rest).map fun r => (true, r.2)
        else if b = 102 then (readWord [97, 108, 115, 101] rest).map fun r => (false, r.2)
        else wrongKind "a boolean" (b :: rest)
  ofValue
    | .bool b => .ok b
    | other => .error (.kind other.seen "a boolean")

def bounded (name : String) (low high : Int) (wrap : Int → τ) (n : Number) : Except Misfit τ :=
  match n.seen with
  | .integer i => if low ≤ i ∧ i ≤ high then .ok (wrap i) else .error (.value (.integer i) name)
  | other => .error (.kind other name)

def uint8 : Codec UInt8 :=
  ofInteger "u8" (fun n => n.toNat) (bounded "u8" 0 255 fun i => i.toNat.toUInt8)

def uint32 : Codec UInt32 :=
  ofInteger "u32" (fun n => n.toNat) (bounded "u32" 0 0xFFFFFFFF fun i => i.toNat.toUInt32)

def int64 : Codec Int64 :=
  ofInteger "i64" (fun n => n.toInt)
    (bounded "i64" (-0x8000000000000000) 0x7FFFFFFFFFFFFFFF Int64.ofInt)

def uuid : Codec Uuid :=
  ofText "a formatted UUID string" Uuid.toText fun s => (Uuid.parse s).mapError .uuid

def option (c : Codec τ) : Codec (Option τ) where
  write
    | none => utf8 "null"
    | some v => c.write v
  read depth text :=
    match skipSpace text with
    | 110 :: rest => (readWord [117, 108, 108] rest).map fun r => (none, r.2)
    | text => (c.read depth text).map fun r => (some r.1, r.2)
  ofValue
    | .null => .ok none
    | other => (c.ofValue other).map some
  absent := some none

def required (c : Codec τ) : Codec τ := { c with absent := none }

def elements (c : Codec τ) (depth : Nat) :
    (steps : Nat) → (first : Bool) → List UInt8 → Except Failure (List τ × List UInt8)
  | 0, _, text => stopBehind .endInList text
  | steps + 1, first, text => do
      match ← nextElement first text with
      | (false, rest) => return ([], rest)
      | (true, rest) =>
          let (item, rest) ← c.read depth rest
          let (items, rest) ← elements c depth steps false rest
          return (item :: items, rest)

def closeWith (close : List UInt8 → Except Failure (List UInt8)) (behind : List UInt8 → List UInt8)
    (r : Except Failure (τ × List UInt8)) : Except Failure (τ × List UInt8) :=
  match r with
  | .ok (v, rest) => (close rest).map fun rest => (v, rest)
  | .error (.loose cause rest) => stop (.misfit cause) (behind rest)
  | .error e => .error e

def list (c : Codec τ) : Codec (List τ) where
  write items := 91 :: (separate (items.map c.write) ++ [93])
  read depth text :=
    match skipSpace text with
    | [] => stopBehind .endInValue []
    | 91 :: rest =>
        if depth ≤ 1 then stopBehind .depth (91 :: rest)
        else closeWith endList behindList (elements c (depth - 1) (rest.length + 1) true rest)
    | text => wrongKind "a sequence" text
  ofValue
    | .list items => items.mapM c.ofValue
    | other => .error (.kind other.seen "a sequence")

end Codec

inductive Fields : List Type → Type 1 where
  | nil : Fields []
  | cons {τ : Type} {ts : List Type} (name : String) (codec : Codec τ) (rest : Fields ts) : Fields (τ :: ts)

def Values : List Type → Type
  | [] => Unit
  | τ :: ts => τ × Values ts

def Draft : List Type → Type
  | [] => Unit
  | τ :: ts => Option τ × Draft ts

namespace Fields

def names : {ts : List Type} → Fields ts → List String
  | _, nil => []
  | _, cons name _ rest => name :: rest.names

def blank : {ts : List Type} → Fields ts → Draft ts
  | _, nil => ()
  | _, cons _ _ rest => (none, rest.blank)

def finish : {ts : List Type} → Fields ts → Draft ts → Except Misfit (Values ts)
  | _, nil, () => .ok ()
  | _, cons name codec rest, (held, more) => do
      match held.or codec.absent with
      | some v => return (v, ← rest.finish more)
      | none => .error (.missing name)

def assign (depth : Nat) (key : String) : {ts : List Type} → Fields ts → Draft ts → List UInt8 →
    Except Failure (Draft ts × List UInt8)
  | _, nil, (), text => do
      let rest ← readColon text
      return ((), ← skipValue rest)
  | _, cons name codec rest, (held, more), text =>
      if name = key then
        if held.isSome then .error (.loose (.duplicate name) text)
        else do
          let (v, text) ← codec.read depth (← readColon text)
          return ((some v, more), text)
      else do
        let (more, text) ← rest.assign depth key more text
        return ((held, more), text)

def readMembers (depth : Nat) {ts : List Type} (fields : Fields ts) :
    (steps : Nat) → (first : Bool) → Draft ts → List UInt8 → Except Failure (Draft ts × List UInt8)
  | 0, _, _, text => stopBehind .endInObject text
  | steps + 1, first, draft, text => do
      match ← nextKey first text with
      | (none, rest) => return (draft, rest)
      | (some key, rest) =>
          let (draft, rest) ← fields.assign depth key draft rest
          fields.readMembers depth steps false draft rest

def readObject (depth : Nat) {ts : List Type} (fields : Fields ts) (text : List UInt8) :
    Except Failure (Values ts × List UInt8) := do
  let (draft, rest) ← fields.readMembers depth (text.length + 1) true fields.blank text
  match fields.finish draft with
  | .ok values => return (values, rest)
  | .error cause => .error (.loose cause rest)

def readList (depth : Nat) (expected : String) : {ts : List Type} → Fields ts → (index : Nat) →
    List UInt8 → Except Failure (Values ts × List UInt8)
  | _, nil, _, text => .ok ((), text)
  | _, cons _ codec rest, index, text => do
      match ← nextElement (index == 0) text with
      | (false, text) => .error (.loose (.length index expected) text)
      | (true, text) =>
          let (v, text) ← codec.read depth text
          let (more, text) ← rest.readList depth expected (index + 1) text
          return ((v, more), text)

def assignValue (key : String) (item : Json) : {ts : List Type} → Fields ts → Draft ts →
    Except Misfit (Draft ts)
  | _, nil, () => .ok ()
  | _, cons name codec rest, (held, more) =>
      if name = key then
        if held.isSome then .error (.duplicate name)
        else do return (some (← codec.ofValue item), more)
      else do return (held, ← rest.assignValue key item more)

def ofMembers {ts : List Type} (fields : Fields ts) (members : List (String × Json)) :
    Except Misfit (Values ts) := do
  let draft ← members.foldlM (fun draft (key, item) => fields.assignValue key item draft) fields.blank
  fields.finish draft

def ofItems (expected : String) : {ts : List Type} → Fields ts → (index : Nat) → List Json →
    Except Misfit (Values ts)
  | _, nil, _, [] => .ok ()
  | _, nil, index, extra =>
      .error (.length (index + extra.length)
        (toString index ++ (if index = 1 then " element" else " elements") ++ " in sequence"))
  | _, cons _ _ _, index, [] => .error (.length index expected)
  | _, cons _ codec rest, index, item :: items => do
      let v ← codec.ofValue item
      return (v, ← rest.ofItems expected (index + 1) items)

def write : {ts : List Type} → Fields ts → Values ts → List (List UInt8)
  | _, nil, () => []
  | _, cons name codec rest, (v, more) => (writeString name ++ 58 :: codec.write v) :: rest.write more

def described {ts : List Type} (title : String) (_ : Fields ts) : String :=
  title ++ " with " ++ toString ts.length ++ (if ts.length = 1 then " element" else " elements")

def writeObject {ts : List Type} (fields : Fields ts) (values : Values ts) : List UInt8 :=
  123 :: (separate (fields.write values) ++ [125])

end Fields

def Codec.ofFields {τ : Type} {ts : List Type} (title : String) (fields : Fields ts)
    (make : Values ts → τ) (parts : τ → Values ts) : Codec τ where
  write v := fields.writeObject (parts v)
  read depth text :=
    match skipSpace text with
    | [] => stopBehind .endInValue []
    | 91 :: rest =>
        if depth ≤ 1 then stopBehind .depth (91 :: rest)
        else (closeWith endList behindList
          (fields.readList (depth - 1) (fields.described title) 0 rest)).map fun r => (make r.1, r.2)
    | 123 :: rest =>
        if depth ≤ 1 then stopBehind .depth (123 :: rest)
        else (closeWith endObject behindObject
          (fields.readObject (depth - 1) rest)).map fun r => (make r.1, r.2)
    | text => wrongKind title text
  ofValue
    | .list items => (fields.ofItems (fields.described title) 0 items).map make
    | .object members => (fields.ofMembers members).map make
    | other => .error (.kind other.seen title)

def decode {τ : Type} (codec : Codec τ) (text : List UInt8) : Except Error τ :=
  let r : Except Failure τ := do
    let (v, rest) ← codec.read depthLimit text
    let rest := skipSpace rest
    if rest.isEmpty then return v else stopBehind .trailing rest
  r.mapError (Failure.toError text)

def encode {τ : Type} (codec : Codec τ) (v : τ) : Bytes := ⟨(codec.write v).toArray⟩

end Teller.Json
