import Teller.Json.Codec

/-! A type with finitely many named values. It is written as a name; it is read from a name or from an
object whose only member has the name and null. -/
namespace Teller.Json

def name? : Json → Option String
  | string s => some s
  | object [(s, null)] => some s
  | _ => none

namespace Codec
variable {τ : Type}

def choose (names : List (String × τ)) (s : String) : Except Misfit τ :=
  match names.lookup s with
  | some v => .ok v
  | none => .error (.variant s (names.map (·.1)))

def readName (names : List (String × τ)) (input : List UInt8) : Except Failure (τ × List UInt8) :=
  match skipSpace input with
  | [] => stopBehind .endInValue []
  | 34 :: rest => judge (choose names) (readString rest)
  | input => wrongKind "variant identifier" input

def readKey (names : List (String × τ)) (input : List UInt8) : Except Failure (τ × List UInt8) :=
  match skipSpace input with
  | [] => stop .endInObject []
  | 34 :: rest => judge (choose names) (readString rest)
  | 125 :: rest => stopBehind .value (125 :: rest)
  | input => stopBehind .keyText input

def readNull (input : List UInt8) : Except Failure (List UInt8) :=
  match skipSpace input with
  | [] => stopBehind .endInValue []
  | 110 :: rest => (readWord [117, 108, 108] rest).map (·.2)
  | input => wrongKind "unit" input

def readTagged (names : List (String × τ)) (input : List UInt8) :
    Except Failure (τ × List UInt8) := do
  let (v, rest) ← readKey names input
  let rest ← readNull (← readColon rest)
  match skipSpace rest with
  | [] => stop .endInObject []
  | 125 :: rest => return (v, rest)
  | rest => stop .value rest

def variantOf (names : List (String × τ)) : Json → Except Misfit τ
  | .string s => choose names s
  | .object [(s, held)] => do
      let v ← choose names s
      match held with
      | .null | .object [] => return v
      | other => .error (.kind other.seen "unit")
  | .object _ => .error (.value .object "map with a single key")
  | other => .error (.kind other.seen "string or map")

def variant (names : List (String × τ)) (write : τ → String) : Codec τ where
  write v := writeString (write v)
  read depth input :=
    match skipSpace input with
    | [] => stopBehind .endInValue []
    | 34 :: rest => judge (choose names) (readString rest)
    | 123 :: rest => if depth ≤ 1 then stopBehind .depth (123 :: rest) else readTagged names rest
    | input => stopBehind .value input
  ofValue := variantOf names

end Codec
end Teller.Json
