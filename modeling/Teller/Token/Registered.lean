import Teller.Json.Codec

/-! The claims that the standard for web tokens registers itself: two dates, a subject, an issuer and an
audience. None of them is used here, but a token may not repeat one, and a value of the wrong type
must be such that a reader that looks for the right one can go on behind it: a date may be an empty
list or object but no other, a subject neither. In any list or object of a party the reader gives up at
the first value that it cannot read, and goes on only if the brackets around that close at once. -/
namespace Teller.Signed
open Json (skipSpace Failure)

inductive Registered where
  | date
  | subject
  | party
  deriving DecidableEq, Repr

def registered : List (String × Registered) :=
  [("exp", .date), ("nbf", .date), ("sub", .subject), ("iss", .party), ("aud", .party)]

/-- How far a reader comes that goes on behind what it cannot read: the text it stands at, as an error
where something was wrong before. -/
abbrev Stand := Except (List UInt8) (List UInt8)

def Stand.rest : Stand → List UInt8
  | .ok rest | .error rest => rest

def stand {α : Type} (input : List UInt8) : Except Failure (α × List UInt8) → Stand
  | .ok (_, rest) => .ok rest
  | .error (.placed _ left) => .error (input.drop (input.length - left))
  | .error (.loose _ rest) => .error rest

def passString (input : List UInt8) : Stand :=
  match Json.readQuoted input input with
  | .ok (bytes, rest) => if (Bytes.toText? bytes.toByteArray).isSome then .ok rest else .error rest
  | .error e => stand input (.error e : Except Failure (Unit × List UInt8))

def leave (behind : List UInt8 → List UInt8) : Stand → Stand
  | .ok rest => .ok (behind rest)
  | .error rest => .error (behind rest)

mutual

def pass : (steps : Nat) → (depth : Nat) → List UInt8 → Stand
  | 0, _, input => .error input
  | steps + 1, depth, input =>
      let input := skipSpace input
      match input with
      | 34 :: rest => passString rest
      | 91 :: rest =>
          if depth ≤ 1 then .error input
          else leave Json.behindList (passElements steps (depth - 1) true rest)
      | 123 :: rest =>
          if depth ≤ 1 then .error input
          else leave Json.behindObject (passMembers steps (depth - 1) true rest)
      | _ => stand input (Json.readValue 1 1 input)

def passElements : (steps : Nat) → (depth : Nat) → (first : Bool) → List UInt8 → Stand
  | 0, _, _, input => .error input
  | steps + 1, depth, first, input =>
      match Json.nextElement first input with
      | .ok (false, rest) => .ok rest
      | .ok (true, rest) => do passElements steps depth false (← pass steps depth rest)
      | .error _ => .error input

def passMembers : (steps : Nat) → (depth : Nat) → (first : Bool) → List UInt8 → Stand
  | 0, _, _, input => .error input
  | steps + 1, depth, first, input =>
      match Json.nextMember first input with
      | .ok (false, rest) => .ok rest
      | .ok (true, rest) => do
          let rest ← passString rest
          match Json.readColon rest with
          | .ok rest => passMembers steps depth false (← pass steps depth rest)
          | .error _ => .error rest
      | .error _ => .error input

end

def passEmpty? (close : UInt8) (input : List UInt8) : Option (List UInt8) :=
  match skipSpace input with
  | b :: rest => if b = close then some rest else none
  | [] => none

def Registered.pass? (kind : Registered) (input : List UInt8) : Option (List UInt8) :=
  match kind, skipSpace input with
  | date, 91 :: rest => passEmpty? 93 rest
  | date, 123 :: rest => passEmpty? 125 rest
  | subject, 91 :: _ => none
  | subject, 123 :: _ => none
  | _, input => some (pass (Json.stepsFor input) (Json.depthLimit - 1) input).rest

def isOver : Except Failure (List UInt8) → Bool
  | .ok rest => (skipSpace rest).isEmpty
  | .error _ => false

def readsMembers : (steps : Nat) → (first : Bool) → (seen : List String) → List UInt8 → Bool
  | 0, _, _, _ => false
  | steps + 1, first, seen, input =>
      match Json.nextKey first input with
      | .ok (none, rest) => isOver (Json.endObject rest)
      | .ok (some key, rest) =>
          match registered.lookup key, Json.readColon rest with
          | some kind, .ok rest =>
              if seen.contains key then false
              else match kind.pass? rest with
                | some rest => readsMembers steps false (key :: seen) rest
                | none => false
          | none, .ok rest => match Json.skipValue rest with
            | .ok rest => readsMembers steps false seen rest
            | .error _ => false
          | _, .error _ => false
      | .error _ => false

def readsItems : List Registered → (first : Bool) → List UInt8 → Bool
  | [], _, input => isOver (Json.endList input)
  | kind :: kinds, first, input =>
      match Json.nextElement first input with
      | .ok (true, rest) => match kind.pass? rest with
        | some rest => readsItems kinds false rest
        | none => false
      | _ => false

def readsRegistered (input : List UInt8) : Bool :=
  match skipSpace input with
  | 123 :: rest => readsMembers (rest.length + 1) true [] rest
  | 91 :: rest => readsItems (registered.map (·.2)) true rest
  | _ => false

end Teller.Signed
