import Teller.Moment
import Teller.Json.Variant

/-! Where a task stands: waiting, leased to one worker, or put away. As a row it is an object whose member
`state` says which; the other members may stand before or behind it. -/
namespace Teller

inductive TaskState where
  | pending
  | active (leaseId : Uuid) (expiresAt : Moment)
  | archived (archivedAt : Moment)
  deriving DecidableEq

namespace TaskState
open Json (Fields Codec Misfit Failure)

inductive Kind where
  | pending
  | active
  | archived
  deriving DecidableEq, Repr

def names : List (String × Kind) :=
  [("pending", .pending), ("active", .active), ("archived", .archived)]

def tag : String := "state"

def title : String := "internally tagged enum TaskState"

def activeFields : Fields [Uuid, Moment] :=
  .cons "lease_id" .uuid <| .cons "expires_at" Moment.codec .nil

def archivedFields : Fields [Moment] := .cons "archived_at" Moment.codec .nil

inductive Rest where
  | members (held : List (String × Json))
  | items (held : List Json)

def Rest.fit {ts : List Type} (title : String) (fields : Fields ts) :
    Rest → Except Misfit (Json.Values ts)
  | members held => fields.ofMembers held
  | items held => fields.ofItems (fields.described title) 0 held

def Rest.fitNone : Rest → Except Misfit Unit
  | members _ => .ok ()
  | items held => Fields.nil.ofItems "" 0 held

def ofRest : Kind → Rest → Except Misfit TaskState
  | .pending, rest => rest.fitNone.map fun () => .pending
  | .active, rest =>
      (rest.fit "struct variant TaskState::Active" activeFields).map fun (id, date, ()) => .active id date
  | .archived, rest =>
      (rest.fit "struct variant TaskState::Archived" archivedFields).map fun (date, ()) => .archived date

def readMembers (depth : Nat) : (steps : Nat) → (first : Bool) → (kind : Option Kind) →
    (held : List (String × Json)) → List UInt8 → Except Failure ((Kind × Rest) × List UInt8)
  | 0, _, _, _, input => Json.stopBehind .endInObject input
  | steps + 1, first, kind, held, input => do
      match ← Json.nextKey first input with
      | (none, rest) =>
          match kind with
          | some kind => return ((kind, .members held.reverse), rest)
          | none => .error (.loose (.missing tag) rest)
      | (some key, rest) =>
          if key = tag then
            if kind.isSome then .error (.loose (.duplicate tag) rest)
            else do
              let (found, rest) ← Codec.readName names (← Json.readColon rest)
              readMembers depth steps false (some found) held rest
          else do
            let rest ← Json.readColon rest
            let (item, rest) ← Json.readValue (Json.stepsFor rest) depth rest
            readMembers depth steps false kind ((key, item) :: held) rest

def readItems (depth : Nat) (input : List UInt8) :
    Except Failure ((Kind × Rest) × List UInt8) := do
  match ← Json.nextElement true input with
  | (false, rest) => .error (.loose (.missing tag) rest)
  | (true, rest) =>
      let (kind, rest) ← Codec.readName names rest
      let (items, rest) ← Json.readElements (Json.stepsFor rest) depth false rest
      return ((kind, .items items), rest)

def judge (r : Except Failure ((Kind × Rest) × List UInt8)) :
    Except Failure (TaskState × List UInt8) := do
  let ((kind, held), rest) ← r
  match ofRest kind held with
  | .ok state => return (state, rest)
  | .error cause => .error (.loose cause rest)

def read (depth : Nat) (input : List UInt8) : Except Failure (TaskState × List UInt8) :=
  match Json.skipSpace input with
  | [] => Json.stopBehind .endInValue []
  | 91 :: rest =>
      if depth ≤ 1 then Json.stopBehind .depth (91 :: rest)
      else judge (Codec.closeWith Json.endList Json.behindList (readItems (depth - 1) rest))
  | 123 :: rest =>
      if depth ≤ 1 then Json.stopBehind .depth (123 :: rest)
      else judge (Codec.closeWith Json.endObject Json.behindObject
        (readMembers (depth - 1) (rest.length + 1) true none [] rest))
  | input => Json.wrongKind title input

def splitTag : List (String × Json) → Except Misfit (Option Kind × List (String × Json))
  | [] => .ok (none, [])
  | (key, item) :: rest => do
      let (kind, held) ← splitTag rest
      if key ≠ tag then return (kind, (key, item) :: held)
      else if kind.isSome then .error (.duplicate tag)
      else return (some (← Codec.variantOf names item), held)

def ofValue : Json → Except Misfit TaskState
  | .object members => do
      match ← splitTag members with
      | (some kind, held) => ofRest kind (.members held)
      | (none, _) => .error (.missing tag)
  | .list (first :: items) => do ofRest (← Codec.variantOf names first) (.items items)
  | .list [] => .error (.missing tag)
  | other => .error (.kind other.seen title)

def written (name : String) (members : List (List UInt8)) : List UInt8 :=
  123 :: (Json.separate ((Json.writeString tag ++ 58 :: Json.writeString name) :: members) ++ [125])

def write : TaskState → List UInt8
  | pending => written "pending" []
  | active leaseId expiresAt => written "active" (activeFields.write (leaseId, expiresAt, ()))
  | archived archivedAt => written "archived" (archivedFields.write (archivedAt, ()))

def codec : Codec TaskState where
  write := write
  read := read
  ofValue := ofValue

end TaskState
end Teller
