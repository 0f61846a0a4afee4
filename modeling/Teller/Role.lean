import Teller.Json.Variant

/-! Whom a token or a user account stands for. -/
namespace Teller

inductive Role where
  | depositor
  | banker
  deriving DecidableEq, Repr

namespace Role

def name : Role → String
  | depositor => "depositor"
  | banker => "banker"

def all : List Role := [depositor, banker]

def ofName? (s : String) : Option Role := all.find? (·.name = s)

def unknownMessage (s : String) : String := "unknown role '" ++ s ++ "'"

def codec : Json.Codec Role := .variant (all.map fun r => (r.name, r)) name

end Role
end Teller
