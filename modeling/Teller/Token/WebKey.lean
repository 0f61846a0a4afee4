import Teller.Json.Variant

/-! Keys as web tokens carry them in their headers. No token is checked with such a key; it only has
to be well formed. Some members are common to all keys, the others depend on the key's type. -/
namespace Teller.Signed

def isText : Json → Bool
  | .string _ => true
  | _ => false

def isNull : Json → Bool
  | .null => true
  | _ => false

inductive MemberKind where
  | text
  | texts
  | name
  deriving DecidableEq, Repr

def MemberKind.fits : MemberKind → Json → Bool
  | _, .null => true
  | text, item => isText item
  | texts, .list items => items.all isText
  | texts, _ => false
  | name, .object [(_, .null)] | name, .object [(_, .object [])] => true
  | name, item => isText item

namespace WebKey

def common : List (String × MemberKind) :=
  [("use", .text), ("key_ops", .texts), ("alg", .name), ("kid", .text), ("x5u", .text),
    ("x5c", .texts), ("x5t", .text), ("x5t#S256", .text)]

structure Family where
  type : String
  onCurve : Bool
  texts : List String
  deriving DecidableEq, Repr

def families : List Family :=
  [⟨"EC", true, ["x", "y"]⟩, ⟨"RSA", false, ["n", "e"]⟩, ⟨"oct", false, ["k"]⟩, ⟨"OKP", true, ["x"]⟩]

def curves : List String := ["P-256", "P-384", "P-521", "Ed25519"]

def values (members : List (String × Json)) (name : String) : List Json :=
  (members.filter (·.1 = name)).map (·.2)

def holds (members : List (String × Json)) (name : String) (test : Json → Bool) : Bool :=
  match values members name with
  | [item] => test item
  | _ => false

def Family.fits (family : Family) (members : List (String × Json)) : Bool :=
  holds members "kty" (·.name? = some family.type) &&
    (!family.onCurve || holds members "crv" (·.name?.any curves.contains)) &&
    family.texts.all (holds members · isText)

def commonFits (members : List (String × Json)) : Bool :=
  common.all fun (name, kind) => (values members name).isEmpty || holds members name kind.fits

def isKey : Json → Bool
  | .object members => commonFits members && families.any (·.fits members)
  | _ => false

end WebKey
end Teller.Signed
