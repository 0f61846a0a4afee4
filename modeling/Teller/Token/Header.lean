import Teller.Token.WebKey

/-! The header of a signed token: an object that names the algorithm. Its other standard members have
fixed types; members that no standard names are strings. -/
namespace Teller.Signed

inductive HeaderKind where
  | algorithm
  | key
  | plain (kind : MemberKind)
  deriving DecidableEq, Repr

def headerKinds : List (String × HeaderKind) :=
  [("alg", .algorithm), ("typ", .plain .text), ("cty", .plain .text), ("jku", .plain .text),
    ("jwk", .key), ("kid", .plain .text), ("x5u", .plain .text), ("x5c", .plain .texts),
    ("x5t", .plain .text), ("x5t#S256", .plain .text), ("crit", .plain .texts),
    ("enc", .plain .text), ("zip", .plain .text), ("url", .plain .text), ("nonce", .plain .text)]

def algorithm : String := "HS256"

def HeaderKind.fits : HeaderKind → Json → Bool
  | algorithm, item => item.name? = some Signed.algorithm
  | key, item => isNull item || WebKey.isKey item
  | plain kind, item => kind.fits item

def memberFits (member : String × Json) : Bool :=
  match headerKinds.lookup member.1 with
  | some kind => kind.fits member.2
  | none => isText member.2

def headerAccepts (members : List (String × Json)) : Bool :=
  headerKinds.all (fun (name, _) => (members.filter (·.1 = name)).length ≤ 1) &&
    members.all memberFits && members.any (·.1 = "alg")

def readWhole (input : List UInt8) : Except Json.Failure Json := do
  let (value, rest) ← Json.readValue (Json.stepsFor input) Json.depthLimit input
  if (Json.skipSpace rest).isEmpty then return value else Json.stop .trailing rest

def isHeader (input : List UInt8) : Bool :=
  match readWhole input with
  | .ok (.object members) => headerAccepts members
  | _ => false

end Teller.Signed
