/-! Why an operation ends without a result: it failed with an error of its own, or a number in it
left its range and the operation broke off. -/
namespace Teller

inductive Overflow where
  | txnId
  | date
  | retries
  | delay
  deriving DecidableEq, Repr

inductive Stop (ε : Type) where
  | failed (error : ε)
  | overflow (cause : Overflow)
  deriving DecidableEq, Repr

namespace Stop

def map {ε ε' : Type} (f : ε → ε') : Stop ε → Stop ε'
  | failed e => failed (f e)
  | overflow o => overflow o

end Stop
end Teller
