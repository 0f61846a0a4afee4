import Teller.Token.Sealed

/-! Where everything random comes from: an endless supply that is drawn from one at a time. -/
namespace Teller

structure Supply where
  ids : Nat → Uuid
  nonces : Nat → Nonce
  numbers : Nat → Nat
  drawn : Nat := 0

namespace Supply

def counting : Supply := ⟨Uuid.versionFour, Nonce.ofNat, id, 0⟩

instance : Inhabited Supply := ⟨counting⟩

def next (s : Supply) : Supply := { s with drawn := s.drawn + 1 }

def id (s : Supply) : Uuid × Supply := (s.ids s.drawn, s.next)
def nonce (s : Supply) : Nonce × Supply := (s.nonces s.drawn, s.next)
def number (s : Supply) : Nat × Supply := (s.numbers s.drawn, s.next)

end Supply
end Teller
