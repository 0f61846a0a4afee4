/-! The stream cipher ChaCha20 and the derivation of a key from a long nonce. -/
namespace Teller.ChaCha

abbrev Block := Vector UInt32 16

def rotl (x : UInt32) (n : UInt32) : UInt32 := (x <<< n) ||| (x >>> (32 - n))

def quarter (s : Block) (a b c d : Fin 16) : Block :=
  let s := s.set a (s[a] + s[b])
  let s := s.set d (rotl (s[d] ^^^ s[a]) 16)
  let s := s.set c (s[c] + s[d])
  let s := s.set b (rotl (s[b] ^^^ s[c]) 12)
  let s := s.set a (s[a] + s[b])
  let s := s.set d (rotl (s[d] ^^^ s[a]) 8)
  let s := s.set c (s[c] + s[d])
  s.set b (rotl (s[b] ^^^ s[c]) 7)

def doubleRound (s : Block) : Block :=
  let s := quarter (quarter (quarter (quarter s 0 4 8 12) 1 5 9 13) 2 6 10 14) 3 7 11 15
  quarter (quarter (quarter (quarter s 0 5 10 15) 1 6 11 12) 2 7 8 13) 3 4 9 14

def rounds : Nat → Block → Block
  | 0, s => s
  | n + 1, s => rounds n (doubleRound s)

def words : List UInt8 → List UInt32
  | p :: q :: r :: s :: rest =>
      (p.toUInt32 ||| (q.toUInt32 <<< 8) ||| (r.toUInt32 <<< 16) ||| (s.toUInt32 <<< 24)) :: words rest
  | _ => []

def bytes (w : UInt32) : List UInt8 :=
  [w.toUInt8, (w >>> 8).toUInt8, (w >>> 16).toUInt8, (w >>> 24).toUInt8]

def constants : List UInt32 := [0x61707865, 0x3320646e, 0x79622d32, 0x6b206574]

def start (key input : List UInt8) : Block :=
  let ws := constants ++ words key ++ words input
  .ofFn fun i => ws.getD i 0

def block (key nonce : List UInt8) (counter : UInt32) : List UInt8 :=
  let s := start key (bytes counter ++ nonce)
  ((rounds 10 s).zipWith (· + ·) s).toList.flatMap bytes

def apply (key nonce : List UInt8) : (blocks : Nat) → (counter : UInt32) → List UInt8 → List UInt8
  | 0, _, _ => []
  | blocks + 1, counter, text =>
      List.zipWith (· ^^^ ·) (text.take 64) (block key nonce counter) ++
        apply key nonce blocks (counter + 1) (text.drop 64)

def stream (key nonce : List UInt8) (counter : UInt32) (text : List UInt8) : List UInt8 :=
  apply key nonce ((text.length + 63) / 64) counter text

def derive (key nonce : List UInt8) : List UInt8 :=
  let s := (rounds 10 (start key nonce)).toList
  (s.take 4 ++ s.drop 12).flatMap bytes

end Teller.ChaCha
