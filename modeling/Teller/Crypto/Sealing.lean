import Teller.Crypto.ChaCha
import Teller.Crypto.Poly1305

/-! Authenticated encryption with XChaCha20 and Poly1305. What is opened was sealed with the same key,
nonce and header: any other text carries a wrong tag. -/
namespace Teller.Sealing

def nonceSize : Nat := 24
def tagSize : Nat := 16

def inner (key nonce : List UInt8) : List UInt8 × List UInt8 :=
  (ChaCha.derive key (nonce.take 16), List.replicate 4 0 ++ nonce.drop 16)

def padding (n : Nat) : List UInt8 := List.replicate ((16 - n % 16) % 16) 0

def covered (header ciphertext : List UInt8) : List UInt8 :=
  header ++ padding header.length ++ ciphertext ++ padding ciphertext.length ++
    (Bytes.littleEndian 8 header.length).data.toList ++
    (Bytes.littleEndian 8 ciphertext.length).data.toList

def tag (key nonce header ciphertext : List UInt8) : List UInt8 :=
  let (k, n) := inner key nonce
  Poly1305.tag ((ChaCha.block k n 0).take 32) (covered header ciphertext)

def crypt (key nonce text : List UInt8) : List UInt8 :=
  let (k, n) := inner key nonce
  ChaCha.stream k n 1 text

def close (key nonce header plaintext : List UInt8) : List UInt8 :=
  let ciphertext := crypt key nonce plaintext
  ciphertext ++ tag key nonce header ciphertext

def open? (key nonce header sealed : List UInt8) : Option (List UInt8) :=
  if sealed.length < tagSize then none
  else
    let ciphertext := sealed.take (sealed.length - tagSize)
    if sealed.drop (sealed.length - tagSize) = tag key nonce header ciphertext then
      some (crypt key nonce ciphertext)
    else none

end Teller.Sealing
