import Teller.Proofs.Commit
import Teller.Proofs.Token.Base64
import Teller.Token.Sealed

/-! What was sealed is opened again, and nothing else is. The cipher adds a keystream that depends on the key, the
nonce and the number of the block, but not on the text, so that applying it twice undoes it. -/
namespace Teller

namespace ChaCha

theorem bytesLength (w : UInt32) : (bytes w).length = 4 := rfl

theorem blockLength (key nonce : List UInt8) (counter : UInt32) : (block key nonce counter).length = 64 := by
  unfold block
  rw [List.length_flatMap]
  simp only [bytesLength, List.map_const', Vector.length_toList]
  rfl

theorem xorTwice {text stream : List UInt8} (enough : text.length ≤ stream.length) :
    List.zipWith (· ^^^ ·) (List.zipWith (· ^^^ ·) text stream) stream = text := by
  induction text generalizing stream with
  | nil => rfl
  | cons b text ih =>
    cases stream with
    | nil => cases enough
    | cons s stream =>
      rw [List.zipWith_cons_cons, List.zipWith_cons_cons, ih (Nat.le_of_succ_le_succ enough), UInt8.xor_assoc,
        UInt8.xor_self, UInt8.xor_zero]

theorem applyNil (key nonce : List UInt8) (blocks : Nat) (counter : UInt32) :
    apply key nonce blocks counter [] = [] := by
  induction blocks generalizing counter with
  | zero => rfl
  | succ blocks ih => rw [apply, List.drop_nil, ih]; rfl

theorem firstLength (key nonce : List UInt8) (counter : UInt32) (text : List UInt8) :
    (List.zipWith (· ^^^ ·) (text.take 64) (block key nonce counter)).length = min 64 text.length := by
  rw [List.length_zipWith, blockLength, List.length_take]
  omega

theorem applyLength (key nonce : List UInt8) {blocks : Nat} (counter : UInt32) {text : List UInt8}
    (enough : text.length ≤ 64 * blocks) : (apply key nonce blocks counter text).length = text.length := by
  induction blocks generalizing counter text with
  | zero => rw [List.length_eq_zero_iff.mp (Nat.le_zero.mp enough)]; rfl
  | succ blocks ih =>
    rw [apply, List.length_append, firstLength, ih _ (by rw [List.length_drop]; omega), List.length_drop]
    omega

theorem applyTwice (key nonce : List UInt8) {blocks : Nat} (counter : UInt32) {text : List UInt8}
    (enough : text.length ≤ 64 * blocks) :
    apply key nonce blocks counter (apply key nonce blocks counter text) = text := by
  induction blocks generalizing counter text with
  | zero => rw [List.length_eq_zero_iff.mp (Nat.le_zero.mp enough)]; rfl
  | succ blocks ih =>
    have later := @ih (counter + 1) (text.drop 64) (by rw [List.length_drop]; omega)
    have first : List.zipWith (· ^^^ ·) (List.zipWith (· ^^^ ·) (text.take 64) (block key nonce counter))
        (block key nonce counter) = text.take 64 :=
      xorTwice (by rw [blockLength, List.length_take]; omega)
    have length := firstLength key nonce counter text
    rw [apply, apply]
    by_cases long : 64 ≤ text.length
    · -- The first block is full, so that the second application cuts at the same place.
      rw [Nat.min_eq_left long] at length
      rw [List.take_left' length, List.drop_left' length, first, later, List.take_append_drop]
    · have rest : text.drop 64 = [] := List.drop_eq_nil_of_le (by omega)
      rw [Nat.min_eq_right (by omega)] at length
      rw [rest, applyNil, List.append_nil, List.take_of_length_le (by omega), first,
        List.drop_eq_nil_of_le (by omega), applyNil, List.append_nil, List.take_of_length_le (by omega)]

theorem streamLength (key nonce : List UInt8) (counter : UInt32) (text : List UInt8) :
    (stream key nonce counter text).length = text.length := applyLength key nonce counter (by omega)

theorem streamTwice (key nonce : List UInt8) (counter : UInt32) (text : List UInt8) :
    stream key nonce counter (stream key nonce counter text) = text := by
  rw [stream, streamLength]
  exact applyTwice key nonce counter (by omega)

end ChaCha

namespace Sealing

theorem cryptTwice (key nonce text : List UInt8) : crypt key nonce (crypt key nonce text) = text :=
  ChaCha.streamTwice _ _ 1 text

theorem tagLength (key nonce header ciphertext : List UInt8) : (tag key nonce header ciphertext).length = tagSize := by
  unfold tag Poly1305.tag
  rw [Array.length_toList]
  exact Bytes.littleEndianSize 16 _

theorem openIff {key nonce header sealed plaintext : List UInt8} :
    open? key nonce header sealed = some plaintext ↔
      ∃ ciphertext, sealed = ciphertext ++ tag key nonce header ciphertext ∧
        plaintext = crypt key nonce ciphertext := by
  constructor
  · intro opened
    unfold open? at opened
    split at opened
    · cases opened
    · simp only at opened
      split at opened
      · rename_i tagged
        refine ⟨sealed.take (sealed.length - tagSize), ?_, (Option.some.inj opened).symm⟩
        rw [← tagged, List.take_append_drop]
      · cases opened
  · rintro ⟨ciphertext, rfl, rfl⟩
    have length := tagLength key nonce header ciphertext
    have text : (ciphertext ++ tag key nonce header ciphertext).length - tagSize = ciphertext.length := by
      rw [List.length_append, length, Nat.add_sub_cancel]
    have long : ¬ (ciphertext ++ tag key nonce header ciphertext).length < tagSize := by
      rw [List.length_append, length]
      omega
    rw [open?, if_neg long, text]
    simp only [List.take_left, List.drop_left, if_true]

end Sealing

namespace Sealed

def Authentic (key : List UInt8) (token : String) (plaintext : List UInt8) : Prop :=
  ∃ (nonce : Nonce) (ciphertext : List UInt8),
    token = header ++ Base64Url.encode
      (nonce.bytes ++ (ciphertext ++ Sealing.tag key nonce.bytes headerBytes ciphertext)) ∧
    plaintext = Sealing.crypt key nonce.bytes ciphertext

variable {key body plaintext : List UInt8} {token other : String}

theorem bodyIff : body? token = some body ↔ token = header ++ Base64Url.encode body := by
  have text : (header ++ Base64Url.encode body).toList = header.toList ++ Base64Url.encodeList body := by
    rw [String.toList_append, Base64Url.encode, String.toList_ofList]
  constructor
  · intro read
    simp only [body?] at read
    split at read
    · rename_i starts
      obtain ⟨rest, split⟩ := List.isPrefixOf_iff_prefix.mp starts
      rw [← split, List.drop_left' String.length_toList] at read
      apply String.toList_inj.mp
      rw [text, Base64Url.encodeDecoded read, split]
    · cases read
  · rintro rfl
    have starts : header.toList.isPrefixOf (header ++ Base64Url.encode body).toList = true := by
      rw [text]
      exact List.isPrefixOf_iff_prefix.mpr (List.prefix_append _ _)
    rw [body?, if_pos starts, text, List.drop_left' String.length_toList, Base64Url.decodeEncode]

theorem bodyInjective (read : body? token = some body) (again : body? other = some body) : token = other :=
  (bodyIff.mp read).trans (bodyIff.mp again).symm

theorem openIff : open? key token = some plaintext ↔ Authentic key token plaintext := by
  unfold open? Authentic
  simp only [bind, Option.bind_eq_some_iff]
  constructor
  · rintro ⟨body, read, opened⟩
    split at opened
    · cases opened
    · rename_i long
      obtain ⟨ciphertext, sealed, rfl⟩ := Sealing.openIff.mp opened
      refine ⟨⟨body.take Sealing.nonceSize, ?_⟩, ciphertext, ?_, rfl⟩
      · rw [List.length_take]
        omega
      · rw [← sealed, List.take_append_drop]
        exact bodyIff.mp read
  · rintro ⟨nonce, ciphertext, made, rfl⟩
    refine ⟨_, bodyIff.mpr made, ?_⟩
    have length := Sealing.tagLength key nonce.bytes headerBytes ciphertext
    have long : ¬ (nonce.bytes ++ (ciphertext ++ Sealing.tag key nonce.bytes headerBytes ciphertext)).length ≤
        Sealing.nonceSize := by
      rw [List.length_append, nonce.length_eq, List.length_append, length]
      unfold Sealing.tagSize
      omega
    rw [if_neg long, List.take_left' nonce.length_eq, List.drop_left' nonce.length_eq]
    exact Sealing.openIff.mpr ⟨ciphertext, rfl, rfl⟩

theorem openMake (key : List UInt8) (nonce : Nonce) (plaintext : List UInt8) :
    open? key (make key nonce plaintext) = some plaintext :=
  openIff.mpr ⟨nonce, Sealing.crypt key nonce.bytes plaintext, rfl, (Sealing.cryptTwice ..).symm⟩

end Sealed
end Teller
