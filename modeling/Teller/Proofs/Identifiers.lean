import Teller.Uuid

/-! Identifiers are known by their texts and by their keys. -/
namespace Teller

namespace Bytes

theorem hexDigitValue : ∀ n : Fin 256, hexValue? (hexDigit (n.val.toUInt8 >>> 4)) = some (n.val.toUInt8 >>> 4) ∧
    hexValue? (hexDigit (n.val.toUInt8 &&& 15)) = some (n.val.toUInt8 &&& 15) ∧
    ((n.val.toUInt8 >>> 4) <<< 4) ||| (n.val.toUInt8 &&& 15) = n.val.toUInt8 := by
  decide +kernel

theorem hexPairsWritten (bytes : List UInt8) : hexPairs? (bytes.flatMap hexByte) = some bytes := by
  induction bytes with
  | nil => rfl
  | cons b bytes ih =>
    have digits := hexDigitValue ⟨b.toNat, b.toNat_lt⟩
    simp only [Nat.toUInt8_eq, UInt8.ofNat_toNat] at digits
    obtain ⟨high, low, both⟩ := digits
    simp [List.flatMap_cons, hexByte, hexPairs?, high, low, ih, both]

end Bytes

namespace Uuid

theorem keyInjective {a b : Uuid} (h : a.key = b.key) : a = b := by
  cases a; cases b
  simpa [key] using h

theorem digitsOfBytes (u : Uuid) : ofDigits? u.digits = some u := by
  rw [ofDigits?, digits, Bytes.hexPairsWritten]
  exact dif_pos u.length_eq

theorem dehyphenateText (u : Uuid) :
    (hyphenate u.digits).length = hyphenatedSize ∧ dehyphenate? (hyphenate u.digits) = some u.digits := by
  obtain ⟨bytes, length⟩ := u
  match bytes, length with
  | [_, _, _, _, _, _, _, _, _, _, _, _, _, _, _, _], _ => exact ⟨rfl, rfl⟩

theorem parseText (u : Uuid) : parse u.toText = .ok u := by
  obtain ⟨length, plain⟩ := dehyphenateText u
  have read : ofText? u.toText = some u := by
    simp only [ofText?, toText, String.toList_ofList, length, ofHyphenated?, plain, Option.bind_some]
    rw [if_neg (by decide), if_pos trivial, digitsOfBytes]
  rw [parse, read]

end Uuid
end Teller
