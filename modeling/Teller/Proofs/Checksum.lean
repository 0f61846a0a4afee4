import Mathlib.Data.Nat.Bitwise
import Teller.Checksum

/-! Why the checksum sees every change to one byte. A byte is added to the low end of a register, which is then
shifted eight times. Shifting is linear, and as the generator has its highest bit nothing is lost by it: different
bytes make the registers differ, and they stay different whatever follows. -/
namespace Teller.Checksum
variable {c d : UInt32} {a b : UInt8}

theorem shiftBitOf (c : UInt32) : shiftBit c = if c.toNat % 2 = 1 then (c >>> 1) ^^^ generator else c >>> 1 := by
  have low : (c &&& 1).toNat = c.toNat % 2 := by
    rw [UInt32.toNat_and]
    exact Nat.and_one_is_mod c.toNat
  have same : c &&& 1 = 1 ↔ c.toNat % 2 = 1 := by rw [← low, ← UInt32.toNat_inj]; rfl
  unfold shiftBit
  simp only [same]

theorem shiftedNat (c : UInt32) {n : UInt32} (few : n.toNat < 32) : (c >>> n).toNat = c.toNat / 2 ^ n.toNat := by
  rw [UInt32.toNat_shiftRight, Nat.mod_eq_of_lt few, Nat.shiftRight_eq_div_pow]

theorem halved (c : UInt32) : (c >>> 1).toNat = c.toNat / 2 := shiftedNat c (by decide)

theorem withoutByte (c : UInt32) : (c >>> 8).toNat = c.toNat / 2 ^ 8 := shiftedNat c (by decide)

theorem shiftBitXor (c d : UInt32) : shiftBit (c ^^^ d) = shiftBit c ^^^ shiftBit d := by
  have parity : (c ^^^ d).toNat % 2 = (c.toNat + d.toNat) % 2 := by rw [UInt32.toNat_xor, Nat.xor_mod_two_eq]
  simp only [shiftBitOf, parity, UInt32.shiftRight_xor]
  rcases Nat.mod_two_eq_zero_or_one c.toNat with hc | hc <;> rcases Nat.mod_two_eq_zero_or_one d.toNat with hd | hd
  · rw [if_neg (by omega), if_neg (by omega), if_neg (by omega)]
  · rw [if_pos (by omega), if_neg (by omega), if_pos (by omega), UInt32.xor_assoc]
  · rw [if_pos (by omega), if_pos (by omega), if_neg (by omega), UInt32.xor_assoc, UInt32.xor_assoc,
      UInt32.xor_comm generator]
  · rw [if_neg (by omega), if_pos (by omega), if_pos (by omega), UInt32.xor_comm (d >>> 1), ← UInt32.xor_assoc,
      UInt32.xor_assoc (c >>> 1), UInt32.xor_self, UInt32.xor_zero]

theorem shiftBitZero (zero : shiftBit c = 0) : c = 0 := by
  have half := halved c
  have room := c.toNat_lt
  rw [shiftBitOf] at zero
  split at zero
  · have high : generator.toNat = 3988292384 := rfl
    rw [UInt32.xor_eq_zero_iff.mp zero] at half
    omega
  · have zeros : (0 : UInt32).toNat = 0 := rfl
    rw [zero] at half
    exact UInt32.toNat_inj.mp (by omega)

theorem shiftBitsXor (n : Nat) (c d : UInt32) : shiftBits n (c ^^^ d) = shiftBits n c ^^^ shiftBits n d := by
  induction n generalizing c d with
  | zero => rfl
  | succ n ih => rw [shiftBits, shiftBitXor, ih]; rfl

theorem shiftBitsZero {n : Nat} (zero : shiftBits n c = 0) : c = 0 := by
  induction n generalizing c with
  | zero => exact zero
  | succ n ih => exact shiftBitZero (ih zero)

theorem shiftBitsInj {n : Nat} (same : shiftBits n c = shiftBits n d) : c = d := by
  rw [← UInt32.xor_eq_zero_iff, ← shiftBitsXor] at same
  exact UInt32.xor_eq_zero_iff.mp (shiftBitsZero same)

theorem shiftBitsClear {n : Nat} (clear : c.toNat % 2 ^ n = 0) : (shiftBits n c).toNat = c.toNat / 2 ^ n := by
  induction n generalizing c with
  | zero => exact (Nat.div_one _).symm
  | succ n ih =>
    rw [Nat.pow_succ', Nat.mod_mul] at clear
    have pow := Nat.two_pow_pos n
    have half : (shiftBit c).toNat = c.toNat / 2 := by rw [shiftBitOf, if_neg (by omega), halved]
    have rest : c.toNat / 2 % 2 ^ n = 0 := by omega
    rw [shiftBits, ih (by rw [half, rest]), half, Nat.pow_succ', Nat.div_div_eq_div_mul]

theorem byteShifted (a : UInt8) : a.toUInt32 >>> 8 = 0 := by
  rw [← UInt32.toNat_inj, withoutByte, UInt8.toNat_toUInt32]
  exact Nat.div_eq_of_lt a.toNat_lt

theorem stepShifts (c : UInt32) (a : UInt8) : step c a = shiftBits 8 (c ^^^ a.toUInt32) := by
  have low : (c ^^^ a.toUInt32).toUInt8 = c.toUInt8 ^^^ a := by rw [UInt32.toUInt8_xor, UInt8.toUInt8_toUInt32]
  have high : (c ^^^ a.toUInt32) >>> 8 = c >>> 8 := by rw [UInt32.shiftRight_xor, byteShifted, UInt32.xor_zero]
  have entry : step c a = shiftBits 8 (c ^^^ a.toUInt32).toUInt8.toUInt32 ^^^ ((c ^^^ a.toUInt32) >>> 8) := by
    have named : (c.toUInt8 ^^^ a).toNat.toUInt32 = (c.toUInt8 ^^^ a).toUInt32 := UInt32.ofNat_uInt8ToNat _
    rw [low, high, ← named]
    simp only [step, byteTable, Array.getElem_map, Array.getElem_range]
  rw [entry]
  generalize c ^^^ a.toUInt32 = x
  -- The register is its lowest byte and the rest, of which no bit is shifted out.
  have parts : x = x.toUInt8.toUInt32 ^^^ (x ^^^ x.toUInt8.toUInt32) := by
    rw [UInt32.xor_comm x, ← UInt32.xor_assoc, UInt32.xor_self, UInt32.zero_xor]
  have clear : (x ^^^ x.toUInt8.toUInt32).toNat % 2 ^ 8 = 0 := by
    rw [← UInt32.toNat_toUInt8, UInt32.toUInt8_xor, UInt8.toUInt8_toUInt32, UInt8.xor_self]
    rfl
  have rest : shiftBits 8 (x ^^^ x.toUInt8.toUInt32) = x >>> 8 := by
    have shifted : x >>> 8 = (x ^^^ x.toUInt8.toUInt32) >>> 8 := by
      rw [UInt32.shiftRight_xor, byteShifted, UInt32.xor_zero]
    rw [← UInt32.toNat_inj, shiftBitsClear clear, shifted, withoutByte]
  rw [← rest, ← shiftBitsXor, ← parts]

theorem stepSame (same : step c a = step d b) : c ^^^ a.toUInt32 = d ^^^ b.toUInt32 := by
  rw [stepShifts, stepShifts] at same
  exact shiftBitsInj same

theorem foldSame {l : List UInt8} (same : l.foldl step c = l.foldl step d) : c = d := by
  induction l generalizing c d with
  | nil => exact same
  | cons a l ih =>
    have first := stepSame (ih same)
    rwa [UInt32.xor_left_inj] at first

theorem foldDiffers {front back : List UInt8}
    (same : (front ++ a :: back).foldl step c = (front ++ b :: back).foldl step c) : a = b := by
  simp only [List.foldl_append, List.foldl_cons] at same
  have here := stepSame (foldSame same)
  rw [UInt32.xor_right_inj] at here
  rw [← UInt8.toUInt8_toUInt32 a, here, UInt8.toUInt8_toUInt32]

theorem runFolds (b : Bytes) (i : Nat) (c : UInt32) : run b b.size i c = (b.data.toList.drop i).foldl step c := by
  fun_induction run b b.size i c with
  | case1 i c inside ih => rw [Bytes.drop_data b i inside.2, List.foldl_cons, ih]
  | case2 i c outside =>
    have past : b.data.toList.drop i = [] := List.drop_eq_nil_of_le (Nat.le_of_not_lt fun h => outside ⟨h, h⟩)
    rw [past]
    rfl

theorem ofBytesFolds (b : Bytes) : ofBytes b = b.data.toList.foldl step 0xFFFFFFFF ^^^ 0xFFFFFFFF := by
  rw [ofBytes, ofFirst, runFolds, List.drop_zero]

theorem ofBytesShifts (b : Bytes) :
    ofBytes b = b.data.toList.foldl (fun c a => shiftBits 8 (c ^^^ a.toUInt32)) 0xFFFFFFFF ^^^ 0xFFFFFFFF := by
  have steps : step = fun c a => shiftBits 8 (c ^^^ a.toUInt32) := funext fun c => funext fun a => stepShifts c a
  rw [ofBytesFolds, steps]

theorem changeSeen {b : Bytes} {i : Nat} (inside : i < b.size) {x : UInt8} :
    ofBytes (b.set i x inside) = ofBytes b ↔ x = b[i] := by
  have both : (b.set i x inside).data.toList = b.data.toList.take i ++ x :: b.data.toList.drop (i + 1) := by
    have length : i < b.data.toList.length := inside
    rw [ByteArray.data_set, Array.toList_set, List.set_eq_take_append_cons_drop, if_pos length]
  have before : b.data.toList = b.data.toList.take i ++ b[i] :: b.data.toList.drop (i + 1) := by
    rw [← Bytes.drop_data b i inside, List.take_append_drop]
  constructor
  · intro same
    rw [ofBytesFolds, ofBytesFolds, UInt32.xor_left_inj, both] at same
    conv at same => rhs; rw [before]
    exact foldDiffers same
  · intro same
    rw [ofBytesFolds, ofBytesFolds, both, same, ← before]

end Teller.Checksum
