import Teller.Json.Text

/-! Strings are read back as they were written. Escapes are undone byte by byte, so that nothing has to be
known of the text itself but that its bytes are the coding of a text. -/
namespace Teller.Json

theorem hexUnitControl : ∀ n : Fin 32, hexUnit? 48 48 (hexDigit (n.val.toUInt8 >>> 4))
    (hexDigit (n.val.toUInt8 &&& 15)) = some n.val := by
  decide +kernel

theorem controlEncoding : ∀ n : Fin 32, String.utf8EncodeChar (Char.ofNat n.val) = [n.val.toUInt8] := by
  decide +kernel

theorem readControl {b : UInt8} (low : b < 32) (rest : List UInt8) :
    readEscape (117 :: 48 :: 48 :: hexDigit (b >>> 4) :: hexDigit (b &&& 15) :: rest) =
      .ok (Char.ofNat b.toNat, rest) := by
  have small : b.toNat < 32 := UInt8.lt_iff_toNat_lt.mp low
  have unit := hexUnitControl ⟨b.toNat, small⟩
  simp only [Nat.toUInt8_eq, UInt8.ofNat_toNat] at unit
  have trailing : isTrailing b.toNat = false := by simp [isTrailing]; omega
  have leading : isLeading b.toNat = false := by simp [isLeading]; omega
  simp only [readEscape, readUnicode, readHex, unit]
  simp [bind, Except.bind, pure, Except.pure, trailing, leading]

theorem readEscaped {b step : UInt8} {c : Char} {steps tail rest : List UInt8}
    (escape : readEscape tail = .ok (c, rest)) (coded : String.utf8EncodeChar c = [b]) :
    readQuoted (step :: steps) (92 :: tail) = (readQuoted steps rest).map fun r => (b :: r.1, r.2) := by
  rw [readQuoted]
  simp only [show ¬ ((92 : UInt8) = 34) by decide, if_true, if_false, escape, bind, Except.bind, coded]
  cases readQuoted steps rest <;> rfl

theorem readPlain {b step : UInt8} {steps rest : List UInt8} (quote : b ≠ 34) (backslash : b ≠ 92)
    (high : ¬ b < 32) :
    readQuoted (step :: steps) (b :: rest) = (readQuoted steps rest).map fun r => (b :: r.1, r.2) := by
  rw [readQuoted]
  simp only [quote, backslash, high, if_false]
  cases readQuoted steps rest <;> rfl

theorem readWrittenByte (b step : UInt8) (steps rest : List UInt8) :
    readQuoted (step :: steps) (writeByte b ++ rest) =
      (readQuoted steps rest).map fun r => (b :: r.1, r.2) := by
  unfold writeByte
  split
  · subst b; exact readEscaped rfl (by decide)
  split
  · subst b; exact readEscaped rfl (by decide)
  split
  · subst b; exact readEscaped rfl (by decide)
  split
  · subst b; exact readEscaped rfl (by decide)
  split
  · subst b; exact readEscaped rfl (by decide)
  split
  · subst b; exact readEscaped rfl (by decide)
  split
  · subst b; exact readEscaped rfl (by decide)
  split
  · rename_i low
    have small : b.toNat < 32 := UInt8.lt_iff_toNat_lt.mp low
    have coded := controlEncoding ⟨b.toNat, small⟩
    simp only [Nat.toUInt8_eq, UInt8.ofNat_toNat] at coded
    exact readEscaped (readControl low rest) coded
  · rename_i quote backslash _ _ _ _ _ high
    exact readPlain quote backslash high

theorem writeByteLength (b : UInt8) : 0 < (writeByte b).length := by
  unfold writeByte
  repeat' split
  all_goals simp

theorem readQuotedWritten (bytes rest steps : List UInt8) (enough : bytes.length < steps.length) :
    readQuoted steps (bytes.flatMap writeByte ++ 34 :: rest) = .ok (bytes, rest) := by
  induction bytes generalizing steps with
  | nil =>
    cases steps with
    | nil => cases enough
    | cons step steps => rfl
  | cons b bytes ih =>
    cases steps with
    | nil => cases enough
    | cons step steps =>
      rw [List.flatMap_cons, List.append_assoc, readWrittenByte, ih steps (Nat.lt_of_succ_lt_succ enough)]
      rfl

theorem writtenLength (bytes : List UInt8) : bytes.length ≤ (bytes.flatMap writeByte).length := by
  induction bytes with
  | nil => exact Nat.le_refl 0
  | cons b bytes ih =>
    have pos := writeByteLength b
    rw [List.flatMap_cons, List.length_append, List.length_cons]
    omega

theorem toTextUtf8 (s : String) : Bytes.toText? (utf8 s).toByteArray = some s := by
  have same : (utf8 s).toByteArray = s.toUTF8 := ByteArray.ext (by rw [List.data_toByteArray]; rfl)
  rw [same]
  exact dif_pos s.isValidUTF8

theorem readStringWritten (s : String) (rest : List UInt8) :
    readString ((utf8 s).flatMap writeByte ++ 34 :: rest) = .ok (s, rest) := by
  have enough : (utf8 s).length < ((utf8 s).flatMap writeByte ++ 34 :: rest).length := by
    have := writtenLength (utf8 s)
    rw [List.length_append, List.length_cons]
    omega
  unfold readString
  rw [readQuotedWritten _ _ _ enough]
  simp only [bind, Except.bind, toTextUtf8]
  rfl

end Teller.Json
