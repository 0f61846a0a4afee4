import Teller.Json.Variant
import Teller.Proofs.Json.Lossless

/-! What a codec writes for a text or a number is passed over as a whole by a reader that has no use for it. -/
namespace Teller.Json
open Decimal (isDigit)
variable {τ : Type}

theorem skipWrittenByte (b step : UInt8) (steps rest : List UInt8) :
    skipQuoted (step :: steps) (writeByte b ++ rest) = skipQuoted steps rest := by
  have short (e : UInt8) (known : [34, 92, 47, 98, 102, 110, 114, 116].contains e = true) (other : e ≠ 117) :
      skipQuoted (step :: steps) ([92, e] ++ rest) = skipQuoted steps rest := by
    have passed : skipEscape (e :: rest) = .ok rest := by
      unfold skipEscape
      split
      · contradiction
      · rename_i same
        exact absurd (List.cons.inj same).1 other
      · rename_i same
        cases same
        rw [if_pos known]
    simp only [List.cons_append, List.nil_append, skipQuoted, show ¬ ((92 : UInt8) = 34) by decide, if_false, if_true,
      passed]
    rfl
  unfold writeByte
  split
  · exact short 34 (by decide) (by decide)
  split
  · exact short 92 (by decide) (by decide)
  split
  · exact short 98 (by decide) (by decide)
  split
  · exact short 116 (by decide) (by decide)
  split
  · exact short 110 (by decide) (by decide)
  split
  · exact short 102 (by decide) (by decide)
  split
  · exact short 114 (by decide) (by decide)
  split
  · rename_i low
    have small : b.toNat < 32 := UInt8.lt_iff_toNat_lt.mp low
    have unit := hexUnitControl ⟨b.toNat, small⟩
    simp only [Nat.toUInt8_eq, UInt8.ofNat_toNat] at unit
    simp only [List.cons_append, List.nil_append, skipQuoted, show ¬ ((92 : UInt8) = 34) by decide, if_false, if_true,
      skipEscape, readHex, unit]
    rfl
  · rename_i quote backslash _ _ _ _ _ high
    simp only [List.cons_append, List.nil_append, skipQuoted, quote, backslash, high, if_false]

theorem skipQuotedWritten (bytes rest steps : List UInt8) (enough : bytes.length < steps.length) :
    skipQuoted steps (bytes.flatMap writeByte ++ 34 :: rest) = .ok rest := by
  induction bytes generalizing steps with
  | nil =>
    cases steps with
    | nil => cases enough
    | cons step steps => rfl
  | cons b bytes ih =>
    cases steps with
    | nil => cases enough
    | cons step steps =>
      rw [List.flatMap_cons, List.append_assoc, skipWrittenByte, ih steps (Nat.lt_of_succ_lt_succ enough)]

theorem dropDigits {ds rest : List UInt8} (digits : ∀ b ∈ ds, isDigit b = true) (closed : Closed rest) :
    (ds ++ rest).dropWhile isDigit = rest := by
  induction ds with
  | nil =>
    cases rest with
    | nil => rfl
    | cons b rest => exact List.dropWhile_cons_of_neg (by rw [show isDigit b = false from closedDigit closed]; decide)
  | cons b ds ih =>
    rw [List.cons_append, List.dropWhile_cons_of_pos (digits b List.mem_cons_self)]
    exact ih fun x mem => digits x (List.mem_cons_of_mem b mem)

theorem skipNumberWritten (n : Nat) {rest : List UInt8} (closed : Closed rest) :
    skipNumber (Decimal.ofNat n ++ rest) = .ok rest := by
  obtain ⟨b, ds, same, digit, high⟩ := Decimal.headOfNat n
  have digits := Decimal.digitsOfNat n
  rw [same] at digits
  have point : ∀ tail, rest ≠ 46 :: tail := by
    rintro tail rfl
    rcases closed with h | h | h <;> cases h
  rcases Nat.eq_zero_or_pos n with rfl | pos
  · have zero : Decimal.ofNat 0 = [48] := by rw [Decimal.ofNat]; rfl
    cases same.symm.trans zero
    rw [zero]
    simp only [List.cons_append, List.nil_append, skipNumber, closedDigit closed, closedE closed, Bool.false_eq_true,
      and_false, if_false, digit, if_true]
  · have dropped : (ds ++ rest).dropWhile isDigit = rest :=
      dropDigits (fun x mem => digits x (List.mem_cons_of_mem b mem)) closed
    simp only [same, List.cons_append, skipNumber, high pos, false_and, if_false, digit, if_true, dropped,
      closedE closed, Bool.false_eq_true]

def Skipped (c : Codec τ) : Prop := ∀ v {rest}, Closed rest → skipValue (c.write v ++ rest) = .ok rest

theorem skipStringWritten (s : String) (rest : List UInt8) : skipValue (writeString s ++ rest) = .ok rest := by
  have text : writeString s ++ rest = 34 :: ((utf8 s).flatMap writeByte ++ 34 :: rest) := by simp [writeString]
  have enough : (utf8 s).length < ((utf8 s).flatMap writeByte ++ 34 :: rest).length := by
    have := writtenLength (utf8 s)
    rw [List.length_append, List.length_cons]
    omega
  have passed := skipQuotedWritten (utf8 s) rest _ enough
  rw [text, skipValue, skipFrom]
  simp only [skipNone (show isSpace 34 = false by decide), passed]
  rfl

theorem skippedText {expected : String} {write : τ → String} {check : String → Except Misfit τ} :
    Skipped (Codec.ofText expected write check) := fun v rest _ => skipStringWritten (write v) rest

theorem skippedVariant {names : List (String × τ)} {write : τ → String} : Skipped (Codec.variant names write) :=
  fun v rest _ => skipStringWritten (write v) rest

theorem skippedInteger {expected : String} {write : τ → Int} {check : Number → Except Misfit τ} :
    Skipped (Codec.ofInteger expected write check) := by
  intro v rest closed
  show skipValue (Decimal.ofInt (write v) ++ rest) = _
  cases write v with
  | ofNat n =>
    obtain ⟨b, ds, same, digit, _⟩ := Decimal.headOfNat n
    obtain ⟨space, _, minus, null⟩ := digitPlain digit
    have notTrue : b ≠ 116 := by rintro rfl; cases digit
    have notFalse : b ≠ 102 := by rintro rfl; cases digit
    have passed := skipNumberWritten n closed
    rw [same] at passed
    rw [Decimal.ofInt, same, skipValue, List.cons_append, skipFrom]
    rw [List.cons_append] at passed
    simp only [skipNone space, null, notTrue, notFalse, minus, if_false, digit, if_true, passed]
    rfl
  | negSucc n =>
    have passed := skipNumberWritten (n + 1) closed
    rw [Decimal.ofInt, skipValue, List.cons_append, skipFrom]
    simp only [skipNone (show isSpace 45 = false by decide), passed]
    rfl

end Teller.Json
