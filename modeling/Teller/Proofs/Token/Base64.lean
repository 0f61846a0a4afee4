import Teller.Text.Base64Url

/-! Base64 gives back the bytes it was made of, whatever their number leaves over at the end of the text, and
no other text gives them. None of its digits is a dot. -/
namespace Teller.Base64Url

theorem valueDigit : ∀ n : Fin 64, value? (digit n.val) = some n.val := by decide

theorem digitNoDot : ∀ n : Fin 64, digit n.val ≠ '.' := by decide

theorem valueOf {n : Nat} (small : n < 64) : value? (digit n) = some n := valueDigit ⟨n, small⟩

theorem noDotOf {n : Nat} (small : n < 64) : digit n ≠ '.' := digitNoDot ⟨n, small⟩

theorem sextets (a : UInt8) : a.toNat / 4 < 64 ∧ a.toNat / 16 < 16 ∧ a.toNat / 64 < 4 ∧ a.toNat % 64 < 64 := by
  have := a.toNat_lt
  omega

theorem byteOf {a : UInt8} {n : Nat} (same : n = a.toNat) : n.toUInt8 = a := by
  rw [same, Nat.toUInt8_eq, UInt8.ofNat_toNat]

theorem decodeEncode (bytes : List UInt8) : decodeList? (encodeList bytes) = some bytes := by
  fun_induction encodeList bytes with
  | case1 => rfl
  | case2 a =>
    have := sextets a
    have first : a.toNat / 4 * 4 + a.toNat % 4 * 16 / 16 = a.toNat := by omega
    simp only [decodeList?, valueOf (show a.toNat / 4 < 64 by omega), valueOf (show a.toNat % 4 * 16 < 64 by omega),
      bind, Option.bind, if_pos (show a.toNat % 4 * 16 % 16 = 0 by omega), byteOf first]
  | case3 a b =>
    have := sextets a
    have := sextets b
    have first : a.toNat / 4 * 4 + (a.toNat % 4 * 16 + b.toNat / 16) / 16 = a.toNat := by omega
    have second : (a.toNat % 4 * 16 + b.toNat / 16) % 16 * 16 + b.toNat % 16 * 4 / 4 = b.toNat := by omega
    simp only [decodeList?, valueOf (show a.toNat / 4 < 64 by omega),
      valueOf (show a.toNat % 4 * 16 + b.toNat / 16 < 64 by omega), valueOf (show b.toNat % 16 * 4 < 64 by omega),
      bind, Option.bind, if_pos (show b.toNat % 16 * 4 % 4 = 0 by omega), byteOf first, byteOf second]
  | case4 a b c rest ih =>
    have := sextets a
    have := sextets b
    have := sextets c
    have first : a.toNat / 4 * 4 + (a.toNat % 4 * 16 + b.toNat / 16) / 16 = a.toNat := by omega
    have second : (a.toNat % 4 * 16 + b.toNat / 16) % 16 * 16 + (b.toNat % 16 * 4 + c.toNat / 64) / 4 = b.toNat := by
      omega
    have third : (b.toNat % 16 * 4 + c.toNat / 64) % 4 * 64 + c.toNat % 64 = c.toNat := by omega
    simp only [decodeList?, valueOf (show a.toNat / 4 < 64 by omega),
      valueOf (show a.toNat % 4 * 16 + b.toNat / 16 < 64 by omega),
      valueOf (show b.toNat % 16 * 4 + c.toNat / 64 < 64 by omega), valueOf (show c.toNat % 64 < 64 by omega),
      bind, Option.bind, ih, byteOf first, byteOf second, byteOf third]
    rfl

theorem encodeNoDot (bytes : List UInt8) : '.' ∉ encodeList bytes := by
  fun_induction encodeList bytes with
  | case1 => exact List.not_mem_nil
  | case2 a =>
    have := sextets a
    simp only [List.mem_cons, List.not_mem_nil, or_false, not_or]
    exact ⟨(noDotOf (by omega)).symm, (noDotOf (by omega)).symm⟩
  | case3 a b =>
    have := sextets a
    have := sextets b
    simp only [List.mem_cons, List.not_mem_nil, or_false, not_or]
    exact ⟨(noDotOf (by omega)).symm, (noDotOf (by omega)).symm, (noDotOf (by omega)).symm⟩
  | case4 a b c rest ih =>
    have := sextets a
    have := sextets b
    have := sextets c
    simp only [List.mem_cons, not_or]
    exact ⟨(noDotOf (by omega)).symm, (noDotOf (by omega)).symm, (noDotOf (by omega)).symm,
      (noDotOf (by omega)).symm, ih⟩

theorem digitValue {c : Char} {n : Nat} (read : value? c = some n) : n < 64 ∧ digit n = c := by
  have range {a z : Char} (inside : a ≤ c ∧ c ≤ z) : a.toNat ≤ c.toNat ∧ c.toNat ≤ z.toNat := inside
  have back : Char.ofNat c.toNat = c := Char.ofNat_toNat c
  unfold value? at read
  split at read
  · rename_i upper
    have bounds := range upper
    have upper : 65 ≤ c.toNat ∧ c.toNat ≤ 90 := bounds
    obtain rfl := Option.some.inj read
    rw [digit, if_pos (by omega), Nat.add_sub_cancel' upper.1, back]
    exact ⟨by omega, rfl⟩
  split at read
  · rename_i lower
    have lower : 97 ≤ c.toNat ∧ c.toNat ≤ 122 := range lower
    obtain rfl := Option.some.inj read
    rw [digit, if_neg (by omega), if_pos (by omega), Nat.add_sub_cancel' (by omega), back]
    exact ⟨by omega, rfl⟩
  split at read
  · rename_i figure
    have figure : 48 ≤ c.toNat ∧ c.toNat ≤ 57 := range figure
    obtain rfl := Option.some.inj read
    rw [digit, if_neg (by omega), if_neg (by omega), if_pos (by omega), Nat.add_sub_cancel, back]
    exact ⟨by omega, rfl⟩
  split at read
  · rename_i minus
    cases read
    exact ⟨by decide, minus.symm⟩
  split at read
  · rename_i line
    cases read
    exact ⟨by decide, line.symm⟩
  · cases read

theorem toByte {n : Nat} (small : n < 256) : n.toUInt8.toNat = n := by
  rw [Nat.toUInt8_eq, UInt8.toNat_ofNat']
  exact Nat.mod_eq_of_lt small

theorem encodeDecoded {cs : List Char} {bytes : List UInt8} (read : decodeList? cs = some bytes) :
    encodeList bytes = cs := by
  fun_induction decodeList? cs generalizing bytes with
  | case1 => cases read; rfl
  | case2 => cases read
  | case3 p q =>
    simp only [bind, Option.bind_eq_some_iff] at read
    obtain ⟨a, first, b, second, read⟩ := read
    obtain ⟨ha, rfl⟩ := digitValue first
    obtain ⟨hb, rfl⟩ := digitValue second
    split at read
    · cases read
      rw [encodeList, toByte (by omega), show (a * 4 + b / 16) / 4 = a by omega,
        show (a * 4 + b / 16) % 4 * 16 = b by omega]
    · cases read
  | case4 p q r =>
    simp only [bind, Option.bind_eq_some_iff] at read
    obtain ⟨a, first, b, second, c, third, read⟩ := read
    obtain ⟨ha, rfl⟩ := digitValue first
    obtain ⟨hb, rfl⟩ := digitValue second
    obtain ⟨hc, rfl⟩ := digitValue third
    split at read
    · cases read
      rw [encodeList, toByte (by omega), toByte (by omega), show (a * 4 + b / 16) / 4 = a by omega,
        show (a * 4 + b / 16) % 4 * 16 + (b % 16 * 16 + c / 4) / 16 = b by omega,
        show (b % 16 * 16 + c / 4) % 16 * 4 = c by omega]
    · cases read
  | case5 p q r s rest ih =>
    simp only [bind, Option.bind_eq_some_iff, pure, Option.some.injEq] at read
    obtain ⟨a, first, b, second, c, third, d, fourth, later, read, rfl⟩ := read
    obtain ⟨ha, rfl⟩ := digitValue first
    obtain ⟨hb, rfl⟩ := digitValue second
    obtain ⟨hc, rfl⟩ := digitValue third
    obtain ⟨hd, rfl⟩ := digitValue fourth
    rw [encodeList, toByte (by omega), toByte (by omega), toByte (by omega), ih read,
      show (a * 4 + b / 16) / 4 = a by omega,
      show (a * 4 + b / 16) % 4 * 16 + (b % 16 * 16 + c / 4) / 16 = b by omega,
      show (b % 16 * 16 + c / 4) % 16 * 4 + (c % 4 * 64 + d) / 64 = c by omega,
      show (c % 4 * 64 + d) % 64 = d by omega]

end Teller.Base64Url
