import Teller.Json.Number

/-! Integers are read back as they were written, as long as they fit in 64 bits and nothing follows that
would go on with the number. -/
namespace Teller

namespace Decimal

def total (sum : Nat) (ds : List UInt8) : Nat := ds.foldl (fun n b => n * 10 + value b) sum

theorem digitValue (n : Nat) : value (digit n) = n % 10 := by
  have small : n % 10 < 10 := Nat.mod_lt n (by decide)
  simp only [value, digit, Nat.toUInt8_eq, UInt8.toNat_ofNat']
  omega

theorem digitIsDigit (n : Nat) : isDigit (digit n) = true := by
  have small : n % 10 < 10 := Nat.mod_lt n (by decide)
  simp only [isDigit, digit, Nat.toUInt8_eq, Bool.and_eq_true, decide_eq_true_eq, UInt8.le_iff_toNat_le,
    UInt8.toNat_ofNat', UInt8.reduceToNat]
  omega

theorem totalOfNat (n : Nat) : total 0 (ofNat n) = n := by
  fun_induction ofNat n with
  | case1 n small => simp [total, digitValue]; omega
  | case2 n large ih =>
    unfold total at ih ⊢
    rw [List.foldl_append, ih]
    simp only [List.foldl_cons, List.foldl_nil, digitValue]
    omega

theorem digitsOfNat (n : Nat) : ∀ b ∈ ofNat n, isDigit b = true := by
  fun_induction ofNat n with
  | case1 n small => simp [digitIsDigit]
  | case2 n large ih =>
    intro b mem
    rcases List.mem_append.mp mem with mem | mem
    · exact ih b mem
    · rw [List.mem_singleton.mp mem]; exact digitIsDigit n

theorem headOfNat (n : Nat) : ∃ b ds, ofNat n = b :: ds ∧ isDigit b = true ∧ (0 < n → b ≠ 48) := by
  fun_induction ofNat n with
  | case1 n small =>
    refine ⟨_, _, rfl, digitIsDigit n, fun pos zero => ?_⟩
    have left := digitValue n
    rw [zero, show value 48 = 0 from rfl] at left
    omega
  | case2 n large ih =>
    obtain ⟨b, ds, same, digit', high⟩ := ih
    exact ⟨b, ds ++ [digit n], by rw [same]; rfl, digit', fun _ => high (by omega)⟩

theorem totalGrows (sum : Nat) (ds : List UInt8) : sum ≤ total sum ds := by
  induction ds generalizing sum with
  | nil => exact Nat.le_refl sum
  | cons b ds ih =>
    have := ih (sum * 10 + value b)
    simp only [total, List.foldl_cons] at this ⊢
    omega

end Decimal

namespace Json
open Decimal (isDigit total)

def Closed : List UInt8 → Prop
  | [] => True
  | b :: _ => b = 44 ∨ b = 93 ∨ b = 125

theorem closedDigit {rest : List UInt8} (h : Closed rest) : startsWithDigit rest = false := by
  cases rest with
  | nil => rfl
  | cons b rest => rcases h with rfl | rfl | rfl <;> rfl

theorem closedE {rest : List UInt8} (h : Closed rest) : startsWithE rest = false := by
  cases rest with
  | nil => rfl
  | cons b rest => rcases h with rfl | rfl | rfl <;> rfl

theorem gatherAll {ds rest : List UInt8} {sum count : Nat} (digits : ∀ b ∈ ds, isDigit b = true)
    (fits : total sum ds ≤ maxNatural) (h : Closed rest) :
    gather sum count (ds ++ rest) = (total sum ds, count + ds.length, rest) := by
  induction ds generalizing sum count with
  | nil =>
    cases rest with
    | nil => rfl
    | cons b rest =>
      have : isDigit b = false := closedDigit h
      simp [gather, this, total]
  | cons b ds ih =>
    have grows := Decimal.totalGrows (sum * 10 + Decimal.value b) ds
    have fits : total (sum * 10 + Decimal.value b) ds ≤ maxNatural := fits
    rw [List.cons_append, gather, if_pos ⟨digits b List.mem_cons_self, Nat.le_trans grows fits⟩,
      ih (fun x mem => digits x (List.mem_cons_of_mem _ mem)) fits]
    simp [total, Nat.add_comm, Nat.add_left_comm]

theorem readWrittenNat {n : Nat} (fits : n ≤ maxNatural) (positive : Bool) {rest : List UInt8}
    (h : Closed rest) : readNumber positive (Decimal.ofNat n ++ rest) = .ok (whole positive n, rest) := by
  have point : ∀ tail, rest ≠ 46 :: tail := by
    rintro tail rfl
    rcases h with h | h | h <;> cases h
  rcases Nat.eq_zero_or_pos n with rfl | pos
  · have zero : Decimal.ofNat 0 = [48] := by rw [Decimal.ofNat]; rfl
    rw [zero]
    simp only [List.cons_append, List.nil_append, readNumber.eq_def, if_true, closedDigit h, closedE h,
      Bool.false_eq_true, if_false]
  · obtain ⟨b, ds, same, _, high⟩ := Decimal.headOfNat n
    have digits := Decimal.digitsOfNat n
    have value := Decimal.totalOfNat n
    rw [same] at digits value
    have sum : total (Decimal.value b) ds = n := by simpa [total] using value
    have gathered : gather (Decimal.value b) 0 (ds ++ rest) = (n, 0 + ds.length, rest) := by
      rw [gatherAll (fun x mem => digits x (List.mem_cons_of_mem b mem)) (sum.symm ▸ fits) h, sum]
    have dropped : (rest.takeWhile isDigit).length = 0 := by
      cases rest with
      | nil => rfl
      | cons c rest =>
        have other : isDigit c = false := closedDigit h
        simp [other]
    rw [same]
    simp only [List.cons_append, readNumber.eq_def, high pos, if_false, digits b List.mem_cons_self, if_true,
      gathered, dropped, List.drop_zero, closedE h, Bool.false_eq_true]

end Json
end Teller
