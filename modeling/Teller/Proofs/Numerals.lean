import Teller.Text.Decimal

/-! Texts that are read as whole numbers: digits, perhaps behind a plus sign, that denote no number beyond the
largest. -/
namespace Teller.Decimal

def denoted (sum : Nat) (ds : List Char) : Nat := ds.foldl (fun n c => n * 10 + (c.toNat - 48)) sum

def Denotes (text : String) (n : Nat) : Prop :=
  ∃ ds, ds ≠ [] ∧ (∀ c ∈ ds, c.isDigit) ∧ denoted 0 ds = n ∧ (text.toList = ds ∨ text.toList = '+' :: ds)

theorem denotedGrows (sum : Nat) (ds : List Char) : sum ≤ denoted sum ds := by
  induction ds generalizing sum with
  | nil => exact Nat.le_refl sum
  | cons c ds ih =>
    have later := ih (sum * 10 + (c.toNat - 48))
    have here : sum ≤ sum * 10 + (c.toNat - 48) := by omega
    exact Nat.le_trans here later

theorem digitsIff {max sum n : Nat} {cs : List Char} (low : sum ≤ max) :
    digits max sum cs = .ok n ↔ (∀ c ∈ cs, c.isDigit) ∧ denoted sum cs = n ∧ n ≤ max := by
  induction cs generalizing sum with
  | nil =>
    rw [digits, denoted, List.foldl_nil, Except.ok.injEq]
    exact ⟨fun same => ⟨nofun, same, same ▸ low⟩, fun h => h.2.1⟩
  | cons c cs ih =>
    have later : denoted sum (c :: cs) = denoted (sum * 10 + (c.toNat - 48)) cs := rfl
    have grows := denotedGrows (sum * 10 + (c.toNat - 48)) cs
    rw [digits, List.forall_mem_cons, later]
    dsimp only
    split
    · rename_i digit
      split
      · rename_i next
        rw [ih next]
        simp [digit]
      · rename_i beyond
        simp only [reduceCtorEq, false_iff]
        rintro ⟨-, rfl, small⟩
        exact beyond (Nat.le_trans grows small)
    · rename_i other
      simp [other]

theorem noSign {rest : List Char} : ¬ ∀ c ∈ '+' :: rest, c.isDigit := fun all =>
  Bool.false_ne_true (all '+' List.mem_cons_self)

theorem parseIff {max n : Nat} {text : String} : parse max text = .ok n ↔ Denotes text n ∧ n ≤ max := by
  have low := Nat.zero_le max
  unfold parse Denotes
  split
  · rename_i empty
    rw [empty]
    simp only [reduceCtorEq, false_iff]
    rintro ⟨⟨ds, given, -, -, rfl | signed⟩, -⟩
    · exact given rfl
    · cases signed
  · rename_i lone
    rw [lone]
    simp only [reduceCtorEq, false_iff]
    rintro ⟨⟨ds, given, all, -, rfl | signed⟩, -⟩
    · exact noSign all
    · cases signed
      exact given rfl
  · rename_i rest more signed
    rw [signed, digitsIff low]
    constructor
    · rintro ⟨all, same, small⟩
      exact ⟨⟨rest, fun empty => more (empty ▸ rfl), all, same, .inr rfl⟩, small⟩
    · rintro ⟨⟨ds, -, all, same, rfl | here⟩, small⟩
      · exact absurd all noSign
      · cases here
        exact ⟨all, same, small⟩
  · rename_i cs given lone unsigned
    rw [digitsIff low]
    constructor
    · rintro ⟨all, same, small⟩
      exact ⟨⟨text.toList, given, all, same, .inl rfl⟩, small⟩
    · rintro ⟨⟨ds, -, all, same, here | signed⟩, small⟩
      · exact here ▸ ⟨all, same, small⟩
      · exact absurd signed (unsigned ds)

end Teller.Decimal
