/-! Byte strings: their order, hexadecimal text and little-endian numbers.
Keys and stored values are byte strings, and every table is kept in their order. -/
namespace Teller

abbrev Bytes := ByteArray

instance bytesDecidableEq : DecidableEq Bytes := ByteArray.instDecidableEq

namespace Bytes

def compareFrom (a b : Bytes) (i : Nat) : Ordering :=
  if ha : i < a.size then
    if hb : i < b.size then
      (compare a[i] b[i]).then (compareFrom a b (i + 1))
    else .gt
  else if i < b.size then .lt else .eq
termination_by a.size - i

instance : Ord Bytes := ⟨fun a b => compareFrom a b 0⟩

theorem drop_data (a : Bytes) (i : Nat) (h : i < a.size) :
    a.data.toList.drop i = a[i] :: a.data.toList.drop (i + 1) :=
  List.drop_eq_getElem_cons (i := i) (l := a.data.toList) h

theorem compareFrom_eq (a b : Bytes) (i : Nat) :
    compareFrom a b i = compare (a.data.toList.drop i) (b.data.toList.drop i) := by
  rw [List.compare_eq_compareLex]
  fun_induction compareFrom a b i with
  | case1 i ha hb ih => rw [drop_data a i ha, drop_data b i hb, List.compareLex_cons_cons, ih]
  | case2 i ha hb =>
      have hd : b.data.toList.drop i = [] := List.drop_eq_nil_of_le (Nat.le_of_not_lt hb)
      rw [drop_data a i ha, hd]; rfl
  | case3 i ha hb =>
      have hd : a.data.toList.drop i = [] := List.drop_eq_nil_of_le (Nat.le_of_not_lt ha)
      rw [drop_data b i hb, hd]; rfl
  | case4 i ha hb =>
      have hd : a.data.toList.drop i = [] := List.drop_eq_nil_of_le (Nat.le_of_not_lt ha)
      have he : b.data.toList.drop i = [] := List.drop_eq_nil_of_le (Nat.le_of_not_lt hb)
      rw [hd, he]; rfl

theorem compare_eq (a b : Bytes) : compare a b = compare a.data.toList b.data.toList :=
  compareFrom_eq a b 0

instance : Std.TransOrd Bytes where
  eq_swap {a b} := by rw [compare_eq, compare_eq]; exact Std.OrientedCmp.eq_swap
  isLE_trans {a b c} := by rw [compare_eq, compare_eq, compare_eq]; exact Std.TransCmp.isLE_trans

instance : Std.LawfulEqOrd Bytes where
  compare_self {a} := by rw [compare_eq]; exact Std.ReflCmp.compare_self
  eq_of_compare {a b} h := by
    rw [compare_eq] at h
    exact ByteArray.ext (Array.toList_inj.1 (Std.LawfulEqCmp.eq_of_compare h))

def ofText (s : String) : Bytes := s.toUTF8

def toText? (b : Bytes) : Option String := String.fromUTF8? b

def hexDigit (n : UInt8) : Char :=
  if n < 10 then Char.ofNat (48 + n.toNat) else Char.ofNat (87 + n.toNat)

def hexByte (b : UInt8) : List Char := [hexDigit (b >>> 4), hexDigit (b &&& 15)]

def toHex (b : Bytes) : String := String.ofList (b.data.toList.flatMap hexByte)

def hexValue? (c : Char) : Option UInt8 :=
  if '0' ≤ c ∧ c ≤ '9' then some (c.toNat - 48).toUInt8
  else if 'a' ≤ c ∧ c ≤ 'f' then some (c.toNat - 87).toUInt8
  else if 'A' ≤ c ∧ c ≤ 'F' then some (c.toNat - 55).toUInt8
  else none

def hexPairs? : List Char → Option (List UInt8)
  | [] => some []
  | [_] => none
  | h :: l :: rest => do
      let high ← hexValue? h
      let low ← hexValue? l
      return ((high <<< 4) ||| low) :: (← hexPairs? rest)

def ofHex? (s : String) : Option Bytes := (hexPairs? s.toList).map fun l => ⟨l.toArray⟩

def littleEndian (width n : Nat) : Bytes :=
  ⟨((List.range width).map fun i => (n >>> (8 * i)).toUInt8).toArray⟩

def natOfLittleEndian : List UInt8 → Nat
  | [] => 0
  | b :: rest => b.toNat + 256 * natOfLittleEndian rest

def toNat (b : Bytes) : Nat := natOfLittleEndian b.data.toList

def replicate (n : Nat) (unit : Bytes) : Bytes := n.fold (fun _ _ acc => acc ++ unit) .empty

def flip (place : Nat) (bits : UInt8) (b : Bytes) : Bytes :=
  if h : place < b.size then b.set place (b[place] ^^^ bits) h else b

end Bytes
end Teller
