import Teller.Proofs.Journal.Canonical
import Teller.Proofs.Journal.Ledger

/-! A byte of a record that is no longer what it was. Behind the record's length any such byte is noticed: either the
checksum of what it covers is another one, or the checksum that stands there is. So a journal with one such byte is
read up to the record it belongs to. -/
namespace Teller

namespace Bytes
variable {front back b : Bytes} {i : Nat} {x : UInt8}

@[simp] theorem setSize (here : i < b.size) : (b.set i x here).size = b.size := by
  show (b.set i x here).data.size = b.data.size
  rw [ByteArray.data_set, Array.size_set]

theorem setFront (here : i < front.size) (whole : i < (front ++ back).size) :
    (front ++ back).set i x whole = front.set i x here ++ back := by
  refine ByteArray.ext ?_
  simp only [ByteArray.data_append, ByteArray.data_set]
  exact Array.set_append_left here

theorem setBack (behind : front.size ≤ i) (here : i - front.size < back.size) (whole : i < (front ++ back).size) :
    (front ++ back).set i x whole = front ++ back.set (i - front.size) x here := by
  refine ByteArray.ext ?_
  simp only [ByteArray.data_append, ByteArray.data_set]
  exact Array.set_append_right _ behind

theorem setOther (here : i < b.size) (other : x ≠ b[i]) : b.set i x here ≠ b := by
  intro same
  have byte : (b.set i x here).data[i]? = b.data[i]? := by rw [same]
  have inside : i < b.data.size := here
  rw [ByteArray.data_set, Array.getElem?_set_self, Array.getElem?_eq_getElem inside] at byte
  exact other (Option.some.inj byte)

theorem toNatInj {a b : Bytes} (size : a.size = b.size) (same : toNat a = toNat b) : a = b := by
  rw [← littleEndianToNat a, size, same, littleEndianToNat]

end Bytes

namespace Journal
variable {r : Record} {front back bytes : Bytes} {i : Nat} {x : UInt8}

namespace Record

theorem decodeFramed {covered check inside : Bytes} (four : check.size = checksumSize)
    (long : headerSize ≤ covered.size) (begins : covered = Bytes.littleEndian 4 (covered.size + checksumSize) ++ inside)
    (room : covered.size + checksumSize < 256 ^ 4) :
    decodeAt (front ++ (covered ++ check) ++ back) front.size =
      (judge covered check).map (·, covered.size + checksumSize) := by
  have whole : Bytes.Stands (front ++ (covered ++ check) ++ back) front.size (covered ++ check) :=
    ⟨front, back, rfl, rfl⟩
  generalize front ++ (covered ++ check) ++ back = b at whole
  obtain ⟨first, last⟩ := Bytes.standsSplit whole
  have coveredHere := Bytes.standsExtract first
  have checkHere := Bytes.standsExtract last
  have fits := Bytes.standsSize last
  have length : lengthAt b front.size = covered.size + checksumSize := by
    rw [begins] at first
    have here := Bytes.standsExtract (Bytes.standsSplit first).1
    rw [Bytes.littleEndianSize] at here
    rw [lengthAt, here, Bytes.toNatLittleEndian room]
  rw [four] at checkHere fits
  rw [decodeByLength, length, if_neg (by omega), if_neg (by omega), ← Nat.add_assoc, Nat.add_sub_cancel, coveredHere,
    checkHere]

theorem frameRefused {covered check inside : Bytes} (four : check.size = checksumSize)
    (long : headerSize ≤ covered.size) (begins : covered = Bytes.littleEndian 4 (covered.size + checksumSize) ++ inside)
    (room : covered.size + checksumSize < 256 ^ 4) (differs : (Bytes.toNat check).toUInt32 ≠ Checksum.ofBytes covered) :
    ∃ expected actual, expected ≠ actual ∧
      decodeAt (front ++ (covered ++ check) ++ back) front.size = .error (.checksum expected actual) := by
  refine ⟨_, _, differs, ?_⟩
  have judged : judge covered check = _ := if_pos differs
  rw [decodeFramed four long begins room, judged]
  rfl

theorem coveredBegins (r : Record) :
    ∃ inside, r.covered = Bytes.littleEndian 4 (r.covered.size + checksumSize) ++ inside := by
  have size : r.covered.size = 4 + r.body.size := by
    simp only [covered, ByteArray.size_append, Bytes.littleEndianSize, sizeWrites, bodySize]
    omega
  rw [size]
  exact ⟨_, rfl⟩

theorem beginsChanged {covered inside : Bytes} {n : Nat} (begins : covered = Bytes.littleEndian 4 n ++ inside)
    (behind : 4 ≤ i) (here : i < covered.size) : ∃ rest, covered.set i x here = Bytes.littleEndian 4 n ++ rest := by
  subst begins
  have length := Bytes.littleEndianSize 4 n
  rw [ByteArray.size_append] at here
  exact ⟨_, Bytes.setBack (by omega) (by omega) _⟩

theorem decodeChanged (front back : Bytes) (ok : r.encode = .ok bytes) (behind : 4 ≤ i) (inside : i < bytes.size)
    (other : x ≠ bytes[i]) : ∃ expected actual, expected ≠ actual ∧
      decodeAt (front ++ bytes.set i x inside ++ back) front.size = .error (.checksum expected actual) := by
  obtain ⟨parts, size, room, coveredSize⟩ := encodeParts ok
  subst parts
  obtain ⟨rest, begins⟩ := coveredBegins r
  have limit : maxRecordSize < 256 ^ 4 := by decide
  have header : headerSize = 16 := rfl
  have four := Bytes.littleEndianSize 4 (Checksum.ofBytes r.covered).toNat
  have sum : Bytes.toNat (Bytes.littleEndian 4 (Checksum.ofBytes r.covered).toNat) = _ :=
    Bytes.toNatLittleEndian (Checksum.ofBytes r.covered).toNat_lt
  rcases Nat.lt_or_ge i r.covered.size with here | past
  · rw [ByteArray.getElem_append_left here] at other
    obtain ⟨rest, begins⟩ := beginsChanged (x := x) begins behind here
    have same : (r.covered.set i x here).size = r.covered.size := Bytes.setSize here
    rw [Bytes.setFront here]
    refine frameRefused four (by omega) (same ▸ begins) (by omega) ?_
    rw [sum]
    simpa using fun agrees => other ((Checksum.changeSeen here).mp agrees.symm)
  · rw [ByteArray.getElem_append_right past] at other
    rw [ByteArray.size_append] at inside
    have inner : i - r.covered.size < (Bytes.littleEndian 4 (Checksum.ofBytes r.covered).toNat).size := by omega
    rw [Bytes.setBack past inner]
    refine frameRefused (by rw [Bytes.setSize]; exact four) (by omega) begins (by omega) fun agrees => ?_
    have number := congrArg UInt32.toNat agrees
    rw [Bytes.wordBack (by rw [Bytes.setSize]; exact four)] at number
    exact Bytes.setOther inner other (Bytes.toNatInj (Bytes.setSize inner) (number.trans sum.symm))

end Record

theorem encodeAllSplit {before after : List Record} {all : Bytes} (ok : encodeAll (before ++ after) = .ok all) :
    ∃ front back, encodeAll before = .ok front ∧ encodeAll after = .ok back ∧ all = front ++ back := by
  induction before generalizing all with
  | nil => exact ⟨.empty, all, rfl, ok, ByteArray.empty_append.symm⟩
  | cons x before ih =>
    obtain ⟨first, later, head, tail, rfl⟩ := encodeAllCons ok
    obtain ⟨front, back, earlier, rest, rfl⟩ := ih tail
    exact ⟨first ++ front, back, encodeAllJoins head earlier, rest, ByteArray.append_assoc.symm⟩

theorem singleByteNoticed (ok : r.encode = .ok bytes) (behind : 4 ≤ i) (inside : i < bytes.size)
    (other : x ≠ bytes[i]) :
    (∀ more, ∃ expected actual, expected ≠ actual ∧
      Record.decode (bytes.set i x inside ++ more) = .error (.checksum expected actual)) ∧
    ∀ before after file, encodeAll (before ++ r :: after) = .ok file → (∀ r ∈ before, r.NamesFit) →
      let start := (before.map Record.size).sum
      ∃ here : start + i < file.size, file[start + i] = bytes[i] ∧
        ∀ d : Disk, d.content = file.set (start + i) x here →
          openAt d = (⟨{ d with file := some (file.extract 0 start) }, start⟩, ⟨before, file.size - start⟩) := by
  constructor
  · intro more
    have refused := Record.decodeChanged .empty more ok behind inside other
    rwa [ByteArray.empty_append] at refused
  intro before after file written fits start
  obtain ⟨front, back, coded, rest, rfl⟩ := encodeAllSplit written
  obtain ⟨first, later, head, tail, rfl⟩ := encodeAllCons rest
  obtain rfl : bytes = first := Except.ok.inj (ok.symm.trans head)
  have size : front.size = start := encodeAllSize coded
  clear_value start
  subst size
  have place : front.size + i - front.size = i := Nat.add_sub_cancel_left _ _
  have there : front.size + i < (front ++ (bytes ++ later)).size := by
    simp only [ByteArray.size_append]
    omega
  have longer : i < (bytes ++ later).size := by
    rw [ByteArray.size_append]
    omega
  have changed : (front ++ (bytes ++ later)).set (front.size + i) x there =
      front ++ (bytes.set i x inside ++ later) := by
    rw [Bytes.setBack (Nat.le_add_right _ _) (by omega)]
    simp only [place]
    rw [Bytes.setFront inside]
  refine ⟨there, ?_, fun d content => ?_⟩
  · rw [ByteArray.getElem_append_right (Nat.le_add_right _ _)]
    simp only [place]
    exact ByteArray.getElem_append_left inside
  · obtain ⟨expected, actual, -, refused⟩ := Record.decodeChanged front later ok behind inside other
    rw [changed] at content
    rw [ByteArray.append_assoc] at refused
    rw [openWritten coded fits content (.inr ⟨_, refused⟩), ByteArray.extract_append_eq_left rfl]
    simp only [ByteArray.size_append, Bytes.setSize, Nat.add_sub_cancel_left]

theorem singleByteNoticedInKey :
    let small : Record := ⟨7, []⟩
    ∃ inside : 24 < twoWritesText.size, (108 : UInt8) ≠ twoWritesText[24] ∧
      (∃ expected actual,
        Record.decode (twoWritesText.set 24 108 inside ++ ⟨#[1, 2]⟩) = .error (.checksum expected actual)) ∧
      ∃ file, encodeAll [small, twoWrites, small] = .ok file ∧ ∃ here : 44 < file.size, file[44] = twoWritesText[24] ∧
        (openAt ⟨some (file.set 44 108 here), false⟩).2 = ⟨[small], file.size - 20⟩ := by
  intro small
  have inside : 24 < twoWritesText.size := by decide
  have letter : twoWritesText[24] = 107 := rfl
  have other : (108 : UInt8) ≠ twoWritesText[24] := by rw [letter]; decide
  obtain ⟨first, head, -⟩ := Record.encodeFits (r := small) (by decide)
  have written : encodeAll [small, twoWrites, small] = .ok (first ++ (twoWritesText ++ (first ++ .empty))) :=
    encodeAllJoins head (encodeAllJoins twoWritesEncoded (encodeAllJoins head rfl))
  obtain ⟨alone, among⟩ := singleByteNoticed twoWritesEncoded (by decide) inside other
  obtain ⟨expected, actual, -, refused⟩ := alone ⟨#[1, 2]⟩
  obtain ⟨here, same, opened⟩ := among [small] [small] _ written (by decide)
  exact ⟨inside, other, ⟨expected, actual, refused⟩, _, written, here, same, by rw [opened _ rfl]; rfl⟩

end Journal
end Teller
