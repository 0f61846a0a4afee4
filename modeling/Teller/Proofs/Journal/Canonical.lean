import Teller.Proofs.Checksum
import Teller.Proofs.Journal.Reading

/-! The format of a record is canonical. Whatever is read is, byte for byte, what would be written: every part that
is taken stands there as it is encoded, the parts follow one another, and together they leave no byte over. -/
namespace Teller

namespace Bytes
variable {b part more : Bytes} {pos place stop : Nat}

def Spans (b : Bytes) (pos stop : Nat) (part : Bytes) : Prop := b.Stands pos part ∧ stop = pos + part.size

theorem spansJoin (first : b.Spans pos place part) (second : b.Spans place stop more) :
    b.Spans pos stop (part ++ more) := by
  obtain ⟨here, rfl⟩ := first
  obtain ⟨behind, rfl⟩ := second
  exact ⟨standsJoin here behind, by rw [ByteArray.size_append, Nat.add_assoc]⟩

theorem spansInside (h : b.Spans pos stop part) : stop ≤ b.size := h.2 ▸ standsSize h.1

theorem spansExtract (h : b.Spans pos stop part) : b.extract pos stop = part := by
  rw [h.2]
  exact standsExtract h.1

theorem spansExtracted (order : pos ≤ stop) (inside : stop ≤ b.size) : b.Spans pos stop (b.extract pos stop) := by
  refine ⟨standsExtracted order inside, ?_⟩
  rw [ByteArray.size_extract]
  omega

theorem spansNone (inside : pos ≤ b.size) : b.Spans pos pos .empty := by
  have empty : b.extract pos pos = .empty := ByteArray.extract_eq_empty_iff.mpr (Nat.min_le_left pos b.size)
  rw [← empty]
  exact spansExtracted (Nat.le_refl pos) inside

theorem spansNumber (order : pos ≤ stop) (inside : stop ≤ b.size) :
    b.Spans pos stop (littleEndian (stop - pos) (toNat (b.extract pos stop))) := by
  have part := spansExtracted order inside
  have size : (b.extract pos stop).size = stop - pos := by rw [ByteArray.size_extract, Nat.min_eq_left inside]
  rwa [← littleEndianToNat (b.extract pos stop), size] at part

theorem wordBack (four : b.size = 4) : (toNat b).toUInt32.toNat = toNat b := by
  have room := toNatLt b
  rw [four] at room
  exact Nat.mod_eq_of_lt room

end Bytes

namespace Journal
open Bytes (Spans)
variable {b found : Bytes} {pos stop n : Nat}

theorem takenSpans (ok : take b pos n = .ok (found, stop)) : b.Spans pos stop found := by
  unfold take at ok
  split at ok
  · cases ok
    exact Bytes.spansExtracted (Nat.le_add_right pos n) ‹_›
  · cases ok

theorem takenSizedSpans {width : Nat} (ok : takeSized width b pos = .ok (found, stop)) :
    b.Spans pos stop (Bytes.littleEndian width found.size ++ found) := by
  obtain ⟨⟨size, next⟩, first, ok⟩ := boundOk ok
  have written : Bytes.littleEndian width found.size = size := by
    rw [takeEnds ok, ← takeEnds first, Bytes.littleEndianToNat]
  rw [written]
  exact Bytes.spansJoin (takenSpans first) (takenSpans ok)

namespace Write

theorem rowSpans {tag : UInt8} {table : String} {key first : Bytes} {past : Nat}
    (taken : take b pos 1 = .ok (first, pos + 1)) (tagged : first.toNat.toUInt8 = tag)
    (name : takeSized 2 b (pos + 1) = .ok (Bytes.ofText table, past)) (keyed : takeSized 4 b past = .ok (key, stop)) :
    b.Spans pos stop (encodeRow tag table key) := by
  have one : first.size = 1 := takeEnds taken
  have single : first = ⟨#[tag]⟩ := by
    rw [← Bytes.littleEndianToNat first, one, ← tagged]
    rfl
  have row := Bytes.spansJoin (takenSpans taken) (Bytes.spansJoin (takenSizedSpans name) (takenSizedSpans keyed))
  rw [single, nameSize] at row
  simpa only [encodeRow, ByteArray.append_assoc] using row

theorem decodedSpans {w : Write} (ok : decode b pos = .ok (w, stop)) : b.Spans pos stop w.encode := by
  obtain ⟨tag, past, behind, first, name, key, rest⟩ := decodedParts ok
  rcases rest with ⟨value, puts, isPut, taken⟩ | ⟨deletes, isDelete, rfl⟩
  · rw [isPut, encode, ByteArray.append_assoc]
    exact Bytes.spansJoin (rowSpans first puts name key) (takenSizedSpans taken)
  · rw [isDelete]
    exact rowSpans first deletes name key

end Write

theorem decodedWritesSpan {ws : List Write} (ok : decodeWrites b n pos = .ok (ws, stop)) (inside : pos ≤ b.size) :
    b.Spans pos stop (Record.encodeWrites ws) ∧ ws.length = n := by
  induction n generalizing pos ws stop with
  | zero =>
    cases ok
    exact ⟨Bytes.spansNone inside, rfl⟩
  | succ n ih =>
    rw [decodeWrites] at ok
    obtain ⟨⟨head, next⟩, first, ok⟩ := boundOk ok
    obtain ⟨⟨rest, last⟩, later, ok⟩ := boundOk ok
    cases ok
    have here := Write.decodedSpans first
    obtain ⟨behind, count⟩ := ih later (Bytes.spansInside here)
    exact ⟨Bytes.spansJoin here behind, congrArg (· + 1) count⟩

namespace Record
variable {r : Record} {covered check : Bytes}

def text (r : Record) : Bytes := r.covered ++ Bytes.littleEndian 4 (Checksum.ofBytes r.covered).toNat

theorem encodeText (fits : r.Fits) : r.encode = .ok r.text := by
  obtain ⟨bytes, ok, -⟩ := encodeFits fits
  rw [ok, (encodeParts ok).1]
  rfl

theorem coveredRead {writes : List Write} (long : headerSize ≤ covered.size)
    (length : covered.Spans 0 4 (Bytes.littleEndian 4 (covered.size + checksumSize)))
    (taken : decodeWrites covered (Bytes.toNat (covered.extract 12 16)) headerSize = .ok (writes, covered.size)) :
    Record.covered ⟨(Bytes.toNat (covered.extract 4 12)).toUInt64, writes⟩ = covered := by
  have header : headerSize = 16 := rfl
  obtain ⟨written, count⟩ := decodedWritesSpan taken long
  have id : covered.Spans 4 12 _ := Bytes.spansNumber (by omega) (by omega)
  have counted : covered.Spans 12 16 _ := Bytes.spansNumber (by omega) (by omega)
  rw [← count] at counted
  have same := Bytes.spansExtract (Bytes.spansJoin length (Bytes.spansJoin id (Bytes.spansJoin counted written)))
  rw [ByteArray.extract_zero_size] at same
  have size := written.2
  rw [sizeWrites] at size
  have back : (Bytes.toNat (covered.extract 4 12)).toUInt64.toNat = Bytes.toNat (covered.extract 4 12) := by
    have room := Bytes.toNatLt (covered.extract 4 12)
    rw [ByteArray.size_extract, Nat.min_eq_left (by omega)] at room
    exact Nat.mod_eq_of_lt room
  have body : (Record.body ⟨(Bytes.toNat (covered.extract 4 12)).toUInt64, writes⟩).size = 12 + writesSize writes :=
    bodySize _
  have total : 4 + (12 + writesSize writes) + checksumSize = covered.size + checksumSize := by omega
  rw [Record.covered, body, back, total]
  exact same.symm

theorem judgedText (read : judge covered check = .ok r) (four : check.size = 4) (long : headerSize ≤ covered.size)
    (length : covered.Spans 0 4 (Bytes.littleEndian 4 (covered.size + checksumSize))) : covered ++ check = r.text := by
  unfold judge at read
  dsimp only at read
  split at read
  · cases read
  rename_i agrees
  obtain ⟨⟨writes, stop⟩, taken, read⟩ := boundOk read
  dsimp only at read
  split at read
  · cases read
  rename_i ended
  cases read
  obtain rfl : stop = covered.size := Decidable.not_not.mp ended
  have sum : check = Bytes.littleEndian 4 (Checksum.ofBytes covered).toNat := by
    rw [← Decidable.not_not.mp agrees, Bytes.wordBack four, ← four, Bytes.littleEndianToNat]
  rw [text, coveredRead long length taken, ← sum]

theorem decodedSpans (read : decodeAt b pos = .ok (r, n)) : b.Spans pos (pos + n) r.text := by
  obtain ⟨long, inside, length, -⟩ := decodedParts read
  have minimum : headerSize + checksumSize = 20 := rfl
  have less : checksumSize = 4 := rfl
  have here : lengthAt b pos = n := length.symm
  rw [decodeByLength, here, if_neg (by omega), if_neg (by omega), Nat.add_sub_assoc (by omega)] at read
  let covered : Bytes := b.extract pos (pos + (n - checksumSize))
  let check : Bytes := b.extract (pos + (n - checksumSize)) (pos + n)
  have judged : judge covered check = .ok r := by
    cases outcome : judge covered check with
    | error cause => rw [outcome] at read; cases read
    | ok found => rw [outcome] at read; cases read; rfl
  have size : covered.size + checksumSize = n := by
    rw [ByteArray.size_extract]
    omega
  have four : check.size = 4 := by
    rw [ByteArray.size_extract]
    omega
  have front : Spans covered 0 4 (Bytes.littleEndian 4 (covered.size + checksumSize)) := by
    have number : Spans covered 0 4 _ := Bytes.spansNumber (Nat.zero_le 4) (by omega)
    rwa [Bytes.extractInner (by omega), Nat.add_zero, ← lengthAt, here, ← size] at number
  have joined : covered ++ check = b.extract pos (pos + n) :=
    (ByteArray.extract_eq_extract_append_extract _ (by omega) (by omega)).symm
  rw [← judgedText judged four (by omega) front, joined]
  exact Bytes.spansExtracted (by omega) inside

end Record

theorem decodedCanonical {r : Record} (read : Record.decode b = .ok (r, n)) :
    20 ≤ n ∧ n ≤ b.size ∧ (n ≤ maxRecordSize → r.encode = .ok (b.extract 0 n)) ∧
      ∀ c m, Record.decode c = .ok (r, m) → c.extract 0 m = b.extract 0 n := by
  have whole {c : Bytes} {m : Nat} (read : Record.decode c = .ok (r, m)) : c.extract 0 m = r.text := by
    have spans := Bytes.spansExtract (Record.decodedSpans read)
    rwa [Nat.zero_add] at spans
  obtain ⟨long, inside⟩ := Record.decodedRoom read
  rw [Nat.zero_add] at inside
  refine ⟨long, inside, fun small => ?_, fun c m again => ?_⟩
  · rw [whole read, Record.encodeText]
    rwa [Record.Fits, ← Record.decodedSize read]
  · rw [whole again, whole read]

def twoWrites : Record := ⟨9, [.put "t" (Bytes.ofText "k") (Bytes.ofText "v"), .delete "t" .empty]⟩

def twoWritesText : Bytes :=
  ⟨#[42, 0, 0, 0, 9, 0, 0, 0, 0, 0, 0, 0, 2, 0, 0, 0, 1, 1, 0, 116, 1, 0, 0, 0, 107, 1, 0, 0, 0, 118, 2, 1, 0, 116,
    0, 0, 0, 0, 32, 137, 139, 18]⟩

theorem twoWritesEncoded : twoWrites.encode = .ok twoWritesText := by
  rw [Record.encodeText (by decide), Record.text, Checksum.ofBytesShifts]
  decide +kernel

theorem decodedCanonicalOfTwoWrites :
    Record.decode (twoWritesText ++ ⟨#[1, 2]⟩) = .ok (twoWrites, 42) ∧ twoWrites.encode = .ok twoWritesText := by
  have fits : twoWrites.NamesFit := by decide
  have read : Record.decode (twoWritesText ++ ⟨#[1, 2]⟩) = .ok (twoWrites, 42) :=
    Record.decodeStanding twoWritesEncoded fits (Bytes.standsSelf twoWritesText _)
  obtain ⟨-, -, whole, -⟩ := decodedCanonical read
  have front : (twoWritesText ++ ⟨#[1, 2]⟩ : Bytes).extract 0 42 = twoWritesText := ByteArray.extract_append_eq_left rfl
  rw [front] at whole
  exact ⟨read, whole (by decide)⟩

end Journal
end Teller
