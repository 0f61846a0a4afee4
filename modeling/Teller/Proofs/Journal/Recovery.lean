import Teller.Journal.Damage
import Teller.Proofs.Journal.Layout

/-! What opening a journal finds. A file that holds the records of a list, and behind them at most a record
that was not written to its end, gives exactly the list; the torn record is cut off. -/
namespace Teller

namespace Disk

theorem overwriteEnd (old new : Bytes) : overwrite old old.size new = old ++ new := by
  have tail : old.extract (old.size + new.size) old.size = .empty := by
    rw [ByteArray.extract_eq_empty_iff]
    omega
  have gap : Bytes.replicate (old.size - old.size) ⟨#[0]⟩ = .empty := by rw [Nat.sub_self]; rfl
  rw [overwrite, tail, gap, ByteArray.extract_zero_size, ByteArray.append_empty, ByteArray.append_empty]

theorem contentShortened (d : Disk) (k : Nat) : (d.suffer (.shorten k)).content = d.content.extract 0 k := by
  obtain ⟨file, blocked⟩ := d
  cases file with
  | none =>
    have empty : ByteArray.empty.extract 0 k = .empty := ByteArray.extract_eq_empty_iff.mpr (by simp)
    exact empty.symm
  | some bytes => rfl

structure Holds (d : Disk) (rs : List Journal.Record) : Prop where
  written : Journal.encodeAll rs = .ok d.content
  fits : ∀ r ∈ rs, r.NamesFit

end Disk

namespace Journal
variable {r : Record} {rs : List Record}

theorem encodeAllCons {all : Bytes} (ok : encodeAll (r :: rs) = .ok all) :
    ∃ first later, r.encode = .ok first ∧ encodeAll rs = .ok later ∧ all = first ++ later := by
  obtain ⟨first, head, ok⟩ := boundOk ok
  obtain ⟨later, tail, ok⟩ := boundOk ok
  cases ok
  exact ⟨first, later, head, tail, rfl⟩

theorem encodeAllJoins {first later : Bytes} (head : r.encode = .ok first) (tail : encodeAll rs = .ok later) :
    encodeAll (r :: rs) = .ok (first ++ later) := by
  rw [encodeAll, head, tail]
  rfl

theorem encodeAllSnoc {all last : Bytes} (ok : encodeAll rs = .ok all) (more : r.encode = .ok last) :
    encodeAll (rs ++ [r]) = .ok (all ++ last) := by
  induction rs generalizing all with
  | nil =>
    cases ok
    rw [List.nil_append, encodeAllJoins more rfl, ByteArray.append_empty, ByteArray.empty_append]
  | cons x rs ih =>
    obtain ⟨first, later, head, tail, rfl⟩ := encodeAllCons ok
    rw [List.cons_append, encodeAllJoins head (ih tail), ByteArray.append_assoc]

theorem encodedSize {bytes : Bytes} (ok : r.encode = .ok bytes) : headerSize + checksumSize ≤ bytes.size := by
  rw [(Record.encodeParts ok).2.1, headerSize]
  omega

theorem encodedSizes {all : Bytes} (ok : encodeAll rs = .ok all) :
    rs.length * (headerSize + checksumSize) ≤ all.size := by
  induction rs generalizing all with
  | nil => simp
  | cons r rs ih =>
    obtain ⟨first, later, head, tail, rfl⟩ := encodeAllCons ok
    have := ih tail
    have := encodedSize head
    rw [List.length_cons, Nat.succ_mul, ByteArray.size_append]
    omega

theorem scanWritten {all front back : Bytes} {steps : Nat} (written : encodeAll rs = .ok all)
    (fits : ∀ r ∈ rs, r.NamesFit) (enough : rs.length < steps)
    (ends : back = .empty ∨ ∃ e, Record.decodeAt (front ++ all ++ back) (front ++ all).size = .error e) :
    scan (front ++ all ++ back) steps front.size = (rs, (front ++ all).size) := by
  induction rs generalizing all front steps with
  | nil =>
    cases written
    cases steps with
    | zero => cases enough
    | succ steps =>
      rw [scan]
      simp only [ByteArray.append_empty] at ends ⊢
      split
      · rename_i inside
        rcases ends with rfl | ⟨e, fails⟩
        · simp at inside
        · rw [fails]
      · rfl
  | cons r rs ih =>
    cases steps with
    | zero => cases enough
    | succ steps =>
      obtain ⟨first, later, head, tail, rfl⟩ := encodeAllCons written
      have text : front ++ (first ++ later) ++ back = front ++ first ++ later ++ back := by
        simp only [ByteArray.append_assoc]
      have read : Record.decodeAt (front ++ first ++ later ++ back) front.size = .ok (r, first.size) :=
        Record.decodeStanding head (fits r List.mem_cons_self)
          ⟨front, later ++ back, by simp only [ByteArray.append_assoc], rfl⟩
      have full := encodedSize head
      have inside : front.size < (front ++ first ++ later ++ back).size := by
        simp only [ByteArray.size_append, headerSize] at full ⊢
        omega
      rw [text, ← ByteArray.append_assoc] at ends ⊢
      rw [scan, if_pos inside, read]
      simp only
      rw [← ByteArray.size_append, ih tail (fun x mem => fits x (List.mem_cons_of_mem _ mem))
        (Nat.lt_of_succ_lt_succ enough) ends]

theorem openWritten {d : Disk} {all back : Bytes} (written : encodeAll rs = .ok all)
    (fits : ∀ r ∈ rs, r.NamesFit) (content : d.content = all ++ back)
    (ends : back = .empty ∨ ∃ e, Record.decodeAt (all ++ back) all.size = .error e) :
    openAt d = (⟨{ d with file := some all }, all.size⟩, ⟨rs, back.size⟩) := by
  have sizes := encodedSizes written
  have enough : rs.length < d.content.size / (headerSize + checksumSize) + 1 := by
    refine Nat.lt_succ_of_le ((Nat.le_div_iff_mul_le (by decide)).mpr (Nat.le_trans sizes ?_))
    rw [content, ByteArray.size_append]
    omega
  have found : scan (.empty ++ all ++ back) _ ByteArray.empty.size = _ :=
    scanWritten written fits enough (by simpa using ends)
  simp only [ByteArray.empty_append, ByteArray.size_empty] at found
  rw [← content] at found
  unfold openAt
  simp only [found]
  rw [content, ByteArray.extract_append_eq_left rfl, ByteArray.size_append, Nat.add_sub_cancel_left]

theorem openHeld {d : Disk} (h : d.Holds rs) :
    openAt d = (⟨{ d with file := some d.content }, d.content.size⟩, ⟨rs, 0⟩) :=
  openWritten h.written h.fits ByteArray.append_empty.symm (.inl rfl)

theorem openTorn {d whole : Disk} {bytes : Bytes} {k : Nat} (h : whole.Holds rs) (ok : r.encode = .ok bytes)
    (torn : k < bytes.size) (content : d.content = whole.content ++ bytes.extract 0 k) :
    openAt d = (⟨{ d with file := some whole.content }, whole.content.size⟩, ⟨rs, k⟩) := by
  have opened := openWritten h.written h.fits content (.inr ⟨_, Record.decodeTorn ok torn⟩)
  rwa [ByteArray.size_extract, Nat.min_eq_left (Nat.le_of_lt torn), Nat.sub_zero] at opened

structure Holds (j : Journal) (rs : List Record) : Prop where
  disk : j.disk.Holds rs
  size : j.size = j.disk.content.size

theorem appended {j after : Journal} (size : j.size = j.disk.content.size) (ok : j.append r = .ok after) :
    ∃ bytes, r.encode = .ok bytes ∧ after.disk.content = j.disk.content ++ bytes ∧
      after.size = after.disk.content.size ∧ after.disk.blocked = j.disk.blocked := by
  obtain ⟨bytes, coded, ok⟩ := boundOk ok
  cases ok
  have content : Disk.overwrite j.disk.content j.size bytes = j.disk.content ++ bytes := by
    rw [size, Disk.overwriteEnd]
  refine ⟨bytes, coded, content, ?_, rfl⟩
  show j.size + bytes.size = (Disk.overwrite j.disk.content j.size bytes).size
  rw [content, size, ByteArray.size_append]

theorem replaced {j after : Journal} (ok : j.replace rs = .ok after) :
    encodeAll rs = .ok after.disk.content ∧ after.size = after.disk.content.size ∧
      after.disk.blocked = j.disk.blocked := by
  unfold replace at ok
  split at ok
  · cases ok
  · obtain ⟨bytes, coded, ok⟩ := boundOk ok
    cases ok
    exact ⟨coded, rfl, rfl⟩

theorem appendHolds {j after : Journal} (h : j.Holds rs) (ok : j.append r = .ok after) (fits : r.NamesFit) :
    after.Holds (rs ++ [r]) := by
  obtain ⟨bytes, coded, content, size, _⟩ := appended h.size ok
  refine ⟨⟨?_, fun x mem => ?_⟩, size⟩
  · rw [content]
    exact encodeAllSnoc h.disk.written coded
  · rcases List.mem_append.mp mem with mem | mem
    · exact h.disk.fits x mem
    · cases List.mem_singleton.mp mem; exact fits

theorem replaceHolds {j after : Journal} (ok : j.replace rs = .ok after) (fits : ∀ r ∈ rs, r.NamesFit) :
    after.Holds rs := by
  obtain ⟨coded, size, _⟩ := replaced ok
  exact ⟨⟨coded, fits⟩, size⟩

theorem scannedFits {b : Bytes} {steps pos : Nat} : ∀ r ∈ (scan b steps pos).1, r.NamesFit := by
  induction steps generalizing pos with
  | zero => simp [scan]
  | succ steps ih =>
    rw [scan]
    split
    · split
      · rename_i r size read
        intro x mem
        rcases List.mem_cons.mp mem with rfl | mem
        · exact Record.decodedFits read
        · exact ih x mem
      · simp
    · simp

theorem foundFits (d : Disk) : ∀ r ∈ (openAt d).2.records, r.NamesFit := by
  intro r mem
  unfold openAt at mem
  exact scannedFits r mem

/-- A record that the journal accepts is read back whatever follows it, and by the next opening of the
journal with everything before it, exactly if the names of its tables fit in two bytes of length. -/
theorem acceptedReadBackIff (r : Record) :
    (∀ bytes, r.encode = .ok bytes →
      ((∀ rest, Record.decode (bytes ++ rest) = .ok (r, bytes.size)) ↔ r.NamesFit)) ∧
    ∀ (j after : Journal) (rs : List Record), j.Holds rs → j.append r = .ok after →
      ((openAt after.disk).2 = ⟨rs ++ [r], 0⟩ ↔ r.NamesFit) := by
  refine ⟨fun bytes ok => ⟨fun read => ?_, fun fits rest => ?_⟩, fun j after rs h ok => ⟨fun found => ?_, fun fits => ?_⟩⟩
  · exact Record.decodedFits (read .empty)
  · exact Record.decodeStanding ok fits (Bytes.standsSelf bytes rest)
  · have mem : r ∈ (openAt after.disk).2.records := by rw [found]; simp
    exact foundFits after.disk r mem
  · rw [openHeld (appendHolds h ok fits).disk]

def longName : (length : Nat) → String
  | 0 => ""
  | n + 1 => (longName n).push 'a'

theorem longNameSize (length : Nat) : (longName length).utf8ByteSize = length := by
  induction length with
  | zero => rfl
  | succ n ih =>
    have letter : Char.utf8Size 'a' = 1 := by decide
    rw [longName, String.utf8ByteSize_push, ih, letter]

theorem acceptedReadBackOfLongestName :
    let r : Record := ⟨7, [.put (longName 65535) .empty ⟨#[1]⟩, .delete "" .empty]⟩
    ∃ bytes after, r.encode = .ok bytes ∧ (⟨{}, 0⟩ : Journal).append r = .ok after ∧
      (∀ rest, Record.decode (bytes ++ rest) = .ok (r, bytes.size)) ∧ (openAt after.disk).2 = ⟨[r], 0⟩ := by
  -- The name stays a variable, for its letters would be unfolded one by one.
  have readBack (name : String) (size : name.utf8ByteSize = 65535) :
      let r : Record := ⟨7, [.put name .empty ⟨#[1]⟩, .delete "" .empty]⟩
      ∃ bytes after, r.encode = .ok bytes ∧ (⟨{}, 0⟩ : Journal).append r = .ok after ∧
        (∀ rest, Record.decode (bytes ++ rest) = .ok (r, bytes.size)) ∧ (openAt after.disk).2 = ⟨[r], 0⟩ := by
    intro r
    have fits : r.NamesFit := by simp [r, Record.NamesFit, Write.NameFits, Write.table, size]
    have small : 16 + Record.writesSize r.writes + checksumSize ≤ maxRecordSize := by
      simp only [r, Record.writesSize, Write.sizeEncoded, Write.encodedSize, size]
      decide
    obtain ⟨bytes, coded⟩ := (Record.encodeIff r).mpr small
    have appends : (⟨{}, 0⟩ : Journal).append r =
        .ok ⟨⟨some (Disk.overwrite .empty 0 bytes), false⟩, 0 + bytes.size⟩ := by
      rw [append, coded]
      rfl
    have empty : (⟨{}, 0⟩ : Journal).Holds [] := ⟨⟨rfl, by simp⟩, rfl⟩
    obtain ⟨alone, opened⟩ := acceptedReadBackIff r
    exact ⟨bytes, _, coded, appends, (alone bytes coded).mpr fits, (opened _ _ [] empty appends).mpr fits⟩
  exact readBack _ (longNameSize 65535)

theorem longerNameLost :
    let r : Record := ⟨1, [.put (longName 65536) .empty .empty]⟩
    ∃ bytes, r.encode = .ok bytes ∧ Record.decode bytes ≠ .ok (r, bytes.size) := by
  have lost (name : String) (size : name.utf8ByteSize = 65536) :
      let r : Record := ⟨1, [.put name .empty .empty]⟩
      ∃ bytes, r.encode = .ok bytes ∧ Record.decode bytes ≠ .ok (r, bytes.size) := by
    intro r
    have small : 16 + Record.writesSize r.writes + checksumSize ≤ maxRecordSize := by
      simp only [r, Record.writesSize, Write.sizeEncoded, Write.encodedSize, size]
      decide
    obtain ⟨bytes, coded⟩ := (Record.encodeIff r).mpr small
    refine ⟨bytes, coded, fun read => ?_⟩
    have fits : name.utf8ByteSize ≤ 65535 := Record.decodedFits read _ List.mem_cons_self
    omega
  exact lost _ (longNameSize 65536)

end Journal
end Teller
