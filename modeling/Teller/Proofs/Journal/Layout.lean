import Mathlib.Algebra.Group.Nat.Defs
import Teller.Proofs.Commit

/-! A record is read back from its bytes, whatever stands before and behind them. Only a table's name can
be too long for that: its length has two bytes, and no record that is read has a longer name. -/
namespace Teller

namespace Bytes

def Stands (b : Bytes) (pos : Nat) (part : Bytes) : Prop :=
  ∃ before after, b = before ++ part ++ after ∧ before.size = pos

variable {b part more : Bytes} {pos : Nat}

theorem standsSize (h : b.Stands pos part) : pos + part.size ≤ b.size := by
  obtain ⟨before, after, rfl, rfl⟩ := h
  simp only [ByteArray.size_append]
  omega

theorem standsExtract (h : b.Stands pos part) : b.extract pos (pos + part.size) = part := by
  obtain ⟨before, after, rfl, rfl⟩ := h
  rw [ByteArray.append_assoc, ← Nat.add_zero before.size, Nat.add_assoc,
    ByteArray.extract_append_size_add, Nat.zero_add]
  exact ByteArray.extract_append_eq_left rfl

theorem standsSplit (h : b.Stands pos (part ++ more)) : b.Stands pos part ∧ b.Stands (pos + part.size) more := by
  obtain ⟨before, after, rfl, rfl⟩ := h
  constructor
  · exact ⟨before, more ++ after, by simp only [ByteArray.append_assoc], rfl⟩
  · exact ⟨before ++ part, after, by simp only [ByteArray.append_assoc], ByteArray.size_append⟩

theorem standsSelf (part more : Bytes) : (part ++ more).Stands 0 part :=
  ⟨.empty, more, by rw [ByteArray.empty_append], rfl⟩

theorem standsExtracted {stop : Nat} (order : pos ≤ stop) (inside : stop ≤ b.size) :
    b.Stands pos (b.extract pos stop) := by
  refine ⟨b.extract 0 pos, b.extract stop b.size, ?_, ?_⟩
  · rw [← ByteArray.extract_eq_extract_append_extract pos (Nat.zero_le pos) order,
      ← ByteArray.extract_eq_extract_append_extract stop (Nat.zero_le stop) inside, ByteArray.extract_zero_size]
  · rw [ByteArray.size_extract]
    omega

theorem standsJoin (first : b.Stands pos part) (second : b.Stands (pos + part.size) more) :
    b.Stands pos (part ++ more) := by
  have inside := standsSize second
  have both : b.extract pos (pos + part.size + more.size) = part ++ more := by
    rw [ByteArray.extract_eq_extract_append_extract (pos + part.size) (by omega) (by omega), standsExtract first,
      standsExtract second]
  rw [← both]
  exact standsExtracted (by omega) inside

theorem natOfDigits (width n : Nat) :
    natOfLittleEndian ((List.range width).map fun i => (n >>> (8 * i)).toUInt8) = n % 256 ^ width := by
  induction width generalizing n with
  | zero => simp [natOfLittleEndian, Nat.mod_one]
  | succ width ih =>
    have later : (List.range width).map (fun i => (n >>> (8 * (i + 1))).toUInt8) =
        (List.range width).map fun i => ((n / 256) >>> (8 * i)).toUInt8 := by
      refine List.map_congr_left fun i _ => ?_
      rw [show 256 = 2 ^ 8 by rfl, ← Nat.shiftRight_eq_div_pow, ← Nat.shiftRight_add,
        Nat.mul_add, Nat.add_comm]
    rw [List.range_succ_eq_map, List.map_cons, List.map_map, natOfLittleEndian]
    simp only [Function.comp_def, Nat.succ_eq_add_one]
    rw [later, ih, Nat.pow_succ', Nat.mod_mul]
    simp

theorem toNatLittleEndian {width n : Nat} (fits : n < 256 ^ width) : toNat (littleEndian width n) = n := by
  rw [toNat, littleEndian, List.toList_toArray, natOfDigits, Nat.mod_eq_of_lt fits]

theorem digitsOfNat (l : List UInt8) :
    ((List.range l.length).map fun i => (natOfLittleEndian l >>> (8 * i)).toUInt8) = l := by
  induction l with
  | nil => rfl
  | cons x l ih =>
    have room := x.toNat_lt
    have first : (natOfLittleEndian (x :: l) >>> 0).toUInt8 = x := by
      rw [natOfLittleEndian, Nat.shiftRight_zero, ← UInt8.toNat_inj]
      simp
    have later : (List.range l.length).map (fun i => (natOfLittleEndian (x :: l) >>> (8 * (i + 1))).toUInt8) =
        (List.range l.length).map fun i => (natOfLittleEndian l >>> (8 * i)).toUInt8 := by
      refine List.map_congr_left fun i _ => ?_
      have behind : natOfLittleEndian (x :: l) >>> 8 = natOfLittleEndian l := by
        rw [natOfLittleEndian, Nat.shiftRight_eq_div_pow]
        omega
      rw [Nat.mul_add, Nat.add_comm, Nat.shiftRight_add, Nat.mul_one, behind]
    rw [List.length_cons, List.range_succ_eq_map, List.map_cons, List.map_map]
    simp only [Function.comp_def, Nat.succ_eq_add_one, Nat.mul_zero]
    rw [later, first, ih]

theorem littleEndianToNat (b : Bytes) : littleEndian b.size b.toNat = b := by
  have digits := digitsOfNat b.data.toList
  rw [Array.length_toList] at digits
  exact congrArg (fun l => (⟨l.toArray⟩ : Bytes)) digits

theorem toNatLt (b : Bytes) : b.toNat < 256 ^ b.size := by
  have bound (l : List UInt8) : natOfLittleEndian l < 256 ^ l.length := by
    induction l with
    | nil => decide
    | cons x l ih =>
      have := x.toNat_lt
      rw [natOfLittleEndian, List.length_cons, Nat.pow_succ]
      omega
  exact bound b.data.toList

end Bytes

namespace Journal
open Bytes (Stands)
variable {b part : Bytes} {pos : Nat}

theorem takeStanding (h : b.Stands pos part) : take b pos part.size = .ok (part, pos + part.size) := by
  rw [take, if_pos (Bytes.standsSize h), Bytes.standsExtract h]

theorem takeSizedStanding {width : Nat} (fits : part.size < 256 ^ width)
    (h : b.Stands pos (Bytes.littleEndian width part.size ++ part)) :
    takeSized width b pos = .ok (part, pos + (Bytes.littleEndian width part.size ++ part).size) := by
  obtain ⟨size, rest⟩ := Bytes.standsSplit h
  have first := takeStanding size
  have second := takeStanding rest
  rw [Bytes.littleEndianSize] at first second
  simp only [takeSized, first, bind, Except.bind, Bytes.toNatLittleEndian fits, second]
  rw [ByteArray.size_append, Bytes.littleEndianSize, Nat.add_assoc]

theorem takeEnds {n stop : Nat} {found : Bytes} (ok : take b pos n = .ok (found, stop)) : found.size = n := by
  unfold take at ok
  split at ok
  · cases ok
    rw [ByteArray.size_extract]
    omega
  · cases ok

theorem takeStops {n stop : Nat} {found : Bytes} (ok : take b pos n = .ok (found, stop)) : stop = pos + n := by
  unfold take at ok
  split at ok
  · cases ok
    rfl
  · cases ok

theorem takeSizedStops {width stop : Nat} {found : Bytes} (ok : takeSized width b pos = .ok (found, stop)) :
    stop = pos + width + found.size := by
  obtain ⟨⟨size, next⟩, first, ok⟩ := boundOk ok
  rw [takeStops ok, takeStops first, takeEnds ok]

theorem takeSizedEnds {width stop : Nat} {found : Bytes} (ok : takeSized width b pos = .ok (found, stop)) :
    found.size < 256 ^ width := by
  obtain ⟨⟨size, next⟩, first, ok⟩ := boundOk ok
  rw [takeEnds ok, ← takeEnds first]
  exact Bytes.toNatLt size

namespace Write

def NameFits (w : Write) : Prop := w.table.utf8ByteSize ≤ 65535

instance (w : Write) : Decidable w.NameFits := inferInstanceAs (Decidable (_ ≤ _))

theorem nameSize (s : String) : (Bytes.ofText s).size = s.utf8ByteSize := rfl

theorem tagSize (tag : UInt8) : ByteArray.size ⟨#[tag]⟩ = 1 := rfl

theorem sizeEncoded (w : Write) : w.encode.size = w.encodedSize := by
  cases w with
  | put table key value =>
    simp only [encode, encodeRow, ByteArray.size_append, Bytes.littleEndianSize, nameSize, tagSize, encodedSize,
      Nat.add_assoc]
  | delete table key =>
    simp only [encode, encodeRow, ByteArray.size_append, Bytes.littleEndianSize, nameSize, tagSize, encodedSize]

theorem toTextOfText (s : String) : Bytes.toText? (Bytes.ofText s) = some s := dif_pos s.isValidUTF8

theorem rowStanding {tag : UInt8} {table : String} {key : Bytes} (fits : table.utf8ByteSize ≤ 65535)
    (room : key.size < 256 ^ 4) (h : b.Stands pos (encodeRow tag table key)) :
    ∃ p q, take b pos 1 = .ok (⟨#[tag]⟩, p) ∧ takeSized 2 b p = .ok (Bytes.ofText table, q) ∧
      takeSized 4 b q = .ok (key, pos + (encodeRow tag table key).size) := by
  have parts : encodeRow tag table key = ⟨#[tag]⟩ ++ ((Bytes.littleEndian 2 (Bytes.ofText table).size ++
      Bytes.ofText table) ++ (Bytes.littleEndian 4 key.size ++ key)) := by
    simp only [encodeRow, nameSize, ByteArray.append_assoc]
  rw [parts] at h
  obtain ⟨first, h⟩ := Bytes.standsSplit h
  obtain ⟨name, last⟩ := Bytes.standsSplit h
  have short : (Bytes.ofText table).size < 256 ^ 2 := by rw [nameSize]; omega
  refine ⟨_, _, takeStanding first, takeSizedStanding short name, ?_⟩
  rw [takeSizedStanding room last, parts]
  simp only [ByteArray.size_append, Nat.add_assoc]

theorem decodeStanding {w : Write} (fits : w.NameFits) (room : w.encode.size < 256 ^ 4)
    (h : b.Stands pos w.encode) : decode b pos = .ok (w, pos + w.encode.size) := by
  have tagged (tag : UInt8) : (Bytes.toNat ⟨#[tag]⟩).toUInt8 = tag := by
    simp [Bytes.toNat, Bytes.natOfLittleEndian]
  rw [sizeEncoded] at room
  cases w with
  | put table key value =>
    have parts : encode (put table key value) =
        encodeRow putTag table key ++ (Bytes.littleEndian 4 value.size ++ value) := by
      simp only [encode, ByteArray.append_assoc]
    rw [parts] at h
    simp only [encodedSize] at room
    obtain ⟨row, last⟩ := Bytes.standsSplit h
    have short : table.utf8ByteSize ≤ 65535 := fits
    obtain ⟨p, q, first, name, key⟩ := rowStanding short (by omega) row
    have last := takeSizedStanding (by omega) last
    simp only [decode, first, name, key, last, bind, Except.bind, tagged, toTextOfText, if_true, pure, Except.pure]
    rw [parts, ByteArray.size_append (a := encodeRow putTag table _), Nat.add_assoc]
  | delete table key =>
    simp only [encodedSize] at room
    have short : table.utf8ByteSize ≤ 65535 := fits
    obtain ⟨p, q, first, name, key⟩ := rowStanding short (by omega) h
    simp only [decode, first, name, key, bind, Except.bind, tagged, toTextOfText,
      show ¬ deleteTag = putTag by decide, if_true, if_false, pure, Except.pure]
    rfl

theorem lettersOfText {letters : Bytes} {table : String} (text : Bytes.toText? letters = some table) :
    letters = Bytes.ofText table := by
  simp only [Bytes.toText?, String.fromUTF8?] at text
  split at text
  · cases text
    rfl
  · cases text

theorem decodedParts {w : Write} {stop : Nat} (ok : decode b pos = .ok (w, stop)) :
    ∃ tag past behind, take b pos 1 = .ok (tag, pos + 1) ∧
      takeSized 2 b (pos + 1) = .ok (Bytes.ofText w.table, past) ∧ takeSized 4 b past = .ok (w.key, behind) ∧
      ((∃ value, tag.toNat.toUInt8 = putTag ∧ w = .put w.table w.key value ∧ takeSized 4 b behind = .ok (value, stop)) ∨
        tag.toNat.toUInt8 = deleteTag ∧ w = .delete w.table w.key ∧ stop = behind) := by
  unfold decode at ok
  obtain ⟨⟨tag, next⟩, first, ok⟩ := boundOk ok
  obtain rfl := takeStops first
  obtain ⟨⟨letters, past⟩, name, ok⟩ := boundOk ok
  dsimp only at ok
  split at ok
  · rename_i table text
    obtain rfl := lettersOfText text
    obtain ⟨⟨key, behind⟩, keyed, ok⟩ := boundOk ok
    dsimp only at ok
    split at ok
    · rename_i puts
      obtain ⟨⟨value, last⟩, valued, ok⟩ := boundOk ok
      cases ok
      exact ⟨tag, past, behind, first, name, keyed, .inl ⟨value, puts, rfl, valued⟩⟩
    · split at ok
      · rename_i deletes
        cases ok
        exact ⟨tag, past, _, first, name, keyed, .inr ⟨deletes, rfl, rfl⟩⟩
      · cases ok
  · cases ok

theorem decodedNameFits {w : Write} {stop : Nat} (ok : decode b pos = .ok (w, stop)) : w.NameFits := by
  obtain ⟨tag, past, behind, first, name, -⟩ := decodedParts ok
  have short : (Bytes.ofText w.table).size < 256 ^ 2 := takeSizedEnds name
  exact Nat.le_of_lt_succ short

theorem decodedSize {w : Write} {stop : Nat} (ok : decode b pos = .ok (w, stop)) : stop = pos + w.encode.size := by
  obtain ⟨tag, past, behind, first, name, key, rest⟩ := decodedParts ok
  have passed := takeSizedStops name
  have beyond := takeSizedStops key
  rw [nameSize] at passed
  rw [sizeEncoded]
  rcases rest with ⟨value, -, isPut, taken⟩ | ⟨-, isDelete, ended⟩
  · have ends := takeSizedStops taken
    rw [isPut, encodedSize]
    omega
  · rw [isDelete, encodedSize]
    omega

end Write

theorem decodedNamesFit {n stop : Nat} {ws : List Write} (ok : decodeWrites b n pos = .ok (ws, stop)) :
    ∀ w ∈ ws, w.NameFits := by
  induction n generalizing pos ws stop with
  | zero => cases ok; simp
  | succ n ih =>
    rw [decodeWrites] at ok
    obtain ⟨⟨head, next⟩, first, ok⟩ := boundOk ok
    obtain ⟨⟨rest, last⟩, later, ok⟩ := boundOk ok
    cases ok
    intro w mem
    rcases List.mem_cons.mp mem with rfl | mem
    · exact Write.decodedNameFits first
    · exact ih later w mem

theorem decodedWritesSize {n stop : Nat} {ws : List Write} (ok : decodeWrites b n pos = .ok (ws, stop)) :
    stop = pos + Record.writesSize ws := by
  induction n generalizing pos ws stop with
  | zero => cases ok; rfl
  | succ n ih =>
    rw [decodeWrites] at ok
    obtain ⟨⟨head, next⟩, first, ok⟩ := boundOk ok
    obtain ⟨⟨rest, last⟩, later, ok⟩ := boundOk ok
    cases ok
    rw [ih later, Write.decodedSize first, Record.writesSize, Nat.add_assoc]

namespace Record

def NamesFit (r : Record) : Prop := ∀ w ∈ r.writes, w.NameFits

instance (r : Record) : Decidable r.NamesFit := inferInstanceAs (Decidable (∀ _ ∈ _, _))

def encodeWrites : List Write → Bytes
  | [] => .empty
  | w :: ws => w.encode ++ encodeWrites ws

theorem sizeWrites (ws : List Write) : (encodeWrites ws).size = writesSize ws := by
  induction ws with
  | nil => rfl
  | cons w ws ih => rw [encodeWrites, ByteArray.size_append, ih, writesSize]

theorem foldWrites (ws : List Write) (front : Bytes) :
    ws.foldl (fun b w => b ++ w.encode) front = front ++ encodeWrites ws := by
  induction ws generalizing front with
  | nil => exact ByteArray.append_empty.symm
  | cons w ws ih => rw [List.foldl_cons, ih, encodeWrites, ByteArray.append_assoc]

theorem writesStanding {ws : List Write} (fits : ∀ w ∈ ws, w.NameFits) (room : writesSize ws < 256 ^ 4)
    (h : b.Stands pos (encodeWrites ws)) :
    decodeWrites b ws.length pos = .ok (ws, pos + (encodeWrites ws).size) := by
  induction ws generalizing pos with
  | nil => rfl
  | cons w ws ih =>
    rw [encodeWrites] at h
    rw [writesSize] at room
    obtain ⟨first, later⟩ := Bytes.standsSplit h
    have first := Write.decodeStanding (fits w List.mem_cons_self) (by omega) first
    have later := ih (fun x mem => fits x (List.mem_cons_of_mem _ mem)) (by omega) later
    simp only [List.length_cons, decodeWrites, first, later, bind, Except.bind, pure, Except.pure]
    rw [encodeWrites, ByteArray.size_append (a := w.encode), Nat.add_assoc]

theorem countWrites (ws : List Write) : ws.length ≤ writesSize ws := by
  induction ws with
  | nil => exact Nat.le_refl 0
  | cons w ws ih =>
    have size : 1 ≤ w.encode.size := by
      rw [Write.sizeEncoded]
      cases w <;> simp only [Write.encodedSize] <;> omega
    rw [List.length_cons, writesSize]
    omega

def covered (r : Record) : Bytes :=
  Bytes.littleEndian 4 (4 + r.body.size + checksumSize) ++
    (Bytes.littleEndian 8 r.txnId.toNat ++ (Bytes.littleEndian 4 r.writes.length ++ encodeWrites r.writes))

theorem encodeParts {r : Record} {bytes : Bytes} (ok : r.encode = .ok bytes) :
    bytes = r.covered ++ Bytes.littleEndian 4 (Checksum.ofBytes r.covered).toNat ∧
      bytes.size = 16 + writesSize r.writes + checksumSize ∧ bytes.size ≤ maxRecordSize ∧
      r.covered.size = 16 + writesSize r.writes := by
  have body : r.body = Bytes.littleEndian 8 r.txnId.toNat ++
      (Bytes.littleEndian 4 r.writes.length ++ encodeWrites r.writes) := by
    rw [Record.body, foldWrites, ByteArray.append_assoc]
  have size : r.covered.size = 16 + writesSize r.writes := by
    simp only [covered, ByteArray.size_append, Bytes.littleEndianSize, sizeWrites]
    omega
  unfold encode at ok
  simp only at ok
  split at ok
  · cases ok
  · rename_i room
    have same : Bytes.littleEndian 4 (4 + r.body.size + checksumSize) ++ r.body = r.covered := by
      rw [covered, ← body]
    rw [same] at ok
    cases ok
    rw [bodySize] at room
    refine ⟨rfl, ?_, ?_, size⟩
    · rw [ByteArray.size_append, Bytes.littleEndianSize, size]; rfl
    · rw [ByteArray.size_append, Bytes.littleEndianSize, size]
      simp only [checksumSize] at room
      omega

def size (r : Record) : Nat := headerSize + writesSize r.writes + checksumSize

def Fits (r : Record) : Prop := r.size ≤ maxRecordSize

instance (r : Record) : Decidable r.Fits := inferInstanceAs (Decidable (_ ≤ _))

theorem fitsOfEncoded {r : Record} {bytes : Bytes} (ok : r.encode = .ok bytes) : r.Fits :=
  (encodeIff r).mp ⟨bytes, ok⟩

theorem encodeFits {r : Record} (fits : r.Fits) : ∃ bytes, r.encode = .ok bytes ∧ bytes.size = r.size := by
  obtain ⟨bytes, ok⟩ := (encodeIff r).mpr fits
  exact ⟨bytes, ok, (encodeParts ok).2.1⟩

theorem encodeTooLarge {r : Record} (large : ¬ r.Fits) : r.encode = .error (.tooLarge r.size) := by
  have whole : 4 + r.body.size + checksumSize = r.size := by
    rw [bodySize, size, headerSize]
    omega
  unfold encode
  simp only [whole]
  exact if_pos (Nat.lt_of_not_le large)

theorem decodeStanding {r : Record} {bytes : Bytes} (ok : r.encode = .ok bytes) (fits : r.NamesFit)
    (h : b.Stands pos bytes) : decodeAt b pos = .ok (r, bytes.size) := by
  obtain ⟨parts, size, room, coveredSize⟩ := encodeParts ok
  have limit : maxRecordSize < 256 ^ 4 := by decide
  have fitsBehind := Bytes.standsSize h
  rw [parts] at h
  obtain ⟨cover, check⟩ := Bytes.standsSplit h
  have length : b.extract pos (pos + 4) = Bytes.littleEndian 4 bytes.size := by
    have here := (Bytes.standsSplit cover).1
    have found := Bytes.standsExtract here
    rw [Bytes.littleEndianSize] at found
    rw [found, bodySize, size]
    congr 1
    omega
  have coveredFound : b.extract pos (pos + bytes.size - checksumSize) = r.covered := by
    rw [← Bytes.standsExtract cover, coveredSize, size]
    congr 1
  have checkFound : b.extract (pos + bytes.size - checksumSize) (pos + bytes.size) =
      Bytes.littleEndian 4 (Checksum.ofBytes r.covered).toNat := by
    rw [← Bytes.standsExtract check, Bytes.littleEndianSize, coveredSize, size]
    congr 1
  have inside : r.covered.Stands 0 r.covered := ⟨.empty, .empty, by simp, rfl⟩
  obtain ⟨_, inside⟩ := Bytes.standsSplit (show Stands r.covered 0 (Bytes.littleEndian 4 _ ++ _) from inside)
  obtain ⟨idHere, inside⟩ := Bytes.standsSplit inside
  obtain ⟨countHere, writesHere⟩ := Bytes.standsSplit inside
  simp only [Bytes.littleEndianSize, Nat.zero_add, Nat.reduceAdd] at idHere countHere writesHere
  have idFound := Bytes.standsExtract idHere
  have countFound := Bytes.standsExtract countHere
  rw [Bytes.littleEndianSize] at idFound countFound
  have writesFound := writesStanding fits (by omega) writesHere
  have count := countWrites r.writes
  have sum := (Checksum.ofBytes r.covered).toNat_lt
  have id := r.txnId.toNat_lt
  have limits : headerSize + checksumSize ≤ bytes.size := by rw [size]; simp only [headerSize]; omega
  have sumBack : (Checksum.ofBytes r.covered).toNat.toUInt32 = Checksum.ofBytes r.covered := by simp
  have idBack : r.txnId.toNat.toUInt64 = r.txnId := by simp
  unfold decodeAt
  simp only [length, Bytes.toNatLittleEndian (show bytes.size < 256 ^ 4 by omega), coveredFound, checkFound,
    Bytes.toNatLittleEndian (show (Checksum.ofBytes r.covered).toNat < 256 ^ 4 by omega), idFound, countFound,
    Bytes.toNatLittleEndian (show r.txnId.toNat < 256 ^ 8 by omega), idBack, sumBack,
    Bytes.toNatLittleEndian (show r.writes.length < 256 ^ 4 by omega), headerSize, writesFound]
  simp only [headerSize] at limits
  rw [if_neg (by omega), if_neg (by omega), if_neg (by simp)]
  simp only [bind, Except.bind]
  rw [if_neg (by rw [sizeWrites, coveredSize]; simp)]
  rfl

theorem decodedParts {r : Record} {size : Nat} (ok : decodeAt b pos = .ok (r, size)) :
    headerSize + checksumSize ≤ size ∧ pos + size ≤ b.size ∧ size = Bytes.toNat (b.extract pos (pos + 4)) ∧
      ∃ inside count, inside.size = size - checksumSize ∧
        decodeWrites inside count headerSize = .ok (r.writes, inside.size) := by
  unfold decodeAt at ok
  simp only [bind, Except.bind] at ok
  split at ok
  · cases ok
  rename_i long
  split at ok
  · cases ok
  rename_i room
  split at ok
  · cases ok
  split at ok
  · cases ok
  rename_i found read
  obtain ⟨writes, stop⟩ := found
  split at ok
  · cases ok
  rename_i ended
  simp only [pure, Except.pure, Except.ok.injEq, Prod.mk.injEq] at ok
  obtain ⟨rfl, rfl⟩ := ok
  obtain rfl : stop = _ := Decidable.not_not.mp ended
  have minimum : headerSize + checksumSize = 20 := rfl
  refine ⟨by omega, by omega, rfl, _, _, ?_, read⟩
  rw [ByteArray.size_extract]
  omega

theorem decodedFits {r : Record} {size : Nat} (ok : decodeAt b pos = .ok (r, size)) : r.NamesFit := by
  obtain ⟨_, _, _, inside, count, _, read⟩ := decodedParts ok
  exact decodedNamesFit read

theorem decodedSize {r : Record} {n : Nat} (ok : decodeAt b pos = .ok (r, n)) : n = r.size := by
  obtain ⟨long, _, _, inside, count, length, read⟩ := decodedParts ok
  have ends := decodedWritesSize read
  rw [size]
  omega

theorem decodeTorn {r : Record} {bytes front : Bytes} {k : Nat} (ok : r.encode = .ok bytes) (torn : k < bytes.size) :
    decodeAt (front ++ bytes.extract 0 k) front.size = .error .corrupt := by
  obtain ⟨parts, size, room, coveredSize⟩ := encodeParts ok
  have left : (front ++ bytes.extract 0 k).size - front.size = k := by
    rw [ByteArray.size_append, ByteArray.size_extract]
    omega
  unfold decodeAt
  simp only [left]
  split
  · rfl
  · rename_i long
    have begins : Stands (bytes.extract 0 k) 0 (Bytes.littleEndian 4 (4 + r.body.size + checksumSize)) := by
      simp only [headerSize, checksumSize] at long
      refine ⟨.empty, (bytes.extract 4 k), ?_, rfl⟩
      have first : bytes.extract 0 4 = Bytes.littleEndian 4 (4 + r.body.size + checksumSize) := by
        rw [parts, covered, ByteArray.append_assoc]
        exact ByteArray.extract_append_eq_left (by rw [Bytes.littleEndianSize])
      rw [ByteArray.empty_append, ← first]
      exact ByteArray.extract_eq_extract_append_extract 4 (Nat.zero_le 4) (by omega)
    have length : (front ++ bytes.extract 0 k).extract front.size (front.size + 4) =
        Bytes.littleEndian 4 (4 + r.body.size + checksumSize) := by
      have found := Bytes.standsExtract begins
      rw [Bytes.littleEndianSize, Nat.zero_add] at found
      rw [← found, ← Nat.add_zero front.size, Nat.add_assoc, ByteArray.extract_append_size_add, Nat.zero_add]
    have limit : maxRecordSize < 256 ^ 4 := by decide
    rw [length, Bytes.toNatLittleEndian (by rw [bodySize]; omega), if_pos (.inr (by rw [bodySize]; omega))]
    rfl

end Record
end Journal
end Teller
