import Mathlib.Algebra.GroupWithZero.Nat
import Teller.Proofs.Journal.Reading

/-! What opening saves of a journal whose file may hold anything. From the beginning of the file one record is
read after the other, up to the first place where none can be read. The cut file is read once more to the same
records and to its end. -/
namespace Teller
namespace Journal

/-- The records read one after the other from a place on, and the place where that comes to an end: the end of
the bytes, or the first place where no record can be read. -/
inductive Reads (b : Bytes) : (pos : Nat) → List Record → (stop : Nat) → Prop
  | ended {pos : Nat} (whole : pos = b.size) : Reads b pos [] pos
  | broken {pos : Nat} {cause : JournalError} (inside : pos < b.size)
      (fails : Record.decode (b.extract pos b.size) = .error cause) : Reads b pos [] pos
  | read {pos n stop : Nat} {r : Record} {rs : List Record} (inside : pos < b.size)
      (first : Record.decode (b.extract pos b.size) = .ok (r, n)) (later : Reads b (pos + n) rs stop) :
      Reads b pos (r :: rs) stop

namespace Reads
variable {b : Bytes} {pos stop last : Nat} {rs found : List Record}

theorem unique (reads : Reads b pos rs stop) (again : Reads b pos found last) : found = rs ∧ last = stop := by
  induction reads generalizing found with
  | ended whole =>
    cases again with
    | ended => exact ⟨rfl, rfl⟩
    | broken => exact ⟨rfl, rfl⟩
    | read inside => omega
  | broken inside fails =>
    cases again with
    | ended => exact ⟨rfl, rfl⟩
    | broken => exact ⟨rfl, rfl⟩
    | read again first =>
      rw [fails] at first
      cases first
  | read inside first later ih =>
    cases again with
    | ended => omega
    | broken again fails =>
      rw [first] at fails
      cases fails
    | read again other rest =>
      rw [first] at other
      cases other
      obtain ⟨rfl, rfl⟩ := ih rest
      exact ⟨rfl, rfl⟩

theorem stops (reads : Reads b pos rs stop) : stop = pos + (rs.map Record.size).sum := by
  induction reads with
  | ended => rfl
  | broken => rfl
  | read inside first later ih =>
    rw [← Record.decodeRest] at first
    rw [ih, Record.decodedSize first, List.map_cons, List.sum_cons, Nat.add_assoc]

theorem within (reads : Reads b pos rs stop) : stop ≤ b.size := by
  induction reads with
  | ended whole => exact Nat.le_of_eq whole
  | broken inside => exact Nat.le_of_lt inside
  | read inside first later ih => exact ih

theorem cut (reads : Reads b pos rs stop) : Reads (b.extract 0 stop) pos rs stop := by
  have whole := reads.within
  have size : (b.extract 0 stop).size = stop := by
    rw [ByteArray.size_extract, Nat.min_eq_left whole, Nat.sub_zero]
  induction reads with
  | ended => exact .ended size.symm
  | broken => exact .ended size.symm
  | @read pos n stop r rs inside first later ih =>
    rw [← Record.decodeRest] at first
    obtain ⟨long, room⟩ := Record.decodedRoom first
    have most : pos + n ≤ stop := by
      rw [later.stops]
      exact Nat.le_add_right _ _
    have same : b.extract pos (pos + n) = (b.extract 0 stop).extract pos (pos + n) := by
      rw [ByteArray.extract_extract, Nat.zero_add, Nat.zero_add, Nat.min_eq_left most]
    have front := Record.decodedAlike first same (by omega)
    rw [Record.decodeRest] at front
    have minimum : headerSize + checksumSize = 20 := rfl
    exact .read (by omega) front (ih whole size)

theorem written {front all back : Bytes} {own : List Record} (coded : encodeAll own = .ok all)
    (fits : ∀ r ∈ own, r.NamesFit) (text : b = front ++ all ++ back) (reads : Reads b front.size rs stop) :
    own <+: rs := by
  induction own generalizing front all rs with
  | nil => exact List.nil_prefix
  | cons r own ih =>
    obtain ⟨first, later, head, tail, rfl⟩ := encodeAllCons coded
    have split : b = front ++ first ++ (later ++ back) := by rw [text]; simp only [ByteArray.append_assoc]
    have here := Record.decodeStanding head (fits r List.mem_cons_self) ⟨front, later ++ back, split, rfl⟩
    obtain ⟨long, room⟩ := Record.decodedRoom here
    rw [Record.decodeRest] at here
    cases reads with
    | ended whole =>
      have minimum : headerSize + checksumSize = 20 := rfl
      omega
    | broken inside fails =>
      rw [here] at fails
      cases fails
    | read inside found rest =>
      rw [here] at found
      cases found
      rw [← ByteArray.size_append] at rest
      rw [← ByteArray.append_assoc] at split
      exact List.cons_prefix_cons.mpr ⟨rfl, ih tail (fun x mem => fits x (List.mem_cons_of_mem _ mem)) split rest⟩

end Reads

theorem scanReads {b : Bytes} {steps pos : Nat} (inside : pos ≤ b.size)
    (enough : b.size - pos < steps * (headerSize + checksumSize)) :
    Reads b pos (scan b steps pos).1 (scan b steps pos).2 := by
  induction steps generalizing pos with
  | zero => omega
  | succ steps ih =>
    rw [scan]
    split
    · rename_i before
      cases here : Record.decodeAt b pos with
      | error cause =>
        rw [Record.decodeRest] at here
        exact .broken before here
      | ok found =>
        obtain ⟨long, room⟩ := Record.decodedRoom here
        rw [Record.decodeRest] at here
        rw [Nat.succ_mul] at enough
        exact .read before here (ih room (by omega))
    · exact .ended (by omega)

theorem stepsEnough (size : Nat) :
    size < (size / (headerSize + checksumSize) + 1) * (headerSize + checksumSize) := by
  simp only [headerSize, checksumSize]
  omega

theorem openReads (d : Disk) : Reads d.content 0 (openAt d).2.records (openAt d).1.size :=
  scanReads (Nat.zero_le _) (stepsEnough _)

theorem openedByReading {d : Disk} {rs : List Record} {stop : Nat} (reads : Reads d.content 0 rs stop) :
    openAt d = (⟨{ d with file := some (d.content.extract 0 stop) }, stop⟩, ⟨rs, d.content.size - stop⟩) := by
  obtain ⟨rfl, rfl⟩ := reads.unique (openReads d)
  rfl

theorem openAgain {d : Disk} {rs : List Record} {stop : Nat} (reads : Reads d.content 0 rs stop) :
    openAt (openAt d).1.disk = ((openAt d).1, ⟨rs, 0⟩) := by
  have size : (d.content.extract 0 stop).size = stop := by
    rw [ByteArray.size_extract, Nat.min_eq_left reads.within, Nat.sub_zero]
  have whole : (d.content.extract 0 stop).extract 0 (d.content.extract 0 stop).size = d.content.extract 0 stop :=
    ByteArray.extract_zero_size
  have second := openedByReading (d := { d with file := some (d.content.extract 0 stop) }) reads.cut
  simp only [Disk.content, Option.getD_some] at second size whole
  rw [size] at whole
  rw [openedByReading reads]
  simpa only [Disk.content, whole, size, Nat.sub_self] using second

namespace Careful

def scan (b : Bytes) (steps pos : Nat) : Option (List Record × Nat) :=
  if pos < b.size then
    match steps with
    | 0 => none
    | steps + 1 => do
        match ← decodeAt b pos with
        | .ok (r, size) =>
            let (rest, stop) ← scan b steps (pos + size)
            return (r :: rest, stop)
        | .error _ => return ([], pos)
  else return ([], pos)

def openAt (disk : Disk) : Option (Journal × Replay) := do
  let content := disk.content
  let (records, stop) ← scan content (content.size / (headerSize + checksumSize) + 1) 0
  let truncated ← content.size.psub stop
  return (⟨{ disk with file := some (content.extract 0 stop) }, stop⟩, ⟨records, truncated⟩)

theorem scanWithin {b : Bytes} {steps pos : Nat} (inside : pos ≤ b.size)
    (enough : b.size - pos < steps * (headerSize + checksumSize)) : scan b steps pos = some (Journal.scan b steps pos) := by
  induction steps generalizing pos with
  | zero => omega
  | succ steps ih =>
    rw [scan, Journal.scan]
    split
    · rw [decodeAtWithin inside]
      cases here : Record.decodeAt b pos with
      | error cause => rfl
      | ok found =>
        obtain ⟨long, room⟩ := Record.decodedRoom here
        rw [Nat.succ_mul] at enough
        have later := ih room (by omega)
        simp only [ofExcept, ExceptT.mk, bind, Option.bind, later]
        rfl
    · rfl

theorem openWithin (d : Disk) : openAt d = some (Journal.openAt d) := by
  have scanned := scanWithin (b := d.content) (Nat.zero_le _) (stepsEnough _)
  have stops : (Journal.scan d.content (d.content.size / (headerSize + checksumSize) + 1) 0).2 ≤ d.content.size :=
    (openReads d).within
  rw [Nat.sub_zero] at scanned
  simp only [openAt, scanned, Nat.psub_eq_sub stops, bind, Option.bind]
  rfl

end Careful

/-- Whatever a journal's file holds, opening it does not break off, and keeps the records that are read from the
beginning of the file and the bytes they take. Opening it once more finds the same and cuts nothing off. Records
that were written at the beginning are kept, whatever stands behind them. -/
theorem openSalvages (d : Disk) :
    Careful.openAt d = some (openAt d) ∧
    ∃ rs stop, (∀ found last, Reads d.content 0 found last ↔ found = rs ∧ last = stop) ∧
      stop = (rs.map Record.size).sum ∧ stop ≤ d.content.size ∧
      openAt d = (⟨{ d with file := some (d.content.extract 0 stop) }, stop⟩, ⟨rs, d.content.size - stop⟩) ∧
      openAt (openAt d).1.disk = ((openAt d).1, ⟨rs, 0⟩) ∧
      ∀ own all back, encodeAll own = .ok all → (∀ r ∈ own, r.NamesFit) → d.content = all ++ back → own <+: rs := by
  refine ⟨Careful.openWithin d, (openAt d).2.records, (openAt d).1.size, fun found last => ⟨fun again => ?_, ?_⟩, ?_⟩
  · exact (openReads d).unique again
  · rintro ⟨rfl, rfl⟩
    exact openReads d
  have reads := openReads d
  have first := openedByReading reads
  refine ⟨?_, reads.within, first, openAgain reads, fun own all back coded fits text => ?_⟩
  · rw [reads.stops, Nat.zero_add]
  · have text : d.content = .empty ++ all ++ back := by rw [text, ByteArray.empty_append]
    exact reads.written coded fits text

theorem openSalvagesBeforeTear :
    let r : Record := ⟨7, []⟩
    let bytes : Bytes := ⟨#[20, 0, 0, 0, 7, 0, 0, 0, 0, 0, 0, 0, 0, 0, 0, 0, 195, 208, 53, 170]⟩
    let d : Disk := ⟨some (bytes ++ bytes.extract 0 3), false⟩
    encodeAll [r] = .ok bytes ∧ [r] <+: (openAt d).2.records ∧ openAt d = (⟨⟨some bytes, false⟩, 20⟩, ⟨[r], 3⟩) := by
  intro r bytes d
  have coded : r.encode = .ok bytes := by decide +kernel
  have all : encodeAll [r] = .ok bytes := by rw [encodeAllJoins coded rfl, ByteArray.append_empty]
  have fits : ∀ x ∈ [r], x.NamesFit := by decide
  obtain ⟨-, rs, stop, -, -, -, opened, -, written⟩ := openSalvages d
  have held : Disk.Holds ⟨some bytes, false⟩ [r] := ⟨all, fits⟩
  refine ⟨all, ?_, openTorn held coded (by decide) rfl⟩
  rw [opened]
  exact written [r] bytes _ all fits rfl

end Journal
end Teller
