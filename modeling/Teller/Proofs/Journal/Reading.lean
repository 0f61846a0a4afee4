import Mathlib.Data.Nat.PSub
import Teller.Proofs.Journal.Recovery

/-! Reading a record depends on its own bytes alone, and never reaches outside of the bytes there are. For that
a careful reader breaks off where a part lies outside the bytes or a difference falls below zero; it never does,
and finds what the reader finds. -/
namespace Teller

namespace Bytes
variable {b c : Bytes} {pos start n i j : Nat}

theorem extractInner (inside : j ≤ n) : (b.extract pos (pos + n)).extract i j = b.extract (pos + i) (pos + j) := by
  rw [ByteArray.extract_extract, Nat.min_eq_left (Nat.add_le_add_left inside pos)]

theorem extractAgrees (same : b.extract pos (pos + n) = c.extract start (start + n)) (inside : j ≤ n) :
    b.extract (pos + i) (pos + j) = c.extract (start + i) (start + j) := by
  rw [← extractInner inside, same, extractInner inside]

theorem extractAgreesFront (same : b.extract pos (pos + n) = c.extract start (start + n)) (inside : j ≤ n) :
    b.extract pos (pos + j) = c.extract start (start + j) := extractAgrees (i := 0) same inside

end Bytes

namespace Journal

namespace Record
variable {b c : Bytes} {pos start n : Nat} {r : Record}

def judge (covered check : Bytes) : Except JournalError Record := do
  let expected := (Bytes.toNat check).toUInt32
  if expected ≠ Checksum.ofBytes covered then .error (.checksum expected (Checksum.ofBytes covered)) else
  let (writes, stop) ← decodeWrites covered (Bytes.toNat (covered.extract 12 16)) headerSize
  if stop ≠ covered.size then .error .corrupt else
  return ⟨(Bytes.toNat (covered.extract 4 12)).toUInt64, writes⟩

def lengthAt (b : Bytes) (pos : Nat) : Nat := Bytes.toNat (b.extract pos (pos + 4))

theorem decodeByLength (b : Bytes) (pos : Nat) :
    decodeAt b pos =
      if b.size - pos < headerSize + checksumSize then .error .corrupt
      else if lengthAt b pos < headerSize + checksumSize ∨ b.size - pos < lengthAt b pos then .error .corrupt
      else (judge (b.extract pos (pos + lengthAt b pos - checksumSize))
        (b.extract (pos + lengthAt b pos - checksumSize) (pos + lengthAt b pos))).map (·, lengthAt b pos) := by
  unfold decodeAt judge
  rw [← lengthAt]
  simp only [bind, Except.bind]
  split
  · rfl
  split
  · rfl
  split
  · rfl
  split
  · rfl
  split <;> rfl

theorem decodedRoom (read : decodeAt b pos = .ok (r, n)) : headerSize + checksumSize ≤ n ∧ pos + n ≤ b.size := by
  obtain ⟨long, inside, -⟩ := decodedParts read
  exact ⟨long, inside⟩

theorem decodedAlike (read : decodeAt b pos = .ok (r, n)) (same : b.extract pos (pos + n) = c.extract start (start + n))
    (room : start + n ≤ c.size) : decodeAt c start = .ok (r, n) := by
  obtain ⟨long, inside, length, -⟩ := decodedParts read
  have minimum : headerSize + checksumSize = 20 := rfl
  have less : checksumSize = 4 := rfl
  have here : lengthAt b pos = n := length.symm
  have there : lengthAt c start = n := by
    rw [lengthAt, ← Bytes.extractAgreesFront same (by omega)]
    exact here
  have covered := Bytes.extractAgreesFront (j := n - checksumSize) same (by omega)
  have check := Bytes.extractAgrees (i := n - checksumSize) same (Nat.le_refl n)
  rw [decodeByLength, here, if_neg (by omega), if_neg (by omega), Nat.add_sub_assoc (by omega), covered, check] at read
  rw [decodeByLength, there, if_neg (by omega), if_neg (by omega), Nat.add_sub_assoc (by omega)]
  exact read

theorem decodeRest (b : Bytes) (pos : Nat) : decodeAt b pos = decode (b.extract pos b.size) := by
  have size : (b.extract pos b.size).size = b.size - pos := by rw [ByteArray.size_extract, Nat.min_self]
  have minimum : headerSize + checksumSize = 20 := rfl
  have part {i j : Nat} (inside : pos + j ≤ b.size) :
      (b.extract pos b.size).extract i j = b.extract (pos + i) (pos + j) := by
    rw [ByteArray.extract_extract, Nat.min_eq_left inside]
  rw [decode, decodeByLength, decodeByLength, size, Nat.sub_zero]
  by_cases short : b.size - pos < headerSize + checksumSize
  · rw [if_pos short, if_pos short]
  have length : lengthAt (b.extract pos b.size) 0 = lengthAt b pos := by
    rw [lengthAt, part (by omega)]
    rfl
  rw [if_neg short, if_neg short, length]
  by_cases wrong : lengthAt b pos < headerSize + checksumSize ∨ b.size - pos < lengthAt b pos
  · rw [if_pos wrong, if_pos wrong]
  rw [if_neg wrong, if_neg wrong, Nat.zero_add, part (by omega), part (by omega), Nat.add_zero,
    Nat.add_sub_assoc (by omega)]

end Record

abbrev Careful (α : Type) := ExceptT JournalError Option α

namespace Careful
variable {α β : Type}

def ofExcept (x : Except JournalError α) : Careful α := ExceptT.mk (some x)

theorem bindOf {x : Careful α} {y : Except JournalError α} {f : α → Careful β} {g : α → Except JournalError β}
    (first : x = ofExcept y) (later : ∀ a, y = .ok a → f a = ofExcept (g a)) : (x >>= f) = ofExcept (y >>= g) := by
  subst first
  cases y with
  | error cause => rfl
  | ok a => exact later a rfl

theorem bindSome {x : Option α} {a : α} {f : α → Careful β} (present : x = some a) :
    ((liftM x : Careful α) >>= f) = f a := by
  subst present
  rfl

theorem bindMap {y : Except JournalError α} {f : α → β} :
    (ofExcept y >>= fun a => pure (f a)) = ofExcept (y.map f) := by
  cases y <;> rfl

def part (b : Bytes) (start stop : Nat) : Careful Bytes :=
  if start ≤ stop ∧ stop ≤ b.size then return b.extract start stop else ExceptT.mk none

def number (b : Bytes) (start stop : Nat) : Careful Nat := Bytes.toNat <$> part b start stop

def takeSized (width : Nat) (b : Bytes) (pos : Nat) : Careful (Bytes × Nat) := do
  let (size, pos) ← ofExcept (take b pos width)
  let n ← number size 0 width
  ofExcept (take b pos n)

def decodeWrite (b : Bytes) (pos : Nat) : Careful (Write × Nat) := do
  let (first, pos) ← ofExcept (take b pos 1)
  let tag ← number first 0 1
  let (name, pos) ← takeSized 2 b pos
  let some table := Bytes.toText? name | throw .corrupt
  let (key, pos) ← takeSized 4 b pos
  if tag.toUInt8 = Write.putTag then
    let (value, pos) ← takeSized 4 b pos
    return (.put table key value, pos)
  else if tag.toUInt8 = Write.deleteTag then
    return (.delete table key, pos)
  else
    throw (.operation tag.toUInt8)

def decodeWrites (b : Bytes) : Nat → Nat → Careful (List Write × Nat)
  | 0, pos => return ([], pos)
  | n + 1, pos => do
      let (write, pos) ← decodeWrite b pos
      let (rest, pos) ← decodeWrites b n pos
      return (write :: rest, pos)

def judge (covered check : Bytes) : Careful Record := do
  let expected := (← number check 0 4).toUInt32
  if expected ≠ Checksum.ofBytes covered then throw (.checksum expected (Checksum.ofBytes covered)) else
  let txnId ← number covered 4 12
  let count ← number covered 12 16
  let (writes, stop) ← decodeWrites covered count headerSize
  if stop ≠ covered.size then throw .corrupt else
  return ⟨txnId.toUInt64, writes⟩

def decodeAt (b : Bytes) (start : Nat) : Careful (Record × Nat) := do
  let left ← b.size.psub start
  if left < headerSize + checksumSize then throw .corrupt else
  let size ← number b start (start + 4)
  if size < headerSize + checksumSize ∨ left < size then throw .corrupt else
  let check ← (start + size).psub checksumSize
  let r ← judge (← part b start check) (← part b check (start + size))
  return (r, size)

variable {b : Bytes} {pos start stop : Nat}

theorem bindPart {f : Bytes → Careful α} (order : start ≤ stop) (inside : stop ≤ b.size) :
    (part b start stop >>= f) = f (b.extract start stop) := by
  rw [part, if_pos ⟨order, inside⟩]
  rfl

theorem bindNumber {f : Nat → Careful α} (order : start ≤ stop) (inside : stop ≤ b.size) :
    (number b start stop >>= f) = f (Bytes.toNat (b.extract start stop)) := by
  rw [number, part, if_pos ⟨order, inside⟩]
  rfl

theorem bindWhole {f : Nat → Careful α} (length : b.size = stop) : (number b 0 stop >>= f) = f (Bytes.toNat b) := by
  rw [← length, bindNumber (Nat.zero_le _) (Nat.le_refl _), ByteArray.extract_zero_size]

theorem takeSizedWithin (width : Nat) : takeSized width b pos = ofExcept (Journal.takeSized width b pos) :=
  bindOf rfl fun _ taken => bindWhole (takeEnds taken)

theorem decodeWriteWithin : decodeWrite b pos = ofExcept (Write.decode b pos) := by
  refine bindOf rfl fun (first, next) taken => ?_
  refine (bindWhole (takeEnds taken)).trans (bindOf (takeSizedWithin 2) fun (name, behind) _ => ?_)
  dsimp only
  cases Bytes.toText? name with
  | none => rfl
  | some table =>
    refine bindOf (takeSizedWithin 4) fun (key, past) _ => ?_
    dsimp only
    split
    · exact bindOf (takeSizedWithin 4) fun _ _ => rfl
    · split <;> rfl

theorem decodeWritesWithin {n : Nat} : decodeWrites b n pos = ofExcept (Journal.decodeWrites b n pos) := by
  induction n generalizing pos with
  | zero => rfl
  | succ n ih => exact bindOf decodeWriteWithin fun _ _ => bindOf ih fun _ _ => rfl

theorem judgeWithin {covered check : Bytes} (long : headerSize ≤ covered.size) (four : check.size = 4) :
    judge covered check = ofExcept (Record.judge covered check) := by
  have header : headerSize = 16 := rfl
  refine (bindWhole four).trans ?_
  unfold Record.judge
  dsimp only
  split
  · rfl
  refine (bindNumber (by omega) (by omega)).trans ((bindNumber (by omega) (by omega)).trans ?_)
  refine bindOf decodeWritesWithin fun (writes, stop) _ => ?_
  dsimp only
  split <;> rfl

theorem decodeAtWithin (inside : pos ≤ b.size) : decodeAt b pos = ofExcept (Record.decodeAt b pos) := by
  have header : headerSize = 16 := rfl
  have check : checksumSize = 4 := rfl
  rw [Record.decodeByLength]
  refine (bindSome (Nat.psub_eq_sub inside)).trans ?_
  split
  · rfl
  refine (bindNumber (by omega) (by omega)).trans ?_
  rw [← Record.lengthAt]
  split
  · rfl
  refine (bindSome (Nat.psub_eq_sub (by omega))).trans ?_
  refine (bindPart (by omega) (by omega)).trans ((bindPart (by omega) (by omega)).trans ?_)
  rw [judgeWithin (by rw [ByteArray.size_extract]; omega) (by rw [ByteArray.size_extract]; omega)]
  exact bindMap

end Careful
end Journal
end Teller
