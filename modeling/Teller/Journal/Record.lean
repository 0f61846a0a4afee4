import Teller.Checksum

/-! One record of the journal holds every write of one commit.
A record is its length (4 bytes), its transaction id (8), its number of writes (4), the writes and a
checksum of all that (4), every number little-endian. A write is its operation (1), the table's name
behind its length (2), the key behind its length (4) and, for a put, the value behind its length (4).
`decode` accepts what `encode` writes and nothing else. -/
namespace Teller.Journal

inductive Write where
  | put (table : String) (key value : Bytes)
  | delete (table : String) (key : Bytes)
  deriving DecidableEq

namespace Write

def table : Write → String
  | put table _ _ => table
  | delete table _ => table

def key : Write → Bytes
  | put _ key _ => key
  | delete _ key => key

end Write

structure Record where
  txnId : UInt64
  writes : List Write
  deriving DecidableEq

inductive JournalError where
  | io (reason : String)
  | corrupt
  | checksum (expected actual : UInt32)
  | operation (tag : UInt8)
  | tooLarge (size : Nat)
  deriving DecidableEq, Inhabited

def maxRecordSize : Nat := 64 * 1024 * 1024

def headerSize : Nat := 16

def checksumSize : Nat := 4

def maxWritesSize : Nat := maxRecordSize - headerSize - checksumSize

def hexPadded (width n : Nat) : String :=
  let digits := Nat.toDigits 16 n
  "0x" ++ String.ofList (List.replicate (width - digits.length) '0' ++ digits)

namespace JournalError

def message : JournalError → String
  | io reason => "I/O error: " ++ reason
  | corrupt => "corrupt log record"
  | checksum expected actual =>
      "checksum mismatch: expected " ++ hexPadded 8 expected.toNat ++ ", got " ++ hexPadded 8 actual.toNat
  | operation tag => "invalid write operation: " ++ hexPadded 2 tag.toNat
  | tooLarge size =>
      "log record of " ++ toString size ++ " bytes exceeds maximum of " ++ toString maxRecordSize

def source : JournalError → Option String
  | io reason => some reason
  | _ => none

end JournalError

namespace Write

def putTag : UInt8 := 1
def deleteTag : UInt8 := 2

def encodedSize : Write → Nat
  | put table key value => 1 + 2 + table.utf8ByteSize + 4 + key.size + (4 + value.size)
  | delete table key => 1 + 2 + table.utf8ByteSize + 4 + key.size

/-- The name's length has two bytes only: of a longer name they hold the remainder. -/
def encodeRow (tag : UInt8) (table : String) (key : Bytes) : Bytes :=
  ⟨#[tag]⟩ ++ Bytes.littleEndian 2 table.utf8ByteSize ++ Bytes.ofText table ++
    Bytes.littleEndian 4 key.size ++ key

def encode : Write → Bytes
  | put table key value =>
      encodeRow putTag table key ++ Bytes.littleEndian 4 value.size ++ value
  | delete table key => encodeRow deleteTag table key

end Write

def take (b : Bytes) (pos n : Nat) : Except JournalError (Bytes × Nat) :=
  if pos + n ≤ b.size then .ok (b.extract pos (pos + n), pos + n) else .error .corrupt

def takeSized (width : Nat) (b : Bytes) (pos : Nat) : Except JournalError (Bytes × Nat) := do
  let (size, pos) ← take b pos width
  take b pos size.toNat

def Write.decode (b : Bytes) (pos : Nat) : Except JournalError (Write × Nat) := do
  let (first, pos) ← take b pos 1
  let tag := first.toNat.toUInt8
  let (name, pos) ← takeSized 2 b pos
  let some table := Bytes.toText? name | .error .corrupt
  let (key, pos) ← takeSized 4 b pos
  if tag = putTag then
    let (value, pos) ← takeSized 4 b pos
    return (.put table key value, pos)
  else if tag = deleteTag then
    return (.delete table key, pos)
  else
    .error (.operation tag)

def decodeWrites (b : Bytes) : Nat → Nat → Except JournalError (List Write × Nat)
  | 0, pos => .ok ([], pos)
  | n + 1, pos => do
      let (write, pos) ← Write.decode b pos
      let (rest, pos) ← decodeWrites b n pos
      return (write :: rest, pos)

namespace Record

def body (r : Record) : Bytes :=
  r.writes.foldl (fun b w => b ++ w.encode)
    (Bytes.littleEndian 8 r.txnId.toNat ++ Bytes.littleEndian 4 r.writes.length)

def encode (r : Record) : Except JournalError Bytes :=
  let body := r.body
  let size := 4 + body.size + checksumSize
  if size > maxRecordSize then .error (.tooLarge size)
  else
    let covered := Bytes.littleEndian 4 size ++ body
    .ok (covered ++ Bytes.littleEndian 4 (Checksum.ofBytes covered).toNat)

def decodeAt (b : Bytes) (start : Nat) : Except JournalError (Record × Nat) := do
  if b.size - start < headerSize + checksumSize then .error .corrupt
  let size := Bytes.toNat (b.extract start (start + 4))
  if size < headerSize + checksumSize ∨ b.size - start < size then .error .corrupt
  let covered := b.extract start (start + size - checksumSize)
  let expected := (Bytes.toNat (b.extract (start + size - checksumSize) (start + size))).toUInt32
  let actual := Checksum.ofBytes covered
  if expected ≠ actual then .error (.checksum expected actual)
  let txnId := (Bytes.toNat (covered.extract 4 12)).toUInt64
  let count := Bytes.toNat (covered.extract 12 16)
  let (writes, stop) ← decodeWrites covered count headerSize
  if stop ≠ covered.size then .error .corrupt
  return (⟨txnId, writes⟩, size)

def decode (b : Bytes) : Except JournalError (Record × Nat) := decodeAt b 0

end Record
end Teller.Journal
