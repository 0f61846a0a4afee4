import Teller.Journal.Record

/-! The journal's file: the records of all commits, one after the other.
Opening it keeps the longest run of readable records and cuts the rest off. Replacing puts a whole
new file in place of the old one, or leaves the old one as it was. -/
namespace Teller
open Journal (Record JournalError)

structure Disk where
  file : Option Bytes := none
  blocked : Bool := false
  deriving DecidableEq

namespace Disk

def content (d : Disk) : Bytes := d.file.getD .empty

def overwrite (old : Bytes) (pos : Nat) (new : Bytes) : Bytes :=
  old.extract 0 pos ++ Bytes.replicate (pos - old.size) ⟨#[0]⟩ ++ new ++
    old.extract (pos + new.size) old.size

end Disk

structure Journal where
  disk : Disk
  size : Nat
  deriving DecidableEq

namespace Journal

structure Replay where
  records : List Record
  truncated : Nat
  deriving DecidableEq

/-- Every readable record from a place on, and where the first unreadable byte is. A record takes
at least its header and checksum, so `steps` need not exceed the bytes divided by their size. -/
def scan (b : Bytes) : (steps : Nat) → (pos : Nat) → List Record × Nat
  | 0, pos => ([], pos)
  | steps + 1, pos =>
      if pos < b.size then
        match Record.decodeAt b pos with
        | .ok (r, size) =>
            let (rest, stop) := scan b steps (pos + size)
            (r :: rest, stop)
        | .error _ => ([], pos)
      else ([], pos)

def encodeAll : List Record → Except JournalError Bytes
  | [] => .ok .empty
  | r :: rest => do
      let first ← r.encode
      return first ++ (← encodeAll rest)

def openAt (disk : Disk) : Journal × Replay :=
  let content := disk.content
  let (records, stop) := scan content (content.size / (headerSize + checksumSize) + 1) 0
  (⟨{ disk with file := some (content.extract 0 stop) }, stop⟩, ⟨records, content.size - stop⟩)

def append (j : Journal) (r : Record) : Except JournalError Journal := do
  let bytes ← r.encode
  let file := Disk.overwrite j.disk.content j.size bytes
  return ⟨{ j.disk with file := some file }, j.size + bytes.size⟩

def replace (j : Journal) (records : List Record) : Except JournalError Journal :=
  if j.disk.blocked then .error (.io "Is a directory (os error 21)")
  else do
    let bytes ← encodeAll records
    return ⟨{ j.disk with file := some bytes }, bytes.size⟩

end Journal
end Teller
