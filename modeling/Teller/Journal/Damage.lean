import Teller.Journal.File

/-! What may befall a journal's file while nobody writes to it: its end is torn off, something
stands behind its end, or a byte is no longer what it was. -/
namespace Teller

inductive Damage where
  | replace (content : Bytes)
  | extend (more : Bytes)
  | shorten (size : Nat)
  | flip (place : Nat) (bits : UInt8)
  deriving DecidableEq

def Disk.suffer (d : Disk) : Damage → Disk
  | .replace content => { d with file := some content }
  | .extend more => { d with file := some (d.content ++ more) }
  | .shorten size => { d with file := d.file.map (·.extract 0 size) }
  | .flip place bits => { d with file := d.file.map (Bytes.flip place bits) }

end Teller
