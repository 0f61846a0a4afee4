import Teller.Bytes

/-! The 32-bit cyclic redundancy check of ISO 3309, least significant bit first.
It detects every change that is confined to one byte. -/
namespace Teller.Checksum

def generator : UInt32 := 0xEDB88320

def shiftBit (c : UInt32) : UInt32 :=
  if c &&& 1 = 1 then (c >>> 1) ^^^ generator else c >>> 1

def shiftBits : Nat → UInt32 → UInt32
  | 0, c => c
  | n + 1, c => shiftBits n (shiftBit c)

def byteTable : Array UInt32 := (Array.range 256).map fun i => shiftBits 8 i.toUInt32

theorem byteTable_size : byteTable.size = 256 := by simp [byteTable]

def step (c : UInt32) (b : UInt8) : UInt32 :=
  let low := (c.toUInt8 ^^^ b).toNat
  have : low < byteTable.size := by
    rw [byteTable_size]; exact (c.toUInt8 ^^^ b).toNat_lt
  byteTable[low] ^^^ (c >>> 8)

def run (b : Bytes) (stop : Nat) (i : Nat) (c : UInt32) : UInt32 :=
  if h : i < stop ∧ i < b.size then
    run b stop (i + 1) (step c b[i])
  else c
termination_by stop - i

def ofFirst (b : Bytes) (stop : Nat) : UInt32 := run b stop 0 0xFFFFFFFF ^^^ 0xFFFFFFFF

def ofBytes (b : Bytes) : UInt32 := ofFirst b b.size

end Teller.Checksum
