/-
  Pcrc32c/Crc.lean --- `psync_crc32c` on x86-64, by the tables and by the `crc32` instruction.

  The reference takes one bit at a time.  What a table holds is read off its columns; the
  machine is little-endian.
-/
import PcloudClient.Foundation.Blocks
import PcloudClient.Pcrc32c.Tables

set_option autoImplicit false

namespace PcloudClient.Pcrc32c

open Bytes Blocks

/-! ## The reference -/

/-- The polynomial of CRC-32C, lowest power in the highest bit. -/
abbrev polynomial : BitVec 32 := 0x82f63b78#32

/-- One zero bit. -/
def crcBit (crc : BitVec 32) : BitVec 32 :=
  if crc.getLsbD 0 then (crc >>> 1) ^^^ polynomial else crc >>> 1

/-- One zero byte. -/
def crcZero (crc : BitVec 32) : BitVec 32 := crcBit^[8] crc

/-- A byte as the low bits of a word. -/
def byteWord (b : UInt8) : BitVec 32 := b.toBitVec.setWidth 32

def crcByte (crc : BitVec 32) (b : UInt8) : BitVec 32 := crcZero (crc ^^^ byteWord b)

/-- CRC-32C of `data`, one bit at a time. -/
def crc32c (crc : BitVec 32) (data : Bytes) : BitVec 32 := data.foldl crcByte crc

/-! ## The code -/

/-- `crc32c_table[k][i]` -/
def tableEntry (k i : Nat) : BitVec 32 := BitVec.ofNat 32 ((crc32cTable.getD k []).getD i 0)

/-- `crc32c_shift_chunk_table1360[k][i]` -/
def shiftEntry (k i : Nat) : BitVec 32 :=
  BitVec.ofNat 32 ((crc32cShiftChunkTable1360.getD k []).getD i 0)

/-- `(x>>8*i)&0xff`, as an index. -/
def byteOf {w : Nat} (x : BitVec w) (i : Nat) : Nat := ((x >>> (8 * i)) &&& 0xff).toNat

/-- `*(uint32_t *)data` -/
def load32 (data : Bytes) : BitVec 32 := BitVec.ofNat 32 (ofLE (data.take 4))

/-- `*(uint64_t *)data` -/
def load64 (data : Bytes) : BitVec 64 := BitVec.ofNat 64 (ofLE (data.take 8))

/-- `CRC32C_8BIT` -/
def crc32c8bit (crc : BitVec 32) (b : UInt8) : BitVec 32 :=
  tableEntry 0 (byteOf (crc ^^^ byteWord b) 0) ^^^ (crc >>> 8)

/-- `CRC32C_64BIT` -/
def crc32c64bit (crc : BitVec 32) (data : Bytes) : BitVec 32 :=
  let crc := crc ^^^ load32 data
  tableEntry 7 (byteOf crc 0) ^^^ tableEntry 6 (byteOf crc 1) ^^^ tableEntry 5 (byteOf crc 2) ^^^
    tableEntry 4 (byteOf crc 3) ^^^ tableEntry 3 (data.getD 4 0).toNat ^^^
    tableEntry 2 (data.getD 5 0).toNat ^^^ tableEntry 1 (data.getD 6 0).toNat ^^^
    tableEntry 0 (data.getD 7 0).toNat

/-- `CRC32C_64BIT_UINT`; both are 64 bits wide where it is used. -/
def crc32c64bitUint (crc uint : BitVec 64) : BitVec 64 :=
  let crc := crc ^^^ (uint &&& 0xffffffff#64)
  (tableEntry 7 (byteOf crc 0) ^^^ tableEntry 6 (byteOf crc 1) ^^^ tableEntry 5 (byteOf crc 2) ^^^
    tableEntry 4 (byteOf crc 3) ^^^ tableEntry 3 (byteOf uint 4) ^^^ tableEntry 2
      (byteOf uint 5) ^^^
    tableEntry 1 (byteOf uint 6) ^^^ tableEntry 0 (byteOf uint 7)).setWidth 64

/-- `psync_crc32c_sw` for a string at the address `addr`. -/
def psyncCrc32cSw (addr : Nat) (crc : BitVec 32) (data : Bytes) : BitVec 32 :=
  let (crc, data) := untilAligned 4 crc32c8bit addr crc data
  -- eight words at a time, the loop body unrolled
  let unrolled := fun crc (data : Bytes) => (overBlocks 8 crc32c64bit crc data).1
  let (crc, data) := overBlocks 64 unrolled crc data
  let (crc, data) := overBlocks 8 crc32c64bit crc data
  data.foldl crc32c8bit crc

/-- The instructions `crc32b` and `crc32q`: each takes the low half of its destination through
one step of CRC-32C and clears the high half. -/
structure Crc32Instr where
  crc32b : BitVec 64 → UInt8 → BitVec 64
  crc32q : BitVec 64 → BitVec 64 → BitVec 64
  crc32b_eq : ∀ crc b, crc32b crc b = (crc32c (crc.setWidth 32) [b]).setWidth 64
  crc32q_eq : ∀ crc value,
    crc32q crc value = (crc32c (crc.setWidth 32) (toLE 8 value.toNat)).setWidth 64

instance : Inhabited Crc32Instr :=
  ⟨{ crc32b := fun crc b => (crc32c (crc.setWidth 32) [b]).setWidth 64
     crc32q := fun crc value => (crc32c (crc.setWidth 32) (toLE 8 value.toNat)).setWidth 64
     crc32b_eq := fun _ _ => rfl
     crc32q_eq := fun _ _ => rfl }⟩

/-- `CRC32_PARALLEL_CHUNK` -/
abbrev crc32ParallelChunk : Nat := 1360

/-- `crc32c_shift_chunk` -/
def crc32cShiftChunk (crc : BitVec 32) : BitVec 32 :=
  shiftEntry 0 (byteOf crc 0) ^^^ shiftEntry 1 (byteOf crc 1) ^^^ shiftEntry 2 (byteOf crc 2) ^^^
    shiftEntry 3 (byteOf crc 3)

section

variable (cpu : Crc32Instr)

/-- One round of the loop over the three chunks that `data` points into. -/
def parallelWord (crcs : BitVec 64 × BitVec 64 × BitVec 64) (data : Bytes) :
    BitVec 64 × BitVec 64 × BitVec 64 :=
  (cpu.crc32q crcs.1 (load64 data),
    cpu.crc32q crcs.2.1 (load64 (data.drop crc32ParallelChunk)),
    cpu.crc32q crcs.2.2 (load64 (data.drop (crc32ParallelChunk * 2))))

/-- `n` rounds of it. -/
def parallelWords : Nat → BitVec 64 × BitVec 64 × BitVec 64 → Bytes →
    BitVec 64 × BitVec 64 × BitVec 64
  | 0, crcs, _ => crcs
  | n + 1, crcs, data => parallelWords n (parallelWord cpu crcs data) (data.drop 8)

/-- Three chunks in parallel. -/
def parallelChunks (crc0 : BitVec 64) (data : Bytes) : BitVec 64 :=
  let (crc0, crc1, crc2) := parallelWords cpu (crc32ParallelChunk / 8) (crc0, 0, 0) data
  let crc0 := (crc32cShiftChunk (crc0.setWidth 32)).setWidth 64 ^^^ crc1
  (crc32cShiftChunk (crc0.setWidth 32)).setWidth 64 ^^^ crc2

/-- `CRC32_WORD_HW` on the next word. -/
def crcWordHw (crc : BitVec 64) (data : Bytes) : BitVec 64 := cpu.crc32q crc (load64 data)

/-- `psync_crc32c_hw` for a string at the address `addr`. -/
def psyncCrc32cHw (addr : Nat) (crc0 : BitVec 64) (data : Bytes) : BitVec 32 :=
  let (crc0, data) := untilAligned 8 cpu.crc32b addr crc0 data
  let (crc0, data) := overBlocks (crc32ParallelChunk * 3) (parallelChunks cpu) crc0 data
  let unrolled := fun crc (data : Bytes) => (overBlocks 8 (crcWordHw cpu) crc data).1
  let (crc0, data) := overBlocks 32 unrolled crc0 data
  let (crc0, data) := overBlocks 8 (crcWordHw cpu) crc0 data
  (data.foldl cpu.crc32b crc0).setWidth 32

/-- `psync_crc32c`; `crcHashw` is 2 when the processor has the instruction, 1 when it has not,
and 0 before it was asked, which gives `hasHwCrc`. -/
def psyncCrc32c (hasHwCrc : Bool) (crcHashw : Nat) (addr : Nat) (crc : BitVec 32) (data : Bytes) :
    BitVec 32 :=
  if crcHashw = 2 then psyncCrc32cHw cpu addr (crc.setWidth 64) data
  else if crcHashw = 1 then psyncCrc32cSw addr crc data
  else if hasHwCrc then psyncCrc32cHw cpu addr (crc.setWidth 64) data
  else psyncCrc32cSw addr crc data

end

end PcloudClient.Pcrc32c
