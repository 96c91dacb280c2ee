/-
  FsCrypto/ReadModified.lean --- reading a modified encrypted file (`pfscrypto.c`, lines 371-461
  and 1177-1267).

  What the reads of single sectors and of the remote file come to is a parameter, and so is what
  there is to read.  A buffer is a function of the places in it.  No other thread changes the
  interval tree while the lock is given up for the remote read; the size may have changed.  The
  mutex of the file checks its owner in a build with `IS_DEBUG`, which is the default.
-/
import PcloudClient.FsCrypto.Newfile
import PcloudClient.Foundation.Intervals

set_option autoImplicit false

namespace PcloudClient.FsCrypto.ReadModified

open PcloudClient.Foundation

/-- A buffer. -/
abbrev Buffer := Nat → UInt8

/-- `memcpy` of `cnt` bytes to the place `dst`. -/
def copy (buf : Buffer) (dst cnt : Nat) (src : Nat → UInt8) : Buffer := fun p =>
  if dst ≤ p ∧ p < dst + cnt then src (p - dst) else buf p

/-- The parts of an open file that a read looks at. -/
structure Openfile where
  currentsize : Nat
  writeintervals : List (Span Nat)
  separated : Intervals.Separated writeintervals

/-- What the calls of a read return: `psync_fs_crypto_wait_extender_after_locked`,
`psync_pagecache_read_unmodified_encrypted_locked` and
`psync_fs_crypto_read_newfile_full_sector`; `newsize` is the size of the file after the remote
read. -/
structure Results where
  waited : Int
  waited_le : waited ≤ 0
  remote : Int
  newsize : Nat
  sector : Nat → Int
  sector_le : ∀ s, sector s ≤ 4096

/-- What there is to read: the bytes of the remote file, those of the local sectors, what a failed
decoding leaves at a place of the buffer, and what was in the buffer. -/
structure Contents where
  remote : Nat → UInt8
  sector : Nat → Nat → UInt8
  junk : Nat → UInt8
  buf : Buffer

/-! ## Sectors -/

section

variable (r : Results) (c : Contents)

/-- `psync_fs_crypto_read_newfile_full_sector`, to the place `dst`. -/
def readNewfileFullSector (buf : Buffer) (dst sectorid : Nat) : Int × Buffer :=
  if r.sector sectorid < 0 then
    (r.sector sectorid, copy buf dst sectorSize fun i => c.junk (dst + i))
  else (r.sector sectorid, copy buf dst (r.sector sectorid).toNat (c.sector sectorid))

/-- `psync_fs_crypto_read_newfile_partial_sector`, to the place `dst`. -/
def readNewfilePartialSector (buf : Buffer) (dst sectorid size offset : Nat) : Int × Buffer :=
  if r.sector sectorid ≤ 0 then (r.sector sectorid, buf)
  else if r.sector sectorid ≤ offset then (0, buf)
  else
    let rd := min ((r.sector sectorid).toNat - offset) size
    (rd, copy buf dst rd fun i => c.sector sectorid (offset + i))

/-! ## Local changes only -/

/-- The loop over full sectors of `psync_fs_crypto_read_newfile_locked` with what follows it. -/
def readSectorsLoop (size sectorid rd : Nat) (buf : Buffer) : Int × Buffer :=
  if sectorSize ≤ size then
    let ret := readNewfileFullSector r c buf rd sectorid
    if ret.1 ≠ sectorSize then
      (if ret.1 < 0 then ret.1 else toInt (ret.1.toNat + rd), ret.2)
    else readSectorsLoop (size - sectorSize) (sectorid + 1) (rd + sectorSize) ret.2
  else if size ≠ 0 then
    let ret := readNewfilePartialSector r c buf rd sectorid size 0
    if ret.1 ≠ size then (if ret.1 < 0 then ret.1 else toInt (ret.1.toNat + rd), ret.2)
    else (toInt (rd + size), ret.2)
  else (toInt rd, buf)
termination_by size
decreasing_by
  rw [sectorSize_eq] at *
  omega

/-- `psync_fs_crypto_read_newfile_locked` -/
def readNewfileLocked (currentsize size offset : Nat) (buf : Buffer) : Int × Buffer :=
  if maxSectorid < (size + offset + sectorSize - 1) / sectorSize then (-einval, buf)
  else if r.waited ≠ 0 then (r.waited, buf)
  else if size = 0 ∨ currentsize ≤ offset then (0, buf)
  else
    let size := if currentsize < offset + size then currentsize - offset else size
    let sectorid := offset / sectorSize
    let off2 := offset % sectorSize
    if off2 ≠ 0 then
      let offdiff := if sectorSize - off2 < size then sectorSize - off2 else size
      let ret := readNewfilePartialSector r c buf 0 sectorid offdiff off2
      if ret.1 ≠ offdiff then (ret.1, ret.2)
      else readSectorsLoop r c (size - offdiff) (sectorid + 1) offdiff ret.2
    else readSectorsLoop r c size sectorid 0 buf

end

/-! ## Local and remote sectors -/

/-- The place of a sector in the encrypted file. -/
def eoffset (sectorid : Nat) : Nat := dataSectoridBySectorid sectorid * sectorSize

namespace Openfile

variable (of : Openfile)

/-- `psync_interval_tree_first_interval_containing_or_after` -/
def firstInterval (point : Nat) : Option (Span Nat) :=
  of.writeintervals.find? fun i => point < i.stop

/-- The interval that a loop looks at for a sector, after the one for the sector before. -/
def nextInterval (itr : Option (Span Nat)) (sectorid : Nat) : Option (Span Nat) :=
  if itr.any fun i => i.start ≤ eoffset sectorid ∧ eoffset sectorid < i.stop then itr
  else of.firstInterval (eoffset sectorid)

/-- The interval begins before the sector, so the sector is local. -/
def covers (itr : Option (Span Nat)) (sectorid : Nat) : Bool :=
  itr.any fun i => i.start ≤ eoffset sectorid

/-- The first loop over the sectors: `rfr` and `itr` after it. -/
def classify : List Nat → Nat → Option (Span Nat) → Nat × Option (Span Nat)
  | [], rfr, itr => (rfr, itr)
  | sectorid :: sectors, rfr, itr =>
    let itr := of.nextInterval itr sectorid
    classify sectors (rfr ||| if covers itr sectorid then 1 else 2) itr

end Openfile

/-- `firstsectorid .. lastsectorid` of a request. -/
def sectorsOf (size offset : Nat) : List Nat :=
  List.range' (offset / sectorSize)
    ((offset + size - 1) / sectorSize + 1 - offset / sectorSize)

section

variable (of : Openfile) (r : Results) (c : Contents)

/-- `pthread_mutex_unlock`: with `IS_DEBUG` a mutex that is not held is an error, and the macro
aborts.  Without it the call does nothing then. -/
def unlock (debug held : Bool) : Option Bool := if debug ∧ ¬ held then none else some false

/-- A round of the second loop for a local sector: whether the read of the sector comes to what is
asked of it, and the buffer. -/
def mergeSector (size offset : Nat) (buf : Buffer) (sectorid : Nat) : Bool × Buffer :=
  let firstsectorid := offset / sectorSize
  let lastsectorid := (offset + size - 1) / sectorSize
  let offmod := offset % sectorSize
  if sectorid = firstsectorid ∧ offmod ≠ 0 then
    let rd := sectorSize - offmod
    let rd := if size < rd then size else rd
    let rfr := readNewfilePartialSector r c buf 0 sectorid rd offmod
    (rfr.1 = rd, rfr.2)
  else
    let bufoff := ((sectorid - firstsectorid) * sectorSize - offmod) % 2 ^ 32
    let rd :=
      if sectorid = lastsectorid ∧ (offset + size) % sectorSize ≠ 0 then
        (offset + size) % sectorSize
      else sectorSize
    let rfr :=
      if rd = sectorSize then readNewfileFullSector r c buf bufoff sectorid
      else readNewfilePartialSector r c buf bufoff sectorid rd 0
    (rfr.1 = rd, rfr.2)

/-- The second loop over the sectors, with the mutex: `psync_fs_unlock_ret(of, rfr)` is called where
`rfr` is not what is asked, and the loop goes on.  `none` where the program aborts. -/
def mergeLoop (debug : Bool) (size offset : Nat) :
    List Nat → Option (Span Nat) → Bool → Buffer → Option (Bool × Buffer)
  | [], _, held, buf => some (held, buf)
  | sectorid :: sectors, itr, held, buf =>
    let itr := of.nextInterval itr sectorid
    if Openfile.covers itr sectorid then do
      let rfr := mergeSector r c size offset buf sectorid
      let held ← if rfr.1 then some held else unlock debug held
      mergeLoop debug size offset sectors itr held rfr.2
    else mergeLoop debug size offset sectors itr held buf

/-- `psync_pagecache_read_unmodified_encrypted_locked`, which reads no more than it is asked for. -/
def readRemote (size offset : Nat) : Int × Buffer :=
  let rb := min r.remote size
  (rb, copy c.buf 0 rb.toNat fun p => c.remote (offset + p))

/-- `psync_fs_crypto_read_modified_locked`: what it returns and the buffer; `none` where the program
aborts. -/
def readModifiedLocked (debug : Bool) (size offset : Nat) : Option (Int × Buffer) :=
  if maxSectorid < (size + offset + sectorSize - 1) / sectorSize then some (-einval, c.buf)
  else if size = 0 ∨ of.currentsize ≤ offset then some (0, c.buf)
  else
    let size := if of.currentsize < offset + size then of.currentsize - offset else size
    let found := of.classify (sectorsOf size offset) 0 none
    if found.1 = 1 then some (readNewfileLocked r c of.currentsize size offset c.buf)
    else
      let rfr := readRemote r c size offset
      if found.1 = 2 then some rfr
      else if rfr.1 < 0 then some rfr
      else if r.newsize ≤ offset then some (0, rfr.2)
      else do
        let size := if r.newsize < offset + size then r.newsize - offset else size
        let merged ← mergeLoop of r c debug size offset (sectorsOf size offset) found.2 true rfr.2
        let _ ← unlock debug merged.1
        return (toInt size, merged.2)

end

/-! ## What is asked of a read -/

namespace Openfile

variable (of : Openfile)

/-- The sector is in the interval tree. -/
def isLocal (sectorid : Nat) : Bool := covers (of.firstInterval (eoffset sectorid)) sectorid

/-- The byte `n` of the file. -/
def content (c : Contents) (n : Nat) : UInt8 :=
  if of.isLocal (n / sectorSize) then c.sector (n / sectorSize) (n % sectorSize) else c.remote n

/-- The size of a request, cut at the size of the file. -/
def cut (currentsize size offset : Nat) : Nat :=
  if currentsize < offset + size then currentsize - offset else size

/-- Local and remote sectors are merged, after the remote read has not failed. -/
structure Merges (r : Results) (size offset : Nat) : Prop where
  admitted : (size + offset + sectorSize - 1) / sectorSize ≤ maxSectorid
  inside : 0 < size ∧ offset < of.currentsize
  someLocal : ∃ s ∈ sectorsOf (cut of.currentsize size offset) offset, of.isLocal s = true
  someRemote : ∃ s ∈ sectorsOf (cut of.currentsize size offset) offset, of.isLocal s = false
  remote : 0 ≤ r.remote
  still : offset < r.newsize

/-- The byte `p` of a request for `size` bytes is reached by the read of its sector, if that is
local, and else by the remote read. -/
def Reached (r : Results) (size offset p : Nat) : Prop :=
  if of.isLocal ((offset + p) / sectorSize) then
    (((offset + p) % sectorSize : Nat) : Int) < r.sector ((offset + p) / sectorSize)
  else (p : Int) < min r.remote size

end Openfile

/-- The request cut at the size that the file has after the remote read. -/
def merged (of : Openfile) (r : Results) (size offset : Nat) : Nat :=
  Openfile.cut r.newsize (Openfile.cut of.currentsize size offset) offset

/-- Whatever there is to read: the read returns a failure, or bytes that are those of the file. -/
def ReadOk (debug : Bool) (of : Openfile) (r : Results) (size offset : Nat) : Prop :=
  ∀ c, ∃ res, readModifiedLocked of r c debug size offset = some res ∧
    (res.1 < 0 ∨ ∀ p : Nat, (p : Int) < res.1 → res.2 p = of.content c (offset + p))

end PcloudClient.FsCrypto.ReadModified
