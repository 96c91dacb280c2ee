/-
  Pfs/Locks.lean --- the mutex of an open file in `psync_fs_read`, `psync_fs_write` and
  `psync_fs_ftruncate` (`pfs.c`, `pfscrypto.c`, `ppagecache.c`).

  Some of the functions below return with `of->mutex` locked, some with it unlocked, and some
  do either.  What they call and what does not lock the mutex is a `Helper`: it returns
  anything and does anything to the open file.  The other threads do anything to the open file
  while the mutex is free.
-/
import PcloudClient.Foundation.Intervals
import PcloudClient.Foundation.Prog
import PcloudClient.FsCrypto.Newfile
import PcloudClient.Ppagecache.Read

set_option autoImplicit false

namespace PcloudClient.Pfs.Locks

open PcloudClient.Foundation
open PcloudClient.FsCrypto (sectorSize hashTreeSectors maxSectorid maxLogSize runExtendInThreadOver
  dataSectoridBySectorid offsetsByPlainsize getAuthSectorOff cryptoSize eio einval)
open PcloudClient.Ppagecache (intervalsFrom)

/-- `EINTR` -/
abbrev eintr : Int := 4

/-- `PSYNC_FS_ERR_CRYPTO_EXPIRED`, which is `EROFS` -/
abbrev cryptoExpired : Int := 30

/-- The encoder of an encrypted file, or one of the values that stand for none. -/
inductive Encoder where
  | unloaded
  | loading
  | failed
  | loaded
  deriving DecidableEq, Repr

/-- The fields of `psync_enc_file_extender_t` that decide what a call does. -/
structure Extender where
  extendto : Nat
  extendedto : Nat
  error : Int
  ready : Bool
  kill : Bool
  deriving DecidableEq, Repr

/-- The fields of `psync_openfile_t` that decide what a call does with the mutex; of the files
in the cache, whether they are open. -/
structure Openfile where
  newfile : Bool
  modified : Bool
  staticfile : Bool
  encrypted : Bool
  encoder : Encoder
  initialsize : Nat
  currentsize : Nat
  writeid : Nat
  throttle : Bool
  releasedforupload : Bool
  datafile : Bool
  indexfile : Bool
  logfile : Bool
  logoffset : Nat
  writeintervals : List (Span Nat)
  extender : Option Extender
  deriving DecidableEq, Repr

/-- What a call asks of the rest of the client and of the system. -/
inductive Helper where
  | freeSpace
  | minlocalfreespace
  | freeFromReadCache
  | uploadspeed
  | throttle
  | sqlTrylock
  | stopUpload
  | getFileEncoder
  | isexpired
  | getFileEncodedKey
  | haveAllPagesInCache
  | trylockCleanCache
  | addCreat
  | addModifiedFile
  | openFile
  | fileSize
  | loadIntervalTree
  | copyAllPages
  | seekTruncate
  | pread
  | pwrite
  | writeIndex
  | readNewfilePartialSector
  | readNewfileFullSector
  | writeNewfilePartialSector
  | writeNewfileFullSector
  | newfileFillzero
  | finalizeLog
  | requestPages
  | authPage
  | dataPage
  | waitPages
  deriving DecidableEq, Repr

/-- What decides a run of a call: the answer to its `n`-th question, and what the other threads
have made of the open file when it locks the mutex. -/
structure World where
  answer : Helper → Nat → Openfile → Int × Openfile
  others : Nat → Openfile → Openfile

/-- The steps of a call at which a wrong answer would leave the mutex or the stoppers wrong. -/
inductive Place where
  /-- `psync_cloud_crypto_get_file_encoder` in `psync_fs_reopen_file_for_writing` -/
  | encoder
  /-- `psync_fstask_add_creat` for a file of a size that is made a new file -/
  | creat (size : Nat)
  /-- `open_write_files` for such a file -/
  | writeFiles (size : Nat)
  /-- the read of `rd` bytes of a sector in the second loop of
  `psync_fs_crypto_read_modified_locked` -/
  | sector (read : Helper) (rd : Nat)
  /-- the read of the last sector in `psync_fs_crypto_ftruncate_down` -/
  | truncateRead (size offset : Nat)
  /-- the write of the last sector in `psync_fs_crypto_ftruncate_down` -/
  | truncateWrite (size offset : Nat)
  deriving DecidableEq, Repr

/-- A thread in a call.  `stoppers` is what the call has added to `clean_cache_stoppers`; `clock`
counts its questions and is not in the source. -/
structure Thread where
  file : Openfile
  clock : Nat
  held : Bool
  /-- the mutex was unlocked while it was not locked -/
  misuse : Bool
  stoppers : Int

/-- A part of a call. -/
abbrev Call := Prog Place Thread

/-- A step where a wrong answer matters; nothing in the source. -/
abbrev place (p : Place) : Call Unit := Prog.mark p

/-! ## The mutex -/

/-- `of` -/
def file : Call Openfile := .act fun t => (some t.file, t)

/-- An assignment to fields of the open file. -/
def setFile (g : Openfile → Openfile) : Call Unit :=
  .act fun t => (some (), { t with file := g t.file })

/-- `pthread_mutex_unlock(&of->mutex)` -/
def unlock : Call Unit := .act fun t =>
  (some (), if t.held then { t with held := false } else { t with misuse := true })

/-- `psync_fs_unlock_ret` -/
def unlockRet (ret : Int) : Call Int := do
  unlock
  pure ret

/-- `clean_cache_stoppers++` -/
def takeStopper : Call Unit := .act fun t => (some (), { t with stoppers := t.stoppers + 1 })

/-- `psync_pagecache_unlock_pages_from_cache` -/
def unlockPagesFromCache : Call Unit :=
  .act fun t => (some (), { t with stoppers := t.stoppers - 1 })

section

variable (w : World)

/-- `psync_fs_lock_file`; a thread that has the mutex waits for itself. -/
def lockFile : Call Unit := .act fun t =>
  if t.held then (none, t)
  else (some (), { t with held := true, clock := t.clock + 1, file := w.others t.clock t.file })

/-- `pthread_cond_wait` with the mutex of the file -/
def condWait : Call Unit := do
  unlock
  lockFile w

/-- A call that does not lock the mutex. -/
def call (h : Helper) : Call Int := .act fun t =>
  let (ret, file) := w.answer h t.clock t.file
  (some ret, { t with clock := t.clock + 1, file })

/-- `psync_pagecache_lock_pages_in_cache` -/
def lockPagesInCache : Call Int := do
  let busy ← call w .trylockCleanCache
  if busy ≠ 0 then pure (-1)
  else do
    takeStopper
    pure 0

variable (fuel : Nat)

/-! ## The extender -/

/-- `psync_fs_crypto_wait_extender_after_locked` -/
def waitExtenderAfterLocked (offset : Nat) : Nat → Call Int
  | 0 => Prog.stop
  | n + 1 => do
    match (← file).extender with
    | none => pure 0
    | some ext =>
      if ext.ready = false ∧ ext.extendedto < offset then do
        condWait w
        waitExtenderAfterLocked offset n
      else pure ext.error

/-- The second loop of `psync_fs_crypto_wait_no_extender_locked`. -/
def waitEnd (ret : Int) : Nat → Call Int
  | 0 => Prog.stop
  | n + 1 => do
    unlock
    lockFile w
    if (← file).extender.isSome then waitEnd ret n else pure ret

/-- `psync_fs_crypto_wait_no_extender_locked` -/
def waitNoExtenderLocked : Nat → Call Int
  | 0 => Prog.stop
  | n + 1 => do
    match (← file).extender with
    | none => pure 0
    | some ext =>
      if ext.ready = false then do
        condWait w
        waitNoExtenderLocked n
      else waitEnd w ext.error fuel

/-- `psync_fs_crypto_kill_extender_locked` -/
def killExtenderLocked : Call Unit :=
  setFile fun of => { of with extender := of.extender.map fun ext => { ext with kill := true } }

/-! ## Remote pages -/

/-- `psync_fs_inc_of_refcnt_and_readers` -/
def incOfRefcntAndReaders : Call Unit := do
  lockFile w
  unlock

/-- The thread that reads pages from the server, if it is needed. -/
def startRead (needed : Prop) [Decidable needed] : Call Unit :=
  if needed then incOfRefcntAndReaders w else pure ()

/-- The wait for the key of a file: `psync_fs_lock_file`, the loop and the unlock after it. -/
def waitLoaded : Nat → Call Unit
  | 0 => Prog.stop
  | n + 1 => do
    if (← file).encoder = .loading then do
      condWait w
      waitLoaded n
    else pure ()

/-- The part of the page cache's reads that gets the key; `err` is returned without one. -/
def waitKey (needkey : Bool) (err : Int) : Call Int :=
  if needkey then do
    lockFile w
    waitLoaded w fuel
    let ret := if (← file).encoder = .failed then err else 0
    unlock
    pure ret
  else pure 0

/-- A page of `psync_pagecache_read_unmodified_encrypted_locked`: `authPage` answers a positive
number when the checksums of a new part of the file were verified. -/
def decodePage (ret : Int) : Call Int := do
  let auth ← call w .authPage
  if ret = 0 ∧ 0 < auth then do
    lockFile w
    unlock
    let data ← call w .dataPage
    pure (if data < 0 then data else 0)
  else do
    let ret := if ret = 0 ∧ auth < 0 then auth else ret
    let data ← call w .dataPage
    pure (if ret = 0 ∧ data < 0 then data else ret)

def decodePages (ret : Int) : Nat → Call Int
  | 0 => pure ret
  | n + 1 => do
    let ret ← decodePage w ret
    decodePages ret n

/-- `psync_pagecache_read_unmodified_encrypted_locked` -/
def readUnmodifiedEncryptedLocked (size offset : Nat) : Call Int := do
  let of ← file
  let needkey := of.encoder = .unloaded ∧ of.initialsize ≠ 0 ∧ offset < of.initialsize
  setFile fun of => if needkey then { of with encoder := .loading } else of
  unlock
  if of.initialsize ≤ offset then pure 0
  else do
    let size := if of.initialsize < offset + size then of.initialsize - offset else size
    let pagecnt := (size + offset % sectorSize + sectorSize - 1) / sectorSize
    let ranges ← call w .requestPages
    if ranges < 0 then pure (-eio)
    else do
      startRead w (ranges ≠ 0 ∨ needkey)
      let ret ← waitKey w fuel needkey (-eio)
      let ret ← decodePages w ret pagecnt
      pure (if ret = 0 then size else ret)

/-- `psync_pagecache_read_unmodified_locked` -/
def readUnmodifiedLocked (offset : Nat) : Call Int := do
  let of ← file
  unlock
  if of.initialsize ≤ offset then pure 0
  else do
    let ranges ← call w .requestPages
    startRead w (ranges ≠ 0)
    call w .waitPages

/-- `psync_pagecache_readv_locked` -/
def readvLocked : Call Int := do
  let of ← file
  let needkey := of.encrypted = true ∧ of.encoder = .unloaded ∧ of.initialsize ≠ 0
  setFile fun of => if needkey then { of with encoder := .loading } else of
  unlock
  let ranges ← call w .requestPages
  startRead w (ranges ≠ 0 ∨ needkey)
  let ret ← waitKey w fuel needkey (-1)
  let pages ← call w .waitPages
  pure (if pages < 0 then -1 else ret)

/-! ## Sectors of a new file -/

/-- `(size+offset+PSYNC_CRYPTO_SECTOR_SIZE-1)/PSYNC_CRYPTO_SECTOR_SIZE>PSYNC_CRYPTO_MAX_SECTORID` -/
def TooLong (size offset : Nat) : Prop :=
  maxSectorid < (size + offset + sectorSize - 1) / sectorSize

instance (size offset : Nat) : Decidable (TooLong size offset) :=
  inferInstanceAs (Decidable (maxSectorid < _))

/-- The loop over full sectors of `psync_fs_crypto_read_newfile_locked`, and what is left. -/
def readSectors (rd size : Nat) : Nat → Call Int
  | 0 =>
    if size ≠ 0 then do
      let ret ← call w .readNewfilePartialSector
      if ret ≠ size then unlockRet (if ret < 0 then ret else ret + rd)
      else unlockRet (rd + size : Nat)
    else unlockRet rd
  | sectors + 1 => do
    let ret ← call w .readNewfileFullSector
    if ret ≠ sectorSize then unlockRet (if ret < 0 then ret else ret + rd)
    else readSectors (rd + sectorSize) size sectors

/-- `psync_fs_crypto_read_newfile_locked` -/
def readNewfileLocked (size offset : Nat) : Call Int := do
  if TooLong size offset then unlockRet (-einval)
  else do
    let ret ← waitExtenderAfterLocked w (offset + size) fuel
    if ret ≠ 0 then unlockRet ret
    else do
      let of ← file
      if size = 0 ∨ of.currentsize ≤ offset then unlockRet 0
      else do
        let size := if of.currentsize < offset + size then of.currentsize - offset else size
        let off2 := offset % sectorSize
        if off2 ≠ 0 then do
          let offdiff := if sectorSize - off2 < size then sectorSize - off2 else size
          let ret ← call w .readNewfilePartialSector
          if ret ≠ offdiff then unlockRet ret
          else readSectors w offdiff ((size - offdiff) % sectorSize) ((size - offdiff) / sectorSize)
        else readSectors w 0 (size % sectorSize) (size / sectorSize)

/-- `if (of->currentsize<offset) of->currentsize=offset` -/
def growTo (offset : Nat) : Call Unit :=
  setFile fun of => if of.currentsize < offset then { of with currentsize := offset } else of

/-- The last part of a sector in `psync_fs_crypto_write_newfile_locked_nu`. -/
def writeLast (size offset : Nat) : Call Int := do
  if size = 0 then pure 0
  else do
    let of ← file
    let ret ← (if offset = of.currentsize then call w .writeNewfileFullSector
      else call w .writeNewfilePartialSector)
    if ret ≠ 0 then pure ret
    else do
      growTo (offset + size)
      pure 0

/-- The loop over full sectors of `psync_fs_crypto_write_newfile_locked_nu`, and what is left;
then a log that is too long is finalised. -/
def writeSectors (wrt size offset : Nat) : Nat → Call Int
  | 0 => do
    let ret ← writeLast w size offset
    if ret ≠ 0 then pure ret
    else if maxLogSize ≤ (← file).logoffset then do
      let ret ← call w .finalizeLog
      pure (if ret ≠ 0 then ret else (wrt + size : Nat))
    else pure (wrt + size : Nat)
  | sectors + 1 => do
    let ret ← call w .writeNewfileFullSector
    if ret ≠ 0 then pure ret
    else do
      growTo (offset + sectorSize)
      writeSectors (wrt + sectorSize) size (offset + sectorSize) sectors

/-- The part of `psync_fs_crypto_write_newfile_locked_nu` after the gap is filled. -/
def writeBuffer (size offset : Nat) : Call Int := do
  let off2 := offset % sectorSize
  if off2 ≠ 0 then do
    let offdiff := if sectorSize - off2 < size then sectorSize - off2 else size
    let ret ← call w .writeNewfilePartialSector
    if ret ≠ 0 then pure ret
    else do
      growTo (offset + offdiff)
      writeSectors w offdiff ((size - offdiff) % sectorSize) (offset + offdiff)
        ((size - offdiff) / sectorSize)
  else writeSectors w 0 (size % sectorSize) offset (size / sectorSize)

/-- `psync_fs_crypto_write_newfile_locked_nu` -/
def writeNewfileLockedNu (size offset : Nat) (checkextender : Bool) : Call Int := do
  if TooLong size offset then pure (-einval)
  else if size = 0 then pure 0
  else do
    let ret ← (if checkextender then waitExtenderAfterLocked w (offset + size) fuel else pure 0)
    if ret ≠ 0 then pure ret
    else if (← file).currentsize < offset then do
      let ret ← call w .newfileFillzero
      if ret ≠ 0 then pure ret
      else do
        Prog.assert ((← file).currentsize = offset)
        writeBuffer w size offset
    else writeBuffer w size offset

/-- `psync_fs_crypto_write_newfile_locked` -/
def cryptoWriteNewfileLocked (size offset : Nat) : Call Int := do
  let ret ← writeNewfileLockedNu w fuel size offset true
  unlockRet ret

/-! ## Sectors of a modified file -/

/-- The sector of the data file that has the sector `sectorid` is in `writeintervals`.  The
interval that the code has at hand is a shortcut. -/
def Openfile.isLocal (of : Openfile) (eoffset : Nat) : Bool :=
  of.writeintervals.any fun i => i.start ≤ eoffset && eoffset < i.stop

/-- The offset of a sector in the data file. -/
def dataOffset (sectorid : Nat) : Nat := dataSectoridBySectorid sectorid * sectorSize

/-- The sectors from `first` to `last`. -/
def sectors (first last : Nat) : List Nat := List.range' first (last + 1 - first)

/-- The second loop of `psync_fs_crypto_read_modified_locked`.  A sector that is not read in full
unlocks the mutex and the loop goes on. -/
def mergeSectors (size offset : Nat) (firstsectorid lastsectorid : Nat) : List Nat → Call Unit
  | [] => pure ()
  | sectorid :: rest => do
    if (← file).isLocal (dataOffset sectorid) = false then
      mergeSectors size offset firstsectorid lastsectorid rest
    else do
      let offmod := offset % sectorSize
      let rd :=
        if sectorid = firstsectorid ∧ offmod ≠ 0 then min (sectorSize - offmod) size
        else if sectorid = lastsectorid ∧ (offset + size) % sectorSize ≠ 0 then
          (offset + size) % sectorSize
        else sectorSize
      let read := if (sectorid = firstsectorid ∧ offmod ≠ 0) ∨ rd ≠ sectorSize then
          Helper.readNewfilePartialSector
        else Helper.readNewfileFullSector
      place (.sector read rd)
      let ret ← call w read
      if ret ≠ rd then do
        unlock
        mergeSectors size offset firstsectorid lastsectorid rest
      else mergeSectors size offset firstsectorid lastsectorid rest

/-- The part of `psync_fs_crypto_read_modified_locked` that puts local sectors over remote
ones. -/
def readMerged (size offset : Nat) : Call Int := do
  let rfr ← readUnmodifiedEncryptedLocked w fuel size offset
  if rfr < 0 then pure rfr
  else do
    lockFile w
    let of ← file
    if of.currentsize < offset + size ∧ of.currentsize ≤ offset then unlockRet 0
    else do
      let size := if of.currentsize < offset + size then of.currentsize - offset else size
      let firstsectorid := offset / sectorSize
      let lastsectorid := (offset + size - 1) / sectorSize
      mergeSectors w size offset firstsectorid lastsectorid (sectors firstsectorid lastsectorid)
      unlockRet size

/-- `psync_fs_crypto_read_modified_locked` -/
def cryptoReadModifiedLocked (size offset : Nat) : Call Int := do
  let of ← file
  if TooLong size offset then unlockRet (-einval)
  else if size = 0 ∨ of.currentsize ≤ offset then unlockRet 0
  else do
    let size := if of.currentsize < offset + size then of.currentsize - offset else size
    let here := (sectors (offset / sectorSize) ((offset + size - 1) / sectorSize)).map fun s =>
      of.isLocal (dataOffset s)
    if here.all id then readNewfileLocked w fuel size offset
    else if here.all not then readUnmodifiedEncryptedLocked w fuel size offset
    else readMerged w fuel size offset

/-- What one level of checksums of a sector adds to what is to be downloaded. -/
def addAuth (of : Openfile) (sectorid : Nat) (tree : List (Span Nat)) (level : Nat) :
    Option (List (Span Nat)) := do
  let plainsize := match of.extender with
    | some ext => ext.extendedto
    | none => of.currentsize
  let auth ← getAuthSectorOff sectorid level (offsetsByPlainsize plainsize)
  if of.isLocal auth.offset then return tree
  else
    let stop := match (intervalsFrom of.writeintervals auth.offset).head? with
      | some itr => min (auth.offset + auth.size) itr.start
      | none => auth.offset + auth.size
    return Intervals.add auth.offset stop tree

/-- What a sector adds to what is to be downloaded: itself, if only a part of it is written, and
its checksums. -/
def addSector (of : Openfile) (size offset first last : Nat) (tree : List (Span Nat))
    (sectorid : Nat) : Option (List (Span Nat)) :=
  let eoffset := dataOffset sectorid
  if of.isLocal eoffset then some tree
  else
    let stop := match (intervalsFrom of.writeintervals eoffset).head? with
      | some itr => min (eoffset + sectorSize) itr.start
      | none => eoffset + sectorSize
    let tree :=
      if (sectorid = first ∧ offset % sectorSize ≠ 0) ∨
          (sectorid = last ∧ (offset + size) % sectorSize ≠ 0) then Intervals.add eoffset stop tree
      else tree
    if sectorid ≠ first ∧ sectorid % hashTreeSectors ≠ 0 then some tree
    else
      let plainsize := match of.extender with
        | some ext => ext.extendedto
        | none => of.currentsize
      (List.range ((offsetsByPlainsize plainsize).treelevels + 1)).foldlM (addAuth of sectorid) tree

/-- The ranges that `psync_fs_crypto_write_modified_locked_nu` downloads; `none` is a failed
assertion. -/
def needToDownload (of : Openfile) (size offset : Nat) : Option (List (Span Nat)) :=
  let first := offset / sectorSize
  let last := (offset + size - 1) / sectorSize
  let before := offset = of.initialsize ∧ first ≠ 0 ∧ offset % sectorSize = 0
  let first' := if before then first - 1 else first
  let last' := if before then first - 1 else last
  let there := (sectors first' last').takeWhile fun s =>
    s * sectorSize < of.initialsize && s * sectorSize < of.currentsize
  let eoffset := cryptoSize (min of.currentsize of.initialsize)
  (there.foldlM (addSector of size offset first' last') []).map fun tree =>
    (tree.takeWhile fun itr => itr.start < eoffset).map fun itr => ⟨itr.start, min itr.stop eoffset⟩

/-- The loop over the downloaded ranges: `none` when a range was written meanwhile. -/
def writeRanges : List (Span Nat) → Call (Option Int)
  | [] => pure (some 0)
  | range :: rest => do
    let of ← file
    if of.writeintervals.any fun i => i.start < range.stop && range.start < i.stop then pure none
    else do
      let bw ← call w .pwrite
      if bw ≠ (range.stop - range.start : Nat) then pure (some (-eio))
      else do
        setFile fun of => { of with
          writeintervals := Intervals.add range.start range.stop of.writeintervals }
        writeRanges rest

/-- `psync_fs_modfile_fillzero`, with the function it writes with. -/
def modfileFillzero (write : Nat → Nat → Call Int) (size offset : Nat) : Nat → Call Int
  | 0 => Prog.stop
  | n + 1 =>
    if size = 0 then pure 0
    else do
      let wr :=
        if offset % sectorSize ≠ 0 then min (sectorSize - offset % sectorSize) size
        else min sectorSize size
      let ret ← write wr offset
      if ret ≤ 0 then pure ret
      else modfileFillzero write (size - ret.toNat) (offset + ret.toNat) n

/-- `psync_fs_crypto_write_modified_locked_nu` from `retry` on. -/
def writeModifiedRetry (size offset : Nat) (checkextender : Bool) : Nat → Call Int
  | 0 => Prog.stop
  | n + 1 => do
    let of ← file
    let ret ← (if of.currentsize < offset then
        modfileFillzero
          (fun wr off =>
            if TooLong wr off then pure (-einval)
            else if wr = 0 then pure 0
            else writeModifiedRetry wr off false n)
          (offset - of.currentsize) of.currentsize fuel
      else pure 0)
    if ret ≠ 0 then pure ret
    else do
      match needToDownload (← file) size offset with
      | none => Prog.stop
      | some [] => writeNewfileLockedNu w fuel size offset checkextender
      | some (range :: ranges) => do
        let ret ← readvLocked w fuel
        lockFile w
        if ret ≠ 0 then pure ret
        else do
          match ← writeRanges w (range :: ranges) with
          | none => writeModifiedRetry size offset checkextender n
          | some ret =>
            if ret ≠ 0 then pure ret
            else writeNewfileLockedNu w fuel size offset checkextender

/-- `psync_fs_crypto_write_modified_locked_nu` -/
def writeModifiedLockedNu (size offset : Nat) (checkextender : Bool) : Call Int := do
  if TooLong size offset then pure (-einval)
  else do
    let ret ← (if checkextender then waitExtenderAfterLocked w (offset + size) fuel else pure 0)
    if ret ≠ 0 then pure ret
    else if size = 0 then pure 0
    else writeModifiedRetry w fuel size offset checkextender fuel

/-- `psync_fs_crypto_write_modified_locked` -/
def cryptoWriteModifiedLocked (size offset : Nat) : Call Int := do
  let ret ← writeModifiedLockedNu w fuel size offset true
  unlockRet ret

/-! ## Truncation of an encrypted file -/

/-- `psync_fs_crypto_init_log` -/
def initLog : Call Int := do
  let wrt ← call w .pwrite
  if wrt ≠ sectorSize then pure (-eio)
  else do
    setFile fun of => { of with logoffset := sectorSize }
    pure 0

/-- `psync_fs_crypto_ftruncate_to_zero` -/
def ftruncateToZero : Call Int := do
  let err ← call w .seekTruncate
  if err ≠ 0 then pure (-eio)
  else do
    let ret ← initLog w
    if ret ≠ 0 then pure ret
    else do
      setFile fun of => { of with
        writeintervals :=
          if of.newfile then of.writeintervals else [⟨0, cryptoSize of.initialsize⟩]
        currentsize := 0 }
      killExtenderLocked
      pure 0

/-- The end of `psync_fs_crypto_ftruncate_down`: the last sector gets its new size. -/
def rewriteLast (size lastsectoff : Nat) : Call Int := do
  setFile fun of => { of with currentsize := lastsectoff }
  let ret ← call w .writeNewfileFullSector
  if ret < 0 then pure ret
  else do
    setFile fun of => { of with
      currentsize := size
      writeintervals :=
        if of.newfile then of.writeintervals
        else Intervals.cutEnd (cryptoSize size) of.writeintervals }
    pure 0

/-- `psync_fs_crypto_ftruncate_down` from `retry` on.  The two calls unlock the mutex, and an
error of theirs is returned without it. -/
def ftruncateDownRetry (size lastsectoff lastsectoroldsize : Nat) : Nat → Call Int
  | 0 => Prog.stop
  | n + 1 => do
    let of ← file
    if of.newfile ∨ of.isLocal (dataOffset (lastsectoff / sectorSize)) then do
      let ret ← call w .readNewfileFullSector
      if ret < 0 then pure ret
      else do
        Prog.assert (ret = lastsectoroldsize)
        rewriteLast w size lastsectoff
    else do
      place (.truncateRead lastsectoroldsize lastsectoff)
      let ret ← cryptoReadModifiedLocked w fuel lastsectoroldsize lastsectoff
      if ret < 0 then pure ret
      else do
        lockFile w
        if (← file).writeid ≠ of.writeid then
          ftruncateDownRetry size lastsectoff lastsectoroldsize n
        else do
          place (.truncateWrite lastsectoroldsize lastsectoff)
          let ret ← cryptoWriteModifiedLocked w fuel lastsectoroldsize lastsectoff
          if ret < 0 then pure ret
          else do
            lockFile w
            if (← file).writeid ≠ of.writeid then
              ftruncateDownRetry size lastsectoff lastsectoroldsize n
            else rewriteLast w size lastsectoff

/-- `psync_fs_crypto_ftruncate_down` after the extender is dealt with. -/
def shrink (size : Nat) : Call Int := do
  let lastsectoff := (size - 1) / sectorSize * sectorSize
  let of ← file
  let lastsectoroldsize :=
    if lastsectoff + sectorSize ≤ of.currentsize then sectorSize else of.currentsize - lastsectoff
  ftruncateDownRetry w fuel size lastsectoff lastsectoroldsize fuel

/-- `psync_fs_crypto_ftruncate_down` -/
def ftruncateDown (size : Nat) : Call Int := do
  let of ← file
  Prog.assert (0 < size ∧ size < of.currentsize)
  match of.extender with
  | none => shrink w fuel size
  | some ext =>
    if ext.error ≠ 0 then pure ext.error
    else if ext.ready then shrink w fuel size
    else if size < ext.extendedto then do
      killExtenderLocked
      shrink w fuel size
    else do
      setFile fun of => { of with
        extender := of.extender.map fun ext => { ext with extendto := size }
        currentsize := size }
      pure 0

/-- `psync_fs_crypto_run_extender` -/
def runExtender (size : Nat) : Call Int := do
  let of ← file
  Prog.assert (of.currentsize < size)
  Prog.assert (of.extender.isNone = true)
  setFile fun of => { of with
    extender := some { extendto := size, extendedto := of.currentsize, error := 0
                       ready := false, kill := false }
    currentsize := size }
  pure 0

/-- The write that `psync_fs_modfile_fillzero` is used with in `psync_fs_crypto_ftruncate`. -/
def fillzero (size offset : Nat) : Call Int :=
  modfileFillzero (fun wr off => writeModifiedLockedNu w fuel wr off false) size offset fuel

/-- `psync_fs_crypto_ftruncate` from `retry` on. -/
def cryptoFtruncateRetry (size : Nat) : Nat → Call Int
  | 0 => Prog.stop
  | n + 1 => do
    let of ← file
    if of.currentsize < size then
      match of.extender with
      | some ext =>
        if ext.ready then do
          let ret ← waitNoExtenderLocked w fuel fuel
          if ret ≠ 0 then pure ret else cryptoFtruncateRetry size n
        else do
          Prog.assert (ext.extendto < size)
          setFile fun of => { of with
            extender := of.extender.map fun ext => { ext with extendto := size }
            currentsize := size }
          pure 0
      | none =>
        if runExtendInThreadOver ≤ size - of.currentsize then do
          let ret ← (if of.newfile then pure 0
            else fillzero w fuel (of.currentsize % sectorSize + sectorSize) of.currentsize)
          if ret ≠ 0 then pure ret else runExtender size
        else if of.newfile then call w .newfileFillzero
        else fillzero w fuel (size - of.currentsize) of.currentsize
    else if size < of.currentsize then
      if size = 0 then ftruncateToZero w else ftruncateDown w fuel size
    else pure 0

/-- `psync_fs_crypto_ftruncate` -/
def cryptoFtruncate (size : Nat) : Call Int := do
  Prog.assert ((← file).modified = true)
  cryptoFtruncateRetry w fuel size fuel

/-! ## Reopening a file for writing -/

/-- `psync_fs_crypto_err_to_errno` -/
def cryptoErrToErrno : Int → Int
  | -1 => 13
  | -2 => eio
  | -3 => 2
  | -4 => 2
  | -5 => eio
  | -6 => 107
  | _ => einval

/-- The index of a modified file in `open_write_files`. -/
def openIndex : Call Int := do
  let of ← file
  if of.newfile = false ∧ of.indexfile = false then do
    let opened ← call w .openFile
    if opened < 0 then pure (-eio)
    else do
      setFile fun of => { of with indexfile := true }
      let err ← call w .loadIntervalTree
      pure (if err ≠ 0 then -eio else 0)
  else pure 0

/-- The log of an encrypted file in `open_write_files`. -/
def openLog : Call Int := do
  let of ← file
  if of.encrypted = true ∧ of.logfile = false then do
    let opened ← call w .openFile
    if opened < 0 then pure (-eio)
    else do
      setFile fun of => { of with logfile := true }
      initLog w
  else pure 0

/-- `open_write_files`; `truncate` is what it does to a data file that is open. -/
def openWriteFiles (truncate : Call Int) : Call Int := do
  if (← file).datafile then truncate
  else do
    let opened ← call w .openFile
    if opened < 0 then pure (-eio)
    else do
      setFile fun of => { of with datafile := true }
      let size ← call w .fileSize
      if size = -1 then pure (-eio)
      else do
        setFile fun of => { of with
          currentsize := if of.encrypted then FsCrypto.plainSize size.toNat else size.toNat }
        let ret ← openIndex w
        if ret ≠ 0 then pure ret else openLog w

/-- The part of `psync_fs_reopen_file_for_writing` that makes a new file of it. -/
def convertToNewfile (size : Nat) : Call Int := do
  place (.creat size)
  let created ← call w .addCreat
  if created < 0 then do
    unlockPagesFromCache
    pure (-eio)
  else do
    setFile fun of => { of with newfile := true, modified := true }
    place (.writeFiles size)
    let ret ← openWriteFiles w (pure 0)
    if ret ≠ 0 then do
      unlockPagesFromCache
      pure ret
    else do
      let ret ← (if size ≠ 0 then do
          let err ← call w .copyAllPages
          unlockPagesFromCache
          pure err
        else pure 0)
      if ret ≠ 0 then pure (-eio)
      else do
        setFile fun of => { of with currentsize := of.initialsize }
        pure 1

/-- The part of `psync_fs_reopen_file_for_writing` that makes a modified file of it. -/
def convertToModified : Call Int := do
  let added ← call w .addModifiedFile
  if added < 0 then pure (-eio)
  else do
    let ret ← openWriteFiles w (pure 0)
    if ret ≠ 0 then pure ret
    else do
      let err ← call w .seekTruncate
      if err ≠ 0 then pure (-eio)
      else do
        setFile fun of => { of with modified := true, currentsize := of.initialsize }
        pure 0

/-- `psync_fs_reopen_file_for_writing` with the lock of the database: `size` is what the file has
in the cloud. -/
def reopenAs (size : Nat) : Call Int := do
  if size = 0 then convertToNewfile w size
  else if PSYNC_FS_MAX_SIZE_CONVERT_NEWFILE < size then convertToModified w
  else do
    let all ← call w .haveAllPagesInCache
    if all = 0 then convertToModified w
    else do
      let locked ← lockPagesInCache w
      if locked ≠ 0 then convertToModified w else convertToNewfile w size

/-- `psync_fs_reopen_file_for_writing` after the encoder is there. -/
def reopenLocked : Call Int := do
  let busy ← call w .sqlTrylock
  if busy ≠ 0 then do
    unlock
    lockFile w
    let of ← file
    if of.newfile ∨ of.modified then pure 1 else withKey
  else withKey
where
  /-- The part that checks the keys of an encrypted file. -/
  withKey : Call Int := do
    let of ← file
    if of.encrypted then do
      let expired ← call w .isexpired
      if expired ≠ 0 then pure (-cryptoExpired)
      else do
        let key ← call w .getFileEncodedKey
        if key < 0 then pure (-cryptoErrToErrno key) else reopenAs w (cryptoSize of.initialsize)
    else reopenAs w of.initialsize

/-- `psync_fs_reopen_file_for_writing`.  Without an encoder it returns with the mutex unlocked. -/
def reopenFileForWriting : Call Int := do
  let of ← file
  if of.encrypted = true ∧ of.encoder = .unloaded then do
    unlock
    place .encoder
    let enc ← call w .getFileEncoder
    if enc < 0 then pure (-cryptoErrToErrno enc)
    else do
      lockFile w
      setFile fun of => if of.encoder = .unloaded then { of with encoder := .loaded } else of
      let of ← file
      if of.newfile ∨ of.modified then pure 1 else reopenLocked w
  else reopenLocked w

/-! ## Space for writes -/

/-- `psync_fs_inc_writeid_locked` -/
def incWriteidLocked : Call Unit := do
  if (← file).releasedforupload then do
    let busy ← call w .sqlTrylock
    (if busy ≠ 0 then do
      unlock
      lockFile w
    else pure ())
    let of ← file
    (if of.releasedforupload then do
      setFile fun of => { of with releasedforupload := false }
      let _ ← call w .stopUpload
      pure ()
    else pure ())
    setFile fun of => { of with writeid := of.writeid + 1 }
  else setFile fun of => { of with writeid := of.writeid + 1 }

/-- `psync_fs_check_modified_file_write_space` -/
def Openfile.checkModifiedFileWriteSpace (of : Openfile) (size offset : Nat) : Bool :=
  let start :=
    if of.encrypted then dataSectoridBySectorid (offset / sectorSize) * sectorSize else offset
  let stop :=
    if of.encrypted then dataSectoridBySectorid ((offset + size) / sectorSize) * sectorSize +
      (offset + size) % sectorSize
    else offset + size
  match (intervalsFrom of.writeintervals start).head? with
  | none => false
  | some tr => tr.start ≤ start && stop ≤ tr.stop

/-- The end of `psync_fs_do_check_write_space`: the write may have to wait; how long plays no part
here. -/
def throttleWrite (size : Nat) (freed : Bool) : Call Int := do
  let speed ← call w .uploadspeed
  let cached ← (if speed = 0 ∧ freed = false then call w .freeFromReadCache else pure 0)
  if speed = 0 ∧ (freed ∨ size ≤ cached) then do
    lockFile w
    pure 1
  else do
    let _ ← call w .throttle
    lockFile w
    pure 1

/-- `psync_fs_do_check_write_space`.  An error is returned with the mutex unlocked. -/
def doCheckWriteSpace (size : Nat) : Call Int := do
  let minlocal ← call w .minlocalfreespace
  let freespc ← call w .freeSpace
  if freespc = -1 then pure 1
  else if minlocal + size ≤ freespc then do
    setFile fun of => { of with throttle := false }
    pure 1
  else do
    setFile fun of => { of with throttle := true }
    unlock
    if freespc ≤ minlocal / 2 ∨ minlocal ≤ PSYNC_FS_PAGE_SIZE ∨ freespc ≤ size then do
      let cached ← call w .freeFromReadCache
      if cached < size * 2 then pure (-eintr) else throttleWrite w size true
    else if freespc ≤ minlocal / 4 * 3 then do
      let cached ← call w .freeFromReadCache
      throttleWrite w size (size ≤ cached)
    else throttleWrite w size false

/-- `psync_fs_check_write_space` -/
def checkWriteSpace (size offset : Nat) : Call Int := do
  let of ← file
  if of.throttle = false ∧ of.writeid % 64 ≠ 0 then pure 1
  else if offset + size ≤ of.currentsize ∧ of.modified ∧
    of.checkModifiedFileWriteSpace size offset then
    pure 1
  else doCheckWriteSpace w size

/-! ## Calls -/

/-- `psync_fs_modfile_check_size_ok` -/
def modfileCheckSizeOk (size : Nat) : Call Int := do
  let of ← file
  if of.currentsize < size then do
    let err ← call w .seekTruncate
    if err ≠ 0 then pure (-1)
    else if of.newfile then pure 0
    else do
      let bw ← call w .writeIndex
      if bw < 0 then pure (-1)
      else do
        setFile fun of => { of with
          writeintervals := Intervals.add of.currentsize size of.writeintervals
          currentsize := size }
        pure 0
  else pure 0

/-- `psync_fs_ftruncate_of_locked` from `retry` on. -/
def ftruncateRetry (size : Nat) : Nat → Call Int
  | 0 => Prog.stop
  | n + 1 => do
    let of ← file
    if of.newfile = false ∧ of.modified = false then do
      let ret ← reopenFileForWriting w
      if ret = 1 then ftruncateRetry size n
      else if ret < 0 then pure ret
      else truncate
    else truncate
where
  /-- The part after the file is open for writing. -/
  truncate : Call Int := do
    if (← file).encrypted then cryptoFtruncate w fuel size
    else do
      let err ← modfileCheckSizeOk w size
      if err ≠ 0 then pure (-eio)
      else do
        let of ← file
        let err ← (if of.currentsize ≠ size then call w .seekTruncate else pure 0)
        if err ≠ 0 then pure (-eio)
        else do
          setFile fun of => { of with currentsize := size }
          pure 0

/-- `psync_fs_ftruncate_of_locked` -/
def ftruncateOfLocked (size : Nat) : Call Int := do
  if (← file).currentsize = size then pure 0
  else do
    incWriteidLocked w
    ftruncateRetry w fuel size fuel

/-- `psync_fs_ftruncate` -/
def fsFtruncate (size : Nat) : Call Int := do
  lockFile w
  let ret ← ftruncateOfLocked w fuel size
  unlockRet ret

/-- `psync_fs_reopen_static_file_for_writing` with the lock of the database. -/
def reopenStaticLocked : Call Int := do
  let created ← call w .addCreat
  if created < 0 then pure (-eio)
  else do
    setFile fun of =>
      { of with writeid := 0, newfile := true, modified := true, staticfile := false }
    let ret ← openWriteFiles w (ftruncateOfLocked w fuel 0)
    if ret ≠ 0 then pure ret
    else do
      let size := (← file).currentsize
      let bw ← call w .pwrite
      pure (if bw ≠ size then -eio else 1)

/-- `psync_fs_reopen_static_file_for_writing` -/
def reopenStaticFileForWriting : Call Int := do
  let of ← file
  Prog.assert (of.encrypted = false)
  Prog.assert (of.staticfile = true)
  let busy ← call w .sqlTrylock
  if busy ≠ 0 then do
    unlock
    lockFile w
    if (← file).staticfile then reopenStaticLocked w fuel else pure 1
  else reopenStaticLocked w fuel

/-- `psync_fs_write_modified` -/
def writeModified (size offset : Nat) : Call Int := do
  let err ← modfileCheckSizeOk w offset
  if err ≠ 0 then pure (-eio)
  else do
    let bw ← call w .pwrite
    if bw = -1 then pure (-eio)
    else do
      let rec ← call w .writeIndex
      if rec < 0 then pure (-eio)
      else do
        setFile fun of => { of with
          writeintervals := Intervals.add offset (offset + bw.toNat) of.writeintervals
          currentsize := if of.currentsize < offset + size then offset + size else of.currentsize }
        pure bw

/-- `psync_fs_write_newfile` -/
def writeNewfile (size offset : Nat) : Call Int := do
  let bw ← call w .pwrite
  (if bw ≠ -1 then growTo (offset + size) else pure ())
  pure bw

/-- `psync_fs_write` from `retry` on. -/
def writeRetry (size offset : Nat) : Nat → Call Int
  | 0 => Prog.stop
  | n + 1 => do
    let of ← file
    if of.newfile then
      if of.encrypted then cryptoWriteNewfileLocked w fuel size offset
      else do
        let ret ← writeNewfile w size offset
        unlockRet (if ret = -1 then -eio else ret)
    else if of.modified = false then do
      let ret ← reopenFileForWriting w
      if ret = 1 then writeRetry size offset n
      else if ret < 0 then unlockRet ret
      else writeToModified (writeRetry size offset n)
    else writeToModified (writeRetry size offset n)
where
  /-- The part for a modified file; a static file is made a new one first. -/
  writeToModified (retry : Call Int) : Call Int := do
    let of ← file
    if of.encrypted then cryptoWriteModifiedLocked w fuel size offset
    else if of.staticfile then do
      let ret ← reopenStaticFileForWriting w fuel
      if ret = 1 then retry else unlockRet ret
    else do
      let ret ← writeModified w size offset
      unlockRet ret

/-- `psync_fs_write` -/
def fsWrite (size offset : Nat) : Call Int := do
  lockFile w
  let ret ← checkWriteSpace w size offset
  if ret ≤ 0 then pure ret
  else do
    incWriteidLocked w
    writeRetry w fuel size offset fuel

/-- The loop of `psync_pagecache_read_modified_locked`. -/
def readIntervals (size offset : Nat) (rd : Int) : List (Span Nat) → Call Int
  | [] => unlockRet rd
  | fi :: rest =>
    if offset + size ≤ fi.start then unlockRet rd
    else do
      let br ← call w .pread
      if br = -1 then unlockRet (-eio)
      else
        let reach := br + Ppagecache.ioffset offset fi - offset
        readIntervals size offset (if rd ≠ size ∧ rd < reach then reach else rd) rest

/-- `psync_pagecache_read_modified_locked` -/
def pagecacheReadModifiedLocked (size offset : Nat) : Call Int := do
  let of ← file
  let whole := match (intervalsFrom of.writeintervals offset).head? with
    | none => false
    | some fi => fi.start ≤ offset && offset + size ≤ fi.stop
  if whole then do
    let br ← call w .pread
    unlockRet (if br = -1 then -eio else br)
  else do
    let rd ← readUnmodifiedLocked w offset
    if rd < 0 then pure rd
    else do
      lockFile w
      readIntervals w size offset rd (intervalsFrom (← file).writeintervals offset)

/-- `psync_fs_read` -/
def fsRead (size offset : Nat) : Call Int := do
  lockFile w
  let of ← file
  if of.encrypted then
    if of.newfile then readNewfileLocked w fuel size offset
    else if of.modified then cryptoReadModifiedLocked w fuel size offset
    else readUnmodifiedEncryptedLocked w fuel size offset
  else if of.newfile then do
    let br ← call w .pread
    unlockRet (if br = -1 then -eio else br)
  else if of.modified then
    if of.staticfile then unlockRet (min size (of.currentsize - offset) : Nat)
    else pagecacheReadModifiedLocked w size offset
  else readUnmodifiedLocked w offset

/-! ## Wrong answers -/

/-- What the world makes of the step at a place is wrong. -/
def Fails : Place → Thread → Prop
  | .encoder, t => (w.answer .getFileEncoder t.clock t.file).1 < 0
  | .creat size, t => size = 0 ∧ (w.answer .addCreat t.clock t.file).1 < 0
  | .writeFiles size, t =>
    size = 0 ∧ ∃ ret, (openWriteFiles w (pure 0)).value t = some ret ∧ ret ≠ 0
  | .sector read rd, t => (w.answer read t.clock t.file).1 ≠ rd
  | .truncateRead size offset, t =>
    ∃ ret, (cryptoReadModifiedLocked w fuel size offset).value t = some ret ∧ ret < 0
  | .truncateWrite size offset, t =>
    ∃ ret, (cryptoWriteModifiedLocked w fuel size offset).value t = some ret ∧ ret < 0

end

end PcloudClient.Pfs.Locks
