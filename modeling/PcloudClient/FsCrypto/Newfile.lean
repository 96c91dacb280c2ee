/-
  FsCrypto/Newfile.lean --- writes to the log and truncation, where the mutex is held
  throughout (`pfscrypto.c`, lines 1059-1169 and 1451-1553).

  Sizes and offsets are those of calls whose end fits 64 bits.  A write that waits for an
  extender is modelled at the point where the wait is over.
-/
import PcloudClient.FsCrypto.Finalize

set_option autoImplicit false

namespace PcloudClient.FsCrypto

open PcloudClient.Bytes

/-- `PSYNC_CRYPTO_MAX_LOG_SIZE` -/
abbrev maxLogSize : Nat := 64 * 1024 * 1024

/-- `PSYNC_CRYPTO_RUN_EXTEND_IN_THREAD_OVER` -/
abbrev runExtendInThreadOver : Nat := 1024 * 1024

/-- A 64-bit count returned as `int`. -/
def toInt (n : Nat) : Int := Int.bmod n (2 ^ 32)

/-- What `psync_fs_crypto_wait_extender_after_locked` returns when its loop is over. -/
def Openfile.extenderError (of : Openfile) : Int :=
  match of.extender with
  | some ext => ext.error
  | none => 0

/-- `if (of->currentsize<offset) of->currentsize=offset;` -/
def Openfile.growTo (of : Openfile) (offset : Nat) : Openfile :=
  if of.currentsize < offset then { of with currentsize := offset } else of

section

variable (env : Env)

/-! ## Writing -/

/-- The `while (size)` loop of `psync_fs_newfile_fillzero`. -/
def fillzeroLoop (of : Openfile) (size offset sectorid : Nat) : Except Abort Openfile :=
  if _h : size = 0 then .ok of
  else do
    let wr := if sectorSize < size then sectorSize else size
    let of ← writeNewfileFullSector env of (zeros wr) sectorid
    fillzeroLoop (of.growTo (offset + wr)) (size - wr) (offset + wr) (sectorid + 1)
termination_by size
decreasing_by
  rw [sectorSize_eq] at *
  split <;> omega

/-- `psync_fs_newfile_fillzero` -/
def newfileFillzero (of : Openfile) (size offset : Nat) : Except Abort (Openfile × Int) := do
  let sectorid := offset / sectorSize
  if offset % sectorSize ≠ 0 then
    let wr := min (sectorSize - offset % sectorSize) size
    let res ← writeNewfilePartialSector env of (zeros wr) sectorid (offset % sectorSize)
    if res.2 < 0 then return res
    let of := res.1.growTo (offset + wr)
    return (← fillzeroLoop env of (size - wr) (offset + wr) (sectorid + 1), 0)
  else return (← fillzeroLoop env of size offset sectorid, 0)

/-- The loop over full sectors of `psync_fs_crypto_write_newfile_locked_nu` and the last
partial sector. -/
def writeSectorsLoop (of : Openfile) (buf : Bytes) (offset sectorid : Nat) :
    Except Abort (Openfile × Int) :=
  if _h : sectorSize ≤ buf.length then do
    let of ← writeNewfileFullSector env of (buf.take sectorSize) sectorid
    writeSectorsLoop (of.growTo (offset + sectorSize)) (buf.drop sectorSize)
      (offset + sectorSize) (sectorid + 1)
  else if buf ≠ [] then do
    let res ←
      if offset = of.currentsize then
        (fun of => (of, (0 : Int))) <$> writeNewfileFullSector env of buf sectorid
      else writeNewfilePartialSector env of buf sectorid 0
    if res.2 ≠ 0 then return res
    return (res.1.growTo (offset + buf.length), 0)
  else return (of, 0)
termination_by buf.length
decreasing_by
  rw [sectorSize_eq] at *
  rw [List.length_drop]
  omega

/-- The part of `psync_fs_crypto_write_newfile_locked_nu` that puts `buf` in the log once
the gap before it is filled. -/
def writeBuffer (of : Openfile) (buf : Bytes) (offset : Nat) : Except Abort (Openfile × Int) := do
  let sectorid := offset / sectorSize
  let off2 := offset % sectorSize
  if off2 ≠ 0 then
    let offdiff := if sectorSize - off2 < buf.length then sectorSize - off2 else buf.length
    let res ← writeNewfilePartialSector env of (buf.take offdiff) sectorid off2
    if res.2 ≠ 0 then return res
    writeSectorsLoop env (res.1.growTo (offset + offdiff)) (buf.drop offdiff) (offset + offdiff)
      (sectorid + 1)
  else writeSectorsLoop env of buf offset sectorid

/-- The part of `psync_fs_crypto_write_newfile_locked_nu` that appends to the log: the gap
before `offset` and then `buf`. -/
def writeRecords (of : Openfile) (buf : Bytes) (offset : Nat) : Except Abort (Openfile × Int) := do
  let gap ←
    if of.currentsize < offset then
      newfileFillzero env of (offset - of.currentsize) of.currentsize
    else pure (of, 0)
  if gap.2 ≠ 0 then return gap
  if of.currentsize < offset then assert (gap.1.currentsize = offset)
  writeBuffer env gap.1 buf offset

/-- `psync_fs_crypto_write_newfile_locked_nu` -/
def writeNewfileLockedNu (of : Openfile) (buf : Bytes) (offset : Nat) (checkextender : Bool) :
    Except Abort (Openfile × Int) := do
  if maxSectorid < (buf.length + offset + sectorSize - 1) / sectorSize then return (of, -einval)
  if buf = [] then return (of, 0)
  if checkextender ∧ of.extenderError ≠ 0 then return (of, of.extenderError)
  let res ← writeRecords env of buf offset
  if res.2 ≠ 0 then return res
  if maxLogSize ≤ res.1.logoffset then
    let fin ← finalizeLog env res.1
    if fin.2 ≠ 0 then return fin
    return (fin.1, toInt buf.length)
  return (res.1, toInt buf.length)

/-! ## Truncation -/

/-- `psync_fs_crypto_kill_extender_locked` -/
def killExtender (of : Openfile) : Openfile :=
  { of with extender := of.extender.map fun ext => { ext with kill := true } }

/-- `psync_fs_crypto_ftruncate_to_zero`; it returns zero. -/
def ftruncateToZero (of : Openfile) : Except Abort Openfile := do
  let of := initLog { of with
    logfile := File.truncate of.logfile 0
    trace := of.trace ++ [.truncate .log 0] }
  let of ←
    if of.newfile then pure of
    else Openfile.intervalTreeAdd { of with writeintervals := [] } 0 (cryptoSize of.initialsize)
  return killExtender { of with sectorsinlog := .nil, currentsize := 0 }

/-- The loop of `psync_fs_crypto_ftruncate_down` that removes the entries of
`lastsectorid` and later sectors from the tree. -/
def dropSectorsLoop : (fuel : Nat) → Ptree.Tree SectorInlog → (lastsectorid : Nat) →
    Except Abort (Ptree.Tree SectorInlog)
  | 0, t, _ => .ok t
  | fuel + 1, t, lastsectorid =>
    match t.getLast with
    | none => .ok t
    | some e =>
      if lastsectorid ≤ e.sectorid then do
        let t' := t.delLast
        assert (t'.getLast.all fun p => p.sectorid < e.sectorid)
        dropSectorsLoop fuel t' lastsectorid
      else .ok t

/-- `psync_interval_tree_cut_end` -/
def cutEnd (stop : Nat) (ivs : List (Nat × Nat)) : List (Nat × Nat) :=
  (ivs.filter fun i => i.1 < stop).map fun i => (i.1, min i.2 stop)

/-- The end of `psync_fs_crypto_ftruncate_down`, which rewrites the last sector from what was
read of it. -/
def cutLastSector (of : Openfile) (size : Nat) (buf : Bytes) : Except Abort Openfile := do
  let lastsectorid := (size - 1) / sectorSize
  let lastsectoff := lastsectorid * sectorSize
  let t ← dropSectorsLoop of.sectorsinlog.toList.length of.sectorsinlog lastsectorid
  let of := { of with currentsize := lastsectoff, sectorsinlog := t }
  let of ← writeNewfileFullSector env of (buf.take (size - lastsectoff)) lastsectorid
  let of := { of with currentsize := size }
  return if of.newfile then of
    else { of with writeintervals := cutEnd (cryptoSize size) of.writeintervals }

/-- `psync_fs_crypto_run_extender`; it returns zero. -/
def runExtender (of : Openfile) (size : Nat) : Except Abort Openfile := do
  assert (of.currentsize < size)
  assert (of.extender = none)
  let ext : Extender :=
    { extendto := size
      extendedto := of.currentsize
      waiters := 0
      error := 0
      ready := false
      kill := false }
  return { of with extender := some ext, currentsize := size }

end

end PcloudClient.FsCrypto
