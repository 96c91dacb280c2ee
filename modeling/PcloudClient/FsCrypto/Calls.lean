/-
  FsCrypto/Calls.lean --- the calls on one open encrypted file and the thread that extends it
  (`pfscrypto.c`, lines 282-326, 1269-1449, 1473-1694; `pfs.c`, 1042-1111 and 2255-2289).

  The mutex of the file is given up in the middle of a call: while it waits for the
  extender and while it is at the network.  A frame is a place in the code where a thread
  goes on, and a thread is a stack of frames; between two unlocks only one of them runs.
-/
import PcloudClient.FsCrypto.Download

set_option autoImplicit false

namespace PcloudClient.FsCrypto

open PcloudClient.Bytes

/-! ## The extender -/

/-- `PSYNC_CRYPTO_EXTENDER_STEP` -/
abbrev extenderStep : Nat := 512 * 1024

/-- The size of the next batch. -/
def Extender.batch (ext : Extender) : Nat :=
  if extenderStep < ext.extendto - ext.extendedto then
    extenderStep - ext.extendedto % sectorSize
  else ext.extendto - ext.extendedto

namespace Openfile

variable (of : Openfile)

/-- `ext` of `psync_fs_extender_thread`, which is `of->extender` as long as the thread runs. -/
def runningExtender : Except Abort Extender :=
  match of.extender with
  | some ext => .ok ext
  | none => .error .assertFailed

/-- The loop of the thread is over. -/
def extenderReady : Openfile :=
  { of with extender := of.extender.map fun ext => { ext with ready := true } }

/-- The loop of the thread is left with `error`. -/
def extenderFail (ext : Extender) (error : Int) : Openfile :=
  { of with
    currentsize := ext.extendedto
    extender := some { ext with error := error, ready := true } }

/-- The number of `waiters` becomes `f` of it. -/
def setWaiters (f : Nat → Nat) : Openfile :=
  { of with extender := of.extender.map fun ext => { ext with waiters := f ext.waiters } }

end Openfile

/-! ## Frames -/

/-- Where a thread goes on. -/
inductive Frame where
  -- `psync_fs_crypto_wait_extender_after_locked`
  | waitAfter (offset : Nat)
  -- `psync_fs_crypto_wait_no_extender_locked`
  | waitNoExtender
  | waitGone (ret : Int)
  -- behind a `pthread_cond_wait`
  | waited
  -- `psync_fs_crypto_write_newfile_locked_nu`
  | writeNewfile (buf : Bytes) (offset : Nat) (checkextender : Bool)
  -- `psync_fs_newfile_fillzero`
  | newfileFillzero (size offset : Nat)
  -- `psync_fs_crypto_write_modified_locked_nu`
  | writeModified (buf : Bytes) (offset : Nat) (checkextender : Bool)
  | retryWrite (buf : Bytes) (offset : Nat) (checkextender : Bool)
  | filledGap (buf : Bytes) (offset : Nat) (checkextender : Bool)
  | fetched (ranges : List (Nat × Nat)) (buf : Bytes) (offset : Nat) (checkextender : Bool)
  -- `psync_fs_modfile_fillzero`
  | modfileFillzero (size offset : Nat) (checkextender : Bool)
  | filled (size offset : Nat) (checkextender : Bool)
  -- `psync_fs_crypto_ftruncate`
  | ftruncate (size : Nat)
  | waitedNone (size : Nat)
  | runExtender (size : Nat)
  -- `psync_fs_crypto_ftruncate_down` from its `retry` on
  | shrink (size lastsectoroldsize : Nat)
  | shrinkRead (size lastsectoroldsize writeid : Nat)
  | shrinkUnlock
  | shrinkWritten (size lastsectoroldsize writeid : Nat) (buf : Bytes)
  | cutLastSector (size : Nat) (buf : Bytes)
  -- `psync_fs_crypto_flush_file`
  | flush
  -- `psync_fs_extender_thread`
  | extender
  | extended (extendedto : Nat)
  | extenderYield
  | extenderFinalize
  | extenderEnd

/-- The check against `PSYNC_CRYPTO_MAX_SECTORID`. -/
def PastMaxSectorid (size offset : Nat) : Prop :=
  maxSectorid < (size + offset + sectorSize - 1) / sectorSize

instance (size offset : Nat) : Decidable (PastMaxSectorid size offset) :=
  inferInstanceAs (Decidable (_ < _))

/-- `psync_fs_crypto_write_newfile_locked_nu`, which waits after its first two checks. -/
def writeNewfileFrames (buf : Bytes) (offset : Nat) (checkextender : Bool) : List Frame :=
  if checkextender ∧ ¬ PastMaxSectorid buf.length offset ∧ buf ≠ [] then
    [.waitAfter (offset + buf.length), .writeNewfile buf offset checkextender]
  else [.writeNewfile buf offset checkextender]

/-- `psync_fs_crypto_write_modified_locked_nu`, which waits after its first check. -/
def writeModifiedFrames (buf : Bytes) (offset : Nat) (checkextender : Bool) : List Frame :=
  if checkextender ∧ ¬ PastMaxSectorid buf.length offset then
    [.waitAfter (offset + buf.length), .writeModified buf offset checkextender]
  else [.writeModified buf offset checkextender]

/-- The zeros that a truncation or the extender appends. -/
def Openfile.fillFrames (of : Openfile) (size offset : Nat) : List Frame :=
  if of.newfile then [.newfileFillzero size offset] else [.modfileFillzero size offset false]

/-- What a frame comes to: the frames that are to run before the one below it, the value it
returns to that one, and whether it gives up the mutex or starts the extender. -/
structure Next where
  of : Openfile
  frames : List Frame := []
  ret : Int := 0
  unlocks : Bool := false
  spawns : Bool := false

section

variable (env : Env)

/-- The part of `psync_fs_crypto_ftruncate_down` before its `retry`. -/
def ftruncateDown (of : Openfile) (size : Nat) : Except Abort Next := do
  assert (0 < size ∧ size < of.currentsize)
  let lastsectoff := (size - 1) / sectorSize * sectorSize
  let lastsectoroldsize :=
    if lastsectoff + sectorSize ≤ of.currentsize then sectorSize else of.currentsize - lastsectoff
  let frames := [.shrink size lastsectoroldsize]
  match of.extender with
  | some ext =>
    if ext.error ≠ 0 then return { of, ret := ext.error }
    else if ext.ready then return { of, frames }
    else if size < ext.extendedto then return { of := killExtender of, frames }
    else
      return {
        of := { of with extender := some { ext with extendto := size }, currentsize := size } }
  | none => return { of, frames }

/-- `psync_fs_crypto_ftruncate` -/
def ftruncate (of : Openfile) (size : Nat) : Except Abort Next := do
  if of.currentsize < size then
    match of.extender with
    | some ext =>
      if ext.ready then return { of, frames := [.waitNoExtender, .waitedNone size] }
      assert (ext.extendto < size)
      return {
        of := { of with extender := some { ext with extendto := size }, currentsize := size } }
    | none =>
      if runExtendInThreadOver ≤ size - of.currentsize then
        if of.newfile then return { of, frames := [.runExtender size] }
        else
          -- better to learn of an error of the network now
          return { of, frames := [.modfileFillzero (of.currentsize % sectorSize + sectorSize)
            of.currentsize false, .runExtender size] }
      else return { of, frames := of.fillFrames (size - of.currentsize) of.currentsize }
  else if size < of.currentsize then
    if size = 0 then return { of := ← ftruncateToZero of } else ftruncateDown of size
  else return { of }

/-- What a frame does up to where another one runs: `ret` is what the frame above it returned,
and `reply` what it finds when it was at the network. -/
def Frame.exec (writeid : Nat) (of : Openfile) (ret : Int) (reply : Reply) :
    Frame → Except Abort Next
  | .waitAfter offset =>
    match of.extender with
    | some ext =>
      if ¬ ext.ready ∧ ext.extendedto < offset then
        .ok { of := of.setWaiters (· + 1), frames := [.waited, .waitAfter offset], unlocks := true }
      else .ok { of, ret := ext.error }
    | none => .ok { of }
  | .waitNoExtender =>
    match of.extender with
    | some ext =>
      if ¬ ext.ready then
        .ok { of := of.setWaiters (· + 1), frames := [.waited, .waitNoExtender], unlocks := true }
      else .ok { of, frames := [.waitGone ext.error], unlocks := true }
    | none => .ok { of }
  | .waitGone ret =>
    if of.extender.isSome then .ok { of, frames := [.waitGone ret], unlocks := true }
    else .ok { of, ret }
  | .waited => .ok { of := of.setWaiters (· - 1) }
  | .writeNewfile buf offset checkextender => do
    let res ← writeNewfileLockedNu env of buf offset checkextender
    return { of := res.1, ret := res.2 }
  | .newfileFillzero size offset => do
    let res ← FsCrypto.newfileFillzero env of size offset
    return { of := res.1, ret := res.2 }
  | .writeModified buf offset checkextender =>
    if PastMaxSectorid buf.length offset then .ok { of, ret := -einval }
    else if checkextender ∧ of.extenderError ≠ 0 then .ok { of, ret := of.extenderError }
    else if buf = [] then .ok { of }
    else .ok { of, frames := [.retryWrite buf offset checkextender] }
  | .retryWrite buf offset checkextender =>
    if of.currentsize < offset then
      .ok { of, frames := [.modfileFillzero (offset - of.currentsize) of.currentsize false,
        .filledGap buf offset checkextender] }
    else .ok { of, frames := [.filledGap buf offset checkextender] }
  | .filledGap buf offset checkextender => do
    if ret ≠ 0 then return { of, ret }
    let ranges ← needToDownload of buf.length offset
    if ranges = [] then return { of, frames := writeNewfileFrames buf offset checkextender }
    return { of, frames := [.fetched ranges buf offset checkextender], unlocks := true }
  | .fetched ranges buf offset checkextender => do
    if reply.ret ≠ 0 then return { of, ret := reply.ret }
    let res ← storeRanges reply of ranges
    if res.2 then return { of := res.1, frames := [.retryWrite buf offset checkextender] }
    return { of := res.1, frames := writeNewfileFrames buf offset checkextender }
  | .modfileFillzero size offset checkextender =>
    if size = 0 then .ok { of }
    else
      let wr :=
        if offset % sectorSize ≠ 0 then min (sectorSize - offset % sectorSize) size
        else min sectorSize size
      .ok { of, frames :=
        writeModifiedFrames (zeros wr) offset checkextender ++ [.filled size offset checkextender] }
  | .filled size offset checkextender =>
    if ret ≤ 0 then .ok { of, ret }
    else .ok { of, frames :=
      [.modfileFillzero (size - ret.toNat) (offset + ret.toNat) checkextender] }
  | .ftruncate size => FsCrypto.ftruncate of size
  | .waitedNone size => if ret ≠ 0 then .ok { of, ret } else .ok { of, frames := [.ftruncate size] }
  | .runExtender size => do
    if ret ≠ 0 then return { of, ret }
    return { of := ← FsCrypto.runExtender of size, spawns := true }
  | .shrink size lastsectoroldsize => do
    let lastsectorid := (size - 1) / sectorSize
    if of.IsLocal lastsectorid then
      let rd ← readNewfileFullSector env of lastsectorid
      if rd.1 < 0 then return { of, ret := rd.1 }
      assert (rd.1 = lastsectoroldsize)
      return { of, frames := [.cutLastSector size rd.2] }
    else return { of, frames := [.shrinkRead size lastsectoroldsize writeid], unlocks := true }
  | .shrinkRead size lastsectoroldsize before =>
    -- a caller that is told of an error unlocks the mutex once more
    if reply.ret < 0 then .error .notLocked
    else if writeid ≠ before then .ok { of, frames := [.shrink size lastsectoroldsize] }
    else
      let lastsectoff := (size - 1) / sectorSize * sectorSize
      let buf := reply.range (lastsectoff, lastsectoff + lastsectoroldsize)
      .ok { of, frames := writeModifiedFrames buf lastsectoff true ++
        [.shrinkUnlock, .shrinkWritten size lastsectoroldsize before buf] }
  | .shrinkUnlock => .ok { of, ret, unlocks := true }
  | .shrinkWritten size lastsectoroldsize before buf =>
    if ret < 0 then .error .notLocked
    else if writeid ≠ before then .ok { of, frames := [.shrink size lastsectoroldsize] }
    else .ok { of, frames := [.cutLastSector size buf] }
  | .cutLastSector size buf => do return { of := ← FsCrypto.cutLastSector env of size buf }
  | .flush => do
    if ret ≠ 0 then return { of, ret }
    let fin ← finalizeLog env of
    return { of := fin.1, ret := fin.2 }
  | .extender => do
    let ext ← of.runningExtender
    if ¬ ext.kill ∧ ext.extendedto < ext.extendto then
      return { of, frames := of.fillFrames ext.batch ext.extendedto ++
        [.extended (ext.extendedto + ext.batch)] }
    else return { of := of.extenderReady, frames := [.extenderEnd] }
  | .extended extendedto => do
    let ext ← of.runningExtender
    if ret ≠ 0 then return { of := of.extenderFail ext ret, frames := [.extenderEnd] }
    -- no other thread moves `extendedto`
    return {
      of := { of with extender := some { ext with extendedto := extendedto } }
      frames := [.extenderYield], unlocks := true }
  | .extenderYield => do
    let ext ← of.runningExtender
    return { of, frames := [.extenderFinalize], unlocks := ext.waiters ≠ 0 }
  | .extenderFinalize => do
    let ext ← of.runningExtender
    if of.logoffset < maxLogSize then return { of, frames := [.extender] }
    let fin ← finalizeLog env of
    if fin.2 ≠ 0 then return { of := fin.1.extenderFail ext fin.2, frames := [.extenderEnd] }
    return { of := fin.1, frames := [.extender] }
  | .extenderEnd => do
    let ext ← of.runningExtender
    if ext.waiters ≠ 0 then return { of, frames := [.extenderEnd], unlocks := true }
    return { of := { of with extender := none } }

end

/-! ## Threads -/

/-- The calls on the open file.  Of a read, which changes nothing, only the wait for the extender
is kept. -/
inductive Call where
  | write (buf : Bytes) (offset : Nat)
  | truncate (size : Nat)
  | flush
  | read (size offset : Nat)

/-- `rfr==1` in `psync_fs_crypto_read_modified_locked`. -/
def Openfile.AllLocal (of : Openfile) (size offset : Nat) : Prop :=
  let firstsectorid := offset / sectorSize
  let lastsectorid := (offset + size - 1) / sectorSize
  ∀ s ∈ List.range' firstsectorid (lastsectorid + 1 - firstsectorid), of.IsLocal s

instance (of : Openfile) (size offset : Nat) : Decidable (of.AllLocal size offset) :=
  inferInstanceAs (Decidable (∀ s ∈ _, _))

/-- What the reads begin with: `psync_fs_crypto_read_newfile_locked`, which
`psync_fs_crypto_read_modified_locked` calls where all sectors are local. -/
def readFrames (of : Openfile) (size offset : Nat) : List Frame :=
  if PastMaxSectorid size offset then []
  else if of.newfile then [.waitAfter (offset + size)]
  else if size = 0 ∨ of.currentsize ≤ offset then []
  else
    let size := min size (of.currentsize - offset)
    if of.AllLocal size offset then [.waitAfter (offset + size)] else []

/-- What `psync_fs_write`, `psync_fs_ftruncate_of_locked`, `psync_fs_crypto_flush_file` and the
reads begin with. -/
def Call.frames (of : Openfile) : Call → List Frame
  | .write buf offset =>
    if of.newfile then writeNewfileFrames buf offset true else writeModifiedFrames buf offset true
  | .truncate size => if of.currentsize = size then [] else [.ftruncate size]
  | .flush => [.waitNoExtender, .flush]
  | .read size offset => readFrames of size offset

/-- `psync_fs_inc_writeid_locked` -/
def Call.nextWriteid (of : Openfile) (writeid : Nat) : Call → Nat
  | .write _ _ => writeid + 1
  | .truncate size => if of.currentsize = size then writeid else writeid + 1
  | _ => writeid

variable {ι : Type} [DecidableEq ι]

/-- The open file, who holds its mutex, and the threads: those that make calls, and `none`, the
extender.  `ret` is what the frame that ended last in a thread returned. -/
structure Machine (ι : Type) where
  of : Openfile
  writeid : Nat
  holder : Option (Option ι)
  stack : Option ι → List Frame
  ret : Option ι → Int

/-- A thread makes a call, or runs its first frame. -/
inductive Act (ι : Type) where
  | start (t : ι) (call : Call)
  | run (t : Option ι) (reply : Reply)

namespace Machine

/-- The file with no call on it. -/
def idle (of : Openfile) : Machine ι := ⟨of, 0, none, fun _ => [], fun _ => 0⟩

/-- The thread `t` has the frames `frames` now, and the mutex if there are any. -/
def resume (m : Machine ι) (t : Option ι) (frames : List Frame) (unlocks : Bool) : Machine ι :=
  { m with
    holder := if unlocks ∨ frames = [] then none else some t
    stack := Function.update m.stack t frames }

/-- One act, with what a call returns that is over; `none` where the act cannot take place. -/
def exec (env : Env) (m : Machine ι) : Act ι → Except (Option Abort) (Option Int × Machine ι)
  | .start t call =>
    if m.holder = none ∧ m.stack (some t) = [] then
      .ok (none, { m with writeid := call.nextWriteid m.of m.writeid }.resume (some t)
        (call.frames m.of) false)
    else .error none
  | .run t reply =>
    match m.stack t with
    | [] => .error none
    | frame :: rest =>
      if m.holder = none ∨ m.holder = some t then
        match frame.exec env m.writeid m.of (m.ret t) reply with
        | .error e => .error (some e)
        | .ok next =>
          let stack := if next.spawns then Function.update m.stack none [.extender] else m.stack
          .ok (if next.frames ++ rest = [] then some next.ret else none,
            { m with
              of := next.of
              stack := stack
              ret := Function.update m.ret t next.ret }.resume t (next.frames ++ rest) next.unlocks)
      else .error none

end Machine

/-! ## Open files -/

/-- A file just opened for writing: a log without records, beside the files in the cache and the
intervals in the index file. -/
def openWriteFiles (newfile : Bool) (initialsize currentsize : Nat)
    (writeintervals : List (Nat × Nat)) (datafile indexfile : Bytes) : Openfile :=
  initLog
    { newfile, initialsize, currentsize, writeintervals, datafile, indexfile
      logfile := []
      logoffset := 0
      loghashctx := []
      sectorsinlog := .nil
      extender := none
      encodes := 0
      trace := [] }

/-- A new file just created. -/
def newOpenfile : Openfile := openWriteFiles true 0 0 [] [] []

end PcloudClient.FsCrypto
