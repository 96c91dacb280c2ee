/-
  Pfs/PlainFile.lean --- writing to an open file that is not encrypted.

  A file that is written to for the first time becomes a new file, if its pages are at hand, or
  a modified one: only what is written is in its data file, and the index file and
  `writeintervals` say where.  Once it is uploaded it is again a file that is only remote.

  The functions that encrypted files share with plain ones are here as a plain file takes them:
  the branches for `of->encrypted` (the log, `sectorsinlog`, `authenticatedints`, the sizes of the
  encrypted file and `psync_fs_crypto_write_modified`) are left out.

  The interval tree is the list of its intervals; `Pintervaltree/Refinement.lean` has the tree.
  No call on a file fails, and a failed assertion is `none`.
-/
import PcloudClient.Foundation.File
import PcloudClient.Foundation.Intervals

set_option autoImplicit false

namespace PcloudClient.Pfs

open PcloudClient.Foundation

def PSYNC_FS_PAGE_SIZE : Nat := 4096

def PSYNC_FS_MAX_SIZE_CONVERT_NEWFILE : Nat := 32 * PSYNC_FS_PAGE_SIZE

/-- `psync_fs_index_record` -/
structure IndexRecord where
  offset : Nat
  length : Nat
  deriving DecidableEq, Repr

/-- `psync_interval_tree_add` -/
def intervalTreeAdd (tree : List (Span Nat)) (start stop : Nat) : Option (List (Span Nat)) :=
  if start < stop then some (Intervals.add start stop tree) else none

/-- `psync_fs_load_interval_tree`: the records of an index file, on top of a tree. -/
def loadIntervalTree : List IndexRecord → List (Span Nat) → Option (List (Span Nat))
  | [], tree => some tree
  | r :: rs, tree =>
    (intervalTreeAdd tree r.offset (r.offset + r.length)).bind (loadIntervalTree rs)

/-- The fields of `psync_openfile_t` that a plain file has.  A file that is not open is `none`;
`remote` has the bytes of the revision `hash` of `remotefileid`. -/
structure Openfile where
  newfile : Bool
  modified : Bool
  initialsize : Nat
  currentsize : Nat
  remote : Bytes
  datafile : Option Bytes
  indexfile : Option (List IndexRecord)
  indexoff : Nat
  writeintervals : List (Span Nat)
  deriving DecidableEq, Repr

namespace Openfile

/-- What `psync_fs_create_file` makes of a remote file that nobody has changed. -/
def create (remote : Bytes) : Openfile where
  newfile := false
  modified := false
  initialsize := remote.length
  currentsize := remote.length
  remote := remote
  datafile := none
  indexfile := none
  indexoff := 0
  writeintervals := []

/-- A record in the place `ioff` of the index file. -/
def putRecord (records : List IndexRecord) (r : IndexRecord) (ioff : Nat) : List IndexRecord :=
  (records ++ List.replicate (ioff - records.length) (⟨0, 0⟩ : IndexRecord)).take ioff ++
    r :: records.drop (ioff + 1)

/-- `open_write_files` of a plain file, without `trunc`.  The files of a task that is new are empty:
`load_interval_tree` writes the header of the index and leaves the tree as it is. -/
def openWriteFiles (of : Openfile) : Openfile :=
  match of.datafile with
  | some _ => of
  | none =>
    let of := { of with datafile := some [], currentsize := 0 }
    if of.newfile = false ∧ of.indexfile = none then { of with indexfile := some [] } else of

/-- `psync_fs_reopen_file_for_writing` of a plain file; `cached` tells that all pages are in the
cache and could be locked there. -/
def reopenFileForWriting (of : Openfile) (cached : Bool) : Openfile :=
  let size := of.initialsize
  if size = 0 ∨ (size ≤ PSYNC_FS_MAX_SIZE_CONVERT_NEWFILE ∧ cached = true) then
    let of := openWriteFiles { of with newfile := true, modified := true }
    let of :=
      if size ≠ 0 then { of with datafile := of.datafile.map (File.pwrite · of.remote 0) } else of
    { of with currentsize := of.initialsize }
  else
    let of := openWriteFiles of
    { of with
      datafile := of.datafile.map (File.truncate · size)
      modified := true
      indexoff := 0
      currentsize := of.initialsize }

/-- A range that has just got into the data file: its record goes to the index file and its
interval to the tree. -/
def recordRange (of : Openfile) (start stop : Nat) : Option Openfile := do
  let records ← of.indexfile
  let tree ← intervalTreeAdd of.writeintervals start stop
  return { of with
    indexfile := some (putRecord records ⟨start, stop - start⟩ of.indexoff)
    indexoff := of.indexoff + 1
    writeintervals := tree }

/-- `psync_fs_modfile_check_size_ok` -/
def modfileCheckSizeOk (of : Openfile) (size : Nat) : Option Openfile :=
  if of.currentsize < size then do
    let data ← of.datafile
    let of := { of with datafile := some (File.truncate data size) }
    if of.newfile then return of
    else
      let of ← of.recordRange of.currentsize size
      return { of with currentsize := size }
  else some of

/-- `psync_fs_write_modified` -/
def writeModified (of : Openfile) (buf : Bytes) (offset : Nat) : Option Openfile := do
  let of ← of.modfileCheckSizeOk offset
  let data ← of.datafile
  let of := { of with datafile := some (File.pwrite data buf offset) }
  let of ← of.recordRange offset (offset + buf.length)
  if of.currentsize < offset + buf.length then
    return { of with currentsize := offset + buf.length }
  else return of

/-- `psync_fs_write_newfile` -/
def writeNewfile (of : Openfile) (buf : Bytes) (offset : Nat) : Option Openfile := do
  let data ← of.datafile
  let of := { of with datafile := some (File.pwrite data buf offset) }
  if of.currentsize < offset + buf.length then
    return { of with currentsize := offset + buf.length }
  else return of

/-- The part of `psync_fs_write` and `psync_fs_ftruncate_of_locked` that both begin with. -/
def ensureWritable (of : Openfile) (cached : Bool) : Openfile :=
  if of.newfile = false ∧ of.modified = false then of.reopenFileForWriting cached else of

/-- `psync_fs_write` of a plain file. -/
def write (of : Openfile) (cached : Bool) (buf : Bytes) (offset : Nat) : Option Openfile :=
  let of := of.ensureWritable cached
  if of.newfile then of.writeNewfile buf offset else of.writeModified buf offset

/-- `psync_fs_ftruncate_of_locked` of a plain file. -/
def ftruncate (of : Openfile) (cached : Bool) (size : Nat) : Option Openfile :=
  if of.currentsize = size then some of
  else do
    let of ← (of.ensureWritable cached).modfileCheckSizeOk size
    if of.currentsize ≠ size then
      let data ← of.datafile
      return { of with datafile := some (File.truncate data size), currentsize := size }
    else return { of with currentsize := size }

/-- `psync_fs_update_openfile` of a plain file for an upload that had the last `writeid`: `remote`
is the new revision. -/
def updateOpenfile (of : Openfile) (remote : Bytes) : Openfile :=
  { of with
    remote := remote
    modified := false
    newfile := false
    currentsize := remote.length
    initialsize := remote.length
    datafile := none
    indexfile := none }

end Openfile

end PcloudClient.Pfs
