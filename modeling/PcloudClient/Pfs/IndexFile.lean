/-
  Pfs/IndexFile.lean --- the index file of a modified file (`pfs.c`, lines 990-1043, 1915-1936,
  2226-2244 and 2896-2926).

  What the calls on the data file and the index file come to is a parameter.  The header of an
  index file has no bytes.  A failed assertion is `none`; `assertw` only writes to the log.
-/
import PcloudClient.Foundation.RecordFile
import PcloudClient.Pfs.PlainFile

set_option autoImplicit false

namespace PcloudClient.Pfs.IndexFile

open PcloudClient.Foundation PcloudClient.Bytes

def eio : Int := 5

/-- `pwrite` that fails, or writes as many bytes as it is told and has. -/
def pwrite (f b : Bytes) (off : Nat) : Option Nat → Int × Bytes
  | none => (-1, f)
  | some n => (((min n b.length : Nat) : Int), File.pwrite f (b.take n) off)

/-! ## Records -/

/-- `sizeof(psync_fs_index_record)` -/
abbrev recordSize : Nat := 16

/-- The bytes of a record in memory. -/
def encode (r : IndexRecord) : Bytes := toLE 8 r.offset ++ toLE 8 r.length

def decode (b : Bytes) : IndexRecord := ⟨ofLE (b.take 8), ofLE (b.drop 8)⟩

/-- The records that an index file has. -/
def records (f : Bytes) : List IndexRecord := (RecordFile.records recordSize f).map decode

/-! ## Loading -/

/-- The inner loop of `psync_fs_load_interval_tree`. -/
def addRecords : List IndexRecord → List (Span Nat) → Option (List (Span Nat))
  | [], tree => some tree
  | r :: rs, tree =>
    (intervalTreeAdd tree r.offset ((r.offset + r.length) % 2 ^ 64)).bind (addRecords rs)

/-- `ARRAY_SIZE(records)` -/
def batch : Nat := 512

theorem batch_pos : 0 < batch := by decide

/-- The outer loop of `psync_fs_load_interval_tree`; `some none` is its `-1`. -/
def loadLoop (f : Bytes) (cnt i : Nat) (tree : List (Span Nat)) :
    Option (Option (List (Span Nat))) :=
  if i < cnt then
    let rd := if cnt - i < batch then cnt - i else batch
    let recs := File.pread f (rd * recordSize) (i * recordSize)
    if recs.length ≠ rd * recordSize then some none
    else
      (addRecords ((List.range rd).map fun j => decode (RecordFile.record recordSize recs j))
        tree).bind fun tree => loadLoop f cnt (i + batch) tree
  else some (some tree)
termination_by cnt - i
decreasing_by
  have hpos := batch_pos
  omega

/-- `psync_fs_load_interval_tree`: the number of records and the tree. -/
def loadIntervalTree (f : Bytes) (tree : List (Span Nat)) :
    Option (Option (Nat × List (Span Nat))) :=
  let cnt := f.length / recordSize
  (loadLoop f cnt 0 tree).map fun loaded => loaded.map fun tree => (cnt, tree)

/-! ## Writing -/

/-- The fields of `psync_openfile_t` that a modified file has.  `acknowledged` are the ranges that
`writeintervals` was given so far, which the program does not keep. -/
structure Openfile where
  currentsize : Nat
  datafile : Bytes
  indexfile : Bytes
  indexoff : Nat
  writeintervals : List (Span Nat)
  acknowledged : List IndexRecord
  deriving DecidableEq, Repr

/-- What the calls on the files of a request come to: whether the data file could get longer and
how the record of that was written, how the data and its record were, and whether the data file
could be cut. -/
structure Results where
  extended : Bool
  extension : Option Nat
  data : Option Nat
  index : Option Nat
  cut : Bool
  deriving DecidableEq, Repr

namespace Openfile

variable (of : Openfile)

/-- The record of a range goes to its slot, and the range to the tree. -/
def putRecord (r : IndexRecord) (ioff : Nat) (ret : Option Nat) : Option (Int × Openfile) :=
  let written := pwrite of.indexfile (encode r) (recordSize * ioff) ret
  let of := { of with indexfile := written.2 }
  if written.1 ≠ recordSize then some (-1, of)
  else (intervalTreeAdd of.writeintervals r.offset (r.offset + r.length)).map fun tree =>
    (0, { of with writeintervals := tree, acknowledged := of.acknowledged ++ [r] })

/-- `psync_fs_modfile_check_size_ok` -/
def modfileCheckSizeOk (size : Nat) (res : Results) : Option (Int × Openfile) :=
  if of.currentsize < size then
    if res.extended = false then some (-1, of)
    else
      let ioff := of.indexoff
      let r : IndexRecord := ⟨of.currentsize, size - of.currentsize⟩
      let of := { of with datafile := File.truncate of.datafile size, indexoff := ioff + 1 }
      (of.putRecord r ioff res.extension).map fun (ret, of) =>
        if ret ≠ 0 then (-1, of) else (0, { of with currentsize := size })
  else some (0, of)

/-- `psync_fs_write_modified` behind the check of the size. -/
def writeChecked (buf : Bytes) (offset : Nat) (res : Results) : Option (Int × Openfile) :=
  let ioff := of.indexoff
  let written := pwrite of.datafile buf offset res.data
  let of := { of with indexoff := ioff + 1, datafile := written.2 }
  if written.1 = -1 then some (-eio, of)
  else
    (of.putRecord ⟨offset, written.1.toNat⟩ ioff res.index).map fun (ret, of) =>
      if ret ≠ 0 then (-eio, of)
      else if of.currentsize < offset + buf.length then
        (written.1, { of with currentsize := offset + buf.length })
      else (written.1, of)

/-- `psync_fs_write_modified` -/
def writeModified (buf : Bytes) (offset : Nat) (res : Results) : Option (Int × Openfile) :=
  (of.modfileCheckSizeOk offset res).bind fun (ret, of) =>
    if ret ≠ 0 then some (-eio, of) else of.writeChecked buf offset res

/-- `psync_fs_ftruncate_of_locked` -/
def ftruncate (size : Nat) (res : Results) : Option (Int × Openfile) :=
  if of.currentsize = size then some (0, of)
  else
    (of.modfileCheckSizeOk size res).map fun (ret, of) =>
      if ret ≠ 0 then (-eio, of)
      else if of.currentsize ≠ size then
        if res.cut = false then (-eio, of)
        else (0, { of with datafile := File.truncate of.datafile size, currentsize := size })
      else (0, { of with currentsize := size })

/-- `load_interval_tree`, when the file is opened again. -/
def load : Option (Int × Openfile) :=
  (loadIntervalTree of.indexfile of.writeintervals).map fun loaded =>
    match loaded with
    | none => (-1, of)
    | some (ifs, tree) => (0, { of with writeintervals := tree, indexoff := ifs })

end Openfile

/-! ## Requests -/

/-- A request and what its calls come to; places in a file are numbers of 64 bits. -/
inductive Call where
  | write (buf : Bytes) (offset : Nat) (inside : offset + buf.length < 2 ^ 64) (res : Results)
  | ftruncate (size : Nat) (inside : size < 2 ^ 64) (res : Results)

namespace Call

def exec (of : Openfile) : Call → Option (Int × Openfile)
  | write buf offset _ res => of.writeModified buf offset res
  | ftruncate size _ res => of.ftruncate size res

end Call

/-- The requests one after the other. -/
def runCalls : List Call → Openfile → Option Openfile
  | [], of => some of
  | c :: cs, of => (c.exec of).bind fun (_, of) => runCalls cs of

/-! ## What is asked of the index file -/

namespace Openfile

variable (of : Openfile)

/-- The records of the index file are the acknowledged ranges, none of which is empty, and loading
them makes the tree. -/
structure Exact : Prop where
  records : records of.indexfile = of.acknowledged
  nonempty : ∀ r ∈ IndexFile.records of.indexfile, 0 < r.length
  loaded : loadIntervalTree of.indexfile [] =
    some (some ((IndexFile.records of.indexfile).length, of.writeintervals))

/-- The index file is exact, and the next record goes behind its last one. -/
structure Opened : Prop where
  exact : of.Exact
  slot : RecordFile.count recordSize of.indexfile = of.indexoff
  size : of.currentsize < 2 ^ 64

/-- How many bytes of a record are written. -/
def putBytes (ret : Option Nat) : Nat := min (ret.getD 0) recordSize

/-- Bytes of a record of a range of `length` bytes get to the index file only when no slot before
was left without a whole record, and a whole record only when the range is not empty. -/
def PutOk (ret : Option Nat) (length : Nat) : Prop :=
  putBytes ret ≠ 0 → RecordFile.count recordSize of.indexfile = of.indexoff ∧
    (putBytes ret = recordSize → 0 < length)

/-- The condition on a request. -/
def Steady : Call → Prop
  | .write buf offset _ res =>
    (of.currentsize < offset → res.extended = true →
      of.PutOk res.extension (offset - of.currentsize)) ∧
    ((of.currentsize < offset → res.extended = true ∧ putBytes res.extension = recordSize) →
      ∀ n, res.data = some n → of.PutOk res.index (min n buf.length))
  | .ftruncate size _ res =>
    of.currentsize < size → res.extended = true →
      of.PutOk res.extension (size - of.currentsize)

end Openfile

/-- All requests of a run meet the condition in the states that they find. -/
def AllSteady : List Call → Openfile → Prop
  | [], _ => True
  | c :: cs, of => of.Steady c ∧ ∀ ret of', c.exec of = some (ret, of') → AllSteady cs of'

end PcloudClient.Pfs.IndexFile
