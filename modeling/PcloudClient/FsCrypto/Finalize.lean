/-
  FsCrypto/Finalize.lean --- closing a log, applying it to the data and index files, and
  the replay at startup (`pfscrypto.c`, lines 648-972 and 1732-1831).

  Applying a log reads only the log, so `processLog` is the list of operations it does on
  the two files together with its return value.
-/
import PcloudClient.FsCrypto.AuthTree

set_option autoImplicit false

namespace PcloudClient.FsCrypto

open PcloudClient.Bytes
open PcloudClient.FileStore

/-! ## The master record -/

/-- `PSYNC_LOG_STATUS_FINALIZED` -/
abbrev logStatusFinalized : Nat := 1

/-- `PSYNC_LOG_HASHID_FH256` -/
abbrev logHashidFh256 : Nat := 0

/-- `psync_crypto_master_record` -/
structure MasterRecord where
  status : Nat
  hashid : Nat
  logsize : Nat
  filesize : Nat
  hash : Bytes
  crc : Nat
  deriving DecidableEq, Repr

namespace MasterRecord

/-- `sizeof(psync_crypto_master_record)`, with the padding after `crc`. -/
abbrev size : Nat := 64

/-- The bytes in front of `crc`. -/
def encodeHead (mr : MasterRecord) : Bytes :=
  toLE 4 mr.status ++ toLE 4 mr.hashid ++ toLE 8 mr.logsize ++ toLE 8 mr.filesize ++ mr.hash

def encode (mr : MasterRecord) (pad : Bytes) : Bytes := mr.encodeHead ++ toLE 4 mr.crc ++ pad

def decode (b : Bytes) : MasterRecord where
  status := ofLE (File.pread b 4 0)
  hashid := ofLE (File.pread b 4 4)
  logsize := ofLE (File.pread b 8 8)
  filesize := ofLE (File.pread b 8 16)
  hash := File.pread b 32 24
  crc := ofLE (File.pread b 4 56)

end MasterRecord

/-! ## Applying a log -/

/-- `psync_fs_index_record` -/
def encodeIndexRecords (records : List (Nat × Nat)) : Bytes :=
  records.flatMap fun r => toLE 8 r.1 ++ toLE 8 r.2

/-- `sizeof(psync_fs_index_record)`; the index header has no bytes. -/
abbrev indexRecordSize : Nat := 16

/-- `psync_file_pwrite(ifd, records, ..)` -/
def writeIndexRecords (records : List (Nat × Nat)) (ioff : Nat) : FileOp CacheFile :=
  .pwrite .index (encodeIndexRecords records) (indexRecordSize * ioff)

/-- What a part of the application does: its operations and return value. -/
abbrev Applied := List (FileOp CacheFile) × Int

/-- `op` in front of what follows. -/
def Applied.cons (op : FileOp CacheFile) (a : Applied) : Applied := (op :: a.1, a.2)

/-- The record loop of `psync_fs_crypto_process_log` with what follows it: `records` are
the collected index records (`recid` of them) and `ifd` says whether there is an index
file. -/
def processRecords (lfd : Bytes) (size : Nat) (ifd : Bool) (off : Nat)
    (records : List (Nat × Nat)) (ioff : Nat) : Except Abort Applied :=
  let raw := File.pread lfd LogHeader.size off
  if _h : raw.length = 0 then
    .ok ((if records = [] then [] else [writeIndexRecords records ioff]) ++
      [.truncate .data size], 0)
  else if raw.length ≠ LogHeader.size then .ok ([], -1)
  else
    let hdr := LogHeader.decode raw
    let off' := off + LogHeader.size
    if hdr.type = logData then do
      assert (hdr.length ≤ sectorSize)
      assert (records.length = 0)
      if size < hdr.offset + hdr.length then
        processRecords lfd size ifd (off' + hdr.length) records ioff
      else
        let buff := File.pread lfd hdr.length off'
        if buff.length ≠ hdr.length then return ([], -1)
        let rest ← processRecords lfd size ifd (off' + hdr.length) records ioff
        return Applied.cons (.pwrite .data buff hdr.offset) rest
    else if hdr.type = logInt then do
      assert ifd
      let records := records ++ [(hdr.offset, hdr.u32.toNat + hdr.length * 2 ^ 32)]
      if sectorSize / indexRecordSize ≤ records.length then
        let rest ← processRecords lfd size ifd off' [] (ioff + records.length)
        return Applied.cons (writeIndexRecords records ioff) rest
      else processRecords lfd size ifd off' records ioff
    else .ok ([], -1)
termination_by lfd.length - off
decreasing_by
  all_goals
    have hlt : off < lfd.length := by
      rw [File.length_pread] at _h
      omega
    omega

section

variable (env : Env)

/-- `psync_fs_crypto_check_log_hash` -/
def checkLogHash (lfd : Bytes) (mr : MasterRecord) : Int :=
  if mr.hashid ≠ logHashidFh256 then -1
  else if (env.fastHash256 (lfd.drop sectorSize)).bytes ≠ mr.hash then -1
  else 0

/-- `psync_fs_crypto_process_log` -/
def processLog (lfd : Bytes) (ifd checkhash : Bool) : Except Abort Applied :=
  let raw := File.pread lfd MasterRecord.size 0
  let mr := MasterRecord.decode raw
  if raw.length ≠ MasterRecord.size then .ok ([], -1)
  else if mr.status ≠ logStatusFinalized then .ok ([], -1)
  else if mr.logsize ≠ lfd.length then .ok ([], -1)
  else if mr.crc ≠ env.crc32c (raw.take 56) % 2 ^ 32 then .ok ([], -1)
  else if checkhash ∧ checkLogHash env lfd mr ≠ 0 then .ok ([], -1)
  else do
    let rest ← processRecords lfd mr.filesize ifd sectorSize [] 0
    return (.truncate .data mr.filesize ::
      ((if ifd then [.truncate .index 0] else []) ++ rest.1), rest.2)

/-- `psync_fs_crypto_mark_log_finalized`; it returns zero. -/
def markLogFinalized (of : Openfile) (filesize : Nat) : Except Abort Openfile := do
  let lsize := of.logfile.length
  assert (lsize = of.loghashctx.length + sectorSize)
  let mr : MasterRecord :=
    { status := logStatusFinalized
      hashid := logHashidFh256
      logsize := lsize
      filesize := filesize
      hash := (env.fastHash256 of.loghashctx).bytes
      crc := 0 }
  let mr := { mr with crc := env.crc32c mr.encodeHead % 2 ^ 32 }
  return of.pwriteLog (mr.encode ((env.stack 0).bytes.take 4)) 0

/-- A failure while a log is applied: the first `done` operations are done and of the
next one only the first `part` bytes are. -/
structure ApplyFault where
  done : Nat
  part : Nat
  deriving DecidableEq, Repr

/-- The operations that take place under a fault, and whether it strikes. -/
def ApplyFault.cut (fault : Option ApplyFault) (ops : List (FileOp CacheFile)) :
    List (FileOp CacheFile) × Bool :=
  match fault with
  | none => (ops, false)
  | some f =>
    match ops[f.done]? with
    | none => (ops, false)
    | some (.pwrite file b off) => (ops.take f.done ++ [.pwrite file (b.take f.part) off], true)
    | some _ => (ops.take f.done, true)

/-- The files of the open file as they are in the cache directory. -/
def Openfile.store (of : Openfile) : Store CacheFile
  | .data => some of.datafile
  | .index => if of.newfile then none else some of.indexfile
  | .log => some of.logfile
  | .finalizedLog => none

/-- Operations on the data and index file through the handles of the open file. -/
def Openfile.applyOps (of : Openfile) (ops : List (FileOp CacheFile)) : Openfile :=
  { of with
    datafile := (run ops of.store .data).getD of.datafile
    indexfile := (run ops of.store .index).getD of.indexfile
    trace := of.trace ++ ops }

/-- `psync_fs_crypto_log_flush_and_process` on the log `flog`. -/
def logFlushAndProcess (of : Openfile) (flog : Bytes) (fault : Option ApplyFault) :
    Except Abort (Openfile × Int) := do
  let applied ← processLog env flog (!of.newfile) false
  let cut := ApplyFault.cut fault applied.1
  let of := of.applyOps cut.1
  if cut.2 ∨ applied.2 ≠ 0 then return (of, -eio) else return (of, 0)

/-- Header of an interval record; the source does not set `u8`. -/
def LogHeader.interval (u8 : UInt8) (lo hi : Nat) : LogHeader :=
  ⟨logInt, u8, UInt16.ofNat ((hi - lo) >>> 32), UInt32.ofNat (hi - lo), UInt64.ofNat lo⟩

/-- `psync_fs_write_interval_tree_to_log`; it returns zero.  The intervals are written in
pieces of at most 256 records. -/
def writeIntervalPieces (of : Openfile) : List (Nat × Nat) → Except Abort Openfile
  | [] => .ok of
  | iv :: rest => do
    let piece := iv :: rest.take 255
    assert (piece.all fun r => (r.2 - r.1) >>> 48 == 0)
    let u8 := (env.stack 0).bytes.getD 0 0
    let b := piece.flatMap fun r => (LogHeader.interval u8 r.1 r.2).encode
    writeIntervalPieces (((of.pwriteLog b of.logoffset).hashUpdate b).advanceLog b.length)
      (rest.drop 255)
termination_by l => l.length

def writeIntervalTreeToLog (of : Openfile) : Except Abort Openfile :=
  writeIntervalPieces env of of.writeintervals

/-- The part of `psync_fs_crypto_do_finalize_log` after the log is marked: the log is
renamed, a new one is started and the finalised one applied and deleted. -/
def switchLogs (of : Openfile) (fault : Option ApplyFault) : Except Abort (Openfile × Int) := do
  let flog := of.logfile
  let of :=
    { of with
      logfile := []
      trace := of.trace ++ [.rename .log .finalizedLog, .create .log] }
  let of := { initLog of with sectorsinlog := .nil }
  let res ← logFlushAndProcess env of flog fault
  return ({ res.1 with trace := res.1.trace ++ [.delete .finalizedLog] }, res.2)

/-- `psync_fs_crypto_do_finalize_log` -/
def doFinalizeLog (of : Openfile) (fault : Option ApplyFault) : Except Abort (Openfile × Int) := do
  let offsets := offsetsByPlainsize of.currentsize
  if of.logoffset = sectorSize ∧ offsets.cryptoEnd = of.datafile.length then return (of, 0)
  let tree ← writeAuthTreeToLog env of offsets
  if tree.2 ≠ 0 then return tree
  let of ← if tree.1.newfile then pure tree.1 else writeIntervalTreeToLog env tree.1
  let of ← markLogFinalized env of offsets.cryptoEnd
  switchLogs env of fault

/-- `psync_fs_crypto_finalize_log` -/
def finalizeLog (of : Openfile) : Except Abort (Openfile × Int) :=
  match of.extender with
  | some ext => do
    assert (of.currentsize = ext.extendto)
    let res ← doFinalizeLog env { of with currentsize := ext.extendedto } none
    return ({ res.1 with currentsize := ext.extendto }, res.2)
  | none => doFinalizeLog env of none

/-! ## Replay at startup -/

/-- `psync_fs_crypto_check_log` on one of the two log names. -/
def checkLog (name : CacheFile) (s : Store CacheFile) : Except Abort (Store CacheFile) :=
  match s name with
  | none => .ok s
  | some lfd =>
    match s .data with
    | none => .ok ((FileOp.delete name).apply s)
    | some _ => do
      let applied ← processLog env lfd (s .index).isSome true
      return (FileOp.delete name).apply (run applied.1 s)

/-- `psync_fs_crypto_check_logs`: the files of the directory in some order; other files
than logs are passed over. -/
def checkLogs : List CacheFile → Store CacheFile → Except Abort (Store CacheFile)
  | [], s => .ok s
  | name :: rest, s => do
    let s ← if name = .log ∨ name = .finalizedLog then checkLog env name s else pure s
    checkLogs rest s

end

end PcloudClient.FsCrypto
