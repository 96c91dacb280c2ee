/-
  FsCrypto/Openfile.lean --- an open encrypted file and the sectors in its log
  (`pfscrypto.c`, lines 25-69, 179-385, 468-504 and 974-1057; `pfs.h`).

  A write goes to the log: a header, the encrypted sector, and an entry in the tree
  `sectorsinlog` that says where the record is.  Reads look there first and then in the
  data file, where every read of a sector also checks its path up the hash tree.

  File operations do not fail here.  `Abort` is where the program stops; the error codes that
  stay possible come from short reads and from sectors that do not verify.
-/
import PcloudClient.Foundation.Outcome
import PcloudClient.Crypto.Sector
import PcloudClient.Foundation.FileStore
import PcloudClient.FsCrypto.Offsets
import PcloudClient.Ptree.Tree

set_option autoImplicit false

namespace PcloudClient.FsCrypto

open PcloudClient.Bytes
open PcloudClient.Crypto
open PcloudClient.FileStore

/-- `EIO` -/
abbrev eio : Int := 5

/-- `EINVAL` -/
abbrev einval : Int := 22

/-- A failed `assert`, or an unlock of a mutex that is not held. -/
inductive Abort where
  | assertFailed
  | notLocked
  deriving DecidableEq, Repr

/-- `assert(cond)` -/
def assert (cond : Prop) [Decidable cond] : Except Abort Unit :=
  if cond then .ok () else .error .assertFailed

@[simp] theorem assert_true {cond : Prop} [Decidable cond] (h : cond) : assert cond = .ok () :=
  if_pos h

/-! ## The state -/

/-- What the functions use besides the open file: the keys, the nonce and the alignment
of the buffers of the `i`-th encoded sector, the checksums of the log, and what the
uninitialised memory on the stack holds. -/
structure Env where
  encoder : SectorEncoder
  long : LongSize
  rnd : Nat → Block
  aligned : Nat → Bool
  fastHash256 : Bytes → Fixed 32
  crc32c : Bytes → Nat
  stack : Nat → Fixed sectorSize

/-- The files of one task in the cache directory, by the last letter of their names. -/
inductive CacheFile where
  | data
  | index
  | log
  | finalizedLog
  deriving DecidableEq, Repr

/-- `psync_sector_inlog_t` -/
structure SectorInlog where
  sectorid : Nat
  logoffset : Nat
  auth : Bytes
  deriving DecidableEq, Repr

/-- `psync_enc_file_extender_t` -/
structure Extender where
  extendto : Nat
  extendedto : Nat
  waiters : Nat
  error : Int
  ready : Bool
  kill : Bool
  deriving DecidableEq, Repr

/-- `psync_openfile_t`, the fields of an encrypted file under modification.  The hash
context is the text it was fed.  `encodes` counts the encoded sectors and `trace` the
file operations; neither is in the source. -/
structure Openfile where
  newfile : Bool
  initialsize : Nat
  currentsize : Nat
  writeintervals : List (Nat × Nat)
  datafile : Bytes
  indexfile : Bytes
  logfile : Bytes
  logoffset : Nat
  loghashctx : Bytes
  sectorsinlog : Ptree.Tree SectorInlog
  extender : Option Extender
  encodes : Nat
  trace : List (FileOp CacheFile)

/-! ## Log records -/

/-- `PSYNC_CRYPTO_LOG_DATA` -/
abbrev logData : UInt8 := 1

/-- `PSYNC_CRYPTO_LOG_INT` -/
abbrev logInt : UInt8 := 2

/-- `psync_crypto_log_header` -/
structure LogHeader where
  type : UInt8
  u8 : UInt8
  u16 : UInt16
  u32 : UInt32
  u64 : UInt64
  deriving DecidableEq, Repr

namespace LogHeader

/-- `sizeof(psync_crypto_log_header)` -/
abbrev size : Nat := 16

def encode (h : LogHeader) : Bytes :=
  [h.type, h.u8] ++ toLE 2 h.u16.toNat ++ toLE 4 h.u32.toNat ++ toLE 8 h.u64.toNat

def decode (b : Bytes) : LogHeader where
  type := b.getD 0 0
  u8 := b.getD 1 0
  u16 := UInt16.ofNat (ofLE ((b.drop 2).take 2))
  u32 := UInt32.ofNat (ofLE ((b.drop 4).take 4))
  u64 := UInt64.ofNat (ofLE ((b.drop 8).take 8))

/-- `length` -/
def length (h : LogHeader) : Nat := h.u16.toNat

/-- `offset` -/
def offset (h : LogHeader) : Nat := h.u64.toNat

/-- Header of a data record of `len` bytes for the offset `off`, the rest zero. -/
def data (len off : Nat) : LogHeader := ⟨logData, 0, UInt16.ofNat len, 0, UInt64.ofNat off⟩

theorem size_eq : size = 16 := rfl

@[simp] theorem length_encode (h : LogHeader) : h.encode.length = 16 := by
  simp [encode]

end LogHeader

/-! ## Operations on the log -/

namespace Openfile

/-- `psync_file_pwrite(of->logfile, ..)` -/
def pwriteLog (of : Openfile) (b : Bytes) (off : Nat) : Openfile :=
  { of with
    logfile := File.pwrite of.logfile b off
    trace := of.trace ++ [.pwrite .log b off] }

/-- `psync_fast_hash256_update(&of->loghashctx, ..)` -/
def hashUpdate (of : Openfile) (b : Bytes) : Openfile :=
  { of with loghashctx := of.loghashctx ++ b }

/-- `of->logoffset+=len`, a `uint32_t` -/
def advanceLog (of : Openfile) (len : Nat) : Openfile :=
  { of with logoffset := (of.logoffset + len) % 2 ^ 32 }

end Openfile

/-- `psync_fs_crypto_init_log` -/
def initLog (of : Openfile) : Openfile :=
  { of.pwriteLog (List.replicate sectorSize 0xff) 0 with
    logoffset := sectorSize
    loghashctx := [] }

/-! ## The tree of sectors in the log -/

/-- `psync_crypto_sectorid_diff_t d=a-b`: the 32-bit difference read as signed. -/
def sectoridDiff (a b : Nat) : Int := Int.bmod ((a : Int) - b) (2 ^ 32)

/-- The search of `psync_fs_crypto_read_newfile_full_sector`. -/
def findSector (t : Ptree.Tree SectorInlog) (sectorid : Nat) : Option SectorInlog :=
  t.search fun e => sectoridDiff sectorid e.sectorid

/-- `psync_fs_crypto_set_sector_log_offset` on the tree. -/
def setSectorLogOffset (t : Ptree.Tree SectorInlog) (sectorid offset : Nat) (auth : Bytes) :
    Ptree.Tree SectorInlog :=
  t.insert (fun e => sectoridDiff sectorid e.sectorid)
    (fun e => { e with logoffset := offset, auth := auth }) ⟨sectorid, offset, auth⟩

/-! ## Interval trees, as ordered lists of intervals -/

/-- `psync_interval_tree_add` without its assertion: `[lo, hi)` takes in every interval
it meets or touches. -/
def addInterval (lo hi : Nat) : List (Nat × Nat) → List (Nat × Nat)
  | [] => [(lo, hi)]
  | (x, y) :: rest =>
    if hi < x then (lo, hi) :: (x, y) :: rest
    else if y < lo then (x, y) :: addInterval lo hi rest
    else addInterval (min lo x) (max hi y) rest

/-- `psync_interval_tree_add(&of->writeintervals, lo, hi)` -/
def Openfile.intervalTreeAdd (of : Openfile) (lo hi : Nat) : Except Abort Openfile := do
  assert (lo < hi)
  return { of with writeintervals := addInterval lo hi of.writeintervals }

/-! ## Reading a sector -/

section

variable (env : Env)

/-- `psync_crypto_aes256_decode_sector(of->encoder, ..)` -/
def Env.decode (data auth : Bytes) (sectorid : Nat) : Int × Bytes :=
  env.encoder.decodeSector env.long data auth sectorid

/-- `psync_crypto_aes256_encode_sector(of->encoder, ..)`, the `i`-th one. -/
def Env.encode (i : Nat) (data : Bytes) (sectorid : Nat) : Bytes × Bytes :=
  env.encoder.encodeSector env.long (env.aligned i) (env.rnd i) data sectorid

/-- `psync_crypto_sign_auth_sector(of->encoder, ..)` -/
def Env.sign (data : Bytes) : Bytes := signAuthSector env.encoder data

/-- `psync_fs_crypto_read_newfile_full_sector_from_log`: the return value and the bytes
in `buf`. -/
def readNewfileFullSectorFromLog (of : Openfile) (se : SectorInlog) :
    Except Abort (Int × Bytes) := do
  let raw := File.pread of.logfile LogHeader.size se.logoffset
  if raw.length ≠ LogHeader.size then return (-eio, [])
  let hdr := LogHeader.decode raw
  if hdr.type ≠ logData then return (-eio, [])
  assert (hdr.offset = dataSectoridBySectorid se.sectorid * sectorSize)
  assert (hdr.length ≤ sectorSize)
  let buff := File.pread of.logfile hdr.length (se.logoffset + LogHeader.size)
  if buff.length ≠ hdr.length then return (-eio, [])
  let dec := env.decode buff se.auth se.sectorid
  if dec.1 ≠ 0 then return (-eio, [])
  return (buff.length, dec.2)

/-- Offset and size of an auth sector, as the tree check looks them up. -/
def authSectorPlace (offsets : Offsets) (level sectorid sizesect : Nat) : Nat × Nat :=
  if sectorid = sizesect then (offsets.lastOff level, offsets.lastLen level)
  else (authOffset level sectorid, sectorSize)

/-- The `while (level<offsets->treelevels)` loop of
`psync_fs_crypto_do_local_tree_check`, with `auth` the signature of the auth sector
`sectorid` of `level`. -/
def localTreeCheckLoop (datafile : Bytes) (offsets : Offsets) (level sectorid sizesect : Nat)
    (auth : Bytes) : Int :=
  if _h : level < offsets.treelevels then
    let authoff := sectorid % hashTreeSectors * authSize
    let sectorid := sectorid / hashTreeSectors
    let sizesect := sizesect / hashTreeSectors
    let place := authSectorPlace offsets (level + 1) sectorid sizesect
    let buff := File.pread datafile place.2 place.1
    if buff.length ≠ place.2 then -1
    else if File.pread buff authSize authoff ≠ auth then -1
    else localTreeCheckLoop datafile offsets (level + 1) sectorid sizesect (env.sign buff)
  else 0
termination_by offsets.treelevels - level

/-- `psync_fs_crypto_do_local_tree_check` -/
def doLocalTreeCheck (of : Openfile) (sectorid : Nat) (offsets : Offsets) : Int :=
  if ¬ offsets.needmasterauth then 0
  else
    let sectorid := sectorid / hashTreeSectors
    let sizesect := getLastSectoridBySize offsets.plainsize / hashTreeSectors
    let place := authSectorPlace offsets 0 sectorid sizesect
    let buff := File.pread of.datafile place.2 place.1
    if buff.length ≠ place.2 then -1
    else localTreeCheckLoop env of.datafile offsets 0 sectorid sizesect (env.sign buff)

/-- `psync_fs_crypto_read_newfile_full_sector_from_datafile` -/
def readNewfileFullSectorFromDatafile (of : Openfile) (sectorid : Nat) : Int × Bytes :=
  let offsets := offsetsByCryptosize of.datafile.length
  if offsets.plainsize ≤ sectorid * sectorSize then (0, [])
  else
    let ssize :=
      if offsets.plainsize < sectorid * sectorSize + sectorSize then
        offsets.plainsize - sectorid * sectorSize
      else sectorSize
    let buff := File.pread of.datafile ssize (dataOffsetBySectorid sectorid)
    if buff.length ≠ ssize then (-eio, [])
    else
      let place := authSectorPlace offsets 0 (sectorid / hashTreeSectors)
        (getLastSectoridBySize offsets.plainsize / hashTreeSectors)
      let auth := File.pread of.datafile authSize
        (place.1 + sectorid % hashTreeSectors * authSize)
      if auth.length ≠ authSize then (-eio, [])
      else
        let dec := env.decode buff auth sectorid
        if dec.1 ≠ 0 then (-eio, [])
        else if doLocalTreeCheck env of sectorid offsets ≠ 0 then (-eio, [])
        else (ssize, dec.2)

/-- `psync_fs_crypto_read_newfile_full_sector` -/
def readNewfileFullSector (of : Openfile) (sectorid : Nat) : Except Abort (Int × Bytes) :=
  match findSector of.sectorsinlog sectorid with
  | some se => readNewfileFullSectorFromLog env of se
  | none => .ok (readNewfileFullSectorFromDatafile env of sectorid)

/-! ## Writing a sector -/

/-- `psync_fs_crypt_add_sector_to_interval_tree` -/
def addSectorToIntervalTree (of : Openfile) (sectorid size : Nat) : Except Abort Openfile :=
  let offset := dataSectoridBySectorid sectorid * sectorSize
  of.intervalTreeAdd offset (offset + size)

/-- `psync_fs_crypto_write_newfile_full_sector`; it returns zero. -/
def writeNewfileFullSector (of : Openfile) (buf : Bytes) (sectorid : Nat) :
    Except Abort Openfile := do
  assert (buf.length ≤ sectorSize)
  let enc := env.encode of.encodes buf sectorid
  let hdr := LogHeader.data buf.length (dataOffsetBySectorid sectorid)
  let record := hdr.encode ++ enc.1
  let of := (of.pwriteLog record of.logoffset).hashUpdate record
  let of :=
    { of with
      sectorsinlog := setSectorLogOffset of.sectorsinlog sectorid of.logoffset enc.2
      encodes := of.encodes + 1 }
  let of := of.advanceLog record.length
  if of.newfile then return of
  else addSectorToIntervalTree of sectorid buf.length

/-- `psync_fs_crypto_write_newfile_partial_sector` -/
def writeNewfilePartialSector (of : Openfile) (buf : Bytes) (sectorid offset : Nat) :
    Except Abort (Openfile × Int) := do
  assert (offset + buf.length ≤ sectorSize)
  let rd ← readNewfileFullSector env of sectorid
  if rd.1 < 0 then return (of, rd.1)
  let buff := File.pwrite (rd.2 ++ zeros (sectorSize - rd.2.length)) buf offset
  let len := max rd.1.toNat (buf.length + offset)
  return (← writeNewfileFullSector env of (buff.take len) sectorid, 0)

end

end PcloudClient.FsCrypto
