/-
  FsCrypto/Offsets.lean --- sizes and offsets of an encrypted file
  (`pfscrypto.c`, lines 71-177 and 1696-1730; constants of `pfscrypto.h`,
  `pcloudcrypto.h` and `pcrypto.h`).

  An encrypted file holds data sectors of 4096 bytes, one 32-byte auth record for
  every data sector, grouped into auth sectors of 128 records, a tree of signatures
  over these, and one master record.  `offsetsByPlainsize` lays the file out from its
  plain size, `offsetsByCryptosize` recovers the same record from the size on disk.

  Values of type `uint64_t` are plain `Nat` here: with at most
  `PSYNC_CRYPTO_MAX_SECTORID` sectors every such value stays below `2 ^ 57`.  The
  narrower types are written out (`% 2 ^ 32`).
-/
import Mathlib.Data.Nat.Log
import Mathlib.Tactic.Ring
import Mathlib.Tactic.Linarith
import PcloudClient.Foundation.Radix

set_option autoImplicit false

namespace PcloudClient.FsCrypto

/-! ## Constants -/

/-- `PSYNC_CRYPTO_SECTOR_SIZE` -/
abbrev sectorSize : Nat := 4096

/-- `PSYNC_CRYPTO_AUTH_SIZE` -/
abbrev authSize : Nat := 32

/-- `PSYNC_CRYPTO_HASH_TREE_SECTORS` -/
abbrev hashTreeSectors : Nat := sectorSize / authSize

/-- `PSYNC_CRYPTO_MAX_HASH_TREE_LEVEL` -/
abbrev maxHashTreeLevel : Nat := 6

/-- `PSYNC_CRYPTO_MAX_SECTORID` -/
abbrev maxSectorid : Nat := 2 ^ 32 - 1 - 1

/-- `PSYNC_CRYPTO_INVALID_SECTORID` -/
abbrev invalidSectorid : Nat := 2 ^ 32 - 1

theorem sectorSize_eq : sectorSize = 4096 := rfl
theorem authSize_eq : authSize = 32 := rfl
theorem hashTreeSectors_eq : hashTreeSectors = 128 := rfl
theorem maxSectorid_eq : maxSectorid = 4294967294 := rfl

/-- `max_level_size`: bytes of a full tree of the given height, auth sectors included. -/
def maxLevelSizeTable : List Nat :=
  [0x1000, 0x81000, 0x4081000, 0x204081000, 0x10204081000, 0x810204081000, 0x40810204081000]

def maxLevelSize (level : Nat) : Nat := maxLevelSizeTable.getD level 0

/-! ## Placement of sectors -/

/-- Loop of `psync_fs_crypto_data_sectorid_by_sectorid`; `sect` is a `uint32_t`. -/
def dataSectoridLoop (sectorid sect : Nat) : Nat :=
  if _h : hashTreeSectors ≤ sectorid then
    dataSectoridLoop (sectorid / hashTreeSectors)
      ((sect + sectorid / hashTreeSectors) % 2 ^ 32)
  else sect
termination_by sectorid
decreasing_by exact Nat.div_lt_self (by rw [hashTreeSectors_eq] at _h; omega) (by decide)

/-- `psync_fs_crypto_data_sectorid_by_sectorid` -/
def dataSectoridBySectorid (sectorid : Nat) : Nat := dataSectoridLoop sectorid sectorid

/-- Loop of `psync_fs_crypto_data_offset_by_sectorid`. -/
def dataOffsetLoop (sectorid off : Nat) : Nat :=
  if _h : hashTreeSectors ≤ sectorid then
    dataOffsetLoop (sectorid / hashTreeSectors) (off + sectorid / hashTreeSectors * sectorSize)
  else off
termination_by sectorid
decreasing_by exact Nat.div_lt_self (by rw [hashTreeSectors_eq] at _h; omega) (by decide)

/-- `psync_fs_crypto_data_offset_by_sectorid` -/
def dataOffsetBySectorid (sectorid : Nat) : Nat :=
  dataOffsetLoop sectorid (sectorid * sectorSize)

/-- Loop of `psync_fs_crypto_auth_offset`; the product is taken in `uint32_t`. -/
def authOffsetLoop (id ret : Nat) : Nat :=
  if _h : hashTreeSectors ≤ id then
    authOffsetLoop (id / hashTreeSectors) (ret + id / hashTreeSectors * sectorSize % 2 ^ 32)
  else ret
termination_by id
decreasing_by exact Nat.div_lt_self (by rw [hashTreeSectors_eq] at _h; omega) (by decide)

/-- `psync_fs_crypto_auth_offset`: works for all auth sectors except the last one of
each level. -/
def authOffset (level id : Nat) : Nat :=
  authOffsetLoop id (maxLevelSize (level + 1) * (id + 1) - sectorSize)

/-! ## The offsets record -/

/-- `psync_crypto_offsets_t`; the two arrays have `maxHashTreeLevel` slots. -/
structure Offsets where
  masterauthoff : Nat
  plainsize : Nat
  lastauthsectoroff : List Nat
  lastauthsectorlen : List Nat
  treelevels : Nat
  needmasterauth : Bool
  deriving DecidableEq, Repr

namespace Offsets

/-- The record after `memset(offsets, 0, ..)`. -/
def zero : Offsets where
  masterauthoff := 0
  plainsize := 0
  lastauthsectoroff := List.replicate maxHashTreeLevel 0
  lastauthsectorlen := List.replicate maxHashTreeLevel 0
  treelevels := 0
  needmasterauth := false

/-- `lastauthsectoroff[level]` -/
def lastOff (o : Offsets) (level : Nat) : Nat := o.lastauthsectoroff.getD level 0

/-- `lastauthsectorlen[level]` -/
def lastLen (o : Offsets) (level : Nat) : Nat := o.lastauthsectorlen.getD level 0

/-- Store offset and length of the last auth sector of a level. -/
def setLast (o : Offsets) (level off len : Nat) : Offsets :=
  { o with
    lastauthsectoroff := o.lastauthsectoroff.set level off
    lastauthsectorlen := o.lastauthsectorlen.set level len }

/-- Size on disk that the record describes. -/
def cryptoEnd (o : Offsets) : Nat :=
  o.masterauthoff + if o.needmasterauth then authSize else 0

end Offsets

/-- The `do .. while (size>1)` loop of `psync_fs_crypto_offsets_by_plainsize` with the
assignments after it. -/
def plainsizeLevels (size off level : Nat) (offsets : Offsets) : Offsets :=
  let sz := size % hashTreeSectors
  let size' := (size + hashTreeSectors - 1) / hashTreeSectors
  let sz := (if sz = 0 then hashTreeSectors else sz) * authSize
  let offsets := offsets.setLast level off sz
  if _h : 1 < size' then
    plainsizeLevels size' (off + sz) (level + 1) offsets
  else
    { offsets.setLast (level + 1) (off + sz) authSize with
      masterauthoff := off + sz
      treelevels := level + 1 }
termination_by size
decreasing_by
  change 1 < (size + 128 - 1) / 128 at _h
  change (size + 128 - 1) / 128 < size
  omega

/-- `psync_fs_crypto_offsets_by_plainsize` -/
def offsetsByPlainsize (size : Nat) : Offsets :=
  let offsets :=
    { Offsets.zero with plainsize := size, needmasterauth := decide (sectorSize < size) }
  if size = 0 then offsets
  else
    let lastsectorid := size / sectorSize % 2 ^ 32
    let lastsectorsize := size % sectorSize
    let last :=
      if lastsectorsize = 0 then (lastsectorid - 1, sectorSize)
      else (lastsectorid, lastsectorsize)
    plainsizeLevels ((size + sectorSize - 1) / sectorSize)
      (dataOffsetBySectorid last.1 + last.2) 0 offsets

/-- The search loop of `psync_fs_crypto_offsets_by_cryptosize`, from `level` on. -/
def findLevel (size level : Nat) : Nat :=
  if _h : level ≤ maxHashTreeLevel ∧ maxLevelSize level < size then findLevel size (level + 1)
  else level
termination_by maxHashTreeLevel + 1 - level
decreasing_by omega

/-- The `do .. while (level)` loop of `psync_fs_crypto_offsets_by_cryptosize` with the
assignment after it; `level` is the value before the decrement. -/
def cryptosizeLevels : (level size off : Nat) → Offsets → Offsets
  | 0, size, _, offsets => { offsets with plainsize := size }
  | level + 1, size, off, offsets =>
    let cnt := (size + maxLevelSize level + authSize - 1) / (maxLevelSize level + authSize)
    let size := size - cnt * authSize
    let cnt := cnt % hashTreeSectors
    let cnt := if cnt = 0 then hashTreeSectors else cnt
    let off := off - cnt * authSize
    cryptosizeLevels level size off (offsets.setLast level off (cnt * authSize))

/-- `psync_fs_crypto_offsets_by_cryptosize` -/
def offsetsByCryptosize (size : Nat) : Offsets :=
  if size ≤ authSize then Offsets.zero
  else
    let needmasterauth := decide (sectorSize + authSize < size)
    let size := if needmasterauth then size - authSize else size
    let level := findLevel size 1
    let offsets :=
      { Offsets.zero with
        needmasterauth := needmasterauth, masterauthoff := size, treelevels := level }
    cryptosizeLevels level size size (offsets.setLast level size authSize)

/-- `psync_fs_crypto_plain_size` -/
def plainSize (cryptosize : Nat) : Nat := (offsetsByCryptosize cryptosize).plainsize

/-- `psync_fs_crypto_crypto_size` -/
def cryptoSize (plainsize : Nat) : Nat := (offsetsByPlainsize plainsize).cryptoEnd

/-- `get_last_sectorid_by_size` -/
def getLastSectoridBySize (size : Nat) : Nat :=
  if size = 0 then 0 else (size - 1) / sectorSize % 2 ^ 32

/-- Result of `psync_fs_crypto_get_auth_sector_off`: the auth sector that holds the
record of a sector on a level, and the slot of that record in it. -/
structure AuthSectorOff where
  offset : Nat
  size : Nat
  authid : Nat
  deriving DecidableEq, Repr

/-- The `for` loop of `psync_fs_crypto_get_auth_sector_off`; returns
`(sizesecd, secd, aid)`. -/
def authSectorWalk : (level sizesecd secd aid : Nat) → Nat × Nat × Nat
  | 0, sizesecd, secd, aid => (sizesecd, secd, aid)
  | level + 1, sizesecd, secd, _ =>
    authSectorWalk level (sizesecd / hashTreeSectors) (secd / hashTreeSectors)
      (secd % hashTreeSectors)

/-- `psync_fs_crypto_get_auth_sector_off`; `none` is the failing
`assert(secd<sizesecd)`. -/
def getAuthSectorOff (sectorid level : Nat) (offsets : Offsets) : Option AuthSectorOff :=
  let w := authSectorWalk level (getLastSectoridBySize offsets.plainsize / hashTreeSectors)
    (sectorid / hashTreeSectors) (sectorid % hashTreeSectors)
  if w.2.1 = w.1 then some ⟨offsets.lastOff level, offsets.lastLen level, w.2.2⟩
  else if w.2.1 < w.1 then some ⟨authOffset level w.2.1, sectorSize, w.2.2⟩
  else none

end PcloudClient.FsCrypto
