/-
  FsCrypto/AuthTree.lean --- the hash tree written to the log when it is finalised
  (`pfscrypto.c`, lines 506-646).

  The sectors of the log are visited in order.  `autharr` holds, for every level, the
  auth sector on the path of the current sector; when the path changes, the auth sectors
  that are left are signed into their parents and written, and those entered are loaded
  from the data file.
-/
import PcloudClient.FsCrypto.Openfile

set_option autoImplicit false

namespace PcloudClient.FsCrypto

/-- `psync_crypto_auth_sector_t *`: the auth sector of each level. -/
abbrev AuthArr := Nat → Bytes

/-- `memcpy(autharr[level][slot], auth, PSYNC_CRYPTO_AUTH_SIZE)` -/
def AuthArr.setSlot (autharr : AuthArr) (level slot : Nat) (auth : Bytes) : AuthArr :=
  Function.update autharr level (File.pwrite (autharr level) auth (slot * authSize))

section

variable (env : Env)

/-- One turn of the writing loop of `psync_fs_crypto_switch_sectors`: the auth sector
`oldsecd` of `level` goes to the log and its signature to its parent. -/
def writeAuthSector (of : Openfile) (autharr : AuthArr) (offsets : Offsets)
    (level oldsecd sizesecd : Nat) : Except Abort (Openfile × AuthArr) := do
  let oldsecn := oldsecd % hashTreeSectors
  if oldsecd ≠ sizesecd then assert (oldsecd < sizesecd)
  let place := authSectorPlace offsets level oldsecd sizesecd
  assert (place.1 + place.2 ≤ offsets.masterauthoff + authSize)
  let hdr := (LogHeader.data place.2 place.1).encode
  let content := (autharr level).take place.2
  let autharr := autharr.setSlot (level + 1) oldsecn (env.sign content)
  let of := (of.pwriteLog hdr of.logoffset).hashUpdate hdr
  let of := (of.pwriteLog content (of.logoffset + LogHeader.size)).hashUpdate content
  let of ← if of.newfile then pure of else of.intervalTreeAdd place.1 (place.1 + place.2)
  return (of.advanceLog (place.2 + LogHeader.size), autharr)

/-- The writing loop of `psync_fs_crypto_switch_sectors`. -/
def switchWriteLoop (of : Openfile) (autharr : AuthArr) (offsets : Offsets)
    (level oldsecd newsecd sizesecd : Nat) : Except Abort (Openfile × AuthArr) := do
  let st ← writeAuthSector env of autharr offsets level oldsecd sizesecd
  if _h : oldsecd / hashTreeSectors ≠ newsecd / hashTreeSectors ∧
      level + 1 < offsets.treelevels then
    switchWriteLoop st.1 st.2 offsets (level + 1) (oldsecd / hashTreeSectors)
      (newsecd / hashTreeSectors) (sizesecd / hashTreeSectors)
  else return st
termination_by offsets.treelevels - level

/-- One turn of the loading loop of `psync_fs_crypto_switch_sectors`; `none` is the
short read. -/
def loadAuthSector (datafile : Bytes) (autharr : AuthArr) (ooffsets : Offsets)
    (level newsecd sizesecd : Nat) : Option AuthArr :=
  if newsecd ≤ sizesecd then
    let place := authSectorPlace ooffsets level newsecd sizesecd
    let rd := File.pread datafile place.2 place.1
    if rd.length ≠ place.2 then none
    else some (Function.update autharr level (File.pwrite (autharr level) rd 0))
  else some autharr

/-- The loading loop of `psync_fs_crypto_switch_sectors`. -/
def switchLoadLoop (datafile : Bytes) (autharr : AuthArr) (offsets ooffsets : Offsets)
    (level oldsecd newsecd sizesecd : Nat) : Option AuthArr := do
  let autharr ← loadAuthSector datafile autharr ooffsets level newsecd sizesecd
  if _h : oldsecd / hashTreeSectors ≠ newsecd / hashTreeSectors ∧
      level + 1 < offsets.treelevels ∧
      (level + 1 < ooffsets.treelevels ∨
        ooffsets.needmasterauth ∧ level + 1 = ooffsets.treelevels) then
    switchLoadLoop datafile autharr offsets ooffsets (level + 1) (oldsecd / hashTreeSectors)
      (newsecd / hashTreeSectors) (sizesecd / hashTreeSectors)
  else return autharr
termination_by offsets.treelevels - level

/-- The second half of `psync_fs_crypto_switch_sectors`, which loads the path of
`newsectorid`. -/
def switchLoad (datafile : Bytes) (autharr : AuthArr) (oldsectorid newsectorid : Nat)
    (offsets : Offsets) : AuthArr × Int :=
  if newsectorid ≠ invalidSectorid ∧ authSize < datafile.length then
    let ooffsets := offsetsByCryptosize datafile.length
    match switchLoadLoop datafile autharr offsets ooffsets 0 (oldsectorid / hashTreeSectors)
        (newsectorid / hashTreeSectors)
        (getLastSectoridBySize ooffsets.plainsize / hashTreeSectors) with
    | some autharr => (autharr, 0)
    | none => (autharr, -eio)
  else (autharr, 0)

/-- `psync_fs_crypto_switch_sectors` -/
def switchSectors (of : Openfile) (oldsectorid newsectorid : Nat) (autharr : AuthArr)
    (offsets : Offsets) : Except Abort (Openfile × AuthArr × Int) := do
  let st ←
    if oldsectorid ≠ invalidSectorid then
      switchWriteLoop env of autharr offsets 0 (oldsectorid / hashTreeSectors)
        (newsectorid / hashTreeSectors)
        (getLastSectoridBySize offsets.plainsize / hashTreeSectors)
    else pure (of, autharr)
  return (st.1, switchLoad st.1.datafile st.2 oldsectorid newsectorid offsets)

/-- `psync_fs_crypto_write_master_auth`; it returns zero. -/
def writeMasterAuth (of : Openfile) (autharr : AuthArr) (offsets : Offsets) :
    Except Abort Openfile := do
  assert (0 < offsets.treelevels)
  assert (0 < offsets.lastLen (offsets.treelevels - 1))
  assert (offsets.lastLen (offsets.treelevels - 1) ≤ sectorSize)
  let auth := env.sign
    ((autharr (offsets.treelevels - 1)).take (offsets.lastLen (offsets.treelevels - 1)))
  let data := (LogHeader.data authSize offsets.masterauthoff).encode ++ auth
  let of := (of.pwriteLog data of.logoffset).hashUpdate data
  let of ←
    if of.newfile then pure of
    else of.intervalTreeAdd offsets.masterauthoff (offsets.masterauthoff + authSize)
  return of.advanceLog data.length

/-- The `while (sect)` loop of `psync_fs_write_auth_tree_to_log`; the last result is
`lastsect`. -/
def writeAuthTreeLoop (offsets : Offsets) :
    List SectorInlog → (lastsect : Nat) → Openfile → AuthArr →
      Except Abort (Openfile × AuthArr × Nat × Int)
  | [], lastsect, of, autharr => .ok (of, autharr, lastsect, 0)
  | sect :: rest, lastsect, of, autharr => do
    let st ←
      if lastsect / hashTreeSectors ≠ sect.sectorid / hashTreeSectors then
        switchSectors env of lastsect sect.sectorid autharr offsets
      else pure (of, autharr, 0)
    if st.2.2 ≠ 0 then return (st.1, st.2.1, lastsect, st.2.2)
    else
      writeAuthTreeLoop offsets rest sect.sectorid st.1
        (st.2.1.setSlot 0 (sect.sectorid % hashTreeSectors) sect.auth)

/-- `psync_fs_write_auth_tree_to_log` -/
def writeAuthTreeToLog (of : Openfile) (offsets : Offsets) : Except Abort (Openfile × Int) := do
  let st ← writeAuthTreeLoop env offsets of.sectorsinlog.toList invalidSectorid of
    fun level => (env.stack level).bytes
  if st.2.2.2 ≠ 0 then return (st.1, st.2.2.2)
  let fin ← switchSectors env st.1 st.2.2.1 invalidSectorid st.2.1 offsets
  if fin.2.2 ≠ 0 then return (fin.1, fin.2.2)
  if offsets.needmasterauth then return (← writeMasterAuth env fin.1 fin.2.1 offsets, 0)
  else return (fin.1, 0)

end

end PcloudClient.FsCrypto
