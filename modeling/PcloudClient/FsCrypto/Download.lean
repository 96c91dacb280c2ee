/-
  FsCrypto/Download.lean --- what a write to a modified file downloads first
  (`pfscrypto.c`, lines 1297-1440).

  Sectors that are written in part, and the auth sectors on the path of the first sector
  and of every 128th, are to be in the data file.  What is missing there is collected in
  an interval tree and fetched; the mutex is free while the network is at work.
-/
import PcloudClient.FsCrypto.Newfile

set_option autoImplicit false

namespace PcloudClient.FsCrypto

open PcloudClient.Bytes

/-! ## Intervals -/

/-- `psync_interval_tree_first_interval_containing_or_after` -/
def firstInterval (ivs : List (Nat × Nat)) (point : Nat) : Option (Nat × Nat) :=
  ivs.find? fun i => point < i.2

/-- `itr && itr->from<=eoffset` -/
def covers (itr : Option (Nat × Nat)) (eoffset : Nat) : Bool :=
  itr.any fun i => i.1 ≤ eoffset

/-- `eoffset` of a sector. -/
def sectorEoffset (sectorid : Nat) : Nat := dataSectoridBySectorid sectorid * sectorSize

/-- The sector can be read without the network. -/
def Openfile.IsLocal (of : Openfile) (sectorid : Nat) : Prop :=
  of.newfile = true ∨
    covers (firstInterval of.writeintervals (sectorEoffset sectorid))
      (sectorEoffset sectorid) = true

instance (of : Openfile) (sectorid : Nat) : Decidable (of.IsLocal sectorid) :=
  inferInstanceAs (Decidable (_ ∨ _))

/-- `psync_interval_tree_add(&needtodwl, eoffset, end)`, with `end` cut at the interval `itr`
that begins behind `eoffset`. -/
def addMissing (need : List (Nat × Nat)) (itr : Option (Nat × Nat)) (eoffset stop : Nat) :
    Except Abort (List (Nat × Nat)) := do
  let stop :=
    match itr with
    | some i => if i.1 < stop then i.1 else stop
    | none => stop
  assert (eoffset < stop)
  return addInterval eoffset stop need

/-! ## What is missing -/

section

variable (of : Openfile)

/-- The loop over the levels of the hash tree; with `itr`, where it ends. -/
def needAuthSectors (offsets : Offsets) (sectorid : Nat) : (levels : List Nat) →
    (itr : Option (Nat × Nat)) → (need : List (Nat × Nat)) →
      Except Abort (Option (Nat × Nat) × List (Nat × Nat))
  | [], itr, need => .ok (itr, need)
  | l :: levels, _, need =>
    match getAuthSectorOff sectorid l offsets with
    | none => .error .assertFailed
    | some place =>
      let itr := firstInterval of.writeintervals place.offset
      if covers itr place.offset then needAuthSectors offsets sectorid levels itr need
      else do
        let need ← addMissing need itr place.offset (place.offset + place.size)
        needAuthSectors offsets sectorid levels itr need

/-- The loop over the sectors of a write of `size` bytes at `offset`. -/
def needSectors (size offset firstsectorid lastsectorid : Nat) : (sectors : List Nat) →
    (itr : Option (Nat × Nat)) → (need : List (Nat × Nat)) → Except Abort (List (Nat × Nat))
  | [], _, need => .ok need
  | sectorid :: sectors, itr, need =>
    if of.initialsize ≤ sectorid * sectorSize ∨ of.currentsize ≤ sectorid * sectorSize then .ok need
    else
      let eoffset := sectorEoffset sectorid
      if itr.any fun i => i.1 ≤ eoffset ∧ eoffset < i.2 then
        needSectors size offset firstsectorid lastsectorid sectors itr need
      else
        let itr := firstInterval of.writeintervals eoffset
        if covers itr eoffset then
          needSectors size offset firstsectorid lastsectorid sectors itr need
        else do
          let need ←
            if (sectorid = firstsectorid ∧ offset % sectorSize ≠ 0) ∨
                (sectorid = lastsectorid ∧ (offset + size) % sectorSize ≠ 0) then
              addMissing need itr eoffset (eoffset + sectorSize)
            else pure need
          if sectorid ≠ firstsectorid ∧ sectorid % hashTreeSectors ≠ 0 then
            needSectors size offset firstsectorid lastsectorid sectors itr need
          else
            -- the checksums at the end have moved to where the present size puts them
            let offsets := offsetsByPlainsize
              (match of.extender with
                | some ext => ext.extendedto
                | none => of.currentsize)
            let st ← needAuthSectors of offsets sectorid
              (List.range (offsets.treelevels + 1)) itr need
            needSectors size offset firstsectorid lastsectorid sectors st.1 st.2

/-- The ranges that a write of `size` bytes at `offset` is to download, up to the end of the
remote file. -/
def needToDownload (size offset : Nat) : Except Abort (List (Nat × Nat)) := do
  let firstsectorid := offset / sectorSize
  let lastsectorid := (offset + size - 1) / sectorSize
  -- a file that grows needs the checksums of its last sector
  let before := offset = of.initialsize ∧ firstsectorid ≠ 0 ∧ offset % sectorSize = 0
  let first := if before then firstsectorid - 1 else firstsectorid
  let last := if before then firstsectorid - 1 else lastsectorid
  let need ← needSectors of size offset first last (List.range' first (last + 1 - first)) none []
  let eoffset := cryptoSize
    (if of.currentsize < of.initialsize then of.currentsize else of.initialsize)
  return (need.takeWhile fun i => i.1 < eoffset).map fun i =>
    (i.1, if eoffset < i.2 then eoffset else i.2)

end

/-! ## Storing it -/

/-- What a call finds when it takes the mutex again after it was at the network: what the call
to the page cache returned, and the bytes of the remote file. -/
structure Reply where
  ret : Int
  bytes : Nat → UInt8

/-- The bytes of a range. -/
def Reply.range (reply : Reply) (r : Nat × Nat) : Bytes :=
  (List.range' r.1 (r.2 - r.1)).map reply.bytes

/-- `psync_file_pwrite(of->datafile, ..)` -/
def Openfile.pwriteData (of : Openfile) (b : Bytes) (off : Nat) : Openfile :=
  { of with
    datafile := File.pwrite of.datafile b off
    trace := of.trace ++ [.pwrite .data b off] }

/-- The loop over the downloaded ranges; the flag says that the write starts again, as another
one came first. -/
def storeRanges (reply : Reply) : Openfile → List (Nat × Nat) → Except Abort (Openfile × Bool)
  | of, [] => .ok (of, false)
  | of, r :: ranges =>
    if (firstInterval of.writeintervals r.1).any fun i => i.1 < r.2 ∧ r.1 < i.2 then .ok (of, true)
    else do
      let of ← (of.pwriteData (reply.range r) r.1).intervalTreeAdd r.1 r.2
      storeRanges reply of ranges

end PcloudClient.FsCrypto
