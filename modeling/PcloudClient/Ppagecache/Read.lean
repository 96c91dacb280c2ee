/-
  Ppagecache/Read.lean --- reading from an open file that is not encrypted.

  A page of a revision has the same bytes wherever it is found, in memory, in the database or
  remotely.  A modified file is read remotely and what is in its data file is read over it.
-/
import PcloudClient.Pfs.PlainFile

set_option autoImplicit false

namespace PcloudClient.Ppagecache

open PcloudClient.Foundation
open PcloudClient.Pfs

/-- `offset_round_down_to_page` -/
def offsetRoundDownToPage (offset : Nat) : Nat :=
  offset / PSYNC_FS_PAGE_SIZE * PSYNC_FS_PAGE_SIZE

/-- `size_round_up_to_page` -/
def sizeRoundUpToPage (size : Nat) : Nat :=
  (size + PSYNC_FS_PAGE_SIZE - 1) / PSYNC_FS_PAGE_SIZE * PSYNC_FS_PAGE_SIZE

/-- A page of a revision. -/
def page (remote : Bytes) (pageid : Nat) : Bytes :=
  File.pread remote PSYNC_FS_PAGE_SIZE (pageid * PSYNC_FS_PAGE_SIZE)

/-- Where the bytes of the page `i` of a request are in the page. -/
def copyoff (pageoff i : Nat) : Nat := if i = 0 then pageoff else 0

/-- How many they are. -/
def copysize (size pageoff pagecnt i : Nat) : Nat :=
  if i = 0 then
    if PSYNC_FS_PAGE_SIZE - pageoff < size then PSYNC_FS_PAGE_SIZE - pageoff else size
  else if i = pagecnt - 1 then
    if (size + pageoff) % PSYNC_FS_PAGE_SIZE = 0 then PSYNC_FS_PAGE_SIZE
    else (size + pageoff) % PSYNC_FS_PAGE_SIZE
  else PSYNC_FS_PAGE_SIZE

/-- Where they go in the buffer. -/
def pbuff (pageoff i : Nat) : Nat := if i = 0 then 0 else i * PSYNC_FS_PAGE_SIZE - pageoff

/-- The loop of `psync_pagecache_read_unmodified_locked`, from the page `i` on: the number of
bytes and the buffer. -/
def pageLoop (remote : Bytes) (firstPageId pageoff size pagecnt : Nat) :
    Nat → Nat → Bytes → Nat × Bytes
  | 0, _, buf => (size, buf)
  | n + 1, i, buf =>
    let data := File.pread (page remote (firstPageId + i)) (copysize size pageoff pagecnt i)
      (copyoff pageoff i)
    let buf := File.pwrite buf data (pbuff pageoff i)
    if data.length = copysize size pageoff pagecnt i then
      pageLoop remote firstPageId pageoff size pagecnt n (i + 1) buf
    else (if i = 0 then data.length else i * PSYNC_FS_PAGE_SIZE + data.length - pageoff, buf)

/-- `psync_pagecache_read_unmodified_locked` -/
def readUnmodified (of : Openfile) (buf : Bytes) (size offset : Nat) : Nat × Bytes :=
  if of.initialsize ≤ offset then (0, buf)
  else
    let size := if of.initialsize < offset + size then of.initialsize - offset else size
    let poffset := offsetRoundDownToPage offset
    let pageoff := offset - poffset
    let psize := sizeRoundUpToPage (size + pageoff)
    let pagecnt := psize / PSYNC_FS_PAGE_SIZE
    pageLoop of.remote (poffset / PSYNC_FS_PAGE_SIZE) pageoff size pagecnt pagecnt 0 buf

/-- `psync_interval_tree_first_interval_containing_or_after` and the intervals behind it. -/
def intervalsFrom (tree : List (Span Nat)) (point : Nat) : List (Span Nat) :=
  tree.dropWhile fun i => i.stop ≤ point

/-- Where an interval of the data file begins in a request. -/
def ioffset (offset : Nat) (fi : Span Nat) : Nat :=
  if fi.start < offset then offset else fi.start

/-- How much of it is asked for. -/
def isize (size offset : Nat) (fi : Span Nat) : Nat :=
  let isize := fi.stop - fi.start
  let isize := if fi.start < offset then isize - (offset - fi.start) else isize
  if offset + size < ioffset offset fi + isize then offset + size - ioffset offset fi else isize

/-- The loop of `psync_pagecache_read_modified_locked`. -/
def overlayLoop (data : Bytes) (size offset : Nat) :
    List (Span Nat) → Nat → Bytes → Nat × Bytes
  | [], rd, buf => (rd, buf)
  | fi :: rest, rd, buf =>
    if offset + size ≤ fi.start then (rd, buf)
    else
      let br := File.pread data (isize size offset fi) (ioffset offset fi)
      let reach := br.length + ioffset offset fi - offset
      overlayLoop data size offset rest (if rd ≠ size ∧ rd < reach then reach else rd)
        (File.pwrite buf br (ioffset offset fi - offset))

/-- The request is inside one interval of the data file. -/
def onlyLocal (of : Openfile) (size offset : Nat) : Bool :=
  (intervalsFrom of.writeintervals offset).head?.any fun fi =>
    fi.start ≤ offset ∧ offset + size ≤ fi.stop

/-- `psync_pagecache_read_modified_locked`: what it returns and the buffer. -/
def readModified (of : Openfile) (buf : Bytes) (size offset : Nat) : Option (Nat × Bytes) := do
  let data ← of.datafile
  if onlyLocal of size offset then
    let br := File.pread data size offset
    return (br.length, File.pwrite buf br 0)
  else
    let rd := readUnmodified of buf size offset
    return overlayLoop data size offset (intervalsFrom of.writeintervals offset) rd.1 rd.2

/-- `psync_read_newfile` -/
def readNewfile (of : Openfile) (buf : Bytes) (size offset : Nat) : Option (Nat × Bytes) := do
  let data ← of.datafile
  let br := File.pread data size offset
  return (br.length, File.pwrite buf br 0)

/-- `psync_fs_read` for a plain file. -/
def read (of : Openfile) (buf : Bytes) (size offset : Nat) : Option (Nat × Bytes) :=
  if of.newfile then readNewfile of buf size offset
  else if of.modified then readModified of buf size offset
  else some (readUnmodified of buf size offset)

end PcloudClient.Ppagecache
