/-
  Ppagecache/ToCache.lean --- the pages of a modified file become pages of its new revision.

  Behind an upload the cache has pages of the old revision, and the data file and the index have
  what was written.  Pages that nobody wrote to are moved to the new hash, the others are put
  together again.  Pages are here with their bytes, and the cache file with what is in it.
-/
import PcloudClient.Ppagecache.Read
import PcloudClient.Ppagecache.Threads

set_option autoImplicit false

namespace PcloudClient.Ppagecache

open PcloudClient.Foundation
open PcloudClient.Pfs

/-- A page in memory with its buffer. -/
structure Page where
  desc : Desc
  bytes : Bytes
  deriving DecidableEq, Repr

/-- The bytes of the buffer that count. -/
def Page.data (p : Page) : Bytes := p.bytes.take p.desc.size

/-- The page is one of this file. -/
def Page.isAt (p : Page) (hash pageid : Nat) : Prop := p.desc.hash = hash ∧ p.desc.pageid = pageid

instance (p : Page) (hash pageid : Nat) : Decidable (p.isAt hash pageid) :=
  inferInstanceAs (Decidable (_ ∧ _))

/-- The cache with what is in it; the pages of a bucket are in the order they were added in. -/
structure Store where
  pages : List Page
  rows : Table
  file : Bytes
  deriving DecidableEq, Repr

/-- A `pread` that fails, or returns at most so many bytes. -/
def preadUpTo (f : Bytes) (len off : Nat) (limit : Option Nat) : Option Bytes :=
  limit.map fun n => (File.pread f len off).take n

namespace Store

variable (s : Store)

/-! ## Flushing -/

/-- What `flush_pages` does to the pages and rows, one by one. -/
inductive Flush where
  /-- A page is freed: one of type `PAGE_TYPE_CACHE`, one that a full disk has no place for, or one
  whose row is not changed. -/
  | discard (k : Nat)
  /-- A page is written for a row whose transaction fails later on. -/
  | write (k id : Nat)
  /-- A page is written, and the row gets it. -/
  | fill (k id : Nat)
  /-- `check_disk_full` deletes rows. -/
  | delete (maxpage : Nat)
  /-- A free row is added. -/
  | insert
  deriving DecidableEq, Repr

/-- The page is written for a free row. -/
def writeSlot (p : Page) (id : Nat) : Bytes :=
  File.pwrite s.file (p.bytes.take PSYNC_FS_PAGE_SIZE) (id * PSYNC_FS_PAGE_SIZE)

def hasFree (id : Nat) : Bool := s.rows.any fun r => r.id = id ∧ r.type = .free

/-- One of them; what cannot be done is not done. -/
def flush : Flush → Store
  | .discard k => { s with pages := s.pages.eraseIdx k }
  | .write k id =>
    match s.pages[k]? with
    | some p => if s.hasFree id then { s with file := s.writeSlot p id } else s
    | none => s
  | .fill k id =>
    match s.pages[k]? with
    | some p =>
      if s.hasFree id ∧ p.desc.type = .read ∧
          s.rows.taken id (p.desc.hash, p.desc.pageid) = false then
        { pages := s.pages.eraseIdx k
          rows := s.rows.update id fun _ => p.desc.row id
          file := s.writeSlot p id }
      else s
    | none => s
  | .delete maxpage => { s with rows := s.rows.deleteAbove maxpage }
  | .insert => { s with rows := s.rows.insertFree }

/-! ## Looking for a page -/

variable (crc32c : Bytes → Nat)

/-- What is left of a request for `size` bytes from `off` on in a page of `stored` bytes. -/
def cutSize (stored size off : Nat) : Nat :=
  if stored < size + off then if stored < off then 0 else stored - off else size

/-- A page that was not used for five seconds is marked as used. -/
def touchPage (now : Nat) (p : Page) : Page :=
  if p.desc.lastuse + 5 < now then
    { p with desc := { p.desc with lastuse := now, usecnt := p.desc.usecnt + 1 } }
  else p

/-- The loop of `check_page_in_memory_by_hash`: the pages, the buffer and what is returned. -/
def memoryLoop (hash pageid now off : Nat) :
    List Page → Bytes → Nat → Option Nat → List Page × Bytes × Option Nat
  | [], buff, _, ret => ([], buff, ret)
  | p :: ps, buff, size, ret =>
    if p.isAt hash pageid then
      if crc32c p.data ≠ p.desc.crc then (ps, buff, ret)
      else
        let size := cutSize p.desc.size size off
        let r := memoryLoop hash pageid now off ps
          (File.pwrite buff (File.pread p.bytes size off) 0)
          size (some size)
        (touchPage now p :: r.1, r.2)
    else
      let r := memoryLoop hash pageid now off ps buff size ret
      (p :: r.1, r.2)

/-- `check_page_in_memory_by_hash` -/
def checkPageInMemoryByHash (hash pageid now : Nat) (buff : Bytes) (size off : Nat) :
    Store × Bytes × Option Nat :=
  let r := memoryLoop crc32c hash pageid now off s.pages buff size none
  ({ s with pages := r.1 }, r.2)

/-- `mark_page_free` -/
def markPageFree (id : Nat) : Store := { s with rows := s.rows.update id Table.unnamed }

/-- `WHERE type=PAGE_TYPE_READ AND hash=? AND pageid=?` -/
def isRowOf (hash pageid : Nat) (r : Row) : Bool := r.type = .read ∧ r.key = some (hash, pageid)

/-- `check_page_in_database_by_hash`; `limit` is for its read of the cache file. -/
def checkPageInDatabaseByHash (hash pageid : Nat) (buff : Bytes) (size off : Nat)
    (limit : Option Nat) : Store × Bytes × Option Nat :=
  match s.rows.find? (isRowOf hash pageid) with
  | none => (s, buff, none)
  | some r =>
    let size := cutSize r.size size off
    match preadUpTo s.file size (r.id * PSYNC_FS_PAGE_SIZE + off) limit with
    | none => (s.markPageFree r.id, buff, none)
    | some data =>
      let buff := File.pwrite buff data 0
      if data.length ≠ size then (s.markPageFree r.id, buff, none)
      else if size = r.size ∧ off = 0 ∧ crc32c (buff.take size) ≠ r.crc then
        (s.markPageFree r.id, buff, none)
      else (s, buff, some size)

/-- A page is looked for in memory, then in the database. -/
def findPage (hash pageid now : Nat) (buff : Bytes) (size : Nat) (limit : Option Nat) :
    Store × Bytes × Option Nat :=
  match s.checkPageInMemoryByHash crc32c hash pageid now buff size 0 with
  | (s, buff, some n) => (s, buff, some n)
  | (s, buff, none) => s.checkPageInDatabaseByHash crc32c hash pageid buff size 0 limit

/-! ## Pages for the new hash -/

/-- The first page that `switch_memory_page_to_hash` would move. -/
def switchable (oldhash pageid : Nat) (p : Page) : Bool :=
  p.isAt oldhash pageid ∧ p.desc.type = .read

/-- `switch_memory_page_to_hash` -/
def switchMemoryPageToHash (oldhash newhash pageid : Nat) : Option Store :=
  (s.pages.find? (switchable oldhash pageid)).map fun p =>
    { s with
      pages := s.pages.eraseP (switchable oldhash pageid) ++
        [{ p with desc := { p.desc with hash := newhash } }] }

/-- `switch_pageids`; `ok` is false where a statement or the commit fails. -/
def switchPageids (hash oldhash now : Nat) (pageids : List Nat) (ok : Bool) : Store :=
  if ok then
    { s with
      rows := pageids.foldl (fun rows pageid => rows.switchPageid hash oldhash pageid now) s.rows }
  else s

/-- `psync_pagecache_add_page_if_not_exists`: `rowFound` is false where the query for the row fails,
`waited` tells that somebody waits for the page. -/
def addPageIfNotExists (p : Page) (rowFound waited : Bool) : Store :=
  if rowFound && s.rows.any (isRowOf p.desc.hash p.desc.pageid) then s
  else if s.pages.any (switchable p.desc.hash p.desc.pageid) || waited then s
  else { s with pages := s.pages ++ [p] }

/-- The fields that a page gets, and its place. -/
def addPage (hash pageid tm pdb : Nat) (bytes : Bytes) (rowFound waited : Bool) : Store :=
  s.addPageIfNotExists
    ⟨⟨hash, pageid, tm, pdb, 1, crc32c (bytes.take pdb), .read⟩, bytes⟩ rowFound waited

end Store

/-! ## The loop over the pages -/

/-- What the calls return that are made for a page. -/
structure Calls where
  /-- What `psync_pagecache_get_free_page(1)` flushes. -/
  flush : List Store.Flush
  /-- What is in the page that it returns. -/
  buffer : Bytes
  /-- `psync_timer_time` -/
  now : Nat
  /-- How much a read of the cache file returns. -/
  cacheRead : Option Nat
  /-- How much a read of the data file returns, by offset. -/
  localRead : Nat → Option Nat
  rowFound : Bool
  waited : Bool
  switched : Bool

/-- The state of `psync_pagecache_modify_to_cache`: the rest of the intervals and `pageids`. -/
structure Modifying where
  store : Store
  intervals : List (Span Nat)
  pageids : List Nat

/-- The files and the hashes of `psync_pagecache_modify_to_cache`; `tm` is the time of its start. -/
structure ToCache where
  data : Bytes
  hash : Nat
  oldhash : Nat
  tm : Nat

namespace ToCache

variable (crc32c : Bytes → Nat) (f : ToCache)

/-- `roff` and `rdoff`: where an interval begins in the page and in the file. -/
def roff (off : Nat) (fi : Span Nat) : Nat := if off < fi.start then fi.start - off else 0

def rdoff (off : Nat) (fi : Span Nat) : Nat := if off < fi.start then fi.start else off

def rdlen (off : Nat) (fi : Span Nat) : Nat :=
  if fi.stop < off + PSYNC_FS_PAGE_SIZE then fi.stop - rdoff off fi
  else PSYNC_FS_PAGE_SIZE - roff off fi

/-- The loop that reads the intervals of a page over it: the rest of the intervals, the buffer,
`pdb` and whether it worked. -/
def combineLoop (localRead : Nat → Option Nat) (off : Nat) :
    List (Span Nat) → Bytes → Nat → List (Span Nat) × Bytes × Nat × Bool
  | [], buff, pdb => ([], buff, pdb, true)
  | fi :: rest, buff, pdb =>
    match preadUpTo f.data (rdlen off fi) (rdoff off fi) (localRead (rdoff off fi)) with
    | none => (fi :: rest, buff, pdb, false)
    | some rd =>
      let buff := File.pwrite buff rd (roff off fi)
      let reach := if pdb < roff off fi + rd.length then roff off fi + rd.length else pdb
      if rd.length ≠ rdlen off fi then
        if f.data.length ≤ rdoff off fi + rd.length then (fi :: rest, buff, reach, true)
        else (fi :: rest, buff, pdb, false)
      else if off + PSYNC_FS_PAGE_SIZE < fi.stop then (fi :: rest, buff, reach, true)
      else
        match rest with
        | [] => ([], buff, reach, true)
        | next :: _ =>
          if off + PSYNC_FS_PAGE_SIZE ≤ next.start then (rest, buff, reach, true)
          else combineLoop localRead off rest buff reach

/-- The last page of the file, when it is as it was. -/
def lastPage (s : Store) (pageid : Nat) (k : Calls) : Store :=
  let off := pageid * PSYNC_FS_PAGE_SIZE
  match (k.flush.foldl Store.flush s).findPage crc32c f.oldhash pageid k.now k.buffer
      (f.data.length - off) k.cacheRead with
  | (s, _, none) => s
  | (s, buff, some pdb) => s.addPage crc32c f.hash pageid f.tm pdb buff k.rowFound k.waited

/-- A whole page that is as it was. -/
def oldPage (m : Modifying) (pageid : Nat) (k : Calls) : Modifying :=
  match m.store.switchMemoryPageToHash f.oldhash f.hash pageid with
  | some s => { m with store := s }
  | none =>
    let pageids := m.pageids ++ [pageid]
    if pageids.length = 64 then
      { m with
        store := m.store.switchPageids f.hash f.oldhash k.now pageids k.switched
        pageids := [] }
    else { m with pageids := pageids }

/-- A page that was written to as a whole; `false` where it cannot be read. -/
def newPage (s : Store) (pageid : Nat) (k : Calls) : Store × Bool :=
  let off := pageid * PSYNC_FS_PAGE_SIZE
  let s := k.flush.foldl Store.flush s
  let rd := if f.data.length < off + PSYNC_FS_PAGE_SIZE then f.data.length - off
    else PSYNC_FS_PAGE_SIZE
  match preadUpTo f.data rd off (k.localRead off) with
  | none => (s, false)
  | some bytes =>
    if bytes.length < PSYNC_FS_PAGE_SIZE ∧ off + bytes.length ≠ f.data.length then (s, false)
    else
      (s.addPage crc32c f.hash pageid f.tm bytes.length (File.pwrite k.buffer bytes 0) k.rowFound
        k.waited, true)

/-- A page with old and new parts. -/
def mixedPage (m : Modifying) (pageid : Nat) (k : Calls) : Modifying :=
  let off := pageid * PSYNC_FS_PAGE_SIZE
  match (k.flush.foldl Store.flush m.store).findPage crc32c f.oldhash pageid k.now k.buffer
      PSYNC_FS_PAGE_SIZE k.cacheRead with
  | (s, _, none) => { m with store := s }
  | (s, buff, some pdb) =>
    match f.combineLoop k.localRead off m.intervals buff pdb with
    | (intervals, _, _, false) => { m with store := s, intervals := intervals }
    | (intervals, buff, pdb, true) =>
      let pdb := if f.data.length < pdb + off then f.data.length - off else pdb
      { m with
        store := s.addPage crc32c f.hash pageid f.tm pdb buff k.rowFound k.waited
        intervals := intervals }

/-- One turn of the loop; `false` where it is left. -/
def turn (m : Modifying) (pageid : Nat) (k : Calls) : Modifying × Bool :=
  let off := pageid * PSYNC_FS_PAGE_SIZE
  let m := { m with intervals := intervalsFrom m.intervals off }
  if m.intervals.head?.all fun fi => off + PSYNC_FS_PAGE_SIZE ≤ fi.start then
    if f.data.length < off + PSYNC_FS_PAGE_SIZE then
      ({ m with store := f.lastPage crc32c m.store pageid k }, false)
    else (f.oldPage m pageid k, true)
  else if m.intervals.head?.any fun fi => fi.start ≤ off ∧
      (off + PSYNC_FS_PAGE_SIZE ≤ fi.stop ∨ f.data.length ≤ fi.stop) then
    let r := f.newPage crc32c m.store pageid k
    ({ m with store := r.1 }, r.2)
  else (f.mixedPage crc32c m pageid k, true)

/-- The turns from a page on. -/
def loop (calls : Nat → Calls) : Nat → Nat → Modifying → Modifying
  | 0, _, m => m
  | n + 1, pageid, m =>
    match f.turn crc32c m pageid (calls pageid) with
    | (m, true) => loop calls n (pageid + 1) m
    | (m, false) => m

/-- `psync_pagecache_modify_to_cache`, with the files of the task, which it deletes in the end; a
failed assertion is `none`.  `calls` has what is returned for each page and `last` what is for the
statement behind the loop. -/
def modifyToCache (s : Store) (index : List IndexRecord) (calls : Nat → Calls) (last : Calls) :
    Option Store := do
  let tree ← loadIntervalTree index []
  let m := f.loop crc32c calls (sizeRoundUpToPage f.data.length / PSYNC_FS_PAGE_SIZE) 0
    ⟨s, tree, []⟩
  return if m.pageids = [] then m.store
    else m.store.switchPageids f.hash f.oldhash last.now m.pageids last.switched

end ToCache

end PcloudClient.Ppagecache
