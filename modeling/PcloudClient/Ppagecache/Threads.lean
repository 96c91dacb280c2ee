/-
  Ppagecache/Threads.lean --- the threads that share the page cache.

  A step is a critical section of `cache_mutex`, a statement or transaction of the database, or a
  call on the cache file.  `flush_cache_mutex` is held through a flush, and through the freeing of
  a page of the cache file; `clean_cache_mutex` through a cleaning.  While a transaction is open
  nobody else gets at the database.
-/
import PcloudClient.Ppagecache.Cache

set_option autoImplicit false

namespace PcloudClient.Ppagecache

open PcloudClient.Pfs (PSYNC_FS_PAGE_SIZE)

/-! ## Starting, resizing and cleaning -/

namespace Cache

variable (c : Cache)

/-- `psync_pagecache_resize_cache` -/
def resizeCache (fscachesize : Nat) : Cache :=
  let c := { c with
    dbCacheInPages := fscachesize / PSYNC_FS_PAGE_SIZE
    dbCacheMaxPage := c.rows.maxId }
  if c.dbCacheInPages < c.dbCacheMaxPage then
    { c with
      rows := c.rows.deleteAbove c.dbCacheInPages
      dbCacheMaxPage := c.dbCacheInPages
      fileSize := min c.fileSize (c.dbCacheInPages * PSYNC_FS_PAGE_SIZE) }
  else c

/-- `psync_pagecache_clean_read_cache` -/
def cleanReadCache (fscachesize : Nat) : Cache :=
  let cnt := min (fscachesize / PSYNC_FS_PAGE_SIZE) (2 * CACHE_PAGES)
  { c with
    dbCacheInPages := fscachesize / PSYNC_FS_PAGE_SIZE
    fileSize := cnt * PSYNC_FS_PAGE_SIZE
    rows := Table.insertFree^[cnt] []
    freeDbPages := cnt
    dbCacheMaxPage := cnt }

/-- The rows that `psync_pagecache_init` keeps; there may be no cache file. -/
def bootRows (rows : Table) : Option Nat → Table
  | none => []
  | some size => rows.deleteAbove (size / PSYNC_FS_PAGE_SIZE)

/-- How many rows `psync_pagecache_init` adds. -/
def bootInserts (rows : Table) (dbCacheInPages : Nat) : Nat :=
  if rows.maxId < dbCacheInPages ∧ rows.countFree % 2 ^ 32 < CACHE_PAGES * 2 then
    min (dbCacheInPages - rows.maxId) (CACHE_PAGES * 2)
  else 0

/-- `psync_pagecache_init`, up to the resizing. -/
def opened (rows : Table) (file : Option Nat) (fscachesize : Nat) : Cache :=
  let rows := bootRows rows file
  let n := bootInserts rows (fscachesize / PSYNC_FS_PAGE_SIZE)
  { desc := fun _ => ⟨0, 0, 0, 0, 0, 0, .free⟩
    flushpageid := fun _ => 0
    freePages := List.range' 0 CACHE_PAGES
    hashed := []
    cachePagesFree := CACHE_PAGES
    cachePagesInHash := 0
    freeDbPages := add32 (rows.countFree % 2 ^ 32) n
    freePageWaiters := 0
    flushPageRunning := 0
    flushcacherun := false
    dbCacheInPages := fscachesize / PSYNC_FS_PAGE_SIZE
    dbCacheMaxPage := rows.maxId + n
    rows := Table.insertFree^[n] rows
    transaction := none
    fileSize := (rows.maxId + n) * PSYNC_FS_PAGE_SIZE }

/-- `psync_pagecache_init` over the rows and the file, if any, that an earlier run left. -/
def boot (rows : Table) (file : Option Nat) (fscachesize : Nat) (k : DiskCheck) : Cache :=
  let c := opened rows file fscachesize
  (if c.dbCacheInPages < c.dbCacheMaxPage then c.resizeCache fscachesize else c).checkDiskFull k

/-- `sizeinpages` of `psync_pagecache_free_page_from_read_cache`. -/
def evictPages : Nat :=
  if c.dbCacheMaxPage < c.fileSize / PSYNC_FS_PAGE_SIZE - 1 then c.dbCacheMaxPage
  else c.fileSize / PSYNC_FS_PAGE_SIZE - 1

/-- Rows that the file has no page for are deleted before a page is freed. -/
def deleteUnallocated : Cache :=
  let sizeinpages := c.fileSize / PSYNC_FS_PAGE_SIZE - 1
  if sizeinpages < c.dbCacheMaxPage then
    { c with rows := c.rows.deleteAbove sizeinpages, dbCacheMaxPage := sizeinpages }
  else c

/-- The fields of the row of the last page, where it holds one. -/
def evictRow (sizeinpages : Nat) : Option Desc :=
  ((c.rows.find? (·.id = sizeinpages)).filter (·.type ≠ .free)).map fun r =>
    ⟨(r.key.getD (0, 0)).1, (r.key.getD (0, 0)).2, r.lastuse, r.size, r.usecnt, r.crc, .read⟩

/-- The page that was read from the file goes to the hash, or back. -/
def evictAdd (p : Nat) (row : Option Desc) (crcOk known : Bool) : Cache :=
  match row with
  | none => c.returnFreePage p
  | some d =>
    if crcOk then c.addPageIfNotExists p d known
    else
      ({ c with
        desc := Function.update c.desc p { d with type := (c.desc p).type } }).returnFreePage p

/-- The last page and its row go; `ok` where the file can be truncated. -/
def evictDrop (sizeinpages : Nat) (ok : Bool) : Cache :=
  { c with
    dbCacheMaxPage := pred64 sizeinpages
    rows := c.rows.deleteAbove (pred64 sizeinpages)
    fileSize := if ok then sizeinpages * PSYNC_FS_PAGE_SIZE else c.fileSize }

theorem memory_resizeCache (fscachesize : Nat) :
    (c.resizeCache fscachesize).memory = c.memory := by
  unfold resizeCache
  dsimp only
  split <;> rfl

theorem memory_deleteUnallocated : c.deleteUnallocated.memory = c.memory := by
  unfold deleteUnallocated
  dsimp only
  split <;> rfl

theorem memory_boot (rows : Table) (file : Option Nat) (fscachesize : Nat) (k : DiskCheck) :
    (boot rows file fscachesize k).memory = (opened rows file fscachesize).memory := by
  unfold boot
  dsimp only
  rw [memory_checkDiskFull]
  split
  · exact memory_resizeCache _ _
  · rfl

end Cache

/-! ## Where a thread is -/

/-- Who called `flush_pages`. -/
inductive Caller where
  /-- `flush_pages_noret` in a thread of its own. -/
  | thread
  /-- `psync_pagecache_flush` -/
  | api
  /-- `psync_pagecache_get_free_page(1)`, with few pages left. -/
  | getInside
  /-- `psync_pagecache_get_free_page`, with no page left. -/
  | getEmpty (runthread : Bool)
  deriving DecidableEq, Repr

/-- The argument of `flush_pages`. -/
def Caller.nosleep : Caller → Nat
  | thread => 0
  | api => 1
  | getInside => 2
  | getEmpty _ => 1

/-- What is left to do in the transaction of a flush. -/
inductive Work where
  /-- `i` free rows are inserted, the pages are not looked at. -/
  | insert (pages : List Nat) (i : Nat)
  | update (pages : List Nat) (updates pagecnt : Nat)
  deriving DecidableEq, Repr

/-- Where `flush_pages` is; the pages are those on the list `pages_to_flush`. -/
inductive FlushPc where
  | start
  /-- `flush_page_running` is counted up, before `flush_cache_mutex`. -/
  | entered
  /-- In `check_disk_full` with the disk full, between the count of the free rows and its store. -/
  | counted (maxpage n : Nat)
  | checked (diskfull : Bool)
  /-- The pages are sorted to be discarded, `cache_mutex` is free. -/
  | discarding (pages : List Nat)
  /-- The pages are collected, before the free rows are queried. -/
  | selecting (diskfull : Bool) (pages : List Nat)
  /-- Some pages are written to the cache file, before it is synced. -/
  | writing (diskfull : Bool) (pages todo : List Nat)
  /-- Before `psync_sql_start_transaction`. -/
  | begin (diskfull : Bool) (work : Work)
  /-- In the transaction, before `cache_mutex`. -/
  | locked (diskfull : Bool) (work : Work)
  /-- `cache_mutex` is released to commit in between. -/
  | commit (diskfull : Bool) (work : Work)
  /-- `cache_mutex` is released for the last time. -/
  | ended (updates : Nat)
  deriving DecidableEq, Repr

/-- Where a thread is. -/
inductive Pc where
  | out
  /-- In `pthread_cond_wait` of `psync_pagecache_get_free_page`. -/
  | asleep (runthread : Bool)
  | woken (runthread : Bool)
  /-- In `psync_pagecache_get_free_page`, behind `flush_pages(2)`. -/
  | relock
  /-- In `psync_pagecache_get_free_page`, behind `flush_pages(1)`. -/
  | recheck (runthread : Bool)
  | flush (caller : Caller) (place : FlushPc)
  /-- In `clean_cache`, with the rows it is going to free. -/
  | clean (ids : List Nat)
  /-- In `psync_pagecache_free_page_from_read_cache`, before a page is asked for. -/
  | evictTake (sizeinpages : Nat)
  | evictRead (sizeinpages page : Nat)
  | evictAdd (sizeinpages page : Nat) (row : Option Desc)
  | evictDrop (sizeinpages : Nat)
  deriving DecidableEq, Repr

/-- Where the caller of `flush_pages` goes on. -/
def Caller.back : Caller → Pc
  | thread => .out
  | api => .out
  | getInside => .relock
  | getEmpty runthread => .recheck runthread

/-- `pthread_cond_broadcast` of `free_page_cond`. -/
def Pc.wake : Pc → Pc
  | asleep runthread => woken runthread
  | pc => pc

/-- Sections of the transaction of a flush between two times that `cache_mutex` is released: it
goes on with some work behind a commit, or it is over. -/
inductive Filled where
  | more (work : Work)
  | finished (updates : Nat)
  deriving DecidableEq, Repr

namespace Cache

variable (c : Cache)

/-- The last lines of `flush_pages` under `cache_mutex`. -/
def endFlush (pagecnt : Nat) : Cache :=
  { c with
    cachePagesInHash := sub32 c.cachePagesInHash pagecnt
    flushcacherun := false
    flushPageRunning := c.flushPageRunning - 1 }

def fillUpdates (sql : Statements) (nosleep : Nat) (pages : List Nat) (updates pagecnt : Nat) :
    Cache × Filled :=
  match updateBatch sql nosleep pages c updates pagecnt with
  | (c, some rest, updates, pagecnt) => (c, .more (.update rest updates pagecnt))
  | (c, none, updates, pagecnt) => (c.endFlush pagecnt, .finished updates)

/-- The section of `flush_pages` under `cache_mutex` in its transaction. -/
def fill (sql : Statements) (nosleep : Nat) (diskfull : Bool) : Work → Cache × Filled
  | .insert pages i =>
    if i = 0 ∧ ¬(c.dbCacheMaxPage < c.dbCacheInPages ∧ c.cachePagesInHash ≠ 0 ∧ diskfull = false)
    then c.fillUpdates sql nosleep pages 0 0
    else
      match insertBatch sql (64 - i % 64) c i with
      | (c, i, true) => (c, .more (.insert pages i))
      | (c, i, false) =>
        ({ c with
          freeDbPages := add32 c.freeDbPages i
          dbCacheMaxPage := c.dbCacheMaxPage + i }).fillUpdates sql nosleep pages 1 0
  | .update pages updates pagecnt => c.fillUpdates sql nosleep pages updates pagecnt

end Cache

/-! ## Steps -/

/-- The threads and what they share. -/
structure State (ι : Type) where
  cache : Cache
  pc : ι → Pc
  /-- The pages that a thread took and has not given away. -/
  hands : List (ι × Nat)
  /-- Threads for `flush_pages` that are created and have not begun. -/
  spawned : Nat
  flushMutex : Option ι
  cleanMutex : Option ι

variable {ι : Type} [DecidableEq ι]

namespace State

variable (st : State ι)

def goto (t : ι) (pc : Pc) (c : Cache) : State ι :=
  { st with pc := Function.update st.pc t pc, cache := c }

/-- `if (free_page_waiters) pthread_cond_broadcast(&free_page_cond)` -/
def broadcast : State ι :=
  if st.cache.freePageWaiters = 0 then st else { st with pc := fun u => (st.pc u).wake }

/-- The head of the free list goes to the thread, which leaves
`psync_pagecache_get_free_page`. -/
def takes (t : ι) (runthread : Bool) (p : Nat) (rest : List Nat) : State ι :=
  { st.goto t .out (st.cache.takeFree rest) with
    hands := (t, p) :: st.hands
    spawned := st.spawned + runthread.toNat }

/-- `psync_pagecache_get_free_page` from its look at the free list on. -/
def obtain (t : ι) (runthread : Bool) : State ι :=
  match st.cache.freePages with
  | p :: rest => st.takes t runthread p rest
  | [] =>
    if st.cache.flushPageRunning ≠ 0 then
      st.goto t (.asleep runthread)
        { st.cache with freePageWaiters := st.cache.freePageWaiters + 1 }
    else st.goto t (.flush (.getEmpty runthread) .start) st.cache

/-- The loop of `psync_pagecache_get_free_page` behind `flush_pages(1)`. -/
def reobtain (t : ι) (runthread : Bool) : State ι :=
  match st.cache.freePages with
  | p :: rest => st.takes t runthread p rest
  | [] => st.goto t (.flush (.getEmpty runthread) .start) st.cache

/-- `flushcacherun=1` by one who creates the thread or flushes itself. -/
def schedules : State ι := { st with cache := { st.cache with flushcacherun := true } }

/-- A thread for `flush_pages` is created. -/
def spawns : State ι := { st with spawned := st.spawned + 1 }

/-- `psync_pagecache_get_free_page` -/
def getFreePage (t : ι) (runflushcacheinside : Bool) : State ι :=
  if st.cache.wantsFlush then
    if runflushcacheinside then st.schedules.goto t (.flush .getInside .start) st.schedules.cache
    else st.schedules.obtain t true
  else st.obtain t false

/-- The thread comes out of `pthread_cond_wait`. -/
def awakes (t : ι) (runthread : Bool) : State ι :=
  { st with cache := { st.cache with freePageWaiters := st.cache.freePageWaiters - 1 } }.obtain t
    runthread

/-- The thread gives its page away. -/
def gives (t : ι) (p : Nat) (c : Cache) : State ι :=
  { st with hands := st.hands.erase (t, p), cache := c }

/-- `flush_pages` discards pages of a full disk. -/
def discards (pages : List Nat) : State ι :=
  let sorted := pages.insertionSort st.cache.discardLe
  { st with cache := st.cache.discard sorted }.broadcast

/-- `flush_pages` collects and goes on with what it found. -/
def collects (t : ι) (caller : Caller) (diskfull : Bool) : State ι :=
  if st.cache.collect.2 = [] then
    st.goto t (.flush caller (.begin diskfull (.insert [] 0))) st.cache.collect.1
  else st.goto t (.flush caller (.selecting diskfull st.cache.collect.2)) st.cache.collect.1

/-- `flush_pages` leaves the section of its transaction. -/
def fills (t : ι) (caller : Caller) (diskfull : Bool) : Cache × Filled → State ι
  | (c, .more (.insert pages i)) =>
    st.goto t (.flush caller (.commit diskfull (.insert pages i))) c
  | (c, .more (.update pages updates pagecnt)) =>
    (st.goto t (.flush caller (.commit diskfull (.update pages updates pagecnt))) c).broadcast
  | (c, .finished updates) => (st.goto t (.flush caller (.ended updates)) c).broadcast

/-- `psync_pagecache_get_free_page_if_available` of
`psync_pagecache_free_page_from_read_cache`. -/
def evictTakes (t : ι) (sizeinpages : Nat) : State ι :=
  let st := if st.cache.wantsFlush then st.schedules.spawns else st
  match st.cache.freePages with
  | p :: rest =>
    { st.goto t (.evictRead sizeinpages p) (st.cache.popFree rest) with
      hands := (t, p) :: st.hands }
  | [] => { st.goto t .out st.cache with flushMutex := none }

end State

/-- The steps of the threads, with the outcomes of what they call. -/
inductive Event (ι : Type) where
  /-- `psync_pagecache_get_free_page` -/
  | getFreePage (t : ι) (inside : Bool)
  | awake (t : ι)
  | relock (t : ι)
  | recheck (t : ι)
  /-- A page that arrived, or was read from the cache file, goes to the hash. -/
  | insert (t : ι) (p : Nat) (d : Desc)
  /-- `psync_pagecache_add_page_if_not_exists` -/
  | add (t : ι) (p : Nat) (d : Desc) (known : Bool)
  /-- `psync_pagecache_return_free_page` -/
  | giveBack (t : ι) (p : Nat)
  /-- `check_page_in_memory_by_hash` marks the page as used. -/
  | touch (p : Nat) (lastuse usecnt : Nat)
  /-- `check_page_in_memory_by_hash`, the CRC does not match. -/
  | corrupt (p : Nat)
  /-- `switch_memory_page_to_hash` -/
  | switchPage (p newhash : Nat)
  /-- `mark_pagecache_used` or `mark_pagescache_used` with the table of access records half full. -/
  | markUsed
  /-- `psync_pagecache_flush_timer` -/
  | timer
  /-- A thread for `flush_pages` begins. -/
  | flushThread (t : ι)
  /-- `psync_pagecache_flush` -/
  | flushCall (t : ι)
  | enter (t : ι)
  | check (t : ι) (k : Cache.DiskCheck)
  | store (t : ι)
  | collect (t : ι)
  | discard (t : ι)
  | select (t : ι) (fetched : Nat)
  | write (t : ι) (ok : Bool)
  | sync (t : ι) (ok : Bool)
  | begin (t : ι)
  | fill (t : ι) (sql : Cache.Statements)
  | commit (t : ι) (ok : Bool)
  | finish (t : ι) (ok : Bool)
  /-- `clean_cache` has read the rows and picked those to free. -/
  | clean (t : ι) (ids : List Nat)
  | cleanRow (t : ι) (ok : Bool)
  | cleaned (t : ι)
  /-- `mark_page_free` -/
  | markPageFree (id : Nat)
  /-- `switch_pageids` for one page. -/
  | switchPageid (hash oldhash pageid lastuse : Nat)
  /-- `psync_pagecache_resize_cache` -/
  | resize (fscachesize : Nat)
  /-- `psync_pagecache_clean_read_cache` -/
  | cleanReadCache (fscachesize : Nat)
  /-- `psync_pagecache_free_page_from_read_cache` -/
  | evict (t : ι)
  | evictTake (t : ι)
  | evictRead (t : ι) (ok : Bool)
  | evictAdd (t : ι) (crcOk known : Bool)
  | evictDrop (t : ι) (ok : Bool)

/-- `UPDATE OR IGNORE pagecache SET hash=?, lastuse=? WHERE hash=? AND type=? AND pageid=?` -/
def Table.switchPageid (rows : Table) (hash oldhash pageid lastuse : Nat) : Table :=
  rows.map fun r =>
    if r.key = some (oldhash, pageid) ∧ r.type = .read ∧ rows.taken r.id (hash, pageid) = false
    then { r with key := some (hash, pageid), lastuse := lastuse } else r

open Cache in
/-- One step of a thread. -/
inductive Step : State ι → Event ι → State ι → Prop
  | getFreePage {st : State ι} {t : ι} {inside : Bool} (h : st.pc t = .out) :
      Step st (.getFreePage t inside) (st.getFreePage t inside)
  | awake {st : State ι} {t : ι} {runthread : Bool} (h : st.pc t = .woken runthread) :
      Step st (.awake t) (st.awakes t runthread)
  | relock {st : State ι} {t : ι} (h : st.pc t = .relock) :
      Step st (.relock t) (st.obtain t false)
  | recheck {st : State ι} {t : ι} {runthread : Bool} (h : st.pc t = .recheck runthread) :
      Step st (.recheck t) (st.reobtain t runthread)
  | insert {st : State ι} {t : ι} {p : Nat} {d : Desc} (h : (t, p) ∈ st.hands)
      (hout : st.pc t = .out) (htype : d.type ≠ .free) :
      Step st (.insert t p d) (st.gives t p (st.cache.insertHash p d))
  | add {st : State ι} {t : ι} {p : Nat} {d : Desc} {known : Bool} (h : (t, p) ∈ st.hands)
      (hout : st.pc t = .out) (htype : d.type = .read) :
      Step st (.add t p d known) (st.gives t p (st.cache.addPageIfNotExists p d known))
  | giveBack {st : State ι} {t : ι} {p : Nat} (h : (t, p) ∈ st.hands) (hout : st.pc t = .out) :
      Step st (.giveBack t p) (st.gives t p (st.cache.returnFreePage p))
  | touch {st : State ι} {p lastuse usecnt : Nat} (h : p ∈ st.cache.hashed) :
      Step st (.touch p lastuse usecnt)
        { st with
          cache := { st.cache with
            desc := Function.update st.cache.desc p
              { st.cache.desc p with lastuse := lastuse, usecnt := usecnt } } }
  | corrupt {st : State ι} {p : Nat} (h : p ∈ st.cache.hashed) :
      Step st (.corrupt p) { st with cache := st.cache.dropPage p }
  | switchPage {st : State ι} {p newhash : Nat} (h : p ∈ st.cache.hashed)
      (htype : (st.cache.desc p).type = .read) :
      Step st (.switchPage p newhash) { st with cache := st.cache.switchPage p newhash }
  | markUsed {st : State ι} (h : st.cache.flushcacherun = false) :
      Step st .markUsed st.schedules.spawns
  | timer {st : State ι} : Step st .timer st.spawns
  | flushThread {st : State ι} {t : ι} (h : st.pc t = .out) (hs : 0 < st.spawned) :
      Step st (.flushThread t)
        { st.goto t (.flush .thread .start) st.cache with spawned := st.spawned - 1 }
  | flushCall {st : State ι} {t : ι} (h : st.pc t = .out) :
      Step st (.flushCall t) (st.goto t (.flush .api .start) st.cache)
  | enter {st : State ι} {t : ι} {caller : Caller} (h : st.pc t = .flush caller .start) :
      Step st (.enter t) (st.goto t (.flush caller .entered)
        { st.cache with flushPageRunning := st.cache.flushPageRunning + 1, flushcacherun := true })
  | enough {st : State ι} {t : ι} {caller : Caller} {k : DiskCheck}
      (h : st.pc t = .flush caller .entered) (hm : st.flushMutex = none)
      (ht : st.cache.transaction = none) (hk : (st.cache.readMaxPage k).diskMaxPage k = none) :
      Step st (.check t k)
        { st.goto t (.flush caller (.checked false)) (st.cache.readMaxPage k) with
          flushMutex := some t }
  | full {st : State ι} {t : ι} {caller : Caller} {k : DiskCheck} {maxpage : Nat}
      (h : st.pc t = .flush caller .entered) (hm : st.flushMutex = none)
      (ht : st.cache.transaction = none)
      (hk : (st.cache.readMaxPage k).diskMaxPage k = some maxpage) :
      Step st (.check t k)
        { st.goto t (.flush caller (.counted maxpage
            (((st.cache.readMaxPage k).deletePastDisk k maxpage).countedFree k)))
            ((st.cache.readMaxPage k).deletePastDisk k maxpage) with
          flushMutex := some t }
  | store {st : State ι} {t : ι} {caller : Caller} {maxpage n : Nat}
      (h : st.pc t = .flush caller (.counted maxpage n)) :
      Step st (.store t) (st.goto t (.flush caller (.checked true))
        (st.cache.storeDiskFull maxpage n))
  | collect {st : State ι} {t : ι} {caller : Caller} {diskfull : Bool}
      (h : st.pc t = .flush caller (.checked diskfull))
      (hfull : ¬(diskfull = true ∧ st.cache.freeDbPages = 0)) :
      Step st (.collect t) (st.collects t caller diskfull)
  | sort {st : State ι} {t : ι} {caller : Caller} (h : st.pc t = .flush caller (.checked true))
      (hfull : st.cache.freeDbPages = 0) :
      Step st (.collect t)
        (st.goto t (.flush caller (.discarding (st.cache.ofType .read))) st.cache.discardCachePages)
  | discard {st : State ι} {t : ι} {caller : Caller} {pages : List Nat}
      (h : st.pc t = .flush caller (.discarding pages)) :
      Step st (.discard t) ((st.discards pages).collects t caller true)
  | select {st : State ι} {t : ι} {caller : Caller} {diskfull : Bool} {pages : List Nat}
      {fetched : Nat} (h : st.pc t = .flush caller (.selecting diskfull pages))
      (ht : st.cache.transaction = none) :
      Step st (.select t fetched)
        (st.goto t (.flush caller (.writing diskfull ((st.cache.assign pages fetched).map Prod.fst)
          ((st.cache.assign pages fetched).map Prod.fst)))
          (st.cache.assignIds (st.cache.assign pages fetched)))
  | write {st : State ι} {t : ι} {caller : Caller} {diskfull : Bool} {pages todo : List Nat}
      {p : Nat} (h : st.pc t = .flush caller (.writing diskfull pages (p :: todo))) :
      Step st (.write t true)
        (st.goto t (.flush caller (.writing diskfull pages todo)) (st.cache.writePage p))
  | writeFails {st : State ι} {t : ι} {caller : Caller} {diskfull : Bool} {pages todo : List Nat}
      {p : Nat} (h : st.pc t = .flush caller (.writing diskfull pages (p :: todo))) :
      Step st (.write t false) { st.goto t caller.back st.cache with flushMutex := none }
  | sync {st : State ι} {t : ι} {caller : Caller} {diskfull : Bool} {pages : List Nat}
      (h : st.pc t = .flush caller (.writing diskfull pages [])) :
      Step st (.sync t true)
        (st.goto t (.flush caller (.begin diskfull (.insert pages 0))) st.cache)
  | syncFails {st : State ι} {t : ι} {caller : Caller} {diskfull : Bool} {pages : List Nat}
      (h : st.pc t = .flush caller (.writing diskfull pages [])) :
      Step st (.sync t false) { st.goto t caller.back st.cache with flushMutex := none }
  | begin {st : State ι} {t : ι} {caller : Caller} {diskfull : Bool} {work : Work}
      (h : st.pc t = .flush caller (.begin diskfull work)) (ht : st.cache.transaction = none) :
      Step st (.begin t)
        (st.goto t (.flush caller (.locked diskfull work)) st.cache.startTransaction)
  | fill {st : State ι} {t : ι} {caller : Caller} {diskfull : Bool} {work : Work}
      {sql : Statements} (h : st.pc t = .flush caller (.locked diskfull work)) :
      Step st (.fill t sql)
        (st.fills t caller diskfull (st.cache.fill sql caller.nosleep diskfull work))
  | commit {st : State ι} {t : ι} {caller : Caller} {diskfull : Bool} {work : Work} {ok : Bool}
      (h : st.pc t = .flush caller (.commit diskfull work)) :
      Step st (.commit t ok)
        (st.goto t (.flush caller (.begin diskfull work)) (st.cache.commitTransaction ok))
  | finish {st : State ι} {t : ι} {caller : Caller} {updates : Nat} {ok : Bool}
      (h : st.pc t = .flush caller (.ended updates)) :
      Step st (.finish t ok)
        { st.goto t caller.back
            (if updates = 0 then st.cache.rollbackTransaction
              else st.cache.commitTransaction ok) with
          flushMutex := none }
  | clean {st : State ι} {t : ι} {ids : List Nat} (h : st.pc t = .out)
      (hm : st.cleanMutex = none) :
      Step st (.clean t ids) { st.goto t (.clean ids) st.cache with cleanMutex := some t }
  | cleanRow {st : State ι} {t : ι} {id : Nat} {ids : List Nat} {ok : Bool}
      (h : st.pc t = .clean (id :: ids)) (ht : st.cache.transaction = none) :
      Step st (.cleanRow t ok) (st.goto t (.clean ids)
        { st.cache with
          rows := if ok then st.cache.rows.update id Table.cleared else st.cache.rows
          freeDbPages := add32 st.cache.freeDbPages 1 })
  | cleaned {st : State ι} {t : ι} (h : st.pc t = .clean []) :
      Step st (.cleaned t) { st.goto t .out st.cache with cleanMutex := none }
  | markPageFree {st : State ι} {id : Nat} (ht : st.cache.transaction = none) :
      Step st (.markPageFree id)
        { st with cache := { st.cache with rows := st.cache.rows.update id Table.unnamed } }
  | switchPageid {st : State ι} {hash oldhash pageid lastuse : Nat}
      (ht : st.cache.transaction = none) :
      Step st (.switchPageid hash oldhash pageid lastuse)
        { st with
          cache := { st.cache with
            rows := st.cache.rows.switchPageid hash oldhash pageid lastuse } }
  | resize {st : State ι} {fscachesize : Nat} (hm : st.flushMutex = none)
      (ht : st.cache.transaction = none) :
      Step st (.resize fscachesize) { st with cache := st.cache.resizeCache fscachesize }
  | cleanReadCache {st : State ι} {fscachesize : Nat} (hm : st.flushMutex = none)
      (hc : st.cleanMutex = none) (ht : st.cache.transaction = none) :
      Step st (.cleanReadCache fscachesize) { st with cache := st.cache.cleanReadCache fscachesize }
  | evict {st : State ι} {t : ι} (h : st.pc t = .out) (hm : st.flushMutex = none)
      (ht : st.cache.transaction = none) (hsize : PSYNC_FS_PAGE_SIZE * 2 ≤ st.cache.fileSize) :
      Step st (.evict t)
        { st.goto t (.evictTake st.cache.evictPages) st.cache.deleteUnallocated with
          flushMutex := some t }
  | evictTake {st : State ι} {t : ι} {sizeinpages : Nat} (h : st.pc t = .evictTake sizeinpages) :
      Step st (.evictTake t) (st.evictTakes t sizeinpages)
  | evictRead {st : State ι} {t : ι} {sizeinpages p : Nat}
      (h : st.pc t = .evictRead sizeinpages p) (ht : st.cache.transaction = none)
      (hread : (sizeinpages + 1) * PSYNC_FS_PAGE_SIZE ≤ st.cache.fileSize) :
      Step st (.evictRead t true)
        (st.goto t (.evictAdd sizeinpages p (st.cache.evictRow sizeinpages)) st.cache)
  | evictReadFails {st : State ι} {t : ι} {sizeinpages p : Nat}
      (h : st.pc t = .evictRead sizeinpages p) :
      Step st (.evictRead t false)
        { (st.goto t .out st.cache).gives t p (st.cache.returnFreePage p) with flushMutex := none }
  | evictAdd {st : State ι} {t : ι} {sizeinpages p : Nat} {row : Option Desc} {crcOk known : Bool}
      (h : st.pc t = .evictAdd sizeinpages p row) :
      Step st (.evictAdd t crcOk known)
        ((st.goto t (.evictDrop sizeinpages) st.cache).gives t p
          (st.cache.evictAdd p row crcOk known))
  | evictDrop {st : State ι} {t : ι} {sizeinpages : Nat} {ok : Bool}
      (h : st.pc t = .evictDrop sizeinpages) (ht : st.cache.transaction = none) :
      Step st (.evictDrop t ok)
        { st.goto t .out (st.cache.evictDrop sizeinpages ok) with flushMutex := none }

/-- The state behind `psync_pagecache_init`, before any other thread runs. -/
def State.init (c : Cache) : State ι :=
  { cache := c, pc := fun _ => .out, hands := [], spawned := 0, flushMutex := none,
    cleanMutex := none }

/-- A sequence of steps. -/
inductive Run : State ι → List (Event ι) → State ι → Prop
  | nil (st : State ι) : Run st [] st
  | snoc {st st' st'' : State ι} {es : List (Event ι)} {e : Event ι} (h : Run st es st')
      (hs : Step st' e st'') : Run st (es ++ [e]) st''

end PcloudClient.Ppagecache
