/-
  Ppagecache/Cache.lean --- the pages in memory, the table `pagecache` and the cache file.

  A page in memory is known by its number.  The buckets of `cache_hash` are kept one after the
  other in a list.  The counters are `uint32_t`.  What a page or the cache file holds is left
  out here; of the file only the size is kept.  So are the access records that `flush_pages`
  writes to `lastuse` and `usecnt`.
-/
import Mathlib.Data.List.Sort
import PcloudClient.Pfs.PlainFile

set_option autoImplicit false

namespace PcloudClient.Ppagecache

open PcloudClient.Pfs (PSYNC_FS_PAGE_SIZE)

/-- `PSYNC_FS_MEMORY_CACHE/PSYNC_FS_PAGE_SIZE` -/
def CACHE_PAGES : Nat := 64 * 1024 * 1024 / PSYNC_FS_PAGE_SIZE

def CACHE_HASH : Nat := CACHE_PAGES / 2

/-! ## Counters -/

/-- `n += k` in `uint32_t`. -/
def add32 (n k : Nat) : Nat := if n + k < 2 ^ 32 then n + k else (n + k) % 2 ^ 32

/-- `n -= k` in `uint32_t`. -/
def sub32 (n k : Nat) : Nat := if k ≤ n then n - k else (n + (2 ^ 32 - k % 2 ^ 32)) % 2 ^ 32

/-- `n - 1` in `uint64_t`. -/
def pred64 (n : Nat) : Nat := if n = 0 then 2 ^ 64 - 1 else n - 1

/-! ## The table `pagecache` -/

inductive PageType where
  /-- `PAGE_TYPE_FREE` -/
  | free
  /-- `PAGE_TYPE_READ` -/
  | read
  /-- `PAGE_TYPE_CACHE`, in memory only. -/
  | cache
  deriving DecidableEq, Repr

/-- A row; `hash` and `pageid` are both `NULL` or none is, and what else is `NULL` reads as 0. -/
structure Row where
  id : Nat
  type : PageType
  key : Option (Nat × Nat)
  lastuse : Nat
  usecnt : Nat
  size : Nat
  crc : Nat
  deriving DecidableEq, Repr

/-- The rows by `id`. -/
abbrev Table := List Row

namespace Table

/-- `SELECT id FROM pagecache WHERE type=PAGE_TYPE_FREE ORDER BY id` -/
def freeIds (rows : Table) : List Nat := (rows.filter (·.type = .free)).map (·.id)

/-- `SELECT COUNT(*) FROM pagecache WHERE type=PAGE_TYPE_FREE` -/
def countFree (rows : Table) : Nat := rows.countP (·.type = .free)

/-- `SELECT MAX(id) FROM pagecache`, 0 for an empty table. -/
def maxId (rows : Table) : Nat := (rows.map (·.id)).foldr max 0

theorem le_maxId {rows : Table} {r : Row} (h : r ∈ rows) : r.id ≤ rows.maxId := by
  unfold maxId
  induction rows with
  | nil => cases h
  | cons s rows ih =>
    rcases List.mem_cons.mp h with rfl | h
    · exact Nat.le_max_left _ _
    · exact Nat.le_trans (ih h) (Nat.le_max_right _ _)

/-- `INSERT INTO pagecache (type) VALUES (PAGE_TYPE_FREE)`: the id is one more than the largest. -/
def insertFree (rows : Table) : Table := rows ++ [⟨rows.maxId + 1, .free, none, 0, 0, 0, 0⟩]

/-- What `sqlite3_bind_int64` makes of a `uint64_t`. -/
def bindUint (v : Nat) : Int := if v < 2 ^ 63 then v else (v : Int) - 2 ^ 64

/-- `DELETE FROM pagecache WHERE id>?` -/
def deleteAbove (rows : Table) (v : Nat) : Table := rows.filter fun r => (r.id : Int) ≤ bindUint v

/-- `UPDATE pagecache SET ... WHERE id=?` -/
def update (rows : Table) (id : Nat) (f : Row → Row) : Table :=
  rows.map fun r => if r.id = id then f r else r

/-- The row of `clean_cache`: everything that says which page it is becomes `NULL`. -/
def cleared (r : Row) : Row := { r with type := .free, key := none, crc := 0 }

/-- The row of `mark_page_free`, that keeps its `crc`. -/
def unnamed (r : Row) : Row := { r with type := .free, key := none }

/-- Another row has the key already, which the index `kpagecachehashpageid` forbids. -/
def taken (rows : Table) (id : Nat) (key : Nat × Nat) : Bool :=
  rows.any fun r => r.id ≠ id ∧ r.key = some key

end Table

/-! ## Pages in memory -/

/-- The fields of `psync_cache_page_t` besides the links, the bytes and `flushpageid`. -/
structure Desc where
  hash : Nat
  pageid : Nat
  lastuse : Nat
  size : Nat
  usecnt : Nat
  crc : Nat
  type : PageType
  deriving DecidableEq, Repr

/-- `pagehash_by_hash_and_pageid` -/
def Desc.bucket (d : Desc) : Nat := (d.hash + d.pageid) % 2 ^ 64 % CACHE_HASH

/-- What a page is flushed to. -/
def Desc.row (d : Desc) (id : Nat) : Row :=
  ⟨id, .read, some (d.hash, d.pageid), d.lastuse, d.usecnt, d.size, d.crc⟩

/-- An open transaction: the rows at its start, and whether a statement of it failed. -/
structure Transaction where
  saved : Table
  failed : Bool
  deriving DecidableEq, Repr

/-- The globals of ppagecache.c, the table and the cache file. -/
structure Cache where
  desc : Nat → Desc
  flushpageid : Nat → Nat
  freePages : List Nat
  /-- The buckets of `cache_hash` one after the other. -/
  hashed : List Nat
  cachePagesFree : Nat
  cachePagesInHash : Nat
  freeDbPages : Nat
  freePageWaiters : Nat
  flushPageRunning : Nat
  flushcacherun : Bool
  dbCacheInPages : Nat
  dbCacheMaxPage : Nat
  rows : Table
  transaction : Option Transaction
  fileSize : Nat

namespace Cache

variable (c : Cache)

/-- The free pages are getting few and no flush is on its way. -/
def wantsFlush : Bool := c.cachePagesFree ≤ CACHE_PAGES * 25 / 100 ∧ c.flushcacherun = false

/-- `psync_list_remove_head_element` of `free_pages`, as `get_free_page_if_available` does it. -/
def popFree (rest : List Nat) : Cache := { c with freePages := rest }

/-- The same and `cache_pages_free--`, as `psync_pagecache_get_free_page` does it. -/
def takeFree (rest : List Nat) : Cache :=
  { c with freePages := rest, cachePagesFree := sub32 c.cachePagesFree 1 }

/-- `psync_pagecache_return_free_page_locked` -/
def returnFreePage (p : Nat) : Cache :=
  { c with freePages := p :: c.freePages, cachePagesFree := add32 c.cachePagesFree 1 }

/-- `psync_list_add_tail` to the bucket of the page. -/
def addTail (desc : Nat → Desc) (hashed : List Nat) (p : Nat) : List Nat :=
  hashed.filter (fun q => (desc q).bucket ≤ (desc p).bucket) ++
    p :: hashed.filter (fun q => ¬(desc q).bucket ≤ (desc p).bucket)

/-- The page gets its fields, and a place in the hash. -/
def insertHash (p : Nat) (d : Desc) : Cache :=
  { c with
    desc := Function.update c.desc p d
    hashed := addTail (Function.update c.desc p d) c.hashed p
    cachePagesInHash := add32 c.cachePagesInHash 1 }

/-- `psync_list_del`: the page leaves the list that it is in. -/
def listDel (p : Nat) : Cache :=
  { c with freePages := c.freePages.erase p, hashed := c.hashed.erase p }

/-- The hash has the page already, as `psync_pagecache_add_page_if_not_exists` looks for it. -/
def hasPage (d : Desc) : Bool :=
  c.hashed.any fun q =>
    (c.desc q).type = .read ∧ (c.desc q).hash = d.hash ∧ (c.desc q).pageid = d.pageid

/-- `psync_pagecache_add_page_if_not_exists`; `known` where the table has the page, or somebody
waits for it. -/
def addPageIfNotExists (p : Nat) (d : Desc) (known : Bool) : Cache :=
  if known || c.hasPage d then ({ c with desc := Function.update c.desc p d }).returnFreePage p
  else c.insertHash p d

/-- `check_page_in_memory_by_hash` with a CRC that does not match. -/
def dropPage (p : Nat) : Cache :=
  let c := (c.listDel p).returnFreePage p
  { c with cachePagesInHash := sub32 c.cachePagesInHash 1 }

/-- `switch_memory_page_to_hash` -/
def switchPage (p newhash : Nat) : Cache :=
  let desc := Function.update c.desc p { c.desc p with hash := newhash }
  { c with desc := desc, hashed := addTail desc (c.hashed.erase p) p }

/-! ## The parts of `flush_pages` -/

/-- The outcomes of what `check_disk_full` calls; where `SELECT MAX(id)` or the count fails, the
default of `psync_sql_cellint` stands. -/
structure DiskCheck where
  maxOk : Bool
  sizeOk : Bool
  freespace : Option Nat
  minlocal : Nat
  deleteOk : Bool
  countOk : Bool
  deriving DecidableEq, Repr

/-- A disk with room, and nothing fails. -/
def DiskCheck.roomy : DiskCheck := ⟨true, true, some (2 ^ 40), 0, true, true⟩

/-- The first line of `check_disk_full`. -/
def readMaxPage (k : DiskCheck) : Cache :=
  { c with dbCacheMaxPage := if k.maxOk then c.rows.maxId else 0 }

/-- `maxpage`, where `check_disk_full` finds the disk full. -/
def diskMaxPage (k : DiskCheck) : Option Nat :=
  if k.sizeOk then
    k.freespace.bind fun freespace =>
      let addspc :=
        if c.fileSize < c.dbCacheMaxPage * PSYNC_FS_PAGE_SIZE then
          c.cachePagesInHash * PSYNC_FS_PAGE_SIZE % 2 ^ 32
        else 0
      if k.minlocal + addspc ≤ freespace then none
      else if freespace ≤ k.minlocal then some (c.fileSize / PSYNC_FS_PAGE_SIZE)
      else some ((c.fileSize + freespace - k.minlocal) / PSYNC_FS_PAGE_SIZE)
  else none

/-- The `DELETE` of `check_disk_full`. -/
def deletePastDisk (k : DiskCheck) (maxpage : Nat) : Cache :=
  if k.deleteOk then { c with rows := c.rows.deleteAbove maxpage } else c

/-- What the count of `check_disk_full` returns. -/
def countedFree (k : DiskCheck) : Nat := if k.countOk then c.rows.countFree % 2 ^ 32 else 0

/-- The last lines of `check_disk_full`. -/
def storeDiskFull (maxpage n : Nat) : Cache :=
  { c with freeDbPages := n, dbCacheMaxPage := maxpage }

/-- `check_disk_full` in one go, as `psync_pagecache_init` runs it. -/
def checkDiskFull (k : DiskCheck) : Cache :=
  let c := c.readMaxPage k
  match c.diskMaxPage k with
  | none => c
  | some maxpage =>
    let c := c.deletePastDisk k maxpage
    c.storeDiskFull maxpage (c.countedFree k)

/-- The pages of a type in the hash. -/
def ofType (type : PageType) : List Nat := c.hashed.filter fun p => (c.desc p).type = type

/-- The pages of type `PAGE_TYPE_CACHE` go to the free list. -/
def freeCachePages : Cache :=
  { c with
    freePages := (c.ofType .cache).reverse ++ c.freePages
    hashed := c.hashed.filter fun p => (c.desc p).type ≠ .cache
    cachePagesFree := add32 c.cachePagesFree (c.ofType .cache).length }

/-- The first pass of a flush on a full disk, that also counts down. -/
def discardCachePages : Cache :=
  { c.freeCachePages with
    cachePagesInHash := sub32 c.cachePagesInHash (c.ofType .cache).length }

/-- The pass that collects what is to be flushed. -/
def collect : Cache × List Nat :=
  if c.cachePagesInHash = 0 then (c, [])
  else
    ({ c.freeCachePages with cachePagesInHash := (c.ofType .read).length % 2 ^ 32 }, c.ofType .read)

/-- `cmp_discard_pages` -/
def discardLe (p q : Nat) : Prop := (c.desc p).lastuse ≤ (c.desc q).lastuse

instance : DecidableRel c.discardLe := fun p q =>
  inferInstanceAs (Decidable ((c.desc p).lastuse ≤ (c.desc q).lastuse))

/-- `cmp_flush_pages` -/
def flushLe (p q : Nat) : Prop :=
  (c.desc p).hash < (c.desc q).hash ∨
    (c.desc p).hash = (c.desc q).hash ∧ (c.desc p).pageid ≤ (c.desc q).pageid

instance : DecidableRel c.flushLe := fun p q =>
  inferInstanceAs (Decidable ((c.desc p).hash < (c.desc q).hash ∨
    (c.desc p).hash = (c.desc q).hash ∧ (c.desc p).pageid ≤ (c.desc q).pageid))

/-- A page that a full disk has no place for. -/
def discardPage (p : Nat) : Cache :=
  let c := (c.listDel p).returnFreePage p
  { c with cachePagesInHash := sub32 c.cachePagesInHash 1 }

/-- The half of the pages that was used least recently. -/
def discard (sorted : List Nat) : Cache :=
  (sorted.take (CACHE_PAGES / 2)).foldl discardPage c

/-- The pages that get the row that is fetched for them; `fetched` is the number of rows that the
query delivers. -/
def assign (pages : List Nat) (fetched : Nat) : List (Nat × Nat) :=
  (pages.insertionSort c.flushLe).zip ((c.rows.freeIds.take pages.length).take fetched)

def assignIds (pages : List (Nat × Nat)) : Cache :=
  { c with
    flushpageid := pages.foldl (fun f pi => Function.update f pi.1 (pi.2 % 2 ^ 32)) c.flushpageid }

/-- `psync_file_pwrite` of the page. -/
def writePage (p : Nat) : Cache :=
  { c with fileSize := max c.fileSize ((c.flushpageid p + 1) * PSYNC_FS_PAGE_SIZE) }

/-- `psync_sql_start_transaction` -/
def startTransaction : Cache := { c with transaction := some ⟨c.rows, false⟩ }

/-- A statement of the transaction failed. -/
def failStatement : Cache :=
  { c with transaction := c.transaction.map fun t => { t with failed := true } }

/-- `psync_sql_commit_transaction`; `ok` is what `COMMIT` returns. -/
def commitTransaction (ok : Bool) : Cache :=
  match c.transaction with
  | none => c
  | some t =>
    if ok ∧ t.failed = false then { c with transaction := none }
    else { c with transaction := none, rows := t.saved }

/-- `psync_sql_rollback_transaction` -/
def rollbackTransaction : Cache :=
  match c.transaction with
  | none => c
  | some t => { c with transaction := none, rows := t.saved }

/-- The outcomes of the statements: whether an `INSERT` works, and for the `UPDATE` of a page that
fails what `sqlite3_changes` still says. -/
structure Statements where
  insert : Nat → Bool
  update : Nat → Option Bool

/-- No statement fails. -/
def Statements.fine : Statements := ⟨fun _ => true, fun _ => none⟩

/-- One `INSERT` of a free row. -/
def runInsert (ok : Bool) : Cache :=
  if ok then { c with rows := c.rows.insertFree } else c.failStatement

/-- The `INSERT`s up to the next time that the locks are released (`true`) or the last one. -/
def insertBatch (sql : Statements) : Nat → Cache → Nat → Cache × Nat × Bool
  | 0, c, i => (c, i, true)
  | n + 1, c, i =>
    if c.dbCacheMaxPage + i < c.dbCacheInPages ∧ i < CACHE_PAGES ∧ i < c.cachePagesInHash then
      insertBatch sql n (c.runInsert (sql.insert i)) (i + 1)
    else (c, i, false)

/-- `UPDATE OR IGNORE pagecache SET ... WHERE id=?` for a page, and `psync_sql_affected_rows`. -/
def runUpdate (sql : Statements) (p : Nat) : Cache × Bool :=
  match sql.update p with
  | some changes => (c.failStatement, changes)
  | none =>
    let id := c.flushpageid p
    if c.rows.any (·.id = id) ∧ c.rows.taken id ((c.desc p).hash, (c.desc p).pageid) = false then
      ({ c with rows := c.rows.update id fun _ => (c.desc p).row id }, true)
    else (c, false)

/-- The page leaves the hash, is written to its row and becomes free. -/
def flushPage (sql : Statements) (p : Nat) : Cache × Bool :=
  let (c, affected) := (c.listDel p).runUpdate sql p
  let c := if affected then { c with freeDbPages := sub32 c.freeDbPages 1 } else c
  (c.returnFreePage p, affected)

/-- The `UPDATE`s up to the next time that the locks are released or the last one: what is left to
do then, `updates` and `pagecnt`. -/
def updateBatch (sql : Statements) (nosleep : Nat) :
    List Nat → Cache → Nat → Nat → Cache × Option (List Nat) × Nat × Nat
  | [], c, updates, pagecnt => (c, none, updates, pagecnt)
  | p :: ps, c, updates, pagecnt =>
    let r := c.flushPage sql p
    let updates := updates + r.2.toNat
    let pagecnt := pagecnt + r.2.toNat
    if nosleep ≠ 1 ∧ updates % 64 = 0 then (r.1, some ps, updates, pagecnt)
    else updateBatch sql nosleep ps r.1 updates pagecnt

/-! ## What the database leaves alone -/

/-- What is in memory, besides what mirrors the table. -/
structure Memory where
  desc : Nat → Desc
  freePages : List Nat
  hashed : List Nat
  cachePagesFree : Nat
  cachePagesInHash : Nat
  freePageWaiters : Nat
  flushPageRunning : Nat
  flushcacherun : Bool

def memory : Memory :=
  ⟨c.desc, c.freePages, c.hashed, c.cachePagesFree, c.cachePagesInHash, c.freePageWaiters,
    c.flushPageRunning, c.flushcacherun⟩

theorem memory_deletePastDisk (k : DiskCheck) (maxpage : Nat) :
    (c.deletePastDisk k maxpage).memory = c.memory := by
  unfold deletePastDisk
  split <;> rfl

theorem memory_checkDiskFull (k : DiskCheck) : (c.checkDiskFull k).memory = c.memory := by
  unfold checkDiskFull
  dsimp only
  split
  · rfl
  · exact memory_deletePastDisk _ _ _

theorem memory_commitTransaction (ok : Bool) : (c.commitTransaction ok).memory = c.memory := by
  unfold commitTransaction
  split
  · rfl
  · split <;> rfl

theorem memory_rollbackTransaction : c.rollbackTransaction.memory = c.memory := by
  unfold rollbackTransaction
  split <;> rfl

theorem memory_runInsert (ok : Bool) : (c.runInsert ok).memory = c.memory := by
  unfold runInsert
  split <;> rfl

theorem memory_insertBatch (sql : Statements) (n i : Nat) :
    (insertBatch sql n c i).1.memory = c.memory := by
  induction n generalizing c i with
  | zero => rfl
  | succ n ih =>
    unfold insertBatch
    split
    · rw [ih]
      exact memory_runInsert _ _
    · rfl

theorem memory_runUpdate (sql : Statements) (p : Nat) :
    (c.runUpdate sql p).1.memory = c.memory := by
  unfold runUpdate
  split
  · rfl
  · dsimp only
    split <;> rfl

/-- What becomes of a page that is flushed, besides what the table says. -/
theorem memory_flushPage (sql : Statements) (p : Nat) :
    (c.flushPage sql p).1.memory = ((c.listDel p).returnFreePage p).memory := by
  have h := memory_runUpdate (c.listDel p) sql p
  have hcount : ∀ (c : Cache) (n : Nat), { c with freeDbPages := n }.memory = c.memory :=
    fun _ _ => rfl
  have hreturn : ∀ c c' : Cache, c.memory = c'.memory →
      (c.returnFreePage p).memory = (c'.returnFreePage p).memory := by
    intro c c' hm
    simp only [memory, Memory.mk.injEq] at hm
    simp only [memory, returnFreePage, Memory.mk.injEq]
    obtain ⟨h₁, h₂, h₃, h₄, h₅⟩ := hm
    exact ⟨h₁, by rw [h₂], h₃, by rw [h₄], h₅⟩
  unfold flushPage
  dsimp only
  split
  · exact hreturn _ _ ((hcount ((c.listDel p).runUpdate sql p).1 _).trans h)
  · exact hreturn _ _ h

end Cache

end PcloudClient.Ppagecache
