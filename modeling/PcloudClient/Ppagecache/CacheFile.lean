/-
  Ppagecache/CacheFile.lean --- the rows that hold a page, against the size of the cache file.

  The page of a row is at `id*PSYNC_FS_PAGE_SIZE`, so that a file of `n` pages has none for the
  row `n`.  Where the cache shrinks or is opened the code deletes the rows behind `n`.
-/
import PcloudClient.Ppagecache.FlushLock

set_option autoImplicit false

namespace PcloudClient.Ppagecache

open PcloudClient.Pfs (PSYNC_FS_PAGE_SIZE)

/-- The page of every row of type `PAGE_TYPE_READ` is wholly inside a file of this size. -/
def InFile (size : Nat) (rows : Table) : Prop :=
  ∀ r ∈ rows, r.type = .read → (r.id + 1) * PSYNC_FS_PAGE_SIZE ≤ size

/-! ## Rows -/

namespace Table

variable {rows : Table} {r : Row}

theorem mem_deleteAbove {v : Nat} (h : r ∈ rows.deleteAbove v) : r ∈ rows ∧ r.id ≤ v := by
  obtain ⟨hmem, hle⟩ := List.mem_filter.mp h
  refine ⟨hmem, ?_⟩
  have hle' : (r.id : Int) ≤ bindUint v := by simpa using hle
  unfold bindUint at hle'
  split at hle'
  · omega
  · omega

/-- Nothing is behind the value that stands for -1. -/
theorem deleteAbove_pred64_zero : rows.deleteAbove (pred64 0) = [] := by
  refine List.filter_eq_nil_iff.mpr ?_
  intro r _
  have hbind : bindUint (pred64 0) = -1 := by decide
  rw [hbind]
  simp only [decide_eq_true_eq]
  omega

theorem mem_insertFree (h : r ∈ rows.insertFree) : r ∈ rows ∨ r.type = .free := by
  rcases List.mem_append.mp h with h | h
  · exact Or.inl h
  · rw [List.mem_singleton.mp h]
    exact Or.inr rfl

theorem mem_iterate_insertFree {n : Nat} (h : r ∈ Table.insertFree^[n] rows) :
    r ∈ rows ∨ r.type = .free := by
  induction n generalizing rows with
  | zero => exact Or.inl h
  | succ n ih =>
    rcases ih h with h | h
    · exact mem_insertFree h
    · exact Or.inr h

end Table

namespace InFile

variable {size : Nat} {rows rows' : Table}

/-- What becomes of rows that only lose their page. -/
theorem of_sub (h : InFile size rows)
    (hsub : ∀ r ∈ rows', r.type = .read → ∃ s ∈ rows, s.type = .read ∧ s.id = r.id) :
    InFile size rows' := by
  intro r hr htype
  obtain ⟨s, hs, hst, hid⟩ := hsub r hr htype
  rw [← hid]
  exact h s hs hst

theorem deleteAbove (h : InFile size rows) (v : Nat) : InFile size (rows.deleteAbove v) :=
  h.of_sub fun r hr ht => ⟨r, (Table.mem_deleteAbove hr).1, ht, rfl⟩

theorem insertFree (h : InFile size rows) : InFile size rows.insertFree := by
  intro r hr ht
  rcases Table.mem_insertFree hr with hr | hr
  · exact h r hr ht
  · rw [hr] at ht
    cases ht

theorem iterate_insertFree (h : InFile size rows) (n : Nat) :
    InFile size (Table.insertFree^[n] rows) := by
  intro r hr ht
  rcases Table.mem_iterate_insertFree hr with hr | hr
  · exact h r hr ht
  · rw [hr] at ht
    cases ht

/-- A row is freed. -/
theorem frees (h : InFile size rows) (id : Nat) {f : Row → Row} (hf : ∀ r, (f r).type = .free) :
    InFile size (rows.update id f) := by
  refine h.of_sub ?_
  intro r hr ht
  obtain ⟨s, hs, rfl⟩ := List.mem_map.mp hr
  split at ht
  · rw [hf] at ht
    cases ht
  next hid =>
    rw [if_neg hid]
    exact ⟨s, hs, ht, rfl⟩

/-- A row gets a page that is inside the file. -/
theorem fills (h : InFile size rows) {id : Nat} (hid : (id + 1) * PSYNC_FS_PAGE_SIZE ≤ size)
    (d : Desc) : InFile size (rows.update id fun _ => d.row id) := by
  intro r hr ht
  obtain ⟨s, hs, rfl⟩ := List.mem_map.mp hr
  dsimp only at ht ⊢
  split
  · exact hid
  next hne =>
    rw [if_neg hne] at ht
    exact h s hs ht

theorem switchPageid (h : InFile size rows) (hash oldhash pageid lastuse : Nat) :
    InFile size (rows.switchPageid hash oldhash pageid lastuse) := by
  refine h.of_sub ?_
  intro r hr ht
  obtain ⟨s, hs, rfl⟩ := List.mem_map.mp hr
  split
  next hcond => exact ⟨s, hs, hcond.2.1, rfl⟩
  next hcond =>
    rw [if_neg hcond] at ht
    exact ⟨s, hs, ht, rfl⟩

/-- The file is cut to `n` pages, and no row from `n` on is left with one. -/
theorem cut (h : InFile size rows) {n : Nat}
    (hlt : ∀ r ∈ rows, r.type = .read → r.id < n) :
    InFile (min size (n * PSYNC_FS_PAGE_SIZE)) rows := by
  intro r hr ht
  exact Nat.le_min.mpr ⟨h r hr ht, Nat.mul_le_mul_right _ (hlt r hr ht)⟩

theorem mono (h : InFile size rows) {size' : Nat} (hle : size ≤ size') : InFile size' rows :=
  fun r hr ht => Nat.le_trans (h r hr ht) hle

end InFile

/-! ## Sections -/

namespace Cache

variable {c : Cache}

/-- The rows are inside the file, also those that a rollback brings back. -/
def Inside (c : Cache) : Prop :=
  InFile c.fileSize c.rows ∧ ∀ t, c.transaction = some t → InFile c.fileSize t.saved

theorem Inside.failStatement (h : c.Inside) : c.failStatement.Inside := by
  refine ⟨h.1, ?_⟩
  intro t ht
  obtain ⟨s, hs, rfl⟩ := Option.map_eq_some_iff.mp ht
  exact h.2 s hs

theorem Inside.rollbackTransaction (h : c.Inside) : c.rollbackTransaction.Inside := by
  unfold Cache.rollbackTransaction
  split
  · exact h
  next t ht => exact ⟨h.2 t ht, fun _ hs => nomatch hs⟩

theorem Inside.commitTransaction (h : c.Inside) (ok : Bool) : (c.commitTransaction ok).Inside := by
  unfold Cache.commitTransaction
  split
  · exact h
  next t ht =>
    split
    · exact ⟨h.1, fun _ hs => nomatch hs⟩
    · exact ⟨h.2 t ht, fun _ hs => nomatch hs⟩

/-- The size of the file and the rows that are assigned to pages. -/
def file (c : Cache) : Nat × (Nat → Nat) := (c.fileSize, c.flushpageid)

theorem file_commitTransaction (ok : Bool) : (c.commitTransaction ok).file = c.file := by
  unfold commitTransaction
  split
  · rfl
  · split <;> rfl

theorem file_rollbackTransaction : c.rollbackTransaction.file = c.file := by
  unfold rollbackTransaction
  split <;> rfl

theorem Inside.insertBatch (h : c.Inside) (sql : Statements) (n i : Nat) :
    (Cache.insertBatch sql n c i).1.Inside ∧ (Cache.insertBatch sql n c i).1.file = c.file := by
  induction n generalizing c i with
  | zero => exact ⟨h, rfl⟩
  | succ n ih =>
    unfold Cache.insertBatch
    split
    · have hrun : (c.runInsert (sql.insert i)).Inside ∧
          (c.runInsert (sql.insert i)).file = c.file := by
        unfold Cache.runInsert
        split
        · exact ⟨⟨h.1.insertFree, h.2⟩, rfl⟩
        · exact ⟨h.failStatement, rfl⟩
      obtain ⟨hin, hfile⟩ := ih hrun.1 (i + 1)
      exact ⟨hin, hfile.trans hrun.2⟩
    · exact ⟨h, rfl⟩

/-- The page has a place inside the file. -/
def Placed (c : Cache) (p : Nat) : Prop :=
  (c.flushpageid p + 1) * PSYNC_FS_PAGE_SIZE ≤ c.fileSize

theorem placed_of_file {c' : Cache} (h : c'.file = c.file) {p : Nat} (hp : c.Placed p) :
    c'.Placed p := by
  unfold Placed
  rw [show c'.fileSize = c.fileSize from congrArg (·.1) h,
    show c'.flushpageid = c.flushpageid from congrArg (·.2) h]
  exact hp

theorem Inside.flushPage (h : c.Inside) {p : Nat} (hp : c.Placed p) (sql : Statements) :
    (c.flushPage sql p).1.Inside ∧ (c.flushPage sql p).1.file = c.file := by
  have hdel : (c.listDel p).Inside := h
  have hrun : ((c.listDel p).runUpdate sql p).1.Inside ∧
      ((c.listDel p).runUpdate sql p).1.file = c.file := by
    unfold Cache.runUpdate
    split
    · exact ⟨hdel.failStatement, rfl⟩
    · dsimp only
      split
      · exact ⟨⟨h.1.fills hp _, h.2⟩, rfl⟩
      · exact ⟨hdel, rfl⟩
  unfold Cache.flushPage
  dsimp only
  split
  · exact hrun
  · exact hrun

theorem Inside.updateBatch (h : c.Inside) {pages : List Nat} (hp : ∀ p ∈ pages, c.Placed p)
    (sql : Statements) (nosleep updates pagecnt : Nat) :
    (Cache.updateBatch sql nosleep pages c updates pagecnt).1.Inside ∧
      (Cache.updateBatch sql nosleep pages c updates pagecnt).1.file = c.file ∧
      ∀ rest, (Cache.updateBatch sql nosleep pages c updates pagecnt).2.1 = some rest →
        rest ⊆ pages := by
  induction pages generalizing c updates pagecnt with
  | nil => exact ⟨h, rfl, fun _ hr => nomatch hr⟩
  | cons p ps ih =>
    obtain ⟨hin, hfile⟩ := h.flushPage (hp p List.mem_cons_self) sql
    have hps : ∀ q ∈ ps, (c.flushPage sql p).1.Placed q :=
      fun q hq => placed_of_file hfile (hp q (List.mem_cons_of_mem _ hq))
    unfold Cache.updateBatch
    dsimp only
    split
    · refine ⟨hin, hfile, ?_⟩
      intro rest hr
      obtain rfl := Option.some.inj hr
      exact List.subset_cons_self _ _
    · obtain ⟨hin', hfile', hrest⟩ := ih hin hps _ _
      refine ⟨hin', hfile'.trans hfile, ?_⟩
      intro rest hr
      exact List.Subset.trans (hrest rest hr) (List.subset_cons_self _ _)

end Cache

/-- The pages that the flush has still to put to their rows. -/
def Work.pages : Work → List Nat
  | insert pages _ => pages
  | update pages _ _ => pages

/-- The pages left behind a section. -/
def Filled.pages : Filled → List Nat
  | more work => work.pages
  | finished _ => []

namespace Cache

variable {c : Cache}

theorem Inside.fillUpdates (h : c.Inside) {pages : List Nat} (hp : ∀ p ∈ pages, c.Placed p)
    (sql : Statements) (nosleep updates pagecnt : Nat) :
    (c.fillUpdates sql nosleep pages updates pagecnt).1.Inside ∧
      (c.fillUpdates sql nosleep pages updates pagecnt).1.file = c.file ∧
      (c.fillUpdates sql nosleep pages updates pagecnt).2.pages ⊆ pages := by
  obtain ⟨hin, hfile, hrest⟩ := h.updateBatch hp sql nosleep updates pagecnt
  unfold Cache.fillUpdates
  split
  next c' rest updates' pagecnt' heq =>
    rw [heq] at hin hfile hrest
    exact ⟨hin, hfile, hrest rest rfl⟩
  next c' updates' pagecnt' heq =>
    rw [heq] at hin hfile
    exact ⟨hin, hfile, List.nil_subset _⟩

theorem Inside.fill (h : c.Inside) {work : Work} (hp : ∀ p ∈ work.pages, c.Placed p)
    (sql : Statements) (nosleep : Nat) (diskfull : Bool) :
    (c.fill sql nosleep diskfull work).1.Inside ∧
      (c.fill sql nosleep diskfull work).1.file = c.file ∧
      (c.fill sql nosleep diskfull work).2.pages ⊆ work.pages := by
  cases work with
  | update pages updates pagecnt => exact h.fillUpdates hp sql nosleep updates pagecnt
  | insert pages i =>
    obtain ⟨hin, hfile⟩ := h.insertBatch sql (64 - i % 64) i
    unfold Cache.fill
    dsimp only
    split
    · exact h.fillUpdates hp sql nosleep 0 0
    · split
      next c' i' heq =>
        rw [heq] at hin hfile
        exact ⟨hin, hfile, List.Subset.refl _⟩
      next c' i' heq =>
        rw [heq] at hin hfile
        let c₁ : Cache := { c' with
          freeDbPages := add32 c'.freeDbPages i'
          dbCacheMaxPage := c'.dbCacheMaxPage + i' }
        have hin₁ : c₁.Inside := hin
        have hp₁ : ∀ p ∈ pages, c₁.Placed p :=
          fun p hm => placed_of_file (show c₁.file = c.file from hfile) (hp p hm)
        obtain ⟨hin', hfile', hsub⟩ := hin₁.fillUpdates hp₁ sql nosleep 1 0
        exact ⟨hin', hfile'.trans hfile, hsub⟩

/-- No row is numbered by the pages of the resized cache, or none is behind that number. -/
def ResizeFits (c : Cache) (fscachesize : Nat) : Prop :=
  fscachesize / PSYNC_FS_PAGE_SIZE < c.rows.maxId →
    ∀ r ∈ c.rows, r.type = .read → r.id ≠ fscachesize / PSYNC_FS_PAGE_SIZE

theorem Inside.resizeCache (h : c.Inside) (ht : c.transaction = none) {fscachesize : Nat}
    (hfits : c.ResizeFits fscachesize) : (c.resizeCache fscachesize).Inside := by
  unfold Cache.resizeCache
  dsimp only
  split
  next hlt =>
    refine ⟨(h.1.deleteAbove _).cut ?_, fun t hs => by rw [ht] at hs; cases hs⟩
    intro r hr htype
    obtain ⟨hmem, hle⟩ := Table.mem_deleteAbove hr
    exact Nat.lt_of_le_of_ne hle (hfits hlt r hmem htype)
  next => exact h

theorem Inside.evictDrop (h : c.Inside) (ht : c.transaction = none) (sizeinpages : Nat)
    (ok : Bool) : (c.evictDrop sizeinpages ok).Inside := by
  have hrows : InFile (if ok = true then sizeinpages * PSYNC_FS_PAGE_SIZE else c.fileSize)
      (c.rows.deleteAbove (pred64 sizeinpages)) := by
    split
    · rcases Nat.eq_zero_or_pos sizeinpages with hz | hpos
      · rw [hz, Table.deleteAbove_pred64_zero]
        exact fun _ hr => nomatch hr
      · intro r hr _
        have hle := (Table.mem_deleteAbove hr).2
        unfold pred64 at hle
        rw [if_neg (Nat.ne_of_gt hpos)] at hle
        exact Nat.mul_le_mul_right _ (by omega)
    · exact h.1.deleteAbove _
  exact ⟨hrows, fun t hs => absurd (ht.symm.trans hs) (fun hn => nomatch hn)⟩

theorem Inside.deletePastDisk (h : c.Inside) (k : DiskCheck) (maxpage : Nat) :
    (c.deletePastDisk k maxpage).Inside := by
  unfold Cache.deletePastDisk
  split
  · exact ⟨h.1.deleteAbove _, h.2⟩
  · exact h

theorem file_deletePastDisk (k : DiskCheck) (maxpage : Nat) :
    (c.deletePastDisk k maxpage).file = c.file := by
  unfold deletePastDisk
  split <;> rfl

theorem Inside.checkDiskFull (h : c.Inside) (k : DiskCheck) : (c.checkDiskFull k).Inside := by
  have hread : (c.readMaxPage k).Inside := h
  unfold Cache.checkDiskFull
  dsimp only
  split
  · exact hread
  · exact hread.deletePastDisk k _

theorem Inside.deleteUnallocated (h : c.Inside) : c.deleteUnallocated.Inside := by
  unfold Cache.deleteUnallocated
  dsimp only
  split
  · exact ⟨h.1.deleteAbove _, h.2⟩
  · exact h

theorem file_deleteUnallocated : c.deleteUnallocated.file = c.file := by
  unfold deleteUnallocated
  dsimp only
  split <;> rfl

/-- What is on the disk, or goes there. -/
def disk (c : Cache) : Table × Option Transaction × Nat × (Nat → Nat) :=
  (c.rows, c.transaction, c.fileSize, c.flushpageid)

theorem inside_of_disk {c' : Cache} (h : c'.disk = c.disk) (hin : c.Inside) : c'.Inside := by
  unfold Inside
  rw [show c'.rows = c.rows from congrArg (·.1) h,
    show c'.transaction = c.transaction from congrArg (·.2.1) h,
    show c'.fileSize = c.fileSize from congrArg (·.2.2.1) h]
  exact hin

theorem file_of_disk {c' : Cache} (h : c'.disk = c.disk) : c'.file = c.file :=
  congrArg (·.2.2) h

theorem disk_addPageIfNotExists (p : Nat) (d : Desc) (known : Bool) :
    (c.addPageIfNotExists p d known).disk = c.disk := by
  unfold addPageIfNotExists
  split <;> rfl

theorem disk_evictAdd (p : Nat) (row : Option Desc) (crcOk known : Bool) :
    (c.evictAdd p row crcOk known).disk = c.disk := by
  unfold evictAdd
  split
  · rfl
  · split
    · exact disk_addPageIfNotExists _ _ _
    · rfl

theorem disk_collect : c.collect.1.disk = c.disk := by
  unfold collect
  split <;> rfl

theorem disk_discard (sorted : List Nat) : (c.discard sorted).disk = c.disk := by
  unfold discard
  induction sorted.take (CACHE_PAGES / 2) generalizing c with
  | nil => rfl
  | cons p l ih => exact ih

/-- What `psync_pagecache_init` finds: where it adds no rows the last one has no page, and where
it has to resize the row numbered by the pages of the cache has none. -/
structure BootFits (rows : Table) (file : Option Nat) (fscachesize : Nat) : Prop where
  last : bootInserts (bootRows rows file) (fscachesize / PSYNC_FS_PAGE_SIZE) = 0 →
    ∀ r ∈ bootRows rows file, r.type = .read → r.id ≠ (bootRows rows file).maxId
  resized : fscachesize / PSYNC_FS_PAGE_SIZE < (bootRows rows file).maxId →
    ∀ r ∈ bootRows rows file, r.type = .read → r.id ≠ fscachesize / PSYNC_FS_PAGE_SIZE

variable {rows : Table} {file : Option Nat} {fscachesize : Nat}

theorem inside_opened (h : BootFits rows file fscachesize) :
    (opened rows file fscachesize).Inside := by
  refine ⟨?_, fun _ hs => nomatch hs⟩
  have hrows : InFile (((bootRows rows file).maxId +
      bootInserts (bootRows rows file) (fscachesize / PSYNC_FS_PAGE_SIZE)) * PSYNC_FS_PAGE_SIZE)
      (bootRows rows file) := by
    intro r hr ht
    refine Nat.mul_le_mul_right _ ?_
    have hle := Table.le_maxId hr
    rcases Nat.eq_zero_or_pos
      (bootInserts (bootRows rows file) (fscachesize / PSYNC_FS_PAGE_SIZE)) with hz | hpos
    · have hne := h.last hz r hr ht
      omega
    · omega
  exact hrows.iterate_insertFree _

theorem inside_boot (h : BootFits rows file fscachesize) (k : DiskCheck) :
    (boot rows file fscachesize k).Inside := by
  unfold boot
  dsimp only
  refine Inside.checkDiskFull ?_ k
  split
  next hlt =>
    refine (inside_opened h).resizeCache rfl ?_
    intro _ r hr ht
    have hdb : fscachesize / PSYNC_FS_PAGE_SIZE < (bootRows rows file).maxId +
        bootInserts (bootRows rows file) (fscachesize / PSYNC_FS_PAGE_SIZE) := hlt
    have hmax : fscachesize / PSYNC_FS_PAGE_SIZE < (bootRows rows file).maxId := by
      unfold bootInserts at hdb
      split at hdb
      · omega
      · omega
    rcases Table.mem_iterate_insertFree hr with hr | hr
    · exact h.resized hmax r hr ht
    · rw [hr] at ht
      cases ht
  next => exact inside_opened h

end Cache

/-! ## Steps -/

namespace FlushPc

/-- The pages that are written to the file. -/
def written : FlushPc → List Nat
  | writing _ pages todo => pages.filter fun p => p ∉ todo
  | begin _ work => work.pages
  | locked _ work => work.pages
  | commit _ work => work.pages
  | _ => []

end FlushPc

namespace Pc

def written : Pc → List Nat
  | flush _ place => place.written
  | _ => []

theorem written_of_unlocked {x : Pc} (h : x.locks = false) : x.written = [] := by
  cases x with
  | flush caller place => cases place <;> first | rfl | cases h
  | _ => rfl

theorem written_wake (x : Pc) : x.wake.written = x.written := by cases x <;> rfl

end Pc

theorem Caller.written_back (caller : Caller) : caller.back.written = [] := by
  cases caller <;> rfl

variable {ι : Type}

/-- The rows are inside the file, and so are the places of the pages that a flush has written. -/
structure Fits (st : State ι) : Prop where
  inside : st.cache.Inside
  placed : ∀ t, ∀ p ∈ (st.pc t).written, st.cache.Placed p

section

variable {st st' : State ι}

theorem Fits.keep (h : Fits st) (hpc : st'.pc = st.pc) (hin : st'.cache.Inside)
    (hfile : st'.cache.file = st.cache.file) : Fits st' := by
  refine ⟨hin, ?_⟩
  intro t p hp
  rw [hpc] at hp
  exact Cache.placed_of_file hfile (h.placed t p hp)

theorem Fits.broadcast (h : Fits st) : Fits st.broadcast := by
  unfold State.broadcast
  split
  · exact h
  · refine ⟨h.inside, ?_⟩
    intro t p hp
    dsimp only at hp
    rw [Pc.written_wake] at hp
    exact h.placed t p hp

/-- Nobody is between writing and the rows. -/
theorem Fits.of_none (hin : st'.cache.Inside)
    (hnone : ∀ t, (st'.pc t).written = []) : Fits st' := by
  refine ⟨hin, ?_⟩
  intro t p hp
  rw [hnone t] at hp
  cases hp

variable [DecidableEq ι] {t : ι} {y : Pc}

theorem Fits.moves (h : Fits st) (hpc : st'.pc = Function.update st.pc t y)
    (hin : st'.cache.Inside) (hfile : st'.cache.file = st.cache.file)
    (hy : y.written ⊆ (st.pc t).written) : Fits st' := by
  refine ⟨hin, ?_⟩
  intro u p hp
  rw [hpc] at hp
  refine Cache.placed_of_file hfile ?_
  rcases eq_or_ne u t with rfl | hut
  · rw [Function.update_self] at hp
    exact h.placed u p (hy hp)
  · rw [Function.update_of_ne hut] at hp
    exact h.placed u p hp

/-- A thread moves and leaves the disk alone. -/
theorem Fits.quiet (h : Fits st) (hpc : st'.pc = Function.update st.pc t y)
    (hdisk : st'.cache.disk = st.cache.disk) (hy : y.written = []) : Fits st' := by
  refine h.moves hpc (Cache.inside_of_disk hdisk h.inside) (Cache.file_of_disk hdisk) ?_
  rw [hy]
  exact List.nil_subset _

/-- The thread with the mutex does what it may. -/
theorem Fits.alone (ho : Owned st) (ht : (st.pc t).locks = true)
    (hpc : st'.pc = Function.update st.pc t y) (hin : st'.cache.Inside) (hy : y.written = []) :
    Fits st' := by
  refine Fits.of_none hin ?_
  intro u
  rw [hpc]
  rcases eq_or_ne u t with rfl | hut
  · rw [Function.update_self]
    exact hy
  · rw [Function.update_of_ne hut]
    exact Pc.written_of_unlocked (ho.others ht hut)

theorem Fits.obtain (h : Fits st) (runthread : Bool) : Fits (st.obtain t runthread) := by
  unfold State.obtain
  split
  · exact h.quiet (y := .out) rfl rfl rfl
  · split
    · exact h.quiet (y := .asleep runthread) rfl rfl rfl
    · exact h.quiet (y := .flush (.getEmpty runthread) .start) rfl rfl rfl

theorem Fits.reobtain (h : Fits st) (runthread : Bool) : Fits (st.reobtain t runthread) := by
  unfold State.reobtain
  split
  · exact h.quiet (y := .out) rfl rfl rfl
  · exact h.quiet (y := .flush (.getEmpty runthread) .start) rfl rfl rfl

theorem Fits.getFreePage (h : Fits st) (inside : Bool) : Fits (st.getFreePage t inside) := by
  have hs : Fits st.schedules := h.keep rfl h.inside rfl
  unfold State.getFreePage
  split
  · split
    · exact hs.quiet (y := .flush .getInside .start) rfl rfl rfl
    · exact hs.obtain true
  · exact h.obtain false

theorem Fits.collects (h : Fits st) (caller : Caller) (diskfull : Bool) :
    Fits (st.collects t caller diskfull) := by
  unfold State.collects
  split
  · exact h.quiet (t := t) rfl Cache.disk_collect rfl
  · exact h.quiet (t := t) rfl Cache.disk_collect rfl

theorem Fits.fills (h : Fits st) {caller : Caller} {diskfull : Bool} {work : Work}
    (ht : st.pc t = .flush caller (.locked diskfull work)) (sql : Cache.Statements) :
    Fits (st.fills t caller diskfull (st.cache.fill sql caller.nosleep diskfull work)) := by
  have hw : (st.pc t).written = work.pages := by
    rw [ht]
    rfl
  have hplaced : ∀ p ∈ work.pages, st.cache.Placed p := fun p hp => h.placed t p (hw ▸ hp)
  obtain ⟨hin, hfile, hsub⟩ := h.inside.fill hplaced sql caller.nosleep diskfull
  rw [← hw] at hsub
  generalize st.cache.fill sql caller.nosleep diskfull work = r at hin hfile hsub ⊢
  obtain ⟨c, filled⟩ := r
  have hgo : ∀ place : FlushPc, place.written ⊆ (st.pc t).written →
      Fits (st.goto t (.flush caller place) c) :=
    fun _ hp => h.moves (t := t) rfl hin hfile hp
  match filled with
  | .finished updates => exact (hgo (.ended updates) (List.nil_subset _)).broadcast
  | .more (.insert pages i) => exact hgo (.commit diskfull (.insert pages i)) hsub
  | .more (.update pages updates pagecnt) =>
    exact (hgo (.commit diskfull (.update pages updates pagecnt)) hsub).broadcast

theorem Fits.evictTakes (h : Fits st) (sizeinpages : Nat) :
    Fits (st.evictTakes t sizeinpages) := by
  have hstart : Fits (if st.cache.wantsFlush = true then st.schedules.spawns else st) := by
    split
    · exact h.keep rfl h.inside rfl
    · exact h
  unfold State.evictTakes
  dsimp only
  generalize (if st.cache.wantsFlush = true then st.schedules.spawns else st) = st₁ at hstart ⊢
  split
  · exact hstart.quiet (y := .evictRead sizeinpages _) rfl rfl rfl
  · exact hstart.quiet (y := .out) rfl rfl rfl

/-- The write of a page. -/
theorem Fits.writes (h : Fits st) {caller : Caller} {diskfull : Bool} {pages todo : List Nat}
    {p : Nat} (ht : st.pc t = .flush caller (.writing diskfull pages (p :: todo))) :
    Fits (st.goto t (.flush caller (.writing diskfull pages todo)) (st.cache.writePage p)) := by
  have hle : st.cache.fileSize ≤ (st.cache.writePage p).fileSize := Nat.le_max_left _ _
  refine ⟨⟨h.inside.1.mono hle, fun tr htr => (h.inside.2 tr htr).mono hle⟩, ?_⟩
  intro u q hq
  rcases eq_or_ne u t with rfl | hut
  · have hq' : q ∈ pages ∧ q ∉ todo := by
      simpa [State.goto, Pc.written, FlushPc.written] using hq
    rcases eq_or_ne q p with rfl | hqp
    · exact Nat.le_max_right _ _
    · refine Nat.le_trans (h.placed u q ?_) hle
      rw [ht]
      refine List.mem_filter.mpr ⟨hq'.1, ?_⟩
      simp only [List.mem_cons, not_or, decide_eq_true_eq]
      exact ⟨hqp, hq'.2⟩
  · dsimp only [State.goto] at hq
    rw [Function.update_of_ne hut] at hq
    exact Nat.le_trans (h.placed u q hq) hle

/-- Where the cache is resized, no page is left in the row numbered by its new size. -/
def Event.Resizes (st : State ι) : Event ι → Prop
  | .resize fscachesize => st.cache.ResizeFits fscachesize
  | _ => True

theorem Fits.step {e : Event ι} (hs : Step st e st') (ho : Owned st) (h : Fits st)
    (he : e.Resizes st) : Fits st' := by
  cases hs with
  | getFreePage => exact h.getFreePage _
  | awake =>
    have hw : Fits { st with cache := { st.cache with
        freePageWaiters := st.cache.freePageWaiters - 1 } } := h.keep rfl h.inside rfl
    exact hw.obtain _
  | relock => exact h.obtain _
  | recheck => exact h.reobtain _
  | insert => exact h.keep rfl h.inside rfl
  | add =>
    have hd := @Cache.disk_addPageIfNotExists st.cache
    exact h.keep rfl (Cache.inside_of_disk (hd _ _ _) h.inside) (Cache.file_of_disk (hd _ _ _))
  | giveBack => exact h.keep rfl h.inside rfl
  | touch => exact h.keep rfl h.inside rfl
  | corrupt => exact h.keep rfl h.inside rfl
  | switchPage => exact h.keep rfl h.inside rfl
  | markUsed => exact h.keep rfl h.inside rfl
  | timer => exact h.keep rfl h.inside rfl
  | @flushThread t => exact h.quiet (t := t) rfl rfl rfl
  | @flushCall t => exact h.quiet (t := t) rfl rfl rfl
  | @enter t => exact h.quiet (t := t) rfl rfl rfl
  | @enough t => exact h.quiet (t := t) rfl rfl rfl
  | @full t caller k maxpage =>
    have hread : (st.cache.readMaxPage k).Inside := h.inside
    exact h.moves (t := t) rfl (hread.deletePastDisk k maxpage)
      (Cache.file_deletePastDisk k maxpage) (List.nil_subset _)
  | @store t => exact h.moves (t := t) rfl h.inside rfl (List.nil_subset _)
  | collect => exact h.collects _ _
  | @sort t => exact h.quiet (t := t) rfl rfl rfl
  | @discard t caller pages =>
    have hdisk : (st.cache.discard (pages.insertionSort st.cache.discardLe)).disk = st.cache.disk :=
      Cache.disk_discard _
    have hd : Fits (st.discards pages) := Fits.broadcast
      (h.keep rfl (Cache.inside_of_disk hdisk h.inside) (Cache.file_of_disk hdisk))
    exact hd.collects _ _
  | @select t caller diskfull pages fetched ht =>
    refine Fits.alone ho (t := t) (by rw [ht]; rfl) rfl h.inside ?_
    refine List.filter_eq_nil_iff.mpr ?_
    intro p hp
    simpa using hp
  | write ht => exact h.writes ht
  | @writeFails t caller => exact h.quiet (t := t) rfl rfl caller.written_back
  | @sync t caller diskfull pages ht =>
    refine h.moves (t := t) rfl h.inside rfl ?_
    rw [ht]
    intro p hp
    exact List.mem_filter.mpr ⟨hp, by simp⟩
  | @syncFails t caller => exact h.quiet (t := t) rfl rfl caller.written_back
  | @begin t caller diskfull work ht =>
    refine h.moves (t := t) rfl ⟨h.inside.1, ?_⟩ rfl ?_
    · intro tr htr
      obtain rfl := Option.some.inj htr
      exact h.inside.1
    · rw [ht]
      exact List.Subset.refl _
  | fill ht => exact h.fills ht _
  | @commit t caller diskfull work ok ht =>
    refine h.moves (t := t) rfl (h.inside.commitTransaction ok) (Cache.file_commitTransaction ok) ?_
    rw [ht]
    exact List.Subset.refl _
  | @finish t caller updates ok ht =>
    have hin : (if updates = 0 then st.cache.rollbackTransaction
        else st.cache.commitTransaction ok).Inside ∧
        (if updates = 0 then st.cache.rollbackTransaction
          else st.cache.commitTransaction ok).file = st.cache.file := by
      split
      · exact ⟨h.inside.rollbackTransaction, Cache.file_rollbackTransaction⟩
      · exact ⟨h.inside.commitTransaction ok, Cache.file_commitTransaction ok⟩
    refine h.moves (t := t) rfl hin.1 hin.2 ?_
    rw [caller.written_back]
    exact List.nil_subset _
  | @clean t => exact h.quiet (t := t) rfl rfl rfl
  | @cleanRow t id ids ok ht htr =>
    refine h.moves (t := t) rfl ⟨?_, h.inside.2⟩ rfl (List.nil_subset _)
    dsimp only [State.goto]
    split
    · exact h.inside.1.frees id fun _ => rfl
    · exact h.inside.1
  | @cleaned t => exact h.quiet (t := t) rfl rfl rfl
  | @markPageFree id =>
    exact h.keep rfl ⟨h.inside.1.frees id fun _ => rfl, h.inside.2⟩ rfl
  | switchPageid => exact h.keep rfl ⟨h.inside.1.switchPageid _ _ _ _, h.inside.2⟩ rfl
  | resize hm htr =>
    exact Fits.of_none (h.inside.resizeCache htr he)
      fun t => Pc.written_of_unlocked (ho.none hm t)
  | cleanReadCache hm hc htr =>
    refine Fits.of_none ⟨?_, ?_⟩ fun t => Pc.written_of_unlocked (ho.none hm t)
    · have hnil : InFile 0 [] := fun _ hr => nomatch hr
      exact (hnil.mono (Nat.zero_le _)).iterate_insertFree _
    · intro tr htr'
      exact absurd (htr.symm.trans htr') (fun hn => nomatch hn)
  | @evict t =>
    exact h.moves (t := t) rfl h.inside.deleteUnallocated Cache.file_deleteUnallocated
      (List.nil_subset _)
  | evictTake => exact h.evictTakes _
  | @evictRead t => exact h.quiet (t := t) rfl rfl rfl
  | @evictReadFails t => exact h.quiet (t := t) (y := .out) rfl rfl rfl
  | @evictAdd t sizeinpages p row crcOk known =>
    exact h.quiet (t := t) (y := .evictDrop sizeinpages) rfl (Cache.disk_evictAdd _ _ _ _) rfl
  | @evictDrop t sizeinpages ok ht htr =>
    exact Fits.alone ho (t := t) (y := .out) (by rw [ht]; rfl) rfl
      (h.inside.evictDrop htr sizeinpages ok) rfl

end

/-! ## Whole lives -/

/-- The rows that another start finds: an open transaction is rolled back. -/
def Cache.durable (c : Cache) : Table := (c.transaction.map (·.saved)).getD c.rows

/-- The states that the client reaches from its first start, when there is no cache file, through
any steps and any number of starts over what it left, under conditions on both. -/
inductive Lived [DecidableEq ι] (boots : Table → Option Nat → Nat → Prop)
    (steps : State ι → Event ι → Prop) : State ι → Prop
  | first (rows : Table) (fscachesize : Nat) (k : Cache.DiskCheck)
      (hb : boots rows none fscachesize) :
      Lived boots steps (State.init (Cache.boot rows none fscachesize k))
  | again {st : State ι} (h : Lived boots steps st) (fscachesize : Nat) (k : Cache.DiskCheck)
      (hb : boots st.cache.durable (some st.cache.fileSize) fscachesize) :
      Lived boots steps
        (State.init (Cache.boot st.cache.durable (some st.cache.fileSize) fscachesize k))
  | step {st st' : State ι} {e : Event ι} (h : Lived boots steps st) (hs : Step st e st')
      (he : steps st e) : Lived boots steps st'

/-- Where every start finds no page in the row that its truncation cuts off, and neither does any
resize, the rows that hold a page are inside the cache file. -/
theorem read_rows_in_cache_file [DecidableEq ι] {st : State ι}
    (h : Lived Cache.BootFits (fun st e => e.Resizes st) st) :
    ∀ r ∈ st.cache.rows, r.type = .read →
      (r.id + 1) * PSYNC_FS_PAGE_SIZE ≤ st.cache.fileSize := by
  have hfits : Owned st ∧ Fits st := by
    induction h with
    | first rows fscachesize k hb =>
      exact ⟨owned_init _, Fits.of_none (Cache.inside_boot hb k) fun _ => rfl⟩
    | again h fscachesize k hb ih =>
      exact ⟨owned_init _, Fits.of_none (Cache.inside_boot hb k) fun _ => rfl⟩
    | step h hs he ih => exact ⟨ih.1.step hs, ih.2.step hs ih.1 he⟩
  exact hfits.2.inside.1

/-- The first page comes to a cache of two pages and is flushed to the first row. -/
theorem lived_one_page {boots : Table → Option Nat → Nat → Prop}
    {steps : State Unit → Event Unit → Prop} (hboot : boots [] none 8192)
    (hsteps : ∀ st e, (∀ n, e ≠ .resize n) → steps st e) :
    ∃ st : State Unit, Lived boots steps st ∧
      st.cache.rows = [⟨1, .read, some (7, 0), 1, 1, 4096, 0⟩, ⟨2, .free, none, 0, 0, 0, 0⟩] ∧
      st.cache.fileSize = 8192 ∧ st.cache.transaction = none ∧ st.flushMutex = none := by
  have h₀ : Lived boots steps (State.init (Cache.boot [] none 8192 .roomy)) :=
    .first [] 8192 .roomy hboot
  have h₁ := h₀.step (e := .getFreePage () false) (.getFreePage rfl) (hsteps _ _ nofun)
  have h₂ := h₁.step (e := .insert () 0 ⟨7, 0, 1, 4096, 1, 0, .read⟩)
    (.insert (by decide) rfl (by decide)) (hsteps _ _ nofun)
  have h₃ := h₂.step (e := .flushCall ()) (.flushCall rfl) (hsteps _ _ nofun)
  have h₄ := h₃.step (e := .enter ()) (.enter rfl) (hsteps _ _ nofun)
  have h₅ := h₄.step (e := .check () .roomy) (.enough rfl rfl rfl (by decide))
    (hsteps _ _ nofun)
  have h₆ := h₅.step (e := .collect ()) (.collect rfl (fun h => nomatch h.1)) (hsteps _ _ nofun)
  have h₇ := h₆.step (e := .select () 1) (.select rfl rfl) (hsteps _ _ nofun)
  have h₈ := h₇.step (e := .write () true) (.write (p := 0) rfl) (hsteps _ _ nofun)
  have h₉ := h₈.step (e := .sync () true) (.sync rfl) (hsteps _ _ nofun)
  have h₁₀ := h₉.step (e := .begin ()) (.begin rfl rfl) (hsteps _ _ nofun)
  have h₁₁ := h₁₀.step (e := .fill () .fine) (.fill rfl) (hsteps _ _ nofun)
  have h₁₂ := h₁₁.step (e := .finish () true) (.finish rfl) (hsteps _ _ nofun)
  exact ⟨_, h₁₂, by decide, by decide, by decide, rfl⟩

/-- The flushed page stays in the file, which a start makes larger by two pages and a resize smaller
by one. -/
theorem read_rows_in_cache_file_resized : ∃ st : State Unit,
    Lived Cache.BootFits (fun st e => e.Resizes st) st ∧
      st.cache.rows = [⟨1, .read, some (7, 0), 1, 1, 4096, 0⟩, ⟨2, .free, none, 0, 0, 0, 0⟩,
        ⟨3, .free, none, 0, 0, 0, 0⟩] ∧
      st.cache.fileSize = 12288 ∧ (1 + 1) * PSYNC_FS_PAGE_SIZE ≤ st.cache.fileSize := by
  have hboot : Cache.BootFits [] none 8192 :=
    ⟨fun _ _ hr => (nomatch hr), fun _ _ hr => (nomatch hr)⟩
  have hsteps : ∀ (st : State Unit) (e : Event Unit), (∀ n, e ≠ .resize n) → e.Resizes st := by
    intro st e he
    cases e with
    | resize n => exact absurd rfl (he n)
    | _ => trivial
  obtain ⟨st, hlived, hrows, hsize, htr, -⟩ :=
    @lived_one_page Cache.BootFits (fun st e => e.Resizes st) hboot hsteps
  have hdurable : st.cache.durable =
      [⟨1, .read, some (7, 0), 1, 1, 4096, 0⟩, ⟨2, .free, none, 0, 0, 0, 0⟩] := by
    rw [Cache.durable, htr, hrows]
    rfl
  have hagain : Cache.BootFits st.cache.durable (some st.cache.fileSize) 16384 := by
    rw [hdurable, hsize]
    exact ⟨by decide, by decide⟩
  have h₁ := hlived.again 16384 .roomy hagain
  rw [hdurable, hsize] at h₁
  have hfits : (Cache.boot [⟨1, .read, some (7, 0), 1, 1, 4096, 0⟩, ⟨2, .free, none, 0, 0, 0, 0⟩]
      (some 8192) 16384 .roomy).ResizeFits 12288 := by
    unfold Cache.ResizeFits
    decide
  have h₂ := h₁.step (e := .resize 12288) (.resize rfl rfl) hfits
  refine ⟨_, h₂, by decide, by decide, ?_⟩
  exact read_rows_in_cache_file h₂ ⟨1, .read, some (7, 0), 1, 1, 4096, 0⟩ (by decide) rfl

/-- A cache that is resized to one page keeps the row 1 and cuts its page off. -/
theorem resized_row_past_file : ¬∀ st : State Unit, Lived (fun _ _ _ => True) (fun _ _ => True) st →
    ∀ r ∈ st.cache.rows, r.type = .read →
      (r.id + 1) * PSYNC_FS_PAGE_SIZE ≤ st.cache.fileSize := by
  intro h
  obtain ⟨st, hlived, hrows, hsize, htr, hm⟩ :=
    @lived_one_page (fun _ _ _ => True) (fun _ _ => True) trivial (fun _ _ _ => trivial)
  have hstep : Step st (.resize 4096) { st with cache := st.cache.resizeCache 4096 } :=
    .resize hm htr
  have hbad := h _ (hlived.step hstep trivial) ⟨1, .read, some (7, 0), 1, 1, 4096, 0⟩
  have hcut : (st.cache.resizeCache 4096).rows = [⟨1, .read, some (7, 0), 1, 1, 4096, 0⟩] ∧
      (st.cache.resizeCache 4096).fileSize = 4096 := by
    unfold Cache.resizeCache
    dsimp only
    rw [hrows, hsize, if_pos (by decide)]
    dsimp only
    decide
  rw [hcut.1, hcut.2] at hbad
  exact absurd (hbad List.mem_cons_self rfl) (by decide)

end PcloudClient.Ppagecache
