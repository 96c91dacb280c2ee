/-
  Ppagecache/ToCacheProofs.lean --- the pages under the new hash are those of the new revision.
-/
import PcloudClient.Pfs.PlainFileProofs
import PcloudClient.Ppagecache.Accounting
import PcloudClient.Ppagecache.ReadProofs
import PcloudClient.Ppagecache.ToCache

set_option autoImplicit false

namespace PcloudClient.Ppagecache

open PcloudClient.Foundation
open PcloudClient.Pfs

/-! ## What is cached -/

/-- A property of a cached page, by its hash, page number, size, CRC and bytes. -/
abbrev CopyProp := Nat → Nat → Nat → Nat → Bytes → Prop

/-- The bytes in the cache file that a row stands for. -/
def Store.rowData (s : Store) (r : Row) : Bytes :=
  File.pread s.file r.size (r.id * PSYNC_FS_PAGE_SIZE)

/-- The pages in memory and those of the table have a property. -/
structure Store.Cached (s : Store) (good : CopyProp) : Prop where
  keyed : s.rows.Keyed
  pages : ∀ p ∈ s.pages, good p.desc.hash p.desc.pageid p.desc.size p.desc.crc p.data
  rows : ∀ r ∈ s.rows, r.type = .read → ∀ h i, r.key = some (h, i) →
    good h i r.size r.crc (s.rowData r)

/-- Bytes that the property depends on are there, in one page. -/
def Steady (good : CopyProp) : Prop :=
  ∀ h i size crc data, good h i size crc data →
    (data.length = size ∧ size ≤ PSYNC_FS_PAGE_SIZE) ∨ ∀ data', good h i size crc data'

section

variable {s : Store} {good : CopyProp}

/-! ## Flushing -/

theorem rowData_writeSlot {p : Page} {id : Nat} {r : Row} (hid : r.id ≠ id)
    (hlen : (s.rowData r).length = r.size) (hsize : r.size ≤ PSYNC_FS_PAGE_SIZE) :
    File.pread (s.writeSlot p id) r.size (r.id * PSYNC_FS_PAGE_SIZE) = s.rowData r := by
  unfold Store.rowData at hlen ⊢
  rcases Nat.eq_zero_or_pos r.size with hz | hpos
  · rw [hz]
    rfl
  · refine File.pread_pwrite_apart ?_ ?_
    · rw [File.length_pread] at hlen
      omega
    · have hlen' : (p.bytes.take PSYNC_FS_PAGE_SIZE).length ≤ PSYNC_FS_PAGE_SIZE :=
        List.length_take_le _ _
      rcases Nat.lt_or_gt_of_ne hid with hlt | hgt
      · have := Nat.mul_le_mul_right PSYNC_FS_PAGE_SIZE (Nat.succ_le_of_lt hlt)
        rw [Nat.succ_mul] at this
        omega
      · have := Nat.mul_le_mul_right PSYNC_FS_PAGE_SIZE (Nat.succ_le_of_lt hgt)
        rw [Nat.succ_mul] at this
        omega

/-- A row with a page is not the free row of that number. -/
theorem ne_of_hasFree (hk : s.rows.Keyed) {id : Nat} (hfree : s.hasFree id = true) {r : Row}
    (hr : r ∈ s.rows) (ht : r.type = .read) : r.id ≠ id := by
  rintro rfl
  obtain ⟨r', hr', heq⟩ := List.any_eq_true.mp hfree
  obtain ⟨hid, htype⟩ : r'.id = r.id ∧ r'.type = .free := by simpa using heq
  obtain rfl : r' = r := List.inj_on_of_nodup_map hk hr' hr hid
  rw [ht] at htype
  cases htype

/-- What is written for a free row is in no row's way. -/
theorem Store.Cached.rows_writeSlot (h : s.Cached good) (hs : Steady good) {p : Page} {id : Nat}
    (hfree : s.hasFree id = true) {r : Row} (hr : r ∈ s.rows) (ht : r.type = .read) {hash i : Nat}
    (hkey : r.key = some (hash, i)) :
    good hash i r.size r.crc
      (File.pread (s.writeSlot p id) r.size (r.id * PSYNC_FS_PAGE_SIZE)) := by
  have hgood := h.rows r hr ht hash i hkey
  rcases hs _ _ _ _ _ hgood with ⟨hlen, hsize⟩ | hany
  · rw [rowData_writeSlot (ne_of_hasFree h.keyed hfree hr ht) hlen hsize]
    exact hgood
  · exact hany _

/-- The row gets the bytes of the page. -/
theorem pread_writeSlot {p : Page} {id : Nat} (hlen : p.data.length = p.desc.size)
    (hsize : p.desc.size ≤ PSYNC_FS_PAGE_SIZE) :
    File.pread (s.writeSlot p id) p.desc.size (id * PSYNC_FS_PAGE_SIZE) = p.data := by
  have hle : p.desc.size ≤ (p.bytes.take PSYNC_FS_PAGE_SIZE).length := by
    unfold Page.data at hlen
    rw [List.length_take] at hlen ⊢
    omega
  have hin := File.pread_pwrite_inside (f := s.file) (o := id * PSYNC_FS_PAGE_SIZE) (p := 0)
    (show 0 + p.desc.size ≤ (p.bytes.take PSYNC_FS_PAGE_SIZE).length by omega)
  rw [Nat.add_zero] at hin
  unfold Store.writeSlot
  rw [hin, File.pread, List.drop_zero, List.take_take, Nat.min_eq_left hsize]
  rfl

theorem Store.Cached.fill (h : s.Cached good) (hs : Steady good) {p : Page} (hp : p ∈ s.pages)
    {id : Nat} (hfree : s.hasFree id = true) (k : Nat) :
    Store.Cached
      { pages := s.pages.eraseIdx k
        rows := s.rows.update id fun _ => p.desc.row id
        file := s.writeSlot p id } good := by
  refine ⟨Table.keyed_update h.keyed fun _ _ => rfl, ?_, ?_⟩
  · exact fun q hq => h.pages q (List.mem_of_mem_eraseIdx hq)
  · intro r hr ht hash i hkey
    obtain ⟨r₀, hr₀, rfl⟩ := List.mem_map.mp hr
    by_cases hid : r₀.id = id
    · rw [if_pos hid] at ht hkey ⊢
      obtain ⟨rfl, rfl⟩ : p.desc.hash = hash ∧ p.desc.pageid = i := by
        simpa [Desc.row] using hkey
      have hgood := h.pages p hp
      rcases hs _ _ _ _ _ hgood with ⟨hlen, hsize⟩ | hany
      · show good _ _ p.desc.size p.desc.crc
          (File.pread (s.writeSlot p id) p.desc.size (id * PSYNC_FS_PAGE_SIZE))
        rw [pread_writeSlot hlen hsize]
        exact hgood
      · exact hany _
    · rw [if_neg hid] at ht hkey ⊢
      exact h.rows_writeSlot hs hfree hr₀ ht hkey

theorem Store.Cached.flush (h : s.Cached good) (hs : Steady good) (a : Store.Flush) :
    (s.flush a).Cached good := by
  cases a with
  | discard k => exact ⟨h.keyed, fun q hq => h.pages q (List.mem_of_mem_eraseIdx hq), h.rows⟩
  | write k id =>
    unfold Store.flush
    dsimp only
    split
    · split
      next hfree =>
        exact ⟨h.keyed, h.pages, fun r hr ht hash i hkey => h.rows_writeSlot hs hfree hr ht hkey⟩
      · exact h
    · exact h
  | fill k id =>
    unfold Store.flush
    dsimp only
    split
    next p hp =>
      split
      next hcond => exact h.fill hs (List.mem_of_getElem? hp) hcond.1 k
      · exact h
    · exact h
  | delete maxpage =>
    exact ⟨Table.keyed_deleteAbove h.keyed _, h.pages,
      fun r hr => h.rows r (List.mem_of_mem_filter hr)⟩
  | insert =>
    refine ⟨Table.keyed_insertFree h.keyed, h.pages, ?_⟩
    intro r hr ht
    rcases List.mem_append.mp hr with hr | hr
    · exact h.rows r hr ht
    · rw [List.mem_singleton.mp hr] at ht
      cases ht

theorem Store.Cached.flushes (h : s.Cached good) (hs : Steady good) (as : List Store.Flush) :
    (as.foldl Store.flush s).Cached good := by
  induction as generalizing s with
  | nil => exact h
  | cons a as ih => exact ih (h.flush hs a)

/-! ## Looking for a page -/

variable {crc32c : Bytes → Nat} {hash pageid now : Nat} {pg : Bytes}

theorem cutSize_zero (stored size : Nat) : Store.cutSize stored size 0 = min size stored := by
  unfold Store.cutSize
  split
  · rw [if_neg (Nat.not_lt_zero _), Nat.sub_zero]
    omega
  · omega

/-- Looking at pages leaves what is in them. -/
theorem memoryLoop_pages (ps : List Page) (off : Nat) (buff : Bytes) (size : Nat)
    (ret : Option Nat) :
    ∀ q ∈ (Store.memoryLoop crc32c hash pageid now off ps buff size ret).1, ∃ p ∈ ps,
      q.desc.hash = p.desc.hash ∧ q.desc.pageid = p.desc.pageid ∧ q.desc.size = p.desc.size ∧
        q.desc.crc = p.desc.crc ∧ q.bytes = p.bytes := by
  induction ps generalizing buff size ret with
  | nil => exact fun _ hq => nomatch hq
  | cons p ps ih =>
    intro q hq
    unfold Store.memoryLoop at hq
    split at hq
    · split at hq
      · exact ⟨q, List.mem_cons_of_mem _ hq, rfl, rfl, rfl, rfl, rfl⟩
      · rcases List.mem_cons.mp hq with rfl | hq
        · refine ⟨p, List.mem_cons_self, ?_⟩
          unfold Store.touchPage
          split <;> exact ⟨rfl, rfl, rfl, rfl, rfl⟩
        · obtain ⟨p', hp', hfields⟩ := ih _ _ _ q hq
          exact ⟨p', List.mem_cons_of_mem _ hp', hfields⟩
    · rcases List.mem_cons.mp hq with rfl | hq
      · exact ⟨q, List.mem_cons_self, rfl, rfl, rfl, rfl, rfl⟩
      · obtain ⟨p', hp', hfields⟩ := ih _ _ _ q hq
        exact ⟨p', List.mem_cons_of_mem _ hp', hfields⟩

/-- The beginning of a page is in the buffer. -/
structure Found (pg : Bytes) (size n : Nat) (buff : Bytes) : Prop where
  count : n = min size pg.length
  bytes : buff.take n = pg.take n

theorem found_pwrite {size : Nat} (buff : Bytes) :
    Found pg size (min size pg.length)
      (File.pwrite buff (pg.take (min size pg.length)) 0) := by
  refine ⟨rfl, ?_⟩
  have hlen : (pg.take (min size pg.length)).length = min size pg.length := by
    rw [List.length_take]
    omega
  rw [File.pwrite_zero, List.take_append_of_le_length (Nat.le_of_eq hlen.symm),
    List.take_of_length_le (Nat.le_of_eq hlen)]

/-- Every page in memory that is looked at is the right one. -/
theorem memoryLoop_found (ps : List Page) (buff : Bytes) (size : Nat) (ret : Option Nat)
    (hright : ∀ p ∈ ps, p.isAt hash pageid → p.desc.size = pg.length ∧ p.data = pg)
    (hret : ∀ n, ret = some n → n = size ∧ Found pg size n buff) {n : Nat}
    (hn : (Store.memoryLoop crc32c hash pageid now 0 ps buff size ret).2.2 = some n) :
    Found pg size n (Store.memoryLoop crc32c hash pageid now 0 ps buff size ret).2.1 := by
  induction ps generalizing buff size ret with
  | nil => exact (hret n hn).2
  | cons p ps ih =>
    have hrest := fun q hq => hright q (List.mem_cons_of_mem p hq)
    unfold Store.memoryLoop at hn ⊢
    split at hn
    next hat =>
      rw [if_pos hat]
      split at hn
      next hcrc =>
        rw [if_pos hcrc]
        exact (hret n hn).2
      next hcrc =>
        rw [if_neg hcrc]
        obtain ⟨hsize, hdata⟩ := hright p List.mem_cons_self hat
        have hcut : Store.cutSize p.desc.size size 0 = min size pg.length := by
          rw [cutSize_zero, hsize]
        have hread : File.pread p.bytes (min size pg.length) 0 = pg.take (min size pg.length) := by
          have htake : p.bytes.take pg.length = pg := by
            rw [← hsize]
            exact hdata
          calc File.pread p.bytes (min size pg.length) 0
              = p.bytes.take (min size pg.length) := by rw [File.pread, List.drop_zero]
            _ = (p.bytes.take pg.length).take (min size pg.length) := by
              rw [List.take_take, Nat.min_eq_left (Nat.min_le_right _ _)]
            _ = pg.take (min size pg.length) := by rw [htake]
        dsimp only at hn ⊢
        rw [hcut, hread] at hn ⊢
        have hf := ih (File.pwrite buff (pg.take (min size pg.length)) 0) (min size pg.length)
          (some (min size pg.length)) hrest ?_ hn
        · exact ⟨hf.count.trans (by omega), hf.bytes⟩
        · intro m hm
          obtain rfl := Option.some.inj hm
          exact ⟨rfl, (found_pwrite buff).count.trans (by omega), (found_pwrite buff).bytes⟩
    next hat =>
      rw [if_neg hat]
      exact ih buff size ret hrest hret hn

theorem Store.Cached.checkPageInMemoryByHash (h : s.Cached good) (buff : Bytes) (size off : Nat) :
    (s.checkPageInMemoryByHash crc32c hash pageid now buff size off).1.Cached good := by
  refine ⟨h.keyed, ?_, h.rows⟩
  intro q hq
  obtain ⟨p, hp, hhash, hid, hsize, hcrc, hbytes⟩ :=
    memoryLoop_pages s.pages off buff size none q hq
  have hgood := h.pages p hp
  unfold Page.data at hgood ⊢
  rw [hhash, hid, hsize, hcrc, hbytes]
  exact hgood

theorem Store.Cached.markPageFree (h : s.Cached good) (id : Nat) :
    (s.markPageFree id).Cached good := by
  refine ⟨Table.keyed_update h.keyed fun _ hr => hr, h.pages, ?_⟩
  intro r hr ht
  obtain ⟨r₀, hr₀, rfl⟩ := List.mem_map.mp hr
  by_cases hid : r₀.id = id
  · rw [if_pos hid] at ht
    cases ht
  · rw [if_neg hid] at ht ⊢
    exact h.rows r₀ hr₀ ht

theorem Store.Cached.checkPageInDatabaseByHash (h : s.Cached good) (buff : Bytes) (size off : Nat)
    (limit : Option Nat) :
    (s.checkPageInDatabaseByHash crc32c hash pageid buff size off limit).1.Cached good := by
  unfold Store.checkPageInDatabaseByHash
  split
  · exact h
  · dsimp only
    split
    · exact h.markPageFree _
    · split
      · exact h.markPageFree _
      · split
        · exact h.markPageFree _
        · exact h

/-- The row of the page is right. -/
theorem checkPageInDatabaseByHash_found (buff : Bytes) (size : Nat) (limit : Option Nat)
    (hright : ∀ r ∈ s.rows, r.type = .read → r.key = some (hash, pageid) →
      r.size = pg.length ∧ s.rowData r = pg) {n : Nat}
    (hn : (s.checkPageInDatabaseByHash crc32c hash pageid buff size 0 limit).2.2 = some n) :
    Found pg size n (s.checkPageInDatabaseByHash crc32c hash pageid buff size 0 limit).2.1 := by
  unfold Store.checkPageInDatabaseByHash at hn ⊢
  split at hn
  · cases hn
  next r hr =>
    obtain ⟨ht, hkey⟩ : r.type = .read ∧ r.key = some (hash, pageid) := by
      simpa [Store.isRowOf] using List.find?_some hr
    obtain ⟨hsize, hdata⟩ := hright r (List.mem_of_find?_eq_some hr) ht hkey
    have hcut : Store.cutSize r.size size 0 = min size pg.length := by
      rw [cutSize_zero, hsize]
    dsimp only at hn ⊢
    rw [hcut, Nat.add_zero] at hn ⊢
    split at hn
    · cases hn
    next data hread =>
      split at hn
      · cases hn
      next hlen =>
        split at hn
        · cases hn
        next hcrc =>
          rw [if_neg hlen, if_neg hcrc]
          obtain rfl := Option.some.inj hn
          have hdata' : data = pg.take (min size pg.length) := by
            obtain ⟨m, rfl, rfl⟩ := Option.map_eq_some_iff.mp hread
            have htake : File.pread s.file (min size pg.length) (r.id * PSYNC_FS_PAGE_SIZE)
                = pg.take (min size pg.length) := by
              have hinner := @File.pread_pread s.file r.size (r.id * PSYNC_FS_PAGE_SIZE)
                (min size pg.length) 0 (by omega)
              rw [Nat.add_zero] at hinner
              rw [← hinner]
              show File.pread (s.rowData r) _ 0 = _
              rw [hdata, File.pread, List.drop_zero]
            rw [htake] at hlen ⊢
            refine List.take_of_length_le ?_
            rw [List.length_take, List.length_take] at hlen
            rw [List.length_take]
            omega
          rw [hdata']
          exact found_pwrite buff

/-- The page is found as it is in the revision, or not at all. -/
theorem findPage_found (h : s.Cached good) (buff : Bytes) (size : Nat) (limit : Option Nat)
    (hgood : ∀ size crc data, good hash pageid size crc data → size = pg.length ∧ data = pg) :
    (s.findPage crc32c hash pageid now buff size limit).1.Cached good ∧
      ∀ n, (s.findPage crc32c hash pageid now buff size limit).2.2 = some n →
        Found pg size n (s.findPage crc32c hash pageid now buff size limit).2.1 := by
  have hmem : (s.checkPageInMemoryByHash crc32c hash pageid now buff size 0).1.Cached good :=
    h.checkPageInMemoryByHash buff size 0
  have hfound : ∀ n, (s.checkPageInMemoryByHash crc32c hash pageid now buff size 0).2.2 = some n →
      Found pg size n (s.checkPageInMemoryByHash crc32c hash pageid now buff size 0).2.1 := by
    intro n hn
    refine memoryLoop_found s.pages buff size none ?_ (fun _ hm => nomatch hm) hn
    intro p hp hat
    refine hgood _ p.desc.crc _ ?_
    rw [← hat.1, ← hat.2]
    exact h.pages p hp
  unfold Store.findPage
  generalize s.checkPageInMemoryByHash crc32c hash pageid now buff size 0 = r at hmem hfound ⊢
  obtain ⟨s', buff', ret⟩ := r
  cases ret with
  | some n =>
    refine ⟨hmem, ?_⟩
    intro m hm
    obtain rfl := Option.some.inj hm
    exact hfound n rfl
  | none =>
    refine ⟨hmem.checkPageInDatabaseByHash buff' size 0 limit, ?_⟩
    intro n hn
    refine checkPageInDatabaseByHash_found buff' size limit ?_ hn
    intro r hr ht hkey
    exact hgood _ r.crc _ (hmem.rows r hr ht hash pageid hkey)

/-! ## Pages for the new hash -/

variable {oldhash : Nat}

theorem Store.Cached.mono {good' : CopyProp} (h : s.Cached good)
    (himp : ∀ h i size crc data, good h i size crc data → good' h i size crc data) :
    s.Cached good' :=
  ⟨h.keyed, fun p hp => himp _ _ _ _ _ (h.pages p hp),
    fun r hr ht hash i hkey => himp _ _ _ _ _ (h.rows r hr ht hash i hkey)⟩

theorem Store.Cached.addPage (h : s.Cached good) {tm pdb : Nat} {bytes : Bytes}
    (hgood : good hash pageid pdb (crc32c (bytes.take pdb)) (bytes.take pdb))
    (rowFound waited : Bool) :
    (s.addPage crc32c hash pageid tm pdb bytes rowFound waited).Cached good := by
  unfold Store.addPage Store.addPageIfNotExists
  split
  · exact h
  · split
    · exact h
    · refine ⟨h.keyed, ?_, h.rows⟩
      intro p hp
      rcases List.mem_append.mp hp with hp | hp
      · exact h.pages p hp
      · rw [List.mem_singleton.mp hp]
        exact hgood

/-- The page is as good under the new hash. -/
theorem Store.Cached.switchMemoryPageToHash (h : s.Cached good) {s' : Store}
    (hs : s.switchMemoryPageToHash oldhash hash pageid = some s')
    (hgood : ∀ size crc data, good oldhash pageid size crc data → good hash pageid size crc data) :
    s'.Cached good := by
  obtain ⟨p, hp, rfl⟩ := Option.map_eq_some_iff.mp hs
  obtain ⟨hat, -⟩ : p.isAt oldhash pageid ∧ p.desc.type = .read := by
    simpa [Store.switchable] using List.find?_some hp
  refine ⟨h.keyed, ?_, h.rows⟩
  intro q hq
  rcases List.mem_append.mp hq with hq | hq
  · exact h.pages q (List.mem_of_mem_eraseP hq)
  · rw [List.mem_singleton.mp hq]
    have := h.pages p (List.mem_of_find?_eq_some hp)
    rw [hat.1, hat.2] at this
    show good hash p.desc.pageid p.desc.size p.desc.crc p.data
    rw [hat.2]
    exact hgood _ _ _ this

theorem Store.Cached.switchPageid (h : s.Cached good) (lastuse : Nat)
    (hgood : ∀ size crc data, good oldhash pageid size crc data → good hash pageid size crc data) :
    Store.Cached { s with rows := s.rows.switchPageid hash oldhash pageid lastuse } good := by
  refine ⟨?_, h.pages, ?_⟩
  · show ((s.rows.switchPageid hash oldhash pageid lastuse).map (·.id)).Nodup
    rw [Table.switchPageid_fields.1]
    exact h.keyed
  · intro r hr ht hash' i hkey
    obtain ⟨r₀, hr₀, rfl⟩ := List.mem_map.mp hr
    by_cases hcond : r₀.key = some (oldhash, pageid) ∧ r₀.type = .read ∧
        s.rows.taken r₀.id (hash, pageid) = false
    · rw [if_pos hcond] at hkey ⊢
      obtain ⟨rfl, rfl⟩ : hash = hash' ∧ pageid = i := by simpa using hkey
      exact hgood _ _ _ (h.rows r₀ hr₀ hcond.2.1 _ _ hcond.1)
    · rw [if_neg hcond] at ht hkey ⊢
      exact h.rows r₀ hr₀ ht _ _ hkey

theorem Store.Cached.switchPageids (h : s.Cached good) (lastuse : Nat) {pageids : List Nat}
    (hgood : ∀ pageid ∈ pageids, ∀ size crc data,
      good oldhash pageid size crc data → good hash pageid size crc data) (ok : Bool) :
    (s.switchPageids hash oldhash lastuse pageids ok).Cached good := by
  unfold Store.switchPageids
  split
  · induction pageids generalizing s with
    | nil => exact h
    | cons pageid pageids ih =>
      exact ih (h.switchPageid lastuse (hgood pageid List.mem_cons_self))
        fun q hq => hgood q (List.mem_cons_of_mem _ hq)
  · exact h

end

/-! ## The new revision -/

/-- The old revision with what the data file has at the intervals. -/
def overlaid (old data : Bytes) (tree : List (Span Nat)) : Bytes :=
  (List.range data.length).map fun x =>
    ((if tree.any fun i => i.start ≤ x ∧ x < i.stop then data[x]? else old[x]?).getD 0)

section

variable {old data : Bytes} {tree : List (Span Nat)} {x : Nat}

theorem length_overlaid : (overlaid old data tree).length = data.length := by
  simp [overlaid]

theorem any_iff_mem_union :
    (tree.any fun i => i.start ≤ x ∧ x < i.stop) = true ↔ x ∈ Intervals.union tree := by
  rw [List.any_eq_true, Intervals.mem_union]
  simp

theorem overlaid_inside (hx : x < data.length) (hmem : x ∈ Intervals.union tree) :
    (overlaid old data tree)[x]? = data[x]? := by
  unfold overlaid
  rw [List.getElem?_map, List.getElem?_range hx, Option.map_some,
    if_pos (any_iff_mem_union.mpr hmem), List.getElem?_eq_getElem hx]
  rfl

theorem overlaid_outside (hx : x < data.length) (hmem : x ∉ Intervals.union tree)
    (hold : x < old.length) : (overlaid old data tree)[x]? = old[x]? := by
  unfold overlaid
  rw [List.getElem?_map, List.getElem?_range hx, Option.map_some,
    if_neg (fun hn => hmem (any_iff_mem_union.mp hn)), List.getElem?_eq_getElem hold]
  rfl

theorem length_page (content : Bytes) (pageid : Nat) :
    (page content pageid).length
      = min PSYNC_FS_PAGE_SIZE (content.length - pageid * PSYNC_FS_PAGE_SIZE) :=
  File.length_pread _ _ _

/-- Behind the end of the old revision everything is written. -/
def Covers (old data : Bytes) (tree : List (Span Nat)) : Prop :=
  ∀ x, old.length ≤ x → x < data.length → x ∈ Intervals.union tree

theorem Covers.lt_old (h : Covers old data tree) (hx : x < data.length)
    (hmem : x ∉ Intervals.union tree) : x < old.length :=
  Nat.lt_of_not_le fun hle => hmem (h x hle hx)

/-- A page that nobody wrote to, up to the end of the file. -/
theorem page_overlaid_of_untouched (h : Covers old data tree) {pageid : Nat}
    (hfs : pageid * PSYNC_FS_PAGE_SIZE < data.length)
    (hnone : ∀ x, pageid * PSYNC_FS_PAGE_SIZE ≤ x →
      x < pageid * PSYNC_FS_PAGE_SIZE + PSYNC_FS_PAGE_SIZE → x ∉ Intervals.union tree) :
    page (overlaid old data tree) pageid
        = (page old pageid).take (data.length - pageid * PSYNC_FS_PAGE_SIZE) ∧
      min PSYNC_FS_PAGE_SIZE (data.length - pageid * PSYNC_FS_PAGE_SIZE)
        ≤ (page old pageid).length := by
  have hlast : min (pageid * PSYNC_FS_PAGE_SIZE + PSYNC_FS_PAGE_SIZE) data.length ≤ old.length := by
    by_contra hlt
    refine hnone (min (pageid * PSYNC_FS_PAGE_SIZE + PSYNC_FS_PAGE_SIZE) data.length - 1) ?_ ?_
      (h _ ?_ ?_) <;> unfold PSYNC_FS_PAGE_SIZE at * <;> omega
  refine ⟨?_, ?_⟩
  · apply List.ext_getElem?
    intro i
    unfold page
    rw [List.getElem?_take, File.getElem?_pread, File.getElem?_pread]
    by_cases hi : i < PSYNC_FS_PAGE_SIZE
    · rw [if_pos hi, if_pos hi]
      by_cases hfs' : i < data.length - pageid * PSYNC_FS_PAGE_SIZE
      · rw [if_pos hfs']
        exact overlaid_outside (by omega) (hnone _ (by omega) (by omega)) (by omega)
      · rw [if_neg hfs']
        exact List.getElem?_eq_none (by rw [length_overlaid]; omega)
    · rw [if_neg hi, if_neg hi, ite_self]
  · rw [length_page]
    omega

end

/-! ## Old and new parts -/

/-- From a position on the rest of the intervals is what the tree has. -/
structure Remains (tree : List (Span Nat)) (point : Nat) (l : List (Span Nat)) : Prop where
  separated : Intervals.Separated l
  iff : ∀ x, point ≤ x → (x ∈ Intervals.union l ↔ x ∈ Intervals.union tree)

/-- What is read over the page at `off` at the positions of the intervals `l`. -/
structure Combined (data : Bytes) (off : Nat) (l : List (Span Nat)) (buff : Bytes) (pdb : Nat)
    (buff' : Bytes) (pdb' : Nat) : Prop where
  le : pdb ≤ pdb'
  small : pdb ≤ PSYNC_FS_PAGE_SIZE → pdb' ≤ PSYNC_FS_PAGE_SIZE
  inside : ∀ i < PSYNC_FS_PAGE_SIZE, off + i < data.length → off + i ∈ Intervals.union l →
    buff'[i]? = data[off + i]? ∧ i < pdb'
  outside : ∀ i < PSYNC_FS_PAGE_SIZE, off + i < data.length → off + i ∉ Intervals.union l →
    i < buff.length → buff'[i]? = buff[i]?

section

variable {data buff buff₁ buff₂ : Bytes} {off pdb pdb₁ pdb₂ : Nat} {fi : Span Nat}
  {l rest tree : List (Span Nat)}

theorem Remains.trans {point point' : Nat} {l' : List (Span Nat)} (h : Remains tree point l)
    (h' : Remains l point' l') (hle : point ≤ point') : Remains tree point' l' :=
  ⟨h'.separated, fun x hx => (h'.iff x hx).trans (h.iff x (Nat.le_trans hle hx))⟩

theorem Combined.nothing
    (hnone : ∀ i < PSYNC_FS_PAGE_SIZE, off + i < data.length → off + i ∉ Intervals.union l) :
    Combined data off l buff pdb buff pdb :=
  ⟨Nat.le_refl _, id, fun i hi hfs hmem => absurd hmem (hnone i hi hfs), fun _ _ _ _ _ => rfl⟩

/-- One interval, then those behind it. -/
theorem Combined.cons (hsep : Intervals.Separated (fi :: rest))
    (h₁ : Combined data off [fi] buff pdb buff₁ pdb₁)
    (h₂ : Combined data off rest buff₁ pdb₁ buff₂ pdb₂) (hlen : buff.length ≤ buff₁.length) :
    Combined data off (fi :: rest) buff pdb buff₂ pdb₂ := by
  obtain ⟨-, hafter, -⟩ := Intervals.separated_cons.mp hsep
  refine ⟨Nat.le_trans h₁.le h₂.le, fun hs => h₂.small (h₁.small hs), ?_, ?_⟩
  · intro i hi hfs hmem
    by_cases hrest : off + i ∈ Intervals.union rest
    · exact h₂.inside i hi hfs hrest
    · have hfi : off + i ∈ Intervals.union [fi] := by
        rw [Intervals.union_cons, Intervals.union_nil, Set.union_empty]
        rw [Intervals.union_cons] at hmem
        exact hmem.resolve_right hrest
      obtain ⟨hbyte, hlt⟩ := h₁.inside i hi hfs hfi
      have hin : i < buff₁.length := by
        rw [List.getElem?_eq_getElem hfs] at hbyte
        exact (List.getElem?_eq_some_iff.mp hbyte).1
      exact ⟨(h₂.outside i hi hfs hrest hin).trans hbyte, Nat.lt_of_lt_of_le hlt h₂.le⟩
  · intro i hi hfs hmem hin
    rw [Intervals.union_cons, Set.mem_union, not_or] at hmem
    have hfi : off + i ∉ Intervals.union [fi] := by
      rw [Intervals.union_cons, Intervals.union_nil, Set.union_empty]
      exact hmem.1
    exact (h₂.outside i hi hfs hmem.2 (Nat.lt_of_lt_of_le hin hlen)).trans
      (h₁.outside i hi hfs hfi hin)

theorem mem_union_singleton {x : Nat} :
    x ∈ Intervals.union [fi] ↔ fi.start ≤ x ∧ x < fi.stop := by
  rw [Intervals.mem_union]
  simp

/-- The interval is read over the page, up to its end or the end of the file. -/
theorem combined_pwrite {rd : Bytes} {limit : Option Nat}
    (hstart : fi.start < off + PSYNC_FS_PAGE_SIZE)
    (hstop : off < fi.stop) (hne : fi.start < fi.stop)
    (hread : preadUpTo data (ToCache.rdlen off fi) (ToCache.rdoff off fi) limit = some rd)
    (hall : rd.length = ToCache.rdlen off fi ∨ data.length ≤ ToCache.rdoff off fi + rd.length) :
    Combined data off [fi] buff pdb (File.pwrite buff rd (ToCache.roff off fi))
      (if pdb < ToCache.roff off fi + rd.length then ToCache.roff off fi + rd.length else pdb) := by
  obtain ⟨n, -, hrd⟩ := Option.map_eq_some_iff.mp hread
  have hlen : rd.length ≤ ToCache.rdlen off fi := by
    rw [← hrd, List.length_take, File.length_pread]
    omega
  have hbyte : ∀ j < rd.length, rd[j]? = data[ToCache.rdoff off fi + j]? := by
    intro j hj
    have hj' : j < n := by
      rw [← hrd, List.length_take] at hj
      omega
    rw [← hrd, List.getElem?_take, if_pos hj', File.getElem?_pread, if_pos (by omega)]
  have hplace : ToCache.rdoff off fi = off + ToCache.roff off fi ∧
      ToCache.roff off fi + ToCache.rdlen off fi ≤ PSYNC_FS_PAGE_SIZE ∧
      (∀ i < PSYNC_FS_PAGE_SIZE, fi.start ≤ off + i → off + i < fi.stop →
        ToCache.roff off fi ≤ i ∧ i < ToCache.roff off fi + ToCache.rdlen off fi) ∧
      ∀ i, ToCache.roff off fi ≤ i → i < ToCache.roff off fi + ToCache.rdlen off fi →
        fi.start ≤ off + i ∧ off + i < fi.stop := by
    unfold ToCache.rdlen ToCache.rdoff ToCache.roff
    refine ⟨?_, ?_, ?_, ?_⟩
    · split <;> omega
    · split <;> split <;> omega
    · intro i hi hge hlt
      split <;> split <;> omega
    · intro i hge hlt
      split at hlt <;> split at hlt <;> split at hge <;> omega
  obtain ⟨hoff, hsmall, hcover, hwithin⟩ := hplace
  refine ⟨?_, ?_, ?_, ?_⟩
  · split <;> omega
  · intro hp
    split <;> omega
  · intro i hi hfs hmem
    obtain ⟨hge, hlt⟩ := mem_union_singleton.mp hmem
    obtain ⟨hroff, hend⟩ := hcover i hi hge hlt
    have hin : i < ToCache.roff off fi + rd.length := by omega
    refine ⟨?_, ?_⟩
    · rw [File.getElem?_pwrite_inside hroff hin, hbyte _ (by omega), hoff]
      congr 1
      omega
    · split <;> omega
  · intro i hi hfs hmem hin
    refine File.getElem?_pwrite_outside hin ?_
    by_contra hcon
    refine hmem (mem_union_singleton.mpr (hwithin i (by omega) (by omega)))

end

section

variable {f : ToCache} {localRead : Nat → Option Nat} {off : Nat}

/-- The loop reads every interval of the page over it, or fails. -/
theorem combineLoop_spec {l : List (Span Nat)} (hsep : Intervals.Separated l)
    (hstart : ∀ fi ∈ l.head?, fi.start < off + PSYNC_FS_PAGE_SIZE) (hstop : ∀ fi ∈ l, off < fi.stop)
    (buff : Bytes) (pdb : Nat) :
    Remains l (off + PSYNC_FS_PAGE_SIZE) (f.combineLoop localRead off l buff pdb).1 ∧
      ((f.combineLoop localRead off l buff pdb).2.2.2 = true →
        Combined f.data off l buff pdb (f.combineLoop localRead off l buff pdb).2.1
          (f.combineLoop localRead off l buff pdb).2.2.1) := by
  induction l generalizing buff pdb with
  | nil =>
    refine ⟨⟨hsep, fun _ _ => Iff.rfl⟩, fun _ => Combined.nothing ?_⟩
    intro i _ _
    rw [Intervals.union_nil]
    exact Set.notMem_empty _
  | cons fi rest ih =>
    obtain ⟨hne, hafter, hsep'⟩ := Intervals.separated_cons.mp hsep
    have hfi := hstart fi (by simp)
    have hfi' := hstop fi List.mem_cons_self
    have hself : Remains (fi :: rest) (off + PSYNC_FS_PAGE_SIZE) (fi :: rest) :=
      ⟨hsep, fun _ _ => Iff.rfl⟩
    -- nothing of the rest is in the page, where it is not looked at
    have hlater : ∀ {bound : Nat}, (∀ j ∈ rest, bound ≤ j.start) →
        min (off + PSYNC_FS_PAGE_SIZE) f.data.length ≤ bound →
        ∀ i < PSYNC_FS_PAGE_SIZE, off + i < f.data.length → off + i ∉ Intervals.union rest := by
      intro bound hbound hle i hi hfs hmem
      obtain ⟨j, hj, hge, -⟩ := Intervals.mem_union.mp hmem
      have := hbound j hj
      omega
    have hdrop : fi.stop ≤ off + PSYNC_FS_PAGE_SIZE →
        Remains (fi :: rest) (off + PSYNC_FS_PAGE_SIZE) rest := by
      intro hle
      refine ⟨hsep', ?_⟩
      intro x hx
      rw [Intervals.union_cons, Set.mem_union, Set.mem_Ico]
      constructor
      · exact Or.inr
      · rintro (hin | hin)
        · omega
        · exact hin
    unfold ToCache.combineLoop
    split
    · exact ⟨hself, fun hok => nomatch hok⟩
    next rd hread =>
      dsimp only
      split
      next hshort =>
        split
        next hend =>
          refine ⟨hself, fun _ => ?_⟩
          refine Combined.cons hsep (combined_pwrite hfi hfi' hne hread (Or.inr hend))
            (Combined.nothing ?_) (File.length_le_pwrite _ _ _)
          refine hlater (fun j hj => Nat.le_of_lt (hafter j hj)) ?_
          obtain ⟨n, -, hrd⟩ := Option.map_eq_some_iff.mp hread
          have hlen : rd.length ≤ ToCache.rdlen off fi := by
            rw [← hrd, List.length_take, File.length_pread]
            omega
          have hlt : rd.length < ToCache.rdlen off fi := Nat.lt_of_le_of_ne hlen hshort
          unfold ToCache.rdlen at hlt
          split at hlt <;> omega
        · exact ⟨hself, fun hok => nomatch hok⟩
      next hfull =>
        have hfull' : rd.length = ToCache.rdlen off fi := not_not.mp hfull
        have hone := @combined_pwrite f.data buff off pdb fi rd _ hfi hfi' hne hread (Or.inl hfull')
        split
        next hover =>
          refine ⟨hself, fun _ => ?_⟩
          refine Combined.cons hsep hone (Combined.nothing ?_) (File.length_le_pwrite _ _ _)
          exact hlater (fun j hj => Nat.le_of_lt (hafter j hj)) (by omega)
        next hover =>
          have hrest := hdrop (by omega)
          split
          · refine ⟨hrest, fun _ => ?_⟩
            refine Combined.cons hsep hone (Combined.nothing ?_) (File.length_le_pwrite _ _ _)
            intro i _ _
            rw [Intervals.union_nil]
            exact Set.notMem_empty _
          next next tail =>
            split
            next hnext =>
              refine ⟨hrest, fun _ => ?_⟩
              refine Combined.cons hsep hone (Combined.nothing ?_) (File.length_le_pwrite _ _ _)
              refine @hlater next.start ?_ (by omega)
              intro j hj
              rcases List.mem_cons.mp hj with rfl | hj
              · exact Nat.le_refl _
              · obtain ⟨hlt, hbefore, -⟩ := Intervals.separated_cons.mp hsep'
                have := hbefore j hj
                omega
            next hnext =>
              obtain ⟨hrem, hcomb⟩ := ih hsep'
                (fun g hg => by
                  obtain rfl : next = g := by simpa using hg
                  omega)
                (fun g hg => by
                  have := hafter g hg
                  have := hsep'.nonempty g hg
                  omega)
                (File.pwrite buff rd (ToCache.roff off fi))
                (if pdb < ToCache.roff off fi + rd.length then ToCache.roff off fi + rd.length
                  else pdb)
              refine ⟨hrest.trans hrem (Nat.le_refl _), fun hok => ?_⟩
              exact Combined.cons hsep hone (hcomb hok) (File.length_le_pwrite _ _ _)

end

/-! ## The turns of the loop -/

/-- A cached page has the bytes, the size and the CRC of the page of a revision. -/
structure Right (crc32c : Bytes → Nat) (content : Bytes) (pageid size crc : Nat) (data : Bytes) :
    Prop where
  size : size = (page content pageid).length
  data : data = page content pageid
  crc : crc = crc32c (page content pageid)

/-- Pages of the old hash are right, at least those from `cur` on, and so are those that came to the
new hash. -/
def ToCache.Good (crc32c : Bytes → Nat) (f : ToCache) (old new : Bytes) (had : Nat → Prop)
    (cur : Nat) : CopyProp := fun h i size crc data =>
  (h = f.oldhash → Right crc32c old i size crc data ∨ i < cur ∧ Right crc32c new i size crc data) ∧
    (h = f.hash → had i ∨ Right crc32c new i size crc data)

section

variable {crc32c : Bytes → Nat} {f : ToCache} {old new : Bytes} {had : Nat → Prop} {cur : Nat}

theorem Right.full {content data : Bytes} {pageid size crc : Nat}
    (h : Right crc32c content pageid size crc data) :
    data.length = size ∧ size ≤ PSYNC_FS_PAGE_SIZE := by
  have hlen := length_page content pageid
  rw [h.data, h.size]
  omega

theorem right_of_take {bytes : Bytes} {pageid pdb : Nat} (hlen : pdb = (page new pageid).length)
    (htake : bytes.take pdb = page new pageid) :
    Right crc32c new pageid pdb (crc32c (bytes.take pdb)) (bytes.take pdb) :=
  ⟨hlen, htake, congrArg crc32c htake⟩

theorem steady_good : Steady (f.Good crc32c old new had cur) := by
  rintro h i size crc data ⟨hold, hnew⟩
  by_cases ho : h = f.oldhash
  · rcases hold ho with hr | ⟨-, hr⟩
    · exact Or.inl hr.full
    · exact Or.inl hr.full
  · by_cases hn : h = f.hash
    · rcases hnew hn with hhad | hr
      · exact Or.inr fun _ => ⟨fun he => absurd he ho, fun _ => Or.inl hhad⟩
      · exact Or.inl hr.full
    · exact Or.inr fun _ => ⟨fun he => absurd he ho, fun he => absurd he hn⟩

theorem good_succ (h i size crc : Nat) (data : Bytes)
    (hg : f.Good crc32c old new had cur h i size crc data) :
    f.Good crc32c old new had (cur + 1) h i size crc data :=
  ⟨fun ho => (hg.1 ho).imp id fun hr => ⟨Nat.lt_succ_of_lt hr.1, hr.2⟩, hg.2⟩

/-- The old page that the loop has come to is right. -/
theorem good_old {size crc : Nat} {data : Bytes}
    (hg : f.Good crc32c old new had cur f.oldhash cur size crc data) :
    size = (page old cur).length ∧ data = page old cur := by
  have hr := (hg.1 rfl).resolve_right fun hn => absurd hn.1 (Nat.lt_irrefl _)
  exact ⟨hr.size, hr.data⟩

theorem good_new {size crc : Nat} {data : Bytes} (hr : Right crc32c new cur size crc data) :
    f.Good crc32c old new had (cur + 1) f.hash cur size crc data :=
  ⟨fun _ => Or.inr ⟨Nat.lt_succ_self _, hr⟩, fun _ => Or.inr hr⟩

/-- A page that is the same in both revisions may be moved. -/
theorem good_switch {pageid size crc : Nat} {data : Bytes}
    (hsame : page new pageid = page old pageid)
    (hg : f.Good crc32c old new had cur f.oldhash pageid size crc data) :
    f.Good crc32c old new had cur f.hash pageid size crc data := by
  have hr : Right crc32c new pageid size crc data := by
    rcases hg.1 rfl with hr | ⟨-, hr⟩
    · refine ⟨?_, ?_, ?_⟩
      · rw [hsame]
        exact hr.size
      · rw [hsame]
        exact hr.data
      · rw [hsame]
        exact hr.crc
    · exact hr
  exact ⟨fun _ => hg.1 rfl, fun _ => Or.inr hr⟩

end

/-- What holds at the beginning of a turn. -/
structure Turned (crc32c : Bytes → Nat) (f : ToCache) (old : Bytes) (tree : List (Span Nat))
    (had : Nat → Prop) (cur : Nat) (m : Modifying) : Prop where
  cached : m.store.Cached (f.Good crc32c old (overlaid old f.data tree) had cur)
  pending : ∀ j ∈ m.pageids, page (overlaid old f.data tree) j = page old j
  remains : Remains tree (cur * PSYNC_FS_PAGE_SIZE) m.intervals

section

variable {crc32c : Bytes → Nat} {f : ToCache} {old : Bytes} {tree : List (Span Nat)}
  {had : Nat → Prop} {cur : Nat} {m : Modifying}

theorem cached_lastPage {s : Store}
    (h : s.Cached (f.Good crc32c old (overlaid old f.data tree) had cur))
    (hcover : Covers old f.data tree) (hfs : cur * PSYNC_FS_PAGE_SIZE < f.data.length)
    (hend : f.data.length < cur * PSYNC_FS_PAGE_SIZE + PSYNC_FS_PAGE_SIZE)
    (hnone : ∀ x, cur * PSYNC_FS_PAGE_SIZE ≤ x →
      x < cur * PSYNC_FS_PAGE_SIZE + PSYNC_FS_PAGE_SIZE → x ∉ Intervals.union tree) (k : Calls) :
    (f.lastPage crc32c s cur k).Cached
      (f.Good crc32c old (overlaid old f.data tree) had (cur + 1)) := by
  obtain ⟨hpage, hlong⟩ := page_overlaid_of_untouched hcover hfs hnone
  have hlen := length_page (overlaid old f.data tree) cur
  rw [length_overlaid] at hlen
  obtain ⟨hcached, hfound⟩ := @findPage_found _ _ crc32c f.oldhash cur k.now (page old cur)
    (h.flushes steady_good k.flush) k.buffer (f.data.length - cur * PSYNC_FS_PAGE_SIZE) k.cacheRead
    fun _ _ _ hg => good_old hg
  unfold ToCache.lastPage
  dsimp only
  generalize (k.flush.foldl Store.flush s).findPage crc32c f.oldhash cur k.now k.buffer
    (f.data.length - cur * PSYNC_FS_PAGE_SIZE) k.cacheRead = r at hcached hfound ⊢
  obtain ⟨s', buff, ret⟩ := r
  cases ret with
  | none => exact hcached.mono good_succ
  | some pdb =>
    have hf := hfound pdb rfl
    have hpdb : pdb = f.data.length - cur * PSYNC_FS_PAGE_SIZE := by
      have := hf.count
      omega
    refine (hcached.mono good_succ).addPage (good_new (right_of_take ?_ ?_)) _ _
    · omega
    · rw [hpage, ← hpdb]
      exact hf.bytes

theorem Turned.oldPage (h : Turned crc32c f old tree had cur m)
    (hsame : page (overlaid old f.data tree) cur = page old cur) (k : Calls) :
    (f.oldPage m cur k).store.Cached (f.Good crc32c old (overlaid old f.data tree) had cur) ∧
      (∀ j ∈ (f.oldPage m cur k).pageids, page (overlaid old f.data tree) j = page old j) ∧
      (f.oldPage m cur k).intervals = m.intervals := by
  have hpending : ∀ j ∈ m.pageids ++ [cur], page (overlaid old f.data tree) j = page old j := by
    intro j hj
    rcases List.mem_append.mp hj with hj | hj
    · exact h.pending j hj
    · rw [List.mem_singleton.mp hj]
      exact hsame
  unfold ToCache.oldPage
  split
  next s hs =>
    exact ⟨h.cached.switchMemoryPageToHash hs fun _ _ _ => good_switch hsame, h.pending, rfl⟩
  next =>
    dsimp only
    split
    · refine ⟨?_, fun _ hj => (nomatch hj), rfl⟩
      exact h.cached.switchPageids _ (fun j hj _ _ _ => good_switch (hpending j hj)) _
    · exact ⟨h.cached, hpending, rfl⟩

/-- A page that was written as a whole is the page of the data file. -/
theorem page_overlaid_of_covered {pageid : Nat}
    (hall : ∀ x, pageid * PSYNC_FS_PAGE_SIZE ≤ x →
      x < pageid * PSYNC_FS_PAGE_SIZE + PSYNC_FS_PAGE_SIZE → x < f.data.length →
      x ∈ Intervals.union tree) :
    page (overlaid old f.data tree) pageid = page f.data pageid := by
  apply List.ext_getElem?
  intro i
  unfold page
  rw [File.getElem?_pread, File.getElem?_pread]
  by_cases hi : i < PSYNC_FS_PAGE_SIZE
  · rw [if_pos hi, if_pos hi]
    by_cases hfs : pageid * PSYNC_FS_PAGE_SIZE + i < f.data.length
    · exact overlaid_inside hfs (hall _ (by omega) (by omega) hfs)
    · rw [List.getElem?_eq_none (by rw [length_overlaid]; omega), List.getElem?_eq_none (by omega)]
  · rw [if_neg hi, if_neg hi]

theorem cached_newPage {s : Store}
    (h : s.Cached (f.Good crc32c old (overlaid old f.data tree) had cur))
    (hall : ∀ x, cur * PSYNC_FS_PAGE_SIZE ≤ x →
      x < cur * PSYNC_FS_PAGE_SIZE + PSYNC_FS_PAGE_SIZE → x < f.data.length →
      x ∈ Intervals.union tree) (k : Calls) :
    (f.newPage crc32c s cur k).1.Cached
      (f.Good crc32c old (overlaid old f.data tree) had (cur + 1)) := by
  have hflush := (h.flushes steady_good k.flush).mono good_succ
  unfold ToCache.newPage
  dsimp only
  split
  · exact hflush
  next bytes hread =>
    split
    · exact hflush
    next hcond =>
      obtain ⟨n, -, hbytes⟩ := Option.map_eq_some_iff.mp hread
      have hle : bytes.length ≤ (if f.data.length < cur * PSYNC_FS_PAGE_SIZE + PSYNC_FS_PAGE_SIZE
          then f.data.length - cur * PSYNC_FS_PAGE_SIZE else PSYNC_FS_PAGE_SIZE) := by
        rw [← hbytes, List.length_take, File.length_pread]
        omega
      have hlen : bytes.length = min PSYNC_FS_PAGE_SIZE
          (f.data.length - cur * PSYNC_FS_PAGE_SIZE) := by
        split at hle <;> omega
      have hpage : bytes = page f.data cur := by
        apply List.ext_getElem?
        intro i
        by_cases hi : i < bytes.length
        · have hi' : i < n := by
            rw [← hbytes, List.length_take] at hi
            omega
          unfold page
          rw [File.getElem?_pread, if_pos (by omega), ← hbytes, List.getElem?_take, if_pos hi',
            File.getElem?_pread, if_pos (by omega)]
        · rw [List.getElem?_eq_none (by omega), List.getElem?_eq_none (by rw [length_page]; omega)]
      have hnew := (page_overlaid_of_covered hall : page (overlaid old f.data tree) cur = _)
      have htake : (File.pwrite k.buffer bytes 0).take bytes.length = bytes := by
        rw [File.pwrite_zero, List.take_append_of_le_length (Nat.le_refl _), List.take_length]
      refine hflush.addPage (good_new (right_of_take ?_ ?_)) _ _
      · rw [hnew, ← hpage]
      · rw [htake, hnew]
        exact hpage

/-- Old and new parts put together are the page of the new revision. -/
theorem Combined.page_eq (hcover : Covers old f.data tree) {buff buff' : Bytes} {pdb pdb' : Nat}
    (hf : Found (page old cur) PSYNC_FS_PAGE_SIZE pdb buff)
    (hc : Combined f.data (cur * PSYNC_FS_PAGE_SIZE) m.intervals buff pdb buff' pdb')
    (hrem : Remains tree (cur * PSYNC_FS_PAGE_SIZE) m.intervals) {n : Nat}
    (hn : n = if f.data.length < pdb' + cur * PSYNC_FS_PAGE_SIZE
      then f.data.length - cur * PSYNC_FS_PAGE_SIZE else pdb') :
    n = (page (overlaid old f.data tree) cur).length ∧
      buff'.take n = page (overlaid old f.data tree) cur := by
  have hlen := length_page (overlaid old f.data tree) cur
  rw [length_overlaid] at hlen
  have hold := length_page old cur
  have hpdb : pdb = (page old cur).length := by
    have := hf.count
    omega
  have hsmall := hc.small (by omega)
  -- every byte of the page is read from the data file or has been there before
  have hbyte : ∀ i < (page (overlaid old f.data tree) cur).length,
      i < pdb' ∧ buff'[i]? = (page (overlaid old f.data tree) cur)[i]? := by
    intro i hi
    have hi' : i < PSYNC_FS_PAGE_SIZE := by omega
    have hfs : cur * PSYNC_FS_PAGE_SIZE + i < f.data.length := by omega
    have hnew : (page (overlaid old f.data tree) cur)[i]?
        = (overlaid old f.data tree)[cur * PSYNC_FS_PAGE_SIZE + i]? := by
      unfold page
      rw [File.getElem?_pread, if_pos hi']
    have hiff := hrem.iff (cur * PSYNC_FS_PAGE_SIZE + i) (by omega)
    by_cases hmem : cur * PSYNC_FS_PAGE_SIZE + i ∈ Intervals.union tree
    · obtain ⟨hb, hlt⟩ := hc.inside i hi' hfs (hiff.mpr hmem)
      exact ⟨hlt, by rw [hnew, overlaid_inside hfs hmem, hb]⟩
    · have hlt := hcover.lt_old hfs hmem
      have hip : i < pdb := by omega
      have hbuff : i < buff.length := by
        have := congrArg List.length hf.bytes
        rw [List.length_take, List.length_take] at this
        omega
      refine ⟨Nat.lt_of_lt_of_le hip hc.le, ?_⟩
      rw [hnew, overlaid_outside hfs hmem hlt,
        hc.outside i hi' hfs (fun hin => hmem (hiff.mp hin)) hbuff]
      have htake := congrArg (fun l : Bytes => l[i]?) hf.bytes
      simp only [List.getElem?_take, if_pos hip] at htake
      rw [htake]
      unfold page
      rw [File.getElem?_pread, if_pos hi']
  have hcount : n = (page (overlaid old f.data tree) cur).length := by
    rcases Nat.eq_zero_or_pos (page (overlaid old f.data tree) cur).length with hz | hpos
    · split at hn <;> omega
    · have := (hbyte ((page (overlaid old f.data tree) cur).length - 1) (by omega)).1
      split at hn <;> omega
  refine ⟨hcount, ?_⟩
  apply List.ext_getElem?
  intro i
  rw [List.getElem?_take]
  split
  next hi => exact (hbyte i (by omega)).2
  next hi => exact (List.getElem?_eq_none (by omega)).symm

theorem Turned.mixedPage (h : Turned crc32c f old tree had cur m)
    (hcover : Covers old f.data tree)
    (hstart : ∀ fi ∈ m.intervals.head?, fi.start < cur * PSYNC_FS_PAGE_SIZE + PSYNC_FS_PAGE_SIZE)
    (hstop : ∀ fi ∈ m.intervals, cur * PSYNC_FS_PAGE_SIZE < fi.stop) (k : Calls) :
    Turned crc32c f old tree had (cur + 1) (f.mixedPage crc32c m cur k) := by
  have hnext : (cur + 1) * PSYNC_FS_PAGE_SIZE = cur * PSYNC_FS_PAGE_SIZE + PSYNC_FS_PAGE_SIZE :=
    Nat.succ_mul _ _
  have hskip : Remains tree ((cur + 1) * PSYNC_FS_PAGE_SIZE) m.intervals :=
    ⟨h.remains.separated, fun x hx => h.remains.iff x (by omega)⟩
  obtain ⟨hcached, hfound⟩ := @findPage_found _ _ crc32c f.oldhash cur k.now (page old cur)
    (h.cached.flushes steady_good k.flush) k.buffer PSYNC_FS_PAGE_SIZE k.cacheRead
    fun _ _ _ hg => good_old hg
  unfold ToCache.mixedPage
  dsimp only
  generalize (k.flush.foldl Store.flush m.store).findPage crc32c f.oldhash cur k.now k.buffer
    PSYNC_FS_PAGE_SIZE k.cacheRead = r at hcached hfound ⊢
  obtain ⟨s', buff, ret⟩ := r
  cases ret with
  | none => exact ⟨hcached.mono good_succ, h.pending, hskip⟩
  | some pdb =>
    obtain ⟨hrem, hcomb⟩ := @combineLoop_spec f k.localRead _ _ h.remains.separated hstart hstop
      buff pdb
    dsimp only
    generalize f.combineLoop k.localRead (cur * PSYNC_FS_PAGE_SIZE) m.intervals buff pdb = c
      at hrem hcomb ⊢
    obtain ⟨intervals, buff', pdb', ok⟩ := c
    have hrem' : Remains tree ((cur + 1) * PSYNC_FS_PAGE_SIZE) intervals := by
      rw [hnext]
      exact h.remains.trans hrem (Nat.le_add_right _ _)
    cases ok with
    | false => exact ⟨hcached.mono good_succ, h.pending, hrem'⟩
    | true =>
      obtain ⟨hlen, htake⟩ := Combined.page_eq hcover (hfound pdb rfl) (hcomb rfl) h.remains rfl
      exact ⟨(hcached.mono good_succ).addPage (good_new (right_of_take hlen htake)) _ _, h.pending,
        hrem'⟩

/-- A turn of the loop: it goes on with the next page, or is left. -/
theorem Turned.turn (h : Turned crc32c f old tree had cur m) (hcover : Covers old f.data tree)
    (hfs : cur * PSYNC_FS_PAGE_SIZE < f.data.length) (k : Calls) :
    (f.turn crc32c m cur k).1.store.Cached
        (f.Good crc32c old (overlaid old f.data tree) had (cur + 1)) ∧
      (∀ j ∈ (f.turn crc32c m cur k).1.pageids, page (overlaid old f.data tree) j = page old j) ∧
      ((f.turn crc32c m cur k).2 = true →
        Remains tree ((cur + 1) * PSYNC_FS_PAGE_SIZE) (f.turn crc32c m cur k).1.intervals) := by
  have hnext : (cur + 1) * PSYNC_FS_PAGE_SIZE = cur * PSYNC_FS_PAGE_SIZE + PSYNC_FS_PAGE_SIZE :=
    Nat.succ_mul _ _
  obtain ⟨hsep, hmem, hiff⟩ := intervalsFrom_spec h.remains.separated (cur * PSYNC_FS_PAGE_SIZE)
  unfold ToCache.turn
  dsimp only
  generalize intervalsFrom m.intervals (cur * PSYNC_FS_PAGE_SIZE) = l at hsep hmem hiff ⊢
  have hrem : Remains tree (cur * PSYNC_FS_PAGE_SIZE) l :=
    ⟨hsep, fun x hx => (hiff x hx).trans (h.remains.iff x hx)⟩
  have hrem' : Remains tree ((cur + 1) * PSYNC_FS_PAGE_SIZE) l :=
    ⟨hsep, fun x hx => hrem.iff x (by omega)⟩
  have hturned : Turned crc32c f old tree had cur { m with intervals := l } :=
    ⟨h.cached, h.pending, hrem⟩
  split
  next hall =>
    -- nobody wrote to the page
    have hnone : ∀ x, cur * PSYNC_FS_PAGE_SIZE ≤ x →
        x < cur * PSYNC_FS_PAGE_SIZE + PSYNC_FS_PAGE_SIZE → x ∉ Intervals.union tree := by
      intro x hge hlt hx
      obtain ⟨fi, hfi, hstart, -⟩ := Intervals.mem_union.mp ((hrem.iff x hge).mpr hx)
      cases l with
      | nil => cases hfi
      | cons g l =>
        have hg : cur * PSYNC_FS_PAGE_SIZE + PSYNC_FS_PAGE_SIZE ≤ g.start := by simpa using hall
        rcases List.mem_cons.mp hfi with rfl | hfi
        · omega
        · obtain ⟨hne, hafter, -⟩ := Intervals.separated_cons.mp hsep
          have := hafter fi hfi
          omega
    split
    next hend =>
      exact ⟨cached_lastPage h.cached hcover hfs hend hnone k, h.pending, fun hok => nomatch hok⟩
    next hend =>
      have hsame : page (overlaid old f.data tree) cur = page old cur := by
        rw [(page_overlaid_of_untouched hcover hfs hnone).1]
        refine List.take_of_length_le ?_
        rw [length_page]
        omega
      obtain ⟨hcached, hpending, hintervals⟩ := hturned.oldPage hsame k
      refine ⟨hcached.mono good_succ, hpending, fun _ => ?_⟩
      rw [hintervals]
      exact hrem'
  next hsome =>
    split
    next hany =>
      -- an interval has the whole page
      have hall : ∀ x, cur * PSYNC_FS_PAGE_SIZE ≤ x →
          x < cur * PSYNC_FS_PAGE_SIZE + PSYNC_FS_PAGE_SIZE → x < f.data.length →
          x ∈ Intervals.union tree := by
        intro x hge hlt hlen
        cases l with
        | nil => simp at hany
        | cons g l =>
          obtain ⟨hstart, hstop⟩ : g.start ≤ cur * PSYNC_FS_PAGE_SIZE ∧
              (cur * PSYNC_FS_PAGE_SIZE + PSYNC_FS_PAGE_SIZE ≤ g.stop ∨
                f.data.length ≤ g.stop) := by
            simpa using hany
          refine (hrem.iff x hge).mp (Intervals.mem_union.mpr ⟨g, List.mem_cons_self, ?_, ?_⟩)
          · omega
          · omega
      exact ⟨cached_newPage h.cached hall k, h.pending, fun _ => hrem'⟩
    next hany =>
      have hstart : ∀ fi ∈ l.head?, fi.start < cur * PSYNC_FS_PAGE_SIZE + PSYNC_FS_PAGE_SIZE := by
        intro fi hfi
        rw [Option.mem_def.mp hfi] at hsome
        simpa using hsome
      have hmixed := hturned.mixedPage hcover hstart (fun fi hfi => (hmem fi hfi).2) k
      exact ⟨hmixed.cached, hmixed.pending, fun _ => hmixed.remains⟩

/-- All turns: the pages are good, and so are those whose rows are still to be moved. -/
theorem Turned.loop (hcover : Covers old f.data tree) (calls : Nat → Calls) (n : Nat) {cur : Nat}
    {m : Modifying} (h : Turned crc32c f old tree had cur m)
    (hn : ∀ i < n, (cur + i) * PSYNC_FS_PAGE_SIZE < f.data.length) :
    ∃ cur', (f.loop crc32c calls n cur m).store.Cached
        (f.Good crc32c old (overlaid old f.data tree) had cur') ∧
      ∀ j ∈ (f.loop crc32c calls n cur m).pageids,
        page (overlaid old f.data tree) j = page old j := by
  induction n generalizing cur m with
  | zero => exact ⟨cur, h.cached, h.pending⟩
  | succ n ih =>
    obtain ⟨hcached, hpending, hrem⟩ := h.turn hcover (hn 0 (Nat.succ_pos _)) (calls cur)
    unfold ToCache.loop
    generalize f.turn crc32c m cur (calls cur) = r at hcached hpending hrem ⊢
    obtain ⟨m', more⟩ := r
    cases more with
    | false => exact ⟨cur + 1, hcached, hpending⟩
    | true =>
      refine ih ⟨hcached, hpending, hrem rfl⟩ ?_
      intro i hi
      have := hn (i + 1) (Nat.succ_lt_succ hi)
      rwa [Nat.add_assoc, Nat.add_comm 1 i]

end

/-! ## The cache behind an upload -/

theorem separated_of_load {records : List IndexRecord} {tree tree' : List (Span Nat)}
    (hload : loadIntervalTree records tree = some tree') (hsep : Intervals.Separated tree) :
    Intervals.Separated tree' := by
  induction records generalizing tree with
  | nil =>
    obtain rfl := Option.some.inj hload
    exact hsep
  | cons r records ih =>
    obtain ⟨tree₁, hadd, hrest⟩ := Option.bind_eq_some_iff.mp hload
    unfold intervalTreeAdd at hadd
    split at hadd
    next hlt =>
      obtain rfl := Option.some.inj hadd
      exact ih hrest (hsep.add hlt)
    next => cases hadd

/-- The pages that are cached under a hash, in memory or in the database, have a property of their
page number, size, CRC and bytes. -/
structure Store.Holds (s : Store) (hash : Nat) (good : Nat → Nat → Nat → Bytes → Prop) : Prop where
  pages : ∀ p ∈ s.pages, p.desc.hash = hash → good p.desc.pageid p.desc.size p.desc.crc p.data
  rows : ∀ r ∈ s.rows, r.type = .read → ∀ i, r.key = some (hash, i) →
    good i r.size r.crc (s.rowData r)

/-- A page is cached. -/
def Store.Has (s : Store) (hash pageid : Nat) : Prop :=
  (∃ p ∈ s.pages, p.isAt hash pageid) ∨ ∃ r ∈ s.rows, isRowOf hash pageid r = true

/-- The pages that come to the new hash are those of the old revision with the data file over it,
in their bytes, size and CRC.  Nothing is said of a page number under which the new hash had a page
before the call (`s.Has f.hash`): such a page is not one that is added or switched over. -/
theorem modify_to_cache_right (crc32c : Bytes → Nat) (f : ToCache) (s : Store)
    (index : List IndexRecord) (calls : Nat → Calls) (last : Calls) (old : Bytes)
    {tree : List (Span Nat)} (hload : loadIntervalTree index [] = some tree)
    (hcover : Covers old f.data tree) (hkeyed : s.rows.Keyed)
    (hold : s.Holds f.oldhash (Right crc32c old)) :
    ∃ s', f.modifyToCache crc32c s index calls last = some s' ∧
      s'.Holds f.hash fun pageid size crc data =>
        s.Has f.hash pageid ∨ Right crc32c (overlaid old f.data tree) pageid size crc data := by
  have hstart : Turned crc32c f old tree (s.Has f.hash) 0 ⟨s, tree, []⟩ := by
    refine ⟨⟨hkeyed, ?_, ?_⟩, fun _ hj => (nomatch hj),
      separated_of_load hload Intervals.separated_nil, fun _ _ => Iff.rfl⟩
    · intro p hp
      exact ⟨fun ho => Or.inl (hold.pages p hp ho), fun hn => Or.inl (Or.inl ⟨p, hp, hn, rfl⟩)⟩
    · intro r hr ht h i hkey
      refine ⟨fun ho => Or.inl (hold.rows r hr ht i (ho ▸ hkey)), fun hn => Or.inl (Or.inr ?_)⟩
      exact ⟨r, hr, by simp [Store.isRowOf, ht, hkey, hn]⟩
  obtain ⟨cur, hcached, hpending⟩ := hstart.loop hcover calls
    (sizeRoundUpToPage f.data.length / PSYNC_FS_PAGE_SIZE) (by
      intro i hi
      unfold sizeRoundUpToPage PSYNC_FS_PAGE_SIZE at *
      omega)
  unfold ToCache.modifyToCache
  rw [hload]
  refine ⟨_, rfl, ?_⟩
  generalize f.loop crc32c calls (sizeRoundUpToPage f.data.length / PSYNC_FS_PAGE_SIZE) 0
    ⟨s, tree, []⟩ = m at hcached hpending ⊢
  have hfinal : (if m.pageids = [] then m.store else
      m.store.switchPageids f.hash f.oldhash last.now m.pageids last.switched).Cached
      (f.Good crc32c old (overlaid old f.data tree) (s.Has f.hash) cur) := by
    split
    · exact hcached
    · exact hcached.switchPageids _ (fun j hj _ _ _ => good_switch (hpending j hj)) _
  refine ⟨?_, ?_⟩
  · intro p hp hhash
    exact (hfinal.pages p hp).2 hhash
  · intro r hr ht i hkey
    exact (hfinal.rows r hr ht _ _ hkey).2 rfl

/-- A file of three bytes, in memory under the hash 7, gets its second byte and a fourth one. -/
theorem modify_to_cache_right_mixed : ∃ s',
    (⟨[0, 9, 0, 7], 8, 7, 5⟩ : ToCache).modifyToCache List.length
      ⟨[⟨⟨7, 0, 1, 3, 1, 3, .read⟩, [1, 2, 3]⟩], [], []⟩ [⟨1, 1⟩, ⟨3, 1⟩]
      (fun _ => ⟨[], [], 5, some 4096, fun _ => some 4096, true, false, true⟩)
      ⟨[], [], 5, some 4096, fun _ => some 4096, true, false, true⟩ = some s' ∧
    s' = ⟨[⟨⟨7, 0, 1, 3, 1, 3, .read⟩, [1, 2, 3]⟩, ⟨⟨8, 0, 5, 4, 1, 4, .read⟩, [1, 9, 3, 7]⟩], [],
      []⟩ ∧
    Right List.length (overlaid [1, 2, 3] [0, 9, 0, 7] [⟨1, 2⟩, ⟨3, 4⟩]) 0 4 4 [1, 9, 3, 7] := by
  have hold : Store.Holds ⟨[⟨⟨7, 0, 1, 3, 1, 3, .read⟩, [1, 2, 3]⟩], [], []⟩ 7
      (Right List.length [1, 2, 3]) := by
    refine ⟨?_, fun _ hr => nomatch hr⟩
    intro p hp _
    rw [List.mem_singleton.mp hp]
    exact ⟨by decide, by decide, by decide⟩
  have hcover : Covers [1, 2, 3] [0, 9, 0, 7] [⟨1, 2⟩, ⟨3, 4⟩] := by
    intro x hge hlt
    obtain rfl : x = 3 := Nat.le_antisymm (Nat.le_of_lt_succ hlt) hge
    exact Intervals.mem_union.mpr ⟨⟨3, 4⟩, by simp, by decide, by decide⟩
  have hkeyed : Table.Keyed [] := List.nodup_nil
  obtain ⟨s', hrun, hholds⟩ := modify_to_cache_right List.length ⟨[0, 9, 0, 7], 8, 7, 5⟩
    ⟨[⟨⟨7, 0, 1, 3, 1, 3, .read⟩, [1, 2, 3]⟩], [], []⟩ [⟨1, 1⟩, ⟨3, 1⟩]
    (fun _ => ⟨[], [], 5, some 4096, fun _ => some 4096, true, false, true⟩)
    ⟨[], [], 5, some 4096, fun _ => some 4096, true, false, true⟩ [1, 2, 3] rfl hcover hkeyed hold
  have heq : s' = ⟨[⟨⟨7, 0, 1, 3, 1, 3, .read⟩, [1, 2, 3]⟩,
      ⟨⟨8, 0, 5, 4, 1, 4, .read⟩, [1, 9, 3, 7]⟩], [], []⟩ :=
    Option.some.inj (hrun.symm.trans (by decide))
  refine ⟨s', hrun, heq, ?_⟩
  have hpage := hholds.pages ⟨⟨8, 0, 5, 4, 1, 4, .read⟩, [1, 9, 3, 7]⟩ (by rw [heq]; simp) rfl
  refine hpage.resolve_left ?_
  rintro (⟨p, hp, hat⟩ | ⟨r, hr, -⟩)
  · rw [List.mem_singleton.mp hp] at hat
    exact absurd hat.1 (by decide)
  · cases hr

end PcloudClient.Ppagecache
