/-
  Ppagecache/Accounting.lean --- where the pages are and what the counters say.

  Each page is on the free list, in the hash or in the hands of one thread, and the three counters
  are the lengths of the free list, of the hash and of the list of free rows.  The code keeps this
  only in runs that stay clear of a number of its paths; `Event.Accounts` names them.
-/
import PcloudClient.Ppagecache.FlushLock

set_option autoImplicit false

namespace PcloudClient.Ppagecache

open PcloudClient.Pfs (PSYNC_FS_PAGE_SIZE)

theorem add32_eq {n k : Nat} (h : n + k < 2 ^ 32) : add32 n k = n + k := if_pos h

theorem sub32_eq {n k : Nat} (h : k ≤ n) : sub32 n k = n - k := if_pos h

/-! ## Counting rows -/

namespace Table

variable {rows : Table} {id : Nat}

/-- The primary key. -/
def Keyed (rows : Table) : Prop := (rows.map (·.id)).Nodup

/-- There is a row of this type. -/
def Has (rows : Table) (id : Nat) (type : PageType) : Prop :=
  ∃ r ∈ rows, r.id = id ∧ r.type = type

theorem map_id_update {f : Row → Row} (hf : ∀ r, r.id = id → (f r).id = id) :
    (rows.update id f).map (·.id) = rows.map (·.id) := by
  unfold update
  rw [List.map_map]
  refine List.map_congr_left ?_
  intro r _
  by_cases hr : r.id = id
  · simp only [Function.comp, if_pos hr]
    exact (hf r hr).trans hr.symm
  · simp only [Function.comp, if_neg hr]

theorem update_of_notMem {f : Row → Row} (h : id ∉ rows.map (·.id)) : rows.update id f = rows := by
  unfold update
  rw [List.map_congr_left (g := fun r => r)]
  · exact List.map_id' _
  · intro r hr
    refine if_neg ?_
    rintro rfl
    exact h (List.mem_map.mpr ⟨r, hr, rfl⟩)

/-- Only the row of the key changes. -/
theorem update_append {l₁ l₂ : Table} {r : Row} (hk : Keyed (l₁ ++ r :: l₂)) (f : Row → Row) :
    Table.update (l₁ ++ r :: l₂) r.id f = l₁ ++ f r :: l₂ := by
  unfold Keyed at hk
  rw [List.map_append, List.map_cons, List.nodup_append] at hk
  obtain ⟨-, hr, hapart⟩ := hk
  have h₁ : r.id ∉ l₁.map (·.id) := fun hm => hapart _ hm _ List.mem_cons_self rfl
  have h₂ : r.id ∉ l₂.map (·.id) := (List.nodup_cons.mp hr).1
  have heq₁ := @update_of_notMem l₁ r.id f h₁
  have heq₂ := @update_of_notMem l₂ r.id f h₂
  unfold update at heq₁ heq₂ ⊢
  rw [List.map_append, List.map_cons, heq₁, heq₂, if_pos rfl]

/-- A free row gets a page. -/
theorem countFree_fill (hk : rows.Keyed) (hhas : rows.Has id .free) {f : Row → Row}
    (hf : ∀ r, (f r).type = .read) : (rows.update id f).countFree + 1 = rows.countFree := by
  obtain ⟨r, hr, rfl, htype⟩ := hhas
  obtain ⟨l₁, l₂, rfl⟩ := List.append_of_mem hr
  rw [update_append hk]
  unfold countFree
  rw [List.countP_append, List.countP_append, List.countP_cons, List.countP_cons, hf, htype]
  simp only [reduceCtorEq, decide_false, decide_true, Bool.false_eq_true, if_false, if_true]
  omega

/-- A row loses its page. -/
theorem countFree_clear (hk : rows.Keyed) (hhas : rows.Has id .read) {f : Row → Row}
    (hf : ∀ r, (f r).type = .free) : (rows.update id f).countFree = rows.countFree + 1 := by
  obtain ⟨r, hr, rfl, htype⟩ := hhas
  obtain ⟨l₁, l₂, rfl⟩ := List.append_of_mem hr
  rw [update_append hk]
  unfold countFree
  rw [List.countP_append, List.countP_append, List.countP_cons, List.countP_cons, hf, htype]
  simp only [reduceCtorEq, decide_false, decide_true, Bool.false_eq_true, if_false, if_true]
  omega

/-- A row that has no page is marked as free once more. -/
theorem countFree_again {f : Row → Row} (hf : ∀ r, (f r).type = .free)
    (hnot : ∀ r ∈ rows, r.id = id → r.type = .free) :
    (rows.update id f).countFree = rows.countFree := by
  unfold update countFree
  rw [List.countP_map]
  refine List.countP_congr ?_
  intro r hr
  simp only [Function.comp, decide_eq_true_eq]
  by_cases hid : r.id = id
  · rw [if_pos hid, hf, hnot r hr hid]
  · rw [if_neg hid]

/-- As many free rows as there are keys for them. -/
theorem countFree_le (hk : rows.Keyed) : rows.countFree ≤ rows.maxId + 1 := by
  have hsub : rows.map (·.id) ⊆ List.range (rows.maxId + 1) := by
    intro i hi
    obtain ⟨r, hr, rfl⟩ := List.mem_map.mp hi
    exact List.mem_range.mpr (Nat.lt_succ_of_le (le_maxId hr))
  calc rows.countFree ≤ rows.length := List.countP_le_length
    _ = (rows.map (·.id)).length := (List.length_map _).symm
    _ ≤ (List.range (rows.maxId + 1)).length := (List.subperm_of_subset hk hsub).length_le
    _ = rows.maxId + 1 := List.length_range

theorem keyed_insertFree (hk : rows.Keyed) : rows.insertFree.Keyed := by
  unfold Keyed insertFree
  rw [List.map_append, List.nodup_append]
  refine ⟨hk, List.nodup_singleton _, ?_⟩
  intro i hi j hj
  obtain ⟨r, hr, rfl⟩ := List.mem_map.mp hi
  rw [List.map_singleton, List.mem_singleton] at hj
  subst hj
  exact Nat.ne_of_lt (Nat.lt_succ_of_le (le_maxId hr))

theorem countFree_insertFree : rows.insertFree.countFree = rows.countFree + 1 := by
  unfold insertFree countFree
  rw [List.countP_append, List.countP_singleton]
  rfl

theorem maxId_insertFree : rows.insertFree.maxId = rows.maxId + 1 := by
  have hfold : ∀ (l : List Nat) (n : Nat), (l ++ [n]).foldr max 0 = max (l.foldr max 0) n := by
    intro l n
    induction l with
    | nil => exact Nat.max_comm n 0
    | cons m l ih =>
      rw [List.cons_append, List.foldr_cons, ih, List.foldr_cons]
      exact (Nat.max_assoc _ _ _).symm
  unfold insertFree maxId
  rw [List.map_append, List.map_singleton, hfold]
  exact Nat.max_eq_right (Nat.le_succ _)

theorem keyed_deleteAbove (hk : rows.Keyed) (v : Nat) : (rows.deleteAbove v).Keyed :=
  hk.sublist (List.Sublist.map _ List.filter_sublist)

/-- A statement that neither makes nor frees a row, nor gives one a page. -/
theorem countFree_map {f : Row → Row} (hf : ∀ r ∈ rows, (f r).type = r.type) :
    Table.countFree (rows.map f) = rows.countFree := by
  unfold countFree
  rw [List.countP_map]
  refine List.countP_congr ?_
  intro r hr
  simp only [Function.comp, hf r hr]

theorem switchPageid_fields {hash oldhash pageid lastuse : Nat} :
    (rows.switchPageid hash oldhash pageid lastuse).map (·.id) = rows.map (·.id) ∧
      (rows.switchPageid hash oldhash pageid lastuse).countFree = rows.countFree ∧
      ∀ id, rows.Has id .free → (rows.switchPageid hash oldhash pageid lastuse).Has id .free := by
  unfold switchPageid
  refine ⟨?_, countFree_map ?_, ?_⟩
  · rw [List.map_map]
    refine List.map_congr_left ?_
    intro r _
    simp only [Function.comp]
    split <;> rfl
  · intro r _
    split <;> rfl
  · rintro id ⟨r, hr, hid, ht⟩
    refine ⟨_, List.mem_map.mpr ⟨r, hr, rfl⟩, ?_, ?_⟩
    · split <;> exact hid
    · split <;> exact ht

/-- A row that becomes free takes no other from the free ones. -/
theorem Has.frees {id id' : Nat} (h : rows.Has id' .free) {f : Row → Row}
    (hid : ∀ r, (f r).id = r.id) (htype : ∀ r, (f r).type = .free) :
    (rows.update id f).Has id' .free := by
  obtain ⟨r, hr, hrid, ht⟩ := h
  refine ⟨_, List.mem_map.mpr ⟨r, hr, rfl⟩, ?_, ?_⟩
  · split
    · exact (hid r).trans hrid
    · exact hrid
  · split
    · exact htype r
    · exact ht

/-- No free row is behind `v`. -/
def Spares (rows : Table) (v : Nat) : Prop := (rows.deleteAbove v).countFree = rows.countFree

end Table

/-! ## Where the pages are -/

/-- Every page has one place: the free list, the hash, or the pages in hands.  The counters are the
lengths, and `cache_pages_in_hash` is `extra` too large. -/
structure Shelves (c : Cache) (hands : List Nat) (extra : Nat) : Prop where
  places : (c.freePages ++ c.hashed ++ hands).Perm (List.range' 0 CACHE_PAGES)
  free : c.cachePagesFree = c.freePages.length
  hash : c.cachePagesInHash = c.hashed.length + extra

namespace Shelves

variable {c c' : Cache} {hands : List Nat} {p extra : Nat}

/-- The shelves depend on two lists and two counters. -/
theorem same (h : Shelves c hands extra) (hf : c'.freePages = c.freePages)
    (hh : c'.hashed = c.hashed) (hcf : c'.cachePagesFree = c.cachePagesFree)
    (hch : c'.cachePagesInHash = c.cachePagesInHash) : Shelves c' hands extra := by
  constructor
  · rw [hf, hh]
    exact h.places
  · rw [hf, hcf]
    exact h.free
  · rw [hh, hch]
    exact h.hash

theorem of_memory (h : Shelves c hands extra) (hm : c'.memory = c.memory) :
    Shelves c' hands extra :=
  h.same (congrArg Cache.Memory.freePages hm) (congrArg Cache.Memory.hashed hm)
    (congrArg Cache.Memory.cachePagesFree hm) (congrArg Cache.Memory.cachePagesInHash hm)

theorem nodup (h : Shelves c hands extra) : (c.freePages ++ c.hashed ++ hands).Nodup :=
  h.places.nodup_iff.mpr List.nodup_range'

theorem total (h : Shelves c hands extra) :
    c.freePages.length + c.hashed.length + hands.length = CACHE_PAGES := by
  have hlen := h.places.length_eq
  rw [List.length_append, List.length_append, List.length_range'] at hlen
  exact hlen

theorem nodup_hashed (h : Shelves c hands extra) : c.hashed.Nodup :=
  (List.nodup_append.mp (List.nodup_append.mp h.nodup).1).2.1

theorem notMem_free (h : Shelves c hands extra) (hp : p ∈ c.hashed) : p ∉ c.freePages :=
  fun hf => (List.nodup_append.mp (List.nodup_append.mp h.nodup).1).2.2 p hf p hp rfl

theorem notMem_hashed (h : Shelves c hands extra) (hp : p ∈ hands) : p ∉ c.hashed :=
  fun hh => (List.nodup_append.mp h.nodup).2.2 p (List.mem_append_right _ hh) p hp rfl

/-- The numbers are far below what a counter holds. -/
theorem small (h : Shelves c hands extra) : c.freePages.length + c.hashed.length < 2 ^ 31 := by
  have ht := h.total
  have hpages : CACHE_PAGES = 16384 := by decide
  omega

theorem perm_hands (h : Shelves c hands extra) {hands' : List Nat} (hp : hands'.Perm hands) :
    Shelves c hands' extra :=
  ⟨(List.Perm.append_left _ hp).trans h.places, h.free, h.hash⟩

/-- The head of the free list is taken. -/
theorem take (h : Shelves c hands extra) {rest : List Nat} (hfree : c.freePages = p :: rest) :
    Shelves (c.takeFree rest) (p :: hands) extra := by
  refine ⟨?_, ?_, h.hash⟩
  · refine List.Perm.trans ?_ h.places
    rw [hfree]
    exact List.perm_middle
  · show sub32 c.cachePagesFree 1 = rest.length
    rw [h.free, hfree, sub32_eq (by simp)]
    simp

/-- A page in hands goes to the free list. -/
theorem giveBack (h : Shelves c (p :: hands) extra) : Shelves (c.returnFreePage p) hands extra := by
  refine ⟨?_, ?_, h.hash⟩
  · refine List.Perm.trans ?_ h.places
    exact List.perm_middle.symm
  · show add32 c.cachePagesFree 1 = (p :: c.freePages).length
    have := h.small
    rw [h.free, add32_eq (by omega)]
    rfl

theorem perm_addTail (desc : Nat → Desc) (hashed : List Nat) (p : Nat) :
    (Cache.addTail desc hashed p).Perm (p :: hashed) := by
  unfold Cache.addTail
  refine List.perm_middle.trans (List.Perm.cons _ ?_)
  simp only [decide_not]
  exact List.filter_append_perm _ hashed

/-- A page in hands goes to the hash. -/
theorem insertHash (h : Shelves c (p :: hands) 0) (d : Desc) :
    Shelves (c.insertHash p d) hands 0 := by
  have hperm := perm_addTail (Function.update c.desc p d) c.hashed p
  refine ⟨?_, h.free, ?_⟩
  · refine List.Perm.trans ?_ h.places
    refine ((List.Perm.append_left _ hperm).append_right _).trans ?_
    rw [List.append_assoc, List.append_assoc]
    exact List.Perm.append_left _ List.perm_middle.symm
  · show add32 c.cachePagesInHash 1 = (Cache.addTail _ _ _).length + 0
    have := h.small
    rw [h.hash, add32_eq (by omega), hperm.length_eq]
    rfl

/-- A page of the hash goes to the free list; `cache_pages_in_hash` is not counted down yet. -/
theorem recycle (h : Shelves c hands extra) (hp : p ∈ c.hashed) :
    Shelves ((c.listDel p).returnFreePage p) hands (extra + 1) := by
  have hfree : c.freePages.erase p = c.freePages := List.erase_of_not_mem (h.notMem_free hp)
  have hlen := List.length_erase_of_mem hp
  have hpos : 0 < c.hashed.length := List.length_pos_of_mem hp
  refine ⟨?_, ?_, ?_⟩
  · refine List.Perm.trans ?_ h.places
    show (p :: c.freePages.erase p ++ c.hashed.erase p ++ hands).Perm _
    rw [hfree]
    refine List.Perm.append_right _ ?_
    exact List.perm_middle.symm.trans (List.Perm.append_left _ (List.perm_cons_erase hp).symm)
  · show add32 c.cachePagesFree 1 = (p :: c.freePages.erase p).length
    have := h.small
    rw [hfree, h.free, add32_eq (by omega)]
    rfl
  · show c.cachePagesInHash = (c.hashed.erase p).length + (extra + 1)
    rw [h.hash, hlen]
    omega

/-- `cache_pages_in_hash` is counted down. -/
theorem countDown {n : Nat} (h : Shelves c hands (extra + n)) :
    Shelves { c with cachePagesInHash := sub32 c.cachePagesInHash n } hands extra := by
  refine ⟨h.places, h.free, ?_⟩
  show sub32 c.cachePagesInHash n = c.hashed.length + extra
  rw [h.hash, sub32_eq (by omega)]
  omega

theorem dropPage (h : Shelves c hands extra) (hp : p ∈ c.hashed) :
    Shelves (c.dropPage p) hands extra :=
  (h.recycle hp).countDown

theorem switchPage (h : Shelves c hands extra) (hp : p ∈ c.hashed) (newhash : Nat) :
    Shelves (c.switchPage p newhash) hands extra := by
  have hperm := (perm_addTail (Function.update c.desc p { c.desc p with hash := newhash })
    (c.hashed.erase p) p).trans (List.perm_cons_erase hp).symm
  refine ⟨?_, h.free, ?_⟩
  · exact ((List.Perm.append_left _ hperm).append_right _).trans h.places
  · show c.cachePagesInHash = (Cache.addTail _ _ _).length + extra
    rw [hperm.length_eq]
    exact h.hash

/-- The pages of type `PAGE_TYPE_CACHE` go to the free list. -/
theorem freeCachePages (h : Shelves c hands extra) :
    Shelves c.freeCachePages hands (extra + (c.ofType .cache).length) := by
  have hperm : ((c.ofType .cache) ++ c.hashed.filter fun p => (c.desc p).type ≠ .cache).Perm
      c.hashed := by
    unfold Cache.ofType
    simp only [ne_eq, decide_not]
    exact List.filter_append_perm _ c.hashed
  have hlen := hperm.length_eq
  rw [List.length_append] at hlen
  have hsmall := h.small
  refine ⟨?_, ?_, ?_⟩
  · refine List.Perm.trans ?_ h.places
    refine List.Perm.append_right _ ?_
    show ((c.ofType .cache).reverse ++ c.freePages ++ _).Perm _
    calc ((c.ofType .cache).reverse ++ c.freePages ++
          c.hashed.filter fun p => (c.desc p).type ≠ .cache).Perm
          (c.freePages ++ (c.ofType .cache).reverse ++
            c.hashed.filter fun p => (c.desc p).type ≠ .cache) :=
        List.Perm.append_right _ List.perm_append_comm
      _ = c.freePages ++ ((c.ofType .cache).reverse ++
            c.hashed.filter fun p => (c.desc p).type ≠ .cache) := List.append_assoc _ _ _
      List.Perm _ (c.freePages ++ c.hashed) :=
        List.Perm.append_left _ ((List.Perm.append_right _ (List.reverse_perm _)).trans hperm)
  · show add32 c.cachePagesFree (c.ofType .cache).length
      = ((c.ofType .cache).reverse ++ c.freePages).length
    rw [h.free, add32_eq (by omega), List.length_append, List.length_reverse]
    omega
  · show c.cachePagesInHash
      = (c.hashed.filter fun p => (c.desc p).type ≠ .cache).length + (extra + _)
    rw [h.hash]
    omega

theorem discardCachePages (h : Shelves c hands extra) :
    Shelves c.discardCachePages hands extra :=
  h.freeCachePages.countDown

/-- Every page of the hash has one of the two types of pages in memory. -/
theorem collect (h : Shelves c hands 0) (htype : ∀ p ∈ c.hashed, (c.desc p).type ≠ .free) :
    Shelves c.collect.1 hands 0 := by
  unfold Cache.collect
  split
  · exact h
  · have hf := h.freeCachePages
    refine ⟨hf.places, hf.free, ?_⟩
    have heq : c.ofType .read = c.hashed.filter fun p => (c.desc p).type ≠ .cache := by
      unfold Cache.ofType
      refine List.filter_congr ?_
      intro p hp
      have := htype p hp
      cases hd : (c.desc p).type <;> simp_all
    have hle : (c.ofType .read).length ≤ c.hashed.length := List.length_filter_le _ _
    have := h.small
    show (c.ofType .read).length % 2 ^ 32
      = (c.hashed.filter fun p => (c.desc p).type ≠ .cache).length + 0
    rw [Nat.mod_eq_of_lt (by omega), heq]
    rfl

/-- Pages of the hash are discarded one by one. -/
theorem discard {l : List Nat} (h : Shelves c hands extra) (hl : l.Nodup)
    (hin : ∀ q ∈ l, q ∈ c.hashed) : Shelves (l.foldl Cache.discardPage c) hands extra := by
  induction l generalizing c with
  | nil => exact h
  | cons p l ih =>
    obtain ⟨hp, hl⟩ := List.nodup_cons.mp hl
    refine ih (h.dropPage (hin p List.mem_cons_self)) hl ?_
    intro q hq
    have hqp : q ≠ p := fun he => hp (he ▸ hq)
    exact (List.mem_erase_of_ne hqp).mpr (hin q (List.mem_cons_of_mem _ hq))

end Shelves

/-! ## Flushing -/

/-- The pages on `pages_to_flush` are in the hash. -/
structure Queued (c : Cache) (pages : List Nat) : Prop where
  nodup : pages.Nodup
  mem : ∀ p ∈ pages, p ∈ c.hashed ∧ (c.desc p).type = .read

/-- Each page has a free row of its own. -/
structure Rowed (c : Cache) (pages : List Nat) : Prop where
  nodup : (pages.map c.flushpageid).Nodup
  free : ∀ p ∈ pages, c.rows.Has (c.flushpageid p) .free

/-- What the index of the table is over. -/
def Desc.key (d : Desc) : Nat × Nat := (d.hash, d.pageid)

/-- No two of the pages are the same page of a file, and the table has none of them. -/
structure Fresh (c : Cache) (pages : List Nat) : Prop where
  nodup : (pages.map fun p => (c.desc p).key).Nodup
  free : ∀ p ∈ pages, ∀ r ∈ c.rows, r.key ≠ some (c.desc p).key

/-- The books, in the middle of a flush that has `pages` left and has not counted `extra` pages
down. -/
structure Batch (c : Cache) (hands : List Nat) (extra : Nat) (pages : List Nat) : Prop where
  shelves : Shelves c hands extra
  types : ∀ p ∈ c.hashed, (c.desc p).type ≠ .free
  keyed : c.rows.Keyed
  booked : c.freeDbPages = c.rows.countFree
  queued : Queued c pages
  rowed : Rowed c pages
  fresh : Fresh c pages

namespace Table

variable {rows : Table} {id id' : Nat}

theorem Has.update {type : PageType} (h : rows.Has id' type) (hne : id' ≠ id) (f : Row → Row) :
    (rows.update id f).Has id' type := by
  obtain ⟨r, hr, rfl, ht⟩ := h
  refine ⟨r, List.mem_map.mpr ⟨r, hr, if_neg hne⟩, rfl, ht⟩

theorem keyed_update (hk : rows.Keyed) {f : Row → Row} (hf : ∀ r, r.id = id → (f r).id = id) :
    (rows.update id f).Keyed := by
  unfold Keyed
  rw [map_id_update hf]
  exact hk

theorem taken_eq_false {key : Nat × Nat} (h : ∀ r ∈ rows, r.key ≠ some key) :
    rows.taken id key = false := by
  unfold taken
  refine List.any_eq_false.mpr ?_
  intro r hr
  simp [h r hr]

end Table

section

variable {c : Cache} {hands pages : List Nat} {extra p : Nat} {sql : Cache.Statements}

/-- The cache behind the flush of a page whose row is changed. -/
def Cache.flushed (c : Cache) (p : Nat) : Cache :=
  { (c.listDel p).returnFreePage p with
    rows := c.rows.update (c.flushpageid p) fun _ => (c.desc p).row (c.flushpageid p)
    freeDbPages := sub32 c.freeDbPages 1 }

theorem flushPage_eq (hsql : sql.update p = none) (hhas : c.rows.Has (c.flushpageid p) .free)
    (hfresh : ∀ r ∈ c.rows, r.key ≠ some (c.desc p).key) :
    c.flushPage sql p = (c.flushed p, true) := by
  have hany : c.rows.any (·.id = c.flushpageid p) = true := by
    obtain ⟨r, hr, hid, -⟩ := hhas
    exact List.any_eq_true.mpr ⟨r, hr, by simpa using hid⟩
  have hrun : (c.listDel p).runUpdate sql p = ({ c.listDel p with
      rows := c.rows.update (c.flushpageid p) fun _ => (c.desc p).row (c.flushpageid p) },
      true) := by
    unfold Cache.runUpdate
    rw [hsql]
    exact if_pos ⟨hany, Table.taken_eq_false hfresh⟩
  unfold Cache.flushPage
  rw [hrun]
  rfl

theorem Batch.flushed (h : Batch c hands extra (p :: pages)) :
    Batch (c.flushed p) hands (extra + 1) pages := by
  obtain ⟨hp, hnodup⟩ := List.nodup_cons.mp h.queued.nodup
  obtain ⟨hid, hids⟩ := List.nodup_cons.mp h.rowed.nodup
  obtain ⟨hkey, hkeys⟩ := List.nodup_cons.mp h.fresh.nodup
  have hhas := h.rowed.free p List.mem_cons_self
  have hin := (h.queued.mem p List.mem_cons_self).1
  have hne : ∀ q ∈ pages, q ≠ p := fun q hq he => hp (he ▸ hq)
  have hcount : (c.rows.update (c.flushpageid p)
      fun _ => (c.desc p).row (c.flushpageid p)).countFree + 1 = c.rows.countFree :=
    Table.countFree_fill h.keyed hhas fun _ => rfl
  have hrec := h.shelves.recycle hin
  refine ⟨hrec.same rfl rfl rfl rfl, ?_, ?_, ?_, ⟨hnodup, ?_⟩, ⟨hids, ?_⟩, ⟨hkeys, ?_⟩⟩
  · exact fun q hq => h.types q (List.mem_of_mem_erase hq)
  · exact Table.keyed_update h.keyed fun _ _ => rfl
  · show sub32 c.freeDbPages 1 = _
    rw [h.booked, sub32_eq (by omega)]
    exact (Nat.eq_sub_of_add_eq hcount).symm
  · intro q hq
    obtain ⟨hmem, htype⟩ := h.queued.mem q (List.mem_cons_of_mem _ hq)
    exact ⟨(List.mem_erase_of_ne (hne q hq)).mpr hmem, htype⟩
  · intro q hq
    refine (h.rowed.free q (List.mem_cons_of_mem _ hq)).update ?_ _
    intro he
    exact hid (List.mem_map.mpr ⟨q, hq, he⟩)
  · intro q hq r hr
    obtain ⟨s, hs, rfl⟩ := List.mem_map.mp hr
    split
    · intro he
      exact hkey (List.mem_map.mpr ⟨q, hq, (Option.some.inj he).symm⟩)
    · exact h.fresh.free q (List.mem_cons_of_mem _ hq) s hs

/-- All pages are flushed without a commit in between. -/
theorem Batch.updateBatch {nosleep updates pagecnt : Nat} (h : Batch c hands extra pages)
    (hsql : ∀ p ∈ pages, sql.update p = none)
    (hshort : nosleep = 1 ∨ updates + pages.length < 64) :
    ∃ c', Cache.updateBatch sql nosleep pages c updates pagecnt
        = (c', none, updates + pages.length, pagecnt + pages.length) ∧
      Batch c' hands (extra + pages.length) [] ∧ c'.transaction = c.transaction ∧
      (pages = [] → c'.rows = c.rows) := by
  induction pages generalizing c extra updates pagecnt with
  | nil => exact ⟨c, rfl, h, rfl, fun _ => rfl⟩
  | cons p ps ih =>
    have heq := flushPage_eq (hsql p List.mem_cons_self) (h.rowed.free p List.mem_cons_self)
      (h.fresh.free p List.mem_cons_self)
    have hmore : ¬(nosleep ≠ 1 ∧ (updates + 1) % 64 = 0) := by
      rintro ⟨hn, hmod⟩
      rcases hshort with hs | hs
      · exact hn hs
      · rw [List.length_cons] at hs
        omega
    have hshort' : nosleep = 1 ∨ updates + 1 + ps.length < 64 := by
      refine hshort.imp id ?_
      rw [List.length_cons]
      omega
    obtain ⟨c', hc', hb, ht, -⟩ := @ih (c.flushed p) (extra + 1) (updates + 1) (pagecnt + 1)
      h.flushed (fun q hq => hsql q (List.mem_cons_of_mem _ hq)) hshort'
    refine ⟨c', ?_, ?_, ht, fun he => nomatch he⟩
    · unfold Cache.updateBatch
      dsimp only
      rw [heq]
      simp only [Bool.toNat_true]
      rw [if_neg hmore, hc', List.length_cons]
      simp only [Prod.mk.injEq, true_and]
      omega
    · rw [List.length_cons, show extra + (ps.length + 1) = extra + 1 + ps.length by omega]
      exact hb

/-- The flush inserts free rows. -/
def Cache.insertsRows (c : Cache) (diskfull : Bool) : Bool :=
  c.dbCacheMaxPage < c.dbCacheInPages ∧ c.cachePagesInHash ≠ 0 ∧ diskfull = false

/-- How many it inserts. -/
def Cache.insertCount (c : Cache) : Nat :=
  min (min (c.dbCacheInPages - c.dbCacheMaxPage) CACHE_PAGES) c.cachePagesInHash

/-- All rows are inserted without a commit in between. -/
theorem insertBatch_eq (hsql : ∀ i, sql.insert i = true) (n : Nat) (c : Cache) (i : Nat)
    (hle : i ≤ c.insertCount) (hlt : c.insertCount < i + n) :
    Cache.insertBatch sql n c i
      = ({ c with rows := Table.insertFree^[c.insertCount - i] c.rows }, c.insertCount, false) := by
  induction n generalizing c i with
  | zero => omega
  | succ n ih =>
    unfold Cache.insertBatch
    split
    next hcond =>
      have hi : i < c.insertCount := by
        unfold Cache.insertCount
        omega
      have hrun : c.runInsert (sql.insert i) = { c with rows := c.rows.insertFree } := by
        unfold Cache.runInsert
        rw [if_pos (hsql i)]
      rw [hrun, ih { c with rows := c.rows.insertFree } (i + 1) hi
        (show c.insertCount < i + 1 + n by omega)]
      show ({ c with rows := Table.insertFree^[c.insertCount - (i + 1)] c.rows.insertFree },
        c.insertCount, false) = _
      rw [← Function.iterate_succ_apply, show (c.insertCount - (i + 1)).succ = c.insertCount - i by
        omega]
    next hcond =>
      have hi : c.insertCount = i := by
        unfold Cache.insertCount at hle ⊢
        omega
      rw [hi, Nat.sub_self]
      rfl

theorem iterate_insertFree {rows : Table} (hk : rows.Keyed) (k : Nat) :
    (Table.insertFree^[k] rows).Keyed ∧
      (Table.insertFree^[k] rows).countFree = rows.countFree + k ∧
      (Table.insertFree^[k] rows).maxId = rows.maxId + k ∧
      (∀ r ∈ rows, r ∈ Table.insertFree^[k] rows) ∧
      ∀ r ∈ Table.insertFree^[k] rows, r ∈ rows ∨ r.key = none := by
  induction k with
  | zero => exact ⟨hk, rfl, rfl, fun _ hr => hr, fun _ hr => Or.inl hr⟩
  | succ k ih =>
    obtain ⟨hkeyed, hcount, hmax, hsub, hnew⟩ := ih
    rw [Function.iterate_succ_apply']
    refine ⟨Table.keyed_insertFree hkeyed, ?_, ?_, ?_, ?_⟩
    · rw [Table.countFree_insertFree, hcount, Nat.add_assoc]
    · rw [Table.maxId_insertFree, hmax, Nat.add_assoc]
    · exact fun r hr => List.mem_append_left _ (hsub r hr)
    · intro r hr
      rcases List.mem_append.mp hr with hr | hr
      · exact hnew r hr
      · rw [List.mem_singleton.mp hr]
        exact Or.inr rfl

/-- Free rows are inserted, and counted. -/
theorem Batch.inserted (h : Batch c hands extra pages) (k dbmax : Nat)
    (hsmall : c.rows.countFree + k < 2 ^ 32) :
    Batch { c with
      rows := Table.insertFree^[k] c.rows
      freeDbPages := add32 c.freeDbPages k
      dbCacheMaxPage := dbmax } hands extra pages := by
  obtain ⟨hkeyed, hcount, -, hsub, hnew⟩ := iterate_insertFree h.keyed k
  refine ⟨h.shelves.same rfl rfl rfl rfl, h.types, hkeyed, ?_,
    ⟨h.queued.nodup, h.queued.mem⟩, ⟨h.rowed.nodup, ?_⟩, ⟨h.fresh.nodup, ?_⟩⟩
  · show add32 c.freeDbPages k = _
    rw [h.booked, add32_eq hsmall, hcount]
  · intro p hp
    obtain ⟨r, hr, hid, ht⟩ := h.rowed.free p hp
    exact ⟨r, hsub r hr, hid, ht⟩
  · intro p hp r hr
    rcases hnew r hr with hr | hr
    · exact h.fresh.free p hp r hr
    · rw [hr]
      exact fun he => nomatch he

/-- What a flush needs to keep the books: no statement fails, its pages are not in the table, and
there are too few rows and pages for a commit in between. -/
structure Fillable (c : Cache) (nosleep : Nat) (diskfull : Bool) (pages : List Nat)
    (sql : Cache.Statements) : Prop where
  inserts : ∀ i, sql.insert i = true
  updates : ∀ p ∈ pages, sql.update p = none
  few : c.insertsRows diskfull = true → c.insertCount < 64
  short : nosleep = 1 ∨ (c.insertsRows diskfull).toNat + pages.length < 64
  fresh : Fresh c pages

theorem Batch.ended (h : Batch c hands pages.length []) :
    Batch (c.endFlush pages.length) hands 0 [] := by
  have hs : Shelves c hands (0 + pages.length) := by
    rw [Nat.zero_add]
    exact h.shelves
  have hdown := hs.countDown
  exact ⟨hdown.same rfl rfl rfl rfl, h.types, h.keyed, h.booked,
    ⟨h.queued.nodup, h.queued.mem⟩, ⟨h.rowed.nodup, h.rowed.free⟩, ⟨h.fresh.nodup, h.fresh.free⟩⟩

theorem Batch.fillUpdates {nosleep updates : Nat} (h : Batch c hands 0 pages)
    (hsql : ∀ p ∈ pages, sql.update p = none)
    (hshort : nosleep = 1 ∨ updates + pages.length < 64) :
    ∃ c', c.fillUpdates sql nosleep pages updates 0 = (c', .finished (updates + pages.length)) ∧
      Batch c' hands 0 [] ∧ c'.transaction = c.transaction ∧ (pages = [] → c'.rows = c.rows) := by
  obtain ⟨c', heq, hb, ht, hrows⟩ :=
    @Batch.updateBatch c hands pages 0 sql nosleep updates 0 h hsql hshort
  rw [Nat.zero_add] at hb heq
  refine ⟨c'.endFlush pages.length, ?_, hb.ended, ht, hrows⟩
  unfold Cache.fillUpdates
  rw [heq]

/-- The section of the transaction ends with the books in order, and without a change where there
was nothing to update. -/
theorem Batch.fill {nosleep : Nat} {diskfull : Bool} (h : Batch c hands 0 pages)
    (hf : Fillable c nosleep diskfull pages sql) (hmax : c.rows.maxId + 64 < 2 ^ 32) :
    ∃ c' updates, c.fill sql nosleep diskfull (.insert pages 0) = (c', .finished updates) ∧
      Batch c' hands 0 [] ∧ c'.transaction = c.transaction ∧ (updates = 0 → c'.rows = c.rows) := by
  have hcount := Table.countFree_le h.keyed
  cases hins : c.insertsRows diskfull with
  | false =>
    have hcond : ¬(c.dbCacheMaxPage < c.dbCacheInPages ∧ c.cachePagesInHash ≠ 0 ∧
        diskfull = false) := by
      simpa [Cache.insertsRows] using hins
    have hshort : nosleep = 1 ∨ 0 + pages.length < 64 := by
      have := hf.short
      rw [hins] at this
      exact this
    obtain ⟨c', heq, hb, ht, hrows⟩ := h.fillUpdates hf.updates hshort
    refine ⟨c', 0 + pages.length, ?_, hb, ht, ?_⟩
    · unfold Cache.fill
      dsimp only
      rw [if_pos ⟨rfl, hcond⟩]
      exact heq
    · intro hz
      exact hrows (List.length_eq_zero_iff.mp (by omega))
  | true =>
    have hcond : c.dbCacheMaxPage < c.dbCacheInPages ∧ c.cachePagesInHash ≠ 0 ∧
        diskfull = false := by
      simpa [Cache.insertsRows] using hins
    have hfew := hf.few hins
    have hshort : nosleep = 1 ∨ 1 + pages.length < 64 := by
      have := hf.short
      rw [hins] at this
      exact this
    have hbatch := insertBatch_eq hf.inserts 64 c 0 (Nat.zero_le _) (by omega)
    rw [Nat.sub_zero] at hbatch
    obtain ⟨c', heq, hb, ht, -⟩ := (h.inserted c.insertCount (c.dbCacheMaxPage + c.insertCount)
      (by omega)).fillUpdates hf.updates hshort
    refine ⟨c', 1 + pages.length, ?_, hb, ht, fun hz => by omega⟩
    unfold Cache.fill
    dsimp only
    rw [if_neg (fun hn => hn.2 hcond), show 64 - 0 % 64 = 64 from rfl, hbatch]
    exact heq

end

/-! ## Threads -/

namespace FlushPc

/-- The pages on `pages_to_flush`. -/
def listed : FlushPc → List Nat
  | discarding pages => pages
  | selecting _ pages => pages
  | writing _ pages _ => pages
  | begin _ (.insert pages _) => pages
  | begin _ (.update pages _ _) => pages
  | locked _ (.insert pages _) => pages
  | locked _ (.update pages _ _) => pages
  | commit _ (.insert pages _) => pages
  | commit _ (.update pages _ _) => pages
  | _ => []

/-- What a flush knows of its pages, and of its transaction; none commits in between. -/
def Ok (c : Cache) : FlushPc → Prop
  | discarding pages => Queued c pages
  | selecting _ pages => Queued c pages
  | writing _ pages _ => Queued c pages ∧ Rowed c pages
  | begin _ work => ∃ pages, work = .insert pages 0 ∧ Queued c pages ∧ Rowed c pages
  | locked _ work => (∃ pages, work = .insert pages 0 ∧ Queued c pages ∧ Rowed c pages) ∧
      c.transaction = some ⟨c.rows, false⟩
  | commit _ _ => False
  | ended updates =>
    ∃ t, c.transaction = some t ∧ t.failed = false ∧ (updates = 0 → t.saved = c.rows)
  | _ => True

end FlushPc

namespace Pc

def listed : Pc → List Nat
  | flush _ place => place.listed
  | _ => []

/-- No thread has a page of the cache file that is to be freed. -/
def Ok (c : Cache) : Pc → Prop
  | flush _ place => place.Ok c
  | evictRead _ _ => False
  | evictAdd _ _ _ => False
  | evictDrop _ => False
  | _ => True

theorem ok_of_unlocked {x : Pc} (h : x.locks = false) (c : Cache) : x.Ok c := by
  cases x with
  | flush caller place => cases place <;> trivial
  | evictRead => cases h
  | evictAdd => cases h
  | evictDrop => cases h
  | _ => trivial

theorem ok_wake {x : Pc} {c : Cache} (h : x.Ok c) : x.wake.Ok c := by
  cases x <;> exact h

theorem ok_back (caller : Caller) (c : Cache) : caller.back.Ok c := by
  cases caller <;> trivial

end Pc

/-- The step of another thread leaves what a flush relies on. -/
structure Frame (c c' : Cache) : Prop where
  flushpageid : c'.flushpageid = c.flushpageid
  free : ∀ id, c.rows.Has id .free → c'.rows.Has id .free
  transaction : c.transaction ≠ none → c'.transaction = c.transaction ∧ c'.rows = c.rows

/-- The pages stay in the hash. -/
def Keeps (c c' : Cache) (pages : List Nat) : Prop :=
  ∀ p ∈ pages, p ∈ c.hashed → (c.desc p).type = .read → p ∈ c'.hashed ∧ (c'.desc p).type = .read

section

variable {c c' : Cache} {pages : List Nat}

theorem Queued.mono (h : Queued c pages) (hk : Keeps c c' pages) : Queued c' pages :=
  ⟨h.nodup, fun p hp => hk p hp (h.mem p hp).1 (h.mem p hp).2⟩

theorem Rowed.mono (h : Rowed c pages) (hf : Frame c c') : Rowed c' pages := by
  refine ⟨?_, ?_⟩
  · rw [hf.flushpageid]
    exact h.nodup
  · intro p hp
    rw [hf.flushpageid]
    exact hf.free _ (h.free p hp)

theorem FlushPc.Ok.mono {place : FlushPc} (h : place.Ok c) (hf : Frame c c')
    (hk : Keeps c c' place.listed) : place.Ok c' := by
  cases place with
  | discarding pages => exact Queued.mono h hk
  | selecting diskfull pages => exact Queued.mono h hk
  | writing diskfull pages todo => exact ⟨h.1.mono hk, h.2.mono hf⟩
  | begin diskfull work =>
    obtain ⟨pages, rfl, hq, hr⟩ := h
    exact ⟨pages, rfl, hq.mono hk, hr.mono hf⟩
  | locked diskfull work =>
    obtain ⟨⟨pages, rfl, hq, hr⟩, ht⟩ := h
    obtain ⟨ht', hrows⟩ := hf.transaction (by rw [ht]; exact fun hn => nomatch hn)
    refine ⟨⟨pages, rfl, hq.mono hk, hr.mono hf⟩, ?_⟩
    rw [ht', hrows]
    exact ht
  | commit diskfull work => exact h.elim
  | ended updates =>
    obtain ⟨t, ht, hfailed, hsaved⟩ := h
    obtain ⟨ht', hrows⟩ := hf.transaction (by rw [ht]; exact fun hn => nomatch hn)
    refine ⟨t, ht'.trans ht, hfailed, ?_⟩
    rw [hrows]
    exact hsaved
  | _ => trivial

theorem Pc.Ok.mono {x : Pc} (h : x.Ok c) (hf : Frame c c') (hk : Keeps c c' x.listed) :
    x.Ok c' := by
  cases x with
  | flush caller place => exact FlushPc.Ok.mono h hf hk
  | _ => exact h

end

variable {ι : Type}

/-- The books are kept. -/
structure Books (st : State ι) : Prop where
  owned : Owned st
  shelves : Shelves st.cache (st.hands.map Prod.snd) 0
  types : ∀ p ∈ st.cache.hashed, (st.cache.desc p).type ≠ .free
  keyed : st.cache.rows.Keyed
  booked : st.cache.freeDbPages = st.cache.rows.countFree
  pcs : ∀ t, (st.pc t).Ok st.cache

/-- What a run must stay clear of for the books to be kept. -/
def Event.Accounts (st : State ι) (e : Event ι) : Prop :=
  st.cache.rows.maxId + 64 < 2 ^ 32 ∧
  match e with
  | .corrupt p => ∀ t, p ∉ (st.pc t).listed
  | .check _ k => ∀ maxpage, (st.cache.readMaxPage k).diskMaxPage k = some maxpage →
      k.deleteOk = true → st.cache.rows.Spares maxpage
  | .store t => ∀ caller maxpage n, st.pc t = .flush caller (.counted maxpage n) →
      n = st.cache.rows.countFree
  | .fill t sql => ∀ caller diskfull pages,
      st.pc t = .flush caller (.locked diskfull (.insert pages 0)) →
      Fillable st.cache caller.nosleep diskfull pages sql
  | .finish t ok => ∀ caller updates, st.pc t = .flush caller (.ended updates) → updates ≠ 0 →
      ok = true
  | .cleanRow t ok => ok = true ∧ ∀ id ids, st.pc t = .clean (id :: ids) →
      st.cache.rows.Has id .read
  | .markPageFree id => ∀ r ∈ st.cache.rows, r.id = id → r.type = .free
  | .resize fscachesize => fscachesize / PSYNC_FS_PAGE_SIZE < st.cache.rows.maxId →
      st.cache.rows.Spares (fscachesize / PSYNC_FS_PAGE_SIZE)
  | .evict _ => st.cache.fileSize / PSYNC_FS_PAGE_SIZE - 1 < st.cache.dbCacheMaxPage →
      st.cache.rows.Spares (st.cache.fileSize / PSYNC_FS_PAGE_SIZE - 1)
  | .evictTake _ => st.cache.freePages = []
  | _ => True

section

variable {st st' : State ι}

theorem Books.broadcast (h : Books st) : Books st.broadcast := by
  have ho := h.owned.broadcast
  unfold State.broadcast at ho ⊢
  split
  · exact h
  next hne =>
    rw [if_neg hne] at ho
    exact ⟨ho, h.shelves, h.types, h.keyed, h.booked, fun t => Pc.ok_wake (h.pcs t)⟩

/-- A section of `cache_mutex`: the table and the rows of pages stay as they are. -/
theorem Books.memory (h : Books st) (ho : Owned st')
    (hshelves : Shelves st'.cache (st'.hands.map Prod.snd) 0)
    (htypes : ∀ p ∈ st'.cache.hashed, (st'.cache.desc p).type ≠ .free)
    (hrows : st'.cache.rows = st.cache.rows) (htr : st'.cache.transaction = st.cache.transaction)
    (hid : st'.cache.flushpageid = st.cache.flushpageid)
    (hdb : st'.cache.freeDbPages = st.cache.freeDbPages)
    (hpcs : ∀ u, st'.pc u = st.pc u ∨ (st'.pc u).Ok st'.cache)
    (hkeeps : ∀ u, Keeps st.cache st'.cache (st.pc u).listed) : Books st' := by
  have hframe : Frame st.cache st'.cache :=
    ⟨hid, fun _ hhas => by rw [hrows]; exact hhas, fun _ => ⟨htr, hrows⟩⟩
  refine ⟨ho, hshelves, htypes, ?_, ?_, ?_⟩
  · rw [hrows]
    exact h.keyed
  · rw [hdb, hrows]
    exact h.booked
  · intro u
    rcases hpcs u with he | hok
    · rw [he]
      exact (h.pcs u).mono hframe (hkeeps u)
    · exact hok

theorem keeps_of_eq {c c' : Cache} (hh : c'.hashed = c.hashed) (hd : c'.desc = c.desc)
    (pages : List Nat) : Keeps c c' pages := by
  intro p _ hmem htype
  rw [hh, hd]
  exact ⟨hmem, htype⟩

/-- A step that touches neither the hash nor the table. -/
theorem Books.quiet (h : Books st) (ho : Owned st')
    (hshelves : Shelves st'.cache (st'.hands.map Prod.snd) 0)
    (hhash : st'.cache.hashed = st.cache.hashed) (hdesc : st'.cache.desc = st.cache.desc)
    (hrows : st'.cache.rows = st.cache.rows) (htr : st'.cache.transaction = st.cache.transaction)
    (hid : st'.cache.flushpageid = st.cache.flushpageid)
    (hdb : st'.cache.freeDbPages = st.cache.freeDbPages)
    (hpcs : ∀ u, st'.pc u = st.pc u ∨ (st'.pc u).Ok st'.cache) : Books st' := by
  refine h.memory ho hshelves ?_ hrows htr hid hdb hpcs fun u => keeps_of_eq hhash hdesc _
  rw [hhash, hdesc]
  exact h.types

/-- A statement of the database, with no transaction open. -/
theorem Books.statement (h : Books st) (ho : Owned st') (hhands : st'.hands = st.hands)
    (hm : st'.cache.memory = st.cache.memory)
    (hid : st'.cache.flushpageid = st.cache.flushpageid) (htr : st.cache.transaction = none)
    (hkeyed : st'.cache.rows.Keyed) (hbooked : st'.cache.freeDbPages = st'.cache.rows.countFree)
    (hfree : ∀ id, st.cache.rows.Has id .free → st'.cache.rows.Has id .free)
    (hpcs : ∀ u, st'.pc u = st.pc u ∨ (st'.pc u).Ok st'.cache) : Books st' := by
  have hdesc : st'.cache.desc = st.cache.desc := congrArg Cache.Memory.desc hm
  have hhash : st'.cache.hashed = st.cache.hashed := congrArg Cache.Memory.hashed hm
  have hframe : Frame st.cache st'.cache := ⟨hid, hfree, fun hne => absurd htr hne⟩
  refine ⟨ho, ?_, ?_, hkeyed, hbooked, ?_⟩
  · rw [hhands]
    exact h.shelves.of_memory hm
  · rw [hhash, hdesc]
    exact h.types
  · intro u
    rcases hpcs u with he | hok
    · rw [he]
      exact (h.pcs u).mono hframe (keeps_of_eq hhash hdesc _)
    · exact hok

variable [DecidableEq ι] {t : ι} {y : Pc}

theorem update_or_ok {pc : ι → Pc} {c : Cache} (hy : y.Ok c) (u : ι) :
    Function.update pc t y u = pc u ∨ (Function.update pc t y u).Ok c := by
  rcases eq_or_ne u t with rfl | hut
  · rw [Function.update_self]
    exact Or.inr hy
  · exact Or.inl (Function.update_of_ne hut _ _)

/-- No other thread has the mutex: this one does what it may with the pages and the rows. -/
theorem Books.alone (hothers : ∀ u ≠ t, (st.pc u).locks = false) (ho : Owned st')
    (hpc : st'.pc = Function.update st.pc t y)
    (hshelves : Shelves st'.cache (st'.hands.map Prod.snd) 0)
    (htypes : ∀ p ∈ st'.cache.hashed, (st'.cache.desc p).type ≠ .free)
    (hkeyed : st'.cache.rows.Keyed) (hbooked : st'.cache.freeDbPages = st'.cache.rows.countFree)
    (hy : y.Ok st'.cache) : Books st' := by
  refine ⟨ho, hshelves, htypes, hkeyed, hbooked, ?_⟩
  intro u
  rw [hpc]
  rcases eq_or_ne u t with rfl | hut
  · rw [Function.update_self]
    exact hy
  · rw [Function.update_of_ne hut]
    exact Pc.ok_of_unlocked (hothers u hut) _

end

end PcloudClient.Ppagecache
