/-
  Ppagecache/AccountingRuns.lean --- the books of the page cache over whole runs.
-/
import Mathlib.Logic.Relation
import PcloudClient.Ppagecache.Accounting

set_option autoImplicit false

namespace PcloudClient.Ppagecache

open PcloudClient.Pfs (PSYNC_FS_PAGE_SIZE)

variable {ι : Type} [DecidableEq ι] {st st' : State ι} {t : ι}

/-! ## Pages in memory -/

theorem Books.takes (h : Books st) {runthread : Bool} {p : Nat} {rest : List Nat}
    (hfree : st.cache.freePages = p :: rest)
    (ho : Owned (st.takes t runthread p rest)) : Books (st.takes t runthread p rest) :=
  h.quiet ho (h.shelves.take hfree) rfl rfl rfl rfl rfl rfl (update_or_ok trivial)

theorem Books.obtain (h : Books st) (ht : (st.pc t).locks = false) (runthread : Bool) :
    Books (st.obtain t runthread) := by
  have ho := h.owned.obtain ht runthread
  unfold State.obtain at ho ⊢
  split
  next hfree =>
    rw [hfree] at ho
    exact h.takes hfree ho
  next hfree =>
    rw [hfree] at ho
    dsimp only at ho
    split
    next hne =>
      rw [if_pos hne] at ho
      exact h.quiet ho (h.shelves.same rfl rfl rfl rfl) rfl rfl rfl rfl rfl rfl
        (update_or_ok trivial)
    next hne =>
      rw [if_neg hne] at ho
      exact h.quiet ho (h.shelves.same rfl rfl rfl rfl) rfl rfl rfl rfl rfl rfl
        (update_or_ok trivial)

theorem Books.reobtain (h : Books st) (ht : (st.pc t).locks = false) (runthread : Bool) :
    Books (st.reobtain t runthread) := by
  have ho := h.owned.reobtain ht runthread
  unfold State.reobtain at ho ⊢
  split
  next hfree =>
    rw [hfree] at ho
    exact h.takes hfree ho
  next hfree =>
    rw [hfree] at ho
    exact h.quiet ho (h.shelves.same rfl rfl rfl rfl) rfl rfl rfl rfl rfl rfl (update_or_ok trivial)

omit [DecidableEq ι] in
theorem Books.schedules (h : Books st) : Books st.schedules :=
  h.quiet h.owned (h.shelves.same rfl rfl rfl rfl) rfl rfl rfl rfl rfl rfl fun _ => Or.inl rfl

theorem Books.getFreePage (h : Books st) (ht : (st.pc t).locks = false) (inside : Bool) :
    Books (st.getFreePage t inside) := by
  have ho := h.owned.getFreePage ht inside
  unfold State.getFreePage at ho ⊢
  split
  next hw =>
    rw [if_pos hw] at ho
    split
    next hin =>
      rw [if_pos hin] at ho
      exact h.schedules.quiet ho (h.shelves.same rfl rfl rfl rfl) rfl rfl rfl rfl rfl rfl
        (update_or_ok trivial)
    next => exact h.schedules.obtain ht true
  next => exact h.obtain ht false

/-- A page in hands goes somewhere. -/
theorem Books.gives (h : Books st) {p : Nat} {c : Cache} (hp : (t, p) ∈ st.hands)
    (hshelves : ∀ hands, Shelves st.cache (p :: hands) 0 → Shelves c hands 0)
    (htypes : ∀ q ∈ c.hashed, (c.desc q).type ≠ .free)
    (hrows : c.rows = st.cache.rows) (htr : c.transaction = st.cache.transaction)
    (hid : c.flushpageid = st.cache.flushpageid) (hdb : c.freeDbPages = st.cache.freeDbPages)
    (hkeeps : ∀ q ≠ p, q ∈ st.cache.hashed → q ∈ c.hashed ∧ c.desc q = st.cache.desc q) :
    Books (st.gives t p c) := by
  have hperm : (p :: (st.hands.erase (t, p)).map Prod.snd).Perm (st.hands.map Prod.snd) :=
    ((List.perm_cons_erase hp).map Prod.snd).symm
  have hin : p ∈ st.hands.map Prod.snd := List.mem_map.mpr ⟨(t, p), hp, rfl⟩
  refine h.memory h.owned (hshelves _ (h.shelves.perm_hands hperm)) htypes hrows htr hid hdb
    (fun _ => Or.inl rfl) ?_
  intro u q _ hmem htype
  have hqp : q ≠ p := fun he => h.shelves.notMem_hashed hin (he ▸ hmem)
  obtain ⟨hmem', hdesc⟩ := hkeeps q hqp hmem
  refine ⟨hmem', ?_⟩
  show (c.desc q).type = .read
  rw [hdesc]
  exact htype

theorem mem_addTail_iff {desc : Nat → Desc} {hashed : List Nat} {p q : Nat} :
    q ∈ Cache.addTail desc hashed p ↔ q = p ∨ q ∈ hashed := by
  rw [(Shelves.perm_addTail desc hashed p).mem_iff, List.mem_cons]

theorem Books.inserts (h : Books st) {p : Nat} {d : Desc} (hp : (t, p) ∈ st.hands)
    (hd : d.type ≠ .free) : Books (st.gives t p (st.cache.insertHash p d)) := by
  refine h.gives hp (fun _ hs => hs.insertHash d) ?_ rfl rfl rfl rfl ?_
  · intro q hq
    show (Function.update st.cache.desc p d q).type ≠ .free
    rcases eq_or_ne q p with rfl | hqp
    · rw [Function.update_self]
      exact hd
    · rw [Function.update_of_ne hqp]
      exact h.types q ((mem_addTail_iff.mp hq).resolve_left hqp)
  · intro q hqp hq
    exact ⟨mem_addTail_iff.mpr (Or.inr hq), Function.update_of_ne hqp _ _⟩

theorem Books.adds (h : Books st) {p : Nat} {d : Desc} {known : Bool} (hp : (t, p) ∈ st.hands)
    (hd : d.type = .read) : Books (st.gives t p (st.cache.addPageIfNotExists p d known)) := by
  have hin : p ∈ st.hands.map Prod.snd := List.mem_map.mpr ⟨(t, p), hp, rfl⟩
  have hsame : ∀ q ∈ st.cache.hashed, Function.update st.cache.desc p d q = st.cache.desc q := by
    intro q hq
    refine Function.update_of_ne ?_ _ _
    rintro rfl
    exact h.shelves.notMem_hashed hin hq
  cases hk : (known || st.cache.hasPage d) with
  | true =>
    have heq : st.cache.addPageIfNotExists p d known
        = ({ st.cache with desc := Function.update st.cache.desc p d }).returnFreePage p := by
      unfold Cache.addPageIfNotExists
      rw [if_pos hk]
    rw [heq]
    refine h.gives hp ?_ ?_ rfl rfl rfl rfl fun q _ hq => ⟨hq, hsame q hq⟩
    · intro hands hs
      exact Shelves.giveBack (hs.same rfl rfl rfl rfl)
    · intro q hq
      show (Function.update st.cache.desc p d q).type ≠ .free
      rw [hsame q hq]
      exact h.types q hq
  | false =>
    have heq : st.cache.addPageIfNotExists p d known = st.cache.insertHash p d := by
      unfold Cache.addPageIfNotExists
      rw [hk]
      rfl
    rw [heq]
    exact h.inserts hp (by rw [hd]; decide)

theorem Books.givesBack (h : Books st) {p : Nat} (hp : (t, p) ∈ st.hands) :
    Books (st.gives t p (st.cache.returnFreePage p)) :=
  h.gives hp (fun _ hs => hs.giveBack) h.types rfl rfl rfl rfl fun _ _ hq => ⟨hq, rfl⟩

omit [DecidableEq ι] in
/-- The fields of pages change, but not their types. -/
theorem Books.redescribes (h : Books st) {c : Cache} (hs : Shelves c (st.hands.map Prod.snd) 0)
    (hmem : ∀ q, q ∈ c.hashed ↔ q ∈ st.cache.hashed)
    (htype : ∀ q, (c.desc q).type = (st.cache.desc q).type)
    (hrows : c.rows = st.cache.rows) (htr : c.transaction = st.cache.transaction)
    (hid : c.flushpageid = st.cache.flushpageid) (hdb : c.freeDbPages = st.cache.freeDbPages) :
    Books { st with cache := c } := by
  refine h.memory h.owned hs ?_ hrows htr hid hdb (fun _ => Or.inl rfl) ?_
  · intro q hq
    show (c.desc q).type ≠ .free
    rw [htype]
    exact h.types q ((hmem q).mp hq)
  · intro u q _ hq hread
    refine ⟨(hmem q).mpr hq, ?_⟩
    show (c.desc q).type = .read
    rw [htype]
    exact hread

theorem type_update {desc : Nat → Desc} {p : Nat} {d : Desc} (hd : d.type = (desc p).type)
    (q : Nat) : (Function.update desc p d q).type = (desc q).type := by
  rcases eq_or_ne q p with rfl | hqp
  · rw [Function.update_self]
    exact hd
  · rw [Function.update_of_ne hqp]

omit [DecidableEq ι] in
theorem Books.switches (h : Books st) {p : Nat} (hp : p ∈ st.cache.hashed) (newhash : Nat) :
    Books { st with cache := st.cache.switchPage p newhash } := by
  refine h.redescribes (h.shelves.switchPage hp newhash) ?_ (type_update rfl) rfl rfl rfl rfl
  intro q
  show q ∈ Cache.addTail _ (st.cache.hashed.erase p) p ↔ _
  rw [mem_addTail_iff, ← List.mem_cons, (List.perm_cons_erase hp).mem_iff]

omit [DecidableEq ι] in
/-- A page leaves the hash that no flush has on its list. -/
theorem Books.drops (h : Books st) {p : Nat} (hp : p ∈ st.cache.hashed)
    (hlisted : ∀ t, p ∉ (st.pc t).listed) : Books { st with cache := st.cache.dropPage p } := by
  refine h.memory h.owned (h.shelves.dropPage hp) ?_ rfl rfl rfl rfl (fun _ => Or.inl rfl) ?_
  · exact fun q hq => h.types q (List.mem_of_mem_erase hq)
  · intro u q hq hmem hread
    have hqp : q ≠ p := fun he => hlisted u (he ▸ hq)
    exact ⟨(List.mem_erase_of_ne hqp).mpr hmem, hread⟩

/-- A thread moves to a place that relies on nothing. -/
theorem Books.moves (h : Books st) {y : Pc} (ho : Owned st')
    (hpc : st'.pc = Function.update st.pc t y) (hhands : st'.hands = st.hands)
    (hm : st'.cache.memory = st.cache.memory) (hrows : st'.cache.rows = st.cache.rows)
    (htr : st'.cache.transaction = st.cache.transaction)
    (hid : st'.cache.flushpageid = st.cache.flushpageid)
    (hdb : st'.cache.freeDbPages = st.cache.freeDbPages) (hy : y.Ok st'.cache) : Books st' := by
  refine h.quiet ho ?_ (congrArg Cache.Memory.hashed hm) (congrArg Cache.Memory.desc hm) hrows htr
    hid hdb ?_
  · rw [hhands]
    exact h.shelves.of_memory hm
  · rw [hpc]
    exact update_or_ok hy

/-! ## Flushing -/

theorem queued_ofType {c c' : Cache} {hands : List Nat} {extra : Nat} (h : Shelves c hands extra)
    (hhash : c'.hashed = c.hashed.filter fun p => (c.desc p).type ≠ .cache)
    (hdesc : c'.desc = c.desc) : Queued c' (c.ofType .read) := by
  refine ⟨h.nodup_hashed.filter _, ?_⟩
  intro p hp
  obtain ⟨hmem, htype⟩ := List.mem_filter.mp hp
  have hread : (c.desc p).type = .read := by simpa using htype
  rw [hhash, hdesc]
  refine ⟨List.mem_filter.mpr ⟨hmem, ?_⟩, hread⟩
  rw [hread]
  rfl

/-- The pages that are collected are queued. -/
theorem queued_collect {c : Cache} {hands : List Nat} {extra : Nat} (h : Shelves c hands extra) :
    Queued c.collect.1 c.collect.2 := by
  unfold Cache.collect
  split
  · exact ⟨List.nodup_nil, fun _ hp => nomatch hp⟩
  · exact queued_ofType h rfl rfl

theorem hashed_collect {c : Cache} {p : Nat} (h : p ∈ c.collect.1.hashed) : p ∈ c.hashed := by
  unfold Cache.collect at h
  split at h
  · exact h
  · exact List.mem_of_mem_filter h

theorem desc_collect {c : Cache} : c.collect.1.desc = c.desc := by
  unfold Cache.collect
  split <;> rfl

theorem rows_collect {c : Cache} :
    c.collect.1.rows = c.rows ∧ c.collect.1.freeDbPages = c.freeDbPages := by
  unfold Cache.collect
  split <;> exact ⟨rfl, rfl⟩

theorem rowed_nil (c : Cache) : Rowed c [] := ⟨List.nodup_nil, fun _ hp => nomatch hp⟩

theorem Books.collects (hothers : ∀ u ≠ t, (st.pc u).locks = false) {caller : Caller}
    {diskfull : Bool} (ho : Owned (st.collects t caller diskfull))
    (hshelves : Shelves st.cache (st.hands.map Prod.snd) 0)
    (htypes : ∀ p ∈ st.cache.hashed, (st.cache.desc p).type ≠ .free)
    (hkeyed : st.cache.rows.Keyed) (hbooked : st.cache.freeDbPages = st.cache.rows.countFree) :
    Books (st.collects t caller diskfull) := by
  have hs := hshelves.collect htypes
  have hq := queued_collect hshelves
  have htypes' : ∀ p ∈ st.cache.collect.1.hashed, (st.cache.collect.1.desc p).type ≠ .free := by
    intro p hp
    rw [desc_collect]
    exact htypes p (hashed_collect hp)
  have hkeyed' : st.cache.collect.1.rows.Keyed := by
    rw [rows_collect.1]
    exact hkeyed
  have hbooked' : st.cache.collect.1.freeDbPages = st.cache.collect.1.rows.countFree := by
    rw [rows_collect.1, rows_collect.2]
    exact hbooked
  unfold State.collects at ho ⊢
  split
  next hnil =>
    rw [if_pos hnil] at ho
    rw [hnil] at hq
    exact Books.alone hothers ho rfl hs htypes' hkeyed' hbooked' ⟨[], rfl, hq, rowed_nil _⟩
  next hne =>
    rw [if_neg hne] at ho
    exact Books.alone hothers ho rfl hs htypes' hkeyed' hbooked' hq

/-- What a discarding pass leaves alone. -/
theorem foldl_discardPage (l : List Nat) (c : Cache) :
    (l.foldl Cache.discardPage c).hashed ⊆ c.hashed ∧ (l.foldl Cache.discardPage c).desc = c.desc ∧
      (l.foldl Cache.discardPage c).rows = c.rows ∧
      (l.foldl Cache.discardPage c).freeDbPages = c.freeDbPages := by
  induction l generalizing c with
  | nil => exact ⟨List.Subset.refl _, rfl, rfl, rfl⟩
  | cons p l ih =>
    obtain ⟨hsub, hdesc, hrows, hdb⟩ := ih (c.discardPage p)
    exact ⟨List.Subset.trans hsub List.erase_subset, hdesc, hrows, hdb⟩

omit [DecidableEq ι] in
theorem broadcast_fields (st : State ι) :
    st.broadcast.cache = st.cache ∧ st.broadcast.hands = st.hands ∧
      ∀ u, (st.broadcast.pc u).locks = (st.pc u).locks := by
  unfold State.broadcast
  split
  · exact ⟨rfl, rfl, fun _ => rfl⟩
  · exact ⟨rfl, rfl, fun u => Pc.locks_wake _⟩

theorem Books.discards (h : Books st) {caller : Caller} {pages : List Nat}
    (ht : st.pc t = .flush caller (.discarding pages))
    (ho : Owned ((st.discards pages).collects t caller true)) :
    Books ((st.discards pages).collects t caller true) := by
  have hlocks : (st.pc t).locks = true := by
    rw [ht]
    rfl
  have hq : Queued st.cache pages := by
    have := h.pcs t
    rw [ht] at this
    exact this
  let half := (pages.insertionSort st.cache.discardLe).take (CACHE_PAGES / 2)
  obtain ⟨hcache, hhands, hpc⟩ := broadcast_fields
    { st with cache := st.cache.discard (pages.insertionSort st.cache.discardLe) }
  obtain ⟨hsub, hdesc, hrows, hdb⟩ := foldl_discardPage half st.cache
  have hperm : (pages.insertionSort st.cache.discardLe).Perm pages := List.perm_insertionSort _ _
  have hnodup : half.Nodup := (hperm.nodup_iff.mpr hq.nodup).sublist (List.take_sublist _ _)
  have hin : ∀ q ∈ half, q ∈ st.cache.hashed :=
    fun q hq' => (hq.mem q (hperm.mem_iff.mp (List.mem_of_mem_take hq'))).1
  have hshelves := h.shelves.discard hnodup hin
  refine Books.collects ?_ ho ?_ ?_ ?_ ?_
  · exact fun u hut => (hpc u).trans (h.owned.others hlocks hut)
  · show Shelves (State.broadcast _).cache _ 0
    rw [hcache]
    show Shelves _ ((State.broadcast _).hands.map Prod.snd) 0
    rw [hhands]
    exact hshelves
  · show ∀ p ∈ (State.broadcast _).cache.hashed, ((State.broadcast _).cache.desc p).type ≠ .free
    rw [hcache]
    intro p hp
    show ((half.foldl Cache.discardPage st.cache).desc p).type ≠ .free
    rw [hdesc]
    exact h.types p (hsub hp)
  · show (State.broadcast _).cache.rows.Keyed
    rw [hcache]
    show (half.foldl Cache.discardPage st.cache).rows.Keyed
    rw [hrows]
    exact h.keyed
  · show (State.broadcast _).cache.freeDbPages = (State.broadcast _).cache.rows.countFree
    rw [hcache]
    show (half.foldl Cache.discardPage st.cache).freeDbPages
      = (half.foldl Cache.discardPage st.cache).rows.countFree
    rw [hdb, hrows]
    exact h.booked

/-- The pages of the hash that are to be discarded. -/
theorem Books.sorts (h : Books st) {caller : Caller} (hlocks : (st.pc t).locks = true)
    (ho : Owned (st.goto t (.flush caller (.discarding (st.cache.ofType .read)))
      st.cache.discardCachePages)) :
    Books (st.goto t (.flush caller (.discarding (st.cache.ofType .read)))
      st.cache.discardCachePages) := by
  refine Books.alone (fun u hut => h.owned.others hlocks hut) ho rfl h.shelves.discardCachePages ?_
    h.keyed h.booked (queued_ofType h.shelves rfl rfl)
  exact fun p hp => h.types p (List.mem_of_mem_filter hp)

/-! ### Rows for the pages -/

theorem foldl_update_of_notMem {l : List (Nat × Nat)} {p : Nat} (hp : p ∉ l.map Prod.fst)
    (f : Nat → Nat) :
    l.foldl (fun f pi => Function.update f pi.1 (pi.2 % 2 ^ 32)) f p = f p := by
  induction l generalizing f with
  | nil => rfl
  | cons x l ih =>
    rw [List.map_cons, List.mem_cons, not_or] at hp
    rw [List.foldl_cons, ih hp.2, Function.update_of_ne hp.1]

theorem foldl_update_of_mem {l : List (Nat × Nat)} (hl : (l.map Prod.fst).Nodup) {x : Nat × Nat}
    (hx : x ∈ l) (f : Nat → Nat) :
    l.foldl (fun f pi => Function.update f pi.1 (pi.2 % 2 ^ 32)) f x.1 = x.2 % 2 ^ 32 := by
  induction l generalizing f with
  | nil => cases hx
  | cons y l ih =>
    obtain ⟨hy, hl⟩ := List.nodup_cons.mp hl
    rw [List.foldl_cons]
    rcases List.mem_cons.mp hx with rfl | hx
    · rw [foldl_update_of_notMem hy, Function.update_self]
    · exact ih hl hx _

theorem Table.nodup_freeIds {rows : Table} (hk : rows.Keyed) : rows.freeIds.Nodup :=
  hk.sublist (List.Sublist.map _ List.filter_sublist)

theorem Table.has_of_mem_freeIds {rows : Table} {id : Nat} (h : id ∈ rows.freeIds) :
    rows.Has id .free := by
  obtain ⟨r, hr, rfl⟩ := List.mem_map.mp h
  obtain ⟨hmem, htype⟩ := List.mem_filter.mp hr
  exact ⟨r, hmem, rfl, by simpa using htype⟩

theorem map_zip_sublist (l₁ l₂ : List Nat) :
    ((l₁.zip l₂).map Prod.fst).Sublist l₁ ∧ ((l₁.zip l₂).map Prod.snd).Sublist l₂ := by
  induction l₁ generalizing l₂ with
  | nil => exact ⟨List.nil_sublist _, List.nil_sublist _⟩
  | cons a l₁ ih =>
    cases l₂ with
    | nil => exact ⟨List.nil_sublist _, List.nil_sublist _⟩
    | cons b l₂ => exact ⟨(ih l₂).1.cons_cons a, (ih l₂).2.cons_cons b⟩

/-- Each page that is assigned a row is queued and has a row of its own. -/
theorem queued_assign {c : Cache} {pages : List Nat} (hq : Queued c pages) (fetched : Nat)
    (hk : c.rows.Keyed) (hmax : c.rows.maxId + 64 < 2 ^ 32) :
    Queued (c.assignIds (c.assign pages fetched)) ((c.assign pages fetched).map Prod.fst) ∧
      Rowed (c.assignIds (c.assign pages fetched)) ((c.assign pages fetched).map Prod.fst) := by
  have hperm : (pages.insertionSort c.flushLe).Perm pages := List.perm_insertionSort _ _
  have hfst : ((c.assign pages fetched).map Prod.fst).Sublist (pages.insertionSort c.flushLe) :=
    (map_zip_sublist _ _).1
  have hsnd : ((c.assign pages fetched).map Prod.snd).Sublist c.rows.freeIds := by
    refine (map_zip_sublist _ _).2.trans ?_
    exact (List.take_sublist _ _).trans (List.take_sublist _ _)
  have hnodup := (hperm.nodup_iff.mpr hq.nodup).sublist hfst
  have hid : ∀ x ∈ c.assign pages fetched,
      (c.assignIds (c.assign pages fetched)).flushpageid x.1 = x.2 ∧ c.rows.Has x.2 .free := by
    intro x hx
    have hhas := Table.has_of_mem_freeIds (hsnd.subset (List.mem_map.mpr ⟨x, hx, rfl⟩))
    refine ⟨?_, hhas⟩
    obtain ⟨r, hr, hrid, -⟩ := hhas
    have hle := Table.le_maxId hr
    rw [hrid] at hle
    exact (foldl_update_of_mem hnodup hx _).trans (Nat.mod_eq_of_lt (by omega))
  refine ⟨⟨hnodup, ?_⟩, ⟨?_, ?_⟩⟩
  · exact fun p hp => hq.mem p (hperm.mem_iff.mp (hfst.subset hp))
  · have hids : ((c.assign pages fetched).map Prod.fst).map
        (c.assignIds (c.assign pages fetched)).flushpageid
        = (c.assign pages fetched).map Prod.snd := by
      rw [List.map_map]
      exact List.map_congr_left fun x hx => (hid x hx).1
    rw [hids]
    exact (Table.nodup_freeIds hk).sublist hsnd
  · intro p hp
    obtain ⟨x, hx, rfl⟩ := List.mem_map.mp hp
    rw [(hid x hx).1]
    exact (hid x hx).2

/-! ### The steps of a flush -/

omit [DecidableEq ι] in
/-- What the thread with the mutex relies on. -/
theorem Books.place (h : Books st) {x : Pc} (ht : st.pc t = x) : x.Ok st.cache := by
  rw [← ht]
  exact h.pcs t

theorem Books.selects (h : Books st) {caller : Caller} {diskfull : Bool} {pages : List Nat}
    {fetched : Nat} (ht : st.pc t = .flush caller (.selecting diskfull pages))
    (hmax : st.cache.rows.maxId + 64 < 2 ^ 32) {y : Pc}
    (hy : y = .flush caller (.writing diskfull ((st.cache.assign pages fetched).map Prod.fst)
      ((st.cache.assign pages fetched).map Prod.fst)))
    (ho : Owned (st.goto t y (st.cache.assignIds (st.cache.assign pages fetched)))) :
    Books (st.goto t y (st.cache.assignIds (st.cache.assign pages fetched))) := by
  have hok : Queued st.cache pages := h.place ht
  have hlocks : (st.pc t).locks = true := by
    rw [ht]
    rfl
  subst hy
  exact Books.alone (fun u hut => h.owned.others hlocks hut) ho rfl (h.shelves.same rfl rfl rfl rfl)
    h.types h.keyed h.booked (queued_assign hok fetched h.keyed hmax)

theorem Books.fills (h : Books st) {caller : Caller} {diskfull : Bool} {work : Work}
    {sql : Cache.Statements} (ht : st.pc t = .flush caller (.locked diskfull work))
    (hmax : st.cache.rows.maxId + 64 < 2 ^ 32)
    (hfill : ∀ caller diskfull pages, st.pc t = .flush caller (.locked diskfull (.insert pages 0)) →
      Fillable st.cache caller.nosleep diskfull pages sql) :
    Books (st.fills t caller diskfull (st.cache.fill sql caller.nosleep diskfull work)) := by
  have hlocks : (st.pc t).locks = true := by
    rw [ht]
    rfl
  obtain ⟨⟨pages, rfl, hq, hr⟩, htr⟩ := (h.place ht : FlushPc.Ok _ (.locked diskfull work))
  have hf := hfill caller diskfull pages ht
  have hbatch : Batch st.cache (st.hands.map Prod.snd) 0 pages :=
    ⟨h.shelves, h.types, h.keyed, h.booked, hq, hr, hf.fresh⟩
  obtain ⟨c', updates, heq, hb, htr', hrows⟩ := hbatch.fill hf hmax
  rw [heq]
  have ho : Owned (st.goto t (.flush caller (.ended updates)) c') :=
    h.owned.moves (t := t) rfl rfl hlocks.symm
  refine Books.broadcast (Books.alone (fun u hut => h.owned.others hlocks hut) ho rfl hb.shelves
    hb.types hb.keyed hb.booked ?_)
  refine ⟨⟨st.cache.rows, false⟩, htr'.trans htr, rfl, ?_⟩
  exact fun hz => (hrows hz).symm

/-- The transaction of a flush ends: the rows stay as the flush left them. -/
theorem ended_rows {c : Cache} {updates : Nat} (h : FlushPc.Ok c (.ended updates)) {ok : Bool}
    (hok : updates ≠ 0 → ok = true) :
    (if updates = 0 then c.rollbackTransaction else c.commitTransaction ok)
      = { c with transaction := none } := by
  obtain ⟨tr, htr, hfailed, hsaved⟩ := h
  split
  next hz =>
    unfold Cache.rollbackTransaction
    rw [htr]
    dsimp only
    rw [hsaved hz]
  next hz =>
    unfold Cache.commitTransaction
    rw [htr]
    dsimp only
    rw [if_pos ⟨hok hz, hfailed⟩]

theorem Books.finishes (h : Books st) {caller : Caller} {updates : Nat} {ok : Bool}
    (ht : st.pc t = .flush caller (.ended updates)) (hok : updates ≠ 0 → ok = true)
    (ho : Owned { st.goto t caller.back (if updates = 0 then st.cache.rollbackTransaction
      else st.cache.commitTransaction ok) with flushMutex := none }) :
    Books { st.goto t caller.back (if updates = 0 then st.cache.rollbackTransaction
      else st.cache.commitTransaction ok) with flushMutex := none } := by
  have hlocks : (st.pc t).locks = true := by
    rw [ht]
    rfl
  rw [ended_rows (h.place ht) hok] at ho ⊢
  exact Books.alone (fun u hut => h.owned.others hlocks hut) ho rfl (h.shelves.same rfl rfl rfl rfl)
    h.types h.keyed h.booked (Pc.ok_back caller _)

/-! ## Statements of the database -/

namespace Table

variable {rows : Table}

theorem countFree_deletePastDisk {c : Cache} {k : Cache.DiskCheck} {maxpage : Nat}
    (h : k.deleteOk = true → c.rows.Spares maxpage) :
    (c.deletePastDisk k maxpage).rows.countFree = c.rows.countFree := by
  unfold Cache.deletePastDisk
  split
  next hok => exact h hok
  next => rfl

theorem keyed_deletePastDisk {c : Cache} (hk : c.rows.Keyed) (k : Cache.DiskCheck)
    (maxpage : Nat) : (c.deletePastDisk k maxpage).rows.Keyed := by
  unfold Cache.deletePastDisk
  split
  · exact keyed_deleteAbove hk maxpage
  · exact hk

end Table

section

variable {c : Cache}

theorem freeDbPages_deletePastDisk (k : Cache.DiskCheck) (maxpage : Nat) :
    (c.deletePastDisk k maxpage).freeDbPages = c.freeDbPages := by
  unfold Cache.deletePastDisk
  split <;> rfl

theorem booked_resizeCache {fscachesize : Nat} (hk : c.rows.Keyed)
    (hb : c.freeDbPages = c.rows.countFree)
    (hs : fscachesize / PSYNC_FS_PAGE_SIZE < c.rows.maxId →
      c.rows.Spares (fscachesize / PSYNC_FS_PAGE_SIZE)) :
    (c.resizeCache fscachesize).rows.Keyed ∧
      (c.resizeCache fscachesize).freeDbPages = (c.resizeCache fscachesize).rows.countFree := by
  unfold Cache.resizeCache
  dsimp only
  split
  next hlt => exact ⟨Table.keyed_deleteAbove hk _, hb.trans (hs hlt).symm⟩
  next => exact ⟨hk, hb⟩

theorem booked_deleteUnallocated (hk : c.rows.Keyed) (hb : c.freeDbPages = c.rows.countFree)
    (hs : c.fileSize / PSYNC_FS_PAGE_SIZE - 1 < c.dbCacheMaxPage →
      c.rows.Spares (c.fileSize / PSYNC_FS_PAGE_SIZE - 1)) :
    c.deleteUnallocated.rows.Keyed ∧
      c.deleteUnallocated.freeDbPages = c.deleteUnallocated.rows.countFree := by
  unfold Cache.deleteUnallocated
  dsimp only
  split
  next hlt => exact ⟨Table.keyed_deleteAbove hk _, hb.trans (hs hlt).symm⟩
  next => exact ⟨hk, hb⟩

end

omit [DecidableEq ι] in
/-- Nobody has the mutex. -/
theorem Books.idle (h : Books st) (hm : st.flushMutex = none) {c : Cache}
    (hmem : c.memory = st.cache.memory) (hkeyed : c.rows.Keyed)
    (hbooked : c.freeDbPages = c.rows.countFree) : Books { st with cache := c } := by
  refine ⟨h.owned.keep rfl rfl, h.shelves.of_memory hmem, ?_, hkeyed, hbooked, ?_⟩
  · show ∀ p ∈ c.hashed, (c.desc p).type ≠ .free
    rw [show c.hashed = st.cache.hashed from congrArg Cache.Memory.hashed hmem,
      show c.desc = st.cache.desc from congrArg Cache.Memory.desc hmem]
    exact h.types
  · exact fun u => Pc.ok_of_unlocked (h.owned.none hm u) _

/-- A thread takes the mutex and works on the table. -/
theorem Books.acquires (h : Books st) (hm : st.flushMutex = none) {y : Pc} (ho : Owned st')
    (hpc : st'.pc = Function.update st.pc t y) (hhands : st'.hands = st.hands)
    (hmem : st'.cache.memory = st.cache.memory) (hkeyed : st'.cache.rows.Keyed)
    (hbooked : st'.cache.freeDbPages = st'.cache.rows.countFree) (hy : y.Ok st'.cache) :
    Books st' := by
  refine Books.alone (fun u _ => h.owned.none hm u) ho hpc ?_ ?_ hkeyed hbooked hy
  · rw [hhands]
    exact h.shelves.of_memory hmem
  · rw [show st'.cache.hashed = st.cache.hashed from congrArg Cache.Memory.hashed hmem,
      show st'.cache.desc = st.cache.desc from congrArg Cache.Memory.desc hmem]
    exact h.types

/-- With no free page there is none to take without counting. -/
theorem Books.evictTakes (h : Books st) {sizeinpages : Nat} (hfree : st.cache.freePages = [])
    (ho : Owned (st.evictTakes t sizeinpages)) : Books (st.evictTakes t sizeinpages) := by
  have hstart : Books (if st.cache.wantsFlush = true then st.schedules.spawns else st) ∧
      (if st.cache.wantsFlush = true then st.schedules.spawns else st).cache.freePages = [] := by
    split
    · refine ⟨h.quiet (h.owned.keep rfl rfl)
        (h.shelves.same rfl rfl rfl rfl) rfl rfl rfl rfl rfl rfl
        fun _ => Or.inl rfl, hfree⟩
    · exact ⟨h, hfree⟩
  unfold State.evictTakes at ho ⊢
  dsimp only at ho ⊢
  generalize (if st.cache.wantsFlush = true then st.schedules.spawns else st) = st₁ at hstart ho ⊢
  rw [hstart.2] at ho ⊢
  exact hstart.1.moves ho rfl rfl rfl rfl rfl rfl rfl trivial

/-! ## Steps -/

theorem Books.step {e : Event ι} (hs : Step st e st') (h : Books st) (he : e.Accounts st) :
    Books st' := by
  have ho := h.owned.step hs
  obtain ⟨hmax, he⟩ := he
  cases hs with
  | getFreePage ht => exact h.getFreePage (by rw [ht]; rfl) _
  | @awake t runthread ht =>
    have hw : Books { st with cache := { st.cache with
        freePageWaiters := st.cache.freePageWaiters - 1 } } :=
      h.quiet (h.owned.keep rfl rfl) (h.shelves.same rfl rfl rfl rfl) rfl rfl rfl rfl rfl rfl
        fun _ => Or.inl rfl
    exact hw.obtain (show (st.pc t).locks = false by rw [ht]; rfl) _
  | relock ht => exact h.obtain (by rw [ht]; rfl) _
  | recheck ht => exact h.reobtain (by rw [ht]; rfl) _
  | insert hp hout htype => exact h.inserts hp htype
  | add hp hout htype => exact h.adds hp htype
  | giveBack hp => exact h.givesBack hp
  | touch hp =>
    exact h.redescribes (h.shelves.same rfl rfl rfl rfl) (fun _ => Iff.rfl)
      (type_update rfl) rfl rfl
      rfl rfl
  | corrupt hp => exact h.drops hp he
  | switchPage hp => exact h.switches hp _
  | markUsed =>
    exact h.schedules.quiet ho (h.shelves.same rfl rfl rfl rfl) rfl rfl rfl rfl rfl rfl
      fun _ => Or.inl rfl
  | timer => exact h.quiet ho h.shelves rfl rfl rfl rfl rfl rfl fun _ => Or.inl rfl
  | flushThread ht => exact h.moves ho rfl rfl rfl rfl rfl rfl rfl trivial
  | flushCall ht => exact h.moves ho rfl rfl rfl rfl rfl rfl rfl trivial
  | enter ht =>
    exact h.quiet ho (h.shelves.same rfl rfl rfl rfl) rfl rfl rfl rfl rfl rfl (update_or_ok trivial)
  | enough ht hm => exact h.acquires hm ho rfl rfl rfl h.keyed h.booked trivial
  | @full t caller k maxpage ht hm htr hk =>
    have hread : (st.cache.readMaxPage k).rows.Keyed := h.keyed
    have hcount : ((st.cache.readMaxPage k).deletePastDisk k maxpage).rows.countFree
        = st.cache.rows.countFree := Table.countFree_deletePastDisk (he maxpage hk)
    have hdb : ((st.cache.readMaxPage k).deletePastDisk k maxpage).freeDbPages
        = st.cache.freeDbPages := freeDbPages_deletePastDisk k maxpage
    exact h.acquires hm ho rfl rfl (Cache.memory_deletePastDisk _ k maxpage)
      (Table.keyed_deletePastDisk hread k maxpage) ((hdb.trans h.booked).trans hcount.symm) trivial
  | @store t caller maxpage n ht =>
    have hlocks : (st.pc t).locks = true := by
      rw [ht]
      rfl
    exact Books.alone (fun u hut => h.owned.others hlocks hut) ho rfl
      (h.shelves.same rfl rfl rfl rfl) h.types h.keyed (he caller maxpage n ht) trivial
  | @collect t caller diskfull ht =>
    have hlocks : (st.pc t).locks = true := by
      rw [ht]
      rfl
    exact Books.collects (fun u hut => h.owned.others hlocks hut) ho h.shelves h.types h.keyed
      h.booked
  | sort ht => exact h.sorts (by rw [ht]; rfl) ho
  | discard ht => exact h.discards ht ho
  | select ht => exact h.selects ht hmax rfl ho
  | @write t caller diskfull pages todo p ht =>
    have hok : Queued st.cache pages ∧ Rowed st.cache pages := h.place ht
    exact h.moves ho rfl rfl rfl rfl rfl rfl rfl
      ⟨⟨hok.1.nodup, hok.1.mem⟩, ⟨hok.2.nodup, hok.2.free⟩⟩
  | @writeFails t caller diskfull pages todo p ht =>
    exact h.moves ho rfl rfl rfl rfl rfl rfl rfl (Pc.ok_back caller _)
  | @sync t caller diskfull pages ht =>
    have hok : Queued st.cache pages ∧ Rowed st.cache pages := h.place ht
    exact h.moves ho rfl rfl rfl rfl rfl rfl rfl ⟨pages, rfl, hok.1, hok.2⟩
  | @syncFails t caller diskfull pages ht =>
    exact h.moves ho rfl rfl rfl rfl rfl rfl rfl (Pc.ok_back caller _)
  | @begin t caller diskfull work ht htr =>
    have hlocks : (st.pc t).locks = true := by
      rw [ht]
      rfl
    obtain ⟨pages, rfl, hq, hr⟩ := (h.place ht : FlushPc.Ok _ (.begin diskfull work))
    exact Books.alone (fun u hut => h.owned.others hlocks hut) ho rfl
      (h.shelves.same rfl rfl rfl rfl) h.types h.keyed h.booked
      ⟨⟨pages, rfl, ⟨hq.nodup, hq.mem⟩, ⟨hr.nodup, hr.free⟩⟩, rfl⟩
  | fill ht => exact h.fills ht hmax he
  | @commit t caller diskfull work ok ht =>
    exact (h.place ht : FlushPc.Ok _ (.commit diskfull work)).elim
  | @finish t caller updates ok ht => exact h.finishes ht (he caller updates ht) ho
  | clean ht => exact h.moves ho rfl rfl rfl rfl rfl rfl rfl trivial
  | @cleanRow t id ids ok ht htr =>
    obtain ⟨rfl, hhas⟩ := he
    have hcount := Table.countFree_clear h.keyed (hhas id ids ht) (f := Table.cleared) fun _ => rfl
    have hle := Table.countFree_le h.keyed
    refine h.statement ho rfl rfl rfl htr (Table.keyed_update h.keyed fun _ hr => hr) ?_
      (fun _ hfree => hfree.frees (fun _ => rfl) fun _ => rfl) (update_or_ok trivial)
    show add32 st.cache.freeDbPages 1 = (st.cache.rows.update id Table.cleared).countFree
    rw [hcount, h.booked, add32_eq (by omega)]
  | cleaned ht => exact h.moves ho rfl rfl rfl rfl rfl rfl rfl trivial
  | @markPageFree id htr =>
    refine h.statement ho rfl rfl rfl htr (Table.keyed_update h.keyed fun _ hr => hr) ?_
      (fun _ hfree => hfree.frees (fun _ => rfl) fun _ => rfl) (fun _ => Or.inl rfl)
    exact h.booked.trans (Table.countFree_again (f := Table.unnamed) (fun _ => rfl) he).symm
  | @switchPageid hash oldhash pageid lastuse htr =>
    obtain ⟨hids, hcount, hfree⟩ :=
      @Table.switchPageid_fields st.cache.rows hash oldhash pageid lastuse
    refine h.statement ho rfl rfl rfl htr ?_ (h.booked.trans hcount.symm) hfree
      (fun _ => Or.inl rfl)
    show ((st.cache.rows.switchPageid hash oldhash pageid lastuse).map (·.id)).Nodup
    rw [hids]
    exact h.keyed
  | resize hm htr =>
    obtain ⟨hkeyed, hbooked⟩ := booked_resizeCache h.keyed h.booked he
    exact h.idle hm (Cache.memory_resizeCache _ _) hkeyed hbooked
  | cleanReadCache hm hc htr =>
    have hnil : Table.Keyed [] := List.nodup_nil
    obtain ⟨hkeyed, hcount, -⟩ := iterate_insertFree hnil _
    exact h.idle hm rfl hkeyed (hcount.trans (Nat.zero_add _)).symm
  | evict ht hm htr =>
    obtain ⟨hkeyed, hbooked⟩ := booked_deleteUnallocated h.keyed h.booked he
    exact h.acquires hm ho rfl rfl (Cache.memory_deleteUnallocated _) hkeyed hbooked trivial
  | evictTake ht => exact h.evictTakes he ho
  | evictRead ht => exact (h.place ht).elim
  | evictReadFails ht => exact (h.place ht).elim
  | evictAdd ht => exact (h.place ht).elim
  | evictDrop ht => exact (h.place ht).elim

/-! ## Runs -/

/-- What `psync_pagecache_init` must stay clear of. -/
def Cache.BootAccounts (rows : Table) (file : Option Nat) (fscachesize : Nat) (k : DiskCheck) :
    Prop :=
  let c := opened rows file fscachesize
  c.rows.maxId + 64 < 2 ^ 32 ∧
    (c.dbCacheInPages < c.dbCacheMaxPage → c.rows.Spares c.dbCacheInPages) ∧ k.countOk = true

section

variable {c : Cache} {rows : Table} {file : Option Nat} {fscachesize : Nat} {k : Cache.DiskCheck}

theorem booked_opened (hk : rows.Keyed)
    (hmax : (Cache.opened rows file fscachesize).rows.maxId + 64 < 2 ^ 32) :
    (Cache.opened rows file fscachesize).rows.Keyed ∧
      (Cache.opened rows file fscachesize).freeDbPages
        = (Cache.opened rows file fscachesize).rows.countFree := by
  have hboot : (Cache.bootRows rows file).Keyed := by
    cases file with
    | none => exact List.nodup_nil
    | some size => exact Table.keyed_deleteAbove hk _
  obtain ⟨hkeyed, hcount, hmaxId, -⟩ := iterate_insertFree hboot
    (Cache.bootInserts (Cache.bootRows rows file) (fscachesize / PSYNC_FS_PAGE_SIZE))
  refine ⟨hkeyed, ?_⟩
  have hle := Table.countFree_le hboot
  have hsum : (Cache.opened rows file fscachesize).rows.maxId = (Cache.bootRows rows file).maxId +
      Cache.bootInserts (Cache.bootRows rows file) (fscachesize / PSYNC_FS_PAGE_SIZE) := hmaxId
  rw [hsum] at hmax
  refine Eq.trans ?_ hcount.symm
  show add32 ((Cache.bootRows rows file).countFree % 2 ^ 32) _ = _
  rw [Nat.mod_eq_of_lt (by omega), add32_eq (by omega)]

theorem booked_checkDiskFull (hk : c.rows.Keyed) (hb : c.freeDbPages = c.rows.countFree)
    (hmax : c.rows.maxId + 64 < 2 ^ 32) (hcount : k.countOk = true) :
    (c.checkDiskFull k).rows.Keyed ∧
      (c.checkDiskFull k).freeDbPages = (c.checkDiskFull k).rows.countFree := by
  unfold Cache.checkDiskFull
  dsimp only
  split
  · exact ⟨hk, hb⟩
  next maxpage _ =>
    have hread : (c.readMaxPage k).rows.Keyed := hk
    refine ⟨Table.keyed_deletePastDisk hread k maxpage, ?_⟩
    have hle : ((c.readMaxPage k).deletePastDisk k maxpage).rows.countFree ≤ c.rows.countFree := by
      unfold Cache.deletePastDisk
      split
      · exact List.Sublist.countP_le List.filter_sublist
      · exact Nat.le_refl _
    have hbound := Table.countFree_le hk
    show Cache.countedFree _ k = _
    unfold Cache.countedFree
    rw [if_pos hcount]
    exact Nat.mod_eq_of_lt (by omega)

theorem maxId_deleteAbove (rows : Table) (v : Nat) : (rows.deleteAbove v).maxId ≤ rows.maxId := by
  have hle : ∀ (l : Table) (n : Nat), (∀ r ∈ l, r.id ≤ n) → l.maxId ≤ n := by
    intro l n hl
    induction l with
    | nil => exact Nat.zero_le _
    | cons r l ih =>
      exact Nat.max_le.mpr
        ⟨hl r List.mem_cons_self, ih fun s hs => hl s (List.mem_cons_of_mem _ hs)⟩
  exact hle _ _ fun r hr => Table.le_maxId (List.mem_of_mem_filter hr)

theorem maxId_resizeCache (c : Cache) (fscachesize : Nat) :
    (c.resizeCache fscachesize).rows.maxId ≤ c.rows.maxId := by
  unfold Cache.resizeCache
  dsimp only
  split
  · exact maxId_deleteAbove _ _
  · exact Nat.le_refl _

theorem booked_boot (hk : rows.Keyed) (hb : Cache.BootAccounts rows file fscachesize k) :
    (Cache.boot rows file fscachesize k).rows.Keyed ∧
      (Cache.boot rows file fscachesize k).freeDbPages
        = (Cache.boot rows file fscachesize k).rows.countFree := by
  obtain ⟨hmax, hspares, hcount⟩ := hb
  obtain ⟨hkeyed, hbooked⟩ := booked_opened hk hmax
  unfold Cache.boot
  dsimp only
  split
  next hlt =>
    obtain ⟨hkeyed', hbooked'⟩ := booked_resizeCache hkeyed hbooked fun _ => hspares hlt
    have hle := maxId_resizeCache (Cache.opened rows file fscachesize) fscachesize
    exact booked_checkDiskFull hkeyed' hbooked' (by omega) hcount
  next => exact booked_checkDiskFull hkeyed hbooked hmax hcount

end

omit [DecidableEq ι] in
theorem books_init {rows : Table} {file : Option Nat} {fscachesize : Nat} {k : Cache.DiskCheck}
    (hk : rows.Keyed) (hb : Cache.BootAccounts rows file fscachesize k) :
    Books (State.init (Cache.boot rows file fscachesize k) : State ι) := by
  obtain ⟨hkeyed, hbooked⟩ := booked_boot hk hb
  have hopened : Shelves (Cache.opened rows file fscachesize) [] 0 :=
    ⟨by rw [List.append_nil]; exact List.Perm.of_eq (List.append_nil _),
      List.length_range'.symm, rfl⟩
  have hmem := Cache.memory_boot rows file fscachesize k
  refine ⟨owned_init _, hopened.of_memory hmem, ?_, hkeyed, hbooked, fun _ => trivial⟩
  intro p hp
  have hnil : (Cache.boot rows file fscachesize k).hashed = [] := congrArg Cache.Memory.hashed hmem
  exact absurd (hnil ▸ hp) List.not_mem_nil

/-- Each page is in one place, and the counters are the numbers of what they count. -/
structure Accounted (st : State ι) : Prop where
  places : (st.cache.freePages ++ st.cache.hashed ++ st.hands.map Prod.snd).Perm
    (List.range' 0 CACHE_PAGES)
  cachePagesFree : st.cache.cachePagesFree = st.cache.freePages.length
  cachePagesInHash : st.cache.cachePagesInHash = st.cache.hashed.length
  freeDbPages : st.cache.freeDbPages = st.cache.rows.countFree

/-- Steps under a condition. -/
def StepsWhen (cond : State ι → Event ι → Prop) (st st' : State ι) : Prop :=
  ∃ e, Step st e st' ∧ cond st e

/-- In a run that stays clear of the paths that lose count, every page is in one place and every
counter is right. -/
theorem page_accounting {rows : Table} {file : Option Nat} {fscachesize : Nat}
    {k : Cache.DiskCheck} (hk : rows.Keyed) (hb : Cache.BootAccounts rows file fscachesize k)
    (hrun : Relation.ReflTransGen (StepsWhen fun st e => e.Accounts st)
      (State.init (Cache.boot rows file fscachesize k)) st) : Accounted st := by
  have hbooks : Books st := by
    induction hrun with
    | refl => exact books_init hk hb
    | tail _ hs ih =>
      obtain ⟨e, hs, he⟩ := hs
      exact ih.step hs he
  exact ⟨hbooks.shelves.places, hbooks.shelves.free, hbooks.shelves.hash, hbooks.booked⟩

theorem bootAccounts_two_pages : Cache.BootAccounts [] none 8192 .roomy :=
  ⟨by decide, fun h => absurd h (by decide), rfl⟩

/-- The first page comes to a cache of two pages and is flushed to the first row. -/
theorem page_accounting_flushed : ∃ st : State Unit,
    Relation.ReflTransGen (StepsWhen fun st e => e.Accounts st)
      (State.init (Cache.boot [] none 8192 .roomy)) st ∧
    st.cache.rows = [⟨1, .read, some (7, 0), 1, 1, 4096, 0⟩, ⟨2, .free, none, 0, 0, 0, 0⟩] ∧
    Accounted st := by
  have h₁ := Relation.ReflTransGen.refl (r := StepsWhen fun (st : State Unit) e => e.Accounts st)
    (a := State.init (Cache.boot [] none 8192 .roomy)) |>.tail
      ⟨.getFreePage () false, .getFreePage rfl, by decide, trivial⟩
  have h₂ := h₁.tail ⟨.insert () 0 ⟨7, 0, 1, 4096, 1, 0, .read⟩,
    .insert (by decide) rfl (by decide), by decide, trivial⟩
  have h₃ := h₂.tail ⟨.flushCall (), .flushCall rfl, by decide, trivial⟩
  have h₄ := h₃.tail ⟨.enter (), .enter rfl, by decide, trivial⟩
  have h₅ := h₄.tail ⟨.check () .roomy, .enough rfl rfl rfl (by decide), by decide,
    fun _ h => absurd (Option.isSome_iff_exists.mpr ⟨_, h⟩) (by decide)⟩
  have h₆ := h₅.tail ⟨.collect (), .collect rfl (fun h => nomatch h.1), by decide, trivial⟩
  have h₇ := h₆.tail ⟨.select () 1, .select rfl rfl, by decide, trivial⟩
  have h₈ := h₇.tail ⟨.write () true, .write (p := 0) rfl, by decide, trivial⟩
  have h₉ := h₈.tail ⟨.sync () true, .sync rfl, by decide, trivial⟩
  have h₁₀ := h₉.tail ⟨.begin (), .begin rfl rfl, by decide, trivial⟩
  have h₁₁ := h₁₀.tail ⟨.fill () .fine, .fill rfl, by decide, by
    intro caller diskfull pages hpc
    obtain ⟨rfl, rfl, rfl⟩ : caller = .api ∧ diskfull = false ∧ pages = [0] := by
      injection hpc with h₁ h₂
      injection h₂ with h₂ h₃
      injection h₃ with h₃
      exact ⟨h₁.symm, h₂.symm, h₃.symm⟩
    exact ⟨fun _ => rfl, fun _ _ => rfl, fun _ => by decide, Or.inl rfl,
      ⟨List.nodup_singleton _, by decide⟩⟩⟩
  have h₁₂ := h₁₁.tail ⟨.finish () true, .finish rfl, by decide, fun _ _ _ _ => rfl⟩
  have hk : Table.Keyed [] := List.nodup_nil
  exact ⟨_, h₁₂, by decide, page_accounting hk bootAccounts_two_pages h₁₂⟩

/-- Where the size of the read cache is brought down, a page is taken off the free list that is not
counted down. -/
theorem evicting_takes_uncounted :
    ¬∀ (rows : Table) (file : Option Nat) (fscachesize : Nat) (k : Cache.DiskCheck)
      (st : State Unit), rows.Keyed →
      Relation.ReflTransGen (StepsWhen fun _ _ => True)
        (State.init (Cache.boot rows file fscachesize k)) st → Accounted st := by
  intro h
  have h₁ := Relation.ReflTransGen.refl (r := StepsWhen fun (_ : State Unit) _ => True)
    (a := State.init (Cache.boot [] none 8192 .roomy)) |>.tail
      ⟨.evict (), .evict rfl rfl (by decide) (by decide), trivial⟩
  have h₂ := h₁.tail ⟨.evictTake (), .evictTake rfl, trivial⟩
  exact absurd (h [] none 8192 .roomy _ List.nodup_nil h₂).cachePagesFree (by decide +kernel)

end PcloudClient.Ppagecache
