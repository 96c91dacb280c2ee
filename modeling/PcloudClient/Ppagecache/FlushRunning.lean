/-
  Ppagecache/FlushRunning.lean --- what a flush leaves behind.

  In every run of any number of threads `flush_page_running` is the number of threads inside
  `flush_pages` and one more for each write or sync of the cache file that failed.  So it is
  restored exactly where none failed; then a set `flushcacherun` always has a flush that will
  reset it, and a thread that waits for a page always has a flush that will wake it.
-/
import PcloudClient.Foundation.Census
import PcloudClient.Ppagecache.Threads

set_option autoImplicit false

namespace PcloudClient.Ppagecache

/-- The event is a write or a sync of the cache file that fails. -/
def Event.fails {ι : Type} : Event ι → Bool
  | write _ ok => !ok
  | sync _ ok => !ok
  | _ => false

namespace FlushPc

/-- Between `flush_page_running++` and the end of the last section. -/
def running : FlushPc → Bool
  | start => false
  | ended _ => false
  | _ => true

/-- Before the end of the last section. -/
def pending : FlushPc → Bool
  | ended _ => false
  | _ => true

end FlushPc

namespace Pc

/-- Inside `flush_pages`, counted in `flush_page_running`. -/
def inFlush : Pc → Bool
  | flush _ place => place.running
  | _ => false

/-- In `pthread_cond_wait`, nobody has woken it. -/
def sleeps : Pc → Bool
  | asleep _ => true
  | _ => false

/-- Counted in `free_page_waiters`. -/
def waits : Pc → Bool
  | asleep _ => true
  | woken _ => true
  | _ => false

/-- Will reset `flushcacherun`, or create a thread that does. -/
def brings : Pc → Bool
  | flush _ place => place.pending
  | asleep runthread => runthread
  | woken runthread => runthread
  | recheck runthread => runthread
  | _ => false

theorem inFlush_wake (x : Pc) : x.wake.inFlush = x.inFlush := by cases x <;> rfl

theorem waits_wake (x : Pc) : x.wake.waits = x.waits := by cases x <;> rfl

theorem brings_wake (x : Pc) : x.wake.brings = x.brings := by cases x <;> rfl

theorem sleeps_wake (x : Pc) : x.wake.sleeps = false := by cases x <;> rfl

theorem waits_of_sleeps {x : Pc} (h : x.sleeps = true) : x.waits = true := by
  cases x <;> first | rfl | cases h

end Pc

theorem Caller.inFlush_back (caller : Caller) : caller.back.inFlush = false := by
  cases caller <;> rfl

theorem Caller.waits_back (caller : Caller) : caller.back.waits = false := by
  cases caller <;> rfl

theorem Caller.sleeps_back (caller : Caller) : caller.back.sleeps = false := by
  cases caller <;> rfl

variable {ι : Type}

/-- What a flush that returned leaves as if no flush were running. -/
structure Restored (st : State ι) : Prop where
  /-- `flush_page_running` counts the threads inside `flush_pages` and no others. -/
  running : Census Pc.inFlush st.pc st.cache.flushPageRunning
  /-- Where `flushcacherun` is set there is a flush to come. -/
  scheduled : st.cache.flushcacherun = true → 0 < st.spawned ∨ ∃ t, (st.pc t).brings = true
  /-- Whoever waits for a page has a flush to wake it. -/
  waiters : ∀ t, (st.pc t).sleeps = true → ∃ u, (st.pc u).inFlush = true
  /-- Every page is on the free list, in the hash, or in the hands of a thread. -/
  pages : ∀ p < CACHE_PAGES,
    p ∈ st.cache.freePages ∨ p ∈ st.cache.hashed ∨ ∃ t, (t, p) ∈ st.hands

/-! ## What the sections do to the flags -/

namespace Cache

variable (c : Cache)

/-- `free_page_waiters`, `flush_page_running` and `flushcacherun`. -/
def flags : Nat × Nat × Bool := (c.freePageWaiters, c.flushPageRunning, c.flushcacherun)

theorem flags_addPageIfNotExists (p : Nat) (d : Desc) (known : Bool) :
    (c.addPageIfNotExists p d known).flags = c.flags := by
  unfold addPageIfNotExists
  split <;> rfl

theorem flags_evictAdd (p : Nat) (row : Option Desc) (crcOk known : Bool) :
    (c.evictAdd p row crcOk known).flags = c.flags := by
  unfold evictAdd
  split
  · rfl
  · split
    · exact flags_addPageIfNotExists _ _ _ _
    · rfl

theorem flags_of_memory {c c' : Cache} (h : c.memory = c'.memory) : c.flags = c'.flags := by
  unfold flags
  exact Prod.ext (congrArg Memory.freePageWaiters h)
    (Prod.ext (congrArg Memory.flushPageRunning h) (congrArg Memory.flushcacherun h))

theorem flags_collect : c.collect.1.flags = c.flags := by
  unfold collect
  split <;> rfl

theorem flags_foldl_discardPage (l : List Nat) : (l.foldl discardPage c).flags = c.flags := by
  induction l generalizing c with
  | nil => rfl
  | cons p l ih => exact ih _

theorem flags_flushPage (sql : Statements) (p : Nat) : (c.flushPage sql p).1.flags = c.flags := by
  rw [flags_of_memory (memory_flushPage c sql p)]
  rfl

theorem flags_updateBatch (sql : Statements) (nosleep : Nat) (pages : List Nat)
    (updates pagecnt : Nat) :
    (updateBatch sql nosleep pages c updates pagecnt).1.flags = c.flags := by
  induction pages generalizing c updates pagecnt with
  | nil => rfl
  | cons p ps ih =>
    unfold updateBatch
    dsimp only
    split
    · exact flags_flushPage c sql p
    · rw [ih]
      exact flags_flushPage c sql p

/-- What the last section does to the flags. -/
def endedFlags (f : Nat × Nat × Bool) : Nat × Nat × Bool := (f.1, f.2.1 - 1, false)

/-- The flags behind a section of the transaction. -/
def filledFlags (f : Nat × Nat × Bool) : Filled → Nat × Nat × Bool
  | .more _ => f
  | .finished _ => endedFlags f

theorem flags_fillUpdates (sql : Statements) (nosleep : Nat) (pages : List Nat)
    (updates pagecnt : Nat) :
    (c.fillUpdates sql nosleep pages updates pagecnt).1.flags
      = filledFlags c.flags (c.fillUpdates sql nosleep pages updates pagecnt).2 := by
  have h := flags_updateBatch c sql nosleep pages updates pagecnt
  unfold fillUpdates
  split
  next c' rest updates' pagecnt' heq =>
    rw [heq] at h
    exact h
  next c' updates' pagecnt' heq =>
    rw [heq] at h
    exact congrArg endedFlags h

theorem flags_fill (sql : Statements) (nosleep : Nat) (diskfull : Bool) (work : Work) :
    (c.fill sql nosleep diskfull work).1.flags
      = filledFlags c.flags (c.fill sql nosleep diskfull work).2 := by
  cases work with
  | update pages updates pagecnt => exact flags_fillUpdates _ _ _ _ _ _
  | insert pages i =>
    have hb := flags_of_memory (memory_insertBatch c sql (64 - i % 64) i)
    unfold fill
    dsimp only
    split
    · exact flags_fillUpdates _ _ _ _ _ _
    · split
      next c' i' heq =>
        rw [heq] at hb
        exact hb
      next c' i' heq =>
        rw [heq] at hb
        rw [flags_fillUpdates]
        exact congrArg (filledFlags · _) hb

theorem flags_boot (rows : Table) (file : Option Nat) (fscachesize : Nat) (k : DiskCheck) :
    (boot rows file fscachesize k).flags = (0, 0, false) :=
  flags_of_memory (memory_boot rows file fscachesize k)

end Cache

/-! ## The counts -/

/-- The flags against the places of the threads, behind `k` failures. -/
structure Counts (k : Nat) (st : State ι) : Prop where
  running : ∃ n, Census Pc.inFlush st.pc n ∧ st.cache.flushPageRunning = n + k
  waiting : Census Pc.waits st.pc st.cache.freePageWaiters
  scheduled : k = 0 → st.cache.flushcacherun = true →
    0 < st.spawned ∨ ∃ t, (st.pc t).brings = true

/-- Nobody sleeps while `flush_page_running` is 0. -/
def Awake (st : State ι) : Prop :=
  ∀ t, (st.pc t).sleeps = true → st.cache.flushPageRunning ≠ 0

section

variable {k : Nat} {st st' : State ι}

theorem Counts.keep (h : Counts k st) (hpc : st'.pc = st.pc)
    (hflags : st'.cache.flags = st.cache.flags) (hspawn : st.spawned ≤ st'.spawned) :
    Counts k st' := by
  obtain ⟨hw, hr, hf⟩ : st'.cache.freePageWaiters = st.cache.freePageWaiters ∧
      st'.cache.flushPageRunning = st.cache.flushPageRunning ∧
      st'.cache.flushcacherun = st.cache.flushcacherun := by
    simpa [Cache.flags] using hflags
  refine ⟨?_, ?_, ?_⟩
  · rw [hpc, hr]
    exact h.running
  · rw [hpc, hw]
    exact h.waiting
  · rw [hpc, hf]
    intro hk hflag
    exact (h.scheduled hk hflag).imp (fun hs => Nat.lt_of_lt_of_le hs hspawn) id

theorem Awake.keep (h : Awake st) (hpc : st'.pc = st.pc)
    (hflags : st'.cache.flags = st.cache.flags) : Awake st' := by
  have hr : st'.cache.flushPageRunning = st.cache.flushPageRunning := by
    simpa [Cache.flags] using congrArg (·.2.1) hflags
  intro t
  rw [hpc, hr]
  exact h t

variable [DecidableEq ι] {t : ι} {y : Pc}

/-- One thread moves; `k'` counts one failure more where the thread fails. -/
theorem Counts.moves {k' : Nat} (h : Counts k st) (hpc : st'.pc = Function.update st.pc t y)
    (hrun : st'.cache.flushPageRunning + (st.pc t).inFlush.toNat + k
      = st.cache.flushPageRunning + y.inFlush.toNat + k')
    (hwait : st.cache.freePageWaiters + y.waits.toNat
      = st'.cache.freePageWaiters + (st.pc t).waits.toNat)
    (hflag : k' = 0 → st'.cache.flushcacherun = true → 0 < st'.spawned ∨ y.brings = true ∨
      k = 0 ∧ st.cache.flushcacherun = true ∧ (st.pc t).brings = false ∧
        st.spawned ≤ st'.spawned) :
    Counts k' st' := by
  obtain ⟨n, hn, hnk⟩ := h.running
  refine ⟨?_, ?_, ?_⟩
  · have hpos : (st.pc t).inFlush.toNat ≤ n := by
      cases hx : (st.pc t).inFlush with
      | false => exact Nat.zero_le _
      | true => exact hn.pos hx
    refine ⟨n + y.inFlush.toNat - (st.pc t).inFlush.toNat, ?_, by omega⟩
    rw [hpc]
    exact hn.update t y (by omega)
  · rw [hpc]
    exact h.waiting.update t y hwait
  · intro hk' hf'
    rcases hflag hk' hf' with hs | hy | ⟨hk, hf, hb, hs⟩
    · exact Or.inl hs
    · exact Or.inr ⟨t, by rw [hpc, Function.update_self]; exact hy⟩
    · rcases h.scheduled hk hf with hpos | ⟨u, hu⟩
      · exact Or.inl (Nat.lt_of_lt_of_le hpos hs)
      · have hut : u ≠ t := by
          rintro rfl
          rw [hb] at hu
          cases hu
        exact Or.inr ⟨u, by rw [hpc, Function.update_of_ne hut]; exact hu⟩

/-- One thread moves and the flags stay. -/
theorem Counts.quiet (h : Counts k st) (hpc : st'.pc = Function.update st.pc t y)
    (hflags : st'.cache.flags = st.cache.flags) (hspawn : st.spawned ≤ st'.spawned)
    (hin : y.inFlush = (st.pc t).inFlush) (hw : y.waits = (st.pc t).waits)
    (hb : (st.pc t).brings = true → y.brings = true) : Counts k st' := by
  obtain ⟨hw', hr', hf'⟩ : st'.cache.freePageWaiters = st.cache.freePageWaiters ∧
      st'.cache.flushPageRunning = st.cache.flushPageRunning ∧
      st'.cache.flushcacherun = st.cache.flushcacherun := by
    simpa [Cache.flags] using hflags
  refine h.moves hpc (by rw [hr', hin]) (by rw [hw', hw]) ?_
  intro hk hf
  cases hx : (st.pc t).brings with
  | true => exact Or.inr (Or.inl (hb hx))
  | false => exact Or.inr (Or.inr ⟨hk, hf' ▸ hf, rfl, hspawn⟩)

theorem Awake.moves (h : Awake st) (hpc : st'.pc = Function.update st.pc t y)
    (hle : st.cache.flushPageRunning ≤ st'.cache.flushPageRunning)
    (hy : y.sleeps = true → st'.cache.flushPageRunning ≠ 0) : Awake st' := by
  intro u hu
  rw [hpc] at hu
  rcases eq_or_ne u t with rfl | hut
  · rw [Function.update_self] at hu
    exact hy hu
  · rw [Function.update_of_ne hut] at hu
    have := h u hu
    omega

omit [DecidableEq ι]

theorem Counts.broadcast (h : Counts k st) : Counts k st.broadcast := by
  unfold State.broadcast
  split
  · exact h
  · obtain ⟨n, hn, hnk⟩ := h.running
    refine ⟨⟨n, ?_, hnk⟩, ?_, ?_⟩
    · unfold Census
      simp only [Pc.inFlush_wake]
      exact hn
    · unfold Census
      simp only [Pc.waits_wake]
      exact h.waiting
    · simp only [Pc.brings_wake]
      exact h.scheduled

/-- Whoever slept before a broadcast sleeps no more. -/
theorem Counts.awake_broadcast (h : Counts k st) : Awake st.broadcast := by
  intro t ht
  unfold State.broadcast at ht
  split at ht
  next hzero =>
    have hno := Census.none_of_zero (hzero ▸ h.waiting) t
    rw [Pc.waits_of_sleeps ht] at hno
    cases hno
  next =>
    dsimp only at ht
    rw [Pc.sleeps_wake] at ht
    cases ht

end

/-! ## The steps and the counts -/

section

variable [DecidableEq ι] {k : Nat} {st st' : State ι} {t : ι}

/-- What holds of the flags in every state of a run behind `k` failures. -/
def Flags (k : Nat) (st : State ι) : Prop := Counts k st ∧ Awake st

omit [DecidableEq ι] in
theorem Flags.keep (h : Flags k st) (hpc : st'.pc = st.pc)
    (hflags : st'.cache.flags = st.cache.flags) (hspawn : st.spawned ≤ st'.spawned) :
    Flags k st' :=
  ⟨h.1.keep hpc hflags hspawn, h.2.keep hpc hflags⟩

theorem Flags.quiet {y : Pc} (h : Flags k st) (hpc : st'.pc = Function.update st.pc t y)
    (hflags : st'.cache.flags = st.cache.flags) (hspawn : st.spawned ≤ st'.spawned)
    (hin : y.inFlush = (st.pc t).inFlush) (hw : y.waits = (st.pc t).waits)
    (hb : (st.pc t).brings = true → y.brings = true) (hs : y.sleeps = false) : Flags k st' := by
  refine ⟨h.1.quiet hpc hflags hspawn hin hw hb, h.2.moves hpc ?_ ?_⟩
  · exact Nat.le_of_eq (congrArg (·.2.1) hflags).symm
  · intro hy
    rw [hs] at hy
    cases hy

/-- In `psync_pagecache_get_free_page` the thread looks at the free list; it may have set
`flushcacherun` to create a thread, and it may have been counted as waiting. -/
structure Looks (st : State ι) (t : ι) (runthread : Bool) (c : Cache) : Prop where
  notIn : (st.pc t).inFlush = false
  running : c.flushPageRunning = st.cache.flushPageRunning
  waiting : st.cache.freePageWaiters = c.freePageWaiters + (st.pc t).waits.toNat
  flag : c.flushcacherun = true → st.cache.flushcacherun = true ∨ runthread = true
  brings : (st.pc t).brings = true → runthread = true

section

variable {runthread : Bool} {c : Cache}

theorem Looks.takes (hl : Looks st t runthread c) (h : Flags k st) (p : Nat) (rest : List Nat) :
    Flags k ({ st with cache := c }.takes t runthread p rest) := by
  have hspawned : ({ st with cache := c }.takes t runthread p rest).spawned
      = st.spawned + runthread.toNat := rfl
  constructor
  · refine h.1.moves (y := .out) rfl ?_ ?_ ?_
    · rw [hl.notIn]
      exact congrArg (· + 0 + k) hl.running
    · exact hl.waiting
    · intro hk hf
      cases hrt : runthread with
      | true =>
        rw [hrt] at hspawned
        exact Or.inl (by rw [hspawned]; exact Nat.succ_pos _)
      | false =>
        have hb : (st.pc t).brings = false := by
          cases hx : (st.pc t).brings with
          | false => rfl
          | true => exact absurd (hl.brings hx) (by rw [hrt]; decide)
        refine Or.inr (Or.inr ⟨hk, ?_, hb, Nat.le_add_right _ _⟩)
        rcases hl.flag hf with hf' | hf'
        · exact hf'
        · rw [hrt] at hf'
          cases hf'
  · exact h.2.moves (y := .out) rfl (Nat.le_of_eq hl.running.symm) (fun hy => nomatch hy)

theorem Looks.flushes (hl : Looks st t runthread c) (h : Flags k st) (caller : Caller) :
    Flags k ({ st with cache := c }.goto t (.flush caller .start) c) := by
  constructor
  · refine h.1.moves (y := .flush caller .start) rfl ?_ hl.waiting
      (fun _ _ => Or.inr (Or.inl rfl))
    rw [hl.notIn]
    exact congrArg (· + 0 + k) hl.running
  · exact h.2.moves (y := .flush caller .start) rfl (Nat.le_of_eq hl.running.symm)
      (fun hy => nomatch hy)

theorem Looks.obtain (hl : Looks st t runthread c) (h : Flags k st) :
    Flags k ({ st with cache := c }.obtain t runthread) := by
  unfold State.obtain
  split
  · exact hl.takes h _ _
  · split
    next hne =>
      constructor
      · refine h.1.moves (y := .asleep runthread) rfl ?_ ?_ ?_
        · rw [hl.notIn]
          exact congrArg (· + 0 + k) hl.running
        · have := hl.waiting
          dsimp only [State.goto]
          rw [this]
          exact Nat.add_right_comm _ _ _
        · intro hk hf
          cases hrt : runthread with
          | true => exact Or.inr (Or.inl rfl)
          | false =>
            have hb : (st.pc t).brings = false := by
              cases hx : (st.pc t).brings with
              | false => rfl
              | true => exact absurd (hl.brings hx) (by rw [hrt]; decide)
            refine Or.inr (Or.inr ⟨hk, ?_, hb, Nat.le_refl _⟩)
            rcases hl.flag hf with hf' | hf'
            · exact hf'
            · rw [hrt] at hf'
              cases hf'
      · exact h.2.moves (y := .asleep runthread) rfl (Nat.le_of_eq hl.running.symm) (fun _ => hne)
    next => exact hl.flushes h _

theorem Looks.reobtain (hl : Looks st t runthread c) (h : Flags k st) :
    Flags k ({ st with cache := c }.reobtain t runthread) := by
  unfold State.reobtain
  split
  · exact hl.takes h _ _
  · exact hl.flushes h _

end

theorem Flags.getFreePage (h : Flags k st) (ht : st.pc t = .out) (inside : Bool) :
    Flags k (st.getFreePage t inside) := by
  have hset : Looks st t true { st.cache with flushcacherun := true } := by
    refine ⟨?_, rfl, ?_, fun _ => Or.inr rfl, fun _ => rfl⟩
    · rw [ht]
      rfl
    · rw [ht]
      rfl
  have hkeep : Looks st t false st.cache := by
    refine ⟨?_, rfl, ?_, Or.inl, ?_⟩
    · rw [ht]
      rfl
    · rw [ht]
      rfl
    · rw [ht]
      exact fun hb => nomatch hb
  unfold State.getFreePage
  split
  · split
    · exact hset.flushes h _
    · exact hset.obtain h
  · exact hkeep.obtain h

/-- A write or a sync fails: the thread is no longer inside and counts on. -/
theorem Flags.failure (h : Flags k st) {caller : Caller} {place : FlushPc}
    (ht : st.pc t = .flush caller place) (hrun : place.running = true) :
    Flags (k + 1) { st.goto t caller.back st.cache with flushMutex := none } := by
  constructor
  · refine h.1.moves (y := caller.back) rfl ?_ ?_ (fun hk => nomatch hk)
    · rw [ht, caller.inFlush_back, show (Pc.flush caller place).inFlush = true from hrun]
      exact Nat.add_right_comm _ _ _
    · rw [ht, caller.waits_back]
      rfl
  · refine h.2.moves (y := caller.back) rfl (Nat.le_refl _) ?_
    rw [caller.sleeps_back]
    exact fun hy => nomatch hy

/-- The last section of a flush. -/
theorem Flags.ends (h : Flags k st) {caller : Caller} {place : FlushPc} {updates : Nat}
    {c : Cache} (ht : st.pc t = .flush caller place) (hrun : place.running = true)
    (hc : c.flags = Cache.endedFlags st.cache.flags) :
    Flags k (st.goto t (.flush caller (.ended updates)) c).broadcast := by
  obtain ⟨hw, hr, hf⟩ : c.freePageWaiters = st.cache.freePageWaiters ∧
      c.flushPageRunning = st.cache.flushPageRunning - 1 ∧ c.flushcacherun = false := by
    simpa [Cache.flags, Cache.endedFlags] using hc
  have hin : (st.pc t).inFlush = true := by
    rw [ht]
    exact hrun
  have hcounts : Counts k (st.goto t (.flush caller (.ended updates)) c) := by
    refine h.1.moves (y := .flush caller (.ended updates)) rfl ?_ ?_ ?_
    · obtain ⟨n, hn, hnk⟩ := h.1.running
      have hpos := hn.pos hin
      rw [hin]
      dsimp only [State.goto]
      rw [hr, show (Pc.flush caller (.ended updates)).inFlush = false from rfl]
      simp only [Bool.toNat_true, Bool.toNat_false]
      omega
    · rw [ht]
      exact congrArg (· + 0) hw.symm
    · intro _ hflag
      exact absurd (hf.symm.trans hflag) (by decide)
  exact ⟨hcounts.broadcast, hcounts.awake_broadcast⟩

/-- A flush goes on, with the flags as they are. -/
theorem Flags.flushing (h : Flags k st) {caller : Caller} {x y : FlushPc}
    (ht : st.pc t = .flush caller x) (hx : x.running = true)
    (hpc : st'.pc = Function.update st.pc t (.flush caller y)) (hy : y.running = true)
    (hflags : st'.cache.flags = st.cache.flags) (hspawn : st'.spawned = st.spawned) :
    Flags k st' := by
  refine h.quiet hpc hflags (Nat.le_of_eq hspawn.symm) ?_ ?_ ?_ rfl
  · rw [ht]
    exact hy.trans hx.symm
  · rw [ht]
    rfl
  · intro _
    cases y <;> first | rfl | cases hy

theorem Flags.fills (h : Flags k st) {caller : Caller} {place : FlushPc}
    (ht : st.pc t = .flush caller place) (hrun : place.running = true) (diskfull : Bool)
    (r : Cache × Filled) (hr : r.1.flags = Cache.filledFlags st.cache.flags r.2) :
    Flags k (st.fills t caller diskfull r) := by
  obtain ⟨c, filled⟩ := r
  cases filled with
  | finished updates => exact h.ends ht hrun hr
  | more work =>
    cases work with
    | insert pages i => exact h.flushing ht hrun rfl rfl hr rfl
    | update pages updates pagecnt =>
      have hgo : Flags k (st.goto t
          (.flush caller (.commit diskfull (.update pages updates pagecnt))) c) :=
        h.flushing ht hrun rfl rfl hr rfl
      exact ⟨hgo.1.broadcast, hgo.1.awake_broadcast⟩

theorem Flags.collects (h : Flags k st) {caller : Caller} {place : FlushPc}
    (ht : st.pc t = .flush caller place) (hrun : place.running = true) (diskfull : Bool) :
    Flags k (st.collects t caller diskfull) := by
  unfold State.collects
  split
  · exact h.flushing ht hrun rfl rfl (Cache.flags_collect _) rfl
  · exact h.flushing ht hrun rfl rfl (Cache.flags_collect _) rfl

omit [DecidableEq ι] in
theorem Flags.discards (h : Flags k st) (pages : List Nat) : Flags k (st.discards pages) := by
  let sorted := pages.insertionSort st.cache.discardLe
  have hd : Flags k { st with cache := st.cache.discard sorted } :=
    h.keep rfl (Cache.flags_foldl_discardPage _ _) (Nat.le_refl _)
  exact ⟨hd.1.broadcast, hd.1.awake_broadcast⟩

/-- A step of a thread that is outside `flush_pages` and does not look for a page. -/
theorem Flags.outside (h : Flags k st) {y : Pc} (hpc : st'.pc = Function.update st.pc t y)
    (hflags : st'.cache.flags = st.cache.flags) (hspawn : st.spawned ≤ st'.spawned)
    (hin : (st.pc t).inFlush = false) (hw : (st.pc t).waits = false)
    (hb : (st.pc t).brings = false) (hy : y.inFlush = false) (hyw : y.waits = false) :
    Flags k st' := by
  refine h.quiet hpc hflags hspawn (hy.trans hin.symm) (hyw.trans hw.symm) ?_ ?_
  · rw [hb]
    exact fun hb' => nomatch hb'
  · cases hs : y.sleeps with
    | false => rfl
    | true =>
      rw [Pc.waits_of_sleeps hs] at hyw
      cases hyw

theorem Flags.evictTakes (h : Flags k st) {sizeinpages : Nat}
    (ht : st.pc t = .evictTake sizeinpages) : Flags k (st.evictTakes t sizeinpages) := by
  have hstart : Flags k (if st.cache.wantsFlush = true then st.schedules.spawns else st) := by
    split
    · refine ⟨⟨h.1.running, h.1.waiting, fun _ _ => Or.inl (Nat.succ_pos _)⟩, h.2⟩
    · exact h
  have hpc : (if st.cache.wantsFlush = true then st.schedules.spawns else st).pc t
      = .evictTake sizeinpages := by
    split <;> exact ht
  unfold State.evictTakes
  dsimp only
  generalize (if st.cache.wantsFlush = true then st.schedules.spawns else st) = st₁ at hstart hpc ⊢
  split
  · exact hstart.outside (y := .evictRead sizeinpages _) rfl rfl (Nat.le_refl _) (by rw [hpc]; rfl)
      (by rw [hpc]; rfl) (by rw [hpc]; rfl) rfl rfl
  · exact hstart.outside (y := .out) rfl rfl (Nat.le_refl _) (by rw [hpc]; rfl) (by rw [hpc]; rfl)
      (by rw [hpc]; rfl) rfl rfl

theorem Flags.step {e : Event ι} (hs : Step st e st') (h : Flags k st) :
    Flags (k + e.fails.toNat) st' := by
  cases hs with
  | getFreePage ht => exact h.getFreePage ht _
  | @awake t runthread ht =>
    have hl : Looks st t runthread
        { st.cache with freePageWaiters := st.cache.freePageWaiters - 1 } := by
      refine ⟨by rw [ht]; rfl, rfl, ?_, Or.inl, by rw [ht]; exact id⟩
      have hpos := h.1.waiting.pos (show (st.pc t).waits = true by rw [ht]; rfl)
      rw [ht]
      exact (Nat.sub_add_cancel hpos).symm
    exact hl.obtain h
  | @relock t ht =>
    have hl : Looks st t false st.cache := by
      refine ⟨by rw [ht]; rfl, rfl, by rw [ht]; rfl, Or.inl, ?_⟩
      rw [ht]
      exact fun hb => nomatch hb
    exact hl.obtain h
  | @recheck t runthread ht =>
    have hl : Looks st t runthread st.cache :=
      ⟨by rw [ht]; rfl, rfl, by rw [ht]; rfl, Or.inl, by rw [ht]; exact id⟩
    exact hl.reobtain h
  | insert => exact h.keep rfl rfl (Nat.le_refl _)
  | add => exact h.keep rfl (Cache.flags_addPageIfNotExists _ _ _ _) (Nat.le_refl _)
  | giveBack => exact h.keep rfl rfl (Nat.le_refl _)
  | touch => exact h.keep rfl rfl (Nat.le_refl _)
  | corrupt => exact h.keep rfl rfl (Nat.le_refl _)
  | switchPage => exact h.keep rfl rfl (Nat.le_refl _)
  | markUsed => exact ⟨⟨h.1.running, h.1.waiting, fun _ _ => Or.inl (Nat.succ_pos _)⟩, h.2⟩
  | timer => exact h.keep rfl rfl (Nat.le_succ _)
  | @flushThread t ht hpos =>
    constructor
    · exact h.1.moves (t := t) (y := .flush .thread .start) rfl (by rw [ht]; rfl) (by rw [ht]; rfl)
        (fun _ _ => Or.inr (Or.inl rfl))
    · exact h.2.moves (t := t) (y := .flush .thread .start) rfl (Nat.le_refl _)
        (fun hy => nomatch hy)
  | @flushCall t ht =>
    have hl : Looks st t false st.cache := by
      refine ⟨by rw [ht]; rfl, rfl, by rw [ht]; rfl, Or.inl, ?_⟩
      rw [ht]
      exact fun hb => nomatch hb
    exact hl.flushes h _
  | @enter t caller ht =>
    constructor
    · refine h.1.moves (t := t) (y := .flush caller .entered) rfl ?_ ?_
        (fun _ _ => Or.inr (Or.inl rfl))
      · rw [ht]
        exact Nat.add_right_comm _ _ _
      · rw [ht]
        rfl
    · exact h.2.moves (t := t) (y := .flush caller .entered) rfl (Nat.le_succ _)
        (fun hy => nomatch hy)
  | enough ht => exact h.flushing ht rfl rfl rfl rfl rfl
  | full ht =>
    exact h.flushing ht rfl rfl rfl (Cache.flags_of_memory (Cache.memory_deletePastDisk _ _ _)) rfl
  | store ht => exact h.flushing ht rfl rfl rfl rfl rfl
  | collect ht => exact h.collects ht rfl _
  | sort ht => exact h.flushing ht rfl rfl rfl rfl rfl
  | @discard t caller pages ht =>
    have hpc : (st.discards pages).pc t = .flush caller (.discarding pages) := by
      unfold State.discards State.broadcast
      dsimp only
      split
      · exact ht
      · exact congrArg Pc.wake ht
    exact (h.discards pages).collects hpc rfl true
  | select ht => exact h.flushing ht rfl rfl rfl rfl rfl
  | write ht => exact h.flushing ht rfl rfl rfl rfl rfl
  | writeFails ht => exact h.failure ht rfl
  | sync ht => exact h.flushing ht rfl rfl rfl rfl rfl
  | syncFails ht => exact h.failure ht rfl
  | begin ht => exact h.flushing ht rfl rfl rfl rfl rfl
  | fill ht => exact h.fills ht rfl _ _ (Cache.flags_fill _ _ _ _ _)
  | commit ht =>
    exact h.flushing ht rfl rfl rfl (Cache.flags_of_memory (Cache.memory_commitTransaction _ _)) rfl
  | @finish t caller updates ok ht =>
    refine h.outside (t := t) (y := caller.back) rfl ?_ (Nat.le_refl _) (by rw [ht]; rfl)
      (by rw [ht]; rfl) (by rw [ht]; rfl) caller.inFlush_back caller.waits_back
    dsimp only [State.goto]
    split
    · exact Cache.flags_of_memory (Cache.memory_rollbackTransaction _)
    · exact Cache.flags_of_memory (Cache.memory_commitTransaction _ _)
  | @clean t ids ht =>
    exact h.outside (t := t) (y := .clean ids) rfl rfl (Nat.le_refl _) (by rw [ht]; rfl)
      (by rw [ht]; rfl) (by rw [ht]; rfl) rfl rfl
  | @cleanRow t id ids ok ht =>
    exact h.outside (t := t) (y := .clean ids) rfl rfl (Nat.le_refl _) (by rw [ht]; rfl)
      (by rw [ht]; rfl) (by rw [ht]; rfl) rfl rfl
  | @cleaned t ht =>
    exact h.outside (t := t) (y := .out) rfl rfl (Nat.le_refl _) (by rw [ht]; rfl)
      (by rw [ht]; rfl) (by rw [ht]; rfl) rfl rfl
  | markPageFree => exact h.keep rfl rfl (Nat.le_refl _)
  | switchPageid => exact h.keep rfl rfl (Nat.le_refl _)
  | resize =>
    exact h.keep rfl (Cache.flags_of_memory (Cache.memory_resizeCache _ _)) (Nat.le_refl _)
  | cleanReadCache => exact h.keep rfl rfl (Nat.le_refl _)
  | @evict t ht =>
    exact h.outside (t := t) (y := .evictTake st.cache.evictPages) rfl
      (Cache.flags_of_memory (Cache.memory_deleteUnallocated _)) (Nat.le_refl _) (by rw [ht]; rfl)
      (by rw [ht]; rfl) (by rw [ht]; rfl) rfl rfl
  | evictTake ht => exact h.evictTakes ht
  | @evictRead t sizeinpages p ht =>
    exact h.outside (t := t) (y := .evictAdd sizeinpages p (st.cache.evictRow sizeinpages)) rfl rfl
      (Nat.le_refl _) (by rw [ht]; rfl) (by rw [ht]; rfl) (by rw [ht]; rfl) rfl rfl
  | @evictReadFails t sizeinpages p ht =>
    exact h.outside (t := t) (y := .out) rfl rfl (Nat.le_refl _) (by rw [ht]; rfl)
      (by rw [ht]; rfl) (by rw [ht]; rfl) rfl rfl
  | @evictAdd t sizeinpages p row crcOk known ht =>
    exact h.outside (t := t) (y := .evictDrop sizeinpages) rfl (Cache.flags_evictAdd _ _ _ _ _)
      (Nat.le_refl _) (by rw [ht]; rfl) (by rw [ht]; rfl) (by rw [ht]; rfl) rfl rfl
  | @evictDrop t sizeinpages ok ht =>
    exact h.outside (t := t) (y := .out) rfl rfl (Nat.le_refl _) (by rw [ht]; rfl)
      (by rw [ht]; rfl) (by rw [ht]; rfl) rfl rfl

end

/-! ## No page is lost -/

namespace Cache

variable (c : Cache) {p q : Nat}

/-- The page is on the free list or in the hash. -/
def Holds (q : Nat) : Prop := q ∈ c.freePages ∨ q ∈ c.hashed

variable {c}

theorem holds_of_memory {c' : Cache} (h : c.memory = c'.memory) (hq : c'.Holds q) :
    c.Holds q := by
  unfold Holds
  rw [show c.freePages = c'.freePages from congrArg Memory.freePages h,
    show c.hashed = c'.hashed from congrArg Memory.hashed h]
  exact hq

theorem mem_addTail {desc : Nat → Desc} {hashed : List Nat} :
    q ∈ addTail desc hashed p ↔ q = p ∨ q ∈ hashed := by
  simp only [addTail, List.mem_append, List.mem_cons, List.mem_filter, decide_eq_true_eq]
  by_cases hb : (desc q).bucket ≤ (desc p).bucket
  · simp only [hb, and_true, not_true_eq_false, and_false, or_false]
    exact or_comm
  · simp only [hb, and_false, not_false_eq_true, and_true, false_or]

theorem Holds.returnFreePage (h : c.Holds q ∨ q = p) : (c.returnFreePage p).Holds q := by
  rcases h with h | h
  · exact h.imp (List.mem_cons_of_mem _) id
  · exact Or.inl (h ▸ List.mem_cons_self)

theorem Holds.insertHash {d : Desc} (h : c.Holds q ∨ q = p) : (c.insertHash p d).Holds q := by
  rcases h with (h | h) | h
  · exact Or.inl h
  · exact Or.inr (mem_addTail.mpr (Or.inr h))
  · exact Or.inr (mem_addTail.mpr (Or.inl h))

theorem Holds.addPageIfNotExists {d : Desc} {known : Bool} (h : c.Holds q ∨ q = p) :
    (c.addPageIfNotExists p d known).Holds q := by
  unfold Cache.addPageIfNotExists
  split
  · exact Holds.returnFreePage h
  · exact Holds.insertHash h

theorem Holds.evictAdd {row : Option Desc} {crcOk known : Bool} (h : c.Holds q ∨ q = p) :
    (c.evictAdd p row crcOk known).Holds q := by
  unfold Cache.evictAdd
  split
  · exact Holds.returnFreePage h
  · split
    · exact Holds.addPageIfNotExists h
    · exact Holds.returnFreePage h

/-- A page that leaves its list for the free list. -/
theorem Holds.recycle (h : c.Holds q) : ((c.listDel p).returnFreePage p).Holds q := by
  refine Holds.returnFreePage ?_
  rcases eq_or_ne q p with hqp | hqp
  · exact Or.inr hqp
  · exact Or.inl (h.imp (List.mem_erase_of_ne hqp).mpr (List.mem_erase_of_ne hqp).mpr)

theorem Holds.switchPage {newhash : Nat} (h : c.Holds q) : (c.switchPage p newhash).Holds q := by
  refine h.imp id ?_
  intro hq
  refine mem_addTail.mpr ?_
  rcases eq_or_ne q p with hqp | hqp
  · exact Or.inl hqp
  · exact Or.inr ((List.mem_erase_of_ne hqp).mpr hq)

theorem Holds.freeCachePages (h : c.Holds q) : c.freeCachePages.Holds q := by
  rcases h with h | h
  · exact Or.inl (List.mem_append_right _ h)
  · by_cases hq : (c.desc q).type = .cache
    · refine Or.inl (List.mem_append_left _ (List.mem_reverse.mpr ?_))
      exact List.mem_filter.mpr ⟨h, by simpa using hq⟩
    · exact Or.inr (List.mem_filter.mpr ⟨h, by simpa using hq⟩)

theorem Holds.collect (h : c.Holds q) : c.collect.1.Holds q := by
  unfold Cache.collect
  split
  · exact h
  · exact h.freeCachePages

theorem Holds.discard {sorted : List Nat} (h : c.Holds q) : (c.discard sorted).Holds q := by
  unfold Cache.discard
  induction sorted.take (CACHE_PAGES / 2) generalizing c with
  | nil => exact h
  | cons p l ih => exact ih (Holds.recycle h)

theorem Holds.updateBatch {sql : Statements} {nosleep : Nat} {pages : List Nat}
    {updates pagecnt : Nat} (h : c.Holds q) :
    (Cache.updateBatch sql nosleep pages c updates pagecnt).1.Holds q := by
  induction pages generalizing c updates pagecnt with
  | nil => exact h
  | cons p ps ih =>
    have hp : (c.flushPage sql p).1.Holds q :=
      holds_of_memory (memory_flushPage c sql p) h.recycle
    unfold Cache.updateBatch
    dsimp only
    split
    · exact hp
    · exact ih hp

theorem Holds.fillUpdates {sql : Statements} {nosleep : Nat} {pages : List Nat}
    {updates pagecnt : Nat} (h : c.Holds q) :
    (c.fillUpdates sql nosleep pages updates pagecnt).1.Holds q := by
  have hb : (Cache.updateBatch sql nosleep pages c updates pagecnt).1.Holds q := h.updateBatch
  unfold Cache.fillUpdates
  split
  next heq =>
    rw [heq] at hb
    exact hb
  next heq =>
    rw [heq] at hb
    exact hb

theorem Holds.fill {sql : Statements} {nosleep : Nat} {diskfull : Bool} {work : Work}
    (h : c.Holds q) : (c.fill sql nosleep diskfull work).1.Holds q := by
  cases work with
  | update pages updates pagecnt => exact h.fillUpdates
  | insert pages i =>
    have hb : (insertBatch sql (64 - i % 64) c i).1.Holds q :=
      holds_of_memory (memory_insertBatch c sql (64 - i % 64) i) h
    unfold Cache.fill
    dsimp only
    split
    · exact h.fillUpdates
    · split
      next heq =>
        rw [heq] at hb
        exact hb
      next c' i' heq =>
        rw [heq] at hb
        exact Holds.fillUpdates (show Holds { c' with .. } q from hb)

end Cache

/-- Every page is on the free list, in the hash, or in the hands of a thread. -/
def Covered (st : State ι) : Prop :=
  ∀ p < CACHE_PAGES, st.cache.Holds p ∨ ∃ t, (t, p) ∈ st.hands

section

variable {st st' : State ι}

theorem Covered.keep (h : Covered st) (hands : st'.hands = st.hands)
    (hc : ∀ p, st.cache.Holds p → st'.cache.Holds p) : Covered st' := by
  intro p hp
  rw [hands]
  exact (h p hp).imp (hc p) id

theorem Covered.broadcast (h : Covered st) : Covered st.broadcast := by
  unfold State.broadcast
  split <;> exact h

variable [DecidableEq ι] {t : ι}

theorem Covered.gives (h : Covered st) {q : Nat} {c : Cache}
    (hc : ∀ p, st.cache.Holds p ∨ p = q → c.Holds p) : Covered (st.gives t q c) := by
  intro p hp
  rcases h p hp with hold | ⟨u, hu⟩
  · exact Or.inl (hc p (Or.inl hold))
  · rcases eq_or_ne (u, p) (t, q) with heq | hne
    · exact Or.inl (hc p (Or.inr (congrArg Prod.snd heq)))
    · exact Or.inr ⟨u, (List.mem_erase_of_ne hne).mpr hu⟩

omit [DecidableEq ι] in
/-- The head of the free list goes to a thread. -/
theorem Covered.pops (h : Covered st) {q : Nat} {rest : List Nat}
    (hfree : st.cache.freePages = q :: rest) (hands : st'.hands = (t, q) :: st.hands)
    (hrest : st'.cache.freePages = rest) (hhash : st'.cache.hashed = st.cache.hashed) :
    Covered st' := by
  intro p hp
  rcases h p hp with (hold | hold) | ⟨u, hu⟩
  · rw [hfree] at hold
    rcases List.mem_cons.mp hold with rfl | hmem
    · exact Or.inr ⟨t, by rw [hands]; exact List.mem_cons_self⟩
    · exact Or.inl (Or.inl (hrest ▸ hmem))
  · exact Or.inl (Or.inr (hhash ▸ hold))
  · exact Or.inr ⟨u, by rw [hands]; exact List.mem_cons_of_mem _ hu⟩

theorem Covered.obtain (h : Covered st) (runthread : Bool) : Covered (st.obtain t runthread) := by
  unfold State.obtain
  split
  next hfree => exact h.pops hfree rfl rfl rfl
  next =>
    split
    · exact h
    · exact h

theorem Covered.reobtain (h : Covered st) (runthread : Bool) :
    Covered (st.reobtain t runthread) := by
  unfold State.reobtain
  split
  next hfree => exact h.pops hfree rfl rfl rfl
  next => exact h

theorem Covered.getFreePage (h : Covered st) (inside : Bool) :
    Covered (st.getFreePage t inside) := by
  have hs : Covered st.schedules := h
  unfold State.getFreePage
  split
  · split
    · exact h
    · exact hs.obtain true
  · exact h.obtain false

theorem Covered.collects (h : Covered st) (caller : Caller) (diskfull : Bool) :
    Covered (st.collects t caller diskfull) := by
  unfold State.collects
  split
  · exact h.keep rfl fun _ hp => hp.collect
  · exact h.keep rfl fun _ hp => hp.collect

theorem Covered.fills (h : Covered st) (caller : Caller) (diskfull : Bool) (r : Cache × Filled)
    (hr : ∀ p, st.cache.Holds p → r.1.Holds p) : Covered (st.fills t caller diskfull r) := by
  obtain ⟨c, filled⟩ := r
  have hgo : ∀ pc, Covered (st.goto t pc c) := fun _ => h.keep rfl hr
  match filled with
  | .finished updates => exact (hgo _).broadcast
  | .more (.insert pages i) => exact hgo _
  | .more (.update pages updates pagecnt) => exact (hgo _).broadcast

theorem Covered.evictTakes (h : Covered st) (sizeinpages : Nat) :
    Covered (st.evictTakes t sizeinpages) := by
  have hstart : Covered (if st.cache.wantsFlush = true then st.schedules.spawns else st) := by
    split <;> exact h
  unfold State.evictTakes
  dsimp only
  generalize (if st.cache.wantsFlush = true then st.schedules.spawns else st) = st₁ at hstart ⊢
  split
  next hfree => exact hstart.pops hfree rfl rfl rfl
  next => exact hstart

theorem Covered.step {e : Event ι} (hs : Step st e st') (h : Covered st) : Covered st' := by
  cases hs with
  | getFreePage => exact h.getFreePage _
  | awake =>
    have hw : Covered { st with cache := { st.cache with
        freePageWaiters := st.cache.freePageWaiters - 1 } } := h
    exact hw.obtain _
  | relock => exact h.obtain _
  | recheck => exact h.reobtain _
  | insert => exact h.gives fun _ hp => Cache.Holds.insertHash hp
  | add => exact h.gives fun _ hp => Cache.Holds.addPageIfNotExists hp
  | giveBack => exact h.gives fun _ hp => Cache.Holds.returnFreePage hp
  | touch => exact h
  | corrupt => exact h.keep rfl fun _ hp => hp.recycle
  | switchPage => exact h.keep rfl fun _ hp => hp.switchPage
  | markUsed => exact h
  | timer => exact h
  | flushThread => exact h
  | flushCall => exact h
  | enter => exact h
  | enough => exact h
  | full => exact h.keep rfl fun _ hp =>
    Cache.holds_of_memory (Cache.memory_deletePastDisk _ _ _) hp
  | store => exact h
  | collect => exact h.collects _ _
  | sort => exact h.keep rfl fun _ hp => hp.freeCachePages
  | @discard t caller pages ht =>
    have hd : Covered (st.discards pages) :=
      Covered.broadcast (h.keep rfl fun _ hp => hp.discard)
    exact hd.collects _ _
  | select => exact h
  | write => exact h
  | writeFails => exact h
  | sync => exact h
  | syncFails => exact h
  | begin => exact h
  | fill => exact h.fills _ _ _ fun _ hp => hp.fill
  | commit =>
    exact h.keep rfl fun _ hp => Cache.holds_of_memory (Cache.memory_commitTransaction _ _) hp
  | @finish t caller updates ok ht =>
    refine h.keep rfl fun _ hp => ?_
    dsimp only [State.goto]
    split
    · exact Cache.holds_of_memory (Cache.memory_rollbackTransaction _) hp
    · exact Cache.holds_of_memory (Cache.memory_commitTransaction _ _) hp
  | clean => exact h
  | cleanRow => exact h
  | cleaned => exact h
  | markPageFree => exact h
  | switchPageid => exact h
  | resize => exact h.keep rfl fun _ hp => Cache.holds_of_memory (Cache.memory_resizeCache _ _) hp
  | cleanReadCache => exact h
  | evict =>
    exact h.keep rfl fun _ hp => Cache.holds_of_memory (Cache.memory_deleteUnallocated _) hp
  | evictTake => exact h.evictTakes _
  | evictRead => exact h
  | evictReadFails => exact Covered.gives (h.keep rfl fun _ hp => hp) fun _ hp =>
      Cache.Holds.returnFreePage hp
  | @evictAdd t sizeinpages p row crcOk known ht =>
    refine Covered.gives (h.keep rfl fun _ hp => hp) fun _ hp => ?_
    exact Cache.Holds.evictAdd hp
  | evictDrop => exact h

end

/-! ## Whole runs -/

theorem Run.flags [DecidableEq ι] {st st' : State ι} {es : List (Event ι)} (h : Run st es st')
    (hst : Flags 0 st) : Flags (es.countP Event.fails) st' := by
  induction h with
  | nil => exact hst
  | @snoc st' st'' es e hrun hs ih =>
    rw [List.countP_append, List.countP_singleton]
    have hstep := ih.step hs
    cases hf : e.fails with
    | true =>
      rw [hf] at hstep
      exact hstep
    | false =>
      rw [hf] at hstep
      exact hstep

theorem Run.covered [DecidableEq ι] {st st' : State ι} {es : List (Event ι)} (h : Run st es st')
    (hst : Covered st) : Covered st' := by
  induction h with
  | nil => exact hst
  | snoc hrun hs ih => exact ih.step hs

/-- The state behind `psync_pagecache_init`. -/
def State.booted (rows : Table) (file : Option Nat) (fscachesize : Nat) (k : Cache.DiskCheck) :
    State ι :=
  State.init (Cache.boot rows file fscachesize k)

section

variable (rows : Table) (file : Option Nat) (fscachesize : Nat) (k : Cache.DiskCheck)

theorem flags_booted : Flags 0 (State.booted rows file fscachesize k : State ι) := by
  have hf := Cache.flags_boot rows file fscachesize k
  have hw : (Cache.boot rows file fscachesize k).freePageWaiters = 0 := congrArg (·.1) hf
  have hr : (Cache.boot rows file fscachesize k).flushPageRunning = 0 := congrArg (·.2.1) hf
  have hc : (Cache.boot rows file fscachesize k).flushcacherun = false := congrArg (·.2.2) hf
  refine ⟨⟨⟨0, Census.of_none fun _ => rfl, hr⟩, ?_, ?_⟩, fun _ hs => nomatch hs⟩
  · show Census _ _ (Cache.boot rows file fscachesize k).freePageWaiters
    rw [hw]
    exact Census.of_none fun _ => rfl
  · intro _ hflag
    exact absurd (hc.symm.trans hflag) (by decide)

theorem covered_booted : Covered (State.booted rows file fscachesize k : State ι) := by
  intro p hp
  refine Or.inl (Cache.holds_of_memory (Cache.memory_boot rows file fscachesize k) (Or.inl ?_))
  exact List.mem_range'.mpr ⟨p, hp, by simp⟩

end

/-- In every run, of any number of threads and with any outcomes, the flags are those of the
flushes that still run and no page is lost, exactly where no write and no sync of the cache file
failed. -/
theorem flush_restores_iff [DecidableEq ι] {rows : Table} {file : Option Nat} {fscachesize : Nat}
    {k : Cache.DiskCheck} {es : List (Event ι)} {st : State ι}
    (h : Run (State.booted rows file fscachesize k) es st) :
    Restored st ↔ ∀ e ∈ es, e.fails = false := by
  obtain ⟨hcounts, hawake⟩ := h.flags (flags_booted rows file fscachesize k)
  obtain ⟨n, hn, hnk⟩ := hcounts.running
  have hzero : es.countP Event.fails = 0 ↔ ∀ e ∈ es, e.fails = false := by
    rw [List.countP_eq_zero]
    simp
  rw [← hzero]
  constructor
  · intro hr
    have := hr.running.eq hn
    omega
  · intro hnone
    rw [hnone] at hnk
    refine ⟨?_, hcounts.scheduled hnone, ?_, ?_⟩
    · rw [hnk]
      exact hn
    · intro t ht
      have hne := hawake t ht
      exact hn.exists_of_pos (by omega)
    · intro p hp
      exact or_assoc.mp (h.covered (covered_booted rows file fscachesize k) p hp)

/-- A page came, and a flush has a row for it. -/
def atWrite : State Unit :=
  let st : State Unit := (State.booted [] none 4096 .roomy).getFreePage () false
  let st := st.gives () 0 (st.cache.insertHash 0 ⟨7, 0, 1, 4096, 1, 0, .read⟩)
  let st := st.goto () (.flush .api .start) st.cache
  let st := st.goto () (.flush .api .entered)
    { st.cache with flushPageRunning := st.cache.flushPageRunning + 1, flushcacherun := true }
  let st := { st.goto () (.flush .api (.checked false)) (st.cache.readMaxPage .roomy) with
    flushMutex := some () }
  let st := st.collects () .api false
  st.goto () (.flush .api (.writing false [0] [0])) (st.cache.assignIds (st.cache.assign [0] 1))

theorem reaches_atWrite : ∃ es : List (Event Unit),
    Run (State.booted [] none 4096 .roomy) es atWrite ∧ ∀ e ∈ es, e.fails = false := by
  have h₀ := Run.nil (State.booted [] none 4096 .roomy : State Unit)
  have h₁ := h₀.snoc (e := .getFreePage () false) (.getFreePage rfl)
  have h₂ := h₁.snoc (e := .insert () 0 ⟨7, 0, 1, 4096, 1, 0, .read⟩)
    (.insert (by decide) rfl (by decide))
  have h₃ := h₂.snoc (e := .flushCall ()) (.flushCall rfl)
  have h₄ := h₃.snoc (e := .enter ()) (.enter rfl)
  have h₅ := h₄.snoc (e := .check () .roomy) (.enough rfl rfl rfl (by decide))
  have h₆ := h₅.snoc (e := .collect ()) (.collect rfl (fun h => nomatch h.1))
  have h₇ := h₆.snoc (e := .select () 1) (.select rfl rfl)
  exact ⟨_, h₇, by simp [Event.fails]⟩

/-- The page is written, its row is updated and the flush returns, although the commit fails. -/
theorem flush_restores_returned : ∃ (es : List (Event Unit)) (st : State Unit),
    Run (State.booted [] none 4096 .roomy) es st ∧ st.pc () = .out ∧ st.flushMutex = none ∧
      st.cache.flushPageRunning = 0 ∧ st.cache.flushcacherun = false ∧ Restored st := by
  obtain ⟨es, hrun, hok⟩ := reaches_atWrite
  have h₁ := hrun.snoc (e := .write () true) (.write rfl)
  have h₂ := h₁.snoc (e := .sync () true) (.sync rfl)
  have h₃ := h₂.snoc (e := .begin ()) (.begin rfl rfl)
  have h₄ := h₃.snoc (e := .fill () .fine) (.fill rfl)
  have h₅ := h₄.snoc (e := .finish () false) (.finish rfl)
  refine ⟨_, _, h₅, rfl, rfl, rfl, rfl, (flush_restores_iff h₅).mpr ?_⟩
  intro e he
  simp only [List.append_assoc, List.cons_append, List.nil_append, List.mem_append, List.mem_cons,
    List.not_mem_nil, or_false] at he
  rcases he with he | rfl | rfl | rfl | rfl | rfl
  · exact hok e he
  all_goals rfl

/-- A flush that cannot write its page returns and `flush_page_running` stays. -/
theorem failed_write_keeps_running : ¬∀ (es : List (Event Unit)) (st : State Unit),
    Run (State.booted [] none 4096 .roomy) es st → Restored st := by
  intro h
  obtain ⟨es, hrun, -⟩ := reaches_atWrite
  have hrest := h _ _ (hrun.snoc (e := .write () false) (.writeFails rfl))
  obtain ⟨u, hu⟩ := hrest.running.exists_of_pos (show 0 < atWrite.cache.flushPageRunning by decide)
  exact nomatch hu

end PcloudClient.Ppagecache
