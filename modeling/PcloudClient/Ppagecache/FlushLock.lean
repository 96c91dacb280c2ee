/-
  Ppagecache/FlushLock.lean --- at most one thread is between `flush_cache_mutex` and its release.
-/
import PcloudClient.Ppagecache.Threads

set_option autoImplicit false

namespace PcloudClient.Ppagecache

/-- `flush_pages` has the mutex. -/
def FlushPc.locks : FlushPc → Bool
  | start => false
  | entered => false
  | _ => true

namespace Pc

/-- The thread has `flush_cache_mutex`. -/
def locks : Pc → Bool
  | flush _ place => place.locks
  | evictTake _ => true
  | evictRead _ _ => true
  | evictAdd _ _ _ => true
  | evictDrop _ => true
  | _ => false

theorem locks_wake (x : Pc) : x.wake.locks = x.locks := by cases x <;> rfl

end Pc

theorem Caller.locks_back (caller : Caller) : caller.back.locks = false := by
  cases caller <;> rfl

variable {ι : Type}

/-- Who is between `flush_cache_mutex` and its release has it. -/
def Owned (st : State ι) : Prop := ∀ t, (st.pc t).locks = true → st.flushMutex = some t

section

variable {st st' : State ι} {t : ι}

theorem Owned.unique (h : Owned st) (ht : (st.pc t).locks = true) {u : ι}
    (hu : (st.pc u).locks = true) : u = t :=
  Option.some.inj ((h u hu).symm.trans (h t ht))

theorem Owned.none (h : Owned st) (hm : st.flushMutex = none) (t : ι) :
    (st.pc t).locks = false := by
  cases ht : (st.pc t).locks with
  | false => rfl
  | true =>
    have := h t ht
    rw [hm] at this
    cases this

theorem Owned.others (h : Owned st) (ht : (st.pc t).locks = true) {u : ι} (hut : u ≠ t) :
    (st.pc u).locks = false := by
  cases hu : (st.pc u).locks with
  | false => rfl
  | true => exact absurd (h.unique ht hu) hut

theorem Owned.keep (h : Owned st) (hpc : st'.pc = st.pc) (hm : st'.flushMutex = st.flushMutex) :
    Owned st' := by
  intro t
  rw [hpc, hm]
  exact h t

theorem Owned.broadcast (h : Owned st) : Owned st.broadcast := by
  unfold State.broadcast
  split
  · exact h
  · intro t ht
    dsimp only at ht ⊢
    rw [Pc.locks_wake] at ht
    exact h t ht

variable [DecidableEq ι] {y : Pc}

/-- A thread moves and has the mutex exactly where it had it. -/
theorem Owned.moves (h : Owned st) (hpc : st'.pc = Function.update st.pc t y)
    (hm : st'.flushMutex = st.flushMutex) (hy : y.locks = (st.pc t).locks) : Owned st' := by
  intro u hu
  rw [hpc] at hu
  rw [hm]
  rcases eq_or_ne u t with rfl | hut
  · rw [Function.update_self, hy] at hu
    exact h u hu
  · rw [Function.update_of_ne hut] at hu
    exact h u hu

/-- A thread takes the mutex. -/
theorem Owned.locks (h : Owned st) (hpc : st'.pc = Function.update st.pc t y)
    (hfree : st.flushMutex = Option.none) (hm : st'.flushMutex = some t) : Owned st' := by
  intro u hu
  rw [hpc] at hu
  rw [hm]
  rcases eq_or_ne u t with rfl | hut
  · rfl
  · rw [Function.update_of_ne hut, h.none hfree u] at hu
    cases hu

/-- The thread that has the mutex releases it. -/
theorem Owned.unlocks (h : Owned st) (ht : (st.pc t).locks = true)
    (hpc : st'.pc = Function.update st.pc t y) (hy : y.locks = false) : Owned st' := by
  intro u hu
  rw [hpc] at hu
  rcases eq_or_ne u t with rfl | hut
  · rw [Function.update_self, hy] at hu
    cases hu
  · rw [Function.update_of_ne hut] at hu
    exact absurd (h.unique ht hu) hut

theorem Owned.obtain (h : Owned st) (ht : (st.pc t).locks = false) (runthread : Bool) :
    Owned (st.obtain t runthread) := by
  unfold State.obtain
  split
  · exact h.moves (y := .out) rfl rfl ht.symm
  · split
    · exact h.moves (y := .asleep runthread) rfl rfl ht.symm
    · exact h.moves (y := .flush (.getEmpty runthread) .start) rfl rfl ht.symm

theorem Owned.reobtain (h : Owned st) (ht : (st.pc t).locks = false) (runthread : Bool) :
    Owned (st.reobtain t runthread) := by
  unfold State.reobtain
  split
  · exact h.moves (y := .out) rfl rfl ht.symm
  · exact h.moves (y := .flush (.getEmpty runthread) .start) rfl rfl ht.symm

theorem Owned.getFreePage (h : Owned st) (ht : (st.pc t).locks = false) (inside : Bool) :
    Owned (st.getFreePage t inside) := by
  have hs : Owned st.schedules := h
  unfold State.getFreePage
  split
  · split
    · exact hs.moves (y := .flush .getInside .start) rfl rfl ht.symm
    · exact hs.obtain ht true
  · exact h.obtain ht false

theorem Owned.collects (h : Owned st) (ht : (st.pc t).locks = true) (caller : Caller)
    (diskfull : Bool) : Owned (st.collects t caller diskfull) := by
  unfold State.collects
  split
  · exact h.moves (t := t) rfl rfl ht.symm
  · exact h.moves (t := t) rfl rfl ht.symm

theorem Owned.fills (h : Owned st) (ht : (st.pc t).locks = true) (caller : Caller)
    (diskfull : Bool) (r : Cache × Filled) : Owned (st.fills t caller diskfull r) := by
  obtain ⟨c, filled⟩ := r
  have hgo : ∀ place : FlushPc, place.locks = true → Owned (st.goto t (.flush caller place) c) :=
    fun place hp => h.moves (t := t) rfl rfl (Eq.trans hp ht.symm)
  match filled with
  | .finished updates => exact (hgo _ rfl).broadcast
  | .more (.insert pages i) => exact hgo _ rfl
  | .more (.update pages updates pagecnt) => exact (hgo _ rfl).broadcast

theorem Owned.evictTakes (h : Owned st) {sizeinpages : Nat}
    (ht : st.pc t = .evictTake sizeinpages) : Owned (st.evictTakes t sizeinpages) := by
  have hstart : Owned (if st.cache.wantsFlush = true then st.schedules.spawns else st) := by
    split <;> exact h
  have hpc : ((if st.cache.wantsFlush = true then st.schedules.spawns else st).pc t).locks
      = true := by
    split <;> exact congrArg Pc.locks ht
  unfold State.evictTakes
  dsimp only
  generalize (if st.cache.wantsFlush = true then st.schedules.spawns else st) = st₁ at hstart hpc ⊢
  split
  · exact hstart.moves (y := .evictRead sizeinpages _) rfl rfl hpc.symm
  · exact hstart.unlocks (y := .out) hpc rfl rfl

theorem Owned.step {e : Event ι} (hs : Step st e st') (h : Owned st) : Owned st' := by
  cases hs with
  | getFreePage ht => exact h.getFreePage (by rw [ht]; rfl) _
  | @awake t runthread ht =>
    have hw : Owned { st with cache := { st.cache with
        freePageWaiters := st.cache.freePageWaiters - 1 } } := h
    exact hw.obtain (show (st.pc t).locks = false by rw [ht]; rfl) _
  | relock ht => exact h.obtain (by rw [ht]; rfl) _
  | recheck ht => exact h.reobtain (by rw [ht]; rfl) _
  | insert => exact h
  | add => exact h
  | giveBack => exact h
  | touch => exact h
  | corrupt => exact h
  | switchPage => exact h
  | markUsed => exact h
  | timer => exact h
  | @flushThread t ht => exact h.moves (t := t) rfl rfl (by rw [ht]; rfl)
  | @flushCall t ht => exact h.moves (t := t) rfl rfl (by rw [ht]; rfl)
  | @enter t caller ht => exact h.moves (t := t) rfl rfl (by rw [ht]; rfl)
  | enough ht hm => exact h.locks rfl hm rfl
  | full ht hm => exact h.locks rfl hm rfl
  | @store t caller maxpage n ht => exact h.moves (t := t) rfl rfl (by rw [ht]; rfl)
  | collect ht => exact h.collects (by rw [ht]; rfl) _ _
  | @sort t caller ht => exact h.moves (t := t) rfl rfl (by rw [ht]; rfl)
  | @discard t caller pages ht =>
    have hd : Owned (st.discards pages) := by
      let sorted := pages.insertionSort st.cache.discardLe
      exact Owned.broadcast (show Owned { st with cache := st.cache.discard sorted } from h)
    have hpc : ((st.discards pages).pc t).locks = true := by
      unfold State.discards State.broadcast
      dsimp only
      split
      · rw [ht]
        rfl
      · dsimp only
        rw [ht]
        rfl
    exact hd.collects hpc _ _
  | @select t caller diskfull pages fetched ht =>
    exact h.moves (t := t) rfl rfl (by rw [ht]; rfl)
  | @write t caller diskfull pages todo p ht =>
    exact h.moves (t := t) rfl rfl (by rw [ht]; rfl)
  | @writeFails t caller diskfull pages todo p ht =>
    exact h.unlocks (t := t) (by rw [ht]; rfl) rfl caller.locks_back
  | @sync t caller diskfull pages ht => exact h.moves (t := t) rfl rfl (by rw [ht]; rfl)
  | @syncFails t caller diskfull pages ht =>
    exact h.unlocks (t := t) (by rw [ht]; rfl) rfl caller.locks_back
  | @begin t caller diskfull work ht => exact h.moves (t := t) rfl rfl (by rw [ht]; rfl)
  | fill ht => exact h.fills (by rw [ht]; rfl) _ _ _
  | @commit t caller diskfull work ok ht => exact h.moves (t := t) rfl rfl (by rw [ht]; rfl)
  | @finish t caller updates ok ht =>
    exact h.unlocks (t := t) (by rw [ht]; rfl) rfl caller.locks_back
  | @clean t ids ht => exact h.moves (t := t) rfl rfl (by rw [ht]; rfl)
  | @cleanRow t id ids ok ht => exact h.moves (t := t) rfl rfl (by rw [ht]; rfl)
  | @cleaned t ht => exact h.moves (t := t) rfl rfl (by rw [ht]; rfl)
  | markPageFree => exact h
  | switchPageid => exact h
  | resize => exact h
  | cleanReadCache => exact h
  | evict ht hm => exact h.locks rfl hm rfl
  | evictTake ht => exact h.evictTakes ht
  | @evictRead t sizeinpages p ht => exact h.moves (t := t) rfl rfl (by rw [ht]; rfl)
  | @evictReadFails t sizeinpages p ht =>
    exact h.unlocks (t := t) (y := .out) (by rw [ht]; rfl) rfl rfl
  | @evictAdd t sizeinpages p row crcOk known ht =>
    exact h.moves (t := t) (y := .evictDrop sizeinpages) rfl rfl (by rw [ht]; rfl)
  | @evictDrop t sizeinpages ok ht =>
    exact h.unlocks (t := t) (y := .out) (by rw [ht]; rfl) rfl rfl

end

theorem owned_init (c : Cache) : Owned (State.init c : State ι) := fun _ ht => nomatch ht

end PcloudClient.Ppagecache
