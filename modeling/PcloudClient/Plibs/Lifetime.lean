/-
  Plibs/Lifetime.lean --- the references to the manager, and its end.

  The manager is destroyed once, by the last that drops its reference, as long as
  `psync_task_free` does not read the count between the decrement of a thread and its unlock.
-/
import PcloudClient.Foundation.Census
import PcloudClient.Plibs.TaskManager

set_option autoImplicit false

namespace PcloudClient.Plibs

variable {D : Type} {cnt : Nat}

namespace Worker

/-- Has not dropped its reference. -/
def busy : Worker → Bool
  | .notStarted | .running | .waits _ | .completed => true
  | _ => false

/-- Will use the manager. -/
def touches : Worker → Bool
  | .tests n => decide (n = 0)
  | .ended => false
  | _ => true

theorem touches_of_busy {w : Worker} (h : w.busy = true) : w.touches = true := by
  cases w <;> first | rfl | exact nomatch h

end Worker

namespace Owner

/-- Outside of `psync_task_free`, or in it and before its critical section. -/
def busy : Owner cnt → Bool
  | .starting _ | .outside | .waits _ _ | .freeing => true
  | _ => false

/-- The reference of the owner is in the count. -/
def counted : Owner cnt → Bool
  | .tests _ | .ended => false
  | _ => true

/-- Will use the manager. -/
def touches : Owner cnt → Bool
  | .tests n => decide (n = 0)
  | .ended | .destroyed => false
  | _ => true

theorem touches_of_busy {o : Owner cnt} (h : o.busy = true) : o.touches = true := by
  cases o <;> first | rfl | exact nomatch h

theorem counted_of_busy {o : Owner cnt} (h : o.busy = true) : o.counted = true := by
  cases o <;> first | rfl | exact nomatch h

end Owner

/-! ## The stages of the manager -/

/-- References are left, and nobody saw the count reach 0. -/
structure Shared (s : State D cnt) : Prop where
  refcnt : s.refcnt ≠ 0
  destroyed : s.destroyed = 0
  alive : s.owner ≠ .destroyed
  workers : ∀ i n, s.workers i = .unlocks n ∨ s.workers i = .tests n → n ≠ 0
  owner : ∀ n, s.owner = .tests n → n ≠ 0

inductive Life (s : State D cnt) : Prop where
  | shared (h : Shared s)
  /-- A thread dropped the last reference. -/
  | lastWorker (i : Fin cnt) (refcnt : s.refcnt = 0) (destroyed : s.destroyed = 0)
      (last : s.workers i = .unlocks 0 ∨ s.workers i = .tests 0)
      (owner : s.owner.touches = false) (others : ∀ j, j ≠ i → (s.workers j).touches = false)
  /-- The owner dropped the last reference. -/
  | lastOwner (refcnt : s.refcnt = 0) (destroyed : s.destroyed = 0) (last : s.owner = .tests 0)
      (workers : ∀ j, (s.workers j).touches = false)
  | gone (destroyed : s.destroyed = 1) (owner : s.owner.touches = false)
      (workers : ∀ j, (s.workers j).touches = false)

structure References (s : State D cnt) : Prop where
  refs : ∃ n, Census Worker.busy s.workers n ∧ s.refcnt = n + s.owner.counted.toNat
  mutex : ∀ i, s.mutex = some i ↔ ∃ n, s.workers i = .unlocks n
  life : Life s

theorem Life.shared_of_worker {s : State D cnt} (h : Life s) {i : Fin cnt}
    (hbusy : (s.workers i).busy = true) : Shared s := by
  have htouches := Worker.touches_of_busy hbusy
  cases h with
  | shared h => exact h
  | lastWorker k _ _ last _ others =>
    by_cases hk : i = k
    · subst hk
      rcases last with hw | hw <;> rw [hw] at hbusy <;> exact nomatch hbusy
    · rw [others i hk] at htouches
      exact nomatch htouches
  | lastOwner _ _ _ workers => rw [workers i] at htouches; exact nomatch htouches
  | gone _ _ workers => rw [workers i] at htouches; exact nomatch htouches

theorem Life.shared_of_owner {s : State D cnt} (h : Life s) (hbusy : s.owner.busy = true) :
    Shared s := by
  have htouches := Owner.touches_of_busy hbusy
  cases h with
  | shared h => exact h
  | lastWorker _ _ _ _ owner _ => rw [owner] at htouches; exact nomatch htouches
  | lastOwner _ _ last _ => rw [last] at hbusy; exact nomatch hbusy
  | gone _ owner _ => rw [owner] at htouches; exact nomatch htouches

/-- Where nobody has the mutex, a thread without a reference is behind its unlock. -/
theorem References.quiet {s : State D cnt} (h : References s) (hshared : Shared s)
    (hfree : s.mutex = none) {j : Fin cnt} (hj : (s.workers j).busy = false) :
    (s.workers j).touches = false := by
  cases hw : s.workers j with
  | notStarted | running | completed => rw [hw] at hj; exact nomatch hj
  | waits _ => rw [hw] at hj; exact nomatch hj
  | unlocks n =>
    have hmutex := (h.mutex j).mpr ⟨n, hw⟩
    rw [hfree] at hmutex
    exact nomatch hmutex
  | tests n => exact decide_eq_false (hshared.workers j n (Or.inr hw))
  | ended => rfl

theorem References.init (params : Fin cnt → D) : References (State.init params) where
  refs := by
    refine ⟨cnt, ?_, rfl⟩
    have huniv : {i | Worker.busy ((State.init params).workers i) = true} = Set.univ := by
      ext i
      simp [State.init, Worker.busy]
    unfold Census
    rw [huniv]
    simp
  mutex i := ⟨fun h => (nomatch h), fun ⟨n, h⟩ => (nomatch h)⟩
  life := .shared ⟨show ((cnt : Int) + 1) ≠ 0 by omega, rfl, (nofun),
    fun _ _ h => h.elim (nofun) (nofun), (nofun)⟩

/-! ## Steps that keep the references -/

/-- Threads and owner move on without dropping a reference. -/
theorem References.keeps {s s' : State D cnt} (h : References s) (hshared : Shared s)
    (refcnt : s'.refcnt = s.refcnt) (destroyed : s'.destroyed = s.destroyed)
    (mutex : s'.mutex = s.mutex)
    (workers : ∀ j, s'.workers j = s.workers j ∨
      (s.workers j).busy = true ∧ (s'.workers j).busy = true)
    (owner : s'.owner = s.owner ∨ s.owner.busy = true ∧ s'.owner.busy = true) :
    References s' := by
  obtain ⟨n, hcensus, hcount⟩ := h.refs
  have hunlocks : ∀ j n, s'.workers j = .unlocks n ↔ s.workers j = .unlocks n := by
    intro j n
    rcases workers j with heq | ⟨hb, hb'⟩
    · rw [heq]
    · constructor
      · intro hw
        rw [hw] at hb'
        exact nomatch hb'
      · intro hw
        rw [hw] at hb
        exact nomatch hb
  have htests : ∀ j n, s'.workers j = .tests n → s.workers j = .tests n := by
    intro j n hw
    rcases workers j with heq | ⟨-, hb'⟩
    · rwa [← heq]
    · rw [hw] at hb'
      exact nomatch hb'
  refine ⟨⟨n, hcensus.congr fun j => ?_, ?_⟩, fun i => ?_, .shared ⟨?_, ?_, ?_, ?_, ?_⟩⟩
  · rcases workers j with heq | ⟨hb, hb'⟩
    · rw [heq]
    · rw [hb, hb']
  · rw [refcnt, hcount]
    rcases owner with heq | ⟨hb, hb'⟩
    · rw [heq]
    · rw [Owner.counted_of_busy hb, Owner.counted_of_busy hb']
  · rw [mutex, h.mutex i]
    exact ⟨fun ⟨n, hw⟩ => ⟨n, (hunlocks i n).mpr hw⟩, fun ⟨n, hw⟩ => ⟨n, (hunlocks i n).mp hw⟩⟩
  · rw [refcnt]
    exact hshared.refcnt
  · rw [destroyed]
    exact hshared.destroyed
  · rcases owner with heq | ⟨-, hb'⟩
    · rw [heq]
      exact hshared.alive
    · intro hc
      rw [hc] at hb'
      exact nomatch hb'
  · intro i n hw
    exact hshared.workers i n (hw.imp (hunlocks i n).mp (htests i n))
  · intro n hc
    rcases owner with heq | ⟨-, hb'⟩
    · exact hshared.owner n (heq ▸ hc)
    · rw [hc] at hb'
      exact nomatch hb'

/-! ## The end of a thread -/

theorem References.dec {s : State D cnt} (h : References s) {i : Fin cnt}
    (hw : s.workers i = .completed) (hfree : s.mutex = none) : References (s.dec i) := by
  have hbusy : (s.workers i).busy = true := by rw [hw]; rfl
  have hshared := h.life.shared_of_worker hbusy
  obtain ⟨n, hcensus, hcount⟩ := h.refs
  have hn := hcensus.pos hbusy
  have hcensus' : Census Worker.busy (s.dec i).workers (n - 1) :=
    hcensus.update i (.unlocks (s.refcnt - 1)) (by rw [hbusy]; show n + 0 = n - 1 + 1; omega)
  have hother : ∀ j, j ≠ i → (s.dec i).workers j = s.workers j := fun j hj =>
    Function.update_of_ne hj _ _
  have hself : (s.dec i).workers i = .unlocks (s.refcnt - 1) := Function.update_self _ _ _
  have hnone : ∀ j m, s.workers j ≠ .unlocks m := by
    intro j m hj
    have hmutex := (h.mutex j).mpr ⟨m, hj⟩
    rw [hfree] at hmutex
    exact nomatch hmutex
  refine ⟨⟨n - 1, hcensus', ?_⟩, fun j => ?_, ?_⟩
  · show s.refcnt - 1 = ((n - 1 : Nat) : Int) + s.owner.counted.toNat
    omega
  · by_cases hj : j = i
    · subst hj
      exact ⟨fun _ => ⟨_, hself⟩, fun _ => rfl⟩
    · refine ⟨fun hm => absurd (Option.some.inj hm).symm hj, fun ⟨m, hm⟩ => ?_⟩
      rw [hother j hj] at hm
      exact absurd hm (hnone j m)
  · by_cases hlast : s.refcnt - 1 = 0
    · -- the owner and the other threads have dropped theirs before
      have hn1 : n = 1 ∧ s.owner.counted = false := by
        cases hc : s.owner.counted with
        | true =>
          rw [hc] at hcount
          have : s.refcnt = n + 1 := hcount
          omega
        | false =>
          rw [hc] at hcount
          have : s.refcnt = n + 0 := hcount
          exact ⟨by omega, rfl⟩
      refine .lastWorker i hlast hshared.destroyed (Or.inl (by rw [hself, hlast])) ?_ ?_
      · show s.owner.touches = false
        have hcounted := hn1.2
        cases ho : s.owner with
        | tests m => exact decide_eq_false (hshared.owner m ho)
        | ended => rfl
        | starting _ | outside | freeing | destroyed => rw [ho] at hcounted; exact nomatch hcounted
        | waits _ _ => rw [ho] at hcounted; exact nomatch hcounted
      · intro j hj
        rw [hn1.1] at hcensus'
        have hidle := hcensus'.none_of_zero j
        rw [hother j hj] at hidle ⊢
        exact h.quiet hshared hfree hidle
    · refine .shared ⟨hlast, hshared.destroyed, hshared.alive, fun j m hj => ?_, hshared.owner⟩
      by_cases hji : j = i
      · subst hji
        rw [hself] at hj
        rcases hj with hj | hj
        · exact Worker.unlocks.inj hj ▸ hlast
        · exact nomatch hj
      · rw [hother j hji] at hj
        exact hshared.workers j m hj

theorem References.decUnlock {s : State D cnt} (h : References s) {i : Fin cnt} {n : Int}
    (hw : s.workers i = .unlocks n) :
    References { s.setWorker i (.tests n) with mutex := none } := by
  obtain ⟨c, hcensus, hcount⟩ := h.refs
  have hother : ∀ j, j ≠ i → Function.update s.workers i (.tests n) j = s.workers j :=
    fun j hj => Function.update_of_ne hj _ _
  have hself : Function.update s.workers i (.tests n) i = .tests n := Function.update_self _ _ _
  have hmutex := (h.mutex i).mpr ⟨n, hw⟩
  have htouches : (s.workers i).touches = true := by rw [hw]; rfl
  refine ⟨⟨c, hcensus.update i (.tests n) (by rw [hw]; rfl), hcount⟩, fun j => ?_, ?_⟩
  · refine ⟨fun hm => (nomatch hm), fun ⟨m, hm⟩ => ?_⟩
    change Function.update s.workers i (.tests n) j = .unlocks m at hm
    by_cases hj : j = i
    · subst hj
      rw [hself] at hm
      exact nomatch hm
    · rw [hother j hj] at hm
      have hmj := (h.mutex j).mpr ⟨m, hm⟩
      rw [hmutex] at hmj
      exact absurd (Option.some.inj hmj).symm hj
  · cases h.life with
    | shared hs =>
      refine .shared ⟨hs.refcnt, hs.destroyed, hs.alive, fun j m hj => ?_, hs.owner⟩
      change Function.update s.workers i (.tests n) j = _ ∨
        Function.update s.workers i (.tests n) j = _ at hj
      by_cases hji : j = i
      · subst hji
        rw [hself] at hj
        rcases hj with hj | hj
        · exact nomatch hj
        · exact Worker.tests.inj hj ▸ hs.workers j n (Or.inl hw)
      · rw [hother j hji] at hj
        exact hs.workers j m hj
    | lastWorker k refcnt destroyed last owner others =>
      by_cases hk : i = k
      · subst hk
        have hn : n = 0 := by
          rcases last with hl | hl
          · exact Worker.unlocks.inj (hw.symm.trans hl)
          · rw [hw] at hl
            exact nomatch hl
        subst hn
        refine .lastWorker i refcnt destroyed (Or.inr hself) owner fun j hj => ?_
        show (Function.update s.workers i (.tests 0) j).touches = false
        rw [hother j hj]
        exact others j hj
      · rw [others i hk] at htouches
        exact nomatch htouches
    | lastOwner _ _ _ workers => rw [workers i] at htouches; exact nomatch htouches
    | gone _ _ workers => rw [workers i] at htouches; exact nomatch htouches

/-- The last that drops its reference destroys the manager, and nobody else does. -/
theorem References.decTest {s : State D cnt} (h : References s) {i : Fin cnt} {n : Int}
    (hw : s.workers i = .tests n) : References ((s.destroyIf n).setWorker i .ended) := by
  obtain ⟨c, hcensus, hcount⟩ := h.refs
  have hother : ∀ j, j ≠ i → Function.update s.workers i .ended j = s.workers j :=
    fun j hj => Function.update_of_ne hj _ _
  have hself : Function.update s.workers i .ended i = .ended := Function.update_self _ _ _
  have hsame : ∀ {s' : State D cnt}, s'.refcnt = s.refcnt → s'.mutex = s.mutex →
      s'.owner = s.owner → s'.workers = Function.update s.workers i .ended → Life s' →
      References s' := by
    intro s' hrefcnt hmutex howner hworkers hlife
    refine ⟨⟨c, ?_, by rw [hrefcnt, howner, hcount]⟩, fun j => ?_, hlife⟩
    · rw [hworkers]
      exact hcensus.update i .ended (by rw [hw]; rfl)
    · rw [hmutex, h.mutex j, hworkers]
      by_cases hj : j = i
      · subst hj
        rw [hself, hw]
        exact ⟨fun ⟨m, hm⟩ => (nomatch hm), fun ⟨m, hm⟩ => (nomatch hm)⟩
      · rw [hother j hj]
  have hquiet : ∀ j, (j ≠ i → (s.workers j).touches = false) →
      (Function.update s.workers i .ended j).touches = false := by
    intro j hj
    by_cases hji : j = i
    · subst hji
      rw [hself]
      rfl
    · rw [hother j hji]
      exact hj hji
  cases h.life with
  | shared hs =>
    have hn := hs.workers i n (Or.inr hw)
    rw [State.destroyIf, if_neg hn]
    refine hsame rfl rfl rfl rfl (.shared ⟨hs.refcnt, hs.destroyed, hs.alive, fun j m hj => ?_,
      hs.owner⟩)
    change Function.update s.workers i .ended j = _ ∨
      Function.update s.workers i .ended j = _ at hj
    by_cases hji : j = i
    · subst hji
      rw [hself] at hj
      exact hj.elim (nofun) (nofun)
    · rw [hother j hji] at hj
      exact hs.workers j m hj
  | lastWorker k refcnt destroyed last owner others =>
    by_cases hk : i = k
    · subst hk
      have hn : n = 0 := by
        rcases last with hl | hl
        · rw [hw] at hl
          exact nomatch hl
        · exact Worker.tests.inj (hw.symm.trans hl)
      rw [State.destroyIf, if_pos hn]
      refine hsame rfl rfl rfl rfl (.gone ?_ owner fun j => hquiet j (others j))
      show s.destroyed + 1 = 1
      rw [destroyed]
    · have hn : n ≠ 0 := by
        have hidle := others i hk
        rw [hw] at hidle
        exact of_decide_eq_false hidle
      rw [State.destroyIf, if_neg hn]
      refine hsame rfl rfl rfl rfl (.lastWorker k refcnt destroyed ?_ owner fun j hj =>
        hquiet j fun _ => others j hj)
      show Function.update s.workers i .ended k = _ ∨ Function.update s.workers i .ended k = _
      rwa [hother k (Ne.symm hk)]
  | lastOwner refcnt destroyed last workers =>
    have hn : n ≠ 0 := by
      have hidle := workers i
      rw [hw] at hidle
      exact of_decide_eq_false hidle
    rw [State.destroyIf, if_neg hn]
    exact hsame rfl rfl rfl rfl (.lastOwner refcnt destroyed last fun j =>
      hquiet j fun _ => workers j)
  | gone destroyed owner workers =>
    have hn : n ≠ 0 := by
      have hidle := workers i
      rw [hw] at hidle
      exact of_decide_eq_false hidle
    rw [State.destroyIf, if_neg hn]
    exact hsame rfl rfl rfl rfl (.gone destroyed owner fun j => hquiet j fun _ => workers j)

/-! ## `psync_task_free` -/

/-- The count is 1 and nobody is in between: all threads are behind their unlock. -/
theorem References.freeLast {s : State D cnt} (h : References s) (howner : s.owner = .outside)
    (hlast : s.refcnt = 1) (hfree : s.mutex = none) :
    References { s.destroy with owner := .destroyed } := by
  have hshared := h.life.shared_of_owner (by rw [howner]; rfl)
  obtain ⟨n, hcensus, hcount⟩ := h.refs
  have hn : n = 0 := by
    rw [howner] at hcount
    have : s.refcnt = n + 1 := hcount
    omega
  subst hn
  refine ⟨⟨0, hcensus, hlast⟩, h.mutex, .gone ?_ rfl fun j => ?_⟩
  · show s.destroyed + 1 = 1
    rw [hshared.destroyed]
  · exact h.quiet hshared hfree (hcensus.none_of_zero j)

theorem freeWorker_busy (s : State D cnt) (j : Fin cnt) :
    s.freeWorker j = s.workers j ∨
      (s.workers j).busy = true ∧ (s.freeWorker j).busy = true := by
  unfold State.freeWorker
  split
  · split
    · next hw => exact Or.inr ⟨by rw [hw]; rfl, rfl⟩
    · exact Or.inl rfl
  · exact Or.inl rfl

theorem References.freeLocked {s : State D cnt} (h : References s) (howner : s.owner = .freeing)
    (hfree : s.mutex = none) : References s.freeLocked := by
  have hshared := h.life.shared_of_owner (by rw [howner]; rfl)
  obtain ⟨n, hcensus, hcount⟩ := h.refs
  rw [howner] at hcount
  have hcount : s.refcnt = n + 1 := hcount
  have hcensus' : Census Worker.busy s.freeLocked.workers n := by
    refine hcensus.congr fun j => ?_
    rcases freeWorker_busy s j with heq | ⟨hb, hb'⟩
    · exact congrArg Worker.busy heq
    · exact hb'.trans hb.symm
  have hnone : ∀ j m, s.workers j ≠ .unlocks m := by
    intro j m hj
    have hmutex := (h.mutex j).mpr ⟨m, hj⟩
    rw [hfree] at hmutex
    exact nomatch hmutex
  have hidle : ∀ j, (s.freeWorker j).busy = false → s.freeWorker j = s.workers j := by
    intro j hj
    rcases freeWorker_busy s j with heq | ⟨-, hb'⟩
    · exact heq
    · rw [hb'] at hj
      exact nomatch hj
  refine ⟨⟨n, hcensus', ?_⟩, fun j => ?_, ?_⟩
  · show s.refcnt - 1 = n + 0
    omega
  · refine ⟨fun hm => ?_, fun ⟨m, hm⟩ => ?_⟩
    · change s.mutex = some j at hm
      rw [hfree] at hm
      exact nomatch hm
    · change s.freeWorker j = .unlocks m at hm
      rw [hidle j (by rw [hm]; rfl)] at hm
      exact absurd hm (hnone j m)
  · by_cases hlast : s.refcnt - 1 = 0
    · have hn : n = 0 := by omega
      subst hn
      refine .lastOwner hlast hshared.destroyed (congrArg Owner.tests hlast) fun j => ?_
      have hj := hcensus'.none_of_zero j
      change (s.freeWorker j).busy = false at hj
      show (s.freeWorker j).touches = false
      have heq := hidle j hj
      rw [heq] at hj ⊢
      exact h.quiet hshared hfree hj
    · refine .shared ⟨hlast, hshared.destroyed, (nofun), fun j m hj => ?_, fun m hm => ?_⟩
      · change s.freeWorker j = _ ∨ s.freeWorker j = _ at hj
        have hb : (s.freeWorker j).busy = false := by rcases hj with hj | hj <;> rw [hj] <;> rfl
        rw [hidle j hb] at hj
        exact hshared.workers j m hj
      · exact Owner.tests.inj hm ▸ hlast

theorem References.freeTest {s : State D cnt} (h : References s) {n : Int}
    (howner : s.owner = .tests n) : References { s.destroyIf n with owner := .ended } := by
  have hrefs : ∃ n, Census Worker.busy s.workers n ∧
      s.refcnt = n + (Owner.ended : Owner cnt).counted.toNat := by
    obtain ⟨c, hcensus, hcount⟩ := h.refs
    rw [howner] at hcount
    exact ⟨c, hcensus, hcount⟩
  have hne : s.owner.touches = false → n ≠ 0 := by
    intro hidle
    rw [howner] at hidle
    exact of_decide_eq_false hidle
  cases h.life with
  | shared hs =>
    rw [State.destroyIf, if_neg (hs.owner n howner)]
    exact ⟨hrefs, h.mutex, .shared ⟨hs.refcnt, hs.destroyed, (nofun), hs.workers, (nofun)⟩⟩
  | lastWorker i refcnt destroyed last owner others =>
    rw [State.destroyIf, if_neg (hne owner)]
    exact ⟨hrefs, h.mutex, .lastWorker i refcnt destroyed last rfl others⟩
  | lastOwner refcnt destroyed last workers =>
    have hn : n = 0 := Owner.tests.inj (howner.symm.trans last)
    rw [State.destroyIf, if_pos hn]
    refine ⟨hrefs, h.mutex, .gone ?_ rfl workers⟩
    show s.destroyed + 1 = 1
    rw [destroyed]
  | gone destroyed owner workers =>
    rw [State.destroyIf, if_neg (hne owner)]
    exact ⟨hrefs, h.mutex, .gone destroyed rfl workers⟩

/-- At the end the manager was destroyed. -/
theorem References.destroyed_of_ended {s : State D cnt} (h : References s)
    (howner : s.owner = .ended ∨ s.owner = .destroyed) (hworkers : ∀ i, s.workers i = .ended) :
    s.destroyed = 1 := by
  obtain ⟨n, hcensus, hcount⟩ := h.refs
  have hn : n = 0 := hcensus.eq (.of_none fun i => by rw [hworkers i]; rfl)
  subst hn
  cases h.life with
  | shared hs =>
    rcases howner with ho | ho
    · rw [ho] at hcount
      exact absurd hcount hs.refcnt
    · exact absurd ho hs.alive
  | lastWorker i _ _ last _ _ =>
    rw [hworkers i] at last
    exact last.elim (nofun) (nofun)
  | lastOwner _ _ last _ =>
    rw [last] at howner
    exact howner.elim (nofun) (nofun)
  | gone destroyed _ _ => exact destroyed

end PcloudClient.Plibs
