/-
  Plibs/TaskRuns.lean --- every interleaving of the owner and the threads of the tasks.
-/
import Mathlib.Logic.Relation
import PcloudClient.Plibs.HandOver
import PcloudClient.Plibs.Lifetime

set_option autoImplicit false

namespace PcloudClient.Plibs

variable {D : Type} {cnt : Nat}

/-- The count that `psync_task_free` reads without the mutex is not 1 between the decrement of
the last thread and its unlock. -/
def ReadsSettled (s : State D cnt) : Act D cnt → Prop
  | .free => s.refcnt = 1 → s.mutex = none
  | _ => True

/-- A run whose steps meet `cond`. -/
def Reaches (cond : State D cnt → Act D cnt → Prop) (params : Fin cnt → D) (s : State D cnt) :
    Prop :=
  Relation.ReflTransGen (fun s s' => ∃ a, Step s a s' ∧ cond s a) (State.init params) s

/-! ## The invariant -/

/-- Threads start in the order of the tasks. -/
def Fresh (s : State D cnt) : Prop :=
  ∀ i, s.owner = .starting i → ∀ j : Fin cnt, i ≤ j.val → s.workers j = .notStarted

structure Inv (s : State D cnt) : Prop where
  fresh : Fresh s
  handOver : HandOver s
  references : References s

theorem Inv.init (params : Fin cnt → D) : Inv (State.init params) where
  fresh _ _ _ _ := rfl
  handOver := .init params
  references := .init params

theorem Fresh.of_owner {s : State D cnt} (h : ∀ i, s.owner ≠ .starting i) : Fresh s :=
  fun i hi => absurd hi (h i)

/-- A thread that was started moves on. -/
theorem Fresh.moves {s s' : State D cnt} (h : Fresh s) {i : Fin cnt}
    (hi : s.workers i ≠ .notStarted) (hother : ∀ j, j ≠ i → s'.workers j = s.workers j)
    (howner : ∀ k, s'.owner = .starting k → s.owner = .starting k) : Fresh s' := by
  intro k hk j hj
  have hold := h k (howner k hk) j hj
  have hne : j ≠ i := fun hc => hi (hc ▸ hold)
  rw [hother j hne, hold]

theorem complete_worker (s : State D cnt) (i : Fin cnt) (data : D) :
    ((s.complete i data).workers i).busy = true := by
  simp only [State.complete]
  split_ifs
  · simp [State.completes, State.setWorker, Worker.busy]
  · simp [State.setWorker, Worker.busy]
  · simp [State.completes, State.setWorker, Worker.busy]

theorem completeWoken_worker (s : State D cnt) (i : Fin cnt) :
    ((s.completeWoken i).workers i).busy = true := by
  unfold State.completeWoken
  split <;> simp [State.completes, State.setWorker, Worker.busy]

theorem complete_same (s : State D cnt) (i : Fin cnt) (data : D) :
    (s.complete i data).refcnt = s.refcnt ∧ (s.complete i data).destroyed = s.destroyed ∧
      (s.complete i data).mutex = s.mutex ∧ ((s.complete i data).owner = s.owner ∨
        s.owner.busy = true ∧ ∃ id, (s.complete i data).owner = .waits id true) := by
  simp only [State.complete, State.signalOwner]
  split_ifs
  · split
    · next id w how =>
      split_ifs
      · exact ⟨rfl, rfl, rfl, Or.inr ⟨by change s.owner = _ at how; rw [how]; rfl, id, rfl⟩⟩
      · exact ⟨rfl, rfl, rfl, Or.inl rfl⟩
    · exact ⟨rfl, rfl, rfl, Or.inl rfl⟩
  · exact ⟨rfl, rfl, rfl, Or.inl rfl⟩
  · exact ⟨rfl, rfl, rfl, Or.inl rfl⟩

theorem completeWoken_same (s : State D cnt) (i : Fin cnt) :
    (s.completeWoken i).refcnt = s.refcnt ∧ (s.completeWoken i).destroyed = s.destroyed ∧
      (s.completeWoken i).mutex = s.mutex ∧ (s.completeWoken i).owner = s.owner := by
  unfold State.completeWoken
  split <;> exact ⟨rfl, rfl, rfl, rfl⟩

theorem getResult_same (s : State D cnt) (id : Fin cnt) :
    (s.getResult id).refcnt = s.refcnt ∧ (s.getResult id).destroyed = s.destroyed ∧
      (s.getResult id).mutex = s.mutex ∧ (s.getResult id).owner.busy = true ∧
      (∀ k, (s.getResult id).owner ≠ .starting k) ∧
      ((s.getResult id).workers id = s.workers id ∨
        (s.workers id).busy = true ∧ ((s.getResult id).workers id).busy = true) := by
  unfold State.getResult
  split
  · exact ⟨rfl, rfl, rfl, rfl, (fun _ hc => by cases hc), Or.inl rfl⟩
  · unfold State.signalWorker
    split
    · next w hw =>
      change s.workers id = _ at hw
      refine ⟨rfl, rfl, rfl, rfl, (fun _ hc => by cases hc), Or.inr ⟨by rw [hw]; rfl, ?_⟩⟩
      simp [State.returns, State.setWorker, Worker.busy]
    · exact ⟨rfl, rfl, rfl, rfl, (fun _ hc => by cases hc), Or.inl rfl⟩
  · exact ⟨rfl, rfl, rfl, rfl, (fun _ hc => by cases hc), Or.inl rfl⟩
  · exact ⟨rfl, rfl, rfl, rfl, (fun _ hc => by cases hc), Or.inl rfl⟩

theorem getResultWoken_same (s : State D cnt) (id : Fin cnt) :
    (s.getResultWoken id).refcnt = s.refcnt ∧ (s.getResultWoken id).destroyed = s.destroyed ∧
      (s.getResultWoken id).mutex = s.mutex ∧ (s.getResultWoken id).owner.busy = true ∧
      (∀ k, (s.getResultWoken id).owner ≠ .starting k) ∧
      (s.getResultWoken id).workers = s.workers := by
  simp only [State.getResultWoken]
  split_ifs <;> exact ⟨rfl, rfl, rfl, rfl, (fun _ hc => by cases hc), rfl⟩

/-- A thread moves on without dropping its reference. -/
theorem References.thread {s s' : State D cnt} (h : References s) {i : Fin cnt}
    (hbusy : (s.workers i).busy = true) (hbusy' : (s'.workers i).busy = true)
    (hother : ∀ j, j ≠ i → s'.workers j = s.workers j) (hrefcnt : s'.refcnt = s.refcnt)
    (hdestroyed : s'.destroyed = s.destroyed) (hmutex : s'.mutex = s.mutex)
    (howner : s'.owner = s.owner ∨ s.owner.busy = true ∧ s'.owner.busy = true) :
    References s' := by
  refine h.keeps (h.life.shared_of_worker hbusy) hrefcnt hdestroyed hmutex (fun j => ?_) howner
  by_cases hj : j = i
  · subst hj
    exact Or.inr ⟨hbusy, hbusy'⟩
  · exact Or.inl (hother j hj)

/-- The owner moves on without dropping its reference. -/
theorem References.owner {s s' : State D cnt} (h : References s)
    (hbusy : s.owner.busy = true) (hbusy' : s'.owner.busy = true)
    (hworkers : ∀ j, s'.workers j = s.workers j ∨
      (s.workers j).busy = true ∧ (s'.workers j).busy = true) (hrefcnt : s'.refcnt = s.refcnt)
    (hdestroyed : s'.destroyed = s.destroyed) (hmutex : s'.mutex = s.mutex) : References s' :=
  h.keeps (h.life.shared_of_owner hbusy) hrefcnt hdestroyed hmutex hworkers
    (Or.inr ⟨hbusy, hbusy'⟩)

theorem Inv.runTasks {s : State D cnt} (h : Inv s) {i : Nat} (howner : s.owner = .starting i) :
    Inv (s.runTasks i) := by
  have hfresh : ∀ hi : i < cnt, s.workers ⟨i, hi⟩ = .notStarted := fun hi =>
    h.fresh i howner ⟨i, hi⟩ (le_refl i)
  have hover := h.handOver.runTasks hfresh howner
  have hbusy : s.owner.busy = true := by rw [howner]; rfl
  unfold State.runTasks at hover ⊢
  by_cases hi : i < cnt
  · rw [dif_pos hi] at hover ⊢
    have hw := hfresh hi
    refine ⟨fun k hk j hj => ?_, hover, h.references.owner hbusy rfl (fun j => ?_) rfl rfl rfl⟩
    · obtain rfl := Owner.starting.inj hk
      have hne : j ≠ ⟨i, hi⟩ := by
        rintro rfl
        exact absurd hj (by simp)
      exact (Function.update_of_ne hne _ _).trans (h.fresh i howner j (by omega))
    · by_cases hj : j = ⟨i, hi⟩
      · subst hj
        refine Or.inr ⟨by rw [hw]; rfl, ?_⟩
        simp [State.setWorker, Worker.busy]
      · exact Or.inl (Function.update_of_ne hj _ _)
  · rw [dif_neg hi] at hover ⊢
    exact ⟨.of_owner (by simp), hover,
      h.references.owner hbusy rfl (fun _ => Or.inl rfl) rfl rfl rfl⟩

theorem Inv.step {s s' : State D cnt} {a : Act D cnt} (h : Inv s) (hstep : Step s a s')
    (hcond : ReadsSettled s a) : Inv s' := by
  cases hstep with
  | runTasks howner => exact h.runTasks howner
  | @getResult id howner hfree honce =>
    obtain ⟨hrefcnt, hdestroyed, hmutex, hbusy', hstart, hw⟩ := getResult_same s id
    refine ⟨.of_owner hstart, h.handOver.getResult howner honce,
      h.references.owner (by rw [howner]; rfl) hbusy' (fun j => ?_) hrefcnt hdestroyed hmutex⟩
    by_cases hj : j = id
    · subst hj
      exact hw
    · exact Or.inl (SameTask.getResult hj).worker
  | @getResultWoken id howner hfree =>
    obtain ⟨hrefcnt, hdestroyed, hmutex, hbusy', hstart, hw⟩ := getResultWoken_same s id
    exact ⟨.of_owner hstart, h.handOver.getResultWoken howner,
      h.references.owner (by rw [howner]; rfl) hbusy' (fun j => Or.inl (by rw [hw])) hrefcnt
        hdestroyed hmutex⟩
  | wakesOwner howner =>
    exact ⟨.of_owner (by simp), h.handOver.wakesOwner howner,
      h.references.owner (by rw [howner]; rfl) rfl (fun _ => Or.inl rfl) rfl rfl rfl⟩
  | freeLast howner hlast =>
    have hwaitfor := h.handOver.waitfor
    rw [howner] at hwaitfor
    exact ⟨.of_owner (by simp),
      h.handOver.of_owner (fun _ => ⟨rfl, rfl, rfl, rfl, rfl⟩) (by rw [howner]; rfl)
        (by rw [howner]; simp) (by simp) hwaitfor,
      h.references.freeLast howner hlast (hcond hlast)⟩
  | freeShared howner hshared =>
    have hwaitfor := h.handOver.waitfor
    rw [howner] at hwaitfor
    exact ⟨.of_owner (by simp),
      h.handOver.of_owner (fun _ => ⟨rfl, rfl, rfl, rfl, rfl⟩) (by rw [howner]; rfl)
        (by rw [howner]; simp) (by simp) hwaitfor,
      h.references.owner (by rw [howner]; rfl) rfl (fun _ => Or.inl rfl) rfl rfl rfl⟩
  | freeLocked howner hfree =>
    exact ⟨.of_owner (fun _ hc => by cases hc), h.handOver.freeLocked howner,
      h.references.freeLocked howner hfree⟩
  | @freeTest n howner =>
    have hwaitfor := h.handOver.waitfor
    rw [howner] at hwaitfor
    refine ⟨.of_owner (by simp), ?_, h.references.freeTest howner⟩
    refine h.handOver.of_owner (fun j => ?_) (by rw [howner]; rfl)
      (by rw [howner]; simp) (by simp) ?_
    · unfold State.destroyIf
      split <;> exact ⟨rfl, rfl, rfl, rfl, rfl⟩
    · unfold State.destroyIf
      split <;> exact hwaitfor
  | @complete i data hw hfree =>
    obtain ⟨hrefcnt, hdestroyed, hmutex, howner⟩ := complete_same s i data
    have hother : ∀ j, j ≠ i → (s.complete i data).workers j = s.workers j := fun j hj =>
      (SameTask.complete hj data).worker
    refine ⟨h.fresh.moves (by rw [hw]; simp) hother fun k hk => ?_,
      h.handOver.complete data hw, h.references.thread (by rw [hw]; rfl)
        (complete_worker s i data) hother hrefcnt hdestroyed hmutex ?_⟩
    · rcases howner with heq | ⟨-, id, heq⟩
      · rwa [← heq]
      · rw [heq] at hk
        cases hk
    · rcases howner with heq | ⟨hb, id, heq⟩
      · exact Or.inl heq
      · exact Or.inr ⟨hb, by rw [heq]; rfl⟩
  | @completeWoken i hw hfree =>
    obtain ⟨hrefcnt, hdestroyed, hmutex, howner⟩ := completeWoken_same s i
    have hother : ∀ j, j ≠ i → (s.completeWoken i).workers j = s.workers j := fun j hj =>
      (SameTask.completeWoken hj).worker
    exact ⟨h.fresh.moves (by rw [hw]; simp) hother fun k hk => by rwa [← howner],
      h.handOver.completeWoken hw, h.references.thread (by rw [hw]; rfl)
        (completeWoken_worker s i) hother hrefcnt hdestroyed hmutex (Or.inl howner)⟩
  | @wakes i hw =>
    have hother : ∀ j, j ≠ i → (s.setWorker i (.waits true)).workers j = s.workers j :=
      fun j hj => Function.update_of_ne hj _ _
    exact ⟨h.fresh.moves (by rw [hw]; simp) hother fun _ hk => hk,
      h.handOver.wakes hw, h.references.thread (by rw [hw]; rfl)
        (by simp [State.setWorker, Worker.busy]) hother rfl rfl rfl (Or.inl rfl)⟩
  | @dec i hw hfree =>
    exact ⟨h.fresh.moves (by rw [hw]; simp) (fun j hj => Function.update_of_ne hj _ _)
        fun _ hk => hk,
      h.handOver.moves (by rw [hw]; rfl) rfl rfl rfl rfl rfl rfl rfl rfl,
      h.references.dec hw hfree⟩
  | @decUnlock i n hw =>
    exact ⟨h.fresh.moves (by rw [hw]; simp) (fun j hj => Function.update_of_ne hj _ _)
        fun _ hk => hk,
      h.handOver.moves (w := .tests n) (by rw [hw]; rfl) rfl rfl rfl rfl rfl rfl rfl rfl,
      h.references.decUnlock hw⟩
  | @decTest i n hw =>
    have hsame : (s.destroyIf n).owner = s.owner ∧ (s.destroyIf n).workers = s.workers ∧
        (s.destroyIf n).tasks = s.tasks ∧ (s.destroyIf n).data = s.data ∧
        (s.destroyIf n).ret = s.ret ∧ (s.destroyIf n).got = s.got ∧
        (s.destroyIf n).waitfor = s.waitfor := by
      unfold State.destroyIf
      split <;> exact ⟨rfl, rfl, rfl, rfl, rfl, rfl, rfl⟩
    obtain ⟨howner, hworkers, htasks, hdata, hret, hgot, hwaitfor⟩ := hsame
    have hset : ((s.destroyIf n).setWorker i .ended).workers =
        Function.update s.workers i .ended := by
      rw [← hworkers]
      rfl
    exact ⟨h.fresh.moves (by rw [hw]; simp)
        (fun j hj => by rw [hset, Function.update_of_ne hj]) (fun _ hk => howner ▸ hk),
      h.handOver.moves (by rw [hw]; rfl) rfl hset htasks hdata hret hgot howner hwaitfor,
      h.references.decTest hw⟩

theorem Reaches.inv {params : Fin cnt → D} {s : State D cnt} (h : Reaches ReadsSettled params s) :
    Inv s := by
  induction h with
  | refl => exact .init params
  | tail _ hstep ih =>
    obtain ⟨a, hstep, hcond⟩ := hstep
    exact ih.step hstep hcond

/-! ## What the manager promises -/

/-- What is so of the data, of the waits and of the manager. -/
structure TasksOk (s : State D cnt) : Prop where
  /-- What `psync_task_get_result` returned is the datum of its own task. -/
  got : ∀ i r, s.got i = some r → r = s.data i ∧ s.data i ≠ none
  /-- Then `psync_task_complete` returned 0, or it was told to and will. -/
  got_ret : ∀ i r, s.got i = some r → s.ret i = some 0 ∨
    s.ret i = none ∧ s.workers i = .waits true ∧ (s.tasks i).status = .done
  ret : ∀ i r, s.ret i = some r → r = 0 ∨ r = -1
  /-- Where it returned 0, the datum was returned, or the owner was told to take it and will. -/
  zero : ∀ i, s.ret i = some 0 → s.got i = some (s.data i) ∨
    s.owner = .waits i true ∧ (s.tasks i).status = .ready ∧ some (s.tasks i).param = s.data i
  /-- Where it returned -1, the datum was not returned and the owner is past asking. -/
  minusOne : ∀ i, s.ret i = some (-1) → s.got i = none ∧ s.owner.freed = true
  /-- A thread sleeps only while it has a datum that somebody may still ask for. -/
  asleep : ∀ i, s.workers i = .waits false →
    (s.tasks i).status = .ready ∧ s.got i = none ∧ s.owner.freed = false
  /-- The owner sleeps only while there is no datum. -/
  ownerAsleep : ∀ i, s.owner = .waits i false → (s.tasks i).status = .running ∧ s.data i = none
  once : s.destroyed ≤ 1
  /-- Nobody uses the manager after it was destroyed. -/
  unused : s.destroyed = 1 → s.owner.touches = false ∧ ∀ i, (s.workers i).touches = false
  /-- When all are done it was destroyed, and each datum was returned or refused. -/
  ended : (s.owner = .ended ∨ s.owner = .destroyed) → (∀ i, s.workers i = .ended) →
    s.destroyed = 1 ∧ ∀ i, s.data i ≠ none ∧ (s.ret i = some 0 ∧ s.got i = some (s.data i) ∨
      s.ret i = some (-1) ∧ s.got i = none)

theorem Inv.tasksOk {s : State D cnt} (h : Inv s) : TasksOk s where
  got i r hr := by
    cases h.handOver.task i with
    | taken _ _ data _ got =>
      rw [hr] at got
      rw [data, Option.some.inj got]
      exact ⟨rfl, by simp⟩
    | returned _ _ data _ got =>
      rw [hr] at got
      rw [data, Option.some.inj got]
      exact ⟨rfl, by simp⟩
    | _ => simp_all
  got_ret i r hr := by
    cases h.handOver.task i with
    | taken worker task _ ret _ => exact Or.inr ⟨ret, worker, by rw [task]⟩
    | returned _ _ _ ret _ => exact Or.inl ret
    | _ => simp_all
  ret i r hr := by
    cases h.handOver.task i with
    | given _ _ _ ret _ _ => exact Or.inl (Option.some.inj (hr.symm.trans ret))
    | returned _ _ _ ret _ => exact Or.inl (Option.some.inj (hr.symm.trans ret))
    | lost _ _ _ ret _ _ => exact Or.inr (Option.some.inj (hr.symm.trans ret))
    | _ => simp_all
  zero i hr := by
    cases h.handOver.task i with
    | given _ task data _ _ owner => exact Or.inr ⟨owner, by rw [task], by rw [task, data]⟩
    | returned _ _ data _ got => exact Or.inl (by rw [got, data])
    | _ => simp_all
  minusOne i hr := by
    cases h.handOver.task i with
    | lost _ _ _ _ got freed => exact ⟨got, freed⟩
    | _ => simp_all
  asleep i hw := by
    cases h.handOver.task i with
    | ready _ task _ _ got _ freed => exact ⟨by rw [task], got, freed⟩
    | _ => simp_all [Worker.done]
  ownerAsleep i howner := by
    have hgot := h.handOver.asleep i false howner
    cases h.handOver.task i with
    | before _ status data _ _ => exact ⟨status, data⟩
    | ready _ _ _ _ _ owner _ => exact absurd howner (owner false)
    | _ => simp_all [Owner.freed]
  once := by
    cases h.references.life with
    | shared hs => rw [hs.destroyed]; decide
    | lastWorker _ _ destroyed _ _ _ => rw [destroyed]; decide
    | lastOwner _ destroyed _ _ => rw [destroyed]; decide
    | gone destroyed _ _ => rw [destroyed]
  unused hd := by
    cases h.references.life with
    | shared hs => exact absurd hd (by simp [hs.destroyed])
    | gone _ owner workers => exact ⟨owner, workers⟩
    | _ => simp_all
  ended howner hworkers := by
    refine ⟨h.references.destroyed_of_ended howner hworkers, fun i => ?_⟩
    have hw := hworkers i
    cases h.handOver.task i with
    | given _ _ _ _ _ owner => rcases howner with hc | hc <;> cases owner.symm.trans hc
    | returned _ _ data ret got => exact ⟨by simp [data], Or.inl ⟨ret, by rw [got, data]⟩⟩
    | lost _ _ data ret got _ => exact ⟨by simp [data], Or.inr ⟨ret, got⟩⟩
    | _ => simp_all

/-- Any number of tasks, any interleaving of their threads, the calls of the owner and its end. -/
theorem psyncTask_tasksOk (params : Fin cnt → D) (s : State D cnt)
    (h : Reaches ReadsSettled params s) : TasksOk s :=
  h.inv.tasksOk

/-- Two tasks.  The datum of the first waits while the owner sleeps for that of the second; both are
returned, and the owner frees the manager after the last thread gave the mutex back. -/
theorem psyncTask_tasksOk_two : ∃ s : State Nat 2, Reaches ReadsSettled (fun _ => 0) s ∧
    s.got 0 = some (some 7) ∧ s.got 1 = some (some 8) ∧ s.destroyed = 1 ∧ TasksOk s := by
  obtain ⟨s, hrun, hgot⟩ : ∃ s : State Nat 2, Reaches ReadsSettled (fun _ => 0) s ∧
      s.got 0 = some (some 7) ∧ s.got 1 = some (some 8) ∧ s.destroyed = 1 := by
    refine ⟨_, .head ⟨.runTasks, .runTasks rfl, trivial⟩ <|
      .head ⟨.runTasks, .runTasks rfl, trivial⟩ <|
      .head ⟨.runTasks, .runTasks rfl, trivial⟩ <|
      .head ⟨.complete 0 7, .complete 7 rfl rfl, trivial⟩ <|
      .head ⟨.getResult 1, .getResult rfl rfl rfl, trivial⟩ <|
      .head ⟨.complete 1 8, .complete 8 rfl rfl, trivial⟩ <|
      .head ⟨.getResultWoken, .getResultWoken rfl rfl, trivial⟩ <|
      .head ⟨.dec 1, .dec rfl rfl, trivial⟩ <|
      .head ⟨.decUnlock 1, .decUnlock rfl, trivial⟩ <|
      .head ⟨.getResult 0, .getResult rfl rfl rfl, trivial⟩ <|
      .head ⟨.completeWoken 0, .completeWoken rfl rfl, trivial⟩ <|
      .head ⟨.dec 0, .dec rfl rfl, trivial⟩ <|
      .head ⟨.decUnlock 0, .decUnlock rfl, trivial⟩ <|
      .head ⟨.free, .freeLast rfl rfl, fun _ => rfl⟩ <|
      .head ⟨.decTest 0, .decTest rfl, trivial⟩ <|
      .single ⟨.decTest 1, .decTest rfl, trivial⟩, rfl, rfl, rfl⟩
  exact ⟨s, hrun, hgot.1, hgot.2.1, hgot.2.2, psyncTask_tasksOk _ s hrun⟩

/-! One task: its datum waits, is asked for and returned, and its thread drops its reference. -/

/-- The owner started the thread. -/
def oneStarted : State Nat 1 := ((State.init fun _ => 0).runTasks 0).runTasks 1

/-- The thread has its answer. -/
def oneAnswered : State Nat 1 := ((oneStarted.complete 0 7).getResult 0).completeWoken 0

theorem reaches_one : Reaches (fun _ _ => True) (fun _ => 0) (oneAnswered.dec 0) := by
  have h₁ : Reaches (fun _ _ => True) (fun _ => 0) oneStarted :=
    .tail (.single ⟨.runTasks, .runTasks rfl, trivial⟩) ⟨.runTasks, .runTasks rfl, trivial⟩
  have h₂ : Reaches (fun _ _ => True) (fun _ => 0) (oneStarted.complete 0 7) :=
    .tail h₁ ⟨.complete 0 7, .complete 7 rfl rfl, trivial⟩
  have h₃ : Reaches (fun _ _ => True) (fun _ => 0) ((oneStarted.complete 0 7).getResult 0) :=
    .tail h₂ ⟨.getResult 0, .getResult rfl rfl rfl, trivial⟩
  have h₄ : Reaches (fun _ _ => True) (fun _ => 0) oneAnswered :=
    .tail h₃ ⟨.completeWoken 0, .completeWoken rfl rfl, trivial⟩
  exact .tail h₄ ⟨.dec 0, .dec rfl rfl, trivial⟩

/-- `psync_task_free` between the decrement of the last thread and its unlock: the thread will
unlock the mutex of a manager that was destroyed. -/
theorem not_tasksOk_free :
    ¬ ∀ s : State Nat 1, Reaches (fun _ _ => True) (fun _ => 0) s → TasksOk s := by
  intro h
  have hok := h { (oneAnswered.dec 0).destroy with owner := .destroyed }
    (.tail reaches_one ⟨.free, .freeLast rfl rfl, trivial⟩)
  exact absurd ((hok.unused rfl).2 0) (by decide)

end PcloudClient.Plibs
