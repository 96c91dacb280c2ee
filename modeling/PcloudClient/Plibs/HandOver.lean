/-
  Plibs/HandOver.lean --- what becomes of the data of the tasks.

  In every run a datum is returned by `psync_task_get_result` for its own task, and then
  `psync_task_complete` returns 0, or it is never returned, and then it returns -1.
-/
import Mathlib.Tactic.SplitIfs
import PcloudClient.Plibs.TaskManager

set_option autoImplicit false

namespace PcloudClient.Plibs

variable {D : Type} {cnt : Nat}

namespace Owner

/-- What `tm->waitfor` holds. -/
def waitfor : Owner cnt → Int
  | .waits id _ => id.val
  | .tests _ | .ended => waitFreed
  | _ => waitNobody

/-- Behind the critical section of `psync_task_free`. -/
def freed : Owner cnt → Bool
  | .tests _ | .ended => true
  | _ => false

theorem waitfor_eq_id {o : Owner cnt} {i : Fin cnt} (h : o.waitfor = (i.val : Int)) :
    ∃ w, o = .waits i w := by
  cases o with
  | waits id w =>
    have hval : (id.val : Int) = i.val := h
    obtain rfl : id = i := Fin.ext (by exact_mod_cast hval)
    exact ⟨w, rfl⟩
  | starting _ | outside | freeing | destroyed =>
    have hval : (-2 : Int) = i.val := h
    omega
  | tests _ | ended =>
    have hval : (-3 : Int) = i.val := h
    omega

theorem freed_of_waitfor {o : Owner cnt} (h : ¬ (o.waitfor = waitNobody ∨ 0 ≤ o.waitfor)) :
    o.freed = true := by
  cases o with
  | waits id w => exact absurd (Or.inr (Int.natCast_nonneg id.val)) h
  | starting _ | outside | freeing | destroyed => exact absurd (Or.inl rfl) h
  | tests _ | ended => rfl

theorem not_freed_of_waitfor {o : Owner cnt} (h : o.waitfor = waitNobody ∨ 0 ≤ o.waitfor) :
    o.freed = false := by
  cases o with
  | waits _ _ | starting _ | outside | freeing | destroyed => rfl
  | tests _ | ended => exact absurd h (show ¬ (waitFreed = waitNobody ∨ 0 ≤ waitFreed) by decide)

end Owner

/-- Behind the return of `psync_task_complete`. -/
def Worker.done : Worker → Bool
  | .completed | .unlocks _ | .tests _ | .ended => true
  | _ => false

/-! ## One task -/

/-- What is so of a task and its datum. -/
inductive TaskOk (s : State D cnt) (i : Fin cnt) : Prop where
  /-- There is no datum yet. -/
  | before (worker : s.workers i = .notStarted ∨ s.workers i = .running)
      (status : (s.tasks i).status = .running) (data : s.data i = none) (ret : s.ret i = none)
      (got : s.got i = none)
  /-- The thread waits until somebody takes the datum. -/
  | ready {x : D} {w : Bool} (worker : s.workers i = .waits w) (task : s.tasks i = ⟨x, .ready⟩)
      (data : s.data i = some x) (ret : s.ret i = none) (got : s.got i = none)
      (owner : ∀ w, s.owner ≠ .waits i w) (freed : s.owner.freed = false)
  /-- The datum was taken and the thread is about to hear of it. -/
  | taken {x : D} (worker : s.workers i = .waits true) (task : s.tasks i = ⟨x, .done⟩)
      (data : s.data i = some x) (ret : s.ret i = none) (got : s.got i = some (some x))
  /-- The datum was refused and the thread is about to hear of it. -/
  | refused {x : D} (worker : s.workers i = .waits true) (task : s.tasks i = ⟨x, .returned⟩)
      (data : s.data i = some x) (ret : s.ret i = none) (got : s.got i = none)
      (freed : s.owner.freed = true)
  /-- The owner waited for the datum and is about to take it. -/
  | given {x : D} (worker : (s.workers i).done = true) (task : s.tasks i = ⟨x, .ready⟩)
      (data : s.data i = some x) (ret : s.ret i = some 0) (got : s.got i = none)
      (owner : s.owner = .waits i true)
  | returned {x : D} (worker : (s.workers i).done = true) (task : s.tasks i = ⟨x, .done⟩)
      (data : s.data i = some x) (ret : s.ret i = some 0) (got : s.got i = some (some x))
  /-- Nobody will take the datum. -/
  | lost {x : D} (worker : (s.workers i).done = true) (status : (s.tasks i).status ≠ .ready)
      (data : s.data i = some x) (ret : s.ret i = some (-1)) (got : s.got i = none)
      (freed : s.owner.freed = true)

/-- Nothing about the task changes. -/
structure SameTask (s s' : State D cnt) (i : Fin cnt) : Prop where
  worker : s'.workers i = s.workers i
  task : s'.tasks i = s.tasks i
  data : s'.data i = s.data i
  ret : s'.ret i = s.ret i
  got : s'.got i = s.got i

namespace SameTask

variable {s s' s'' : State D cnt} {i j : Fin cnt}

theorem refl (s : State D cnt) (i : Fin cnt) : SameTask s s i := ⟨rfl, rfl, rfl, rfl, rfl⟩

theorem trans (h : SameTask s s' i) (h' : SameTask s' s'' i) : SameTask s s'' i :=
  ⟨h'.worker.trans h.worker, h'.task.trans h.task, h'.data.trans h.data, h'.ret.trans h.ret,
    h'.got.trans h.got⟩

theorem setWorker (hj : j ≠ i) (w : Worker) : SameTask s (s.setWorker i w) j :=
  ⟨Function.update_of_ne hj _ _, rfl, rfl, rfl, rfl⟩

theorem setStatus (hj : j ≠ i) (status : Status) : SameTask s (s.setStatus i status) j :=
  ⟨rfl, Function.update_of_ne hj _ _, rfl, rfl, rfl⟩

theorem setReady (hj : j ≠ i) (data : D) : SameTask s (s.setReady i data) j :=
  ⟨rfl, Function.update_of_ne hj _ _, rfl, rfl, rfl⟩

theorem completes (hj : j ≠ i) (r : Int) : SameTask s (s.completes i r) j :=
  ⟨Function.update_of_ne hj _ _, rfl, rfl, Function.update_of_ne hj _ _, rfl⟩

theorem returns (hj : j ≠ i) (r : Option D) : SameTask s (s.returns i r) j :=
  ⟨rfl, rfl, rfl, rfl, Function.update_of_ne hj _ _⟩

theorem signalWorker (hj : j ≠ i) : SameTask s (s.signalWorker i) j := by
  unfold State.signalWorker
  split
  · exact setWorker hj _
  · exact refl s j

theorem signalOwner (i j : Fin cnt) : SameTask s (s.signalOwner i) j := by
  unfold State.signalOwner
  split
  · split_ifs
    · exact ⟨rfl, rfl, rfl, rfl, rfl⟩
    · exact refl s j
  · exact refl s j

theorem complete (hj : j ≠ i) (data : D) : SameTask s (s.complete i data) j := by
  have hdata : SameTask s { s with data := Function.update s.data i (some data) } j :=
    ⟨rfl, rfl, Function.update_of_ne hj _ _, rfl, rfl⟩
  simp only [State.complete]
  split_ifs
  · exact hdata.trans ((setReady hj data).trans ((signalOwner i j).trans (completes hj 0)))
  · exact hdata.trans ((setReady hj data).trans (setWorker hj _))
  · exact hdata.trans (completes hj (-1))

theorem completeWoken (hj : j ≠ i) : SameTask s (s.completeWoken i) j := by
  unfold State.completeWoken
  split
  · exact setWorker hj _
  · exact completes hj _
  · exact completes hj _
  · exact completes hj _

theorem getResult (hj : j ≠ i) : SameTask s (s.getResult i) j := by
  unfold State.getResult
  split
  · exact ⟨rfl, rfl, rfl, rfl, rfl⟩
  · exact (setStatus hj _).trans ((signalWorker hj).trans (returns hj _))
  · exact returns hj _
  · exact returns hj _

theorem getResultWoken (hj : j ≠ i) : SameTask s (s.getResultWoken i) j := by
  simp only [State.getResultWoken]
  split_ifs
  · exact ⟨rfl, rfl, rfl, rfl, rfl⟩
  · exact ⟨rfl, Function.update_of_ne hj _ _, rfl, rfl, Function.update_of_ne hj _ _⟩

end SameTask

theorem TaskOk.frame {s s' : State D cnt} {i : Fin cnt} (h : TaskOk s i) (same : SameTask s s' i)
    (freed : s'.owner.freed = s.owner.freed)
    (waits : ∀ w, s'.owner = .waits i w ↔ s.owner = .waits i w) : TaskOk s' i := by
  obtain ⟨hworker, htask, hdata, hret, hgot⟩ := same
  cases h with
  | before worker status data ret got =>
    exact .before (by rwa [hworker]) (by rwa [htask]) (hdata.trans data) (hret.trans ret)
      (hgot.trans got)
  | ready worker task data ret got owner hfreed =>
    exact .ready (hworker.trans worker) (htask.trans task) (hdata.trans data) (hret.trans ret)
      (hgot.trans got) (fun w hw => owner w ((waits w).mp hw)) (freed.trans hfreed)
  | taken worker task data ret got =>
    exact .taken (hworker.trans worker) (htask.trans task) (hdata.trans data) (hret.trans ret)
      (hgot.trans got)
  | refused worker task data ret got hfreed =>
    exact .refused (hworker.trans worker) (htask.trans task) (hdata.trans data) (hret.trans ret)
      (hgot.trans got) (freed.trans hfreed)
  | given worker task data ret got owner =>
    exact .given (by rwa [hworker]) (htask.trans task) (hdata.trans data) (hret.trans ret)
      (hgot.trans got) ((waits true).mpr owner)
  | returned worker task data ret got =>
    exact .returned (by rwa [hworker]) (htask.trans task) (hdata.trans data) (hret.trans ret)
      (hgot.trans got)
  | lost worker status data ret got hfreed =>
    exact .lost (by rwa [hworker]) (by rwa [htask]) (hdata.trans data) (hret.trans ret)
      (hgot.trans got) (freed.trans hfreed)

/-- A thread that only moves on behind its `psync_task_complete`. -/
theorem TaskOk.moves {s s' : State D cnt} {i : Fin cnt} (h : TaskOk s i)
    (hdone : (s.workers i).done = true) (hdone' : (s'.workers i).done = true)
    (htask : s'.tasks i = s.tasks i) (hdata : s'.data i = s.data i) (hret : s'.ret i = s.ret i)
    (hgot : s'.got i = s.got i) (howner : s'.owner = s.owner) : TaskOk s' i := by
  cases h with
  | before worker status data ret got =>
    rcases worker with hw | hw <;> rw [hw] at hdone <;> exact nomatch hdone
  | given worker task data ret got owner =>
    exact .given hdone' (htask.trans task) (hdata.trans data) (hret.trans ret) (hgot.trans got)
      (howner.trans owner)
  | returned worker task data ret got =>
    exact .returned hdone' (htask.trans task) (hdata.trans data) (hret.trans ret)
      (hgot.trans got)
  | lost worker status data ret got hfreed =>
    exact .lost hdone' (by rwa [htask]) (hdata.trans data) (hret.trans ret) (hgot.trans got)
      (by rwa [howner])
  | _ => simp_all [Worker.done]

/-! ## All tasks -/

structure HandOver (s : State D cnt) : Prop where
  waitfor : s.waitfor = s.owner.waitfor
  asleep : ∀ id w, s.owner = .waits id w → s.got id = none
  task : ∀ i, TaskOk s i

theorem HandOver.init (params : Fin cnt → D) : HandOver (State.init params) where
  waitfor := rfl
  asleep _ _ h := nomatch h
  task _ := .before (Or.inl rfl) rfl rfl rfl rfl

/-- A step that is about one task leaves the others as they are. -/
theorem HandOver.of_task {s s' : State D cnt} (h : HandOver s) (i : Fin cnt)
    (same : ∀ j, j ≠ i → SameTask s s' j) (freed : s'.owner.freed = s.owner.freed)
    (waits : ∀ j, j ≠ i → ∀ w, s'.owner = .waits j w ↔ s.owner = .waits j w)
    (waitfor : s'.waitfor = s'.owner.waitfor)
    (asleep : ∀ w, s'.owner = .waits i w → s'.got i = none) (task : TaskOk s' i) :
    HandOver s' where
  waitfor := waitfor
  asleep j w hw := by
    by_cases hj : j = i
    · subst hj
      exact asleep w hw
    · rw [(same j hj).got]
      exact h.asleep j w ((waits j hj w).mp hw)
  task j := by
    by_cases hj : j = i
    · rw [hj]
      exact task
    · exact (h.task j).frame (same j hj) freed (waits j hj)

/-- The task of the thread in the callback. -/
theorem HandOver.running {s : State D cnt} (h : HandOver s) {i : Fin cnt}
    (hw : s.workers i = .running) :
    (s.tasks i).status = .running ∧ s.data i = none ∧ s.ret i = none ∧ s.got i = none := by
  cases h.task i with
  | before worker status data ret got => exact ⟨status, data, ret, got⟩
  | _ => simp_all [Worker.done]

/-! ## The thread of a task -/

theorem HandOver.complete {s : State D cnt} (h : HandOver s) {i : Fin cnt} (data : D)
    (hw : s.workers i = .running) : HandOver (s.complete i data) := by
  obtain ⟨hstatus, -, hret, hgot⟩ := h.running hw
  have same : ∀ j, j ≠ i → SameTask s (s.complete i data) j := fun j hj => .complete hj data
  simp only [State.complete] at same ⊢
  split_ifs at same ⊢ with hid hready
  · -- the owner waits for this task
    obtain ⟨w, howner⟩ := Owner.waitfor_eq_id (h.waitfor ▸ hid)
    have hsignal :
        ({ s with data := Function.update s.data i (some data) }.setReady i data).signalOwner
        i = { { s with data := Function.update s.data i (some data) }.setReady i data with
          owner := .waits i true } := by
      simp [State.signalOwner, State.setReady, howner]
    rw [hsignal] at same ⊢
    refine h.of_task i same ?_ ?_ hid ?_ ?_
    · rw [howner]
      rfl
    · intro j hj w'
      rw [howner]
      exact ⟨fun hc => absurd (Owner.waits.inj hc).1.symm hj,
        fun hc => absurd (Owner.waits.inj hc).1.symm hj⟩
    · exact fun _ _ => hgot
    · exact .given (by simp [State.completes, State.setWorker, Worker.done])
        (Function.update_self _ _ _) (Function.update_self _ _ _) (Function.update_self _ _ _)
        hgot rfl
  · have howner : ∀ w, s.owner ≠ .waits i w := by
      intro w hc
      rw [h.waitfor, hc] at hid
      exact hid rfl
    refine h.of_task i same rfl (fun _ _ _ => Iff.rfl) h.waitfor
      (fun w hc => absurd hc (howner w)) ?_
    exact .ready (Function.update_self _ _ _) (Function.update_self _ _ _)
      (Function.update_self _ _ _) hret hgot howner
      (Owner.not_freed_of_waitfor (h.waitfor ▸ hready))
  · have hfreed := Owner.freed_of_waitfor (h.waitfor ▸ hready)
    refine h.of_task i same rfl (fun _ _ _ => Iff.rfl) h.waitfor ?_ ?_
    · intro w hc
      change s.owner = _ at hc
      rw [hc] at hfreed
      exact nomatch hfreed
    · exact .lost (by simp [State.completes, State.setWorker, Worker.done])
        (fun hc => by
          change (s.tasks i).status = _ at hc
          rw [hstatus] at hc
          exact nomatch hc)
        (Function.update_self _ _ _) (Function.update_self _ _ _) hgot hfreed

theorem HandOver.completeWoken {s : State D cnt} (h : HandOver s) {i : Fin cnt}
    (hw : s.workers i = .waits true) : HandOver (s.completeWoken i) := by
  have same : ∀ j, j ≠ i → SameTask s (s.completeWoken i) j := fun j hj => .completeWoken hj
  have hdone : ∀ r, ((s.completes i r).workers i).done = true := fun r => by
    simp [State.completes, State.setWorker, Worker.done]
  unfold State.completeWoken at same ⊢
  cases h.task i with
  | @ready x _ worker task data ret got owner freed =>
    simp only [task] at same ⊢
    refine h.of_task i same rfl (fun _ _ _ => Iff.rfl) h.waitfor
      (fun w hc => absurd hc (owner w)) ?_
    exact .ready (Function.update_self _ _ _) task data ret got owner freed
  | taken worker task data ret got =>
    simp only [task] at same ⊢
    refine h.of_task i same rfl (fun _ _ _ => Iff.rfl) h.waitfor (h.asleep i) ?_
    exact .returned (hdone 0) task data (Function.update_self _ _ _) got
  | refused worker task data ret got freed =>
    simp only [task] at same ⊢
    refine h.of_task i same rfl (fun _ _ _ => Iff.rfl) h.waitfor (h.asleep i) ?_
    refine .lost (hdone (-1)) (fun hc => ?_) data (Function.update_self _ _ _) got freed
    change (s.tasks i).status = _ at hc
    rw [task] at hc
    exact nomatch hc
  | _ => simp_all [Worker.done]

theorem HandOver.wakes {s : State D cnt} (h : HandOver s) {i : Fin cnt}
    (hw : s.workers i = .waits false) : HandOver (s.setWorker i (.waits true)) := by
  refine h.of_task i (fun j hj => .setWorker hj _) rfl (fun _ _ _ => Iff.rfl) h.waitfor
    (h.asleep i) ?_
  cases h.task i with
  | ready worker task data ret got owner freed =>
    exact .ready (Function.update_self _ _ _) task data ret got owner freed
  | _ => simp_all [Worker.done]

/-- Behind its `psync_task_complete` a thread does nothing to the data. -/
theorem HandOver.moves {s s' : State D cnt} (h : HandOver s) {i : Fin cnt} {w : Worker}
    (hdone : (s.workers i).done = true) (hw : w.done = true)
    (hworkers : s'.workers = Function.update s.workers i w) (htasks : s'.tasks = s.tasks)
    (hdata : s'.data = s.data) (hret : s'.ret = s.ret) (hgot : s'.got = s.got)
    (howner : s'.owner = s.owner) (hwaitfor : s'.waitfor = s.waitfor) : HandOver s' := by
  refine h.of_task i ?_ (by rw [howner]) (fun _ _ _ => by rw [howner])
    (by rw [hwaitfor, howner, h.waitfor]) (by rw [howner, hgot]; exact h.asleep i) ?_
  · intro j hj
    exact ⟨by rw [hworkers, Function.update_of_ne hj], by rw [htasks], by rw [hdata],
      by rw [hret], by rw [hgot]⟩
  · exact (h.task i).moves hdone (by rw [hworkers, Function.update_self, hw]) (by rw [htasks])
      (by rw [hdata]) (by rw [hret]) (by rw [hgot]) howner

/-! ## The owner -/

/-- A step of the owner that is about no task. -/
theorem HandOver.of_owner {s s' : State D cnt} (h : HandOver s)
    (same : ∀ j, SameTask s s' j) (freed : s'.owner.freed = s.owner.freed)
    (before : ∀ i w, s.owner ≠ .waits i w) (after : ∀ i w, s'.owner ≠ .waits i w)
    (waitfor : s'.waitfor = s'.owner.waitfor) : HandOver s' where
  waitfor := waitfor
  asleep i w hw := absurd hw (after i w)
  task i := (h.task i).frame (same i) freed fun w =>
    ⟨fun hw => absurd hw (after i w), fun hw => absurd hw (before i w)⟩

theorem HandOver.runTasks {s : State D cnt} (h : HandOver s) {i : Nat}
    (hfresh : ∀ hi : i < cnt, s.workers ⟨i, hi⟩ = .notStarted)
    (howner : s.owner = .starting i) : HandOver (s.runTasks i) := by
  have hnot : ∀ j w, s.owner ≠ .waits j w := fun j w hc => by
    rw [howner] at hc
    exact nomatch hc
  have hwaitfor := h.waitfor
  rw [howner] at hwaitfor
  unfold State.runTasks
  split
  · next hi =>
    have hw := hfresh hi
    refine h.of_task ⟨i, hi⟩ ?_ (by rw [howner]; rfl) ?_ hwaitfor (fun _ hc => nomatch hc) ?_
    · intro j hj
      exact (SameTask.setStatus hj .running).trans ((SameTask.setWorker hj .running).trans
        ⟨rfl, rfl, rfl, rfl, rfl⟩)
    · exact fun j _ w => ⟨fun hc => (nomatch hc), fun hc => absurd hc (hnot j w)⟩
    · cases h.task ⟨i, hi⟩ with
      | before worker status data ret got =>
        refine .before (Or.inr (Function.update_self _ _ _)) ?_ data ret got
        simp [State.setStatus, State.setWorker]
      | _ => simp_all [Worker.done]
  · exact h.of_owner (fun j => ⟨rfl, rfl, rfl, rfl, rfl⟩) (by rw [howner]; rfl) hnot
      (fun _ _ hc => nomatch hc) hwaitfor

theorem HandOver.getResult {s : State D cnt} (h : HandOver s) {id : Fin cnt}
    (howner : s.owner = .outside) (honce : s.got id = none) : HandOver (s.getResult id) := by
  have same : ∀ j, j ≠ id → SameTask s (s.getResult id) j := fun j hj => .getResult hj
  have hnot : ∀ j w, s.owner ≠ .waits j w := fun j w hc => by
    rw [howner] at hc
    exact nomatch hc
  have hfreed : s.owner.freed = false := by rw [howner]; rfl
  have hwaitfor := h.waitfor
  rw [howner] at hwaitfor
  unfold State.getResult at same ⊢
  cases h.task id with
  | before worker status data ret got =>
    simp only [status] at same ⊢
    refine h.of_task id same hfreed.symm ?_ rfl (fun _ _ => got) ?_
    · exact fun j hj w => ⟨fun hc => absurd (Owner.waits.inj hc).1.symm hj,
        fun hc => absurd hc (hnot j w)⟩
    · exact .before worker status data ret got
  | @ready x w worker task data ret got owner freed =>
    simp only [task] at same ⊢
    have hsignal : (s.setStatus id .done).signalWorker id =
        (s.setStatus id .done).setWorker id (.waits true) := by
      simp [State.signalWorker, State.setStatus, worker]
    rw [hsignal] at same ⊢
    refine h.of_task id same hfreed.symm (fun j _ w => ⟨fun hc => (nomatch hc),
      fun hc => absurd hc (hnot j w)⟩) hwaitfor (fun _ hc => nomatch hc) ?_
    refine .taken (Function.update_self _ _ _) ?_ data ret (Function.update_self _ _ _)
    simp [State.returns, State.setWorker, State.setStatus, task]
  | given _ _ _ _ _ owner => exact absurd owner (hnot id true)
  | _ => simp_all [Worker.done]

theorem HandOver.getResultWoken {s : State D cnt} (h : HandOver s) {id : Fin cnt}
    (howner : s.owner = .waits id true) : HandOver (s.getResultWoken id) := by
  have same : ∀ j, j ≠ id → SameTask s (s.getResultWoken id) j := fun j hj => .getResultWoken hj
  have hgot := h.asleep id true howner
  have hfreed : s.owner.freed = false := by rw [howner]; rfl
  have hother : ∀ j, j ≠ id → ∀ w, s.owner ≠ .waits j w := fun j hj w hc =>
    hj (Owner.waits.inj (howner.symm.trans hc)).1.symm
  simp only [State.getResultWoken] at same ⊢
  cases h.task id with
  | before worker status data ret got =>
    rw [if_pos status] at same ⊢
    refine h.of_task id same hfreed.symm ?_ rfl (fun _ _ => got) ?_
    · exact fun j hj w => ⟨fun hc => absurd (Owner.waits.inj hc).1.symm hj,
        fun hc => absurd hc (hother j hj w)⟩
    · exact .before worker status data ret got
  | ready _ _ _ _ _ owner _ => exact absurd howner (owner true)
  | @given x worker task data ret got owner =>
    have hstatus : (s.tasks id).status ≠ .running := by
      rw [task]
      exact (nofun)
    rw [if_neg hstatus] at same ⊢
    refine h.of_task id same hfreed.symm (fun j hj w => ⟨fun hc => (nomatch hc),
      fun hc => absurd hc (hother j hj w)⟩) rfl (fun _ hc => nomatch hc) ?_
    refine .returned (x := x) worker ?_ data ret ?_
    · simp [State.returns, State.setStatus, task]
    · simp [State.returns, State.setStatus, task]
  | _ => simp_all [Worker.done]

theorem HandOver.wakesOwner {s : State D cnt} (h : HandOver s) {id : Fin cnt}
    (howner : s.owner = .waits id false) :
    HandOver { s with owner := Owner.waits id true } := by
  have hgot := h.asleep id false howner
  have hfreed : s.owner.freed = false := by rw [howner]; rfl
  have hother : ∀ j, j ≠ id → ∀ w, s.owner ≠ .waits j w := fun j hj w hc =>
    hj (Owner.waits.inj (howner.symm.trans hc)).1.symm
  have hwaitfor := h.waitfor
  rw [howner] at hwaitfor
  refine h.of_task id (fun j _ => ⟨rfl, rfl, rfl, rfl, rfl⟩) hfreed.symm ?_ hwaitfor
    (fun _ _ => hgot) ?_
  · exact fun j hj w => ⟨fun hc => absurd (Owner.waits.inj hc).1.symm hj,
      fun hc => absurd hc (hother j hj w)⟩
  · cases h.task id with
    | before worker status data ret got => exact .before worker status data ret got
    | ready _ _ _ _ _ owner _ => exact absurd howner (owner false)
    | given worker task data ret got owner => exact .given worker task data ret got rfl
    | _ => simp_all [Worker.done]

theorem HandOver.freeLocked {s : State D cnt} (h : HandOver s) (howner : s.owner = .freeing) :
    HandOver s.freeLocked where
  waitfor := rfl
  asleep i w hw := nomatch hw
  task i := by
    have hfreed : s.owner.freed = false := by rw [howner]; rfl
    have hkeeps : (s.tasks i).status ≠ .ready →
        s.freeLocked.tasks i = s.tasks i ∧ s.freeLocked.workers i = s.workers i := fun hs =>
      ⟨if_neg hs, if_neg hs⟩
    cases h.task i with
    | before worker status data ret got =>
      obtain ⟨htask, hworker⟩ := hkeeps (by rw [status]; exact (nofun))
      exact .before (by rwa [hworker]) (by rwa [htask]) data ret got
    | @ready x w worker task data ret got owner freed =>
      refine .refused (x := x) ?_ ?_ data ret got rfl
      · simp [State.freeLocked, State.freeWorker, task, worker]
      · simp [State.freeLocked, State.freeTask, task]
    | @taken x worker task data ret got =>
      obtain ⟨htask, hworker⟩ := hkeeps (by rw [task]; exact (nofun))
      exact .taken (hworker.trans worker) (htask.trans task) data ret got
    | @returned x worker task data ret got =>
      obtain ⟨htask, hworker⟩ := hkeeps (by rw [task]; exact (nofun))
      exact .returned (by rwa [hworker]) (htask.trans task) data ret got
    | _ => simp_all [Worker.done]

end PcloudClient.Plibs
