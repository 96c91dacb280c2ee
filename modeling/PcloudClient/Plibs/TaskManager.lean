/-
  Plibs/TaskManager.lean --- the task manager of plibs.c: one owner, a thread for each task.

  A critical section of `tm->mutex` is one step, from the call or the return of
  `pthread_cond_wait` to the return or the next wait.  The section of `psync_task_dec_refcnt` is
  two, since `psync_task_free` reads the count without the mutex.  A wait may return at any time;
  `woken` says that it was told to or does.
-/
import Mathlib.Logic.Function.Basic

set_option autoImplicit false

namespace PcloudClient.Plibs

/-! ## The manager -/

/-- `PSYNC_TASK_STATUS_*` -/
inductive Status where
  | running
  | ready
  | done
  | returned
  deriving DecidableEq, Repr

/-- `PSYNC_WAIT_NOBODY` -/
abbrev waitNobody : Int := -2

/-- `PSYNC_WAIT_FREED` -/
abbrev waitFreed : Int := -3

/-- `struct psync_task_t_`; the callback and the condition are the thread's. -/
structure Task (D : Type) where
  param : D
  status : Status

/-- Where a thread of a task is. -/
inductive Worker where
  | notStarted
  /-- In the callback, before `psync_task_complete`. -/
  | running
  /-- In `pthread_cond_wait` of `psync_task_complete`. -/
  | waits (woken : Bool)
  /-- `psync_task_complete` returned. -/
  | completed
  /-- In `psync_task_dec_refcnt`, with the mutex, after the decrement to `refcnt`. -/
  | unlocks (refcnt : Int)
  /-- In `psync_task_dec_refcnt`, without the mutex, before `if (!refcnt)`. -/
  | tests (refcnt : Int)
  | ended
  deriving DecidableEq, Repr

/-- Where the owner is. -/
inductive Owner (cnt : Nat) where
  /-- In the loop of `psync_task_run_tasks`. -/
  | starting (i : Nat)
  /-- Between calls. -/
  | outside
  /-- In `pthread_cond_wait` of `psync_task_get_result`. -/
  | waits (id : Fin cnt) (woken : Bool)
  /-- In `psync_task_free`, after it read a count other than 1. -/
  | freeing
  /-- In `psync_task_free`, before `if (!refcnt)`. -/
  | tests (refcnt : Int)
  /-- `psync_task_free` returned. -/
  | ended
  /-- `psync_task_free` read 1, destroyed the manager and returned. -/
  | destroyed
  deriving DecidableEq, Repr

/-- `psync_task_manager_t` and its threads.  `data`, `ret` and `got` are not in the source: what
`psync_task_complete` was called with and what it returned, and what `psync_task_get_result`
returned, by task. -/
structure State (D : Type) (cnt : Nat) where
  waitfor : Int
  refcnt : Int
  tasks : Fin cnt → Task D
  /-- The thread that has the mutex between two steps. -/
  mutex : Option (Fin cnt)
  /-- How many times `psync_task_destroy` ran. -/
  destroyed : Nat
  owner : Owner cnt
  workers : Fin cnt → Worker
  data : Fin cnt → Option D
  ret : Fin cnt → Option Int
  got : Fin cnt → Option (Option D)

variable {D : Type} {cnt : Nat}

/-- Before the loop of `psync_task_run_tasks`. -/
def State.init (params : Fin cnt → D) : State D cnt where
  waitfor := waitNobody
  refcnt := cnt + 1
  tasks i := ⟨params i, .running⟩
  mutex := none
  destroyed := 0
  owner := .starting 0
  workers _ := .notStarted
  data _ := none
  ret _ := none
  got _ := none

namespace State

def setStatus (s : State D cnt) (i : Fin cnt) (status : Status) : State D cnt :=
  { s with tasks := Function.update s.tasks i { s.tasks i with status := status } }

def setWorker (s : State D cnt) (i : Fin cnt) (w : Worker) : State D cnt :=
  { s with workers := Function.update s.workers i w }

/-- `pthread_cond_signal(&tm->tasks[i].cond)` of the owner: only the thread of the task may
wait. -/
def signalWorker (s : State D cnt) (i : Fin cnt) : State D cnt :=
  match s.workers i with
  | .waits _ => s.setWorker i (.waits true)
  | _ => s

/-- `pthread_cond_signal(&t->cond)` of the thread of the task: only the owner may wait. -/
def signalOwner (s : State D cnt) (i : Fin cnt) : State D cnt :=
  match s.owner with
  | .waits id _ => if id = i then { s with owner := .waits id true } else s
  | _ => s

/-- `psync_task_destroy` -/
def destroy (s : State D cnt) : State D cnt := { s with destroyed := s.destroyed + 1 }

/-! ## The owner -/

/-- A round of the loop of `psync_task_run_tasks`. -/
def runTasks (s : State D cnt) (i : Nat) : State D cnt :=
  if h : i < cnt then
    { (s.setStatus ⟨i, h⟩ .running).setWorker ⟨i, h⟩ .running with owner := .starting (i + 1) }
  else { s with owner := .outside }

/-- `psync_task_get_result` returns `r`. -/
def returns (s : State D cnt) (id : Fin cnt) (r : Option D) : State D cnt :=
  { s with owner := .outside, got := Function.update s.got id (some r) }

/-- `psync_task_get_result` waits. -/
def awaits (s : State D cnt) (id : Fin cnt) : State D cnt :=
  { s with waitfor := id.val, owner := .waits id false }

/-- `psync_task_get_result` up to its first wait or its return. -/
def getResult (s : State D cnt) (id : Fin cnt) : State D cnt :=
  match (s.tasks id).status with
  | .running => s.awaits id
  | .ready => ((s.setStatus id .done).signalWorker id).returns id (some (s.tasks id).param)
  | .done | .returned => s.returns id none

/-- `psync_task_get_result` after its wait. -/
def getResultWoken (s : State D cnt) (id : Fin cnt) : State D cnt :=
  let s := { s with waitfor := waitNobody }
  if (s.tasks id).status = .running then s.awaits id
  else (s.setStatus id .done).returns id (some (s.tasks id).param)

/-- What `psync_task_free` does to a task that is ready. -/
def freeTask (s : State D cnt) (i : Fin cnt) : Task D :=
  if (s.tasks i).status = .ready then { s.tasks i with status := .returned } else s.tasks i

/-- Whom `psync_task_free` signals. -/
def freeWorker (s : State D cnt) (i : Fin cnt) : Worker :=
  if (s.tasks i).status = .ready then
    match s.workers i with
    | .waits _ => .waits true
    | w => w
  else s.workers i

/-- The critical section of `psync_task_free`. -/
def freeLocked (s : State D cnt) : State D cnt :=
  { s with
    waitfor := waitFreed
    tasks := s.freeTask
    workers := s.freeWorker
    refcnt := s.refcnt - 1
    owner := .tests (s.refcnt - 1) }

/-! ## The threads of the tasks -/

/-- `psync_task_complete` returns `r`. -/
def completes (s : State D cnt) (i : Fin cnt) (r : Int) : State D cnt :=
  { s.setWorker i .completed with ret := Function.update s.ret i (some r) }

/-- `t->param=data` and `t->status=PSYNC_TASK_STATUS_READY` -/
def setReady (s : State D cnt) (i : Fin cnt) (data : D) : State D cnt :=
  { s with tasks := Function.update s.tasks i ⟨data, .ready⟩ }

/-- `psync_task_complete` up to its first wait or its return. -/
def complete (s : State D cnt) (i : Fin cnt) (data : D) : State D cnt :=
  let s := { s with data := Function.update s.data i (some data) }
  if s.waitfor = (i.val : Int) then ((s.setReady i data).signalOwner i).completes i 0
  else if s.waitfor = waitNobody ∨ 0 ≤ s.waitfor then
    (s.setReady i data).setWorker i (.waits false)
  else s.completes i (-1)

/-- `psync_task_complete` after its wait. -/
def completeWoken (s : State D cnt) (i : Fin cnt) : State D cnt :=
  match (s.tasks i).status with
  | .ready => s.setWorker i (.waits false)
  | .returned => s.completes i (-1)
  | .running | .done => s.completes i 0

/-- `refcnt=--tm->refcnt` of `psync_task_dec_refcnt`. -/
def dec (s : State D cnt) (i : Fin cnt) : State D cnt :=
  { s.setWorker i (.unlocks (s.refcnt - 1)) with refcnt := s.refcnt - 1, mutex := some i }

/-- `if (!refcnt) psync_task_destroy(tm)` -/
def destroyIf (s : State D cnt) (refcnt : Int) : State D cnt :=
  if refcnt = 0 then s.destroy else s

end State

/-! ## Steps -/

/-- What a thread does next. -/
inductive Act (D : Type) (cnt : Nat) where
  | runTasks
  | getResult (id : Fin cnt)
  | getResultWoken
  /-- The wait of the owner returns without a signal. -/
  | wakesOwner
  | free
  | freeLocked
  | freeTest
  | complete (i : Fin cnt) (data : D)
  | completeWoken (i : Fin cnt)
  /-- The wait of a thread returns without a signal. -/
  | wakes (i : Fin cnt)
  | dec (i : Fin cnt)
  | decUnlock (i : Fin cnt)
  | decTest (i : Fin cnt)

/-- One step, where it is possible: the thread is there, and a critical section finds the mutex
free.  A result is asked for at most once. -/
inductive Step (s : State D cnt) : Act D cnt → State D cnt → Prop where
  | runTasks {i : Nat} (at_ : s.owner = .starting i) : Step s .runTasks (s.runTasks i)
  | getResult {id : Fin cnt} (at_ : s.owner = .outside) (free : s.mutex = none)
      (once : s.got id = none) : Step s (.getResult id) (s.getResult id)
  | getResultWoken {id : Fin cnt} (at_ : s.owner = .waits id true) (free : s.mutex = none) :
      Step s .getResultWoken (s.getResultWoken id)
  | wakesOwner {id : Fin cnt} (at_ : s.owner = .waits id false) :
      Step s .wakesOwner { s with owner := .waits id true }
  | freeLast (at_ : s.owner = .outside) (last : s.refcnt = 1) :
      Step s .free { s.destroy with owner := .destroyed }
  | freeShared (at_ : s.owner = .outside) (shared : s.refcnt ≠ 1) :
      Step s .free { s with owner := .freeing }
  | freeLocked (at_ : s.owner = .freeing) (free : s.mutex = none) :
      Step s .freeLocked s.freeLocked
  | freeTest {n : Int} (at_ : s.owner = .tests n) :
      Step s .freeTest { s.destroyIf n with owner := .ended }
  | complete {i : Fin cnt} (data : D) (at_ : s.workers i = .running) (free : s.mutex = none) :
      Step s (.complete i data) (s.complete i data)
  | completeWoken {i : Fin cnt} (at_ : s.workers i = .waits true) (free : s.mutex = none) :
      Step s (.completeWoken i) (s.completeWoken i)
  | wakes {i : Fin cnt} (at_ : s.workers i = .waits false) :
      Step s (.wakes i) (s.setWorker i (.waits true))
  | dec {i : Fin cnt} (at_ : s.workers i = .completed) (free : s.mutex = none) :
      Step s (.dec i) (s.dec i)
  | decUnlock {i : Fin cnt} {n : Int} (at_ : s.workers i = .unlocks n) :
      Step s (.decUnlock i) { s.setWorker i (.tests n) with mutex := none }
  | decTest {i : Fin cnt} {n : Int} (at_ : s.workers i = .tests n) :
      Step s (.decTest i) ((s.destroyIf n).setWorker i .ended)

end PcloudClient.Plibs
