/-
  Pdownload/Tasks.lean --- the life of a `download_task_t` in pdownload.c.

  What a thread has still to do with its task is a piece of `Code`; every call in it is a step.
  Calls that leave the task table, the download list and the counters alone are tests when their
  result decides something, and are left out otherwise.  There may be any number of threads.
-/
import Mathlib.Data.BitVec
import Mathlib.Logic.Function.Basic
import Mathlib.Logic.Relation

set_option autoImplicit false

namespace PcloudClient.Pdownload

/-! ## Data -/

/-- `PSYNC_MAX_PARALLEL_DOWNLOADS` -/
abbrev maxParallelDownloads : Nat := 1024

/-- `PSYNC_START_NEW_DOWNLOADS_THRESHOLD` -/
abbrev startNewDownloadsThreshold : BitVec 64 := 4194304#64

/-- `PSYNC_MAX_SIZE_FOR_ASYNC_DOWNLOAD` -/
abbrev maxSizeForAsyncDownload : BitVec 64 := 262144#64

/-- `PSYNC_SERVER_ERROR_TOO_BIG` -/
abbrev serverErrorTooBig : BitVec 32 := 102#32

/-- `PSYNC_SERVER_ERROR_NOT_MOD` -/
abbrev serverErrorNotMod : BitVec 32 := 104#32

/-- `PSYNC_ASYNC_ERR_FLAG_PERM` -/
abbrev asyncErrFlagPerm : BitVec 32 := 1#32

/-- `PSYNC_ASYNC_ERR_FLAG_RETRY_AS_IS` -/
abbrev asyncErrFlagRetryAsIs : BitVec 32 := 2#32

/-- `psync_async_result_t`, without the checksum of the file. -/
structure AsyncResult where
  error : BitVec 32
  errorflags : BitVec 32
  size : BitVec 64
  hash : BitVec 64
  deriving DecidableEq, Repr

/-- A row of the table `file`. -/
structure File where
  size : BitVec 64
  hash : BitVec 64
  deriving DecidableEq, Repr

/-- A row of the table `task` of type `PSYNC_DOWNLOAD_FILE`. -/
structure TaskRow where
  syncid : Nat
  itemid : Nat
  inprogress : Nat
  deriving DecidableEq, Repr

/-- `download_task_t`; `stop` is that of its `dwllist`. -/
structure DownloadTask where
  taskid : Nat
  fileid : Nat
  syncid : Nat
  stop : Nat
  size : BitVec 64
  downloadedsize : BitVec 64
  indwllist : Bool
  deriving DecidableEq, Repr

/-! ## Code -/

/-- A call with the task. -/
inductive Call where
  | setTaskInprogress (val : Nat)
  | deleteTask
  | freeDownloadTask
  /-- `psync_timer_register(free_task_timer, 1, dt)` -/
  | timerRegister
  /-- `UPDATE file SET size=?, hash=? WHERE id=?` -/
  | updateFile (size hash : BitVec 64)
  /-- `psync_file_delete(dt->tmpname)` -/
  | fileDelete
  | assert (cond : Bool)
  deriving DecidableEq, Repr

/-- A condition that other code decides. -/
inductive Test where
  /-- The temporary file has the size and the checksum of the file. -/
  | tmpHasChecksum
  /-- `psync_get_local_file_checksum(localname, ...)==PSYNC_NET_OK` -/
  | localExists
  /-- The local file has the checksum of the file. -/
  | localHasChecksum
  /-- `freespace!=-1` -/
  | freeSpaceKnown
  /-- `freespace>=minfree+size` -/
  | freeSpaceSuffices
  /-- `psync_lock_file(localname)` -/
  | lockFile
  /-- `rename_and_create_local` returns zero. -/
  | renameAndCreateLocal
  /-- `stat_and_create_local` returns zero. -/
  | statAndCreateLocal
  /-- `task_download_file` returns zero. -/
  | taskDownloadFile
  deriving DecidableEq, Repr

/-- What a thread has still to do with its task. -/
inductive Code where
  | done
  | call (c : Call) (k : Code)
  | test (t : Test) (yes no : Code)
  /-- `psync_async_download_file_if_changed` or `psync_async_download_file`, and what follows
  when it fails. -/
  | startsAsync (existing : Bool) (failed : Code)
  /-- `psync_run_thread1("download file", task_run_download_file_thread, dt)` -/
  | startsThread
  deriving DecidableEq, Repr

namespace Code

/-- One call after the other. -/
def calls : List Call → Code
  | [] => .done
  | c :: cs => .call c (calls cs)

end Code

/-- `handle_async_error`; `debug` says that assertions are compiled. -/
def handleAsyncError (debug : Bool) (res : AsyncResult) : Code :=
  if res.error = serverErrorTooBig then
    .calls ((if debug then [.assert (maxSizeForAsyncDownload < res.size)] else []) ++
      [.updateFile res.size res.hash, .setTaskInprogress 0, .freeDownloadTask])
  else if res.errorflags &&& asyncErrFlagPerm ≠ 0 ∨
      ¬ res.errorflags &&& asyncErrFlagRetryAsIs ≠ 0 then
    .calls [.deleteTask, .freeDownloadTask]
  else .calls [.timerRegister]

/-- `finish_async_download` -/
def finishAsyncDownload (debug : Bool) (dt : DownloadTask) (res : AsyncResult) : Code :=
  if res.error ≠ 0 then handleAsyncError debug res
  else if dt.stop = 2 then .calls [.fileDelete]
  else
    .test .renameAndCreateLocal
      (.calls [.deleteTask, .freeDownloadTask])
      (.calls [.timerRegister])

/-- `finish_async_download_existing_not_mod` -/
def finishAsyncDownloadExistingNotMod : Code :=
  .test .statAndCreateLocal
    (.calls [.deleteTask, .freeDownloadTask])
    (.calls [.timerRegister])

/-- `finish_async_download_existing` -/
def finishAsyncDownloadExisting (debug : Bool) (dt : DownloadTask) (res : AsyncResult) : Code :=
  if res.error = serverErrorNotMod then finishAsyncDownloadExistingNotMod
  else finishAsyncDownload debug dt res

/-- The callback of a download. -/
def callback (existing debug : Bool) (dt : DownloadTask) (res : AsyncResult) : Code :=
  if existing then finishAsyncDownloadExisting debug dt res else finishAsyncDownload debug dt res

/-- `free_task_timer_thread` -/
def freeTaskTimerThread : Code := .calls [.setTaskInprogress 0, .freeDownloadTask]

/-- `task_run_download_file_thread` after `task_download_file`. -/
def taskRunDownloadFileThread (ret : Bool) : Code :=
  if ret then .calls [.deleteTask, .freeDownloadTask]
  else .calls [.setTaskInprogress 0, .freeDownloadTask]

/-- `task_run_download_file` after the file was locked. -/
def startDownload (size : BitVec 64) (existing : Bool) : Code :=
  .call (.setTaskInprogress 1)
    (if size ≤ maxSizeForAsyncDownload then
      .startsAsync existing (.calls [.freeDownloadTask, .setTaskInprogress 0])
    else .startsThread)

/-- `task_run_download_file` after the checks of the local files. -/
def checkSpace (size : BitVec 64) (existing : Bool) : Code :=
  .test .freeSpaceKnown
    (.test .freeSpaceSuffices
      (.test .lockFile (startDownload size existing) (.calls [.freeDownloadTask]))
      (.calls [.freeDownloadTask]))
    (.calls [.freeDownloadTask])

/-- A local file is the one wanted: `ret=...; free_download_task(dt); return ret`, and
`download_thread` deletes the task when that is zero. -/
def keepLocal (t : Test) : Code :=
  .test t (.calls [.freeDownloadTask, .deleteTask]) (.calls [.freeDownloadTask])

/-- `task_run_download_file` once the download is counted. -/
def taskRunDownloadFile (size : BitVec 64) : Code :=
  .test .tmpHasChecksum (keepLocal .renameAndCreateLocal)
    (.test .localExists
      (.test .localHasChecksum (keepLocal .statAndCreateLocal) (checkSpace size true))
      (checkSpace size false))

/-! ## States -/

/-- Where a task is. -/
inductive Place where
  /-- Not yet allocated. -/
  | unborn
  /-- In the waiting loop of `task_run_download_file`. -/
  | waits
  /-- A thread has it. -/
  | runs (k : Code)
  /-- In `task_download_file`. -/
  | downloads
  /-- With the asynchronous transfer. -/
  | pending (existing : Bool)
  /-- With the timer. -/
  | timer
  deriving DecidableEq, Repr

/-- The globals of pdownload.c, the tables and the tasks by address.  `marked`, `answered`,
`settled` and `freed` are not in the source: whether the task was put in progress, whether its
callback was called, how often its row was deleted or reset, and how often it was freed. -/
structure State where
  rows : Nat → Option TaskRow
  files : Nat → Option File
  /-- `downloads` -/
  downloads : List Nat
  startedDownloads : Nat
  filesdownloading : Nat
  bytestodownloadcurrent : BitVec 64
  bytesdownloaded : BitVec 64
  tasks : Nat → DownloadTask
  place : Nat → Place
  /-- The address of the next task. -/
  next : Nat
  aborted : Bool
  marked : Nat → Bool
  answered : Nat → Bool
  settled : Nat → Nat
  freed : Nat → Nat

namespace State

/-- After `UPDATE task SET inprogress=0 WHERE inprogress=1`. -/
def init (rows : Nat → Option TaskRow) (files : Nat → Option File) : State where
  rows id := (rows id).map fun row => { row with inprogress := 0 }
  files := files
  downloads := []
  startedDownloads := 0
  filesdownloading := 0
  bytestodownloadcurrent := 0
  bytesdownloaded := 0
  tasks _ := ⟨0, 0, 0, 0, 0, 0, false⟩
  place _ := .unborn
  next := 0
  aborted := false
  marked _ := false
  answered _ := false
  settled _ := 0
  freed _ := 0

def setPlace (s : State) (p : Nat) (l : Place) : State :=
  { s with place := Function.update s.place p l }

def setTask (s : State) (p : Nat) (dt : DownloadTask) : State :=
  { s with tasks := Function.update s.tasks p dt }

/-- The downloads on the list that are counted. -/
def current (s : State) : List Nat := s.downloads.filter fun p => (s.tasks p).indwllist

/-! ## The calls -/

/-- The row of the task was deleted or reset. -/
def settles (s : State) (p : Nat) : State :=
  { s with settled := Function.update s.settled p (s.settled p + 1) }

/-- `set_task_inprogress` -/
def setTaskInprogress (s : State) (p val : Nat) : State :=
  let id := (s.tasks p).taskid
  let s : State := { s with
    rows := Function.update s.rows id ((s.rows id).map fun row => { row with inprogress := val }) }
  if val = 0 then s.settles p else { s with marked := Function.update s.marked p true }

/-- `delete_task` -/
def deleteTask (s : State) (p : Nat) : State :=
  State.settles { s with rows := Function.update s.rows (s.tasks p).taskid none } p

/-- The critical section of `free_download_task`. -/
def uncount (s : State) (p : Nat) : State :=
  { s with
    downloads := s.downloads.erase p
    startedDownloads := s.startedDownloads - 1
    filesdownloading := s.filesdownloading - 1
    bytestodownloadcurrent := s.bytestodownloadcurrent - (s.tasks p).size
    bytesdownloaded := s.bytesdownloaded - (s.tasks p).downloadedsize }

/-- `free_download_task` -/
def freeDownloadTask (s : State) (p : Nat) : State :=
  let s := if (s.tasks p).indwllist then s.uncount p else s
  { s with freed := Function.update s.freed p (s.freed p + 1) }

/-- The call, and the code after it. -/
def call (s : State) (p : Nat) (k : Code) : Call → State
  | .setTaskInprogress val => (s.setTaskInprogress p val).setPlace p (.runs k)
  | .deleteTask => (s.deleteTask p).setPlace p (.runs k)
  | .freeDownloadTask => (s.freeDownloadTask p).setPlace p (.runs k)
  | .timerRegister => s.setPlace p .timer
  | .updateFile size hash =>
    State.setPlace { s with
      files := Function.update s.files (s.tasks p).fileid
        ((s.files (s.tasks p).fileid).map fun _ => ⟨size, hash⟩) } p (.runs k)
  | .fileDelete => s.setPlace p (.runs k)
  | .assert true => s.setPlace p (.runs k)
  | .assert false => { s with aborted := true }

/-! ## The download thread -/

/-- `task_run_download_file` up to the waiting loop. -/
def enlist (s : State) (id : Nat) (row : TaskRow) (file : File) : State :=
  { s with
    tasks := Function.update s.tasks s.next ⟨id, row.itemid, row.syncid, 0, file.size, 0, false⟩
    place := Function.update s.place s.next .waits
    downloads := s.downloads ++ [s.next]
    next := s.next + 1 }

/-- The waiting loop of `task_run_download_file` goes on. -/
def mustWait (s : State) (p : Nat) : Bool :=
  (s.tasks p).stop = 0 ∧ (maxParallelDownloads ≤ s.startedDownloads ∨
    startNewDownloadsThreshold < s.bytestodownloadcurrent - s.bytesdownloaded)

/-- `task_run_download_file` after the waiting loop. -/
def letIn (s : State) (p : Nat) : State :=
  if (s.tasks p).stop ≠ 0 then
    State.setPlace { s with downloads := s.downloads.erase p } p
      (.runs (.calls [.freeDownloadTask]))
  else
    State.setPlace
      { s.setTask p { s.tasks p with indwllist := true } with
        bytestodownloadcurrent := s.bytestodownloadcurrent + (s.tasks p).size
        filesdownloading := s.filesdownloading + 1
        startedDownloads := s.startedDownloads + 1 }
      p (.runs (taskRunDownloadFile (s.tasks p).size))

/-! ## `task_download_file` -/

/-- The server has another size; `dt->size` is set after the unlock, but no other thread reads
it. -/
def resize (s : State) (p : Nat) (serversize : BitVec 64) : State :=
  { s.setTask p { s.tasks p with size := serversize } with
    bytestodownloadcurrent := s.bytestodownloadcurrent - (s.tasks p).size + serversize }

/-- A block was read; `dt->downloadedsize` too is the thread's. -/
def receive (s : State) (p : Nat) (rd : BitVec 64) : State :=
  { s.setTask p { s.tasks p with downloadedsize := (s.tasks p).downloadedsize + rd } with
    bytesdownloaded := s.bytesdownloaded + rd }

/-! ## Other threads -/

/-- Set `stop` of the downloads on the list that `sel` selects. -/
def stopDownloads (s : State) (sel : DownloadTask → Bool) (stop : Nat) : State :=
  { s with
    tasks := fun p =>
      if p ∈ s.downloads ∧ sel (s.tasks p) then { s.tasks p with stop := stop } else s.tasks p }

/-- `psync_delete_download_tasks_for_file` after the tasks were deleted. -/
def deleteDownloadTasksForFile (s : State) (fileid syncid : Nat) (deltemp : Bool) : State :=
  s.stopDownloads (fun dt => dt.fileid = fileid ∧ (syncid = 0 ∨ dt.syncid = syncid))
    (if deltemp then 2 else 1)

/-- `psync_stop_file_download` -/
def stopFileDownload (s : State) (fileid syncid : Nat) : State :=
  s.stopDownloads (fun dt => dt.fileid = fileid ∧ dt.syncid = syncid) 1

/-- `psync_stop_sync_download` after the tasks were deleted. -/
def stopSyncDownload (s : State) (syncid : Nat) : State :=
  s.stopDownloads (fun dt => dt.syncid = syncid) 1

/-- `psync_stop_all_download` -/
def stopAllDownload (s : State) : State := s.stopDownloads (fun _ => true) 1

end State

/-! ## Steps -/

/-- What happens next. -/
inductive Act where
  /-- `download_thread` takes a task. -/
  | enlist (id : Nat)
  /-- `download_thread` takes a task without a file or a local folder. -/
  | drop (id : Nat)
  | letIn (p : Nat)
  | call (p : Nat)
  | test (p : Nat) (result : Bool)
  | startAsync (p : Nat) (result : Bool)
  | startThread (p : Nat)
  | resize (p : Nat) (serversize : BitVec 64)
  | receive (p : Nat) (rd : BitVec 64)
  | downloaded (p : Nat) (result : Bool)
  | callback (p : Nat) (res : AsyncResult)
  /-- `free_task_timer` and the start of its thread. -/
  | timer (p : Nat)
  /-- A task is added. -/
  | insertTask (id : Nat) (row : TaskRow)
  /-- Tasks are deleted. -/
  | deleteTasks (sel : Nat → TaskRow → Bool)
  | setFile (id : Nat) (file : Option File)
  | deleteDownloadTasksForFile (fileid syncid : Nat) (deltemp : Bool)
  | stopFileDownload (fileid syncid : Nat)
  | stopSyncDownload (syncid : Nat)
  | stopAllDownload

/-- One step. -/
inductive Step (debug : Bool) (s : State) : Act → State → Prop where
  | enlist {id : Nat} {row : TaskRow} {file : File} (found : s.rows id = some row)
      (idle : row.inprogress = 0) (there : s.files row.itemid = some file) :
      Step debug s (.enlist id) (s.enlist id row file)
  | drop {id : Nat} {row : TaskRow} (found : s.rows id = some row) (idle : row.inprogress = 0) :
      Step debug s (.drop id) { s with rows := Function.update s.rows id none }
  | letIn {p : Nat} (at_ : s.place p = .waits) (ready : s.mustWait p = false) :
      Step debug s (.letIn p) (s.letIn p)
  | call {p : Nat} {c : Call} {k : Code} (at_ : s.place p = .runs (.call c k)) :
      Step debug s (.call p) (s.call p k c)
  | test {p : Nat} {t : Test} {yes no : Code} (result : Bool)
      (at_ : s.place p = .runs (.test t yes no)) :
      Step debug s (.test p result) (s.setPlace p (.runs (if result then yes else no)))
  | startAsync {p : Nat} {existing : Bool} {failed : Code} (result : Bool)
      (at_ : s.place p = .runs (.startsAsync existing failed)) :
      Step debug s (.startAsync p result)
        (s.setPlace p (if result then .pending existing else .runs failed))
  | startThread {p : Nat} (at_ : s.place p = .runs .startsThread) :
      Step debug s (.startThread p) (s.setPlace p .downloads)
  | resize {p : Nat} (serversize : BitVec 64) (at_ : s.place p = .downloads) :
      Step debug s (.resize p serversize) (s.resize p serversize)
  | receive {p : Nat} (rd : BitVec 64) (at_ : s.place p = .downloads) :
      Step debug s (.receive p rd) (s.receive p rd)
  | downloaded {p : Nat} (result : Bool) (at_ : s.place p = .downloads) :
      Step debug s (.downloaded p result)
        (s.setPlace p (.runs (taskRunDownloadFileThread result)))
  | callback {p : Nat} {existing : Bool} (res : AsyncResult)
      (at_ : s.place p = .pending existing) :
      Step debug s (.callback p res)
        (State.setPlace { s with answered := Function.update s.answered p true } p
          (.runs (callback existing debug (s.tasks p) res)))
  | timer {p : Nat} (at_ : s.place p = .timer) :
      Step debug s (.timer p) (s.setPlace p (.runs freeTaskTimerThread))
  | insertTask {id : Nat} {row : TaskRow} (free : s.rows id = none) (idle : row.inprogress = 0) :
      Step debug s (.insertTask id row) { s with rows := Function.update s.rows id (some row) }
  | deleteTasks (sel : Nat → TaskRow → Bool) :
      Step debug s (.deleteTasks sel)
        { s with rows := fun id => (s.rows id).filter fun row => ! sel id row }
  | setFile (id : Nat) (file : Option File) :
      Step debug s (.setFile id file) { s with files := Function.update s.files id file }
  | deleteDownloadTasksForFile (fileid syncid : Nat) (deltemp : Bool) :
      Step debug s (.deleteDownloadTasksForFile fileid syncid deltemp)
        (s.deleteDownloadTasksForFile fileid syncid deltemp)
  | stopFileDownload (fileid syncid : Nat) :
      Step debug s (.stopFileDownload fileid syncid) (s.stopFileDownload fileid syncid)
  | stopSyncDownload (syncid : Nat) :
      Step debug s (.stopSyncDownload syncid) (s.stopSyncDownload syncid)
  | stopAllDownload : Step debug s .stopAllDownload s.stopAllDownload

end PcloudClient.Pdownload
