/-
  Pfstasks/Tables.lean --- the tables the pending tasks are kept beside and in.

  Of `folder` and `file` the columns that path resolution, the directory view and the
  tasks read are kept.  The row of the root, whose `parentfolderid` is `NULL`, is no
  query's result and is left out.  A transaction is the database it would leave with a flag for a
  statement that failed; `psync_sql_commit_transaction` gives up all of it in that case, or
  when `COMMIT` itself fails.
-/
import PcloudClient.Foundation.Bytes

set_option autoImplicit false

namespace PcloudClient.Pfstasks

/-- `psync_fsfolderid_t`; negative for a folder that exists only as a pending mkdir. -/
abbrev FolderId := Int

/-- `psync_fsfileid_t` -/
abbrev FileId := Int

abbrev Name := Bytes

/-- `PSYNC_FOLDER_FLAG_ENCRYPTED` -/
def FLAG_ENCRYPTED : UInt32 := 1

/-- `PSYNC_FOLDER_FLAG_INVISIBLE` -/
def FLAG_INVISIBLE : UInt32 := 2

/-- `flags&PSYNC_FOLDER_FLAG_ENCRYPTED` -/
def isEncrypted (flags : UInt32) : Bool := flags &&& FLAG_ENCRYPTED != 0

/-- `flags&PSYNC_FOLDER_FLAG_INVISIBLE` -/
def isInvisible (flags : UInt32) : Bool := flags &&& FLAG_INVISIBLE != 0

/-- A row of `folder`. -/
structure FolderRow where
  id : FolderId
  parentfolderid : FolderId
  name : Name
  permissions : UInt32
  flags : UInt32
  userid : Nat
  ctime : Nat
  mtime : Nat
  subdircnt : Nat
  deriving DecidableEq, Repr

/-- A row of `file`. -/
structure FileRow where
  id : FileId
  parentfolderid : FolderId
  name : Name
  deriving DecidableEq, Repr

/-- `PSYNC_FS_TASK_MKDIR` and so on. -/
inductive TaskType where
  | mkdir
  | rmdir
  | creat
  | unlink
  | renfileFrom
  | renfileTo
  | renfolderFrom
  | renfolderTo
  | modify
  | unSetRev
  | setFileMod
  | setFileCr
  deriving DecidableEq, Repr

/-- A row of `fstask`; `none` is `NULL`. -/
structure TaskRow where
  id : Nat
  type : TaskType
  status : Nat
  folderid : FolderId
  sfolderid : Option FolderId
  fileid : Option FileId
  text1 : Option Name
  text2 : Option Bytes
  int1 : Option Int
  int2 : Option Int
  deriving DecidableEq, Repr

structure Db where
  folder : List FolderRow
  file : List FileRow
  fstask : List TaskRow
  /-- `(fstaskid, dependfstaskid)` -/
  fstaskdepend : List (Nat × Nat)
  deriving DecidableEq, Repr

namespace Db

/-- `SELECT ... FROM folder WHERE parentfolderid=? AND name=?` -/
def findFolder (db : Db) (parentfolderid : FolderId) (name : Name) : Option FolderRow :=
  db.folder.find? fun row => row.parentfolderid = parentfolderid ∧ row.name = name

/-- `SELECT ... FROM file WHERE parentfolderid=? AND name=?` -/
def findFile (db : Db) (parentfolderid : FolderId) (name : Name) : Option FileRow :=
  db.file.find? fun row => row.parentfolderid = parentfolderid ∧ row.name = name

/-- `SELECT name FROM folder WHERE parentfolderid=?` -/
def subfolders (db : Db) (parentfolderid : FolderId) : List Name :=
  (db.folder.filter fun row => row.parentfolderid = parentfolderid).map FolderRow.name

/-- `SELECT name FROM file WHERE parentfolderid=?` -/
def files (db : Db) (parentfolderid : FolderId) : List Name :=
  (db.file.filter fun row => row.parentfolderid = parentfolderid).map FileRow.name

/-- `SELECT ... FROM fstask WHERE id=?` -/
def findTask (db : Db) (id : Nat) : Option TaskRow := db.fstask.find? fun row => row.id = id

/-- The id SQLite gives to the next row of `fstask`, an `INTEGER PRIMARY KEY`. -/
def nextTaskid (db : Db) : Nat := (db.fstask.map TaskRow.id).foldr max 0 + 1

/-- `UPDATE fstask SET ... WHERE ...` -/
def updateTasks (db : Db) (cond : TaskRow → Bool) (set : TaskRow → TaskRow) : Db :=
  { db with fstask := db.fstask.map fun row => if cond row then set row else row }

/-- `DELETE FROM fstask WHERE ...`; `fstaskdepend` refers to it with `ON DELETE CASCADE`. -/
def deleteTasks (db : Db) (cond : TaskRow → Bool) : Db :=
  let fstask := db.fstask.filter fun row => !cond row
  { db with
    fstask
    fstaskdepend := db.fstaskdepend.filter fun d =>
      fstask.any (·.id = d.1) && fstask.any (·.id = d.2) }

end Db

/-- An open transaction. -/
structure Tx where
  db : Db
  /-- `transaction_failed` -/
  failed : Bool
  deriving DecidableEq, Repr

namespace Tx

/-- `psync_sql_start_transaction` -/
def start (db : Db) : Tx := ⟨db, false⟩

/-- `INSERT INTO fstask`, with the id from `psync_sql_insertid`. -/
def insertTask (tx : Tx) (row : TaskRow) : Nat × Tx :=
  (tx.db.nextTaskid,
    { tx with
      db := { tx.db with fstask := tx.db.fstask ++ [{ row with id := tx.db.nextTaskid }] } })

/-- `INSERT OR IGNORE INTO fstaskdepend`.  A reference to a row that is not there fails. -/
def insertDepend (tx : Tx) (d : Nat × Nat) : Tx :=
  if (tx.db.findTask d.1).isNone || (tx.db.findTask d.2).isNone then { tx with failed := true }
  else if d ∈ tx.db.fstaskdepend then tx
  else { tx with db := { tx.db with fstaskdepend := tx.db.fstaskdepend ++ [d] } }

/-- `psync_fstask_depend` -/
def depend (tx : Tx) (taskid dependontaskid : Nat) : Tx := tx.insertDepend (taskid, dependontaskid)

/-- `if (c) psync_fstask_depend(...)` -/
def dependIf (tx : Tx) (c : Bool) (taskid dependontaskid : Nat) : Tx :=
  if c then tx.depend taskid dependontaskid else tx

/-- A dependency on every one of some rows. -/
def dependAll (tx : Tx) (taskid : Nat) (ids : List Nat) : Tx :=
  ids.foldl (fun tx id => tx.depend taskid id) tx

/-- The rows that `psync_fstask_depend_on_name` and `psync_fstask_depend_on_name2` select. -/
def onName (db : Db) (folderid : FolderId) (name : Name) (except : List Nat) : List Nat :=
  (db.fstask.filter fun row => row.folderid = folderid ∧ row.text1 = some name ∧
    row.id ∉ except ∧ row.status ≠ 3).map TaskRow.id

/-- `psync_fstask_depend_on_name` -/
def dependOnName (tx : Tx) (taskid : Nat) (folderid : FolderId) (name : Name) : Tx :=
  tx.dependAll taskid (onName tx.db folderid name [taskid])

/-- `psync_fstask_depend_on_name2` -/
def dependOnName2 (tx : Tx) (taskid taskid2 : Nat) (folderid : FolderId) (name : Name) : Tx :=
  tx.dependAll taskid (onName tx.db folderid name [taskid, taskid2])

/-- `psync_sql_commit_transaction`, where `commits` tells whether `COMMIT` succeeds. -/
def commit (tx : Tx) (commits : Bool) : Option Db :=
  if commits && !tx.failed then some tx.db else none

end Tx

end PcloudClient.Pfstasks
