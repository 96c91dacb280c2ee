/-
  Pfstasks/Completions.lean --- what the end of a task and a restart do to the folders.

  The functions that the upload threads call when the server has done a task, the functions
  that rebuild the folders from the rows of `fstask`, and what else edits them.
-/
import PcloudClient.Pfstasks.Operations

set_option autoImplicit false

namespace PcloudClient.Pfstasks

namespace FolderTasks

variable (f : FolderTasks)

/-- `mk->folderid=folderid` for the node that `psync_fstask_find_mkdir_by_folderid` gives. -/
def setMkdirFolderid (old new : FolderId) : FolderTasks :=
  match walkTree Mkdir.folderid f.mkdirs old with
  | none => f
  | some i => { f with mkdirs := f.mkdirs.modifyAt (fun mk => { mk with folderid := new }) i }

/-- `cr->fileid=fileid` for the node that `psync_fstask_find_creat_by_fileid` gives. -/
def setCreatFileid (old new : FileId) : FolderTasks :=
  match walkTree Creat.fileid f.creats old with
  | none => f
  | some i => { f with creats := f.creats.modifyAt (fun cr => { cr with fileid := new }) i }

end FolderTasks

namespace State

variable (st : State)

/-- Take a folder that may have no tasks, edit it and release it. -/
def withFolder (folderid : FolderId) (g : FolderTasks → FolderTasks) : State :=
  match st.getFolderTasks folderid with
  | (none, st) => st
  | (some p, st) => (st.edit p g).releaseFolderTasks p

/-- Take or make a folder, edit it and release it. -/
def withNewFolder (folderid : FolderId) (g : FolderTasks → FolderTasks) : State :=
  let (p, st) := st.getOrCreateFolderTasks folderid
  (st.edit p g).releaseFolderTasks p

/-- `psync_tree_del`, `folder->folderid=folderid` and `psync_tree_add` with `folder_cmp`. -/
def rekey (p : Nat) (folderid : FolderId) : State :=
  let f := { st.folder p with folderid }
  { st with
    folders := (st.unlinkFolder p).folders.insert
      (fun x => if folderid - x.folderid < 0 then -1 else 1) id f }

/-- The node that `find` gives in a folder, if the folder has tasks. -/
def lookup {α : Type} (folderid : FolderId) (find : FolderTasks → Option α) : Option α :=
  (st.getFolderTasksRdlocked folderid).bind find

end State

/-! ## Completions -/

/-- The part of `psync_fstask_folder_created` for a folder that was renamed meanwhile. -/
def lookForMkdirInDb (st : State) (taskid : Nat) (folderid : FolderId) : State :=
  match st.db.findTask taskid with
  | none => st
  | some row =>
    st.withFolder (row.sfolderid.getD 0) fun f => f.setMkdirFolderid (-taskid) folderid

/-- The end of `psync_fstask_folder_created`: the tasks in the new folder get its id. -/
def renumberFolder (st : State) (taskid : Nat) (folderid : FolderId) : State :=
  match st.getFolderTasks (-taskid) with
  | (none, st) => st
  | (some p, st) => (st.rekey p folderid).releaseFolderTasks p

/-- `psync_fstask_folder_created` -/
def folderCreated (st : State) (parentfolderid : FolderId) (taskid : Nat) (folderid : FolderId)
    (name : Name) : State :=
  let mk := st.lookup parentfolderid fun f => f.findMkdir name taskid
  let st := st.withFolder parentfolderid fun f => f.delMkdir name taskid
  let st := if mk.isNone then lookForMkdirInDb st taskid folderid else st
  renumberFolder st taskid folderid

/-- `psync_fstask_folder_deleted` -/
def folderDeleted (st : State) (parentfolderid : FolderId) (taskid : Nat) (name : Name) : State :=
  st.withFolder parentfolderid fun f => f.delRmdir name taskid

/-- `psync_fstask_look_for_creat_in_db` -/
def lookForCreatInDb (st : State) (taskid : Nat) (fileid : FileId) : State :=
  match st.db.findTask taskid with
  | none => st
  | some row => st.withFolder (row.sfolderid.getD 0) fun f => f.setCreatFileid (-taskid) fileid

/-- `psync_fstask_file_created`; `psync_fstask_file_modified` differs in its messages only. -/
def fileCreated (st : State) (parentfolderid : FolderId) (taskid : Nat) (name : Name)
    (fileid : FileId) : State :=
  let cr := st.lookup parentfolderid fun f => f.findCreat name taskid
  let st := st.withFolder parentfolderid fun f => (f.delCreat name taskid).delUnlink name taskid
  if cr.isNone then lookForCreatInDb st taskid fileid else st

/-- `psync_fstask_file_modified` -/
def fileModified (st : State) (parentfolderid : FolderId) (taskid : Nat) (name : Name)
    (fileid : FileId) : State :=
  fileCreated st parentfolderid taskid name fileid

/-- `psync_fstask_file_deleted` -/
def fileDeleted (st : State) (parentfolderid : FolderId) (taskid : Nat) (name : Name) : State :=
  st.withFolder parentfolderid fun f => f.delUnlink name taskid

/-- `DELETE FROM fstaskdepend WHERE dependfstaskid=?` and `DELETE FROM fstask WHERE id=?` -/
def deleteFromTask (db : Db) (frtaskid : Nat) : Db :=
  { db with fstaskdepend := db.fstaskdepend.filter fun d => d.2 ≠ frtaskid }.deleteTasks
    fun row => row.id = frtaskid

/-- The second half of `psync_fstask_file_renamed` and `psync_fstask_folder_renamed`: the
entry of the task that stands for the old name, and its row. -/
def renamedFrom (del : Name → Nat → FolderTasks → FolderTasks) (st : State) (frtaskid : Nat) :
    State :=
  let st := match st.db.findTask frtaskid with
    | none => st
    | some row => st.withFolder row.folderid (del (row.text1.getD []) row.id)
  { st with db := deleteFromTask st.db frtaskid }

/-- `psync_fstask_file_renamed` -/
def fileRenamed (st : State) (folderid : FolderId) (taskid : Nat) (name : Name) (frtaskid : Nat) :
    State :=
  renamedFrom (fun name taskid f => f.delUnlink name taskid)
    (st.withFolder folderid fun f => (f.delUnlink name taskid).delCreat name taskid) frtaskid

/-- `psync_fstask_folder_renamed` -/
def folderRenamed (st : State) (parentfolderid : FolderId) (taskid : Nat) (name : Name)
    (frtaskid : Nat) : State :=
  renamedFrom (fun name taskid f => f.delRmdir name taskid)
    (st.withFolder parentfolderid fun f => (f.delMkdir name taskid).delRmdir name taskid) frtaskid

/-! ## Restart -/

/-- What the replay of a row reads besides the row. -/
structure InitEnv where
  /-- `psync_timer_time` -/
  time : Nat
  /-- What `psync_init_task_renfile_to` compares unlinks by: it gives the offset of a
  creat's name. -/
  peek : Unlink → Bytes
  /-- The `taskid` of a creat fresh from `psync_malloc`, which `psync_init_task_modify` reads. -/
  junk : Nat

/-- The edit of `psync_init_task_mkdir`. -/
def initTaskMkdir (row : TaskRow) (f : FolderTasks) : FolderTasks :=
  f.addMkdir
    { folderid := -row.id, taskid := row.id, ctime := (row.int1.getD 0).toNat
      mtime := (row.int1.getD 0).toNat, subdircnt := 0
      flags := if row.text2.isNone then 0 else FLAG_ENCRYPTED, name := row.text1.getD [] }

/-- The edit of `psync_init_task_rmdir` and of `psync_init_task_renfolder_from`. -/
def initTaskRmdir (row : TaskRow) (f : FolderTasks) : FolderTasks :=
  (f.delMkdir (row.text1.getD []) 0).addRmdir
    { folderid := row.sfolderid.getD 0, taskid := row.id, name := row.text1.getD [] }

/-- The edit of `psync_init_task_creat`. -/
def initTaskCreat (row : TaskRow) (f : FolderTasks) : FolderTasks :=
  (f.addUnlink { fileid := -row.id, taskid := row.id, name := row.text1.getD [] }).addCreat
    { fileid := -row.id, rfileid := (row.fileid.getD 0).toNat, taskid := row.id
      name := row.text1.getD [] }

/-- The edit of `psync_init_do_task_unlink` and of `psync_init_task_renfile_from`. -/
def initDoTaskUnlink (row : TaskRow) (fileid : FileId) (f : FolderTasks) : FolderTasks :=
  (f.delCreat (row.text1.getD []) 0).addUnlink
    { fileid, taskid := row.id, name := row.text1.getD [] }

/-- The edit of `psync_init_task_renfile_to`. -/
def initTaskRenfileTo (env : InitEnv) (row : TaskRow) (f : FolderTasks) : FolderTasks :=
  ((f.delCreat (row.text1.getD []) 0).addUnlinkBy env.peek
    { fileid := row.fileid.getD 0, taskid := row.id, name := row.text1.getD [] }).addCreat
    { fileid := row.fileid.getD 0, rfileid := (row.int2.getD 0).toNat, taskid := row.id
      name := row.text1.getD [] }

/-- The edit of `psync_init_task_renfolder_to`. -/
def initTaskRenfolderTo (env : InitEnv) (db : Db) (row : TaskRow) (f : FolderTasks) : FolderTasks :=
  let folderid := row.sfolderid.getD 0
  let (ctime, mtime, subdircnt) := fillMkdirData env.time db folderid
  (f.addRmdir { folderid, taskid := row.id, name := row.text1.getD [] }).addMkdir
    { folderid, taskid := row.id, ctime, mtime, subdircnt
      flags := UInt32.ofNat (row.int2.getD 0).toNat, name := row.text1.getD [] }

/-- The edit of `psync_init_task_modify`.  It takes the id of the file from the task id of
the new node, before it sets that. -/
def initTaskModify (env : InitEnv) (row : TaskRow) (f : FolderTasks) : FolderTasks :=
  ((f.delCreat (row.text1.getD []) 0).addUnlink
    { fileid := row.fileid.getD 0, taskid := row.id, name := row.text1.getD [] }).addCreat
    { fileid := -env.junk, rfileid := (row.fileid.getD 0).toNat, taskid := row.id
      name := row.text1.getD [] }

/-- `psync_init_task_func`; the types past its end are passed over. -/
def initTaskFunc (env : InitEnv) (db : Db) (row : TaskRow) : Option (FolderTasks → FolderTasks) :=
  match row.type with
  | .mkdir => some (initTaskMkdir row)
  | .rmdir => some (initTaskRmdir row)
  | .creat => some (initTaskCreat row)
  | .unlink => some (initDoTaskUnlink row (row.fileid.getD 0))
  | .renfileFrom => some (initDoTaskUnlink row (row.fileid.getD 0))
  | .renfileTo => some (initTaskRenfileTo env row)
  | .renfolderFrom => some (initTaskRmdir row)
  | .renfolderTo => some (initTaskRenfolderTo env db row)
  | .modify => some (initTaskModify env row)
  | .unSetRev => some (initDoTaskUnlink row (row.int1.getD 0))
  | .setFileMod => none
  | .setFileCr => none

/-- One turn of the loop of `psync_fstask_init`. -/
def initTask (env : InitEnv) (st : State) (row : TaskRow) : State :=
  match initTaskFunc env st.db row with
  | none => st
  | some g => st.withNewFolder row.folderid g

/-! ## Other edits -/

/-- `psync_fstask_add_banned_folder` -/
def addBannedFolder (st : State) (folderid : FolderId) (name : Name) : State :=
  st.withNewFolder folderid fun f =>
    (f.addMkdir { folderid := 0, taskid := 0, ctime := 0, mtime := 0, subdircnt := 0
                  flags := FLAG_INVISIBLE, name }).addRmdir { folderid := 0, taskid := 0, name }

/-- The deletion of a creat with `taskscnt--` by a caller that has the folder. -/
def dropCreat (st : State) (p : Nat) (name : Name) (taskid : Nat) : State :=
  st.edit p fun f => f.delCreat name taskid

/-- The same for an unlink. -/
def dropUnlink (st : State) (p : Nat) (name : Name) (taskid : Nat) : State :=
  st.edit p fun f => f.delUnlink name taskid

end PcloudClient.Pfstasks
