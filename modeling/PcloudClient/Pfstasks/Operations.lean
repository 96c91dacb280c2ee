/-
  Pfstasks/Operations.lean --- the operations on the drive as pending tasks.

  Every operation runs under the lock of the database.  Its transaction is cut out as a
  function of the database; the operation itself edits the folders it took.
-/
import PcloudClient.Pfstasks.Folders

set_option autoImplicit false

namespace PcloudClient.Pfstasks

/-- The error codes; the code returns them negated. -/
inductive Errno where
  | eexist
  | eacces
  | eio
  | enoent
  | enotempty
  | enotconn
  | einval
  deriving DecidableEq, Repr

/-- `psync_fs_crypto_err_to_errno` -/
def cryptoErrToErrno : Int → Errno
  | -1 => .eacces
  | -2 => .eio
  | -3 => .enoent
  | -4 => .enoent
  | -5 => .eio
  | -6 => .enotconn
  | _ => .einval

/-- What the other parts of the client give to an operation. -/
structure Env where
  /-- Whether `COMMIT` succeeds. -/
  commits : Bool
  /-- `psync_timer_time` -/
  time : Nat
  /-- `psync_cloud_crypto_get_new_encoded_key` -/
  newKey : Except Int Bytes
  /-- The record `HLOC` of a file in the cache: where it was before. -/
  hloc : FileId → Option (FolderId × Name)
  /-- `psync_fsupload_in_current_small_uploads_batch_locked` -/
  inBatch : Nat → Bool

/-- A row of `fstask` with the columns that not every insert gives. -/
def TaskRow.new (type : TaskType) (status : Nat) (folderid : FolderId) (name : Name)
    (sfolderid : Option FolderId := none) (fileid : Option FileId := none)
    (text2 : Option Bytes := none) (int1 int2 : Option Int := none) : TaskRow :=
  { id := 0, type, status, folderid, sfolderid, fileid, text1 := some name, text2, int1, int2 }

/-! ## Folders -/

/-- The transaction of `psync_fstask_mkdir`. -/
def mkdirTx (db : Db) (folderid : FolderId) (name : Name) (key : Option Bytes) (ctime : Nat) :
    Nat × Tx :=
  let (taskid, tx) := (Tx.start db).insertTask
    (.new .mkdir 0 folderid name (some folderid) none key (some ctime))
  let tx := tx.dependIf (folderid < 0) taskid (-folderid).toNat
  (taskid, tx.dependOnName taskid folderid name)

/-- The key of a new folder, if it is to be encrypted. -/
def newFolderKey (env : Env) (folderflags : UInt32) : Except Int (Option Bytes) :=
  if isEncrypted folderflags then env.newKey.map some else .ok none

/-- `psync_fstask_mkdir` -/
def mkdir (env : Env) (st : State) (folderid : FolderId) (name : Name) (folderflags : UInt32) :
    Option Errno × State :=
  let (p, st) := st.getOrCreateFolderTasks folderid
  if 0 ≤ folderid ∧ (st.db.findFolder folderid name).isSome ∧
      ((st.folder p).findRmdir name 0).isNone then
    (some .eexist, st.releaseFolderTasks p)
  else
    match (st.folder p).findMkdir name 0 with
    | some task =>
      (some (if isInvisible task.flags then .eacces else .eexist), st.releaseFolderTasks p)
    | none =>
      match newFolderKey env folderflags with
      | .error e => (some (cryptoErrToErrno e), st.releaseFolderTasks p)
      | .ok key =>
        let (taskid, tx) := mkdirTx st.db folderid name key env.time
        match tx.commit env.commits with
        | none => (some .eio, st.releaseFolderTasks p)
        | some db =>
          let st := { st with db }.edit p fun f => f.addMkdir
            { folderid := -taskid, taskid, ctime := env.time, mtime := env.time, subdircnt := 0
              flags := folderflags &&& FLAG_ENCRYPTED, name }
          (none, st.releaseFolderTasks p)

/-- The checks of `psync_fstask_can_rmdir` and `psync_fstask_rmdir` on the folder to remove:
it has new entries, or entries of the database that are not removed. -/
def notEmpty (db : Db) (cfolder : Option FolderTasks) (cfolderid : FolderId) : Bool :=
  (match cfolder with
    | none => false
    | some c => !c.creats.toList.isEmpty || !c.mkdirs.toList.isEmpty) ||
  decide (0 ≤ cfolderid) &&
    ((db.files cfolderid).any (fun name =>
      match cfolder with
      | none => true
      | some c => (c.findUnlink name 0).isNone) ||
    (db.subfolders cfolderid).any (fun name =>
      match cfolder with
      | none => true
      | some c => (c.findRmdir name 0).isNone))

/-- What both functions do with a row of the database. -/
def rmdirRow (parentflags : UInt32) (row : FolderRow) : Except Errno FolderId :=
  if isEncrypted row.flags && !isEncrypted parentflags then .error .eacces else .ok row.id

/-- `psync_fstask_can_rmdir`; `none` when it dereferences `NULL`. -/
def canRmdir (st : State) (folderid : FolderId) (parentflags : UInt32) (name : Name) :
    Option (Option Errno × State) :=
  let (folder, st) := st.getFolderTasks folderid
  let target : Option (Except Errno FolderId) :=
    match folder.bind fun p => (st.folder p).findMkdir name 0 with
    | some mk => some (.ok mk.folderid)
    | none =>
      match st.db.findFolder folderid name with
      | none => folder.map fun _ => .error .enoent
      | some row =>
        match folder.bind fun p => (st.folder p).findRmdir name 0 with
        | some _ => folder.map fun _ => .error .enoent
        | none => some (rmdirRow parentflags row)
  match target with
  | none => none
  | some (.error e) => some (some e, st.releaseIf folder)
  | some (.ok cfolderid) =>
    let (cfolder, st) := st.getFolderTasks cfolderid
    if notEmpty st.db (cfolder.map st.folder) cfolderid then
      some (some .enotempty, (st.releaseIf cfolder).releaseIf folder)
    else some (none, (st.releaseIf cfolder).releaseIf folder)

/-- The transaction of `psync_fstask_rmdir`. -/
def rmdirTx (db : Db) (folderid : FolderId) (name : Name) (cfolderid : FolderId) (depend : Nat) :
    Nat × Tx :=
  let (taskid, tx) := (Tx.start db).insertTask (.new .rmdir 0 folderid name (some cfolderid))
  let tx := tx.dependIf (depend ≠ 0) taskid depend
  let inside := (tx.db.fstask.filter fun row => row.folderid = cfolderid).map TaskRow.id
  let tx := tx.dependAll taskid inside
  (taskid, tx.dependOnName taskid folderid name)

/-- `psync_fstask_rmdir` once the folder to remove is known; `mk` tells whether it is a
pending mkdir. -/
def rmdirTarget (env : Env) (st : State) (p : Nat) (folderid : FolderId) (name : Name)
    (mk : Option Mkdir) (cfolderid : FolderId) : Option Errno × State :=
  let (cfolder, st) := st.getFolderTasks cfolderid
  if notEmpty st.db (cfolder.map st.folder) cfolderid then
    (some .enotempty, (st.releaseIf cfolder).releaseFolderTasks p)
  else
    let st := if mk.isSome then st.edit p fun f => f.cutMkdir name 0 else st
    let st := st.releaseIf cfolder
    let (taskid, tx) := rmdirTx st.db folderid name cfolderid ((mk.map Mkdir.taskid).getD 0)
    match tx.commit env.commits with
    | none => (some .eio, st.releaseFolderTasks p)
    | some db =>
      let st := { st with db }.edit p fun f => f.addRmdir { folderid := cfolderid, taskid, name }
      (none, st.releaseFolderTasks p)

/-- `psync_fstask_rmdir` -/
def rmdir (env : Env) (st : State) (folderid : FolderId) (parentflags : UInt32) (name : Name) :
    Option Errno × State :=
  let (p, st) := st.getOrCreateFolderTasks folderid
  match (st.folder p).findMkdir name 0 with
  | some mk =>
    let st := st.edit p fun f => { f with taskscnt := f.taskscnt - 1 }
    rmdirTarget env st p folderid name (some mk) mk.folderid
  | none =>
    match st.db.findFolder folderid name with
    | none => (some .enoent, st.releaseFolderTasks p)
    | some row =>
      match (st.folder p).findRmdir name 0 with
      | some _ => (some .enoent, st.releaseFolderTasks p)
      | none =>
        match rmdirRow parentflags row with
        | .error e => (some e, st.releaseFolderTasks p)
        | .ok cfolderid => rmdirTarget env st p folderid name none cfolderid

/-! ## Files -/

/-- The transaction of `psync_fstask_add_creat`. -/
def creatTx (db : Db) (folderid : FolderId) (name : Name) (fileid : FileId)
    (encsymkey : Option Bytes) : Nat × Tx :=
  let (taskid, tx) := (Tx.start db).insertTask
    (.new .creat 1 folderid name (some folderid) (some fileid) encsymkey (some 0))
  let tx := tx.dependIf (folderid < 0) taskid (-folderid).toNat
  (taskid, tx.dependOnName taskid folderid name)

/-- `psync_fstask_add_creat` -/
def addCreat (env : Env) (st : State) (p : Nat) (name : Name) (fileid : FileId)
    (encsymkey : Option Bytes) : Option Creat × State :=
  let (taskid, tx) := creatTx st.db (st.folder p).folderid name fileid encsymkey
  match tx.commit env.commits with
  | none => (none, st)
  | some db =>
    let cr : Creat := { fileid := -taskid, rfileid := fileid.toNat, taskid, name }
    (some cr, { st with db }.edit p fun f =>
      (f.addUnlink { fileid := -taskid, taskid, name }).addCreat cr)

/-- `psync_fstask_inject_creat` -/
def injectCreat (st : State) (p : Nat) (cr : Creat) : State := st.edit p fun f => f.addCreat cr

/-- `psync_fstask_inject_unlink`.  It compares at `offsetof(psync_fstask_creat_t, name)`,
which in a `psync_fstask_unlink_t` is eight bytes into the name; `peek` is what stands
there. -/
def injectUnlink (peek : Unlink → Bytes) (st : State) (p : Nat) (un : Unlink) : State :=
  st.edit p fun f => f.addUnlinkBy peek un

/-- The transaction of `psync_fstask_add_modified_file`. -/
def modifyTx (db : Db) (folderid : FolderId) (name : Name) (fileid : FileId) (hash : Int)
    (encsymkey : Option Bytes) (cr : Option Creat) : Nat × Tx :=
  let (taskid, tx) := (Tx.start db).insertTask
    (.new .modify 1 folderid name (some folderid) (some fileid) encsymkey (some 0) (some hash))
  let tx := tx.dependIf (folderid < 0) taskid (-folderid).toNat
  let tx := tx.dependOnName taskid folderid name
  (taskid, tx.dependIf cr.isSome taskid ((cr.map Creat.taskid).getD 0))

/-- `psync_fstask_add_modified_file` -/
def addModifiedFile (env : Env) (st : State) (p : Nat) (name : Name) (fileid : FileId) (hash : Int)
    (encsymkey : Option Bytes) : Option Creat × State :=
  let (taskid, tx) := modifyTx st.db (st.folder p).folderid name fileid hash encsymkey
    ((st.folder p).findCreat name 0)
  let st := st.edit p fun f => f.delCreat name 0
  match tx.commit env.commits with
  | none => (none, st)
  | some db =>
    let cr : Creat := { fileid := -taskid, rfileid := fileid.toNat, taskid, name }
    (some cr, { st with db }.edit p fun f => (f.addUnlink { fileid, taskid, name }).addCreat cr)

/-- `psync_fstask_add_local_creat_static`; `taskid` is `psync_local_taskid`. -/
def addLocalCreatStatic (st : State) (folderid : FolderId) (name : Name) (taskid : Nat) : State :=
  let (p, st) := st.getOrCreateFolderTasks folderid
  if ((st.folder p).findCreat name 0).isSome then st.releaseFolderTasks p
  else if 0 ≤ folderid ∧ ((st.folder p).findUnlink name 0).isNone ∧
      (st.db.findFile folderid name).isSome then st.releaseFolderTasks p
  else
    let st := st.edit p fun f =>
      (f.addUnlink { fileid := 0, taskid, name }).addCreat
        { fileid := 0, rfileid := 0, taskid, name }
    st.releaseFolderTasks p

/-- `get_file_at_old_location` -/
def getFileAtOldLocation (env : Env) (st : State) (fileid : FileId) : FileId × State :=
  if fileid < 0 then (0, st)
  else
    match env.hloc fileid with
    | none => (0, st)
    | some (folderid, name) =>
      let fromDb : FileId := ((st.db.findFile folderid name).map FileRow.id).getD 0
      match st.getFolderTasks folderid with
      | (none, st) => (fromDb, st)
      | (some p, st) =>
        match (st.folder p).findCreat name 0 with
        | some cr => (cr.fileid, st.releaseFolderTasks p)
        | none =>
          match (st.folder p).findUnlink name 0 with
          | some _ => (0, st.releaseFolderTasks p)
          | none => (fromDb, st.releaseFolderTasks p)

/-- `psync_fstask_stop_and_delete_file` -/
def stopAndDeleteFile (env : Env) (db : Db) (fileid : FileId) : Db :=
  if env.inBatch (-fileid).toNat then db
  else
    let db := db.updateTasks (fun row => row.id = (-fileid).toNat) fun row =>
      { row with status := 11 }
    db.updateTasks (fun row => row.fileid = some fileid ∧ row.status ≠ 10)
      fun row => { row with status := 11 }

/-- `psync_fstask_can_unlink` -/
def canUnlink (st : State) (folderid : FolderId) (name : Name) : Option Errno × State :=
  let (folder, st) := st.getFolderTasks folderid
  match folder.bind fun p => (st.folder p).findCreat name 0 with
  | some _ => (none, st.releaseIf folder)
  | none =>
    match st.db.findFile folderid name, folder.bind fun p => (st.folder p).findUnlink name 0 with
    | some _, none => (none, st.releaseIf folder)
    | _, _ => (some .enoent, st.releaseIf folder)

/-- The transaction of `psync_fstask_unlink`; `depend` is the task of the pending creat. -/
def unlinkTx (env : Env) (db : Db) (folderid : FolderId) (name : Name) (fileid revoffileid : FileId)
    (rfileid depend : Nat) : Nat × Tx :=
  let db := if fileid < 0 then stopAndDeleteFile env db fileid else db
  let (taskid, tx) := (Tx.start db).insertTask <|
    if revoffileid ≠ 0 then
      .new .unSetRev 0 folderid name none (some revoffileid) none (some fileid) (some rfileid)
    else .new .unlink (if fileid < 0 then 11 else 0) folderid name none (some fileid) none none
      (some rfileid)
  let tx := tx.dependIf (depend ≠ 0) taskid depend
  let tx := tx.dependIf (revoffileid < 0) taskid (-revoffileid).toNat
  let tx := tx.dependIf (fileid < 0 ∧ (-fileid).toNat ≠ depend) taskid (-fileid).toNat
  (taskid, tx.dependOnName taskid folderid name)

/-- `psync_fstask_unlink` from the point where the file to delete is known. -/
def unlinkTarget (env : Env) (st : State) (p : Nat) (folderid : FolderId) (name : Name)
    (fileid : FileId) (rfileid depend : Nat) : Option Errno × State :=
  let (revoffileid, st) := getFileAtOldLocation env st fileid
  let (taskid, tx) := unlinkTx env st.db folderid name fileid revoffileid rfileid depend
  match tx.commit env.commits with
  | none => (some .eio, st.releaseFolderTasks p)
  | some db =>
    let st := { st with db }.edit p fun f => f.addUnlink { fileid, taskid, name }
    (none, st.releaseFolderTasks p)

/-- `psync_fstask_unlink` -/
def unlink (env : Env) (st : State) (folderid : FolderId) (name : Name) : Option Errno × State :=
  let (p, st) := st.getOrCreateFolderTasks folderid
  match (st.folder p).findCreat name 0 with
  | none =>
    match st.db.findFile folderid name, (st.folder p).findUnlink name 0 with
    | some row, none => unlinkTarget env st p folderid name row.id 0 0
    | _, _ => (some .enoent, st.releaseFolderTasks p)
  | some cr =>
    if cr.fileid = 0 then
      let st := st.edit p fun f => (f.delUnlink cr.name cr.taskid).delCreat name 0
      (none, st.releaseFolderTasks p)
    else
      let st := st.edit p fun f => f.delCreat name 0
      unlinkTarget env st p folderid name cr.fileid cr.rfileid cr.taskid

/-! ## Renames -/

/-- `UPDATE fstask SET sfolderid=? WHERE id=?` -/
def Tx.setSfolderid (tx : Tx) (taskid : Nat) (folderid : FolderId) : Tx :=
  { tx with db := tx.db.updateTasks (fun row => row.id = taskid) fun row =>
      { row with sfolderid := some folderid } }

/-- The transaction of `psync_fstask_rename_file`: the tasks of the two names. -/
def renameFileTx (db : Db) (fileid : FileId) (parentfolderid : FolderId) (name : Name)
    (to_folderid : FolderId) (new_name : Name) (cr : Option Creat) : Nat × Nat × Tx :=
  let (ftaskid, tx) := (Tx.start db).insertTask
    (.new .renfileFrom 10 parentfolderid name none (some fileid))
  let (ttaskid, tx) := tx.insertTask
    (.new .renfileTo 0 to_folderid new_name none (some fileid) none (some ftaskid)
      (some ((cr.map Creat.rfileid).getD 0)))
  let tx := if fileid < 0 then tx.setSfolderid (-fileid).toNat to_folderid else tx
  let tx := tx.dependIf (fileid < 0) ttaskid (-fileid).toNat
  let tx := tx.dependIf (parentfolderid < 0) ttaskid (-parentfolderid).toNat
  let tx := tx.dependIf (to_folderid < 0 ∧ to_folderid ≠ parentfolderid) ttaskid
    (-to_folderid).toNat
  let tx := tx.dependOnName2 ttaskid ftaskid parentfolderid name
  let tx := tx.dependOnName ttaskid to_folderid new_name
  (ftaskid, ttaskid, tx.dependIf cr.isSome ttaskid ((cr.map Creat.taskid).getD 0))

/-- `psync_fstask_rename_file`; a `new_name` of `NULL` is `name`. -/
def renameFile (env : Env) (st : State) (fileid : FileId) (parentfolderid : FolderId) (name : Name)
    (to_folderid : FolderId) (new_name : Option Name) : Option Errno × State :=
  let new_name := new_name.getD name
  let (p, st) := st.getOrCreateFolderTasks parentfolderid
  let cr := (st.folder p).findCreat name 0
  let rfileid := (cr.map Creat.rfileid).getD 0
  let (ftaskid, ttaskid, tx) :=
    renameFileTx st.db fileid parentfolderid name to_folderid new_name cr
  match tx.commit env.commits with
  | none => (some .eio, st.releaseFolderTasks p)
  | some db =>
    let st := { st with db }.edit p fun f =>
      (f.delCreat name 0).addUnlink { fileid, taskid := ftaskid, name }
    let st := st.releaseFolderTasks p
    let (q, st) := st.getOrCreateFolderTasks to_folderid
    let db := match (st.folder q).findCreat new_name 0 with
      | none => st.db
      | some cr => if cr.fileid < 0 then stopAndDeleteFile env st.db cr.fileid else st.db
    let st := { st with db }.edit q fun f =>
      ((f.delCreat new_name 0).addUnlink { fileid, taskid := ttaskid, name := new_name }).addCreat
        { fileid, rfileid, taskid := ttaskid, name := new_name }
    (none, st.releaseFolderTasks q)

/-- `fill_mkdir_data`: `ctime`, `mtime` and `subdircnt`. -/
def fillMkdirData (time : Nat) (db : Db) (folderid : FolderId) : Nat × Nat × Nat :=
  if folderid < 0 then
    match db.findTask (-folderid).toNat with
    | none => (time, time, 0)
    | some row => ((row.int1.getD 0).toNat, (row.int1.getD 0).toNat, 0)
  else
    match db.folder.find? fun row => row.id = folderid with
    | none => (time, time, 0)
    | some row => (row.ctime, row.mtime, row.subdircnt)

/-- `psync_fstask_delete_folder_if_ex`, in an open transaction; the task is 0 if there is
nothing to delete. -/
def deleteFolderIfEx (tx : Tx) (st : State) (folderid : FolderId) (name : Name) :
    Nat × Tx × State :=
  let (folder, st) := st.getFolderTasks folderid
  let mk := folder.bind fun p => (st.folder p).findMkdir name 0
  let rm := folder.bind fun p => (st.folder p).findRmdir name 0
  let st := st.releaseIf folder
  if mk.isNone ∧ rm.isSome then (0, tx, st)
  else
    let cfolderid := (mk.map Mkdir.folderid).getD 0
    let cfolderid := if cfolderid = 0 ∧ 0 ≤ folderid then
        ((tx.db.findFolder folderid name).map FolderRow.id).getD 0 else cfolderid
    if cfolderid = 0 then (0, tx, st)
    else
      let depend := (mk.map Mkdir.taskid).getD 0
      let (taskid, tx) := tx.insertTask (.new .rmdir 0 folderid name (some cfolderid))
      let tx := tx.dependIf (depend ≠ 0) taskid depend
      let tx := tx.dependIf (cfolderid < 0) taskid (-cfolderid).toNat
      (taskid, tx, st)

/-- The transaction of `psync_fstask_rename_folder` after `psync_fstask_delete_folder_if_ex`
gave `rmtask`. -/
def renameFolderTx (tx : Tx) (rmtask : Nat) (folderid parentfolderid : FolderId) (name : Name)
    (to_folderid : FolderId) (new_name : Name) (targetflags : UInt32) (mk : Option Mkdir) :
    Nat × Nat × Tx :=
  let (ftaskid, tx) := tx.insertTask (.new .renfolderFrom 10 parentfolderid name (some folderid))
  let (ttaskid, tx) := tx.insertTask
    (.new .renfolderTo 0 to_folderid new_name (some folderid) none none (some ftaskid)
      (some targetflags.toNat))
  let tx := if folderid < 0 then tx.setSfolderid (-folderid).toNat to_folderid else tx
  let tx := tx.dependIf (folderid < 0) ttaskid (-folderid).toNat
  let tx := tx.dependIf (rmtask ≠ 0) ttaskid rmtask
  let tx := tx.dependIf (parentfolderid < 0) ttaskid (-parentfolderid).toNat
  let tx := tx.dependIf (to_folderid < 0 ∧ to_folderid ≠ parentfolderid) ttaskid
    (-to_folderid).toNat
  let tx := tx.dependOnName2 ttaskid ftaskid parentfolderid name
  -- the folder that is renamed, where `psync_fstask_rename_file` has the target
  let tx := tx.dependOnName ttaskid folderid new_name
  (ftaskid, ttaskid, tx.dependIf mk.isSome ttaskid ((mk.map Mkdir.taskid).getD 0))

/-- `psync_fstask_rename_folder` -/
def renameFolder (env : Env) (st : State) (folderid parentfolderid : FolderId) (name : Name)
    (to_folderid : FolderId) (new_name : Option Name) (targetflags : UInt32) :
    Option Errno × State :=
  let new_name := new_name.getD name
  let (rmtask, tx, st) := deleteFolderIfEx (Tx.start st.db) st to_folderid new_name
  let (p, st) := st.getOrCreateFolderTasks parentfolderid
  let (ftaskid, ttaskid, tx) := renameFolderTx tx rmtask folderid parentfolderid name to_folderid
    new_name targetflags ((st.folder p).findMkdir name 0)
  match tx.commit env.commits with
  | none => (some .eio, st.releaseFolderTasks p)
  | some db =>
    let st := { st with db }.edit p fun f =>
      (f.delMkdir name 0).addRmdir { folderid, taskid := ftaskid, name }
    let st := st.releaseFolderTasks p
    let (q, st) := st.getOrCreateFolderTasks to_folderid
    let (ctime, mtime, subdircnt) := fillMkdirData env.time st.db folderid
    -- `name` where the entry that is renamed over is `new_name`
    let st := st.edit q fun f =>
      ((f.delMkdir name 0).addRmdir { folderid, taskid := ttaskid, name := new_name }).addMkdir
        { folderid, taskid := ttaskid, ctime, mtime, subdircnt, flags := targetflags
          name := new_name }
    (none, st.releaseFolderTasks q)

end PcloudClient.Pfstasks
