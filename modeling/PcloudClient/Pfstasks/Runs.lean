/-
  Pfstasks/Runs.lean --- runs of the operations on pending tasks.

  Every call is one step, as it runs under the lock of the database.  A step may also be a
  change of the database by another part of the client, or a reference to a folder that an
  open file takes or gives back.
-/
import Mathlib.Data.List.Induction
import Mathlib.Logic.Relation
import PcloudClient.Pfstasks.Preservation

set_option autoImplicit false

namespace PcloudClient.Pfstasks

open State (Inv Held)

inductive Op where
  | mkdir (env : Env) (folderid : FolderId) (name : Name) (folderflags : UInt32)
  | rmdir (env : Env) (folderid : FolderId) (parentflags : UInt32) (name : Name)
  | addCreat (env : Env) (p : Nat) (name : Name) (fileid : FileId) (encsymkey : Option Bytes)
  | injectCreat (p : Nat) (cr : Creat)
  | injectUnlink (peek : Unlink → Bytes) (p : Nat) (un : Unlink)
  | addModifiedFile (env : Env) (p : Nat) (name : Name) (fileid : FileId) (hash : Int)
      (encsymkey : Option Bytes)
  | addLocalCreatStatic (folderid : FolderId) (name : Name) (taskid : Nat)
  | unlink (env : Env) (folderid : FolderId) (name : Name)
  | renameFile (env : Env) (fileid : FileId) (parentfolderid : FolderId) (name : Name)
      (to_folderid : FolderId) (new_name : Option Name)
  | renameFolder (env : Env) (folderid parentfolderid : FolderId) (name : Name)
      (to_folderid : FolderId) (new_name : Option Name) (targetflags : UInt32)
  | folderCreated (parentfolderid : FolderId) (taskid : Nat) (folderid : FolderId) (name : Name)
  | folderDeleted (parentfolderid : FolderId) (taskid : Nat) (name : Name)
  | fileCreated (parentfolderid : FolderId) (taskid : Nat) (name : Name) (fileid : FileId)
  | fileModified (parentfolderid : FolderId) (taskid : Nat) (name : Name) (fileid : FileId)
  | fileDeleted (parentfolderid : FolderId) (taskid : Nat) (name : Name)
  | fileRenamed (folderid : FolderId) (taskid : Nat) (name : Name) (frtaskid : Nat)
  | folderRenamed (parentfolderid : FolderId) (taskid : Nat) (name : Name) (frtaskid : Nat)
  /-- one row of the restart -/
  | initTask (env : InitEnv) (row : TaskRow)
  | addBannedFolder (folderid : FolderId) (name : Name)
  /-- a creat or an unlink that the file system itself takes out -/
  | dropCreat (p : Nat) (name : Name) (taskid : Nat)
  | dropUnlink (p : Nat) (name : Name) (taskid : Nat)
  /-- `psync_fstask_get_or_create_folder_tasks` and `psync_fstask_release_folder_tasks` -/
  | take (folderid : FolderId)
  | release (p : Nat)
  /-- the database as another part of the client leaves it -/
  | sql (db : Db)

/-- A step: whether it returns an error, and the state after it. -/
def exec (st : State) : Op → Bool × State
  | .mkdir env folderid name flags =>
    let r := mkdir env st folderid name flags
    (r.1.isSome, r.2)
  | .rmdir env folderid flags name =>
    let r := rmdir env st folderid flags name
    (r.1.isSome, r.2)
  | .addCreat env p name fileid key =>
    let r := addCreat env st p name fileid key
    (r.1.isNone, r.2)
  | .injectCreat p cr => (false, injectCreat st p cr)
  | .injectUnlink peek p un => (false, injectUnlink peek st p un)
  | .addModifiedFile env p name fileid hash key =>
    let r := addModifiedFile env st p name fileid hash key
    (r.1.isNone, r.2)
  | .addLocalCreatStatic folderid name taskid =>
    (false, addLocalCreatStatic st folderid name taskid)
  | .unlink env folderid name =>
    let r := unlink env st folderid name
    (r.1.isSome, r.2)
  | .renameFile env fileid parentfolderid name to_folderid new_name =>
    let r := renameFile env st fileid parentfolderid name to_folderid new_name
    (r.1.isSome, r.2)
  | .renameFolder env folderid parentfolderid name to_folderid new_name flags =>
    let r := renameFolder env st folderid parentfolderid name to_folderid new_name flags
    (r.1.isSome, r.2)
  | .folderCreated parentfolderid taskid folderid name =>
    (false, folderCreated st parentfolderid taskid folderid name)
  | .folderDeleted parentfolderid taskid name =>
    (false, folderDeleted st parentfolderid taskid name)
  | .fileCreated parentfolderid taskid name fileid =>
    (false, fileCreated st parentfolderid taskid name fileid)
  | .fileModified parentfolderid taskid name fileid =>
    (false, fileModified st parentfolderid taskid name fileid)
  | .fileDeleted parentfolderid taskid name => (false, fileDeleted st parentfolderid taskid name)
  | .fileRenamed folderid taskid name frtaskid =>
    (false, fileRenamed st folderid taskid name frtaskid)
  | .folderRenamed parentfolderid taskid name frtaskid =>
    (false, folderRenamed st parentfolderid taskid name frtaskid)
  | .initTask env row => (false, initTask env st row)
  | .addBannedFolder folderid name => (false, addBannedFolder st folderid name)
  | .dropCreat p name taskid => (false, dropCreat st p name taskid)
  | .dropUnlink p name taskid => (false, dropUnlink st p name taskid)
  | .take folderid => (false, (st.getOrCreateFolderTasks folderid).2)
  | .release p => (false, st.releaseFolderTasks p)
  | .sql db => (false, { st with db })

/-- What stands eight bytes into a name: the rest of a name that is long enough, else
memory that is not the name's. -/
def Peeks (peek : Unlink → Bytes) : Prop :=
  ∀ un : Unlink, 8 ≤ un.name.length → peek un = un.name.drop 8

/-- The caller of a step has the folder that it passes. -/
def Allowed (st : State) : Op → Prop
  | .addCreat _ p _ _ _ => Held st p 1
  | .injectCreat p _ => Held st p 1
  | .injectUnlink peek p _ => Held st p 1 ∧ Peeks peek
  | .addModifiedFile _ p _ _ _ _ => Held st p 1
  | .initTask env _ => Peeks env.peek
  | .dropCreat p _ _ => Held st p 1
  | .dropUnlink p _ _ => Held st p 1
  | .release p => Held st p 1
  | _ => True

/-- A run of steps that meet a condition. -/
def Run (cond : State → Op → Prop) : State → State → Prop :=
  Relation.ReflTransGen fun st st' => ∃ op, Allowed st op ∧ cond st op ∧ st' = (exec st op).2

/-- A client that has just started. -/
def start (db : Db) : State := { folders := .nil, nextAddr := 0, db }

/-- A database with nothing in it. -/
def emptyDb : Db := { folder := [], file := [], fstask := [], fstaskdepend := [] }

/-- The state after some steps. -/
def after (st : State) (ops : List Op) : State := ops.foldl (fun st op => (exec st op).2) st

theorem inv_start (P : FolderTasks → Prop) (db : Db) : Inv P (start db) :=
  ⟨nofun, nofun, List.nodup_nil, nofun⟩

/-- A step that keeps a property of the folders, but for the steps that have their own lemmas. -/
theorem inv_exec {P : FolderTasks → Prop} (hP : Stable P) {st : State} (h : Inv P st) {op : Op}
    (hop : Allowed st op)
    (hrmdir : ∀ env folderid flags name, op = .rmdir env folderid flags name →
      Inv P (rmdir env st folderid flags name).2)
    (hinject : ∀ peek p un, op = .injectUnlink peek p un → Inv P (injectUnlink peek st p un))
    (hinit : ∀ env row, op = .initTask env row → Inv P (initTask env st row)) :
    Inv P (exec st op).2 := by
  cases op with
  | mkdir env folderid name flags => exact inv_mkdir hP env h folderid name flags
  | rmdir env folderid flags name => exact hrmdir env folderid flags name rfl
  | addCreat env p name fileid key => exact inv_addCreat hP env h hop name fileid key
  | injectCreat p cr => exact inv_injectCreat hP h hop cr
  | injectUnlink peek p un => exact hinject peek p un rfl
  | addModifiedFile env p name fileid hash key =>
    exact inv_addModifiedFile hP env h hop name fileid hash key
  | addLocalCreatStatic folderid name taskid =>
    exact inv_addLocalCreatStatic hP h folderid name taskid
  | unlink env folderid name => exact inv_unlink hP env h folderid name
  | renameFile env fileid parentfolderid name to_folderid new_name =>
    exact inv_renameFile hP env h fileid parentfolderid name to_folderid new_name
  | renameFolder env folderid parentfolderid name to_folderid new_name flags =>
    exact inv_renameFolder hP env h folderid parentfolderid name to_folderid new_name flags
  | folderCreated parentfolderid taskid folderid name =>
    exact inv_folderCreated hP h parentfolderid taskid folderid name
  | folderDeleted parentfolderid taskid name =>
    exact inv_folderDeleted hP h parentfolderid taskid name
  | fileCreated parentfolderid taskid name fileid =>
    exact inv_fileCreated hP h parentfolderid taskid name fileid
  | fileModified parentfolderid taskid name fileid =>
    exact inv_fileCreated hP h parentfolderid taskid name fileid
  | fileDeleted parentfolderid taskid name => exact inv_fileDeleted hP h parentfolderid taskid name
  | fileRenamed folderid taskid name frtaskid =>
    exact inv_fileRenamed hP h folderid taskid name frtaskid
  | folderRenamed parentfolderid taskid name frtaskid =>
    exact inv_folderRenamed hP h parentfolderid taskid name frtaskid
  | initTask env row => exact hinit env row rfl
  | addBannedFolder folderid name => exact inv_addBannedFolder hP h folderid name
  | dropCreat p name taskid => exact inv_dropCreat hP h hop name taskid
  | dropUnlink p name taskid => exact inv_dropUnlink hP h hop name taskid
  | take folderid => exact h.getOrCreateFolderTasks hP.refFree hP.new folderid
  | release p => exact h.releaseFolderTasks hP.refFree hop
  | sql db => exact h.withDb db

/-- What each step keeps, a run keeps. -/
theorem Run.inv {P : FolderTasks → Prop} {cond : State → Op → Prop}
    (hstep : ∀ st op, Inv P st → Allowed st op → cond st op → Inv P (exec st op).2) {st st' : State}
    (h : Inv P st) (hrun : Run cond st st') : Inv P st' := by
  induction hrun with
  | refl => exact h
  | tail _ hlast ih =>
    obtain ⟨op, hop, hcond, rfl⟩ := hlast
    exact hstep _ op ih hop hcond

end PcloudClient.Pfstasks
