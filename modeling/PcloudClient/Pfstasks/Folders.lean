/-
  Pfstasks/Folders.lean --- the folders with pending tasks.

  The tree `folders` holds a `psync_fstask_folder_t` for every folder that has tasks or is
  referred to.  A pointer to one is its address, a number given out once.
-/
import PcloudClient.Pfstasks.Tables
import PcloudClient.Pfstasks.TaskTree

set_option autoImplicit false

namespace PcloudClient.Pfstasks

/-- `psync_fstask_mkdir_t` -/
structure Mkdir where
  folderid : FolderId
  taskid : Nat
  ctime : Nat
  mtime : Nat
  subdircnt : Nat
  flags : UInt32
  name : Name
  deriving DecidableEq, Repr

/-- `psync_fstask_rmdir_t` -/
structure Rmdir where
  folderid : FolderId
  taskid : Nat
  name : Name
  deriving DecidableEq, Repr

/-- `psync_fstask_creat_t`; a `fileid` of 0 is a static file of the client. -/
structure Creat where
  fileid : FileId
  rfileid : Nat
  taskid : Nat
  name : Name
  deriving DecidableEq, Repr

/-- `psync_fstask_unlink_t` -/
structure Unlink where
  fileid : FileId
  taskid : Nat
  name : Name
  deriving DecidableEq, Repr

/-- The four trees of a folder. -/
inductive TreeKind where
  | mkdirs
  | rmdirs
  | creats
  | unlinks
  deriving DecidableEq, Repr

/-- A node that `psync_fstask_insert_into_tree` puts into a tree or `psync_tree_del` takes out,
with its name and its task id. -/
inductive TreeEvent where
  | insert (kind : TreeKind) (entry : Name × Nat)
  | delete (kind : TreeKind) (entry : Name × Nat)
  deriving DecidableEq, Repr

def Mkdir.entry (mk : Mkdir) : Name × Nat := (mk.name, mk.taskid)

def Rmdir.entry (rm : Rmdir) : Name × Nat := (rm.name, rm.taskid)

def Creat.entry (cr : Creat) : Name × Nat := (cr.name, cr.taskid)

def Unlink.entry (un : Unlink) : Name × Nat := (un.name, un.taskid)

/-- `psync_fstask_folder_t` at its address. -/
structure FolderTasks where
  addr : Nat
  folderid : FolderId
  mkdirs : Ptree.Tree Mkdir := .nil
  rmdirs : Ptree.Tree Rmdir := .nil
  creats : Ptree.Tree Creat := .nil
  unlinks : Ptree.Tree Unlink := .nil
  taskscnt : Int := 0
  refcnt : Int := 0
  /-- What was put into the trees and taken out of them, the last first.  The code keeps no
  such record: it is what the trees are compared with. -/
  history : List TreeEvent := []
  deriving Repr

namespace FolderTasks

variable (f : FolderTasks)

/-- The number of nodes of the four trees. -/
def nodes : Nat := f.creats.size + f.mkdirs.size + f.rmdirs.size + f.unlinks.size

/-- `psync_fstask_find_mkdir` -/
def findMkdir (name : Name) (taskid : Nat) : Option Mkdir :=
  (searchTree Mkdir.name Mkdir.taskid f.mkdirs name taskid).bind fun i => f.mkdirs.toList[i]?

/-- `psync_fstask_find_rmdir` -/
def findRmdir (name : Name) (taskid : Nat) : Option Rmdir :=
  (searchTree Rmdir.name Rmdir.taskid f.rmdirs name taskid).bind fun i => f.rmdirs.toList[i]?

/-- `psync_fstask_find_creat` -/
def findCreat (name : Name) (taskid : Nat) : Option Creat :=
  (searchTree Creat.name Creat.taskid f.creats name taskid).bind fun i => f.creats.toList[i]?

/-- `psync_fstask_find_unlink` -/
def findUnlink (name : Name) (taskid : Nat) : Option Unlink :=
  (searchTree Unlink.name Unlink.taskid f.unlinks name taskid).bind fun i => f.unlinks.toList[i]?

/-! ## Insertions -/

def addMkdir (mk : Mkdir) : FolderTasks :=
  { f with
    mkdirs := insertIntoTree Mkdir.name f.mkdirs mk
    taskscnt := f.taskscnt + 1
    history := .insert .mkdirs mk.entry :: f.history }

def addRmdir (rm : Rmdir) : FolderTasks :=
  { f with
    rmdirs := insertIntoTree Rmdir.name f.rmdirs rm
    taskscnt := f.taskscnt + 1
    history := .insert .rmdirs rm.entry :: f.history }

def addCreat (cr : Creat) : FolderTasks :=
  { f with
    creats := insertIntoTree Creat.name f.creats cr
    taskscnt := f.taskscnt + 1
    history := .insert .creats cr.entry :: f.history }

/-- An insertion into `unlinks` by the key at some offset. -/
def addUnlinkBy (key : Unlink → Bytes) (un : Unlink) : FolderTasks :=
  { f with
    unlinks := insertIntoTree key f.unlinks un
    taskscnt := f.taskscnt + 1
    history := .insert .unlinks un.entry :: f.history }

def addUnlink (un : Unlink) : FolderTasks := f.addUnlinkBy Unlink.name un

/-! ## Deletions -/

/-- The record of a node that leaves its tree. -/
def forget (kind : TreeKind) : Option (Name × Nat) → List TreeEvent
  | none => f.history
  | some entry => .delete kind entry :: f.history

/-- `psync_tree_del(&folder->mkdirs, &mk->tree)` of the node `psync_fstask_find_mkdir` gives,
if any. -/
def cutMkdir (name : Name) (taskid : Nat) : FolderTasks :=
  match searchTree Mkdir.name Mkdir.taskid f.mkdirs name taskid with
  | none => f
  | some i =>
    { f with
      mkdirs := f.mkdirs.delAt i
      history := f.forget .mkdirs ((f.mkdirs.toList[i]?).map Mkdir.entry) }

/-- The same with `folder->taskscnt--`. -/
def delMkdir (name : Name) (taskid : Nat) : FolderTasks :=
  match searchTree Mkdir.name Mkdir.taskid f.mkdirs name taskid with
  | none => f
  | some i =>
    { f with
      mkdirs := f.mkdirs.delAt i
      taskscnt := f.taskscnt - 1
      history := f.forget .mkdirs ((f.mkdirs.toList[i]?).map Mkdir.entry) }

def delRmdir (name : Name) (taskid : Nat) : FolderTasks :=
  match searchTree Rmdir.name Rmdir.taskid f.rmdirs name taskid with
  | none => f
  | some i =>
    { f with
      rmdirs := f.rmdirs.delAt i
      taskscnt := f.taskscnt - 1
      history := f.forget .rmdirs ((f.rmdirs.toList[i]?).map Rmdir.entry) }

def delCreat (name : Name) (taskid : Nat) : FolderTasks :=
  match searchTree Creat.name Creat.taskid f.creats name taskid with
  | none => f
  | some i =>
    { f with
      creats := f.creats.delAt i
      taskscnt := f.taskscnt - 1
      history := f.forget .creats ((f.creats.toList[i]?).map Creat.entry) }

def delUnlink (name : Name) (taskid : Nat) : FolderTasks :=
  match searchTree Unlink.name Unlink.taskid f.unlinks name taskid with
  | none => f
  | some i =>
    { f with
      unlinks := f.unlinks.delAt i
      taskscnt := f.taskscnt - 1
      history := f.forget .unlinks ((f.unlinks.toList[i]?).map Unlink.entry) }

end FolderTasks

/-! ## The tree `folders` -/

/-- The order of `folders`. -/
def folderCmp (folderid : FolderId) (f : FolderTasks) : Int := folderid - f.folderid

structure State where
  folders : Ptree.Tree FolderTasks
  /-- The address the next `psync_new(psync_fstask_folder_t)` gives. -/
  nextAddr : Nat
  db : Db
  deriving Repr

namespace State

variable (st : State)

/-- `psync_fstask_get_folder_tasks_rdlocked` -/
def getFolderTasksRdlocked (folderid : FolderId) : Option FolderTasks :=
  st.folders.search (folderCmp folderid)

/-- What a pointer points to. -/
def deref (p : Nat) : Option FolderTasks := st.folders.toList.find? fun f => f.addr = p

/-- `*folder` -/
def folder (p : Nat) : FolderTasks := (st.deref p).getD { addr := p, folderid := 0 }

/-- A change of what a pointer points to. -/
def edit (p : Nat) (g : FolderTasks → FolderTasks) : State :=
  { st with folders := st.folders.map fun f => if f.addr = p then g f else f }

/-- `psync_fstask_get_ref_locked` -/
def getRef (p : Nat) : State := st.edit p fun f => { f with refcnt := f.refcnt + 1 }

/-- `psync_fstask_get_folder_tasks_locked` -/
def getFolderTasks (folderid : FolderId) : Option Nat × State :=
  match st.getFolderTasksRdlocked folderid with
  | none => (none, st)
  | some f => (some f.addr, st.getRef f.addr)

/-- `psync_fstask_get_or_create_folder_tasks_locked` -/
def getOrCreateFolderTasks (folderid : FolderId) : Nat × State :=
  match st.getFolderTasksRdlocked folderid with
  | none =>
    (st.nextAddr,
      { st with
        folders := st.folders.insert (folderCmp folderid) id
          { addr := st.nextAddr, folderid, refcnt := 1 }
        nextAddr := st.nextAddr + 1 })
  | some f => (f.addr, st.getRef f.addr)

/-- `psync_tree_del(&folders, &folder->tree)` -/
def unlinkFolder (p : Nat) : State :=
  { st with folders := st.folders.delAt (st.folders.toList.findIdx fun f => f.addr = p) }

/-- `psync_fstask_release_folder_tasks_locked` -/
def releaseFolderTasks (p : Nat) : State :=
  let st := st.edit p fun f => { f with refcnt := f.refcnt - 1 }
  match st.deref p with
  | none => st
  | some f => if f.refcnt = 0 ∧ f.taskscnt = 0 then st.unlinkFolder p else st

/-- Release of a pointer that may be `NULL`, guarded by `if (folder)`. -/
def releaseIf (p : Option Nat) : State :=
  match p with
  | none => st
  | some p => st.releaseFolderTasks p

end State

end PcloudClient.Pfstasks
