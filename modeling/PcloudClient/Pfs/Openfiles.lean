/-
  Pfs/Openfiles.lean --- the tree of open files of pfs.c.

  The functions that look an open file up all walk the tree by the sign of
  `fileid - fl->fileid`, a difference of two 64-bit numbers that wraps around.  They hold the
  lock of the database, so each one is a step.
-/
import PcloudClient.Foundation.Bytes
import PcloudClient.Foundation.Runs
import PcloudClient.FsCrypto.Offsets
import PcloudClient.Ptree.Keyed

set_option autoImplicit false

namespace PcloudClient.Pfs.Openfiles

/-- `psync_fsfileid_t`, an `int64_t`: of the server above zero, minus a task id, or a fake one. -/
abbrev Fileid := BitVec 64

/-- `psync_openfile_t`, at the address `of`: what the functions below read and write. -/
structure Openfile where
  of : Nat
  fileid : Fileid
  remotefileid : Fileid
  hash : Nat
  initialsize : Nat
  currentsize : Nat
  origctime : Int
  writeid : Nat
  refcnt : Nat
  currentfolder : Int
  currentname : Bytes
  encrypted : Bool
  modified : Bool
  newfile : Bool
  releasedforupload : Bool
  deleted : Bool
  deriving Repr

/-- A row of the table `fstask`. -/
structure Fstask where
  status : Nat
  int1 : Nat
  deriving Repr

/-- `openfiles`, `psync_fake_fileid`, the next free address and the rows that the functions use. -/
structure State where
  openfiles : Ptree.Tree Openfile
  fakeFileid : Fileid
  nextOf : Nat
  fstask : Nat → Option Fstask
  fstaskfileid : Nat → Option Nat

/-- At the start nothing is open and the fake ids begin at `INT64_MIN`. -/
def State.init (fstask : Nat → Option Fstask) (fstaskfileid : Nat → Option Nat) : State where
  openfiles := .nil
  fakeFileid := BitVec.intMin 64
  nextOf := 0
  fstask := fstask
  fstaskfileid := fstaskfileid

/-- What a function is called with that a step stands for. -/
inductive Op where
  | createFile (fileid remotefileid : Fileid) (size hash writeid : Nat) (folder : Int)
      (name : Bytes) (encrypted : Bool)
  | creatFake (folder : Int) (name : Bytes)
  | updateOpenfile (taskid : Fileid) (writeid : Nat) (newfileid : Fileid) (hash size : Nat)
      (ctime : Int)
  | updateOpenfileFileid (of : Nat) (fileid : Fileid)
  | renameOpenfile (fileid : Fileid) (folderid : Int) (name : Bytes)
  | markOpenfileDeleted (taskid : Fileid)
  | getFileWriteid (taskid : Fileid)
  | incOfRefcnt (of : Nat)
  | decOfRefcnt (of : Nat)

/-- What it returns. -/
inductive Out where
  | openfile (of : Nat)
  | ret (r : Int)
  | void
  deriving DecidableEq, Repr

/-- A pointer to a file that is not open. -/
inductive Fault where
  | notOpen
  deriving DecidableEq, Repr

/-- `d` of the loops. -/
def diff (fileid : Fileid) (fl : Openfile) : Int := (fileid - fl.fileid).toInt

/-- The loop that looks for an open file. -/
def find (tree : Ptree.Tree Openfile) (fileid : Fileid) : Option Nat := tree.searchPos (diff fileid)

/-- The place of a node by its address. -/
def placeOf (tree : Ptree.Tree Openfile) (of : Nat) : Option Nat :=
  tree.toList.findIdx? fun fl => fl.of = of

namespace State

/-- A new `psync_openfile_t`. -/
def newOpenfile (s : State) (fileid remotefileid : Fileid) (size hash writeid : Nat)
    (folder : Int) (name : Bytes) (encrypted : Bool) : Openfile :=
  let size := if encrypted then FsCrypto.plainSize size else size
  { of := s.nextOf
    fileid := fileid
    remotefileid := remotefileid
    hash := hash
    initialsize := size
    currentsize := size
    origctime := 0
    writeid := writeid
    refcnt := 1
    currentfolder := folder
    currentname := name
    encrypted := encrypted
    modified := decide (fileid.toInt < 0)
    newfile := false
    releasedforupload := false
    deleted := false }

/-- `psync_fs_create_file` -/
def createFile (s : State) (fileid remotefileid : Fileid) (size hash writeid : Nat)
    (folder : Int) (name : Bytes) (encrypted : Bool) : Nat × State :=
  match find s.openfiles fileid with
  | some i =>
    (((s.openfiles.toList[i]?).map (·.of)).getD 0,
      { s with
        openfiles := s.openfiles.modifyAt (fun fl => { fl with refcnt := fl.refcnt + 1 }) i })
  | none =>
    let fl := s.newOpenfile fileid remotefileid size hash writeid folder name encrypted
    (fl.of,
      { s with
        openfiles := s.openfiles.addAt fl (s.openfiles.place (diff fileid) false)
        nextOf := s.nextOf + 1 })

/-- `psync_fs_creat_fake_locked` -/
def creatFake (s : State) (folder : Int) (name : Bytes) : Nat × State :=
  let fileid := s.fakeFileid
  let r := { s with fakeFileid := s.fakeFileid + 1 }.createFile fileid 0 0 0 0 folder name false
  match placeOf r.2.openfiles r.1 with
  | some i =>
    (r.1, { r.2 with
      openfiles :=
        r.2.openfiles.modifyAt (fun fl => { fl with newfile := false, modified := false }) i })
  | none => r

/-- The open file after its upload. -/
def uploaded (fl : Openfile) (newfileid : Fileid) (hash size : Nat) (ctime : Int) : Openfile :=
  let size := if fl.encrypted then FsCrypto.plainSize size else size
  { fl with
    fileid := newfileid
    remotefileid := newfileid
    hash := hash
    modified := false
    newfile := false
    currentsize := size
    initialsize := size
    releasedforupload := false
    origctime := ctime }

/-- `psync_fs_update_openfile` -/
def updateOpenfile (s : State) (taskid : Fileid) (writeid : Nat) (newfileid : Fileid)
    (hash size : Nat) (ctime : Int) : Int × State :=
  match find s.openfiles (-taskid) with
  | some i =>
    match s.openfiles.toList[i]? with
    | some fl =>
      if fl.writeid = writeid then
        let tree := s.openfiles.delAt i
        (0, { s with
          openfiles :=
            tree.addAt (uploaded fl newfileid hash size ctime)
              (tree.place (diff newfileid) false) })
      else if fl.newfile then
        (-1, { s with
          fstaskfileid := Function.update s.fstaskfileid taskid.toNat (some newfileid.toNat) })
      else (-1, s)
    | none => (-1, s)
  | none =>
    (if (s.fstask taskid.toNat).map (·.int1) = some writeid then 0 else -1, s)

/-- `psync_fs_update_openfile_fileid_locked` -/
def updateOpenfileFileid (s : State) (of : Nat) (fileid : Fileid) : Except Fault State :=
  match placeOf s.openfiles of with
  | some i =>
    match s.openfiles.toList[i]? with
    | some fl =>
      let tree := s.openfiles.delAt i
      .ok { s with
        openfiles := tree.addAt { fl with fileid := fileid } (tree.place (diff fileid) true) }
    | none => .error .notOpen
  | none => .error .notOpen

/-- `psync_fs_rename_openfile_locked` -/
def renameOpenfile (s : State) (fileid : Fileid) (folderid : Int) (name : Bytes) : Int × State :=
  match find s.openfiles fileid with
  | some i =>
    (1, { s with
      openfiles := s.openfiles.modifyAt
        (fun fl => { fl with currentfolder := folderid, currentname := name }) i })
  | none => (0, s)

/-- `psync_fs_mark_openfile_deleted` -/
def markOpenfileDeleted (s : State) (taskid : Fileid) : State :=
  match find s.openfiles (-taskid) with
  | some i =>
    { s with
      openfiles := s.openfiles.modifyAt (fun fl => { fl with deleted := true }) i
      fstask := Function.update s.fstask taskid.toNat
        ((s.fstask taskid.toNat).map fun row => { row with status := 12 }) }
  | none => s

/-- `psync_fs_get_file_writeid` -/
def getFileWriteid (s : State) (taskid : Fileid) : Int :=
  match (find s.openfiles (-taskid)).bind fun i => s.openfiles.toList[i]? with
  | some fl => fl.writeid
  | none => ((s.fstask taskid.toNat).map fun row => (row.int1 : Int)).getD (-1)

/-- `psync_fs_inc_of_refcnt` -/
def incOfRefcnt (s : State) (of : Nat) : Except Fault State :=
  match placeOf s.openfiles of with
  | some i =>
    .ok { s with
      openfiles := s.openfiles.modifyAt (fun fl => { fl with refcnt := fl.refcnt + 1 }) i }
  | none => .error .notOpen

/-- `psync_fs_dec_of_refcnt` -/
def decOfRefcnt (s : State) (of : Nat) : Except Fault State :=
  match placeOf s.openfiles of with
  | some i =>
    if ((s.openfiles.toList[i]?).map (·.refcnt)).getD 0 = 1 then
      .ok { s with openfiles := s.openfiles.delAt i }
    else
      .ok { s with
        openfiles := s.openfiles.modifyAt (fun fl => { fl with refcnt := fl.refcnt - 1 }) i }
  | none => .error .notOpen

end State

/-- One call. -/
def step (s : State) : Op → Except Fault (Out × State)
  | .createFile fileid remotefileid size hash writeid folder name encrypted =>
    let r := s.createFile fileid remotefileid size hash writeid folder name encrypted
    .ok (.openfile r.1, r.2)
  | .creatFake folder name =>
    let r := s.creatFake folder name
    .ok (.openfile r.1, r.2)
  | .updateOpenfile taskid writeid newfileid hash size ctime =>
    let r := s.updateOpenfile taskid writeid newfileid hash size ctime
    .ok (.ret r.1, r.2)
  | .updateOpenfileFileid of fileid =>
    (s.updateOpenfileFileid of fileid).map fun s => (.void, s)
  | .renameOpenfile fileid folderid name =>
    let r := s.renameOpenfile fileid folderid name
    .ok (.ret r.1, r.2)
  | .markOpenfileDeleted taskid => .ok (.void, s.markOpenfileDeleted taskid)
  | .getFileWriteid taskid => .ok (.ret (s.getFileWriteid taskid), s)
  | .incOfRefcnt of => (s.incOfRefcnt of).map fun s => (.void, s)
  | .decOfRefcnt of => (s.decOfRefcnt of).map fun s => (.void, s)

end PcloudClient.Pfs.Openfiles
