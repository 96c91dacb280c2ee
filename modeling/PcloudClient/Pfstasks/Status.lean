/-
  Pfstasks/Status.lean --- what the path status is told of pending tasks.

  `pfstasks.c` calls `psync_path_status_drive_folder_changed` after some of its edits.  The calls of
  a step are listed with what each finds in the folder; the operations themselves are those of
  `Operations` and `Completions`.
-/
import PcloudClient.Pfstasks.LoadSteps
import PcloudClient.Ppathstatus.DriveProofs

set_option autoImplicit false

namespace PcloudClient.Pfstasks

open State (Inv Keyed Held)
open Ppathstatus (Drive Stop TaskTree Parents Call parentOf)
open Counted (Balanced.Busy)

/-! ## The calls -/

/-- `folder && (folder->creats || folder->mkdirs)` -/
def State.changed (st : State) (folderid : FolderId) : Bool :=
  (st.getFolderTasksRdlocked folderid).any fun f =>
    !f.creats.toList.isEmpty || !f.mkdirs.toList.isEmpty

/-- A call and what it finds, under `if (folderid>=0)`; where the source does not ask, the id is a
`psync_folderid_t`. -/
def notice (st : State) (folderid : FolderId) : List (Nat × Bool) :=
  if 0 ≤ folderid then [(folderid.toNat, st.changed folderid)] else []

/-- The folder with the creat taken out, before anything is put in for it. -/
def afterDelCreat (st : State) (folderid : FolderId) (name : Name) : State :=
  let (p, st) := st.getOrCreateFolderTasks folderid
  st.edit p fun f => f.delCreat name 0

/-- The calls of a row of the restart.  `psync_init_task_renfolder_to` tells of the folder that is
moved, where the others tell of the folder that the row is about. -/
def initNotices (st : State) (row : TaskRow) : List (Nat × Bool) :=
  match row.type with
  | .mkdir | .creat | .renfileTo | .modify => notice st row.folderid
  | .renfolderTo => notice st (row.sfolderid.getD 0)
  | _ => []

/-- The calls of a step, in their order. -/
def notices (st : State) : Op → List (Nat × Bool)
  | .mkdir env folderid name flags =>
    let r := mkdir env st folderid name flags
    if r.1.isNone then notice r.2 folderid else []
  | .addCreat env p name fileid key =>
    let r := addCreat env st p name fileid key
    if r.1.isSome then notice r.2 (st.folder p).folderid else []
  | .addModifiedFile env p name fileid hash key =>
    let r := addModifiedFile env st p name fileid hash key
    if r.1.isSome then notice r.2 (st.folder p).folderid else []
  | .unlink _ folderid name =>
    match st.lookup folderid fun f => f.findCreat name 0 with
    | none => []
    | some cr => if cr.fileid = 0 then [] else notice (afterDelCreat st folderid name) folderid
  | .renameFile env fileid parentfolderid name to_folderid new_name =>
    let r := renameFile env st fileid parentfolderid name to_folderid new_name
    if r.1.isNone then
      (if (st.lookup parentfolderid fun f => f.findCreat name 0).isSome then
        notice (afterDelCreat st parentfolderid name) parentfolderid else []) ++
        notice r.2 to_folderid
    else []
  | .renameFolder env folderid parentfolderid name to_folderid new_name flags =>
    let r := renameFolder env st folderid parentfolderid name to_folderid new_name flags
    if r.1.isNone then notice r.2 to_folderid else []
  | .folderCreated parentfolderid taskid folderid name =>
    let st' := folderCreated st parentfolderid taskid folderid name
    (if ((folderCreatedParent st parentfolderid taskid folderid name).getFolderTasksRdlocked
        (-taskid)).isSome then notice st' folderid else []) ++
      if (st.lookup parentfolderid fun f => f.findMkdir name taskid).isSome then
        notice st' parentfolderid else []
  | .fileCreated parentfolderid taskid name fileid
  | .fileModified parentfolderid taskid name fileid =>
    if (st.lookup parentfolderid fun f => f.findCreat name taskid).isSome then
      notice (fileCreated st parentfolderid taskid name fileid) parentfolderid else []
  | .fileRenamed folderid taskid name _ =>
    if (st.lookup folderid fun f => f.findCreat name taskid).isSome then
      notice (st.withFolder folderid fun f =>
        (f.delUnlink name taskid).delCreat name taskid) folderid
    else []
  | .folderRenamed parentfolderid taskid name _ =>
    if (st.lookup parentfolderid fun f => f.findMkdir name taskid).isSome then
      notice (st.withFolder parentfolderid fun f => (f.delMkdir name taskid).delRmdir name taskid)
        parentfolderid
    else []
  | .initTask env row => initNotices (initTask env st row) row
  | _ => []

/-- The calls, one after the other. -/
def tell (fuel : Nat) : List (Nat × Bool) → Drive → Except Stop Drive
  | [], d => .ok d
  | (folderid, changed) :: rest, d => do
    let d ← d.folderChanged fuel folderid changed
    tell fuel rest d

/-! ## The client -/

/-- The pending tasks and the path status of the drive. -/
structure Client where
  tasks : State
  drive : Drive

/-- A step on the tasks, or one on the rows of `folder`. -/
inductive Step where
  | op (op : Op)
  | call (call : Call)

namespace Client

def start (parents : Parents) (db : Db) : Client := ⟨Pfstasks.start db, .init parents⟩

def exec (fuel : Nat) (step : Step) (c : Client) : Except Stop Client :=
  match step with
  | .op op => do
    let drive ← tell fuel (notices c.tasks op) c.drive
    .ok { tasks := (Pfstasks.exec c.tasks op).2, drive }
  | .call call => do
    let drive ← c.drive.exec fuel call
    .ok { c with drive }

/-- The ids that a completion names are those of a task and of a folder of the server. -/
def Named : Op → Prop
  | .folderCreated _ taskid folderid _ => 0 < taskid ∧ 0 ≤ folderid
  | _ => True

/-- The steps that can come: callers have the folders they pass, and the calls on rows are those
that the table allows. -/
def Matching (c : Client) : Step → Prop
  | .op op => Allowed c.tasks op ∧ Named op
  | .call call => c.drive.Matching call ∧ ∀ f changed, call ≠ .changed f changed

end Client

/-! ## What goes untold -/

/-- The folder has more than `n` creats and mkdirs, or is itself pending. -/
def Spare (st : State) (folderid : FolderId) (n : Nat) : Prop := folderid < 0 ∨ n < st.load folderid

/-- A row of the restart that takes an entry out, or puts one in for a moved folder, does so in a
folder that has another. -/
def InitTold (st : State) (row : TaskRow) : Prop :=
  match row.type with
  | .rmdir | .renfolderFrom =>
    (st.lookup row.folderid fun f => f.findMkdir (row.text1.getD []) 0).isNone ∨
      Spare st row.folderid 1
  | .unlink | .unSetRev | .renfileFrom =>
    (st.lookup row.folderid fun f => f.findCreat (row.text1.getD []) 0).isNone ∨
      Spare st row.folderid 1
  | .renfolderTo => row.sfolderid.getD 0 = row.folderid ∨ Spare st row.folderid 0
  | _ => True

/-- What a step does without a call it does in a folder that has another creat or mkdir.  A pending
folder that is removed is empty, as otherwise its entry is taken from the counter and stays; and a
new folder gets an id that no folder has. -/
def Told (st : State) : Op → Prop
  | .rmdir _ folderid _ name => ∀ f mk, st.getFolderTasksRdlocked folderid = some f →
      f.findMkdir name 0 = some mk →
      notEmpty st.db (st.getFolderTasksRdlocked mk.folderid) mk.folderid = false ∧
        Spare st folderid 1
  | .injectCreat p _ => Spare st (st.folder p).folderid 0
  | .addModifiedFile env p name _ _ _ => ((st.folder p).findCreat name 0).isNone ∨
      ModifyCommits env st p name ∨ Spare st (st.folder p).folderid 1
  | .addLocalCreatStatic folderid name _ => Spare st folderid 0 ∨
      (st.lookup folderid fun f => f.findUnlink name 0).isNone ∧
        (st.db.findFile folderid name).isSome
  | .unlink _ folderid name => ∀ f cr, st.getFolderTasksRdlocked folderid = some f →
      f.findCreat name 0 = some cr → cr.fileid = 0 → Spare st folderid 1
  | .renameFolder env _ parentfolderid name to_folderid _ _ => env.commits = false ∨
      parentfolderid = to_folderid ∨
      (st.lookup parentfolderid fun f => f.findMkdir name 0).isNone ∨ Spare st parentfolderid 1
  | .folderCreated _ taskid folderid _ => st.getFolderTasksRdlocked (-taskid) = none ∨
      st.getFolderTasksRdlocked folderid = none
  | .initTask _ row => InitTold st row
  | .addBannedFolder folderid _ => Spare st folderid 0
  | .dropCreat p name taskid => ((st.folder p).findCreat name taskid).isNone ∨
      Spare st (st.folder p).folderid 1
  | _ => True

/-! ## Runs -/

namespace Client

/-- The condition on a step: what it does without a call leaves the folder with another entry, and
no folder is deleted that has a creat or a mkdir. -/
def Keeps (c : Client) : Step → Prop
  | .op op => Told c.tasks op
  | .call (.deleted f) => c.drive.tree.tasks.own f = false
  | .call _ => True

/-- The calls of a step are about folders that are there, and meet the condition of the path
status. -/
def Tells (fuel : Nat) : List (Nat × Bool) → Drive → Prop
  | [], _ => True
  | (f, changed) :: rest, d => d.Matching (.changed f changed) ∧ d.Meets (.changed f changed) ∧
      ∀ d', d.folderChanged fuel f changed = .ok d' → Tells fuel rest d'

/-- The condition of the path status of the drive. -/
def Meets (fuel : Nat) (c : Client) : Step → Prop
  | .op op => Tells fuel (notices c.tasks op) c.drive
  | .call call => c.drive.Meets call

/-- A run of steps that meet a condition. -/
def Run (cond : Nat → Client → Step → Prop) (parents : Parents) (db : Db) (c : Client) : Prop :=
  Relation.ReflTransGen
    (fun c c' => ∃ step fuel, c.Matching step ∧ cond fuel c step ∧ c.exec fuel step = .ok c')
    (start parents db) c

/-- The runs whose steps meet the condition on the tasks. -/
def ToldRun (parents : Parents) (db : Db) (c : Client) : Prop :=
  Run (fun _ c step => c.Keeps step) parents db c

/-- The runs whose steps meet the condition of the path status of the drive as well. -/
def GoodRun (parents : Parents) (db : Db) (c : Client) : Prop :=
  Run (fun fuel c step => c.Keeps step ∧ c.Meets fuel step) parents db c

end Client

/-! ## The status of a folder -/

/-- `psync_path_status_t`, the values that a folder on the drive may have. -/
inductive PathStatus where
  | inSync
  | inProg
  | paused
  deriving DecidableEq, Repr

/-- `psync_path_status_drive_folder_locked`; `statusesOk` is `psync_statuses_ok_array`. -/
def pathStatusDriveFolder (statusesOk : Bool) (tr : TaskTree) (folderid : Nat) : PathStatus :=
  if tr.tasks.has folderid then
    if statusesOk then .inProg else .paused
  else .inSync

end PcloudClient.Pfstasks
