/-
  Ppathstatus/Sync.lean --- the path status of the syncs: a tree of folders with tasks for each of
  them.

  It follows the drive's.  Three places do not do what the drive's do: the function that registers
  the callback of a move looks the folder up in the tree of the drive, the callback leaves the nodes
  of the moved folders in the tree of the old sync, and the local scan deletes a folder without the
  call that it means to make.
-/
import PcloudClient.Foundation.Outcome
import PcloudClient.Ppathstatus.Moves

set_option autoImplicit false

namespace PcloudClient.Ppathstatus

open PcloudClient.Counted

abbrev SyncId := Nat

/-- A row of `localfolder`. -/
structure LocalRow where
  localparentfolderid : FolderId
  syncid : SyncId
  deriving DecidableEq, Repr

/-- `localfolder` by its ids; the row of id 0 is left out. -/
abbrev Rows := FolderId → Option LocalRow

/-- `SELECT localparentfolderid FROM localfolder WHERE id=?` -/
def Rows.parents (rows : Rows) : Parents := fun f => (rows f).map (·.localparentfolderid)

/-- `sync_folder_moved_params_t` -/
structure SyncMove extends Move where
  oldSyncid : SyncId
  newSyncid : SyncId
  deriving DecidableEq, Repr

structure Syncs where
  rows : Rows
  /-- the id of the next row, which `AUTOINCREMENT` never gives twice -/
  next : FolderId
  /-- `sync_data` -/
  trees : SyncId → Option TaskTree
  /-- `tran_callbacks` -/
  moves : List SyncMove
  /-- the rows at `BEGIN`, while `in_transaction` -/
  saved : Option (Rows × FolderId)

/-- `psync_path_status_init`, before `load_sync_tasks` -/
def Syncs.init (rows : Rows) (next : FolderId) : Syncs := ⟨rows, next, fun _ => none, [], none⟩

namespace Syncs

abbrev parents (d : Syncs) : Parents := d.rows.parents

/-- `get_sync_data(syncid, 1)` -/
def tree (d : Syncs) (syncid : SyncId) : TaskTree :=
  (d.trees syncid).getD (.init SYNC_PARENT_CACHE_SIZE)

def setTree (d : Syncs) (syncid : SyncId) (tree : TaskTree) : Syncs :=
  { d with trees := Function.update d.trees syncid (some tree) }

/-- `psync_path_status_sync_folder_task_added_locked` -/
def taskAdded (fuel : Nat) (syncid : SyncId) (localfolderid : FolderId) (d : Syncs) :
    Except Stop Syncs :=
  let tree := d.tree syncid
  let ft := (tree.tasks.get localfolderid).getD ⟨false, 0⟩
  let marked := { tree with tasks := tree.tasks.set localfolderid { ft with own := true } }
  if ft.cnt ≠ 0 ∨ ft.own then .ok (d.setTree syncid marked)
  else do
    let tree ← incrementAbove d.parents fuel localfolderid marked
    .ok (d.setTree syncid tree)

/-- `psync_path_status_sync_folder_task_completed`; `hasTasks` is `local_folder_has_tasks`. -/
def taskCompleted (fuel : Nat) (syncid : SyncId) (localfolderid : FolderId) (hasTasks : Bool)
    (d : Syncs) : Except Stop Syncs :=
  if hasTasks then .ok d
  else
    match d.trees syncid with
    | none => .ok d
    | some tree =>
      match tree.tasks.get localfolderid with
      | none => .ok d
      | some ft =>
        if ft.cnt ≠ 0 then
          .ok (d.setTree syncid
            { tree with tasks := tree.tasks.set localfolderid { ft with own := false } })
        else do
          let tree ← decrementAbove d.parents true fuel localfolderid
            { tree with tasks := tree.tasks.erase localfolderid }
          .ok (d.setTree syncid tree)

/-- `sync_folder_moved` -/
def syncFolderMoved (fuel : Nat) (m : SyncMove) (d : Syncs) : Except Stop Syncs := do
  let tree ← incrementUp d.parents fuel m.newParentFolderid (d.tree m.newSyncid)
  let d := d.setTree m.newSyncid tree
  match d.trees m.oldSyncid with
  | none => .error .assertion
  | some tree => do
    let tree ← decrementUp d.parents false fuel m.oldParentFolderid tree
    .ok (d.setTree m.oldSyncid tree)

/-- `psync_path_status_sync_folder_moved`; `driveHas` is what it asks,
`get_folder_tasks(folderid, 0)`, whether the tree of the drive has a node of that number. -/
def pathStatusSyncFolderMoved (m : SyncMove) (driveHas : Bool) (d : Syncs) : Except Stop Syncs :=
  if m.oldParentFolderid = m.newParentFolderid ∧ m.oldSyncid = m.newSyncid then .ok d
  else
    match d.trees m.oldSyncid with
    | none => .ok d
    | some tree =>
      let d := d.setTree m.oldSyncid (delFromParentCache m.folderid tree)
      if ¬ driveHas then .ok d
      else if d.saved.isNone then .error .assertion
      else .ok { d with moves := d.moves ++ [m] }

/-- `psync_path_status_sync_folder_deleted` -/
def pathStatusSyncFolderDeleted (fuel : Nat) (syncid : SyncId) (folderid : FolderId) (d : Syncs) :
    Except Stop Syncs :=
  match d.trees syncid with
  | none => .ok d
  | some tree =>
    if tree.tasks.has folderid then do
      let (last, tree) ← deletedUp d.parents fuel folderid
        { tree with tasks := tree.tasks.erase folderid }
      .ok (d.setTree syncid (last.elim tree (delFromParentCache · tree)))
    else .ok (d.setTree syncid (delFromParentCache folderid tree))

/-- `delete_local_folder_rec` of a folder whose folders are gone.  The loop over the files has left
`row` at `NULL`, and the row of the query after it is not fetched. -/
def deleteLocalFolder (fuel : Nat) (localfolderid : FolderId) (d : Syncs) : Except Stop Syncs := do
  let row : Option LocalRow := none
  let d ← match row with
    | some r => d.pathStatusSyncFolderDeleted fuel r.syncid localfolderid
    | none => .ok d
  .ok { d with rows := Function.update d.rows localfolderid none }

/-- `run_commit_callbacks` -/
def runCommitCallbacks (fuel : Nat) : List SyncMove → Syncs → Except Stop Syncs
  | [], d => .ok d
  | m :: rest, d => do
    let d ← d.syncFolderMoved fuel m
    runCommitCallbacks fuel rest { d with moves := rest }

end Syncs

/-- The events, each with the change of the table that it belongs to. -/
inductive Event where
  /-- `psync_sql_start_transaction` -/
  | start
  /-- a new row of `localfolder` -/
  | create (localparentfolderid : FolderId) (syncid : SyncId)
  | added (syncid : SyncId) (localfolderid : FolderId)
  | completed (syncid : SyncId) (localfolderid : FolderId) (hasTasks : Bool)
  /-- `scan_rename_folder`, which leaves the rows `rows` -/
  | moved (localfolderid : FolderId) (rows : Rows) (driveHas : Bool)
  | deleted (localfolderid : FolderId)
  /-- `psync_sql_commit_transaction` -/
  | commit
  /-- `psync_sql_rollback_transaction` -/
  | rollback

namespace Syncs

def exec (fuel : Nat) (event : Event) (d : Syncs) : Except Stop Syncs :=
  match event with
  | .start => .ok { d with saved := some (d.rows, d.next), moves := [] }
  | .create p syncid =>
    .ok { d with rows := Function.update d.rows d.next (some ⟨p, syncid⟩), next := d.next + 1 }
  | .added syncid f => d.taskAdded fuel syncid f
  | .completed syncid f hasTasks => d.taskCompleted fuel syncid f hasTasks
  | .moved f rows driveHas =>
    match d.rows f, rows f with
    | some r, some r' => do
      let d ← d.pathStatusSyncFolderMoved
        { folderid := f, oldParentFolderid := r.localparentfolderid,
          newParentFolderid := r'.localparentfolderid, oldSyncid := r.syncid,
          newSyncid := r'.syncid } driveHas
      .ok { d with rows := rows }
    | _, _ => .ok d
  | .deleted f => d.deleteLocalFolder fuel f
  | .commit => do
    let d ← d.runCommitCallbacks fuel d.moves
    .ok { d with saved := none }
  | .rollback =>
    .ok { d with rows := (d.saved.map Prod.fst).getD d.rows,
                 next := (d.saved.map Prod.snd).getD d.next, moves := [], saved := none }

/-- The folder is one of the sync, or the folder 0 that all have in common. -/
def InSync (rows : Rows) (syncid : SyncId) (f : FolderId) : Prop :=
  f = 0 ∨ ∃ r, rows f = some r ∧ r.syncid = syncid

/-- The rows are those of a forest with root 0, and a folder is in the sync of its parent. -/
structure Hierarchy (rows : Rows) : Prop where
  root : rows 0 = none
  ranked : ∃ rank : FolderId → Nat, ∀ f p, parentOf rows.parents f = some p → rank p < rank f
  closed : ∀ f r, rows f = some r → InSync rows r.syncid r.localparentfolderid

/-- The rows after the folder got the row `r'`: the folders below it go to the same sync. -/
structure MovedTo (rows : Rows) (f : FolderId) (r r' : LocalRow) (rows' : Rows) : Prop where
  self : rows' f = some r'
  below : ∀ g, g ≠ f → r.syncid ≠ r'.syncid → Above rows.parents g f →
    rows' g = (rows g).map fun q => { q with syncid := r'.syncid }
  other : ∀ g, g ≠ f → r.syncid = r'.syncid ∨ ¬ Above rows.parents g f → rows' g = rows g

/-- The event is one that the table allows. -/
def Matching (d : Syncs) : Event → Prop
  | .start => d.saved = none
  | .create p syncid => Hierarchy (Function.update d.rows d.next (some ⟨p, syncid⟩))
  | .added syncid f => InSync d.rows syncid f
  | .completed _ _ _ => True
  | .moved f rows _ => ∃ r r', d.rows f = some r ∧ MovedTo d.rows f r r' rows ∧ d.saved ≠ none ∧
      Hierarchy rows
  | .deleted f => d.rows f ≠ none ∧ Hierarchy (Function.update d.rows f none)
  | .commit => d.saved ≠ none
  | .rollback => d.saved ≠ none

/-- The moves of the sync. -/
def movesIn (moves : List SyncMove) (syncid : SyncId) : List Move :=
  (moves.filter (·.oldSyncid = syncid)).map (·.toMove)

/-- Where a folder of the sync is counted now. -/
def counted (d : Syncs) (syncid : SyncId) : FolderId → Option FolderId :=
  countedAt d.parents (movesIn d.moves syncid)

/-- A folder with tasks in it or below it stays in its sync, and is moved while the drive has a node
of the same number; one without is moved while the drive has none.  One that goes to another sync
has nothing outdated in the cache there and no callback that waits to count a child below it. -/
def MoveOk (d : Syncs) (f : FolderId) (r r' : LocalRow) (driveHas : Bool) : Prop :=
  r = r' ∨
  (r.syncid = r'.syncid ∧
    (d.trees r.syncid = none ∨ (driveHas = true ↔ (d.tree r.syncid).tasks.has f))) ∨
  (r.syncid ≠ r'.syncid ∧ (d.trees r.syncid = none ∨ driveHas = false) ∧
    (∀ g, Above d.parents g f → ¬ (d.tree r.syncid).tasks.has g) ∧
    (∀ m ∈ d.moves, ¬ Above d.parents m.newParentFolderid f) ∧
    ∀ e, some e ∈ (d.tree r'.syncid).cache → Above d.parents e.folderid f →
      Function.update d.parents f (some r'.localparentfolderid) e.folderid =
        some e.parentfolderid)

/-- Moves are as in `MoveOk`, a moved folder keeps tasks in it or below it until its callback runs,
no folder is deleted that has tasks in it or below it or that a callback is to count a child at,
and what a rollback undoes has not been used. -/
def Meets (d : Syncs) : Event → Prop
  | .completed syncid f false => ∀ m ∈ movesIn d.moves syncid,
      Balanced.Busy (d.counted syncid)
        (Function.update (d.tree syncid).tasks.own f false) m.folderid
  | .moved f rows driveHas => ∀ r r', d.rows f = some r → rows f = some r' →
      d.MoveOk f r r' driveHas
  | .deleted f => (∀ r, d.rows f = some r → ¬ (d.tree r.syncid).tasks.has f) ∧
      ∀ m ∈ d.moves, m.newParentFolderid ≠ f
  | .commit => ∀ m rest, m :: rest <:+ d.moves → ∀ syncid, ∀ m' ∈ movesIn rest syncid,
      Balanced.Busy (countedAt d.parents (movesIn rest syncid))
        (d.tree syncid).tasks.own m'.folderid
  | .rollback => ∀ rows next, d.saved = some (rows, next) → ∀ syncid,
      (∀ f, (d.tree syncid).tasks.has f → InSync rows syncid f ∧
        d.counted syncid f = parentOf rows.parents f) ∧
      ∀ e, some e ∈ (d.tree syncid).cache → e.folderid < next ∧
        (InSync rows syncid e.folderid → rows.parents e.folderid = some e.parentfolderid)
  | _ => True

/-- A run of events that match the table. -/
def Run (rows : Rows) (next : FolderId) (d : Syncs) : Prop :=
  Relation.ReflTransGen (fun d d' => ∃ event fuel, d.Matching event ∧ d.exec fuel event = .ok d')
    (.init rows next) d

/-- A run of events that also meet the condition. -/
def GoodRun (rows : Rows) (next : FolderId) (d : Syncs) : Prop :=
  Relation.ReflTransGen
    (fun d d' => ∃ event fuel, d.Matching event ∧ d.Meets event ∧ d.exec fuel event = .ok d')
    (.init rows next) d

/-- What the path status is to be: in each sync a node for the folders of the sync with tasks or
with children that have a node, which it counts. -/
structure Exact (d : Syncs) : Prop where
  node : ∀ s f, (d.tree s).tasks.has f ↔
    (d.tree s).tasks.own f = true ∨ 0 < (d.tree s).tasks.cnt f
  count : ∀ s f, (d.tree s).tasks.cnt f = (d.tree s).tasks.children (d.counted s) f
  countNow : d.moves = [] →
    ∀ s f, (d.tree s).tasks.cnt f = (d.tree s).tasks.children (parentOf d.parents) f
  inSync : ∀ s f, (d.tree s).tasks.has f → InSync d.rows s f

end Syncs

end PcloudClient.Ppathstatus
