/-
  Ppathstatus/Drive.lean --- the path status of the drive: the folders with tasks in or below them.

  A move of a folder is told to the tree by a callback that runs when the transaction commits, after
  `folder` has been changed by all of the transaction.  The rows of `folder` are part of the state,
  so that a call and the change of the table that it belongs to are one step.
-/
import PcloudClient.Foundation.Outcome
import PcloudClient.Ppathstatus.Moves

set_option autoImplicit false

namespace PcloudClient.Ppathstatus

open PcloudClient.Counted

structure Drive where
  /-- `SELECT parentfolderid FROM folder WHERE id=?` -/
  parents : Parents
  tree : TaskTree
  /-- `tran_callbacks` -/
  moves : List Move
  /-- the rows at `BEGIN`, while `in_transaction` -/
  saved : Option Parents

/-- `psync_path_status_init` -/
def Drive.init (parents : Parents) : Drive := ⟨parents, .init PARENT_CACHE_SIZE, [], none⟩

namespace Drive

/-- `psync_path_status_drive_folder_changed`; `changed` says that the folder has creats or
mkdirs. -/
def folderChanged (fuel : Nat) (folderid : FolderId) (changed : Bool) (d : Drive) :
    Except Stop Drive :=
  let tasks := if changed ∧ ¬ d.tree.tasks.has folderid then d.tree.tasks.set folderid ⟨false, 0⟩
    else d.tree.tasks
  let tree := { d.tree with tasks := tasks }
  match tasks.get folderid with
  | none => .ok d
  | some ft =>
    if (¬ changed ∧ ft.cnt ≠ 0) ∨ (changed ∧ (ft.own ∨ ft.cnt ≠ 0)) then
      .ok { d with tree := { tree with tasks := tasks.set folderid { ft with own := changed } } }
    else if changed then
      if ft.own ∨ ft.cnt ≠ 0 then .error .assertion
      else do
        let tree ← incrementAbove d.parents fuel folderid
          { tree with tasks := tasks.set folderid { ft with own := true } }
        .ok { d with tree := tree }
    else
      if ft.cnt ≠ 0 ∨ ¬ ft.own then .error .assertion
      else do
        let tree ← decrementAbove d.parents false fuel folderid
          { tree with tasks := tasks.erase folderid }
        .ok { d with tree := tree }

/-- `folder_moved` -/
def folderMoved (parents : Parents) (fuel : Nat) (m : Move) (tree : TaskTree) :
    Except Stop TaskTree := do
  let tree ← incrementUp parents fuel m.newParentFolderid tree
  decrementUp parents false fuel m.oldParentFolderid tree

/-- `psync_path_status_folder_moved`; `psync_sql_transation_add_callbacks` asserts that there is a
transaction. -/
def pathStatusFolderMoved (m : Move) (d : Drive) : Except Stop Drive :=
  if m.oldParentFolderid = m.newParentFolderid then .ok d
  else
    let d := { d with tree := delFromParentCache m.folderid d.tree }
    if ¬ d.tree.tasks.has m.folderid then .ok d
    else if d.saved.isNone then .error .assertion
    else .ok { d with moves := d.moves ++ [m] }

/-- `psync_path_status_folder_deleted`.  The entry taken out of the cache is that of the folder at
which the loop ended. -/
def pathStatusFolderDeleted (fuel : Nat) (folderid : FolderId) (d : Drive) : Except Stop Drive :=
  if d.tree.tasks.has folderid then do
    let (last, tree) ← deletedUp d.parents fuel folderid
      { d.tree with tasks := d.tree.tasks.erase folderid }
    .ok { d with tree := last.elim tree (delFromParentCache · tree) }
  else .ok { d with tree := delFromParentCache folderid d.tree }

/-- `run_commit_callbacks` -/
def runCommitCallbacks (fuel : Nat) : List Move → Drive → Except Stop Drive
  | [], d => .ok d
  | m :: rest, d => do
    let tree ← folderMoved d.parents fuel m d.tree
    runCommitCallbacks fuel rest { d with tree := tree, moves := rest }

end Drive

/-- The calls, each with the change of the table that it belongs to. -/
inductive Call where
  /-- `psync_sql_start_transaction` -/
  | start
  /-- a new row of `folder`, which the path status is not told of -/
  | create (folderid parentfolderid : FolderId)
  | changed (folderid : FolderId) (changed : Bool)
  /-- the `UPDATE` of `process_modifyfolder` -/
  | moved (folderid parentfolderid : FolderId)
  /-- the `DELETE` of `process_deletefolder` -/
  | deleted (folderid : FolderId)
  /-- `psync_sql_commit_transaction` -/
  | commit
  /-- `psync_sql_rollback_transaction` -/
  | rollback
  deriving DecidableEq, Repr

namespace Drive

def exec (fuel : Nat) (call : Call) (d : Drive) : Except Stop Drive :=
  match call with
  | .start => .ok { d with saved := some d.parents, moves := [] }
  | .create folderid parentfolderid =>
    .ok { d with parents := Function.update d.parents folderid (some parentfolderid) }
  | .changed folderid changed => d.folderChanged fuel folderid changed
  | .moved folderid parentfolderid =>
    match d.parents folderid with
    | none => .ok d
    | some oldparentfolderid =>
      pathStatusFolderMoved ⟨folderid, oldparentfolderid, parentfolderid⟩
        { d with parents := Function.update d.parents folderid (some parentfolderid) }
  | .deleted folderid => do
    let d ← d.pathStatusFolderDeleted fuel folderid
    .ok { d with parents := Function.update d.parents folderid none }
  | .commit => do
    let d ← d.runCommitCallbacks fuel d.moves
    .ok { d with saved := none }
  | .rollback => .ok { d with parents := d.saved.getD d.parents, moves := [], saved := none }

/-- The rows are those of a forest with root 0: no folder is above itself, and parents are there. -/
structure Hierarchy (parents : Parents) : Prop where
  ranked : ∃ rank : FolderId → Nat, ∀ f p, parentOf parents f = some p → rank p < rank f
  closed : ∀ f p, parentOf parents f = some p → p = 0 ∨ parents p ≠ none

/-- The call is one that the table allows: the folders are there, the rows stay a hierarchy, and a
folder is moved in a transaction. -/
def Matching (d : Drive) : Call → Prop
  | .start => d.saved = none
  | .create f p => f ≠ 0 ∧ d.parents f = none ∧
      Hierarchy (Function.update d.parents f (some p))
  | .changed f _ => f = 0 ∨ d.parents f ≠ none
  | .moved f p => f ≠ 0 ∧ d.parents f ≠ none ∧ d.saved ≠ none ∧
      Hierarchy (Function.update d.parents f (some p))
  | .deleted f => f ≠ 0 ∧ d.parents f ≠ none ∧ Hierarchy (Function.update d.parents f none)
  | .commit => d.saved ≠ none
  | .rollback => d.saved ≠ none

/-- Where a folder is counted now. -/
def counted (d : Drive) : FolderId → Option FolderId := countedAt d.parents d.moves

/-- A folder that has been moved keeps tasks in it or below it until its callback runs, no folder is
deleted that has tasks in it or below it, and what a rollback undoes has not been used. -/
def Meets (d : Drive) : Call → Prop
  | .changed f false => ∀ m ∈ d.moves,
      Balanced.Busy d.counted (Function.update d.tree.tasks.own f false) m.folderid
  | .deleted f => ¬ d.tree.tasks.has f
  | .commit => ∀ m rest, m :: rest <:+ d.moves → ∀ m' ∈ rest,
      Balanced.Busy (countedAt d.parents rest) d.tree.tasks.own m'.folderid
  | .rollback => ∀ saved, d.saved = some saved →
      (∀ f, d.tree.tasks.has f → d.counted f = parentOf saved f) ∧
      ∀ e, some e ∈ d.tree.cache → saved e.folderid = some e.parentfolderid
  | _ => True

/-- A run of calls that match the table. -/
def Run (parents : Parents) (d : Drive) : Prop :=
  Relation.ReflTransGen (fun d d' => ∃ call fuel, d.Matching call ∧ d.exec fuel call = .ok d')
    (.init parents) d

/-- A run of calls that also meet the condition. -/
def GoodRun (parents : Parents) (d : Drive) : Prop :=
  Relation.ReflTransGen
    (fun d d' => ∃ call fuel, d.Matching call ∧ d.Meets call ∧ d.exec fuel call = .ok d')
    (.init parents) d

/-- What the path status is to be: a node for the folders with tasks or with children that have a
node, which it counts, and the parents of the table. -/
structure Exact (d : Drive) : Prop where
  node : ∀ f, d.tree.tasks.has f ↔ d.tree.tasks.own f = true ∨ 0 < d.tree.tasks.cnt f
  count : ∀ f, d.tree.tasks.cnt f = d.tree.tasks.children d.counted f
  countNow : d.moves = [] →
    ∀ f, d.tree.tasks.cnt f = d.tree.tasks.children (parentOf d.parents) f
  cache : ∀ f, (getParentFolder d.parents d.tree f).1 = parentOf d.parents f

end Drive

end PcloudClient.Ppathstatus
