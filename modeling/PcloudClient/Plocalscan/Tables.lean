/-
  Plocalscan/Tables.lean --- the tables that the local scan keeps.

  Of `localfolder`, `localfile`, `syncedfolder` and `task` the columns that the scan reads and
  writes are kept.  The row of `localfolder` with id 0, all `NULL`, that the rows of the top level
  of a sync refer to is no query's result and is left out.  A transaction is the database it would
  leave with a flag for a statement that failed; `psync_sql_commit_transaction` gives up all of it
  in that case. -/
import PcloudClient.Foundation.Bytes

set_option autoImplicit false

namespace PcloudClient.Plocalscan

/-- A row of `localfolder`; `none` is `NULL`. -/
structure LocalFolder where
  id : Nat
  localparentfolderid : Nat
  folderid : Option Nat
  syncid : Nat
  inode : BitVec 64
  deviceid : BitVec 64
  mtimenative : Option (BitVec 64)
  name : Bytes
  deriving DecidableEq, Repr

/-- A row of `localfile`. -/
structure LocalFile where
  id : Nat
  localparentfolderid : Nat
  fileid : Option Nat
  syncid : Nat
  size : BitVec 64
  inode : BitVec 64
  mtimenative : BitVec 64
  name : Bytes
  deriving DecidableEq, Repr

/-- A row of `syncedfolder`. -/
structure SyncedFolder where
  syncid : Nat
  folderid : Option Nat
  localfolderid : Nat
  synctype : Nat
  deriving DecidableEq, Repr

/-- `PSYNC_RENAME_REMOTE_FOLDER`,
`((PSYNC_TASK_TYPE_RENAME<<PSYNC_TASK_TYPE_OFF)+PSYNC_TASK_FOLDER+PSYNC_TASK_UPLOAD)` -/
def RENAME_REMOTE_FOLDER : Nat := 3 <<< 2 + 0 + 1

/-- A row of `task`. -/
structure Task where
  type : Nat
  syncid : Nat
  newsyncid : Nat
  localitemid : Nat
  newitemid : Nat
  name : Bytes
  itemid : Nat
  deriving DecidableEq, Repr

structure Db where
  /-- the ids of `syncfolder` -/
  syncfolder : List Nat
  localfolder : List LocalFolder
  localfile : List LocalFile
  syncedfolder : List SyncedFolder
  task : List Task
  deriving DecidableEq, Repr

/-- What the indexes and the references of `localfolder` ask of its rows: `klocalfolderpsn`, and the
parent and the sync that a row refers to. -/
def LocalfolderOk (syncfolder : List Nat) (rows : List LocalFolder) : Prop :=
  (rows.map fun r => (r.syncid, r.localparentfolderid, r.name)).Nodup ∧
  ∀ r ∈ rows, r.syncid ∈ syncfolder ∧
    (r.localparentfolderid = 0 ∨ r.localparentfolderid ∈ rows.map (·.id))

instance (syncfolder : List Nat) (rows : List LocalFolder) :
    Decidable (LocalfolderOk syncfolder rows) :=
  inferInstanceAs (Decidable (_ ∧ _))

/-- What those of `syncedfolder` ask: its primary key, in which `NULL`s differ from each other,
`ksyncedfolderdownsyncidlocalfolderid`, and the sync. -/
def SyncedfolderOk (syncfolder : List Nat) (rows : List SyncedFolder) : Prop :=
  (rows.filterMap fun r => r.folderid.map fun folderid => (r.syncid, folderid)).Nodup ∧
  (rows.map fun r => (r.localfolderid, r.syncid)).Nodup ∧
  ∀ r ∈ rows, r.syncid ∈ syncfolder

instance (syncfolder : List Nat) (rows : List SyncedFolder) :
    Decidable (SyncedfolderOk syncfolder rows) :=
  inferInstanceAs (Decidable (_ ∧ _ ∧ _))

/-- A transaction in progress; `failed` is `transaction_failed`. -/
structure Transaction where
  db : Db
  failed : Bool
  deriving DecidableEq, Repr

namespace Transaction

/-- `UPDATE localfolder SET .. WHERE id=?` -/
def updateLocalfolder (id : Nat) (set : LocalFolder → LocalFolder) (t : Transaction) :
    Transaction :=
  let rows := t.db.localfolder.map fun r => if r.id = id then set r else r
  if LocalfolderOk t.db.syncfolder rows then { t with db := { t.db with localfolder := rows } }
  else { t with failed := true }

/-- `UPDATE syncedfolder SET .. WHERE localfolderid=?` -/
def updateSyncedfolder (localfolderid : Nat) (set : SyncedFolder → SyncedFolder) (t : Transaction) :
    Transaction :=
  let rows := t.db.syncedfolder.map fun r => if r.localfolderid = localfolderid then set r else r
  if SyncedfolderOk t.db.syncfolder rows then { t with db := { t.db with syncedfolder := rows } }
  else { t with failed := true }

/-- `SELECT id FROM localfolder WHERE localparentfolderid=?` -/
def children (localfolderid : Nat) (t : Transaction) : List Nat :=
  (t.db.localfolder.filter (·.localparentfolderid = localfolderid)).map (·.id)

end Transaction

/-- `psync_sql_commit_transaction`, of a transaction begun at `db` -/
def commitTransaction (db : Db) (t : Transaction) : Db :=
  if t.failed then db else t.db

/-! ## The folders as a forest -/

/-- The folder is `root` or below it. -/
inductive Below (rows : List LocalFolder) (root : Nat) : Nat → Prop
  | root : Below rows root root
  | child (r : LocalFolder) : r ∈ rows → Below rows root r.localparentfolderid →
      Below rows root r.id

/-- No folder is below itself: there is a depth. -/
def Forest (rows : List LocalFolder) : Prop :=
  ∃ depth : Nat → Nat, ∀ r ∈ rows, depth r.localparentfolderid < depth r.id

/-- What `Below` and `Forest` look at. -/
def skeleton (rows : List LocalFolder) : List (Nat × Nat) :=
  rows.map fun r => (r.id, r.localparentfolderid)

theorem Below.trans {rows : List LocalFolder} {a b c : Nat} (hab : Below rows a b)
    (hbc : Below rows b c) : Below rows a c := by
  induction hbc with
  | root => exact hab
  | child r hr _ ih => exact .child r hr ih

theorem mem_skeleton {rows : List LocalFolder} {id parent : Nat} :
    (id, parent) ∈ skeleton rows ↔ ∃ r ∈ rows, r.id = id ∧ r.localparentfolderid = parent := by
  simp [skeleton]

theorem Below.of_skeleton {rows rows' : List LocalFolder} (h : skeleton rows' = skeleton rows)
    {root id : Nat} (hb : Below rows root id) : Below rows' root id := by
  induction hb with
  | root => exact .root
  | child r hr _ ih =>
    have hmem : (r.id, r.localparentfolderid) ∈ skeleton rows' :=
      h ▸ mem_skeleton.mpr ⟨r, hr, rfl, rfl⟩
    obtain ⟨r', hr', hid, hparent⟩ := mem_skeleton.mp hmem
    rw [← hparent] at ih
    exact hid ▸ .child r' hr' ih

theorem below_congr {rows rows' : List LocalFolder} (h : skeleton rows' = skeleton rows)
    (root id : Nat) : Below rows' root id ↔ Below rows root id :=
  ⟨fun hb => hb.of_skeleton h.symm, fun hb => hb.of_skeleton h⟩

theorem mem_children {t : Transaction} {id child : Nat} :
    child ∈ t.children id ↔ (child, id) ∈ skeleton t.db.localfolder := by
  simp [Transaction.children, skeleton, and_assoc, and_comm]

/-- The folders below `root` are `root` and those below its children. -/
theorem below_iff {rows : List LocalFolder} {root id : Nat} :
    Below rows root id ↔
      id = root ∨ ∃ child, (child, root) ∈ skeleton rows ∧ Below rows child id := by
  constructor
  · intro h
    induction h with
    | root => exact .inl rfl
    | child r hr _ ih =>
      rcases ih with heq | ⟨c, hc, hbelow⟩
      · exact .inr ⟨r.id, mem_skeleton.mpr ⟨r, hr, rfl, heq⟩, .root⟩
      · exact .inr ⟨c, hc, .child r hr hbelow⟩
  · rintro (rfl | ⟨c, hc, hbelow⟩)
    · exact .root
    · obtain ⟨r, hr, rfl, rfl⟩ := mem_skeleton.mp hc
      exact (Below.child r hr .root).trans hbelow

end PcloudClient.Plocalscan
