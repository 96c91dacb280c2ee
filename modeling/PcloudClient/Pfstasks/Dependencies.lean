/-
  Pfstasks/Dependencies.lean --- what a new task waits for.

  A task is sent when no row of `fstaskdepend` holds it back.  An operation makes its new
  task wait for the unfinished tasks on the same name of the same folder, and for the
  tasks that make what it refers to.
-/
import PcloudClient.Pfstasks.Checks
import PcloudClient.Pfstasks.Runs

set_option autoImplicit false

namespace PcloudClient.Pfstasks

open State (Inv Held)

/-- The task `t` waits in `db'` for every task of `db` on the name `n` of the folder `f` that
is not done. -/
def Awaits (db db' : Db) (t : Nat) (f : FolderId) (n : Name) : Prop :=
  ∀ row ∈ db.fstask, row.folderid = f → row.text1 = some n → row.status ≠ 3 →
    (t, row.id) ∈ db'.fstaskdepend

/-- The task `t` waits for the task that makes the folder `f`, if it is still to be made. -/
def AwaitsMkdir (db' : Db) (t : Nat) (f : FolderId) : Prop :=
  f < 0 → (t, (-f).toNat) ∈ db'.fstaskdepend

/-- `LEFT JOIN fstaskdepend d ON f.id=d.fstaskid WHERE d.fstaskid IS NULL AND status IN (0, 11)` -/
def Sendable (db : Db) (t : Nat) : Prop :=
  (∃ row ∈ db.fstask, row.id = t ∧ (row.status = 0 ∨ row.status = 11)) ∧
    ∀ d ∈ db.fstaskdepend, d.1 ≠ t

/-- A row that was not there before. -/
def NewRow (db db' : Db) (row : TaskRow) : Prop := row ∈ db'.fstask ∧ ¬ db.HasTask row.id

/-! ## Transactions -/

theorem Db.lt_nextTaskid {db : Db} {row : TaskRow} (h : row ∈ db.fstask) :
    row.id < db.nextTaskid := by
  have hmax : ∀ (l : List Nat) (n : Nat), n ∈ l → n ≤ l.foldr max 0 := by
    intro l n hn
    induction l with
    | nil => exact nomatch hn
    | cons x l ih =>
      rcases List.mem_cons.mp hn with rfl | hn
      · exact Nat.le_max_left _ _
      · exact (ih hn).trans (Nat.le_max_right _ _)
  exact Nat.lt_succ_of_le (hmax _ _ (List.mem_map_of_mem h))

namespace Tx

variable {tx : Tx} {taskid id : Nat}

theorem failed_of_dependIf {c : Bool} (h : (tx.dependIf c taskid id).failed = false) :
    tx.failed = false := by
  cases c with
  | false => exact h
  | true => exact (failed_depend.mp h).1

theorem failed_of_dependAll {ids : List Nat} (h : (tx.dependAll taskid ids).failed = false) :
    tx.failed = false := by
  induction ids generalizing tx with
  | nil => exact h
  | cons i ids ih => exact (failed_depend.mp (ih h)).1

/-- A dependency of a transaction that does not fail is there. -/
theorem mem_of_dependIf {c : Bool} (h : (tx.dependIf c taskid id).failed = false) (hc : c = true) :
    (taskid, id) ∈ (tx.dependIf c taskid id).db.fstaskdepend := by
  subst hc
  exact mem_dependIf.mpr (Or.inr ⟨rfl, rfl, (failed_depend.mp h).2⟩)

theorem sub_dependIf {c : Bool} {d : Nat × Nat} (h : d ∈ tx.db.fstaskdepend) :
    d ∈ (tx.dependIf c taskid id).db.fstaskdepend := mem_dependIf.mpr (Or.inl h)

theorem sub_dependAll {ids : List Nat} {d : Nat × Nat} (h : d ∈ tx.db.fstaskdepend) :
    d ∈ (tx.dependAll taskid ids).db.fstaskdepend := by
  induction ids generalizing tx with
  | nil => exact h
  | cons i ids ih => exact ih (mem_depend.mpr (Or.inl h))

/-- What a task waits for after `psync_fstask_depend_on_name`. -/
theorem mem_dependOnName {folderid : FolderId} {name : Name} (htask : tx.db.HasTask taskid)
    {row : TaskRow} (hrow : row ∈ tx.db.fstask) (hne : row.id ≠ taskid)
    (hf : row.folderid = folderid)
    (hn : row.text1 = some name) (hs : row.status ≠ 3) :
    (taskid, row.id) ∈ (tx.dependOnName taskid folderid name).db.fstaskdepend := by
  refine (mem_dependAll htask fun _ h => hasTask_of_mem_onName h).mpr (Or.inr ⟨rfl, ?_⟩)
  exact mem_onName.mpr ⟨row, hrow, rfl, hf, hn, hs, by simpa using hne⟩

theorem mem_dependOnName2 {taskid2 : Nat} {folderid : FolderId} {name : Name}
    (htask : tx.db.HasTask taskid) {row : TaskRow} (hrow : row ∈ tx.db.fstask)
    (hne : row.id ≠ taskid ∧ row.id ≠ taskid2) (hf : row.folderid = folderid)
    (hn : row.text1 = some name) (hs : row.status ≠ 3) :
    (taskid, row.id) ∈ (tx.dependOnName2 taskid taskid2 folderid name).db.fstaskdepend := by
  refine (mem_dependAll htask fun _ h => hasTask_of_mem_onName h).mpr (Or.inr ⟨rfl, ?_⟩)
  exact mem_onName.mpr ⟨row, hrow, rfl, hf, hn, hs, by simpa using hne⟩

@[simp] theorem fstask_dependOnName (tx : Tx) (taskid : Nat) (folderid : FolderId) (name : Name) :
    (tx.dependOnName taskid folderid name).db.fstask = tx.db.fstask := fstask_dependAll ..

@[simp] theorem fstask_dependOnName2 (tx : Tx) (taskid taskid2 : Nat) (folderid : FolderId)
    (name : Name) : (tx.dependOnName2 taskid taskid2 folderid name).db.fstask = tx.db.fstask :=
  fstask_dependAll ..

@[simp] theorem fstask_insertTask (tx : Tx) (row : TaskRow) :
    (tx.insertTask row).2.db.fstask = tx.db.fstask ++ [{ row with id := tx.db.nextTaskid }] := rfl

end Tx

/-! ## New tasks on one name -/

/-- A new row after the rows of `db`, which may have changed, and the row `new`. -/
theorem newRow_append {db db' : Db} {rows : List TaskRow} {new row : TaskRow}
    (hrows : db'.fstask = rows ++ [new]) (hold : ∀ r ∈ rows, db.HasTask r.id)
    (h : NewRow db db' row) : row = new := by
  obtain ⟨hmem, hnew⟩ := h
  rw [hrows, List.mem_append, List.mem_singleton] at hmem
  exact hmem.resolve_left fun hin => hnew (hold row hin)

/-- The transaction of a task on the name `name` of `folderid`, which waits for both. -/
theorem insert_waits {db : Db} {new : TaskRow} {folderid : FolderId} {name : Name} {tx tx' : Tx}
    (htx : tx = ((Tx.start db).insertTask new).2.dependIf (folderid < 0) db.nextTaskid
      (-folderid).toNat)
    (htx' : tx' = tx.dependOnName db.nextTaskid folderid name) (hok : tx'.failed = false) :
    tx'.db.fstask = db.fstask ++ [{ new with id := db.nextTaskid }] ∧
      Awaits db tx'.db db.nextTaskid folderid name ∧ AwaitsMkdir tx'.db db.nextTaskid folderid := by
  subst htx htx'
  have hok' := Tx.failed_of_dependAll hok
  have htask : (((Tx.start db).insertTask new).2.dependIf (folderid < 0) db.nextTaskid
      (-folderid).toNat).db.HasTask db.nextTaskid := by
    rw [Tx.hasTask_dependIf, Tx.hasTask_insertTask]
    exact Or.inr rfl
  refine ⟨by simp [Tx.start], fun row hrow hf hn hs => ?_, fun hneg => ?_⟩
  · refine Tx.mem_dependOnName htask ?_ (Db.lt_nextTaskid hrow).ne hf hn hs
    rw [Tx.fstask_dependIf, Tx.fstask_insertTask]
    exact List.mem_append_left _ hrow
  · exact Tx.sub_dependAll (Tx.mem_of_dependIf hok' (decide_eq_true hneg))

/-- What a new row on one name has to do with: its folder and name, and what it waits for. -/
structure WaitsOn (db db' : Db) (row : TaskRow) (folderid : FolderId) (name : Name) : Prop where
  folder : row.folderid = folderid
  text1 : row.text1 = some name
  awaits : Awaits db db' row.id folderid name

theorem mkdirTx_waits {db : Db} {folderid : FolderId} {name : Name} {key : Option Bytes}
    {ctime : Nat}
    (hok : (mkdirTx db folderid name key ctime).2.failed = false) {row : TaskRow}
    (hnew : NewRow db (mkdirTx db folderid name key ctime).2.db row) :
    WaitsOn db (mkdirTx db folderid name key ctime).2.db row folderid name ∧
      AwaitsMkdir (mkdirTx db folderid name key ctime).2.db row.id folderid := by
  obtain ⟨hrows, hname, hfolder⟩ := insert_waits rfl rfl hok
  obtain rfl := newRow_append hrows (fun r hr => ⟨r, hr, rfl⟩) hnew
  exact ⟨⟨rfl, rfl, hname⟩, hfolder⟩

theorem creatTx_waits {db : Db} {folderid : FolderId} {name : Name} {fileid : FileId}
    {key : Option Bytes} (hok : (creatTx db folderid name fileid key).2.failed = false)
    {row : TaskRow}
    (hnew : NewRow db (creatTx db folderid name fileid key).2.db row) :
    WaitsOn db (creatTx db folderid name fileid key).2.db row folderid name ∧
      AwaitsMkdir (creatTx db folderid name fileid key).2.db row.id folderid := by
  obtain ⟨hrows, hname, hfolder⟩ := insert_waits rfl rfl hok
  obtain rfl := newRow_append hrows (fun r hr => ⟨r, hr, rfl⟩) hnew
  exact ⟨⟨rfl, rfl, hname⟩, hfolder⟩

theorem modifyTx_waits {db : Db} {folderid : FolderId} {name : Name} {fileid : FileId} {hash : Int}
    {key : Option Bytes} {cr : Option Creat}
    (hok : (modifyTx db folderid name fileid hash key cr).2.failed = false) {row : TaskRow}
    (hnew : NewRow db (modifyTx db folderid name fileid hash key cr).2.db row) :
    WaitsOn db (modifyTx db folderid name fileid hash key cr).2.db row folderid name ∧
      AwaitsMkdir (modifyTx db folderid name fileid hash key cr).2.db row.id folderid := by
  obtain ⟨hrows, hname, hfolder⟩ := insert_waits rfl rfl (Tx.failed_of_dependIf hok)
  obtain rfl := newRow_append ((Tx.fstask_dependIf ..).trans hrows) (fun r hr => ⟨r, hr, rfl⟩) hnew
  exact ⟨⟨rfl, rfl, fun r hr hf hn hs => Tx.sub_dependIf (hname r hr hf hn hs)⟩,
    fun hneg => Tx.sub_dependIf (hfolder hneg)⟩

/-- The task of a removal waits for the pending folder's. -/
theorem rmdirTx_waits {db : Db} {folderid : FolderId} {name : Name} {c : FolderId} {depend : Nat}
    (hok : (rmdirTx db folderid name c depend).2.failed = false) {row : TaskRow}
    (hnew : NewRow db (rmdirTx db folderid name c depend).2.db row) :
    WaitsOn db (rmdirTx db folderid name c depend).2.db row folderid name ∧
      (depend ≠ 0 → (row.id, depend) ∈ (rmdirTx db folderid name c depend).2.db.fstaskdepend) := by
  have hrows : (rmdirTx db folderid name c depend).2.db.fstask = db.fstask ++
      [{ TaskRow.new .rmdir 0 folderid name (some c) with id := db.nextTaskid }] := by
    simp [rmdirTx, Tx.start]
  obtain rfl := newRow_append hrows (fun r hr => ⟨r, hr, rfl⟩) hnew
  have hok' := Tx.failed_of_dependAll (Tx.failed_of_dependAll hok)
  refine ⟨⟨rfl, rfl, fun r hr hf hn hs => ?_⟩, fun hne => ?_⟩
  · refine Tx.mem_dependOnName ?_ ?_ (Db.lt_nextTaskid hr).ne hf hn hs
    · simp only [Tx.hasTask_dependAll, Tx.hasTask_dependIf]
      exact ⟨_, List.mem_append_right _ (List.mem_singleton_self _), rfl⟩
    · simp [Tx.start, hr]
  · exact Tx.sub_dependAll (Tx.sub_dependAll (Tx.mem_of_dependIf hok' (decide_eq_true hne)))

/-! ## Updated rows -/

/-- A row and what an update made of it, where neither its name nor its type changes. -/
structure SameTask (row row' : TaskRow) : Prop where
  id : row'.id = row.id
  type : row'.type = row.type
  folderid : row'.folderid = row.folderid
  text1 : row'.text1 = row.text1
  status : row.status ≠ 3 → row'.status ≠ 3

/-- Databases with the same tasks. -/
structure Alike (db db' : Db) : Prop where
  kept : ∀ row ∈ db.fstask, ∃ row' ∈ db'.fstask, SameTask row row'
  old : ∀ row' ∈ db'.fstask, ∃ row ∈ db.fstask, SameTask row row'
  depend : db'.fstaskdepend = db.fstaskdepend

theorem SameTask.refl (row : TaskRow) : SameTask row row := ⟨rfl, rfl, rfl, rfl, fun h => h⟩

theorem SameTask.trans {row row' row'' : TaskRow} (h : SameTask row row')
    (h' : SameTask row' row'') :
    SameTask row row'' :=
  ⟨h'.id.trans h.id, h'.type.trans h.type, h'.folderid.trans h.folderid, h'.text1.trans h.text1,
    fun hs => h'.status (h.status hs)⟩

namespace Alike

theorem refl (db : Db) : Alike db db :=
  ⟨fun row h => ⟨row, h, .refl row⟩, fun row h => ⟨row, h, .refl row⟩, rfl⟩

theorem trans {db db' db'' : Db} (h : Alike db db') (h' : Alike db' db'') : Alike db db'' := by
  refine ⟨fun row hrow => ?_, fun row hrow => ?_, h'.depend.trans h.depend⟩
  · obtain ⟨row', hrow', hsame⟩ := h.kept row hrow
    obtain ⟨row'', hrow'', hsame'⟩ := h'.kept row' hrow'
    exact ⟨row'', hrow'', hsame.trans hsame'⟩
  · obtain ⟨row', hrow', hsame'⟩ := h'.old row hrow
    obtain ⟨row'', hrow'', hsame⟩ := h.old row' hrow'
    exact ⟨row'', hrow'', hsame.trans hsame'⟩

theorem updateTasks (db : Db) (cond : TaskRow → Bool) {set : TaskRow → TaskRow}
    (hset : ∀ row, SameTask row (set row)) : Alike db (db.updateTasks cond set) := by
  have hrow : ∀ row, SameTask row (if cond row then set row else row) := by
    intro row
    split
    · exact hset row
    · exact .refl row
  refine ⟨fun row h => ⟨_, List.mem_map_of_mem h, hrow row⟩, fun row' h => ?_, rfl⟩
  obtain ⟨row, hmem, rfl⟩ := List.mem_map.mp h
  exact ⟨row, hmem, hrow row⟩

theorem stopAndDeleteFile (env : Env) (db : Db) (fileid : FileId) :
    Alike db (stopAndDeleteFile env db fileid) := by
  have hset : ∀ row : TaskRow, SameTask row { row with status := 11 } := fun row =>
    ⟨rfl, rfl, rfl, rfl, fun _ => (by decide : (11 : Nat) ≠ 3)⟩
  unfold Pfstasks.stopAndDeleteFile
  split
  · exact refl db
  · exact (updateTasks db _ hset).trans (updateTasks _ _ hset)

theorem ite {db db' : Db} {c : Prop} [Decidable c] (h : Alike db db') :
    Alike db (if c then db' else db) := by
  split
  · exact h
  · exact refl db

theorem setSfolderid (tx : Tx) (taskid : Nat) (folderid : FolderId) :
    Alike tx.db (tx.setSfolderid taskid folderid).db :=
  updateTasks tx.db _ fun _ => ⟨rfl, rfl, rfl, rfl, id⟩

variable {db db' : Db} (h : Alike db db')
include h

theorem hasTask {id : Nat} : db'.HasTask id ↔ db.HasTask id := by
  constructor
  · rintro ⟨row', hrow', rfl⟩
    obtain ⟨row, hrow, hsame⟩ := h.old row' hrow'
    exact ⟨row, hrow, hsame.id.symm⟩
  · rintro ⟨row, hrow, rfl⟩
    obtain ⟨row', hrow', hsame⟩ := h.kept row hrow
    exact ⟨row', hrow', hsame.id⟩

/-- The tasks to wait for are the same. -/
theorem awaits {t : Nat} {f : FolderId} {n : Name} {db'' : Db} (hwait : Awaits db' db'' t f n) :
    Awaits db db'' t f n := by
  intro row hrow hf hn hs
  obtain ⟨row', hrow', hsame⟩ := h.kept row hrow
  rw [← hsame.id]
  exact hwait row' hrow' (hsame.folderid.trans hf) (hsame.text1.trans hn) (hsame.status hs)

end Alike

/-- The task of a removal of a file waits for the pending file's. -/
theorem unlinkTx_waits {env : Env} {db : Db} {folderid : FolderId} {name : Name}
    {fileid revoffileid : FileId} {rfileid depend : Nat}
    (hok : (unlinkTx env db folderid name fileid revoffileid rfileid depend).2.failed = false)
    {row : TaskRow}
    (hnew : NewRow db (unlinkTx env db folderid name fileid revoffileid rfileid depend).2.db row) :
    WaitsOn db (unlinkTx env db folderid name fileid revoffileid rfileid depend).2.db row
      folderid name ∧
      (depend ≠ 0 → (row.id, depend) ∈
        (unlinkTx env db folderid name fileid revoffileid rfileid depend).2.db.fstaskdepend) := by
  let db₀ := if fileid < 0 then stopAndDeleteFile env db fileid else db
  have halike : Alike db db₀ := (Alike.stopAndDeleteFile env db fileid).ite
  have hrows : ∃ new : TaskRow, new.folderid = folderid ∧ new.text1 = some name ∧
      new.id = db₀.nextTaskid ∧
      (unlinkTx env db folderid name fileid revoffileid rfileid depend).2.db.fstask =
        db₀.fstask ++ [new] := by
    simp only [unlinkTx, Tx.fstask_dependOnName, Tx.fstask_dependIf, Tx.start]
    by_cases hrev : revoffileid ≠ 0
    · simp only [if_pos hrev]
      exact ⟨_, rfl, rfl, rfl, congrArg (db₀.fstask ++ [·]) rfl⟩
    · simp only [if_neg hrev]
      exact ⟨_, rfl, rfl, rfl, congrArg (db₀.fstask ++ [·]) rfl⟩
  obtain ⟨new, hfolder, htext, hid, hrows⟩ := hrows
  obtain rfl := newRow_append hrows (fun r hr => halike.hasTask.mp ⟨r, hr, rfl⟩) hnew
  refine ⟨⟨hfolder, htext, halike.awaits fun r hr hf hn hs => ?_⟩, fun hne => ?_⟩
  · rw [hid]
    refine Tx.mem_dependOnName ?_ ?_ (Db.lt_nextTaskid hr).ne hf hn hs
    · simp only [Tx.hasTask_dependIf]
      exact ⟨_, List.mem_append_right _ (List.mem_singleton_self _), rfl⟩
    · simp only [Tx.fstask_dependIf]
      exact List.mem_append_left _ hr
  · have hok' := Tx.failed_of_dependIf (Tx.failed_of_dependIf (Tx.failed_of_dependAll hok))
    rw [hid]
    exact Tx.sub_dependAll (Tx.sub_dependIf (Tx.sub_dependIf
      (Tx.mem_of_dependIf hok' (decide_eq_true hne))))

/-! ## Renames -/

/-- What the task `t` of a new name waits for; `f` is the task of the old one, and `g` the folder
in which the new name is looked for. -/
theorem rename_waits {tx tx' : Tx} {t f a : Nat} {c : Bool}
    {parentfolderid to_folderid g : FolderId}
    {name new_name : Name} (htask : tx.db.HasTask t)
    (htx' : tx' = ((((tx.dependIf (parentfolderid < 0) t (-parentfolderid).toNat).dependIf
      (to_folderid < 0 ∧ to_folderid ≠ parentfolderid) t (-to_folderid).toNat).dependOnName2 t f
        parentfolderid name).dependOnName t g new_name).dependIf c t a) (hok : tx'.failed = false) :
    (∀ row ∈ tx.db.fstask, row.id ≠ t ∧ row.id ≠ f → row.folderid = parentfolderid →
      row.text1 = some name → row.status ≠ 3 → (t, row.id) ∈ tx'.db.fstaskdepend) ∧
    (∀ row ∈ tx.db.fstask, row.id ≠ t → row.folderid = g → row.text1 = some new_name →
      row.status ≠ 3 → (t, row.id) ∈ tx'.db.fstaskdepend) ∧
    AwaitsMkdir tx'.db t parentfolderid ∧ AwaitsMkdir tx'.db t to_folderid := by
  subst htx'
  have hok' := Tx.failed_of_dependAll (Tx.failed_of_dependAll (Tx.failed_of_dependIf hok))
  have hparent :
      AwaitsMkdir ((((tx.dependIf (parentfolderid < 0) t (-parentfolderid).toNat).dependIf
      (to_folderid < 0 ∧ to_folderid ≠ parentfolderid) t (-to_folderid).toNat).dependOnName2 t f
        parentfolderid name).dependOnName t g new_name).db t parentfolderid := fun hneg =>
    Tx.sub_dependAll (Tx.sub_dependAll (Tx.sub_dependIf
      (Tx.mem_of_dependIf (Tx.failed_of_dependIf hok') (decide_eq_true hneg))))
  refine ⟨fun row hrow hne hf hn hs => ?_, fun row hrow hne hf hn hs => ?_,
    fun hneg => Tx.sub_dependIf (hparent hneg), fun hneg => ?_⟩
  · refine Tx.sub_dependIf (Tx.sub_dependAll (Tx.mem_dependOnName2 ?_ ?_ hne hf hn hs))
    · simpa using htask
    · simpa using hrow
  · refine Tx.sub_dependIf (Tx.mem_dependOnName ?_ ?_ hne hf hn hs)
    · simpa using htask
    · simpa using hrow
  · refine Tx.sub_dependIf ?_
    rcases eq_or_ne to_folderid parentfolderid with rfl | hne
    · exact hparent hneg
    · exact Tx.sub_dependAll (Tx.sub_dependAll
        (Tx.mem_of_dependIf hok' (decide_eq_true ⟨hneg, hne⟩)))

section TwoTasks

variable {tx₀ tx₁ tx₂ : Tx} {old new : TaskRow} (htx₁ : tx₁ = (tx₀.insertTask old).2)
  (htx₂ : tx₂ = (tx₁.insertTask new).2) {db' : Db} (halike : Alike tx₂.db db')
include htx₁ htx₂ halike

/-- A rename inserts the task of the old name and that of the new one, which is known by its
type. -/
theorem id_newTask {db : Db} {row : TaskRow} (hrow : row ∈ db'.fstask) (hnew : ¬db.HasTask row.id)
    (hold : ∀ r ∈ tx₀.db.fstask, r.type = new.type → db.HasTask r.id) (hne : old.type ≠ new.type)
    (htype : row.type = new.type) : row.id = tx₁.db.nextTaskid := by
  obtain ⟨r, hr, hsame⟩ := halike.old row hrow
  rw [hsame.id]
  rw [hsame.type] at htype
  rw [hsame.id] at hnew
  subst htx₁ htx₂
  simp only [Tx.fstask_insertTask, List.append_assoc, List.mem_append, List.mem_singleton] at hr
  rcases hr with hr | rfl | rfl
  · exact absurd (hold r hr htype) hnew
  · exact absurd htype hne
  · rfl

/-- The tasks from before the rename are neither of its two. -/
theorem ids_oldTask {r : TaskRow} (hr : r ∈ tx₀.db.fstask) :
    ∃ r' ∈ db'.fstask, SameTask r r' ∧ r'.id ≠ tx₁.db.nextTaskid ∧ r'.id ≠ tx₀.db.nextTaskid := by
  have hr₁ : r ∈ tx₁.db.fstask := by
    rw [htx₁]
    exact List.mem_append_left _ hr
  have hr₂ : r ∈ tx₂.db.fstask := by
    rw [htx₂]
    exact List.mem_append_left _ hr₁
  obtain ⟨r', hr', hsame⟩ := halike.kept r hr₂
  refine ⟨r', hr', hsame, ?_, ?_⟩
  · rw [hsame.id]
    exact (Db.lt_nextTaskid hr₁).ne
  · rw [hsame.id]
    exact (Db.lt_nextTaskid hr).ne

end TwoTasks

/-- The task of the new name waits for what is on either name, and for both folders. -/
theorem renameFileTx_waits {db : Db} {fileid : FileId} {parentfolderid : FolderId} {name : Name}
    {to_folderid : FolderId} {new_name : Name} {cr : Option Creat} {tx : Tx}
    (htx : tx = (renameFileTx db fileid parentfolderid name to_folderid new_name cr).2.2)
    (hok : tx.failed = false) {row : TaskRow} (hnew : NewRow db tx.db row)
    (htype : row.type = .renfileTo) :
    (Awaits db tx.db row.id parentfolderid name ∧ Awaits db tx.db row.id to_folderid new_name) ∧
      AwaitsMkdir tx.db row.id parentfolderid ∧ AwaitsMkdir tx.db row.id to_folderid := by
  let tx₁ := ((Tx.start db).insertTask
    (.new .renfileFrom 10 parentfolderid name none (some fileid))).2
  let tx₂ := (tx₁.insertTask (.new .renfileTo 0 to_folderid new_name none (some fileid) none
    (some db.nextTaskid) (some ((cr.map Creat.rfileid).getD 0)))).2
  let tx₃ := if fileid < 0 then tx₂.setSfolderid (-fileid).toNat to_folderid else tx₂
  have halike : Alike tx₂.db tx₃.db := by
    simp only [tx₃]
    split
    · exact .setSfolderid tx₂ _ _
    · exact .refl _
  have htask : (tx₃.dependIf (fileid < 0) tx₁.db.nextTaskid (-fileid).toNat).db.HasTask
      tx₁.db.nextTaskid := by
    rw [Tx.hasTask_dependIf, halike.hasTask, Tx.hasTask_insertTask]
    exact Or.inr rfl
  obtain ⟨hsource, htarget, hmkdirs⟩ := rename_waits htask htx hok
  have hrows : tx.db.fstask = tx₃.db.fstask := by
    rw [htx]
    simp only [renameFileTx, Tx.fstask_dependOnName, Tx.fstask_dependOnName2, Tx.fstask_dependIf]
    rfl
  have hid : row.id = tx₁.db.nextTaskid :=
    id_newTask rfl rfl halike (hrows ▸ hnew.1) hnew.2 (fun r hr _ => ⟨r, hr, rfl⟩)
      (by decide : TaskType.renfileFrom ≠ .renfileTo) htype
  rw [hid]
  refine ⟨⟨fun r hr hf hn hs => ?_, fun r hr hf hn hs => ?_⟩, hmkdirs⟩
  · obtain ⟨r', hr', hsame, hne⟩ := ids_oldTask rfl rfl halike hr
    rw [← hsame.id]
    exact hsource r' (by simpa using hr') hne (hsame.folderid.trans hf) (hsame.text1.trans hn)
      (hsame.status hs)
  · obtain ⟨r', hr', hsame, hne⟩ := ids_oldTask rfl rfl halike hr
    rw [← hsame.id]
    exact htarget r' (by simpa using hr') hne.1 (hsame.folderid.trans hf) (hsame.text1.trans hn)
      (hsame.status hs)

/-- The pending folder of a name in a folder. -/
def State.pendingMkdir (st : State) (folderid : FolderId) (name : Name) : Option Mkdir :=
  (st.getFolderTasksRdlocked folderid).bind fun f => f.findMkdir name 0

theorem find_getFolderTasks {α : Type} {st : State} (h : Inv (fun _ => True) st)
    (folderid : FolderId)
    (find : FolderTasks → Option α) (hfind : ∀ f r, find { f with refcnt := r } = find f) :
    ((st.getFolderTasks folderid).1.bind fun p => find ((st.getFolderTasks folderid).2.folder p)) =
      (st.getFolderTasksRdlocked folderid).bind find := by
  have hfolder := congrArg (Option.bind · find) (h.folder_getFolderTasks folderid)
  simp only [Option.bind_map] at hfolder
  refine hfolder.trans ?_
  cases st.getFolderTasksRdlocked folderid with
  | none => rfl
  | some f => exact hfind f _

/-- What `psync_fstask_delete_folder_if_ex` does to the transaction. -/
theorem tx_deleteFolderIfEx {st : State} (h : Inv (fun _ => True) st) (tx : Tx)
    (folderid : FolderId)
    (name : Name) : (deleteFolderIfEx tx st folderid name).2.1 = tx ∨
      ∃ (c : FolderId) (depend : Nat),
        depend = ((st.pendingMkdir folderid name).map Mkdir.taskid).getD 0 ∧
        (deleteFolderIfEx tx st folderid name).2.1 =
          ((tx.insertTask (.new .rmdir 0 folderid name (some c))).2.dependIf (depend ≠ 0)
            tx.db.nextTaskid depend).dependIf (c < 0) tx.db.nextTaskid (-c).toNat := by
  unfold deleteFolderIfEx
  simp only [find_getFolderTasks h folderid (fun f => f.findMkdir name 0) fun _ _ => rfl]
  split
  · exact Or.inl rfl
  · split
    · split
      · exact Or.inl rfl
      · exact Or.inr ⟨_, _, rfl, rfl⟩
    · split
      · exact Or.inl rfl
      · exact Or.inr ⟨_, _, rfl, rfl⟩

theorem mem_deleteFolderIfEx {st : State} (h : Inv (fun _ => True) st) {folderid : FolderId}
    {name : Name} {tx : Tx} (htx : tx = (deleteFolderIfEx (Tx.start st.db) st folderid name).2.1)
    {row : TaskRow} (hrow : row ∈ st.db.fstask) : row ∈ tx.db.fstask := by
  rcases tx_deleteFolderIfEx h (Tx.start st.db) folderid name with heq | ⟨c, depend, -, heq⟩
  · rw [htx, heq]
    exact hrow
  · rw [htx, heq, Tx.fstask_dependIf, Tx.fstask_dependIf, Tx.fstask_insertTask]
    exact List.mem_append_left _ hrow

/-- The row that `psync_fstask_delete_folder_if_ex` inserts waits for the pending folder's task. -/
theorem deleteFolderIfEx_waits {st : State} (h : Inv (fun _ => True) st) {folderid : FolderId}
    {name : Name} {tx : Tx} (htx : tx = (deleteFolderIfEx (Tx.start st.db) st folderid name).2.1)
    {row : TaskRow} (hnew : NewRow st.db tx.db row) : row.type = .rmdir ∧
      (tx.failed = false → ∀ mk, st.pendingMkdir folderid name = some mk → mk.taskid ≠ 0 →
        (row.id, mk.taskid) ∈ tx.db.fstaskdepend) := by
  rcases tx_deleteFolderIfEx h (Tx.start st.db) folderid name with heq | ⟨c, depend, hdepend, heq⟩
  · rw [htx, heq] at hnew
    exact absurd ⟨row, hnew.1, rfl⟩ hnew.2
  · rw [← htx] at heq
    have hrows : tx.db.fstask = st.db.fstask ++
        [{ TaskRow.new .rmdir 0 folderid name (some c) with id := st.db.nextTaskid }] := by
      rw [heq, Tx.fstask_dependIf, Tx.fstask_dependIf, Tx.fstask_insertTask]
      rfl
    obtain rfl := newRow_append hrows (fun r hr => ⟨r, hr, rfl⟩) hnew
    refine ⟨rfl, fun hok mk hmk hne => ?_⟩
    rw [hmk, Option.map_some, Option.getD_some] at hdepend
    subst hdepend
    rw [heq] at hok ⊢
    exact Tx.sub_dependIf (Tx.mem_of_dependIf (Tx.failed_of_dependIf hok) (decide_eq_true hne))

/-- The task of the new name waits for what is on the old one and for the folders, and that of the
folder that is renamed over waits for the pending folder's. -/
theorem renameFolderTx_waits {st : State} (h : Inv (fun _ => True) st)
    {folderid parentfolderid : FolderId}
    {name : Name} {to_folderid : FolderId} {new_name : Name} {flags : UInt32} {mk : Option Mkdir}
    {rmtask : Nat} {tx₀ tx : Tx}
    (htx₀ : tx₀ = (deleteFolderIfEx (Tx.start st.db) st to_folderid new_name).2.1)
    (htx : tx = (renameFolderTx tx₀ rmtask folderid parentfolderid name to_folderid new_name flags
      mk).2.2)
    (hok : tx.failed = false) {row : TaskRow} (hnew : NewRow st.db tx.db row) :
    (row.type = .renfolderTo → Awaits st.db tx.db row.id parentfolderid name ∧
      AwaitsMkdir tx.db row.id folderid ∧ AwaitsMkdir tx.db row.id parentfolderid ∧
      AwaitsMkdir tx.db row.id to_folderid) ∧
    (row.type = .rmdir → ∀ target, st.pendingMkdir to_folderid new_name = some target →
      target.taskid ≠ 0 → (row.id, target.taskid) ∈ tx.db.fstaskdepend) := by
  let tx₁ := (tx₀.insertTask (.new .renfolderFrom 10 parentfolderid name (some folderid))).2
  let tx₂ := (tx₁.insertTask (.new .renfolderTo 0 to_folderid new_name (some folderid) none none
    (some tx₀.db.nextTaskid) (some flags.toNat))).2
  let tx₃ := if folderid < 0 then tx₂.setSfolderid (-folderid).toNat to_folderid else tx₂
  let tx₄ := (tx₃.dependIf (folderid < 0) tx₁.db.nextTaskid (-folderid).toNat).dependIf (rmtask ≠ 0)
    tx₁.db.nextTaskid rmtask
  have halike : Alike tx₂.db tx₃.db := by
    simp only [tx₃]
    split
    · exact .setSfolderid tx₂ _ _
    · exact .refl _
  have htask : tx₄.db.HasTask tx₁.db.nextTaskid := by
    rw [Tx.hasTask_dependIf, Tx.hasTask_dependIf, halike.hasTask, Tx.hasTask_insertTask]
    exact Or.inr rfl
  obtain ⟨hsource, -, hmkdirs⟩ := rename_waits htask htx hok
  have hrows : tx.db.fstask = tx₃.db.fstask := by
    rw [htx]
    simp only [renameFolderTx, Tx.fstask_dependOnName, Tx.fstask_dependOnName2, Tx.fstask_dependIf]
    rfl
  have hsub : ∀ d ∈ tx₄.db.fstaskdepend, d ∈ tx.db.fstaskdepend := by
    intro d hd
    rw [htx]
    exact Tx.sub_dependIf
      (Tx.sub_dependAll (Tx.sub_dependAll (Tx.sub_dependIf (Tx.sub_dependIf hd))))
  have hok₄ : tx₄.failed = false := by
    rw [htx] at hok
    exact Tx.failed_of_dependIf (Tx.failed_of_dependIf (Tx.failed_of_dependAll
      (Tx.failed_of_dependAll (Tx.failed_of_dependIf hok))))
  have hok₃ := Tx.failed_of_dependIf hok₄
  rw [NewRow, hrows] at hnew
  constructor
  · intro htype
    have htx₂ : tx₂ = (tx₁.insertTask (.new .renfolderTo 0 to_folderid new_name (some folderid) none
        none (some tx₀.db.nextTaskid) (some flags.toNat))).2 := rfl
    have hid : row.id = tx₁.db.nextTaskid := by
      refine id_newTask rfl htx₂ halike hnew.1 hnew.2 ?_
        (by decide : TaskType.renfolderFrom ≠ .renfolderTo) htype
      intro r hr hto
      by_contra hno
      exact absurd ((deleteFolderIfEx_waits h htx₀ ⟨hr, hno⟩).1.symm.trans hto)
        (by decide : TaskType.rmdir ≠ .renfolderTo)
    rw [hid]
    refine ⟨fun r hr hf hn hs => ?_, fun hneg => ?_, hmkdirs⟩
    · obtain ⟨r', hr', hsame, hne⟩ := ids_oldTask rfl rfl halike (mem_deleteFolderIfEx h htx₀ hr)
      rw [← hsame.id]
      exact hsource r' (by simpa [tx₄] using hr') hne (hsame.folderid.trans hf)
        (hsame.text1.trans hn)
        (hsame.status hs)
    · exact hsub _ (Tx.sub_dependIf (Tx.mem_of_dependIf hok₃ (decide_eq_true hneg)))
  · intro htype target htarget hne
    obtain ⟨r, hr, hsame⟩ := halike.old row hnew.1
    rw [hsame.type] at htype
    rw [hsame.id] at hnew ⊢
    have hr₀ : r ∈ tx₀.db.fstask := by
      simp only [tx₂, tx₁, Tx.fstask_insertTask, List.append_assoc, List.mem_append,
        List.mem_singleton] at hr
      rcases hr with hr | rfl | rfl
      · exact hr
      · exact absurd htype (by decide : TaskType.renfolderFrom ≠ .rmdir)
      · exact absurd htype (by decide : TaskType.renfolderTo ≠ .rmdir)
    have hok₀ : tx₀.failed = false := by
      have hok₂ := Tx.failed_of_dependIf hok₃
      simp only [tx₃] at hok₂
      split at hok₂ <;> exact hok₂
    have hwaits := (deleteFolderIfEx_waits h htx₀ ⟨hr₀, hnew.2⟩).2 hok₀ target htarget hne
    refine hsub _ (Tx.sub_dependIf (Tx.sub_dependIf ?_))
    rw [halike.depend]
    exact hwaits

end PcloudClient.Pfstasks
