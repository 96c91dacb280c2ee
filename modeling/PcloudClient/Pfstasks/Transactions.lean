/-
  Pfstasks/Transactions.lean --- what the statements of a transaction leave behind.
-/
import PcloudClient.Pfstasks.Operations

set_option autoImplicit false

namespace PcloudClient.Pfstasks

namespace Db

/-- A row of `fstask` has the id. -/
def HasTask (db : Db) (id : Nat) : Prop := ∃ row ∈ db.fstask, row.id = id

theorem isSome_findTask {db : Db} {id : Nat} : (db.findTask id).isSome ↔ db.HasTask id := by
  simp [findTask, HasTask, List.find?_isSome]

theorem isNone_findTask {db : Db} {id : Nat} : (db.findTask id).isNone ↔ ¬db.HasTask id := by
  rw [← isSome_findTask, Bool.not_eq_true, Option.isSome_eq_false_iff]

/-- An update that keeps the ids. -/
theorem hasTask_updateTasks {db : Db} {cond : TaskRow → Bool} {set : TaskRow → TaskRow}
    (hid : ∀ row, (set row).id = row.id) {id : Nat} :
    (db.updateTasks cond set).HasTask id ↔ db.HasTask id := by
  constructor
  · rintro ⟨row, hrow, rfl⟩
    obtain ⟨row', hrow', rfl⟩ := List.mem_map.mp hrow
    refine ⟨row', hrow', ?_⟩
    split
    · exact (hid row').symm
    · rfl
  · rintro ⟨row, hrow, rfl⟩
    refine ⟨_, List.mem_map_of_mem hrow, ?_⟩
    split
    · exact hid row
    · rfl

end Db

namespace Tx

variable {tx : Tx} {taskid id : Nat}

/-! ## Inserted rows -/

theorem hasTask_insertTask (tx : Tx) (row : TaskRow) :
    (tx.insertTask row).2.db.HasTask id ↔ tx.db.HasTask id ∨ id = (tx.insertTask row).1 := by
  unfold Db.HasTask insertTask
  simp only [List.mem_append, List.mem_singleton]
  constructor
  · rintro ⟨r, hr | rfl, rfl⟩
    · exact Or.inl ⟨r, hr, rfl⟩
    · exact Or.inr rfl
  · rintro (⟨r, hr, rfl⟩ | rfl)
    · exact ⟨r, Or.inl hr, rfl⟩
    · exact ⟨_, Or.inr rfl, rfl⟩

/-! ## Dependencies -/

@[simp] theorem fstask_depend (tx : Tx) (taskid id : Nat) :
    (tx.depend taskid id).db.fstask = tx.db.fstask := by
  unfold depend insertDepend
  split
  · rfl
  · split <;> rfl

@[simp] theorem hasTask_depend {a b : Nat} : (tx.depend a b).db.HasTask id ↔ tx.db.HasTask id := by
  rw [Db.HasTask, fstask_depend, Db.HasTask]

theorem missing_iff {db : Db} :
    ((db.findTask taskid).isNone || (db.findTask id).isNone) = true ↔
      ¬(db.HasTask taskid ∧ db.HasTask id) := by
  rw [Bool.or_eq_true, Db.isNone_findTask, Db.isNone_findTask, Classical.not_and_iff_not_or_not]

theorem failed_depend :
    (tx.depend taskid id).failed = false ↔
      tx.failed = false ∧ tx.db.HasTask taskid ∧ tx.db.HasTask id := by
  unfold depend insertDepend
  split
  · next hmissing =>
    rw [missing_iff] at hmissing
    simp only [Bool.true_eq_false, false_iff]
    exact fun h => hmissing h.2
  · next hthere =>
    rw [missing_iff, Classical.not_not] at hthere
    split <;> exact ⟨fun h => ⟨h, hthere⟩, And.left⟩

/-- A dependency that is inserted is there, as are those before it. -/
theorem mem_depend {d : Nat × Nat} :
    d ∈ (tx.depend taskid id).db.fstaskdepend ↔
      d ∈ tx.db.fstaskdepend ∨ d = (taskid, id) ∧ tx.db.HasTask taskid ∧ tx.db.HasTask id := by
  unfold depend insertDepend
  split
  · next hmissing =>
    rw [missing_iff] at hmissing
    refine ⟨Or.inl, ?_⟩
    rintro (h | ⟨-, hboth⟩)
    · exact h
    · exact absurd hboth hmissing
  · next hthere =>
    rw [missing_iff, Classical.not_not] at hthere
    split
    · next hin =>
      refine ⟨Or.inl, ?_⟩
      rintro (h | ⟨rfl, -⟩)
      · exact h
      · exact hin
    · simp only [List.mem_append, List.mem_singleton]
      exact or_congr_right ⟨fun h => ⟨h, hthere⟩, And.left⟩

@[simp] theorem fstask_dependIf (tx : Tx) (c : Bool) (taskid id : Nat) :
    (tx.dependIf c taskid id).db.fstask = tx.db.fstask := by
  cases c with
  | false => rfl
  | true => exact fstask_depend tx taskid id

@[simp] theorem hasTask_dependIf {c : Bool} {a b : Nat} :
    (tx.dependIf c a b).db.HasTask id ↔ tx.db.HasTask id := by
  rw [Db.HasTask, fstask_dependIf, Db.HasTask]

theorem failed_dependIf {c : Bool} (htask : tx.db.HasTask taskid) :
    (tx.dependIf c taskid id).failed = false ↔ tx.failed = false ∧
      (c = true → tx.db.HasTask id) := by
  cases c with
  | false => simp [dependIf]
  | true => simp [dependIf, failed_depend, htask]

theorem mem_dependIf {c : Bool} {d : Nat × Nat} :
    d ∈ (tx.dependIf c taskid id).db.fstaskdepend ↔ d ∈ tx.db.fstaskdepend ∨
      c = true ∧ d = (taskid, id) ∧ tx.db.HasTask taskid ∧ tx.db.HasTask id := by
  cases c with
  | false => simp [dependIf]
  | true => simp [dependIf, mem_depend]

@[simp] theorem fstask_dependAll (tx : Tx) (taskid : Nat) (ids : List Nat) :
    (tx.dependAll taskid ids).db.fstask = tx.db.fstask := by
  induction ids generalizing tx with
  | nil => rfl
  | cons id ids ih => rw [dependAll, List.foldl_cons, ← dependAll, ih, fstask_depend]

@[simp] theorem hasTask_dependAll {ids : List Nat} :
    (tx.dependAll taskid ids).db.HasTask id ↔ tx.db.HasTask id := by
  rw [Db.HasTask, fstask_dependAll, Db.HasTask]

theorem failed_dependAll {ids : List Nat} (htask : tx.db.HasTask taskid)
    (hids : ∀ id ∈ ids, tx.db.HasTask id) : (tx.dependAll taskid ids).failed = tx.failed := by
  induction ids generalizing tx with
  | nil => rfl
  | cons id ids ih =>
    rw [dependAll, List.foldl_cons, ← dependAll, ih (hasTask_depend.mpr htask) fun i hi =>
      hasTask_depend.mpr (hids i (List.mem_cons_of_mem _ hi))]
    have hid := hids id (List.mem_cons_self ..)
    cases hfailed : tx.failed with
    | false => exact failed_depend.mpr ⟨hfailed, htask, hid⟩
    | true =>
      rw [← Bool.not_eq_false, failed_depend]
      rw [hfailed]
      exact fun h => absurd h.1 (by decide)

theorem mem_dependAll {ids : List Nat} {d : Nat × Nat} (htask : tx.db.HasTask taskid)
    (hids : ∀ id ∈ ids, tx.db.HasTask id) :
    d ∈ (tx.dependAll taskid ids).db.fstaskdepend ↔
      d ∈ tx.db.fstaskdepend ∨ d.1 = taskid ∧ d.2 ∈ ids := by
  induction ids generalizing tx with
  | nil => simp [dependAll]
  | cons id ids ih =>
    rw [dependAll, List.foldl_cons, ← dependAll, ih (hasTask_depend.mpr htask) fun i hi =>
      hasTask_depend.mpr (hids i (List.mem_cons_of_mem _ hi)), mem_depend, List.mem_cons]
    have hid := hids id (List.mem_cons_self ..)
    obtain ⟨d1, d2⟩ := d
    simp only [Prod.mk.injEq, htask, hid, and_true]
    tauto

theorem hasTask_of_mem_onName {db : Db} {folderid : FolderId} {name : Name} {except : List Nat}
    (h : id ∈ onName db folderid name except) : db.HasTask id := by
  obtain ⟨row, hrow, rfl⟩ := List.mem_map.mp h
  exact ⟨row, (List.mem_filter.mp hrow).1, rfl⟩

theorem mem_onName {db : Db} {folderid : FolderId} {name : Name} {except : List Nat} :
    id ∈ onName db folderid name except ↔ ∃ row ∈ db.fstask, row.id = id ∧ row.folderid = folderid ∧
      row.text1 = some name ∧ row.status ≠ 3 ∧ id ∉ except := by
  simp only [onName, List.mem_map, List.mem_filter, decide_eq_true_eq]
  constructor
  · rintro ⟨row, ⟨hrow, h1, h2, h3, h4⟩, rfl⟩
    exact ⟨row, hrow, rfl, h1, h2, h4, h3⟩
  · rintro ⟨row, hrow, rfl, h1, h2, h4, h3⟩
    exact ⟨row, ⟨hrow, h1, h2, h3, h4⟩, rfl⟩

theorem failed_dependOnName {folderid : FolderId} {name : Name} (htask : tx.db.HasTask taskid) :
    (tx.dependOnName taskid folderid name).failed = tx.failed :=
  failed_dependAll htask fun _ h => hasTask_of_mem_onName h

@[simp] theorem hasTask_dependOnName {folderid : FolderId} {name : Name} :
    (tx.dependOnName taskid folderid name).db.HasTask id ↔ tx.db.HasTask id := hasTask_dependAll

@[simp] theorem hasTask_dependOnName2 {taskid2 : Nat} {folderid : FolderId} {name : Name} :
    (tx.dependOnName2 taskid taskid2 folderid name).db.HasTask id ↔ tx.db.HasTask id :=
  hasTask_dependAll

theorem commit_eq_some {commits : Bool} {db : Db} :
    tx.commit commits = some db ↔ commits = true ∧ tx.failed = false ∧ tx.db = db := by
  unfold commit
  cases commits <;> cases tx.failed <;> simp

end Tx

theorem failed_rmdirTx {db : Db} {folderid : FolderId} {name : Name} {cfolderid : FolderId}
    {depend : Nat} (hdepend : depend ≠ 0 → db.HasTask depend) :
    (rmdirTx db folderid name cfolderid depend).2.failed = false := by
  unfold rmdirTx
  simp only
  rw [Tx.failed_dependOnName (by simp [Tx.hasTask_insertTask]), Tx.failed_dependAll
    (by simp [Tx.hasTask_insertTask]), Tx.failed_dependIf (by simp [Tx.hasTask_insertTask])]
  · refine ⟨rfl, fun h => ?_⟩
    rw [Tx.hasTask_insertTask]
    exact Or.inl (hdepend (of_decide_eq_true h))
  · intro id hid
    obtain ⟨row, hrow, rfl⟩ := List.mem_map.mp hid
    exact ⟨row, (List.mem_filter.mp hrow).1, rfl⟩

theorem hasTask_stopAndDeleteFile {env : Env} {db : Db} {fileid : FileId} {id : Nat} :
    (stopAndDeleteFile env db fileid).HasTask id ↔ db.HasTask id := by
  unfold stopAndDeleteFile
  split
  · rfl
  · refine (Db.hasTask_updateTasks ?_).trans (Db.hasTask_updateTasks ?_)
    · exact fun _ => rfl
    · exact fun _ => rfl

theorem failed_unlinkTx {env : Env} {db : Db} {folderid : FolderId} {name : Name}
    {fileid revoffileid : FileId} {rfileid depend : Nat} (hdepend : depend ≠ 0 → db.HasTask depend)
    (hrev : revoffileid < 0 → db.HasTask (-revoffileid).toNat)
    (hfile : fileid < 0 → db.HasTask (-fileid).toNat) :
    (unlinkTx env db folderid name fileid revoffileid rfileid depend).2.failed = false := by
  have hdb : ∀ id, db.HasTask id →
      (if fileid < 0 then stopAndDeleteFile env db fileid else db).HasTask id := by
    intro id h
    split
    · exact hasTask_stopAndDeleteFile.mpr h
    · exact h
  unfold unlinkTx
  simp only
  rw [Tx.failed_dependOnName (by simp [Tx.hasTask_insertTask]),
    Tx.failed_dependIf (by simp [Tx.hasTask_insertTask]),
    Tx.failed_dependIf (by simp [Tx.hasTask_insertTask]),
    Tx.failed_dependIf (by simp [Tx.hasTask_insertTask])]
  simp only [Tx.hasTask_dependIf, Tx.hasTask_insertTask, decide_eq_true_eq]
  exact ⟨⟨⟨rfl, fun h => Or.inl (hdb _ (hdepend h))⟩, fun h => Or.inl (hdb _ (hrev h))⟩,
    fun h => Or.inl (hdb _ (hfile h.1))⟩

theorem failed_modifyTx {db : Db} {folderid : FolderId} {name : Name} {fileid : FileId} {hash : Int}
    {encsymkey : Option Bytes} {cr : Option Creat}
    (hfolder : folderid < 0 → db.HasTask (-folderid).toNat)
    (hcr : ∀ c, cr = some c → db.HasTask c.taskid) :
    (modifyTx db folderid name fileid hash encsymkey cr).2.failed = false := by
  unfold modifyTx
  simp only
  rw [Tx.failed_dependIf (by simp [Tx.hasTask_insertTask]),
    Tx.failed_dependOnName (by simp [Tx.hasTask_insertTask]),
    Tx.failed_dependIf (by simp [Tx.hasTask_insertTask])]
  simp only [Tx.hasTask_dependOnName, Tx.hasTask_dependIf, Tx.hasTask_insertTask, decide_eq_true_eq]
  refine ⟨⟨rfl, fun h => Or.inl (hfolder h)⟩, fun h => ?_⟩
  obtain ⟨c, rfl⟩ := Option.isSome_iff_exists.mp h
  exact Or.inl (hcr c rfl)

end PcloudClient.Pfstasks
