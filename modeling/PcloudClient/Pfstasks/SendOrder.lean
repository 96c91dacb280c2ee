/-
  Pfstasks/SendOrder.lean --- the order in which the tasks are sent.

  The upload takes a task when no row of `fstaskdepend` holds it back.  What a step inserts
  waits for the tasks on its names, and goes on waiting until they are finished.
-/
import PcloudClient.Pfstasks.Dependencies

set_option autoImplicit false

namespace PcloudClient.Pfstasks

open State (Inv Held)

/-! ## What the steps do to the database -/

/-- A transaction that was committed. -/
def Committed (tx : Tx) (db' : Db) : Prop := tx.failed = false ∧ db' = tx.db

theorem committed_of_commit {tx : Tx} {commits : Bool} {db : Db} (h : tx.commit commits = some db) :
    Committed tx db := by
  obtain ⟨-, hfailed, hdb⟩ := Tx.commit_eq_some.mp h
  exact ⟨hfailed, hdb.symm⟩

section Steps

variable {st : State} (h : Inv (fun _ => True) st) (env : Env)

/-- The pending file of a name in a folder, but for the static ones. -/
def State.pendingCreat (st : State) (folderid : FolderId) (name : Name) : Option Creat :=
  ((st.getFolderTasksRdlocked folderid).bind fun f => f.findCreat name 0).filter fun cr =>
    cr.fileid ≠ 0

theorem db_mkdir (folderid : FolderId) (name : Name) (flags : UInt32) :
    (mkdir env st folderid name flags).2.db = st.db ∨
      ∃ key, Committed (mkdirTx st.db folderid name key env.time).2
        (mkdir env st folderid name flags).2.db := by
  unfold mkdir
  simp only [State.db_getOrCreateFolderTasks]
  split
  · exact Or.inl (by simp)
  · split
    · exact Or.inl (by simp)
    · split
      · exact Or.inl (by simp)
      · split
        · exact Or.inl (by simp)
        · next hdb => exact Or.inr ⟨_, by simpa using committed_of_commit hdb⟩

theorem db_rmdirTarget (p : Nat) (folderid : FolderId) (name : Name) (mk : Option Mkdir)
    (c : FolderId) :
    (rmdirTarget env st p folderid name mk c).2.db = st.db ∨
      Committed (rmdirTx st.db folderid name c ((mk.map Mkdir.taskid).getD 0)).2
        (rmdirTarget env st p folderid name mk c).2.db := by
  have hdb : ∀ (st : State) (o : Option Mkdir) (g : FolderTasks → FolderTasks),
      (if o.isSome then st.edit p g else st).db = st.db := by
    intro st o g
    split <;> rfl
  unfold rmdirTarget
  simp only [State.db_releaseIf, hdb, State.db_getFolderTasks]
  split
  · exact Or.inl (by simp)
  · split
    · exact Or.inl (by simp [hdb])
    · next db hcommit =>
      refine Or.inr ?_
      simpa using committed_of_commit hcommit

include h in
theorem db_rmdir (folderid : FolderId) (flags : UInt32) (name : Name) :
    (rmdir env st folderid flags name).2.db = st.db ∨
      ∃ c, Committed (rmdirTx st.db folderid name c
        (((st.pendingMkdir folderid name).map Mkdir.taskid).getD 0)).2
          (rmdir env st folderid flags name).2.db := by
  have hfind :=
    find_getOrCreate h folderid (fun f => f.findMkdir name 0) (fun _ _ => rfl) fun _ _ => rfl
  rw [← State.pendingMkdir] at hfind
  unfold rmdir
  simp only [hfind]
  cases st.pendingMkdir folderid name with
  | some mk =>
    rcases db_rmdirTarget env _ folderid name (some mk) mk.folderid with hdb | hc
    · exact Or.inl (hdb.trans (by simp))
    · refine Or.inr ⟨mk.folderid, ?_⟩
      simpa using hc
  | none =>
    dsimp only
    split
    · exact Or.inl (by simp)
    · split
      · exact Or.inl (by simp)
      · split
        · exact Or.inl (by simp)
        · next c _ =>
          rcases db_rmdirTarget env _ folderid name none c with hdb | hc
          · exact Or.inl (hdb.trans (by simp))
          · refine Or.inr ⟨c, ?_⟩
            simpa using hc

@[simp] theorem db_getFileAtOldLocation (st : State) (fileid : FileId) :
    (getFileAtOldLocation env st fileid).2.db = st.db := by
  unfold getFileAtOldLocation
  split
  · rfl
  · split
    · rfl
    · next folderid _ _ =>
      have hdb := State.db_getFolderTasks st folderid
      split
      · next heq =>
        rw [heq] at hdb
        exact hdb
      · next heq =>
        rw [heq] at hdb
        split
        · simpa using hdb
        · split <;> simpa using hdb

theorem db_unlinkTarget (p : Nat) (folderid : FolderId) (name : Name) (fileid : FileId)
    (rfileid depend : Nat) :
    (unlinkTarget env st p folderid name fileid rfileid depend).2.db = st.db ∨
      ∃ revoffileid,
        Committed (unlinkTx env st.db folderid name fileid revoffileid rfileid depend).2
          (unlinkTarget env st p folderid name fileid rfileid depend).2.db := by
  unfold unlinkTarget
  simp only [db_getFileAtOldLocation]
  split
  · exact Or.inl (by simp)
  · next hdb => exact Or.inr ⟨_, by simpa using committed_of_commit hdb⟩

include h in
theorem db_unlink (folderid : FolderId) (name : Name) :
    (unlink env st folderid name).2.db = st.db ∨
      ∃ fileid revoffileid rfileid,
        Committed (unlinkTx env st.db folderid name fileid revoffileid rfileid
          (((st.pendingCreat folderid name).map Creat.taskid).getD 0)).2
          (unlink env st folderid name).2.db := by
  have hfind :=
    find_getOrCreate h folderid (fun f => f.findCreat name 0) (fun _ _ => rfl) fun _ _ => rfl
  unfold unlink
  simp only [hfind, State.pendingCreat]
  cases (st.getFolderTasksRdlocked folderid).bind fun f => f.findCreat name 0 with
  | none =>
    dsimp only
    split
    · next row _ _ =>
      rcases db_unlinkTarget env _ folderid name row.id 0 0 with hdb | ⟨rev, hc⟩
      · exact Or.inl (hdb.trans (by simp))
      · exact Or.inr ⟨_, rev, _, by simpa using hc⟩
    · exact Or.inl (by simp)
  | some cr =>
    dsimp only
    split
    · exact Or.inl (by simp)
    · next hne =>
      rw [Option.filter_some, if_pos (decide_eq_true hne), Option.map_some, Option.getD_some]
      rcases db_unlinkTarget env _ folderid name cr.fileid cr.rfileid cr.taskid with hdb | ⟨rev, hc⟩
      · exact Or.inl (hdb.trans (by simp))
      · rw [State.db_edit, State.db_getOrCreateFolderTasks] at hc
        exact Or.inr ⟨_, rev, _, hc⟩

theorem db_addCreat (p : Nat) (name : Name) (fileid : FileId) (key : Option Bytes) :
    (addCreat env st p name fileid key).2.db = st.db ∨
      Committed (creatTx st.db (st.folder p).folderid name fileid key).2
        (addCreat env st p name fileid key).2.db := by
  unfold addCreat
  simp only
  split
  · exact Or.inl rfl
  · next hdb => exact Or.inr (committed_of_commit hdb)

theorem db_addModifiedFile (p : Nat) (name : Name) (fileid : FileId) (hash : Int)
    (key : Option Bytes) :
    (addModifiedFile env st p name fileid hash key).2.db = st.db ∨
      Committed (modifyTx st.db (st.folder p).folderid name fileid hash key
        ((st.folder p).findCreat name 0)).2
        (addModifiedFile env st p name fileid hash key).2.db := by
  unfold addModifiedFile
  simp only
  split
  · exact Or.inl rfl
  · next hdb => exact Or.inr (committed_of_commit hdb)

theorem db_renameFile (fileid : FileId) (parentfolderid : FolderId) (name : Name)
    (to_folderid : FolderId) (new_name : Option Name) :
    (renameFile env st fileid parentfolderid name to_folderid new_name).2.db = st.db ∨
      ∃ cr db,
        Committed (renameFileTx st.db fileid parentfolderid name to_folderid (new_name.getD name)
          cr).2.2 db ∧
          Alike db (renameFile env st fileid parentfolderid name to_folderid new_name).2.db := by
  unfold renameFile
  simp only [State.db_getOrCreateFolderTasks]
  split
  · exact Or.inl (by simp)
  · next db hdb =>
    refine Or.inr ⟨_, db, committed_of_commit hdb, ?_⟩
    simp only [State.db_releaseFolderTasks, State.db_edit]
    split
    · exact .refl db
    · exact (Alike.stopAndDeleteFile env db _).ite

include h in
theorem db_renameFolder (folderid parentfolderid : FolderId) (name : Name) (to_folderid : FolderId)
    (new_name : Option Name) (flags : UInt32) :
    (renameFolder env st folderid parentfolderid name to_folderid new_name flags).2.db = st.db ∨
      ∃ mk rm,
        Committed (renameFolderTx (deleteFolderIfEx (Tx.start st.db) st to_folderid
          (new_name.getD name)).2.1 rm folderid parentfolderid name to_folderid
          (new_name.getD name) flags mk).2.2
          (renameFolder env st folderid parentfolderid name to_folderid new_name flags).2.db := by
  unfold renameFolder
  simp only [snd_deleteFolderIfEx h]
  split
  · exact Or.inl (by simp)
  · next hdb => exact Or.inr ⟨_, _, by simpa using committed_of_commit hdb⟩

end Steps

section Others

variable (st : State)

@[simp] theorem db_withFolder (folderid : FolderId) (g : FolderTasks → FolderTasks) :
    (st.withFolder folderid g).db = st.db := by
  have hdb := State.db_getFolderTasks st folderid
  unfold State.withFolder
  split
  · next heq =>
    rw [heq] at hdb
    exact hdb
  · next heq =>
    rw [heq] at hdb
    simpa using hdb

@[simp] theorem db_withNewFolder (folderid : FolderId) (g : FolderTasks → FolderTasks) :
    (st.withNewFolder folderid g).db = st.db := by
  unfold State.withNewFolder
  simp

@[simp] theorem db_addLocalCreatStatic (folderid : FolderId) (name : Name) (taskid : Nat) :
    (addLocalCreatStatic st folderid name taskid).db = st.db := by
  unfold addLocalCreatStatic
  dsimp only
  split
  · simp
  · split <;> simp

@[simp] theorem db_folderCreated (parentfolderid : FolderId) (taskid : Nat) (folderid : FolderId)
    (name : Name) : (folderCreated st parentfolderid taskid folderid name).db = st.db := by
  have hlook : ∀ st : State, (lookForMkdirInDb st taskid folderid).db = st.db := by
    intro st
    unfold lookForMkdirInDb
    split
    · rfl
    · exact db_withFolder ..
  have hnumber : ∀ st : State, (renumberFolder st taskid folderid).db = st.db := by
    intro st
    have hdb := State.db_getFolderTasks st (-(taskid : FolderId))
    unfold renumberFolder
    split
    · next heq =>
      rw [heq] at hdb
      exact hdb
    · next heq =>
      rw [heq] at hdb
      rw [State.db_releaseFolderTasks]
      exact hdb
  unfold folderCreated
  simp only [hnumber]
  split
  · rw [hlook, db_withFolder]
  · exact db_withFolder ..

@[simp] theorem db_fileCreated (parentfolderid : FolderId) (taskid : Nat) (name : Name)
    (fileid : FileId) : (fileCreated st parentfolderid taskid name fileid).db = st.db := by
  have hlook : ∀ st : State, (lookForCreatInDb st taskid fileid).db = st.db := by
    intro st
    unfold lookForCreatInDb
    split
    · rfl
    · exact db_withFolder ..
  unfold fileCreated
  dsimp only
  split
  · rw [hlook, db_withFolder]
  · exact db_withFolder ..

theorem db_renamedFrom (del : Name → Nat → FolderTasks → FolderTasks) (frtaskid : Nat) :
    (renamedFrom del st frtaskid).db = deleteFromTask st.db frtaskid := by
  unfold renamedFrom
  dsimp only
  split
  · rfl
  · rw [db_withFolder]

theorem db_fileRenamed (folderid : FolderId) (taskid : Nat) (name : Name) (frtaskid : Nat) :
    (exec st (.fileRenamed folderid taskid name frtaskid)).2.db =
      deleteFromTask st.db frtaskid := by
  refine (db_renamedFrom _ _ _).trans ?_
  rw [db_withFolder]

theorem db_folderRenamed (parentfolderid : FolderId) (taskid : Nat) (name : Name) (frtaskid : Nat) :
    (exec st (.folderRenamed parentfolderid taskid name frtaskid)).2.db =
      deleteFromTask st.db frtaskid := by
  refine (db_renamedFrom _ _ _).trans ?_
  rw [db_withFolder]

@[simp] theorem db_initTask (env : InitEnv) (row : TaskRow) : (initTask env st row).db = st.db := by
  unfold initTask
  split
  · rfl
  · exact db_withNewFolder ..

end Others

/-! ## Runs -/

/-- The rows of one database are in the other. -/
structure Grows (db db' : Db) : Prop where
  task : ∀ id, db.HasTask id → db'.HasTask id
  depend : ∀ d ∈ db.fstaskdepend, d ∈ db'.fstaskdepend

namespace Grows

variable {db db' db'' : Db} {tx : Tx}

theorem refl (db : Db) : Grows db db := ⟨fun _ h => h, fun _ h => h⟩

theorem trans (h : Grows db db') (h' : Grows db' db'') : Grows db db'' :=
  ⟨fun id hid => h'.task id (h.task id hid), fun d hd => h'.depend d (h.depend d hd)⟩

theorem ofAlike (h : Alike db db') : Grows db db' :=
  ⟨fun _ => h.hasTask.mpr, fun _ hd => h.depend ▸ hd⟩

theorem start (db : Db) : Grows db (Tx.start db).db := refl db

theorem insertTask (h : Grows db tx.db) (row : TaskRow) : Grows db (tx.insertTask row).2.db :=
  h.trans ⟨fun _ hid => (Tx.hasTask_insertTask tx row).mpr (Or.inl hid), fun _ hd => hd⟩

theorem dependIf (h : Grows db tx.db) (c : Bool) (taskid id : Nat) :
    Grows db (tx.dependIf c taskid id).db :=
  h.trans ⟨fun _ => Tx.hasTask_dependIf.mpr, fun _ => Tx.sub_dependIf⟩

theorem dependAll (h : Grows db tx.db) (taskid : Nat) (ids : List Nat) :
    Grows db (tx.dependAll taskid ids).db :=
  h.trans ⟨fun _ => Tx.hasTask_dependAll.mpr, fun _ => Tx.sub_dependAll⟩

theorem alike (h : Grows db db') (halike : Alike db' db'') : Grows db db'' :=
  h.trans (ofAlike halike)

end Grows

theorem grows_mkdirTx (db : Db) (folderid : FolderId) (name : Name) (key : Option Bytes)
    (ctime : Nat) :
    Grows db (mkdirTx db folderid name key ctime).2.db :=
  (((Grows.start db).insertTask _).dependIf _ _ _).dependAll _ _

theorem grows_rmdirTx (db : Db) (folderid : FolderId) (name : Name) (c : FolderId) (depend : Nat) :
    Grows db (rmdirTx db folderid name c depend).2.db :=
  ((((Grows.start db).insertTask _).dependIf _ _ _).dependAll _ _).dependAll _ _

theorem grows_creatTx (db : Db) (folderid : FolderId) (name : Name) (fileid : FileId)
    (key : Option Bytes) : Grows db (creatTx db folderid name fileid key).2.db :=
  (((Grows.start db).insertTask _).dependIf _ _ _).dependAll _ _

theorem grows_modifyTx (db : Db) (folderid : FolderId) (name : Name) (fileid : FileId) (hash : Int)
    (key : Option Bytes) (cr : Option Creat) :
    Grows db (modifyTx db folderid name fileid hash key cr).2.db :=
  ((((Grows.start db).insertTask _).dependIf _ _ _).dependAll _ _).dependIf _ _ _

theorem grows_unlinkTx (env : Env) (db : Db) (folderid : FolderId) (name : Name)
    (fileid revoffileid : FileId) (rfileid depend : Nat) :
    Grows db (unlinkTx env db folderid name fileid revoffileid rfileid depend).2.db := by
  have halike := (Alike.stopAndDeleteFile env db fileid).ite (c := fileid < 0)
  exact (Grows.ofAlike halike).trans ((((((Grows.start _).insertTask _).dependIf _ _ _).dependIf
    _ _ _).dependIf _ _ _).dependAll _ _)

theorem grows_renameFileTx (db : Db) (fileid : FileId) (parentfolderid : FolderId) (name : Name)
    (to_folderid : FolderId) (new_name : Name) (cr : Option Creat) :
    Grows db (renameFileTx db fileid parentfolderid name to_folderid new_name cr).2.2.db := by
  refine Grows.dependIf (Grows.dependAll (Grows.dependAll (Grows.dependIf (Grows.dependIf
    (Grows.dependIf ?_ _ _ _) _ _ _) _ _ _) _ _) _ _) _ _ _
  have hboth := ((Grows.start db).insertTask
    (.new .renfileFrom 10 parentfolderid name none (some fileid))).insertTask
      (.new .renfileTo 0 to_folderid new_name none (some fileid) none (some db.nextTaskid)
        (some ((cr.map Creat.rfileid).getD 0)))
  split
  · exact hboth.alike (.setSfolderid _ _ _)
  · exact hboth

theorem grows_renameFolderTx {st : State} (h : Inv (fun _ => True) st) {rm : Nat}
    {folderid parentfolderid : FolderId} {name : Name} {to_folderid : FolderId} {new_name : Name}
    {flags : UInt32} {mk : Option Mkdir} {tx₀ : Tx}
    (htx₀ : tx₀ = (deleteFolderIfEx (Tx.start st.db) st to_folderid new_name).2.1) :
    Grows st.db (renameFolderTx tx₀ rm folderid parentfolderid name to_folderid new_name flags
      mk).2.2.db := by
  have hstart : Grows st.db tx₀.db := by
    rcases tx_deleteFolderIfEx h (Tx.start st.db) to_folderid new_name with heq |
      ⟨c, depend, -, heq⟩
    · rw [htx₀, heq]
      exact .start st.db
    · rw [htx₀, heq]
      exact (((Grows.start st.db).insertTask _).dependIf _ _ _).dependIf _ _ _
  refine Grows.dependIf (Grows.dependAll (Grows.dependAll (Grows.dependIf (Grows.dependIf
    (Grows.dependIf (Grows.dependIf ?_ _ _ _) _ _ _) _ _ _) _ _ _) _ _) _ _) _ _ _
  have hboth :=
    (hstart.insertTask (.new .renfolderFrom 10 parentfolderid name (some folderid))).insertTask
    (.new .renfolderTo 0 to_folderid new_name (some folderid) none none (some tx₀.db.nextTaskid)
      (some flags.toNat))
  split
  · exact hboth.alike (.setSfolderid _ _ _)
  · exact hboth

/-- The steps that take rows away, and those of another part of the client. -/
def Removes : Op → Prop
  | .fileRenamed .. => True
  | .folderRenamed .. => True
  | .sql _ => True
  | _ => False

/-- The other steps only add rows. -/
theorem grows_exec {st : State} (h : Inv (fun _ => True) st) {op : Op} (hop : ¬Removes op) :
    Grows st.db (exec st op).2.db := by
  have hsame : ∀ {db : Db}, db = st.db → Grows st.db db := fun heq => heq ▸ .refl _
  cases op with
  | mkdir env folderid name flags =>
    rcases db_mkdir env folderid name flags with heq | ⟨key, -, heq⟩
    · exact hsame heq
    · exact heq ▸ grows_mkdirTx ..
  | rmdir env folderid flags name =>
    rcases db_rmdir h env folderid flags name with heq | ⟨c, -, heq⟩
    · exact hsame heq
    · exact heq ▸ grows_rmdirTx ..
  | addCreat env p name fileid key =>
    rcases db_addCreat env p name fileid key with heq | ⟨-, heq⟩
    · exact hsame heq
    · exact heq ▸ grows_creatTx ..
  | addModifiedFile env p name fileid hash key =>
    rcases db_addModifiedFile env p name fileid hash key with heq | ⟨-, heq⟩
    · exact hsame heq
    · exact heq ▸ grows_modifyTx ..
  | unlink env folderid name =>
    rcases db_unlink h env folderid name with heq | ⟨fileid, rev, rfileid, -, heq⟩
    · exact hsame heq
    · exact heq ▸ grows_unlinkTx ..
  | renameFile env fileid parentfolderid name to_folderid new_name =>
    rcases db_renameFile env fileid parentfolderid name to_folderid new_name with
      heq | ⟨cr, db, ⟨-, rfl⟩, halike⟩
    · exact hsame heq
    · exact (grows_renameFileTx ..).alike halike
  | renameFolder env folderid parentfolderid name to_folderid new_name flags =>
    rcases db_renameFolder h env folderid parentfolderid name to_folderid new_name flags with
      heq | ⟨mk, rm, -, heq⟩
    · exact hsame heq
    · exact heq ▸ grows_renameFolderTx h rfl
  | injectCreat p cr => exact .refl _
  | injectUnlink peek p un => exact .refl _
  | addLocalCreatStatic folderid name taskid => exact hsame (db_addLocalCreatStatic ..)
  | folderCreated parentfolderid taskid folderid name => exact hsame (db_folderCreated ..)
  | folderDeleted parentfolderid taskid name => exact hsame (db_withFolder ..)
  | fileCreated parentfolderid taskid name fileid => exact hsame (db_fileCreated ..)
  | fileModified parentfolderid taskid name fileid => exact hsame (db_fileCreated ..)
  | fileDeleted parentfolderid taskid name => exact hsame (db_withFolder ..)
  | initTask env row => exact hsame (db_initTask ..)
  | addBannedFolder folderid name => exact hsame (db_withNewFolder ..)
  | dropCreat p name taskid => exact .refl _
  | dropUnlink p name taskid => exact .refl _
  | take folderid => exact hsame (State.db_getOrCreateFolderTasks ..)
  | release p => exact hsame (State.db_releaseFolderTasks ..)
  | fileRenamed folderid taskid name frtaskid => exact absurd trivial hop
  | folderRenamed parentfolderid taskid name frtaskid => exact absurd trivial hop
  | sql db => exact absurd trivial hop

/-- The steps in which the task `t` is not taken away and the task `id` it waits for is not
finished. -/
def Unfinished (t id : Nat) (_ : State) : Op → Prop
  | .fileRenamed _ _ _ frtaskid => frtaskid ≠ t ∧ frtaskid ≠ id
  | .folderRenamed _ _ _ frtaskid => frtaskid ≠ t ∧ frtaskid ≠ id
  | .sql db => db.HasTask t ∧ db.HasTask id ∧ (t, id) ∈ db.fstaskdepend
  | _ => True

/-- The task `t` waits for the task `id`. -/
structure HeldBack (t id : Nat) (db : Db) : Prop where
  task : db.HasTask t
  other : db.HasTask id
  depend : (t, id) ∈ db.fstaskdepend

theorem Grows.heldBack {t id : Nat} {db db' : Db} (hgrows : Grows db db') (h : HeldBack t id db) :
    HeldBack t id db' :=
  ⟨hgrows.task t h.task, hgrows.task id h.other, hgrows.depend _ h.depend⟩

theorem heldBack_deleteFromTask {t id frtaskid : Nat} {db : Db} (h : HeldBack t id db)
    (ht : frtaskid ≠ t) (hid : frtaskid ≠ id) : HeldBack t id (deleteFromTask db frtaskid) := by
  have hrow : ∀ {i}, frtaskid ≠ i → db.HasTask i → (deleteFromTask db frtaskid).HasTask i := by
    rintro i hne ⟨row, hrow, rfl⟩
    exact ⟨row, List.mem_filter.mpr ⟨hrow, by simpa using hne.symm⟩, rfl⟩
  have hany : ∀ {i}, (deleteFromTask db frtaskid).HasTask i →
      (deleteFromTask db frtaskid).fstask.any (fun row => row.id = i) = true := by
    rintro i ⟨row, hmem, rfl⟩
    exact List.any_eq_true.mpr ⟨row, hmem, decide_eq_true rfl⟩
  refine ⟨hrow ht h.task, hrow hid h.other, ?_⟩
  refine List.mem_filter.mpr ⟨List.mem_filter.mpr ⟨h.depend, by simpa using hid.symm⟩, ?_⟩
  rw [Bool.and_eq_true]
  exact ⟨hany (hrow ht h.task), hany (hrow hid h.other)⟩

/-- A step in which neither task ends. -/
theorem heldBack_exec {st : State} (h : Inv (fun _ => True) st) {t id : Nat} {op : Op}
    (hop : Unfinished t id st op) (hheld : HeldBack t id st.db) :
    HeldBack t id (exec st op).2.db := by
  by_cases hremoves : Removes op
  · cases op with
    | fileRenamed folderid taskid name frtaskid =>
      rw [db_fileRenamed]
      exact heldBack_deleteFromTask hheld hop.1 hop.2
    | folderRenamed parentfolderid taskid name frtaskid =>
      rw [db_folderRenamed]
      exact heldBack_deleteFromTask hheld hop.1 hop.2
    | sql db => exact ⟨hop.1, hop.2.1, hop.2.2⟩
    | _ => exact hremoves.elim
  · exact (grows_exec h hremoves).heldBack hheld

theorem inv_exec_true {st : State} (h : Inv (fun _ => True) st) {op : Op} (hop : Allowed st op) :
    Inv (fun _ => True) (exec st op).2 := by
  refine inv_exec stable_true h hop (fun env folderid flags name heq => ?_)
    (fun peek p un heq => ?_) fun env row heq => ?_
  · exact inv_rmdir stable_true env (fun _ _ _ => trivial)
      (fun _ _ _ => trivial) h folderid flags name
  · subst heq
    exact h.edit hop.1 (FolderTasks.sound_addUnlinkBy peek un).keeps fun _ _ => trivial
  · unfold initTask
    split
    · exact h
    · next g hg =>
      exact Inv.withNewFolder stable_true h row.folderid (initTask_edit env st.db row hg).1.keeps
        fun _ _ => trivial

/-- A task is not sent while a task it waits for is not finished. -/
theorem not_sendable_of_run {st st' : State} (h : Inv (fun _ => True) st) {t id : Nat}
    (hheld : HeldBack t id st.db) (hrun : Run (Unfinished t id) st st') : ¬Sendable st'.db t := by
  have hboth : Inv (fun _ => True) st' ∧ HeldBack t id st'.db := by
    induction hrun with
    | refl => exact ⟨h, hheld⟩
    | tail _ hlast ih =>
      obtain ⟨op, hop, hcond, rfl⟩ := hlast
      exact ⟨inv_exec_true ih.1 hop, heldBack_exec ih.1 hcond ih.2⟩
  exact fun hsend => hsend.2 _ hboth.2.depend rfl

/-! ## New tasks -/

/-- What a new task of a step waits for: the tasks on its names, and the tasks that make its
folders.  A removal waits for the task of what it removes, if that is pending, and has no folder of
its own to wait for; a rename is sent as the task of the new name. -/
def Waits (st : State) (db' : Db) (row : TaskRow) : Op → Prop
  | .mkdir _ folderid name _ =>
    WaitsOn st.db db' row folderid name ∧ AwaitsMkdir db' row.id folderid
  | .addCreat _ p name _ _ =>
    WaitsOn st.db db' row (st.folder p).folderid name ∧
      AwaitsMkdir db' row.id (st.folder p).folderid
  | .addModifiedFile _ p name _ _ _ =>
    WaitsOn st.db db' row (st.folder p).folderid name ∧
      AwaitsMkdir db' row.id (st.folder p).folderid
  | .rmdir _ folderid _ name => WaitsOn st.db db' row folderid name ∧
      ∀ mk, st.pendingMkdir folderid name = some mk → mk.taskid ≠ 0 →
        (row.id, mk.taskid) ∈ db'.fstaskdepend
  | .unlink _ folderid name => WaitsOn st.db db' row folderid name ∧
      ∀ cr, st.pendingCreat folderid name = some cr → cr.taskid ≠ 0 →
        (row.id, cr.taskid) ∈ db'.fstaskdepend
  | .renameFile _ _ parentfolderid name to_folderid new_name => row.type = .renfileTo →
      (Awaits st.db db' row.id parentfolderid name ∧
        Awaits st.db db' row.id to_folderid (new_name.getD name)) ∧
      AwaitsMkdir db' row.id parentfolderid ∧ AwaitsMkdir db' row.id to_folderid
  | .renameFolder _ folderid parentfolderid name to_folderid new_name _ =>
      (row.type = .renfolderTo → Awaits st.db db' row.id parentfolderid name ∧
        AwaitsMkdir db' row.id folderid ∧ AwaitsMkdir db' row.id parentfolderid ∧
        AwaitsMkdir db' row.id to_folderid) ∧
      (row.type = .rmdir → ∀ target,
        st.pendingMkdir to_folderid (new_name.getD name) = some target →
        target.taskid ≠ 0 → (row.id, target.taskid) ∈ db'.fstaskdepend)
  | _ => False

theorem not_newRow {db db' : Db} {row : TaskRow} (heq : db' = db) : ¬NewRow db db' row :=
  fun hnew => hnew.2 ⟨row, heq ▸ hnew.1, rfl⟩

theorem waits_exec {st : State} (h : Inv (fun _ => True) st) {op : Op} (hsql : ∀ db, op ≠ .sql db)
    {row : TaskRow} (hnew : NewRow st.db (exec st op).2.db row) :
    Waits st (exec st op).2.db row op := by
  cases op with
  | mkdir env folderid name flags =>
    rcases db_mkdir env folderid name flags with heq | ⟨key, hok, heq⟩
    · exact absurd hnew (not_newRow heq)
    · simp only [exec, Waits] at hnew ⊢
      rw [heq] at hnew ⊢
      exact mkdirTx_waits hok hnew
  | rmdir env folderid flags name =>
    rcases db_rmdir h env folderid flags name with heq | ⟨c, hok, heq⟩
    · exact absurd hnew (not_newRow heq)
    · simp only [exec, Waits] at hnew ⊢
      rw [heq] at hnew ⊢
      obtain ⟨hname, hmk⟩ := rmdirTx_waits hok hnew
      refine ⟨hname, fun mk hpending hne => ?_⟩
      have hdepend : ((st.pendingMkdir folderid name).map Mkdir.taskid).getD 0 = mk.taskid := by
        rw [hpending]
        rfl
      rw [← hdepend]
      exact hmk (hdepend ▸ hne)
  | addCreat env p name fileid key =>
    rcases db_addCreat env p name fileid key with heq | ⟨hok, heq⟩
    · exact absurd hnew (not_newRow heq)
    · simp only [exec, Waits] at hnew ⊢
      rw [heq] at hnew ⊢
      exact creatTx_waits hok hnew
  | addModifiedFile env p name fileid hash key =>
    rcases db_addModifiedFile env p name fileid hash key with heq | ⟨hok, heq⟩
    · exact absurd hnew (not_newRow heq)
    · simp only [exec, Waits] at hnew ⊢
      rw [heq] at hnew ⊢
      exact modifyTx_waits hok hnew
  | unlink env folderid name =>
    rcases db_unlink h env folderid name with heq | ⟨fileid, rev, rfileid, hok, heq⟩
    · exact absurd hnew (not_newRow heq)
    · simp only [exec, Waits] at hnew ⊢
      rw [heq] at hnew ⊢
      obtain ⟨hname, hcr⟩ := unlinkTx_waits hok hnew
      refine ⟨hname, fun cr hpending hne => ?_⟩
      have hdepend : ((st.pendingCreat folderid name).map Creat.taskid).getD 0 = cr.taskid := by
        rw [hpending]
        rfl
      rw [← hdepend]
      exact hcr (hdepend ▸ hne)
  | renameFile env fileid parentfolderid name to_folderid new_name =>
    rcases db_renameFile env fileid parentfolderid name to_folderid new_name with
      heq | ⟨cr, db, ⟨hok, rfl⟩, halike⟩
    · exact absurd hnew (not_newRow heq)
    · intro htype
      obtain ⟨r, hr, hsame⟩ := halike.old row hnew.1
      have hwaits :=
        renameFileTx_waits rfl hok ⟨hr, hsame.id ▸ hnew.2⟩ (hsame.type.symm.trans htype)
      rw [hsame.id]
      simp only [exec, Awaits, AwaitsMkdir, halike.depend]
      exact hwaits
  | renameFolder env folderid parentfolderid name to_folderid new_name flags =>
    rcases db_renameFolder h env folderid parentfolderid name to_folderid new_name flags with
      heq | ⟨mk, rm, hok, heq⟩
    · exact absurd hnew (not_newRow heq)
    · simp only [exec, Waits] at hnew ⊢
      rw [heq] at hnew ⊢
      exact renameFolderTx_waits h rfl rfl hok hnew
  | injectCreat p cr => exact not_newRow rfl hnew
  | injectUnlink peek p un => exact not_newRow rfl hnew
  | addLocalCreatStatic folderid name taskid => exact not_newRow (db_addLocalCreatStatic ..) hnew
  | folderCreated parentfolderid taskid folderid name => exact not_newRow (db_folderCreated ..) hnew
  | folderDeleted parentfolderid taskid name => exact not_newRow (db_withFolder ..) hnew
  | fileCreated parentfolderid taskid name fileid => exact not_newRow (db_fileCreated ..) hnew
  | fileModified parentfolderid taskid name fileid => exact not_newRow (db_fileCreated ..) hnew
  | fileDeleted parentfolderid taskid name => exact not_newRow (db_withFolder ..) hnew
  | initTask env row => exact not_newRow (db_initTask ..) hnew
  | addBannedFolder folderid name => exact not_newRow (db_withNewFolder ..) hnew
  | dropCreat p name taskid => exact not_newRow rfl hnew
  | dropUnlink p name taskid => exact not_newRow rfl hnew
  | take folderid => exact not_newRow (State.db_getOrCreateFolderTasks ..) hnew
  | release p => exact not_newRow (State.db_releaseFolderTasks ..) hnew
  | fileRenamed folderid taskid name frtaskid =>
    rw [db_fileRenamed] at hnew
    exact hnew.2 ⟨row, (List.mem_filter.mp hnew.1).1, rfl⟩
  | folderRenamed parentfolderid taskid name frtaskid =>
    rw [db_folderRenamed] at hnew
    exact hnew.2 ⟨row, (List.mem_filter.mp hnew.1).1, rfl⟩
  | sql db => exact absurd rfl (hsql db)

/-- In every run, a new task waits for the unfinished tasks on its names and for the tasks that
make its folders, and it is not sent before a task it waits for is finished. -/
theorem new_task_waits {db : Db} {st : State} (hrun : Run (fun _ _ => True) (start db) st) {op : Op}
    (hop : Allowed st op) (hsql : ∀ db, op ≠ .sql db) {row : TaskRow}
    (hnew : NewRow st.db (exec st op).2.db row) :
    Waits st (exec st op).2.db row op ∧
      ∀ earlier ∈ st.db.fstask, (row.id, earlier.id) ∈ (exec st op).2.db.fstaskdepend →
        ∀ st', Run (Unfinished row.id earlier.id) (exec st op).2 st' → ¬Sendable st'.db row.id := by
  have h : Inv (fun _ => True) st :=
    Run.inv (fun _ _ h hop _ => inv_exec_true h hop) (inv_start _ db) hrun
  refine ⟨waits_exec h hsql hnew, fun earlier hearlier hdepend st' hlater => ?_⟩
  have hthere : (exec st op).2.db.HasTask earlier.id := by
    by_cases hremoves : Removes op
    · have hwaits := waits_exec h hsql hnew
      cases op with
      | fileRenamed folderid taskid name frtaskid => exact hwaits.elim
      | folderRenamed parentfolderid taskid name frtaskid => exact hwaits.elim
      | sql db => exact absurd rfl (hsql db)
      | _ => exact hremoves.elim
    · exact (grows_exec h hremoves).task _ ⟨earlier, hearlier, rfl⟩
  exact not_sendable_of_run (inv_exec_true h hop) ⟨⟨row, hnew.1, rfl⟩, hthere, hdepend⟩ hlater

/-- A user makes the folder `a` and the folder `b` in it. -/
def folderInFolder : List Op := [.mkdir plainEnv 0 [97] 0, .mkdir plainEnv (-1) [98] 0]

theorem run_folderInFolder :
    Run (fun _ _ => True) (start emptyDb) (after (start emptyDb) folderInFolder) :=
  .tail (.tail .refl ⟨.mkdir plainEnv 0 [97] 0, trivial, trivial, rfl⟩)
    ⟨.mkdir plainEnv (-1) [98] 0, trivial, trivial, rfl⟩

/-- The task that removes `b` again. -/
def removeFolder : TaskRow :=
  { TaskRow.new .rmdir 0 (-1) [98] (some (-2)) with id := 3 }

theorem newRow_removeFolder : NewRow (after (start emptyDb) folderInFolder).db
    (exec (after (start emptyDb) folderInFolder) (.rmdir plainEnv (-1) 0 [98])).2.db removeFolder :=
  ⟨by decide, by
    rw [← Db.isNone_findTask]
    decide⟩

/-- It is not sent before `b` is made. -/
theorem new_task_waits_removeFolder :
    WaitsOn (after (start emptyDb) folderInFolder).db
      (exec (after (start emptyDb) folderInFolder) (.rmdir plainEnv (-1) 0 [98])).2.db removeFolder
        (-1) [98] ∧
      ¬Sendable (exec (after (start emptyDb) folderInFolder) (.rmdir plainEnv (-1) 0 [98])).2.db
        3 := by
  have hallowed :
      Allowed (after (start emptyDb) folderInFolder) (.rmdir plainEnv (-1) 0 [98]) := trivial
  have hb : { TaskRow.new .mkdir 0 (-1) [98] (some (-1)) none none (some 0) with id := 2 } ∈
      (after (start emptyDb) folderInFolder).db.fstask := by decide
  obtain ⟨hwaits, hsend⟩ := new_task_waits run_folderInFolder hallowed (fun _ => nofun)
    newRow_removeFolder
  exact ⟨hwaits.1, hsend _ hb (by decide) _ .refl⟩

/-- It has the folder `a`, and waits for the task that makes `b` but not for the one that makes
`a`. -/
theorem rmdir_no_parent :
    Run (fun _ _ => True) (start emptyDb) (after (start emptyDb) folderInFolder) ∧
      NewRow (after (start emptyDb) folderInFolder).db
        (exec (after (start emptyDb) folderInFolder) (.rmdir plainEnv (-1) 0 [98])).2.db
          removeFolder ∧
      removeFolder.folderid < 0 ∧
      ¬AwaitsMkdir (exec (after (start emptyDb) folderInFolder) (.rmdir plainEnv (-1) 0 [98])).2.db
        removeFolder.id removeFolder.folderid := by
  refine ⟨run_folderInFolder, newRow_removeFolder, by decide, fun hawaits => ?_⟩
  exact absurd (hawaits (by decide)) (by decide)

end PcloudClient.Pfstasks
