/-
  Pfstasks/Accounting.lean --- the counters of the folders, and what a failed call leaves.

  A removal of a pending folder takes it from the counter before it knows that the folder
  is empty, and three operations take an entry out of its tree before their transaction
  commits.  Where none of this happens, the counters are right and a call that fails
  changes nothing.
-/
import PcloudClient.Pfstasks.Checks
import PcloudClient.Pfstasks.Runs

set_option autoImplicit false

namespace PcloudClient.Pfstasks

open State (Inv Held Same)

/-- The row of the pending entry of `name` that the new task is to depend on, and that of the
folder, are there, and `COMMIT` succeeds. -/
structure ModifyCommits (env : Env) (st : State) (p : Nat) (name : Name) : Prop where
  commits : env.commits = true
  folder : (st.folder p).folderid < 0 → st.db.HasTask (-(st.folder p).folderid).toNat
  creat : ∀ cr, (st.folder p).findCreat name 0 = some cr → st.db.HasTask cr.taskid

/-- The steps that do not meet the defects: a pending folder that is removed is empty, and the
transactions commit that come after an entry is taken out. -/
def Undisturbed (st : State) : Op → Prop
  | .rmdir env folderid _ name => ∀ f mk, st.getFolderTasksRdlocked folderid = some f →
      f.findMkdir name 0 = some mk →
      notEmpty st.db (st.getFolderTasksRdlocked mk.folderid) mk.folderid = false ∧
        RmdirCommits env st folderid name
  | .addModifiedFile env p name _ _ _ => ∀ cr, (st.folder p).findCreat name 0 = some cr →
      ModifyCommits env st p name
  | .unlink env folderid name => ∀ f cr, st.getFolderTasksRdlocked folderid = some f →
      f.findCreat name 0 = some cr → cr.fileid ≠ 0 → UnlinkCommits env st folderid name
  | _ => True

section Steps

variable {P : FolderTasks → Prop} (hP : Stable P) {st : State} {p : Nat}

theorem Inv.forget (h : Inv P st) : Inv (fun _ => True) st := h.imp fun _ _ _ => trivial

/-! ## Counters -/

/-- The folder at `p` has one entry more than it counts, the pending folder `name`. -/
def Owes (p : Nat) (name : Name) (f : FolderTasks) : Prop :=
  if f.addr = p then
    f.taskscnt + 1 = f.nodes ∧ (searchTree Mkdir.name Mkdir.taskid f.mkdirs name 0).isSome
  else f.Counted

theorem Owes.cutMkdir {name : Name} {f : FolderTasks} (hp : f.addr = p) (h : Owes p name f) :
    (f.cutMkdir name 0).Counted := by
  rw [Owes, if_pos hp] at h
  obtain ⟨hcount, hsome⟩ := h
  obtain ⟨i, hi⟩ := Option.isSome_iff_exists.mp hsome
  have hsize := size_delAt hi
  simp only [FolderTasks.cutMkdir, hi]
  unfold FolderTasks.Counted FolderTasks.nodes
  unfold FolderTasks.nodes at hcount
  simp only
  push_cast at hcount ⊢
  omega

/-- The folder at `p` once the pending folder `name` is taken from its counter. -/
theorem Inv.owes_minus (h : Inv FolderTasks.Counted st) (hp : Held st p 1) {name : Name}
    {mk : Mkdir}
    (hmk : (st.folder p).findMkdir name 0 = some mk) :
    Inv (Owes p name) (st.edit p fun f => { f with taskscnt := f.taskscnt - 1 }) := by
  refine h.edit' hp (fun _ => ⟨rfl, rfl⟩) (fun x _ hne hx => ?_) fun x hx hxp hcount => ?_
  · rw [Owes, if_neg hne]
    exact hx
  · have hxmk : x.findMkdir name 0 = some mk := by
      rw [← h.folder hx, hxp]
      exact hmk
    obtain ⟨i, hi, -⟩ := Option.bind_eq_some_iff.mp hxmk
    rw [Owes, if_pos hxp]
    refine ⟨?_, Option.isSome_iff_exists.mpr ⟨i, hi⟩⟩
    unfold FolderTasks.Counted at hcount
    simp only [FolderTasks.nodes] at hcount ⊢
    omega

/-- A removal keeps the counters where a pending folder that is removed is empty. -/
theorem counted_rmdir (env : Env) (h : Inv FolderTasks.Counted st) (folderid : FolderId)
    (parentflags : UInt32) (name : Name)
    (hempty : ∀ f mk, st.getFolderTasksRdlocked folderid = some f → f.findMkdir name 0 = some mk →
      notEmpty st.db (st.getFolderTasksRdlocked mk.folderid) mk.folderid = false) :
    Inv FolderTasks.Counted (rmdir env st folderid parentflags name).2 := by
  obtain ⟨hinv, hheld⟩ := Inv.take stable_counted h folderid
  have hmk := find_getOrCreate (Inv.forget h) folderid (fun f => f.findMkdir name 0)
    (fun _ _ => rfl)
    fun _ _ => rfl
  cases hfind : (st.getFolderTasksRdlocked folderid).bind fun f => f.findMkdir name 0 with
  | none =>
    unfold rmdir
    simp only [hmk, hfind]
    split
    · exact Inv.put stable_counted hinv hheld
    · split
      · exact Inv.put stable_counted hinv hheld
      · split
        · exact Inv.put stable_counted hinv hheld
        · exact inv_rmdirTarget_none stable_counted env hinv hheld folderid name _
  | some mk =>
    obtain ⟨f, hf, hfmk⟩ := Option.bind_eq_some_iff.mp hfind
    have hempty := hempty f mk hf hfmk
    let p := (st.getOrCreateFolderTasks folderid).1
    let minus : FolderTasks → FolderTasks := fun f => { f with taskscnt := f.taskscnt - 1 }
    have hkeeps : Keeps minus := fun _ => ⟨rfl, rfl⟩
    have howes : Inv (Owes p name) ((st.getOrCreateFolderTasks folderid).2.edit p minus) :=
      Inv.owes_minus hinv hheld (hmk.trans hfind)
    have hsame : ∀ db, notEmpty db (((st.getOrCreateFolderTasks folderid).2.edit p
        minus).getFolderTasksRdlocked mk.folderid) mk.folderid =
        notEmpty db (st.getFolderTasksRdlocked mk.folderid) mk.folderid := by
      intro db
      rw [notEmpty_edit (g := minus) (fun _ => rfl) (fun _ => ⟨rfl, rfl, rfl, rfl⟩),
        State.getOrCreateFolderTasks_some hf]
      exact notEmpty_getRef f.addr db mk.folderid
    unfold rmdir
    simp only [hmk, hfind]
    refine inv_rmdirTarget_some stable_counted env ?_ howes (hheld.edit hkeeps p) folderid name mk
      mk.folderid (fun x hp hx => hx.cutMkdir hp) (fun x hne hx => ?_) fun hbusy => ?_
    · exact fun x r hx => hx
    · rw [Owes, if_neg hne] at hx
      exact hx
    · rw [notEmpty_getFolderTasks (Inv.forget howes), hsame, State.db_edit,
        State.db_getOrCreateFolderTasks, hempty] at hbusy
      exact absurd hbusy Bool.false_ne_true

/-! ## Calls that fail -/

/-- A call that returned an error has left the folders and the database as they were. -/
def Atomic (st : State) (r : Option Errno × State) : Prop := r.1.isSome → Same r.2 st

theorem atomic_none (st st' : State) : Atomic st (none, st') := nofun

theorem atomic_of_same {st' : State} (h : Same st' st) (e : Option Errno) : Atomic st (e, st') :=
  fun _ => h

theorem atomic_of_fst {r : Option Errno × State} (h : r.1 = none) : Atomic st r := by
  intro hsome
  rw [h] at hsome
  exact nomatch hsome

section Errors

include hP

/-- A call that takes a folder and only releases it. -/
theorem same_release (h : Inv P st) (folderid : FolderId) :
    Same ((st.getOrCreateFolderTasks folderid).2.releaseFolderTasks
      (st.getOrCreateFolderTasks folderid).1) st :=
  h.release_getOrCreate hP.refFree hP.new folderid

theorem atomic_mkdir (h : Inv P st) (env : Env) (folderid : FolderId) (name : Name)
    (flags : UInt32) : Atomic st (mkdir env st folderid name flags) := by
  have hsame := atomic_of_same (same_release hP h folderid)
  unfold mkdir
  simp only
  split
  · exact hsame _
  · split
    · exact hsame _
    · split
      · exact hsame _
      · split
        · exact hsame _
        · exact atomic_none _ _

omit hP in
/-- A removal of a folder that the database has. -/
theorem atomic_rmdirTarget_none {st' : State} (h : Inv P st') (env : Env)
    (hsame : Same (st'.releaseFolderTasks p) st) (folderid : FolderId) (name : Name)
    (c : FolderId) :
    Atomic st (rmdirTarget env st' p folderid name none c) := by
  unfold rmdirTarget
  simp only [Option.isSome_none, Bool.false_eq_true, if_false, h.releaseIf_getFolderTasks]
  split
  · exact atomic_of_same hsame _
  · split
    · exact atomic_of_same hsame _
    · exact atomic_none _ _

theorem atomic_rmdir (h : Inv P st) {env : Env} {folderid : FolderId} {flags : UInt32} {name : Name}
    (hop : Undisturbed st (.rmdir env folderid flags name)) :
    Atomic st (rmdir env st folderid flags name) := by
  have hsame := same_release hP h folderid
  obtain ⟨hinv, hheld⟩ := Inv.take hP h folderid
  have hmk := find_getOrCreate (Inv.forget h) folderid (fun f => f.findMkdir name 0)
    (fun _ _ => rfl)
    fun _ _ => rfl
  unfold rmdir
  simp only [hmk]
  cases hfind : (st.getFolderTasksRdlocked folderid).bind fun f => f.findMkdir name 0 with
  | some mk =>
    obtain ⟨f, hf, hfmk⟩ := Option.bind_eq_some_iff.mp hfind
    obtain ⟨hempty, hcommits⟩ := hop f mk hf hfmk
    let minus : FolderTasks → FolderTasks := fun f => { f with taskscnt := f.taskscnt - 1 }
    have hminus :=
      (Inv.forget hinv).edit (g := minus) hheld (fun _ => ⟨rfl, rfl⟩) fun _ _ => trivial
    refine atomic_of_fst ((rmdirTarget_fst hminus (State.db_getOrCreateFolderTasks st folderid) ?_
      hcommits.commits fun m hm hne => ?_).trans ?_)
    · rw [notEmpty_edit (g := minus) (fun _ => rfl) (fun _ => ⟨rfl, rfl, rfl, rfl⟩),
        State.getOrCreateFolderTasks_some hf]
      exact notEmpty_getRef f.addr st.db mk.folderid
    · obtain rfl := Option.some.inj hm
      exact hcommits.mkdir f mk hf hfmk hne
    · rw [emptied, hempty]
      rfl
  | none =>
    simp only
    split
    · exact atomic_of_same hsame _
    · split
      · exact atomic_of_same hsame _
      · split
        · exact atomic_of_same hsame _
        · exact atomic_rmdirTarget_none hinv env hsame folderid name _

omit hP in
theorem atomic_unlinkTarget {st' : State} (h : Inv P st') (env : Env)
    (hsame : Same (st'.releaseFolderTasks p) st) (folderid : FolderId) (name : Name)
    (fileid : FileId) (rfileid depend : Nat) :
    Atomic st (unlinkTarget env st' p folderid name fileid rfileid depend) := by
  unfold unlinkTarget
  simp only [getFileAtOldLocation_snd env fileid h]
  split
  · exact atomic_of_same hsame _
  · exact atomic_none _ _

theorem atomic_unlink (h : Inv P st) {env : Env} {folderid : FolderId} {name : Name}
    (hop : Undisturbed st (.unlink env folderid name)) :
    Atomic st (unlink env st folderid name) := by
  have hsame := same_release hP h folderid
  obtain ⟨hinv, hheld⟩ := Inv.take hP h folderid
  have hcr := find_getOrCreate (Inv.forget h) folderid (fun f => f.findCreat name 0)
    (fun _ _ => rfl)
    fun _ _ => rfl
  unfold unlink
  simp only [hcr]
  cases hfind : (st.getFolderTasksRdlocked folderid).bind fun f => f.findCreat name 0 with
  | some cr =>
    obtain ⟨f, hf, hfcr⟩ := Option.bind_eq_some_iff.mp hfind
    simp only
    split
    · exact atomic_none _ _
    · next hfileid =>
      exact atomic_of_fst (unlinkTarget_creat (Inv.forget h) (hop f cr hf hfcr hfileid) hf hfcr)
  | none =>
    simp only
    split
    · exact atomic_unlinkTarget hinv env hsame folderid name _ 0 0
    · exact atomic_of_same hsame _

theorem atomic_renameFile (h : Inv P st) (env : Env) (fileid : FileId) (parentfolderid : FolderId)
    (name : Name) (to_folderid : FolderId) (new_name : Option Name) :
    Atomic st (renameFile env st fileid parentfolderid name to_folderid new_name) := by
  unfold renameFile
  simp only
  split
  · exact atomic_of_same (same_release hP h parentfolderid) _
  · exact atomic_none _ _

theorem atomic_renameFolder (h : Inv P st) (env : Env) (folderid parentfolderid : FolderId)
    (name : Name) (to_folderid : FolderId) (new_name : Option Name) (flags : UInt32) :
    Atomic st (renameFolder env st folderid parentfolderid name to_folderid new_name flags) := by
  unfold renameFolder
  simp only [snd_deleteFolderIfEx h]
  split
  · exact atomic_of_same (same_release hP h parentfolderid) _
  · exact atomic_none _ _

end Errors

theorem atomic_addCreat {env : Env} {name : Name} {fileid : FileId} {key : Option Bytes}
    (herr : (addCreat env st p name fileid key).1 = none) :
    Same (addCreat env st p name fileid key).2 st := by
  unfold addCreat at herr ⊢
  simp only at herr ⊢
  split at herr
  · exact ⟨rfl, rfl⟩
  · exact nomatch herr

/-- `psync_fstask_add_modified_file` of a file that is not pending, or whose transaction
commits. -/
theorem addModifiedFile_error (h : Inv P st) (hp : Held st p 1) {env : Env} {name : Name}
    {fileid : FileId} {hash : Int} {key : Option Bytes}
    (hop : Undisturbed st (.addModifiedFile env p name fileid hash key))
    (herr : (addModifiedFile env st p name fileid hash key).1 = none) :
    (addModifiedFile env st p name fileid hash key).2 = st := by
  obtain ⟨f, hf, rfl, -⟩ := hp
  have hfolder := h.folder hf
  cases hcr : f.findCreat name 0 with
  | none =>
    have hdel : st.edit f.addr (fun f => f.delCreat name 0) = st := by
      refine State.edit_eq_self fun x hx hxp => ?_
      rw [h.eq_of_addr hf hx hxp, FolderTasks.delCreat,
        find_isNone.mp (Option.isNone_iff_eq_none.mpr hcr)]
    unfold addModifiedFile at herr ⊢
    simp only [hdel] at herr ⊢
    split at herr
    · rfl
    · exact nomatch herr
  | some cr =>
    obtain ⟨hcommits, hfol, hrow⟩ := hop cr (by rw [hfolder]; exact hcr)
    rw [hfolder] at hfol hrow
    have hfailed : (modifyTx st.db f.folderid name fileid hash key (f.findCreat name 0)).2.failed =
        false := failed_modifyTx hfol hrow
    unfold addModifiedFile at herr
    simp only [hfolder] at herr
    rw [Tx.commit_eq_some.mpr ⟨hcommits, hfailed, rfl⟩] at herr
    exact nomatch herr

end Steps

/-! ## Runs -/

/-- A step that does not meet the defects keeps the counters. -/
theorem counted_exec {st : State} {op : Op} (h : Inv FolderTasks.Counted st) (hop : Allowed st op)
    (hcond : Undisturbed st op) : Inv FolderTasks.Counted (exec st op).2 := by
  refine inv_exec stable_counted h hop (fun env folderid flags name heq => ?_)
    (fun peek p un heq => ?_) fun env row heq => ?_
  · subst heq
    exact counted_rmdir env h folderid flags name fun f mk hf hmk => (hcond f mk hf hmk).1
  · subst heq
    have hg := FolderTasks.sound_addUnlinkBy peek un
    exact h.edit hop.1 hg.keeps hg.counted
  · unfold initTask
    split
    · exact h
    · next g hg =>
      have hsound := (initTask_edit env st.db row hg).1
      exact Inv.withNewFolder stable_counted h row.folderid hsound.keeps hsound.counted

/-- A step that returns an error leaves the folders and the database as they were. -/
theorem same_exec {st : State} {op : Op} (h : Inv FolderTasks.Counted st) (hop : Allowed st op)
    (hcond : Undisturbed st op) (herr : (exec st op).1 = true) : Same (exec st op).2 st := by
  cases op with
  | mkdir env folderid name flags =>
    exact atomic_mkdir stable_counted h env folderid name flags herr
  | rmdir env folderid flags name => exact atomic_rmdir stable_counted h hcond herr
  | addCreat env p name fileid key => exact atomic_addCreat (Option.isNone_iff_eq_none.mp herr)
  | addModifiedFile env p name fileid hash key =>
    have hnone := Option.isNone_iff_eq_none.mp herr
    have hst := addModifiedFile_error h hop hcond hnone
    exact ⟨congrArg (·.folders.toList) hst, congrArg State.db hst⟩
  | unlink env folderid name => exact atomic_unlink stable_counted h hcond herr
  | renameFile env fileid parentfolderid name to_folderid new_name =>
    exact atomic_renameFile stable_counted h env fileid parentfolderid name to_folderid
      new_name herr
  | renameFolder env folderid parentfolderid name to_folderid new_name flags =>
    exact atomic_renameFolder stable_counted h env folderid parentfolderid name to_folderid new_name
      flags herr
  | _ => exact nomatch herr

theorem counted_run {db : Db} {st : State} (hrun : Run Undisturbed (start db) st) :
    Inv FolderTasks.Counted st :=
  Run.inv (fun _ _ h hop hcond => counted_exec h hop hcond) (inv_start _ db) hrun

/-- In every run whose steps do not meet the defects the counter of every folder is the number
of its entries, and a step that returns an error leaves the trees, the counters and the rows
as they were. -/
theorem accounting {db : Db} {st : State} (hrun : Run Undisturbed (start db) st) :
    (∀ f ∈ st.folders.toList, f.taskscnt = f.nodes) ∧
      ∀ op, Allowed st op → Undisturbed st op → (exec st op).1 = true →
        (exec st op).2.folders.toList = st.folders.toList ∧ (exec st op).2.db = st.db :=
  ⟨(counted_run hrun).good, fun _ hop hcond herr => same_exec (counted_run hrun) hop hcond herr⟩

/-- A user makes the folders `a` and `c`, and the folder `b` in `a`. -/
def nestedSteps : List Op :=
  [.mkdir plainEnv 0 [97] 0, .mkdir plainEnv 0 [99] 0, .mkdir plainEnv (-1) [98] 0]

theorem run_nestedSteps : Run Undisturbed (start emptyDb) (after (start emptyDb) nestedSteps) :=
  .tail (.tail (.tail .refl ⟨.mkdir plainEnv 0 [97] 0, trivial, trivial, rfl⟩)
    ⟨.mkdir plainEnv 0 [99] 0, trivial, trivial, rfl⟩)
    ⟨.mkdir plainEnv (-1) [98] 0, trivial, trivial, rfl⟩

/-- Another folder with the name of the first is an error that changes nothing. -/
theorem accounting_nested :
    (∀ f ∈ (after (start emptyDb) nestedSteps).folders.toList, f.taskscnt = f.nodes) ∧
      (exec (after (start emptyDb) nestedSteps) (.mkdir plainEnv 0 [97] 0)).1 = true ∧
      (exec (after (start emptyDb) nestedSteps) (.mkdir plainEnv 0 [97] 0)).2.db =
        (after (start emptyDb) nestedSteps).db := by
  obtain ⟨hcount, hatomic⟩ := accounting run_nestedSteps
  have herr : (exec (after (start emptyDb) nestedSteps) (.mkdir plainEnv 0 [97] 0)).1 = true := by
    decide
  exact ⟨hcount, herr, (hatomic (.mkdir plainEnv 0 [97] 0) trivial trivial herr).2⟩

/-- A removal of the folder `a` while `b` is pending in it returns `ENOTEMPTY`, and the root
counts one entry less than it has. -/
theorem rmdir_pending_counter :
    Run Undisturbed (start emptyDb) (after (start emptyDb) nestedSteps) ∧
      (rmdir plainEnv (after (start emptyDb) nestedSteps) 0 0 [97]).1 = some .enotempty ∧
      (∃ f ∈ (exec (after (start emptyDb) nestedSteps) (.rmdir plainEnv 0 0 [97])).2.folders.toList,
        f.folderid = 0 ∧ f.taskscnt = 1 ∧ f.nodes = 2) ∧
      (exec (after (start emptyDb) nestedSteps) (.rmdir plainEnv 0 0 [97])).2.folders.toList ≠
        (after (start emptyDb) nestedSteps).folders.toList := by
  have hroot : ∃ f ∈ (exec (after (start emptyDb) nestedSteps)
      (.rmdir plainEnv 0 0 [97])).2.folders.toList,
      f.folderid = 0 ∧ f.taskscnt = 1 ∧ f.nodes = 2 := by
    decide
  refine ⟨run_nestedSteps, by decide, hroot, fun hsame => ?_⟩
  obtain ⟨f, hf, -, hcount, hnodes⟩ := hroot
  have hright := (counted_run run_nestedSteps).good f (hsame ▸ hf)
  rw [FolderTasks.Counted, hcount, hnodes] at hright
  exact absurd hright (by decide)

end PcloudClient.Pfstasks
