/-
  Pfstasks/Preservation.lean --- what the operations keep of every folder.

  For a property of the folders that sound edits of the trees keep, every operation keeps
  it of every folder; the exceptions are a removal of a pending folder and the insertions
  at another offset, whose edits are given with their lemmas.
-/
import PcloudClient.Pfstasks.Entries

set_option autoImplicit false

namespace PcloudClient.Pfstasks

open State (Inv Held)

/-- A property that holds of a new folder and that the edits of the trees keep. -/
structure Stable (P : FolderTasks → Prop) : Prop where
  refFree : RefFree P
  new : ∀ addr folderid, P { addr, folderid }
  edit : ∀ g, FolderTasks.Orderly g → ∀ f, P f → P (g f)
  rekey : ∀ f folderid, P f → P { f with folderid }

theorem stable_true : Stable fun _ => True where
  refFree _ _ _ := trivial
  new _ _ := trivial
  edit _ _ _ _ := trivial
  rekey _ _ _ := trivial

theorem stable_counted : Stable FolderTasks.Counted where
  refFree := FolderTasks.refFree_counted
  new := FolderTasks.counted_new
  edit _ hg := hg.counted
  rekey _ _ h := h

theorem stable_treesSorted : Stable FolderTasks.TreesSorted where
  refFree := FolderTasks.refFree_treesSorted
  new := FolderTasks.treesSorted_new
  edit _ hg := hg.sorted
  rekey _ _ h := ⟨h.1, h.2, h.3, h.4⟩

section Operations

variable {P : FolderTasks → Prop} (hP : Stable P) {st : State} {p : Nat}
  {g : FolderTasks → FolderTasks}
include hP

/-! ## Taking, editing, releasing -/

theorem Inv.take (h : Inv P st) (folderid : FolderId) :
    Inv P (st.getOrCreateFolderTasks folderid).2 ∧
      Held (st.getOrCreateFolderTasks folderid).2 (st.getOrCreateFolderTasks folderid).1 1 :=
  ⟨h.getOrCreateFolderTasks hP.refFree hP.new folderid, h.held_getOrCreateFolderTasks folderid⟩

theorem Inv.put (h : Inv P st) (hp : Held st p 1) : Inv P (st.releaseFolderTasks p) :=
  h.releaseFolderTasks hP.refFree hp

/-- An edit at the end of an operation. -/
theorem Inv.finish (h : Inv P st) (hp : Held st p 1) (hkeeps : Keeps g) (hg : ∀ f, P f → P (g f)) :
    Inv P ((st.edit p g).releaseFolderTasks p) :=
  Inv.put hP (h.edit hp hkeeps hg) (hp.edit hkeeps p)

theorem Inv.editOrderly (h : Inv P st) (hp : Held st p 1) (hg : FolderTasks.Orderly g) :
    Inv P (st.edit p g) :=
  h.edit hp hg.keeps (hP.edit g hg)

theorem Inv.finishOrderly (h : Inv P st) (hp : Held st p 1) (hg : FolderTasks.Orderly g) :
    Inv P ((st.edit p g).releaseFolderTasks p) :=
  Inv.finish hP h hp hg.keeps (hP.edit g hg)

/-- The second folder of a rename. -/
theorem Inv.takeFinish (h : Inv P st) (folderid : FolderId) (hg : FolderTasks.Orderly g) :
    Inv P (((st.getOrCreateFolderTasks folderid).2.edit
      (st.getOrCreateFolderTasks folderid).1 g).releaseFolderTasks
        (st.getOrCreateFolderTasks folderid).1) := by
  obtain ⟨hinv, hheld⟩ := Inv.take hP h folderid
  exact Inv.finishOrderly hP hinv hheld hg

theorem Inv.takeFinishDb (h : Inv P st) (folderid : FolderId) (db : Db)
    (hg : FolderTasks.Orderly g) :
    Inv P (({ (st.getOrCreateFolderTasks folderid).2 with db }.edit
      (st.getOrCreateFolderTasks folderid).1 g).releaseFolderTasks
        (st.getOrCreateFolderTasks folderid).1) := by
  obtain ⟨hinv, hheld⟩ := Inv.take hP h folderid
  exact Inv.finishOrderly hP (hinv.withDb db) (hheld.withDb db) hg

theorem Inv.withFolder (h : Inv P st) (folderid : FolderId) (hg : FolderTasks.Orderly g) :
    Inv P (st.withFolder folderid g) := by
  have hinv := h.getFolderTasks hP.refFree folderid
  have hheld : ∀ q, (st.getFolderTasks folderid).1 = some q →
      Held (st.getFolderTasks folderid).2 q 1 := fun _ hq => h.held_getFolderTasks hq
  unfold State.withFolder
  split
  · next st' hget =>
    rw [hget] at hinv
    exact hinv
  · next p st' hget =>
    rw [hget] at hinv hheld
    exact Inv.finishOrderly hP hinv (hheld p rfl) hg

theorem Inv.withNewFolder (h : Inv P st) (folderid : FolderId) (hkeeps : Keeps g)
    (hg : ∀ f, P f → P (g f)) : Inv P (st.withNewFolder folderid g) := by
  obtain ⟨hinv, hheld⟩ := Inv.take hP h folderid
  exact Inv.finish hP hinv hheld hkeeps hg

/-! ## The operations -/

theorem inv_mkdir (env : Env) (h : Inv P st) (folderid : FolderId) (name : Name)
    (folderflags : UInt32) : Inv P (mkdir env st folderid name folderflags).2 := by
  obtain ⟨hinv, hheld⟩ := Inv.take hP h folderid
  unfold mkdir
  simp only
  split
  · exact Inv.put hP hinv hheld
  · split
    · exact Inv.put hP hinv hheld
    · split
      · exact Inv.put hP hinv hheld
      · split
        · exact Inv.put hP hinv hheld
        · exact Inv.finishOrderly hP (hinv.withDb _) (hheld.withDb _)
            (FolderTasks.orderly_addMkdir _)

/-- A removal of a folder that the database has. -/
theorem inv_rmdirTarget_none (env : Env) (h : Inv P st) (hp : Held st p 1) (folderid : FolderId)
    (name : Name) (c : FolderId) : Inv P (rmdirTarget env st p folderid name none c).2 := by
  unfold rmdirTarget
  simp only [Option.isSome_none, Bool.false_eq_true, if_false, h.releaseIf_getFolderTasks]
  split
  · exact Inv.put hP h hp
  · split
    · exact Inv.put hP h hp
    · exact Inv.finishOrderly hP (h.withDb _) (hp.withDb _) (FolderTasks.orderly_addRmdir _)

omit hP in
theorem keeps_cutMkdir (name : Name) (taskid : Nat) : Keeps fun f => f.cutMkdir name taskid := by
  intro f
  simp only [FolderTasks.cutMkdir]
  split <;> exact ⟨rfl, rfl⟩

/-- A removal of a pending folder, from a state in which the folder at `p` may miss `P` until
the node is out of its tree. -/
theorem inv_rmdirTarget_some (env : Env) {P' : FolderTasks → Prop} (hP' : RefFree P')
    (h : Inv P' st) (hp : Held st p 1) (folderid : FolderId) (name : Name) (mk : Mkdir)
    (c : FolderId)
    (hcut : ∀ f, f.addr = p → P' f → P (f.cutMkdir name 0)) (hother : ∀ f, f.addr ≠ p → P' f → P f)
    (hbusy : notEmpty st.db ((st.getFolderTasks c).1.map (st.getFolderTasks c).2.folder) c →
      ∀ f, P' f → P f) :
    Inv P (rmdirTarget env st p folderid name (some mk) c).2 := by
  have hkeeps := keeps_cutMkdir name 0
  have hinv := h.getFolderTasks hP' c
  have hheld := hp.getFolderTasks c
  unfold rmdirTarget
  simp only [State.db_getFolderTasks, Option.isSome_some, if_true, h.releaseIf_getFolderTasks]
  split
  · next hne => exact Inv.put hP (h.imp fun f _ => hbusy hne f) hp
  · have hcutInv : Inv P ((st.getFolderTasks c).2.edit p fun f => f.cutMkdir name 0) :=
      hinv.edit' hheld hkeeps (fun f _ => hother f) fun f _ => hcut f
    have hrel : Inv P (((st.getFolderTasks c).2.edit p fun f => f.cutMkdir name 0).releaseIf
          (st.getFolderTasks c).1) ∧
        Held (((st.getFolderTasks c).2.edit p fun f => f.cutMkdir name 0).releaseIf
          (st.getFolderTasks c).1) p 1 := by
      cases hq : (st.getFolderTasks c).1 with
      | none => exact ⟨hcutInv, hheld.edit hkeeps p⟩
      | some q =>
        have hheldq := (h.held_getFolderTasks hq).edit hkeeps p
        refine ⟨Inv.put hP hcutInv hheldq, ?_⟩
        rcases eq_or_ne p q with rfl | hne
        · exact hcutInv.held_release_self ((hp.getFolderTasks_self hq).edit hkeeps p)
        · exact hcutInv.held_release_of_ne hheldq (hheld.edit hkeeps p) hne
    split
    · exact Inv.put hP hrel.1 hrel.2
    · exact Inv.finishOrderly hP (hrel.1.withDb _) (hrel.2.withDb _)
        (FolderTasks.orderly_addRmdir _)

/-- A removal, for a property that does not look at the counter. -/
theorem inv_rmdir (env : Env) (hcount : ∀ f n, P f → P { f with taskscnt := n })
    (hcut : ∀ f name, P f → P (f.cutMkdir name 0)) (h : Inv P st) (folderid : FolderId)
    (parentflags : UInt32) (name : Name) : Inv P (rmdir env st folderid parentflags name).2 := by
  obtain ⟨hinv, hheld⟩ := Inv.take hP h folderid
  let minus : FolderTasks → FolderTasks := fun f => { f with taskscnt := f.taskscnt - 1 }
  have hkeeps : Keeps minus := fun _ => ⟨rfl, rfl⟩
  have hminus := hinv.edit hheld hkeeps fun f => hcount f _
  have hheld' := hheld.edit hkeeps (st.getOrCreateFolderTasks folderid).1
  unfold rmdir
  simp only
  split
  · next mk _ =>
    exact inv_rmdirTarget_some hP env hP.refFree hminus hheld' folderid name mk mk.folderid
      (fun f _ => hcut f name) (fun f _ hPf => hPf) fun _ f hPf => hPf
  · split
    · exact Inv.put hP hinv hheld
    · split
      · exact Inv.put hP hinv hheld
      · split
        · exact Inv.put hP hinv hheld
        · exact inv_rmdirTarget_none hP env hinv hheld folderid name _

theorem inv_addCreat (env : Env) (h : Inv P st) (hp : Held st p 1) (name : Name) (fileid : FileId)
    (encsymkey : Option Bytes) : Inv P (addCreat env st p name fileid encsymkey).2 := by
  unfold addCreat
  simp only
  split
  · exact h
  · exact Inv.editOrderly hP (h.withDb _) (hp.withDb _)
      ((FolderTasks.orderly_addUnlink _).comp (FolderTasks.orderly_addCreat _))

theorem inv_injectCreat (h : Inv P st) (hp : Held st p 1) (cr : Creat) :
    Inv P (injectCreat st p cr) :=
  Inv.editOrderly hP h hp (FolderTasks.orderly_addCreat cr)

theorem inv_dropCreat (h : Inv P st) (hp : Held st p 1) (name : Name) (taskid : Nat) :
    Inv P (dropCreat st p name taskid) :=
  Inv.editOrderly hP h hp (FolderTasks.orderly_delCreat name taskid)

theorem inv_dropUnlink (h : Inv P st) (hp : Held st p 1) (name : Name) (taskid : Nat) :
    Inv P (dropUnlink st p name taskid) :=
  Inv.editOrderly hP h hp (FolderTasks.orderly_delUnlink name taskid)

theorem inv_addModifiedFile (env : Env) (h : Inv P st) (hp : Held st p 1) (name : Name)
    (fileid : FileId) (hash : Int) (encsymkey : Option Bytes) :
    Inv P (addModifiedFile env st p name fileid hash encsymkey).2 := by
  have hdel := FolderTasks.orderly_delCreat name 0
  have hinv := Inv.editOrderly hP h hp hdel
  have hheld := hp.edit hdel.keeps p
  unfold addModifiedFile
  simp only
  split
  · exact hinv
  · exact Inv.editOrderly hP (hinv.withDb _) (hheld.withDb _)
      ((FolderTasks.orderly_addUnlink _).comp (FolderTasks.orderly_addCreat _))

theorem inv_addLocalCreatStatic (h : Inv P st) (folderid : FolderId) (name : Name) (taskid : Nat) :
    Inv P (addLocalCreatStatic st folderid name taskid) := by
  obtain ⟨hinv, hheld⟩ := Inv.take hP h folderid
  unfold addLocalCreatStatic
  simp only
  split
  · exact Inv.put hP hinv hheld
  · split
    · exact Inv.put hP hinv hheld
    · exact Inv.finishOrderly hP hinv hheld
        ((FolderTasks.orderly_addUnlink _).comp (FolderTasks.orderly_addCreat _))

theorem inv_unlinkTarget (env : Env) (h : Inv P st) (hp : Held st p 1) (folderid : FolderId)
    (name : Name) (fileid : FileId) (rfileid depend : Nat) :
    Inv P (unlinkTarget env st p folderid name fileid rfileid depend).2 := by
  unfold unlinkTarget
  simp only [getFileAtOldLocation_snd env fileid h]
  split
  · exact Inv.put hP h hp
  · exact Inv.finishOrderly hP (h.withDb _) (hp.withDb _) (FolderTasks.orderly_addUnlink _)

theorem inv_unlink (env : Env) (h : Inv P st) (folderid : FolderId) (name : Name) :
    Inv P (unlink env st folderid name).2 := by
  obtain ⟨hinv, hheld⟩ := Inv.take hP h folderid
  have hdel := FolderTasks.orderly_delCreat name 0
  unfold unlink
  simp only
  split
  · split
    · exact inv_unlinkTarget hP env hinv hheld folderid name _ 0 0
    · exact Inv.put hP hinv hheld
  · split
    · exact Inv.finishOrderly hP hinv hheld ((FolderTasks.orderly_delUnlink _ _).comp hdel)
    · exact inv_unlinkTarget hP env (Inv.editOrderly hP hinv hheld hdel)
        (hheld.edit hdel.keeps _) folderid name _ _ _

theorem inv_renameFile (env : Env) (h : Inv P st) (fileid : FileId) (parentfolderid : FolderId)
    (name : Name) (to_folderid : FolderId) (new_name : Option Name) :
    Inv P (renameFile env st fileid parentfolderid name to_folderid new_name).2 := by
  obtain ⟨hinv, hheld⟩ := Inv.take hP h parentfolderid
  unfold renameFile
  simp only
  split
  · exact Inv.put hP hinv hheld
  · refine Inv.takeFinishDb hP (Inv.finishOrderly hP (hinv.withDb _) (hheld.withDb _) ?_)
      to_folderid _ ?_
    · exact (FolderTasks.orderly_delCreat name 0).comp (FolderTasks.orderly_addUnlink _)
    · exact ((FolderTasks.orderly_delCreat _ 0).comp (FolderTasks.orderly_addUnlink _)).comp
        (FolderTasks.orderly_addCreat _)

omit hP in
/-- The look at the folder that is renamed over changes no folder. -/
theorem snd_deleteFolderIfEx (h : Inv P st) (tx : Tx) (folderid : FolderId) (name : Name) :
    (deleteFolderIfEx tx st folderid name).2.2 = st := by
  unfold deleteFolderIfEx
  simp only [h.releaseIf_getFolderTasks]
  split
  · rfl
  · split <;> (split <;> rfl)

theorem inv_renameFolder (env : Env) (h : Inv P st) (folderid parentfolderid : FolderId)
    (name : Name) (to_folderid : FolderId) (new_name : Option Name) (targetflags : UInt32) :
    Inv P (renameFolder env st folderid parentfolderid name to_folderid new_name
      targetflags).2 := by
  obtain ⟨hinv, hheld⟩ := Inv.take hP h parentfolderid
  unfold renameFolder
  simp only [snd_deleteFolderIfEx h]
  split
  · exact Inv.put hP hinv hheld
  · refine Inv.takeFinish hP (Inv.finishOrderly hP (hinv.withDb _) (hheld.withDb _) ?_)
      to_folderid ?_
    · exact (FolderTasks.orderly_delMkdir name 0).comp (FolderTasks.orderly_addRmdir _)
    · exact ((FolderTasks.orderly_delMkdir _ 0).comp (FolderTasks.orderly_addRmdir _)).comp
        (FolderTasks.orderly_addMkdir _)

/-! ## Completions -/

/-- A folder that gets another id. -/
theorem Inv.rekey (h : Inv P st) (hp : Held st p 1) (folderid : FolderId) :
    Inv P (st.rekey p folderid) ∧ Held (st.rekey p folderid) p 1 := by
  obtain ⟨f, hf, rfl, hn⟩ := hp
  obtain ⟨a, b, hsplit⟩ := List.append_of_mem hf
  have hrest := State.unlink_split h.nodup hsplit
  let cmp : FolderTasks → Int := fun x => if folderid - x.folderid < 0 then -1 else 1
  have hcmp : ∀ x ∈ (st.unlinkFolder f.addr).folders.toList, cmp x ≠ 0 := by
    intro x _
    simp only [cmp]
    split <;> decide
  obtain ⟨a', b', hsplit', hins, -⟩ := Ptree.Tree.insert_split id { f with folderid }
    (st.unlinkFolder f.addr).folders hcmp
  have hlist : (st.rekey f.addr folderid).folders.toList = a' ++ { f with folderid } :: b' := by
    unfold State.rekey
    rw [h.folder hf]
    exact hins
  have hperm :
      (st.rekey f.addr folderid).folders.toList.Perm ({ f with folderid } :: (a ++ b)) := by
    rw [hlist, ← hrest, hsplit']
    exact List.perm_middle
  have hmem : ∀ x ∈ (st.rekey f.addr folderid).folders.toList,
      x = { f with folderid } ∨ x ∈ st.folders.toList := by
    intro x hx
    rw [hperm.mem_iff, List.mem_cons, List.mem_append] at hx
    rw [hsplit, List.mem_append, List.mem_cons]
    tauto
  refine ⟨⟨fun x hx => ?_, fun x hx => ?_, ?_, fun x hx => ?_⟩, { f with folderid }, ?_, rfl, hn⟩
  · rcases hmem x hx with rfl | hx
    · exact hP.rekey f folderid (h.good f hf)
    · exact h.good x hx
  · rcases hmem x hx with rfl | hx
    · exact h.fresh f hf
    · exact h.fresh x hx
  · rw [(hperm.map _).nodup_iff, List.map_cons, List.map_append, ← List.nodup_middle,
      ← List.map_cons (f := FolderTasks.addr) (a := f), ← List.map_append, ← hsplit]
    exact h.nodup
  · rcases hmem x hx with rfl | hx
    · exact h.live f hf
    · exact h.live x hx
  · rw [hperm.mem_iff]
    exact List.mem_cons_self ..

theorem inv_renumberFolder (h : Inv P st) (taskid : Nat) (folderid : FolderId) :
    Inv P (renumberFolder st taskid folderid) := by
  have hinv := h.getFolderTasks hP.refFree (-taskid)
  have hheld : ∀ q, (st.getFolderTasks (-taskid)).1 = some q →
      Held (st.getFolderTasks (-taskid)).2 q 1 := fun _ hq => h.held_getFolderTasks hq
  unfold renumberFolder
  split
  · next st' hget =>
    rw [hget] at hinv
    exact hinv
  · next p st' hget =>
    rw [hget] at hinv hheld
    obtain ⟨hinv', hheld'⟩ := Inv.rekey hP hinv (hheld p rfl) folderid
    exact Inv.put hP hinv' hheld'

theorem inv_lookForMkdirInDb (h : Inv P st) (taskid : Nat) (folderid : FolderId) :
    Inv P (lookForMkdirInDb st taskid folderid) := by
  unfold lookForMkdirInDb
  split
  · exact h
  · exact Inv.withFolder hP h _ (FolderTasks.orderly_setMkdirFolderid _ folderid)

theorem inv_folderCreated (h : Inv P st) (parentfolderid : FolderId) (taskid : Nat)
    (folderid : FolderId) (name : Name) :
    Inv P (folderCreated st parentfolderid taskid folderid name) := by
  have hdel := Inv.withFolder hP h parentfolderid (FolderTasks.orderly_delMkdir name taskid)
  unfold folderCreated
  simp only
  refine inv_renumberFolder hP ?_ taskid folderid
  split
  · exact inv_lookForMkdirInDb hP hdel taskid folderid
  · exact hdel

theorem inv_folderDeleted (h : Inv P st) (parentfolderid : FolderId) (taskid : Nat) (name : Name) :
    Inv P (folderDeleted st parentfolderid taskid name) :=
  Inv.withFolder hP h parentfolderid (FolderTasks.orderly_delRmdir name taskid)

theorem inv_lookForCreatInDb (h : Inv P st) (taskid : Nat) (fileid : FileId) :
    Inv P (lookForCreatInDb st taskid fileid) := by
  unfold lookForCreatInDb
  split
  · exact h
  · exact Inv.withFolder hP h _ (FolderTasks.orderly_setCreatFileid _ fileid)

theorem inv_fileCreated (h : Inv P st) (parentfolderid : FolderId) (taskid : Nat) (name : Name)
    (fileid : FileId) : Inv P (fileCreated st parentfolderid taskid name fileid) := by
  have hdel := Inv.withFolder hP h parentfolderid
    ((FolderTasks.orderly_delCreat name taskid).comp (FolderTasks.orderly_delUnlink name taskid))
  unfold fileCreated
  simp only
  split
  · exact inv_lookForCreatInDb hP hdel taskid fileid
  · exact hdel

theorem inv_fileDeleted (h : Inv P st) (parentfolderid : FolderId) (taskid : Nat) (name : Name) :
    Inv P (fileDeleted st parentfolderid taskid name) :=
  Inv.withFolder hP h parentfolderid (FolderTasks.orderly_delUnlink name taskid)

theorem inv_renamedFrom {del : Name → Nat → FolderTasks → FolderTasks}
    (hdel : ∀ name taskid, FolderTasks.Orderly (del name taskid)) (h : Inv P st) (frtaskid : Nat) :
    Inv P (renamedFrom del st frtaskid) := by
  unfold renamedFrom
  simp only
  refine Inv.withDb ?_ _
  split
  · exact h
  · exact Inv.withFolder hP h _ (hdel _ _)

theorem inv_fileRenamed (h : Inv P st) (folderid : FolderId) (taskid : Nat) (name : Name)
    (frtaskid : Nat) : Inv P (fileRenamed st folderid taskid name frtaskid) :=
  inv_renamedFrom hP (fun name taskid => FolderTasks.orderly_delUnlink name taskid)
    (Inv.withFolder hP h folderid ((FolderTasks.orderly_delUnlink name taskid).comp
      (FolderTasks.orderly_delCreat name taskid))) frtaskid

theorem inv_folderRenamed (h : Inv P st) (parentfolderid : FolderId) (taskid : Nat) (name : Name)
    (frtaskid : Nat) : Inv P (folderRenamed st parentfolderid taskid name frtaskid) :=
  inv_renamedFrom hP (fun name taskid => FolderTasks.orderly_delRmdir name taskid)
    (Inv.withFolder hP h parentfolderid ((FolderTasks.orderly_delMkdir name taskid).comp
      (FolderTasks.orderly_delRmdir name taskid))) frtaskid

theorem inv_addBannedFolder (h : Inv P st) (folderid : FolderId) (name : Name) :
    Inv P (addBannedFolder st folderid name) := by
  have hg :=
    (FolderTasks.orderly_addMkdir
      { folderid := 0, taskid := 0, ctime := 0, mtime := 0, subdircnt := 0
        flags := FLAG_INVISIBLE, name }).comp
    (FolderTasks.orderly_addRmdir { folderid := 0, taskid := 0, name })
  exact Inv.withNewFolder hP h folderid hg.keeps (hP.edit _ hg)

/-! ## Restart -/

omit hP in
/-- The replay of a row edits the trees in a sound way, in order but for the insertion of a
renamed file. -/
theorem initTask_edit (env : InitEnv) (db : Db) (row : TaskRow) {g : FolderTasks → FolderTasks}
    (hg : initTaskFunc env db row = some g) :
    FolderTasks.Sound g ∧ (row.type ≠ .renfileTo → FolderTasks.Orderly g) := by
  have horderly : ∀ {g' : FolderTasks → FolderTasks}, FolderTasks.Orderly g' → some g' = some g →
      FolderTasks.Sound g ∧ (row.type ≠ .renfileTo → FolderTasks.Orderly g) := by
    intro g' hg' heq
    obtain rfl := Option.some.inj heq
    exact ⟨hg'.toSound, fun _ => hg'⟩
  unfold initTaskFunc at hg
  split at hg
  · exact horderly (FolderTasks.orderly_addMkdir _) hg
  · exact horderly ((FolderTasks.orderly_delMkdir _ 0).comp (FolderTasks.orderly_addRmdir _)) hg
  · exact horderly ((FolderTasks.orderly_addUnlink _).comp (FolderTasks.orderly_addCreat _)) hg
  · exact horderly ((FolderTasks.orderly_delCreat _ 0).comp (FolderTasks.orderly_addUnlink _)) hg
  · exact horderly ((FolderTasks.orderly_delCreat _ 0).comp (FolderTasks.orderly_addUnlink _)) hg
  · next htype =>
    obtain rfl := Option.some.inj hg
    refine ⟨?_, fun hne => absurd htype hne⟩
    exact ((FolderTasks.orderly_delCreat _ 0).toSound.comp
      (FolderTasks.sound_addUnlinkBy env.peek _)).comp (FolderTasks.orderly_addCreat _).toSound
  · exact horderly ((FolderTasks.orderly_delMkdir _ 0).comp (FolderTasks.orderly_addRmdir _)) hg
  · exact horderly ((FolderTasks.orderly_addRmdir _).comp (FolderTasks.orderly_addMkdir _)) hg
  · exact horderly (((FolderTasks.orderly_delCreat _ 0).comp
      (FolderTasks.orderly_addUnlink _)).comp (FolderTasks.orderly_addCreat _)) hg
  · exact horderly ((FolderTasks.orderly_delCreat _ 0).comp (FolderTasks.orderly_addUnlink _)) hg
  · exact nomatch hg
  · exact nomatch hg

end Operations

end PcloudClient.Pfstasks
