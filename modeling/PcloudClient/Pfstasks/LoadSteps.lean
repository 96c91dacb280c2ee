/-
  Pfstasks/LoadSteps.lean --- what each operation does to the number of creats and mkdirs.

  An operation keeps the number of every folder but the ones it is about, and there a deletion
  takes one away at most.
-/
import PcloudClient.Pfstasks.Load

set_option autoImplicit false

namespace PcloudClient.Pfstasks

open State (Inv Keyed Held)

section Edits

variable {st : State} {p : Nat} {g : FolderTasks → FolderTasks} {folderid c : FolderId}

/-- The folders at the address have the id. -/
def At (st : State) (p : Nat) (folderid : FolderId) : Prop :=
  ∀ f ∈ st.folders.toList, f.addr = p → f.folderid = folderid

theorem At.edit (h : At st p folderid) (haddr : ∀ f, (g f).addr = f.addr)
    (hid : ∀ f, (g f).folderid = f.folderid) (q : Nat) : At (st.edit q g) p folderid := by
  intro f hf hp
  rw [State.toList_edit] at hf
  obtain ⟨x, hx, rfl⟩ := List.mem_map.mp hf
  split at hp
  · next hq =>
    rw [if_pos hq, hid]
    exact h x hx (haddr x ▸ hp)
  · next hq =>
    rw [if_neg hq]
    exact h x hx hp

theorem At.getFolderTasks (h : At st p folderid) (c : FolderId) :
    At (st.getFolderTasks c).2 p folderid := by
  unfold State.getFolderTasks
  split
  · exact h
  · exact h.edit (g := fun f => { f with refcnt := f.refcnt + 1 })
      (fun _ => rfl) (fun _ => rfl) _

/-- An edit leaves the folders with other ids alone. -/
theorem State.load_edit_ne (h : At st p folderid) (hid : ∀ f, (g f).folderid = f.folderid)
    (hc : c ≠ folderid) : (st.edit p g).load c = st.load c := by
  rw [State.load, State.getFolderTasksRdlocked_edit hid, State.load]
  cases hfind : st.getFolderTasksRdlocked c with
  | none => rfl
  | some f =>
    have hne : f.addr ≠ p := fun hp => hc <| by
      rw [← State.folderid_of_getFolderTasksRdlocked hfind]
      exact h f (State.mem_of_getFolderTasksRdlocked hfind) hp
    rw [Option.map_some, if_neg hne]

/-- An edit that takes one entry away at most. -/
theorem State.load_edit_le (hid : ∀ f, (g f).folderid = f.folderid)
    (hg : ∀ f, f.load ≤ (g f).load + 1) (p : Nat) (c : FolderId) :
    st.load c ≤ (st.edit p g).load c + 1 := by
  rw [State.load, State.load, State.getFolderTasksRdlocked_edit hid]
  cases st.getFolderTasksRdlocked c with
  | none => exact Nat.zero_le _
  | some f =>
    simp only [Option.map_some, Option.elim_some]
    split
    · exact hg f
    · exact Nat.le_succ _

theorem Sane.at_taken (h : Sane st) (folderid : FolderId) :
    At (st.getOrCreateFolderTasks folderid).2 (st.getOrCreateFolderTasks folderid).1 folderid := by
  intro f hf hp
  have hid := folderid_taken h.counted folderid
  rw [State.taken, ← hp, (h.take folderid).1.counted.folder hf] at hid
  exact hid

end Edits

/-- A deletion of an unlink and one of a creat do not meet. -/
theorem load_delUnlink_delCreat (f : FolderTasks) (name name' : Name) (taskid : Nat) :
    ((f.delUnlink name' taskid).delCreat name 0).load = (f.delCreat name 0).load := by
  have hcreats : (f.delUnlink name' taskid).creats = f.creats := by
    unfold FolderTasks.delUnlink
    split <;> rfl
  have hmkdirs : (f.delUnlink name' taskid).mkdirs = f.mkdirs := by
    unfold FolderTasks.delUnlink
    split <;> rfl
  unfold FolderTasks.delCreat
  rw [hcreats]
  split <;> simp only [FolderTasks.load, hcreats, hmkdirs]

/-! ## The operations -/

section Operations

variable {st : State}

theorem load_mkdir (h : Sane st) (env : Env) (folderid : FolderId) (name : Name)
    (flags : UInt32) :
    Sane (mkdir env st folderid name flags).2 ∧
      ∀ c, (mkdir env st folderid name flags).1.isSome ∨ c ≠ folderid →
        (mkdir env st folderid name flags).2.load c = st.load c := by
  have herror := h.takeRelease folderid
  unfold mkdir
  simp only
  split
  · exact ⟨herror.1, fun c _ => herror.2 c⟩
  · split
    · exact ⟨herror.1, fun c _ => herror.2 c⟩
    · split
      · exact ⟨herror.1, fun c _ => herror.2 c⟩
      · split
        · exact ⟨herror.1, fun c _ => herror.2 c⟩
        · obtain ⟨hsane, hload⟩ := h.takeEdit folderid _ (FolderTasks.orderly_addMkdir _).toSound
          refine ⟨hsane, fun c hc => (hload c).trans (if_neg ?_)⟩
          exact hc.resolve_left Bool.false_ne_true

/-- A removal of a folder that the database has. -/
theorem load_rmdirTarget_none (h : Sane st) (env : Env) (folderid : FolderId) (name : Name)
    (cfolderid : FolderId) :
    Sane (rmdirTarget env (st.getOrCreateFolderTasks folderid).2
        (st.getOrCreateFolderTasks folderid).1 folderid name none cfolderid).2 ∧
      ∀ c, (rmdirTarget env (st.getOrCreateFolderTasks folderid).2
        (st.getOrCreateFolderTasks folderid).1 folderid name none cfolderid).2.load c =
          st.load c := by
  have herror := h.takeRelease folderid
  unfold rmdirTarget
  simp only [Option.isSome_none, Bool.false_eq_true, if_false,
    (h.take folderid).1.counted.releaseIf_getFolderTasks]
  split
  · exact herror
  · split
    · exact herror
    · obtain ⟨hsane, hload⟩ := h.takeEdit folderid _ (FolderTasks.orderly_addRmdir _).toSound
      refine ⟨hsane, fun c => (hload c).trans ?_⟩
      split
      · next hc => rw [FolderTasks.load_addRmdir, load_taken h.counted, hc]
      · rfl

/-- A removal of a pending folder that is empty, from a state in which the folder at `p` counts one
entry too few. -/
theorem load_rmdirTarget_some (env : Env) {p : Nat} {name : Name} {folderid : FolderId}
    (h : Inv (Owes p name) st) (hk : Keyed st) (hp : Held st p 1) (hat : At st p folderid)
    (mk : Mkdir) (cfolderid : FolderId)
    (hempty : notEmpty st.db ((st.getFolderTasks cfolderid).1.map
      (st.getFolderTasks cfolderid).2.folder) cfolderid = false) :
    Sane (rmdirTarget env st p folderid name (some mk) cfolderid).2 ∧
      ∀ c, (c ≠ folderid →
        (rmdirTarget env st p folderid name (some mk) cfolderid).2.load c = st.load c) ∧
        st.load c ≤ (rmdirTarget env st p folderid name (some mk) cfolderid).2.load c + 1 := by
  have hkeeps := keeps_cutMkdir name 0
  have hid : ∀ f, (FolderTasks.cutMkdir f name 0).folderid = f.folderid := by
    intro f
    unfold FolderTasks.cutMkdir
    split <;> rfl
  have hheld := hp.getFolderTasks cfolderid
  have hinv : Inv FolderTasks.Counted
      ((st.getFolderTasks cfolderid).2.edit p fun f => f.cutMkdir name 0) := by
    refine (h.getFolderTasks (fun _ _ hx => hx) cfolderid).edit' hheld hkeeps
      (fun x _ hne hx => ?_) fun x _ hxp hx => hx.cutMkdir hxp
    rwa [Owes, if_neg hne] at hx
  have hsane : Sane ((st.getFolderTasks cfolderid).2.edit p fun f => f.cutMkdir name 0) :=
    ⟨hinv, (State.keyed_getFolderTasks hk cfolderid).edit hid p⟩
  have hload : ∀ c, (c ≠ folderid →
      ((st.getFolderTasks cfolderid).2.edit p fun f => f.cutMkdir name 0).load c = st.load c) ∧
      st.load c ≤ ((st.getFolderTasks cfolderid).2.edit p fun f =>
        f.cutMkdir name 0).load c + 1 := by
    intro c
    have hsame : (st.getFolderTasks cfolderid).2.load c = st.load c :=
      State.load_getFolderTasks cfolderid c
    rw [← hsame]
    exact ⟨State.load_edit_ne (hat.getFolderTasks cfolderid) hid,
      State.load_edit_le hid (fun f => f.load_cutMkdir name 0) p c⟩
  have hrel : Sane (((st.getFolderTasks cfolderid).2.edit p fun f => f.cutMkdir name 0).releaseIf
        (st.getFolderTasks cfolderid).1) ∧
      Held (((st.getFolderTasks cfolderid).2.edit p fun f => f.cutMkdir name 0).releaseIf
        (st.getFolderTasks cfolderid).1) p 1 ∧
      ∀ c, (((st.getFolderTasks cfolderid).2.edit p fun f => f.cutMkdir name 0).releaseIf
        (st.getFolderTasks cfolderid).1).load c =
          ((st.getFolderTasks cfolderid).2.edit p fun f => f.cutMkdir name 0).load c := by
    cases hq : (st.getFolderTasks cfolderid).1 with
    | none => exact ⟨hsane, hheld.edit hkeeps p, fun _ => rfl⟩
    | some q =>
      have hheldq := (h.held_getFolderTasks hq).edit hkeeps p
      refine ⟨hsane.release hheldq, ?_, (State.load_release hinv hsane.keyed hheldq).2⟩
      rcases eq_or_ne p q with rfl | hne
      · exact hinv.held_release_self ((hp.getFolderTasks_self hq).edit hkeeps p)
      · exact hinv.held_release_of_ne hheldq (hheld.edit hkeeps p) hne
  obtain ⟨hsane', hheld', hload'⟩ := hrel
  unfold rmdirTarget
  simp only [State.db_getFolderTasks, hempty, Bool.false_eq_true, if_false, Option.isSome_some,
    if_true]
  split
  · have hrelease := State.load_release hsane'.counted hsane'.keyed hheld'
    refine ⟨hsane'.release hheld', fun c => ?_⟩
    rw [hrelease.2 c, hload' c]
    exact hload c
  · next db _ =>
    have hg := (FolderTasks.orderly_addRmdir
      { folderid := cfolderid, taskid := (rmdirTx
        (((st.getFolderTasks cfolderid).2.edit p fun f => f.cutMkdir name 0).releaseIf
          (st.getFolderTasks cfolderid).1).db folderid name cfolderid
            ((Option.map Mkdir.taskid (some mk)).getD 0)).1, name }).toSound
    have hedit := (hsane'.withDb db).edit (hheld'.withDb db) hg
    have hheld'' := (hheld'.withDb db).edit hg.keeps p
    refine ⟨hedit.release hheld'', fun c => ?_⟩
    rw [(State.load_release hedit.counted hedit.keyed hheld'').2 c,
      State.load_edit_same hg.folderid (fun _ => rfl) p c]
    exact hload' c ▸ hload c

/-- A removal, of an empty folder if it is a pending one. -/
theorem load_rmdir (h : Sane st) (env : Env) (folderid : FolderId) (flags : UInt32) (name : Name)
    (hempty : ∀ f mk, st.getFolderTasksRdlocked folderid = some f → f.findMkdir name 0 = some mk →
      notEmpty st.db (st.getFolderTasksRdlocked mk.folderid) mk.folderid = false) :
    Sane (rmdir env st folderid flags name).2 ∧
      ∀ c, (c ≠ folderid ∨ (st.lookup folderid fun f => f.findMkdir name 0).isNone →
        (rmdir env st folderid flags name).2.load c = st.load c) ∧
        st.load c ≤ (rmdir env st folderid flags name).2.load c + 1 := by
  obtain ⟨hsane, hheld⟩ := h.take folderid
  have hmk := find_getOrCreate (Inv.forget h.counted) folderid (fun f => f.findMkdir name 0)
    (fun _ _ => rfl) fun _ _ => rfl
  have hsame : ∀ {st' : State}, (Sane st' ∧ ∀ c, st'.load c = st.load c) →
      Sane st' ∧ ∀ c, (c ≠ folderid ∨ (st.lookup folderid fun f => f.findMkdir name 0).isNone →
        st'.load c = st.load c) ∧ st.load c ≤ st'.load c + 1 :=
    fun h' => ⟨h'.1, fun c => ⟨fun _ => h'.2 c, (h'.2 c).symm ▸ Nat.le_succ _⟩⟩
  have herror := hsame (h.takeRelease folderid)
  cases hfind : (st.getFolderTasksRdlocked folderid).bind fun f => f.findMkdir name 0 with
  | none =>
    unfold rmdir
    simp only [hmk, hfind]
    split
    · exact herror
    · split
      · exact herror
      · split
        · exact herror
        · exact hsame (load_rmdirTarget_none h env folderid name _)
  | some mk =>
    obtain ⟨f, hf, hfmk⟩ := Option.bind_eq_some_iff.mp hfind
    have hempty := hempty f mk hf hfmk
    let minus : FolderTasks → FolderTasks := fun f => { f with taskscnt := f.taskscnt - 1 }
    have hkeeps : Keeps minus := fun _ => ⟨rfl, rfl⟩
    have howes := Inv.owes_minus hsane.counted (h.counted.held_getOrCreateFolderTasks folderid)
      (hmk.trans hfind)
    have hsees : ∀ db, notEmpty db (((st.getOrCreateFolderTasks folderid).2.edit
        (st.getOrCreateFolderTasks folderid).1 minus).getFolderTasksRdlocked mk.folderid)
          mk.folderid = notEmpty db (st.getFolderTasksRdlocked mk.folderid) mk.folderid := by
      intro db
      rw [notEmpty_edit (g := minus) (fun _ => rfl) (fun _ => ⟨rfl, rfl, rfl, rfl⟩),
        notEmpty_getOrCreate h.keyed]
    obtain ⟨hsane', hload⟩ := load_rmdirTarget_some env howes
      (hsane.keyed.edit (g := minus) (fun _ => rfl) _) (hheld.edit hkeeps _)
      ((h.at_taken folderid).edit (g := minus) (fun _ => rfl) (fun _ => rfl) _) mk
      mk.folderid (by
        rw [notEmpty_getFolderTasks (Inv.forget howes), hsees, State.db_edit,
          State.db_getOrCreateFolderTasks, hempty])
    have hminus : ∀ c, ((st.getOrCreateFolderTasks folderid).2.edit
        (st.getOrCreateFolderTasks folderid).1 minus).load c = st.load c := fun c =>
      (State.load_edit_same (g := minus) (fun _ => rfl) (fun _ => rfl) _ c).trans
        (State.load_getOrCreate h.keyed folderid c)
    unfold rmdir
    simp only [hmk, hfind]
    refine ⟨hsane', fun c => ⟨fun hc => ?_, hminus c ▸ (hload c).2⟩⟩
    rw [State.lookup, hfind] at hc
    exact ((hload c).1 (hc.resolve_right Bool.false_ne_true)).trans (hminus c)

/-- An edit of the folder at a pointer that the caller has. -/
theorem Sane.editAt {p : Nat} {g : FolderTasks → FolderTasks} (h : Sane st) (hp : Held st p 1)
    (hg : FolderTasks.Sound g) (db : Db) :
    Sane ({ st with db }.edit p g) ∧ ∀ c, ({ st with db }.edit p g).load c =
      if c = (st.folder p).folderid then (g (st.folder p)).load else st.load c :=
  ⟨(h.withDb db).edit (hp.withDb db) hg, fun c =>
    State.load_edit (h.withDb db).counted h.keyed (hp.withDb db) hg.folderid c⟩

theorem load_folder {p : Nat} (h : Sane st) (hp : Held st p 1) :
    (st.folder p).load = st.load (st.folder p).folderid := by
  obtain ⟨f, hf, rfl, -⟩ := hp
  rw [h.counted.folder hf, State.load_of_mem h.keyed hf]

theorem load_addCreat {p : Nat} (h : Sane st) (hp : Held st p 1) (env : Env) (name : Name)
    (fileid : FileId) (key : Option Bytes) :
    Sane (addCreat env st p name fileid key).2 ∧
      ∀ c, (addCreat env st p name fileid key).1.isNone ∨ c ≠ (st.folder p).folderid →
        (addCreat env st p name fileid key).2.load c = st.load c := by
  unfold addCreat
  simp only
  split
  · exact ⟨h, fun c _ => rfl⟩
  · obtain ⟨hsane, hload⟩ := h.editAt hp
      ((FolderTasks.orderly_addUnlink _).comp (FolderTasks.orderly_addCreat _)).toSound _
    refine ⟨hsane, fun c hc => (hload c).trans (if_neg ?_)⟩
    exact hc.resolve_left Bool.false_ne_true

theorem load_addModifiedFile {p : Nat} (h : Sane st) (hp : Held st p 1) (env : Env) (name : Name)
    (fileid : FileId) (hash : Int) (key : Option Bytes) :
    Sane (addModifiedFile env st p name fileid hash key).2 ∧
      ∀ c, (c ≠ (st.folder p).folderid →
        (addModifiedFile env st p name fileid hash key).2.load c = st.load c) ∧
        ((addModifiedFile env st p name fileid hash key).1.isNone →
          (addModifiedFile env st p name fileid hash key).2.load c =
            if c = (st.folder p).folderid then ((st.folder p).delCreat name 0).load
            else st.load c) := by
  have hdel := FolderTasks.orderly_delCreat name 0
  obtain ⟨hsane, hload⟩ := h.editAt hp hdel.toSound st.db
  unfold addModifiedFile
  simp only
  split
  · exact ⟨hsane, fun c => ⟨fun hc => (hload c).trans (if_neg hc), fun _ => hload c⟩⟩
  · next db _ =>
    have hheld := hp.edit hdel.keeps p
    have hid : ((st.edit p fun f => f.delCreat name 0).folder p).folderid =
        (st.folder p).folderid := by
      obtain ⟨f, hf, rfl, -⟩ := hp
      rw [h.counted.folder hf, h.counted.folder_edit hf (hdel.keeps f).1, hdel.folderid]
    obtain ⟨hsane', hload'⟩ := hsane.editAt hheld
      ((FolderTasks.orderly_addUnlink _).comp (FolderTasks.orderly_addCreat _)).toSound db
    refine ⟨hsane', fun c => ⟨fun hc => ?_, nofun⟩⟩
    rw [hload' c, if_neg (hid ▸ hc)]
    exact (hload c).trans (if_neg hc)

/-- The transaction of `psync_fstask_add_modified_file` commits. -/
theorem ModifyCommits.isSome {env : Env} {p : Nat} {name : Name} (h : ModifyCommits env st p name)
    (fileid : FileId) (hash : Int) (key : Option Bytes) :
    (addModifiedFile env st p name fileid hash key).1.isSome := by
  have hfailed : (modifyTx st.db (st.folder p).folderid name fileid hash key
      ((st.folder p).findCreat name 0)).2.failed = false := failed_modifyTx h.folder h.creat
  unfold addModifiedFile
  simp only
  rw [Tx.commit_eq_some.mpr ⟨h.commits, hfailed, rfl⟩]
  rfl

/-- A creat of the client's own files, which is not put in where the name is taken. -/
theorem load_addLocalCreatStatic (h : Sane st) (folderid : FolderId) (name : Name) (taskid : Nat) :
    Sane (addLocalCreatStatic st folderid name taskid) ∧
      ∀ c, (c ≠ folderid →
        (addLocalCreatStatic st folderid name taskid).load c = st.load c) ∧
        st.load c ≤ (addLocalCreatStatic st folderid name taskid).load c ∧
        (0 ≤ folderid → (st.lookup folderid fun f => f.findUnlink name 0).isNone →
          (st.db.findFile folderid name).isSome →
          (addLocalCreatStatic st folderid name taskid).load c = st.load c) := by
  obtain ⟨hsane, hload⟩ := h.takeRelease folderid
  have hun := find_getOrCreate (Inv.forget h.counted) folderid (fun f => f.findUnlink name 0)
    (fun _ _ => rfl) fun _ _ => rfl
  have herror : ∀ c, (c ≠ folderid →
      ((st.getOrCreateFolderTasks folderid).2.releaseFolderTasks
        (st.getOrCreateFolderTasks folderid).1).load c = st.load c) ∧
      st.load c ≤ ((st.getOrCreateFolderTasks folderid).2.releaseFolderTasks
        (st.getOrCreateFolderTasks folderid).1).load c ∧
      (0 ≤ folderid → (st.lookup folderid fun f => f.findUnlink name 0).isNone →
        (st.db.findFile folderid name).isSome →
        ((st.getOrCreateFolderTasks folderid).2.releaseFolderTasks
          (st.getOrCreateFolderTasks folderid).1).load c = st.load c) := fun c =>
    ⟨fun _ => hload c, (hload c).ge, fun _ _ _ => hload c⟩
  unfold addLocalCreatStatic
  simp only [hun, State.db_getOrCreateFolderTasks]
  split
  · exact ⟨hsane, herror⟩
  · split
    · exact ⟨hsane, herror⟩
    · next hnot =>
      obtain ⟨hsane', hload'⟩ := h.takeEdit folderid st.db ((FolderTasks.orderly_addUnlink
        { fileid := 0, taskid, name }).comp (FolderTasks.orderly_addCreat
          { fileid := 0, rfileid := 0, taskid, name })).toSound
      have hdb : { (st.getOrCreateFolderTasks folderid).2 with db := st.db } =
          (st.getOrCreateFolderTasks folderid).2 := by
        rw [← State.db_getOrCreateFolderTasks st folderid]
      rw [hdb] at hsane' hload'
      refine ⟨hsane', fun c => ⟨fun hc => (hload' c).trans (if_neg hc), ?_, fun hpos hnone hrow =>
        absurd ⟨hpos, hnone, hrow⟩ hnot⟩⟩
      rw [hload' c]
      split
      · next hc =>
        rw [FolderTasks.load_addCreat, FolderTasks.load_addUnlink, load_taken h.counted, hc]
        exact Nat.le_succ _
      · exact Nat.le_refl _

/-- The folder with the creat taken out. -/
theorem Sane.delCreat (h : Sane st) (folderid : FolderId) (name : Name) :
    Sane ((st.getOrCreateFolderTasks folderid).2.edit (st.getOrCreateFolderTasks folderid).1
        fun f => f.delCreat name 0) ∧
      Held ((st.getOrCreateFolderTasks folderid).2.edit (st.getOrCreateFolderTasks folderid).1
        fun f => f.delCreat name 0) (st.getOrCreateFolderTasks folderid).1 1 ∧
      ∀ c, ((st.getOrCreateFolderTasks folderid).2.edit (st.getOrCreateFolderTasks folderid).1
        fun f => f.delCreat name 0).load c =
        if c = folderid then ((st.taken folderid).delCreat name 0).load else st.load c := by
  have hdel := FolderTasks.orderly_delCreat name 0
  obtain ⟨hsane, hheld⟩ := h.take folderid
  obtain ⟨hsane', hload⟩ := hsane.editAt hheld hdel.toSound
    (st.getOrCreateFolderTasks folderid).2.db
  refine ⟨hsane', hheld.edit hdel.keeps _, fun c => (hload c).trans ?_⟩
  have hid := folderid_taken h.counted folderid
  rw [State.taken] at hid ⊢
  rw [hid]
  split
  · rfl
  · exact State.load_getOrCreate h.keyed folderid c

/-- `psync_fstask_unlink` of a file whose creat is out already, or that has none. -/
theorem load_unlinkTarget {p : Nat} (h : Sane st) (hp : Held st p 1) (env : Env)
    (folderid : FolderId) (name : Name) (fileid : FileId) (rfileid depend : Nat) :
    Sane (unlinkTarget env st p folderid name fileid rfileid depend).2 ∧
      ∀ c, (unlinkTarget env st p folderid name fileid rfileid depend).2.load c = st.load c := by
  unfold unlinkTarget
  simp only [getFileAtOldLocation_snd env fileid h.counted]
  split
  · exact ⟨h.release hp, (State.load_release h.counted h.keyed hp).2⟩
  · next db _ =>
    have hg := (FolderTasks.orderly_addUnlink { fileid, taskid := (unlinkTx env st.db folderid name
      fileid (getFileAtOldLocation env st fileid).1 rfileid depend).1, name }).toSound
    have hedit := (h.withDb db).edit (hp.withDb db) hg
    have hheld := (hp.withDb db).edit hg.keeps p
    refine ⟨hedit.release hheld, fun c => ?_⟩
    rw [(State.load_release hedit.counted hedit.keyed hheld).2 c,
      State.load_edit_same hg.folderid (fun _ => rfl) p c]
    rfl

/-- `psync_fstask_unlink`, by the creat that it finds. -/
theorem load_unlink (h : Sane st) (env : Env) (folderid : FolderId) (name : Name) :
    Sane (unlink env st folderid name).2 ∧
      ∀ c, (c ≠ folderid ∨ (st.lookup folderid fun f => f.findCreat name 0).isNone →
          (unlink env st folderid name).2.load c = st.load c) ∧
        (c = folderid → (unlink env st folderid name).2.load c =
          ((st.taken folderid).delCreat name 0).load) := by
  obtain ⟨hsane, hheld⟩ := h.take folderid
  obtain ⟨hsaneDel, hheldDel, hloadDel⟩ := h.delCreat folderid name
  have hcr := find_getOrCreate (Inv.forget h.counted) folderid (fun f => f.findCreat name 0)
    (fun _ _ => rfl) fun _ _ => rfl
  cases hfind : (st.getFolderTasksRdlocked folderid).bind fun f => f.findCreat name 0 with
  | none =>
    have hdel : ((st.taken folderid).delCreat name 0).load = st.load folderid := by
      rw [((st.taken folderid).load_delCreat name 0).2 (by rw [State.taken, hcr, hfind]; rfl),
        load_taken h.counted]
    have hsame : ∀ {st' : State}, (Sane st' ∧ ∀ c, st'.load c = st.load c) → Sane st' ∧
        ∀ c, (c ≠ folderid ∨ (st.lookup folderid fun f => f.findCreat name 0).isNone →
          st'.load c = st.load c) ∧
          (c = folderid → st'.load c = ((st.taken folderid).delCreat name 0).load) :=
      fun h' => ⟨h'.1, fun c => ⟨fun _ => h'.2 c, fun hc => by rw [h'.2 c, hdel, hc]⟩⟩
    unfold unlink
    simp only [hcr, hfind]
    split
    · obtain ⟨hsane', hload'⟩ := load_unlinkTarget hsane hheld env folderid name _ 0 0
      exact hsame ⟨hsane', fun c => (hload' c).trans (State.load_getOrCreate h.keyed folderid c)⟩
    · exact hsame (h.takeRelease folderid)
  | some cr =>
    have hlookup : ¬ (st.lookup folderid fun f => f.findCreat name 0).isNone := by
      rw [State.lookup, hfind]
      exact Bool.false_ne_true
    have hdone : ∀ {st' : State}, (Sane st' ∧ ∀ c, st'.load c = if c = folderid then
          ((st.taken folderid).delCreat name 0).load else st.load c) → Sane st' ∧
        ∀ c, (c ≠ folderid ∨ (st.lookup folderid fun f => f.findCreat name 0).isNone →
          st'.load c = st.load c) ∧
          (c = folderid → st'.load c = ((st.taken folderid).delCreat name 0).load) :=
      fun h' => ⟨h'.1, fun c => ⟨fun hc => (h'.2 c).trans (if_neg (hc.resolve_right hlookup)),
        fun hc => (h'.2 c).trans (if_pos hc)⟩⟩
    unfold unlink
    simp only [hcr, hfind]
    split
    · have hg := ((FolderTasks.orderly_delUnlink cr.name cr.taskid).comp
        (FolderTasks.orderly_delCreat name 0)).toSound
      obtain ⟨hsane', hload'⟩ := h.takeEdit folderid (st.getOrCreateFolderTasks folderid).2.db hg
      refine hdone ⟨hsane', fun c => (hload' c).trans ?_⟩
      split
      · exact load_delUnlink_delCreat _ _ _ _
      · rfl
    · obtain ⟨hsane', hload'⟩ := load_unlinkTarget hsaneDel hheldDel env folderid name cr.fileid
        cr.rfileid cr.taskid
      exact hdone ⟨hsane', fun c => (hload' c).trans (hloadDel c)⟩

/-! ## Renames -/

/-- The first half of `psync_fstask_rename_file`, with the file out of its old folder. -/
def renameFileFrom (st : State) (fileid : FileId) (parentfolderid : FolderId) (name : Name)
    (ftaskid : Nat) (db : Db) : State :=
  ({ (st.getOrCreateFolderTasks parentfolderid).2 with db }.edit
    (st.getOrCreateFolderTasks parentfolderid).1 fun f =>
      (f.delCreat name 0).addUnlink { fileid, taskid := ftaskid, name }).releaseFolderTasks
        (st.getOrCreateFolderTasks parentfolderid).1

theorem load_renameFileFrom (h : Sane st) (fileid : FileId) (parentfolderid : FolderId)
    (name : Name) (ftaskid : Nat) (db : Db) :
    Sane (renameFileFrom st fileid parentfolderid name ftaskid db) ∧
      ∀ c, (renameFileFrom st fileid parentfolderid name ftaskid db).load c =
        if c = parentfolderid then ((st.taken parentfolderid).delCreat name 0).load
        else st.load c :=
  h.takeEdit parentfolderid db ((FolderTasks.orderly_delCreat name 0).comp
    (FolderTasks.orderly_addUnlink { fileid, taskid := ftaskid, name })).toSound

/-- `psync_fstask_rename_file` fails, or has both halves done. -/
theorem load_renameFile (h : Sane st) (env : Env) (fileid : FileId) (parentfolderid : FolderId)
    (name : Name) (to_folderid : FolderId) (new_name : Option Name) :
    Sane (renameFile env st fileid parentfolderid name to_folderid new_name).2 ∧
      ((renameFile env st fileid parentfolderid name to_folderid new_name).1.isSome →
        ∀ c, (renameFile env st fileid parentfolderid name to_folderid new_name).2.load c =
          st.load c) ∧
      ((renameFile env st fileid parentfolderid name to_folderid new_name).1.isNone →
        ∃ ftaskid db, ∀ c, c ≠ to_folderid →
          (renameFile env st fileid parentfolderid name to_folderid new_name).2.load c =
            (renameFileFrom st fileid parentfolderid name ftaskid db).load c) := by
  unfold renameFile
  simp only
  split
  · obtain ⟨hsane, hload⟩ := h.takeRelease parentfolderid
    exact ⟨hsane, fun _ => hload, nofun⟩
  · next db _ =>
    have hfrom := (load_renameFileFrom h fileid parentfolderid name (renameFileTx st.db fileid
      parentfolderid name to_folderid (new_name.getD name)
        ((st.getOrCreateFolderTasks parentfolderid).2.folder
          (st.getOrCreateFolderTasks parentfolderid).1 |>.findCreat name 0)).1 db).1
    simp only [State.db_getOrCreateFolderTasks] at hfrom ⊢
    obtain ⟨hsane, hload⟩ := hfrom.takeEdit to_folderid _
      (((FolderTasks.orderly_delCreat (new_name.getD name) 0).comp
        (FolderTasks.orderly_addUnlink _)).comp (FolderTasks.orderly_addCreat _)).toSound
    exact ⟨hsane, nofun, fun _ => ⟨_, _, fun c hc => (hload c).trans (if_neg hc)⟩⟩

/-- `psync_fstask_rename_folder`, which takes a mkdir out of the old folder. -/
theorem load_renameFolder (h : Sane st) (env : Env) (folderid parentfolderid : FolderId)
    (name : Name) (to_folderid : FolderId) (new_name : Option Name) (flags : UInt32) :
    Sane (renameFolder env st folderid parentfolderid name to_folderid new_name flags).2 ∧
      ((renameFolder env st folderid parentfolderid name to_folderid new_name flags).1.isSome →
        ∀ c, (renameFolder env st folderid parentfolderid name to_folderid new_name flags).2.load
          c =
          st.load c) ∧
      ∀ c, c ≠ to_folderid →
        (renameFolder env st folderid parentfolderid name to_folderid new_name flags).2.load c =
            st.load c ∨
          c = parentfolderid ∧
            (renameFolder env st folderid parentfolderid name to_folderid new_name flags).2.load c =
              ((st.taken parentfolderid).delMkdir name 0).load := by
  unfold renameFolder
  simp only [snd_deleteFolderIfEx h.counted]
  split
  · obtain ⟨hsane, hload⟩ := h.takeRelease parentfolderid
    exact ⟨hsane, fun _ => hload, fun c _ => .inl (hload c)⟩
  · next db _ =>
    obtain ⟨hsane, hload⟩ :=
      h.takeEdit parentfolderid db ((FolderTasks.orderly_delMkdir name 0).comp
      (FolderTasks.orderly_addRmdir _)).toSound
    obtain ⟨hsane', hload'⟩ := hsane.takeEdit to_folderid _
      (((FolderTasks.orderly_delMkdir name 0).comp (FolderTasks.orderly_addRmdir _)).comp
        (FolderTasks.orderly_addMkdir _)).toSound
    refine ⟨hsane', nofun, fun c hc => ?_⟩
    have hfinal := ((hload' c).trans (if_neg hc)).trans (hload c)
    split at hfinal
    · next heq => exact .inr ⟨heq, hfinal⟩
    · exact .inl hfinal

theorem renameFolder_fails {env : Env} {folderid parentfolderid : FolderId} {name : Name}
    {to_folderid : FolderId} {new_name : Option Name} {flags : UInt32} (h : env.commits = false) :
    (renameFolder env st folderid parentfolderid name to_folderid new_name flags).1.isSome := by
  unfold renameFolder
  simp only [h, Tx.commit, Bool.false_and, Bool.false_eq_true, if_false, Option.isSome_some]

/-! ## Completions -/

/-- An edit of other things than creats and mkdirs, of a folder that has tasks. -/
theorem Sane.withFolder_same {g : FolderTasks → FolderTasks} (h : Sane st) (folderid : FolderId)
    (hg : FolderTasks.Sound g) (hload : ∀ f, (g f).load = f.load) :
    Sane (st.withFolder folderid g) ∧ ∀ c, (st.withFolder folderid g).load c = st.load c := by
  obtain ⟨hsane, heq⟩ := h.withFolder folderid hg
  refine ⟨hsane, fun c => (heq c).trans ?_⟩
  split
  · next hc =>
    rw [hc, State.load]
    cases st.getFolderTasksRdlocked folderid with
    | none => rfl
    | some f => exact hload _
  · rfl

/-- An edit of a folder that has tasks in which `find` finds nothing, where the edit needs that. -/
theorem Sane.withFolder_isNone {α : Type} {g : FolderTasks → FolderTasks} (h : Sane st)
    (folderid : FolderId) (hg : FolderTasks.Sound g) (find : FolderTasks → Option α)
    (hfind : ∀ f r, find { f with refcnt := r } = find f)
    (hload : ∀ f, (find f).isNone → (g f).load = f.load) :
    Sane (st.withFolder folderid g) ∧ ∀ c, c ≠ folderid ∨ (st.lookup folderid find).isNone →
      (st.withFolder folderid g).load c = st.load c := by
  obtain ⟨hsane, heq⟩ := h.withFolder folderid hg
  refine ⟨hsane, fun c hc => (heq c).trans ?_⟩
  split
  · next heq =>
    have hc := hc.resolve_left fun hne => hne heq
    rw [heq, State.load]
    unfold State.lookup at hc
    cases hlook : st.getFolderTasksRdlocked folderid with
    | none => rfl
    | some f =>
      rw [hlook] at hc
      have hnone := (congrArg Option.isNone (hfind f (f.refcnt + 1))).trans hc
      exact hload _ hnone
  · rfl

theorem load_renumberFolder (h : Sane st) (taskid : Nat) (folderid : FolderId)
    (hnew : st.getFolderTasksRdlocked (-taskid) = none ∨
      st.getFolderTasksRdlocked folderid = none) :
    Sane (renumberFolder st taskid folderid) ∧
      ∀ c, (st.getFolderTasksRdlocked (-taskid)).isNone ∨
          c ≠ -(taskid : FolderId) ∧ c ≠ folderid →
        (renumberFolder st taskid folderid).load c = st.load c := by
  cases hfind : st.getFolderTasksRdlocked (-taskid) with
  | none =>
    have hget : st.getFolderTasks (-taskid) = (none, st) := by rw [State.getFolderTasks, hfind]
    unfold renumberFolder
    simp only [hget, implies_true, and_true]
    exact h
  | some f =>
    have hmem := State.mem_of_getFolderTasksRdlocked hfind
    have hget : st.getFolderTasks (-taskid) = (some f.addr, st.getRef f.addr) := by
      rw [State.getFolderTasks, hfind]
    have hnew := hnew.resolve_left (by rw [hfind]; simp)
    have hheld := (h.counted.held hmem).getRef_self
    have hinv := h.counted.getRef stable_counted.refFree hmem
    have hkeyed : Keyed (st.getRef f.addr) :=
      h.keyed.edit (g := fun f => { f with refcnt := f.refcnt + 1 }) (fun _ => rfl) f.addr
    have hnone : (st.getRef f.addr).getFolderTasksRdlocked folderid = none := by
      have hmap : (st.edit f.addr fun f => { f with refcnt := f.refcnt + 1 }).getFolderTasksRdlocked
          folderid = (st.getFolderTasksRdlocked folderid).map fun x =>
            if x.addr = f.addr then { x with refcnt := x.refcnt + 1 } else x :=
        State.getFolderTasksRdlocked_edit (g := fun x => { x with refcnt := x.refcnt + 1 })
          (fun _ => rfl) folderid
      rw [State.getRef, hmap, hnew, Option.map_none]
    have hfolder : ((st.getRef f.addr).folder f.addr).folderid = -taskid := by
      have heq : (st.getRef f.addr).folder f.addr = { f with refcnt := f.refcnt + 1 } :=
        h.counted.folder_edit hmem rfl
      have hid : f.folderid = -taskid := State.folderid_of_getFolderTasksRdlocked hfind
      rw [heq]
      exact hid
    obtain ⟨hinv', hheld'⟩ := Inv.rekey stable_counted hinv hheld folderid
    obtain ⟨hkeyed', hload⟩ := State.load_rekey hinv hkeyed hheld hnone
    unfold renumberFolder
    simp only [hget]
    have hrelease := State.load_release hinv' hkeyed' hheld'
    refine ⟨⟨Inv.put stable_counted hinv' hheld', hrelease.1⟩, fun c hc => ?_⟩
    obtain ⟨hne, hne'⟩ := hc.resolve_left Bool.false_ne_true
    rw [hrelease.2 c, hload c (hfolder ▸ hne) hne']
    exact State.load_edit_same (g := fun f => { f with refcnt := f.refcnt + 1 }) (fun _ => rfl)
      (fun _ => rfl) f.addr c

/-- `psync_fstask_folder_created` up to the point where the new folder gets its id. -/
def folderCreatedParent (st : State) (parentfolderid : FolderId) (taskid : Nat)
    (folderid : FolderId) (name : Name) : State :=
  let mk := st.lookup parentfolderid fun f => f.findMkdir name taskid
  let st := st.withFolder parentfolderid fun f => f.delMkdir name taskid
  if mk.isNone then lookForMkdirInDb st taskid folderid else st

theorem load_folderCreatedParent (h : Sane st) (parentfolderid : FolderId) (taskid : Nat)
    (folderid : FolderId) (name : Name) :
    Sane (folderCreatedParent st parentfolderid taskid folderid name) ∧
      ∀ c, c ≠ parentfolderid ∨
          (st.lookup parentfolderid fun f => f.findMkdir name taskid).isNone →
        (folderCreatedParent st parentfolderid taskid folderid name).load c = st.load c := by
  obtain ⟨hsane, hload⟩ := h.withFolder_isNone parentfolderid
    (FolderTasks.orderly_delMkdir name taskid).toSound (fun f => f.findMkdir name taskid)
    (fun _ _ => rfl) fun f => (f.load_delMkdir name taskid).2
  unfold folderCreatedParent lookForMkdirInDb
  simp only
  split
  · split
    · exact ⟨hsane, hload⟩
    · next row _ =>
      obtain ⟨hsane', hload'⟩ := hsane.withFolder_same (row.sfolderid.getD 0)
        (FolderTasks.orderly_setMkdirFolderid (-taskid) folderid).toSound fun f =>
          f.load_setMkdirFolderid _ _
      exact ⟨hsane', fun c hc => (hload' c).trans (hload c hc)⟩
  · exact ⟨hsane, hload⟩

/-- The ids after a release are ids from before. -/
theorem ids_release {P : FolderTasks → Prop} {p : Nat} (h : Inv P st) (hp : Held st p 1) :
    ∀ x ∈ (st.releaseFolderTasks p).folders.toList,
      ∃ y ∈ st.folders.toList, y.folderid = x.folderid := by
  obtain ⟨f, hf, rfl, -⟩ := hp
  obtain ⟨a, b, hsplit⟩ := List.append_of_mem hf
  intro x hx
  rw [h.release_split hsplit] at hx
  rw [hsplit]
  split at hx
  · refine ⟨x, ?_, rfl⟩
    simp only [List.mem_append, List.mem_cons] at hx ⊢
    tauto
  · simp only [List.mem_append, List.mem_cons] at hx ⊢
    rcases hx with hx | rfl | hx
    · exact ⟨x, .inl hx, rfl⟩
    · exact ⟨f, .inr (.inl rfl), rfl⟩
    · exact ⟨x, .inr (.inr hx), rfl⟩

/-- No folder is made where there is none. -/
theorem rdlocked_withFolder {g : FolderTasks → FolderTasks} (h : Sane st) (folderid : FolderId)
    (hg : FolderTasks.Sound g) {c : FolderId} (hc : st.getFolderTasksRdlocked c = none) :
    (st.withFolder folderid g).getFolderTasksRdlocked c = none := by
  have hkeyed := (h.withFolder folderid hg).1.keyed
  have hids : ∀ x ∈ (st.withFolder folderid g).folders.toList,
      ∃ y ∈ st.folders.toList, y.folderid = x.folderid := by
    have hedit : ∀ {st : State} (p : Nat) {g : FolderTasks → FolderTasks},
        (∀ f, (g f).folderid = f.folderid) → ∀ x ∈ (st.edit p g).folders.toList,
          ∃ y ∈ st.folders.toList, y.folderid = x.folderid := by
      intro st p g hid x hx
      rw [State.toList_edit] at hx
      obtain ⟨y, hy, rfl⟩ := List.mem_map.mp hx
      refine ⟨y, hy, ?_⟩
      split
      · exact (hid y).symm
      · rfl
    cases hfind : st.getFolderTasksRdlocked folderid with
    | none =>
      have hget : st.getFolderTasks folderid = (none, st) := by rw [State.getFolderTasks, hfind]
      unfold State.withFolder
      simp only [hget]
      exact fun x hx => ⟨x, hx, rfl⟩
    | some f =>
      have hmem := State.mem_of_getFolderTasksRdlocked hfind
      have hget : st.getFolderTasks folderid = (some f.addr, st.getRef f.addr) := by
        rw [State.getFolderTasks, hfind]
      have hheld := (h.counted.held hmem).getRef_self.edit hg.keeps f.addr
      have hinv := (h.counted.getRef stable_counted.refFree hmem).edit
        (h.counted.held hmem).getRef_self hg.keeps hg.counted
      unfold State.withFolder
      simp only [hget]
      intro x hx
      obtain ⟨y, hy, hyx⟩ := ids_release hinv hheld x hx
      obtain ⟨z, hz, hzy⟩ := hedit f.addr hg.folderid y hy
      obtain ⟨w, hw, hwz⟩ := hedit f.addr (g := fun f => { f with refcnt := f.refcnt + 1 })
        (fun _ => rfl) z hz
      exact ⟨w, hw, hwz.trans (hzy.trans hyx)⟩
  cases hfind : (st.withFolder folderid g).getFolderTasksRdlocked c with
  | none => rfl
  | some x =>
    obtain ⟨hx, hid⟩ := hkeyed.rdlocked_iff.mp hfind
    obtain ⟨y, hy, hyx⟩ := hids x hx
    rw [h.keyed.rdlocked_iff.mpr ⟨hy, hyx.trans hid⟩] at hc
    cases hc

theorem rdlocked_folderCreatedParent (h : Sane st) (parentfolderid : FolderId) (taskid : Nat)
    (folderid : FolderId) (name : Name) (c : FolderId) (hc : st.getFolderTasksRdlocked c = none) :
    (folderCreatedParent st parentfolderid taskid folderid name).getFolderTasksRdlocked c =
      none := by
  have hdel := (FolderTasks.orderly_delMkdir name taskid).toSound
  have hsane := (h.withFolder parentfolderid hdel).1
  have hnone := rdlocked_withFolder h parentfolderid hdel hc
  unfold folderCreatedParent lookForMkdirInDb
  simp only
  split
  · split
    · exact hnone
    · exact rdlocked_withFolder hsane _
        (FolderTasks.orderly_setMkdirFolderid (-taskid) folderid).toSound hnone
  · exact hnone

theorem load_fileCreated (h : Sane st) (parentfolderid : FolderId) (taskid : Nat) (name : Name)
    (fileid : FileId) :
    Sane (fileCreated st parentfolderid taskid name fileid) ∧
      ∀ c, c ≠ parentfolderid ∨
          (st.lookup parentfolderid fun f => f.findCreat name taskid).isNone →
        (fileCreated st parentfolderid taskid name fileid).load c = st.load c := by
  obtain ⟨hsane, hload⟩ := h.withFolder_isNone parentfolderid
    ((FolderTasks.orderly_delCreat name taskid).comp
      (FolderTasks.orderly_delUnlink name taskid)).toSound
    (fun f => f.findCreat name taskid) (fun _ _ => rfl) fun f hf =>
      (FolderTasks.load_delUnlink _ _ _).trans ((f.load_delCreat name taskid).2 hf)
  unfold fileCreated lookForCreatInDb
  simp only
  split
  · split
    · exact ⟨hsane, hload⟩
    · next row _ =>
      obtain ⟨hsane', hload'⟩ := hsane.withFolder_same (row.sfolderid.getD 0)
        (FolderTasks.orderly_setCreatFileid (-taskid) fileid).toSound fun f =>
          f.load_setCreatFileid _ _
      exact ⟨hsane', fun c hc => (hload' c).trans (hload c hc)⟩
  · exact ⟨hsane, hload⟩

/-- The second half of a rename's end, which takes out an unlink or an rmdir. -/
theorem load_renamedFrom {del : Name → Nat → FolderTasks → FolderTasks}
    (hdel : ∀ name taskid, FolderTasks.Orderly (del name taskid))
    (hload : ∀ name taskid f, (del name taskid f).load = f.load) (h : Sane st) (frtaskid : Nat) :
    Sane (renamedFrom del st frtaskid) ∧ ∀ c, (renamedFrom del st frtaskid).load c = st.load c := by
  unfold renamedFrom
  simp only
  split
  · exact ⟨h.withDb _, fun _ => rfl⟩
  · next row _ =>
    obtain ⟨hsane, hsame⟩ := h.withFolder_same row.folderid
      (hdel (row.text1.getD []) row.id).toSound (hload _ _)
    exact ⟨hsane.withDb _, hsame⟩

/-- The first half of the end of a file's rename. -/
theorem load_fileRenamedTo (h : Sane st) (folderid : FolderId) (taskid : Nat) (name : Name) :
    Sane (st.withFolder folderid fun f => (f.delUnlink name taskid).delCreat name taskid) ∧
      ∀ c, c ≠ folderid ∨ (st.lookup folderid fun f => f.findCreat name taskid).isNone →
        (st.withFolder folderid fun f => (f.delUnlink name taskid).delCreat name taskid).load c =
          st.load c := by
  refine h.withFolder_isNone folderid ((FolderTasks.orderly_delUnlink name taskid).comp
    (FolderTasks.orderly_delCreat name taskid)).toSound
    (fun f => f.findCreat name taskid) (fun _ _ => rfl) fun f hf => ?_
  have hcreats : (f.delUnlink name taskid).creats = f.creats := by
    unfold FolderTasks.delUnlink
    split <;> rfl
  refine ((f.delUnlink name taskid).load_delCreat name taskid).2 ?_ |>.trans
    (f.load_delUnlink name taskid)
  rw [FolderTasks.findCreat, hcreats]
  exact hf

/-- And of a folder's. -/
theorem load_folderRenamedTo (h : Sane st) (folderid : FolderId) (taskid : Nat) (name : Name) :
    Sane (st.withFolder folderid fun f => (f.delMkdir name taskid).delRmdir name taskid) ∧
      ∀ c, c ≠ folderid ∨ (st.lookup folderid fun f => f.findMkdir name taskid).isNone →
        (st.withFolder folderid fun f => (f.delMkdir name taskid).delRmdir name taskid).load c =
          st.load c :=
  h.withFolder_isNone folderid ((FolderTasks.orderly_delMkdir name taskid).comp
    (FolderTasks.orderly_delRmdir name taskid)).toSound
    (fun f => f.findMkdir name taskid) (fun _ _ => rfl) fun f hf =>
      (FolderTasks.load_delRmdir _ _ _).trans ((f.load_delMkdir name taskid).2 hf)

/-! ## Restart and other edits -/

theorem Sane.withNewFolder {g : FolderTasks → FolderTasks} (h : Sane st) (folderid : FolderId)
    (hg : FolderTasks.Sound g) :
    Sane (st.withNewFolder folderid g) ∧ ∀ c, (st.withNewFolder folderid g).load c =
      if c = folderid then (g (st.taken folderid)).load else st.load c :=
  h.takeEdit folderid (st.getOrCreateFolderTasks folderid).2.db hg

/-- The replay of a row: only the row's folder changes, and a type that puts no creat and no mkdir
in takes one out at most, where it finds one. -/
theorem load_initTask (h : Sane st) (env : InitEnv) (row : TaskRow) :
    Sane (initTask env st row) ∧
      (∀ c, c ≠ row.folderid → (initTask env st row).load c = st.load c) ∧
      match row.type with
      | .rmdir | .renfolderFrom => (initTask env st row).load row.folderid =
          ((st.taken row.folderid).delMkdir (row.text1.getD []) 0).load
      | .unlink | .unSetRev | .renfileFrom => (initTask env st row).load row.folderid =
          ((st.taken row.folderid).delCreat (row.text1.getD []) 0).load
      | .renfolderTo => st.load row.folderid ≤ (initTask env st row).load row.folderid
      | .setFileMod | .setFileCr => (initTask env st row).load row.folderid = st.load row.folderid
      | _ => True := by
  unfold initTask
  cases hg : initTaskFunc env st.db row with
  | none =>
    refine ⟨h, fun c _ => rfl, ?_⟩
    cases htype : row.type with
    | setFileMod => exact rfl
    | setFileCr => exact rfl
    | _ => simp [initTaskFunc, htype] at hg
  | some g =>
    obtain ⟨hsane, hload⟩ := h.withNewFolder row.folderid (initTask_edit env st.db row hg).1
    have hfolder := (hload row.folderid).trans (if_pos rfl)
    refine ⟨hsane, fun c hc => (hload c).trans (if_neg hc), ?_⟩
    simp only
    rw [hfolder]
    unfold initTaskFunc at hg
    cases htype : row.type with
    | setFileMod => simp [htype] at hg
    | setFileCr => simp [htype] at hg
    | renfolderTo =>
      rw [htype] at hg
      obtain rfl := Option.some.inj hg
      have hadd : ∀ f, (initTaskRenfolderTo env st.db row f).load = f.load + 1 := fun f =>
        FolderTasks.load_addMkdir _ _
      rw [hadd, load_taken h.counted]
      exact Nat.le_succ _
    | _ =>
      rw [htype] at hg
      obtain rfl := Option.some.inj hg
      trivial

end Operations

end PcloudClient.Pfstasks
