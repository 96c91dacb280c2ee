/-
  Pfstasks/Checks.lean --- the checks before a removal and the removals.

  `psync_fstask_can_rmdir` and `psync_fstask_rmdir` take the decision twice, the second in
  a state where the folder of the entry is made if it was not there.  Both are compared
  with one decision over the folders as they stand.
-/
import PcloudClient.Pfstasks.Entries
import PcloudClient.Pfstasks.Transactions

set_option autoImplicit false

namespace PcloudClient.Pfstasks

open State (Inv Keyed Held)

/-- The folders are a search tree of distinct folders with tasks or references. -/
structure WellFormed (st : State) : Prop where
  inv : Inv (fun _ => True) st
  keyed : Keyed st

theorem refFree_true : RefFree fun _ => True := fun _ _ _ => trivial

/-! ## The decision -/

/-- What a removal of the folder `c` ends with, but for the database. -/
def emptied (st : State) (c : FolderId) : Option Errno :=
  if notEmpty st.db (st.getFolderTasksRdlocked c) c then some .enotempty else none

/-- What a removal of `name` ends with, but for the database. -/
def rmdirDecision (st : State) (folderid : FolderId) (parentflags : UInt32) (name : Name) :
    Option Errno :=
  match (st.getFolderTasksRdlocked folderid).bind fun f => f.findMkdir name 0 with
  | some mk => emptied st mk.folderid
  | none =>
    match st.db.findFolder folderid name with
    | none => some .enoent
    | some row =>
      match (st.getFolderTasksRdlocked folderid).bind fun f => f.findRmdir name 0 with
      | some _ => some .enoent
      | none =>
        match rmdirRow parentflags row with
        | .error e => some e
        | .ok cfolderid => emptied st cfolderid

/-- Two folders with the same entries. -/
structure SameTasks (f f' : FolderTasks) : Prop where
  mkdirs : f.mkdirs = f'.mkdirs
  rmdirs : f.rmdirs = f'.rmdirs
  creats : f.creats = f'.creats
  unlinks : f.unlinks = f'.unlinks

theorem notEmpty_congr {f f' : FolderTasks} (h : SameTasks f f') (db : Db) (c : FolderId) :
    notEmpty db (some f) c = notEmpty db (some f') c := by
  simp only [notEmpty, FolderTasks.findUnlink, FolderTasks.findRmdir, h.mkdirs, h.rmdirs, h.creats,
    h.unlinks]

/-- A folder that was just made hides nothing. -/
theorem notEmpty_new (db : Db) (addr : Nat) (folderid : FolderId) (refcnt : Int) (c : FolderId) :
    notEmpty db (some { addr, folderid, refcnt }) c = notEmpty db none c := rfl

/-- An edit of other things than the entries. -/
theorem notEmpty_edit {st : State} {p : Nat} {g : FolderTasks → FolderTasks}
    (hid : ∀ f, (g f).folderid = f.folderid) (hg : ∀ f, SameTasks (g f) f) (db : Db)
    (c : FolderId) :
    notEmpty db ((st.edit p g).getFolderTasksRdlocked c) c =
      notEmpty db (st.getFolderTasksRdlocked c) c := by
  rw [State.getFolderTasksRdlocked_edit hid]
  cases st.getFolderTasksRdlocked c with
  | none => rfl
  | some f =>
    rw [Option.map_some]
    split
    · exact notEmpty_congr (hg f) db c
    · rfl

/-- What a function sees of a folder it has taken. -/
theorem notEmpty_getFolderTasks {st : State} (h : Inv (fun _ => True) st) (db : Db) (c : FolderId) :
    notEmpty db ((st.getFolderTasks c).1.map (st.getFolderTasks c).2.folder) c =
      notEmpty db (st.getFolderTasksRdlocked c) c := by
  rw [h.folder_getFolderTasks]
  cases st.getFolderTasksRdlocked c with
  | none => rfl
  | some f => exact notEmpty_congr ⟨rfl, rfl, rfl, rfl⟩ db c

theorem notEmpty_getRef {st : State} (p : Nat) (db : Db) (c : FolderId) :
    notEmpty db ((st.getRef p).getFolderTasksRdlocked c) c =
      notEmpty db (st.getFolderTasksRdlocked c) c :=
  notEmpty_edit (g := fun f => { f with refcnt := f.refcnt + 1 }) (fun _ => rfl)
    (fun _ => ⟨rfl, rfl, rfl, rfl⟩) db c

/-! ## The checks -/

/-- The second half of `psync_fstask_can_rmdir`, with the folder `o` taken. -/
theorem canRmdir_target {st st' : State} (h : Inv (fun _ => True) st') (hdb : st'.db = st.db)
    {o : Option Nat} (hrelease : st'.releaseIf o = st)
    (hsees : ∀ c, notEmpty st.db (st'.getFolderTasksRdlocked c) c =
      notEmpty st.db (st.getFolderTasksRdlocked c) c) (c : FolderId) :
    (let r := st'.getFolderTasks c
      if notEmpty r.2.db (r.1.map r.2.folder) c then
        some (some Errno.enotempty, (r.2.releaseIf r.1).releaseIf o)
      else some (none, (r.2.releaseIf r.1).releaseIf o)) = some (emptied st c, st) := by
  simp only [State.db_getFolderTasks, h.releaseIf_getFolderTasks, hdb, notEmpty_getFolderTasks h,
    hsees, hrelease, emptied]
  split <;> rfl

/-- `psync_fstask_can_rmdir` takes the decision and changes nothing, unless there is neither
a folder with tasks nor a row. -/
theorem canRmdir_eq {st : State} (h : Inv (fun _ => True) st) (folderid : FolderId)
    (parentflags : UInt32) (name : Name) :
    canRmdir st folderid parentflags name =
      if (st.getFolderTasksRdlocked folderid).isSome ∨ (st.db.findFolder folderid name).isSome then
        some (rmdirDecision st folderid parentflags name, st)
      else none := by
  cases hfind : st.getFolderTasksRdlocked folderid with
  | none =>
    have hget : st.getFolderTasks folderid = (none, st) := by rw [State.getFolderTasks, hfind]
    unfold canRmdir rmdirDecision
    simp only [hget, hfind, Option.bind_none, Option.map_none, Option.isSome_none,
      Bool.false_eq_true, false_or]
    cases hrow : st.db.findFolder folderid name with
    | none => rfl
    | some row =>
      simp only [Option.isSome_some, if_true]
      cases hr : rmdirRow parentflags row with
      | error e => rfl
      | ok c => exact canRmdir_target h rfl rfl (fun _ => rfl) c
  | some f =>
    have hmem := State.mem_of_getFolderTasksRdlocked hfind
    have hget : st.getFolderTasks folderid = (some f.addr, st.getRef f.addr) := by
      rw [State.getFolderTasks, hfind]
    have hfolder : (st.getRef f.addr).folder f.addr = { f with refcnt := f.refcnt + 1 } :=
      h.folder_edit hmem rfl
    have hinv : Inv (fun _ => True) (st.getRef f.addr) := h.getRef refFree_true hmem
    have hrelease : (st.getRef f.addr).releaseIf (some f.addr) = st := h.release_getRef hmem
    have hdb : (st.getRef f.addr).db = st.db := rfl
    have hmk : FolderTasks.findMkdir { f with refcnt := f.refcnt + 1 } name 0 =
        f.findMkdir name 0 := rfl
    have hrm : FolderTasks.findRmdir { f with refcnt := f.refcnt + 1 } name 0 =
        f.findRmdir name 0 := rfl
    unfold canRmdir rmdirDecision
    simp only [hget, hfind, Option.bind_some, Option.map_some, Option.isSome_some, true_or, if_true,
      hfolder, hmk, hrm, hdb]
    cases f.findMkdir name 0 with
    | some mk =>
      exact canRmdir_target hinv hdb hrelease (fun c => notEmpty_getRef _ _ c) mk.folderid
    | none =>
      cases hrow : st.db.findFolder folderid name with
      | none =>
        simp only [hrelease]
      | some row =>
        cases f.findRmdir name 0 with
        | some rm => simp only [hrelease]
        | none =>
          cases hr : rmdirRow parentflags row with
          | error e => simp only [hr, hrelease]
          | ok c =>
            simp only [hr]
            exact canRmdir_target hinv hdb hrelease (fun c => notEmpty_getRef _ _ c) c

/-- What a removal of the file `name` ends with, but for the database. -/
def unlinkDecision (st : State) (folderid : FolderId) (name : Name) : Option Errno :=
  match (st.getFolderTasksRdlocked folderid).bind fun f => f.findCreat name 0 with
  | some _ => none
  | none =>
    match st.db.findFile folderid name,
        (st.getFolderTasksRdlocked folderid).bind fun f => f.findUnlink name 0 with
    | some _, none => none
    | _, _ => some .enoent

theorem canUnlink_eq {st : State} (h : Inv (fun _ => True) st) (folderid : FolderId) (name : Name) :
    canUnlink st folderid name = (unlinkDecision st folderid name, st) := by
  unfold canUnlink unlinkDecision
  cases hfind : st.getFolderTasksRdlocked folderid with
  | none =>
    have hget : st.getFolderTasks folderid = (none, st) := by rw [State.getFolderTasks, hfind]
    simp only [hget, Option.bind_none]
    cases st.db.findFile folderid name <;> rfl
  | some f =>
    have hmem := State.mem_of_getFolderTasksRdlocked hfind
    have hget : st.getFolderTasks folderid = (some f.addr, st.getRef f.addr) := by
      rw [State.getFolderTasks, hfind]
    have hfolder : (st.getRef f.addr).folder f.addr = { f with refcnt := f.refcnt + 1 } :=
      h.folder_edit hmem rfl
    have hrelease : (st.getRef f.addr).releaseIf (some f.addr) = st := h.release_getRef hmem
    have hdb : (st.getRef f.addr).db = st.db := rfl
    have hcr : FolderTasks.findCreat { f with refcnt := f.refcnt + 1 } name 0 =
        f.findCreat name 0 := rfl
    have hun : FolderTasks.findUnlink { f with refcnt := f.refcnt + 1 } name 0 =
        f.findUnlink name 0 := rfl
    simp only [hget, Option.bind_some, hfolder, hrelease, hdb, hcr, hun]
    cases f.findCreat name 0 with
    | some cr => rfl
    | none => cases st.db.findFile folderid name <;> cases f.findUnlink name 0 <;> rfl

/-! ## The removals -/

/-- No statement of the transaction of `psync_fstask_rmdir` fails, nor its `COMMIT`. -/
structure RmdirCommits (env : Env) (st : State) (folderid : FolderId) (name : Name) : Prop where
  commits : env.commits = true
  mkdir : ∀ f mk, st.getFolderTasksRdlocked folderid = some f → f.findMkdir name 0 = some mk →
    mk.taskid ≠ 0 → st.db.HasTask mk.taskid

/-- The same for `psync_fstask_unlink`. -/
structure UnlinkCommits (env : Env) (st : State) (folderid : FolderId) (name : Name) : Prop where
  commits : env.commits = true
  creat : ∀ f cr, st.getFolderTasksRdlocked folderid = some f → f.findCreat name 0 = some cr →
    (cr.taskid ≠ 0 → st.db.HasTask cr.taskid) ∧ (cr.fileid < 0 → st.db.HasTask (-cr.fileid).toNat)
  /-- The pending file at the place where a file was before. -/
  old : ∀ f ∈ st.folders.toList, ∀ cr ∈ f.creats.toList, ∀ fileid,
    env.hloc fileid = some (f.folderid, cr.name) → cr.fileid < 0 →
      st.db.HasTask (-cr.fileid).toNat
  /-- The ids of the database are those of the server. -/
  rows : ∀ row ∈ st.db.file, 0 ≤ row.id

theorem rmdirTarget_fst {env : Env} {st st' : State} {p : Nat} {folderid : FolderId} {name : Name}
    {mk : Option Mkdir} {c : FolderId} (h : Inv (fun _ => True) st') (hdb : st'.db = st.db)
    (hsees : notEmpty st.db (st'.getFolderTasksRdlocked c) c =
      notEmpty st.db (st.getFolderTasksRdlocked c) c) (hcommits : env.commits = true)
    (hmk : ∀ m, mk = some m → m.taskid ≠ 0 → st.db.HasTask m.taskid) :
    (rmdirTarget env st' p folderid name mk c).1 = emptied st c := by
  have hdepend : (mk.map Mkdir.taskid).getD 0 ≠ 0 →
      st.db.HasTask ((mk.map Mkdir.taskid).getD 0) := by
    cases mk with
    | none => exact fun hne => absurd rfl hne
    | some m => exact hmk m rfl
  unfold rmdirTarget
  simp only [State.db_getFolderTasks, hdb, notEmpty_getFolderTasks h, hsees, emptied]
  split
  · rfl
  · have hst : ∀ st'' : State,
        (if mk.isSome then st''.edit p fun f => f.cutMkdir name 0 else st'').db =
        st''.db := by
      intro st''
      split <;> rfl
    simp only [State.db_releaseIf, hst, State.db_getFolderTasks, hdb]
    rw [Tx.commit_eq_some.mpr ⟨hcommits, failed_rmdirTx hdepend, rfl⟩]

/-- Taking or making a folder shows the same entries. -/
theorem notEmpty_getOrCreate {st : State} (h : Keyed st) (folderid : FolderId) (db : Db)
    (c : FolderId) :
    notEmpty db ((st.getOrCreateFolderTasks folderid).2.getFolderTasksRdlocked c) c =
      notEmpty db (st.getFolderTasksRdlocked c) c := by
  cases hfind : st.getFolderTasksRdlocked folderid with
  | some f =>
    rw [State.getOrCreateFolderTasks_some hfind]
    exact notEmpty_getRef f.addr db c
  | none =>
    rw [(h.create hfind).2 c]
    split
    · next hc =>
      subst hc
      rw [hfind, notEmpty_new]
    · rfl

/-- The entry that is found in the folder that is taken or made. -/
theorem find_getOrCreate {α : Type} {st : State} (h : Inv (fun _ => True) st) (folderid : FolderId)
    (find : FolderTasks → Option α) (hfind : ∀ f r, find { f with refcnt := r } = find f)
    (hnew : ∀ addr folderid, find { addr, folderid } = none) :
    find ((st.getOrCreateFolderTasks folderid).2.folder (st.getOrCreateFolderTasks folderid).1) =
      (st.getFolderTasksRdlocked folderid).bind find := by
  rw [h.folder_getOrCreateFolderTasks refFree_true fun _ _ => trivial]
  cases st.getFolderTasksRdlocked folderid with
  | none => exact (hfind { addr := st.nextAddr, folderid } 1).trans (hnew st.nextAddr folderid)
  | some f => exact hfind f _

theorem rmdir_fst {env : Env} {st : State} (h : WellFormed st) {folderid : FolderId}
    {parentflags : UInt32} {name : Name} (hcommits : RmdirCommits env st folderid name) :
    (rmdir env st folderid parentflags name).1 = rmdirDecision st folderid parentflags name := by
  have hinv := h.inv.getOrCreateFolderTasks refFree_true (fun _ _ => trivial) folderid
  have hheld := h.inv.held_getOrCreateFolderTasks folderid
  have hdb := State.db_getOrCreateFolderTasks st folderid
  have hsees := fun c => notEmpty_getOrCreate h.keyed folderid st.db c
  have hmk := find_getOrCreate h.inv folderid (fun f => f.findMkdir name 0) (fun _ _ => rfl)
    fun _ _ => rfl
  have hrm := find_getOrCreate h.inv folderid (fun f => f.findRmdir name 0) (fun _ _ => rfl)
    fun _ _ => rfl
  unfold rmdir rmdirDecision
  simp only [hmk, hrm, hdb]
  cases hfind : (st.getFolderTasksRdlocked folderid).bind fun f => f.findMkdir name 0 with
  | some mk =>
    obtain ⟨f, hf, hfmk⟩ := Option.bind_eq_some_iff.mp hfind
    refine rmdirTarget_fst (hinv.edit hheld (fun _ => ⟨rfl, rfl⟩) fun _ _ => trivial) hdb ?_
      hcommits.commits fun m hm hne => ?_
    · exact (notEmpty_edit (g := fun f => { f with taskscnt := f.taskscnt - 1 }) (fun _ => rfl)
        (fun _ => ⟨rfl, rfl, rfl, rfl⟩) _ _).trans (hsees mk.folderid)
    · obtain rfl := Option.some.inj hm
      exact hcommits.mkdir f mk hf hfmk hne
  | none =>
    simp only
    cases st.db.findFolder folderid name with
    | none => rfl
    | some row =>
      simp only
      cases (st.getFolderTasksRdlocked folderid).bind fun f => f.findRmdir name 0 with
      | some rm => rfl
      | none =>
        simp only
        cases rmdirRow parentflags row with
        | error e => rfl
        | ok c => exact rmdirTarget_fst hinv hdb (hsees c) hcommits.commits (by simp)

/-- Creats of `st'` are creats of `st`. -/
def CreatsFrom (st' st : State) : Prop :=
  ∀ f' ∈ st'.folders.toList, ∀ cr ∈ f'.creats.toList, ∃ f ∈ st.folders.toList,
    f.folderid = f'.folderid ∧ cr ∈ f.creats.toList

theorem creatsFrom_getOrCreate (st : State) (folderid : FolderId) :
    CreatsFrom (st.getOrCreateFolderTasks folderid).2 st := by
  intro f' hf' cr hin
  rcases State.mem_getOrCreateFolderTasks hf' with rfl | ⟨f, hf, heq⟩
  · exact nomatch hin
  · rw [heq] at hin
    exact ⟨f, hf, by rw [heq], hin⟩

theorem CreatsFrom.delCreat {st st' : State} (h : CreatsFrom st' st) (p : Nat) (name : Name) :
    CreatsFrom (st'.edit p fun f => f.delCreat name 0) st := by
  intro f' hf' x hin
  rw [State.toList_edit] at hf'
  obtain ⟨f₁, hf₁, rfl⟩ := List.mem_map.mp hf'
  split at hin
  · next hp =>
    obtain ⟨f₀, hf₀, hid, hin₀⟩ := h f₁ hf₁ x (FolderTasks.mem_delCreat hin)
    rw [if_pos hp]
    exact ⟨f₀, hf₀, hid.trans ((FolderTasks.orderly_delCreat name 0).folderid f₁).symm, hin₀⟩
  · next hp =>
    rw [if_neg hp]
    exact h f₁ hf₁ x hin

theorem unlinkTarget_fst {env : Env} {st st' : State} {p : Nat} {folderid : FolderId} {name : Name}
    {fileid : FileId} {rfileid depend : Nat} (hcommits : UnlinkCommits env st folderid name)
    (h : Inv (fun _ => True) st') (hdb : st'.db = st.db) (hfrom : CreatsFrom st' st)
    (hdepend : depend ≠ 0 → st.db.HasTask depend)
    (hfile : fileid < 0 → st.db.HasTask (-fileid).toNat) :
    (unlinkTarget env st' p folderid name fileid rfileid depend).1 = none := by
  have hrev : (getFileAtOldLocation env st' fileid).1 < 0 →
      st.db.HasTask (-(getFileAtOldLocation env st' fileid).1).toNat := by
    intro hneg
    obtain ⟨oldid, old, hloc, ⟨f', hf', rfl, cr, hcr, rfl, hrev⟩ | ⟨row, hrow, hrev⟩⟩ :=
      getFileAtOldLocation_fst env fileid h hneg.ne
    · obtain ⟨f, hf, hid, hin⟩ := hfrom f' hf' cr hcr
      rw [← hrev] at hneg ⊢
      exact hcommits.old f hf cr hin fileid (hid ▸ hloc) hneg
    · rw [hdb] at hrow
      rw [← hrev] at hneg
      exact absurd (hcommits.rows row hrow) (not_le.mpr hneg)
  unfold unlinkTarget
  simp only [getFileAtOldLocation_snd env fileid h, hdb]
  rw [Tx.commit_eq_some.mpr ⟨hcommits.commits, failed_unlinkTx hdepend hrev hfile, rfl⟩]

/-- The end of `psync_fstask_unlink` of a pending file. -/
theorem unlinkTarget_creat {env : Env} {st : State} (h : Inv (fun _ => True) st)
    {folderid : FolderId} {name : Name} (hcommits : UnlinkCommits env st folderid name)
    {f : FolderTasks} {cr : Creat} (hf : st.getFolderTasksRdlocked folderid = some f)
    (hcr : f.findCreat name 0 = some cr) :
    (unlinkTarget env ((st.getOrCreateFolderTasks folderid).2.edit
      (st.getOrCreateFolderTasks folderid).1 fun f => f.delCreat name 0)
      (st.getOrCreateFolderTasks folderid).1 folderid name cr.fileid cr.rfileid cr.taskid).1 =
        none := by
  have hinv := h.getOrCreateFolderTasks refFree_true (fun _ _ => trivial) folderid
  have hheld := h.held_getOrCreateFolderTasks folderid
  obtain ⟨htask, hfile⟩ := hcommits.creat f cr hf hcr
  exact unlinkTarget_fst hcommits (hinv.edit hheld (FolderTasks.orderly_delCreat name 0).keeps
    fun _ _ => trivial) (State.db_getOrCreateFolderTasks st folderid)
    ((creatsFrom_getOrCreate st folderid).delCreat _ name) htask hfile

theorem unlink_fst {env : Env} {st : State} (h : WellFormed st) {folderid : FolderId} {name : Name}
    (hcommits : UnlinkCommits env st folderid name) :
    (unlink env st folderid name).1 = unlinkDecision st folderid name := by
  have hinv := h.inv.getOrCreateFolderTasks refFree_true (fun _ _ => trivial) folderid
  have hdb := State.db_getOrCreateFolderTasks st folderid
  have hcr := find_getOrCreate h.inv folderid (fun f => f.findCreat name 0) (fun _ _ => rfl)
    fun _ _ => rfl
  have hun := find_getOrCreate h.inv folderid (fun f => f.findUnlink name 0) (fun _ _ => rfl)
    fun _ _ => rfl
  unfold unlink unlinkDecision
  simp only [hcr, hun, hdb]
  cases hfind : (st.getFolderTasksRdlocked folderid).bind fun f => f.findCreat name 0 with
  | some cr =>
    simp only
    obtain ⟨f, hf, hfcr⟩ := Option.bind_eq_some_iff.mp hfind
    split
    · rfl
    · exact unlinkTarget_creat h.inv hcommits hf hfcr
  | none =>
    simp only
    cases hrow : st.db.findFile folderid name with
    | none => rfl
    | some row =>
      cases (st.getFolderTasksRdlocked folderid).bind fun f => f.findUnlink name 0 with
      | some un => rfl
      | none =>
        refine unlinkTarget_fst hcommits hinv hdb (creatsFrom_getOrCreate st folderid)
          (fun hne => absurd rfl hne) fun hneg => ?_
        exact absurd (hcommits.rows row (List.mem_of_find?_eq_some hrow)) (not_le.mpr hneg)

/-! ## Agreement -/

/-- `psync_fstask_can_rmdir` gives what `psync_fstask_rmdir` would return and changes nothing. -/
def RmdirAgrees (env : Env) (st : State) (folderid : FolderId) (parentflags : UInt32)
    (name : Name) : Prop :=
  canRmdir st folderid parentflags name =
    some ((rmdir env st folderid parentflags name).1, st)

/-- The same for `psync_fstask_can_unlink` and `psync_fstask_unlink`. -/
def UnlinkAgrees (env : Env) (st : State) (folderid : FolderId) (name : Name) : Prop :=
  canUnlink st folderid name = ((unlink env st folderid name).1, st)

/-- With a database that commits the checks give what the removals would return and change
nothing, exactly where the folder has pending tasks or the database has the name in it:
elsewhere `psync_fstask_can_rmdir` releases `NULL`. -/
theorem checks_agree {env : Env} {st : State} (h : WellFormed st) {folderid : FolderId}
    {parentflags : UInt32} {name : Name} (hrmdir : RmdirCommits env st folderid name)
    (hunlink : UnlinkCommits env st folderid name) :
    RmdirAgrees env st folderid parentflags name ∧ UnlinkAgrees env st folderid name ↔
      (st.getFolderTasksRdlocked folderid).isSome ∨ (st.db.findFolder folderid name).isSome := by
  unfold RmdirAgrees UnlinkAgrees
  rw [canRmdir_eq h.inv, canUnlink_eq h.inv, rmdir_fst h hrmdir, unlink_fst h hunlink]
  split
  · next hthere => exact ⟨fun _ => hthere, fun _ => ⟨rfl, rfl⟩⟩
  · next hthere => exact ⟨fun hboth => (nomatch hboth.1), fun hcontra => absurd hcontra hthere⟩

/-- A client that is connected and has one folder with one file, and nothing pending. -/
def plainState : State :=
  { folders := .nil
    nextAddr := 0
    db :=
      { folder := [{ id := 5, parentfolderid := 0, name := [97], permissions := 7, flags := 0
                     userid := 1, ctime := 0, mtime := 0, subdircnt := 0 }]
        file := [{ id := 9, parentfolderid := 5, name := [98] }]
        fstask := []
        fstaskdepend := [] } }

def plainEnv : Env :=
  { commits := true, time := 0, newKey := .ok [], hloc := fun _ => none, inBatch := fun _ => false }

theorem wellFormed_plainState : WellFormed plainState :=
  ⟨⟨nofun, nofun, List.nodup_nil, nofun⟩, List.Pairwise.nil⟩

theorem rmdirCommits_plainState (folderid : FolderId) (name : Name) :
    RmdirCommits plainEnv plainState folderid name := ⟨rfl, nofun⟩

theorem unlinkCommits_plainState (folderid : FolderId) (name : Name) :
    UnlinkCommits plainEnv plainState folderid name :=
  ⟨rfl, nofun, nofun, by decide⟩

/-- The folder that is there is not empty, and both say so. -/
theorem checks_agree_plain :
    RmdirAgrees plainEnv plainState 0 0 [97] ∧ UnlinkAgrees plainEnv plainState 0 [97] ∧
      (rmdir plainEnv plainState 0 0 [97]).1 = some .enotempty := by
  have hboth : RmdirAgrees plainEnv plainState 0 0 [97] ∧ UnlinkAgrees plainEnv plainState 0 [97] :=
    (checks_agree wellFormed_plainState (rmdirCommits_plainState 0 [97])
      (unlinkCommits_plainState 0 [97])).mpr (Or.inr (by decide))
  obtain ⟨hrmdir, hunlink⟩ := hboth
  exact ⟨hrmdir, hunlink, by decide⟩

/-- A name that is not there, in a folder without pending tasks: `psync_fstask_rmdir` returns
`ENOENT`, the check releases `NULL`. -/
theorem canRmdir_null :
    WellFormed plainState ∧ RmdirCommits plainEnv plainState 0 [99] ∧
      (rmdir plainEnv plainState 0 0 [99]).1 = some .enoent ∧
      canRmdir plainState 0 0 [99] = none ∧ ¬ RmdirAgrees plainEnv plainState 0 0 [99] := by
  refine ⟨wellFormed_plainState, rmdirCommits_plainState 0 [99], by decide, by rfl, ?_⟩
  unfold RmdirAgrees
  rw [canRmdir_eq wellFormed_plainState.inv]
  exact nofun

end PcloudClient.Pfstasks
