/-
  Pfstasks/Load.lean --- the folders with a creat or a mkdir.

  What taking, editing, releasing and renumbering a folder do to the number of creats and
  mkdirs that a search for its id comes upon.
-/
import PcloudClient.Pfstasks.Accounting

set_option autoImplicit false

namespace PcloudClient.Pfstasks

open State (Inv Keyed Held)

/-- The number of creats and mkdirs. -/
def FolderTasks.load (f : FolderTasks) : Nat := f.creats.size + f.mkdirs.size

/-- The number of creats and mkdirs of the folder, 0 if it has no `psync_fstask_folder_t`. -/
def State.load (st : State) (folderid : FolderId) : Nat :=
  (st.getFolderTasksRdlocked folderid).elim 0 FolderTasks.load

/-! ## One folder -/

namespace FolderTasks

variable {f : FolderTasks} {name : Name} {taskid : Nat}

theorem load_addMkdir (f : FolderTasks) (mk : Mkdir) : (f.addMkdir mk).load = f.load + 1 := by
  simp only [load, addMkdir, size_insertIntoTree]
  omega

theorem load_addCreat (f : FolderTasks) (cr : Creat) : (f.addCreat cr).load = f.load + 1 := by
  simp only [load, addCreat, size_insertIntoTree]
  omega

@[simp] theorem load_addRmdir (f : FolderTasks) (rm : Rmdir) : (f.addRmdir rm).load = f.load := rfl

@[simp] theorem load_addUnlink (f : FolderTasks) (un : Unlink) :
    (f.addUnlink un).load = f.load := rfl

@[simp] theorem load_delRmdir (f : FolderTasks) (name : Name) (taskid : Nat) :
    (f.delRmdir name taskid).load = f.load := by
  unfold delRmdir
  split <;> rfl

@[simp] theorem load_delUnlink (f : FolderTasks) (name : Name) (taskid : Nat) :
    (f.delUnlink name taskid).load = f.load := by
  unfold delUnlink
  split <;> rfl

/-- A deletion takes one away at most, and none where nothing is found. -/
theorem load_delMkdir (f : FolderTasks) (name : Name) (taskid : Nat) :
    f.load ≤ (f.delMkdir name taskid).load + 1 ∧
      ((f.findMkdir name taskid).isNone → (f.delMkdir name taskid).load = f.load) := by
  unfold delMkdir
  split
  · next hnone => exact ⟨Nat.le_succ _, fun _ => rfl⟩
  · next i hi =>
    have hsize := size_delAt hi
    simp only [load]
    refine ⟨by omega, fun hnone => ?_⟩
    rw [findMkdir, find_isNone, hi] at hnone
    exact nomatch hnone

theorem load_delCreat (f : FolderTasks) (name : Name) (taskid : Nat) :
    f.load ≤ (f.delCreat name taskid).load + 1 ∧
      ((f.findCreat name taskid).isNone → (f.delCreat name taskid).load = f.load) := by
  unfold delCreat
  split
  · next hnone => exact ⟨Nat.le_succ _, fun _ => rfl⟩
  · next i hi =>
    have hsize := size_delAt hi
    simp only [load]
    refine ⟨by omega, fun hnone => ?_⟩
    rw [findCreat, find_isNone, hi] at hnone
    exact nomatch hnone

theorem load_cutMkdir (f : FolderTasks) (name : Name) (taskid : Nat) :
    f.load ≤ (f.cutMkdir name taskid).load + 1 := by
  unfold cutMkdir
  split
  · exact Nat.le_succ _
  · next i hi =>
    have hsize := size_delAt hi
    simp only [load]
    omega

@[simp] theorem load_setMkdirFolderid (f : FolderTasks) (old new : FolderId) :
    (f.setMkdirFolderid old new).load = f.load := by
  unfold setMkdirFolderid
  split
  · rfl
  · next i hi =>
    have hnames := congrArg List.length (map_toList_modifyAt (k := Mkdir.name)
      (g := fun x : Mkdir => { x with folderid := new }) hi fun _ => rfl)
    rw [List.length_map, List.length_map, Ptree.Tree.length_toList,
      Ptree.Tree.length_toList] at hnames
    simp only [load, hnames]

@[simp] theorem load_setCreatFileid (f : FolderTasks) (old new : FileId) :
    (f.setCreatFileid old new).load = f.load := by
  unfold setCreatFileid
  split
  · rfl
  · next i hi =>
    have hnames := congrArg List.length (map_toList_modifyAt (k := Creat.name)
      (g := fun x : Creat => { x with fileid := new }) hi fun _ => rfl)
    rw [List.length_map, List.length_map, Ptree.Tree.length_toList,
      Ptree.Tree.length_toList] at hnames
    simp only [load, hnames]

/-- A folder that counts no tasks has no creats and no mkdirs. -/
theorem Counted.load_eq_zero (h : f.Counted) (hcnt : f.taskscnt = 0) : f.load = 0 := by
  unfold Counted nodes at h
  unfold load
  omega

end FolderTasks

/-! ## One folder among the others -/

section Folders

variable {P : FolderTasks → Prop} {st : State} {p : Nat} {g : FolderTasks → FolderTasks}
  {f : FolderTasks} {folderid c : FolderId}

theorem State.load_of_mem (h : Keyed st) (hf : f ∈ st.folders.toList) :
    st.load f.folderid = f.load := by
  rw [State.load, h.rdlocked_iff.mpr ⟨hf, rfl⟩]
  rfl

theorem State.load_of_not_mem (h : Keyed st) (hc : ∀ f ∈ st.folders.toList, f.folderid ≠ c) :
    st.load c = 0 := by
  cases hfind : st.getFolderTasksRdlocked c with
  | none => rw [State.load, hfind, Option.elim_none]
  | some f =>
    obtain ⟨hf, hid⟩ := h.rdlocked_iff.mp hfind
    exact absurd hid (hc f hf)

theorem State.load_edit (h : Inv P st) (hk : Keyed st) (hp : Held st p 1)
    (hid : ∀ f, (g f).folderid = f.folderid) (c : FolderId) :
    (st.edit p g).load c =
      if c = (st.folder p).folderid then (g (st.folder p)).load else st.load c := by
  obtain ⟨f, hf, rfl, -⟩ := hp
  rw [h.folder hf, State.load, State.getFolderTasksRdlocked_edit hid]
  split
  · next hc =>
    rw [hc, hk.rdlocked_iff.mpr ⟨hf, rfl⟩]
    simp
  · next hc =>
    cases hfind : st.getFolderTasksRdlocked c with
    | none => rw [State.load, hfind, Option.map_none]
    | some x =>
      obtain ⟨hx, hxid⟩ := hk.rdlocked_iff.mp hfind
      have hne : x.addr ≠ f.addr := fun heq => hc (h.eq_of_addr hf hx heq ▸ hxid.symm)
      rw [State.load, hfind, Option.map_some, if_neg hne]

/-- An edit of other things than creats and mkdirs. -/
theorem State.load_edit_same (hid : ∀ f, (g f).folderid = f.folderid)
    (hg : ∀ f, (g f).load = f.load)
    (p : Nat) (c : FolderId) : (st.edit p g).load c = st.load c := by
  rw [State.load, State.getFolderTasksRdlocked_edit hid, State.load]
  cases st.getFolderTasksRdlocked c with
  | none => rfl
  | some f =>
    simp only [Option.map_some, Option.elim_some]
    split
    · exact hg f
    · rfl

theorem State.load_getOrCreate (hk : Keyed st) (folderid c : FolderId) :
    (st.getOrCreateFolderTasks folderid).2.load c = st.load c := by
  cases hfind : st.getFolderTasksRdlocked folderid with
  | some f =>
    rw [State.getOrCreateFolderTasks_some hfind]
    exact State.load_edit_same (g := fun f => { f with refcnt := f.refcnt + 1 }) (fun _ => rfl)
      (fun _ => rfl) f.addr c
  | none =>
    rw [State.load, (hk.create hfind).2 c, State.load]
    split
    · next hc =>
      rw [hc, hfind]
      rfl
    · rfl

theorem State.load_getFolderTasks (folderid c : FolderId) :
    (st.getFolderTasks folderid).2.load c = st.load c := by
  unfold State.getFolderTasks
  split
  · rfl
  · exact State.load_edit_same (g := fun f => { f with refcnt := f.refcnt + 1 }) (fun _ => rfl)
      (fun _ => rfl) _ c

theorem State.keyed_getFolderTasks (hk : Keyed st) (folderid : FolderId) :
    Keyed (st.getFolderTasks folderid).2 := by
  unfold State.getFolderTasks
  split
  · exact hk
  · exact Keyed.edit (g := fun f => { f with refcnt := f.refcnt + 1 }) hk (fun _ => rfl) _

/-- A folder that is freed has no creats and no mkdirs, as it counts none. -/
theorem State.load_release (h : Inv FolderTasks.Counted st) (hk : Keyed st) (hp : Held st p 1) :
    Keyed (st.releaseFolderTasks p) ∧ ∀ c, (st.releaseFolderTasks p).load c = st.load c := by
  obtain ⟨f, hf, rfl, -⟩ := hp
  obtain ⟨a, b, hsplit⟩ := List.append_of_mem hf
  have hlist := h.release_split hsplit
  split at hlist
  · next hfree =>
    have hsub : (st.releaseFolderTasks f.addr).folders.toList.Sublist st.folders.toList := by
      rw [hlist, hsplit]
      exact (List.sublist_cons_self f b).append_left a
    have hk' := hk.sublist hsub
    refine ⟨hk', fun c => ?_⟩
    cases hfind : st.getFolderTasksRdlocked c with
    | none =>
      have hst : st.load c = 0 := by rw [State.load, hfind, Option.elim_none]
      rw [hst]
      refine State.load_of_not_mem hk' fun x hx hid => ?_
      rw [hk.rdlocked_iff.mpr ⟨hsub.subset hx, hid⟩] at hfind
      exact nomatch hfind
    | some x =>
      obtain ⟨hx, hid⟩ := hk.rdlocked_iff.mp hfind
      have hst : st.load c = x.load := by rw [State.load, hfind, Option.elim_some]
      rw [hst]
      by_cases hxf : x = f
      · rw [hxf, (h.good f hf).load_eq_zero hfree.2]
        refine State.load_of_not_mem hk' fun y hy hyid => ?_
        have hyf : y = f := by
          have hymem := hk.rdlocked_iff.mpr ⟨hsub.subset hy, hyid⟩
          rw [hfind, hxf] at hymem
          exact (Option.some.inj hymem).symm
        rw [hlist] at hy
        have hne := State.ne_of_split h.nodup hsplit
        rcases List.mem_append.mp hy with hy | hy
        · exact hne.1 y hy (congrArg FolderTasks.addr hyf)
        · exact hne.2 y hy (congrArg FolderTasks.addr hyf)
      · have hx' : x ∈ (st.releaseFolderTasks f.addr).folders.toList := by
          rw [hsplit, List.mem_append, List.mem_cons] at hx
          rw [hlist, List.mem_append]
          tauto
        rw [← hid, State.load_of_mem hk' hx']
  · have hedit : (st.releaseFolderTasks f.addr).folders.toList =
        (st.edit f.addr fun f => { f with refcnt := f.refcnt - 1 }).folders.toList := by
      rw [hlist, h.edit_split hsplit]
    have hkedit := hk.edit (g := fun f => { f with refcnt := f.refcnt - 1 }) (fun _ => rfl) f.addr
    have hk' : Keyed (st.releaseFolderTasks f.addr) :=
      hkedit.sublist (hedit ▸ List.Sublist.refl _)
    refine ⟨hk', fun c => ?_⟩
    have hsame : (st.edit f.addr fun f => { f with refcnt := f.refcnt - 1 }).load c = st.load c :=
      State.load_edit_same (g := fun f => { f with refcnt := f.refcnt - 1 }) (fun _ => rfl)
        (fun _ => rfl) f.addr c
    rw [← hsame, State.load, State.load]
    congr 1
    ext x
    rw [hk'.rdlocked_iff, hkedit.rdlocked_iff, hedit]

/-- A folder that gets an id that no folder has keeps what it has. -/
theorem State.load_rekey (h : Inv P st) (hk : Keyed st) (hp : Held st p 1)
    (hnew : st.getFolderTasksRdlocked folderid = none) :
    Keyed (st.rekey p folderid) ∧ ∀ c, c ≠ (st.folder p).folderid → c ≠ folderid →
      (st.rekey p folderid).load c = st.load c := by
  obtain ⟨f, hf, rfl, -⟩ := hp
  rw [h.folder hf]
  obtain ⟨a, b, hsplit⟩ := List.append_of_mem hf
  have hrest := State.unlink_split h.nodup hsplit
  have hsub : (a ++ b).Sublist st.folders.toList := by
    rw [hsplit]
    exact (List.sublist_cons_self f b).append_left a
  have hkrest : Keyed (st.unlinkFolder f.addr) := hk.sublist (hrest ▸ hsub)
  have hne : ∀ x ∈ (st.unlinkFolder f.addr).folders.toList, x.folderid ≠ folderid := by
    intro x hx hid
    rw [hk.rdlocked_iff.mpr ⟨hsub.subset (hrest ▸ hx), hid⟩] at hnew
    exact nomatch hnew
  let cmp : FolderTasks → Int := fun x => if folderid - x.folderid < 0 then -1 else 1
  have hlt : ∀ x : FolderTasks, cmp x < 0 ↔ folderid < x.folderid := by
    intro x
    simp only [cmp, ← sub_neg (a := folderid)]
    split <;> simp [*]
  have hgt : ∀ x : FolderTasks, 0 < cmp x ↔ x.folderid ≤ folderid := by
    intro x
    rw [← not_lt, ← hlt x]
    simp only [cmp]
    split <;> decide
  have hcuts : Ptree.Tree.Cuts cmp (st.unlinkFolder f.addr).folders.toList := by
    refine List.Pairwise.imp (fun {x y} hxy => ?_) hkrest
    have hxy : x.folderid < y.folderid := hxy
    rw [hlt, hlt, hgt, hgt]
    exact ⟨fun hx => hx.trans hxy, fun hy => hxy.le.trans hy⟩
  have hcmp : ∀ x ∈ (st.unlinkFolder f.addr).folders.toList, cmp x ≠ 0 := by
    intro x _
    simp only [cmp]
    split <;> decide
  obtain ⟨a', b', hsplit', hins, hplace⟩ := Ptree.Tree.insert_split id { f with folderid }
    (st.unlinkFolder f.addr).folders hcmp
  obtain ⟨ha, hb⟩ := hplace hcuts
  have hlist : (st.rekey f.addr folderid).folders.toList = a' ++ { f with folderid } :: b' := by
    unfold State.rekey
    rw [h.folder hf]
    exact hins
  have hkeyed : Keyed (st.rekey f.addr folderid) := by
    unfold Keyed Ptree.Tree.Ordered at hkrest ⊢
    rw [hsplit', List.pairwise_append] at hkrest
    rw [hlist, List.pairwise_append, List.pairwise_cons]
    refine ⟨hkrest.1, ⟨fun x hx => (hlt x).mp (hb x hx), hkrest.2.1⟩, fun x hx y hy => ?_⟩
    rcases List.mem_cons.mp hy with rfl | hy
    · have hle := (hgt x).mp (ha x hx)
      have hx' := hne x (hsplit' ▸ List.mem_append_left _ hx)
      exact lt_of_le_of_ne hle hx'
    · exact hkrest.2.2 x hx y hy
  refine ⟨hkeyed, fun c hc hcnew => ?_⟩
  rw [State.load, State.load]
  congr 1
  ext x
  rw [hkeyed.rdlocked_iff, hk.rdlocked_iff, hlist, hsplit]
  have hmem : x ∈ a' ∨ x ∈ b' ↔ x ∈ a ∨ x ∈ b := by
    rw [← List.mem_append, ← hsplit', hrest, List.mem_append]
  simp only [List.mem_append, List.mem_cons]
  constructor
  · rintro ⟨hx, hid⟩
    rcases hx with hx | rfl | hx
    · exact ⟨(hmem.mp (.inl hx)).imp_right .inr, hid⟩
    · exact absurd hid.symm hcnew
    · exact ⟨(hmem.mp (.inr hx)).imp_right .inr, hid⟩
  · rintro ⟨hx, hid⟩
    rcases hx with hx | rfl | hx
    · exact ⟨(hmem.mpr (.inl hx)).imp_right .inr, hid⟩
    · exact absurd hid.symm hc
    · exact ⟨(hmem.mpr (.inr hx)).imp_right .inr, hid⟩

/-! ## Taking, editing, releasing -/

/-- The folder as it is when it has been taken or made. -/
def State.taken (st : State) (folderid : FolderId) : FolderTasks :=
  (st.getOrCreateFolderTasks folderid).2.folder (st.getOrCreateFolderTasks folderid).1

theorem folderid_taken (h : Inv FolderTasks.Counted st) (folderid : FolderId) :
    (st.taken folderid).folderid = folderid := by
  rw [State.taken, h.folder_getOrCreateFolderTasks stable_counted.refFree stable_counted.new]
  cases hfind : st.getFolderTasksRdlocked folderid with
  | none => rfl
  | some f =>
    have hid : f.folderid = folderid := State.folderid_of_getFolderTasksRdlocked hfind
    exact hid

theorem load_taken (h : Inv FolderTasks.Counted st) (folderid : FolderId) :
    (st.taken folderid).load = st.load folderid := by
  rw [State.taken, h.folder_getOrCreateFolderTasks stable_counted.refFree stable_counted.new,
    State.load]
  cases st.getFolderTasksRdlocked folderid with
  | none => rfl
  | some f => rfl

/-- The counters are right and there is one folder for an id. -/
structure Sane (st : State) : Prop where
  counted : Inv FolderTasks.Counted st
  keyed : Keyed st

theorem Sane.withDb (h : Sane st) (db : Db) : Sane { st with db } := ⟨h.counted.withDb db, h.keyed⟩

theorem Sane.take (h : Sane st) (folderid : FolderId) :
    Sane (st.getOrCreateFolderTasks folderid).2 ∧
      Held (st.getOrCreateFolderTasks folderid).2 (st.getOrCreateFolderTasks folderid).1 1 := by
  obtain ⟨hinv, hheld⟩ := Inv.take stable_counted h.counted folderid
  exact ⟨⟨hinv, h.keyed.getOrCreateFolderTasks folderid⟩, hheld⟩

theorem Sane.edit (h : Sane st) (hp : Held st p 1) (hg : FolderTasks.Sound g) :
    Sane (st.edit p g) :=
  ⟨h.counted.edit hp hg.keeps hg.counted, h.keyed.edit hg.folderid p⟩

theorem Sane.release (h : Sane st) (hp : Held st p 1) : Sane (st.releaseFolderTasks p) :=
  ⟨Inv.put stable_counted h.counted hp, (State.load_release h.counted h.keyed hp).1⟩

/-- A folder that is taken, edited and released. -/
theorem Sane.takeEdit (h : Sane st) (folderid : FolderId) (db : Db) (hg : FolderTasks.Sound g) :
    Sane (({ (st.getOrCreateFolderTasks folderid).2 with db }.edit
      (st.getOrCreateFolderTasks folderid).1 g).releaseFolderTasks
        (st.getOrCreateFolderTasks folderid).1) ∧
    ∀ c, (({ (st.getOrCreateFolderTasks folderid).2 with db }.edit
      (st.getOrCreateFolderTasks folderid).1 g).releaseFolderTasks
        (st.getOrCreateFolderTasks folderid).1).load c =
      if c = folderid then (g (st.taken folderid)).load else st.load c := by
  obtain ⟨hsane, hheld⟩ := h.take folderid
  have hedit := (hsane.withDb db).edit (hheld.withDb db) hg
  have hheld' := (hheld.withDb db).edit hg.keeps (st.getOrCreateFolderTasks folderid).1
  refine ⟨hedit.release hheld', fun c => ?_⟩
  rw [(State.load_release hedit.counted hedit.keyed hheld').2 c,
    State.load_edit (hsane.withDb db).counted hsane.keyed (hheld.withDb db) hg.folderid c]
  have htaken := folderid_taken h.counted folderid
  simp only [State.taken] at htaken ⊢
  rw [show State.folder { (st.getOrCreateFolderTasks folderid).2 with db } =
    (st.getOrCreateFolderTasks folderid).2.folder from rfl, htaken]
  split
  · rfl
  · exact State.load_getOrCreate h.keyed folderid c

/-- A folder that is taken and released. -/
theorem Sane.takeRelease (h : Sane st) (folderid : FolderId) :
    Sane ((st.getOrCreateFolderTasks folderid).2.releaseFolderTasks
      (st.getOrCreateFolderTasks folderid).1) ∧
    ∀ c, ((st.getOrCreateFolderTasks folderid).2.releaseFolderTasks
      (st.getOrCreateFolderTasks folderid).1).load c = st.load c := by
  obtain ⟨hsane, hheld⟩ := h.take folderid
  refine ⟨hsane.release hheld, fun c => ?_⟩
  rw [(State.load_release hsane.counted hsane.keyed hheld).2 c, State.load_getOrCreate h.keyed]

/-- An edit of a folder that has tasks already. -/
theorem Sane.withFolder (h : Sane st) (folderid : FolderId) (hg : FolderTasks.Sound g) :
    Sane (st.withFolder folderid g) ∧
    ∀ c, (st.withFolder folderid g).load c =
      if c = folderid then
        (st.getFolderTasksRdlocked folderid).elim 0 fun f =>
          (g { f with refcnt := f.refcnt + 1 }).load
      else st.load c := by
  cases hfind : st.getFolderTasksRdlocked folderid with
  | none =>
    have hget : st.getFolderTasks folderid = (none, st) := by rw [State.getFolderTasks, hfind]
    unfold State.withFolder
    simp only [hget, Option.elim_none]
    refine ⟨h, fun c => ?_⟩
    split
    · next hc => rw [hc, State.load, hfind, Option.elim_none]
    · rfl
  | some f =>
    have hmem := State.mem_of_getFolderTasksRdlocked hfind
    have hid := State.folderid_of_getFolderTasksRdlocked hfind
    have hget : st.getFolderTasks folderid = (some f.addr, st.getRef f.addr) := by
      rw [State.getFolderTasks, hfind]
    have hheld := (h.counted.held hmem).getRef_self
    have hsane : Sane (st.getRef f.addr) :=
      ⟨h.counted.getRef stable_counted.refFree hmem,
        h.keyed.edit (g := fun f => { f with refcnt := f.refcnt + 1 }) (fun _ => rfl) f.addr⟩
    have hedit := hsane.edit hheld hg
    have hheld' := hheld.edit hg.keeps f.addr
    have hfolder : (st.getRef f.addr).folder f.addr = { f with refcnt := f.refcnt + 1 } :=
      h.counted.folder_edit hmem rfl
    unfold State.withFolder
    simp only [hget, Option.elim_some]
    refine ⟨hedit.release hheld', fun c => ?_⟩
    rw [(State.load_release hedit.counted hedit.keyed hheld').2 c,
      State.load_edit hsane.counted hsane.keyed hheld hg.folderid c, hfolder]
    simp only [hid]
    split
    · rfl
    · exact State.load_edit_same (g := fun f => { f with refcnt := f.refcnt + 1 }) (fun _ => rfl)
        (fun _ => rfl) f.addr c

end Folders

end PcloudClient.Pfstasks
