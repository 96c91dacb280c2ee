/-
  Pfstasks/Entries.lean --- what an edit does to the entries of a folder.

  The counter `taskscnt` against the nodes of the four trees, the order of the trees, and
  what they hold against the record of the insertions and deletions.
-/
import PcloudClient.Pfstasks.References
import PcloudClient.Pfstasks.Completions

set_option autoImplicit false

namespace PcloudClient.Pfstasks

section Trees

variable {α : Type} {nameOf : α → Bytes} {taskidOf : α → Nat} {tree : Ptree.Tree α} {name : Bytes}
  {taskid i : Nat} {x : α}

/-- What `psync_fstask_find_mkdir` and its like give is a node with the name. -/
theorem find_spec
    (h : (searchTree nameOf taskidOf tree name taskid).bind (fun i => tree.toList[i]?) = some x) :
    x ∈ tree.toList ∧ Wanted nameOf taskidOf name taskid x := by
  obtain ⟨i, hi, hx⟩ := Option.bind_eq_some_iff.mp h
  obtain ⟨a, y, b, hsplit, rfl, hwant⟩ := searchTree_some hi
  rw [hsplit, List.getElem?_append_right (le_refl _)] at hx
  obtain rfl : y = x := by simpa using hx
  exact ⟨by simp [hsplit], hwant⟩

theorem find_isNone :
    ((searchTree nameOf taskidOf tree name taskid).bind (fun i => tree.toList[i]?)).isNone ↔
      searchTree nameOf taskidOf tree name taskid = none := by
  cases h : searchTree nameOf taskidOf tree name taskid with
  | none => simp
  | some i =>
    obtain ⟨a, y, b, hsplit, rfl, -⟩ := searchTree_some h
    simp [hsplit]

theorem size_delAt (h : searchTree nameOf taskidOf tree name taskid = some i) :
    (tree.delAt i).size + 1 = tree.size := by
  obtain ⟨a, y, b, hsplit, rfl, -⟩ := searchTree_some h
  rw [← Ptree.Tree.length_toList, Ptree.Tree.toList_delAt hsplit,
    ← Ptree.Tree.length_toList, hsplit]
  simp
  omega

theorem sublist_delAt (h : searchTree nameOf taskidOf tree name taskid = some i) :
    (tree.delAt i).toList.Sublist tree.toList := by
  obtain ⟨a, y, b, hsplit, rfl, -⟩ := searchTree_some h
  rw [Ptree.Tree.toList_delAt hsplit, hsplit]
  exact (List.sublist_cons_self y b).append_left a

theorem Sorted.sublist {tree' : Ptree.Tree α} (h : Sorted nameOf tree)
    (hsub : tree'.toList.Sublist tree.toList) : Sorted nameOf tree' := List.Pairwise.sublist hsub h

/-- How often an entry stands in a tree after an insertion. -/
theorem count_insertIntoTree (entry : α → Name × Nat) (key : α → Bytes) (x : α) (e : Name × Nat) :
    ((insertIntoTree key tree x).toList.map entry).count e =
      (tree.toList.map entry).count e + if entry x = e then 1 else 0 := by
  rw [((insertIntoTree_perm key tree x).map entry).count_eq, List.map_cons, List.count_cons]
  simp

/-- The node that a deletion takes out. -/
theorem count_delAt (entry : α → Name × Nat)
    (h : searchTree nameOf taskidOf tree name taskid = some i) (e : Name × Nat) :
    ∃ y, tree.toList[i]? = some y ∧
      (tree.toList.map entry).count e =
        ((tree.delAt i).toList.map entry).count e + if entry y = e then 1 else 0 := by
  obtain ⟨a, y, b, hsplit, rfl, -⟩ := searchTree_some h
  refine ⟨y, by rw [hsplit, List.getElem?_append_right (le_refl _)]; simp, ?_⟩
  rw [Ptree.Tree.toList_delAt hsplit, hsplit, List.map_append, List.map_append, List.map_cons,
    List.count_append, List.count_append, List.count_cons]
  simp [Nat.add_assoc]

/-- A change of the node that `psync_fstask_walk_tree` gives. -/
theorem walkTree_split {keyOf : α → Int} {key : Int} (h : walkTree keyOf tree key = some i) :
    ∃ a x b, tree.toList = a ++ x :: b ∧ a.length = i := by
  obtain ⟨hlt, -⟩ := List.findIdx?_eq_some_iff_getElem.mp h
  refine ⟨tree.toList.take i, tree.toList[i], tree.toList.drop (i + 1), ?_, ?_⟩
  · rw [List.getElem_cons_drop, List.take_append_drop]
  · rw [List.length_take]
    omega

theorem map_toList_modifyAt {β : Type} {keyOf : α → Int} {key : Int} {g : α → α} {k : α → β}
    (h : walkTree keyOf tree key = some i) (hk : ∀ x, k (g x) = k x) :
    (tree.modifyAt g i).toList.map k = tree.toList.map k := by
  obtain ⟨a, x, b, hsplit, rfl⟩ := walkTree_split h
  rw [Ptree.Tree.toList_modifyAt g hsplit, hsplit]
  simp [hk]

end Trees

namespace FolderTasks

variable {f : FolderTasks}

/-- `taskscnt` is the number of entries. -/
def Counted (f : FolderTasks) : Prop := f.taskscnt = f.nodes

/-- Each of the four trees is sorted by the names of its entries. -/
structure TreesSorted (f : FolderTasks) : Prop where
  mkdirs : Sorted Mkdir.name f.mkdirs
  rmdirs : Sorted Rmdir.name f.rmdirs
  creats : Sorted Creat.name f.creats
  unlinks : Sorted Unlink.name f.unlinks

/-- The entries of a tree. -/
def entries (f : FolderTasks) : TreeKind → List (Name × Nat)
  | .mkdirs => f.mkdirs.toList.map Mkdir.entry
  | .rmdirs => f.rmdirs.toList.map Rmdir.entry
  | .creats => f.creats.toList.map Creat.entry
  | .unlinks => f.unlinks.toList.map Unlink.entry

/-- The entry was inserted and not deleted: it went in more often than it came out. -/
def Left (f : FolderTasks) (kind : TreeKind) (name : Name) (taskid : Nat) : Prop :=
  f.history.count (.delete kind (name, taskid)) < f.history.count (.insert kind (name, taskid))

instance Left.instDecidable (f : FolderTasks) (kind : TreeKind) (name : Name) (taskid : Nat) :
    Decidable (f.Left kind name taskid) :=
  inferInstanceAs (Decidable (_ < _))

/-- Each tree holds what was inserted less what was deleted. -/
def Recorded (f : FolderTasks) : Prop :=
  ∀ kind entry, f.history.count (.insert kind entry) =
    (f.entries kind).count entry + f.history.count (.delete kind entry)

theorem Recorded.mem_iff_left (h : Recorded f) (kind : TreeKind) (name : Name) (taskid : Nat) :
    (name, taskid) ∈ f.entries kind ↔ f.Left kind name taskid := by
  rw [← List.count_pos_iff, Left, h kind (name, taskid)]
  omega

theorem refFree_counted : RefFree Counted := fun _ _ h => h

theorem refFree_treesSorted : RefFree TreesSorted := fun _ _ h => ⟨h.1, h.2, h.3, h.4⟩

theorem counted_new (addr : Nat) (folderid : FolderId) : Counted { addr, folderid } := rfl

theorem treesSorted_new (addr : Nat) (folderid : FolderId) : TreesSorted { addr, folderid } :=
  ⟨.nil, .nil, .nil, .nil⟩

theorem recorded_new (addr : Nat) (folderid : FolderId) (refcnt : Int) :
    Recorded { addr, folderid, refcnt } := by
  intro kind entry
  cases kind <;> rfl

/-- An edit that keeps the address, the id and the references of the folder, and its count and
its record right. -/
structure Sound (g : FolderTasks → FolderTasks) : Prop where
  keeps : Keeps g
  folderid : ∀ f, (g f).folderid = f.folderid
  counted : ∀ f, Counted f → Counted (g f)
  recorded : ∀ f, Recorded f → Recorded (g f)

/-- A sound edit that keeps the order of the trees. -/
structure Orderly (g : FolderTasks → FolderTasks) : Prop extends Sound g where
  sorted : ∀ f, TreesSorted f → TreesSorted (g f)

theorem Sound.comp {g g' : FolderTasks → FolderTasks} (hg : Sound g) (hg' : Sound g') :
    Sound fun f => g' (g f) where
  keeps f := ⟨(hg'.keeps _).1.trans (hg.keeps f).1, (hg'.keeps _).2.trans (hg.keeps f).2⟩
  folderid f := (hg'.folderid _).trans (hg.folderid f)
  counted f h := hg'.counted _ (hg.counted f h)
  recorded f h := hg'.recorded _ (hg.recorded f h)

theorem Orderly.comp {g g' : FolderTasks → FolderTasks} (hg : Orderly g) (hg' : Orderly g') :
    Orderly fun f => g' (g f) where
  toSound := hg.toSound.comp hg'.toSound
  sorted f h := hg'.sorted _ (hg.sorted f h)

/-! ## The record -/

/-- An insertion and its record. -/
theorem Recorded.insert {f' : FolderTasks} (h : Recorded f) (kind : TreeKind) (entry : Name × Nat)
    (hhistory : f'.history = .insert kind entry :: f.history)
    (hkind : ∀ e, (f'.entries kind).count e =
      (f.entries kind).count e + if entry = e then 1 else 0)
    (hother : ∀ k, k ≠ kind → f'.entries k = f.entries k) : Recorded f' := by
  intro k e
  rw [hhistory, List.count_cons, List.count_cons, h k e]
  rcases eq_or_ne k kind with rfl | hne
  · rw [hkind e]
    simp only [beq_iff_eq, TreeEvent.insert.injEq, true_and, reduceCtorEq, if_false]
    omega
  · rw [hother k hne]
    simp only [beq_iff_eq, TreeEvent.insert.injEq, hne.symm, false_and, reduceCtorEq, if_false]
    omega

/-- A deletion of the node that a search gives, and its record. -/
theorem Recorded.delete {α : Type} {nameOf : α → Bytes} {taskidOf : α → Nat} {tree : Ptree.Tree α}
    {name : Name} {taskid i : Nat} {f' : FolderTasks} (h : Recorded f) (kind : TreeKind)
    (entryOf : α → Name × Nat) (hi : searchTree nameOf taskidOf tree name taskid = some i)
    (hhistory : f'.history = f.forget kind ((tree.toList[i]?).map entryOf))
    (hbefore : f.entries kind = tree.toList.map entryOf)
    (hafter : f'.entries kind = (tree.delAt i).toList.map entryOf)
    (hother : ∀ k, k ≠ kind → f'.entries k = f.entries k) : Recorded f' := by
  intro k e
  obtain ⟨y, hy, hcount⟩ := count_delAt entryOf hi e
  rw [hy, Option.map_some, forget] at hhistory
  rw [hhistory, List.count_cons, List.count_cons, h k e]
  rcases eq_or_ne k kind with rfl | hne
  · rw [hbefore, hafter, hcount]
    simp only [beq_iff_eq, TreeEvent.delete.injEq, true_and, reduceCtorEq, if_false]
    omega
  · rw [hother k hne]
    simp only [beq_iff_eq, TreeEvent.delete.injEq, hne.symm, false_and, reduceCtorEq, if_false]
    omega

theorem Recorded.of_same {f' : FolderTasks} (h : Recorded f) (hhistory : f'.history = f.history)
    (hentries : f'.entries = f.entries) : Recorded f' := by
  intro kind entry
  rw [hhistory, hentries]
  exact h kind entry

/-! ## Insertions -/

theorem orderly_addMkdir (mk : Mkdir) : Orderly fun f => f.addMkdir mk where
  keeps _ := ⟨rfl, rfl⟩
  folderid _ := rfl
  counted f h := by
    unfold Counted nodes at h ⊢
    simp only [addMkdir, size_insertIntoTree]
    push_cast at h ⊢
    omega
  recorded f h := by
    refine h.insert .mkdirs mk.entry rfl
      (fun e => count_insertIntoTree Mkdir.entry Mkdir.name mk e) ?_
    rintro (_ | _ | _ | _) hne <;> first | rfl | exact absurd rfl hne
  sorted f h := { h with mkdirs := h.mkdirs.insertIntoTree mk }

theorem orderly_addRmdir (rm : Rmdir) : Orderly fun f => f.addRmdir rm where
  keeps _ := ⟨rfl, rfl⟩
  folderid _ := rfl
  counted f h := by
    unfold Counted nodes at h ⊢
    simp only [addRmdir, size_insertIntoTree]
    push_cast at h ⊢
    omega
  recorded f h := by
    refine h.insert .rmdirs rm.entry rfl
      (fun e => count_insertIntoTree Rmdir.entry Rmdir.name rm e) ?_
    rintro (_ | _ | _ | _) hne <;> first | rfl | exact absurd rfl hne
  sorted f h := { h with rmdirs := h.rmdirs.insertIntoTree rm }

theorem orderly_addCreat (cr : Creat) : Orderly fun f => f.addCreat cr where
  keeps _ := ⟨rfl, rfl⟩
  folderid _ := rfl
  counted f h := by
    unfold Counted nodes at h ⊢
    simp only [addCreat, size_insertIntoTree]
    push_cast at h ⊢
    omega
  recorded f h := by
    refine h.insert .creats cr.entry rfl
      (fun e => count_insertIntoTree Creat.entry Creat.name cr e) ?_
    rintro (_ | _ | _ | _) hne <;> first | rfl | exact absurd rfl hne
  sorted f h := { h with creats := h.creats.insertIntoTree cr }

theorem sound_addUnlinkBy (key : Unlink → Bytes) (un : Unlink) :
    Sound fun f => f.addUnlinkBy key un where
  keeps _ := ⟨rfl, rfl⟩
  folderid _ := rfl
  counted f h := by
    unfold Counted nodes at h ⊢
    simp only [addUnlinkBy, size_insertIntoTree]
    push_cast at h ⊢
    omega
  recorded f h := by
    refine h.insert .unlinks un.entry rfl (fun e => count_insertIntoTree Unlink.entry key un e) ?_
    rintro (_ | _ | _ | _) hne <;> first | rfl | exact absurd rfl hne

theorem orderly_addUnlink (un : Unlink) : Orderly fun f => f.addUnlink un where
  toSound := sound_addUnlinkBy Unlink.name un
  sorted _ h := { h with unlinks := h.unlinks.insertIntoTree un }

/-! ## Deletions -/

/-- The folder after some entries are gone: the rest, in order, may differ in other things than
their names. -/
structure Shrinks (f f' : FolderTasks) : Prop where
  addr : f'.addr = f.addr
  refcnt : f'.refcnt = f.refcnt
  folderid : f'.folderid = f.folderid
  nodes : f'.taskscnt - f'.nodes = f.taskscnt - f.nodes
  recorded : Recorded f → Recorded f'
  mkdirs : (f'.mkdirs.toList.map Mkdir.name).Sublist (f.mkdirs.toList.map Mkdir.name)
  rmdirs : (f'.rmdirs.toList.map Rmdir.name).Sublist (f.rmdirs.toList.map Rmdir.name)
  creats : (f'.creats.toList.map Creat.name).Sublist (f.creats.toList.map Creat.name)
  unlinks : (f'.unlinks.toList.map Unlink.name).Sublist (f.unlinks.toList.map Unlink.name)

theorem Shrinks.refl (f : FolderTasks) : Shrinks f f :=
  ⟨rfl, rfl, rfl, rfl, id, List.Sublist.refl _, List.Sublist.refl _, List.Sublist.refl _,
    List.Sublist.refl _⟩

theorem sorted_of_names {α : Type} {nameOf : α → Bytes} {tree tree' : Ptree.Tree α}
    (h : Sorted nameOf tree) (hsub : (tree'.toList.map nameOf).Sublist (tree.toList.map nameOf)) :
    Sorted nameOf tree' := by
  unfold Sorted at h ⊢
  rw [← List.pairwise_map (R := fun x y => strcmp x y ≤ 0)] at h ⊢
  exact h.sublist hsub

theorem orderly_of_shrinks {g : FolderTasks → FolderTasks} (hg : ∀ f, Shrinks f (g f)) :
    Orderly g where
  keeps f := ⟨(hg f).addr, (hg f).refcnt⟩
  folderid f := (hg f).folderid
  counted f h := by
    have hnodes := (hg f).nodes
    unfold Counted at h ⊢
    omega
  recorded f h := (hg f).recorded h
  sorted f h := ⟨sorted_of_names h.mkdirs (hg f).mkdirs, sorted_of_names h.rmdirs (hg f).rmdirs,
    sorted_of_names h.creats (hg f).creats, sorted_of_names h.unlinks (hg f).unlinks⟩

theorem orderly_delMkdir (name : Name) (taskid : Nat) :
    Orderly fun f => f.delMkdir name taskid := by
  refine orderly_of_shrinks fun f => ?_
  unfold delMkdir
  split
  · exact .refl f
  · next i hi =>
    refine { Shrinks.refl f with
      nodes := ?_, recorded := fun h => ?_, mkdirs := (sublist_delAt hi).map _ }
    · have hsize := size_delAt hi
      unfold nodes
      simp only
      push_cast
      omega
    · refine h.delete .mkdirs Mkdir.entry hi rfl rfl rfl ?_
      rintro (_ | _ | _ | _) hne <;> first | rfl | exact absurd rfl hne

theorem orderly_delRmdir (name : Name) (taskid : Nat) :
    Orderly fun f => f.delRmdir name taskid := by
  refine orderly_of_shrinks fun f => ?_
  unfold delRmdir
  split
  · exact .refl f
  · next i hi =>
    refine { Shrinks.refl f with
      nodes := ?_, recorded := fun h => ?_, rmdirs := (sublist_delAt hi).map _ }
    · have hsize := size_delAt hi
      unfold nodes
      simp only
      push_cast
      omega
    · refine h.delete .rmdirs Rmdir.entry hi rfl rfl rfl ?_
      rintro (_ | _ | _ | _) hne <;> first | rfl | exact absurd rfl hne

theorem orderly_delCreat (name : Name) (taskid : Nat) :
    Orderly fun f => f.delCreat name taskid := by
  refine orderly_of_shrinks fun f => ?_
  unfold delCreat
  split
  · exact .refl f
  · next i hi =>
    refine { Shrinks.refl f with
      nodes := ?_, recorded := fun h => ?_, creats := (sublist_delAt hi).map _ }
    · have hsize := size_delAt hi
      unfold nodes
      simp only
      push_cast
      omega
    · refine h.delete .creats Creat.entry hi rfl rfl rfl ?_
      rintro (_ | _ | _ | _) hne <;> first | rfl | exact absurd rfl hne

theorem orderly_delUnlink (name : Name) (taskid : Nat) :
    Orderly fun f => f.delUnlink name taskid := by
  refine orderly_of_shrinks fun f => ?_
  unfold delUnlink
  split
  · exact .refl f
  · next i hi =>
    refine { Shrinks.refl f with
      nodes := ?_, recorded := fun h => ?_, unlinks := (sublist_delAt hi).map _ }
    · have hsize := size_delAt hi
      unfold nodes
      simp only
      push_cast
      omega
    · refine h.delete .unlinks Unlink.entry hi rfl rfl rfl ?_
      rintro (_ | _ | _ | _) hne <;> first | rfl | exact absurd rfl hne

theorem orderly_setMkdirFolderid (old new : Int) : Orderly fun f => f.setMkdirFolderid old new := by
  refine orderly_of_shrinks fun f => ?_
  unfold setMkdirFolderid
  split
  · exact .refl f
  · next i hi =>
    have hnames := map_toList_modifyAt (k := Mkdir.name)
      (g := fun x : Mkdir => { x with folderid := new }) hi fun _ => rfl
    have hentries := map_toList_modifyAt (k := Mkdir.entry)
      (g := fun x : Mkdir => { x with folderid := new }) hi fun _ => rfl
    refine { Shrinks.refl f with
      nodes := ?_, recorded := fun h => h.of_same rfl ?_, mkdirs := hnames ▸ List.Sublist.refl _ }
    · have hsize := congrArg List.length hnames
      rw [List.length_map, List.length_map, Ptree.Tree.length_toList,
        Ptree.Tree.length_toList] at hsize
      unfold nodes
      simp only [hsize]
    · funext kind
      cases kind with
      | mkdirs => exact hentries
      | _ => rfl

theorem orderly_setCreatFileid (old new : Int) : Orderly fun f => f.setCreatFileid old new := by
  refine orderly_of_shrinks fun f => ?_
  unfold setCreatFileid
  split
  · exact .refl f
  · next i hi =>
    have hnames := map_toList_modifyAt (k := Creat.name)
      (g := fun x : Creat => { x with fileid := new }) hi fun _ => rfl
    have hentries := map_toList_modifyAt (k := Creat.entry)
      (g := fun x : Creat => { x with fileid := new }) hi fun _ => rfl
    refine { Shrinks.refl f with
      nodes := ?_, recorded := fun h => h.of_same rfl ?_, creats := hnames ▸ List.Sublist.refl _ }
    · have hsize := congrArg List.length hnames
      rw [List.length_map, List.length_map, Ptree.Tree.length_toList,
        Ptree.Tree.length_toList] at hsize
      unfold nodes
      simp only [hsize]
    · funext kind
      cases kind with
      | creats => exact hentries
      | _ => rfl

theorem mem_delCreat {name : Name} {taskid : Nat} {cr : Creat}
    (h : cr ∈ (f.delCreat name taskid).creats.toList) : cr ∈ f.creats.toList := by
  unfold delCreat at h
  split at h
  · exact h
  · next i hi => exact (sublist_delAt hi).subset h

end FolderTasks

/-! ## Old locations -/

section OldLocation

variable {P : FolderTasks → Prop} {st : State} (env : Env) (fileid : FileId)

/-- A look at the old location of a file changes nothing. -/
theorem getFileAtOldLocation_snd (h : State.Inv P st) :
    (getFileAtOldLocation env st fileid).2 = st := by
  unfold getFileAtOldLocation
  split
  · rfl
  · split
    · rfl
    · next folderid name _ =>
      have hback := h.releaseIf_getFolderTasks folderid
      simp only
      split
      · next st' hget =>
        rw [hget] at hback
        exact hback
      · next p st' hget =>
        rw [hget] at hback
        split
        · exact hback
        · split <;> exact hback

/-- The file that is at the old location now: a pending one, or one of the database. -/
theorem getFileAtOldLocation_fst (h : State.Inv P st)
    (hne : (getFileAtOldLocation env st fileid).1 ≠ 0) :
    ∃ folderid name, env.hloc fileid = some (folderid, name) ∧
      ((∃ f ∈ st.folders.toList, f.folderid = folderid ∧ ∃ cr ∈ f.creats.toList,
          cr.name = name ∧ cr.fileid = (getFileAtOldLocation env st fileid).1) ∨
        ∃ row ∈ st.db.file, row.id = (getFileAtOldLocation env st fileid).1) := by
  have hdb : ∀ folderid name, ((st.db.findFile folderid name).map FileRow.id).getD 0 ≠ 0 →
      ∃ row ∈ st.db.file, row.id = ((st.db.findFile folderid name).map FileRow.id).getD 0 := by
    intro folderid name hne
    cases hrow : st.db.findFile folderid name with
    | none => rw [hrow] at hne; exact absurd rfl hne
    | some row => exact ⟨row, List.mem_of_find?_eq_some hrow, rfl⟩
  unfold getFileAtOldLocation at hne ⊢
  split at hne
  · exact absurd rfl hne
  · next hpos =>
    rw [if_neg hpos]
    cases hhloc : env.hloc fileid with
    | none => rw [hhloc] at hne; exact absurd rfl hne
    | some loc =>
      obtain ⟨folderid, name⟩ := loc
      refine ⟨folderid, name, rfl, ?_⟩
      simp only [hhloc] at hne ⊢
      cases hfind : st.getFolderTasksRdlocked folderid with
      | none =>
        simp only [State.getFolderTasks, hfind] at hne ⊢
        exact Or.inr (hdb folderid name hne)
      | some f =>
        have hmem := State.mem_of_getFolderTasksRdlocked hfind
        have hfolder : (st.getRef f.addr).folder f.addr = { f with refcnt := f.refcnt + 1 } :=
          h.folder_edit hmem rfl
        have hcr : FolderTasks.findCreat { f with refcnt := f.refcnt + 1 } name 0 =
            f.findCreat name 0 := rfl
        simp only [State.getFolderTasks, hfind, hfolder, hcr] at hne ⊢
        cases hcreat : f.findCreat name 0 with
        | some cr =>
          obtain ⟨hin, hname, -⟩ := find_spec hcreat
          have hid : f.folderid = folderid := State.folderid_of_getFolderTasksRdlocked hfind
          exact Or.inl ⟨f, hmem, hid, cr, hin, hname, rfl⟩
        | none =>
          rw [hcreat] at hne
          simp only at hne ⊢
          split at hne
          · exact absurd rfl hne
          · exact Or.inr (hdb folderid name hne)

end OldLocation

end PcloudClient.Pfstasks
