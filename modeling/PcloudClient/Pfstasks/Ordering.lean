/-
  Pfstasks/Ordering.lean --- the order of the task trees and what the searches find.

  `psync_fstask_inject_unlink` and `psync_init_task_renfile_to` insert an unlink by what
  stands at the offset of a creat's name.  Where their way down is the way of the names
  all trees stay sorted, and the searches miss no entry.
-/
import PcloudClient.Pfstasks.Runs

set_option autoImplicit false

namespace PcloudClient.Pfstasks

open State (Inv Held)

/-- The search finds an entry with the name, and the task id unless it is zero, exactly if one
is left. -/
def Finds {α : Type} (nameOf : α → Bytes) (taskidOf : α → Nat) (tree : Ptree.Tree α)
    (left : Name → Nat → Prop) : Prop :=
  ∀ name taskid,
    (∀ i, searchTree nameOf taskidOf tree name taskid = some i →
      ∃ x, tree.toList[i]? = some x ∧ Wanted nameOf taskidOf name taskid x) ∧
    ((∃ i, searchTree nameOf taskidOf tree name taskid = some i) ↔
      ∃ t, (taskid ≠ 0 → t = taskid) ∧ left name t)

/-- In a sorted tree that holds what is left the searches find it. -/
theorem Sorted.finds {α : Type} {nameOf : α → Bytes} {taskidOf : α → Nat} {tree : Ptree.Tree α}
    {left : Name → Nat → Prop} (h : Sorted nameOf tree)
    (hleft : ∀ name t,
      (name, t) ∈ tree.toList.map (fun x => (nameOf x, taskidOf x)) ↔ left name t) :
    Finds nameOf taskidOf tree left := by
  intro name taskid
  have hsome : ∀ i, searchTree nameOf taskidOf tree name taskid = some i →
      ∃ x, tree.toList[i]? = some x ∧ Wanted nameOf taskidOf name taskid x := by
    intro i hi
    obtain ⟨a, x, b, hsplit, rfl, hx⟩ := searchTree_some hi
    exact ⟨x, by rw [hsplit, List.getElem?_append_right (le_refl _)]; simp, hx⟩
  refine ⟨hsome, fun ⟨i, hi⟩ => ?_, fun ⟨t, ht, hlive⟩ => ?_⟩
  · obtain ⟨x, hget, hname, htask⟩ := hsome i hi
    refine ⟨taskidOf x, htask, (hleft name _).mp ?_⟩
    rw [← hname]
    exact List.mem_map_of_mem (List.mem_of_getElem? hget)
  · obtain ⟨x, hx, hentry⟩ := List.mem_map.mp ((hleft name t).mpr hlive)
    obtain ⟨rfl, rfl⟩ := Prod.mk.inj hentry
    refine Option.ne_none_iff_exists'.mp fun hnone => ?_
    exact (searchTree_none_iff h).mp hnone x hx ⟨rfl, ht⟩

/-- The steps whose insertions at the other offset go the way of the names. -/
def WayOfNames (st : State) : Op → Prop
  | .injectUnlink peek p un => Guided peek Unlink.name un (st.folder p).unlinks
  | .initTask env row =>
    row.type = .renfileTo → ∀ f, st.getFolderTasksRdlocked row.folderid = some f →
      Guided env.peek Unlink.name
        { fileid := row.fileid.getD 0, taskid := row.id, name := row.text1.getD [] } f.unlinks
  | _ => True

namespace FolderTasks

/-- The trees of a folder are sorted, and hold what was inserted and not deleted. -/
structure InOrder (f : FolderTasks) : Prop where
  sorted : f.TreesSorted
  recorded : f.Recorded

theorem inOrder_cutMkdir (f : FolderTasks) (name : Name) (h : InOrder f) :
    InOrder (f.cutMkdir name 0) := by
  unfold cutMkdir
  split
  · exact h
  · next i hi =>
    refine ⟨{ h.sorted with mkdirs := h.sorted.mkdirs.sublist (sublist_delAt hi) }, ?_⟩
    refine h.recorded.delete .mkdirs Mkdir.entry hi rfl rfl rfl ?_
    rintro (_ | _ | _ | _) hne <;> first | rfl | exact absurd rfl hne

theorem sorted_addUnlinkBy {f : FolderTasks} {key : Unlink → Bytes} {un : Unlink}
    (h : TreesSorted f)
    (hguided : Guided key Unlink.name un f.unlinks) : TreesSorted (f.addUnlinkBy key un) :=
  { h with unlinks := (sorted_insertIntoTree_iff un h.unlinks).mpr hguided }

@[simp] theorem unlinks_delCreat (f : FolderTasks) (name : Name) (taskid : Nat) :
    (f.delCreat name taskid).unlinks = f.unlinks := by
  unfold delCreat
  split <;> rfl

/-- The replay of a renamed file keeps the order where its way down is that of the names. -/
theorem sorted_initTaskRenfileTo {f : FolderTasks} {env : InitEnv} {row : TaskRow}
    (h : TreesSorted f)
    (hguided : Guided env.peek Unlink.name
      { fileid := row.fileid.getD 0, taskid := row.id, name := row.text1.getD [] } f.unlinks) :
    TreesSorted (initTaskRenfileTo env row f) := by
  refine (orderly_addCreat _).sorted _ (sorted_addUnlinkBy ((orderly_delCreat _ 0).sorted f h) ?_)
  rw [unlinks_delCreat]
  exact hguided

end FolderTasks

theorem stable_inOrder : Stable FolderTasks.InOrder where
  refFree _ _ h := ⟨FolderTasks.refFree_treesSorted _ _ h.sorted, h.recorded⟩
  new addr folderid :=
    ⟨FolderTasks.treesSorted_new addr folderid, FolderTasks.recorded_new addr folderid 0⟩
  edit _ hg f h := ⟨hg.sorted f h.sorted, hg.recorded f h.recorded⟩
  rekey f folderid h := ⟨stable_treesSorted.rekey f folderid h.sorted, h.recorded⟩

/-- A replay in a folder that stays in order. -/
theorem inOrder_withNewFolder {st : State} (h : Inv FolderTasks.InOrder st) {folderid : FolderId}
    {g : FolderTasks → FolderTasks} (hsound : FolderTasks.Sound g)
    (hnew : FolderTasks.TreesSorted (g { addr := st.nextAddr, folderid, refcnt := 1 }))
    (hfind : ∀ f, st.getFolderTasksRdlocked folderid = some f →
      FolderTasks.TreesSorted (g { f with refcnt := f.refcnt + 1 })) :
    Inv FolderTasks.InOrder (st.withNewFolder folderid g) := by
  obtain ⟨hinv, hheld⟩ := Inv.take stable_inOrder h folderid
  have hedit : Inv FolderTasks.InOrder ((st.getOrCreateFolderTasks folderid).2.edit
      (st.getOrCreateFolderTasks folderid).1 g) := by
    refine hinv.edit' hheld hsound.keeps (fun _ _ _ hf => hf) fun x hx hp hxin => ?_
    refine ⟨?_, hsound.recorded x hxin.recorded⟩
    have hx' := hinv.folder hx
    rw [hp, h.folder_getOrCreateFolderTasks stable_inOrder.refFree stable_inOrder.new] at hx'
    rw [← hx']
    split
    · exact hnew
    · next f hf => exact hfind f hf
  exact Inv.put stable_inOrder hedit (hheld.edit hsound.keeps _)

theorem inOrder_exec {st : State} {op : Op} (h : Inv FolderTasks.InOrder st) (hop : Allowed st op)
    (hcond : WayOfNames st op) : Inv FolderTasks.InOrder (exec st op).2 := by
  refine inv_exec stable_inOrder h hop (fun env folderid flags name heq => ?_)
    (fun peek p un heq => ?_) fun env row heq => ?_
  · refine inv_rmdir stable_inOrder env (fun f n hf => ?_) FolderTasks.inOrder_cutMkdir h folderid
      flags name
    exact ⟨⟨hf.sorted.1, hf.sorted.2, hf.sorted.3, hf.sorted.4⟩, hf.recorded⟩
  · subst heq
    have hsound := FolderTasks.sound_addUnlinkBy peek un
    refine h.edit' hop.1 hsound.keeps (fun _ _ _ hf => hf) fun f hf hp hin =>
      ⟨FolderTasks.sorted_addUnlinkBy hin.sorted ?_, hsound.recorded f hin.recorded⟩
    rw [← h.folder hf, hp]
    exact hcond
  · subst heq
    unfold initTask
    split
    · exact h
    · next g hg =>
      obtain ⟨hsound, horderly⟩ := initTask_edit env st.db row hg
      rcases eq_or_ne row.type .renfileTo with htype | htype
      · rw [initTaskFunc, htype] at hg
        obtain rfl := Option.some.inj hg
        refine inOrder_withNewFolder h hsound ?_ fun f hf => ?_
        · exact FolderTasks.sorted_initTaskRenfileTo ⟨.nil, .nil, .nil, .nil⟩ trivial
        · have hf' := (h.good f (State.mem_of_getFolderTasksRdlocked hf)).sorted
          exact FolderTasks.sorted_initTaskRenfileTo ⟨hf'.1, hf'.2, hf'.3, hf'.4⟩ (hcond htype f hf)
      · exact Inv.withNewFolder stable_inOrder h row.folderid hsound.keeps
          (stable_inOrder.edit g (horderly htype))

/-- In every run whose insertions at the other offset go the way of the names, the trees of
every folder are sorted by the names of their entries, and the searches find an entry exactly
if it was inserted and not deleted. -/
theorem trees_sorted {db : Db} {st : State} (hrun : Run WayOfNames (start db) st) :
    ∀ f ∈ st.folders.toList, f.TreesSorted ∧
      Finds Mkdir.name Mkdir.taskid f.mkdirs (f.Left .mkdirs) ∧
      Finds Rmdir.name Rmdir.taskid f.rmdirs (f.Left .rmdirs) ∧
      Finds Creat.name Creat.taskid f.creats (f.Left .creats) ∧
      Finds Unlink.name Unlink.taskid f.unlinks (f.Left .unlinks) := by
  intro f hf
  obtain ⟨hsorted, hrecorded⟩ := (Run.inv (fun _ _ h hop hcond => inOrder_exec h hop hcond)
    (inv_start FolderTasks.InOrder db) hrun).good f hf
  exact ⟨hsorted, hsorted.mkdirs.finds (hrecorded.mem_iff_left .mkdirs),
    hsorted.rmdirs.finds (hrecorded.mem_iff_left .rmdirs),
    hsorted.creats.finds (hrecorded.mem_iff_left .creats),
    hsorted.unlinks.finds (hrecorded.mem_iff_left .unlinks)⟩

/-- What the compiler's layout reads in names of eight bytes and more. -/
def peekName (un : Unlink) : Bytes := un.name.drop 8

theorem peeks_peekName : Peeks peekName := fun _ _ => rfl

/-- `aaaaaaaaz` -/
def firstStatic : Unlink := { fileid := 0, taskid := 8, name := List.replicate 8 97 ++ [122] }

/-- `baaaaaaaa` -/
def secondStatic : Unlink := { fileid := 0, taskid := 9, name := 98 :: List.replicate 8 97 }

/-- `bbbbbbbbz` -/
def thirdStatic : Unlink := { fileid := 0, taskid := 9, name := List.replicate 8 98 ++ [122] }

/-- Two static files are renamed into the root. -/
def renamedStatics (un un' : Unlink) : List Op :=
  [.take 0, .injectUnlink peekName 0 un, .injectUnlink peekName 0 un']

theorem run_renamedStatics {cond : State → Op → Prop} (un un' : Unlink)
    (h0 : cond (start emptyDb) (.take 0))
    (h1 : cond (after (start emptyDb) [.take 0]) (.injectUnlink peekName 0 un))
    (h2 : cond (after (start emptyDb) [.take 0, .injectUnlink peekName 0 un])
      (.injectUnlink peekName 0 un')) :
    Run cond (start emptyDb) (after (start emptyDb) (renamedStatics un un')) := by
  have hheld : Held (after (start emptyDb) [.take 0]) 0 1 :=
    (inv_start (fun _ => True) emptyDb).held_getOrCreateFolderTasks 0
  have hheld' := hheld.edit (FolderTasks.sound_addUnlinkBy peekName un).keeps 0
  exact .tail (.tail (.tail .refl ⟨.take 0, trivial, h0, rfl⟩)
    ⟨.injectUnlink peekName 0 un, ⟨hheld, peeks_peekName⟩, h1, rfl⟩)
    ⟨.injectUnlink peekName 0 un', ⟨hheld', peeks_peekName⟩, h2, rfl⟩

/-- Another file with the name of the second, which is then taken out. -/
def thirdAgain : Unlink := { thirdStatic with taskid := 10 }

def replacedStatics : List Op :=
  renamedStatics firstStatic thirdStatic ++
    [.injectUnlink peekName 0 thirdAgain, .dropUnlink 0 thirdStatic.name thirdStatic.taskid]

theorem run_replacedStatics :
    Run WayOfNames (start emptyDb) (after (start emptyDb) replacedStatics) := by
  have htwo : Run WayOfNames (start emptyDb)
      (after (start emptyDb) (renamedStatics firstStatic thirdStatic)) := by
    refine run_renamedStatics firstStatic thirdStatic trivial ?_ ?_ <;> (unfold WayOfNames; decide)
  have hheld : Held (after (start emptyDb) (renamedStatics firstStatic thirdStatic)) 0 1 :=
    (((inv_start (fun _ => True) emptyDb).held_getOrCreateFolderTasks 0).edit
      (FolderTasks.sound_addUnlinkBy peekName firstStatic).keeps 0).edit
      (FolderTasks.sound_addUnlinkBy peekName thirdStatic).keeps 0
  have hguided : WayOfNames (after (start emptyDb) (renamedStatics firstStatic thirdStatic))
      (.injectUnlink peekName 0 thirdAgain) := by
    unfold WayOfNames
    decide
  exact .tail (.tail htwo
    ⟨.injectUnlink peekName 0 thirdAgain, ⟨hheld, peeks_peekName⟩, hguided, rfl⟩)
    ⟨.dropUnlink 0 thirdStatic.name thirdStatic.taskid,
      hheld.edit (FolderTasks.sound_addUnlinkBy peekName thirdAgain).keeps 0, trivial, rfl⟩

/-- The last bytes of the names do not stand against the order of the names.  Of the two
entries with one name the search by the name alone finds the one that is left, and the search
for the other one finds nothing. -/
theorem trees_sorted_statics :
    ∃ f ∈ (after (start emptyDb) replacedStatics).folders.toList,
      f.unlinks.size = 2 ∧ f.TreesSorted ∧
      (∃ i, searchTree Unlink.name Unlink.taskid f.unlinks thirdStatic.name 0 = some i) ∧
      (∃ i, searchTree Unlink.name Unlink.taskid f.unlinks thirdStatic.name 10 = some i) ∧
      ¬ ∃ i, searchTree Unlink.name Unlink.taskid f.unlinks thirdStatic.name 9 = some i := by
  have hroot : ∃ f ∈ (after (start emptyDb) replacedStatics).folders.toList, f.unlinks.size = 2 ∧
      f.Left .unlinks thirdStatic.name 10 ∧ ¬ f.Left .unlinks thirdStatic.name 9 := by
    decide
  obtain ⟨f, hf, hsize, hin, hout⟩ := hroot
  obtain ⟨hsorted, -, -, -, hfinds⟩ := trees_sorted run_replacedStatics f hf
  refine ⟨f, hf, hsize, hsorted, ?_, ?_, ?_⟩
  · exact (hfinds thirdStatic.name 0).2.mpr ⟨10, fun h => absurd rfl h, hin⟩
  · exact (hfinds thirdStatic.name 10).2.mpr ⟨10, fun _ => rfl, hin⟩
  · rw [(hfinds thirdStatic.name 9).2]
    rintro ⟨t, ht, hleft⟩
    obtain rfl := ht (by decide)
    exact hout hleft

/-- Two names whose last bytes stand the other way round: the second file goes to the wrong
side, and a search for its name misses it. -/
theorem injectUnlink_misplaced :
    Run (fun _ _ => True) (start emptyDb)
        (after (start emptyDb) (renamedStatics firstStatic secondStatic)) ∧
      ∃ f ∈ (after (start emptyDb) (renamedStatics firstStatic secondStatic)).folders.toList,
        f.Left .unlinks secondStatic.name 9 ∧ f.findUnlink secondStatic.name 0 = none ∧
          ¬ f.TreesSorted := by
  refine ⟨run_renamedStatics firstStatic secondStatic trivial trivial trivial, ?_⟩
  have hmiss : ∃ f ∈ (after (start emptyDb)
      (renamedStatics firstStatic secondStatic)).folders.toList, secondStatic ∈ f.unlinks.toList ∧
        f.Left .unlinks secondStatic.name 9 ∧ f.findUnlink secondStatic.name 0 = none := by
    decide
  obtain ⟨f, hf, hin, hleft, hnone⟩ := hmiss
  refine ⟨f, hf, hleft, hnone, fun hsorted => ?_⟩
  have hsearch := find_isNone.mp (Option.isNone_iff_eq_none.mpr hnone)
  exact (searchTree_none_iff hsorted.unlinks).mp hsearch secondStatic hin
    ⟨rfl, fun h => absurd rfl h⟩

end PcloudClient.Pfstasks
