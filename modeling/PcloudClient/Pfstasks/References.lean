/-
  Pfstasks/References.lean --- taking, editing and releasing the folders with tasks.

  What every operation keeps is stated once, for any property `P` of the folders that does
  not look at the reference counts: a folder is in `folders` as long as it has tasks or is
  referred to.
-/
import Mathlib.Data.List.Nodup
import PcloudClient.Pfstasks.Folders

set_option autoImplicit false

namespace PcloudClient.Pfstasks

/-- An edit of the tasks of a folder. -/
def Keeps (g : FolderTasks → FolderTasks) : Prop :=
  ∀ f, (g f).addr = f.addr ∧ (g f).refcnt = f.refcnt

/-- A property of the tasks of a folder. -/
def RefFree (P : FolderTasks → Prop) : Prop := ∀ f r, P f → P { f with refcnt := r }

namespace State

variable {P Q : FolderTasks → Prop} {st : State} {a b : List FolderTasks} {f : FolderTasks}
  {g : FolderTasks → FolderTasks} {p q : Nat} {n : Int}

/-- The folders are distinct, satisfy `P`, and have tasks or are referred to. -/
structure Inv (P : FolderTasks → Prop) (st : State) : Prop where
  good : ∀ f ∈ st.folders.toList, P f
  fresh : ∀ f ∈ st.folders.toList, f.addr < st.nextAddr
  nodup : (st.folders.toList.map FolderTasks.addr).Nodup
  live : ∀ f ∈ st.folders.toList, 0 ≤ f.refcnt ∧ (f.refcnt = 0 → f.taskscnt ≠ 0)

/-- There are `n` references to the folder at `p`. -/
def Held (st : State) (p : Nat) (n : Int) : Prop :=
  ∃ f ∈ st.folders.toList, f.addr = p ∧ n ≤ f.refcnt

theorem Inv.imp (h : Inv P st) (hPQ : ∀ f ∈ st.folders.toList, P f → Q f) : Inv Q st :=
  { h with good := fun f hf => hPQ f hf (h.good f hf) }

theorem Inv.withDb (h : Inv P st) (db : Db) : Inv P { st with db } :=
  ⟨h.good, h.fresh, h.nodup, h.live⟩

theorem Held.withDb (h : Held st p n) (db : Db) : Held { st with db } p n := h

/-! ## One folder among the others -/

theorem ne_of_split (hnodup : (st.folders.toList.map FolderTasks.addr).Nodup)
    (hsplit : st.folders.toList = a ++ f :: b) :
    (∀ x ∈ a, x.addr ≠ f.addr) ∧ ∀ x ∈ b, x.addr ≠ f.addr := by
  rw [hsplit, List.map_append, List.map_cons, List.nodup_append, List.nodup_cons] at hnodup
  obtain ⟨-, ⟨hb, -⟩, ha⟩ := hnodup
  constructor
  · intro x hx
    exact ha x.addr (List.mem_map_of_mem hx) f.addr (List.mem_cons_self ..)
  · intro x hx heq
    exact hb (heq ▸ List.mem_map_of_mem hx)

theorem deref_of_split (hnodup : (st.folders.toList.map FolderTasks.addr).Nodup)
    (hsplit : st.folders.toList = a ++ f :: b) : st.deref f.addr = some f := by
  have hfind : a.find? (fun x => x.addr = f.addr) = none := by
    rw [List.find?_eq_none]
    intro x hx
    simpa using (ne_of_split hnodup hsplit).1 x hx
  rw [deref, hsplit, List.find?_append, hfind]
  simp

theorem Inv.deref (h : Inv P st) (hf : f ∈ st.folders.toList) : st.deref f.addr = some f := by
  obtain ⟨a, b, hsplit⟩ := List.append_of_mem hf
  exact deref_of_split h.nodup hsplit

theorem Inv.folder (h : Inv P st) (hf : f ∈ st.folders.toList) : st.folder f.addr = f := by
  rw [State.folder, h.deref hf, Option.getD_some]

theorem Inv.eq_of_addr (h : Inv P st) {x : FolderTasks} (hf : f ∈ st.folders.toList)
    (hx : x ∈ st.folders.toList) (heq : x.addr = f.addr) : x = f :=
  List.inj_on_of_nodup_map h.nodup hx hf heq

@[simp] theorem toList_edit (st : State) (p : Nat) (g : FolderTasks → FolderTasks) :
    (st.edit p g).folders.toList = st.folders.toList.map fun f => if f.addr = p then g f else f :=
  Ptree.Tree.toList_map _ _

@[simp] theorem db_edit (st : State) (p : Nat) (g : FolderTasks → FolderTasks) :
    (st.edit p g).db = st.db := rfl

theorem Inv.edit_split (h : Inv P st) (hsplit : st.folders.toList = a ++ f :: b)
    (g : FolderTasks → FolderTasks) :
    (st.edit f.addr g).folders.toList = a ++ g f :: b := by
  obtain ⟨ha, hb⟩ := ne_of_split h.nodup hsplit
  have hid : ∀ l : List FolderTasks, (∀ x ∈ l, x.addr ≠ f.addr) →
      l.map (fun x => if x.addr = f.addr then g x else x) = l := by
    intro l hl
    conv_rhs => rw [← List.map_id l]
    exact List.map_congr_left fun x hx => if_neg (hl x hx)
  rw [toList_edit, hsplit, List.map_append, List.map_cons, hid a ha, hid b hb, if_pos rfl]

/-- The invariant after another folder stands in the place of one. -/
theorem Inv.of_split {st' : State} {f' : FolderTasks} (h : Inv P st)
    (hsplit : st.folders.toList = a ++ f :: b) (hsplit' : st'.folders.toList = a ++ f' :: b)
    (hnext : st'.nextAddr = st.nextAddr) (haddr : f'.addr = f.addr)
    (hlive : 0 ≤ f'.refcnt ∧ (f'.refcnt = 0 → f'.taskscnt ≠ 0))
    (hother : ∀ x ∈ a ++ b, P x → Q x) (hgood : Q f') : Inv Q st' := by
  have hmem : ∀ x ∈ st'.folders.toList, x = f' ∨ x ∈ a ++ b ∧ x ∈ st.folders.toList := by
    intro x hx
    rw [hsplit', List.mem_append, List.mem_cons] at hx
    rw [hsplit, List.mem_append, List.mem_append, List.mem_cons]
    tauto
  have hf : f ∈ st.folders.toList := by
    rw [hsplit]
    exact List.mem_append_right _ (List.mem_cons_self ..)
  refine ⟨fun x hx => ?_, fun x hx => ?_, ?_, fun x hx => ?_⟩
  · rcases hmem x hx with rfl | ⟨hab, hx⟩
    · exact hgood
    · exact hother x hab (h.good x hx)
  · rw [hnext]
    rcases hmem x hx with rfl | ⟨-, hx⟩
    · rw [haddr]
      exact h.fresh f hf
    · exact h.fresh x hx
  · have hnodup := h.nodup
    rw [hsplit, List.map_append, List.map_cons] at hnodup
    rw [hsplit', List.map_append, List.map_cons, haddr]
    exact hnodup
  · rcases hmem x hx with rfl | ⟨-, hx⟩
    · exact hlive
    · exact h.live x hx

/-- The invariant after a folder is gone. -/
theorem Inv.of_remove {st' : State} (h : Inv P st) (hsplit : st.folders.toList = a ++ f :: b)
    (hsplit' : st'.folders.toList = a ++ b) (hnext : st'.nextAddr = st.nextAddr)
    (hother : ∀ x ∈ a ++ b, P x → Q x) : Inv Q st' := by
  have hsub : (a ++ b).Sublist st.folders.toList := by
    rw [hsplit]
    exact (List.sublist_cons_self f b).append_left a
  refine ⟨fun x hx => ?_, fun x hx => ?_, ?_, fun x hx => ?_⟩
  · rw [hsplit'] at hx
    exact hother x hx (h.good x (hsub.subset hx))
  · rw [hsplit'] at hx
    rw [hnext]
    exact h.fresh x (hsub.subset hx)
  · rw [hsplit']
    exact h.nodup.sublist (hsub.map _)
  · rw [hsplit'] at hx
    exact h.live x (hsub.subset hx)

/-! ## Edits -/

/-- An edit of a folder that is referred to. -/
theorem Inv.edit' (h : Inv P st) (hp : Held st p 1) (hkeeps : Keeps g)
    (hother : ∀ f ∈ st.folders.toList, f.addr ≠ p → P f → Q f)
    (hg : ∀ f ∈ st.folders.toList, f.addr = p → P f → Q (g f)) : Inv Q (st.edit p g) := by
  obtain ⟨f, hf, rfl, hn⟩ := hp
  obtain ⟨a, b, hsplit⟩ := List.append_of_mem hf
  obtain ⟨ha, hb⟩ := ne_of_split h.nodup hsplit
  refine h.of_split hsplit (h.edit_split hsplit g) rfl (hkeeps f).1 ?_ (fun x hx hP => ?_)
    (hg f hf rfl (h.good f hf))
  · rw [(hkeeps f).2]
    exact ⟨by omega, by omega⟩
  · have hmem : x ∈ st.folders.toList := by
      rw [hsplit]
      rcases List.mem_append.mp hx with hx | hx
      · exact List.mem_append_left _ hx
      · exact List.mem_append_right _ (List.mem_cons_of_mem _ hx)
    exact hother x hmem (by
      rcases List.mem_append.mp hx with hx | hx
      · exact ha x hx
      · exact hb x hx) hP

theorem Inv.edit (h : Inv P st) (hp : Held st p 1) (hkeeps : Keeps g) (hg : ∀ f, P f → P (g f)) :
    Inv P (st.edit p g) :=
  h.edit' hp hkeeps (fun _ _ _ hP => hP) fun f _ _ hP => hg f hP

theorem Held.edit (hp : Held st p n) (hkeeps : Keeps g) (q : Nat) : Held (st.edit q g) p n := by
  obtain ⟨f, hf, hp, hn⟩ := hp
  refine ⟨if f.addr = q then g f else f, ?_, ?_, ?_⟩
  · rw [toList_edit]
    exact List.mem_map_of_mem hf
  · split
    · rw [(hkeeps f).1, hp]
    · exact hp
  · split
    · rw [(hkeeps f).2]
      exact hn
    · exact hn

/-- An edit that does nothing. -/
theorem edit_eq_self (h : ∀ f ∈ st.folders.toList, f.addr = p → g f = f) : st.edit p g = st := by
  have hmap : st.folders.map (fun f => if f.addr = p then g f else f) = st.folders := by
    refine Ptree.Tree.map_eq_self fun f hf => ?_
    split
    · next hp => exact h f hf hp
    · rfl
  rw [State.edit, hmap]

theorem edit_edit (st : State) (p : Nat) (g g' : FolderTasks → FolderTasks)
    (hg : ∀ f, (g f).addr = f.addr) :
    (st.edit p g).edit p g' = st.edit p fun f => g' (g f) := by
  simp only [State.edit, Ptree.Tree.map_map]
  congr 2
  funext f
  simp only [Function.comp]
  by_cases hp : f.addr = p
  · rw [if_pos hp, if_pos ((hg f).trans hp), if_pos hp]
  · rw [if_neg hp, if_neg hp, if_neg hp]

/-! ## Taking a folder -/

theorem mem_of_getFolderTasksRdlocked {folderid : FolderId}
    (hf : st.getFolderTasksRdlocked folderid = some f) : f ∈ st.folders.toList :=
  Ptree.Tree.mem_of_search hf

theorem folderid_of_getFolderTasksRdlocked {folderid : FolderId}
    (hf : st.getFolderTasksRdlocked folderid = some f) : f.folderid = folderid := by
  have hcmp : folderCmp folderid f = 0 := Ptree.Tree.cmp_of_search hf
  exact (sub_eq_zero.mp hcmp).symm

theorem Inv.getRef (h : Inv P st) (hP : RefFree P) (hf : f ∈ st.folders.toList) :
    Inv P (st.getRef f.addr) := by
  obtain ⟨a, b, hsplit⟩ := List.append_of_mem hf
  have hlive := h.live f hf
  refine h.of_split hsplit (h.edit_split hsplit _) rfl rfl ?_ (fun _ _ hPx => hPx)
    (hP f _ (h.good f hf))
  exact ⟨by have := hlive.1; simp only; omega, by have := hlive.1; simp only; omega⟩

theorem Held.getRef (hp : Held st p n) (q : Nat) : Held (st.getRef q) p n := by
  obtain ⟨f, hf, hp, hn⟩ := hp
  refine ⟨if f.addr = q then { f with refcnt := f.refcnt + 1 } else f, ?_, ?_, ?_⟩
  · rw [State.getRef, toList_edit]
    exact List.mem_map_of_mem hf
  · split <;> exact hp
  · split
    · simp only
      omega
    · exact hn

theorem Held.getRef_self (hp : Held st p n) : Held (st.getRef p) p (n + 1) := by
  obtain ⟨f, hf, hp, hn⟩ := hp
  refine ⟨{ f with refcnt := f.refcnt + 1 }, ?_, hp, by simp only; omega⟩
  rw [State.getRef, toList_edit]
  exact List.mem_map.mpr ⟨f, hf, if_pos hp⟩

theorem Inv.held (h : Inv P st) (hf : f ∈ st.folders.toList) : Held st f.addr 0 :=
  ⟨f, hf, rfl, (h.live f hf).1⟩

theorem Inv.getFolderTasks (h : Inv P st) (hP : RefFree P) (folderid : FolderId) :
    Inv P (st.getFolderTasks folderid).2 := by
  unfold State.getFolderTasks
  split
  · exact h
  · next f hf => exact h.getRef hP (mem_of_getFolderTasksRdlocked hf)

/-- A folder that is taken is referred to once more. -/
theorem Inv.held_getFolderTasks (h : Inv P st) {folderid : FolderId}
    (hq : (st.getFolderTasks folderid).1 = some q) : Held (st.getFolderTasks folderid).2 q 1 := by
  unfold State.getFolderTasks at hq ⊢
  split at hq
  · exact nomatch hq
  · next f hf =>
    obtain rfl := Option.some.inj hq
    simp only
    exact (h.held (mem_of_getFolderTasksRdlocked hf)).getRef_self

theorem Held.getFolderTasks (hp : Held st p n) (folderid : FolderId) :
    Held (st.getFolderTasks folderid).2 p n := by
  unfold State.getFolderTasks
  split
  · exact hp
  · exact hp.getRef _

theorem Held.getFolderTasks_self (hp : Held st p n) {folderid : FolderId}
    (hq : (st.getFolderTasks folderid).1 = some p) :
    Held (st.getFolderTasks folderid).2 p (n + 1) := by
  unfold State.getFolderTasks at hq ⊢
  split at hq
  · exact nomatch hq
  · next f hf =>
    obtain rfl := Option.some.inj hq
    simp only
    exact hp.getRef_self

/-- The list after a folder is made. -/
theorem getOrCreateFolderTasks_split {folderid : FolderId}
    (hnone : st.getFolderTasksRdlocked folderid = none) :
    ∃ a b, st.folders.toList = a ++ b ∧ (st.getOrCreateFolderTasks folderid).2.folders.toList =
      a ++ { addr := st.nextAddr, folderid, refcnt := 1 } :: b := by
  unfold getOrCreateFolderTasks
  rw [hnone]
  exact Ptree.Tree.insert_split_of_search id _ hnone

theorem mem_getOrCreateFolderTasks {folderid : FolderId} {x : FolderTasks}
    (hx : x ∈ (st.getOrCreateFolderTasks folderid).2.folders.toList) :
    x = { addr := st.nextAddr, folderid, refcnt := 1 } ∨
      ∃ y ∈ st.folders.toList, x = { y with refcnt := x.refcnt } := by
  cases hfind : st.getFolderTasksRdlocked folderid with
  | none =>
    obtain ⟨a, b, hsplit, hsplit'⟩ := getOrCreateFolderTasks_split hfind
    rw [hsplit', List.mem_append, List.mem_cons] at hx
    rw [hsplit]
    rcases hx with hx | rfl | hx
    · exact Or.inr ⟨x, List.mem_append_left _ hx, rfl⟩
    · exact Or.inl rfl
    · exact Or.inr ⟨x, List.mem_append_right _ hx, rfl⟩
  | some f =>
    rw [getOrCreateFolderTasks, hfind] at hx
    obtain ⟨y, hy, rfl⟩ := List.mem_map.mp ((toList_edit st f.addr _).symm ▸ hx)
    refine Or.inr ⟨y, hy, ?_⟩
    split <;> rfl

theorem getOrCreateFolderTasks_some {folderid : FolderId}
    (hf : st.getFolderTasksRdlocked folderid = some f) :
    st.getOrCreateFolderTasks folderid = (f.addr, st.getRef f.addr) := by
  rw [getOrCreateFolderTasks, hf]

theorem getOrCreateFolderTasks_none {folderid : FolderId}
    (hnone : st.getFolderTasksRdlocked folderid = none) :
    (st.getOrCreateFolderTasks folderid).1 = st.nextAddr ∧
      (st.getOrCreateFolderTasks folderid).2.nextAddr = st.nextAddr + 1 := by
  rw [getOrCreateFolderTasks, hnone]
  exact ⟨rfl, rfl⟩

@[simp] theorem db_getOrCreateFolderTasks (st : State) (folderid : FolderId) :
    (st.getOrCreateFolderTasks folderid).2.db = st.db := by
  unfold getOrCreateFolderTasks
  split <;> rfl

@[simp] theorem db_getFolderTasks (st : State) (folderid : FolderId) :
    (st.getFolderTasks folderid).2.db = st.db := by
  unfold State.getFolderTasks
  split <;> rfl

theorem Inv.getOrCreateFolderTasks (h : Inv P st) (hP : RefFree P)
    (hnew : ∀ addr folderid, P { addr, folderid }) (folderid : FolderId) :
    Inv P (st.getOrCreateFolderTasks folderid).2 := by
  cases hfind : st.getFolderTasksRdlocked folderid with
  | some f =>
    rw [getOrCreateFolderTasks_some hfind]
    exact h.getRef hP (mem_of_getFolderTasksRdlocked hfind)
  | none =>
    obtain ⟨a, b, hsplit, hsplit'⟩ := getOrCreateFolderTasks_split hfind
    have hnext := (getOrCreateFolderTasks_none hfind).2
    have hmem : ∀ x ∈ (st.getOrCreateFolderTasks folderid).2.folders.toList,
        x = { addr := st.nextAddr, folderid, refcnt := 1 } ∨ x ∈ st.folders.toList := by
      intro x hx
      rw [hsplit', List.mem_append, List.mem_cons] at hx
      rw [hsplit, List.mem_append]
      tauto
    refine ⟨fun x hx => ?_, fun x hx => ?_, ?_, fun x hx => ?_⟩
    · rcases hmem x hx with rfl | hx
      · exact hP _ 1 (hnew st.nextAddr folderid)
      · exact h.good x hx
    · rw [hnext]
      rcases hmem x hx with rfl | hx
      · exact Nat.lt_succ_self _
      · exact (h.fresh x hx).trans (Nat.lt_succ_self _)
    · have hnodup := h.nodup
      rw [hsplit, List.map_append] at hnodup
      rw [hsplit', List.map_append, List.map_cons, List.nodup_middle, List.nodup_cons]
      refine ⟨fun hin => ?_, hnodup⟩
      rw [← List.map_append, ← hsplit] at hin
      obtain ⟨x, hx, heq⟩ := List.mem_map.mp hin
      exact absurd (h.fresh x hx) (by rw [heq]; exact Nat.lt_irrefl _)
    · rcases hmem x hx with rfl | hx
      · exact ⟨Int.one_nonneg, fun h0 => absurd h0 Int.one_ne_zero⟩
      · exact h.live x hx

theorem Inv.held_getOrCreateFolderTasks (h : Inv P st) (folderid : FolderId) :
    Held (st.getOrCreateFolderTasks folderid).2 (st.getOrCreateFolderTasks folderid).1 1 := by
  cases hfind : st.getFolderTasksRdlocked folderid with
  | some f =>
    rw [getOrCreateFolderTasks_some hfind]
    exact (h.held (mem_of_getFolderTasksRdlocked hfind)).getRef_self
  | none =>
    obtain ⟨a, b, -, hsplit⟩ := getOrCreateFolderTasks_split hfind
    rw [(getOrCreateFolderTasks_none hfind).1]
    refine ⟨{ addr := st.nextAddr, folderid, refcnt := 1 }, ?_, rfl, Int.le_refl 1⟩
    rw [hsplit]
    exact List.mem_append_right _ (List.mem_cons_self ..)

/-- A search finds the edited folder. -/
theorem getFolderTasksRdlocked_edit (hg : ∀ f, (g f).folderid = f.folderid) (folderid : FolderId) :
    (st.edit p g).getFolderTasksRdlocked folderid =
      (st.getFolderTasksRdlocked folderid).map fun f => if f.addr = p then g f else f := by
  unfold getFolderTasksRdlocked State.edit
  rw [Ptree.Tree.search_map]
  congr 2
  funext f
  split
  · rw [folderCmp, hg, folderCmp]
  · rfl

theorem Inv.folder_edit (h : Inv P st) (hf : f ∈ st.folders.toList) (hg : (g f).addr = f.addr) :
    (st.edit f.addr g).folder f.addr = g f := by
  obtain ⟨a, b, hsplit⟩ := List.append_of_mem hf
  have hsplit' := h.edit_split hsplit g
  have hnodup : ((st.edit f.addr g).folders.toList.map FolderTasks.addr).Nodup := by
    have := h.nodup
    rw [hsplit, List.map_append, List.map_cons] at this
    rw [hsplit', List.map_append, List.map_cons, hg]
    exact this
  have hderef := deref_of_split hnodup hsplit'
  rw [hg] at hderef
  rw [State.folder, hderef, Option.getD_some]

/-- What the folder that is taken holds. -/
theorem Inv.folder_getFolderTasks (h : Inv P st) (folderid : FolderId) :
    (st.getFolderTasks folderid).1.map (st.getFolderTasks folderid).2.folder =
      (st.getFolderTasksRdlocked folderid).map fun f => { f with refcnt := f.refcnt + 1 } := by
  unfold State.getFolderTasks
  split
  · next hnone => rw [hnone]; rfl
  · next f hf =>
    rw [hf]
    exact congrArg some (h.folder_edit (mem_of_getFolderTasksRdlocked hf) rfl)

/-- What the folder that is taken or made holds. -/
theorem Inv.folder_getOrCreateFolderTasks (h : Inv P st) (hP : RefFree P)
    (hnew : ∀ addr folderid, P { addr, folderid }) (folderid : FolderId) :
    (st.getOrCreateFolderTasks folderid).2.folder (st.getOrCreateFolderTasks folderid).1 =
      match st.getFolderTasksRdlocked folderid with
      | none => { addr := st.nextAddr, folderid, refcnt := 1 }
      | some f => { f with refcnt := f.refcnt + 1 } := by
  cases hfind : st.getFolderTasksRdlocked folderid with
  | some f =>
    rw [getOrCreateFolderTasks_some hfind]
    exact h.folder_edit (mem_of_getFolderTasksRdlocked hfind) rfl
  | none =>
    obtain ⟨a, b, -, hsplit⟩ := getOrCreateFolderTasks_split hfind
    rw [(getOrCreateFolderTasks_none hfind).1]
    refine Inv.folder (h.getOrCreateFolderTasks hP hnew folderid)
      (f := { addr := st.nextAddr, folderid, refcnt := 1 }) ?_
    rw [hsplit]
    exact List.mem_append_right _ (List.mem_cons_self ..)

/-! ## Releasing a folder -/

theorem unlink_split (hnodup : (st.folders.toList.map FolderTasks.addr).Nodup)
    (hsplit : st.folders.toList = a ++ f :: b) :
    (st.unlinkFolder f.addr).folders.toList = a ++ b := by
  have hidx : st.folders.toList.findIdx (fun x => x.addr = f.addr) = a.length := by
    rw [hsplit, List.findIdx_append, List.findIdx_cons]
    have hnone : a.findIdx (fun x => x.addr = f.addr) = a.length :=
      List.findIdx_eq_length.mpr fun x hx => by
        simpa using (ne_of_split hnodup hsplit).1 x hx
    simp [hnone]
  simp only [unlinkFolder, hidx]
  exact Ptree.Tree.toList_delAt hsplit

/-- The list after a folder is released. -/
theorem Inv.release_split (h : Inv P st) (hsplit : st.folders.toList = a ++ f :: b) :
    (st.releaseFolderTasks f.addr).folders.toList =
      if f.refcnt - 1 = 0 ∧ f.taskscnt = 0 then a ++ b
      else a ++ { f with refcnt := f.refcnt - 1 } :: b := by
  let f' : FolderTasks := { f with refcnt := f.refcnt - 1 }
  let st' := st.edit f.addr fun f => { f with refcnt := f.refcnt - 1 }
  have hsplit' : st'.folders.toList = a ++ f' :: b := h.edit_split hsplit _
  have hnodup : (st'.folders.toList.map FolderTasks.addr).Nodup := by
    have := h.nodup
    rw [hsplit, List.map_append, List.map_cons] at this
    rw [hsplit', List.map_append, List.map_cons]
    exact this
  have hderef : st'.deref f.addr = some f' := deref_of_split hnodup hsplit'
  unfold releaseFolderTasks
  simp only
  rw [show st.edit f.addr (fun f => { f with refcnt := f.refcnt - 1 }) = st' from rfl, hderef]
  by_cases hfree : f.refcnt - 1 = 0 ∧ f.taskscnt = 0
  · simp only [f', hfree, and_self, if_true]
    have hunlink := unlink_split hnodup hsplit'
    exact hunlink
  · simp only [f', hfree, if_false]
    exact hsplit'

@[simp] theorem db_releaseFolderTasks (st : State) (p : Nat) :
    (st.releaseFolderTasks p).db = st.db := by
  unfold releaseFolderTasks
  simp only
  split
  · rfl
  · split <;> rfl

@[simp] theorem nextAddr_releaseFolderTasks (st : State) (p : Nat) :
    (st.releaseFolderTasks p).nextAddr = st.nextAddr := by
  unfold releaseFolderTasks
  simp only
  split
  · rfl
  · split <;> rfl

@[simp] theorem db_releaseIf (st : State) (o : Option Nat) : (st.releaseIf o).db = st.db := by
  cases o with
  | none => rfl
  | some p => exact db_releaseFolderTasks st p

theorem Inv.releaseFolderTasks (h : Inv P st) (hP : RefFree P) (hp : Held st p 1) :
    Inv P (st.releaseFolderTasks p) := by
  obtain ⟨f, hf, rfl, hn⟩ := hp
  obtain ⟨a, b, hsplit⟩ := List.append_of_mem hf
  have hsplit' := h.release_split hsplit
  split at hsplit'
  · exact h.of_remove hsplit hsplit' (nextAddr_releaseFolderTasks st _) fun _ _ hPx => hPx
  · next hfree =>
    refine h.of_split hsplit hsplit' (nextAddr_releaseFolderTasks st _) rfl ⟨?_, fun h0 ht => ?_⟩
      (fun _ _ hPx => hPx) (hP f _ (h.good f hf))
    · simp only
      omega
    · exact hfree ⟨h0, ht⟩

/-- The references to other folders stay. -/
theorem Inv.held_release_of_ne (h : Inv P st) (hq : Held st q 1) (hp : Held st p n) (hne : p ≠ q) :
    Held (st.releaseFolderTasks q) p n := by
  obtain ⟨f, hf, rfl, -⟩ := hq
  obtain ⟨x, hx, rfl, hn⟩ := hp
  obtain ⟨a, b, hsplit⟩ := List.append_of_mem hf
  refine ⟨x, ?_, rfl, hn⟩
  rw [h.release_split hsplit]
  rw [hsplit, List.mem_append, List.mem_cons] at hx
  have hxab : x ∈ a ∨ x ∈ b := by
    rcases hx with hx | rfl | hx
    · exact Or.inl hx
    · exact absurd rfl hne
    · exact Or.inr hx
  split
  · exact List.mem_append.mpr hxab
  · rw [List.mem_append, List.mem_cons]
    exact hxab.imp id Or.inr

/-- Of two references one stays. -/
theorem Inv.held_release_self (h : Inv P st) (hp : Held st p 2) :
    Held (st.releaseFolderTasks p) p 1 := by
  obtain ⟨f, hf, rfl, hn⟩ := hp
  obtain ⟨a, b, hsplit⟩ := List.append_of_mem hf
  refine ⟨{ f with refcnt := f.refcnt - 1 }, ?_, rfl, by simp only; omega⟩
  rw [h.release_split hsplit, if_neg (by omega)]
  exact List.mem_append_right _ (List.mem_cons_self ..)

/-! ## Taking and releasing -/

/-- Taking a folder and releasing it leaves everything as it was. -/
theorem Inv.release_getRef (h : Inv P st) (hf : f ∈ st.folders.toList) :
    (st.getRef f.addr).releaseFolderTasks f.addr = st := by
  have hundo :
      (st.getRef f.addr).edit f.addr (fun x => { x with refcnt := x.refcnt - 1 }) = st := by
    rw [State.getRef, edit_edit]
    · exact edit_eq_self fun x _ _ => by simp
    · exact fun _ => rfl
  have hlive := h.live f hf
  unfold State.releaseFolderTasks
  simp only [hundo, h.deref hf]
  rw [if_neg fun hfree => hlive.2 hfree.1 hfree.2]

theorem Inv.releaseIf_getFolderTasks (h : Inv P st) (folderid : FolderId) :
    (st.getFolderTasks folderid).2.releaseIf (st.getFolderTasks folderid).1 = st := by
  unfold State.getFolderTasks
  split
  · rfl
  · next f hf => exact h.release_getRef (mem_of_getFolderTasksRdlocked hf)

/-- The folders and the database are the same. -/
def Same (st st' : State) : Prop := st.folders.toList = st'.folders.toList ∧ st.db = st'.db

theorem Inv.release_getOrCreate (h : Inv P st) (hP : RefFree P)
    (hnew : ∀ addr folderid, P { addr, folderid }) (folderid : FolderId) :
    Same ((st.getOrCreateFolderTasks folderid).2.releaseFolderTasks
      (st.getOrCreateFolderTasks folderid).1) st := by
  refine ⟨?_, by simp⟩
  cases hfind : st.getFolderTasksRdlocked folderid with
  | some f =>
    rw [getOrCreateFolderTasks_some hfind]
    exact congrArg (·.folders.toList) (h.release_getRef (mem_of_getFolderTasksRdlocked hfind))
  | none =>
    obtain ⟨a, b, hsplit, hsplit'⟩ := getOrCreateFolderTasks_split hfind
    rw [(getOrCreateFolderTasks_none hfind).1]
    refine ((h.getOrCreateFolderTasks hP hnew folderid).release_split hsplit').trans ?_
    rw [if_pos ⟨Int.sub_self 1, rfl⟩, hsplit]

/-! ## The order of the folders -/

/-- The tree `folders` is a search tree with one folder for an id. -/
def Keyed (st : State) : Prop := Ptree.Tree.Ordered FolderTasks.folderid st.folders

theorem folderCmp_compares (folderid : FolderId) (t : Ptree.Tree FolderTasks) :
    Ptree.Tree.Compares FolderTasks.folderid (folderCmp folderid) folderid t := by
  intro x _
  exact ⟨sub_neg, sub_pos⟩

theorem Keyed.rdlocked_iff (h : Keyed st) {folderid : FolderId} :
    st.getFolderTasksRdlocked folderid = some f ↔ f ∈ st.folders.toList ∧ f.folderid = folderid :=
  Ptree.Tree.search_eq_some_iff h (folderCmp_compares folderid st.folders)

theorem Keyed.edit (h : Keyed st) (hg : ∀ f, (g f).folderid = f.folderid) (p : Nat) :
    Keyed (st.edit p g) := by
  unfold Keyed Ptree.Tree.Ordered at h ⊢
  rw [toList_edit, List.pairwise_map]
  refine h.imp fun {x y} hxy => ?_
  have hsame : ∀ x : FolderTasks, (if x.addr = p then g x else x).folderid = x.folderid := by
    intro x
    split
    · exact hg x
    · rfl
  rw [hsame, hsame]
  exact hxy

theorem Keyed.sublist {st' : State} (h : Keyed st)
    (hsub : st'.folders.toList.Sublist st.folders.toList) :
    Keyed st' := List.Pairwise.sublist hsub h

/-- A new folder does not change what the searches for the others find. -/
theorem Keyed.create {folderid : FolderId} (h : Keyed st)
    (hnone : st.getFolderTasksRdlocked folderid = none) :
    Keyed (st.getOrCreateFolderTasks folderid).2 ∧
      ∀ c, (st.getOrCreateFolderTasks folderid).2.getFolderTasksRdlocked c =
        if c = folderid then some { addr := st.nextAddr, folderid, refcnt := 1 }
        else st.getFolderTasksRdlocked c := by
  have hne : ∀ x ∈ st.folders.toList, x.folderid ≠ folderid := by
    intro x hx heq
    rw [h.rdlocked_iff.mpr ⟨hx, heq⟩] at hnone
    exact nomatch hnone
  have hcuts : Ptree.Tree.Cuts (folderCmp folderid) st.folders.toList := by
    refine List.Pairwise.imp (fun {x y} hxy => ?_) h
    have hxy' : x.folderid < y.folderid := hxy
    exact ⟨fun hx => sub_neg.mpr ((sub_neg.mp hx).trans hxy'),
      fun hy => sub_pos.mpr (hxy'.trans (sub_pos.mp hy))⟩
  obtain ⟨a, b, hsplit, hins, hplace⟩ := Ptree.Tree.insert_split id
    { addr := st.nextAddr, folderid, refcnt := 1 } st.folders
    fun x hx => sub_ne_zero.mpr (hne x hx).symm
  obtain ⟨ha, hb⟩ := hplace hcuts
  have hlist : (st.getOrCreateFolderTasks folderid).2.folders.toList =
      a ++ { addr := st.nextAddr, folderid, refcnt := 1 } :: b := by
    unfold getOrCreateFolderTasks
    rw [hnone]
    exact hins
  have hkeyed : Keyed (st.getOrCreateFolderTasks folderid).2 := by
    unfold Keyed Ptree.Tree.Ordered at h ⊢
    rw [hsplit, List.pairwise_append] at h
    rw [hlist, List.pairwise_append, List.pairwise_cons]
    refine ⟨h.1, ⟨fun x hx => sub_neg.mp (hb x hx), h.2.1⟩, fun x hx y hy => ?_⟩
    rcases List.mem_cons.mp hy with rfl | hy
    · exact sub_pos.mp (ha x hx)
    · exact h.2.2 x hx y hy
  have hmem : ∀ x, x ∈ (st.getOrCreateFolderTasks folderid).2.folders.toList ↔
      x = { addr := st.nextAddr, folderid, refcnt := 1 } ∨ x ∈ st.folders.toList := by
    intro x
    rw [hlist, hsplit, List.mem_append, List.mem_cons, List.mem_append]
    tauto
  refine ⟨hkeyed, fun c => Option.ext fun x => ?_⟩
  rw [hkeyed.rdlocked_iff, hmem]
  split
  · next hc =>
    subst hc
    constructor
    · rintro ⟨rfl | hx, hid⟩
      · rfl
      · exact absurd hid (hne x hx)
    · intro hx
      obtain rfl := Option.some.inj hx
      exact ⟨Or.inl rfl, rfl⟩
  · next hc =>
    rw [h.rdlocked_iff]
    constructor
    · rintro ⟨rfl | hx, hid⟩
      · exact absurd hid.symm hc
      · exact ⟨hx, hid⟩
    · exact fun hx => ⟨Or.inr hx.1, hx.2⟩

theorem Keyed.getOrCreateFolderTasks (h : Keyed st) (folderid : FolderId) :
    Keyed (st.getOrCreateFolderTasks folderid).2 := by
  cases hfind : st.getFolderTasksRdlocked folderid with
  | none => exact (h.create hfind).1
  | some f =>
    rw [getOrCreateFolderTasks_some hfind]
    exact Keyed.edit (g := fun f => { f with refcnt := f.refcnt + 1 }) h (fun _ => rfl) f.addr

end State

end PcloudClient.Pfstasks
