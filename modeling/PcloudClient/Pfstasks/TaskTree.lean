/-
  Pfstasks/TaskTree.lean --- trees of pending tasks ordered by name.

  `psync_fstask_search_tree` and `psync_fstask_insert_into_tree` reach the name and the
  task id of a node by byte offsets; here the two are functions of the node.  The name
  offset is given at each insertion, so an insertion may compare by another key than the
  search does.
-/
import PcloudClient.Foundation.Strcmp
import PcloudClient.Ptree.Position

set_option autoImplicit false

namespace PcloudClient.Pfstasks

variable {α : Type}

/-- A walk by `psync_tree_get_prev` or `psync_tree_get_next` over the nodes beside one, as
long as their names are equal: how many of them stand before the one with the task id. -/
def searchRun (nameOf : α → Bytes) (taskidOf : α → Nat) (name : Bytes) (taskid : Nat) :
    List α → Option Nat
  | [] => none
  | x :: l =>
    if strcmp name (nameOf x) ≠ 0 then none
    else if taskidOf x = taskid then some 0
    else (searchRun nameOf taskidOf name taskid l).map (· + 1)

/-- `psync_fstask_search_tree` -/
def searchTree (nameOf : α → Bytes) (taskidOf : α → Nat) (tree : Ptree.Tree α) (name : Bytes)
    (taskid : Nat) : Option Nat :=
  match tree.searchPos fun x => strcmp name (nameOf x) with
  | none => none
  | some i =>
    if taskid = 0 ∨ (tree.toList[i]?).map taskidOf = some taskid then some i
    else
      let before := (tree.toList.take i).reverse
      let after := tree.toList.drop (i + 1)
      ((searchRun nameOf taskidOf name taskid before).map fun k => i - 1 - k).or
        ((searchRun nameOf taskidOf name taskid after).map fun k => i + 1 + k)

/-- The way down of `psync_fstask_insert_into_tree`: an equal name goes to the right. -/
def insertCmp (key : α → Bytes) (element : α) (x : α) : Int :=
  if strcmp (key element) (key x) < 0 then -1 else 1

/-- `psync_fstask_insert_into_tree` -/
def insertIntoTree (key : α → Bytes) (tree : Ptree.Tree α) (element : α) : Ptree.Tree α :=
  tree.insert (insertCmp key element) id element

/-- `psync_fstask_walk_tree` -/
def walkTree (keyOf : α → Int) (tree : Ptree.Tree α) (key : Int) : Option Nat :=
  tree.toList.findIdx? fun x => keyOf x = key

/-! ## The order by names -/

/-- The nodes stand in the order of their names. -/
def Sorted (nameOf : α → Bytes) (tree : Ptree.Tree α) : Prop :=
  tree.toList.Pairwise fun x y => strcmp (nameOf x) (nameOf y) ≤ 0

theorem insertCmp_ne_zero (key : α → Bytes) (element x : α) : insertCmp key element x ≠ 0 := by
  unfold insertCmp
  split <;> decide

theorem strcmp_pos_iff {a b : Bytes} : 0 < strcmp a b ↔ strcmp b a < 0 := by
  rw [strcmp_swap b a]
  omega

/-- A search by name goes the way of the order. -/
theorem Sorted.cuts {nameOf : α → Bytes} {tree : Ptree.Tree α} (h : Sorted nameOf tree)
    (name : Bytes) :
    Ptree.Tree.Cuts (fun x => strcmp name (nameOf x)) tree.toList := by
  refine List.Pairwise.imp
    (fun {x y} hxy => ⟨fun hx => strcmp_lt_of_lt_of_le hx hxy, fun hy => ?_⟩) h
  rw [strcmp_pos_iff] at hy ⊢
  rcases (strcmp_trans hxy hy.le).lt_or_eq with hlt | heq
  · exact hlt
  · rw [strcmp_eq_zero_iff] at heq
    rw [heq, strcmp_swap] at hxy
    omega

/-- The nodes after an insertion. -/
theorem insertIntoTree_perm (key : α → Bytes) (tree : Ptree.Tree α) (element : α) :
    (insertIntoTree key tree element).toList.Perm (element :: tree.toList) := by
  obtain ⟨a, b, hsplit, hins, -⟩ := Ptree.Tree.insert_split id element tree
    fun x _ => insertCmp_ne_zero key element x
  rw [insertIntoTree, hins, hsplit]
  exact List.perm_middle

@[simp] theorem mem_insertIntoTree {key : α → Bytes} {tree : Ptree.Tree α} {element x : α} :
    x ∈ (insertIntoTree key tree element).toList ↔ x = element ∨ x ∈ tree.toList := by
  rw [(insertIntoTree_perm key tree element).mem_iff, List.mem_cons]

@[simp] theorem size_insertIntoTree (key : α → Bytes) (tree : Ptree.Tree α) (element : α) :
    (insertIntoTree key tree element).size = tree.size + 1 := by
  rw [← Ptree.Tree.length_toList, (insertIntoTree_perm key tree element).length_eq,
    List.length_cons, Ptree.Tree.length_toList]

/-- The way down by the key `key` goes to the side that the names say, at every node it meets. -/
def Guided (key nameOf : α → Bytes) (element : α) : Ptree.Tree α → Prop
  | .nil => True
  | .node l x r _ =>
    if insertCmp key element x < 0 then
      strcmp (nameOf element) (nameOf x) ≤ 0 ∧ Guided key nameOf element l
    else strcmp (nameOf x) (nameOf element) ≤ 0 ∧ Guided key nameOf element r

instance Guided.instDecidable (key nameOf : α → Bytes) (element : α) :
    ∀ tree, Decidable (Guided key nameOf element tree)
  | .nil => isTrue trivial
  | .node l x r _ =>
    have := instDecidable key nameOf element l
    have := instDecidable key nameOf element r
    inferInstanceAs (Decidable (if insertCmp key element x < 0 then
      strcmp (nameOf element) (nameOf x) ≤ 0 ∧ Guided key nameOf element l
      else strcmp (nameOf x) (nameOf element) ≤ 0 ∧ Guided key nameOf element r))

/-- An insertion by another key keeps the order exactly if its way down is that of the names. -/
theorem sorted_insertIntoTree_iff {key nameOf : α → Bytes} {tree : Ptree.Tree α} (element : α)
    (h : Sorted nameOf tree) :
    Sorted nameOf (insertIntoTree key tree element) ↔ Guided key nameOf element tree := by
  induction tree with
  | nil => exact ⟨fun _ => trivial, fun _ => List.pairwise_singleton _ _⟩
  | node l x r ht ihl ihr =>
    have hmem : ∀ {t : Ptree.Tree α} {y : α}, y ∈ (insertIntoTree key t element).toList ↔
        y = element ∨ y ∈ t.toList := mem_insertIntoTree
    have hnode : (insertIntoTree key (.node l x r ht) element).toList =
        if insertCmp key element x < 0 then (insertIntoTree key l element).toList ++ x :: r.toList
        else l.toList ++ x :: (insertIntoTree key r element).toList := by
      have hne := insertCmp_ne_zero key element x
      rw [Pfstasks.insertIntoTree, Ptree.Tree.insert, Ptree.Tree.toList_insertAux_node]
      split
      · rfl
      · rw [if_pos (by omega)]
        rfl
    unfold Sorted at h ihl ihr ⊢
    rw [Ptree.Tree.toList, List.pairwise_append, List.pairwise_cons] at h
    obtain ⟨hl, ⟨hxr, hr⟩, hlr⟩ := h
    have hlx : ∀ y ∈ l.toList, strcmp (nameOf y) (nameOf x) ≤ 0 := fun y hy =>
      hlr y hy x (List.mem_cons_self ..)
    rw [hnode, Guided]
    split
    · rw [List.pairwise_append, List.pairwise_cons, ihl hl]
      constructor
      · rintro ⟨hguided, -, hall⟩
        exact ⟨hall element (hmem.mpr (Or.inl rfl)) x (List.mem_cons_self ..), hguided⟩
      · rintro ⟨hx, hguided⟩
        refine ⟨hguided, ⟨hxr, hr⟩, fun y hy z hz => ?_⟩
        rcases hmem.mp hy with rfl | hy
        · rcases List.mem_cons.mp hz with rfl | hz
          · exact hx
          · exact strcmp_trans hx (hxr z hz)
        · exact hlr y hy z hz
    · rw [List.pairwise_append, List.pairwise_cons, ihr hr]
      constructor
      · rintro ⟨-, ⟨hall, hguided⟩, -⟩
        exact ⟨hall element (hmem.mpr (Or.inl rfl)), hguided⟩
      · rintro ⟨hx, hguided⟩
        refine ⟨hl, ⟨fun y hy => ?_, hguided⟩, fun y hy z hz => ?_⟩
        · rcases hmem.mp hy with rfl | hy
          · exact hx
          · exact hxr y hy
        · rcases List.mem_cons.mp hz with rfl | hz
          · exact hlx y hy
          · rcases hmem.mp hz with rfl | hz
            · exact strcmp_trans (hlx y hy) hx
            · exact hlr y hy z (List.mem_cons_of_mem _ hz)

theorem guided_names (nameOf : α → Bytes) (element : α) (tree : Ptree.Tree α) :
    Guided nameOf nameOf element tree := by
  induction tree with
  | nil => trivial
  | node l x r ht ihl ihr =>
    unfold Guided insertCmp
    by_cases hcmp : strcmp (nameOf element) (nameOf x) < 0
    · rw [if_pos hcmp, if_pos (by decide)]
      exact ⟨hcmp.le, ihl⟩
    · rw [if_neg hcmp, if_neg (by decide), strcmp_swap]
      exact ⟨by omega, ihr⟩

/-- An insertion by the names keeps the order. -/
theorem Sorted.insertIntoTree {nameOf : α → Bytes} {tree : Ptree.Tree α} (h : Sorted nameOf tree)
    (element : α) : Sorted nameOf (insertIntoTree nameOf tree element) :=
  (sorted_insertIntoTree_iff element h).mpr (guided_names nameOf element tree)

/-! ## The search -/

/-- What `psync_fstask_search_tree` looks for: the name, and the task id unless it is zero. -/
def Wanted (nameOf : α → Bytes) (taskidOf : α → Nat) (name : Bytes) (taskid : Nat) (x : α) : Prop :=
  nameOf x = name ∧ (taskid ≠ 0 → taskidOf x = taskid)

section Search

variable {nameOf : α → Bytes} {taskidOf : α → Nat} {name : Bytes} {taskid : Nat}

theorem searchRun_some {l : List α} {k : Nat}
    (h : searchRun nameOf taskidOf name taskid l = some k) :
    ∃ a x b, l = a ++ x :: b ∧ a.length = k ∧ nameOf x = name ∧ taskidOf x = taskid := by
  induction l generalizing k with
  | nil => exact absurd h nofun
  | cons y l ih =>
    rw [searchRun] at h
    split at h
    · exact absurd h nofun
    · next hname =>
      split at h
      · next htask =>
        obtain rfl := Option.some.inj h
        exact ⟨[], y, l, rfl, rfl, (strcmp_eq_zero_iff.mp (not_not.mp hname)).symm, htask⟩
      · obtain ⟨j, hj, rfl⟩ := Option.map_eq_some_iff.mp h
        obtain ⟨a, x, b, hsplit, hlen, hx⟩ := ih hj
        exact ⟨y :: a, x, b, by rw [hsplit]; rfl, by rw [List.length_cons, hlen], hx⟩

/-- Where the nodes with the name stand first, the walk misses none of them. -/
theorem searchRun_none {l : List α} (hrun : l.Pairwise fun x y => nameOf y = name → nameOf x = name)
    (h : searchRun nameOf taskidOf name taskid l = none) :
    ∀ x ∈ l, nameOf x = name → taskidOf x ≠ taskid := by
  induction l with
  | nil => nofun
  | cons y l ih =>
    obtain ⟨hy, hrun⟩ := List.pairwise_cons.mp hrun
    rw [searchRun] at h
    intro x hx hname
    split at h
    · next hne =>
      have hyname : nameOf y ≠ name := fun heq => hne (strcmp_eq_zero_iff.mpr heq.symm)
      rcases List.mem_cons.mp hx with rfl | hx
      · exact absurd hname hyname
      · exact absurd (hy x hx hname) hyname
    · split at h
      · exact absurd h nofun
      · next htask =>
        rcases List.mem_cons.mp hx with rfl | hx
        · exact htask
        · exact ih hrun (Option.map_eq_none_iff.mp h) x hx hname

/-- The search gives a node with the name and the task id, whatever the order of the tree. -/
theorem searchTree_some {tree : Ptree.Tree α} {i : Nat}
    (h : searchTree nameOf taskidOf tree name taskid = some i) :
    ∃ a x b, tree.toList = a ++ x :: b ∧ a.length = i ∧
      Wanted nameOf taskidOf name taskid x := by
  rw [searchTree] at h
  split at h
  · exact absurd h nofun
  · next j hj =>
    obtain ⟨a, x, b, hsplit, rfl, hx⟩ := Ptree.Tree.searchPos_some hj
    have hname := (strcmp_eq_zero_iff.mp hx).symm
    split at h
    · next hcond =>
      obtain rfl := Option.some.inj h
      refine ⟨a, x, b, hsplit, rfl, hname, fun hne => ?_⟩
      rcases hcond with hcond | hcond
      · exact absurd hcond hne
      · rw [hsplit, List.getElem?_append_right (le_refl _)] at hcond
        simpa using hcond
    · dsimp only at h
      rw [hsplit, List.take_left, List.drop_append, List.drop_of_length_le (by omega),
        Nat.add_sub_cancel_left, List.drop_one, List.tail_cons, List.nil_append] at h
      rcases Option.or_eq_some_iff.mp h with h | ⟨-, h⟩
      · obtain ⟨k, hk, rfl⟩ := Option.map_eq_some_iff.mp h
        obtain ⟨c, y, d, hrev, rfl, hn, ht⟩ := searchRun_some hk
        have ha : a = d.reverse ++ y :: c.reverse := by
          rw [← List.reverse_reverse a, hrev]
          simp
        refine ⟨d.reverse, y, c.reverse ++ x :: b, by rw [hsplit, ha]; simp, ?_, hn, fun _ => ht⟩
        rw [ha, List.length_append, List.length_cons, List.length_reverse, List.length_reverse]
        omega
      · obtain ⟨k, hk, rfl⟩ := Option.map_eq_some_iff.mp h
        obtain ⟨c, y, d, hb, rfl, hn, ht⟩ := searchRun_some hk
        refine ⟨a ++ x :: c, y, d, by rw [hsplit, hb]; simp, ?_, hn, fun _ => ht⟩
        rw [List.length_append, List.length_cons]
        omega

/-- In a tree sorted by names the search misses no node with the name and the task id. -/
theorem searchTree_none_iff {tree : Ptree.Tree α} (hsorted : Sorted nameOf tree) :
    searchTree nameOf taskidOf tree name taskid = none ↔
      ∀ x ∈ tree.toList, ¬ Wanted nameOf taskidOf name taskid x := by
  constructor
  · intro h x hx hwant
    rw [searchTree] at h
    split at h
    · next hnone =>
      refine (Ptree.Tree.searchPos_none_iff (hsorted.cuts name)).mp hnone x hx ?_
      exact strcmp_eq_zero_iff.mpr hwant.1.symm
    · next j hj =>
      obtain ⟨a, y, b, hsplit, rfl, hy⟩ := Ptree.Tree.searchPos_some hj
      split at h
      · exact absurd h nofun
      · next hcond =>
        obtain ⟨htask, hytask⟩ := not_or.mp hcond
        rw [hsplit, List.getElem?_append_right (le_refl _)] at hytask
        have hyname : nameOf y = name := (strcmp_eq_zero_iff.mp hy).symm
        unfold Sorted at hsorted
        rw [hsplit, List.pairwise_append, List.pairwise_cons] at hsorted
        obtain ⟨hsa, ⟨hyb, hsb⟩, hab⟩ := hsorted
        dsimp only at h
        rw [hsplit, List.take_left, List.drop_append, List.drop_of_length_le (by omega),
          Nat.add_sub_cancel_left, List.drop_one, List.tail_cons, List.nil_append,
          Option.or_eq_none_iff, Option.map_eq_none_iff, Option.map_eq_none_iff] at h
        rw [hsplit] at hx
        rcases List.mem_append.mp hx with hx | hx
        · refine searchRun_none ?_ h.1 x (List.mem_reverse.mpr hx) hwant.1 (hwant.2 htask)
          rw [List.pairwise_reverse]
          refine List.Pairwise.imp_of_mem (fun {u v} _ hv huv hu => ?_) hsa
          have hvy := hab v hv y (List.mem_cons_self ..)
          rw [hu] at huv
          rw [hyname] at hvy
          rw [strcmp_swap] at hvy
          exact (strcmp_eq_zero_iff.mp (by omega)).symm
        · rcases List.mem_cons.mp hx with rfl | hx
          · exact hytask (by simp [hwant.2 htask])
          · refine searchRun_none ?_ h.2 x hx hwant.1 (hwant.2 htask)
            refine List.Pairwise.imp_of_mem (fun {u v} hu _ huv hv => ?_) hsb
            have hyu := hyb u hu
            rw [hv] at huv
            rw [hyname, strcmp_swap] at hyu
            exact strcmp_eq_zero_iff.mp (by omega)
  · intro h
    by_contra hne
    obtain ⟨i, hi⟩ := Option.ne_none_iff_exists'.mp hne
    obtain ⟨a, x, b, hsplit, -, hwant⟩ := searchTree_some hi
    exact h x (by simp [hsplit]) hwant

end Search

end PcloudClient.Pfstasks
