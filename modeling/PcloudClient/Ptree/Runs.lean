/-
  Ptree/Runs.lean --- any sequence of changes of a tree.

  The tree in memory refines the list of its nodes: every operation does to the list what
  its name says.
-/
import PcloudClient.Ptree.Traversal

set_option autoImplicit false

namespace PcloudClient.Ptree

/-! ## The list -/

/-- `newnode` right behind `node`. -/
def insertAfter (node newnode : Nat) (l : List Nat) : List Nat :=
  l.flatMap fun y => if y = node then [y, newnode] else [y]

/-- `newnode` right before `node`. -/
def insertBefore (node newnode : Nat) (l : List Nat) : List Nat :=
  l.flatMap fun y => if y = node then [newnode, y] else [y]

/-- What `psync_tree_add_after` does to the list; without a node it adds at the front. -/
def listAddAfter (node : Ptr) (newnode : Nat) (l : List Nat) : List Nat :=
  match node with
  | none => newnode :: l
  | some x => insertAfter x newnode l

/-- What `psync_tree_add_before` does to the list; without a node it adds at the end. -/
def listAddBefore (node : Ptr) (newnode : Nat) (l : List Nat) : List Nat :=
  match node with
  | none => l ++ [newnode]
  | some x => insertBefore x newnode l

theorem flatMap_of_notMem {node : Nat} {f : Nat → List Nat} {l : List Nat} (h : node ∉ l) :
    (l.flatMap fun y => if y = node then f y else [y]) = l := by
  induction l with
  | nil => rfl
  | cons y l ih =>
    rw [List.mem_cons, not_or] at h
    rw [List.flatMap_cons, ih h.2, if_neg (Ne.symm h.1)]
    rfl

theorem insertAfter_split {a b : List Nat} {x new : Nat} (h : (a ++ x :: b).Nodup) :
    insertAfter x new (a ++ x :: b) = a ++ x :: new :: b := by
  rw [List.nodup_middle, List.nodup_cons, List.mem_append, not_or] at h
  rw [insertAfter, List.flatMap_append, List.flatMap_cons, flatMap_of_notMem h.1.1,
    flatMap_of_notMem h.1.2, if_pos rfl]
  rfl

theorem insertBefore_split {a b : List Nat} {x new : Nat} (h : (a ++ x :: b).Nodup) :
    insertBefore x new (a ++ x :: b) = a ++ new :: x :: b := by
  rw [List.nodup_middle, List.nodup_cons, List.mem_append, not_or] at h
  rw [insertBefore, List.flatMap_append, List.flatMap_cons, flatMap_of_notMem h.1.1,
    flatMap_of_notMem h.1.2, if_pos rfl]
  rfl

theorem erase_split {a b : List Nat} {x : Nat} (h : (a ++ x :: b).Nodup) :
    (a ++ x :: b).erase x = a ++ b := by
  rw [List.nodup_middle, List.nodup_cons, List.mem_append, not_or] at h
  rw [List.erase_append_right _ h.1.1, List.erase_cons_head]

section

variable {h : Heap} {tree : Ptr} {t : Tree Nat} {x new : Nat} {fuel : Nat}

theorem toList_place {ctx : List (Frame Nat)} {l r : Tree Nat} {ht : Int} :
    (plug ctx (.node l x r ht)).toList =
      (before ctx ++ l.toList) ++ x :: (r.toList ++ after ctx) := by
  simp [toList_plug, Tree.toList]

theorem Sound.addAfter_mem (hs : Sound h tree t) (hfuel : t.toList.length ≤ fuel)
    (hx : x ∈ t.toList) (hnew : new ∉ t.toList) :
    ∃ h' tree' t', h.addAfterNode fuel tree x new = some (h', tree') ∧ Sound h' tree' t' ∧
      t'.toList = insertAfter x new t.toList := by
  obtain ⟨ctx, l, r, ht, rfl⟩ := exists_plug_of_mem hx
  obtain ⟨h', tree', t', hadd, hsound, hlist⟩ := hs.addAfterNode hfuel hnew
  refine ⟨h', tree', t', hadd, hsound, ?_⟩
  have hnodup := hs.nodup
  rw [toList_place] at hnodup ⊢
  rw [hlist, insertAfter_split hnodup]

theorem Sound.addBefore_mem (hs : Sound h tree t) (hfuel : t.toList.length ≤ fuel)
    (hx : x ∈ t.toList) (hnew : new ∉ t.toList) :
    ∃ h' tree' t', h.addBeforeNode fuel tree x new = some (h', tree') ∧ Sound h' tree' t' ∧
      t'.toList = insertBefore x new t.toList := by
  obtain ⟨ctx, l, r, ht, rfl⟩ := exists_plug_of_mem hx
  obtain ⟨h', tree', t', hadd, hsound, hlist⟩ := hs.addBeforeNode hfuel hnew
  refine ⟨h', tree', t', hadd, hsound, ?_⟩
  have hnodup := hs.nodup
  rw [toList_place] at hnodup ⊢
  rw [hlist, insertBefore_split hnodup]

/-- `psync_tree_del` -/
theorem Sound.del_mem (hs : Sound h tree t) (hfuel : t.toList.length ≤ fuel) (hx : x ∈ t.toList) :
    ∃ h' tree' t', h.getDel fuel tree x = some (h', tree') ∧ Sound h' tree' t' ∧
      t'.toList = t.toList.erase x := by
  obtain ⟨ctx, l, r, ht, rfl⟩ := exists_plug_of_mem hx
  obtain ⟨h', tree', t', hdel, hsound, hlist⟩ := hs.getDel hfuel
  refine ⟨h', tree', t', hdel, hsound, ?_⟩
  have hnodup := hs.nodup
  rw [toList_place] at hnodup ⊢
  rw [hlist, erase_split hnodup]

/-- The first node of a tree. -/
theorem sound_leaf (h : Heap) (new : Nat) :
    Sound (h.initNode new) (some new) (.node .nil new .nil 1) :=
  ⟨⟨⟨Function.update_self .., trivial, trivial⟩, by simp [Tree.toList], rfl⟩, avl_leaf new⟩

/-- `psync_tree_add_after` -/
theorem Sound.getAddAfter {node : Ptr} (hs : Sound h tree t) (hfuel : t.toList.length ≤ fuel)
    (hnode : ∀ x, node = some x → x ∈ t.toList) (hnew : new ∉ t.toList) :
    ∃ h' tree' t', h.getAddAfter fuel tree node new = some (h', tree') ∧ Sound h' tree' t' ∧
      t'.toList = listAddAfter node new t.toList := by
  cases node with
  | some x =>
    have hx := hnode x rfl
    have hroot := hs.root
    cases tree with
    | none =>
      obtain rfl := Tree.eq_nil_of_root hroot.symm
      exact absurd hx (by simp [Tree.toList])
    | some y => exact hs.addAfter_mem hfuel hx hnew
  | none =>
    have hroot := hs.root
    cases tree with
    | none =>
      obtain rfl := Tree.eq_nil_of_root hroot.symm
      exact ⟨_, _, _, rfl, sound_leaf h new, rfl⟩
    | some y =>
      have hfirst := hs.toHolds.getFirst_eq hfuel
      cases hlist : t.toList with
      | nil => exact absurd (Tree.mem_of_root hroot.symm) (by simp [hlist])
      | cons x rest =>
        obtain ⟨h', tree', t', hadd, hsound, hlist'⟩ :=
          hs.addBefore_mem hfuel (show x ∈ t.toList by simp [hlist]) hnew
        refine ⟨h', tree', t', ?_, hsound, ?_⟩
        · rw [hlist] at hfirst
          simp only [Heap.getAddAfter, hfirst, Option.bind_eq_bind, Option.bind_some,
            List.head?_cons]
          exact hadd
        · have hnodup := hs.nodup
          rw [hlist] at hnodup hlist'
          rw [hlist']
          exact @insertBefore_split [] rest x new hnodup

/-- `psync_tree_add_before` -/
theorem Sound.getAddBefore {node : Ptr} (hs : Sound h tree t) (hfuel : t.toList.length ≤ fuel)
    (hnode : ∀ x, node = some x → x ∈ t.toList) (hnew : new ∉ t.toList) :
    ∃ h' tree' t', h.getAddBefore fuel tree node new = some (h', tree') ∧ Sound h' tree' t' ∧
      t'.toList = listAddBefore node new t.toList := by
  cases node with
  | some x =>
    have hx := hnode x rfl
    have hroot := hs.root
    cases tree with
    | none =>
      obtain rfl := Tree.eq_nil_of_root hroot.symm
      exact absurd hx (by simp [Tree.toList])
    | some y => exact hs.addBefore_mem hfuel hx hnew
  | none =>
    have hroot := hs.root
    cases tree with
    | none =>
      obtain rfl := Tree.eq_nil_of_root hroot.symm
      exact ⟨_, _, _, rfl, sound_leaf h new, rfl⟩
    | some y =>
      have hlast := hs.toHolds.getLast_eq hfuel
      rcases List.eq_nil_or_concat t.toList with hlist | ⟨rest, x, hlist⟩
      · exact absurd (Tree.mem_of_root hroot.symm) (by simp [hlist])
      · rw [List.concat_eq_append] at hlist
        obtain ⟨h', tree', t', hadd, hsound, hlist'⟩ :=
          hs.addAfter_mem hfuel (show x ∈ t.toList by simp [hlist]) hnew
        refine ⟨h', tree', t', ?_, hsound, ?_⟩
        · rw [hlist] at hlast
          simp only [Heap.getAddBefore, hlast, Option.bind_eq_bind, Option.bind_some,
            List.getLast?_append, List.getLast?_singleton, Option.some_or]
          exact hadd
        · have hnodup := hs.nodup
          rw [hlist] at hnodup hlist' ⊢
          rw [hlist', @insertAfter_split rest [] x new hnodup]
          simp [listAddBefore]

/-- `psync_tree_added_at` below a parent whose free pointer the caller has set. -/
theorem Sound.getAddedAt {f : Frame Nat} {ctx : List (Frame Nat)}
    (hs : Sound h tree (plug (f :: ctx) .nil))
    (hfuel : (plug (f :: ctx) (.nil : Tree Nat)).toList.length ≤ fuel)
    (hnew : new ∉ (plug (f :: ctx) (.nil : Tree Nat)).toList) :
    ∃ h' tree' t', (link h f (some new)).getAddedAt fuel tree (some f.elem) new =
        some (h', tree') ∧ Sound h' tree' t' ∧
      t'.toList = before (f :: ctx) ++ new :: after (f :: ctx) := by
  refine hs.addLeaf hfuel hnew (fun z hz => ?_) ?_
  · rw [Heap.setParent_of_ne _ _ _ hz]
    exact Function.update_of_ne hz _ _
  · rw [Heap.setParent_self]
    simp [Heap.initNode]

end

/-! ## Operations -/

/-- The functions that change a tree.  For `psync_tree_added_at` the caller has put the new
node into a free pointer of the parent, the right or the left one, or into the empty tree. -/
inductive Op where
  | addAfter (node : Ptr) (newnode : Nat)
  | addBefore (node : Ptr) (newnode : Nat)
  | addedAt (parent : Ptr) (right : Bool) (newnode : Nat)
  | del (node : Nat)
  deriving DecidableEq, Repr

namespace Op

/-- The operation on the heap. -/
def exec (fuel : Nat) (h : Heap) (tree : Ptr) : Op → Option (Heap × Ptr)
  | addAfter node newnode => h.getAddAfter fuel tree node newnode
  | addBefore node newnode => h.getAddBefore fuel tree node newnode
  | addedAt none _ newnode => h.getAddedAt fuel (some newnode) none newnode
  | addedAt (some p) true newnode =>
    (h.setRight p (some newnode)).getAddedAt fuel tree (some p) newnode
  | addedAt (some p) false newnode =>
    (h.setLeft p (some newnode)).getAddedAt fuel tree (some p) newnode
  | del node => h.getDel fuel tree node

/-- The operation on the list. -/
def apply (l : List Nat) : Op → List Nat
  | addAfter node newnode => listAddAfter node newnode l
  | addBefore node newnode => listAddBefore node newnode l
  | addedAt none _ newnode => newnode :: l
  | addedAt (some p) true newnode => insertAfter p newnode l
  | addedAt (some p) false newnode => insertBefore p newnode l
  | del node => l.erase node

/-- The operation is applied to nodes of the tree, a new node is not one of them, and the
pointer that it is put into is free. -/
def Allowed (h : Heap) (l : List Nat) : Op → Prop
  | addAfter node newnode => (∀ x, node = some x → x ∈ l) ∧ newnode ∉ l
  | addBefore node newnode => (∀ x, node = some x → x ∈ l) ∧ newnode ∉ l
  | addedAt none _ _ => l = []
  | addedAt (some p) true newnode => p ∈ l ∧ newnode ∉ l ∧ (h p).right = none
  | addedAt (some p) false newnode => p ∈ l ∧ newnode ∉ l ∧ (h p).left = none
  | del node => node ∈ l

end Op

section

variable {h : Heap} {tree : Ptr} {t : Tree Nat} {fuel : Nat}

/-- Every operation leaves a balanced tree in memory and does its work on the list. -/
theorem Sound.exec (hs : Sound h tree t) (hfuel : t.toList.length ≤ fuel) {op : Op}
    (hop : op.Allowed h t.toList) :
    ∃ h' tree' t', op.exec fuel h tree = some (h', tree') ∧ Sound h' tree' t' ∧
      t'.toList = op.apply t.toList := by
  cases op with
  | addAfter node newnode => exact hs.getAddAfter hfuel hop.1 hop.2
  | addBefore node newnode => exact hs.getAddBefore hfuel hop.1 hop.2
  | del node => exact hs.del_mem hfuel hop
  | addedAt parent right newnode =>
    cases parent with
    | none =>
      have hnil : t.toList = [] := hop
      refine ⟨_, _, .node .nil newnode .nil 1, rfl, ?_, by simp [Op.apply, hnil, Tree.toList]⟩
      refine ⟨⟨⟨?_, trivial, trivial⟩, by simp [Tree.toList], rfl⟩, avl_leaf newnode⟩
      simp [Heap.initNode]
    | some p =>
      cases right with
      | true =>
        obtain ⟨hp, hnew, hfree⟩ := hop
        obtain ⟨ctx, l, r, ht, rfl⟩ := exists_plug_of_mem hp
        have hnode : h p = ⟨l.root, r.root, top ctx, ht⟩ := hs.rep_place.1
        rw [hnode] at hfree
        obtain rfl := Tree.eq_nil_of_root hfree
        have hplace : Sound h tree (plug (.right l p ht :: ctx) .nil) := hs
        obtain ⟨h', tree', t', hadd, hsound, hlist⟩ := hplace.getAddedAt hfuel hnew
        refine ⟨h', tree', t', hadd, hsound, ?_⟩
        have hnodup := hs.nodup
        rw [toList_place] at hnodup ⊢
        rw [hlist, Op.apply, insertAfter_split hnodup]
        simp [before, after, Frame.before, Frame.after, Tree.toList]
      | false =>
        obtain ⟨hp, hnew, hfree⟩ := hop
        obtain ⟨ctx, l, r, ht, rfl⟩ := exists_plug_of_mem hp
        have hnode : h p = ⟨l.root, r.root, top ctx, ht⟩ := hs.rep_place.1
        rw [hnode] at hfree
        obtain rfl := Tree.eq_nil_of_root hfree
        have hplace : Sound h tree (plug (.left p r ht :: ctx) .nil) := hs
        obtain ⟨h', tree', t', hadd, hsound, hlist⟩ := hplace.getAddedAt hfuel hnew
        refine ⟨h', tree', t', hadd, hsound, ?_⟩
        have hnodup := hs.nodup
        rw [toList_place] at hnodup ⊢
        rw [hlist, Op.apply, insertBefore_split hnodup]
        simp [before, after, Frame.before, Frame.after, Tree.toList]

theorem length_flatMap_le {node : Nat} {f : Nat → List Nat} {l : List Nat} (hnodup : l.Nodup)
    (hf : (f node).length = 2) :
    (l.flatMap fun y => if y = node then f y else [y]).length ≤ l.length + 1 := by
  induction l with
  | nil => simp
  | cons y l ih =>
    rw [List.nodup_cons] at hnodup
    rw [List.flatMap_cons, List.length_append]
    by_cases hy : y = node
    · subst hy
      rw [if_pos rfl, flatMap_of_notMem hnodup.1, hf, List.length_cons]
      omega
    · rw [if_neg hy]
      have hlen := ih hnodup.2
      rw [List.length_singleton, List.length_cons]
      omega

/-- A list is at most one longer behind an operation. -/
theorem Op.length_apply_le {l : List Nat} (hnodup : l.Nodup) (op : Op) :
    (op.apply l).length ≤ l.length + 1 := by
  cases op with
  | addAfter node newnode =>
    cases node with
    | none => exact Nat.le_refl _
    | some x => exact length_flatMap_le hnodup rfl
  | addBefore node newnode =>
    cases node with
    | none => exact Nat.le_of_eq List.length_append
    | some x => exact length_flatMap_le hnodup rfl
  | del node => exact Nat.le_succ_of_le List.length_erase_le
  | addedAt parent right newnode =>
    cases parent with
    | none => exact Nat.le_refl _
    | some p => cases right <;> exact length_flatMap_le hnodup rfl

end

/-! ## Runs -/

/-- The calls one after the other. -/
def run (fuel : Nat) : List Op → Heap → Ptr → Option (Heap × Ptr)
  | [], h, tree => some (h, tree)
  | op :: ops, h, tree => do
    let (h, tree) ← op.exec fuel h tree
    run fuel ops h tree

/-- Each call is one that its caller may make, on the tree the calls before it left. -/
def Legal (fuel : Nat) : List Op → Heap → Ptr → List Nat → Prop
  | [], _, _, _ => True
  | op :: ops, h, tree, l => op.Allowed h l ∧
      ∀ h' tree', op.exec fuel h tree = some (h', tree') → Legal fuel ops h' tree' (op.apply l)

section

variable {h : Heap} {tree : Ptr} {t : Tree Nat} {fuel : Nat}

/-- A run of calls does its work on the list and leaves a balanced tree. -/
theorem Sound.run (hs : Sound h tree t) {ops : List Op}
    (hfuel : t.toList.length + ops.length ≤ fuel) (hlegal : Legal fuel ops h tree t.toList) :
    ∃ h' tree' t', Ptree.run fuel ops h tree = some (h', tree') ∧ Sound h' tree' t' ∧
      t'.toList = ops.foldl Op.apply t.toList ∧ t'.toList.length ≤ fuel := by
  induction ops generalizing h tree t with
  | nil => exact ⟨h, tree, t, rfl, hs, rfl, hfuel⟩
  | cons op ops ih =>
    rw [List.length_cons] at hfuel
    obtain ⟨hallowed, hrest⟩ := hlegal
    obtain ⟨h₁, tree₁, t₁, hexec, hs₁, hlist₁⟩ :=
      hs.exec (show t.toList.length ≤ fuel by omega) hallowed
    have hlen := op.length_apply_le hs.nodup
    rw [← hlist₁] at hlen
    have hlegal₁ := hrest h₁ tree₁ hexec
    rw [← hlist₁] at hlegal₁
    obtain ⟨h', tree', t', hrun, hs', hlist', hlen'⟩ := ih hs₁ (by omega) hlegal₁
    refine ⟨h', tree', t', ?_, hs', ?_, hlen'⟩
    · simp [Ptree.run, hexec, hrun]
    · rw [hlist', hlist₁, List.foldl_cons]

end

/-! ## The tree, read from memory -/

namespace Heap

/-- The true height: the number of nodes on the longest way down. -/
def depth (h : Heap) : Nat → Ptr → Nat
  | 0, _ => 0
  | _ + 1, none => 0
  | fuel + 1, some x => max (depth h fuel (h x).left) (depth h fuel (h x).right) + 1

/-- The nodes in order. -/
def inorder (h : Heap) : Nat → Ptr → List Nat
  | 0, _ => []
  | _ + 1, none => []
  | fuel + 1, some x => inorder h fuel (h x).left ++ x :: inorder h fuel (h x).right

end Heap

/-- What the tree in memory has to be for the list `l`. -/
structure Implements (fuel : Nat) (h : Heap) (tree : Ptr) (l : List Nat) : Prop where
  nodup : l.Nodup
  inorder : h.inorder fuel tree = l
  parent_root : ∀ x, tree = some x → x ∈ l ∧ (h x).parent = none
  parent_child : ∀ x ∈ l, ∀ c, (h x).left = some c ∨ (h x).right = some c →
    c ∈ l ∧ (h c).parent = some x
  child_parent : ∀ x ∈ l, tree = some x ∨
    ∃ p ∈ l, (h x).parent = some p ∧ ((h p).left = some x ∨ (h p).right = some x)
  height : ∀ x ∈ l, (h x).height = h.depth fuel (some x)
  balanced : ∀ x ∈ l, h.depth fuel (h x).left ≤ h.depth fuel (h x).right + 1 ∧
    h.depth fuel (h x).right ≤ h.depth fuel (h x).left + 1
  next : (h.getFirst fuel tree).bind (Heap.walk (h.getNext fuel) fuel) = some l
  prev : (h.getLast fuel tree).bind (Heap.walk (h.getPrev fuel) fuel) = some l.reverse
  safe : ∃ visited, (h.getFirstSafe fuel tree).bind (Heap.walk (h.getNextSafe fuel) fuel) =
    some visited ∧ visited.Perm l ∧
    ∀ x ∈ l, ∀ c, (h x).left = some c ∨ (h x).right = some c → [c, x].Sublist visited

section

variable {h : Heap} {tree p : Ptr} {t : Tree Nat} {fuel : Nat}

theorem depth_rep (hrep : Rep h p t) (hfuel : t.toList.length ≤ fuel) :
    h.depth fuel t.root = t.depth := by
  induction t generalizing p fuel with
  | nil => cases fuel <;> rfl
  | node l x r ht ihl ihr =>
    obtain ⟨hx, hl, hr⟩ := hrep
    simp only [Tree.toList, List.length_append, List.length_cons] at hfuel
    obtain ⟨fuel, rfl⟩ : ∃ n, fuel = n + 1 := ⟨fuel - 1, by omega⟩
    rw [Tree.root_node, Heap.depth, hx, ihl hl (by omega), ihr hr (by omega), Tree.depth]

theorem inorder_rep (hrep : Rep h p t) (hfuel : t.toList.length ≤ fuel) :
    h.inorder fuel t.root = t.toList := by
  induction t generalizing p fuel with
  | nil => cases fuel <;> rfl
  | node l x r ht ihl ihr =>
    obtain ⟨hx, hl, hr⟩ := hrep
    simp only [Tree.toList, List.length_append, List.length_cons] at hfuel
    obtain ⟨fuel, rfl⟩ : ∃ n, fuel = n + 1 := ⟨fuel - 1, by omega⟩
    rw [Tree.root_node, Heap.inorder, hx, ihl hl (by omega), ihr hr (by omega), Tree.toList]

theorem Rep.parent_root {x : Nat} (hrep : Rep h p t) (hroot : t.root = some x) :
    (h x).parent = p := by
  cases t with
  | nil => exact absurd hroot (by simp)
  | node l y r ht =>
    obtain rfl := Option.some.inj hroot
    rw [hrep.1]

/-- A balanced tree in memory implements the list of its nodes. -/
theorem Sound.implements (hs : Sound h tree t) (hfuel : t.toList.length ≤ fuel) :
    Implements fuel h tree t.toList where
  nodup := hs.nodup
  inorder := by rw [hs.root, inorder_rep hs.rep hfuel]
  parent_root := by
    intro x hx
    have hroot : t.root = some x := hs.root.symm.trans hx
    exact ⟨Tree.mem_of_root hroot, hs.rep.parent_root hroot⟩
  parent_child := by
    intro x hx c hchild
    obtain ⟨ctx, l, r, ht, rfl⟩ := exists_plug_of_mem hx
    obtain ⟨hnode, hl, hr⟩ := hs.rep_place
    rw [hnode] at hchild
    rcases hchild with hroot | hroot
    · exact ⟨by simp [toList_place, Tree.mem_of_root hroot], hl.parent_root hroot⟩
    · exact ⟨by simp [toList_place, Tree.mem_of_root hroot], hr.parent_root hroot⟩
  child_parent := by
    intro x hx
    obtain ⟨ctx, l, r, ht, rfl⟩ := exists_plug_of_mem hx
    have hnode : h x = ⟨l.root, r.root, top ctx, ht⟩ := hs.rep_place.1
    cases ctx with
    | nil => exact Or.inl hs.root
    | cons f ctx =>
      refine Or.inr ⟨f.elem, ?_, by rw [hnode]; rfl, ?_⟩
      · rw [toList_plug]
        cases f <;> simp [before, after, Frame.before, Frame.after, Frame.elem]
      · have hctx := hs.rep_ctx
        cases f with
        | left y r' hy =>
          left
          rw [Frame.elem, hctx.1]
          rfl
        | right l' y hy =>
          right
          rw [Frame.elem, hctx.1]
          rfl
  height := by
    intro x hx
    obtain ⟨ctx, l, r, ht, rfl⟩ := exists_plug_of_mem hx
    have hnode : h x = ⟨l.root, r.root, top ctx, ht⟩ := hs.rep_place.1
    have havl := (avl_plug.mp hs.avl).1
    have hlen := length_le_plug ctx (.node l x r ht)
    have hdepth := @depth_rep h (top ctx) (.node l x r ht) fuel hs.rep_place (by omega)
    rw [Tree.root_node] at hdepth
    rw [hnode, hdepth, ← havl.height_eq]
    rfl
  balanced := by
    intro x hx
    obtain ⟨ctx, l, r, ht, rfl⟩ := exists_plug_of_mem hx
    obtain ⟨hnode, hl, hr⟩ := hs.rep_place
    obtain ⟨havl, havr, -, hlr, hrl⟩ := (avl_plug.mp hs.avl).1
    have hlen := length_le_plug ctx (.node l x r ht)
    simp only [Tree.toList, List.length_append, List.length_cons] at hlen
    rw [hnode, depth_rep hl (by omega), depth_rep hr (by omega)]
    rw [havl.height_eq, havr.height_eq] at hlr hrl
    omega
  next := hs.walk_next hfuel
  prev := hs.walk_prev hfuel
  safe := ⟨t.postorder, hs.walk_safe hfuel, postorder_perm t,
    fun _ hx _ hchild => hs.child_before hx hchild⟩

end

/-- Every sequence of `psync_tree_add_after`, `psync_tree_add_before`, `psync_tree_added_at` and
`psync_tree_del` returns, and behind it the links, heights and traversals are those of a balanced
tree for the list with the same changes. -/
theorem tree_refines_list (ops : List Op) (h : Heap) (fuel : Nat) (hfuel : ops.length ≤ fuel)
    (hlegal : Legal fuel ops h none []) :
    ∃ h' tree', run fuel ops h none = some (h', tree') ∧
      Implements fuel h' tree' (ops.foldl Op.apply []) := by
  have hempty : Sound h none .nil := ⟨⟨trivial, List.nodup_nil, rfl⟩, trivial⟩
  obtain ⟨h', tree', t', hrun, hs, hlist, hlen⟩ :=
    hempty.run (show ([] : List Nat).length + ops.length ≤ fuel by simpa using hfuel) hlegal
  refine ⟨h', tree', hrun, ?_⟩
  rw [← show t'.toList = ops.foldl Op.apply [] from hlist]
  exact hs.implements hlen

/-- A node is put into the empty tree and one below it; the third turns the tree, and its root
goes. -/
theorem tree_refines_list_turned :
    ∃ h' tree', run 4 [.addedAt none false 1, .addedAt (some 1) true 2, .addAfter (some 2) 3,
        .del 2] (fun _ => ⟨none, none, none, 0⟩) none = some (h', tree') ∧
      Implements 4 h' tree' [1, 3] :=
  tree_refines_list _ _ 4 (by decide) (by
    simp [Legal, Op.Allowed, Op.apply, insertAfter, listAddAfter, Op.exec, Heap.getAddedAt,
      Heap.initNode])

end PcloudClient.Ptree
