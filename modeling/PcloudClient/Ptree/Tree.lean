/-
  Ptree/Tree.lean --- the balanced search trees of `ptree.c`.

  A node stores its height, as in the source.  `psync_tree_added_at` and
  `psync_tree_del` walk up from the changed place; here the walk is the return from the
  recursion, with a flag that says whether it is still going on.
-/
import Mathlib.Data.List.Basic
import Mathlib.Data.Int.Order.Basic
import Mathlib.Order.Lattice

set_option autoImplicit false

namespace PcloudClient.Ptree

/-- `psync_tree` -/
inductive Tree (α : Type) where
  | nil
  | node (left : Tree α) (elem : α) (right : Tree α) (height : Int)
  deriving Repr

namespace Tree

variable {α : Type}

/-- `psync_tree_height` -/
def height : Tree α → Int
  | nil => 0
  | node _ _ _ h => h

def left : Tree α → Tree α
  | nil => nil
  | node l _ _ _ => l

def right : Tree α → Tree α
  | nil => nil
  | node _ _ r _ => r

/-- The elements from `psync_tree_get_first` on by `psync_tree_get_next`. -/
def toList : Tree α → List α
  | nil => []
  | node l x r _ => l.toList ++ x :: r.toList

theorem toList_node (l : Tree α) (x : α) (r : Tree α) (h : Int) :
    (node l x r h).toList = l.toList ++ x :: r.toList := rfl

/-- A node with the height of `psync_tree_recalc_height`. -/
def recalc (l : Tree α) (x : α) (r : Tree α) : Tree α :=
  node l x r (max l.height r.height + 1)

/-- `psync_tree_rotate_left` -/
def rotateLeft : Tree α → Tree α
  | node l x (node rl y rr _) _ => recalc (recalc l x rl) y rr
  | t => t

/-- `psync_tree_rotate_right` -/
def rotateRight : Tree α → Tree α
  | node (node ll y lr _) x r _ => recalc ll y (recalc lr x r)
  | t => t

/-- The two branches of the walks that rotate, for a left and a right side too high. -/
def rotate (l : Tree α) (x : α) (r : Tree α) (h : Int) : Tree α :=
  if l.height - r.height = 2 then
    rotateRight (node (if l.right.height > l.left.height then rotateLeft l else l) x r h)
  else
    rotateLeft (node l x (if r.left.height > r.right.height then rotateRight r else r) h)

/-- One node of `psync_tree_go_up_rebalance_add`; the flag says whether to go on. -/
def rebalanceAdd (l : Tree α) (x : α) (r : Tree α) (h : Int) : Tree α × Bool :=
  let dheight := l.height - r.height
  if dheight = 0 then (node l x r h, false)
  else if dheight = 1 ∨ dheight = -1 then
    (node l x r (r.height + (dheight + 1) / 2 + 1), true)
  else (rotate l x r h, false)

/-- One node of `psync_tree_go_up_rebalance_del`. -/
def rebalanceDel (l : Tree α) (x : α) (r : Tree α) (h : Int) : Tree α × Bool :=
  let dheight := l.height - r.height
  if dheight = 0 then (node l x r (r.height + 1), true)
  else if dheight = 1 ∨ dheight = -1 then (node l x r h, false)
  else (rotate l x r h, true)

/-- Search by a comparison: negative goes left, positive goes right. -/
def search (cmp : α → Int) : Tree α → Option α
  | nil => none
  | node l x r _ =>
    if cmp x < 0 then search cmp l else if 0 < cmp x then search cmp r else some x

/-- Search for the place of `new`, change an equal element or add `new` there by
`psync_tree_added_at`. -/
def insertAux (cmp : α → Int) (upd : α → α) (new : α) : Tree α → Tree α × Bool
  | nil => (node nil new nil 1, true)
  | node l x r h =>
    if cmp x < 0 then
      let ins := insertAux cmp upd new l
      if ins.2 then rebalanceAdd ins.1 x r h else (node ins.1 x r h, false)
    else if 0 < cmp x then
      let ins := insertAux cmp upd new r
      if ins.2 then rebalanceAdd l x ins.1 h else (node l x ins.1 h, false)
    else (node l (upd x) r h, false)

def insert (cmp : α → Int) (upd : α → α) (new : α) (t : Tree α) : Tree α :=
  (insertAux cmp upd new t).1

/-- `psync_tree_get_last` -/
def getLast : Tree α → Option α
  | nil => none
  | node _ x nil _ => some x
  | node _ _ (node a b c d) _ => getLast (node a b c d)

def delLastAux : Tree α → Tree α × Bool
  | nil => (nil, false)
  | node l _ nil _ => (l, true)
  | node l x (node a b c d) h =>
    let del := delLastAux (node a b c d)
    if del.2 then rebalanceDel l x del.1 h else (node l x del.1 h, false)

/-- `psync_tree_del` of the last node; without a parent the walk starts at the node
that takes its place. -/
def delLast : Tree α → Tree α
  | node (node a b c d) _ nil _ => (rebalanceDel a b c d).1
  | t => (delLastAux t).1

/-! ## The order of the elements -/

@[simp] theorem toList_rotateLeft (t : Tree α) : t.rotateLeft.toList = t.toList := by
  unfold rotateLeft
  split <;> simp [recalc, toList_node]

@[simp] theorem toList_rotateRight (t : Tree α) : t.rotateRight.toList = t.toList := by
  unfold rotateRight
  split <;> simp [recalc, toList_node]

theorem toList_rotate (l : Tree α) (x : α) (r : Tree α) (h : Int) :
    (rotate l x r h).toList = l.toList ++ x :: r.toList := by
  unfold rotate
  split
  · rw [toList_rotateRight, toList_node]
    split <;> simp
  · rw [toList_rotateLeft, toList_node]
    split <;> simp

@[simp] theorem toList_rebalanceAdd (l : Tree α) (x : α) (r : Tree α) (h : Int) :
    (rebalanceAdd l x r h).1.toList = l.toList ++ x :: r.toList := by
  unfold rebalanceAdd
  simp only []
  split
  · rfl
  · split
    · rfl
    · exact toList_rotate l x r h

@[simp] theorem toList_rebalanceDel (l : Tree α) (x : α) (r : Tree α) (h : Int) :
    (rebalanceDel l x r h).1.toList = l.toList ++ x :: r.toList := by
  unfold rebalanceDel
  simp only []
  split
  · rfl
  · split
    · rfl
    · exact toList_rotate l x r h

theorem toList_insertAux_node (cmp : α → Int) (upd : α → α) (new : α) (l : Tree α) (x : α)
    (r : Tree α) (h : Int) :
    (insertAux cmp upd new (node l x r h)).1.toList =
      if cmp x < 0 then (insertAux cmp upd new l).1.toList ++ x :: r.toList
      else if 0 < cmp x then l.toList ++ x :: (insertAux cmp upd new r).1.toList
      else l.toList ++ upd x :: r.toList := by
  rw [insertAux]
  split
  · dsimp only
    split
    · exact toList_rebalanceAdd _ _ _ _
    · rfl
  · split
    · dsimp only
      split
      · exact toList_rebalanceAdd _ _ _ _
      · rfl
    · rfl

/-- Every element after an insertion is the new one, a changed one or an old one. -/
theorem mem_insert {cmp : α → Int} {upd : α → α} {new y : α} {t : Tree α}
    (h : y ∈ (insert cmp upd new t).toList) :
    y = new ∨ y ∈ t.toList ∨ ∃ x ∈ t.toList, cmp x = 0 ∧ y = upd x := by
  unfold insert at h
  induction t with
  | nil => exact Or.inl (by simpa [insertAux, toList] using h)
  | node l x r ht ihl ihr =>
    rw [toList_insertAux_node] at h
    simp only [toList_node, List.mem_append, List.mem_cons]
    split at h
    · simp only [List.mem_append, List.mem_cons] at h
      rcases h with h | rfl | h
      · rcases ihl h with h | h | ⟨z, hz, hcmp, heq⟩
        · exact Or.inl h
        · exact Or.inr (Or.inl (Or.inl h))
        · exact Or.inr (Or.inr ⟨z, Or.inl hz, hcmp, heq⟩)
      · exact Or.inr (Or.inl (Or.inr (Or.inl rfl)))
      · exact Or.inr (Or.inl (Or.inr (Or.inr h)))
    · split at h
      · simp only [List.mem_append, List.mem_cons] at h
        rcases h with h | rfl | h
        · exact Or.inr (Or.inl (Or.inl h))
        · exact Or.inr (Or.inl (Or.inr (Or.inl rfl)))
        · rcases ihr h with h | h | ⟨z, hz, hcmp, heq⟩
          · exact Or.inl h
          · exact Or.inr (Or.inl (Or.inr (Or.inr h)))
          · exact Or.inr (Or.inr ⟨z, Or.inr (Or.inr hz), hcmp, heq⟩)
      · simp only [List.mem_append, List.mem_cons] at h
        rcases h with h | rfl | h
        · exact Or.inr (Or.inl (Or.inl h))
        · exact Or.inr (Or.inr ⟨x, Or.inr (Or.inl rfl), by omega, rfl⟩)
        · exact Or.inr (Or.inl (Or.inr (Or.inr h)))

/-! ## Trees of keys -/

section Map

variable {β : Type} (f : α → β)

/-- The tree of the same shape with `f` of every element. -/
def map : Tree α → Tree β
  | nil => nil
  | node l x r h => node l.map (f x) r.map h

attribute [local simp] map

@[simp] theorem height_map (t : Tree α) : (t.map f).height = t.height := by
  cases t <;> rfl

@[simp] theorem left_map (t : Tree α) : (t.map f).left = t.left.map f := by
  cases t <;> rfl

@[simp] theorem right_map (t : Tree α) : (t.map f).right = t.right.map f := by
  cases t <;> rfl

@[simp] theorem toList_map (t : Tree α) : (t.map f).toList = t.toList.map f := by
  induction t with
  | nil => rfl
  | node l x r h ihl ihr => simp [toList_node, ihl, ihr]

theorem map_recalc (l : Tree α) (x : α) (r : Tree α) :
    (recalc l x r).map f = recalc (l.map f) (f x) (r.map f) := by
  simp [recalc]

theorem map_rotateLeft (t : Tree α) : t.rotateLeft.map f = (t.map f).rotateLeft := by
  cases t with
  | nil => rfl
  | node l x r h => cases r <;> simp [rotateLeft, map_recalc]

theorem map_rotateRight (t : Tree α) : t.rotateRight.map f = (t.map f).rotateRight := by
  cases t with
  | nil => rfl
  | node l x r h => cases l <;> simp [rotateRight, map_recalc]

theorem map_rotate (l : Tree α) (x : α) (r : Tree α) (h : Int) :
    (rotate l x r h).map f = rotate (l.map f) (f x) (r.map f) h := by
  simp only [rotate, height_map, left_map, right_map]
  split
  · rw [map_rotateRight, map]
    split
    · rw [map_rotateLeft]
    · rfl
  · rw [map_rotateLeft, map]
    split
    · rw [map_rotateRight]
    · rfl

theorem map_rebalanceAdd (l : Tree α) (x : α) (r : Tree α) (h : Int) :
    rebalanceAdd (l.map f) (f x) (r.map f) h =
      ((rebalanceAdd l x r h).1.map f, (rebalanceAdd l x r h).2) := by
  simp only [rebalanceAdd, height_map]
  split
  · rfl
  · split
    · rfl
    · rw [map_rotate]

/-- An insertion whose comparison sees only the keys makes the same tree of keys. -/
theorem map_insertAux {cmp : α → Int} {upd : α → α} {cmp' : β → Int} {upd' : β → β}
    (hcmp : ∀ x, cmp' (f x) = cmp x) (hupd : ∀ x, f (upd x) = upd' (f x)) (new : α) (t : Tree α) :
    insertAux cmp' upd' (f new) (t.map f) =
      ((insertAux cmp upd new t).1.map f, (insertAux cmp upd new t).2) := by
  induction t with
  | nil => rfl
  | node l x r h ihl ihr =>
    simp only [map, insertAux, hcmp]
    split
    · rw [ihl]
      dsimp only
      split
      · exact map_rebalanceAdd f _ _ _ _
      · rfl
    · split
      · rw [ihr]
        dsimp only
        split
        · exact map_rebalanceAdd f _ _ _ _
        · rfl
      · rw [map, hupd]

theorem map_insert {cmp : α → Int} {upd : α → α} {cmp' : β → Int} {upd' : β → β}
    (hcmp : ∀ x, cmp' (f x) = cmp x) (hupd : ∀ x, f (upd x) = upd' (f x)) (new : α) (t : Tree α) :
    (insert cmp upd new t).map f = insert cmp' upd' (f new) (t.map f) := by
  rw [insert, insert, map_insertAux f hcmp hupd]

end Map

/-! ## Ordered trees -/

section Ordered

variable {κ : Type} [LinearOrder κ] (key : α → κ)

/-- The elements stand in increasing order of their keys. -/
def Ordered (t : Tree α) : Prop := t.toList.Pairwise fun x y => key x < key y

/-- `cmp` compares the key `k` with the keys of the elements of `t`. -/
def Compares (cmp : α → Int) (k : κ) (t : Tree α) : Prop :=
  ∀ x ∈ t.toList, (cmp x < 0 ↔ k < key x) ∧ (0 < cmp x ↔ key x < k)

variable {key}

theorem ordered_node {l : Tree α} {x : α} {r : Tree α} {h : Int}
    (ho : Ordered key (node l x r h)) :
    Ordered key l ∧ Ordered key r ∧ (∀ y ∈ l.toList, key y < key x) ∧
      (∀ y ∈ r.toList, key x < key y) := by
  unfold Ordered at ho
  rw [toList_node, List.pairwise_append] at ho
  obtain ⟨hl, hr, hlr⟩ := ho
  rw [List.pairwise_cons] at hr
  exact ⟨hl, hr.2, fun y hy => hlr y hy x (List.mem_cons_self ..), hr.1⟩

theorem compares_node {cmp : α → Int} {k : κ} {l : Tree α} {x : α} {r : Tree α} {h : Int}
    (hc : Compares key cmp k (node l x r h)) :
    Compares key cmp k l ∧ Compares key cmp k r ∧
      (cmp x < 0 ↔ k < key x) ∧ (0 < cmp x ↔ key x < k) := by
  unfold Compares at hc ⊢
  simp only [toList_node, List.mem_append, List.mem_cons] at hc
  exact ⟨fun y hy => hc y (Or.inl hy), fun y hy => hc y (Or.inr (Or.inr hy)),
    hc x (Or.inr (Or.inl rfl))⟩

/-- In an ordered tree an insertion puts the element in the place of its key. -/
theorem toList_insert {cmp : α → Int} {k : κ} {upd : α → α} {new : α} {t : Tree α}
    (ho : Ordered key t) (hc : Compares key cmp k t) (hupd : ∀ x, key x = k → upd x = new) :
    (insert cmp upd new t).toList =
      t.toList.filter (fun x => key x < k) ++ new :: t.toList.filter (fun x => k < key x) := by
  unfold insert
  induction t with
  | nil => rfl
  | node l x r h ihl ihr =>
    obtain ⟨hol, hor, hlx, hxr⟩ := ordered_node ho
    obtain ⟨hcl, hcr, hlt, hgt⟩ := compares_node hc
    rw [toList_insertAux_node]
    simp only [toList_node, List.filter_append, List.filter_cons]
    rcases lt_trichotomy k (key x) with hk | hk | hk
    · have hr1 : r.toList.filter (fun y => key y < k) = [] := by
        rw [List.filter_eq_nil_iff]
        intro y hy
        simpa using (hk.trans (hxr y hy)).le
      have hr2 : r.toList.filter (fun y => k < key y) = r.toList := by
        rw [List.filter_eq_self]
        intro y hy
        simpa using hk.trans (hxr y hy)
      rw [if_pos (hlt.mpr hk), ihl hol hcl, hr1, hr2]
      simp [hk, hk.le.not_gt]
    · have hl1 : l.toList.filter (fun y => key y < k) = l.toList := by
        rw [List.filter_eq_self]
        intro y hy
        simpa [hk] using hlx y hy
      have hl2 : l.toList.filter (fun y => k < key y) = [] := by
        rw [List.filter_eq_nil_iff]
        intro y hy
        simpa [hk] using (hlx y hy).le
      have hr1 : r.toList.filter (fun y => key y < k) = [] := by
        rw [List.filter_eq_nil_iff]
        intro y hy
        simpa [hk] using (hxr y hy).le
      have hr2 : r.toList.filter (fun y => k < key y) = r.toList := by
        rw [List.filter_eq_self]
        intro y hy
        simpa [hk] using hxr y hy
      rw [if_neg (by rw [hlt]; exact hk.not_lt), if_neg (by rw [hgt]; exact hk.symm.not_lt),
        hupd x hk.symm, hl1, hl2, hr1, hr2]
      simp [hk]
    · have hl1 : l.toList.filter (fun y => key y < k) = l.toList := by
        rw [List.filter_eq_self]
        intro y hy
        simpa using (hlx y hy).trans hk
      have hl2 : l.toList.filter (fun y => k < key y) = [] := by
        rw [List.filter_eq_nil_iff]
        intro y hy
        simpa using ((hlx y hy).trans hk).le
      rw [if_neg (by rw [hlt]; exact hk.le.not_gt), if_pos (hgt.mpr hk), ihr hor hcr, hl1, hl2]
      simp [hk, hk.le.not_gt]

/-- In an ordered tree the search finds the element of its key. -/
theorem search_eq_some_iff {cmp : α → Int} {k : κ} {t : Tree α} {y : α}
    (ho : Ordered key t) (hc : Compares key cmp k t) :
    search cmp t = some y ↔ y ∈ t.toList ∧ key y = k := by
  induction t with
  | nil => simp [search, toList]
  | node l x r h ihl ihr =>
    obtain ⟨hol, hor, hlx, hxr⟩ := ordered_node ho
    obtain ⟨hcl, hcr, hlt, hgt⟩ := compares_node hc
    simp only [search, toList, List.mem_append, List.mem_cons]
    rcases lt_trichotomy k (key x) with hk | hk | hk
    · rw [if_pos (hlt.mpr hk), ihl hol hcl]
      constructor
      · rintro ⟨hy, hkey⟩
        exact ⟨Or.inl hy, hkey⟩
      · rintro ⟨hy | rfl | hy, hkey⟩
        · exact ⟨hy, hkey⟩
        · exact absurd hkey hk.ne'
        · exact absurd hkey (hk.trans (hxr y hy)).ne'
    · rw [if_neg (by rw [hlt]; exact hk.not_lt), if_neg (by rw [hgt]; exact hk.symm.not_lt)]
      constructor
      · rintro heq
        obtain rfl := Option.some.inj heq
        exact ⟨Or.inr (Or.inl rfl), hk.symm⟩
      · rintro ⟨hy | rfl | hy, hkey⟩
        · exact absurd (hkey.trans hk) (hlx y hy).ne
        · rfl
        · exact absurd (hkey.trans hk) (hxr y hy).ne'
    · rw [if_neg (by rw [hlt]; exact hk.le.not_gt), if_pos (hgt.mpr hk), ihr hor hcr]
      constructor
      · rintro ⟨hy, hkey⟩
        exact ⟨Or.inr (Or.inr hy), hkey⟩
      · rintro ⟨hy | rfl | hy, hkey⟩
        · exact absurd hkey ((hlx y hy).trans hk).ne
        · exact absurd hkey hk.ne
        · exact ⟨hy, hkey⟩

end Ordered

/-! ## Removing the last element -/

theorem getLast_eq (t : Tree α) : t.getLast = t.toList.getLast? := by
  induction t with
  | nil => rfl
  | node l x r h _ ihr =>
    cases r with
    | nil => simp [getLast, toList]
    | node a b c d =>
      have hne : (node a b c d).toList ≠ [] := by simp [toList]
      have hsplit : (node l x (node a b c d) h).toList =
          (l.toList ++ [x]) ++ (node a b c d).toList := by
        simp [toList]
      rw [getLast, ihr, hsplit, List.getLast?_append_of_ne_nil _ hne]

theorem toList_delLastAux (t : Tree α) : (delLastAux t).1.toList = t.toList.dropLast := by
  induction t with
  | nil => rfl
  | node l x r h _ ihr =>
    cases r with
    | nil => simp [delLastAux, toList]
    | node a b c d =>
      have hne : (node a b c d).toList ≠ [] := by simp [toList]
      rw [delLastAux, toList, List.dropLast_append_of_ne_nil (by simp),
        List.dropLast_cons_of_ne_nil hne, ← ihr]
      split
      · exact toList_rebalanceDel _ _ _ _
      · rfl

@[simp] theorem toList_delLast (t : Tree α) : t.delLast.toList = t.toList.dropLast := by
  unfold delLast
  split
  · rw [toList_rebalanceDel]
    exact List.dropLast_concat.symm
  · exact toList_delLastAux _

end Tree

end PcloudClient.Ptree
