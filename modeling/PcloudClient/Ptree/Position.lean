/-
  Ptree/Position.lean --- nodes of a tree by their position in its order.

  A pointer to a node of a tree is the number of nodes before it, so `psync_tree_get_prev`
  and `psync_tree_get_next` of a node are the positions beside it.  A search by a
  comparison may meet several equal elements here: it stops at the first one on its way
  down.
-/
import Mathlib.Data.List.Basic
import PcloudClient.Ptree.Tree

set_option autoImplicit false

namespace PcloudClient.Ptree.Tree

variable {α : Type}

/-- The number of nodes. -/
def size : Tree α → Nat
  | nil => 0
  | node l _ r _ => l.size + 1 + r.size

/-- The position of the node a search by a comparison ends at. -/
def searchPos (cmp : α → Int) : Tree α → Option Nat
  | nil => none
  | node l x r _ =>
    if cmp x < 0 then searchPos cmp l
    else if 0 < cmp x then (searchPos cmp r).map (l.size + 1 + ·)
    else some l.size

/-- A change of the element of one node. -/
def modifyAt (f : α → α) : Nat → Tree α → Tree α
  | _, nil => nil
  | i, node l x r h =>
    if i < l.size then node (modifyAt f i l) x r h
    else if i = l.size then node l (f x) r h
    else node l x (modifyAt f (i - l.size - 1) r) h

/-! ## Deletion -/

/-- `psync_tree_get_first` of a tree with a node. -/
def first : Tree α → α → Tree α → α
  | nil, x, _ => x
  | node l y r _, _, _ => first l y r

/-- `psync_tree_get_last` of a tree with a node. -/
def last : Tree α → α → Tree α → α
  | _, x, nil => x
  | _, _, node l y r _ => last l y r

def delFirstAux : Tree α → Tree α × Bool
  | nil => (nil, false)
  | node nil _ r _ => (r, true)
  | node (node a b c d) x r h =>
    let del := delFirstAux (node a b c d)
    if del.2 then rebalanceDel del.1 x r h else (node del.1 x r h, false)

/-- `psync_tree_get_del` of the upper node of a tree; the flag says whether the walk up
goes on. -/
def delRoot (l r : Tree α) (h : Int) : Tree α × Bool :=
  match l, r with
  | nil, r => (r, true)
  | node a b c d, nil => (node a b c d, true)
  | node a b c d, node a' b' c' d' =>
    if d > d' then
      let del := delLastAux (node a b c d)
      if del.2 then rebalanceDel del.1 (last a b c) (node a' b' c' d') h
      else (node del.1 (last a b c) (node a' b' c' d') h, false)
    else
      let del := delFirstAux (node a' b' c' d')
      if del.2 then rebalanceDel (node a b c d) (first a' b' c') del.1 h
      else (node (node a b c d) (first a' b' c') del.1 h, false)

def delAtAux : Nat → Tree α → Tree α × Bool
  | _, nil => (nil, false)
  | i, node l x r h =>
    if i < l.size then
      let del := delAtAux i l
      if del.2 then rebalanceDel del.1 x r h else (node del.1 x r h, false)
    else if i = l.size then delRoot l r h
    else
      let del := delAtAux (i - l.size - 1) r
      if del.2 then rebalanceDel l x del.1 h else (node l x del.1 h, false)

/-- `psync_tree_del` of the node at a position; without a parent the walk starts at the
node that takes its place. -/
def delAt (i : Nat) : Tree α → Tree α
  | node nil x (node a b c d) h =>
    if i = 0 then (rebalanceDel a b c d).1 else (delAtAux i (node nil x (node a b c d) h)).1
  | node (node a b c d) x nil h =>
    if i = (node a b c d).size then (rebalanceDel a b c d).1
    else (delAtAux i (node (node a b c d) x nil h)).1
  | t => (delAtAux i t).1

/-! ## The lists of the elements -/

@[simp] theorem length_toList (t : Tree α) : t.toList.length = t.size := by
  induction t with
  | nil => rfl
  | node l x r h ihl ihr =>
    simp only [toList, List.length_append, List.length_cons, ihl, ihr, size]
    omega

theorem split_cases {l r a b : List α} {x y : α} (h : l ++ y :: r = a ++ x :: b) :
    (∃ c, l = a ++ x :: c ∧ b = c ++ y :: r) ∨ (a = l ∧ x = y ∧ b = r) ∨
      ∃ c, a = l ++ y :: c ∧ r = c ++ x :: b := by
  rcases List.append_eq_append_iff.mp h with ⟨c, ha, hr⟩ | ⟨c, hl, hb⟩
  · cases c with
    | nil =>
      obtain ⟨rfl, rfl⟩ := List.cons.inj hr
      exact Or.inr (Or.inl ⟨by simpa using ha, rfl, rfl⟩)
    | cons z c =>
      obtain ⟨rfl, rfl⟩ := List.cons.inj hr
      exact Or.inr (Or.inr ⟨c, ha, rfl⟩)
  · cases c with
    | nil =>
      obtain ⟨rfl, rfl⟩ := List.cons.inj hb
      exact Or.inr (Or.inl ⟨by simpa using hl.symm, rfl, rfl⟩)
    | cons z c =>
      obtain ⟨rfl, rfl⟩ := List.cons.inj hb
      exact Or.inl ⟨c, hl, rfl⟩

theorem toList_modifyAt (f : α → α) {t : Tree α} {a b : List α} {x : α}
    (h : t.toList = a ++ x :: b) : (modifyAt f a.length t).toList = a ++ f x :: b := by
  induction t generalizing a b with
  | nil => simp [toList] at h
  | node l y r ht ihl ihr =>
    rw [modifyAt, ← length_toList]
    rcases split_cases h with ⟨c, hl, rfl⟩ | ⟨rfl, rfl, rfl⟩ | ⟨c, rfl, hr⟩
    · have hlt : a.length < l.toList.length := by
        rw [hl, List.length_append, List.length_cons]
        omega
      rw [if_pos hlt, toList, ihl hl]
      simp
    · rw [if_neg (Nat.lt_irrefl _), if_pos rfl, toList]
    · have hlen : (l.toList ++ y :: c).length = l.toList.length + 1 + c.length := by
        rw [List.length_append, List.length_cons]
        omega
      rw [if_neg (by omega), if_neg (by omega), toList,
        show (l.toList ++ y :: c).length - l.toList.length - 1 = c.length by omega, ihr hr]
      simp

theorem toList_delFirstAux (l : Tree α) (x : α) (r : Tree α) (h : Int) :
    (node l x r h).toList = first l x r :: (delFirstAux (node l x r h)).1.toList := by
  induction l generalizing x r h with
  | nil => rfl
  | node a b c d iha _ =>
    rw [delFirstAux, first, toList, iha b c d]
    split
    · rw [toList_rebalanceDel]
      rfl
    · rfl

theorem toList_last (l : Tree α) (x : α) (r : Tree α) (h : Int) :
    (node l x r h).toList = (delLastAux (node l x r h)).1.toList ++ [last l x r] := by
  induction r generalizing l x h with
  | nil => simp [toList, delLastAux, last]
  | node a b c d _ ihc =>
    rw [delLastAux, last, toList, ihc a b d]
    split
    · rw [toList_rebalanceDel]
      simp
    · simp [toList]

theorem toList_delRoot (l r : Tree α) (h : Int) :
    (delRoot l r h).1.toList = l.toList ++ r.toList := by
  unfold delRoot
  split
  · rfl
  · simp [toList]
  · next a b c d a' b' c' d' =>
    split
    · dsimp only
      rw [toList_last a b c d]
      split
      · rw [toList_rebalanceDel]
        simp
      · simp [toList]
    · dsimp only
      rw [toList_delFirstAux a' b' c' d']
      split
      · exact toList_rebalanceDel _ _ _ _
      · rfl

theorem toList_delAtAux {t : Tree α} {a b : List α} {x : α} (h : t.toList = a ++ x :: b) :
    (delAtAux a.length t).1.toList = a ++ b := by
  induction t generalizing a b with
  | nil => simp [toList] at h
  | node l y r ht ihl ihr =>
    rw [delAtAux, ← length_toList]
    rcases split_cases h with ⟨c, hl, rfl⟩ | ⟨rfl, rfl, rfl⟩ | ⟨c, rfl, hr⟩
    · have hlt : a.length < l.toList.length := by
        rw [hl, List.length_append, List.length_cons]
        omega
      have hdel := ihl hl
      rw [if_pos hlt]
      dsimp only
      split
      · rw [toList_rebalanceDel, hdel, List.append_assoc]
      · rw [toList, hdel, List.append_assoc]
    · rw [if_neg (Nat.lt_irrefl _), if_pos rfl, toList_delRoot]
    · have hlen : (l.toList ++ y :: c).length = l.toList.length + 1 + c.length := by
        rw [List.length_append, List.length_cons]
        omega
      have hdel := ihr hr
      rw [if_neg (by omega), if_neg (by omega),
        show (l.toList ++ y :: c).length - l.toList.length - 1 = c.length by omega]
      dsimp only
      split
      · rw [toList_rebalanceDel, hdel, List.append_assoc, List.cons_append]
      · rw [toList, hdel, List.append_assoc, List.cons_append]

/-- `psync_tree_del` takes one node out of the order. -/
theorem toList_delAt {t : Tree α} {a b : List α} {x : α} (h : t.toList = a ++ x :: b) :
    (delAt a.length t).toList = a ++ b := by
  unfold delAt
  split
  · next y c d e f ht =>
    split
    · next ha =>
      rw [List.length_eq_zero_iff] at ha
      subst ha
      rw [toList_rebalanceDel]
      exact (List.cons.inj h).2
    · exact toList_delAtAux h
  · next c d e f y ht =>
    split
    · next ha =>
      rw [← length_toList] at ha
      obtain ⟨hl, hr⟩ := List.append_inj h ha.symm
      rw [toList_rebalanceDel, ← (List.cons.inj hr).2, ← hl]
      exact (List.append_nil _).symm
    · exact toList_delAtAux h
  · exact toList_delAtAux h

/-! ## Search and insertion -/

/-- The elements a comparison puts after its key stand after those it puts before. -/
def Cuts (cmp : α → Int) (l : List α) : Prop :=
  l.Pairwise fun x y => (cmp x < 0 → cmp y < 0) ∧ (0 < cmp y → 0 < cmp x)

theorem Cuts.of_split {cmp : α → Int} {a b : List α} {x : α} (h : Cuts cmp (a ++ x :: b)) :
    Cuts cmp a ∧ Cuts cmp b ∧ (cmp x < 0 → ∀ y ∈ b, cmp y < 0) ∧
      (0 < cmp x → ∀ y ∈ a, 0 < cmp y) := by
  unfold Cuts at h
  rw [List.pairwise_append, List.pairwise_cons] at h
  obtain ⟨ha, ⟨hx, hb⟩, hab⟩ := h
  exact ⟨ha, hb, fun hlt y hy => (hx y hy).1 hlt,
    fun hlt y hy => (hab y hy x (List.mem_cons_self ..)).2 hlt⟩

/-- A search ends at an equal element. -/
theorem searchPos_some {cmp : α → Int} {t : Tree α} {i : Nat} (h : t.searchPos cmp = some i) :
    ∃ a x b, t.toList = a ++ x :: b ∧ a.length = i ∧ cmp x = 0 := by
  induction t generalizing i with
  | nil => exact absurd h nofun
  | node l x r ht ihl ihr =>
    rw [searchPos] at h
    split at h
    · obtain ⟨a, y, b, hl, hlen, hy⟩ := ihl h
      exact ⟨a, y, b ++ x :: r.toList, by rw [toList, hl]; simp, hlen, hy⟩
    · split at h
      · obtain ⟨j, hj, rfl⟩ := Option.map_eq_some_iff.mp h
        obtain ⟨a, y, b, hr, hlen, hy⟩ := ihr hj
        refine ⟨l.toList ++ x :: a, y, b, by rw [toList, hr]; simp, ?_, hy⟩
        rw [List.length_append, List.length_cons, length_toList, hlen]
        omega
      · exact ⟨l.toList, x, r.toList, rfl, by simpa using h, by omega⟩

/-- In a tree whose order the comparison respects, a search misses no equal element. -/
theorem searchPos_none_iff {cmp : α → Int} {t : Tree α} (hcuts : Cuts cmp t.toList) :
    t.searchPos cmp = none ↔ ∀ x ∈ t.toList, cmp x ≠ 0 := by
  induction t with
  | nil => simp [searchPos, toList]
  | node l x r ht ihl ihr =>
    obtain ⟨hl, hr, hlt, hgt⟩ := Cuts.of_split hcuts
    rw [searchPos]
    simp only [toList, List.mem_append, List.mem_cons]
    split
    · next hx =>
      rw [ihl hl]
      refine ⟨fun h y hy => ?_, fun h y hy => h y (Or.inl hy)⟩
      rcases hy with hy | rfl | hy
      · exact h y hy
      · exact hx.ne
      · exact (hlt hx y hy).ne
    · split
      · next hx =>
        rw [Option.map_eq_none_iff, ihr hr]
        refine ⟨fun h y hy => ?_, fun h y hy => h y (Or.inr (Or.inr hy))⟩
        rcases hy with hy | rfl | hy
        · exact (hgt hx y hy).ne'
        · exact hx.ne'
        · exact h y hy
      · refine ⟨by simp, fun h => absurd ?_ (h x (Or.inr (Or.inl rfl)))⟩
        omega

/-- Where the comparison gives no equal element, an insertion puts the new one between two
parts of the order; it is the place of its key when the comparison respects the order. -/
theorem insert_split {cmp : α → Int} (upd : α → α) (new : α) (t : Tree α)
    (hne : ∀ x ∈ t.toList, cmp x ≠ 0) :
    ∃ a b, t.toList = a ++ b ∧ (insert cmp upd new t).toList = a ++ new :: b ∧
      (Cuts cmp t.toList → (∀ x ∈ a, 0 < cmp x) ∧ ∀ x ∈ b, cmp x < 0) := by
  unfold insert
  induction t with
  | nil => exact ⟨[], [], rfl, rfl, fun _ => ⟨nofun, nofun⟩⟩
  | node l x r ht ihl ihr =>
    simp only [toList, List.mem_append, List.mem_cons] at hne
    rw [toList_insertAux_node]
    split
    · next hx =>
      obtain ⟨a, b, hl, hins, hplace⟩ := ihl fun y hy => hne y (Or.inl hy)
      refine ⟨a, b ++ x :: r.toList, by rw [toList, hl]; simp, by rw [hins]; simp, fun hcuts => ?_⟩
      obtain ⟨hcl, -, hlt, -⟩ := Cuts.of_split hcuts
      obtain ⟨ha, hb⟩ := hplace hcl
      refine ⟨ha, fun y hy => ?_⟩
      rcases List.mem_append.mp hy with hy | hy
      · exact hb y hy
      · rcases List.mem_cons.mp hy with rfl | hy
        · exact hx
        · exact hlt hx y hy
    · next hx =>
      have hpos : 0 < cmp x := by
        have := hne x (Or.inr (Or.inl rfl))
        omega
      rw [if_pos hpos]
      obtain ⟨a, b, hr, hins, hplace⟩ := ihr fun y hy => hne y (Or.inr (Or.inr hy))
      refine ⟨l.toList ++ x :: a, b, by rw [toList, hr]; simp, by rw [hins]; simp, fun hcuts => ?_⟩
      obtain ⟨-, hcr, -, hgt⟩ := Cuts.of_split hcuts
      obtain ⟨ha, hb⟩ := hplace hcr
      refine ⟨fun y hy => ?_, hb⟩
      rcases List.mem_append.mp hy with hy | hy
      · exact hgt hpos y hy
      · rcases List.mem_cons.mp hy with rfl | hy
        · exact hpos
        · exact ha y hy

/-- The same where the way down only meets no equal element. -/
theorem insert_split_of_search {cmp : α → Int} (upd : α → α) (new : α) {t : Tree α}
    (hnone : t.search cmp = none) :
    ∃ a b, t.toList = a ++ b ∧ (insert cmp upd new t).toList = a ++ new :: b := by
  unfold insert
  induction t with
  | nil => exact ⟨[], [], rfl, rfl⟩
  | node l x r ht ihl ihr =>
    rw [search] at hnone
    rw [toList_insertAux_node]
    split
    · next hx =>
      rw [if_pos hx] at hnone
      obtain ⟨a, b, hl, hins⟩ := ihl hnone
      exact ⟨a, b ++ x :: r.toList, by rw [toList, hl]; simp, by rw [hins]; simp⟩
    · next hx =>
      rw [if_neg hx] at hnone
      split at hnone
      · next hpos =>
        obtain ⟨a, b, hr, hins⟩ := ihr hnone
        rw [if_pos hpos]
        exact ⟨l.toList ++ x :: a, b, by rw [toList, hr]; simp, by rw [hins]; simp⟩
      · cases hnone

/-- A search gives an equal element. -/
theorem cmp_of_search {cmp : α → Int} {t : Tree α} {x : α} (h : t.search cmp = some x) :
    cmp x = 0 := by
  induction t with
  | nil => exact nomatch h
  | node l y r ht ihl ihr =>
    rw [search] at h
    split at h
    · exact ihl h
    · split at h
      · exact ihr h
      · obtain rfl := Option.some.inj h
        omega

theorem mem_of_search {cmp : α → Int} {t : Tree α} {x : α} (h : t.search cmp = some x) :
    x ∈ t.toList := by
  induction t with
  | nil => exact nomatch h
  | node l y r ht ihl ihr =>
    rw [search] at h
    rw [toList, List.mem_append, List.mem_cons]
    split at h
    · exact Or.inl (ihl h)
    · split at h
      · exact Or.inr (Or.inr (ihr h))
      · exact Or.inr (Or.inl (Option.some.inj h).symm)

theorem search_map {β : Type} (cmp : β → Int) (f : α → β) (t : Tree α) :
    (t.map f).search cmp = (t.search fun x => cmp (f x)).map f := by
  induction t with
  | nil => rfl
  | node l x r ht ihl ihr =>
    simp only [map, search, ihl, ihr]
    split
    · rfl
    · split <;> rfl

/-- A function that fixes the elements fixes the tree. -/
theorem map_eq_self {f : α → α} {t : Tree α} (h : ∀ x ∈ t.toList, f x = x) : t.map f = t := by
  induction t with
  | nil => rfl
  | node l x r ht ihl ihr =>
    simp only [toList, List.mem_append, List.mem_cons] at h
    rw [map, ihl fun y hy => h y (Or.inl hy), ihr fun y hy => h y (Or.inr (Or.inr hy)),
      h x (Or.inr (Or.inl rfl))]

theorem map_map {f g : α → α} (t : Tree α) : (t.map f).map g = t.map (g ∘ f) := by
  induction t with
  | nil => rfl
  | node l x r ht ihl ihr => simp only [map, ihl, ihr, Function.comp]

end PcloudClient.Ptree.Tree
