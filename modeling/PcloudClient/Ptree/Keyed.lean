/-
  Ptree/Keyed.lean --- trees in the order of a key, searched by a comparison that need not agree
  with it everywhere.

  A search for a place ends beside a node, where `psync_tree_add_before` or
  `psync_tree_add_after` puts a new one: between two neighbours of the order there is one free
  link.
-/
import PcloudClient.Ptree.Position

set_option autoImplicit false

namespace PcloudClient.Ptree.Tree

variable {α : Type}

/-- A new node at a position of the order. -/
def addAtAux (new : α) : Nat → Tree α → Tree α × Bool
  | _, nil => (node nil new nil 1, true)
  | i, node l x r h =>
    if i ≤ l.size then
      let ins := addAtAux new i l
      if ins.2 then rebalanceAdd ins.1 x r h else (node ins.1 x r h, false)
    else
      let ins := addAtAux new (i - l.size - 1) r
      if ins.2 then rebalanceAdd l x ins.1 h else (node l x ins.1 h, false)

/-- `psync_tree_add_before` the node at a position, `psync_tree_add_after` the one before it. -/
def addAt (new : α) (i : Nat) (t : Tree α) : Tree α := (addAtAux new i t).1

/-- The place at which a search ends; equal elements stay before it.  With `through` the search
goes on to their right. -/
def place (cmp : α → Int) (through : Bool) : Tree α → Nat
  | nil => 0
  | node l x r _ =>
    if cmp x < 0 then place cmp through l
    else if 0 < cmp x ∨ through then l.size + 1 + place cmp through r
    else l.size + 1

theorem toList_addAtAux (new : α) {t : Tree α} {a b : List α} (h : t.toList = a ++ b) :
    (addAtAux new a.length t).1.toList = a ++ new :: b := by
  induction t generalizing a b with
  | nil =>
    obtain ⟨rfl, rfl⟩ : a = [] ∧ b = [] := List.append_eq_nil_iff.mp h.symm
    rfl
  | node l x r ht ihl ihr =>
    rw [addAtAux, ← length_toList]
    rcases List.append_eq_append_iff.mp (show l.toList ++ x :: r.toList = a ++ b from h) with
      ⟨c, ha, hr⟩ | ⟨c, hl, hb⟩
    · cases c with
      | nil =>
        obtain rfl : a = l.toList := by rw [ha, List.append_nil]
        obtain rfl : x :: r.toList = b := hr
        have hins := ihl (List.append_nil l.toList).symm
        rw [if_pos (Nat.le_refl _)]
        dsimp only
        split
        · rw [toList_rebalanceAdd, hins]
          simp
        · rw [toList, hins]
          simp
      | cons y c =>
        obtain ⟨rfl, hrest⟩ := List.cons.inj hr
        have hlen : a.length = l.toList.length + (c.length + 1) := by
          rw [ha, List.length_append, List.length_cons]
        have hins := ihr hrest
        rw [if_neg (by omega), show a.length - l.toList.length - 1 = c.length by omega]
        dsimp only
        split
        · rw [toList_rebalanceAdd, hins, ha]
          simp
        · rw [toList, hins, ha]
          simp
    · have hlen : a.length ≤ l.toList.length := by
        rw [hl, List.length_append]
        omega
      have hins := ihl hl
      rw [if_pos hlen]
      dsimp only
      split
      · rw [toList_rebalanceAdd, hins, hb]
        simp
      · rw [toList, hins, hb]
        simp

/-- The order around a new node stays. -/
theorem toList_addAt (new : α) {t : Tree α} {a b : List α} (h : t.toList = a ++ b) :
    (addAt new a.length t).toList = a ++ new :: b :=
  toList_addAtAux new h

/-! ## The order of the keys -/

variable {key : α → Int} {cmp : α → Int} {k : Int} {through : Bool}

/-- The nodes stand in the order of their keys. -/
def Sorted (key : α → Int) (t : Tree α) : Prop := t.toList.Pairwise fun x y => key x ≤ key y

/-- At each node on its way the search goes to the side on which the key `k` belongs. -/
def Guides (cmp : α → Int) (key : α → Int) (k : Int) (through : Bool) : Tree α → Prop
  | nil => True
  | node l x r _ =>
    (cmp x < 0 ↔ k < key x) ∧ (0 < cmp x ↔ key x < k) ∧
      if k < key x then Guides cmp key k through l
      else if key x < k ∨ through then Guides cmp key k through r
      else True

instance (key : α → Int) (t : Tree α) : Decidable (Sorted key t) :=
  inferInstanceAs (Decidable (List.Pairwise _ _))

instance Guides.instDecidable (cmp key : α → Int) (k : Int) (through : Bool) :
    ∀ t : Tree α, Decidable (Guides cmp key k through t)
  | nil => isTrue trivial
  | node l x r _ =>
    have := instDecidable cmp key k through l
    have := instDecidable cmp key k through r
    inferInstanceAs (Decidable ((cmp x < 0 ↔ k < key x) ∧ (0 < cmp x ↔ key x < k) ∧
      if k < key x then Guides cmp key k through l
      else if key x < k ∨ through then Guides cmp key k through r
      else True))

theorem sorted_node {l : Tree α} {x : α} {r : Tree α} {h : Int} (hs : Sorted key (node l x r h)) :
    Sorted key l ∧ Sorted key r ∧ (∀ y ∈ l.toList, key y ≤ key x) ∧
      ∀ y ∈ r.toList, key x ≤ key y := by
  unfold Sorted at hs
  rw [toList, List.pairwise_append, List.pairwise_cons] at hs
  exact ⟨hs.1, hs.2.1.2, fun y hy => hs.2.2 y hy x (List.mem_cons_self ..), hs.2.1.1⟩

/-- A search that is guided misses no node with the key. -/
theorem searchPos_none_iff_key {t : Tree α} (hs : Sorted key t)
    (hg : Guides cmp key k through t) :
    t.searchPos cmp = none ↔ ∀ x ∈ t.toList, key x ≠ k := by
  induction t with
  | nil => simp [searchPos, toList]
  | node l x r ht ihl ihr =>
    obtain ⟨hl, hr, hlx, hxr⟩ := sorted_node hs
    obtain ⟨hlt, hgt, hrest⟩ := hg
    rw [searchPos]
    simp only [toList, List.mem_append, List.mem_cons]
    split
    · next hx =>
      have hk := hlt.mp hx
      rw [if_pos hk] at hrest
      rw [ihl hl hrest]
      refine ⟨fun h y hy => ?_, fun h y hy => h y (Or.inl hy)⟩
      rcases hy with hy | rfl | hy
      · exact h y hy
      · omega
      · have := hxr y hy
        omega
    · next hnot =>
      have hnk : ¬ k < key x := fun hk => hnot (hlt.mpr hk)
      rw [if_neg hnk] at hrest
      split
      · next hx =>
        have hk := hgt.mp hx
        rw [if_pos (Or.inl hk)] at hrest
        rw [Option.map_eq_none_iff, ihr hr hrest]
        refine ⟨fun h y hy => ?_, fun h y hy => h y (Or.inr (Or.inr hy))⟩
        rcases hy with hy | rfl | hy
        · have := hlx y hy
          omega
        · omega
        · exact h y hy
      · next hnx =>
        have hnk' : ¬ key x < k := fun hk => hnx (hgt.mpr hk)
        refine ⟨by simp, fun h => absurd ?_ (h x (Or.inr (Or.inl rfl)))⟩
        omega

/-- A search that is guided ends where the key belongs. -/
theorem place_split {t : Tree α} (hs : Sorted key t) (hg : Guides cmp key k through t) :
    ∃ a b, t.toList = a ++ b ∧ a.length = t.place cmp through ∧ (∀ y ∈ a, key y ≤ k) ∧
      ∀ y ∈ b, k ≤ key y := by
  induction t with
  | nil => exact ⟨[], [], rfl, rfl, nofun, nofun⟩
  | node l x r ht ihl ihr =>
    obtain ⟨hl, hr, hlx, hxr⟩ := sorted_node hs
    obtain ⟨hlt, hgt, hrest⟩ := hg
    rw [place]
    split
    · next hx =>
      have hk := hlt.mp hx
      rw [if_pos hk] at hrest
      obtain ⟨a, b, hab, hlen, ha, hb⟩ := ihl hl hrest
      refine ⟨a, b ++ x :: r.toList, by rw [toList, hab, List.append_assoc], hlen, ha, ?_⟩
      intro y hy
      rcases List.mem_append.mp hy with hy | hy
      · exact hb y hy
      · rcases List.mem_cons.mp hy with rfl | hy
        · omega
        · have := hxr y hy
          omega
    · next hnot =>
      have hnk : ¬ k < key x := fun hk => hnot (hlt.mpr hk)
      rw [if_neg hnk] at hrest
      have hbefore : ∀ y ∈ l.toList ++ [x], key y ≤ k := by
        intro y hy
        rcases List.mem_append.mp hy with hy | hy
        · have := hlx y hy
          omega
        · rw [List.mem_singleton.mp hy]
          omega
      split
      · next hgo =>
        have hgo' : key x < k ∨ through = true := hgo.imp_left hgt.mp
        rw [if_pos hgo'] at hrest
        obtain ⟨a, b, hab, hlen, ha, hb⟩ := ihr hr hrest
        refine ⟨l.toList ++ [x] ++ a, b, by rw [toList, hab]; simp, ?_, ?_, hb⟩
        · rw [List.length_append, List.length_append, length_toList, hlen]
          rfl
        · intro y hy
          rcases List.mem_append.mp hy with hy | hy
          · exact hbefore y hy
          · exact ha y hy
      · next hgo =>
        have heq : key x = k := by
          have hnk' : ¬ key x < k := fun hk => hgo (Or.inl (hgt.mpr hk))
          omega
        refine ⟨l.toList ++ [x], r.toList, by rw [toList]; simp, ?_, hbefore, ?_⟩
        · rw [List.length_append, length_toList]
          rfl
        · intro y hy
          rw [← heq]
          exact hxr y hy

/-- A guided insertion keeps the order. -/
theorem Sorted.addAt_place {t : Tree α} {new : α} (hs : Sorted key t)
    (hg : Guides cmp key (key new) through t) :
    Sorted key (t.addAt new (t.place cmp through)) ∧
      (t.addAt new (t.place cmp through)).toList.Perm (new :: t.toList) := by
  obtain ⟨a, b, hab, hlen, ha, hb⟩ := place_split hs hg
  have hlist := toList_addAt new hab
  rw [hlen] at hlist
  constructor
  · unfold Sorted at hs ⊢
    rw [hlist]
    rw [hab, List.pairwise_append] at hs
    rw [List.pairwise_append, List.pairwise_cons]
    refine ⟨hs.1, ⟨hb, hs.2.1⟩, fun x hx y hy => ?_⟩
    rcases List.mem_cons.mp hy with rfl | hy
    · exact ha x hx
    · exact hs.2.2 x hx y hy
  · rw [hlist, hab]
    exact List.perm_middle

theorem Sorted.delAt {t : Tree α} (hs : Sorted key t) {a b : List α} {x : α}
    (h : t.toList = a ++ x :: b) : Sorted key (t.delAt a.length) := by
  unfold Sorted at hs ⊢
  rw [toList_delAt h]
  rw [h] at hs
  exact hs.sublist ((List.sublist_cons_self x b).append_left a)

/-- A change that leaves the key. -/
theorem Sorted.modifyAt {t : Tree α} (hs : Sorted key t) {f : α → α} {a b : List α} {x : α}
    (h : t.toList = a ++ x :: b) (hf : key (f x) = key x) :
    Sorted key (t.modifyAt f a.length) := by
  unfold Sorted at hs ⊢
  rw [toList_modifyAt f h]
  rw [h, List.pairwise_append, List.pairwise_cons] at hs
  rw [List.pairwise_append, List.pairwise_cons, hf]
  refine ⟨hs.1, hs.2.1, fun y hy z hz => ?_⟩
  rcases List.mem_cons.mp hz with rfl | hz
  · rw [hf]
    exact hs.2.2 y hy x (List.mem_cons_self ..)
  · exact hs.2.2 y hy z (List.mem_cons_of_mem _ hz)

end PcloudClient.Ptree.Tree
