/-
  Ptree/HeapProofs.lean --- the nodes in memory as a tree.

  `Rep` says that the nodes of a tree are in memory with the pointers and heights the tree
  says.  The walks on the heap are the walks along the frames of `Zipper.lean`.
-/
import Mathlib.Data.List.Nodup
import PcloudClient.Ptree.Zipper
import PcloudClient.Ptree.Heap

set_option autoImplicit false

namespace PcloudClient.Ptree

/-! ## Writing a field -/

namespace Heap

variable (h : Heap) (e : Nat) (p q : Ptr) (n : Int) {x : Nat}

@[simp] theorem setLeft_self : h.setLeft e p e = { h e with left := p } :=
  Function.update_self ..

@[simp] theorem setRight_self : h.setRight e p e = { h e with right := p } :=
  Function.update_self ..

@[simp] theorem setParent_self : h.setParent e p e = { h e with parent := p } :=
  Function.update_self ..

@[simp] theorem setHeight_self : h.setHeight e n e = { h e with height := n } :=
  Function.update_self ..

@[simp] theorem setLeft_of_ne (hne : x ≠ e) : h.setLeft e p x = h x :=
  Function.update_of_ne hne _ _

@[simp] theorem setRight_of_ne (hne : x ≠ e) : h.setRight e p x = h x :=
  Function.update_of_ne hne _ _

@[simp] theorem setParent_of_ne (hne : x ≠ e) : h.setParent e p x = h x :=
  Function.update_of_ne hne _ _

@[simp] theorem setHeight_of_ne (hne : x ≠ e) : h.setHeight e n x = h x :=
  Function.update_of_ne hne _ _

@[simp] theorem height_some : h.height (some e) = (h e).height := rfl

/-- Only the stored heights count for the height behind a pointer. -/
theorem height_congr {h h' : Heap} (hsame : ∀ x, (h' x).height = (h x).height) (p : Ptr) :
    h'.height p = h.height p := by
  cases p with
  | none => rfl
  | some x => exact hsame x

@[simp] theorem height_setLeft : (h.setLeft e q).height p = h.height p :=
  height_congr (fun x => by by_cases hx : x = e <;> simp [hx]) p

@[simp] theorem height_setRight : (h.setRight e q).height p = h.height p :=
  height_congr (fun x => by by_cases hx : x = e <;> simp [hx]) p

@[simp] theorem height_setParent : (h.setParent e q).height p = h.height p :=
  height_congr (fun x => by by_cases hx : x = e <;> simp [hx]) p

theorem height_setHeight_of_ne (hne : p ≠ some e) : (h.setHeight e n).height p = h.height p := by
  cases p with
  | none => rfl
  | some x => simp [show x ≠ e from fun heq => hne (congrArg some heq)]

end Heap

/-! ## Trees in memory -/

/-- The pointer to a tree. -/
def Tree.root : Tree Nat → Ptr
  | .nil => none
  | .node _ x _ _ => some x

@[simp] theorem Tree.root_nil : (Tree.nil : Tree Nat).root = none := rfl

@[simp] theorem Tree.root_node (l : Tree Nat) (x : Nat) (r : Tree Nat) (h : Int) :
    (Tree.node l x r h).root = some x := rfl

theorem Tree.mem_of_root {t : Tree Nat} {x : Nat} (h : t.root = some x) : x ∈ t.toList := by
  cases t with
  | nil => exact absurd h (by simp)
  | node l y r ht =>
    obtain rfl := Option.some.inj h
    simp [Tree.toList]

/-- The node that a place hangs from. -/
def top : List (Frame Nat) → Ptr
  | [] => none
  | f :: _ => some f.elem

/-- The nodes of a tree are in memory. -/
def Rep (h : Heap) (parent : Ptr) : Tree Nat → Prop
  | .nil => True
  | .node l x r ht => h x = ⟨l.root, r.root, parent, ht⟩ ∧ Rep h (some x) l ∧ Rep h (some x) r

/-- The nodes of the frames are in memory, around a place with a given pointer. -/
def RepCtx (h : Heap) : List (Frame Nat) → Ptr → Prop
  | [], _ => True
  | .left x r ht :: ctx, p =>
    h x = ⟨p, r.root, top ctx, ht⟩ ∧ Rep h (some x) r ∧ RepCtx h ctx (some x)
  | .right l x ht :: ctx, p =>
    h x = ⟨l.root, p, top ctx, ht⟩ ∧ Rep h (some x) l ∧ RepCtx h ctx (some x)

theorem rep_plug {h : Heap} {ctx : List (Frame Nat)} {t : Tree Nat} :
    Rep h none (plug ctx t) ↔ RepCtx h ctx t.root ∧ Rep h (top ctx) t := by
  induction ctx generalizing t with
  | nil => simp [RepCtx, top]
  | cons f ctx ih =>
    rw [plug_cons, ih]
    cases f with
    | left x r ht =>
      simp only [Frame.fill, Tree.root_node, Rep, RepCtx, top, Frame.elem]
      tauto
    | right l x ht =>
      simp only [Frame.fill, Tree.root_node, Rep, RepCtx, top, Frame.elem]
      tauto

theorem Rep.congr {h h' : Heap} {p : Ptr} {t : Tree Nat} (hrep : Rep h p t)
    (hsame : ∀ x ∈ t.toList, h' x = h x) : Rep h' p t := by
  induction t generalizing p with
  | nil => trivial
  | node l x r ht ihl ihr =>
    simp only [Tree.toList, List.mem_append, List.mem_cons] at hsame
    obtain ⟨hx, hl, hr⟩ := hrep
    exact ⟨(hsame x (Or.inr (Or.inl rfl))).trans hx, ihl hl fun y hy => hsame y (Or.inl hy),
      ihr hr fun y hy => hsame y (Or.inr (Or.inr hy))⟩

theorem RepCtx.congr {h h' : Heap} {ctx : List (Frame Nat)} {p : Ptr} (hrep : RepCtx h ctx p)
    (hsame : ∀ x ∈ before ctx ++ after ctx, h' x = h x) : RepCtx h' ctx p := by
  induction ctx generalizing p with
  | nil => trivial
  | cons f ctx ih =>
    cases f with
    | left x r ht =>
      simp only [before, after, Frame.before, Frame.after, List.mem_append, List.mem_cons,
        List.append_nil] at hsame
      obtain ⟨hx, hr, hctx⟩ := hrep
      refine ⟨(hsame x (Or.inr (Or.inl (Or.inl rfl)))).trans hx,
        hr.congr fun y hy => hsame y (Or.inr (Or.inl (Or.inr hy))), ih hctx fun y hy => ?_⟩
      rcases List.mem_append.mp hy with hy | hy
      · exact hsame y (Or.inl hy)
      · exact hsame y (Or.inr (Or.inr hy))
    | right l x ht =>
      simp only [before, after, Frame.before, Frame.after, List.mem_append, List.mem_cons,
        List.nil_append, List.not_mem_nil, or_false] at hsame
      obtain ⟨hx, hl, hctx⟩ := hrep
      refine ⟨(hsame x (Or.inl (Or.inr (Or.inr rfl)))).trans hx,
        hl.congr fun y hy => hsame y (Or.inl (Or.inr (Or.inl hy))), ih hctx fun y hy => ?_⟩
      rcases List.mem_append.mp hy with hy | hy
      · exact hsame y (Or.inl (Or.inl hy))
      · exact hsame y (Or.inr hy)

theorem Rep.height {h : Heap} {p : Ptr} {t : Tree Nat} (hrep : Rep h p t) :
    h.height t.root = t.height := by
  cases t with
  | nil => rfl
  | node l x r ht => simp [Heap.height, hrep.1, Tree.height]

/-- The root of a tree gets another parent. -/
theorem Rep.setParentOf {h : Heap} {p : Ptr} {t : Tree Nat} (hrep : Rep h p t)
    (hnodup : t.toList.Nodup) (q : Ptr) : Rep (h.setParentOf t.root q) q t := by
  cases t with
  | nil => trivial
  | node l x r ht =>
    obtain ⟨hx, hl, hr⟩ := hrep
    rw [Tree.toList, List.nodup_middle, List.nodup_cons, List.mem_append, not_or] at hnodup
    obtain ⟨⟨hxl, hxr⟩, -⟩ := hnodup
    refine ⟨?_, ?_, ?_⟩
    · simp [Heap.setParentOf, Heap.setParent, hx]
    · exact hl.congr fun y hy => Function.update_of_ne (ne_of_mem_of_not_mem hy hxl) _ _
    · exact hr.congr fun y hy => Function.update_of_ne (ne_of_mem_of_not_mem hy hxr) _ _

theorem setParentOf_of_ne {h : Heap} {p q : Ptr} {x : Nat} (hne : p ≠ some x) :
    h.setParentOf p q x = h x := by
  cases p with
  | none => rfl
  | some y => exact Function.update_of_ne (fun heq => hne (congrArg some heq.symm)) _ _

/-! ## Rotations -/

section

variable {h : Heap} {par : Ptr}

/-- The nodes that a change of a subtree may write. -/
def Only (h h' : Heap) (t : Tree Nat) : Prop := ∀ z, z ∉ t.toList → h' z = h z

/-- The nodes of a rotated subtree, given those of its two upper nodes. -/
theorem rep_rotated {h' : Heap} {a b c : Tree Nat} {x y : Nat}
    (hnodup : (x :: y :: (a.toList ++ b.toList ++ c.toList)).Nodup) (pa pb pc : Ptr) (q : Ptr)
    (ha : Rep h pa a) (hb : Rep h pb b) (hc : Rep h pc c)
    (hrest : ∀ z, z ≠ x → z ≠ y → h' z = h.setParentOf b.root q z) :
    Rep h' pa a ∧ Rep h' q b ∧ Rep h' pc c := by
  simp only [List.nodup_cons, List.nodup_append, List.mem_cons, List.mem_append, not_or] at hnodup
  obtain ⟨⟨hxy, ⟨hxa, hxb⟩, hxc⟩, ⟨⟨hya, hyb⟩, hyc⟩, ⟨hnda, hndb, hab⟩, hndc, habc⟩ := hnodup
  refine ⟨ha.congr ?_, ?_, hc.congr ?_⟩
  · intro z hz
    rw [hrest z (fun heq => hxa (heq ▸ hz)) (fun heq => hya (heq ▸ hz))]
    exact setParentOf_of_ne fun hroot => hab z hz z (Tree.mem_of_root hroot) rfl
  · refine (hb.setParentOf hndb q).congr ?_
    intro z hz
    exact hrest z (fun heq => hxb (heq ▸ hz)) (fun heq => hyb (heq ▸ hz))
  · intro z hz
    rw [hrest z (fun heq => hxc (heq ▸ hz)) (fun heq => hyc (heq ▸ hz))]
    exact setParentOf_of_ne fun hroot => habc z (Or.inr (Tree.mem_of_root hroot)) z hz rfl

theorem rotateRight_nodes {x y : Nat} {ll lr r : Tree Nat} {hx hy : Int} (hne : x ≠ y)
    (hxn : h x = ⟨some y, r.root, par, hx⟩) (hyn : h y = ⟨ll.root, lr.root, some x, hy⟩)
    (hll : h.height ll.root = ll.height) (hlr : h.height lr.root = lr.height)
    (hrr : h.height r.root = r.height) (hr : 0 ≤ r.height)
    (hlrx : lr.root ≠ some x) (hlry : lr.root ≠ some y) (hllx : ll.root ≠ some x) :
    ∃ h', h.rotateRight x = some (h', y) ∧
      h' x = ⟨lr.root, r.root, some y, max lr.height r.height + 1⟩ ∧
      h' y = ⟨ll.root, some x, par, max ll.height (max lr.height r.height + 1) + 1⟩ ∧
      ∀ z, z ≠ x → z ≠ y → h' z = h.setParentOf lr.root (some x) z := by
  unfold Heap.rotateRight
  rw [hxn]
  simp only [Option.bind_eq_bind, Option.bind_some, Option.pure_def]
  refine ⟨_, rfl, ?_⟩
  cases lr with
  | nil =>
    have hmax : max (Tree.nil : Tree Nat).height r.height = r.height := max_eq_right hr
    rw [hmax]
    refine ⟨?_, ?_, ?_⟩
    · simp [Heap.recalcHeight, hne, hne.symm, hxn, hyn, hrr]
    · simp [Heap.recalcHeight, Heap.height_setHeight_of_ne, hne, hne.symm, hxn, hyn, hrr, hll, hllx]
    · intro z hzx hzy
      simp [Heap.recalcHeight, hne, hne.symm, hxn, hyn, hzx, hzy, Heap.setParentOf]
  | node a z b hz =>
    have hzx : z ≠ x := fun heq => hlrx (congrArg some heq)
    have hzy : z ≠ y := fun heq => hlry (congrArg some heq)
    have hheight : (h z).height = hz := hlr
    refine ⟨?_, ?_, ?_⟩
    · simp [Heap.recalcHeight, hne, hne.symm, hxn, hyn, hrr, hzx, hzy, hzx.symm, hheight]
    · simp [Heap.recalcHeight, Heap.height_setHeight_of_ne, hne, hne.symm, hxn, hyn, hrr, hll, hllx,
        hzx, hzx.symm, hheight, hzy, hzy.symm]
    · intro w hwx hwy
      by_cases hwz : w = z
      · subst hwz
        simp [Heap.recalcHeight, hne, hne.symm, hxn, hyn, Heap.setParentOf, hwx, hwy]
      · simp [Heap.recalcHeight, hne, hne.symm, hxn, hyn, Heap.setParentOf, hwx, hwy, hwz]

theorem rotateLeft_nodes {x y : Nat} {l rl rr : Tree Nat} {hx hy : Int} (hne : x ≠ y)
    (hxn : h x = ⟨l.root, some y, par, hx⟩) (hyn : h y = ⟨rl.root, rr.root, some x, hy⟩)
    (hll : h.height l.root = l.height) (hrl : h.height rl.root = rl.height)
    (hrr : h.height rr.root = rr.height) (hl : 0 ≤ l.height)
    (hrlx : rl.root ≠ some x) (hrly : rl.root ≠ some y) (hrrx : rr.root ≠ some x) :
    ∃ h', h.rotateLeft x = some (h', y) ∧
      h' x = ⟨l.root, rl.root, some y, max l.height rl.height + 1⟩ ∧
      h' y = ⟨some x, rr.root, par, max (max l.height rl.height + 1) rr.height + 1⟩ ∧
      ∀ z, z ≠ x → z ≠ y → h' z = h.setParentOf rl.root (some x) z := by
  unfold Heap.rotateLeft
  rw [hxn]
  simp only [Option.bind_eq_bind, Option.bind_some, Option.pure_def]
  refine ⟨_, rfl, ?_⟩
  cases rl with
  | nil =>
    have hmax : max l.height (Tree.nil : Tree Nat).height = l.height := max_eq_left hl
    rw [hmax]
    refine ⟨?_, ?_, ?_⟩
    · simp [Heap.recalcHeight, hne, hne.symm, hxn, hyn, hll]
    · simp [Heap.recalcHeight, Heap.height_setHeight_of_ne, hne, hne.symm, hxn, hyn, hrr, hll, hrrx]
    · intro z hzx hzy
      simp [Heap.recalcHeight, hne, hne.symm, hxn, hyn, hzx, hzy, Heap.setParentOf]
  | node a z b hz =>
    have hzx : z ≠ x := fun heq => hrlx (congrArg some heq)
    have hzy : z ≠ y := fun heq => hrly (congrArg some heq)
    have hheight : (h z).height = hz := hrl
    refine ⟨?_, ?_, ?_⟩
    · simp [Heap.recalcHeight, hne, hne.symm, hxn, hyn, hll, hzx, hzy, hzx.symm, hheight]
    · simp [Heap.recalcHeight, Heap.height_setHeight_of_ne, hne, hne.symm, hxn, hyn, hrr, hll, hrrx,
        hzx, hzx.symm, hheight, hzy, hzy.symm]
    · intro w hwx hwy
      by_cases hwz : w = z
      · subst hwz
        simp [Heap.recalcHeight, hne, hne.symm, hxn, hyn, Heap.setParentOf, hwx, hwy]
      · simp [Heap.recalcHeight, hne, hne.symm, hxn, hyn, Heap.setParentOf, hwx, hwy, hwz]

theorem root_ne_of_notMem {t : Tree Nat} {x : Nat} (h : x ∉ t.toList) : t.root ≠ some x :=
  fun hroot => h (Tree.mem_of_root hroot)

theorem rotateRight_rep {ll lr r : Tree Nat} {y x : Nat} {hy hx : Int}
    (hrep : Rep h par (.node (.node ll y lr hy) x r hx))
    (hnodup : (Tree.node (.node ll y lr hy) x r hx).toList.Nodup) (hr : 0 ≤ r.height) :
    ∃ h', h.rotateRight x = some (h', y) ∧ Rep h' par (.recalc ll y (.recalc lr x r)) ∧
      Only h h' (.node (.node ll y lr hy) x r hx) := by
  obtain ⟨hxn, ⟨hyn, hll, hlr⟩, hrr⟩ := hrep
  have hperm : (Tree.node (.node ll y lr hy) x r hx).toList.Perm
      (x :: y :: (ll.toList ++ lr.toList ++ r.toList)) := by
    simp only [Tree.toList]
    refine List.perm_middle.trans (List.Perm.cons x ?_)
    rw [List.append_assoc, List.append_assoc, List.cons_append]
    exact List.perm_middle
  have hdistinct := hperm.nodup_iff.mp hnodup
  have hmem := hdistinct
  simp only [List.nodup_cons, List.mem_cons, List.mem_append, not_or] at hmem
  obtain ⟨⟨hxy, ⟨hxll, hxlr⟩, -⟩, ⟨⟨-, hylr⟩, -⟩, -⟩ := hmem
  obtain ⟨h', hrot, hx', hy', hrest⟩ := rotateRight_nodes hxy hxn hyn hll.height hlr.height
    hrr.height hr (root_ne_of_notMem hxlr) (root_ne_of_notMem hylr) (root_ne_of_notMem hxll)
  obtain ⟨ha, hb, hc⟩ := rep_rotated hdistinct (some y) (some y) (some x) (some x) hll hlr hrr hrest
  refine ⟨h', hrot, ⟨hy', ha, hx', hb, hc⟩, ?_⟩
  intro z hz
  rw [hperm.mem_iff] at hz
  simp only [List.mem_cons, List.mem_append, not_or] at hz
  obtain ⟨hzx, hzy, ⟨-, hzlr⟩, -⟩ := hz
  rw [hrest z hzx hzy]
  exact setParentOf_of_ne (root_ne_of_notMem hzlr)

theorem rotateLeft_rep {l rl rr : Tree Nat} {y x : Nat} {hy hx : Int}
    (hrep : Rep h par (.node l x (.node rl y rr hy) hx))
    (hnodup : (Tree.node l x (.node rl y rr hy) hx).toList.Nodup) (hl : 0 ≤ l.height) :
    ∃ h', h.rotateLeft x = some (h', y) ∧ Rep h' par (.recalc (.recalc l x rl) y rr) ∧
      Only h h' (.node l x (.node rl y rr hy) hx) := by
  obtain ⟨hxn, hll, hyn, hrl, hrr⟩ := hrep
  have hperm : (Tree.node l x (.node rl y rr hy) hx).toList.Perm
      (x :: y :: (l.toList ++ rl.toList ++ rr.toList)) := by
    simp only [Tree.toList]
    refine List.perm_middle.trans (List.Perm.cons x ?_)
    rw [← List.append_assoc]
    exact List.perm_middle
  have hdistinct := hperm.nodup_iff.mp hnodup
  have hmem := hdistinct
  simp only [List.nodup_cons, List.mem_cons, List.mem_append, not_or] at hmem
  obtain ⟨⟨hxy, ⟨-, hxrl⟩, hxrr⟩, ⟨⟨-, hyrl⟩, -⟩, -⟩ := hmem
  obtain ⟨h', hrot, hx', hy', hrest⟩ := rotateLeft_nodes hxy hxn hyn hll.height hrl.height
    hrr.height hl (root_ne_of_notMem hxrl) (root_ne_of_notMem hyrl) (root_ne_of_notMem hxrr)
  obtain ⟨ha, hb, hc⟩ := rep_rotated hdistinct (some x) (some y) (some y) (some x) hll hrl hrr hrest
  refine ⟨h', hrot, ⟨hy', ⟨hx', ha, hb⟩, hc⟩, ?_⟩
  intro z hz
  rw [hperm.mem_iff] at hz
  simp only [List.mem_cons, List.mem_append, not_or] at hz
  obtain ⟨hzx, hzy, ⟨-, hzrl⟩, -⟩ := hz
  rw [hrest z hzx hzy]
  exact setParentOf_of_ne (root_ne_of_notMem hzrl)

end

/-! ## A place in memory -/

/-- The nodes of the frames. -/
def outer (ctx : List (Frame Nat)) : List Nat := before ctx ++ after ctx

theorem nodup_plug {ctx : List (Frame Nat)} {t : Tree Nat} :
    (plug ctx t).toList.Nodup ↔
      (outer ctx).Nodup ∧ t.toList.Nodup ∧ ∀ z ∈ t.toList, z ∉ outer ctx := by
  have hperm : (plug ctx t).toList.Perm (outer ctx ++ t.toList) := by
    rw [toList_plug, outer, List.append_assoc, List.append_assoc]
    exact List.Perm.append_left _ List.perm_append_comm
  rw [hperm.nodup_iff, List.nodup_append']
  exact and_congr_right fun _ => and_congr_right fun _ =>
    ⟨fun hdis z hz hout => hdis hout hz, fun hdis z hout hz => hdis z hz hout⟩

/-- The tree is in memory, its nodes are different ones, and `tree` points to it. -/
structure Holds (h : Heap) (tree : Ptr) (t : Tree Nat) : Prop where
  rep : Rep h none t
  nodup : t.toList.Nodup
  root : tree = t.root

theorem elem_mem_outer (f : Frame Nat) (ctx : List (Frame Nat)) : f.elem ∈ outer (f :: ctx) := by
  cases f <;> simp [outer, before, after, Frame.before, Frame.after, Frame.elem]

theorem outer_subset_cons (f : Frame Nat) (ctx : List (Frame Nat)) :
    ∀ x ∈ outer ctx, x ∈ outer (f :: ctx) := by
  intro x hx
  rcases List.mem_append.mp hx with hx | hx
  · exact List.mem_append_left _ (List.mem_append_left _ hx)
  · exact List.mem_append_right _ (List.mem_append_right _ hx)

/-- The root of a tree above a place does not depend on what is there. -/
theorem root_plug_cons (f : Frame Nat) (ctx : List (Frame Nat)) (t : Tree Nat) :
    ∃ z ∈ outer (f :: ctx), ∀ t', (plug (f :: ctx) t').root = some z := by
  induction ctx generalizing f t with
  | nil => exact ⟨f.elem, elem_mem_outer f [], fun t' => by cases f <;> rfl⟩
  | cons g ctx ih =>
    obtain ⟨z, hz, hroot⟩ := ih g (f.fill t)
    exact ⟨z, outer_subset_cons f _ z hz, fun t' => hroot (f.fill t')⟩

/-- The pointer of a frame to its place is written. -/
def link (h : Heap) (f : Frame Nat) (p : Ptr) : Heap :=
  match f with
  | .left x _ _ => h.setLeft x p
  | .right _ x _ => h.setRight x p

theorem link_of_ne {h : Heap} {f : Frame Nat} {p : Ptr} {z : Nat} (hne : z ≠ f.elem) :
    link h f p z = h z := by
  cases f with
  | left x r ht => exact h.setLeft_of_ne x p hne
  | right l x ht => exact h.setRight_of_ne x p hne

theorem RepCtx.link {h : Heap} {f : Frame Nat} {ctx : List (Frame Nat)} {p : Ptr}
    (hrep : RepCtx h (f :: ctx) p) (hnodup : (outer (f :: ctx)).Nodup) (q : Ptr) :
    RepCtx (link h f q) (f :: ctx) q := by
  cases f with
  | left x r ht =>
    obtain ⟨hx, hr, hctx⟩ := hrep
    have hperm : (outer (.left x r ht :: ctx)).Perm (x :: (r.toList ++ outer ctx)) := by
      simp only [outer, before, after, Frame.before, Frame.after, List.append_nil,
        List.cons_append]
      refine List.perm_middle.trans (List.Perm.cons x ?_)
      rw [← List.append_assoc, ← List.append_assoc]
      exact List.Perm.append_right _ List.perm_append_comm
    obtain ⟨hnot, -⟩ := List.nodup_cons.mp (hperm.nodup_iff.mp hnodup)
    rw [List.mem_append, not_or] at hnot
    refine ⟨by simp [Ptree.link, hx], hr.congr fun y hy => ?_, hctx.congr fun y hy => ?_⟩
    · exact h.setLeft_of_ne x q (ne_of_mem_of_not_mem hy hnot.1)
    · exact h.setLeft_of_ne x q (ne_of_mem_of_not_mem hy hnot.2)
  | right l x ht =>
    obtain ⟨hx, hl, hctx⟩ := hrep
    have hperm : (outer (.right l x ht :: ctx)).Perm (x :: (l.toList ++ outer ctx)) := by
      simp only [outer, before, after, Frame.before, Frame.after, List.nil_append]
      rw [List.append_assoc, List.append_assoc]
      refine (List.perm_append_comm_assoc _ _ _).trans ?_
      exact (List.Perm.append_left _ List.perm_middle).trans List.perm_middle
    obtain ⟨hnot, -⟩ := List.nodup_cons.mp (hperm.nodup_iff.mp hnodup)
    rw [List.mem_append, not_or] at hnot
    refine ⟨by simp [Ptree.link, hx], hl.congr fun y hy => ?_, hctx.congr fun y hy => ?_⟩
    · exact h.setRight_of_ne x q (ne_of_mem_of_not_mem hy hnot.1)
    · exact h.setRight_of_ne x q (ne_of_mem_of_not_mem hy hnot.2)

section

variable {h h' : Heap} {tree : Ptr} {ctx : List (Frame Nat)} {t t' : Tree Nat} {x y : Nat}

theorem Holds.rep_place (hh : Holds h tree (plug ctx t)) : Rep h (top ctx) t :=
  (rep_plug.mp hh.rep).2

theorem Holds.rep_ctx (hh : Holds h tree (plug ctx t)) : RepCtx h ctx t.root :=
  (rep_plug.mp hh.rep).1

/-- What is at a place is changed, and its frame is linked to the new root. -/
theorem Holds.relink {f : Frame Nat} (hh : Holds h tree (plug (f :: ctx) t))
    (honly : Only h h' t) (hrep : Rep h' (some f.elem) t') (hperm : t'.toList.Perm t.toList) :
    Holds (link h' f t'.root) tree (plug (f :: ctx) t') := by
  obtain ⟨hout, hin, hsep⟩ := nodup_plug.mp hh.nodup
  refine ⟨rep_plug.mpr ⟨?_, ?_⟩, nodup_plug.mpr ⟨hout, hperm.nodup_iff.mpr hin, ?_⟩, ?_⟩
  · refine RepCtx.link (hh.rep_ctx.congr fun z hz => honly z ?_) hout _
    exact fun hzt => hsep z hzt hz
  · refine hrep.congr fun z hz => link_of_ne ?_
    rintro rfl
    exact hsep _ (hperm.mem_iff.mp hz) (elem_mem_outer f ctx)
  · exact fun z hz => hsep z (hperm.mem_iff.mp hz)
  · obtain ⟨z, -, hroot⟩ := root_plug_cons f ctx t
    rw [hh.root, hroot t, hroot t']

/-- `x` is the whole tree exactly at the top. -/
theorem Holds.root_iff {l r : Tree Nat} {ht : Int}
    (hh : Holds h tree (plug ctx (.node l x r ht))) : tree = some x ↔ ctx = [] := by
  cases ctx with
  | nil => simp [hh.root]
  | cons f ctx =>
    obtain ⟨z, hz, hroot⟩ := root_plug_cons f ctx (.node l x r ht)
    have hne : tree ≠ some x := by
      rw [hh.root, hroot]
      intro heq
      obtain rfl := Option.some.inj heq
      exact (nodup_plug.mp hh.nodup).2.2 z (by simp [Tree.toList]) hz
    simp [hne]

/-- `rotateAt` with a rotation that keeps the nodes of the subtree. -/
theorem Holds.rotateAt {rot : Heap → Nat → Option (Heap × Nat)} {l r : Tree Nat} {ht : Int}
    (hh : Holds h tree (plug ctx (.node l x r ht))) (hrot : rot h x = some (h', y))
    (hrep : Rep h' (top ctx) t') (honly : Only h h' (.node l x r ht)) (hroot : t'.root = some y)
    (hperm : t'.toList.Perm (Tree.node l x r ht).toList) :
    ∃ h'', Heap.rotateAt rot h tree x = some (h'', (plug ctx t').root, top ctx) ∧
      Holds h'' (plug ctx t').root (plug ctx t') := by
  unfold Heap.rotateAt
  cases ctx with
  | nil =>
    rw [if_pos (hh.root_iff.mpr rfl), hrot]
    refine ⟨h', ?_, hrep, hperm.nodup_iff.mpr hh.nodup, rfl⟩
    simp [hroot, top]
  | cons f ctx =>
    have hnode : h x = ⟨l.root, r.root, some f.elem, ht⟩ := hh.rep_place.1
    have hlinked := hh.relink honly hrep hperm
    rw [if_neg (fun heq => absurd (hh.root_iff.mp heq) (by simp)), hnode]
    refine ⟨link h' f t'.root, ?_, hlinked.root ▸ hlinked⟩
    rw [← hlinked.root, hroot]
    cases f with
    | left z r' hz =>
      have hz : h z = ⟨some x, r'.root, top ctx, hz⟩ := hh.rep_ctx.1
      simp [Frame.elem, hz, hrot, link, top]
    | right l' z hz =>
      have hz : h z = ⟨l'.root, some x, top ctx, hz⟩ := hh.rep_ctx.1
      have hne : l'.root ≠ some x := by
        refine root_ne_of_notMem fun hx => ?_
        refine (nodup_plug.mp hh.nodup).2.2 x (by simp [Tree.toList]) ?_
        simp [outer, before, Frame.before, hx]
      simp [Frame.elem, hz, hrot, link, hne, top]

/-- A rotation to the right at a place. -/
theorem Holds.rotateRightAt {ll lr r : Tree Nat} {hy ht : Int}
    (hh : Holds h tree (plug ctx (.node (.node ll y lr hy) x r ht))) (hr : 0 ≤ r.height) :
    ∃ h'', Heap.rotateAt Heap.rotateRight h tree x =
        some (h'', (plug ctx (.recalc ll y (.recalc lr x r))).root, top ctx) ∧
      Holds h'' (plug ctx (.recalc ll y (.recalc lr x r))).root
        (plug ctx (.recalc ll y (.recalc lr x r))) := by
  obtain ⟨h', hrot, hrep, honly⟩ :=
    rotateRight_rep hh.rep_place (nodup_plug.mp hh.nodup).2.1 hr
  refine hh.rotateAt hrot hrep honly rfl (List.Perm.of_eq ?_)
  simp [Tree.recalc, Tree.toList]

/-- A rotation to the left at a place. -/
theorem Holds.rotateLeftAt {l rl rr : Tree Nat} {hy ht : Int}
    (hh : Holds h tree (plug ctx (.node l x (.node rl y rr hy) ht))) (hl : 0 ≤ l.height) :
    ∃ h'', Heap.rotateAt Heap.rotateLeft h tree x =
        some (h'', (plug ctx (.recalc (.recalc l x rl) y rr)).root, top ctx) ∧
      Holds h'' (plug ctx (.recalc (.recalc l x rl) y rr)).root
        (plug ctx (.recalc (.recalc l x rl) y rr)) := by
  obtain ⟨h', hrot, hrep, honly⟩ :=
    rotateLeft_rep hh.rep_place (nodup_plug.mp hh.nodup).2.1 hl
  refine hh.rotateAt hrot hrep honly rfl (List.Perm.of_eq ?_)
  simp [Tree.recalc, Tree.toList]

/-- A left side that is too high is lowered as `Tree.rotate` says. -/
theorem Holds.lowerLeft {l r : Tree Nat} {ht : Int} (hh : Holds h tree (plug ctx (.node l x r ht)))
    (hl : l.Avl) (hr : 0 ≤ r.height) (hd : l.height - r.height = 2) :
    ∃ h', h.lowerLeft tree x = some (h', (plug ctx (.rotate l x r ht)).root, top ctx) ∧
      Holds h' (plug ctx (.rotate l x r ht)).root (plug ctx (.rotate l x r ht)) := by
  obtain ⟨ll, y, lr, hy, rfl⟩ := hl.exists_node (by omega)
  obtain ⟨hll, hlr, -, -, -⟩ := hl
  obtain ⟨hxn, ⟨hyn, hrepll, hreplr⟩, -⟩ := hh.rep_place
  rw [Tree.height_node] at hd
  rw [Tree.rotate_left_eq _ _ _ _ hd]
  unfold Heap.lowerLeft
  rw [hxn]
  simp only [Tree.root_node, Option.bind_eq_bind, Option.bind_some, hyn, hrepll.height,
    hreplr.height]
  by_cases hgt : lr.height > ll.height
  · have hlln := hll.height_nonneg
    rw [if_pos hgt, if_pos hgt]
    obtain ⟨lrl, z, lrr, hz, rfl⟩ := hlr.exists_node (by omega)
    have hplace :
        Holds h tree (plug (.left x r ht :: ctx) (.node ll y (.node lrl z lrr hz) hy)) := hh
    obtain ⟨h₁, hrot, hrep, honly⟩ :=
      rotateLeft_rep hplace.rep_place (nodup_plug.mp hplace.nodup).2.1 hlln
    have hlinked : Holds (h₁.setLeft x (some z)) tree
        (plug ctx (.node (.recalc (.recalc ll y lrl) z lrr) x r ht)) :=
      hplace.relink honly hrep (List.Perm.of_eq (by simp [Tree.recalc, Tree.toList]))
    rw [hrot]
    exact hlinked.rotateRightAt hr
  · rw [if_neg hgt, if_neg hgt]
    exact hh.rotateRightAt hr

/-- A right side that is too high is lowered as `Tree.rotate` says. -/
theorem Holds.lowerRight {l r : Tree Nat} {ht : Int} (hh : Holds h tree (plug ctx (.node l x r ht)))
    (hr : r.Avl) (hl : 0 ≤ l.height) (hd : l.height - r.height = -2) :
    ∃ h', h.lowerRight tree x = some (h', (plug ctx (.rotate l x r ht)).root, top ctx) ∧
      Holds h' (plug ctx (.rotate l x r ht)).root (plug ctx (.rotate l x r ht)) := by
  obtain ⟨rl, y, rr, hy, rfl⟩ := hr.exists_node (by omega)
  obtain ⟨hrl, hrr, -, -, -⟩ := hr
  obtain ⟨hxn, -, hyn, hreprl, hreprr⟩ := hh.rep_place
  rw [Tree.height_node] at hd
  rw [Tree.rotate_right_eq _ _ _ _ (by omega)]
  unfold Heap.lowerRight
  rw [hxn]
  simp only [Tree.root_node, Option.bind_eq_bind, Option.bind_some, hyn, hreprl.height,
    hreprr.height]
  by_cases hgt : rl.height > rr.height
  · have hrrn := hrr.height_nonneg
    rw [if_pos hgt, if_pos hgt]
    obtain ⟨rll, z, rlr, hz, rfl⟩ := hrl.exists_node (by omega)
    have hplace :
        Holds h tree (plug (.right l x ht :: ctx) (.node (.node rll z rlr hz) y rr hy)) := hh
    obtain ⟨h₁, hrot, hrep, honly⟩ :=
      rotateRight_rep hplace.rep_place (nodup_plug.mp hplace.nodup).2.1 hrrn
    have hlinked : Holds (h₁.setRight x (some z)) tree
        (plug ctx (.node l x (.recalc rll z (.recalc rlr y rr)) ht)) :=
      hplace.relink honly hrep (List.Perm.of_eq (by simp [Tree.recalc, Tree.toList]))
    rw [hrot]
    exact hlinked.rotateLeftAt hl
  · rw [if_neg hgt, if_neg hgt]
    exact hh.rotateLeftAt hl

/-- The height of a node is written. -/
theorem Holds.setHeight {l r : Tree Nat} {ht : Int} (hh : Holds h tree (plug ctx (.node l x r ht)))
    (n : Int) : Holds (h.setHeight x n) tree (plug ctx (.node l x r n)) := by
  obtain ⟨hout, hin, hsep⟩ := nodup_plug.mp hh.nodup
  obtain ⟨hx, hl, hr⟩ := hh.rep_place
  have hnot := hin
  rw [Tree.toList, List.nodup_middle, List.nodup_cons, List.mem_append, not_or] at hnot
  refine ⟨rep_plug.mpr ⟨?_, ?_, ?_, ?_⟩, nodup_plug.mpr ⟨hout, hin, hsep⟩, ?_⟩
  · refine hh.rep_ctx.congr fun z hz => h.setHeight_of_ne x n ?_
    rintro rfl
    exact hsep z (by simp [Tree.toList]) hz
  · simp [hx]
  · exact hl.congr fun z hz => h.setHeight_of_ne x n (ne_of_mem_of_not_mem hz hnot.1.1)
  · exact hr.congr fun z hz => h.setHeight_of_ne x n (ne_of_mem_of_not_mem hz hnot.1.2)
  · cases ctx with
    | nil => exact hh.root
    | cons f ctx =>
      obtain ⟨z, -, hroot⟩ := root_plug_cons f ctx (.node l x r ht)
      rw [hh.root, hroot, hroot]

/-! ## The walks -/

/-- The subtrees of a node that a walk comes to. -/
structure Near (l r : Tree Nat) : Prop where
  left : l.Avl
  right : r.Avl
  low : -2 ≤ l.height - r.height
  high : l.height - r.height ≤ 2

/-- One turn of `psync_tree_go_up_rebalance_add`. -/
theorem Holds.goUpRebalanceAdd_step {l r : Tree Nat} {ht : Int} (fuel : Nat)
    (hh : Holds h tree (plug ctx (.node l x r ht))) (hnear : Near l r) :
    ∃ h' tree', Holds h' tree' (plug ctx (Tree.rebalanceAdd l x r ht).1) ∧
      Heap.goUpRebalanceAdd (fuel + 1) h tree x =
        match top ctx, (Tree.rebalanceAdd l x r ht).2 with
        | some p, true => Heap.goUpRebalanceAdd fuel h' tree' p
        | _, _ => some (h', tree') := by
  obtain ⟨hl, hr, hlow, hhigh⟩ := hnear
  obtain ⟨hx, hrepl, hrepr⟩ := hh.rep_place
  rw [Heap.goUpRebalanceAdd, hx]
  simp only [hrepl.height, hrepr.height]
  unfold Tree.rebalanceAdd
  simp only []
  by_cases hzero : l.height - r.height = 0
  · rw [if_pos hzero, if_pos hzero]
    exact ⟨h, tree, hh, by cases top ctx <;> rfl⟩
  · rw [if_neg hzero, if_neg hzero]
    by_cases hone : l.height - r.height = 1 ∨ l.height - r.height = -1
    · rw [if_pos hone, if_pos hone]
      have hset := hh.setHeight (r.height + (l.height - r.height + 1) / 2 + 1)
      refine ⟨_, tree, hset, ?_⟩
      simp only [Heap.setHeight_self, hx]
      cases ctx with
      | nil => simp [top, hh.root_iff.mpr rfl]
      | cons f ctx => rfl
    · rw [if_neg hone, if_neg hone]
      by_cases htwo : l.height - r.height = 2
      · rw [if_pos htwo]
        obtain ⟨h', hlow, hholds⟩ := hh.lowerLeft hl hr.height_nonneg htwo
        exact ⟨h', _, hholds, by rw [hlow]; cases top ctx <;> rfl⟩
      · have hminus : l.height - r.height = -2 := by omega
        rw [if_neg htwo, if_pos hminus]
        obtain ⟨h', hlow, hholds⟩ := hh.lowerRight hr hl.height_nonneg hminus
        exact ⟨h', _, hholds, by rw [hlow]; cases top ctx <;> rfl⟩

/-- One turn of `psync_tree_go_up_rebalance_del`. -/
theorem Holds.goUpRebalanceDel_step {l r : Tree Nat} {ht : Int} (fuel : Nat)
    (hh : Holds h tree (plug ctx (.node l x r ht))) (hnear : Near l r) :
    ∃ h' tree', Holds h' tree' (plug ctx (Tree.rebalanceDel l x r ht).1) ∧
      Heap.goUpRebalanceDel (fuel + 1) h tree x =
        match top ctx, (Tree.rebalanceDel l x r ht).2 with
        | some p, true => Heap.goUpRebalanceDel fuel h' tree' p
        | _, _ => some (h', tree') := by
  obtain ⟨hl, hr, hlow, hhigh⟩ := hnear
  obtain ⟨hx, hrepl, hrepr⟩ := hh.rep_place
  rw [Heap.goUpRebalanceDel, hx]
  simp only [hrepl.height, hrepr.height]
  unfold Tree.rebalanceDel
  simp only []
  by_cases hzero : l.height - r.height = 0
  · rw [if_pos hzero, if_pos hzero]
    refine ⟨_, tree, hh.setHeight (r.height + 1), ?_⟩
    simp only [Heap.setHeight_self, hx]
    cases ctx with
    | nil => simp [top, hh.root_iff.mpr rfl]
    | cons f ctx => rfl
  · rw [if_neg hzero, if_neg hzero]
    by_cases hone : l.height - r.height = 1 ∨ l.height - r.height = -1
    · rw [if_pos hone, if_pos hone]
      exact ⟨h, tree, hh, by cases top ctx <;> rfl⟩
    · rw [if_neg hone, if_neg hone]
      by_cases htwo : l.height - r.height = 2
      · obtain ⟨h', hlow, hholds⟩ := hh.lowerLeft hl hr.height_nonneg htwo
        refine ⟨h', _, hholds, ?_⟩
        rw [if_pos htwo, hlow]
        cases top ctx <;> rfl
      · have hminus : l.height - r.height = -2 := by omega
        obtain ⟨h', hlow, hholds⟩ := hh.lowerRight hr hl.height_nonneg hminus
        refine ⟨h', _, hholds, ?_⟩
        rw [if_neg htwo, if_pos hminus, hlow]
        cases top ctx <;> rfl

/-- A walk on the heap whose turns are steps `f` is the walk along the frames. -/
theorem Holds.climbs {go : Nat → Heap → Ptr → Nat → Option (Heap × Ptr)}
    {f : Tree Nat → Nat → Tree Nat → Int → Tree Nat × Bool} {high : Int → Tree Nat → Prop}
    (hf : Rebalances f high) (hhighle : ∀ {H t}, high H t → t.height ≤ H + 1 ∧ H ≤ t.height + 1)
    (hstep : ∀ {h : Heap} {tree : Ptr} {ctx : List (Frame Nat)} {l r : Tree Nat} {x : Nat}
      {ht : Int} (fuel : Nat), Holds h tree (plug ctx (.node l x r ht)) → Near l r →
      ∃ h' tree', Holds h' tree' (plug ctx (f l x r ht).1) ∧
        go (fuel + 1) h tree x =
          match top ctx, (f l x r ht).2 with
          | some p, true => go fuel h' tree' p
          | _, _ => some (h', tree'))
    {frame : Frame Nat} {H : Int} {fuel : Nat} (hh : Holds h tree (plug (frame :: ctx) t))
    (hfuel : ctx.length < fuel) (ht : t.Avl) (hhigh : high H t) (hfits : Fits (frame :: ctx) H) :
    ∃ h' tree', go fuel h tree frame.elem = some (h', tree') ∧
      Holds h' tree' (climb f (frame :: ctx) (t, true)) := by
  induction ctx generalizing h tree frame t H fuel with
  | nil =>
    obtain ⟨fuel, rfl⟩ : ∃ n, fuel = n + 1 := ⟨fuel - 1, by omega⟩
    obtain ⟨hle, hge⟩ := hhighle hhigh
    obtain ⟨hl, hr, hlow, hup⟩ := hfits.sides ht hle hge
    rw [plug_cons, frame.fill_eq] at hh
    obtain ⟨h', tree', hholds, hgo⟩ := hstep fuel hh ⟨hl, hr, hlow, hup⟩
    refine ⟨h', tree', hgo, ?_⟩
    rw [climb, Frame.apply]
    cases hres : f (frame.leftSide t) frame.elem (frame.rightSide t) frame.height with
    | mk t' flag =>
      rw [hres] at hholds
      cases flag <;> exact hholds
  | cons g ctx ih =>
    obtain ⟨fuel, rfl⟩ : ∃ n, fuel = n + 1 := ⟨fuel - 1, by omega⟩
    rw [List.length_cons] at hfuel
    obtain ⟨hframe, hctx⟩ := fits_cons.mp hfits
    obtain ⟨hle, hge⟩ := hhighle hhigh
    obtain ⟨hl, hr, hlow, hup⟩ := hframe.sides ht hle hge
    rw [plug_cons, frame.fill_eq] at hh
    obtain ⟨h', tree', hholds, hgo⟩ := hstep fuel hh ⟨hl, hr, hlow, hup⟩
    have hreb := hf frame t H ht hhigh hframe
    rw [Frame.apply] at hreb
    rw [climb, Frame.apply, hgo]
    cases hres : f (frame.leftSide t) frame.elem (frame.rightSide t) frame.height with
    | mk t' flag =>
      rw [hres] at hholds hreb
      cases flag with
      | false => exact ⟨h', tree', rfl, by rw [climb_false]; exact hholds⟩
      | true => exact ih hholds (by omega) hreb.avl (hreb.goes rfl) hctx

/-- `psync_tree_go_up_rebalance_add` above a leaf that was added. -/
theorem Holds.goUpRebalanceAdd {frame : Frame Nat} {fuel : Nat}
    (hh : Holds h tree (plug (frame :: ctx) (.node .nil x .nil 1)))
    (hfuel : ctx.length < fuel) (havl : (plug (frame :: ctx) (.nil : Tree Nat)).Avl) :
    ∃ h' tree', Heap.goUpRebalanceAdd fuel h tree frame.elem = some (h', tree') ∧
      Holds h' tree' (climbAdd (frame :: ctx) (.node .nil x .nil 1, true)) :=
  hh.climbs rebalances_add (fun h => by have := h.1; omega)
    (fun fuel hh hnear => hh.goUpRebalanceAdd_step fuel hnear) hfuel (avl_leaf x)
    ⟨rfl, Or.inl rfl⟩ (avl_plug.mp havl).2

/-- `psync_tree_go_up_rebalance_del` above a subtree that has become lower. -/
theorem Holds.goUpRebalanceDel {frame : Frame Nat} {H : Int} {fuel : Nat}
    (hh : Holds h tree (plug (frame :: ctx) t)) (hfuel : ctx.length < fuel) (ht : t.Avl)
    (hheight : t.height = H - 1) (hfits : Fits (frame :: ctx) H) :
    ∃ h' tree', Heap.goUpRebalanceDel fuel h tree frame.elem = some (h', tree') ∧
      Holds h' tree' (climbDel (frame :: ctx) (t, true)) :=
  hh.climbs rebalances_del (fun h => by have : _ = _ ∨ _ = _ := h; omega)
    (fun fuel hh hnear => hh.goUpRebalanceDel_step fuel hnear) hfuel ht (Or.inl hheight) hfits

end

end PcloudClient.Ptree
