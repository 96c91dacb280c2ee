/-
  Ptree/Operations.lean --- adding and deleting nodes of a tree in memory.

  Each function of `ptree.c` that changes a tree leaves a balanced tree in memory whose
  nodes stand in the order of the old ones, with the new node put in or the deleted one
  taken out.
-/
import PcloudClient.Ptree.HeapProofs

set_option autoImplicit false

namespace PcloudClient.Ptree

/-! ## The two ends of a subtree -/

section

variable {α : Type}

/-- The frames above the place before the first element. -/
def leftSpine : Tree α → List (Frame α)
  | .nil => []
  | .node l x r h => leftSpine l ++ [.left x r h]

/-- The frames above the place behind the last element. -/
def rightSpine : Tree α → List (Frame α)
  | .nil => []
  | .node l x r h => rightSpine r ++ [.right l x h]

attribute [local simp] leftSpine rightSpine before after Frame.before Frame.after Tree.toList

theorem before_append (c d : List (Frame α)) : before (c ++ d) = before d ++ before c := by
  induction c with
  | nil => simp
  | cons f c ih => simp [ih]

theorem after_append (c d : List (Frame α)) : after (c ++ d) = after c ++ after d := by
  induction c with
  | nil => simp
  | cons f c ih => simp [ih]

@[simp] theorem plug_leftSpine (t : Tree α) : plug (leftSpine t) .nil = t := by
  induction t with
  | nil => rfl
  | node l x r h ihl _ => rw [leftSpine, plug_append, ihl]; rfl

@[simp] theorem plug_rightSpine (t : Tree α) : plug (rightSpine t) .nil = t := by
  induction t with
  | nil => rfl
  | node l x r h _ ihr => rw [rightSpine, plug_append, ihr]; rfl

@[simp] theorem before_leftSpine (t : Tree α) : before (leftSpine t) = [] := by
  induction t with
  | nil => rfl
  | node l x r h ihl _ => simp [before_append, ihl]

@[simp] theorem after_leftSpine (t : Tree α) : after (leftSpine t) = t.toList := by
  induction t with
  | nil => rfl
  | node l x r h ihl _ => simp [after_append, ihl]

@[simp] theorem after_rightSpine (t : Tree α) : after (rightSpine t) = [] := by
  induction t with
  | nil => rfl
  | node l x r h _ ihr => simp [after_append, ihr]

@[simp] theorem before_rightSpine (t : Tree α) : before (rightSpine t) = t.toList := by
  induction t with
  | nil => rfl
  | node l x r h _ ihr => simp [before_append, ihr]

theorem length_le_plug (ctx : List (Frame α)) (t : Tree α) :
    ctx.length + t.toList.length ≤ (plug ctx t).toList.length := by
  induction ctx generalizing t with
  | nil => simp
  | cons f ctx ih =>
    have hlen := ih (f.fill t)
    rw [f.toList_fill] at hlen
    simp only [List.length_append] at hlen
    have hpos : 0 < f.before.length + f.after.length := by
      cases f <;> simp [Frame.before, Frame.after]
    rw [plug_cons, List.length_cons]
    omega

end

section

variable {h h' : Heap} {tree p : Ptr} {ctx : List (Frame Nat)} {t : Tree Nat} {fuel : Nat}

theorem top_append {c d : List (Frame Nat)} (hne : c ≠ []) : top (c ++ d) = top c := by
  cases c with
  | nil => exact absurd rfl hne
  | cons f c => rfl

theorem leftSpine_ne_nil {l r : Tree Nat} {x : Nat} {ht : Int} :
    leftSpine (.node l x r ht) ≠ [] := by
  simp [leftSpine]

theorem rightSpine_ne_nil {l r : Tree Nat} {x : Nat} {ht : Int} :
    rightSpine (.node l x r ht) ≠ [] := by
  simp [rightSpine]

/-- The loop to the left comes to the node above the first place. -/
theorem leftmost_rep {x : Nat} (hrep : Rep h p t) (hroot : t.root = some x)
    (hfuel : t.toList.length ≤ fuel) : h.leftmost fuel x = top (leftSpine t) := by
  induction t generalizing p x fuel with
  | nil => exact absurd hroot (by simp)
  | node l y r ht ihl _ =>
    obtain rfl := Option.some.inj hroot
    obtain ⟨hx, hl, -⟩ := hrep
    simp only [Tree.toList, List.length_append, List.length_cons] at hfuel
    obtain ⟨fuel, rfl⟩ : ∃ n, fuel = n + 1 := ⟨fuel - 1, by omega⟩
    rw [Heap.leftmost, hx]
    cases hlt : l with
    | nil => rfl
    | node ll z lr hz =>
      rw [← hlt]
      have hz : l.root = some z := by rw [hlt]; rfl
      simp only [hz]
      rw [ihl hl hz (by omega), leftSpine, top_append (by rw [hlt]; exact leftSpine_ne_nil)]

/-- The loop to the right comes to the node above the last place. -/
theorem rightmost_rep {x : Nat} (hrep : Rep h p t) (hroot : t.root = some x)
    (hfuel : t.toList.length ≤ fuel) : h.rightmost fuel x = top (rightSpine t) := by
  induction t generalizing p x fuel with
  | nil => exact absurd hroot (by simp)
  | node l y r ht _ ihr =>
    obtain rfl := Option.some.inj hroot
    obtain ⟨hx, -, hr⟩ := hrep
    simp only [Tree.toList, List.length_append, List.length_cons] at hfuel
    obtain ⟨fuel, rfl⟩ : ∃ n, fuel = n + 1 := ⟨fuel - 1, by omega⟩
    rw [Heap.rightmost, hx]
    cases hrt : r with
    | nil => rfl
    | node rl z rr hz =>
      rw [← hrt]
      have hz : r.root = some z := by rw [hrt]; rfl
      simp only [hz]
      rw [ihr hr hz (by omega), rightSpine, top_append (by rw [hrt]; exact rightSpine_ne_nil)]

/-! ## Changing what is at a place -/

/-- The subtree at a place is replaced and the frame linked to it. -/
theorem Holds.replace {f : Frame Nat} {t' : Tree Nat} (hh : Holds h tree (plug (f :: ctx) t))
    (hctx : ∀ z ∈ outer (f :: ctx), h' z = link h f t'.root z) (hrep : Rep h' (some f.elem) t')
    (hnodup : t'.toList.Nodup) (hsep : ∀ z ∈ t'.toList, z ∉ outer (f :: ctx)) :
    Holds h' tree (plug (f :: ctx) t') := by
  obtain ⟨hout, -, -⟩ := nodup_plug.mp hh.nodup
  refine ⟨rep_plug.mpr ⟨?_, hrep⟩, nodup_plug.mpr ⟨hout, hnodup, hsep⟩, ?_⟩
  · exact (RepCtx.link hh.rep_ctx hout _).congr hctx
  · obtain ⟨z, -, hroot⟩ := root_plug_cons f ctx t
    rw [hh.root, hroot, hroot]

/-- A leaf is put in an empty place. -/
theorem Holds.leaf {f : Frame Nat} {x : Nat} (hh : Holds h tree (plug (f :: ctx) .nil))
    (hnew : x ∉ (plug (f :: ctx) (.nil : Tree Nat)).toList)
    (hctx : ∀ z, z ≠ x → h' z = link h f (some x) z) (hx : h' x = ⟨none, none, some f.elem, 1⟩) :
    Holds h' tree (plug (f :: ctx) (.node .nil x .nil 1)) := by
  have hout : x ∉ outer (f :: ctx) := by
    rw [toList_plug] at hnew
    simpa [outer, Tree.toList] using hnew
  refine hh.replace (fun z hz => ?_) ⟨hx, trivial, trivial⟩ (by simp [Tree.toList]) ?_
  · exact hctx z (ne_of_mem_of_not_mem hz hout)
  · simpa [Tree.toList] using hout

/-- A balanced tree is in memory. -/
structure Sound (h : Heap) (tree : Ptr) (t : Tree Nat) : Prop extends Holds h tree t where
  avl : t.Avl

/-- A leaf is put in an empty place and the walk goes up from there. -/
theorem Sound.addLeaf {f : Frame Nat} {x : Nat} (hs : Sound h tree (plug (f :: ctx) .nil))
    (hfuel : (plug (f :: ctx) (.nil : Tree Nat)).toList.length ≤ fuel)
    (hnew : x ∉ (plug (f :: ctx) (.nil : Tree Nat)).toList)
    (hctx : ∀ z, z ≠ x → h' z = link h f (some x) z) (hx : h' x = ⟨none, none, some f.elem, 1⟩) :
    ∃ h'' tree'' t'', Heap.goUpRebalanceAdd fuel h' tree f.elem = some (h'', tree'') ∧
      Sound h'' tree'' t'' ∧ t''.toList = before (f :: ctx) ++ x :: after (f :: ctx) := by
  have hlen := length_le_plug (f :: ctx) (.nil : Tree Nat)
  rw [List.length_cons] at hlen
  obtain ⟨h'', tree'', hgo, hholds⟩ :=
    (hs.toHolds.leaf hnew hctx hx).goUpRebalanceAdd (show ctx.length < fuel by omega) hs.avl
  refine ⟨h'', tree'', _, hgo, ⟨hholds, avl_climbAdd x hs.avl⟩, ?_⟩
  rw [toList_climbAdd]
  simp [Tree.toList]

/-- A new node is initialised, linked to its place and given its parent. -/
def linkNew (h : Heap) (f : Frame Nat) (x : Nat) : Heap :=
  (link (h.initNode x) f (some x)).setParent x (some f.elem)

theorem linkNew_of_ne {f : Frame Nat} {x z : Nat} (hf : f.elem ≠ x) (hz : z ≠ x) :
    linkNew h f x z = link h f (some x) z := by
  have hinit : ∀ {y}, y ≠ x → h.initNode x y = h y := fun hy => Function.update_of_ne hy _ _
  rw [linkNew, Heap.setParent_of_ne _ _ _ hz]
  by_cases hzf : z = f.elem
  · subst hzf
    have hsame := hinit hf
    cases f with
    | left y r ht =>
      rw [Frame.elem] at hsame ⊢
      simp [link, hsame]
    | right l y ht =>
      rw [Frame.elem] at hsame ⊢
      simp [link, hsame]
  · rw [link_of_ne hzf, link_of_ne hzf, hinit hz]

theorem linkNew_self {f : Frame Nat} {x : Nat} (hf : f.elem ≠ x) :
    linkNew h f x x = ⟨none, none, some f.elem, 1⟩ := by
  rw [linkNew, Heap.setParent_self, link_of_ne hf.symm]
  simp [Heap.initNode]

theorem eq_left_of_mem_leftSpine {f : Frame Nat} (hf : f ∈ leftSpine t) :
    ∃ x r ht, f = .left x r ht := by
  induction t with
  | nil => exact absurd hf (by simp [leftSpine])
  | node l x r ht ihl _ =>
    rcases List.mem_append.mp hf with hf | hf
    · exact ihl hf
    · exact ⟨x, r, ht, List.mem_singleton.mp hf⟩

theorem eq_right_of_mem_rightSpine {f : Frame Nat} (hf : f ∈ rightSpine t) :
    ∃ l x ht, f = .right l x ht := by
  induction t with
  | nil => exact absurd hf (by simp [rightSpine])
  | node l x r ht _ ihr =>
    rcases List.mem_append.mp hf with hf | hf
    · exact ihr hf
    · exact ⟨l, x, ht, List.mem_singleton.mp hf⟩

/-- A new node is added in an empty place of a tree. -/
theorem Sound.addNew {f : Frame Nat} {x : Nat} (hs : Sound h tree (plug (f :: ctx) .nil))
    (hfuel : (plug (f :: ctx) (.nil : Tree Nat)).toList.length ≤ fuel)
    (hnew : x ∉ (plug (f :: ctx) (.nil : Tree Nat)).toList) :
    ∃ h'' tree'' t'', Heap.goUpRebalanceAdd fuel (linkNew h f x) tree f.elem = some (h'', tree'') ∧
      Sound h'' tree'' t'' ∧ t''.toList = before (f :: ctx) ++ x :: after (f :: ctx) := by
  have hf : f.elem ≠ x := by
    rintro rfl
    refine hnew ?_
    rw [toList_plug]
    simpa [Tree.toList, outer] using elem_mem_outer f ctx
  exact hs.addLeaf hfuel hnew (fun z hz => linkNew_of_ne hf hz) (linkNew_self hf)

/-- `psync_tree_add_after` puts the new node right behind the other one. -/
theorem Sound.addAfterNode {l r : Tree Nat} {x new : Nat} {ht : Int}
    (hs : Sound h tree (plug ctx (.node l x r ht)))
    (hfuel : (plug ctx (.node l x r ht)).toList.length ≤ fuel)
    (hnew : new ∉ (plug ctx (.node l x r ht)).toList) :
    ∃ h' tree' t', h.addAfterNode fuel tree x new = some (h', tree') ∧ Sound h' tree' t' ∧
      t'.toList = before ctx ++ l.toList ++ x :: new :: (r.toList ++ after ctx) := by
  have hx : x ≠ new := by
    rintro rfl
    exact hnew (by simp [toList_plug, Tree.toList])
  have hnode : h.initNode new x = ⟨l.root, r.root, top ctx, ht⟩ := by
    rw [Heap.initNode, Function.update_of_ne hx]
    exact hs.rep_place.1
  unfold Heap.addAfterNode
  simp only [hnode]
  cases hr : r with
  | nil =>
    subst hr
    have hplace : Sound h tree (plug (.right l x ht :: ctx) .nil) := hs
    obtain ⟨h', tree', t', hgo, hsound, hlist⟩ := hplace.addNew hfuel hnew
    refine ⟨h', tree', t', hgo, hsound, ?_⟩
    rw [hlist]
    simp [before, after, Frame.before, Frame.after, Tree.toList]
  | node rl y rr hy =>
    rw [← hr]
    have hroot : r.root = some y := by rw [hr]; rfl
    obtain ⟨f, rest, hspine⟩ : ∃ f rest, leftSpine r = f :: rest :=
      List.exists_cons_of_ne_nil (by rw [hr]; exact leftSpine_ne_nil)
    have hplug : plug (f :: (rest ++ .right l x ht :: ctx)) (.nil : Tree Nat) =
        plug ctx (.node l x r ht) := by
      rw [← List.cons_append, ← hspine, plug_append, plug_leftSpine]
      rfl
    have hplace : Sound h tree (plug (f :: (rest ++ .right l x ht :: ctx)) .nil) := hplug ▸ hs
    have hmost : Heap.leftmost (h.initNode new) fuel y = some f.elem := by
      have hnotin : ∀ z ∈ r.toList, z ≠ new := by
        rintro z hz rfl
        exact hnew (by simp [toList_plug, Tree.toList, hz])
      have hrep : Rep (h.initNode new) (some x) r :=
        hs.rep_place.2.2.congr fun z hz => Function.update_of_ne (hnotin z hz) _ _
      rw [leftmost_rep hrep hroot ?_, hspine]
      · rfl
      · have hlen := length_le_plug ctx (.node l x r ht)
        simp only [Tree.toList, List.length_append, List.length_cons] at hlen
        omega
    obtain ⟨z, r', hz, rfl⟩ := @eq_left_of_mem_leftSpine r f (by simp [hspine])
    obtain ⟨h', tree', t', hgo, hsound, hlist⟩ :=
      hplace.addNew (hplug ▸ hfuel) (hplug ▸ hnew)
    refine ⟨h', tree', t', ?_, hsound, ?_⟩
    · rw [hroot]
      simp only [hmost, Option.bind_eq_bind, Option.bind_some]
      exact hgo
    · rw [hlist, ← List.cons_append, ← hspine, before_append, after_append, before_leftSpine,
        after_leftSpine]
      simp [before, after, Frame.before, Frame.after]

/-- `psync_tree_add_before` puts the new node right before the other one. -/
theorem Sound.addBeforeNode {l r : Tree Nat} {x new : Nat} {ht : Int}
    (hs : Sound h tree (plug ctx (.node l x r ht)))
    (hfuel : (plug ctx (.node l x r ht)).toList.length ≤ fuel)
    (hnew : new ∉ (plug ctx (.node l x r ht)).toList) :
    ∃ h' tree' t', h.addBeforeNode fuel tree x new = some (h', tree') ∧ Sound h' tree' t' ∧
      t'.toList = before ctx ++ l.toList ++ new :: x :: (r.toList ++ after ctx) := by
  have hx : x ≠ new := by
    rintro rfl
    exact hnew (by simp [toList_plug, Tree.toList])
  have hnode : h.initNode new x = ⟨l.root, r.root, top ctx, ht⟩ := by
    rw [Heap.initNode, Function.update_of_ne hx]
    exact hs.rep_place.1
  unfold Heap.addBeforeNode
  simp only [hnode]
  cases hl : l with
  | nil =>
    subst hl
    have hplace : Sound h tree (plug (.left x r ht :: ctx) .nil) := hs
    obtain ⟨h', tree', t', hgo, hsound, hlist⟩ := hplace.addNew hfuel hnew
    refine ⟨h', tree', t', hgo, hsound, ?_⟩
    rw [hlist]
    simp [before, after, Frame.before, Frame.after, Tree.toList]
  | node ll y lr hy =>
    rw [← hl]
    have hroot : l.root = some y := by rw [hl]; rfl
    obtain ⟨f, rest, hspine⟩ : ∃ f rest, rightSpine l = f :: rest :=
      List.exists_cons_of_ne_nil (by rw [hl]; exact rightSpine_ne_nil)
    have hplug : plug (f :: (rest ++ .left x r ht :: ctx)) (.nil : Tree Nat) =
        plug ctx (.node l x r ht) := by
      rw [← List.cons_append, ← hspine, plug_append, plug_rightSpine]
      rfl
    have hplace : Sound h tree (plug (f :: (rest ++ .left x r ht :: ctx)) .nil) := hplug ▸ hs
    have hmost : Heap.rightmost (h.initNode new) fuel y = some f.elem := by
      have hnotin : ∀ z ∈ l.toList, z ≠ new := by
        rintro z hz rfl
        exact hnew (by simp [toList_plug, Tree.toList, hz])
      have hrep : Rep (h.initNode new) (some x) l :=
        hs.rep_place.2.1.congr fun z hz => Function.update_of_ne (hnotin z hz) _ _
      rw [rightmost_rep hrep hroot ?_, hspine]
      · rfl
      · have hlen := length_le_plug ctx (.node l x r ht)
        simp only [Tree.toList, List.length_append, List.length_cons] at hlen
        omega
    obtain ⟨l', z, hz, rfl⟩ := @eq_right_of_mem_rightSpine l f (by simp [hspine])
    obtain ⟨h', tree', t', hgo, hsound, hlist⟩ :=
      hplace.addNew (hplug ▸ hfuel) (hplug ▸ hnew)
    refine ⟨h', tree', t', ?_, hsound, ?_⟩
    · rw [hroot]
      simp only [hmost, Option.bind_eq_bind, Option.bind_some]
      exact hgo
    · rw [hlist, ← List.cons_append, ← hspine, before_append, after_append, before_rightSpine,
        after_rightSpine]
      simp [before, after, Frame.before, Frame.after]

/-! ## Deleting a node -/

theorem rebalanceDel_eq {l r : Tree Nat} {x : Nat} {ht : Int} (havl : (Tree.node l x r ht).Avl) :
    (Tree.rebalanceDel l x r ht).1 = .node l x r ht := by
  obtain ⟨-, -, hheight, h₁, h₂⟩ := havl
  unfold Tree.rebalanceDel
  simp only []
  by_cases hzero : l.height - r.height = 0
  · rw [if_pos hzero]
    have hsame : r.height + 1 = ht := by omega
    rw [hsame]
  · rw [if_neg hzero, if_pos (by omega)]

/-- A subtree takes the place of its parent's only child. -/
theorem Holds.replaceBy {f : Frame Nat} {sub : Tree Nat} {q : Ptr}
    (hh : Holds h tree (plug (f :: ctx) t)) (hrep : Rep h q sub) (hnodup : sub.toList.Nodup)
    (hsub : ∀ z ∈ sub.toList, z ∈ t.toList) :
    Holds ((link h f sub.root).setParentOf sub.root (some f.elem)) tree (plug (f :: ctx) sub) := by
  obtain ⟨-, -, hsep⟩ := nodup_plug.mp hh.nodup
  have hout : ∀ z ∈ sub.toList, z ∉ outer (f :: ctx) := fun z hz => hsep z (hsub z hz)
  have hlinked : Rep (link h f sub.root) q sub := by
    refine hrep.congr fun z hz => link_of_ne ?_
    rintro rfl
    exact hout _ hz (elem_mem_outer f ctx)
  refine hh.replace (fun z hz => setParentOf_of_ne ?_) (hlinked.setParentOf hnodup _) hnodup hout
  exact root_ne_of_notMem fun hzs => hout z hzs hz

/-- The pointer to a node is in the innermost frame above it. -/
theorem relink_eq {f : Frame Nat} {x : Nat} (q : Ptr) (hparent : (h x).parent = some f.elem)
    (hctx : RepCtx h (f :: ctx) (some x)) (hout : x ∉ outer (f :: ctx)) :
    h.relink tree x q = some (link h f q, tree) := by
  rw [Heap.relink, hparent]
  cases f with
  | left z r' hz =>
    have hz : h z = ⟨some x, r'.root, top ctx, hz⟩ := hctx.1
    simp [Frame.elem, hz, link]
  | right l' z hz =>
    have hz : h z = ⟨l'.root, some x, top ctx, hz⟩ := hctx.1
    have hne : l'.root ≠ some x := by
      refine root_ne_of_notMem fun hx => hout ?_
      simp [outer, before, Frame.before, hx]
    simp [Frame.elem, hz, link, hne]

theorem relink_root {x : Nat} (q : Ptr) (hparent : (h x).parent = none) (hroot : tree = some x) :
    h.relink tree x q = some (h, q) := by
  rw [Heap.relink, hparent]
  exact if_pos hroot

/-- A node with one child or none. -/
theorem only_child {a b sub : Tree Nat} {x : Nat} {ht : Int} {q : Ptr}
    (havl : (Tree.node a x b ht).Avl) (hrep : Rep h q (.node a x b ht))
    (hsub : (a = .nil ∧ sub = b) ∨ (b = .nil ∧ sub = a)) :
    sub.Avl ∧ sub.height = ht - 1 ∧ Rep h (some x) sub ∧
      (Tree.node a x b ht).toList.Perm (x :: sub.toList) := by
  obtain ⟨ha, hb, hheight, h₁, h₂⟩ := havl
  have han := ha.height_nonneg
  have hbn := hb.height_nonneg
  have hnil : (Tree.nil : Tree Nat).height = 0 := rfl
  rcases hsub with ⟨rfl, rfl⟩ | ⟨rfl, rfl⟩
  · exact ⟨hb, by omega, hrep.2.2, by simp [Tree.toList]⟩
  · exact ⟨ha, by omega, hrep.2.1, by simp [Tree.toList]⟩

/-- `psync_tree_replace_me_with` for a node with one child or none. -/
theorem Sound.replaceMeWith {l r sub : Tree Nat} {x : Nat} {ht : Int}
    (hs : Sound h tree (plug ctx (.node l x r ht)))
    (hfuel : (plug ctx (.node l x r ht)).toList.length ≤ fuel)
    (hsub : (l = .nil ∧ sub = r) ∨ (r = .nil ∧ sub = l)) :
    ∃ h' tree' t', h.replaceMeWith fuel tree x sub.root = some (h', tree') ∧ Sound h' tree' t' ∧
      t'.toList = before ctx ++ sub.toList ++ after ctx := by
  obtain ⟨havl, hfits⟩ := avl_plug.mp hs.avl
  have hx : h x = ⟨l.root, r.root, top ctx, ht⟩ := hs.rep_place.1
  obtain ⟨-, hin, hsep⟩ := nodup_plug.mp hs.nodup
  obtain ⟨hsubavl, hsubheight, hsubrep, hlist⟩ := only_child havl hs.rep_place hsub
  have hsubnodup : sub.toList.Nodup := (List.nodup_cons.mp (hlist.nodup_iff.mp hin)).2
  unfold Heap.replaceMeWith
  rw [hx]
  cases ctx with
  | nil =>
    rw [relink_root _ (by rw [hx]; rfl) hs.root]
    simp only [top, Option.bind_eq_bind, Option.bind_some]
    cases hcase : sub with
    | nil => exact ⟨h, none, .nil, rfl, ⟨⟨trivial, by simp [Tree.toList], rfl⟩, trivial⟩, rfl⟩
    | node a y c d =>
      rw [hcase] at hsubrep hsubnodup hsubavl hlist
      have hholds : Holds (h.setParentOf (some y) none) (some y) (plug [] (.node a y c d)) :=
        ⟨hsubrep.setParentOf hsubnodup none, hsubnodup, rfl⟩
      obtain ⟨fuel, rfl⟩ : ∃ n, fuel = n + 1 := by
        refine ⟨fuel - 1, ?_⟩
        have hlen := hlist.length_eq
        simp only [plug_nil, List.length_cons] at hfuel hlen
        omega
      obtain ⟨h', tree', hsound, hgo⟩ := hholds.goUpRebalanceDel_step fuel
        ⟨hsubavl.1, hsubavl.2.1, by have := hsubavl.2.2; omega, by have := hsubavl.2.2; omega⟩
      rw [rebalanceDel_eq hsubavl] at hsound
      exact ⟨h', tree', _, hgo, ⟨hsound, hsubavl⟩, by simp [before, after]⟩
  | cons f ctx =>
    rw [relink_eq _ (by rw [hx]; rfl) hs.rep_ctx (hsep x (by simp [Tree.toList]))]
    simp only [top, Option.bind_eq_bind, Option.bind_some]
    have hholds := hs.toHolds.replaceBy hsubrep hsubnodup fun z hz =>
      hlist.mem_iff.mpr (List.mem_cons_of_mem x hz)
    have hlen := length_le_plug (f :: ctx) (.node l x r ht)
    rw [List.length_cons] at hlen
    obtain ⟨h', tree', hgo, hholds'⟩ := hholds.goUpRebalanceDel (show ctx.length < fuel by omega)
      hsubavl hsubheight hfits
    exact ⟨h', tree', _, hgo, ⟨hholds', avl_climbDel hfits hsubavl hsubheight⟩,
      toList_climbDel _ _⟩

/-- A node outside the tree becomes the root of a subtree. -/
theorem copyNode_rep {l r : Tree Nat} {x el : Nat} {ht : Int} {q : Ptr}
    (hrep : Rep h q (.node l x r ht)) (hnodup : (Tree.node l x r ht).toList.Nodup)
    (hel : el ∉ (Tree.node l x r ht).toList) :
    Rep (h.copyNode x el) q (.node l el r ht) ∧
      ∀ z, z ∉ l.toList → z ∉ r.toList → z ≠ el → h.copyNode x el z = h z := by
  obtain ⟨hx, hl, hr⟩ := hrep
  have hin := hnodup
  rw [Tree.toList, List.nodup_middle, List.nodup_cons, List.mem_append, not_or,
    List.nodup_append] at hin
  obtain ⟨⟨hxl, hxr⟩, hndl, hndr, hlr⟩ := hin
  simp only [Tree.toList, List.mem_append, List.mem_cons, not_or] at hel
  obtain ⟨hell, helx, helr⟩ := hel
  have hcopy : h.copyNode x el = Heap.setParentOf
      (Heap.setParentOf (Function.update h el (h x)) l.root (some el)) r.root (some el) := by
    unfold Heap.copyNode
    have hfirst : Function.update h el (h x) x = ⟨l.root, r.root, q, ht⟩ := by
      rw [Function.update_of_ne (Ne.symm helx), hx]
    have hsecond : Heap.setParentOf (Function.update h el (h x)) l.root (some el) x =
        ⟨l.root, r.root, q, ht⟩ := by
      rw [setParentOf_of_ne (root_ne_of_notMem hxl), hfirst]
    simp only [hfirst, hsecond]
  have hrest : ∀ z, z ∉ l.toList → z ∉ r.toList →
      h.copyNode x el z = Function.update h el (h x) z := by
    intro z hzl hzr
    rw [hcopy, setParentOf_of_ne (root_ne_of_notMem hzr), setParentOf_of_ne (root_ne_of_notMem hzl)]
  refine ⟨⟨?_, ?_, ?_⟩, ?_⟩
  · rw [hrest el hell helr, Function.update_self, hx]
  · rw [hcopy]
    have hleft : Rep (Function.update h el (h x)) (some x) l :=
      hl.congr fun z hz => Function.update_of_ne (ne_of_mem_of_not_mem hz hell) _ _
    refine (hleft.setParentOf hndl (some el)).congr fun z hz => setParentOf_of_ne ?_
    exact root_ne_of_notMem fun hzr => hlr z hz z hzr rfl
  · rw [hcopy]
    have hright : Rep (Function.update h el (h x)) (some x) r :=
      hr.congr fun z hz => Function.update_of_ne (ne_of_mem_of_not_mem hz helr) _ _
    refine Rep.setParentOf (hright.congr fun z hz => setParentOf_of_ne ?_) hndr (some el)
    exact root_ne_of_notMem fun hzl => hlr z hzl z hz rfl
  · intro z hzl hzr hz
    rw [hrest z hzl hzr, Function.update_of_ne hz]

/-- A node outside the tree takes the place of one of its nodes. -/
theorem Holds.takePlace {l r : Tree Nat} {x el : Nat} {ht : Int} (fuel parent : Nat)
    (hh : Holds h tree (plug ctx (.node l x r ht)))
    (hel : el ∉ (plug ctx (.node l x r ht)).toList) :
    ∃ h' tree', h.takePlace fuel tree x el parent =
        Heap.goUpRebalanceDel fuel h' tree' (if parent = x then el else parent) ∧
      Holds h' tree' (plug ctx (.node l el r ht)) := by
  obtain ⟨hout, hin, hsep⟩ := nodup_plug.mp hh.nodup
  have hx : h x = ⟨l.root, r.root, top ctx, ht⟩ := hh.rep_place.1
  have helin : el ∉ (Tree.node l x r ht).toList := by
    intro hmem
    exact hel (by rw [toList_plug]; simp [hmem])
  have helout : el ∉ outer ctx := by
    intro hmem
    rcases List.mem_append.mp hmem with hmem | hmem
    · exact hel (by rw [toList_plug]; simp [hmem])
    · exact hel (by rw [toList_plug]; simp [hmem])
  obtain ⟨hrep, hsame⟩ := copyNode_rep hh.rep_place hin helin
  have hctx : ∀ z ∈ outer ctx, h.copyNode x el z = h z := by
    intro z hz
    refine hsame z ?_ ?_ (ne_of_mem_of_not_mem hz helout)
    · exact fun hzl => hsep z (by simp [Tree.toList, hzl]) hz
    · exact fun hzr => hsep z (by simp [Tree.toList, hzr]) hz
  have hnodup : (Tree.node l el r ht).toList.Nodup := by
    rw [Tree.toList, List.nodup_middle, List.nodup_cons] at hin ⊢
    refine ⟨fun hmem => helin ?_, hin.2⟩
    rcases List.mem_append.mp hmem with hmem | hmem
    · simp [Tree.toList, hmem]
    · simp [Tree.toList, hmem]
  have hsep' : ∀ z ∈ (Tree.node l el r ht).toList, z ∉ outer ctx := by
    intro z hz
    simp only [Tree.toList, List.mem_append, List.mem_cons] at hz
    rcases hz with hz | rfl | hz
    · exact hsep z (by simp [Tree.toList, hz])
    · exact helout
    · exact hsep z (by simp [Tree.toList, hz])
  have hxc : h.copyNode x el x = h x := by
    rw [Tree.toList, List.nodup_middle, List.nodup_cons, List.mem_append, not_or] at hin
    refine hsame x hin.1.1 hin.1.2 ?_
    rintro rfl
    exact helin (by simp [Tree.toList])
  unfold Heap.takePlace
  dsimp only
  cases ctx with
  | nil =>
    have hlink : (h.copyNode x el).relink tree x (some el) = some (h.copyNode x el, some el) :=
      relink_root _ (by rw [hxc, hx]; rfl) hh.root
    rw [hlink]
    exact ⟨_, _, rfl, hrep, hnodup, rfl⟩
  | cons f ctx =>
    have hlink : (h.copyNode x el).relink tree x (some el) =
        some (link (h.copyNode x el) f (some el), tree) :=
      relink_eq _ (by rw [hxc, hx]; rfl) (hh.rep_ctx.congr hctx) (hsep x (by simp [Tree.toList]))
    rw [hlink]
    refine ⟨link (h.copyNode x el) f (some el), tree, rfl,
      hh.replace (fun z hz => ?_) (hrep.congr fun z hz => link_of_ne ?_) hnodup hsep'⟩
    · by_cases hzf : z = f.elem
      · subst hzf
        have hf := hctx _ hz
        cases f with
        | left y r' hy =>
          rw [Frame.elem] at hf
          simp [link, Frame.elem, hf]
        | right l' y hy =>
          rw [Frame.elem] at hf
          simp [link, Frame.elem, hf]
      · rw [link_of_ne hzf, link_of_ne hzf, hctx z hz]
    · rintro rfl
      exact hsep' _ hz (elem_mem_outer f ctx)

/-- A frame with another node. -/
def Frame.withElem (f : Frame Nat) (x : Nat) : Frame Nat :=
  match f with
  | .left _ r h => .left x r h
  | .right l _ h => .right l x h

theorem Frame.elem_withElem (f : Frame Nat) (x : Nat) : (f.withElem x).elem = x := by
  cases f <;> rfl

theorem Frame.fill_withElem (f : Frame Nat) (x : Nat) (t : Tree Nat) :
    (f.withElem x).fill t = .node (f.leftSide t) x (f.rightSide t) f.height := by
  cases f <;> rfl

theorem fits_withElem {spine : List (Frame Nat)} {f : Frame Nat} {x : Nat} {H : Int} :
    Fits (spine ++ f.withElem x :: ctx) H ↔ Fits (spine ++ f :: ctx) H := by
  induction spine generalizing H with
  | nil => cases f <;> simp [Frame.withElem, Fits]
  | cons g spine ih =>
    rw [List.cons_append, List.cons_append, fits_cons, ih, ← fits_cons]

theorem outer_append (c d : List (Frame Nat)) : (outer (c ++ d)).Perm (outer c ++ outer d) := by
  rw [outer, before_append, after_append, outer, outer]
  refine (List.perm_append_comm.append_right _).trans ?_
  rw [List.append_assoc, List.append_assoc]
  refine List.Perm.append_left _ ?_
  rw [← List.append_assoc, ← List.append_assoc]
  exact List.perm_append_comm.append_right _

/-- The node below, which has one child or none, takes the place of the one that is
deleted. -/
theorem Sound.swapOut {spine : List (Frame Nat)} {f : Frame Nat} {a b sub : Tree Nat} {el : Nat}
    {hel : Int} (hs : Sound h tree (plug (spine ++ f :: ctx) (.node a el b hel)))
    (hfuel : (plug (spine ++ f :: ctx) (.node a el b hel)).toList.length ≤ fuel)
    (hsub : (a = .nil ∧ sub = b) ∨ (b = .nil ∧ sub = a)) {g : Frame Nat} {rest : List (Frame Nat)}
    (hg : spine ++ f :: ctx = g :: rest) :
    ∃ h' tree' t', Heap.takePlace fuel ((link h g sub.root).setParentOf sub.root (some g.elem)) tree
        f.elem el g.elem = some (h', tree') ∧ Sound h' tree' t' ∧
      t'.toList = before (spine ++ f.withElem el :: ctx) ++ sub.toList ++
        after (spine ++ f.withElem el :: ctx) := by
  obtain ⟨havl, hfits⟩ := avl_plug.mp hs.avl
  obtain ⟨hout, hin, hsep⟩ := nodup_plug.mp hs.nodup
  obtain ⟨hsubavl, hsubheight, hsubrep, hlist⟩ := only_child havl hs.rep_place hsub
  obtain ⟨helsub, hsubnodup⟩ := List.nodup_cons.mp (hlist.nodup_iff.mp hin)
  have helout : el ∉ outer (spine ++ f :: ctx) := hsep el (by simp [Tree.toList])
  have hunlinked := (hg ▸ hs.toHolds).replaceBy hsubrep hsubnodup fun z hz =>
    hlist.mem_iff.mpr (List.mem_cons_of_mem el hz)
  rw [← hg, plug_append, plug_cons, f.fill_eq] at hunlinked
  have helnot : el ∉ (plug ctx (.node (f.leftSide (plug spine sub)) f.elem
      (f.rightSide (plug spine sub)) f.height)).toList := by
    rw [← f.fill_eq, ← plug_cons, ← plug_append, toList_plug]
    simp only [outer, List.mem_append, not_or] at helout
    simp only [List.mem_append, not_or]
    exact ⟨⟨helout.1, helsub⟩, helout.2⟩
  obtain ⟨h₁, tree₁, htake, hholds⟩ := hunlinked.takePlace fuel g.elem helnot
  rw [← f.fill_withElem, ← plug_cons, ← plug_append] at hholds
  have hlen := length_le_plug (spine ++ f :: ctx) (.node a el b hel)
  rw [htake]
  cases spine with
  | nil =>
    obtain ⟨rfl, rfl⟩ := List.cons.inj hg
    rw [if_pos rfl]
    rw [List.nil_append] at hholds hfits hlen hfuel
    rw [List.length_cons] at hlen
    have hfits' : Fits (f.withElem el :: ctx) hel := (@fits_withElem ctx [] f el hel).mpr hfits
    obtain ⟨h', tree', hgo, hholds'⟩ := hholds.goUpRebalanceDel
      (show ctx.length < fuel by omega) hsubavl hsubheight hfits'
    rw [f.elem_withElem] at hgo
    exact ⟨h', tree', _, hgo, ⟨hholds', avl_climbDel hfits' hsubavl hsubheight⟩,
      toList_climbDel _ _⟩
  | cons g' spine =>
    obtain ⟨rfl, rfl⟩ := List.cons.inj hg
    have hne : g'.elem ≠ f.elem := by
      have hdis := (outer_append [g'] (spine ++ f :: ctx)).nodup_iff.mp hout
      refine fun heq => (List.nodup_append.mp hdis).2.2 _ (elem_mem_outer g' []) f.elem ?_ heq
      exact (outer_append _ _).mem_iff.mpr (List.mem_append_right _ (elem_mem_outer f ctx))
    rw [if_neg hne]
    have hfits' : Fits (g' :: (spine ++ f.withElem el :: ctx)) hel :=
      (@fits_withElem ctx (g' :: spine) f el hel).mpr hfits
    have hshort : (spine ++ f.withElem el :: ctx).length < fuel := by
      simp only [List.cons_append, List.length_cons, List.length_append] at hlen hfuel ⊢
      omega
    obtain ⟨h', tree', hgo, hholds'⟩ := hholds.goUpRebalanceDel hshort hsubavl hsubheight hfits'
    exact ⟨h', tree', _, hgo, ⟨hholds', avl_climbDel hfits' hsubavl hsubheight⟩,
      toList_climbDel _ _⟩

/-- `psync_tree_get_del` for a node with two children, the left one higher. -/
theorem Sound.getDel_left {l r : Tree Nat} {x y z : Nat} {ht : Int}
    (hs : Sound h tree (plug ctx (.node l x r ht)))
    (hfuel : (plug ctx (.node l x r ht)).toList.length ≤ fuel) (hly : l.root = some y)
    (hrz : r.root = some z) (hgt : l.height > r.height) :
    ∃ h' tree' t', h.getDel fuel tree x = some (h', tree') ∧ Sound h' tree' t' ∧
      t'.toList = before ctx ++ l.toList ++ (r.toList ++ after ctx) := by
  obtain ⟨hx, hrepl, hrepr⟩ := hs.rep_place
  obtain ⟨fr, spine, hspine⟩ : ∃ f rest, rightSpine l = f :: rest := by
    cases l with
    | nil => exact absurd hly (by simp)
    | node ll y' lr hy => exact List.exists_cons_of_ne_nil rightSpine_ne_nil
  obtain ⟨la, el, hel, rfl⟩ := @eq_right_of_mem_rightSpine l fr (by simp [hspine])
  have hl : l = plug spine (.node la el .nil hel) := by
    rw [← plug_rightSpine l, hspine]
    rfl
  have hplug : plug ctx (.node l x r ht) =
      plug (spine ++ .left x r ht :: ctx) (.node la el .nil hel) := by
    rw [plug_append, ← hl]
    rfl
  have hbefore := before_rightSpine l
  have hafter := after_rightSpine l
  rw [hspine] at hbefore hafter
  obtain ⟨g, rest, hg⟩ : ∃ g rest, spine ++ .left x r ht :: ctx = g :: rest :=
    List.exists_cons_of_ne_nil (by simp)
  have hs' := hplug ▸ hs
  have hnode : h el = ⟨la.root, none, some g.elem, hel⟩ := by
    have := hs'.rep_place.1
    rw [hg] at this
    exact this
  have hmost : h.rightmost fuel y = some el := by
    have hlen := length_le_plug ctx (.node l x r ht)
    simp only [Tree.toList, List.length_append, List.length_cons] at hlen
    rw [rightmost_rep hrepl hly (by omega), hspine]
    rfl
  have hheights : (h y).height > (h z).height := by
    have hy := hrepl.height
    have hz := hrepr.height
    rw [hly] at hy
    rw [hrz] at hz
    rw [Heap.height_some] at hy hz
    omega
  have hlink : (if el = y then h.setLeft x la.root else h.setRight g.elem la.root) =
      link h g la.root := by
    cases spine with
    | nil =>
      obtain ⟨rfl, -⟩ := List.cons.inj hg
      rw [hl] at hly
      rw [if_pos (Option.some.inj hly)]
      rfl
    | cons g' spine =>
      obtain ⟨rfl, -⟩ := List.cons.inj hg
      obtain ⟨l', w, hw, rfl⟩ := @eq_right_of_mem_rightSpine l g' (by simp [hspine])
      have hne : el ≠ y := by
        rintro rfl
        obtain ⟨v, hv, hroot⟩ := root_plug_cons (.right l' w hw) spine (.node la el .nil hel)
        rw [hl, hroot] at hly
        obtain rfl := Option.some.inj hly
        have hnodup : l.toList.Nodup := by
          have hin := (nodup_plug.mp hs.nodup).2.1
          rw [Tree.toList] at hin
          exact (List.nodup_append.mp hin).1
        rw [hl] at hnodup
        exact (nodup_plug.mp hnodup).2.2 v (by simp [Tree.toList]) hv
      rw [if_neg hne]
      rfl
  obtain ⟨h', tree', t', htake, hsound, hlist⟩ :=
    hs'.swapOut (hplug ▸ hfuel) (Or.inr ⟨rfl, (rfl : la = la)⟩) hg
  refine ⟨h', tree', t', ?_, hsound, ?_⟩
  · unfold Heap.getDel
    rw [hx, hly, hrz]
    simp only [if_pos hheights, hmost, Option.bind_eq_bind, Option.bind_some, hnode, hlink]
    exact htake
  · rw [hlist, before_append, after_append, ← hbefore]
    have hnil : after spine = [] := by simpa [after, Frame.after] using hafter
    simp [before, after, Frame.before, Frame.after, Frame.withElem, hnil]

/-- `psync_tree_get_del` for a node with two children, the left one not higher. -/
theorem Sound.getDel_right {l r : Tree Nat} {x y z : Nat} {ht : Int}
    (hs : Sound h tree (plug ctx (.node l x r ht)))
    (hfuel : (plug ctx (.node l x r ht)).toList.length ≤ fuel) (hly : l.root = some y)
    (hrz : r.root = some z) (hle : ¬ l.height > r.height) :
    ∃ h' tree' t', h.getDel fuel tree x = some (h', tree') ∧ Sound h' tree' t' ∧
      t'.toList = before ctx ++ l.toList ++ (r.toList ++ after ctx) := by
  obtain ⟨hx, hrepl, hrepr⟩ := hs.rep_place
  obtain ⟨fr, spine, hspine⟩ : ∃ f rest, leftSpine r = f :: rest := by
    cases r with
    | nil => exact absurd hrz (by simp)
    | node rl y' rr hy => exact List.exists_cons_of_ne_nil leftSpine_ne_nil
  obtain ⟨el, ra, hel, rfl⟩ := @eq_left_of_mem_leftSpine r fr (by simp [hspine])
  have hr : r = plug spine (.node .nil el ra hel) := by
    rw [← plug_leftSpine r, hspine]
    rfl
  have hplug : plug ctx (.node l x r ht) =
      plug (spine ++ .right l x ht :: ctx) (.node .nil el ra hel) := by
    rw [plug_append, ← hr]
    rfl
  have hbefore := before_leftSpine r
  have hafter := after_leftSpine r
  rw [hspine] at hbefore hafter
  obtain ⟨g, rest, hg⟩ : ∃ g rest, spine ++ .right l x ht :: ctx = g :: rest :=
    List.exists_cons_of_ne_nil (by simp)
  have hs' := hplug ▸ hs
  have hnode : h el = ⟨none, ra.root, some g.elem, hel⟩ := by
    have := hs'.rep_place.1
    rw [hg] at this
    exact this
  have hmost : h.leftmost fuel z = some el := by
    have hlen := length_le_plug ctx (.node l x r ht)
    simp only [Tree.toList, List.length_append, List.length_cons] at hlen
    rw [leftmost_rep hrepr hrz (by omega), hspine]
    rfl
  have hheights : ¬ (h y).height > (h z).height := by
    have hy := hrepl.height
    have hz := hrepr.height
    rw [hly] at hy
    rw [hrz] at hz
    rw [Heap.height_some] at hy hz
    omega
  have hlink : (if el = z then h.setRight x ra.root else h.setLeft g.elem ra.root) =
      link h g ra.root := by
    cases spine with
    | nil =>
      obtain ⟨rfl, -⟩ := List.cons.inj hg
      rw [hr] at hrz
      rw [if_pos (Option.some.inj hrz)]
      rfl
    | cons g' spine =>
      obtain ⟨rfl, -⟩ := List.cons.inj hg
      obtain ⟨w, r', hw, rfl⟩ := @eq_left_of_mem_leftSpine r g' (by simp [hspine])
      have hne : el ≠ z := by
        rintro rfl
        obtain ⟨v, hv, hroot⟩ := root_plug_cons (.left w r' hw) spine (.node .nil el ra hel)
        rw [hr, hroot] at hrz
        obtain rfl := Option.some.inj hrz
        have hnodup : r.toList.Nodup := by
          have hin := (nodup_plug.mp hs.nodup).2.1
          rw [Tree.toList] at hin
          exact (List.nodup_cons.mp (List.nodup_append.mp hin).2.1).2
        rw [hr] at hnodup
        exact (nodup_plug.mp hnodup).2.2 v (by simp [Tree.toList]) hv
      rw [if_neg hne]
      rfl
  obtain ⟨h', tree', t', htake, hsound, hlist⟩ :=
    hs'.swapOut (hplug ▸ hfuel) (Or.inl ⟨rfl, (rfl : ra = ra)⟩) hg
  refine ⟨h', tree', t', ?_, hsound, ?_⟩
  · unfold Heap.getDel
    rw [hx, hly, hrz]
    simp only [if_neg hheights, hmost, Option.bind_eq_bind, Option.bind_some, hnode, hlink]
    exact htake
  · rw [hlist, before_append, after_append, ← hafter]
    have hnil : before spine = [] := by simpa [before, Frame.before] using hbefore
    simp [before, after, Frame.before, Frame.after, Frame.withElem, hnil]

/-- `psync_tree_get_del` takes the node out of the tree. -/
theorem Sound.getDel {l r : Tree Nat} {x : Nat} {ht : Int}
    (hs : Sound h tree (plug ctx (.node l x r ht)))
    (hfuel : (plug ctx (.node l x r ht)).toList.length ≤ fuel) :
    ∃ h' tree' t', h.getDel fuel tree x = some (h', tree') ∧ Sound h' tree' t' ∧
      t'.toList = before ctx ++ l.toList ++ (r.toList ++ after ctx) := by
  have hx : h x = ⟨l.root, r.root, top ctx, ht⟩ := hs.rep_place.1
  cases hl : l with
  | nil =>
    subst hl
    obtain ⟨h', tree', t', hrepl, hsound, hlist⟩ :=
      hs.replaceMeWith hfuel (Or.inl ⟨rfl, (rfl : r = r)⟩)
    refine ⟨h', tree', t', ?_, hsound, by rw [hlist]; simp [Tree.toList]⟩
    unfold Heap.getDel
    rw [hx]
    cases r with
    | nil => exact hrepl
    | node rl z rr hz => exact hrepl
  | node ll y lr hy =>
    cases hr : r with
    | nil =>
      subst hr
      obtain ⟨h', tree', t', hrepl, hsound, hlist⟩ :=
        hs.replaceMeWith hfuel (Or.inr ⟨rfl, (rfl : l = l)⟩)
      refine ⟨h', tree', t', ?_, hsound, by rw [hlist, hl]; simp [Tree.toList]⟩
      unfold Heap.getDel
      rw [hx]
      rw [hl] at hrepl ⊢
      exact hrepl
    | node rl z rr hz =>
      rw [← hl, ← hr]
      have hly : l.root = some y := by rw [hl]; rfl
      have hrz : r.root = some z := by rw [hr]; rfl
      by_cases hgt : l.height > r.height
      · exact hs.getDel_left hfuel hly hrz hgt
      · exact hs.getDel_right hfuel hly hrz hgt

end

end PcloudClient.Ptree
