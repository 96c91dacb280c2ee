/-
  Ptree/Traversal.lean --- going through a tree in memory (`ptree.h`, lines 72-153).

  `psync_tree_get_next` and `psync_tree_get_prev` go through the elements in their order,
  and the safe traversal goes through them children first.
-/
import PcloudClient.Ptree.Operations

set_option autoImplicit false

namespace PcloudClient.Ptree

section

variable {h : Heap} {tree p : Ptr} {ctx : List (Frame Nat)} {t l r : Tree Nat} {x : Nat} {ht : Int}
  {fuel : Nat}

theorem top_leftSpine (t : Tree Nat) : top (leftSpine t) = t.toList.head? := by
  rw [← after_leftSpine t]
  cases hspine : leftSpine t with
  | nil => rfl
  | cons f rest =>
    obtain ⟨y, r, hy, rfl⟩ := @eq_left_of_mem_leftSpine t f (by simp [hspine])
    rfl

theorem top_rightSpine (t : Tree Nat) : top (rightSpine t) = t.toList.getLast? := by
  rw [← before_rightSpine t]
  cases hspine : rightSpine t with
  | nil => rfl
  | cons f rest =>
    obtain ⟨l, y, hy, rfl⟩ := @eq_right_of_mem_rightSpine t f (by simp [hspine])
    simp [before, Frame.before, top, Frame.elem]

theorem Holds.getFirst_eq (hh : Holds h tree t) (hfuel : t.toList.length ≤ fuel) :
    h.getFirst fuel tree = some t.toList.head? := by
  unfold Heap.getFirst
  rw [hh.root]
  cases hroot : t.root with
  | none =>
    cases t with
    | nil => rfl
    | node l x r ht => exact absurd hroot (by simp)
  | some x =>
    have hmost := leftmost_rep hh.rep hroot hfuel
    rw [top_leftSpine] at hmost
    simp only [hmost]
    cases hhead : t.toList.head? with
    | none =>
      have hnil := List.head?_eq_none_iff.mp hhead
      exact absurd (Tree.mem_of_root hroot) (by simp [hnil])
    | some y => rfl

theorem Holds.getLast_eq (hh : Holds h tree t) (hfuel : t.toList.length ≤ fuel) :
    h.getLast fuel tree = some t.toList.getLast? := by
  unfold Heap.getLast
  rw [hh.root]
  cases hroot : t.root with
  | none =>
    cases t with
    | nil => rfl
    | node l x r ht => exact absurd hroot (by simp)
  | some x =>
    have hmost := rightmost_rep hh.rep hroot hfuel
    rw [top_rightSpine] at hmost
    simp only [hmost]
    cases hlast : t.toList.getLast? with
    | none =>
      have hnil := List.getLast?_eq_none_iff.mp hlast
      exact absurd (Tree.mem_of_root hroot) (by simp [hnil])
    | some y => rfl

/-! ## The next and the previous node -/

/-- The walk up to the first node that is reached from the left. -/
theorem upFromRight_eq (hctx : RepCtx h ctx (some x)) (hparent : (h x).parent = top ctx)
    (hnodup : (outer ctx).Nodup) (hx : x ∉ outer ctx) (hfuel : ctx.length < fuel) :
    ∃ e, h.upFromRight fuel x = some e ∧ (h e).parent = (after ctx).head? := by
  induction ctx generalizing x fuel with
  | nil =>
    obtain ⟨fuel, rfl⟩ : ∃ n, fuel = n + 1 := ⟨fuel - 1, by omega⟩
    refine ⟨x, ?_, hparent⟩
    rw [Heap.upFromRight, hparent]
    rfl
  | cons f ctx ih =>
    obtain ⟨fuel, rfl⟩ : ∃ n, fuel = n + 1 := ⟨fuel - 1, by omega⟩
    rw [List.length_cons] at hfuel
    cases f with
    | left z r hz =>
      have hzn : h z = ⟨some x, r.root, top ctx, hz⟩ := hctx.1
      have hne : r.root ≠ some x := by
        refine root_ne_of_notMem fun hxr => hx ?_
        simp [outer, after, Frame.after, hxr]
      refine ⟨x, ?_, hparent⟩
      rw [Heap.upFromRight, hparent]
      simp [top, Frame.elem, hzn, hne]
    | right l z hz =>
      have hzn : h z = ⟨l.root, some x, top ctx, hz⟩ := hctx.1
      have hdis := (outer_append [.right l z hz] ctx).nodup_iff.mp hnodup
      obtain ⟨-, hrest, hsep⟩ := List.nodup_append.mp hdis
      have hzout : z ∉ outer ctx := fun hmem =>
        hsep z (elem_mem_outer (.right l z hz) []) z hmem rfl
      obtain ⟨e, hup, he⟩ := ih hctx.2.2 (by rw [hzn]) hrest hzout
        (show ctx.length < fuel by omega)
      refine ⟨e, ?_, by rw [he]; rfl⟩
      rw [Heap.upFromRight, hparent]
      simp [top, Frame.elem, hzn, hup]

/-- The walk up to the first node that is reached from the right. -/
theorem upFromLeft_eq (hctx : RepCtx h ctx (some x)) (hparent : (h x).parent = top ctx)
    (hnodup : (outer ctx).Nodup) (hx : x ∉ outer ctx) (hfuel : ctx.length < fuel) :
    ∃ e, h.upFromLeft fuel x = some e ∧ (h e).parent = (before ctx).getLast? := by
  induction ctx generalizing x fuel with
  | nil =>
    obtain ⟨fuel, rfl⟩ : ∃ n, fuel = n + 1 := ⟨fuel - 1, by omega⟩
    refine ⟨x, ?_, hparent⟩
    rw [Heap.upFromLeft, hparent]
    rfl
  | cons f ctx ih =>
    obtain ⟨fuel, rfl⟩ : ∃ n, fuel = n + 1 := ⟨fuel - 1, by omega⟩
    rw [List.length_cons] at hfuel
    cases f with
    | left z r hz =>
      have hzn : h z = ⟨some x, r.root, top ctx, hz⟩ := hctx.1
      have hdis := (outer_append [.left z r hz] ctx).nodup_iff.mp hnodup
      obtain ⟨-, hrest, hsep⟩ := List.nodup_append.mp hdis
      have hzout : z ∉ outer ctx := fun hmem =>
        hsep z (elem_mem_outer (.left z r hz) []) z hmem rfl
      obtain ⟨e, hup, he⟩ := ih hctx.2.2 (by rw [hzn]) hrest hzout
        (show ctx.length < fuel by omega)
      refine ⟨e, ?_, by rw [he]; simp [before, Frame.before]⟩
      rw [Heap.upFromLeft, hparent]
      simp [top, Frame.elem, hzn, hup]
    | right l z hz =>
      have hzn : h z = ⟨l.root, some x, top ctx, hz⟩ := hctx.1
      have hne : l.root ≠ some x := by
        refine root_ne_of_notMem fun hxl => hx ?_
        simp [outer, before, Frame.before, hxl]
      refine ⟨x, ?_, ?_⟩
      · rw [Heap.upFromLeft, hparent]
        simp [top, Frame.elem, hzn, hne]
      · rw [hparent]
        simp [before, Frame.before, top, Frame.elem]

theorem Holds.getNext_eq (hh : Holds h tree (plug ctx (.node l x r ht)))
    (hfuel : (plug ctx (.node l x r ht)).toList.length ≤ fuel) :
    h.getNext fuel x = some (r.toList ++ after ctx).head? := by
  obtain ⟨hx, -, hrepr⟩ := hh.rep_place
  obtain ⟨hout, -, hsep⟩ := nodup_plug.mp hh.nodup
  have hlen := length_le_plug ctx (.node l x r ht)
  simp only [Tree.toList, List.length_append, List.length_cons] at hlen
  unfold Heap.getNext
  cases hr : r with
  | nil =>
    subst hr
    obtain ⟨e, hup, he⟩ := upFromRight_eq hh.rep_ctx (by rw [hx]) hout
      (hsep x (by simp [Tree.toList])) (show ctx.length < fuel by omega)
    simp [hx, hup, he, Tree.toList]
  | node rl y rr hy =>
    rw [← hr]
    have hroot : r.root = some y := by rw [hr]; rfl
    have hmost := leftmost_rep hrepr hroot (show r.toList.length ≤ fuel by omega)
    rw [top_leftSpine] at hmost
    cases hhead : r.toList with
    | nil => exact absurd (Tree.mem_of_root hroot) (by simp [hhead])
    | cons z rest =>
      rw [hhead] at hmost
      simp [hx, hroot, hmost]

theorem Holds.getPrev_eq (hh : Holds h tree (plug ctx (.node l x r ht)))
    (hfuel : (plug ctx (.node l x r ht)).toList.length ≤ fuel) :
    h.getPrev fuel x = some (before ctx ++ l.toList).getLast? := by
  obtain ⟨hx, hrepl, -⟩ := hh.rep_place
  obtain ⟨hout, -, hsep⟩ := nodup_plug.mp hh.nodup
  have hlen := length_le_plug ctx (.node l x r ht)
  simp only [Tree.toList, List.length_append, List.length_cons] at hlen
  unfold Heap.getPrev
  cases hl : l with
  | nil =>
    subst hl
    obtain ⟨e, hup, he⟩ := upFromLeft_eq hh.rep_ctx (by rw [hx]) hout
      (hsep x (by simp [Tree.toList])) (show ctx.length < fuel by omega)
    simp [hx, hup, he, Tree.toList]
  | node ll y lr hy =>
    rw [← hl]
    have hroot : l.root = some y := by rw [hl]; rfl
    have hmost := rightmost_rep hrepl hroot (show l.toList.length ≤ fuel by omega)
    rw [top_rightSpine] at hmost
    cases hlast : l.toList.getLast? with
    | none =>
      have hnil := List.getLast?_eq_none_iff.mp hlast
      exact absurd (Tree.mem_of_root hroot) (by simp [hnil])
    | some z =>
      rw [hlast] at hmost
      simp [hx, hroot, hmost, List.getLast?_append, hlast]

/-! ## Children first -/

/-- The elements in the order of the safe traversal. -/
def Tree.postorder : Tree Nat → List Nat
  | .nil => []
  | .node l x r _ => l.postorder ++ r.postorder ++ [x]

/-- The elements of the safe traversal behind those of a place. -/
def afterSafe : List (Frame Nat) → List Nat
  | [] => []
  | .left x r _ :: ctx => r.postorder ++ x :: afterSafe ctx
  | .right _ x _ :: ctx => x :: afterSafe ctx

/-- The elements of the safe traversal before those of a place. -/
def beforeSafe : List (Frame Nat) → List Nat
  | [] => []
  | .left _ _ _ :: ctx => beforeSafe ctx
  | .right l _ _ :: ctx => beforeSafe ctx ++ l.postorder

theorem postorder_plug (ctx : List (Frame Nat)) (t : Tree Nat) :
    (plug ctx t).postorder = beforeSafe ctx ++ t.postorder ++ afterSafe ctx := by
  induction ctx generalizing t with
  | nil => simp [beforeSafe, afterSafe]
  | cons f ctx ih =>
    rw [plug_cons, ih]
    cases f <;> simp [Frame.fill, Tree.postorder, beforeSafe, afterSafe]

theorem postorder_perm (t : Tree Nat) : t.postorder.Perm t.toList := by
  induction t with
  | nil => exact List.Perm.refl _
  | node l x r ht ihl ihr =>
    rw [Tree.postorder, Tree.toList, List.append_assoc]
    refine ihl.append ?_
    exact (ihr.append_right _).trans (List.perm_append_singleton x r.toList)

theorem Tree.eq_nil_of_root (hroot : t.root = none) : t = .nil := by
  cases t with
  | nil => rfl
  | node l x r ht => exact absurd hroot (by simp)

theorem postorder_ne_nil (hroot : t.root = some x) : t.postorder ≠ [] := by
  intro hnil
  have hmem := (postorder_perm t).mem_iff.mpr (Tree.mem_of_root hroot)
  rw [hnil] at hmem
  exact absurd hmem (by simp)

theorem deepest_rep (hrep : Rep h p t) (hroot : t.root = some x)
    (hfuel : t.toList.length ≤ fuel) : h.deepest fuel x = t.postorder.head? := by
  induction t generalizing p x fuel with
  | nil => exact absurd hroot (by simp)
  | node l y r ht ihl ihr =>
    obtain rfl := Option.some.inj hroot
    obtain ⟨hx, hl, hr⟩ := hrep
    simp only [Tree.toList, List.length_append, List.length_cons] at hfuel
    obtain ⟨fuel, rfl⟩ : ∃ n, fuel = n + 1 := ⟨fuel - 1, by omega⟩
    rw [Heap.deepest, hx, Tree.postorder]
    cases hlr : l.root with
    | some z =>
      have hdeep := ihl hl hlr (show l.toList.length ≤ fuel by omega)
      simp only [hdeep]
      rw [List.append_assoc, List.head?_append_of_ne_nil _ (postorder_ne_nil hlr)]
    | none =>
      obtain rfl := Tree.eq_nil_of_root hlr
      cases hrr : r.root with
      | some z =>
        have hdeep := ihr hr hrr (show r.toList.length ≤ fuel by omega)
        simp only [hdeep]
        rw [Tree.postorder, List.nil_append, List.head?_append_of_ne_nil _ (postorder_ne_nil hrr)]
      | none =>
        obtain rfl := Tree.eq_nil_of_root hrr
        rfl

theorem Holds.getFirstSafe_eq (hh : Holds h tree t) (hfuel : t.toList.length ≤ fuel) :
    h.getFirstSafe fuel tree = some t.postorder.head? := by
  unfold Heap.getFirstSafe
  rw [hh.root]
  cases hroot : t.root with
  | none =>
    obtain rfl := Tree.eq_nil_of_root hroot
    rfl
  | some x =>
    have hdeep := deepest_rep hh.rep hroot hfuel
    cases hpost : t.postorder with
    | nil => exact absurd hpost (postorder_ne_nil hroot)
    | cons y rest => simp [hdeep, hpost]

theorem Holds.getNextSafe_eq (hh : Holds h tree (plug ctx (.node l x r ht)))
    (hfuel : (plug ctx (.node l x r ht)).toList.length ≤ fuel) :
    h.getNextSafe fuel x = some (afterSafe ctx).head? := by
  have hx : h x = ⟨l.root, r.root, top ctx, ht⟩ := hh.rep_place.1
  obtain ⟨-, -, hsep⟩ := nodup_plug.mp hh.nodup
  unfold Heap.getNextSafe
  rw [hx]
  cases ctx with
  | nil => rfl
  | cons f ctx =>
    cases f with
    | left z r' hz =>
      obtain ⟨hzn, hrepr, -⟩ := hh.rep_ctx
      simp only [top, Frame.elem, hzn]
      cases hroot : r'.root with
      | none =>
        obtain rfl := Tree.eq_nil_of_root hroot
        rfl
      | some w =>
        have hne : w ≠ x := by
          rintro rfl
          refine hsep w (by simp [Tree.toList]) ?_
          simp [outer, after, Frame.after, Tree.mem_of_root hroot]
        have hshort : r'.toList.length ≤ fuel := by
          rw [toList_plug] at hfuel
          simp only [before, after, Frame.after, List.length_append, List.length_cons] at hfuel
          omega
        simp only [if_neg hne, deepest_rep hrepr hroot hshort, afterSafe]
        rw [List.head?_append_of_ne_nil _ (postorder_ne_nil hroot)]
        cases hpost : r'.postorder with
        | nil => exact absurd hpost (postorder_ne_nil hroot)
        | cons y rest => rfl
    | right l' z hz =>
      have hzn : h z = ⟨l'.root, some x, top ctx, hz⟩ := hh.rep_ctx.1
      simp [top, Frame.elem, hzn, afterSafe]

/-! ## Whole traversals -/

/-- A walk along a list whose steps are right comes through all of it. -/
theorem walk_eq {next : Nat → Option Ptr} {l : List Nat}
    (hnext : ∀ a x b, l = a ++ x :: b → next x = some b.head?) {n : Nat} (hn : l.length ≤ n) :
    Heap.walk next n l.head? = some l := by
  suffices hall : ∀ a b, l = a ++ b → ∀ n, b.length ≤ n → Heap.walk next n b.head? = some b from
    hall [] l rfl n hn
  intro a b
  induction b generalizing a with
  | nil => intro _ n _; cases n <;> rfl
  | cons x b ih =>
    intro hl n hn
    obtain ⟨n, rfl⟩ : ∃ m, n = m + 1 := ⟨n - 1, by simp at hn; omega⟩
    have hrest := ih (a ++ [x]) (by simpa using hl) n (by simpa using hn)
    simp [Heap.walk, hnext a x b hl, hrest]

/-- The place of an element of the list. -/
theorem place_of_split {a b : List Nat} (hnodup : t.toList.Nodup)
    (hsplit : t.toList = a ++ x :: b) :
    ∃ ctx l r ht, t = plug ctx (.node l x r ht) ∧ a = before ctx ++ l.toList ∧
      b = r.toList ++ after ctx := by
  obtain ⟨ctx, l, r, ht, rfl⟩ := exists_plug_of_mem (show x ∈ t.toList by rw [hsplit]; simp)
  refine ⟨ctx, l, r, ht, rfl, ?_⟩
  have hlist : (plug ctx (.node l x r ht)).toList =
      (before ctx ++ l.toList) ++ x :: (r.toList ++ after ctx) := by
    simp [toList_plug, Tree.toList]
  rw [hsplit] at hnodup
  rw [hlist] at hsplit
  rw [List.nodup_middle, List.nodup_cons, List.mem_append, not_or] at hnodup
  obtain ⟨hpre, -, hpost⟩ :=
    (List.append_cons_inj_of_notMem hnodup.1.1 hnodup.1.2).mp hsplit.symm
  exact ⟨hpre, hpost⟩

/-- The traversal from the first node on. -/
theorem Holds.walk_next (hh : Holds h tree t) (hfuel : t.toList.length ≤ fuel) :
    (h.getFirst fuel tree).bind (Heap.walk (h.getNext fuel) fuel) = some t.toList := by
  rw [hh.getFirst_eq hfuel]
  refine walk_eq (fun a x b hsplit => ?_) hfuel
  obtain ⟨ctx, l, r, ht, rfl, -, rfl⟩ := place_of_split hh.nodup hsplit
  exact hh.getNext_eq hfuel

/-- The traversal from the last node back. -/
theorem Holds.walk_prev (hh : Holds h tree t) (hfuel : t.toList.length ≤ fuel) :
    (h.getLast fuel tree).bind (Heap.walk (h.getPrev fuel) fuel) = some t.toList.reverse := by
  rw [hh.getLast_eq hfuel, ← List.head?_reverse]
  refine walk_eq (fun a x b hsplit => ?_) (by simpa using hfuel)
  have hsplit' : t.toList = b.reverse ++ x :: a.reverse := by
    rw [← List.reverse_reverse t.toList, hsplit]
    simp
  obtain ⟨ctx, l, r, ht, rfl, hb, -⟩ := place_of_split hh.nodup hsplit'
  rw [hh.getPrev_eq hfuel, ← hb, List.getLast?_reverse]

/-- The safe traversal. -/
theorem Holds.walk_safe (hh : Holds h tree t) (hfuel : t.toList.length ≤ fuel) :
    (h.getFirstSafe fuel tree).bind (Heap.walk (h.getNextSafe fuel) fuel) = some t.postorder := by
  rw [hh.getFirstSafe_eq hfuel]
  refine walk_eq (fun a x b hsplit => ?_) ((postorder_perm t).length_eq ▸ hfuel)
  have hmem : x ∈ t.toList := (postorder_perm t).mem_iff.mp (by rw [hsplit]; simp)
  obtain ⟨ctx, l, r, ht, rfl⟩ := exists_plug_of_mem hmem
  have hnodup := (postorder_perm _).nodup_iff.mpr hh.nodup
  have hlist : (plug ctx (.node l x r ht)).postorder =
      (beforeSafe ctx ++ l.postorder ++ r.postorder) ++ x :: afterSafe ctx := by
    simp [postorder_plug, Tree.postorder]
  rw [hsplit] at hnodup
  rw [hlist] at hsplit
  rw [List.nodup_middle, List.nodup_cons, List.mem_append, not_or] at hnodup
  obtain ⟨-, -, rfl⟩ := (List.append_cons_inj_of_notMem hnodup.1.1 hnodup.1.2).mp hsplit.symm
  exact hh.getNextSafe_eq hfuel

/-- The safe traversal visits a node behind its children. -/
theorem Holds.child_before (hh : Holds h tree t) {c : Nat} (hx : x ∈ t.toList)
    (hchild : (h x).left = some c ∨ (h x).right = some c) : [c, x].Sublist t.postorder := by
  obtain ⟨ctx, l, r, ht, rfl⟩ := exists_plug_of_mem hx
  have hnode : h x = ⟨l.root, r.root, top ctx, ht⟩ := hh.rep_place.1
  rw [hnode] at hchild
  have hmem : c ∈ beforeSafe ctx ++ l.postorder ++ r.postorder := by
    rcases hchild with hroot | hroot
    · have hc := (postorder_perm l).mem_iff.mpr (Tree.mem_of_root hroot)
      simp [hc]
    · have hc := (postorder_perm r).mem_iff.mpr (Tree.mem_of_root hroot)
      simp [hc]
  have hlist : (plug ctx (.node l x r ht)).postorder =
      (beforeSafe ctx ++ l.postorder ++ r.postorder) ++ x :: afterSafe ctx := by
    simp [postorder_plug, Tree.postorder]
  rw [hlist]
  exact (List.singleton_sublist.mpr hmem).append (List.singleton_sublist.mpr (by simp))

end

end PcloudClient.Ptree
