/-
  Ptree/Zipper.lean --- walking up a tree.

  A place in a tree is the subtree there and the frames above it, the innermost first.
  `psync_tree_go_up_rebalance_add` and `psync_tree_go_up_rebalance_del` are walks along
  the frames.  They keep the order of the elements, and they leave a tree balanced that was
  so before its subtree grew or shrank by one.
-/
import PcloudClient.Ptree.Tree

set_option autoImplicit false

namespace PcloudClient.Ptree

/-- A node above a place, which is its left or its right child. -/
inductive Frame (α : Type) where
  | left (elem : α) (right : Tree α) (height : Int)
  | right (left : Tree α) (elem : α) (height : Int)
  deriving Repr

variable {α : Type}

namespace Frame

/-- The node with a subtree in the place. -/
def fill (t : Tree α) : Frame α → Tree α
  | left x r h => .node t x r h
  | right l x h => .node l x t h

def elem : Frame α → α
  | left x _ _ => x
  | right _ x _ => x

def height : Frame α → Int
  | left _ _ h => h
  | right _ _ h => h

/-- The left side of the node with a subtree in the place. -/
def leftSide (t : Tree α) : Frame α → Tree α
  | left _ _ _ => t
  | right l _ _ => l

/-- The right side of the node with a subtree in the place. -/
def rightSide (t : Tree α) : Frame α → Tree α
  | left _ r _ => r
  | right _ _ _ => t

theorem fill_eq (t : Tree α) (f : Frame α) :
    f.fill t = .node (f.leftSide t) f.elem (f.rightSide t) f.height := by
  cases f <;> rfl

/-- A change of the node. -/
def apply (f : Tree α → α → Tree α → Int → Tree α × Bool) (t : Tree α) (frame : Frame α) :
    Tree α × Bool :=
  f (frame.leftSide t) frame.elem (frame.rightSide t) frame.height

/-- The elements of the frame before the place. -/
def before : Frame α → List α
  | left _ _ _ => []
  | right l x _ => l.toList ++ [x]

/-- The elements of the frame behind the place. -/
def after : Frame α → List α
  | left x r _ => x :: r.toList
  | right _ _ _ => []

theorem toList_fill (f : Frame α) (t : Tree α) :
    (f.fill t).toList = f.before ++ t.toList ++ f.after := by
  cases f with
  | left x r h => simp [fill, before, after, Tree.toList]
  | right l x h => simp [fill, before, after, Tree.toList]

end Frame

/-- The whole tree. -/
def plug : List (Frame α) → Tree α → Tree α
  | [], t => t
  | f :: ctx, t => plug ctx (f.fill t)

@[simp] theorem plug_nil (t : Tree α) : plug [] t = t := rfl

@[simp] theorem plug_cons (f : Frame α) (ctx : List (Frame α)) (t : Tree α) :
    plug (f :: ctx) t = plug ctx (f.fill t) := rfl

theorem plug_append (c d : List (Frame α)) (t : Tree α) :
    plug (c ++ d) t = plug d (plug c t) := by
  induction c generalizing t with
  | nil => rfl
  | cons f c ih => exact ih (f.fill t)

/-- The elements before a place. -/
def before : List (Frame α) → List α
  | [] => []
  | f :: ctx => before ctx ++ f.before

/-- The elements behind a place. -/
def after : List (Frame α) → List α
  | [] => []
  | f :: ctx => f.after ++ after ctx

theorem toList_plug (ctx : List (Frame α)) (t : Tree α) :
    (plug ctx t).toList = before ctx ++ t.toList ++ after ctx := by
  induction ctx generalizing t with
  | nil => simp [before, after]
  | cons f ctx ih =>
    rw [plug_cons, ih, f.toList_fill]
    simp [before, after]

/-- Every element has its place. -/
theorem exists_plug_of_mem {t : Tree α} {x : α} (h : x ∈ t.toList) :
    ∃ ctx l r ht, t = plug ctx (.node l x r ht) := by
  suffices hall : ∀ (t : Tree α), x ∈ t.toList → ∀ outer, ∃ ctx l r ht,
      plug outer t = plug ctx (.node l x r ht) from hall t h []
  intro t
  induction t with
  | nil => intro h; exact absurd h (by simp [Tree.toList])
  | node l y r ht ihl ihr =>
    intro h outer
    rw [Tree.toList, List.mem_append, List.mem_cons] at h
    rcases h with h | rfl | h
    · exact ihl h (.left y r ht :: outer)
    · exact ⟨outer, l, r, ht, rfl⟩
    · exact ihr h (.right l y ht :: outer)

/-! ## Walks -/

/-- A walk up from a changed subtree; the flag says whether it goes on. -/
def climb (f : Tree α → α → Tree α → Int → Tree α × Bool) :
    List (Frame α) → Tree α × Bool → Tree α
  | ctx, (t, false) => plug ctx t
  | [], (t, true) => t
  | frame :: ctx, (t, true) => climb f ctx (frame.apply f t)

/-- `psync_tree_go_up_rebalance_add` from below the first frame. -/
def climbAdd : List (Frame α) → Tree α × Bool → Tree α := climb Tree.rebalanceAdd

/-- `psync_tree_go_up_rebalance_del` from below the first frame. -/
def climbDel : List (Frame α) → Tree α × Bool → Tree α := climb Tree.rebalanceDel

theorem climb_false (f : Tree α → α → Tree α → Int → Tree α × Bool) (ctx : List (Frame α))
    (t : Tree α) : climb f ctx (t, false) = plug ctx t := by
  cases ctx <;> rfl

theorem toList_climb {f : Tree α → α → Tree α → Int → Tree α × Bool}
    (hf : ∀ l x r h, (f l x r h).1.toList = l.toList ++ x :: r.toList)
    (ctx : List (Frame α)) (t : Tree α × Bool) :
    (climb f ctx t).toList = before ctx ++ t.1.toList ++ after ctx := by
  induction ctx generalizing t with
  | nil =>
    obtain ⟨t, flag⟩ := t
    cases flag <;> simp [climb, before, after]
  | cons frame ctx ih =>
    obtain ⟨t, flag⟩ := t
    cases flag with
    | false => exact toList_plug (frame :: ctx) t
    | true =>
      have happly : (frame.apply f t).1.toList = frame.before ++ t.toList ++ frame.after := by
        rw [← frame.toList_fill, frame.fill_eq, Frame.apply, hf, Tree.toList]
      rw [climb, ih, happly]
      simp [before, after]

theorem toList_climbAdd (ctx : List (Frame α)) (t : Tree α × Bool) :
    (climbAdd ctx t).toList = before ctx ++ t.1.toList ++ after ctx :=
  toList_climb Tree.toList_rebalanceAdd ctx t

theorem toList_climbDel (ctx : List (Frame α)) (t : Tree α × Bool) :
    (climbDel ctx t).toList = before ctx ++ t.1.toList ++ after ctx :=
  toList_climb Tree.toList_rebalanceDel ctx t

/-! ## Balance -/

namespace Tree

@[simp] theorem height_node (l : Tree α) (x : α) (r : Tree α) (h : Int) :
    (node l x r h).height = h := rfl

@[simp] theorem height_recalc (l : Tree α) (x : α) (r : Tree α) :
    (recalc l x r).height = max l.height r.height + 1 := rfl

/-- A rotation for a left side that is too high. -/
theorem rotate_left_eq {ll lr r : Tree α} (y x : α) (hy h : Int) (hd : hy - r.height = 2) :
    rotate (node ll y lr hy) x r h =
      rotateRight (node (if lr.height > ll.height then rotateLeft (node ll y lr hy)
        else node ll y lr hy) x r h) :=
  if_pos hd

/-- A rotation for a right side that is too high. -/
theorem rotate_right_eq {l rl rr : Tree α} (y x : α) (hy h : Int) (hd : ¬ l.height - hy = 2) :
    rotate l x (node rl y rr hy) h =
      rotateLeft (node l x (if rl.height > rr.height then rotateRight (node rl y rr hy)
        else node rl y rr hy) h) :=
  if_neg hd

/-- The stored heights are the heights, and those of two siblings differ by at most one. -/
def Avl : Tree α → Prop
  | nil => True
  | node l _ r h => l.Avl ∧ r.Avl ∧ h = max l.height r.height + 1 ∧
      l.height - r.height ≤ 1 ∧ r.height - l.height ≤ 1

/-- The number of nodes on the longest way down. -/
def depth : Tree α → Nat
  | nil => 0
  | node l _ r _ => max l.depth r.depth + 1

theorem Avl.height_eq {t : Tree α} (h : t.Avl) : t.height = t.depth := by
  induction t with
  | nil => rfl
  | node l x r ht ihl ihr =>
    obtain ⟨hl, hr, hheight, -, -⟩ := h
    have hl := ihl hl
    have hr := ihr hr
    simp only [height, depth]
    omega

theorem Avl.height_nonneg {t : Tree α} (h : t.Avl) : 0 ≤ t.height := by
  rw [h.height_eq]
  omega

theorem Avl.exists_node {t : Tree α} (h : t.Avl) (hpos : 0 < t.height) :
    ∃ l x r ht, t = node l x r ht := by
  cases t with
  | nil => exact absurd hpos (by simp [height])
  | node l x r ht => exact ⟨l, x, r, ht, rfl⟩

theorem avl_recalc {l r : Tree α} (x : α) (hl : l.Avl) (hr : r.Avl)
    (hlr : l.height - r.height ≤ 1) (hrl : r.height - l.height ≤ 1) : (recalc l x r).Avl :=
  ⟨hl, hr, rfl, hlr, hrl⟩

/-- A left side too high by two is brought down.  The height of the node goes down with it
unless both of the left side's children are as high. -/
theorem avl_rotate_left {l r : Tree α} (x : α) (h : Int) (hl : l.Avl) (hr : r.Avl)
    (hd : l.height = r.height + 2) :
    (rotate l x r h).Avl ∧
      (rotate l x r h).height =
        if l.left.height = l.right.height then l.height + 1 else l.height := by
  have hrn := hr.height_nonneg
  obtain ⟨ll, y, lr, hy, rfl⟩ := hl.exists_node (by omega)
  obtain ⟨hll, hlr, hheight, h₁, h₂⟩ := hl
  rw [height_node] at hd
  rw [rotate_left_eq _ _ _ _ (by omega)]
  by_cases hgt : lr.height > ll.height
  · have hlln := hll.height_nonneg
    rw [if_pos hgt]
    obtain ⟨lrl, z, lrr, hz, rfl⟩ := hlr.exists_node (by omega)
    obtain ⟨hlrl, hlrr, hheight', h₃, h₄⟩ := hlr
    rw [height_node] at hheight hgt h₁ h₂
    have hzh : hz = r.height + 1 := by omega
    have hleft : (recalc ll y lrl).Avl := avl_recalc y hll hlrl (by omega) (by omega)
    have hright : (recalc lrr x r).Avl := avl_recalc x hlrr hr (by omega) (by omega)
    refine ⟨avl_recalc z hleft hright ?_ ?_, ?_⟩
    · rw [height_recalc, height_recalc]
      omega
    · rw [height_recalc, height_recalc]
      omega
    · show (recalc (recalc ll y lrl) z (recalc lrr x r)).height =
        if ll.height = hz then hy + 1 else hy
      rw [if_neg (by omega), height_recalc, height_recalc, height_recalc]
      omega
  · rw [if_neg hgt]
    have hright : (recalc lr x r).Avl := avl_recalc x hlr hr (by omega) (by omega)
    refine ⟨avl_recalc y hll hright ?_ ?_, ?_⟩
    · rw [height_recalc]
      omega
    · rw [height_recalc]
      omega
    · show (recalc ll y (recalc lr x r)).height = if ll.height = lr.height then hy + 1 else hy
      rw [height_recalc, height_recalc]
      split <;> omega

/-- A right side too high by two is brought down. -/
theorem avl_rotate_right {l r : Tree α} (x : α) (h : Int) (hl : l.Avl) (hr : r.Avl)
    (hd : r.height = l.height + 2) :
    (rotate l x r h).Avl ∧
      (rotate l x r h).height =
        if r.left.height = r.right.height then r.height + 1 else r.height := by
  have hln := hl.height_nonneg
  obtain ⟨rl, y, rr, hy, rfl⟩ := hr.exists_node (by omega)
  obtain ⟨hrl, hrr, hheight, h₁, h₂⟩ := hr
  rw [height_node] at hd
  rw [rotate_right_eq _ _ _ _ (by omega)]
  by_cases hgt : rl.height > rr.height
  · have hrrn := hrr.height_nonneg
    rw [if_pos hgt]
    obtain ⟨rll, z, rlr, hz, rfl⟩ := hrl.exists_node (by omega)
    obtain ⟨hrll, hrlr, hheight', h₃, h₄⟩ := hrl
    rw [height_node] at hheight hgt h₁ h₂
    have hzh : hz = l.height + 1 := by omega
    have hleft : (recalc l x rll).Avl := avl_recalc x hl hrll (by omega) (by omega)
    have hright : (recalc rlr y rr).Avl := avl_recalc y hrlr hrr (by omega) (by omega)
    refine ⟨avl_recalc z hleft hright ?_ ?_, ?_⟩
    · rw [height_recalc, height_recalc]
      omega
    · rw [height_recalc, height_recalc]
      omega
    · show (recalc (recalc l x rll) z (recalc rlr y rr)).height =
        if hz = rr.height then hy + 1 else hy
      rw [if_neg (by omega), height_recalc, height_recalc, height_recalc]
      omega
  · rw [if_neg hgt]
    have hleft : (recalc l x rl).Avl := avl_recalc x hl hrl (by omega) (by omega)
    refine ⟨avl_recalc y hleft hrr ?_ ?_, ?_⟩
    · rw [height_recalc]
      omega
    · rw [height_recalc]
      omega
    · show (recalc (recalc l x rl) y rr).height = if rl.height = rr.height then hy + 1 else hy
      rw [height_recalc, height_recalc]
      split <;> omega

end Tree

/-- The frames are those of a balanced tree whose subtree in the place has a given height. -/
def Fits : List (Frame α) → Int → Prop
  | [], _ => True
  | .left _ r h :: ctx, H =>
    (r.Avl ∧ h = max H r.height + 1 ∧ H - r.height ≤ 1 ∧ r.height - H ≤ 1) ∧ Fits ctx h
  | .right l _ h :: ctx, H =>
    (l.Avl ∧ h = max l.height H + 1 ∧ l.height - H ≤ 1 ∧ H - l.height ≤ 1) ∧ Fits ctx h

theorem fits_cons {frame : Frame α} {ctx : List (Frame α)} {H : Int} :
    Fits (frame :: ctx) H ↔ Fits [frame] H ∧ Fits ctx frame.height := by
  cases frame <;> simp [Fits, Frame.height]

/-- The sides of a node when the place has a new subtree. -/
theorem Fits.sides {frame : Frame α} {t : Tree α} {H : Int} (h : Fits [frame] H) (ht : t.Avl)
    (hle : t.height ≤ H + 1) (hge : H ≤ t.height + 1) :
    (frame.leftSide t).Avl ∧ (frame.rightSide t).Avl ∧
      -2 ≤ (frame.leftSide t).height - (frame.rightSide t).height ∧
      (frame.leftSide t).height - (frame.rightSide t).height ≤ 2 := by
  cases frame with
  | left x r ht' =>
    obtain ⟨⟨hr, -, h₁, h₂⟩, -⟩ := h
    simp only [Frame.leftSide, Frame.rightSide]
    exact ⟨ht, hr, by omega, by omega⟩
  | right l x ht' =>
    obtain ⟨⟨hl, -, h₁, h₂⟩, -⟩ := h
    simp only [Frame.leftSide, Frame.rightSide]
    exact ⟨hl, ht, by omega, by omega⟩

theorem avl_plug {ctx : List (Frame α)} {t : Tree α} :
    (plug ctx t).Avl ↔ t.Avl ∧ Fits ctx t.height := by
  induction ctx generalizing t with
  | nil => simp [Fits]
  | cons frame ctx ih =>
    rw [plug_cons, ih]
    cases frame with
    | left x r h =>
      simp only [Frame.fill, Tree.Avl, Tree.height_node, Fits]
      tauto
    | right l x h =>
      simp only [Frame.fill, Tree.Avl, Tree.height_node, Fits]
      tauto

/-- A subtree that has grown is a leaf, or one of its sides is higher than the other. -/
def Grown (t : Tree α) : Prop := t.height = 1 ∨ t.left.height ≠ t.right.height

/-- What a step of a walk leaves where a subtree of height `H` was. -/
structure Rebalanced (high : Tree α → Prop) (H : Int) (t : Tree α × Bool) : Prop where
  avl : t.1.Avl
  goes : t.2 = true → high t.1
  stops : t.2 = false → t.1.height = H

/-- The height went up by one. -/
def HighAdd (H : Int) (t : Tree α) : Prop := t.height = H + 1 ∧ Grown t

/-- The height went down by one, or stayed. -/
def HighDel (H : Int) (t : Tree α) : Prop := t.height = H - 1 ∨ t.height = H

/-- A step of a walk that leaves a node balanced. -/
def Rebalances (f : Tree α → α → Tree α → Int → Tree α × Bool) (high : Int → Tree α → Prop) :
    Prop :=
  ∀ (frame : Frame α) (t : Tree α) (H : Int), t.Avl → high H t → Fits [frame] H →
    Rebalanced (high frame.height) frame.height (frame.apply f t)

/-- A walk leaves a balanced tree if every step of it does. -/
theorem avl_climb {f : Tree α → α → Tree α → Int → Tree α × Bool} {high : Int → Tree α → Prop}
    (hf : Rebalances f high) {ctx : List (Frame α)} {H : Int} {t : Tree α × Bool}
    (hfits : Fits ctx H)
    (ht : Rebalanced (high H) H t) : (climb f ctx t).Avl := by
  induction ctx generalizing H t with
  | nil =>
    obtain ⟨t, flag⟩ := t
    cases flag <;> exact ht.avl
  | cons frame ctx ih =>
    obtain ⟨t, flag⟩ := t
    cases flag with
    | false =>
      have hheight : t.height = H := ht.stops rfl
      exact avl_plug.mpr ⟨ht.avl, hheight ▸ hfits⟩
    | true =>
      obtain ⟨hframe, hctx⟩ := fits_cons.mp hfits
      exact ih hctx (hf frame t H ht.avl (ht.goes rfl) hframe)

namespace Tree

theorem rebalanceAdd_left {t r : Tree α} {x : α} {h H : Int} (ht : t.Avl) (hhigh : HighAdd H t)
    (hfits : Fits [.left x r h] H) : Rebalanced (HighAdd h) h (rebalanceAdd t x r h) := by
  obtain ⟨⟨hr, hh, h₁, h₂⟩, -⟩ := hfits
  obtain ⟨hgrown, hsides⟩ := hhigh
  have hrn := hr.height_nonneg
  unfold rebalanceAdd
  simp only []
  by_cases hzero : t.height - r.height = 0
  · rw [if_pos hzero]
    exact ⟨⟨ht, hr, by omega, by omega, by omega⟩, by simp, fun _ => rfl⟩
  · rw [if_neg hzero]
    by_cases hone : t.height - r.height = 1 ∨ t.height - r.height = -1
    · rw [if_pos hone]
      have hd : t.height - r.height = 1 := by omega
      rw [hd]
      refine ⟨⟨ht, hr, by omega, by omega, by omega⟩, fun _ => ⟨?_, Or.inr ?_⟩, by simp⟩
      · rw [height_node]
        omega
      · show t.height ≠ r.height
        omega
    · rw [if_neg hone]
      obtain ⟨havl, hheight⟩ := avl_rotate_left x h ht hr (by omega)
      rw [if_neg (hsides.resolve_left (by omega))] at hheight
      refine ⟨havl, by simp, fun _ => hheight.trans ?_⟩
      omega

theorem rebalanceAdd_right {t l : Tree α} {x : α} {h H : Int} (ht : t.Avl) (hhigh : HighAdd H t)
    (hfits : Fits [.right l x h] H) : Rebalanced (HighAdd h) h (rebalanceAdd l x t h) := by
  obtain ⟨⟨hl, hh, h₁, h₂⟩, -⟩ := hfits
  obtain ⟨hgrown, hsides⟩ := hhigh
  have hln := hl.height_nonneg
  unfold rebalanceAdd
  simp only []
  by_cases hzero : l.height - t.height = 0
  · rw [if_pos hzero]
    exact ⟨⟨hl, ht, by omega, by omega, by omega⟩, by simp, fun _ => rfl⟩
  · rw [if_neg hzero]
    by_cases hone : l.height - t.height = 1 ∨ l.height - t.height = -1
    · rw [if_pos hone]
      have hd : l.height - t.height = -1 := by omega
      rw [hd]
      refine ⟨⟨hl, ht, by omega, by omega, by omega⟩, fun _ => ⟨?_, Or.inr ?_⟩, by simp⟩
      · rw [height_node]
        omega
      · show l.height ≠ t.height
        omega
    · rw [if_neg hone]
      obtain ⟨havl, hheight⟩ := avl_rotate_right x h hl ht (by omega)
      rw [if_neg (hsides.resolve_left (by omega))] at hheight
      refine ⟨havl, by simp, fun _ => hheight.trans ?_⟩
      omega

theorem rebalanceDel_left {t r : Tree α} {x : α} {h H : Int} (ht : t.Avl) (hhigh : HighDel H t)
    (hfits : Fits [.left x r h] H) : Rebalanced (HighDel h) h (rebalanceDel t x r h) := by
  obtain ⟨⟨hr, hh, h₁, h₂⟩, -⟩ := hfits
  have hhigh : t.height = H - 1 ∨ t.height = H := hhigh
  unfold rebalanceDel
  simp only []
  by_cases hzero : t.height - r.height = 0
  · rw [if_pos hzero]
    refine ⟨⟨ht, hr, by omega, by omega, by omega⟩, fun _ => ?_, by simp⟩
    simp only [HighDel, height_node]
    omega
  · rw [if_neg hzero]
    by_cases hone : t.height - r.height = 1 ∨ t.height - r.height = -1
    · rw [if_pos hone]
      exact ⟨⟨ht, hr, by omega, by omega, by omega⟩, by simp, fun _ => rfl⟩
    · rw [if_neg hone]
      obtain ⟨havl, hheight⟩ := avl_rotate_right x h ht hr (by omega)
      refine ⟨havl, fun _ => ?_, by simp⟩
      simp only [HighDel, hheight]
      split <;> omega

theorem rebalanceDel_right {t l : Tree α} {x : α} {h H : Int} (ht : t.Avl) (hhigh : HighDel H t)
    (hfits : Fits [.right l x h] H) : Rebalanced (HighDel h) h (rebalanceDel l x t h) := by
  obtain ⟨⟨hl, hh, h₁, h₂⟩, -⟩ := hfits
  have hhigh : t.height = H - 1 ∨ t.height = H := hhigh
  unfold rebalanceDel
  simp only []
  by_cases hzero : l.height - t.height = 0
  · rw [if_pos hzero]
    refine ⟨⟨hl, ht, by omega, by omega, by omega⟩, fun _ => ?_, by simp⟩
    simp only [HighDel, height_node]
    omega
  · rw [if_neg hzero]
    by_cases hone : l.height - t.height = 1 ∨ l.height - t.height = -1
    · rw [if_pos hone]
      exact ⟨⟨hl, ht, by omega, by omega, by omega⟩, by simp, fun _ => rfl⟩
    · rw [if_neg hone]
      obtain ⟨havl, hheight⟩ := avl_rotate_left x h hl ht (by omega)
      refine ⟨havl, fun _ => ?_, by simp⟩
      simp only [HighDel, hheight]
      split <;> omega

end Tree

theorem rebalances_add : @Rebalances α Tree.rebalanceAdd HighAdd := by
  intro frame t H ht hhigh hfits
  cases frame with
  | left x r h => exact Tree.rebalanceAdd_left ht hhigh hfits
  | right l x h => exact Tree.rebalanceAdd_right ht hhigh hfits

theorem rebalances_del : @Rebalances α Tree.rebalanceDel HighDel := by
  intro frame t H ht hhigh hfits
  cases frame with
  | left x r h => exact Tree.rebalanceDel_left ht hhigh hfits
  | right l x h => exact Tree.rebalanceDel_right ht hhigh hfits

theorem avl_leaf (x : α) : (Tree.node .nil x .nil 1).Avl := by
  simp [Tree.Avl, Tree.height]

/-- A leaf is added where nothing was. -/
theorem avl_climbAdd {ctx : List (Frame α)} (x : α) (h : (plug ctx .nil).Avl) :
    (climbAdd ctx (.node .nil x .nil 1, true)).Avl := by
  obtain ⟨-, hfits⟩ := avl_plug.mp h
  exact avl_climb rebalances_add hfits
    ⟨avl_leaf x, fun _ => ⟨rfl, Or.inl rfl⟩, by simp⟩

/-- A subtree is replaced by one that is lower by one. -/
theorem avl_climbDel {ctx : List (Frame α)} {t : Tree α} {H : Int} (hfits : Fits ctx H)
    (ht : t.Avl) (hheight : t.height = H - 1) : (climbDel ctx (t, true)).Avl :=
  avl_climb rebalances_del hfits
    ⟨ht, fun _ => Or.inl hheight, by simp⟩

end PcloudClient.Ptree
