/-
  Ptree/Heap.lean --- the trees of `ptree.c` and `ptree.h` in memory.

  A node holds pointers to its children and its parent, and its height.  Following `NULL`,
  an assertion that fails and a loop that runs longer than its bound all end in `none`.
-/
import Mathlib.Logic.Function.Basic

set_option autoImplicit false

namespace PcloudClient.Ptree

/-- A pointer to a node; `none` is `NULL`. -/
abbrev Ptr := Option Nat

/-- `psync_tree` -/
@[ext] structure Node where
  left : Ptr
  right : Ptr
  parent : Ptr
  height : Int
  deriving DecidableEq, Repr

/-- The nodes in memory. -/
abbrev Heap := Nat → Node

namespace Heap

def setLeft (h : Heap) (e : Nat) (p : Ptr) : Heap := Function.update h e { h e with left := p }

def setRight (h : Heap) (e : Nat) (p : Ptr) : Heap := Function.update h e { h e with right := p }

def setParent (h : Heap) (e : Nat) (p : Ptr) : Heap :=
  Function.update h e { h e with parent := p }

def setHeight (h : Heap) (e : Nat) (n : Int) : Heap := Function.update h e { h e with height := n }

/-- `if (e) e->parent=p` -/
def setParentOf (h : Heap) (e p : Ptr) : Heap :=
  match e with
  | none => h
  | some e => h.setParent e p

/-- `psync_tree_height` -/
def height (h : Heap) (tree : Ptr) : Int :=
  match tree with
  | none => 0
  | some e => (h e).height

/-- `psync_tree_recalc_height` -/
def recalcHeight (h : Heap) (e : Nat) : Heap :=
  h.setHeight e (max (h.height (h e).left) (h.height (h e).right) + 1)

/-- `psync_tree_rotate_left` -/
def rotateLeft (h : Heap) (e : Nat) : Option (Heap × Nat) := do
  let e2 ← (h e).right
  let h := h.setParent e2 (h e).parent
  let h := h.setRight e (h e2).left
  let h :=
    match (h e).right with
    | some r => (h.setParent r (some e)).recalcHeight e
    | none => h.setHeight e (h.height (h e).left + 1)
  let h := h.setParent e (some e2)
  let h := h.setLeft e2 (some e)
  return (h.recalcHeight e2, e2)

/-- `psync_tree_rotate_right` -/
def rotateRight (h : Heap) (e : Nat) : Option (Heap × Nat) := do
  let e2 ← (h e).left
  let h := h.setParent e2 (h e).parent
  let h := h.setLeft e (h e2).right
  let h :=
    match (h e).left with
    | some l => (h.setParent l (some e)).recalcHeight e
    | none => h.setHeight e (h.height (h e).right + 1)
  let h := h.setParent e (some e2)
  let h := h.setRight e2 (some e)
  return (h.recalcHeight e2, e2)

/-- `psync_tree_init_node` -/
def initNode (h : Heap) (node : Nat) : Heap := Function.update h node ⟨none, none, none, 1⟩

/-- What both walks do with a node that is rotated: the new root, and the parent of `e` if
it has one. -/
def rotateAt (rot : Heap → Nat → Option (Heap × Nat)) (h : Heap) (tree : Ptr) (e : Nat) :
    Option (Heap × Ptr × Ptr) :=
  if tree = some e then do
    let (h, e') ← rot h e
    return (h, some e', none)
  else do
    let e2 ← (h e).parent
    if (h e2).left = some e then do
      let (h, e') ← rot h e
      return (h.setLeft e2 (some e'), tree, some e2)
    else if (h e2).right = some e then do
      let (h, e') ← rot h e
      return (h.setRight e2 (some e'), tree, some e2)
    else none

/-- The branches `dheight==2` of both walks. -/
def lowerLeft (h : Heap) (tree : Ptr) (e : Nat) : Option (Heap × Ptr × Ptr) := do
  let l ← (h e).left
  if h.height (h l).right > h.height (h l).left then do
    let (h, l') ← h.rotateLeft l
    rotateAt rotateRight (h.setLeft e (some l')) tree e
  else rotateAt rotateRight h tree e

/-- The branches `dheight==-2` of both walks. -/
def lowerRight (h : Heap) (tree : Ptr) (e : Nat) : Option (Heap × Ptr × Ptr) := do
  let r ← (h e).right
  if h.height (h r).left > h.height (h r).right then do
    let (h, r') ← h.rotateRight r
    rotateAt rotateLeft (h.setRight e (some r')) tree e
  else rotateAt rotateLeft h tree e

/-- `psync_tree_go_up_rebalance_add` -/
def goUpRebalanceAdd : Nat → Heap → Ptr → Nat → Option (Heap × Ptr)
  | 0, _, _, _ => none
  | fuel + 1, h, tree, e =>
    let rheight := h.height (h e).right
    let dheight := h.height (h e).left - rheight
    if dheight = 0 then some (h, tree)
    else if dheight = 1 ∨ dheight = -1 then
      let h := h.setHeight e (rheight + (dheight + 1) / 2 + 1)
      match (h e).parent with
      | some p => goUpRebalanceAdd fuel h tree p
      | none => if tree = some e then some (h, tree) else none
    else if dheight = 2 then do
      let (h, tree, _) ← h.lowerLeft tree e
      return (h, tree)
    else if dheight = -2 then do
      let (h, tree, _) ← h.lowerRight tree e
      return (h, tree)
    else none

/-- `psync_tree_go_up_rebalance_del` -/
def goUpRebalanceDel : Nat → Heap → Ptr → Nat → Option (Heap × Ptr)
  | 0, _, _, _ => none
  | fuel + 1, h, tree, e =>
    let rheight := h.height (h e).right
    let dheight := h.height (h e).left - rheight
    if dheight = 0 then
      let h := h.setHeight e (rheight + 1)
      match (h e).parent with
      | some p => goUpRebalanceDel fuel h tree p
      | none => if tree = some e then some (h, tree) else none
    else if dheight = 1 ∨ dheight = -1 then some (h, tree)
    else do
      let (h, tree, up) ←
        if dheight = 2 then h.lowerLeft tree e
        else if dheight = -2 then h.lowerRight tree e
        else none
      match up with
      | none => return (h, tree)
      | some e2 => goUpRebalanceDel fuel h tree e2

/-- `while (tree->left) tree=tree->left` -/
def leftmost (h : Heap) : Nat → Nat → Option Nat
  | 0, _ => none
  | fuel + 1, e =>
    match (h e).left with
    | none => some e
    | some l => leftmost h fuel l

/-- `while (tree->right) tree=tree->right` -/
def rightmost (h : Heap) : Nat → Nat → Option Nat
  | 0, _ => none
  | fuel + 1, e =>
    match (h e).right with
    | none => some e
    | some r => rightmost h fuel r

/-- `psync_tree_get_first` -/
def getFirst (fuel : Nat) (h : Heap) (tree : Ptr) : Option Ptr :=
  match tree with
  | none => some none
  | some e => (h.leftmost fuel e).map some

/-- `psync_tree_get_last` -/
def getLast (fuel : Nat) (h : Heap) (tree : Ptr) : Option Ptr :=
  match tree with
  | none => some none
  | some e => (h.rightmost fuel e).map some

/-- `psync_tree_get_add_after` for a node of a tree. -/
def addAfterNode (fuel : Nat) (h : Heap) (tree : Ptr) (node newnode : Nat) :
    Option (Heap × Ptr) := do
  let h := h.initNode newnode
  match (h node).right with
  | some r =>
    let node ← h.leftmost fuel r
    let h := (h.setLeft node (some newnode)).setParent newnode (some node)
    goUpRebalanceAdd fuel h tree node
  | none =>
    let h := (h.setRight node (some newnode)).setParent newnode (some node)
    goUpRebalanceAdd fuel h tree node

/-- `psync_tree_get_add_before` for a node of a tree. -/
def addBeforeNode (fuel : Nat) (h : Heap) (tree : Ptr) (node newnode : Nat) :
    Option (Heap × Ptr) := do
  let h := h.initNode newnode
  match (h node).left with
  | some l =>
    let node ← h.rightmost fuel l
    let h := (h.setRight node (some newnode)).setParent newnode (some node)
    goUpRebalanceAdd fuel h tree node
  | none =>
    let h := (h.setLeft node (some newnode)).setParent newnode (some node)
    goUpRebalanceAdd fuel h tree node

/-- `psync_tree_get_add_after`.  Without a node it adds before the first one. -/
def getAddAfter (fuel : Nat) (h : Heap) (tree node : Ptr) (newnode : Nat) :
    Option (Heap × Ptr) :=
  match tree, node with
  | none, _ => some (h.initNode newnode, some newnode)
  | some _, some node => h.addAfterNode fuel tree node newnode
  | some _, none => do
    let first ← h.getFirst fuel tree
    h.addBeforeNode fuel tree (← first) newnode

/-- `psync_tree_get_add_before`.  Without a node it adds after the last one. -/
def getAddBefore (fuel : Nat) (h : Heap) (tree node : Ptr) (newnode : Nat) :
    Option (Heap × Ptr) :=
  match tree, node with
  | none, _ => some (h.initNode newnode, some newnode)
  | some _, some node => h.addBeforeNode fuel tree node newnode
  | some _, none => do
    let last ← h.getLast fuel tree
    h.addAfterNode fuel tree (← last) newnode

/-- `psync_tree_get_added_at` -/
def getAddedAt (fuel : Nat) (h : Heap) (tree parent : Ptr) (newnode : Nat) :
    Option (Heap × Ptr) :=
  let h := (h.initNode newnode).setParent newnode parent
  match parent with
  | some p => goUpRebalanceAdd fuel h tree p
  | none => some (h, tree)

/-- The pointer to `node`, in its parent or `tree` itself, becomes `repl`. -/
def relink (h : Heap) (tree : Ptr) (node : Nat) (repl : Ptr) : Option (Heap × Ptr) :=
  match (h node).parent with
  | none => if tree = some node then some (h, repl) else none
  | some p =>
    if (h p).left = some node then some (h.setLeft p repl, tree)
    else if (h p).right = some node then some (h.setRight p repl, tree)
    else none

/-- `psync_tree_replace_me_with` -/
def replaceMeWith (fuel : Nat) (h : Heap) (tree : Ptr) (node : Nat) (repl : Ptr) :
    Option (Heap × Ptr) := do
  let parent := (h node).parent
  let (h, tree) ← h.relink tree node repl
  let h := h.setParentOf repl parent
  match parent, tree with
  | some p, _ => goUpRebalanceDel fuel h tree p
  | none, none => return (h, none)
  | none, some t => goUpRebalanceDel fuel h tree t

/-- `memcpy(el, node, sizeof(psync_tree))`, and the children of `node` become those of
`el`. -/
def copyNode (h : Heap) (node el : Nat) : Heap :=
  let h : Heap := Function.update h el (h node)
  let h := h.setParentOf (h node).left (some el)
  h.setParentOf (h node).right (some el)

/-- The last part of `psync_tree_get_del` for a node with two children: `el`, which is no
longer in the tree, takes the place of `node`. -/
def takePlace (fuel : Nat) (h : Heap) (tree : Ptr) (node el parent : Nat) :
    Option (Heap × Ptr) := do
  let h := h.copyNode node el
  let parent := if parent = node then el else parent
  let (h, tree) ← h.relink tree node (some el)
  goUpRebalanceDel fuel h tree parent

/-- `psync_tree_get_del` -/
def getDel (fuel : Nat) (h : Heap) (tree : Ptr) (node : Nat) : Option (Heap × Ptr) :=
  match (h node).left, (h node).right with
  | none, none => h.replaceMeWith fuel tree node none
  | none, some r => h.replaceMeWith fuel tree node (some r)
  | some l, none => h.replaceMeWith fuel tree node (some l)
  | some l, some r =>
    if (h l).height > (h r).height then do
      let el ← h.rightmost fuel l
      let parent ← (h el).parent
      -- `addr` is `&node->left` or `&parent->right`
      let h' := if el = l then h.setLeft node (h el).left else h.setRight parent (h el).left
      let h' := h'.setParentOf (h el).left (some parent)
      h'.takePlace fuel tree node el parent
    else do
      let el ← h.leftmost fuel r
      let parent ← (h el).parent
      let h' := if el = r then h.setRight node (h el).right else h.setLeft parent (h el).right
      let h' := h'.setParentOf (h el).right (some parent)
      h'.takePlace fuel tree node el parent

/-! ## Traversal -/

/-- `while (tree->parent && tree==tree->parent->right) tree=tree->parent` -/
def upFromRight (h : Heap) : Nat → Nat → Option Nat
  | 0, _ => none
  | fuel + 1, e =>
    match (h e).parent with
    | none => some e
    | some p => if (h p).right = some e then upFromRight h fuel p else some e

/-- `while (tree->parent && tree==tree->parent->left) tree=tree->parent` -/
def upFromLeft (h : Heap) : Nat → Nat → Option Nat
  | 0, _ => none
  | fuel + 1, e =>
    match (h e).parent with
    | none => some e
    | some p => if (h p).left = some e then upFromLeft h fuel p else some e

/-- `psync_tree_get_next` -/
def getNext (fuel : Nat) (h : Heap) (e : Nat) : Option Ptr :=
  match (h e).right with
  | some r => (h.leftmost fuel r).map some
  | none => (h.upFromRight fuel e).map fun e => (h e).parent

/-- `psync_tree_get_prev` -/
def getPrev (fuel : Nat) (h : Heap) (e : Nat) : Option Ptr :=
  match (h e).left with
  | some l => (h.rightmost fuel l).map some
  | none => (h.upFromLeft fuel e).map fun e => (h e).parent

/-- The loop that goes down to a leaf, to the left where it can. -/
def deepest (h : Heap) : Nat → Nat → Option Nat
  | 0, _ => none
  | fuel + 1, e =>
    match (h e).left, (h e).right with
    | some l, _ => deepest h fuel l
    | none, some r => deepest h fuel r
    | none, none => some e

/-- `psync_tree_get_first_safe` -/
def getFirstSafe (fuel : Nat) (h : Heap) (tree : Ptr) : Option Ptr :=
  match tree with
  | none => some none
  | some e => (h.deepest fuel e).map some

/-- `psync_tree_get_next_safe` -/
def getNextSafe (fuel : Nat) (h : Heap) (e : Nat) : Option Ptr :=
  match (h e).parent with
  | none => some none
  | some p =>
    match (h p).right with
    | none => some (some p)
    | some r => if r = e then some (some p) else (h.deepest fuel r).map some

/-- The nodes from a first one on, each found from the one before, up to `NULL`. -/
def walk (next : Nat → Option Ptr) : Nat → Ptr → Option (List Nat)
  | _, none => some []
  | 0, some _ => none
  | n + 1, some e => do
    let p ← next e
    let rest ← walk next n p
    return e :: rest

end Heap

end PcloudClient.Ptree
