/-
  Pintervaltree/Tree.lean --- the interval tree.

  The tree of `ptree.c` with a `from` and a `to` in every node.  A failed assertion and a walk
  that does not end within the fuel are `none`.
-/
import PcloudClient.Foundation.Intervals
import PcloudClient.Ptree.Runs

set_option autoImplicit false

namespace PcloudClient.Pintervaltree

open PcloudClient.Foundation
open PcloudClient.Ptree (Heap Ptr)

/-- The nodes in memory, each with its interval, and the pointer to the root. -/
structure IntervalTree where
  heap : Heap
  ival : Nat → Span Nat
  tree : Ptr

namespace IntervalTree

/-- `e->from=from` -/
def setFrom (s : IntervalTree) (e start : Nat) : IntervalTree :=
  { s with ival := Function.update s.ival e ⟨start, (s.ival e).stop⟩ }

/-- `e->to=to` -/
def setTo (s : IntervalTree) (e stop : Nat) : IntervalTree :=
  { s with ival := Function.update s.ival e ⟨(s.ival e).start, stop⟩ }

/-- `psync_interval_new`, with the address that it gets. -/
def new (s : IntervalTree) (e start stop : Nat) : IntervalTree :=
  { s with ival := Function.update s.ival e ⟨start, stop⟩ }

/-- `psync_interval_tree_del` -/
def del (fuel : Nat) (s : IntervalTree) (e : Nat) : Option IntervalTree :=
  (s.heap.getDel fuel s.tree e).map fun r => { s with heap := r.1, tree := r.2 }

def addAfter (fuel : Nat) (s : IntervalTree) (e e2 : Nat) : Option IntervalTree :=
  (s.heap.getAddAfter fuel s.tree (some e) e2).map fun r => { s with heap := r.1, tree := r.2 }

def addBefore (fuel : Nat) (s : IntervalTree) (e e2 : Nat) : Option IntervalTree :=
  (s.heap.getAddBefore fuel s.tree (some e) e2).map fun r => { s with heap := r.1, tree := r.2 }

/-- `psync_interval_tree_consume_intervals` -/
def consumeIntervals (fuel : Nat) : Nat → IntervalTree → Nat → Option IntervalTree
  | 0, _, _ => none
  | n + 1, s, e =>
    match s.heap.getNext fuel e with
    | none => none
    | some none => some s
    | some (some next) =>
      if (s.ival e).stop < (s.ival next).start then some s
      else
        match s.del fuel next with
        | none => none
        | some s' =>
          if (s.ival e).stop ≤ (s.ival next).stop then some (s'.setTo e (s.ival next).stop)
          else consumeIntervals fuel n s' e

/-- The loop of `psync_interval_tree_get_add`, at the node `e`; `e2` is the address of a new
node. -/
def getAddLoop (fuel start stop e2 : Nat) : Nat → IntervalTree → Nat → Option IntervalTree
  | 0, _, _ => none
  | n + 1, s, e =>
    if (s.ival e).start ≤ start ∧ start ≤ (s.ival e).stop then
      if stop ≤ (s.ival e).stop then some s
      else (s.setTo e stop).consumeIntervals fuel fuel e
    else if start < (s.ival e).start then
      match (s.heap e).left with
      | some l => getAddLoop fuel start stop e2 n s l
      | none =>
        if (s.ival e).start ≤ stop ∧ stop ≤ (s.ival e).stop then some (s.setFrom e start)
        else ((s.new e2 start stop).addBefore fuel e e2).bind (consumeIntervals fuel fuel · e2)
    else if (s.ival e).stop < start then
      match (s.heap e).right with
      | some r => getAddLoop fuel start stop e2 n s r
      | none => ((s.new e2 start stop).addAfter fuel e e2).bind (consumeIntervals fuel fuel · e2)
    else none

/-- `psync_interval_tree_add` -/
def add (fuel : Nat) (s : IntervalTree) (start stop e2 : Nat) : Option IntervalTree :=
  if start < stop then
    match s.tree with
    | none =>
      let s := s.new e2 start stop
      (s.heap.getAddAfter fuel none none e2).map fun r => { s with heap := r.1, tree := r.2 }
    | some e => getAddLoop fuel start stop e2 fuel s e
  else none

/-- `psync_interval_tree_first_interval_containing_or_after` -/
def firstIntervalContainingOrAfter (fuel : Nat) (s : IntervalTree) (point : Nat) :
    Nat → Ptr → Option Ptr
  | _, none => some none
  | 0, some _ => none
  | n + 1, some e =>
    if (s.ival e).stop ≤ point then
      match (s.heap e).right with
      | some r => firstIntervalContainingOrAfter fuel s point n (some r)
      | none => s.heap.getNext fuel e
    else if (s.ival e).start ≤ point ∨ (s.heap e).left = none then some (some e)
    else firstIntervalContainingOrAfter fuel s point n (s.heap e).left

/-- The loop of `psync_interval_tree_remove`; `e2` is the address of a new node. -/
def removeLoop (fuel start stop e2 : Nat) : Nat → IntervalTree → Ptr → Option IntervalTree
  | _, s, none => some s
  | 0, _, some _ => none
  | n + 1, s, some tr =>
    if (s.ival tr).start < start ∧ stop < (s.ival tr).stop then
      ((s.new e2 stop (s.ival tr).stop).addAfter fuel tr e2).map (·.setTo tr start)
    else
      match s.heap.getNext fuel tr with
      | none => none
      | some ntr =>
        if start ≤ (s.ival tr).start ∧ (s.ival tr).start < stop then
          if (s.ival tr).stop ≤ stop then
            ((s.setFrom tr stop).del fuel tr).bind (removeLoop fuel start stop e2 n · ntr)
          else removeLoop fuel start stop e2 n (s.setFrom tr stop) ntr
        else if (s.ival tr).start < start then
          removeLoop fuel start stop e2 n (s.setTo tr start) ntr
        else some s

/-- `psync_interval_tree_remove` -/
def remove (fuel : Nat) (s : IntervalTree) (start stop e2 : Nat) : Option IntervalTree :=
  (s.firstIntervalContainingOrAfter fuel start fuel s.tree).bind
    (removeLoop fuel start stop e2 fuel s)

/-- The loop of `psync_interval_tree_get_cut_end`. -/
def cutEndLoop (fuel stop : Nat) : Nat → IntervalTree → Ptr → Option IntervalTree
  | _, s, none => some s
  | 0, _, some _ => none
  | n + 1, s, some last =>
    if stop < (s.ival last).stop then
      if (s.ival last).start < stop then some (s.setTo last stop)
      else
        match s.heap.getPrev fuel last with
        | none => none
        | some prev => (s.del fuel last).bind (cutEndLoop fuel stop n · prev)
    else some s

/-- `psync_interval_tree_cut_end` -/
def cutEnd (fuel : Nat) (s : IntervalTree) (stop : Nat) : Option IntervalTree :=
  (s.heap.getLast fuel s.tree).bind (cutEndLoop fuel stop fuel s)

end IntervalTree

end PcloudClient.Pintervaltree
