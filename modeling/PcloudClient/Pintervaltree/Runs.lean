/-
  Pintervaltree/Runs.lean --- any sequence of changes of an interval tree.

  The tree denotes a set of positions, and the calls on it are union, difference and
  intersection of sets.
-/
import PcloudClient.Pintervaltree.Refinement

set_option autoImplicit false

namespace PcloudClient.Pintervaltree

open PcloudClient.Foundation
open PcloudClient.Ptree (Heap Ptr Implements Sound)

/-- The functions that change an interval tree; `address` is what `psync_new` returns for a new
node. -/
inductive Call where
  | add (start stop address : Nat)
  | remove (start stop address : Nat)
  | cutEnd (stop : Nat)
  deriving DecidableEq, Repr

namespace Call

/-- The call on the tree. -/
def exec (fuel : Nat) (s : IntervalTree) : Call → Option IntervalTree
  | add start stop address => s.add fuel start stop address
  | remove start stop address => s.remove fuel start stop address
  | cutEnd stop => s.cutEnd fuel stop

/-- The call on a set of positions. -/
def apply (positions : Set Nat) : Call → Set Nat
  | add start stop _ => Set.Ico start stop ∪ positions
  | remove start stop _ => positions \ Set.Ico start stop
  | cutEnd stop => positions ∩ Set.Iio stop

/-- The interval is not empty and a new node is not one that is in the tree. -/
def Allowed (fuel : Nat) (s : IntervalTree) : Call → Prop
  | add start stop address => start < stop ∧ address ∉ s.heap.inorder fuel s.tree
  | remove start stop address => start < stop ∧ address ∉ s.heap.inorder fuel s.tree
  | cutEnd _ => True

end Call

/-- The calls one after the other. -/
def run (fuel : Nat) : List Call → IntervalTree → Option IntervalTree
  | [], s => some s
  | c :: cs, s => (c.exec fuel s).bind (run fuel cs)

/-- Each call is one that its caller may make, on the tree the calls before it left. -/
def Legal (fuel : Nat) : List Call → IntervalTree → Prop
  | [], _ => True
  | c :: cs, s => c.Allowed fuel s ∧ ∀ s', c.exec fuel s = some s' → Legal fuel cs s'

/-- What the function that finds an interval returns for a point. -/
structure Finds (fuel : Nat) (s : IntervalTree) (nodes : List Nat) (point : Nat) (r : Ptr) :
    Prop where
  returns : s.firstIntervalContainingOrAfter fuel point fuel s.tree = some r
  least : ∀ e, r = some e → e ∈ nodes ∧ point < (s.ival e).stop ∧
    ∀ x ∈ nodes, point < (s.ival x).stop → (s.ival e).stop ≤ (s.ival x).stop
  absent : r = none → ∀ x ∈ nodes, (s.ival x).stop ≤ point

/-- The tree is a balanced tree of separated intervals for a set of positions. -/
structure Denotes (fuel : Nat) (s : IntervalTree) (positions : Set Nat) : Prop where
  tree : Implements fuel s.heap s.tree (s.heap.inorder fuel s.tree)
  separated : Intervals.Separated ((s.heap.inorder fuel s.tree).map s.ival)
  union_eq : Intervals.union ((s.heap.inorder fuel s.tree).map s.ival) = positions
  finds : ∀ point, ∃ r, Finds fuel s (s.heap.inorder fuel s.tree) point r

section

variable {s : IntervalTree} {l : List Nat} {fuel : Nat}

theorem Nodes.inorder (hn : Nodes s l) (hfuel : l.length ≤ fuel) :
    s.heap.inorder fuel s.tree = l := by
  obtain ⟨t, hs, rfl⟩ := hn
  exact (hs.implements hfuel).inorder

/-- The first interval that ends behind a point has the least end of them. -/
theorem Nodes.finds (hn : Nodes s l) (hfuel : l.length ≤ fuel)
    (hsep : Intervals.Separated (l.map s.ival)) (point : Nat) : ∃ r, Finds fuel s l point r := by
  obtain ⟨a, b, rfl, ha, hb⟩ := split_at_point point hsep
  have hfirst : s.firstIntervalContainingOrAfter fuel point fuel s.tree = _ :=
    hn.firstInterval hfuel hsep
  rw [find_split (by simpa using ha) (by simpa using hb)] at hfirst
  refine ⟨b.head?, hfirst, ?_, ?_⟩
  · intro e he
    cases b with
    | nil => exact absurd he (by simp)
    | cons e' b =>
      obtain rfl := Option.some.inj he
      refine ⟨by simp, hb _ (by simp), fun x hx hpoint => ?_⟩
      rcases List.mem_append.mp hx with hx | hx
      · have hx' := ha x hx
        omega
      · rcases List.mem_cons.mp hx with rfl | hx
        · exact Nat.le_refl _
        · have hex := sep_behind hsep hx
          have hx' := hsep.nonempty (s.ival x) (List.mem_map_of_mem (by simp [hx]))
          omega
  · intro he
    rw [List.head?_eq_none_iff.mp he, List.append_nil]
    exact ha

theorem Nodes.denotes (hn : Nodes s l) (hfuel : l.length ≤ fuel)
    (hsep : Intervals.Separated (l.map s.ival)) :
    Denotes fuel s (Intervals.union (l.map s.ival)) := by
  have hinorder := hn.inorder hfuel
  refine ⟨?_, ?_, ?_, ?_⟩
  · obtain ⟨t, hs, hlist⟩ := hn
    rw [hinorder, ← hlist]
    exact hs.implements (hlist ▸ hfuel)
  · rwa [hinorder]
  · rw [hinorder]
  · rw [hinorder]
    exact hn.finds hfuel hsep

/-- A call does its work on the set and leaves a tree of separated intervals. -/
theorem Nodes.exec (hn : Nodes s l) (hfuel : l.length < fuel)
    (hsep : Intervals.Separated (l.map s.ival)) {c : Call} (hc : c.Allowed fuel s) :
    ∃ s' l', c.exec fuel s = some s' ∧ Nodes s' l' ∧ l'.length ≤ l.length + 1 ∧
      Intervals.Separated (l'.map s'.ival) ∧
      Intervals.union (l'.map s'.ival) = c.apply (Intervals.union (l.map s.ival)) := by
  have hinorder := hn.inorder hfuel.le
  cases c with
  | add start stop address =>
    obtain ⟨hlt, hnew⟩ := hc
    rw [hinorder] at hnew
    obtain ⟨s', l', hexec, hn', hlen, hlist⟩ := hn.add hfuel hsep hlt hnew
    refine ⟨s', l', hexec, hn', hlen, ?_, ?_⟩
    · rw [hlist]
      exact hsep.add hlt
    · rw [hlist, Intervals.union_add]
      rfl
  | remove start stop address =>
    obtain ⟨hlt, hnew⟩ := hc
    rw [hinorder] at hnew
    obtain ⟨s', l', hexec, hn', hlen, hlist⟩ := hn.remove hfuel hsep hlt hnew
    refine ⟨s', l', hexec, hn', hlen, ?_, ?_⟩
    · rw [hlist]
      exact hsep.remove hlt
    · rw [hlist, Intervals.union_remove]
      rfl
  | cutEnd stop =>
    obtain ⟨s', l', hexec, hn', hlen, hlist⟩ := hn.cutEnd hfuel.le hsep
    refine ⟨s', l', hexec, hn', by omega, ?_, ?_⟩
    · rw [hlist]
      exact hsep.cutEnd
    · rw [hlist, Intervals.union_cutEnd]
      rfl

theorem Nodes.run (hn : Nodes s l) (hsep : Intervals.Separated (l.map s.ival)) {cs : List Call}
    (hfuel : l.length + cs.length ≤ fuel) (hlegal : Legal fuel cs s) :
    ∃ s' l', Pintervaltree.run fuel cs s = some s' ∧ Nodes s' l' ∧ l'.length ≤ fuel ∧
      Intervals.Separated (l'.map s'.ival) ∧
      Intervals.union (l'.map s'.ival) = cs.foldl Call.apply (Intervals.union (l.map s.ival)) := by
  induction cs generalizing s l with
  | nil => exact ⟨s, l, rfl, hn, hfuel, hsep, rfl⟩
  | cons c cs ih =>
    rw [List.length_cons] at hfuel
    obtain ⟨hallowed, hrest⟩ := hlegal
    obtain ⟨s₁, l₁, hexec, hn₁, hlen₁, hsep₁, hunion₁⟩ :=
      hn.exec (show l.length < fuel by omega) hsep hallowed
    obtain ⟨s', l', hrun, hn', hlen', hsep', hunion'⟩ :=
      ih hn₁ hsep₁ (by omega) (hrest s₁ hexec)
    refine ⟨s', l', ?_, hn', hlen', hsep', ?_⟩
    · rw [Pintervaltree.run, hexec, Option.bind_some, hrun]
    · rw [hunion', hunion₁, List.foldl_cons]

end

/-- Every sequence of `psync_interval_tree_add`, `psync_interval_tree_remove` and
`psync_interval_tree_cut_end` returns with no failed assertion, and leaves the tree of the set
that union, difference and truncation make. -/
theorem interval_tree_denotes (cs : List Call) (heap : Heap) (ival : Nat → Span Nat)
    (fuel : Nat) (hfuel : cs.length ≤ fuel) (hlegal : Legal fuel cs ⟨heap, ival, none⟩) :
    ∃ s, run fuel cs ⟨heap, ival, none⟩ = some s ∧ Denotes fuel s (cs.foldl Call.apply ∅) := by
  have hempty : Nodes ⟨heap, ival, none⟩ [] :=
    ⟨.nil, ⟨⟨trivial, List.nodup_nil, rfl⟩, trivial⟩, rfl⟩
  obtain ⟨s, l, hrun, hn, hlen, hsep, hunion⟩ :=
    hempty.run Intervals.separated_nil
      (show ([] : List Nat).length + cs.length ≤ fuel by simpa using hfuel) hlegal
  refine ⟨s, hrun, ?_⟩
  rw [List.map_nil, Intervals.union_nil] at hunion
  rw [← hunion]
  exact hn.denotes hlen hsep

/-- Two intervals, the second of which is split. -/
theorem interval_tree_denotes_split :
    ∃ s, run 3 [.add 10 20 1, .add 30 90 2, .remove 40 50 3]
        ⟨fun _ => ⟨none, none, none, 0⟩, fun _ => ⟨0, 0⟩, none⟩ = some s ∧
      Denotes 3 s ((Set.Ico 30 90 ∪ (Set.Ico 10 20 ∪ ∅)) \ Set.Ico 40 50) :=
  interval_tree_denotes _ _ _ 3 (by decide) (by
    simp [Legal, Call.Allowed, Call.exec, IntervalTree.add, IntervalTree.new, Heap.getAddAfter,
      Heap.initNode, Heap.inorder, IntervalTree.getAddLoop, IntervalTree.addAfter,
      Heap.addAfterNode, Heap.goUpRebalanceAdd, IntervalTree.consumeIntervals,
      Heap.getNext, Heap.upFromRight, Heap.setRight, Heap.setParent, Heap.setHeight, Heap.height,
      Function.update])

end PcloudClient.Pintervaltree
