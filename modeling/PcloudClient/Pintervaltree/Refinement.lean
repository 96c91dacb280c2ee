/-
  Pintervaltree/Refinement.lean --- the interval tree is a list of separated intervals.

  Every operation of the tree does to the intervals of its nodes, in order, what the operation
  of the same name in `Foundation/Intervals.lean` does, and so what its name says to the set.
-/
import Mathlib.Data.List.Induction
import PcloudClient.Pintervaltree.Tree

set_option autoImplicit false

namespace PcloudClient.Pintervaltree

open PcloudClient.Foundation
open PcloudClient.Ptree hiding Tree

/-- The nodes of the tree, in order. -/
def Nodes (s : IntervalTree) (l : List Nat) : Prop :=
  ∃ t, Sound s.heap s.tree t ∧ t.toList = l

/-! ## The tree underneath -/

section

variable {s : IntervalTree} {a b l : List Nat} {e e2 fuel : Nat}

theorem Nodes.nodup (hn : Nodes s l) : l.Nodup := by
  obtain ⟨t, hs, rfl⟩ := hn
  exact hs.nodup

theorem Nodes.notMem (hn : Nodes s (a ++ e :: b)) : e ∉ a ∧ e ∉ b := by
  have hnodup := hn.nodup
  rw [List.nodup_middle, List.nodup_cons, List.mem_append, not_or] at hnodup
  exact hnodup.1

theorem Nodes.getNext (hn : Nodes s (a ++ e :: b)) (hfuel : (a ++ e :: b).length ≤ fuel) :
    s.heap.getNext fuel e = some b.head? := by
  obtain ⟨t, hs, hlist⟩ := hn
  obtain ⟨ctx, l, r, ht, rfl, -, rfl⟩ := place_of_split hs.nodup hlist
  exact hs.getNext_eq (hlist ▸ hfuel)

theorem Nodes.getPrev (hn : Nodes s (a ++ e :: b)) (hfuel : (a ++ e :: b).length ≤ fuel) :
    s.heap.getPrev fuel e = some a.getLast? := by
  obtain ⟨t, hs, hlist⟩ := hn
  obtain ⟨ctx, l, r, ht, rfl, rfl, -⟩ := place_of_split hs.nodup hlist
  exact hs.getPrev_eq (hlist ▸ hfuel)

theorem Nodes.getLast (hn : Nodes s l) (hfuel : l.length ≤ fuel) :
    s.heap.getLast fuel s.tree = some l.getLast? := by
  obtain ⟨t, hs, rfl⟩ := hn
  exact hs.getLast_eq hfuel

theorem Nodes.del (hn : Nodes s (a ++ e :: b)) (hfuel : (a ++ e :: b).length ≤ fuel) :
    ∃ s', s.del fuel e = some s' ∧ s'.ival = s.ival ∧ Nodes s' (a ++ b) := by
  have hnodup := hn.nodup
  obtain ⟨t, hs, hlist⟩ := hn
  obtain ⟨h', tree', t', hdel, hs', hlist'⟩ :=
    hs.del_mem (hlist ▸ hfuel) (show e ∈ t.toList by simp [hlist])
  refine ⟨{ s with heap := h', tree := tree' }, by simp [IntervalTree.del, hdel], rfl, t', hs', ?_⟩
  rw [hlist', hlist, erase_split hnodup]

theorem Nodes.addAfter (hn : Nodes s (a ++ e :: b)) (hfuel : (a ++ e :: b).length ≤ fuel)
    (hnew : e2 ∉ a ++ e :: b) :
    ∃ s', s.addAfter fuel e e2 = some s' ∧ s'.ival = s.ival ∧ Nodes s' (a ++ e :: e2 :: b) := by
  have hnodup := hn.nodup
  obtain ⟨t, hs, hlist⟩ := hn
  obtain ⟨h', tree', t', hadd, hs', hlist'⟩ :=
    @Sound.getAddAfter s.heap s.tree t e2 fuel (some e) hs (hlist ▸ hfuel)
      (by rintro x ⟨⟩; simp [hlist]) (hlist ▸ hnew)
  refine ⟨{ s with heap := h', tree := tree' }, by simp [IntervalTree.addAfter, hadd], rfl, t', hs',
    ?_⟩
  rw [hlist', hlist, listAddAfter, insertAfter_split hnodup]

theorem Nodes.addBefore (hn : Nodes s (a ++ e :: b)) (hfuel : (a ++ e :: b).length ≤ fuel)
    (hnew : e2 ∉ a ++ e :: b) :
    ∃ s', s.addBefore fuel e e2 = some s' ∧ s'.ival = s.ival ∧ Nodes s' (a ++ e2 :: e :: b) := by
  have hnodup := hn.nodup
  obtain ⟨t, hs, hlist⟩ := hn
  obtain ⟨h', tree', t', hadd, hs', hlist'⟩ :=
    @Sound.getAddBefore s.heap s.tree t e2 fuel (some e) hs (hlist ▸ hfuel)
      (by rintro x ⟨⟩; simp [hlist]) (hlist ▸ hnew)
  refine ⟨{ s with heap := h', tree := tree' }, by simp [IntervalTree.addBefore, hadd], rfl, t',
    hs', ?_⟩
  rw [hlist', hlist, listAddBefore, insertBefore_split hnodup]

/-- The intervals of nodes other than one that is written. -/
theorem map_update (ival : Nat → Span Nat) (i : Span Nat) (he : e ∉ l) :
    l.map (Function.update ival e i) = l.map ival := by
  refine List.map_congr_left fun x hx => ?_
  have hne : x ≠ e := fun heq => he (heq ▸ hx)
  rw [Function.update_of_ne hne]

section

variable {ival : Nat → Span Nat} {x : Nat}

theorem sep_at (hsep : Intervals.Separated ((a ++ e :: b).map ival)) :
    (ival e).start < (ival e).stop :=
  hsep.nonempty _ (by simp)

theorem sep_front (hsep : Intervals.Separated ((a ++ e :: b).map ival)) (hx : x ∈ a) :
    (ival x).stop < (ival e).start := by
  rw [List.map_append, Intervals.separated_append] at hsep
  exact hsep.2.2 _ (List.mem_map_of_mem hx) _ (by simp)

theorem sep_behind (hsep : Intervals.Separated ((a ++ e :: b).map ival)) (hx : x ∈ b) :
    (ival e).stop < (ival x).start := by
  rw [List.map_append, List.map_cons, Intervals.separated_append, Intervals.separated_cons] at hsep
  exact hsep.2.1.2.1 _ (List.mem_map_of_mem hx)

end

theorem Nodes.setTo (hn : Nodes s l) (stop : Nat) : Nodes (s.setTo e stop) l := hn

theorem Nodes.setFrom (hn : Nodes s l) (start : Nat) : Nodes (s.setFrom e start) l := hn

theorem Nodes.new (hn : Nodes s l) (start stop : Nat) : Nodes (s.new e start stop) l := hn

end

/-! ## Adding -/

section

variable {s : IntervalTree} {a b l : List Nat} {e e2 fuel n start stop : Nat}

/-- The intervals behind `e` that it has reached become one with it. -/
theorem Nodes.consumeIntervals (hn : Nodes s (a ++ e :: b))
    (hfuel : (a ++ e :: b).length ≤ fuel) (hb : b.length < n)
    (hsep : Intervals.Separated (b.map s.ival))
    (hstart : ∀ x ∈ b, (s.ival e).start ≤ (s.ival x).start) :
    ∃ s' l', s.consumeIntervals fuel n e = some s' ∧ Nodes s' l' ∧
      l'.length ≤ (a ++ e :: b).length ∧
      l'.map s'.ival =
        a.map s.ival ++ Intervals.add (s.ival e).start (s.ival e).stop (b.map s.ival) := by
  induction b generalizing s n with
  | nil =>
    obtain ⟨n, rfl⟩ : ∃ m, n = m + 1 := ⟨n - 1, by omega⟩
    refine ⟨s, a ++ [e], ?_, hn, Nat.le_refl _, by simp [Intervals.add]⟩
    simp only [IntervalTree.consumeIntervals, hn.getNext hfuel, List.head?_nil]
  | cons next b ih =>
    obtain ⟨n, rfl⟩ : ∃ m, n = m + 1 := ⟨n - 1, by omega⟩
    rw [List.map_cons, Intervals.separated_cons] at hsep
    obtain ⟨hne, hbefore, hsep⟩ := hsep
    have hnext := hstart next (by simp)
    simp only [IntervalTree.consumeIntervals, hn.getNext hfuel, List.head?_cons, List.map_cons]
    have hover : ¬(s.ival next).stop < (s.ival e).start := by omega
    rw [Intervals.add, if_neg hover]
    by_cases hreach : (s.ival e).stop < (s.ival next).start
    · rw [if_pos hreach, if_pos hreach]
      exact ⟨s, _, rfl, hn, Nat.le_refl _, by simp⟩
    · rw [if_neg hreach, if_neg hreach]
      have hn' : Nodes s ((a ++ [e]) ++ next :: b) := by simpa using hn
      obtain ⟨s', hdel, hival, hn''⟩ := hn'.del (by simpa using hfuel)
      rw [List.append_assoc, List.singleton_append] at hn''
      rw [hdel]
      dsimp only
      have hlen : (a ++ e :: b).length ≤ (a ++ e :: next :: b).length := by simp
      by_cases hstop : (s.ival e).stop ≤ (s.ival next).stop
      · rw [if_pos hstop]
        refine ⟨_, a ++ e :: b, rfl, hn''.setTo _, hlen, ?_⟩
        obtain ⟨hea, heb⟩ := hn''.notMem
        rw [Nat.min_eq_right hnext, Nat.max_eq_left hstop, Intervals.add_of_lt]
        · simp [IntervalTree.setTo, map_update _ _ hea, map_update _ _ heb, hival]
        · exact hbefore
        · intro i hi
          have hi' := hbefore i hi
          have hi'' := hsep.nonempty i hi
          omega
      · rw [if_neg hstop, Nat.min_eq_right hnext, Nat.max_eq_right (by omega)]
        obtain ⟨s₂, l₂, hcons, hnodes, hl₂, hmap⟩ := @ih s' n hn'' (hlen.trans hfuel)
          (by simpa using hb) (by rwa [hival]) (by
            rw [hival]
            exact fun x hx => hstart x (by simp [hx]))
        exact ⟨s₂, l₂, hcons, hnodes, hl₂.trans hlen, by rw [hmap, hival]⟩

/-- `e` holds `start` or ends there. -/
theorem Nodes.add_at (hn : Nodes s (a ++ e :: b)) (hfuel : (a ++ e :: b).length < fuel)
    (hsep : Intervals.Separated ((a ++ e :: b).map s.ival)) (hle : (s.ival e).start ≤ start)
    (hge : start ≤ (s.ival e).stop) (hlt : start < stop) :
    ∃ s' l', (if stop ≤ (s.ival e).stop then some s
        else (s.setTo e stop).consumeIntervals fuel fuel e) = some s' ∧ Nodes s' l' ∧
      l'.length ≤ (a ++ e :: b).length + 1 ∧
      l'.map s'.ival = Intervals.add start stop ((a ++ e :: b).map s.ival) := by
  rw [List.map_append, List.map_cons, Intervals.separated_append] at hsep
  obtain ⟨-, hsep, hfront⟩ := hsep
  have hfront' : ∀ i ∈ a.map s.ival, i.stop < start := fun i hi =>
    lt_of_lt_of_le (hfront i hi _ (by simp)) hle
  rw [List.map_append, List.map_cons, Intervals.add_append hfront',
    Intervals.add_cons_of_le hle hge hlt.le]
  by_cases hstop : stop ≤ (s.ival e).stop
  · rw [if_pos hstop, max_eq_left hstop, hsep.add_self]
    exact ⟨s, _, rfl, hn, by omega, by simp⟩
  · rw [if_neg hstop, max_eq_right (by omega)]
    obtain ⟨hea, heb⟩ := hn.notMem
    obtain ⟨-, hbehind, hsepb⟩ := Intervals.separated_cons.mp hsep
    have hmap : b.map (s.setTo e stop).ival = b.map s.ival := map_update _ _ heb
    have he : (s.setTo e stop).ival e = ⟨(s.ival e).start, stop⟩ := Function.update_self ..
    obtain ⟨s', l', hcons, hn', hlen, hlist⟩ :=
      (hn.setTo stop).consumeIntervals hfuel.le
        (show b.length < fuel by simp at hfuel; omega) (by rwa [hmap]) (by
        intro x hx
        have hx' := hbehind (s.ival x) (List.mem_map_of_mem hx)
        have hne := hsep.nonempty (s.ival e) (by simp)
        have hxe : x ≠ e := fun heq => heb (heq ▸ hx)
        rw [he, show (s.setTo e stop).ival x = s.ival x from Function.update_of_ne hxe _ _]
        dsimp only
        omega)
    refine ⟨s', l', hcons, hn', by omega, ?_⟩
    rw [hlist, hmap, he, show a.map (s.setTo e stop).ival = a.map s.ival from map_update _ _ hea]

/-- A new node is in its place. -/
theorem Nodes.add_new {s₁ : IntervalTree} (hn : Nodes s₁ (a ++ e2 :: b))
    (hival : s₁.ival = (s.new e2 start stop).ival) (hfuel : (a ++ e2 :: b).length ≤ fuel)
    (hsep : Intervals.Separated (b.map s.ival)) (hfront : ∀ x ∈ a, (s.ival x).stop < start)
    (hbehind : ∀ x ∈ b, start < (s.ival x).start) :
    ∃ s' l', s₁.consumeIntervals fuel fuel e2 = some s' ∧ Nodes s' l' ∧
      l'.length ≤ (a ++ b).length + 1 ∧
      l'.map s'.ival = Intervals.add start stop ((a ++ b).map s.ival) := by
  obtain ⟨hea, heb⟩ := hn.notMem
  have hmapb : b.map s₁.ival = b.map s.ival := by rw [hival]; exact map_update _ _ heb
  have hmapa : a.map s₁.ival = a.map s.ival := by rw [hival]; exact map_update _ _ hea
  have he : s₁.ival e2 = ⟨start, stop⟩ := by rw [hival]; exact Function.update_self ..
  obtain ⟨s', l', hcons, hn', hlen, hlist⟩ :=
    hn.consumeIntervals hfuel (show b.length < fuel by simp at hfuel; omega) (by rwa [hmapb]) (by
      intro x hx
      have hxe : x ≠ e2 := fun heq => heb (heq ▸ hx)
      rw [he, hival, show (s.new e2 start stop).ival x = s.ival x from
        Function.update_of_ne hxe _ _]
      exact (hbehind x hx).le)
  refine ⟨s', l', hcons, hn', by simp at hlen ⊢; omega, ?_⟩
  rw [hlist, hmapa, hmapb, he, List.map_append, Intervals.add_append]
  intro i hi
  obtain ⟨x, hx, rfl⟩ := List.mem_map.mp hi
  exact hfront x hx

/-- The place is right before `e`. -/
theorem Nodes.add_before (hn : Nodes s (a ++ e :: b)) (hfuel : (a ++ e :: b).length < fuel)
    (hsep : Intervals.Separated ((a ++ e :: b).map s.ival)) (hnew : e2 ∉ a ++ e :: b)
    (hfront : ∀ x ∈ a, (s.ival x).stop < start) (hbehind : ∀ x ∈ e :: b, start < (s.ival x).start) :
    ∃ s' l', (if (s.ival e).start ≤ stop ∧ stop ≤ (s.ival e).stop then some (s.setFrom e start)
        else ((s.new e2 start stop).addBefore fuel e e2).bind
          (IntervalTree.consumeIntervals fuel fuel · e2)) = some s' ∧ Nodes s' l' ∧
      l'.length ≤ (a ++ e :: b).length + 1 ∧
      l'.map s'.ival = Intervals.add start stop ((a ++ e :: b).map s.ival) := by
  rw [List.map_append, Intervals.separated_append] at hsep
  obtain ⟨-, hsep, -⟩ := hsep
  by_cases hgrow : (s.ival e).start ≤ stop ∧ stop ≤ (s.ival e).stop
  · rw [if_pos hgrow]
    refine ⟨_, a ++ e :: b, rfl, hn.setFrom start, by omega, ?_⟩
    have hfront' : ∀ i ∈ a.map s.ival, i.stop < start := by
      intro i hi
      obtain ⟨x, hx, rfl⟩ := List.mem_map.mp hi
      exact hfront x hx
    obtain ⟨hea, heb⟩ := hn.notMem
    rw [List.map_append, List.map_append, Intervals.add_append hfront', List.map_cons,
      List.map_cons, hsep.add_cons_of_ge (hbehind e (by simp)) hgrow.1 hgrow.2]
    simp [IntervalTree.setFrom, map_update _ _ hea, map_update _ _ heb]
  · rw [if_neg hgrow]
    obtain ⟨s₁, hadd, hival, hn₁⟩ := (hn.new start stop).addBefore hfuel.le hnew
    rw [hadd, Option.bind_some]
    exact hn₁.add_new hival (by simp at hfuel ⊢; omega) hsep hfront hbehind

/-- The place is right after `e`. -/
theorem Nodes.add_after (hn : Nodes s (a ++ e :: b)) (hfuel : (a ++ e :: b).length < fuel)
    (hsep : Intervals.Separated ((a ++ e :: b).map s.ival)) (hnew : e2 ∉ a ++ e :: b)
    (hfront : ∀ x ∈ a ++ [e], (s.ival x).stop < start)
    (hbehind : ∀ x ∈ b, start < (s.ival x).start) :
    ∃ s' l', ((s.new e2 start stop).addAfter fuel e e2).bind
        (IntervalTree.consumeIntervals fuel fuel · e2) = some s' ∧ Nodes s' l' ∧
      l'.length ≤ (a ++ e :: b).length + 1 ∧
      l'.map s'.ival = Intervals.add start stop ((a ++ e :: b).map s.ival) := by
  rw [show a ++ e :: b = (a ++ [e]) ++ b by simp, List.map_append,
    Intervals.separated_append] at hsep
  obtain ⟨-, hsep, -⟩ := hsep
  obtain ⟨s₁, hadd, hival, hn₁⟩ := (hn.new start stop).addAfter hfuel.le hnew
  rw [hadd, Option.bind_some]
  have hn₂ : Nodes s₁ ((a ++ [e]) ++ e2 :: b) := by simpa using hn₁
  have hlen : ((a ++ [e]) ++ e2 :: b).length ≤ fuel := by
    simp at hfuel ⊢
    omega
  have hadd' := hn₂.add_new hival hlen hsep hfront hbehind
  simpa using hadd'

end

/-! ## The descent -/

section

variable {s : IntervalTree} {t : Ptree.Tree Nat} {ctx : List (Frame Nat)}
  {e e2 fuel n start stop : Nat}

theorem Nodes.of_plug {l r : Ptree.Tree Nat} {ht : Int}
    (hs : Sound s.heap s.tree (plug ctx (.node l e r ht))) :
    Nodes s ((before ctx ++ l.toList) ++ e :: (r.toList ++ after ctx)) :=
  ⟨_, hs, toList_place⟩

/-- The walk down keeps the place between what ends before `start` and what begins behind it. -/
theorem getAddLoop_plug (hs : Sound s.heap s.tree (plug ctx t)) (hroot : t.root = some e)
    (hfuel : (plug ctx t).toList.length < fuel) (hn : t.toList.length ≤ n)
    (hsep : Intervals.Separated ((plug ctx t).toList.map s.ival)) (hlt : start < stop)
    (hnew : e2 ∉ (plug ctx t).toList) (hbefore : ∀ x ∈ before ctx, (s.ival x).stop < start)
    (hafter : ∀ x ∈ after ctx, start < (s.ival x).start) :
    ∃ s' l', s.getAddLoop fuel start stop e2 n e = some s' ∧ Nodes s' l' ∧
      l'.length ≤ (plug ctx t).toList.length + 1 ∧
      l'.map s'.ival = Intervals.add start stop ((plug ctx t).toList.map s.ival) := by
  induction t generalizing ctx e n with
  | nil => exact absurd hroot (by simp)
  | node l x r ht ihl ihr =>
    obtain rfl := Option.some.inj hroot
    have hnode : s.heap x = ⟨l.root, r.root, top ctx, ht⟩ := hs.rep_place.1
    have hnodes := Nodes.of_plug hs
    simp only [Ptree.Tree.toList, List.length_append, List.length_cons] at hn
    obtain ⟨n, rfl⟩ : ∃ m, n = m + 1 := ⟨n - 1, by omega⟩
    unfold IntervalTree.getAddLoop
    split
    · rename_i hat
      rw [toList_place] at hfuel hsep ⊢
      exact hnodes.add_at hfuel hsep hat.1 hat.2 hlt
    · rename_i hat
      split
      · rename_i hstart
        rw [hnode]
        rw [toList_place] at hsep
        have hbehind : ∀ y ∈ x :: (r.toList ++ after ctx), start < (s.ival y).start := by
          intro y hy
          rcases List.mem_cons.mp hy with rfl | hy
          · exact hstart
          · have hxy := sep_behind hsep hy
            have hx := sep_at hsep
            omega
        cases hleft : l.root with
        | some y =>
          have hs' : Sound s.heap s.tree (plug (.left x r ht :: ctx) l) := hs
          refine ihl hs' hleft hfuel (by omega) (toList_place ▸ hsep) hnew ?_ hbehind
          simpa [before, Frame.before] using hbefore
        | none =>
          obtain rfl := Ptree.Tree.eq_nil_of_root hleft
          rw [toList_place] at hfuel hnew ⊢
          exact hnodes.add_before hfuel hsep hnew
            (by simpa [Ptree.Tree.toList] using hbefore) hbehind
      · rename_i hstart
        have hend : (s.ival x).stop < start := by omega
        rw [if_pos hend, hnode]
        rw [toList_place] at hsep
        have hfront : ∀ y ∈ (before ctx ++ l.toList) ++ [x], (s.ival y).stop < start := by
          intro y hy
          rcases List.mem_append.mp hy with hy | hy
          · have hxy := sep_front hsep hy
            have hx := sep_at hsep
            omega
          · obtain rfl := List.mem_singleton.mp hy
            exact hend
        cases hright : r.root with
        | some y =>
          have hs' : Sound s.heap s.tree (plug (.right l x ht :: ctx) r) := hs
          refine ihr hs' hright hfuel (by omega) (toList_place ▸ hsep) hnew ?_ hafter
          simpa [before, Frame.before] using hfront
        | none =>
          obtain rfl := Ptree.Tree.eq_nil_of_root hright
          rw [toList_place] at hfuel hnew ⊢
          exact hnodes.add_after hfuel hsep hnew hfront (by simpa [Ptree.Tree.toList] using hafter)

/-- `psync_interval_tree_add` -/
theorem Nodes.add {l : List Nat} (hn : Nodes s l) (hfuel : l.length < fuel)
    (hsep : Intervals.Separated (l.map s.ival)) (hlt : start < stop) (hnew : e2 ∉ l) :
    ∃ s' l', s.add fuel start stop e2 = some s' ∧ Nodes s' l' ∧ l'.length ≤ l.length + 1 ∧
      l'.map s'.ival = Intervals.add start stop (l.map s.ival) := by
  obtain ⟨t, hs, rfl⟩ := hn
  unfold IntervalTree.add
  rw [if_pos hlt]
  have hroot := hs.root
  cases htree : s.tree with
  | none =>
    rw [htree] at hroot
    obtain rfl := Ptree.Tree.eq_nil_of_root hroot.symm
    refine ⟨_, [e2], rfl, ⟨_, sound_leaf _ e2, rfl⟩, by simp, ?_⟩
    simp [IntervalTree.new, Ptree.Tree.toList, Intervals.add]
  | some e =>
    rw [htree] at hroot
    have hplug : Sound s.heap s.tree (plug [] t) := hs
    exact getAddLoop_plug hplug hroot.symm hfuel (by simpa using hfuel.le) hsep hlt hnew
      (by simp [before]) (by simp [after])

/-! ## Finding -/

theorem find_split {p : Nat → Bool} {a b : List Nat} (ha : ∀ x ∈ a, p x = false)
    (hb : ∀ x ∈ b, p x = true) : (a ++ b).find? p = b.head? := by
  rw [List.find?_append, List.find?_eq_none.mpr (by simpa using ha), Option.none_or]
  cases b with
  | nil => rfl
  | cons x b => rw [List.find?_cons_of_pos (hb x (by simp)), List.head?_cons]

/-- The walk down keeps the place between what ends up to `point` and what ends behind it. -/
theorem firstInterval_plug {point : Nat} (hs : Sound s.heap s.tree (plug ctx t))
    (hfuel : (plug ctx t).toList.length ≤ fuel) (hn : t.toList.length ≤ n)
    (hsep : Intervals.Separated ((plug ctx t).toList.map s.ival))
    (hbefore : ∀ x ∈ before ctx, (s.ival x).stop ≤ point)
    (hafter : ∀ x ∈ after ctx, point < (s.ival x).stop) (hne : t ≠ .nil) :
    s.firstIntervalContainingOrAfter fuel point n t.root =
      some ((plug ctx t).toList.find? fun x => point < (s.ival x).stop) := by
  induction t generalizing ctx n with
  | nil => exact absurd rfl hne
  | node l x r ht ihl ihr =>
    have hnode : s.heap x = ⟨l.root, r.root, top ctx, ht⟩ := hs.rep_place.1
    have hnodes := Nodes.of_plug hs
    simp only [Ptree.Tree.toList, List.length_append, List.length_cons] at hn
    obtain ⟨n, rfl⟩ : ∃ m, n = m + 1 := ⟨n - 1, by omega⟩
    have hsep' := hsep
    rw [toList_place] at hsep'
    rw [Ptree.Tree.root_node]
    unfold IntervalTree.firstIntervalContainingOrAfter
    split
    · rename_i hstop
      have hfront : ∀ y ∈ before ctx ++ (l.toList ++ [x]), (s.ival y).stop ≤ point := by
        intro y hy
        simp only [List.mem_append, List.mem_singleton] at hy
        rcases hy with hy | hy | rfl
        · exact hbefore y hy
        · have hxy := sep_front hsep' (List.mem_append_right (before ctx) hy)
          have hx := sep_at hsep'
          omega
        · exact hstop
      rw [hnode]
      cases hright : r.root with
      | some y =>
        have hs' : Sound s.heap s.tree (plug (.right l x ht :: ctx) r) := hs
        have hne' : r ≠ .nil := by
          rintro rfl
          exact absurd hright (by simp)
        have hrec := ihr hs' hfuel (show r.toList.length ≤ n by omega) hsep hfront hafter hne'
        rw [hright] at hrec
        exact hrec
      | none =>
        obtain rfl := Ptree.Tree.eq_nil_of_root hright
        rw [toList_place] at hfuel ⊢
        dsimp only
        rw [hnodes.getNext hfuel]
        have hsplit : before ctx ++ l.toList ++ x :: (Ptree.Tree.nil.toList ++ after ctx) =
            (before ctx ++ (l.toList ++ [x])) ++ after ctx := by simp [Ptree.Tree.toList]
        rw [hsplit, find_split]
        · simp [Ptree.Tree.toList]
        · simpa using hfront
        · simpa using hafter
    · rename_i hstop
      have hbehind : ∀ y ∈ x :: (r.toList ++ after ctx), point < (s.ival y).stop := by
        intro y hy
        rcases List.mem_cons.mp hy with rfl | hy
        · omega
        · have hxy := sep_behind hsep' hy
          have hy' := hsep'.nonempty (s.ival y) (List.mem_map_of_mem (by simp at hy ⊢; tauto))
          omega
      rw [hnode]
      split
      · rename_i hhere
        have hfront : ∀ y ∈ before ctx ++ l.toList, (s.ival y).stop ≤ point := by
          intro y hy
          rcases hhere with hhere | hhere
          · have hxy := sep_front hsep' hy
            omega
          · obtain rfl := Ptree.Tree.eq_nil_of_root hhere
            exact hbefore y (by simpa [Ptree.Tree.toList] using hy)
        rw [toList_place, find_split]
        · rfl
        · simpa using hfront
        · simpa using hbehind
      · rename_i hleft
        have hs' : Sound s.heap s.tree (plug (.left x r ht :: ctx) l) := hs
        have hne' : l ≠ .nil := by
          rintro rfl
          exact hleft (Or.inr rfl)
        refine ihl hs' hfuel (show l.toList.length ≤ n by omega) hsep ?_ hbehind hne'
        simpa [before, Frame.before] using hbefore

/-- `psync_interval_tree_first_interval_containing_or_after` finds the first interval that ends
behind the point. -/
theorem Nodes.firstInterval {l : List Nat} {point : Nat} (hn : Nodes s l) (hfuel : l.length ≤ fuel)
    (hsep : Intervals.Separated (l.map s.ival)) :
    s.firstIntervalContainingOrAfter fuel point fuel s.tree =
      some (l.find? fun x => point < (s.ival x).stop) := by
  obtain ⟨t, hs, rfl⟩ := hn
  rw [hs.root]
  have hplug : Sound s.heap s.tree (plug [] t) := hs
  cases t with
  | nil => simp [IntervalTree.firstIntervalContainingOrAfter, Ptree.Tree.toList]
  | node l x r ht =>
    exact firstInterval_plug hplug hfuel hfuel hsep (by simp [before]) (by simp [after]) (by simp)

/-! ## Removing -/

/-- The loop has left `a` behind; what is removed is in `b`. -/
theorem Nodes.removeLoop {a b : List Nat} (hn : Nodes s (a ++ b)) (hfuel : (a ++ b).length < fuel)
    (hb : b.length ≤ n) (hsep : Intervals.Separated (b.map s.ival)) (hlt : start < stop)
    (hnew : e2 ∉ a ++ b) (hbehind : ∀ x ∈ b, start < (s.ival x).stop) :
    ∃ s' l', s.removeLoop fuel start stop e2 n b.head? = some s' ∧ Nodes s' l' ∧
      l'.length ≤ (a ++ b).length + 1 ∧
      l'.map s'.ival = a.map s.ival ++ Intervals.remove start stop (b.map s.ival) := by
  induction b generalizing a s n with
  | nil =>
    refine ⟨s, a ++ [], ?_, hn, by omega, by simp⟩
    cases n <;> rfl
  | cons tr b ih =>
    obtain ⟨n, rfl⟩ : ∃ m, n = m + 1 := ⟨n - 1, by simp at hb; omega⟩
    rw [List.map_cons, Intervals.separated_cons] at hsep
    obtain ⟨hne, hrest, hsepb⟩ := hsep
    have hstart := hbehind tr (by simp)
    obtain ⟨htra, htrb⟩ := hn.notMem
    rw [List.length_cons] at hb
    rw [List.head?_cons, List.map_cons, Intervals.remove_cons]
    -- one piece of the interval is left and the loop goes on with the next one
    have hkeep : ∀ i, Intervals.pieces start stop (s.ival tr) = [i] →
        ∃ s' l', IntervalTree.removeLoop fuel start stop e2 n
            { s with ival := Function.update s.ival tr i } b.head? = some s' ∧ Nodes s' l' ∧
          l'.length ≤ (a ++ tr :: b).length + 1 ∧
          l'.map s'.ival = a.map s.ival ++ (Intervals.pieces start stop (s.ival tr) ++
            Intervals.remove start stop (b.map s.ival)) := by
      intro i hpieces
      have hsame : ∀ x ∈ b, Function.update s.ival tr i x = s.ival x := fun x hx =>
        Function.update_of_ne (fun heq : x = tr => htrb (heq ▸ hx)) _ _
      have hn' : Nodes { s with ival := Function.update s.ival tr i } ((a ++ [tr]) ++ b) := by
        rw [List.append_assoc]
        exact hn
      have hmap := map_update s.ival i htrb
      obtain ⟨s', l', hloop, hnodes, hlen, hlist⟩ := @ih { s with ival := _ } n (a ++ [tr]) hn'
        (by simpa using hfuel) (by omega) (by rw [hmap]; exact hsepb) (by simpa using hnew) (by
          intro x hx
          dsimp only
          rw [hsame x hx]
          exact hbehind x (by simp [hx]))
      refine ⟨s', l', hloop, hnodes, by simpa using hlen, ?_⟩
      rw [hlist, hpieces, List.map_append, hmap, map_update _ _ htra]
      simp
    unfold IntervalTree.removeLoop
    split
    · rename_i hsplit
      obtain ⟨s₁, hadd, hival, hn₁⟩ := (hn.new stop (s.ival tr).stop).addAfter hfuel.le hnew
      refine ⟨s₁.setTo tr start, a ++ tr :: e2 :: b, by rw [hadd]; rfl, hn₁.setTo start,
        by simp; omega, ?_⟩
      rw [List.mem_append, List.mem_cons, not_or, not_or] at hnew
      have hne2 : tr ≠ e2 := Ne.symm hnew.2.1
      rw [Intervals.pieces_split hsplit.1 hlt.le hsplit.2,
        Intervals.remove_of_ge hlt.le hsepb.nonempty
        fun i hi => (hsplit.2.trans (hrest i hi)).le]
      simp [IntervalTree.setTo, IntervalTree.new, hival, map_update, htra, htrb, hnew, hne2]
    · rename_i hsplit
      rw [hn.getNext hfuel.le]
      dsimp only
      split
      · rename_i hin
        split
        · rename_i hend
          obtain ⟨s₁, hdel, hival, hn₁⟩ := (hn.setFrom (e := tr) stop).del hfuel.le
          rw [hdel, Option.bind_some, Intervals.pieces_inside hin.1 hend, List.nil_append]
          have hmap : ∀ c : List Nat, tr ∉ c → c.map s₁.ival = c.map s.ival := fun c hc => by
            rw [hival]
            exact map_update _ _ hc
          have hlen : (a ++ b).length ≤ (a ++ tr :: b).length := by simp
          obtain ⟨s', l', hloop, hnodes, hlen', hlist⟩ := @ih s₁ n a hn₁ (by omega) (by omega)
            (by rw [hmap b htrb]; exact hsepb) (by simp at hnew ⊢; tauto) (by
              intro x hx
              have hxtr : x ≠ tr := fun heq => htrb (heq ▸ hx)
              rw [hival, show (s.setFrom tr stop).ival x = s.ival x from
                Function.update_of_ne hxtr _ _]
              exact hbehind x (by simp [hx]))
          refine ⟨s', l', hloop, hnodes, by omega, ?_⟩
          rw [hlist, hmap a htra, hmap b htrb]
        · rename_i hend
          exact hkeep _ (Intervals.pieces_tail hin.1 hin.2 (by omega))
      · rename_i hin
        split
        · rename_i hfront
          exact hkeep _ (Intervals.pieces_head hfront hstart (by omega))
        · rename_i hfront
          refine ⟨s, a ++ tr :: b, rfl, hn, by omega, ?_⟩
          have hkept := @Intervals.remove_of_ge _ _ ((tr :: b).map s.ival) start stop hlt.le
            (Intervals.separated_cons.mpr ⟨hne, hrest, hsepb⟩).nonempty (by
              intro i hi
              rw [List.map_cons, List.mem_cons] at hi
              rcases hi with rfl | hi
              · omega
              · have hi' := hrest i hi
                omega)
          rw [← Intervals.remove_cons, ← List.map_cons, hkept, List.map_append]

theorem split_at_point {ival : Nat → Span Nat} {l : List Nat} (point : Nat)
    (hsep : Intervals.Separated (l.map ival)) :
    ∃ a b, l = a ++ b ∧ (∀ x ∈ a, (ival x).stop ≤ point) ∧ ∀ x ∈ b, point < (ival x).stop := by
  induction l with
  | nil => exact ⟨[], [], rfl, by simp, by simp⟩
  | cons x l ih =>
    rw [List.map_cons, Intervals.separated_cons] at hsep
    obtain ⟨-, hbehind, hsep⟩ := hsep
    by_cases hx : (ival x).stop ≤ point
    · obtain ⟨a, b, rfl, ha, hb⟩ := ih hsep
      exact ⟨x :: a, b, rfl, by simpa [hx] using ha, hb⟩
    · refine ⟨[], x :: l, rfl, by simp, fun y hy => ?_⟩
      rcases List.mem_cons.mp hy with rfl | hy
      · omega
      · have hxy := hbehind (ival y) (List.mem_map_of_mem hy)
        have hy' := hsep.nonempty (ival y) (List.mem_map_of_mem hy)
        omega

/-- `psync_interval_tree_remove` -/
theorem Nodes.remove {l : List Nat} (hn : Nodes s l) (hfuel : l.length < fuel)
    (hsep : Intervals.Separated (l.map s.ival)) (hlt : start < stop) (hnew : e2 ∉ l) :
    ∃ s' l', s.remove fuel start stop e2 = some s' ∧ Nodes s' l' ∧ l'.length ≤ l.length + 1 ∧
      l'.map s'.ival = Intervals.remove start stop (l.map s.ival) := by
  unfold IntervalTree.remove
  rw [hn.firstInterval hfuel.le hsep, Option.bind_some]
  obtain ⟨a, b, rfl, ha, hb⟩ := split_at_point start hsep
  rw [find_split (by simpa using ha) (by simpa using hb), List.map_append, Intervals.remove_append]
  rw [List.map_append, Intervals.separated_append] at hsep
  have hkept := Intervals.remove_of_le hlt.le hsep.1.nonempty (by simpa using ha)
  rw [hkept]
  have hlen : b.length ≤ fuel := by
    rw [List.length_append] at hfuel
    omega
  exact hn.removeLoop hfuel hlen hsep.2.1 hlt hnew hb

/-! ## Cutting -/

theorem Nodes.cutEndLoop {l : List Nat} (hn : Nodes s l) (hfuel : l.length ≤ fuel)
    (hl : l.length ≤ n) (hsep : Intervals.Separated (l.map s.ival)) :
    ∃ s' l', s.cutEndLoop fuel stop n l.getLast? = some s' ∧ Nodes s' l' ∧
      l'.length ≤ l.length ∧ l'.map s'.ival = Intervals.cutEnd stop (l.map s.ival) := by
  induction l using List.reverseRecOn generalizing s n with
  | nil =>
    refine ⟨s, [], ?_, hn, Nat.le_refl _, rfl⟩
    cases n <;> rfl
  | append_singleton l last ih =>
    rw [List.length_append, List.length_singleton] at hl
    obtain ⟨n, rfl⟩ : ∃ m, n = m + 1 := ⟨n - 1, by omega⟩
    obtain ⟨hlast, -⟩ := hn.notMem
    have hat := sep_at hsep
    have hfront := fun x => sep_front (x := x) hsep
    rw [List.getLast?_append, List.getLast?_singleton, Option.some_or, List.map_append,
      List.map_singleton, Intervals.cutEnd_append]
    rw [List.map_append, Intervals.separated_append] at hsep
    have hkept : (∀ x ∈ l, (s.ival x).stop ≤ stop) →
        Intervals.cutEnd stop (l.map s.ival) = l.map s.ival := fun hle =>
      Intervals.cutEnd_of_le hsep.1.nonempty (by simpa using hle)
    unfold IntervalTree.cutEndLoop
    split
    · rename_i hstop
      split
      · rename_i hstart
        refine ⟨s.setTo last stop, l ++ [last], rfl, hn, by simp, ?_⟩
        rw [hkept fun x hx => by have := hfront x hx; omega]
        simp [IntervalTree.setTo, map_update _ _ hlast, Intervals.cutEnd, Intervals.front, hstart,
          min_eq_right hstop.le]
      · rename_i hstart
        rw [hn.getPrev hfuel]
        obtain ⟨s', hdel, hival, hn'⟩ := hn.del hfuel
        rw [List.append_nil] at hn'
        rw [hdel]
        dsimp only
        rw [Option.bind_some]
        rw [List.length_append, List.length_singleton] at hfuel
        obtain ⟨s₂, l₂, hloop, hnodes, hlen, hlist⟩ :=
          @ih s' n hn' (by omega) (by omega) (by rw [hival]; exact hsep.1)
        refine ⟨s₂, l₂, hloop, hnodes, by simp; omega, ?_⟩
        rw [hlist, hival]
        simp [Intervals.cutEnd, Intervals.front, hstart]
    · rename_i hstop
      refine ⟨s, l ++ [last], rfl, hn, by simp, ?_⟩
      rw [hkept fun x hx => by have := hfront x hx; omega]
      simp [Intervals.cutEnd, Intervals.front, show (s.ival last).start < stop by omega,
        min_eq_left (not_lt.mp hstop)]

/-- `psync_interval_tree_cut_end` -/
theorem Nodes.cutEnd {l : List Nat} (hn : Nodes s l) (hfuel : l.length ≤ fuel)
    (hsep : Intervals.Separated (l.map s.ival)) :
    ∃ s' l', s.cutEnd fuel stop = some s' ∧ Nodes s' l' ∧ l'.length ≤ l.length ∧
      l'.map s'.ival = Intervals.cutEnd stop (l.map s.ival) := by
  unfold IntervalTree.cutEnd
  rw [hn.getLast hfuel, Option.bind_some]
  exact hn.cutEndLoop hfuel hfuel hsep

end

end PcloudClient.Pintervaltree
