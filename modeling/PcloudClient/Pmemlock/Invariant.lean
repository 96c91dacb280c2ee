/-
  Pmemlock/Invariant.lean --- blocks and free intervals tile the ranges, and the pages count the
  locked ranges on them.

  While a range is being locked its first pages already count it, though the range does not say
  that it is locked; `extra` is what they count.
-/
import Mathlib.Data.List.Nodup
import Mathlib.Data.List.Pairwise
import PcloudClient.Pmemlock.Allocator

set_option autoImplicit false

namespace PcloudClient.Pmemlock

open PcloudClient.Foundation

variable {debug : Bool} {pageSize : Option Nat} {s : State} {b b' : Block} {r r' : Range}
  {extra : Nat → Nat} {p : Nat}

/-! ## Places -/

def Block.Inside (debug : Bool) (b : Block) (r : Range) : Prop :=
  r.mem + LM_RANGE_OVERHEAD ≤ b.start ∧ b.stop debug ≤ r.mem + r.size

def Block.Covers (debug : Bool) (b : Block) (x : Nat) : Prop := b.start ≤ x ∧ x < b.stop debug

def Block.Apart (debug : Bool) (b b' : Block) : Prop :=
  b.stop debug ≤ b'.start ∨ b'.stop debug ≤ b.start

def Range.Apart (r r' : Range) : Prop := r.mem + r.size ≤ r'.mem ∨ r'.mem + r'.size ≤ r.mem

/-- Some byte of the range is on the page. -/
def covers (pageSize : Option Nat) (ptr size p : Nat) : Bool :=
  match pageSize with
  | none => false
  | some ps => ptr / ps ≤ p && p ≤ (ptr + size - 1) / ps

def Range.lockedOn (pageSize : Option Nat) (p : Nat) (r : Range) : Bool :=
  r.locked && covers pageSize r.mem r.size p

structure Inv (debug : Bool) (pageSize : Option Nat) (extra : Nat → Nat) (s : State) : Prop where
  apart : s.ranges.Pairwise Range.Apart
  sized : ∀ r ∈ s.ranges, 0 < r.size ∧ r.mem + r.size ≤ 2 ^ 64
  separated : ∀ r ∈ s.ranges, Intervals.Separated r.freeintervals
  tiled : ∀ r ∈ s.ranges, ∀ x, x ∈ Intervals.union r.freeintervals ↔
    LM_RANGE_OVERHEAD ≤ x ∧ x < r.size ∧ ∀ b ∈ s.blocks, ¬ b.Covers debug (r.mem + x)
  used : ∀ r ∈ s.ranges, ∃ b ∈ s.blocks, b.Inside debug r
  blocks : s.blocks.Pairwise (Block.Apart debug)
  inside : ∀ b ∈ s.blocks, ∃ r ∈ s.ranges, b.Inside debug r
  filled : ∀ b ∈ s.blocks, b.requested + LM_OVERHEAD ≤ b.size debug
  counted : ∀ p, s.pages p = s.ranges.countP (Range.lockedOn pageSize p) + extra p
  alive : s.aborted = false ∧ s.usedFreed = false

theorem Inv.init : Inv debug pageSize (fun _ => 0) .init where
  apart := List.Pairwise.nil
  sized := nofun
  separated := nofun
  tiled := nofun
  used := nofun
  blocks := List.Pairwise.nil
  inside := nofun
  filled := nofun
  counted _ := rfl
  alive := ⟨rfl, rfl⟩

instance : Std.Symm Range.Apart := ⟨fun _ _ => Or.symm⟩

instance : Std.Symm (Block.Apart debug) := ⟨fun _ _ => Or.symm⟩

namespace Inv

/-- Two ranges with a common address are one. -/
theorem range_eq (h : Inv debug pageSize extra s) (hr : r ∈ s.ranges) (hr' : r' ∈ s.ranges)
    {x : Nat} (hx : r.mem ≤ x ∧ x < r.mem + r.size) (hx' : r'.mem ≤ x ∧ x < r'.mem + r'.size) :
    r = r' := by
  by_contra hne
  rcases h.apart.forall hr hr' hne with hap | hap <;> omega

theorem range_eq_of_mem (h : Inv debug pageSize extra s) (hr : r ∈ s.ranges) (hr' : r' ∈ s.ranges)
    (hmem : r.mem = r'.mem) : r = r' := by
  have hsize := (h.sized r hr).1
  have hsize' := (h.sized r' hr').1
  exact h.range_eq hr hr' (x := r.mem) (by omega) (by omega)

theorem size_pos (h : Inv debug pageSize extra s) (hb : b ∈ s.blocks) : 0 < b.size debug := by
  have hfilled := h.filled b hb
  have hoverhead : LM_OVERHEAD = 16 := rfl
  omega

/-- The range of a block holds its first byte. -/
theorem start_in (h : Inv debug pageSize extra s) (hb : b ∈ s.blocks) (hin : b.Inside debug r) :
    r.mem ≤ b.start ∧ b.start < r.mem + r.size := by
  have hpos := h.size_pos hb
  obtain ⟨hfrom, hto⟩ := hin
  unfold Block.stop at hto
  have hoverhead : LM_RANGE_OVERHEAD = 8 := rfl
  omega

theorem inside_eq (h : Inv debug pageSize extra s) (hr : r ∈ s.ranges) (hr' : r' ∈ s.ranges)
    (hb : b ∈ s.blocks) (hin : b.Inside debug r) (hin' : b.Inside debug r') : r = r' :=
  h.range_eq hr hr' (h.start_in hb hin) (h.start_in hb hin')

/-- The range lies once in the list. -/
theorem split (h : Inv debug pageSize extra s) (hr : r ∈ s.ranges) :
    ∃ a c, s.ranges = a ++ r :: c ∧ (∀ r' ∈ a, r'.mem ≠ r.mem) ∧ ∀ r' ∈ c, r'.mem ≠ r.mem := by
  obtain ⟨a, c, hsplit⟩ := List.append_of_mem hr
  have hapart := h.apart
  rw [hsplit, List.pairwise_append, List.pairwise_cons] at hapart
  have hsize := (h.sized r hr).1
  refine ⟨a, c, hsplit, fun r' hr' hmem => ?_, fun r' hr' hmem => ?_⟩
  · have hsize' := (h.sized r' (by rw [hsplit]; simp [hr'])).1
    rcases hapart.2.2 r' hr' r (List.mem_cons_self ..) with hap | hap <;> omega
  · have hsize' := (h.sized r' (by rw [hsplit]; simp [hr'])).1
    rcases hapart.2.1.1 r' hr' with hap | hap <;> omega

theorem nodup (h : Inv debug pageSize extra s) : s.blocks.Nodup := by
  refine h.blocks.imp_of_mem fun {b b'} hb _ hapart => ?_
  rintro rfl
  have hpos := h.size_pos hb
  unfold Block.Apart Block.stop at hapart
  omega

theorem mem_erase (h : Inv debug pageSize extra s) :
    b' ∈ s.blocks.erase b ↔ b' ≠ b ∧ b' ∈ s.blocks :=
  h.nodup.mem_erase_iff

theorem apart_of_ne (h : Inv debug pageSize extra s) (hb : b ∈ s.blocks) (hb' : b' ∈ s.blocks)
    (hne : b ≠ b') : Block.Apart debug b b' :=
  h.blocks.forall hb hb' hne

/-- A block covers addresses of its range only. -/
theorem covers_range (h : Inv debug pageSize extra s) (hr : r ∈ s.ranges) (hb : b ∈ s.blocks)
    {x : Nat} (hx : x < r.size) (hcov : b.Covers debug (r.mem + x)) : b.Inside debug r := by
  obtain ⟨r', hr', hin'⟩ := h.inside b hb
  have hoverhead : LM_RANGE_OVERHEAD = 8 := rfl
  have hfrom := hin'.1
  have hto := hin'.2
  unfold Block.Covers at hcov
  obtain rfl : r = r' := h.range_eq hr hr' (x := r.mem + x) (by omega) (by omega)
  exact hin'

end Inv

/-! ## Pages -/

theorem mem_pagesOf {ps ptr size : Nat} (hend : ptr + size ≤ 2 ^ 64) :
    p ∈ pagesOf ps ptr size ↔ ptr / ps ≤ p ∧ p ≤ (ptr + size - 1) / ps := by
  unfold pagesOf
  rw [Nat.mod_eq_of_lt (by omega)]
  simp only [List.mem_range'_1]
  omega

theorem covers_eq {ps ptr size : Nat} (hend : ptr + size ≤ 2 ^ 64) :
    covers (some ps) ptr size p = decide (p ∈ pagesOf ps ptr size) := by
  rw [Bool.eq_iff_iff, decide_eq_true_iff, mem_pagesOf hend]
  simp [covers]

theorem pagesOf_nodup (ps ptr size : Nat) : (pagesOf ps ptr size).Nodup :=
  List.nodup_range'

theorem unlockPages_eq (s : State) (l : List Nat) :
    s.unlockPages l = { s with pages := fun p => s.pages p - l.count p } := by
  induction l generalizing s with
  | nil => rfl
  | cons q l ih =>
    unfold State.unlockPages at ih ⊢
    rw [List.foldl_cons, ih]
    unfold State.unlockPage State.setPage
    congr 1
    funext p
    dsimp only
    by_cases hpq : p = q
    · subst hpq
      rw [Function.update_self, List.count_cons_self]
      omega
    · rw [Function.update_of_ne hpq, List.count_cons_of_ne (Ne.symm hpq)]

theorem memUnlock_eq {ptr size : Nat} (hend : ptr + size ≤ 2 ^ 64) :
    s.memUnlock pageSize ptr size =
      { s with pages := fun p => s.pages p - (covers pageSize ptr size p).toNat } := by
  cases pageSize with
  | none => simp [State.memUnlock, covers]
  | some ps =>
    rw [State.memUnlock, unlockPages_eq]
    congr 1
    funext p
    rw [covers_eq hend, (pagesOf_nodup ps ptr size).count]
    split <;> simp_all

/-! ## The whole of a range -/

/-- Separated intervals that are all of an interval are that one. -/
theorem eq_singleton {l : List (Span Nat)} {a c : Nat} (hsep : Intervals.Separated l) (hac : a < c)
    (hall : ∀ x, x ∈ Intervals.union l ↔ a ≤ x ∧ x < c) : l = [⟨a, c⟩] := by
  cases l with
  | nil => exact absurd ((hall a).mpr ⟨Nat.le_refl a, hac⟩) (by simp)
  | cons i l =>
    obtain ⟨hne, hbefore, hl⟩ := Intervals.separated_cons.mp hsep
    have hstart := (hall i.start).mp (Intervals.mem_union.mpr ⟨i, List.mem_cons_self .., by omega⟩)
    have hlast := (hall (i.stop - 1)).mp
      (Intervals.mem_union.mpr ⟨i, List.mem_cons_self .., by omega⟩)
    -- What follows the first interval is not in the set, so the first interval ends it.
    have hgap : i.stop ∉ Intervals.union (i :: l) := by
      intro hmem
      obtain ⟨j, hj, hjl, hjr⟩ := Intervals.mem_union.mp hmem
      rcases List.mem_cons.mp hj with rfl | hj
      · omega
      · have hij := hbefore j hj
        omega
    have hstop : i.stop = c := by
      by_contra hne
      exact hgap ((hall i.stop).mpr (by omega))
    have hnil : l = [] := by
      refine List.eq_nil_iff_forall_not_mem.mpr fun j hj => ?_
      have hij := hbefore j hj
      have hjne := hl.nonempty j hj
      have hjmem := (hall j.start).mp
        (Intervals.mem_union.mpr ⟨j, List.mem_cons_of_mem _ hj, by omega⟩)
      omega
    have hfirst : i.start = a := by
      obtain ⟨j, hj, hjl, hjr⟩ := Intervals.mem_union.mp ((hall a).mpr ⟨Nat.le_refl a, hac⟩)
      rw [hnil, List.mem_singleton] at hj
      subst hj
      omega
    rw [hnil, ← hfirst, ← hstop]

end PcloudClient.Pmemlock
