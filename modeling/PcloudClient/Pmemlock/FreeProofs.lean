/-
  Pmemlock/FreeProofs.lean --- what `psync_locked_free` keeps, and how the ranges get on under it.
-/
import PcloudClient.Pmemlock.Invariant

set_option autoImplicit false

namespace PcloudClient.Pmemlock

open PcloudClient.Foundation

variable {debug : Bool} {pageSize : Option Nat} {s s' s'' : State} {b b' : Block} {r r' : Range}
  {extra : Nat → Nat} {p : Nat}

/-- Frees were made: the ranges that are left have at least the free bytes that they had. -/
structure Shrinks (s s' : State) : Prop where
  blocks : ∀ b ∈ s'.blocks, b ∈ s.blocks
  ranges : ∀ r' ∈ s'.ranges, ∃ r ∈ s.ranges, r.mem = r'.mem ∧ r.size = r'.size ∧
    r.locked = r'.locked ∧ Intervals.union r.freeintervals ⊆ Intervals.union r'.freeintervals

theorem Shrinks.refl (s : State) : Shrinks s s :=
  ⟨fun _ hb => hb, fun r hr => ⟨r, hr, rfl, rfl, rfl, fun _ hx => hx⟩⟩

theorem Shrinks.trans (h : Shrinks s s') (h' : Shrinks s' s'') : Shrinks s s'' where
  blocks b hb := h.blocks b (h'.blocks b hb)
  ranges r hr := by
    obtain ⟨r₁, hr₁, hmem₁, hsize₁, hlocked₁, hfree₁⟩ := h'.ranges r hr
    obtain ⟨r₀, hr₀, hmem₀, hsize₀, hlocked₀, hfree₀⟩ := h.ranges r₁ hr₁
    exact ⟨r₀, hr₀, hmem₀.trans hmem₁, hsize₀.trans hsize₁, hlocked₀.trans hlocked₁,
      fun x hx => hfree₁ (hfree₀ hx)⟩

/-! ## One free -/

/-- The free intervals of a range after the free of one of its blocks. -/
def freed (debug : Bool) (b : Block) (r : Range) : List (Span Nat) :=
  Intervals.add (b.start - r.mem) (b.start - r.mem + b.size debug) r.freeintervals

namespace Inv

/-- The search ends at the range of the block. -/
theorem find_range (h : Inv debug pageSize extra s) (hb : b ∈ s.blocks) (hr : r ∈ s.ranges)
    (hin : b.Inside debug r) :
    (s.ranges.find? fun r => r.mem ≤ b.start ∧ b.start < r.mem + r.size) = some r := by
  have hstart := h.start_in hb hin
  cases hfind : s.ranges.find? fun r => r.mem ≤ b.start ∧ b.start < r.mem + r.size with
  | none =>
    have hno := List.find?_eq_none.mp hfind r hr
    exact absurd (by simpa using hstart) hno
  | some r' =>
    have hr' := List.mem_of_find?_eq_some hfind
    have hx' := List.find?_some hfind
    rw [h.range_eq hr' hr (by simpa using hx') hstart]

theorem freed_separated (h : Inv debug pageSize extra s) (hb : b ∈ s.blocks) (hr : r ∈ s.ranges) :
    Intervals.Separated (freed debug b r) :=
  (h.separated r hr).add (by have hpos := h.size_pos hb; omega)

theorem subset_freed (r : Range) :
    Intervals.union r.freeintervals ⊆ Intervals.union (freed debug b r) := by
  intro x hx
  unfold freed
  rw [Intervals.union_add]
  exact .inr hx

/-- The freed bytes are free, and the other blocks stay. -/
theorem freed_tiled (h : Inv debug pageSize extra s) (hb : b ∈ s.blocks) (hr : r ∈ s.ranges)
    (hin : b.Inside debug r) (x : Nat) :
    x ∈ Intervals.union (freed debug b r) ↔
      LM_RANGE_OVERHEAD ≤ x ∧ x < r.size ∧
        ∀ b' ∈ s.blocks.erase b, ¬ b'.Covers debug (r.mem + x) := by
  have hpos := h.size_pos hb
  have hoverhead : LM_RANGE_OVERHEAD = 8 := rfl
  obtain ⟨hfrom, hto⟩ := hin
  unfold Block.stop at hto
  unfold freed
  rw [Intervals.union_add, Set.mem_union, Set.mem_Ico, h.tiled r hr]
  constructor
  · rintro (⟨hlo, hhi⟩ | ⟨hlo, hhi, hnone⟩)
    · refine ⟨by omega, by omega, fun b' hb' hcov => ?_⟩
      obtain ⟨hne, hmem⟩ := h.mem_erase.mp hb'
      have hapart := h.apart_of_ne hmem hb hne
      unfold Block.Apart Block.stop at hapart
      unfold Block.Covers Block.stop at hcov
      omega
    · exact ⟨hlo, hhi, fun b' hb' => hnone b' (h.mem_erase.mp hb').2⟩
  · rintro ⟨hlo, hhi, hnone⟩
    by_cases hcov : b.Covers debug (r.mem + x)
    · left
      unfold Block.Covers Block.stop at hcov
      omega
    · right
      refine ⟨hlo, hhi, fun b' hb' => ?_⟩
      by_cases hbb : b' = b
      · exact hbb ▸ hcov
      · exact hnone b' (h.mem_erase.mpr ⟨hbb, hb'⟩)

/-- A range is whole again just if no other block is left in it. -/
theorem freed_whole (h : Inv debug pageSize extra s) (hb : b ∈ s.blocks) (hr : r ∈ s.ranges)
    (hin : b.Inside debug r) :
    freed debug b r = [⟨LM_RANGE_OVERHEAD, r.size⟩] ↔
      ∀ b' ∈ s.blocks.erase b, ¬ b'.Inside debug r := by
  have htiled := h.freed_tiled hb hr hin
  have hoverhead : LM_RANGE_OVERHEAD = 8 := rfl
  constructor
  · intro hwhole b' hb' hin'
    have hpos := h.size_pos (h.mem_erase.mp hb').2
    obtain ⟨hfrom, hto⟩ := hin'
    unfold Block.stop at hto
    have hall : b'.start - r.mem ∈ Intervals.union (freed debug b r) := by
      rw [hwhole]
      exact Intervals.mem_union.mpr ⟨_, List.mem_singleton_self _, by dsimp only; omega⟩
    refine ((htiled _).mp hall).2.2 b' hb' ?_
    unfold Block.Covers Block.stop
    omega
  · intro hnone
    have hstart := h.start_in hb hin
    refine eq_singleton (h.freed_separated hb hr) (by have hlo := hin.1; omega) fun x => ?_
    rw [htiled x]
    refine ⟨fun hx => ⟨hx.1, hx.2.1⟩, fun hx => ⟨hx.1, hx.2, fun b' hb' hcov => ?_⟩⟩
    exact hnone b' hb' (h.covers_range hr (h.mem_erase.mp hb').2 hx.2 hcov)

/-- The blocks of another range stay as they are. -/
theorem tiled_other (h : Inv debug pageSize extra s) (hb : b ∈ s.blocks) (hr : r ∈ s.ranges)
    (hin : b.Inside debug r) (hr' : r' ∈ s.ranges) (hne : r'.mem ≠ r.mem) (x : Nat) :
    x ∈ Intervals.union r'.freeintervals ↔ LM_RANGE_OVERHEAD ≤ x ∧ x < r'.size ∧
      ∀ b' ∈ s.blocks.erase b, ¬ b'.Covers debug (r'.mem + x) := by
  rw [h.tiled r' hr']
  refine ⟨fun ⟨hlo, hhi, hnone⟩ => ⟨hlo, hhi, fun b' hb' => hnone b' (h.mem_erase.mp hb').2⟩,
    fun ⟨hlo, hhi, hnone⟩ => ⟨hlo, hhi, fun b' hb' hcov => ?_⟩⟩
  by_cases hbb : b' = b
  · subst hbb
    exact hne (congrArg Range.mem (h.inside_eq hr' hr hb (h.covers_range hr' hb hhi hcov) hin))
  · exact hnone b' (h.mem_erase.mpr ⟨hbb, hb'⟩) hcov

/-- Another range has another block. -/
theorem used_other (h : Inv debug pageSize extra s) (hb : b ∈ s.blocks) (hr : r ∈ s.ranges)
    (hin : b.Inside debug r) (hr' : r' ∈ s.ranges) (hne : r'.mem ≠ r.mem) :
    ∃ b' ∈ s.blocks.erase b, b'.Inside debug r' := by
  obtain ⟨b', hb', hin'⟩ := h.used r' hr'
  refine ⟨b', h.mem_erase.mpr ⟨?_, hb'⟩, hin'⟩
  rintro rfl
  exact hne (congrArg Range.mem (h.inside_eq hr' hr hb' hin' hin))

end Inv

/-- The first way out of `psync_locked_free`: the range goes. -/
theorem lockedFree_whole (h : Inv debug pageSize extra s) (hb : b ∈ s.blocks) (hr : r ∈ s.ranges)
    (hin : b.Inside debug r) (hwhole : freed debug b r = [⟨LM_RANGE_OVERHEAD, r.size⟩]) :
    s.lockedFree debug pageSize b =
      { s with
        blocks := s.blocks.erase b
        ranges := s.ranges.filter fun r' => r'.mem ≠ r.mem
        pages := fun p => s.pages p - (r.lockedOn pageSize p).toNat } := by
  have hpos := h.size_pos hb
  unfold freed at hwhole
  unfold State.lockedFree
  simp only [h.find_range hb hr hin]
  rw [if_neg (by omega), if_pos hwhole]
  by_cases hlocked : r.locked
  · rw [if_pos hlocked, memUnlock_eq (h.sized r hr).2]
    simp [Range.lockedOn, hlocked]
  · rw [if_neg hlocked]
    simp [Range.lockedOn, hlocked]

/-- The second way: the range stays. -/
theorem lockedFree_part (h : Inv debug pageSize extra s) (hb : b ∈ s.blocks) (hr : r ∈ s.ranges)
    (hin : b.Inside debug r) (hpart : freed debug b r ≠ [⟨LM_RANGE_OVERHEAD, r.size⟩]) :
    s.lockedFree debug pageSize b =
      { s with
        blocks := s.blocks.erase b
        ranges := s.ranges.map fun r' =>
          if r'.mem = r.mem then { r' with freeintervals := freed debug b r } else r' } := by
  have hpos := h.size_pos hb
  unfold freed at hpart ⊢
  unfold State.lockedFree
  simp only [h.find_range hb hr hin]
  rw [if_neg (by omega), if_neg hpart]
  unfold State.modifyRange
  rw [if_pos (List.any_eq_true.mpr ⟨r, hr, by simp⟩)]

/-! ## The invariant -/

/-- A range that is changed as `modifyRange` does it. -/
theorem mem_map_range (f : Range → Range) (hf : ∀ r, (f r).mem = r.mem) {l : List Range} {mem : Nat}
    (hr' : r' ∈ l.map fun r => if r.mem = mem then f r else r) :
    ∃ r ∈ l, r.mem = r'.mem ∧ (r.mem = mem → r' = f r) ∧ (r.mem ≠ mem → r' = r) := by
  obtain ⟨r, hr, rfl⟩ := List.mem_map.mp hr'
  refine ⟨r, hr, ?_, fun heq => if_pos heq, fun hne => if_neg hne⟩
  split
  · exact (hf r).symm
  · rfl

theorem pairwise_map_range (f : Range → Range) (hmem : ∀ r, (f r).mem = r.mem)
    (hsize : ∀ r, (f r).size = r.size) {l : List Range} (h : l.Pairwise Range.Apart) (mem : Nat) :
    (l.map fun r => if r.mem = mem then f r else r).Pairwise Range.Apart := by
  refine h.map _ fun r r' hapart => ?_
  unfold Range.Apart at hapart ⊢
  split <;> split <;> simpa only [hmem, hsize] using hapart

theorem countP_map_range (f : Range → Range) {q : Range → Bool} (hq : ∀ r, q (f r) = q r)
    (l : List Range) (mem : Nat) :
    (l.map fun r => if r.mem = mem then f r else r).countP q = l.countP q := by
  rw [List.countP_map]
  refine List.countP_congr fun r _ => ?_
  simp only [Function.comp]
  split
  · rw [hq]
  · rfl

/-- The range that goes was counted on its pages. -/
theorem Inv.countP_drop (h : Inv debug pageSize extra s) (hr : r ∈ s.ranges) (q : Range → Bool) :
    s.ranges.countP q = (s.ranges.filter fun r' => r'.mem ≠ r.mem).countP q + (q r).toNat := by
  obtain ⟨a, c, hsplit, ha, hc⟩ := h.split hr
  have hfilter : s.ranges.filter (fun r' => r'.mem ≠ r.mem) = a ++ c := by
    rw [hsplit, List.filter_append, List.filter_cons_of_neg (by simp),
      List.filter_eq_self.mpr fun r' hr' => by simpa using ha r' hr',
      List.filter_eq_self.mpr fun r' hr' => by simpa using hc r' hr']
  rw [hfilter, hsplit, List.countP_append, List.countP_cons, List.countP_append]
  cases q r
  · simp
  · simp
    omega

theorem Inv.free_whole (h : Inv debug pageSize extra s) (hb : b ∈ s.blocks) (hr : r ∈ s.ranges)
    (hin : b.Inside debug r) (hwhole : freed debug b r = [⟨LM_RANGE_OVERHEAD, r.size⟩]) :
    Inv debug pageSize extra (s.lockedFree debug pageSize b) := by
  have hmem : ∀ r', r' ∈ s.ranges.filter (fun r' => r'.mem ≠ r.mem) ↔
      r' ∈ s.ranges ∧ r'.mem ≠ r.mem := fun r' => by simp [List.mem_filter]
  rw [lockedFree_whole h hb hr hin hwhole]
  exact
    { apart := h.apart.filter _
      sized := fun r' hr' => h.sized r' ((hmem r').mp hr').1
      separated := fun r' hr' => h.separated r' ((hmem r').mp hr').1
      tiled := fun r' hr' =>
        h.tiled_other hb hr hin ((hmem r').mp hr').1 ((hmem r').mp hr').2
      used := fun r' hr' => h.used_other hb hr hin ((hmem r').mp hr').1 ((hmem r').mp hr').2
      blocks := h.blocks.sublist List.erase_sublist
      inside := fun b' hb' => by
        obtain ⟨r', hr', hin'⟩ := h.inside b' (h.mem_erase.mp hb').2
        refine ⟨r', (hmem r').mpr ⟨hr', fun heq => ?_⟩, hin'⟩
        obtain rfl := h.range_eq_of_mem hr' hr heq
        exact (h.freed_whole hb hr hin).mp hwhole b' hb' hin'
      filled := fun b' hb' => h.filled b' (h.mem_erase.mp hb').2
      counted := fun p => by
        have hcounted := h.counted p
        have hdrop := h.countP_drop hr (Range.lockedOn pageSize p)
        dsimp only
        omega
      alive := h.alive }

theorem Inv.free_part (h : Inv debug pageSize extra s) (hb : b ∈ s.blocks) (hr : r ∈ s.ranges)
    (hin : b.Inside debug r) (hpart : freed debug b r ≠ [⟨LM_RANGE_OVERHEAD, r.size⟩]) :
    Inv debug pageSize extra (s.lockedFree debug pageSize b) := by
  -- Each range of the new list is one of the old list, that of the block with other intervals.
  have hold : ∀ r', r' ∈ (s.ranges.map fun r' =>
      if r'.mem = r.mem then { r' with freeintervals := freed debug b r } else r') →
      r' = { r with freeintervals := freed debug b r } ∨ r' ∈ s.ranges ∧ r'.mem ≠ r.mem := by
    intro r' hr'
    obtain ⟨r₀, hr₀, hmem, heq, hne⟩ :=
      mem_map_range (fun r' => { r' with freeintervals := freed debug b r }) (fun _ => rfl) hr'
    by_cases hsame : r₀.mem = r.mem
    · obtain rfl := h.range_eq_of_mem hr₀ hr hsame
      exact .inl (heq rfl)
    · exact .inr ⟨(hne hsame).symm ▸ hr₀, hmem ▸ hsame⟩
  rw [lockedFree_part h hb hr hin hpart]
  exact
    { apart := pairwise_map_range (fun r' => { r' with freeintervals := freed debug b r })
        (fun _ => rfl) (fun _ => rfl) h.apart r.mem
      sized := fun r' hr' => by
        rcases hold r' hr' with rfl | ⟨hr', -⟩
        · exact h.sized r hr
        · exact h.sized r' hr'
      separated := fun r' hr' => by
        rcases hold r' hr' with rfl | ⟨hr', -⟩
        · exact h.freed_separated hb hr
        · exact h.separated r' hr'
      tiled := fun r' hr' => by
        rcases hold r' hr' with rfl | ⟨hr', hne⟩
        · exact h.freed_tiled hb hr hin
        · exact h.tiled_other hb hr hin hr' hne
      used := fun r' hr' => by
        rcases hold r' hr' with rfl | ⟨hr', hne⟩
        · have hsome := (not_congr (h.freed_whole hb hr hin)).mp hpart
          push Not at hsome
          exact hsome
        · exact h.used_other hb hr hin hr' hne
      blocks := h.blocks.sublist List.erase_sublist
      inside := fun b' hb' => by
        obtain ⟨r', hr', hin'⟩ := h.inside b' (h.mem_erase.mp hb').2
        refine ⟨_, List.mem_map_of_mem hr', ?_⟩
        split <;> exact hin'
      filled := fun b' hb' => h.filled b' (h.mem_erase.mp hb').2
      counted := fun p => by
        dsimp only
        rw [countP_map_range (fun r' => { r' with freeintervals := freed debug b r })
          fun _ => rfl]
        exact h.counted p
      alive := h.alive }

/-- A free of a block keeps the invariant, and takes no other block. -/
theorem Inv.free (h : Inv debug pageSize extra s) (hb : b ∈ s.blocks) :
    Inv debug pageSize extra (s.lockedFree debug pageSize b) ∧
      Shrinks s (s.lockedFree debug pageSize b) ∧
      (s.lockedFree debug pageSize b).blocks = s.blocks.erase b := by
  obtain ⟨r, hr, hin⟩ := h.inside b hb
  by_cases hwhole : freed debug b r = [⟨LM_RANGE_OVERHEAD, r.size⟩]
  · refine ⟨h.free_whole hb hr hin hwhole, ?_, ?_⟩
    · rw [lockedFree_whole h hb hr hin hwhole]
      exact ⟨fun b' hb' => (h.mem_erase.mp hb').2,
        fun r' hr' => ⟨r', List.mem_of_mem_filter hr', rfl, rfl, rfl, fun _ hx => hx⟩⟩
    · rw [lockedFree_whole h hb hr hin hwhole]
  · refine ⟨h.free_part hb hr hin hwhole, ?_, ?_⟩
    · rw [lockedFree_part h hb hr hin hwhole]
      refine ⟨fun b' hb' => (h.mem_erase.mp hb').2, fun r' hr' => ?_⟩
      obtain ⟨r₀, hr₀, rfl⟩ := List.mem_map.mp hr'
      refine ⟨r₀, hr₀, ?_⟩
      split
      · next hmem =>
        obtain rfl := h.range_eq_of_mem hr₀ hr hmem
        exact ⟨rfl, rfl, rfl, subset_freed r₀⟩
      · exact ⟨rfl, rfl, rfl, fun _ hx => hx⟩
    · rw [lockedFree_part h hb hr hin hwhole]

/-- A free takes the range of its block with the last block in it. -/
theorem Inv.free_last (h : Inv debug pageSize extra s) (hb : b ∈ s.blocks) (hr : r ∈ s.ranges)
    (hin : b.Inside debug r) :
    (∃ r' ∈ (s.lockedFree debug pageSize b).ranges, r'.mem = r.mem) ↔
      ∃ b' ∈ s.blocks, b' ≠ b ∧ b'.Inside debug r := by
  have hiff := h.freed_whole hb hr hin
  by_cases hwhole : freed debug b r = [⟨LM_RANGE_OVERHEAD, r.size⟩]
  · rw [lockedFree_whole h hb hr hin hwhole]
    refine ⟨fun ⟨r', hr', hmem⟩ => ?_, fun ⟨b', hb', hne, hin'⟩ => ?_⟩
    · exact absurd hmem (by simpa using (List.mem_filter.mp hr').2)
    · exact absurd hin' (hiff.mp hwhole b' (h.mem_erase.mpr ⟨hne, hb'⟩))
  · rw [lockedFree_part h hb hr hin hwhole]
    have hsome := (not_congr hiff).mp hwhole
    push Not at hsome
    obtain ⟨b', hb', hin'⟩ := hsome
    exact ⟨fun _ => ⟨b', (h.mem_erase.mp hb').2, (h.mem_erase.mp hb').1, hin'⟩,
      fun _ => ⟨_, List.mem_map_of_mem hr, by simp⟩⟩

/-- The cleanup keeps the invariant, and takes only what it is given. -/
theorem Inv.clean (h : Inv debug pageSize extra s) (cleaned : List Nat) :
    Inv debug pageSize extra (s.cleanCache debug pageSize cleaned) ∧
      Shrinks s (s.cleanCache debug pageSize cleaned) ∧
      ∀ b ∈ s.blocks, b.ptr ∉ cleaned → b ∈ (s.cleanCache debug pageSize cleaned).blocks := by
  induction cleaned generalizing s with
  | nil => exact ⟨h, Shrinks.refl s, fun _ hb _ => hb⟩
  | cons ptr cleaned ih =>
    unfold State.cleanCache at ih ⊢
    rw [List.foldl_cons]
    cases hfind : s.blocks.find? fun b => b.ptr = ptr with
    | none =>
      obtain ⟨hinv, hshrinks, hkept⟩ := ih h
      exact ⟨hinv, hshrinks, fun b hb hno => hkept b hb fun hin => hno (List.mem_cons_of_mem _ hin)⟩
    | some b =>
      have hb := List.mem_of_find?_eq_some hfind
      have hptr : b.ptr = ptr := by simpa using List.find?_some hfind
      obtain ⟨hinv₁, hshrinks₁, hblocks⟩ := h.free hb
      obtain ⟨hinv, hshrinks, hkept⟩ := ih hinv₁
      refine ⟨hinv, hshrinks₁.trans hshrinks, fun b' hb' hno => ?_⟩
      rw [List.mem_cons, not_or] at hno
      refine hkept b' ?_ hno.2
      rw [hblocks]
      exact h.mem_erase.mpr ⟨fun heq => hno.1 (heq ▸ hptr), hb'⟩

end PcloudClient.Pmemlock
