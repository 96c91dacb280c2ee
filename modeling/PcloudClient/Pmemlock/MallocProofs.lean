/-
  Pmemlock/MallocProofs.lean --- what `psync_locked_malloc` keeps.
-/
import PcloudClient.Pmemlock.LockProofs

set_option autoImplicit false

namespace PcloudClient.Pmemlock

open PcloudClient.Foundation

variable {debug : Bool} {pageSize : Option Nat} {s s' : State} {b : Block} {r : Range}
  {extra : Nat → Nat} {env : Nat → Mlock} {mem size requested boffset : Nat}

/-! ## The size -/

theorem roundSize_eq (h : requested + 31 < 2 ^ 64) :
    roundSize requested = (requested + 15) / 16 * 16 + 16 := by
  show ((requested + 16 - 1) % 2 ^ 64 / 16 * 16 + 16) % 2 ^ 64 = _
  omega

theorem roundSize_ge (h : requested + 31 < 2 ^ 64) :
    requested + LM_OVERHEAD ≤ roundSize requested := by
  show requested + 16 ≤ _
  rw [roundSize_eq h]
  omega

/-- A new range that can be mapped has room for its block. -/
theorem newSize_ge (h : requested + 31 < 2 ^ 64)
    (hpos : 0 < State.newSize pageSize (roundSize requested)) :
    roundSize requested + LM_RANGE_OVERHEAD ≤ State.newSize pageSize (roundSize requested) := by
  have hsize := roundSize_eq h
  generalize roundSize requested = size at hsize hpos ⊢
  unfold State.newSize at hpos ⊢
  generalize pageSize.getD 4096 = ps at hpos ⊢
  have hoverhead : LM_RANGE_OVERHEAD = 8 := rfl
  rw [hoverhead] at hpos ⊢
  have hps : 0 < ps := Nat.pos_of_mul_pos_left hpos
  have hquot : 0 < (size + 8 + ps - 1) % 2 ^ 64 / ps := Nat.pos_of_mul_pos_right hpos
  by_cases hwrap : size + 8 + ps - 1 < 2 ^ 64
  · rw [Nat.mod_eq_of_lt hwrap]
    have hdiv := Nat.div_add_mod (size + 8 + ps - 1) ps
    have hmod := Nat.mod_lt (size + 8 + ps - 1) hps
    rw [Nat.mul_comm] at hdiv
    omega
  · -- The sum wraps to less than a page.
    have hlt : (size + 8 + ps - 1) % 2 ^ 64 < ps := by
      by_cases hbig : ps ≤ 2 ^ 64
      · omega
      · have hmod := Nat.mod_lt (size + 8 + ps - 1) (show 0 < 2 ^ 64 by decide)
        omega
    rw [Nat.div_eq_of_lt hlt] at hquot
    exact absurd hquot (Nat.lt_irrefl 0)

/-! ## The choice -/

theorem bestFit_some {bestsize : Nat} {best : Option (Range × Nat)} {l : List (Range × Span Nat)}
    (h : bestFit size bestsize best l = some (r, boffset)) :
    best = some (r, boffset) ∨ ∃ i, (r, i) ∈ l ∧ i.start = boffset ∧ size ≤ i.stop - i.start := by
  induction l generalizing bestsize best with
  | nil => exact .inl h
  | cons ri l ih =>
    obtain ⟨r₀, i₀⟩ := ri
    rw [bestFit] at h
    have hrest : (∃ i, (r, i) ∈ l ∧ i.start = boffset ∧ size ≤ i.stop - i.start) →
        ∃ i, (r, i) ∈ (r₀, i₀) :: l ∧ i.start = boffset ∧ size ≤ i.stop - i.start :=
      fun ⟨i, hi, hfit⟩ => ⟨i, List.mem_cons_of_mem _ hi, hfit⟩
    split at h
    · next hfit =>
      have hhere : some (r₀, i₀.start) = some (r, boffset) →
          ∃ i, (r, i) ∈ (r₀, i₀) :: l ∧ i.start = boffset ∧ size ≤ i.stop - i.start := by
        intro heq
        obtain ⟨rfl, rfl⟩ := Prod.mk.inj (Option.some.inj heq)
        exact ⟨i₀, List.mem_cons_self .., rfl, hfit.1⟩
      split at h
      · exact .inr (hhere h)
      · rcases ih h with heq | hin
        · exact .inr (hhere heq)
        · exact .inr (hrest hin)
    · rcases ih h with heq | hin
      · exact .inl heq
      · exact .inr (hrest hin)

/-- What is chosen is free. -/
theorem chooses_some (h : s.chooses size = some (r, boffset)) :
    r ∈ s.ranges ∧ ∀ x, boffset ≤ x → x < boffset + size → x ∈ Intervals.union r.freeintervals := by
  rcases bestFit_some h with heq | ⟨i, hi, hstart, hfit⟩
  · exact nomatch heq
  · obtain ⟨r', hr', hi⟩ := List.mem_flatMap.mp hi
    obtain ⟨i', hi', heq⟩ := List.mem_map.mp hi
    obtain ⟨rfl, rfl⟩ := Prod.mk.inj heq
    exact ⟨hr', fun x hlo hhi => Intervals.mem_union.mpr ⟨i', hi', by omega, by omega⟩⟩

/-! ## A block from a free interval -/

/-- The block that is handed out at an offset of a range. -/
def newBlock (debug : Bool) (start size requested : Nat) : Block :=
  ⟨start + WORD, if debug then requested else size, requested⟩

theorem newBlock_start : (newBlock debug mem size requested).start = mem := Nat.add_sub_cancel ..

theorem newBlock_size (hsize : size = roundSize requested) :
    (newBlock debug mem size requested).size debug = size := by
  unfold newBlock Block.size
  cases debug
  · rfl
  · exact hsize.symm

/-- Free bytes become a block. -/
theorem Inv.carve (h : Inv debug pageSize extra s) (hr : r ∈ s.ranges)
    (hsize : size = roundSize requested) (hroom : requested + LM_OVERHEAD ≤ size)
    (hfree : ∀ x, boffset ≤ x → x < boffset + size → x ∈ Intervals.union r.freeintervals) :
    Inv debug pageSize extra ((s.modifyRange r.mem fun r =>
      { r with freeintervals := Intervals.remove boffset (boffset + size) r.freeintervals }).handOut
        debug (r.mem + boffset) size requested) := by
  have hoverhead : LM_OVERHEAD = 16 := rfl
  have hroverhead : LM_RANGE_OVERHEAD = 8 := rfl
  have hlow := (h.tiled r hr boffset).mp (hfree boffset (Nat.le_refl _) (by omega))
  have hhigh := (h.tiled r hr (boffset + size - 1)).mp (hfree _ (by omega) (by omega))
  let new := newBlock debug (r.mem + boffset) size requested
  have hstart : new.start = r.mem + boffset := newBlock_start
  have hstop : new.stop debug = r.mem + boffset + size := by
    unfold Block.stop
    rw [hstart, newBlock_size hsize]
  have hin : new.Inside debug r := by
    unfold Block.Inside
    omega
  have hcov : ∀ x, new.Covers debug x ↔ r.mem + boffset ≤ x ∧ x < r.mem + boffset + size := by
    intro x
    unfold Block.Covers
    rw [hstart, hstop]
  let f : Range → Range := fun r =>
    { r with freeintervals := Intervals.remove boffset (boffset + size) r.freeintervals }
  have heq : (s.modifyRange r.mem f).handOut debug (r.mem + boffset) size requested =
      { s with
        ranges := s.ranges.map fun r' => if r'.mem = r.mem then f r' else r'
        blocks := new :: s.blocks } := by
    unfold State.modifyRange
    rw [if_pos (List.any_eq_true.mpr ⟨r, hr, by simp⟩)]
    rfl
  have hold : ∀ r', r' ∈ (s.ranges.map fun r' => if r'.mem = r.mem then f r' else r') →
      r' = f r ∨ r' ∈ s.ranges ∧ r'.mem ≠ r.mem := by
    intro r' hr'
    obtain ⟨r₀, hr₀, hmem, hsame, hother⟩ := mem_map_range f (fun _ => rfl) hr'
    by_cases hmem₀ : r₀.mem = r.mem
    · obtain rfl := h.range_eq_of_mem hr₀ hr hmem₀
      exact .inl (hsame rfl)
    · exact .inr ⟨(hother hmem₀).symm ▸ hr₀, hmem ▸ hmem₀⟩
  show Inv debug pageSize extra ((s.modifyRange r.mem f).handOut _ _ _ _)
  rw [heq]
  exact
    { apart := pairwise_map_range f (fun _ => rfl) (fun _ => rfl) h.apart r.mem
      sized := fun r' hr' => by
        rcases hold r' hr' with rfl | ⟨hr', -⟩
        · exact h.sized r hr
        · exact h.sized r' hr'
      separated := fun r' hr' => by
        rcases hold r' hr' with rfl | ⟨hr', -⟩
        · exact (h.separated r hr).remove (by omega)
        · exact h.separated r' hr'
      tiled := fun r' hr' x => by
        rcases hold r' hr' with rfl | ⟨hr', hne⟩
        · show x ∈ Intervals.union (Intervals.remove boffset (boffset + size) r.freeintervals) ↔
            LM_RANGE_OVERHEAD ≤ x ∧ x < r.size ∧
              ∀ b ∈ new :: s.blocks, ¬ b.Covers debug (r.mem + x)
          rw [Intervals.union_remove, Set.mem_sdiff, h.tiled r hr, Set.mem_Ico,
            List.forall_mem_cons, hcov]
          constructor
          · rintro ⟨⟨hlo, hhi, hnone⟩, hout⟩
            exact ⟨hlo, hhi, by omega, hnone⟩
          · rintro ⟨hlo, hhi, hnew, hnone⟩
            exact ⟨⟨hlo, hhi, hnone⟩, by omega⟩
        · dsimp only
          rw [h.tiled r' hr', List.forall_mem_cons, hcov]
          refine ⟨fun ⟨hlo, hhi, hnone⟩ => ⟨hlo, hhi, ?_, hnone⟩,
            fun ⟨hlo, hhi, _, hnone⟩ => ⟨hlo, hhi, hnone⟩⟩
          intro hx
          exact hne (congrArg Range.mem (h.range_eq hr' hr (x := r'.mem + x) (by omega) (by omega)))
      used := fun r' hr' => by
        rcases hold r' hr' with rfl | ⟨hr', -⟩
        · exact ⟨new, List.mem_cons_self .., hin⟩
        · obtain ⟨b, hb, hin'⟩ := h.used r' hr'
          exact ⟨b, List.mem_cons_of_mem _ hb, hin'⟩
      blocks := by
        refine List.pairwise_cons.mpr ⟨fun b hb => ?_, h.blocks⟩
        -- Where they overlap there is a byte that is free and in the block.
        unfold Block.Apart
        rw [hstart, hstop]
        by_contra hover
        rw [not_or, not_le, not_le] at hover
        have hpos := h.size_pos hb
        have hbstop : b.stop debug = b.start + b.size debug := rfl
        have hbyte := hfree (max b.start (r.mem + boffset) - r.mem) (by omega) (by omega)
        refine ((h.tiled r hr _).mp hbyte).2.2 b hb ?_
        unfold Block.Covers
        omega
      inside := fun b hb => by
        have hmap : ∀ r' ∈ s.ranges, b.Inside debug r' →
            ∃ r'' ∈ s.ranges.map fun r' => if r'.mem = r.mem then f r' else r',
              b.Inside debug r'' := by
          intro r' hr' hin'
          refine ⟨_, List.mem_map_of_mem hr', ?_⟩
          split <;> exact hin'
        rcases List.mem_cons.mp hb with rfl | hb
        · exact hmap r hr hin
        · obtain ⟨r', hr', hin'⟩ := h.inside b hb
          exact hmap r' hr' hin'
      filled := fun b hb => by
        rcases List.mem_cons.mp hb with rfl | hb
        · rw [newBlock_size hsize]
          exact hroom
        · exact h.filled b hb
      counted := fun p => by
        dsimp only
        rw [countP_map_range f fun _ => rfl]
        exact h.counted p
      alive := h.alive }

/-! ## The lock of a range -/

theorem map_range_split (f : Range → Range) {a c : List Range} (ha : ∀ r' ∈ a, r'.mem ≠ r.mem)
    (hc : ∀ r' ∈ c, r'.mem ≠ r.mem) :
    ((a ++ r :: c).map fun r' => if r'.mem = r.mem then f r' else r') = a ++ f r :: c := by
  have hid : ∀ l : List Range, (∀ r' ∈ l, r'.mem ≠ r.mem) →
      (l.map fun r' => if r'.mem = r.mem then f r' else r') = l := fun l hl =>
    (List.map_congr_left (g := id) fun r' hr' => if_neg (hl r' hr')).trans (List.map_id l)
  rw [List.map_append, List.map_cons, if_pos rfl, hid a ha, hid c hc]

/-- The pages of a range count it when it says that it is locked. -/
theorem Inv.setLocked (h : Inv debug pageSize (fun q => (covers pageSize r.mem r.size q).toNat) s)
    (hr : r ∈ s.ranges) (hlocked : r.locked = false) :
    Inv debug pageSize (fun _ => 0) (s.modifyRange r.mem fun r => { r with locked := true }) := by
  let f : Range → Range := fun r => { r with locked := true }
  have heq : s.modifyRange r.mem f =
      { s with ranges := s.ranges.map fun r' => if r'.mem = r.mem then f r' else r' } := by
    unfold State.modifyRange
    rw [if_pos (List.any_eq_true.mpr ⟨r, hr, by simp⟩)]
  have hold : ∀ r' ∈ (s.ranges.map fun r' => if r'.mem = r.mem then f r' else r'),
      ∃ r₀ ∈ s.ranges, r'.mem = r₀.mem ∧ r'.size = r₀.size ∧
        r'.freeintervals = r₀.freeintervals := by
    intro r' hr'
    obtain ⟨r₀, hr₀, rfl⟩ := List.mem_map.mp hr'
    refine ⟨r₀, hr₀, ?_⟩
    split <;> exact ⟨rfl, rfl, rfl⟩
  show Inv debug pageSize (fun _ => 0) (s.modifyRange r.mem f)
  rw [heq]
  exact
    { apart := pairwise_map_range f (fun _ => rfl) (fun _ => rfl) h.apart r.mem
      sized := fun r' hr' => by
        obtain ⟨r₀, hr₀, hmem, hsize, -⟩ := hold r' hr'
        rw [hmem, hsize]
        exact h.sized r₀ hr₀
      separated := fun r' hr' => by
        obtain ⟨r₀, hr₀, -, -, hfree⟩ := hold r' hr'
        rw [hfree]
        exact h.separated r₀ hr₀
      tiled := fun r' hr' => by
        obtain ⟨r₀, hr₀, hmem, hsize, hfree⟩ := hold r' hr'
        rw [hmem, hsize, hfree]
        exact h.tiled r₀ hr₀
      used := fun r' hr' => by
        obtain ⟨r₀, hr₀, hmem, hsize, -⟩ := hold r' hr'
        unfold Block.Inside
        rw [hmem, hsize]
        exact h.used r₀ hr₀
      blocks := h.blocks
      inside := fun b hb => by
        obtain ⟨r', hr', hin⟩ := h.inside b hb
        refine ⟨_, List.mem_map_of_mem hr', ?_⟩
        split <;> exact hin
      filled := h.filled
      counted := fun p => by
        have hcounted := h.counted p
        obtain ⟨a, c, hsplit, ha, hc⟩ := h.split hr
        have hbefore : r.lockedOn pageSize p = false := by simp [Range.lockedOn, hlocked]
        have hafter : (f r).lockedOn pageSize p = covers pageSize r.mem r.size p :=
          Bool.true_and _
        dsimp only
        rw [hsplit, map_range_split f ha hc, List.countP_append, List.countP_cons, hafter]
        rw [hsplit, List.countP_append, List.countP_cons, hbefore] at hcounted
        cases hcov : covers pageSize r.mem r.size p
        · simpa [hcov] using hcounted
        · simpa [hcov, Nat.add_assoc] using hcounted
      alive := h.alive }

/-- Of a range that is not locked when a block is taken from it, a block stays that is live. -/
def Stays (debug : Bool) (pageSize : Option Nat) (env : Nat → Mlock) (s : State) (r : Range) :
    Prop :=
  r.locked = false → ∃ b ∈ s.blocks, b.Inside debug r ∧
    ∀ p, covers pageSize r.mem r.size p = true → (env p).ok = false → b.ptr ∉ (env p).cleaned

/-- A range that is locked while a block of it stays is the same after that. -/
theorem Inv.lockRange (h : Inv debug pageSize (fun _ => 0) s) (hr : r ∈ s.ranges)
    (hlocked : r.locked = false) (hstays : Stays debug pageSize env s r) :
    ∃ r' ∈ (s.memLock debug pageSize env r.mem r.size).2.ranges,
      r'.mem = r.mem ∧ r'.size = r.size ∧ r'.locked = false ∧
        Intervals.union r.freeintervals ⊆ Intervals.union r'.freeintervals := by
  obtain ⟨b, hb, hin, hspares⟩ := hstays hlocked
  obtain ⟨hinv, hshrinks, hkept⟩ := h.memLock env (h.sized r hr).2
  obtain ⟨r', hr', hin'⟩ := hinv.inside b (hkept b hb hspares)
  obtain ⟨r₀, hr₀, hmem, hsize, hlocked', hfree⟩ := hshrinks.ranges r' hr'
  have hin₀ : b.Inside debug r₀ := by
    unfold Block.Inside
    rw [hmem, hsize]
    exact hin'
  obtain rfl := h.inside_eq hr₀ hr hb hin₀ hin
  exact ⟨r', hr', hmem.symm, hsize.symm, hlocked'.symm.trans hlocked, hfree⟩

theorem Inv.mallocFrom (h : Inv debug pageSize (fun _ => 0) s)
    (hchoice : s.chooses size = some (r, boffset)) (hsize : size = roundSize requested)
    (hroom : requested + LM_OVERHEAD ≤ size) (hstays : Stays debug pageSize env s r) :
    Inv debug pageSize (fun _ => 0) (s.mallocFrom debug pageSize env r boffset size requested) := by
  obtain ⟨hr, hfree⟩ := chooses_some hchoice
  unfold State.mallocFrom
  by_cases hlocked : r.locked
  · simp only [hlocked, if_true]
    exact h.carve hr hsize hroom hfree
  · have hunlocked : r.locked = false := by simpa using hlocked
    obtain ⟨r', hr', hmem, hsize', hlocked', hsub⟩ := h.lockRange hr hunlocked hstays
    obtain ⟨hinv, -, -⟩ := h.memLock env (h.sized r hr).2
    simp only [hunlocked, Bool.false_eq_true, if_false]
    cases hlock : s.memLock debug pageSize env r.mem r.size with
    | mk ok s' =>
      rw [hlock] at hr' hinv
      cases ok with
      | false =>
        rw [← hmem]
        exact Inv.carve (by simpa using hinv) hr' hsize hroom fun x hlo hhi =>
          hsub (hfree x hlo hhi)
      | true =>
        rw [← hmem, ← hsize'] at hinv
        have hinv' := Inv.setLocked (by simpa using hinv) hr' hlocked'
        have hr'' : { r' with locked := true } ∈
            (s'.modifyRange r'.mem fun r => { r with locked := true }).ranges := by
          unfold State.modifyRange
          rw [if_pos (List.any_eq_true.mpr ⟨r', hr', by simp⟩)]
          exact List.mem_map.mpr ⟨r', hr', if_pos rfl⟩
        have hcarve := hinv'.carve hr'' hsize hroom fun x hlo hhi => hsub (hfree x hlo hhi)
        rw [← hmem]
        exact hcarve

/-! ## A new range -/

theorem insertRange_perm (r : Range) (l : List Range) : (insertRange r l).Perm (r :: l) := by
  induction l with
  | nil => exact List.Perm.refl _
  | cons r' l ih =>
    rw [insertRange]
    split
    · exact List.Perm.refl _
    · exact (ih.cons r').trans (List.Perm.swap r r' l)

/-- What is free in a new range. -/
def rest (size intsize : Nat) : List (Span Nat) :=
  if size + LM_RANGE_OVERHEAD < intsize then [⟨LM_RANGE_OVERHEAD + size, intsize⟩] else []

theorem mem_rest {intsize x : Nat} :
    x ∈ Intervals.union (rest size intsize) ↔ LM_RANGE_OVERHEAD + size ≤ x ∧ x < intsize := by
  unfold rest
  split
  · simp
  · rw [Intervals.union_nil]
    refine ⟨fun hx => absurd hx (Set.notMem_empty x), fun hx => by omega⟩

theorem rest_separated {intsize : Nat} : Intervals.Separated (rest size intsize) := by
  unfold rest
  split
  · exact Intervals.separated_cons.mpr
      ⟨by dsimp only; omega, fun j hj => absurd hj List.not_mem_nil, Intervals.separated_nil⟩
  · exact Intervals.separated_nil

/-- A range with one block that starts it. -/
theorem Inv.addRange {ok : Bool} {intsize : Nat} (h : Inv debug pageSize
      (fun q => (ok && covers pageSize mem intsize q).toNat) s)
    (hmaps : Maps s mem intsize) (hsize : size = roundSize requested)
    (hroom : requested + LM_OVERHEAD ≤ size) (hfits : size + LM_RANGE_OVERHEAD ≤ intsize) :
    Inv debug pageSize (fun _ => 0)
      { s with
        ranges := insertRange ⟨mem, intsize, ok, rest size intsize⟩ s.ranges
        blocks := newBlock debug (mem + LM_RANGE_OVERHEAD) size requested :: s.blocks } := by
  have hoverhead : LM_OVERHEAD = 16 := rfl
  have hroverhead : LM_RANGE_OVERHEAD = 8 := rfl
  obtain ⟨hpos, hend, hapart⟩ := hmaps
  let brange : Range := ⟨mem, intsize, ok, rest size intsize⟩
  let new := newBlock debug (mem + LM_RANGE_OVERHEAD) size requested
  have hstart : new.start = mem + 8 := newBlock_start
  have hstop : new.stop debug = mem + 8 + size := by
    unfold Block.stop
    rw [hstart, newBlock_size hsize]
  have hin : new.Inside debug brange := by
    show mem + LM_RANGE_OVERHEAD ≤ new.start ∧ new.stop debug ≤ mem + intsize
    omega
  have hcov : ∀ x, new.Covers debug x ↔ mem + 8 ≤ x ∧ x < mem + 8 + size := by
    intro x
    unfold Block.Covers
    rw [hstart, hstop]
  have hperm := insertRange_perm brange s.ranges
  have hmem : ∀ r, r ∈ insertRange brange s.ranges ↔ r = brange ∨ r ∈ s.ranges := fun r => by
    rw [hperm.mem_iff, List.mem_cons]
  exact
    { apart := hperm.symm.pairwise
        (List.pairwise_cons.mpr ⟨fun r hr => hapart r hr, h.apart⟩) Or.symm
      sized := fun r hr => by
        rcases (hmem r).mp hr with rfl | hr
        · exact ⟨hpos, hend⟩
        · exact h.sized r hr
      separated := fun r hr => by
        rcases (hmem r).mp hr with rfl | hr
        · exact rest_separated
        · exact h.separated r hr
      tiled := fun r hr x => by
        rcases (hmem r).mp hr with rfl | hr
        · show x ∈ Intervals.union (rest size intsize) ↔ LM_RANGE_OVERHEAD ≤ x ∧ x < intsize ∧
            ∀ b ∈ new :: s.blocks, ¬ b.Covers debug (mem + x)
          rw [mem_rest, List.forall_mem_cons, hcov]
          refine ⟨fun hx => ⟨by omega, hx.2, by omega, fun b hb hcovb => ?_⟩,
            fun ⟨hlo, hhi, hnew, _⟩ => by omega⟩
          obtain ⟨r, hr, hinb⟩ := h.inside b hb
          have hrapart := hapart r hr
          unfold Block.Inside at hinb
          unfold Block.Covers at hcovb
          omega
        · dsimp only
          rw [h.tiled r hr, List.forall_mem_cons, hcov]
          refine ⟨fun ⟨hlo, hhi, hnone⟩ => ⟨hlo, hhi, ?_, hnone⟩,
            fun ⟨hlo, hhi, _, hnone⟩ => ⟨hlo, hhi, hnone⟩⟩
          have hrapart := hapart r hr
          omega
      used := fun r hr => by
        rcases (hmem r).mp hr with rfl | hr
        · exact ⟨new, List.mem_cons_self .., hin⟩
        · obtain ⟨b, hb, hinb⟩ := h.used r hr
          exact ⟨b, List.mem_cons_of_mem _ hb, hinb⟩
      blocks := by
        refine List.pairwise_cons.mpr ⟨fun b hb => ?_, h.blocks⟩
        obtain ⟨r, hr, hinb⟩ := h.inside b hb
        have hrapart := hapart r hr
        unfold Block.Inside at hinb
        unfold Block.Apart
        rw [hstart, hstop]
        omega
      inside := fun b hb => by
        rcases List.mem_cons.mp hb with rfl | hb
        · exact ⟨brange, (hmem brange).mpr (.inl rfl), hin⟩
        · obtain ⟨r, hr, hinb⟩ := h.inside b hb
          exact ⟨r, (hmem r).mpr (.inr hr), hinb⟩
      filled := fun b hb => by
        rcases List.mem_cons.mp hb with rfl | hb
        · rw [newBlock_size hsize]
          exact hroom
        · exact h.filled b hb
      counted := fun p => by
        have hcounted := h.counted p
        have hnew : Range.lockedOn pageSize p brange = (ok && covers pageSize mem intsize p) := rfl
        dsimp only
        rw [hperm.countP_eq, List.countP_cons, hnew]
        cases hcovp : ok && covers pageSize mem intsize p <;> simpa [hcovp] using hcounted
      alive := h.alive }

/-- Ranges that were only freed from are apart from what was mapped. -/
theorem Maps.shrinks {intsize : Nat} (h : Maps s mem intsize) (hshrinks : Shrinks s s') :
    Maps s' mem intsize := by
  refine ⟨h.1, h.2.1, fun r' hr' => ?_⟩
  obtain ⟨r, hr, hmem, hsize, -⟩ := hshrinks.ranges r' hr'
  rw [← hmem, ← hsize]
  exact h.2.2 r hr

/-- The assertions of the search for the place of a range. -/
theorem Maps.fits {intsize : Nat} (h : Maps s mem intsize) :
    (s.ranges.all fun r =>
      if mem < r.mem then mem + intsize ≤ r.mem else r.mem + r.size ≤ mem) = true := by
  rw [List.all_eq_true]
  intro r hr
  have hpos := h.1
  have hapart := h.2.2 r hr
  split <;> simp only [decide_eq_true_eq] <;> omega

theorem Inv.mallocNew (h : Inv debug pageSize (fun _ => 0) s) (hsize : size = roundSize requested)
    (hroom : requested + LM_OVERHEAD ≤ size)
    (hmaps : Maps s mem (State.newSize pageSize size))
    (hfits : size + LM_RANGE_OVERHEAD ≤ State.newSize pageSize size) :
    Inv debug pageSize (fun _ => 0) (s.mallocNew debug pageSize env mem size requested) := by
  obtain ⟨hinv, hshrinks, -⟩ := h.memLock env hmaps.2.1
  have hmaps' := hmaps.shrinks hshrinks
  have hadd := hinv.addRange hmaps' hsize hroom hfits
  unfold State.mallocNew State.handOut
  dsimp only
  rw [hmaps'.fits, Bool.not_true, Bool.or_false]
  exact hadd

end PcloudClient.Pmemlock
