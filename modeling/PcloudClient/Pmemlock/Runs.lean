/-
  Pmemlock/Runs.lean --- any sequence of `psync_locked_malloc` and `psync_locked_free`.
-/
import Mathlib.Logic.Relation
import PcloudClient.Pmemlock.MallocProofs

set_option autoImplicit false

namespace PcloudClient.Pmemlock

open PcloudClient.Foundation

variable {debug : Bool} {pageSize : Option Nat} {s s' : State}

/-- The rounded size does not wrap, and of a range that is locked for an allocation a block stays
that no cleanup of this lock frees. -/
def Meets (debug : Bool) (pageSize : Option Nat) (s : State) : Act → Prop
  | .lockedMalloc requested _ env => requested + 31 < 2 ^ 64 ∧
    ∀ r boffset, s.chooses (roundSize requested) = some (r, boffset) →
      Stays debug pageSize env s r
  | .lockedFree _ => True

theorem Inv.step {a : Act} (h : Inv debug pageSize (fun _ => 0) s)
    (hstep : Step debug pageSize s a s') (hmeets : Meets debug pageSize s a) :
    Inv debug pageSize (fun _ => 0) s' := by
  cases hstep with
  | @lockedMalloc requested mem env _ hmaps =>
    obtain ⟨hnowrap, hstays⟩ := hmeets
    unfold State.lockedMalloc
    dsimp only
    cases hchoice : s.chooses (roundSize requested) with
    | some choice =>
      obtain ⟨r, boffset⟩ := choice
      exact h.mallocFrom hchoice rfl (roundSize_ge hnowrap) (hstays r boffset hchoice)
    | none =>
      have hmaps := hmaps hchoice
      exact h.mallocNew rfl (roundSize_ge hnowrap) hmaps (newSize_ge hnowrap hmaps.1)
  | lockedFree live => exact (h.free live).1

/-- The states after calls that meet the condition. -/
def Reaches (debug : Bool) (pageSize : Option Nat) (cond : State → Act → Prop) (s : State) : Prop :=
  Relation.ReflTransGen (fun s s' => ∃ a, Step debug pageSize s a s' ∧ cond s a) .init s

theorem Reaches.inv (h : Reaches debug pageSize (Meets debug pageSize) s) :
    Inv debug pageSize (fun _ => 0) s := by
  induction h with
  | refl => exact .init
  | tail _ hlast ih =>
    obtain ⟨a, hstep, hmeets⟩ := hlast
    exact ih.step hstep hmeets

/-- What holds of the locked memory at any time. -/
structure AllocatorOk (debug : Bool) (pageSize : Option Nat) (s : State) : Prop where
  disjoint : s.blocks.Pairwise (Block.Apart debug)
  /-- A live block has room for what was asked for and lies in a range that is there. -/
  inside : ∀ b ∈ s.blocks, b.requested + LM_OVERHEAD ≤ b.size debug ∧
    ∃ r ∈ s.ranges, b.Inside debug r
  ranges : s.ranges.Pairwise Range.Apart
  separated : ∀ r ∈ s.ranges, Intervals.Separated r.freeintervals
  /-- What is not free is in a live block, and the other way round. -/
  tiled : ∀ r ∈ s.ranges, ∀ x, x ∈ Intervals.union r.freeintervals ↔
    LM_RANGE_OVERHEAD ≤ x ∧ x < r.size ∧ ∀ b ∈ s.blocks, ¬ b.Covers debug (r.mem + x)
  used : ∀ r ∈ s.ranges, ∃ b ∈ s.blocks, b.Inside debug r
  /-- A free takes the range with its last block. -/
  removed : ∀ b ∈ s.blocks, ∀ r ∈ s.ranges, b.Inside debug r →
    ((∃ r' ∈ (s.lockedFree debug pageSize b).ranges, r'.mem = r.mem) ↔
      ∃ b' ∈ s.blocks, b' ≠ b ∧ b'.Inside debug r)
  counted : ∀ p, s.pages p = s.ranges.countP (Range.lockedOn pageSize p)
  alive : s.aborted = false ∧ s.usedFreed = false

theorem Inv.allocatorOk (h : Inv debug pageSize (fun _ => 0) s) :
    AllocatorOk debug pageSize s where
  disjoint := h.blocks
  inside b hb := ⟨h.filled b hb, h.inside b hb⟩
  ranges := h.apart
  separated := h.separated
  tiled := h.tiled
  used := h.used
  removed _ hb _ hr hin := h.free_last hb hr hin
  counted := h.counted
  alive := h.alive

/-- Blocks, ranges and pages stay as they should in every sequence of calls that meets the
condition. -/
theorem allocator_ok (h : Reaches debug pageSize (Meets debug pageSize) s) :
    AllocatorOk debug pageSize s := h.inv.allocatorOk

/-- Every `psync_mlock` succeeds. -/
def locks : Nat → Mlock := fun _ => ⟨true, [], true⟩

/-- No `psync_mlock` succeeds, and the cleanup frees what is at an address. -/
def fails (ptr : Nat) : Nat → Mlock := fun _ => ⟨false, [ptr], false⟩

/-- The cleanup frees what is at an address, and the second `psync_mlock` succeeds. -/
def relents (ptr : Nat) : Nat → Mlock := fun _ => ⟨false, [ptr], true⟩

/-- A block in a range that could not be locked. -/
def unlocked : State := State.init.lockedMalloc false (some 4096) (fails 0) 4096 20

/-- A second block in that range, which is not locked yet. -/
def shared : State := unlocked.lockedMalloc false (some 4096) (fails 0) 8192 100

/-- The lock of the range for a third block frees the first one. -/
def cleaned : State := shared.lockedMalloc false (some 4096) (relents 4112) 8192 20

/-- A block that needs a range of two pages. -/
def twoRanges : State := cleaned.lockedMalloc false (some 4096) locks 8192 5000

/-- The large block is freed, and then the second one. -/
def lastLeft : State :=
  (twoRanges.lockedFree false (some 4096) ⟨8208, 5024, 5000⟩).lockedFree false (some 4096)
    ⟨4160, 128, 100⟩

theorem meets_of_stays {s : State} {requested mem ptr : Nat} (env : Nat → Mlock) {r : Range}
    {boffset : Nat} {b : Block} (hsize : requested + 31 < 2 ^ 64)
    (hchoice : s.chooses (roundSize requested) = some (r, boffset)) (hb : b ∈ s.blocks)
    (hin : b.Inside false r) (henv : ∀ p, (env p).cleaned = [ptr]) (hptr : b.ptr ≠ ptr) :
    Meets false (some 4096) s (.lockedMalloc requested mem env) := by
  refine ⟨hsize, fun r' boffset' hchoice' _ => ?_⟩
  obtain ⟨rfl, -⟩ := Prod.mk.inj (Option.some.inj (hchoice.symm.trans hchoice'))
  refine ⟨b, hb, hin, fun p _ _ => ?_⟩
  rw [henv p, List.mem_singleton]
  exact hptr

/-- Three blocks of a range that is locked late, where the cleanup frees the first; a range that
comes and goes with its block. -/
theorem allocator_ok_freed :
    AllocatorOk false (some 4096) lastLeft ∧ twoRanges.ranges.length = 2 ∧
      lastLeft.ranges.length = 1 ∧ lastLeft.blocks = [⟨4288, 48, 20⟩] := by
  have h1 : Reaches false (some 4096) (Meets false (some 4096)) unlocked :=
    Relation.ReflTransGen.refl.tail ⟨.lockedMalloc 20 4096 (fails 0),
      .lockedMalloc (fails 0) (by decide) fun _ => ⟨by decide, by decide, nofun⟩, by decide,
      fun _ _ hchoice => nomatch hchoice⟩
  have h2 : Reaches false (some 4096) (Meets false (some 4096)) shared := by
    refine h1.tail ⟨.lockedMalloc 100 8192 (fails 0),
      .lockedMalloc (fails 0) (by decide) fun hnone => absurd hnone (by decide), ?_⟩
    exact meets_of_stays (fails 0) (r := ⟨4096, 4096, false, [⟨56, 4096⟩]⟩) (b := ⟨4112, 48, 20⟩)
      (by decide) rfl (by decide) ⟨by decide, by decide⟩ (fun _ => rfl) (by decide)
  have h3 : Reaches false (some 4096) (Meets false (some 4096)) cleaned := by
    refine h2.tail ⟨.lockedMalloc 20 8192 (relents 4112),
      .lockedMalloc (relents 4112) (by decide) fun hnone => absurd hnone (by decide), ?_⟩
    exact meets_of_stays (relents 4112) (r := ⟨4096, 4096, false, [⟨184, 4096⟩]⟩)
      (b := ⟨4160, 128, 100⟩)
      (by decide) rfl (by decide) ⟨by decide, by decide⟩ (fun _ => rfl) (by decide)
  have hnew : cleaned.chooses (roundSize 5000) = none := by decide
  have h4 : Reaches false (some 4096) (Meets false (some 4096)) twoRanges := by
    refine h3.tail ⟨.lockedMalloc 5000 8192 locks,
      .lockedMalloc locks (by decide) fun _ => ⟨by decide, by decide, by decide⟩, by decide,
      fun r boffset hchoice => ?_⟩
    rw [hnew] at hchoice
    exact nomatch hchoice
  have h5 : Reaches false (some 4096) (Meets false (some 4096)) lastLeft :=
    (h4.tail ⟨.lockedFree ⟨8208, 5024, 5000⟩, .lockedFree (by decide), trivial⟩).tail
      ⟨.lockedFree ⟨4160, 128, 100⟩, .lockedFree (by decide), trivial⟩
  exact ⟨allocator_ok h5, by decide, by decide, by decide⟩

/-- The lock of the range for a second block frees the first one, and the range with it; the
second block is handed out from what was the range. -/
theorem not_allocatorOk_cleaned :
    ¬ ∀ s, Reaches false (some 4096) (fun _ _ => True) s → AllocatorOk false (some 4096) s := by
  intro hall
  have hreach : Reaches false (some 4096) (fun _ _ => True)
      (unlocked.lockedMalloc false (some 4096) (fails 4112) 8192 20) :=
    (Relation.ReflTransGen.refl.tail ⟨.lockedMalloc 20 4096 (fails 0),
      .lockedMalloc (fails 0) (by decide) fun _ => ⟨by decide, by decide, nofun⟩, trivial⟩).tail
      ⟨.lockedMalloc 20 8192 (fails 4112), .lockedMalloc (fails 4112) (by decide)
        fun hnone => absurd hnone (by decide), trivial⟩
  have halive := (hall _ hreach).alive.2
  exact absurd halive (by decide)

end PcloudClient.Pmemlock
