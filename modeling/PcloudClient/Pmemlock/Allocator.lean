/-
  Pmemlock/Allocator.lean --- blocks in memory that is not swapped out, of pmemlock.c.

  The ranges stand in the order of `allocator_ranges` and the free intervals of each in the order
  of its tree; the pages of `locked_pages` are their reference counts, 0 where there is no node.
  What the system answers and what the cleanup of the key cache frees are given by an
  environment.
-/
import Mathlib.Algebra.Group.Nat.Defs
import Mathlib.Logic.Function.Basic
import PcloudClient.Foundation.Intervals

set_option autoImplicit false

namespace PcloudClient.Pmemlock

open PcloudClient.Foundation

abbrev SIZE_MAX : Nat := 2 ^ 64 - 1

/-- `LM_ALIGN_TO` and `LM_OVERHEAD` -/
abbrev LM_ALIGN_TO : Nat := 16

abbrev LM_OVERHEAD : Nat := 16

abbrev LM_RANGE_OVERHEAD : Nat := 8

/-- `sizeof(size_t)` -/
abbrev WORD : Nat := 8

/-- An `allocator_range`. -/
structure Range where
  mem : Nat
  size : Nat
  locked : Bool
  freeintervals : List (Span Nat)
  deriving DecidableEq, Repr

/-- What `psync_locked_malloc` returned, with the first word of the block and the size that was
asked for. -/
structure Block where
  ptr : Nat
  header : Nat
  requested : Nat
  deriving DecidableEq, Repr

/-- The memory that the allocator manages.  `blocks` is what was returned and is not freed. -/
structure State where
  pages : Nat → Nat
  ranges : List Range
  blocks : List Block
  /-- An assertion failed or `abort` was called. -/
  aborted : Bool
  /-- A range was used after it was freed. -/
  usedFreed : Bool

/-- The first `psync_mlock` of a page, what the cleanup frees where that fails, and the second
`psync_mlock`. -/
structure Mlock where
  ok : Bool
  cleaned : List Nat
  again : Bool

/-- The `size` of a block, of `size_t`. -/
def roundSize (size : Nat) : Nat :=
  ((size + LM_ALIGN_TO - 1) % 2 ^ 64 / LM_ALIGN_TO * LM_ALIGN_TO + LM_OVERHEAD) % 2 ^ 64

namespace Block

/-- `cptr` -/
def start (b : Block) : Nat := b.ptr - WORD

/-- The size that `psync_locked_free` reads or computes. -/
def size (debug : Bool) (b : Block) : Nat := if debug then roundSize b.header else b.header

def stop (debug : Bool) (b : Block) : Nat := b.start + b.size debug

end Block

/-- `frompage` to `topage` -/
def pagesOf (pageSize ptr size : Nat) : List Nat :=
  let frompage := ptr / pageSize
  let topage := (ptr + size - 1) % 2 ^ 64 / pageSize
  List.range' frompage (topage + 1 - frompage)

namespace State

/-- No call was made. -/
def init : State := ⟨fun _ => 0, [], [], false, false⟩

def setPage (s : State) (p n : Nat) : State := { s with pages := Function.update s.pages p n }

/-- `unlock_page`; a page that is not locked only makes it return -1. -/
def unlockPage (s : State) (p : Nat) : State := s.setPage p (s.pages p - 1)

/-- The loop of `psync_mem_unlock`. -/
def unlockPages (s : State) (pages : List Nat) : State := pages.foldl unlockPage s

/-- `psync_mem_unlock` -/
def memUnlock (pageSize : Option Nat) (s : State) (ptr size : Nat) : State :=
  match pageSize with
  | none => s
  | some ps => s.unlockPages (pagesOf ps ptr size)

/-- What is done with a range that its pointer may have outlived. -/
def modifyRange (s : State) (mem : Nat) (f : Range → Range) : State :=
  if s.ranges.any fun r => r.mem = mem then
    { s with ranges := s.ranges.map fun r => if r.mem = mem then f r else r }
  else { s with usedFreed := true }

/-- `psync_locked_free` of a block.  The tree of free intervals is one node `[8, size)` just if its
root is that. -/
def lockedFree (debug : Bool) (pageSize : Option Nat) (s : State) (b : Block) : State :=
  match s.ranges.find? fun r => r.mem ≤ b.start ∧ b.start < r.mem + r.size with
  | none => { s with aborted := true }
  | some r =>
    if b.size debug = 0 then { s with aborted := true }
    else
      let freeintervals :=
        Intervals.add (b.start - r.mem) (b.start - r.mem + b.size debug) r.freeintervals
      let s := { s with blocks := s.blocks.erase b }
      if freeintervals = [⟨LM_RANGE_OVERHEAD, r.size⟩] then
        let s := { s with ranges := s.ranges.filter fun r' => r'.mem ≠ r.mem }
        if r.locked then s.memUnlock pageSize r.mem r.size else s
      else s.modifyRange r.mem fun r => { r with freeintervals }

/-- `psync_cloud_crypto_clean_cache`: what it frees is in the cache, so an address without a block
is none of it. -/
def cleanCache (debug : Bool) (pageSize : Option Nat) (s : State) (cleaned : List Nat) : State :=
  cleaned.foldl (fun s ptr =>
    match s.blocks.find? fun b => b.ptr = ptr with
    | some b => s.lockedFree debug pageSize b
    | none => s) s

/-- `lock_page`, with whether it returns 0. -/
def lockPage (debug : Bool) (pageSize : Option Nat) (env : Nat → Mlock) (s : State) (p : Nat) :
    Bool × State :=
  if s.pages p ≠ 0 then (true, s.setPage p (s.pages p + 1))
  else if (env p).ok then (true, s.setPage p 1)
  else
    let s := s.cleanCache debug pageSize (env p).cleaned
    if s.pages p ≠ 0 then (true, s.setPage p (s.pages p + 1))
    else if (env p).again then (true, s.setPage p 1)
    else (false, s)

/-- The loop of `psync_mem_lock`; a page that cannot be locked unlocks those before it, the last
one first. -/
def lockPages (debug : Bool) (pageSize : Option Nat) (env : Nat → Mlock) :
    List Nat → State → Bool × State
  | [], s => (true, s)
  | p :: ps, s =>
    match s.lockPage debug pageSize env p with
    | (false, s) => (false, s)
    | (true, s) =>
      match lockPages debug pageSize env ps s with
      | (false, s) => (false, s.unlockPage p)
      | (true, s) => (true, s)

/-- `psync_mem_lock`, with whether it returns 0. -/
def memLock (debug : Bool) (pageSize : Option Nat) (env : Nat → Mlock) (s : State)
    (ptr size : Nat) : Bool × State :=
  match pageSize with
  | none => (false, s)
  | some ps => s.lockPages debug pageSize env (pagesOf ps ptr size)

/-- `psync_locked_malloc` writes a block and returns it. -/
def handOut (debug : Bool) (s : State) (start size requested : Nat) : State :=
  { s with blocks := ⟨start + WORD, if debug then requested else size, requested⟩ :: s.blocks }

end State

/-- The loops that look for the smallest free interval that is large enough, with `bestsize`,
`brange` and `boffset`. -/
def bestFit (size : Nat) : Nat → Option (Range × Nat) → List (Range × Span Nat) →
    Option (Range × Nat)
  | _, best, [] => best
  | bestsize, best, (r, i) :: rest =>
    let intsize := i.stop - i.start
    if size ≤ intsize ∧ intsize < bestsize then
      if intsize = size then some (r, i.start)
      else bestFit size intsize (some (r, i.start)) rest
    else bestFit size bestsize best rest

/-- Where the tree puts a range. -/
def insertRange (r : Range) : List Range → List Range
  | [] => [r]
  | r' :: rs => if r.mem < r'.mem then r :: r' :: rs else r' :: insertRange r rs

namespace State

/-- The range and the offset that `psync_locked_malloc` takes a block from. -/
def chooses (s : State) (size : Nat) : Option (Range × Nat) :=
  bestFit size SIZE_MAX none (s.ranges.flatMap fun r => r.freeintervals.map fun i => (r, i))

/-- A block from a free interval. -/
def mallocFrom (debug : Bool) (pageSize : Option Nat) (env : Nat → Mlock) (s : State)
    (brange : Range) (boffset size requested : Nat) : State :=
  let s :=
    if brange.locked then s
    else
      match s.memLock debug pageSize env brange.mem brange.size with
      | (true, s) => s.modifyRange brange.mem fun r => { r with locked := true }
      | (false, s) => s
  let s := s.modifyRange brange.mem fun r =>
    { r with freeintervals := Intervals.remove boffset (boffset + size) r.freeintervals }
  s.handOut debug (brange.mem + boffset) size requested

/-- `intsize` of a new range. -/
def newSize (pageSize : Option Nat) (size : Nat) : Nat :=
  (size + LM_RANGE_OVERHEAD + pageSize.getD 4096 - 1) % 2 ^ 64 / pageSize.getD 4096
    * pageSize.getD 4096

/-- A block at the start of a new range, which is at `mem`. -/
def mallocNew (debug : Bool) (pageSize : Option Nat) (env : Nat → Mlock) (s : State)
    (mem size requested : Nat) : State :=
  let intsize := newSize pageSize size
  let r := s.memLock debug pageSize env mem intsize
  let s := r.2
  let brange : Range := ⟨mem, intsize, r.1,
    if size + LM_RANGE_OVERHEAD < intsize then [⟨LM_RANGE_OVERHEAD + size, intsize⟩] else []⟩
  let apart := s.ranges.all fun r =>
    if mem < r.mem then mem + intsize ≤ r.mem else r.mem + r.size ≤ mem
  let s := { s with ranges := insertRange brange s.ranges, aborted := s.aborted || ! apart }
  s.handOut debug (mem + LM_RANGE_OVERHEAD) size requested

/-- `psync_locked_malloc`; `mem` is where `psync_mmap_anon_safe` maps a new range. -/
def lockedMalloc (debug : Bool) (pageSize : Option Nat) (env : Nat → Mlock) (mem : Nat)
    (s : State) (requested : Nat) : State :=
  let size := roundSize requested
  match s.chooses size with
  | some (brange, boffset) => s.mallocFrom debug pageSize env brange boffset size requested
  | none => s.mallocNew debug pageSize env mem size requested

end State

/-! ## Steps -/

/-- Mapped memory lies apart from all that is mapped. -/
def Maps (s : State) (mem size : Nat) : Prop :=
  0 < size ∧ mem + size ≤ 2 ^ 64 ∧
    ∀ r ∈ s.ranges, mem + size ≤ r.mem ∨ r.mem + r.size ≤ mem

inductive Act where
  | lockedMalloc (requested mem : Nat) (env : Nat → Mlock)
  | lockedFree (b : Block)

/-- A call.  Where memory cannot be mapped the process does not go on. -/
inductive Step (debug : Bool) (pageSize : Option Nat) (s : State) : Act → State → Prop where
  | lockedMalloc {requested mem : Nat} (env : Nat → Mlock) (size : requested < 2 ^ 64)
      (maps : s.chooses (roundSize requested) = none →
        Maps s mem (State.newSize pageSize (roundSize requested))) :
      Step debug pageSize s (.lockedMalloc requested mem env)
        (s.lockedMalloc debug pageSize env mem requested)
  | lockedFree {b : Block} (live : b ∈ s.blocks) :
      Step debug pageSize s (.lockedFree b) (s.lockedFree debug pageSize b)

end PcloudClient.Pmemlock
