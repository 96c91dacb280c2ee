/-
  Pnetlibs/ChecksumHash.lean --- the hash table of block checksums (`pnetlibs.c`, lines 1648-1788).

  An element of the table is the index of a block and one; 0 is an empty slot.  A loop without a
  bound has `fuel`, and is `none` when it is not enough.
-/
import Mathlib.Algebra.Group.Nat.Defs
import PcloudClient.Foundation.LinearProbing

set_option autoImplicit false

namespace PcloudClient.Pnetlibs.ChecksumHash

open PcloudClient.Foundation

/-- `PSYNC_SHA1_DIGEST_LEN` bytes. -/
abbrev Sha1 := Vector UInt8 20

/-- `psync_block_checksum` -/
@[ext] structure BlockChecksum where
  sha1 : Sha1
  adler : Nat
  deriving DecidableEq, Repr

/-- `psync_file_checksums`: the blocks, and for each of them the index and one of another block with
the same SHA-1, or 0. -/
structure Checksums where
  blocks : List BlockChecksum
  next : Nat → Nat

/-- `blocks[i]` -/
def blockAt (blocks : List BlockChecksum) (i : Nat) : BlockChecksum :=
  blocks.getD i ⟨Vector.replicate 20 0, 0⟩

/-- `psync_file_checksum_hash` -/
structure Hash where
  elementcnt : Nat
  elements : Nat → Nat

/-! ## The size of the table -/

/-- The loop of `psync_is_prime`. -/
def isPrimeLoop (num i : Nat) : Bool :=
  if i * i ≤ num then
    if num % i = 0 then false else isPrimeLoop num (i + 2)
  else true
termination_by num + 1 - i
decreasing_by
  have hle := Nat.le_mul_self i
  omega

/-- `psync_is_prime` -/
def isPrime (num : Nat) : Bool := isPrimeLoop num 5

/-- The first size that is tried, a number of 32 bits. -/
def firstSize (blockcnt : Nat) : Nat :=
  ((blockcnt + 1) % 2 ^ 32 / 2 * 6 % 2 ^ 32 + 1) % 2 ^ 32

/-- The loop over sizes of `psync_net_create_hash`. -/
def sizeLoop : Nat → Nat → Option Nat
  | 0, _ => none
  | fuel + 1, cnt =>
    if isPrime cnt then some cnt
    else if isPrime (cnt + 4) then some (cnt + 4)
    else sizeLoop fuel (cnt + 4 + 2)

/-! ## Filling -/

def MAX_ADLER_COLL : Nat := 64

/-- The loop over slots of `psync_net_create_hash`: the slot that the block gets and what is there,
or `none` when there are too many collisions. -/
def place (blocks : List BlockChecksum) (cnt : Nat) (elements : Nat → Nat) (sha1 : Sha1)
    (col o : Nat) : Option (Nat × Nat) :=
  if elements o = 0 then some (o, 0)
  else if sha1 = (blockAt blocks (elements o - 1)).sha1 then some (o, elements o)
  else if MAX_ADLER_COLL < col + 1 then none
  else place blocks cnt elements sha1 (col + 1) (LinearProbing.next cnt o)
termination_by MAX_ADLER_COLL - col

/-- What the loop over blocks works on; `dropped` are the blocks of the warning. -/
structure Filled where
  elements : Nat → Nat
  next : Nat → Nat
  dropped : List Nat

/-- A round of the loop over blocks of `psync_net_create_hash`. -/
def insertBlock (blocks : List BlockChecksum) (cnt : Nat) (f : Filled) (i : Nat) : Filled :=
  match place blocks cnt f.elements (blockAt blocks i).sha1 0 ((blockAt blocks i).adler % cnt) with
  | none => { f with dropped := f.dropped ++ [i] }
  | some (o, idx) =>
    { f with
      elements := Function.update f.elements o (i + 1)
      next := if idx = 0 then f.next else Function.update f.next i idx }

def fill (cs : Checksums) (cnt : Nat) : Filled :=
  (List.range cs.blocks.length).foldl (insertBlock cs.blocks cnt) ⟨fun _ => 0, cs.next, []⟩

/-- `psync_net_create_hash`: the table, the checksums with `next`, and the blocks that were
ignored. -/
def createHash (fuel : Nat) (cs : Checksums) : Option (Hash × Checksums × List Nat) :=
  (sizeLoop fuel (firstSize cs.blocks.length)).map fun cnt =>
    let f := fill cs cnt
    (⟨cnt, f.elements⟩, { cs with next := f.next }, f.dropped)

/-! ## Searching -/

/-- The element is a block with this checksum. -/
def isPair (blocks : List BlockChecksum) (adler : Nat) (sha1 : Sha1) (idx : Nat) : Bool :=
  decide ((blockAt blocks (idx - 1)).adler = adler) &&
    decide ((blockAt blocks (idx - 1)).sha1 = sha1)

/-- The loop of the searches: the slot that it ends at. -/
def probe (fuel : Nat) (h : Hash) (found : Nat → Bool) (adler : Nat) : Option Nat :=
  LinearProbing.walk h.elementcnt (fun o => decide (h.elements o = 0) || found (h.elements o)) fuel
    (adler % h.elementcnt)

/-- `psync_net_hash_has_adler` -/
def hashHasAdler (fuel : Nat) (h : Hash) (cs : Checksums) (adler : Nat) : Option Nat :=
  (probe fuel h (fun idx => decide ((blockAt cs.blocks (idx - 1)).adler = adler)) adler).map
    fun o => if h.elements o = 0 then 0 else 1

/-- `psync_net_hash_has_adler_and_sha1` -/
def hashHasAdlerAndSha1 (fuel : Nat) (h : Hash) (cs : Checksums) (adler : Nat) (sha1 : Sha1) :
    Option Nat :=
  (probe fuel h (isPair cs.blocks adler sha1) adler).map h.elements

/-! ## Removing -/

/-- The second loop of `psync_net_hash_remove`. -/
def shiftLoop (limit : Nat) (blocks : List BlockChecksum) (cnt : Nat) :
    Nat → (Nat → Nat) → Nat → Nat → Option (Nat → Nat)
  | 0, _, _, _ => none
  | fuel + 1, elements, zeroidx, o =>
    let o := LinearProbing.next cnt o
    let idx := elements o
    if idx = 0 then some elements
    else
      let bp := (blockAt blocks (idx - 1)).adler % cnt
      if bp ≠ o then
        (LinearProbing.walk cnt (fun bp => decide (bp = zeroidx) || decide (bp = o)) limit bp).bind
          fun bp =>
            if bp = zeroidx then
              shiftLoop limit blocks cnt fuel
                (Function.update (Function.update elements bp idx) o 0) o o
            else shiftLoop limit blocks cnt fuel elements zeroidx o
      else shiftLoop limit blocks cnt fuel elements zeroidx o

/-- `psync_net_hash_remove` -/
def hashRemove (fuel : Nat) (h : Hash) (cs : Checksums) (adler : Nat) (sha1 : Sha1) : Option Hash :=
  (probe fuel h (isPair cs.blocks adler sha1) adler).bind fun o =>
    if h.elements o = 0 then some h
    else
      (shiftLoop fuel cs.blocks h.elementcnt fuel (Function.update h.elements o 0) o o).map
        fun elements => { h with elements := elements }

/-! ## Blocks that are found -/

/-- `PSYNC_RANGE_TRANSFER` and `PSYNC_RANGE_COPY` -/
inductive RangeType where
  | transfer
  | copy
  deriving DecidableEq, Repr

/-- `psync_block_action` -/
structure BlockAction where
  off : Nat
  idx : Nat
  type : RangeType
  deriving DecidableEq, Repr

/-- The blocks on the way along `next`. -/
def chain (next : Nat → Nat) : Nat → Nat → Option (List Nat)
  | 0, _ => none
  | fuel + 1, cidx =>
    if next cidx = 0 then some [cidx] else (chain next fuel (next cidx - 1)).map (cidx :: ·)

/-- The loop of `psync_net_block_match_found`. -/
def copyLoop (next : Nat → Nat) (action : BlockAction) :
    Nat → (Nat → BlockAction) → Nat → Option (Nat → BlockAction)
  | 0, _, _ => none
  | fuel + 1, blockactions, cidx =>
    let blockactions := Function.update blockactions cidx action
    if next cidx ≠ 0 then copyLoop next action fuel blockactions (next cidx - 1)
    else some blockactions

/-- The table with the actions; `removed` are the checksums that `psync_net_hash_remove` was called
for. -/
structure State where
  hash : Hash
  blockactions : Nat → BlockAction
  removed : List BlockChecksum

/-- `psync_net_block_match_found` -/
def blockMatchFound (fuel : Nat) (cs : Checksums) (s : State) (idx fileidx fileoffset : Nat) :
    Option State :=
  let idx := idx - 1
  let b := blockAt cs.blocks idx
  if (s.blockactions idx).type ≠ .transfer then some s
  else
    (copyLoop cs.next ⟨fileoffset, fileidx, .copy⟩ fuel s.blockactions idx).bind fun blockactions =>
      (hashRemove fuel s.hash cs b.adler b.sha1).map fun hash =>
        { hash := hash, blockactions := blockactions, removed := s.removed ++ [b] }

/-- A call of `psync_net_block_match_found`. -/
structure Found where
  idx : Nat
  fileidx : Nat
  fileoffset : Nat
  deriving DecidableEq, Repr

/-- The calls one after the other. -/
def runFound (fuel : Nat) (cs : Checksums) : List Found → State → Option State
  | [], s => some s
  | m :: ms, s =>
    (blockMatchFound fuel cs s m.idx m.fileidx m.fileoffset).bind (runFound fuel cs ms)

/-! ## What is asked of the table -/

/-- The checksum is one of a block that was not ignored, and was not removed. -/
def Present (blocks : List BlockChecksum) (dropped : List Nat) (removed : List BlockChecksum)
    (b : BlockChecksum) : Prop :=
  (∃ i < blocks.length, i ∉ dropped ∧ blockAt blocks i = b) ∧ b ∉ removed

/-- In each of the slots that were tried for the block is a block with another SHA-1. -/
def Crowded (blocks : List BlockChecksum) (h : Hash) (i : Nat) : Prop :=
  ∀ o < h.elementcnt,
    LinearProbing.dist h.elementcnt ((blockAt blocks i).adler % h.elementcnt) o ≤ MAX_ADLER_COLL →
      h.elements o ≠ 0 ∧ (blockAt blocks (h.elements o - 1)).sha1 ≠ (blockAt blocks i).sha1

/-- The searches end.  They find what is present, and nothing else, and `next` goes from a block
that was found to all blocks with its SHA-1, once to each. -/
structure Answers (fuel : Nat) (cs : Checksums) (dropped : List Nat) (s : State) : Prop where
  adler : ∀ adler, ∃ found, hashHasAdler fuel s.hash cs adler = some found ∧
    (found ≠ 0 ↔ ∃ b, Present cs.blocks dropped s.removed b ∧ b.adler = adler)
  pair : ∀ b : BlockChecksum, ∃ idx,
    hashHasAdlerAndSha1 fuel s.hash cs b.adler b.sha1 = some idx ∧
    (idx ≠ 0 ↔ Present cs.blocks dropped s.removed b) ∧
    (idx ≠ 0 → idx ≤ cs.blocks.length ∧ blockAt cs.blocks (idx - 1) = b ∧
      ∃ l, chain cs.next fuel (idx - 1) = some l ∧ l.Nodup ∧
        ∀ j, j ∈ l ↔ j < cs.blocks.length ∧ (blockAt cs.blocks j).sha1 = b.sha1)

end PcloudClient.Pnetlibs.ChecksumHash
