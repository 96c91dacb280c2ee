/-
  Pcrc32c/FastHash.lean --- `psync_fast_hash256`, with its state kept across updates.

  The context holds the bytes of an unfinished block; how many they are stands in the last byte
  of the block.  Nothing else of the block is ever initialised.
-/
import PcloudClient.Pcrc32c.CrcProofs

set_option autoImplicit false

namespace PcloudClient.Pcrc32c

open Bytes Blocks

/-- `PSYNC_FAST_HASH256_BLOCK_LEN` -/
abbrev fastHash256BlockLen : Nat := 64

/-- `PSYNC_FAST_HASH256_LEN` -/
abbrev fastHash256Len : Nat := 32

abbrev k0 : BitVec 64 := 0xc3a5c85c97cb3127#64

abbrev k1 : BitVec 64 := 0xb492b66fbe98f273#64

abbrev k2 : BitVec 64 := 0x9ae16a3b2f90404f#64

/-! ## Words -/

/-- `fh_shiftmix` -/
def fhShiftmix (val : BitVec 64) : BitVec 64 := val ^^^ (val >>> 47)

/-- `fh_rotate64` -/
def fhRotate64 (val : BitVec 64) (shift : Nat) : BitVec 64 :=
  if shift ≠ 0 then (val >>> shift) ||| (val <<< (64 - shift)) else val

/-- `fh_hashmul3` -/
def fhHashmul3 (u v mul : BitVec 64) : BitVec 64 :=
  fhShiftmix ((fhShiftmix ((u ^^^ v) * mul) ^^^ v) * mul) * mul

/-- `fh_hashmul2` -/
def fhHashmul2 (u v : BitVec 64) : BitVec 64 := fhHashmul3 u v 0x9ddfea08eb382d69#64

/-! ## The context -/

/-- The words `state[6]`, by the names they have in the code. -/
structure HashState where
  a : BitVec 64
  b : BitVec 64
  c : BitVec 64
  d : BitVec 64
  x : BitVec 64
  y : BitVec 64
  deriving DecidableEq, Repr

/-- The state that the bytes `s` are. -/
def HashState.ofBytes (s : Bytes) : HashState :=
  ⟨load64 s, load64 (s.drop 8), load64 (s.drop 16), load64 (s.drop 24), load64 (s.drop 32),
    load64 (s.drop 40)⟩

/-- The buffer of one block. -/
abbrev Buff := Fixed fastHash256BlockLen

namespace Buff

/-- `memcpy(buff+off, src, ..)` -/
def memcpy (buff : Buff) (off : Nat) (src : Bytes) : Buff :=
  buff.write off src

/-- `buff[PSYNC_FAST_HASH256_BLOCK_LEN-1]`: how many bytes of the block are there. -/
def fill (buff : Buff) : Nat := (buff.bytes.getD (fastHash256BlockLen - 1) 0).toNat

/-- `buff[PSYNC_FAST_HASH256_BLOCK_LEN-1]=n` -/
def setFill (buff : Buff) (n : Nat) : Buff :=
  buff.memcpy (fastHash256BlockLen - 1) [UInt8.ofNat n]

end Buff

/-- `psync_fast_hash256_ctx` -/
structure FastHash256Ctx where
  state : HashState
  length : BitVec 64
  buff : Buff

/-- `n` bytes of row `k` of the table, from the entry `i` on. -/
def tableBytes (k i n : Nat) : Bytes :=
  (((crc32cTable.getD k []).drop i).flatMap (toLE 4)).take n

/-- `psync_fast_hash256_init`; `buff` is what the memory held before. -/
def psyncFastHash256Init (buff : Buff) : FastHash256Ctx where
  state := HashState.ofBytes (tableBytes 0 2 48)
  length := 0
  buff := buff.setFill 0

/-- `psync_fast_hash256_init_seed` -/
def psyncFastHash256InitSeed (buff : Buff) (seed : Bytes) : FastHash256Ctx :=
  let start := tableBytes 0 2 48
  let seed := seed.take 48
  { psyncFastHash256Init buff with
    state := HashState.ofBytes (Bytes.xor start seed ++ start.drop seed.length) }

section

/-! ## The code, by the function that takes a word into a checksum -/

variable (crc : BitVec 64 → BitVec 64 → BitVec 64)

/-- `ROUND_GEN` -/
def roundGen (s : HashState) (block : Bytes) : HashState :=
  let word := fun i => load64 (block.drop (8 * i))
  let a := s.a + word 0
  let b := s.b + word 1
  let c := s.c + word 2
  let d := s.d + word 3
  let b := b ^^^ fhRotate64 a 21
  let d := d ^^^ fhRotate64 c 17
  let x := crc s.x (a + b)
  let y := crc s.y (c + d)
  let a := a + word 4
  let b := b + word 5
  let c := c + word 6
  let d := d + word 7
  let a := a ^^^ fhRotate64 b 13
  let c := c ^^^ fhRotate64 d 16
  let x := crc x (a + b)
  let y := crc y (c + d)
  -- ROTATE_4_64 and ROTATE_2_64
  ⟨d, a, b, c, y, x⟩

/-- `psync_fast_hash256_update_short_sw` -/
def updateShort (ctx : FastHash256Ctx) (data : Bytes) : FastHash256Ctx :=
  let l := ctx.buff.fill
  { ctx with buff := (ctx.buff.setFill (l + data.length)).memcpy l data }

/-- `psync_fast_hash256_update_long_hw` and `psync_fast_hash256_update_long_sw` -/
def updateLong (ctx : FastHash256Ctx) (data : Bytes) : FastHash256Ctx :=
  let l := ctx.buff.fill
  let buff :=
    if l ≠ 0 then ctx.buff.memcpy l (data.take (fastHash256BlockLen - l)) else ctx.buff
  let s := if l ≠ 0 then roundGen crc ctx.state buff.bytes else ctx.state
  let data := if l ≠ 0 then data.drop (fastHash256BlockLen - l) else data
  let (s, data) := overBlocks fastHash256BlockLen (roundGen crc) s data
  { ctx with state := s, buff := (buff.memcpy 0 data).setFill data.length }

/-- `psync_fast_hash256_update` -/
def update (ctx : FastHash256Ctx) (data : Bytes) : FastHash256Ctx :=
  let ctx := { ctx with length := ctx.length + BitVec.ofNat 64 data.length }
  if data.length + ctx.buff.fill < fastHash256BlockLen then updateShort ctx data
  else updateLong crc ctx data

/-- `psync_fast_hash256_final` -/
def final (ctx : FastHash256Ctx) : Fixed fastHash256Len :=
  let len := ctx.buff.fill
  let buff := (ctx.buff.memcpy len (tableBytes 1 2 (fastHash256BlockLen - len))).bytes
  let word := fun i => load64 (buff.drop (8 * i))
  let len := ctx.length
  let block :=
    toLE 8 (word 0 + len * k0).toNat ++ toLE 8 (word 1 ^^^ fhHashmul2 len k0).toNat ++
      toLE 8 (word 2 ^^^ len * k1).toNat ++ toLE 8 (word 3 - len * k2).toNat ++ buff.drop 32
  let s := roundGen crc ctx.state block
  let d := s.d ^^^ fhRotate64 s.a 43
  let a := s.a + fhRotate64 s.b 42
  let b := s.b ^^^ fhRotate64 s.c 41
  let c := s.c + fhRotate64 d 40
  let a := fhHashmul2 a (s.x + b)
  let b := fhHashmul2 b (s.y + c)
  let c := fhHashmul2 c (s.x + d)
  let d := fhHashmul2 d (s.y + a)
  Fixed.ofBytes fastHash256Len
    (toLE 8 (a + b + s.y + s.x).toNat ++ toLE 8 (fhShiftmix ((a + s.x) * k0) * k0 + b).toNat ++
      toLE 8 (fhShiftmix ((c ^^^ s.y) * k1) * k1 + d).toNat ++
      toLE 8 (fhShiftmix ((s.x - s.y) * k2) * k2 + (c ^^^ d)).toNat)

end

section

variable (cpu : Crc32Instr)

/-- `fh_crc32_64hw` when `crc_hashw` is 2, else `fh_crc32_64sw`. -/
def fhCrc3264 (crcHashw : Nat) : BitVec 64 → BitVec 64 → BitVec 64 :=
  if crcHashw = 2 then cpu.crc32q else crc32c64bitUint

/-- `psync_fast_hash256_update` -/
def psyncFastHash256Update (crcHashw : Nat) (ctx : FastHash256Ctx) (data : Bytes) :
    FastHash256Ctx :=
  update (fhCrc3264 cpu crcHashw) ctx data

/-- `psync_fast_hash256_final` -/
def psyncFastHash256Final (crcHashw : Nat) (ctx : FastHash256Ctx) : Fixed fastHash256Len :=
  final (fhCrc3264 cpu crcHashw) ctx

/-- The value for a string fed in the pieces `chunks`. -/
def hashChunks (crcHashw : Nat) (ctx : FastHash256Ctx) (chunks : List Bytes) :
    Fixed fastHash256Len :=
  psyncFastHash256Final cpu crcHashw (chunks.foldl (psyncFastHash256Update cpu crcHashw) ctx)

end

/-- The value for a string, in one piece and without the instruction. -/
def fastHash256 (data : Bytes) : Fixed fastHash256Len :=
  final crc32c64bitUint
    (update crc32c64bitUint (psyncFastHash256Init (Fixed.ofBytes fastHash256BlockLen [])) data)

/-! ## The buffer -/

namespace Buff

/-- Writing in front of the last byte leaves it. -/
theorem fill_memcpy {buff : Buff} {off : Nat} {src : Bytes} (h : off + src.length < 64) :
    (buff.memcpy off src).fill = buff.fill := by
  show ((buff.write off src).bytes.getD 63 0).toNat = (buff.bytes.getD 63 0).toNat
  rw [List.getD_eq_getElem?_getD, List.getD_eq_getElem?_getD,
    Fixed.getElem?_write_of_le (Nat.le_of_lt h) (by omega : off + src.length ≤ 63)]

theorem fill_setFill {buff : Buff} {n : Nat} (hn : n < 256) : (buff.setFill n).fill = n := by
  show ((buff.write 63 [UInt8.ofNat n]).bytes.getD 63 0).toNat = n
  rw [List.getD_eq_getElem?_getD, Fixed.getElem?_write_singleton (by decide)]
  simp [Nat.mod_eq_of_lt hn]

theorem take_setFill {buff : Buff} {n k : Nat} (hk : k < 64) :
    (buff.setFill n).bytes.take k = buff.bytes.take k :=
  Fixed.take_write_of_le (le_refl 64) (by omega : k ≤ 63)

theorem take_memcpy (buff : Buff) (off : Nat) (src : Bytes) (h : off + src.length ≤ 64) :
    (buff.memcpy off src).bytes.take (off + src.length) = buff.bytes.take off ++ src :=
  Fixed.take_write h

/-- The start of a block stored as an unfinished one. -/
theorem take_store {buff : Buff} {rest : Bytes} (h : rest.length < 64) :
    ((buff.memcpy 0 rest).setFill rest.length).bytes.take rest.length = rest := by
  have htake := take_memcpy buff 0 rest (by omega)
  rw [Nat.zero_add, List.take_zero, List.nil_append] at htake
  rw [take_setFill h, htake]

end Buff

/-! ## Both ways of taking a word -/

theorem toLE_getD {k i : Nat} (hi : i < k) (n : Nat) :
    ((toLE k n).getD i 0).toNat = n / 2 ^ (8 * i) % 256 := by
  induction k generalizing i n with
  | zero => exact absurd hi (Nat.not_lt_zero i)
  | succ k ih =>
    cases i with
    | zero => simp [toLE]
    | succ i =>
      have hpow : n / 256 / 2 ^ (8 * i) = n / 2 ^ (8 * (i + 1)) := by
        rw [Nat.div_div_eq_div_mul, Nat.mul_succ, Nat.pow_add, Nat.mul_comm]
      rw [toLE, List.getD_cons_succ, ih (by omega), hpow]

theorem load32_toLE (uint : BitVec 64) : load32 (toLE 8 uint.toNat) = uint.setWidth 32 := by
  have htake : (toLE 8 uint.toNat).take 4 = toLE 4 uint.toNat := rfl
  apply BitVec.eq_of_toNat_eq
  rw [load32, htake, ofLE_toLE, BitVec.toNat_ofNat, BitVec.toNat_setWidth]
  omega

theorem byteOf_setWidth (x : BitVec 64) {i : Nat} (hi : i < 4) :
    byteOf (x.setWidth 32) i = byteOf x i := by
  rw [byteOf_eq (by decide), byteOf_eq (by decide), BitVec.toNat_setWidth]
  match i, hi with
  | 0, _ => omega
  | 1, _ => omega
  | 2, _ => omega
  | 3, _ => omega

theorem byteOf_toLE (uint : BitVec 64) {i : Nat} (hi : i < 8) :
    ((toLE 8 uint.toNat).getD i 0).toNat = byteOf uint i := by
  rw [toLE_getD hi, byteOf_eq (by decide)]

theorem crc32c64bitUint_eq (crc uint : BitVec 64) :
    crc32c64bitUint crc uint =
      (crc32c (crc.setWidth 32) (toLE 8 uint.toNat)).setWidth 64 := by
  have hlow : (crc ^^^ (uint &&& 0xffffffff#64)).setWidth 32 =
      crc.setWidth 32 ^^^ load32 (toLE 8 uint.toNat) := by
    have hmask : (uint &&& 0xffffffff#64).setWidth 32 = uint.setWidth 32 := by
      apply BitVec.eq_of_toNat_eq
      rw [BitVec.toNat_setWidth, BitVec.toNat_setWidth, BitVec.toNat_and,
        show (0xffffffff#64).toNat = 2 ^ 32 - 1 from rfl, Nat.and_two_pow_sub_one_eq_mod,
        Nat.mod_mod]
    rw [load32_toLE, BitVec.setWidth_xor, hmask]
  have hbyte : ∀ i < 4, byteOf (crc ^^^ (uint &&& 0xffffffff#64)) i =
      byteOf (crc.setWidth 32 ^^^ load32 (toLE 8 uint.toNat)) i := by
    intro i hi
    rw [← hlow, byteOf_setWidth _ hi]
  rw [← crc32c64bit_eq (length_toLE 8 _), crc32c64bit, crc32c64bitUint]
  simp only [hbyte 0 (by decide), hbyte 1 (by decide), hbyte 2 (by decide), hbyte 3 (by decide),
    byteOf_toLE uint (show 4 < 8 by decide), byteOf_toLE uint (show 5 < 8 by decide),
    byteOf_toLE uint (show 6 < 8 by decide), byteOf_toLE uint (show 7 < 8 by decide)]

/-- The instruction and the tables take a word in the same way. -/
theorem fhCrc3264_eq (cpu : Crc32Instr) (crcHashw : Nat) :
    fhCrc3264 cpu crcHashw = crc32c64bitUint := by
  unfold fhCrc3264
  split
  · funext crc uint
    rw [cpu.crc32q_eq, crc32c64bitUint_eq]
  · rfl

/-! ## What a context stands for -/

section

variable (crc : BitVec 64 → BitVec 64 → BitVec 64)

/-- `ctx` was fed `data`, starting from the state `st0`. -/
structure Fed (st0 : HashState) (ctx : FastHash256Ctx) (data : Bytes) : Prop where
  state : ctx.state = (overBlocks 64 (roundGen crc) st0 data).1
  tail : ctx.buff.bytes.take (data.length % 64) = (overBlocks 64 (roundGen crc) st0 data).2
  fill : ctx.buff.fill = data.length % 64
  length : ctx.length = BitVec.ofNat 64 data.length

variable {crc}

theorem Fed.init (buff : Buff) :
    Fed crc (psyncFastHash256Init buff).state (psyncFastHash256Init buff) [] where
  state := by
    rw [overBlocks_of_lt (by decide)]
  tail := by
    rw [overBlocks_of_lt (by decide)]
    rfl
  fill := Buff.fill_setFill (by decide)
  length := rfl

theorem Fed.initSeed (buff : Buff) (seed : Bytes) :
    Fed crc (psyncFastHash256InitSeed buff seed).state (psyncFastHash256InitSeed buff seed) [] where
  state := by
    rw [overBlocks_of_lt (by decide)]
  tail := by
    rw [overBlocks_of_lt (by decide)]
    rfl
  fill := Buff.fill_setFill (by decide)
  length := rfl

theorem ofNat_length_append (a b : Bytes) :
    BitVec.ofNat 64 (a ++ b).length = BitVec.ofNat 64 a.length + BitVec.ofNat 64 b.length := by
  rw [List.length_append, BitVec.ofNat_add]

theorem Fed.updateShort {st0 : HashState} {ctx : FastHash256Ctx} {data more : Bytes}
    (h : Fed crc st0 ctx data) (hlen : more.length + data.length % 64 < 64) :
    Fed crc st0 (updateShort { ctx with length := ctx.length + BitVec.ofNat 64 more.length } more)
      (data ++ more) := by
  have hrest := length_overBlocks_rest_eq (f := roundGen crc) (n := 64) (by decide) st0 data
  have hmod : (data ++ more).length % 64 = data.length % 64 + more.length := by
    rw [List.length_append]
    omega
  have hblocks : overBlocks 64 (roundGen crc) st0 (data ++ more) =
      ((overBlocks 64 (roundGen crc) st0 data).1,
        (overBlocks 64 (roundGen crc) st0 data).2 ++ more) := by
    rw [overBlocks_append (by decide), overBlocks_of_lt]
    rw [List.length_append, hrest]
    omega
  have hfits : data.length % 64 + more.length < 64 := by omega
  refine ⟨?_, ?_, ?_, ?_⟩
  · rw [hblocks]
    exact h.state
  · show ((ctx.buff.setFill _).memcpy ctx.buff.fill more).bytes.take _ = _
    rw [hmod, hblocks, h.fill, Buff.take_memcpy _ _ _ hfits.le,
      Buff.take_setFill (by omega), h.tail]
  · show ((ctx.buff.setFill _).memcpy ctx.buff.fill more).fill = _
    rw [h.fill, Buff.fill_memcpy hfits, Buff.fill_setFill (by omega), hmod]
  · rw [ofNat_length_append, ← h.length]
    rfl

/-- The unfinished block is filled up before the whole blocks of `more` are taken. -/
theorem Fed.fillUp {st0 : HashState} {ctx : FastHash256Ctx} {data more : Bytes}
    (h : Fed crc st0 ctx data) (hlen : 64 ≤ more.length + data.length % 64) :
    overBlocks 64 (roundGen crc) st0 (data ++ more) =
      overBlocks 64 (roundGen crc)
        (if ctx.buff.fill ≠ 0 then
          roundGen crc ctx.state (if ctx.buff.fill ≠ 0 then
            ctx.buff.memcpy ctx.buff.fill (more.take (64 - ctx.buff.fill)) else ctx.buff).bytes
          else ctx.state)
        (if ctx.buff.fill ≠ 0 then more.drop (64 - ctx.buff.fill) else more) := by
  have hrest := length_overBlocks_rest_eq (f := roundGen crc) (n := 64) (by decide) st0 data
  rw [overBlocks_append (by decide)]
  by_cases hl : ctx.buff.fill = 0
  · have hnil : (overBlocks 64 (roundGen crc) st0 data).2 = [] := by
      rw [← List.length_eq_zero_iff, hrest, ← h.fill, hl]
    rw [if_neg (not_not.mpr hl), if_neg (not_not.mpr hl), hnil, ← h.state, List.nil_append]
  · have hfill := h.fill
    have htake : (more.take (64 - ctx.buff.fill)).length = 64 - ctx.buff.fill :=
      List.length_take_of_le (by omega)
    have hbuff : (ctx.buff.memcpy ctx.buff.fill (more.take (64 - ctx.buff.fill))).bytes =
        (overBlocks 64 (roundGen crc) st0 data).2 ++ more.take (64 - ctx.buff.fill) := by
      have hfull := Buff.take_memcpy ctx.buff ctx.buff.fill
        (more.take (64 - ctx.buff.fill)) (by omega)
      rw [htake, show ctx.buff.fill + (64 - ctx.buff.fill) = 64 by omega,
        List.take_of_length_le (by rw [Fixed.length_bytes])] at hfull
      rw [hfull, hfill, h.tail]
    have hblock : ((overBlocks 64 (roundGen crc) st0 data).2 ++
        more.take (64 - ctx.buff.fill)).length = 64 := by
      rw [List.length_append, hrest, htake]
      omega
    rw [if_pos hl, if_pos hl, if_pos hl, hbuff, h.state, ← overBlocks_block (by decide) hblock,
      List.append_assoc, List.take_append_drop]

theorem Fed.updateLong {st0 : HashState} {ctx : FastHash256Ctx} {data more : Bytes}
    (h : Fed crc st0 ctx data) (hlen : 64 ≤ more.length + data.length % 64) :
    Fed crc st0
      (updateLong crc { ctx with length := ctx.length + BitVec.ofNat 64 more.length } more)
      (data ++ more) := by
  have hblocks := h.fillUp hlen
  have hrest :=
    length_overBlocks_rest_eq (f := roundGen crc) (n := 64) (by decide) st0 (data ++ more)
  have hlt : (data ++ more).length % 64 < 64 := Nat.mod_lt _ (by decide)
  refine ⟨?_, ?_, ?_, ?_⟩
  · rw [hblocks]
    rfl
  · rw [← hrest, hblocks] at hlt ⊢
    exact Buff.take_store hlt
  · rw [← hrest, hblocks] at hlt ⊢
    exact Buff.fill_setFill (Nat.lt_trans hlt (by decide))
  · rw [ofNat_length_append, ← h.length]
    rfl

theorem Fed.update {st0 : HashState} {ctx : FastHash256Ctx} {data : Bytes}
    (h : Fed crc st0 ctx data) (more : Bytes) :
    Fed crc st0 (update crc ctx more) (data ++ more) := by
  unfold Pcrc32c.update
  simp only [h.fill]
  split
  · next hlt => exact h.updateShort hlt
  · next hge => exact h.updateLong (Nat.not_lt.mp hge)

/-- The value depends on what was fed only. -/
theorem Fed.final_eq {st0 : HashState} {ctx ctx' : FastHash256Ctx} {data : Bytes}
    (h : Fed crc st0 ctx data) (h' : Fed crc st0 ctx' data) : final crc ctx = final crc ctx' := by
  have hfill : ctx.buff.fill = ctx'.buff.fill := by rw [h.fill, h'.fill]
  have hlt : ctx'.buff.fill < 64 := by
    rw [h'.fill]
    exact Nat.mod_lt _ (by decide)
  have hpad : (tableBytes 1 2 (64 - ctx'.buff.fill)).length = 64 - ctx'.buff.fill := by
    refine List.length_take_of_le ?_
    have hlong : 64 ≤ (((crc32cTable.getD 1 []).drop 2).flatMap (toLE 4)).length := by
      decide +kernel
    omega
  have hbuff : ctx.buff.memcpy ctx.buff.fill (tableBytes 1 2 (64 - ctx.buff.fill)) =
      ctx'.buff.memcpy ctx'.buff.fill (tableBytes 1 2 (64 - ctx'.buff.fill)) := by
    have hwhole : ∀ buff : Buff,
        (buff.memcpy ctx'.buff.fill (tableBytes 1 2 (64 - ctx'.buff.fill))).bytes =
          buff.bytes.take ctx'.buff.fill ++ tableBytes 1 2 (64 - ctx'.buff.fill) := by
      intro buff
      have hfull := Buff.take_memcpy buff ctx'.buff.fill
        (tableBytes 1 2 (64 - ctx'.buff.fill)) (by omega)
      rwa [hpad, show ctx'.buff.fill + (64 - ctx'.buff.fill) = 64 by omega,
        List.take_of_length_le (by rw [Fixed.length_bytes])] at hfull
    rw [hfill]
    refine Subtype.ext ((hwhole ctx.buff).trans ((hwhole ctx'.buff).trans ?_).symm)
    rw [h'.fill, h'.tail, h.tail]
  unfold final
  simp only [show fastHash256BlockLen = 64 from rfl, hbuff, h.state, h'.state, h.length, h'.length]

theorem Fed.foldl {st0 : HashState} {ctx : FastHash256Ctx} {data : Bytes}
    (h : Fed crc st0 ctx data) (chunks : List Bytes) :
    Fed crc st0 (chunks.foldl (Pcrc32c.update crc) ctx) (data ++ chunks.flatten) := by
  induction chunks generalizing ctx data with
  | nil => simpa using h
  | cons c chunks ih =>
    rw [List.foldl_cons, List.flatten_cons, ← List.append_assoc]
    exact ih (h.update c)

end

/-! ## Any pieces, with or without the instruction -/

theorem psyncFastHash256Update_eq (cpu : Crc32Instr) (crcHashw : Nat) :
    psyncFastHash256Update cpu crcHashw = update crc32c64bitUint := by
  funext ctx data
  rw [psyncFastHash256Update, fhCrc3264_eq]

/-- The pieces do not matter, nor what the buffer held, nor which way words are taken. -/
theorem hashChunks_eq (cpu : Crc32Instr) (crcHashw : Nat) (buff : Buff) (chunks : List Bytes) :
    hashChunks cpu crcHashw (psyncFastHash256Init buff) chunks = fastHash256 chunks.flatten := by
  have hchunks : Fed crc32c64bitUint _ _ _ := (Fed.init buff).foldl chunks
  have hwhole : Fed crc32c64bitUint _ _ _ :=
    (Fed.init (Fixed.ofBytes 64 [])).update chunks.flatten
  rw [hashChunks, psyncFastHash256Update_eq, psyncFastHash256Final, fhCrc3264_eq]
  exact hchunks.final_eq hwhole

/-- The same for a seeded hash, against one update with the whole string. -/
theorem hashChunks_seed_eq (cpu : Crc32Instr) (crcHashw : Nat) (buff buff' : Buff) (seed : Bytes)
    (chunks : List Bytes) :
    hashChunks cpu crcHashw (psyncFastHash256InitSeed buff seed) chunks =
      final crc32c64bitUint
        (update crc32c64bitUint (psyncFastHash256InitSeed buff' seed) chunks.flatten) := by
  have hchunks : Fed crc32c64bitUint _ _ _ := (Fed.initSeed buff seed).foldl chunks
  have hwhole : Fed crc32c64bitUint _ _ _ := (Fed.initSeed buff' seed).update chunks.flatten
  rw [hashChunks, psyncFastHash256Update_eq, psyncFastHash256Final, fhCrc3264_eq]
  exact hchunks.final_eq hwhole

end PcloudClient.Pcrc32c
