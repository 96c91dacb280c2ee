/-
  Pcrc32c/CrcProofs.lean --- `psync_crc32c` computes CRC-32C, whatever the alignment.
-/
import PcloudClient.Pcrc32c.Crc

set_option autoImplicit false

namespace PcloudClient.Pcrc32c

open Bytes Blocks

/-! ## The reference is linear -/

theorem crcBit_eq (x : BitVec 32) :
    crcBit x = (x >>> 1) ^^^ if x.getLsbD 0 then polynomial else 0#32 := by
  unfold crcBit
  split
  · rfl
  · exact BitVec.xor_zero.symm

theorem crcBit_linear : XorLinear crcBit := by
  intro x y
  rw [crcBit_eq, crcBit_eq, crcBit_eq]
  exact ((XorLinear.ushiftRight 1).xor (XorLinear.bit 0 polynomial)) x y

theorem crcZero_linear : XorLinear crcZero := crcBit_linear.iterate 8

theorem crcZero_iterate_linear (n : Nat) : XorLinear crcZero^[n] := crcZero_linear.iterate n

theorem crc32c_append (crc : BitVec 32) (a b : Bytes) :
    crc32c crc (a ++ b) = crc32c (crc32c crc a) b :=
  List.foldl_append

theorem crc32c_cons (crc : BitVec 32) (b : UInt8) (data : Bytes) :
    crc32c crc (b :: data) = crc32c (crcByte crc b) data := rfl

/-- The register and the data contribute separately. -/
theorem crc32c_xor (x y : BitVec 32) (data : Bytes) :
    crc32c (x ^^^ y) data = crcZero^[data.length] x ^^^ crc32c y data := by
  induction data generalizing x y with
  | nil => rfl
  | cons b data ih =>
    have hbyte : crcByte (x ^^^ y) b = crcZero x ^^^ crcByte y b := by
      rw [crcByte, BitVec.xor_assoc, crcZero_linear]
      rfl
    rw [crc32c_cons, hbyte, ih, List.length_cons, Function.iterate_succ_apply]
    rfl

theorem crc32c_eq_xor_zero (crc : BitVec 32) (data : Bytes) :
    crc32c crc data = crcZero^[data.length] crc ^^^ crc32c 0 data := by
  rw [← crc32c_xor, show (0 : BitVec 32) = 0#32 from rfl, BitVec.xor_zero]

theorem crc32c_zero_cons (b : UInt8) (data : Bytes) :
    crc32c 0 (b :: data) = crcZero^[data.length + 1] (byteWord b) ^^^ crc32c 0 data := by
  rw [crc32c_cons, crc32c_eq_xor_zero, crcByte, show (0 : BitVec 32) = 0#32 from rfl,
    BitVec.zero_xor, Function.iterate_succ_apply]

/-! ## Bytes of a word -/

theorem byteOf_eq {w : Nat} (hw : 8 ≤ w) (x : BitVec w) (i : Nat) :
    byteOf x i = x.toNat / 2 ^ (8 * i) % 256 := by
  have hmask : (0xff#w).toNat = 2 ^ 8 - 1 := by
    have hle : 2 ^ 8 ≤ 2 ^ w := Nat.pow_le_pow_right (by decide) hw
    rw [BitVec.toNat_ofNat, Nat.mod_eq_of_lt (by omega)]
    rfl
  have hand : ((x >>> (8 * i)) &&& 0xff#w).toNat = (x >>> (8 * i)).toNat % 2 ^ 8 := by
    rw [BitVec.toNat_and, hmask, Nat.and_two_pow_sub_one_eq_mod]
  rw [byteOf, show (0xff : BitVec w) = 0xff#w from rfl, hand, BitVec.toNat_ushiftRight,
    Nat.shiftRight_eq_div_pow]
  rfl

theorem byteOf_lt {w : Nat} (hw : 8 ≤ w) (x : BitVec w) (i : Nat) : byteOf x i < 256 := by
  rw [byteOf_eq hw]
  exact Nat.mod_lt _ (by decide)

theorem byteOf_ushiftRight (x : BitVec 32) (i : Nat) : byteOf (x >>> 8) i = byteOf x (i + 1) := by
  rw [byteOf, byteOf, ← BitVec.shiftRight_add, Nat.mul_add, Nat.add_comm 8]

theorem byteWord_eq (b : UInt8) : byteWord b = BitVec.ofNat 32 b.toNat := by
  apply BitVec.eq_of_toNat_eq
  rw [byteWord, BitVec.toNat_setWidth, BitVec.toNat_ofNat]
  rfl

/-- A word is its low byte and the rest. -/
theorem split_low (x : BitVec 32) :
    x = BitVec.ofNat 32 (byteOf x 0) ^^^ ((x >>> 8) <<< 8) := by
  have hlow : BitVec.ofNat 32 (byteOf x 0) = x &&& 0xff#32 := by
    apply BitVec.eq_of_toNat_eq
    rw [BitVec.toNat_ofNat, byteOf_eq (by decide), Nat.mul_zero, Nat.pow_zero, Nat.div_one,
      BitVec.toNat_and, show (0xff#32).toNat = 2 ^ 8 - 1 from rfl,
      Nat.and_two_pow_sub_one_eq_mod]
    omega
  rw [hlow]
  apply BitVec.eq_of_getLsbD_eq
  intro i hi
  have hmask : (0xff#32).getLsbD i = decide (i < 8) := by
    rw [BitVec.getLsbD_ofNat, show (0xff : Nat) = 2 ^ 8 - 1 from rfl, Nat.testBit_two_pow_sub_one,
      decide_eq_true hi, Bool.true_and]
  rw [BitVec.getLsbD_xor, BitVec.getLsbD_and, hmask, BitVec.getLsbD_shiftLeft,
    BitVec.getLsbD_ushiftRight]
  by_cases h8 : i < 8
  · simp [h8]
  · simp [h8, hi, show 8 + (i - 8) = i by omega]

/-! ## Zero bytes -/

theorem crcBit_shiftLeft_one {x : BitVec 32} (h : x.toNat < 2 ^ 31) : crcBit (x <<< 1) = x := by
  have hshift : (x <<< 1).toNat = 2 * x.toNat := by
    rw [BitVec.toNat_shiftLeft, Nat.shiftLeft_eq, Nat.mod_eq_of_lt (by omega)]
    omega
  have hbit : (x <<< 1).getLsbD 0 = false := by simp
  rw [crcBit, hbit, if_neg (by decide)]
  apply BitVec.eq_of_toNat_eq
  rw [BitVec.toNat_ushiftRight, hshift, Nat.shiftRight_eq_div_pow]
  omega

theorem crcBit_iterate_shiftLeft (k : Nat) {x : BitVec 32} (h : x.toNat * 2 ^ k < 2 ^ 32) :
    crcBit^[k] (x <<< k) = x := by
  induction k with
  | zero => simp
  | succ k ih =>
    have hk : x.toNat * 2 ^ k < 2 ^ 31 := by
      rw [Nat.pow_succ, ← Nat.mul_assoc] at h
      omega
    have htoNat : (x <<< k).toNat < 2 ^ 31 := by
      rw [BitVec.toNat_shiftLeft, Nat.shiftLeft_eq, Nat.mod_eq_of_lt (by omega)]
      exact hk
    rw [Function.iterate_succ_apply, BitVec.shiftLeft_add, crcBit_shiftLeft_one htoNat,
      ih (by omega)]

/-- A zero byte moves the high bytes down. -/
theorem crcZero_shiftLeft {x : BitVec 32} (h : x.toNat < 2 ^ 24) : crcZero (x <<< 8) = x :=
  crcBit_iterate_shiftLeft 8 (by omega)

theorem crcZero_split (x : BitVec 32) :
    crcZero x = crcZero (BitVec.ofNat 32 (byteOf x 0)) ^^^ (x >>> 8) := by
  have hhigh : (x >>> 8).toNat < 2 ^ 24 := by
    have := x.isLt
    rw [BitVec.toNat_ushiftRight, Nat.shiftRight_eq_div_pow]
    omega
  calc crcZero x = crcZero (BitVec.ofNat 32 (byteOf x 0) ^^^ ((x >>> 8) <<< 8)) := by
        rw [← split_low]
    _ = _ := by rw [crcZero_linear, crcZero_shiftLeft hhigh]

/-! ## The tables -/

theorem getD_of_eq_map_range {l : List Nat} {f : Nat → BitVec 32} {n : Nat}
    (h : l.map (BitVec.ofNat 32) = (List.range n).map f) {i : Nat} (hi : i < n) :
    BitVec.ofNat 32 (l.getD i 0) = f i := by
  have hlen : l.length = n := by simpa using congrArg List.length h
  have hget := congrArg (fun l : List (BitVec 32) => l[i]?) h
  simp only [List.getElem?_map, List.getElem?_range hi, List.getElem?_eq_getElem (hlen ▸ hi),
    Option.map_some, Option.some.injEq] at hget
  rw [List.getD_eq_getElem?_getD, List.getElem?_eq_getElem (hlen ▸ hi)]
  exact hget

/-- Row `k` of the table holds the bytes followed by `k + 1` zero bytes. -/
def IsCrcRow (row : List Nat) (k : Nat) : Prop :=
  row.map (BitVec.ofNat 32) = (List.range 256).map fun b => crcZero^[k + 1] (BitVec.ofNat 32 b)

theorem IsCrcRow.next {row row' : List Nat} {k : Nat} (h : IsCrcRow row k)
    (hnext : row'.map (BitVec.ofNat 32) = (row.map (BitVec.ofNat 32)).map crcZero) :
    IsCrcRow row' (k + 1) := by
  rw [IsCrcRow, hnext, h, List.map_map]
  refine List.map_congr_left fun b _ => ?_
  exact (Function.iterate_succ_apply' crcZero (k + 1) _).symm

/-- The columns of `crc32c_shift_chunk` that its table holds. -/
def shiftColumns : List (BitVec 32) :=
  (List.range 32).map fun i => shiftEntry (i / 8) (2 ^ (i % 8))

/-- The binary digits of `crc32ParallelChunk`, lowest first. -/
def chunkDigits : List Bool :=
  [false, false, false, false, true, false, true, false, true, false, true]

/-- The columns of row `k` of the shift table. -/
def rowColumns (k : Nat) : List (BitVec 32) := (List.range 8).map fun i => shiftEntry k (2 ^ i)

/-- Row `k` of the shift table is what its columns say. -/
def IsShiftRow (row : List Nat) (k : Nat) : Prop :=
  row.map (BitVec.ofNat 32) = (List.range 256).map fun b => mulVec (rowColumns k) (BitVec.ofNat 8 b)

/-- The tables are checked by evaluation: each row of the first against the one before, the columns
of the shift against a power of the matrix of a zero byte, and the rows of the second table against
these columns. -/
theorem tables_checked :
    ((crc32cTable.getD 0 []).map (BitVec.ofNat 32) =
        (List.range 256).map fun b => crcZero (BitVec.ofNat 32 b)) ∧
      (∀ k < 7, (crc32cTable.getD (k + 1) []).map (BitVec.ofNat 32) =
        ((crc32cTable.getD k []).map (BitVec.ofNat 32)).map crcZero) ∧
      powColumns ((List.range 32).map fun i => crcZero (BitVec.twoPow 32 i)) chunkDigits =
        shiftColumns ∧
      (∀ k < 4, ∀ i < 8,
        mulVec shiftColumns (((BitVec.twoPow 8 i).setWidth 32) <<< (8 * k)) =
          shiftEntry k (2 ^ i)) ∧
      ∀ k < 4, (crc32cShiftChunkTable1360.getD k []).map (BitVec.ofNat 32) =
        (List.range 256).map fun b => mulVec (rowColumns k) (BitVec.ofNat 8 b) := by
  refine ⟨?_, ?_, ?_, ?_, ?_⟩
  · decide +kernel
  · decide +kernel
  · decide +kernel
  · decide
  · decide +kernel

theorem isCrcRow_zero : IsCrcRow (crc32cTable.getD 0 []) 0 := tables_checked.1

theorem isCrcRow {k : Nat} (hk : k < 8) : IsCrcRow (crc32cTable.getD k []) k := by
  induction k with
  | zero => exact isCrcRow_zero
  | succ k ih => exact (ih (by omega)).next (tables_checked.2.1 k (by omega))

theorem tableEntry_eq {k i : Nat} (hk : k < 8) (hi : i < 256) :
    tableEntry k i = crcZero^[k + 1] (BitVec.ofNat 32 i) :=
  getD_of_eq_map_range (isCrcRow hk) hi

theorem crcZero_iterate_succ {k : Nat} (hk : k < 8) (x : BitVec 32) :
    crcZero^[k + 1] x = tableEntry k (byteOf x 0) ^^^ crcZero^[k] (x >>> 8) := by
  rw [Function.iterate_succ_apply, crcZero_split, crcZero_iterate_linear,
    ← Function.iterate_succ_apply, tableEntry_eq hk (byteOf_lt (by decide) x 0)]

/-- Eight zero bytes, by the upper half of the table. -/
theorem crcZero_iterate_eight (x : BitVec 32) :
    crcZero^[8] x = tableEntry 7 (byteOf x 0) ^^^ tableEntry 6 (byteOf x 1) ^^^
      tableEntry 5 (byteOf x 2) ^^^ tableEntry 4 (byteOf x 3) := by
  have hzero : x >>> 8 >>> 8 >>> 8 >>> 8 = 0#32 := by
    rw [← BitVec.shiftRight_add, ← BitVec.shiftRight_add, ← BitVec.shiftRight_add]
    exact BitVec.ushiftRight_eq_zero (by decide)
  rw [crcZero_iterate_succ (by decide), crcZero_iterate_succ (by decide),
    crcZero_iterate_succ (by decide), crcZero_iterate_succ (by decide), hzero,
    (crcZero_iterate_linear 4).map_zero, BitVec.xor_zero]
  simp only [byteOf_ushiftRight, BitVec.xor_assoc]

/-! ## The software path -/

theorem crc32c8bit_eq (crc : BitVec 32) (b : UInt8) : crc32c8bit crc b = crc32c crc [b] := by
  have hb : byteWord b >>> 8 = 0#32 := by
    apply BitVec.eq_of_toNat_eq
    have := b.toNat_lt
    rw [byteWord_eq, BitVec.toNat_ushiftRight, BitVec.toNat_ofNat, Nat.shiftRight_eq_div_pow,
      BitVec.toNat_ofNat]
    omega
  have h := crcZero_iterate_succ (k := 0) (by decide) (crc ^^^ byteWord b)
  rw [Function.iterate_zero_apply, BitVec.ushiftRight_xor_distrib, hb, BitVec.xor_zero] at h
  exact h.symm

theorem two_pow_mul_xor {i b : Nat} (hb : b < 2 ^ i) (a : Nat) :
    2 ^ i * a ^^^ b = 2 ^ i * a + b := by
  apply Nat.eq_of_testBit_eq
  intro j
  rw [Nat.testBit_xor, Nat.testBit_two_pow_mul_add a hb, Nat.testBit_two_pow_mul]
  by_cases hj : j < i
  · simp [hj, show ¬ i ≤ j by omega]
  · have hlt : b < 2 ^ j := Nat.lt_of_lt_of_le hb (Nat.pow_le_pow_right (by decide) (by omega))
    simp [hj, show i ≤ j by omega, Nat.testBit_lt_two_pow hlt]

/-- The word in front of a string. -/
def leWord : Bytes → BitVec 32
  | [] => 0#32
  | b :: data => byteWord b ^^^ (leWord data <<< 8)

theorem leWord_toNat {data : Bytes} (h : data.length ≤ 4) : (leWord data).toNat = ofLE data := by
  induction data with
  | nil => rfl
  | cons b data ih =>
    have hlen : data.length ≤ 3 := Nat.le_of_succ_le_succ h
    have hlt : ofLE data < 256 ^ 3 :=
      Nat.lt_of_lt_of_le (ofLE_lt data) (Nat.pow_le_pow_right (by decide) hlen)
    have hb : b.toNat < 2 ^ 8 := b.toNat_lt
    have hshift : (leWord data <<< 8).toNat = 2 ^ 8 * ofLE data := by
      rw [BitVec.toNat_shiftLeft, ih (by omega), Nat.shiftLeft_eq, Nat.mod_eq_of_lt (by omega),
        Nat.mul_comm]
    have hbyte : (byteWord b).toNat = b.toNat := by
      rw [byteWord_eq, BitVec.toNat_ofNat, Nat.mod_eq_of_lt (by omega)]
    rw [leWord, BitVec.toNat_xor, hshift, hbyte, ofLE, Nat.xor_comm,
      two_pow_mul_xor hb]
    omega

theorem load32_eq_leWord (data : Bytes) : load32 data = leWord (data.take 4) := by
  have h4 : (data.take 4).length ≤ 4 := List.length_take_le 4 data
  rw [load32, ← leWord_toNat h4, BitVec.ofNat_toNat, BitVec.setWidth_eq]

/-- Up to four bytes can be put into the register first. -/
theorem crc32c_short {data : Bytes} (h : data.length ≤ 4) (crc : BitVec 32) :
    crc32c crc data = crcZero^[data.length] (crc ^^^ leWord data) := by
  induction data generalizing crc with
  | nil => exact BitVec.xor_zero.symm
  | cons b data ih =>
    have hlen : data.length ≤ 3 := Nat.le_of_succ_le_succ h
    have hlt : (leWord data).toNat < 2 ^ 24 := by
      rw [leWord_toNat (by omega)]
      exact Nat.lt_of_lt_of_le (ofLE_lt data) (Nat.pow_le_pow_right (by decide) hlen)
    rw [crc32c_cons, ih (by omega), List.length_cons, Function.iterate_succ_apply, leWord,
      ← BitVec.xor_assoc, crcZero_linear (crc ^^^ byteWord b), crcZero_shiftLeft hlt]
    rfl

theorem crc32c64bit_eq {data : Bytes} (h : data.length = 8) (crc : BitVec 32) :
    crc32c64bit crc data = crc32c crc data := by
  match data, h with
  | [b0, b1, b2, b3, b4, b5, b6, b7], _ =>
    have hentry : ∀ k < 8, ∀ b : UInt8,
        tableEntry k b.toNat = crcZero^[k + 1] (byteWord b) := by
      intro k hk b
      rw [tableEntry_eq hk b.toNat_lt, byteWord_eq]
    have hlow : crc32c crc [b0, b1, b2, b3] = crcZero^[4] (crc ^^^ leWord [b0, b1, b2, b3]) :=
      crc32c_short (le_refl 4) crc
    have hhigh : crc32c 0 [b4, b5, b6, b7] = tableEntry 3 b4.toNat ^^^ (tableEntry 2 b5.toNat ^^^
        (tableEntry 1 b6.toNat ^^^ tableEntry 0 b7.toNat)) := by
      rw [crc32c_zero_cons, crc32c_zero_cons, crc32c_zero_cons, crc32c_zero_cons,
        hentry 3 (by decide), hentry 2 (by decide), hentry 1 (by decide), hentry 0 (by decide),
        show crc32c 0 [] = 0#32 from rfl, BitVec.xor_zero]
      rfl
    calc crc32c64bit crc [b0, b1, b2, b3, b4, b5, b6, b7]
        = crcZero^[8] (crc ^^^ leWord [b0, b1, b2, b3]) ^^^ crc32c 0 [b4, b5, b6, b7] := by
          rw [crcZero_iterate_eight, hhigh, crc32c64bit, load32_eq_leWord]
          simp only [BitVec.xor_assoc]
          rfl
      _ = crc32c (crc32c crc [b0, b1, b2, b3]) [b4, b5, b6, b7] := by
          rw [crc32c_eq_xor_zero (crc32c crc [b0, b1, b2, b3]), hlow]
          rfl
      _ = crc32c crc [b0, b1, b2, b3, b4, b5, b6, b7] := by
          rw [← crc32c_append]
          rfl

theorem foldl_crc32c8bit (crc : BitVec 32) (data : Bytes) :
    data.foldl crc32c8bit crc = crc32c crc data := by
  induction data generalizing crc with
  | nil => rfl
  | cons b data ih =>
    rw [List.foldl_cons, crc32c8bit_eq, ih, ← crc32c_append]
    rfl

/-- Words one after the other over a whole number of words. -/
theorem overBlocks_words {σ : Type} {f g : σ → Bytes → σ} (hg : ∀ s a b, g s (a ++ b) = g (g s a) b)
    (hnil : ∀ s, g s [] = s) (hf : ∀ s b, b.length = 8 → f s b = g s b) {data : Bytes}
    (h : data.length % 8 = 0) (s : σ) : (overBlocks 8 f s data).1 = g s data := by
  have hrest : (overBlocks 8 f s data).2 = [] := by
    rw [← List.length_eq_zero_iff, length_overBlocks_rest_eq (by decide), h]
  rw [← overBlocks_spec hg (by decide) hf s data, hrest, hnil]

theorem psyncCrc32cSw_eq (addr : Nat) (crc : BitVec 32) (data : Bytes) :
    psyncCrc32cSw addr crc data = crc32c crc data := by
  have hword : ∀ crc (data : Bytes), data.length = 8 → crc32c64bit crc data = crc32c crc data :=
    fun crc _ h => crc32c64bit_eq h crc
  have hunrolled : ∀ crc (data : Bytes), data.length = 64 →
      (overBlocks 8 crc32c64bit crc data).1 = crc32c crc data := by
    intro crc data h
    exact overBlocks_words crc32c_append (fun _ => rfl) hword (by rw [h]) crc
  simp only [psyncCrc32cSw]
  rw [foldl_crc32c8bit, overBlocks_spec crc32c_append (by decide) hword,
    overBlocks_spec crc32c_append (by decide) hunrolled,
    untilAligned_spec crc32c_append crc32c8bit_eq]

/-! ## The shift of a whole chunk -/

theorem shiftColumns_represents : Represents shiftColumns crcZero^[crc32ParallelChunk] := by
  have h := crcZero_linear.represents.pow chunkDigits
  rw [tables_checked.2.2.1, show ofBits chunkDigits = crc32ParallelChunk by decide] at h
  exact h

theorem rowColumns_represents {k : Nat} (hk : k < 4) :
    Represents (rowColumns k) fun b : BitVec 8 =>
      crcZero^[crc32ParallelChunk] ((b.setWidth 32) <<< (8 * k)) := by
  have hlinear : XorLinear fun b : BitVec 8 =>
      crcZero^[crc32ParallelChunk] ((b.setWidth 32) <<< (8 * k)) :=
    (crcZero_iterate_linear _).comp ((XorLinear.shiftLeft (8 * k)).comp (XorLinear.setWidth 32))
  have heq : rowColumns k = (List.range 8).map fun i =>
      crcZero^[crc32ParallelChunk] (((BitVec.twoPow 8 i).setWidth 32) <<< (8 * k)) := by
    refine List.map_congr_left fun i hi => ?_
    rw [shiftColumns_represents, tables_checked.2.2.2.1 k hk i (List.mem_range.mp hi)]
  rw [heq]
  exact hlinear.represents

theorem isShiftRow : ∀ k < 4, IsShiftRow (crc32cShiftChunkTable1360.getD k []) k := by
  intro k hk
  exact tables_checked.2.2.2.2 k hk

theorem shiftEntry_eq {k i : Nat} (hk : k < 4) (hi : i < 256) :
    shiftEntry k i = crcZero^[crc32ParallelChunk] (BitVec.ofNat 32 i <<< (8 * k)) := by
  have hbyte : (BitVec.ofNat 8 i).setWidth 32 = BitVec.ofNat 32 i := by
    apply BitVec.eq_of_toNat_eq
    simp only [BitVec.toNat_setWidth, BitVec.toNat_ofNat]
    omega
  have h := rowColumns_represents hk (BitVec.ofNat 8 i)
  simp only [hbyte] at h
  rw [shiftEntry, getD_of_eq_map_range (isShiftRow k hk) hi, h]

/-- A word is its four bytes. -/
theorem split_bytes (x : BitVec 32) :
    x = BitVec.ofNat 32 (byteOf x 0) <<< (8 * 0) ^^^ BitVec.ofNat 32 (byteOf x 1) <<< (8 * 1) ^^^
      BitVec.ofNat 32 (byteOf x 2) <<< (8 * 2) ^^^ BitVec.ofNat 32 (byteOf x 3) <<< (8 * 3) := by
  have hzero : x >>> 8 >>> 8 >>> 8 >>> 8 = 0#32 := by
    rw [← BitVec.shiftRight_add, ← BitVec.shiftRight_add, ← BitVec.shiftRight_add]
    exact BitVec.ushiftRight_eq_zero (by decide)
  have h3 := split_low (x >>> 8 >>> 8 >>> 8)
  rw [hzero, BitVec.zero_shiftLeft, BitVec.xor_zero] at h3
  have h2 := split_low (x >>> 8 >>> 8)
  rw [h3] at h2
  have h1 := split_low (x >>> 8)
  rw [h2] at h1
  have h0 := split_low x
  rw [h1] at h0
  simpa only [byteOf_ushiftRight, BitVec.shiftLeft_xor_distrib, ← BitVec.shiftLeft_add,
    BitVec.xor_assoc, Nat.mul_zero, Nat.mul_one, BitVec.shiftLeft_zero] using h0

theorem crc32cShiftChunk_eq (crc : BitVec 32) :
    crc32cShiftChunk crc = crcZero^[crc32ParallelChunk] crc := by
  have hbyte := byteOf_lt (w := 32) (by decide) crc
  conv => rhs; rw [split_bytes crc]
  rw [crcZero_iterate_linear, crcZero_iterate_linear, crcZero_iterate_linear,
    ← shiftEntry_eq (by decide) (hbyte 0), ← shiftEntry_eq (by decide) (hbyte 1),
    ← shiftEntry_eq (by decide) (hbyte 2), ← shiftEntry_eq (by decide) (hbyte 3)]
  rfl

/-! ## The hardware path -/

section

variable (cpu : Crc32Instr)

/-- The register after the instruction took the bytes of `data`. -/
def crc64 (crc : BitVec 64) (data : Bytes) : BitVec 64 := data.foldl cpu.crc32b crc

theorem crc64_append (crc : BitVec 64) (a b : Bytes) :
    crc64 cpu crc (a ++ b) = crc64 cpu (crc64 cpu crc a) b :=
  List.foldl_append

theorem low_crc64 (crc : BitVec 64) (data : Bytes) :
    (crc64 cpu crc data).setWidth 32 = crc32c (crc.setWidth 32) data := by
  induction data generalizing crc with
  | nil => rfl
  | cons b data ih =>
    have hlow : (cpu.crc32b crc b).setWidth 32 = crc32c (crc.setWidth 32) [b] := by
      rw [cpu.crc32b_eq]
      exact BitVec.setWidth_setWidth_of_le _ (by decide)
    rw [show crc64 cpu crc (b :: data) = crc64 cpu (cpu.crc32b crc b) data from rfl, ih, hlow,
      ← crc32c_append]
    rfl

/-- The instruction clears the high half of the register. -/
theorem crc64_of_ne_nil {data : Bytes} (h : data ≠ []) (crc : BitVec 64) :
    crc64 cpu crc data = (crc32c (crc.setWidth 32) data).setWidth 64 := by
  rw [← List.dropLast_append_getLast h, crc64_append, crc32c_append, ← low_crc64 cpu]
  exact cpu.crc32b_eq _ _

theorem toLE_load64 {data : Bytes} (h : 8 ≤ data.length) :
    toLE 8 (load64 data).toNat = data.take 8 := by
  have hlen : (data.take 8).length = 8 := List.length_take_of_le h
  have hlt : ofLE (data.take 8) < 2 ^ 64 := by
    have := ofLE_lt (data.take 8)
    rw [hlen] at this
    exact this
  rw [load64, BitVec.toNat_ofNat, Nat.mod_eq_of_lt hlt]
  have h := toLE_ofLE (data.take 8)
  rwa [hlen] at h

theorem crcWordHw_eq {data : Bytes} (h : 8 ≤ data.length) (crc : BitVec 64) :
    crcWordHw cpu crc data = crc64 cpu crc (data.take 8) := by
  have hne : data.take 8 ≠ [] := by
    rw [← List.length_pos_iff, List.length_take_of_le h]
    decide
  rw [crcWordHw, cpu.crc32q_eq, toLE_load64 h, crc64_of_ne_nil cpu hne]

theorem crcWordHw_block (crc : BitVec 64) (data : Bytes) (h : data.length = 8) :
    crcWordHw cpu crc data = crc64 cpu crc data := by
  rw [crcWordHw_eq cpu (by omega), List.take_of_length_le (by omega)]

/-- The three registers run over their own chunks. -/
theorem parallelWords_eq (n : Nat) (crc0 crc1 crc2 : BitVec 64) {data : Bytes}
    (h : crc32ParallelChunk * 2 + 8 * n ≤ data.length) :
    parallelWords cpu n (crc0, crc1, crc2) data =
      (crc64 cpu crc0 (data.take (8 * n)),
        crc64 cpu crc1 ((data.drop crc32ParallelChunk).take (8 * n)),
        crc64 cpu crc2 ((data.drop (crc32ParallelChunk * 2)).take (8 * n))) := by
  induction n generalizing crc0 crc1 crc2 data with
  | zero => simp [parallelWords, crc64]
  | succ n ih =>
    have hword : ∀ (crc : BitVec 64) (o : Nat), o ≤ crc32ParallelChunk * 2 →
        crc64 cpu (cpu.crc32q crc (load64 (data.drop o))) (((data.drop 8).drop o).take (8 * n)) =
          crc64 cpu crc ((data.drop o).take (8 * (n + 1))) := by
      intro crc o ho
      have hlen : 8 ≤ (data.drop o).length := by
        rw [List.length_drop]
        omega
      have hsplit : (data.drop o).take (8 * (n + 1)) =
          (data.drop o).take 8 ++ ((data.drop 8).drop o).take (8 * n) := by
        rw [Nat.mul_add, Nat.add_comm, List.take_add, List.drop_drop, List.drop_drop,
          Nat.add_comm o]
      rw [hsplit, crc64_append, ← crcWordHw_eq cpu hlen]
      rfl
    have hrest : crc32ParallelChunk * 2 + 8 * n ≤ (data.drop 8).length := by
      rw [List.length_drop]
      omega
    rw [parallelWords, parallelWord, ih _ _ _ hrest, hword crc1 _ (by decide),
      hword crc2 _ (by decide)]
    have h0 := hword crc0 0 (by decide)
    simp only [List.drop_zero] at h0
    rw [h0]

theorem parallelChunks_eq (crc0 : BitVec 64) (data : Bytes)
    (h : data.length = crc32ParallelChunk * 3) :
    parallelChunks cpu crc0 data = crc64 cpu crc0 data := by
  have hwords := parallelWords_eq cpu (crc32ParallelChunk / 8) crc0 0 0
    (show crc32ParallelChunk * 2 + 8 * (crc32ParallelChunk / 8) ≤ data.length by omega)
  let a := data.take crc32ParallelChunk
  let b := (data.drop crc32ParallelChunk).take crc32ParallelChunk
  let c := (data.drop (crc32ParallelChunk * 2)).take crc32ParallelChunk
  have hb : b.length = crc32ParallelChunk := by
    refine List.length_take_of_le ?_
    rw [List.length_drop]
    omega
  have hc : c.length = crc32ParallelChunk := by
    refine List.length_take_of_le ?_
    rw [List.length_drop]
    omega
  have hdata : a ++ (b ++ c) = data := by
    have hc' : c = data.drop (crc32ParallelChunk * 2) := by
      refine List.take_of_length_le ?_
      rw [List.length_drop]
      omega
    have hbc : b ++ c = data.drop crc32ParallelChunk := by
      have hdrop : data.drop (crc32ParallelChunk * 2) =
          (data.drop crc32ParallelChunk).drop crc32ParallelChunk := by
        rw [List.drop_drop, ← Nat.mul_two]
      rw [hc', hdrop]
      exact List.take_append_drop _ _
    rw [hbc]
    exact List.take_append_drop _ _
  have hbne : b ≠ [] := by
    rw [← List.length_pos_iff, hb]
    decide
  have hcne : c ≠ [] := by
    rw [← List.length_pos_iff, hc]
    decide
  -- one chunk after the other: shift the register over the next chunk, then add that chunk
  have hjoin : ∀ (x : BitVec 64) (d : Bytes), d.length = crc32ParallelChunk → d ≠ [] →
      (crc32cShiftChunk (x.setWidth 32)).setWidth 64 ^^^ crc64 cpu 0 d = crc64 cpu x d := by
    intro x d hd hne
    rw [crc64_of_ne_nil cpu hne, crc64_of_ne_nil cpu hne, ← BitVec.setWidth_xor,
      crc32cShiftChunk_eq, ← hd, crc32c_eq_xor_zero (x.setWidth 32)]
    rfl
  calc parallelChunks cpu crc0 data
      = (crc32cShiftChunk (((crc32cShiftChunk ((crc64 cpu crc0 a).setWidth 32)).setWidth 64 ^^^
          crc64 cpu 0 b).setWidth 32)).setWidth 64 ^^^ crc64 cpu 0 c := by
        simp only [parallelChunks]
        rw [hwords]
        rfl
    _ = crc64 cpu (crc64 cpu (crc64 cpu crc0 a) b) c := by
        rw [hjoin _ b hb hbne, hjoin _ c hc hcne]
    _ = crc64 cpu crc0 data := by
        rw [← crc64_append, ← crc64_append, hdata]

theorem psyncCrc32cHw_eq (addr : Nat) (crc0 : BitVec 64) (data : Bytes) :
    psyncCrc32cHw cpu addr crc0 data = crc32c (crc0.setWidth 32) data := by
  have hunrolled : ∀ crc (data : Bytes), data.length = 32 →
      (overBlocks 8 (crcWordHw cpu) crc data).1 = crc64 cpu crc data := by
    intro crc data h
    exact overBlocks_words (crc64_append cpu) (fun _ => rfl) (crcWordHw_block cpu) (by rw [h]) crc
  have hbytes : ∀ (crc : BitVec 64) (data : Bytes),
      data.foldl cpu.crc32b crc = crc64 cpu crc data := fun _ _ => rfl
  simp only [psyncCrc32cHw]
  rw [hbytes, overBlocks_spec (crc64_append cpu) (by decide) (crcWordHw_block cpu),
    overBlocks_spec (crc64_append cpu) (by decide) hunrolled,
    overBlocks_spec (crc64_append cpu) (by decide) (parallelChunks_eq cpu),
    untilAligned_spec (f := cpu.crc32b) (crc64_append cpu) (fun _ _ => rfl), low_crc64]

theorem psyncCrc32c_eq (hasHwCrc : Bool) (crcHashw addr : Nat) (crc : BitVec 32) (data : Bytes) :
    psyncCrc32c cpu hasHwCrc crcHashw addr crc data = crc32c crc data := by
  have hhw : psyncCrc32cHw cpu addr (crc.setWidth 64) data = crc32c crc data := by
    rw [psyncCrc32cHw_eq, BitVec.setWidth_setWidth_of_le _ (by decide), BitVec.setWidth_eq]
  unfold psyncCrc32c
  rw [hhw, psyncCrc32cSw_eq]
  simp only [ite_self]

/-- Both paths compute CRC-32C from every address and every initial value, so the whole function
does, whatever the processor, and it goes on from its own result over the parts of a string. -/
theorem psyncCrc32c_agree (addr : Nat) (crc : BitVec 32) (data : Bytes) :
    psyncCrc32cSw addr crc data = crc32c crc data ∧
      psyncCrc32cHw cpu addr (crc.setWidth 64) data = crc32c crc data ∧
      (∀ hasHwCrc crcHashw,
        psyncCrc32c cpu hasHwCrc crcHashw addr crc data = crc32c crc data) ∧
      ∀ hasHwCrc crcHashw addr' more,
        psyncCrc32c cpu hasHwCrc crcHashw addr crc (data ++ more) =
          psyncCrc32c cpu hasHwCrc crcHashw addr'
            (psyncCrc32c cpu hasHwCrc crcHashw addr crc data) more := by
  refine ⟨psyncCrc32cSw_eq addr crc data, ?_, fun _ _ => psyncCrc32c_eq cpu _ _ _ _ _, ?_⟩
  · have h := psyncCrc32c_eq cpu true 2 addr crc data
    exact h
  · intro hasHwCrc crcHashw addr' more
    rw [psyncCrc32c_eq, psyncCrc32c_eq, psyncCrc32c_eq, crc32c_append]

end

end PcloudClient.Pcrc32c
