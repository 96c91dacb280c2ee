/-
  Crypto/Ctr.lean --- counter mode in place (`pcrypto.c`, lines 119-133 and 167-212).

  AES-256 under the key is any function of blocks.  The buffer is the list of its bytes, and a
  read or a write outside of it is `none`.
-/
import Mathlib.Data.Nat.Bitwise
import PcloudClient.Crypto.SectorProofs

set_option autoImplicit false

namespace PcloudClient.Crypto

open PcloudClient.Bytes

/-- `psync_crypto_aes256_ctr_encoder_decoder_t` with the primitive it is used with. -/
structure CtrEncoder where
  encoder : Block → Block
  iv : Block

/-- `copy_iv_and_xor_with_counter`: the bytes written to `dest`. -/
def copyIvAndXorWithCounter (l : LongSize) (iv : Bytes) (counter : Nat) : Bytes :=
  match l with
  | .long64 => toLE 8 (ofLE (iv.take 8) ^^^ counter)
  | .long32 =>
    toLE 4 (ofLE (iv.take 4) ^^^ (counter &&& 0xffffffff)) ++
      toLE 4 (ofLE ((iv.drop 4).take 4) ^^^ (counter >>> 32))

namespace CtrEncoder

variable (enc : CtrEncoder) (l : LongSize)

/-- `aesdst` of a counter: the counter is put on the first half of `aessrc`, the second half is
copied once. -/
def aesdst (counter : Nat) : Bytes :=
  (enc.encoder (Fixed.ofBytes aes256BlockSize
    (copyIvAndXorWithCounter l enc.iv.bytes counter ++ enc.iv.bytes.drop 8))).bytes

/-- The rounds over whole blocks with the tail behind them. -/
def encodeDecodeBlocks (xor16 : Bytes → Bytes → Bytes) : (blocksrem counter : Nat) → Bytes → Bytes
  | 0, counter, data =>
    if data.length ≠ 0 then xorCntInplace data (enc.aesdst l counter) data.length else data
  | blocksrem + 1, counter, data =>
    xor16 (data.take aes256BlockSize) (enc.aesdst l counter) ++
      encodeDecodeBlocks xor16 blocksrem (counter + 1) (data.drop aes256BlockSize)

/-- What follows the head, at the address `addr`. -/
def encodeDecodeWhole (addr counter : Nat) (data : Bytes) : Bytes :=
  let blocksrem := data.length / aes256BlockSize
  if addr % l.size = 0 then
    enc.encodeDecodeBlocks l (xor16AlignedInplace l) blocksrem counter data
  else enc.encodeDecodeBlocks l xor16UnalignedInplace blocksrem counter data

/-- `psync_crypto_aes256_ctr_encode_decode_inplace` of a buffer at the address `addr`. -/
def encodeDecodeInplace (addr : Nat) (data : Bytes) (dataoffset : UInt64) : Option Bytes :=
  let counter := dataoffset.toNat / aes256BlockSize
  let dataoffset := dataoffset.toNat % aes256BlockSize
  if dataoffset ≠ 0 then
    let blocksrem := aes256BlockSize - dataoffset
    -- the loop of `xor_cnt_inplace` does not look at `datalen`
    if blocksrem ≤ data.length then
      let data := xorCntInplace data ((enc.aesdst l counter).drop dataoffset) blocksrem
      some (data.take blocksrem ++
        enc.encodeDecodeWhole l (addr + blocksrem) (counter + 1) (data.drop blocksrem))
    else none
  else some (enc.encodeDecodeWhole l addr counter data)

/-- Consecutive pieces of a buffer, each at its own offset; a piece past the offsets of a
`uint64_t` cannot be asked for. -/
def encodeDecodePieces (addr off : Nat) : List Bytes → Option Bytes
  | [] => some []
  | piece :: pieces =>
    if off < 2 ^ 64 then
      (enc.encodeDecodeInplace l addr piece (UInt64.ofNat off)).bind fun out =>
        (encodeDecodePieces (addr + piece.length) (off + piece.length) pieces).map (out ++ ·)
    else none

/-! ## The key stream -/

/-- Block `counter` of the key stream. -/
def keyBlock (counter : Nat) : Block :=
  enc.encoder (Fixed.ofBytes aes256BlockSize
    (xor (enc.iv.bytes.take 8) (toLE 8 counter) ++ enc.iv.bytes.drop 8))

/-- Byte `n` of the key stream. -/
def keyStream (n : Nat) : UInt8 := (enc.keyBlock (n / 16)).bytes.getD (n % 16) 0

/-- The bytes of a text that starts at the place `n`. -/
def xorStream : Nat → Bytes → Bytes
  | _, [] => []
  | n, x :: data => (x ^^^ enc.keyStream n) :: xorStream (n + 1) data

theorem xorStream_cons (n : Nat) (x : UInt8) (data : Bytes) :
    enc.xorStream n (x :: data) = (x ^^^ enc.keyStream n) :: enc.xorStream (n + 1) data := rfl

@[simp] theorem length_xorStream (n : Nat) (data : Bytes) :
    (enc.xorStream n data).length = data.length := by
  induction data generalizing n with
  | nil => rfl
  | cons x data ih => rw [xorStream_cons, List.length_cons, ih, List.length_cons]

theorem xorStream_append (n : Nat) (a b : Bytes) :
    enc.xorStream n (a ++ b) = enc.xorStream n a ++ enc.xorStream (n + a.length) b := by
  induction a generalizing n with
  | nil => rfl
  | cons x a ih =>
    simp only [List.cons_append, xorStream_cons, ih, List.length_cons]
    rw [Nat.add_right_comm, Nat.add_assoc]

theorem xorStream_xorStream (n : Nat) (data : Bytes) :
    enc.xorStream n (enc.xorStream n data) = data := by
  induction data generalizing n with
  | nil => rfl
  | cons x data ih =>
    rw [xorStream_cons, xorStream_cons, ih, UInt8.xor_assoc, UInt8.xor_self, UInt8.xor_zero]

theorem getElem?_xorStream (n i : Nat) (data : Bytes) :
    (enc.xorStream n data)[i]? = data[i]?.map fun x => x ^^^ enc.keyStream (n + i) := by
  induction data generalizing n i with
  | nil => rfl
  | cons x data ih =>
    cases i with
    | zero => rfl
    | succ i =>
      simp only [xorStream_cons, List.getElem?_cons_succ, ih]
      rw [Nat.add_right_comm, Nat.add_assoc]

/-- Inside of a block the key stream is the block. -/
theorem xorStream_block (counter : Nat) {k : Nat} {data : Bytes} (h : k + data.length ≤ 16) :
    enc.xorStream (16 * counter + k) data = xor data ((enc.keyBlock counter).bytes.drop k) := by
  induction data generalizing k with
  | nil => rfl
  | cons x data ih =>
    rw [List.length_cons] at h
    have hk : k < (enc.keyBlock counter).bytes.length := by
      rw [Fixed.length_bytes]
      exact Nat.lt_of_lt_of_le (by omega) h
    have hdiv : (16 * counter + k) / 16 = counter := by omega
    have hmod : (16 * counter + k) % 16 = k := by omega
    have hbyte : enc.keyStream (16 * counter + k) = (enc.keyBlock counter).bytes[k] := by
      rw [keyStream, hdiv, hmod]
      exact (List.getElem_eq_getD 0).symm
    rw [List.drop_eq_getElem_cons hk, xor_cons, xorStream_cons, hbyte, Nat.add_assoc, ih (by omega)]

end CtrEncoder

/-! ## The code against the key stream -/

theorem copyIvAndXorWithCounter_eq (l : LongSize) {iv : Bytes} (h : iv.length = 16)
    (counter : Nat) :
    copyIvAndXorWithCounter l iv counter = xor (iv.take 8) (toLE 8 counter) := by
  cases l with
  | long64 =>
    have hlen : (iv.take 8).length = 8 := by rw [List.length_take]; omega
    have hiv := toLE_ofLE (iv.take 8)
    rw [hlen] at hiv
    rw [copyIvAndXorWithCounter, toLE_xor, hiv]
  | long32 =>
    have hlen : (iv.take 4).length = 4 := by rw [List.length_take]; omega
    have hlen' :
        ((iv.drop 4).take 4).length = 4 := by rw [List.length_take, List.length_drop]; omega
    have hlow := toLE_ofLE (iv.take 4)
    have hhigh := toLE_ofLE ((iv.drop 4).take 4)
    rw [hlen] at hlow
    rw [hlen'] at hhigh
    have hmask : toLE 4 (counter &&& 0xffffffff) = toLE 4 counter := by
      have hand : counter &&& 0xffffffff = counter % 256 ^ 4 :=
        Nat.and_two_pow_sub_one_eq_mod counter 32
      rw [hand, toLE_mod]
    have hshift : counter >>> 32 = counter / 256 ^ 4 := Nat.shiftRight_eq_div_pow counter 32
    have hsplit : iv.take 8 = iv.take 4 ++ (iv.drop 4).take 4 :=
      @List.take_add _ iv 4 4
    rw [copyIvAndXorWithCounter, toLE_xor, toLE_xor, hlow, hhigh, hmask, hshift, hsplit,
      toLE_add 4 4, xor_append (by rw [hlen, length_toLE])]

theorem xor_take (data key : Bytes) : xor data (key.take data.length) = xor data key := by
  induction data generalizing key with
  | nil => rfl
  | cons x data ih =>
    cases key with
    | nil => rfl
    | cons y key => simp [ih]

theorem xorCntInplace_all (data key : Bytes) :
    xorCntInplace data key data.length = xor data key := by
  rw [xorCntInplace, List.take_length, List.drop_length, List.append_nil, xor_take]

namespace CtrEncoder

variable (enc : CtrEncoder) (l : LongSize)

theorem aesdst_eq (counter : Nat) : enc.aesdst l counter = (enc.keyBlock counter).bytes := by
  rw [aesdst, copyIvAndXorWithCounter_eq l (Fixed.length_bytes _), keyBlock]

/-- Whole blocks and the tail, from the start of a block on. -/
theorem encodeDecodeBlocks_eq {xor16 : Bytes → Bytes → Bytes}
    (hxor : ∀ d key : Bytes, d.length = 16 → 16 ≤ key.length → xor16 d key = xor d (key.take 16))
    (blocksrem counter : Nat) {data : Bytes} (h : data.length / 16 = blocksrem) :
    enc.encodeDecodeBlocks l xor16 blocksrem counter data = enc.xorStream (16 * counter) data := by
  induction blocksrem generalizing counter data with
  | zero =>
    have hshort : 0 + data.length ≤ 16 := by omega
    have hstream := enc.xorStream_block counter hshort
    rw [Nat.add_zero, List.drop_zero] at hstream
    rw [encodeDecodeBlocks, hstream, aesdst_eq]
    split
    · exact xorCntInplace_all _ _
    · next hempty =>
      rw [not_not] at hempty
      rw [List.eq_nil_of_length_eq_zero hempty]
      rfl
  | succ blocksrem ih =>
    have hblock : (data.take 16).length = 16 := by rw [List.length_take]; omega
    have hrest : (data.drop 16).length / 16 = blocksrem := by rw [List.length_drop]; omega
    have hkey : (enc.keyBlock counter).bytes.length = 16 := Fixed.length_bytes _
    have hstream := enc.xorStream_block counter (Nat.le_of_eq ((Nat.zero_add _).trans hblock))
    rw [Nat.add_zero, List.drop_zero] at hstream
    rw [encodeDecodeBlocks, aesdst_eq, hxor _ _ hblock (Nat.le_of_eq hkey.symm),
      List.take_of_length_le (Nat.le_of_eq hkey), ← hstream, ih (counter + 1) hrest]
    have hjoin := enc.xorStream_append (16 * counter) (data.take 16) (data.drop 16)
    rw [List.take_append_drop, hblock] at hjoin
    exact hjoin.symm

theorem encodeDecodeWhole_eq (addr counter : Nat) (data : Bytes) :
    enc.encodeDecodeWhole l addr counter data = enc.xorStream (16 * counter) data := by
  rw [encodeDecodeWhole]
  split
  · exact enc.encodeDecodeBlocks_eq l
      (fun d key hd hkey => xor16AlignedInplace_eq l hd hkey) _ _ rfl
  · exact enc.encodeDecodeBlocks_eq l (fun d key hd _ => xor16UnalignedInplace_eq hd) _ _ rfl

/-- The head of a buffer reaches the end of its first block. -/
def Fits (off len : Nat) : Prop := off % 16 = 0 ∨ 16 ≤ off % 16 + len

instance (off len : Nat) : Decidable (Fits off len) := inferInstanceAs (Decidable (_ ∨ _))

/-- The function on every buffer. -/
theorem encodeDecodeInplace_eq (addr : Nat) (data : Bytes) (dataoffset : UInt64) :
    enc.encodeDecodeInplace l addr data dataoffset =
      if Fits dataoffset.toNat data.length then some (enc.xorStream dataoffset.toNat data)
      else none := by
  have hblock : aes256BlockSize = 16 := rfl
  rw [encodeDecodeInplace, hblock]
  by_cases hhead : dataoffset.toNat % 16 = 0
  · have hplace : 16 * (dataoffset.toNat / 16) = dataoffset.toNat := by omega
    have hfits : Fits dataoffset.toNat data.length := Or.inl hhead
    rw [if_neg (by simpa using hhead), if_pos hfits, encodeDecodeWhole_eq, hplace]
  · rw [if_pos hhead]
    by_cases hlong : 16 ≤ dataoffset.toNat % 16 + data.length
    · have hfits : Fits dataoffset.toNat data.length := Or.inr hlong
      have hn : 16 - dataoffset.toNat % 16 ≤ data.length := by omega
      have hkeylen : ((enc.aesdst l (dataoffset.toNat / 16)).drop (dataoffset.toNat % 16)).length =
          16 - dataoffset.toNat % 16 := by
        rw [aesdst_eq, List.length_drop, Fixed.length_bytes]
      obtain ⟨htake, hdrop⟩ := SectorEncoder.xorCntInplace_eq hn hkeylen
      have htakelen : (data.take (16 - dataoffset.toNat % 16)).length =
          16 - dataoffset.toNat % 16 := List.length_take_of_le hn
      have hstream := enc.xorStream_block (dataoffset.toNat / 16)
        (show dataoffset.toNat % 16 + (data.take (16 - dataoffset.toNat % 16)).length ≤ 16 by omega)
      have hplace : 16 * (dataoffset.toNat / 16) + dataoffset.toNat % 16 = dataoffset.toNat := by
        omega
      have hnext : 16 * (dataoffset.toNat / 16 + 1) =
          dataoffset.toNat + (16 - dataoffset.toNat % 16) := by omega
      have hjoin := enc.xorStream_append dataoffset.toNat
        (data.take (16 - dataoffset.toNat % 16)) (data.drop (16 - dataoffset.toNat % 16))
      rw [List.take_append_drop, htakelen, ← hnext] at hjoin
      rw [hplace, ← aesdst_eq enc l] at hstream
      simp only [if_pos hn]
      rw [if_pos hfits, encodeDecodeWhole_eq, htake, hdrop, ← hstream, ← hjoin]
    · have hn : ¬ 16 - dataoffset.toNat % 16 ≤ data.length := by omega
      have hmisfit : ¬ Fits dataoffset.toNat data.length := fun h => h.elim hhead hlong
      simp only [if_neg hn]
      rw [if_neg hmisfit]

/-! ## Pieces -/

/-- Each piece has an offset and reaches the end of the block that it starts in. -/
def EachFits : Nat → List Bytes → Prop
  | _, [] => True
  | off, piece :: pieces =>
    (off < 2 ^ 64 ∧ Fits off piece.length) ∧ EachFits (off + piece.length) pieces

theorem encodeDecodePieces_some_iff (addr off : Nat) (pieces : List Bytes) (out : Bytes) :
    enc.encodeDecodePieces l addr off pieces = some out ↔
      EachFits off pieces ∧ out = enc.xorStream off pieces.flatten := by
  induction pieces generalizing addr off out with
  | nil => simp [encodeDecodePieces, EachFits, xorStream, eq_comm]
  | cons piece pieces ih =>
    rw [encodeDecodePieces, EachFits, List.flatten_cons, xorStream_append]
    by_cases hoff : off < 2 ^ 64
    · have hnat : (UInt64.ofNat off).toNat = off := by
        rw [UInt64.toNat_ofNat']
        exact Nat.mod_eq_of_lt hoff
      rw [if_pos hoff, encodeDecodeInplace_eq, hnat]
      by_cases hfits : Fits off piece.length
      · rw [if_pos hfits, Option.bind_some, Option.map_eq_some_iff]
        constructor
        · rintro ⟨rest, hrest, rfl⟩
          obtain ⟨heach, rfl⟩ := (ih _ _ _).mp hrest
          exact ⟨⟨⟨hoff, hfits⟩, heach⟩, rfl⟩
        · rintro ⟨⟨-, heach⟩, rfl⟩
          exact ⟨_, (ih _ _ _).mpr ⟨heach, rfl⟩, rfl⟩
      · rw [if_neg hfits, Option.bind_none]
        exact iff_of_false nofun fun h => hfits h.1.1.2
    · rw [if_neg hoff]
      exact iff_of_false nofun fun h => hoff h.1.1.1

end CtrEncoder

/-- What a buffer given in pieces comes to: the whole of it is combined with the key stream byte
by byte, a second time gives it back, and so do its pieces at their own offsets. -/
def CtrOk (enc : CtrEncoder) (l : LongSize) (addr : Nat) (dataoffset : UInt64)
    (pieces : List Bytes) : Prop :=
  ∃ out, enc.encodeDecodeInplace l addr pieces.flatten dataoffset = some out ∧
    out.length = pieces.flatten.length ∧
    (∀ i, out[i]? =
      pieces.flatten[i]?.map fun x => x ^^^ enc.keyStream (dataoffset.toNat + i)) ∧
    enc.encodeDecodeInplace l addr out dataoffset = some pieces.flatten ∧
    enc.encodeDecodePieces l addr dataoffset.toNat pieces = some out

/-- Counter mode keeps to its buffer and its place in the key stream just when the buffer, and each
piece of it, reaches the end of the block that it starts in. -/
theorem ctr_ok (enc : CtrEncoder) (l : LongSize) (addr : Nat) (dataoffset : UInt64)
    (pieces : List Bytes) :
    CtrOk enc l addr dataoffset pieces ↔
      CtrEncoder.Fits dataoffset.toNat pieces.flatten.length ∧
        CtrEncoder.EachFits dataoffset.toNat pieces := by
  constructor
  · rintro ⟨out, hwhole, -, -, -, hpieces⟩
    refine ⟨?_, ((enc.encodeDecodePieces_some_iff l _ _ _ _).mp hpieces).1⟩
    rw [enc.encodeDecodeInplace_eq] at hwhole
    split at hwhole
    · assumption
    · exact nomatch hwhole
  · rintro ⟨hfits, heach⟩
    refine ⟨enc.xorStream dataoffset.toNat pieces.flatten, ?_, enc.length_xorStream _ _,
      fun i => enc.getElem?_xorStream _ _ _, ?_, ?_⟩
    · rw [enc.encodeDecodeInplace_eq, if_pos hfits]
    · rw [enc.encodeDecodeInplace_eq, enc.length_xorStream, if_pos hfits, enc.xorStream_xorStream]
    · exact (enc.encodeDecodePieces_some_iff l _ _ _ _).mpr ⟨heach, rfl⟩

/-- One byte in the middle of a block: the head of the block is longer than the buffer. -/
theorem not_ctrOk_short : ¬ CtrOk ⟨id, Fixed.ofBytes _ []⟩ .long64 0 8 [[0]] := by
  rintro ⟨out, hwhole, -⟩
  exact nomatch hwhole

end PcloudClient.Crypto
