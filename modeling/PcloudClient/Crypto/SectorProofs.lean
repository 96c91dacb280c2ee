/-
  Crypto/SectorProofs.lean --- the sector codec is a bijection between plaintexts with
  a nonce and the pairs of ciphertext and auth record that decoding accepts.

  The two loops of the decoder are first folded into one recursion, `cbcDecode`, which
  is then shown to be inverse to the loop of the encoder in both directions.
-/
import PcloudClient.Crypto.Sector

set_option autoImplicit false

namespace PcloudClient.Crypto

open PcloudClient.Bytes

/-! ## Helpers work bytewise -/

theorem xorLongs_eq {w cnt : Nat} {data key : Bytes} (hd : w * cnt ≤ data.length)
    (hk : w * cnt ≤ key.length) :
    xorLongs w cnt data key = xor (data.take (w * cnt)) (key.take (w * cnt)) := by
  induction cnt with
  | zero => simp [xorLongs, Bytes.xor]
  | succ cnt ih =>
    have hw : w * (cnt + 1) = w * cnt + w := by ring
    rw [hw] at hd hk ⊢
    have hx : ((data.drop (cnt * w)).take w).length = w := by
      rw [List.length_take, List.length_drop, mul_comm cnt w]
      omega
    have hy : ((key.drop (cnt * w)).take w).length = w := by
      rw [List.length_take, List.length_drop, mul_comm cnt w]
      omega
    have hword : toLE w (ofLE ((data.drop (cnt * w)).take w) ^^^
        ofLE ((key.drop (cnt * w)).take w)) =
        xor ((data.drop (cnt * w)).take w) ((key.drop (cnt * w)).take w) := by
      have h1 := toLE_ofLE ((data.drop (cnt * w)).take w)
      have h2 := toLE_ofLE ((key.drop (cnt * w)).take w)
      rw [hx] at h1
      rw [hy] at h2
      rw [toLE_xor, h1, h2]
    have hlast : xorLongs w (cnt + 1) data key = xorLongs w cnt data key ++
        toLE w (ofLE ((data.drop (cnt * w)).take w) ^^^ ofLE ((key.drop (cnt * w)).take w)) := by
      simp [xorLongs, List.range_succ]
    rw [hlast, hword, ih (by omega) (by omega), List.take_add, List.take_add, mul_comm cnt w,
      xor_append]
    simp only [List.length_take]
    omega

theorem xor16UnalignedInplace_eq {data key : Bytes} (hd : data.length = 16) :
    xor16UnalignedInplace data key = xor data (key.take 16) := by
  have h1 : data.take 16 = data := List.take_of_length_le (by omega)
  have h2 : data.drop 16 = [] := List.drop_of_length_le (by omega)
  rw [xor16UnalignedInplace, xorCntInplace, h1, h2, List.append_nil]

theorem xor16AlignedInplace_eq (l : LongSize) {data key : Bytes} (hd : data.length = 16)
    (hk : 16 ≤ key.length) : xor16AlignedInplace l data key = xor data (key.take 16) := by
  have h1 : data.take 16 = data := List.take_of_length_le (by omega)
  cases l with
  | long32 =>
    have h := xorLongs_eq (show 4 * 4 ≤ data.length by omega) (show 4 * 4 ≤ key.length by omega)
    rw [show (4 : Nat) * 4 = 16 from rfl, h1] at h
    exact h
  | long64 =>
    have h := xorLongs_eq (show 8 * 2 ≤ data.length by omega) (show 8 * 2 ≤ key.length by omega)
    rw [show (8 : Nat) * 2 = 16 from rfl, h1] at h
    exact h

/-- The loop variable of `memcmp_const` never exceeds a byte. -/
theorem foldl_or_toUInt32 (b : Bytes) (r : UInt8) :
    b.foldl (fun r x => r ||| x.toUInt32) r.toUInt32 =
      (b.foldl (fun r x => r ||| x) r).toUInt32 := by
  induction b generalizing r with
  | nil => rfl
  | cons x b ih =>
    have hor : r.toUInt32 ||| x.toUInt32 = (r ||| x).toUInt32 := by simp
    rw [List.foldl_cons, List.foldl_cons, hor, ih]

theorem foldl_or_eq_zero (b : Bytes) (r : UInt8) :
    b.foldl (fun r x => r ||| x) r = 0 ↔ r = 0 ∧ ∀ x ∈ b, x = 0 := by
  induction b generalizing r with
  | nil => simp
  | cons x b ih =>
    rw [List.foldl_cons, ih, UInt8.or_eq_zero_iff]
    simp only [List.mem_cons, forall_eq_or_imp]
    tauto

theorem mask_eq (r : UInt8) :
    ((((r.toUInt32 - 1) >>> 8) &&& 1) ^^^ 1).toNat = if r = 0 then 0 else 1 := by
  have h : ∀ i : Fin 256, (((((UInt8.ofNat i.val).toUInt32 - 1) >>> 8) &&& 1) ^^^ 1).toNat =
      if UInt8.ofNat i.val = 0 then 0 else 1 := by decide +kernel
  have hr := h ⟨r.toNat, r.toNat_lt⟩
  simpa using hr

theorem xor_all_zero_iff {a b : Bytes} (h : a.length = b.length) :
    (∀ x ∈ xor a b, x = 0) ↔ a = b := by
  induction a generalizing b with
  | nil =>
    cases b with
    | nil => simp [Bytes.xor]
    | cons y b => simp at h
  | cons x a ih =>
    cases b with
    | nil => simp at h
    | cons y b =>
      have hlen : a.length = b.length := by simpa using h
      simp only [xor_cons, List.mem_cons, forall_eq_or_imp, ih hlen, List.cons.injEq,
        UInt8.xor_eq_zero_iff]

/-- `memcmp_const` returns zero exactly on equal strings. -/
theorem memcmpConst_eq {s1 s2 : Bytes} {cnt : Nat}
    (h : (s1.take cnt).length = (s2.take cnt).length) :
    memcmpConst s1 s2 cnt = if s1.take cnt = s2.take cnt then 0 else 1 := by
  have hfold := foldl_or_toUInt32 (xor (s1.take cnt) (s2.take cnt)) 0
  simp only [memcmpConst]
  rw [show (0 : UInt32) = (0 : UInt8).toUInt32 from rfl, hfold, mask_eq]
  have hiff : (xor (s1.take cnt) (s2.take cnt)).foldl (fun r x => r ||| x) 0 = 0 ↔
      s1.take cnt = s2.take cnt := by
    rw [foldl_or_eq_zero, xor_all_zero_iff h]
    simp
  simp only [hiff]

namespace SectorEncoder

variable (enc : SectorEncoder)

@[simp] theorem length_encodeBlock (b : Bytes) : (enc.encodeBlock b).length = 16 :=
  Fixed.length_bytes _

@[simp] theorem length_decodeBlock (b : Bytes) : (enc.decodeBlock b).length = 16 :=
  Fixed.length_bytes _

theorem decodeBlock_encodeBlock {b : Bytes} (h : b.length = 16) :
    enc.decodeBlock (enc.encodeBlock b) = b := by
  rw [decodeBlock, encodeBlock, Fixed.ofBytes_bytes, Equiv.symm_apply_apply,
    Fixed.bytes_ofBytes h]

theorem encodeBlock_decodeBlock {b : Bytes} (h : b.length = 16) :
    enc.encodeBlock (enc.decodeBlock b) = b := by
  rw [decodeBlock, encodeBlock, Fixed.ofBytes_bytes, Equiv.apply_symm_apply,
    Fixed.bytes_ofBytes h]

@[simp] theorem length_encode2BlocksConsec (b : Bytes) :
    (enc.encode2BlocksConsec b).length = 32 := by
  simp [encode2BlocksConsec]

@[simp] theorem length_decode2BlocksConsec (b : Bytes) :
    (enc.decode2BlocksConsec b).length = 32 := by
  simp [decode2BlocksConsec]

theorem split32 {b : Bytes} (h : b.length = 32) : b.take 16 ++ (b.drop 16).take 16 = b := by
  rw [← List.take_add, List.take_of_length_le (by omega)]

/-- The two halves of a pair of blocks. -/
theorem halves {a b : Bytes} (ha : a.length = 16) (hb : b.length = 16) :
    (a ++ b).take 16 = a ∧ ((a ++ b).drop 16).take 16 = b := by
  rw [List.take_left' ha, List.drop_left' ha, List.take_of_length_le (by omega)]
  exact ⟨rfl, rfl⟩

theorem decode2_encode2 {b : Bytes} (h : b.length = 32) :
    enc.decode2BlocksConsec (enc.encode2BlocksConsec b) = b := by
  have h1 : (b.take 16).length = 16 := by simp [h]
  have h2 : ((b.drop 16).take 16).length = 16 := by simp [h]
  obtain ⟨hfst, hsnd⟩ := halves (enc.length_encodeBlock (b.take 16))
    (enc.length_encodeBlock ((b.drop 16).take 16))
  rw [decode2BlocksConsec, encode2BlocksConsec, hfst, hsnd, decodeBlock_encodeBlock enc h1,
    decodeBlock_encodeBlock enc h2, split32 h]

theorem encode2_decode2 {b : Bytes} (h : b.length = 32) :
    enc.encode2BlocksConsec (enc.decode2BlocksConsec b) = b := by
  have h1 : (b.take 16).length = 16 := by simp [h]
  have h2 : ((b.drop 16).take 16).length = 16 := by simp [h]
  obtain ⟨hfst, hsnd⟩ := halves (enc.length_decodeBlock (b.take 16))
    (enc.length_decodeBlock ((b.drop 16).take 16))
  rw [decode2BlocksConsec, encode2BlocksConsec, hfst, hsnd, encodeBlock_decodeBlock enc h1,
    encodeBlock_decodeBlock enc h2, split32 h]

/-! ## The loops are CBC mode -/

/-- CBC encoding of `k` blocks: the ciphertext and the last block of it. -/
def cbcEncode : (k : Nat) → (iv data : Bytes) → Bytes × Bytes
  | 0, iv, _ => ([], iv)
  | k + 1, iv, data =>
    let c := enc.encodeBlock (xor iv (data.take 16))
    let rest := cbcEncode k c (data.drop 16)
    (c ++ rest.1, rest.2)

/-- CBC decoding of `k` blocks: the plaintext and the last block of the ciphertext. -/
def cbcDecode : (k : Nat) → (iv data : Bytes) → Bytes × Bytes
  | 0, iv, _ => ([], iv)
  | k + 1, iv, data =>
    let rest := cbcDecode k (data.take 16) (data.drop 16)
    (xor (enc.decodeBlock (data.take 16)) iv ++ rest.1, rest.2)

theorem encodeBlocks_eq {xor16 : Bytes → Bytes → Bytes}
    (hxor : ∀ d key : Bytes, d.length = 16 → 16 ≤ key.length →
      xor16 d key = xor d (key.take 16))
    {k : Nat} {iv data : Bytes} (hiv : iv.length = 16) (hd : 16 * k ≤ data.length) :
    enc.encodeBlocks xor16 k iv data = enc.cbcEncode k iv data := by
  induction k generalizing iv data with
  | zero => rfl
  | succ k ih =>
    rw [encodeBlocks, cbcEncode, hxor iv data hiv (by omega),
      ih (enc.length_encodeBlock _) (by rw [List.length_drop, aes256BlockSize]; omega)]

theorem decodeBlocks_eq (l : LongSize) {k : Nat} {iv data : Bytes} (hiv : iv.length = 16)
    (hd : 16 * k ≤ data.length) :
    enc.decodeBlocks l k iv data = enc.cbcDecode k iv data := by
  induction k generalizing iv data with
  | zero => rfl
  | succ k ih =>
    have htake : (data.take 16).length = 16 := by rw [List.length_take]; omega
    have hfull : iv.take 16 = iv := List.take_of_length_le (by omega)
    rw [decodeBlocks, cbcDecode, xor16AlignedInplace_eq l (enc.length_decodeBlock _) (by omega),
      hfull, ih htake (by rw [List.length_drop]; omega)]

theorem cbcDecode_add (j k : Nat) (iv data : Bytes) :
    enc.cbcDecode (j + k) iv data =
      ((enc.cbcDecode j iv data).1 ++
        (enc.cbcDecode k (enc.cbcDecode j iv data).2 (data.drop (16 * j))).1,
       (enc.cbcDecode k (enc.cbcDecode j iv data).2 (data.drop (16 * j))).2) := by
  induction j generalizing iv data with
  | zero => simp [cbcDecode]
  | succ j ih =>
    have hdrop : data.drop (16 * (j + 1)) = (data.drop 16).drop (16 * j) := by
      rw [List.drop_drop]
      congr 1
      ring
    rw [show j + 1 + k = j + k + 1 by omega, cbcDecode, cbcDecode, hdrop]
    simp only []
    rw [ih, List.append_assoc]

/-- Four blocks at once are four blocks one by one. -/
theorem decode4BlocksConsecXor_eq (l : LongSize) {iv data : Bytes} (hiv : iv.length = 16)
    (hd : 64 ≤ data.length) :
    enc.decode4BlocksConsecXor l (data.take 64) (iv ++ (data.take 64).take 48) =
        (enc.cbcDecode 4 iv data).1 ∧
      (data.take 64).drop 48 = (enc.cbcDecode 4 iv data).2 := by
  have hkey : (iv ++ (data.take 64).take 48).length = 64 := by
    simp only [List.length_append, List.length_take]
    omega
  have hprod : l.size * (aes256BlockSize * 4 / l.size) = 64 := by cases l <;> rfl
  have hblock : ∀ i, i ≤ 48 →
      ((data.take 64).drop i).take 16 = (data.drop i).take 16 := by
    intro i hi
    rw [List.drop_take, List.take_take, min_eq_left (by omega)]
  have hkeys : iv ++ (data.take 64).take 48 =
      iv ++ data.take 16 ++ (data.drop 16).take 16 ++ (data.drop 32).take 16 := by
    have h48 : (data.take 64).take 48 = data.take (16 + (16 + 16)) := by
      rw [List.take_take]
      rfl
    rw [h48, List.take_add, List.take_add, List.drop_drop]
    simp only [List.append_assoc]
  have htake : ∀ i, i ≤ 48 → ((data.drop i).take 16).length = 16 := by
    intro i hi
    rw [List.length_take, List.length_drop]
    omega
  have h0 := hblock 0 (by omega)
  have ht0 := htake 0 (by omega)
  rw [List.drop_zero, List.drop_zero] at h0
  rw [List.drop_zero] at ht0
  constructor
  · rw [decode4BlocksConsecXor, h0, hblock 16 (by omega), hblock 32 (by omega),
      hblock 48 (by omega), xorLongs_eq (by simp [hprod]) (by omega), hprod,
      List.take_of_length_le (i := 64) (by simp),
      List.take_of_length_le (i := 64) (by omega), hkeys,
      xor_append (by simp [hiv, ht0, htake]), xor_append (by simp [hiv, ht0]),
      xor_append (by simp [hiv])]
    simp only [cbcDecode, List.drop_drop, List.append_assoc, List.append_nil]
  · simp only [cbcDecode, List.drop_drop]
    rw [List.drop_take]

theorem decodeQuads_eq (l : LongSize) {k : Nat} {iv data : Bytes} (hiv : iv.length = 16)
    (hd : 64 * k ≤ data.length) :
    enc.decodeQuads l k iv data = enc.cbcDecode (4 * k) iv data := by
  induction k generalizing iv data with
  | zero => rfl
  | succ k ih =>
    obtain ⟨hout, hlast⟩ := enc.decode4BlocksConsecXor_eq l hiv (show 64 ≤ data.length by omega)
    have hlen : ((data.take 64).drop 48).length = 16 := by
      rw [List.length_drop, List.length_take]
      omega
    rw [decodeQuads, show 4 * (k + 1) = 4 + 4 * k by ring, cbcDecode_add, ← hout, ← hlast,
      ih hlen (by rw [List.length_drop]; omega)]

@[simp] theorem length_cbcEncode (k : Nat) (iv data : Bytes) :
    (enc.cbcEncode k iv data).1.length = 16 * k := by
  induction k generalizing iv data with
  | zero => rfl
  | succ k ih =>
    simp only [cbcEncode, List.length_append, length_encodeBlock, ih]
    ring

theorem length_cbcEncode_last (k : Nat) {iv : Bytes} (data : Bytes) (hiv : iv.length = 16) :
    (enc.cbcEncode k iv data).2.length = 16 := by
  induction k generalizing iv data with
  | zero => exact hiv
  | succ k ih => exact ih _ (enc.length_encodeBlock _)

theorem length_cbcDecode {k : Nat} {iv data : Bytes} (hiv : iv.length = 16)
    (hd : 16 * k ≤ data.length) :
    (enc.cbcDecode k iv data).1.length = 16 * k ∧
      (enc.cbcDecode k iv data).2.length = 16 := by
  induction k generalizing iv data with
  | zero => exact ⟨rfl, hiv⟩
  | succ k ih =>
    have htake : (data.take 16).length = 16 := by rw [List.length_take]; omega
    obtain ⟨h1, h2⟩ := ih htake
      (show 16 * k ≤ (data.drop 16).length by rw [List.length_drop]; omega)
    refine ⟨?_, h2⟩
    simp only [cbcDecode, List.length_append, length_xor, length_decodeBlock, hiv, h1]
    omega

theorem cbcDecode_cbcEncode {k : Nat} {iv data : Bytes} (rest : Bytes) (hiv : iv.length = 16)
    (hd : 16 * k ≤ data.length) :
    enc.cbcDecode k iv ((enc.cbcEncode k iv data).1 ++ rest) =
      (data.take (16 * k), (enc.cbcEncode k iv data).2) := by
  induction k generalizing iv data with
  | zero => simp [cbcDecode, cbcEncode]
  | succ k ih =>
    have htake : (data.take 16).length = 16 := by rw [List.length_take]; omega
    have hblock : (xor iv (data.take 16)).length = 16 := by simp only [length_xor]; omega
    have hplain : xor (xor iv (data.take 16)) iv = data.take 16 := by
      rw [xor_comm iv, xor_xor_cancel (by omega)]
    have hsplit : data.take (16 * (k + 1)) = data.take 16 ++ (data.drop 16).take (16 * k) := by
      rw [← List.take_add]
      congr 1
      ring
    simp only [cbcDecode, cbcEncode, List.append_assoc]
    rw [List.take_left' (enc.length_encodeBlock _), List.drop_left' (enc.length_encodeBlock _),
      ih (enc.length_encodeBlock _) (by rw [List.length_drop]; omega),
      decodeBlock_encodeBlock enc hblock, hplain, hsplit]

theorem cbcEncode_cbcDecode {k : Nat} {iv data : Bytes} (rest : Bytes) (hiv : iv.length = 16)
    (hd : 16 * k ≤ data.length) :
    enc.cbcEncode k iv ((enc.cbcDecode k iv data).1 ++ rest) =
      (data.take (16 * k), (enc.cbcDecode k iv data).2) := by
  induction k generalizing iv data with
  | zero => simp [cbcDecode, cbcEncode]
  | succ k ih =>
    have htake : (data.take 16).length = 16 := by rw [List.length_take]; omega
    have hblock : (xor (enc.decodeBlock (data.take 16)) iv).length = 16 := by
      simp only [length_xor, length_decodeBlock]
      omega
    have hcipher : xor iv (xor (enc.decodeBlock (data.take 16)) iv) =
        enc.decodeBlock (data.take 16) := by
      rw [xor_comm iv, xor_xor_cancel (by simp [hiv])]
    have hsplit : data.take (16 * (k + 1)) = data.take 16 ++ (data.drop 16).take (16 * k) := by
      rw [← List.take_add]
      congr 1
      ring
    simp only [cbcDecode, cbcEncode, List.append_assoc]
    rw [List.take_left' hblock, List.drop_left' hblock, hcipher,
      encodeBlock_decodeBlock enc htake, ih htake (by rw [List.length_drop]; omega), hsplit]

/-! ## Ciphertext stealing -/

theorem xorCntInplace_eq {data key : Bytes} {n : Nat} (hn : n ≤ data.length)
    (hk : key.length = n) :
    (xorCntInplace data key n).take n = xor (data.take n) key ∧
      (xorCntInplace data key n).drop n = data.drop n := by
  have hlen : (xor (data.take n) key).length = n := by
    simp only [length_xor, List.length_take]
    omega
  rw [xorCntInplace, List.take_of_length_le (by omega : key.length ≤ n), List.take_left' hlen,
    List.drop_left' hlen]
  exact ⟨rfl, rfl⟩

theorem decodeSteal_encodeSteal (l : LongSize) {n : Nat} {iv data : Bytes} (hn : n < 16)
    (hiv : iv.length = 16) (hd : data.length = 16 + n) :
    enc.decodeSteal l n iv (enc.encodeSteal n iv data) = data := by
  have htail : (data.drop 16).length = n := by rw [List.length_drop]; omega
  have hhead : (data.take 16).length = 16 := by rw [List.length_take]; omega
  have hsrc : xor16UnalignedInplace iv data = xor iv (data.take 16) := xor16UnalignedInplace_eq hiv
  have hsrclen : (xor iv (data.take 16)).length = 16 := by simp only [length_xor]; omega
  generalize hmid : enc.encodeBlock (xor iv (data.take 16)) = mid
  have hmidlen : mid.length = 16 := by rw [← hmid]; exact enc.length_encodeBlock _
  obtain ⟨hpre, hpost⟩ := xorCntInplace_eq (show n ≤ mid.length by omega) htail
  have hinlen : (xorCntInplace mid (data.drop 16) n).length = 16 := by
    simp only [xorCntInplace, List.length_append, length_xor, List.length_take, List.length_drop]
    omega
  have hstolen : (mid.take n).length = n := by rw [List.length_take]; omega
  obtain ⟨hpre', hpost'⟩ := xorCntInplace_eq
    (show n ≤ (xorCntInplace mid (data.drop 16) n).length by omega) hstolen
  have hout : enc.encodeSteal n iv data =
      enc.encodeBlock (xorCntInplace mid (data.drop 16) n) ++ mid.take n := by
    simp only [encodeSteal, aes256BlockSize, hsrc, hmid]
  rw [hout, decodeSteal, List.take_left' (enc.length_encodeBlock _),
    List.drop_left' (enc.length_encodeBlock _), decodeBlock_encodeBlock enc hinlen]
  have hback : (mid.take n).take n ++ mid.drop n = mid := by
    rw [List.take_take, min_self, List.take_append_drop]
  have hplain : xor (data.drop 16) (mid.take n) = xor (mid.take n) (data.drop 16) := xor_comm _ _
  have hfull : iv.take 16 = iv := List.take_of_length_le (by omega)
  rw [hpre', hpost', hpre, hpost, hback, ← hmid, decodeBlock_encodeBlock enc hsrclen, hmid,
    xor16AlignedInplace_eq l hsrclen (by omega), hfull, xor_comm iv, xor_xor_cancel (by omega),
    ← hplain, xor_xor_cancel (by omega), List.take_append_drop]

theorem encodeSteal_decodeSteal (l : LongSize) {n : Nat} {iv data : Bytes} (hn : n < 16)
    (hiv : iv.length = 16) (hd : data.length = 16 + n) :
    enc.encodeSteal n iv (enc.decodeSteal l n iv data) = data := by
  have htail : (data.drop 16).length = n := by rw [List.length_drop]; omega
  have hhead : (data.take 16).length = 16 := by rw [List.length_take]; omega
  have hkey : (data.drop 16).take n = data.drop 16 := List.take_of_length_le (by omega)
  have hfull : iv.take 16 = iv := List.take_of_length_le (by omega)
  generalize hmid : enc.decodeBlock (data.take 16) = mid
  have hmidlen : mid.length = 16 := by rw [← hmid]; exact enc.length_decodeBlock _
  obtain ⟨hpre, hpost⟩ := xorCntInplace_eq (show n ≤ mid.length by omega) htail
  generalize hsrc : data.drop 16 ++ mid.drop n = src
  have hsrclen : src.length = 16 := by
    rw [← hsrc, List.length_append, htail, List.length_drop]
    omega
  have hfirst : (xor (enc.decodeBlock src) iv).length = 16 := by
    simp only [length_xor, length_decodeBlock]
    omega
  have hsecond : (xor (mid.take n) (data.drop 16)).length = n := by
    simp only [length_xor, List.length_take]
    omega
  have hout : enc.decodeSteal l n iv data =
      xor (enc.decodeBlock src) iv ++ xor (mid.take n) (data.drop 16) := by
    simp only [decodeSteal, hmid, hpre, hpost, hkey, hsrc]
    rw [xor16AlignedInplace_eq l (enc.length_decodeBlock _) (by omega), hfull]
  have hstolen : src.take n = data.drop 16 := by rw [← hsrc, List.take_left' htail]
  have hkept : src.drop n = mid.drop n := by rw [← hsrc, List.drop_left' htail]
  obtain ⟨hpre', hpost'⟩ := xorCntInplace_eq (show n ≤ src.length by omega) hsecond
  have hsplit : xorCntInplace src (xor (mid.take n) (data.drop 16)) n = mid := by
    rw [← List.take_append_drop n (xorCntInplace src _ n), hpre', hpost', hstolen, hkept,
      Bytes.xor_comm, xor_xor_cancel (by rw [List.length_take]; omega), List.take_append_drop]
  rw [hout, encodeSteal, xor16UnalignedInplace_eq hiv, List.take_left' hfirst]
  simp only [aes256BlockSize]
  rw [List.drop_left' hfirst, xor_comm iv, xor_xor_cancel (by simp [hiv]),
    encodeBlock_decodeBlock enc hsrclen, hsplit, ← hmid, encodeBlock_decodeBlock enc hhead,
    hstolen, List.take_append_drop]

/-! ## Texts of a block or more -/

/-- Number of bytes the main loops run over; the rest goes through stealing. -/
def cbcLen (len : Nat) : Nat := if len % 16 ≠ 0 then len - (len % 16 + 16) else len

theorem cbcLen_spec {len : Nat} (h : 16 ≤ len) :
    cbcLen len = 16 * (cbcLen len / 16) ∧
      (len % 16 = 0 ∧ cbcLen len = len ∨ len % 16 ≠ 0 ∧ cbcLen len + (16 + len % 16) = len) := by
  unfold cbcLen
  split <;> omega

def encodeLong (iv data : Bytes) : Bytes :=
  let body := enc.cbcEncode (cbcLen data.length / 16) iv data
  if data.length % 16 ≠ 0 then
    body.1 ++ enc.encodeSteal (data.length % 16) body.2 (data.drop (cbcLen data.length))
  else body.1

def decodeLong (l : LongSize) (iv data : Bytes) : Bytes :=
  let body := enc.cbcDecode (cbcLen data.length / 16) iv data
  if data.length % 16 ≠ 0 then
    body.1 ++ enc.decodeSteal l (data.length % 16) body.2 (data.drop (cbcLen data.length))
  else body.1

theorem length_encodeSteal {n : Nat} (hn : n < 16) (iv data : Bytes) :
    (enc.encodeSteal n iv data).length = 16 + n := by
  simp only [encodeSteal, List.length_append, length_encodeBlock, List.length_take]
  omega

theorem length_decodeSteal (l : LongSize) {n : Nat} {iv data : Bytes} (hn : n < 16)
    (hiv : iv.length = 16) (hd : data.length = 16 + n) :
    (enc.decodeSteal l n iv data).length = 16 + n := by
  have hmid : (xorCntInplace (enc.decodeBlock (data.take 16)) (data.drop 16) n).length = 16 := by
    simp only [xorCntInplace, List.length_append, length_xor, List.length_take, List.length_drop,
      length_decodeBlock]
    omega
  simp only [decodeSteal]
  rw [xor16AlignedInplace_eq l (enc.length_decodeBlock _) (by omega)]
  simp only [List.length_append, length_xor, length_decodeBlock, List.length_take, hiv, hmid]
  omega

@[simp] theorem length_encodeLong {iv data : Bytes} (hd : 16 ≤ data.length) :
    (enc.encodeLong iv data).length = data.length := by
  obtain ⟨hmul, hcase⟩ := cbcLen_spec hd
  have hlt : data.length % 16 < 16 := Nat.mod_lt _ (by omega)
  unfold encodeLong
  split
  · rw [List.length_append, length_cbcEncode, length_encodeSteal enc hlt]
    omega
  · rw [length_cbcEncode]
    omega

theorem length_decodeLong (l : LongSize) {iv data : Bytes} (hiv : iv.length = 16)
    (hd : 16 ≤ data.length) : (enc.decodeLong l iv data).length = data.length := by
  obtain ⟨hmul, hcase⟩ := cbcLen_spec hd
  have hlt : data.length % 16 < 16 := Nat.mod_lt _ (by omega)
  obtain ⟨hbody, hlast⟩ := enc.length_cbcDecode hiv
    (show 16 * (cbcLen data.length / 16) ≤ data.length by omega)
  unfold decodeLong
  split
  · rw [List.length_append, hbody, length_decodeSteal enc l hlt hlast
      (by rw [List.length_drop]; omega)]
    omega
  · rw [hbody]
    omega

theorem decodeLong_encodeLong (l : LongSize) {iv data : Bytes} (hiv : iv.length = 16)
    (hd : 16 ≤ data.length) : enc.decodeLong l iv (enc.encodeLong iv data) = data := by
  obtain ⟨hmul, hcase⟩ := cbcLen_spec hd
  have hlt : data.length % 16 < 16 := Nat.mod_lt _ (by omega)
  have hlen : (enc.encodeLong iv data).length = data.length := enc.length_encodeLong hd
  have hbody := enc.length_cbcEncode (cbcLen data.length / 16) iv data
  unfold decodeLong
  rw [hlen]
  rcases hcase with ⟨h0, hfull⟩ | ⟨h0, hpart⟩
  · have hround := enc.cbcDecode_cbcEncode [] hiv
      (show 16 * (cbcLen data.length / 16) ≤ data.length by omega)
    rw [List.append_nil] at hround
    have henc : enc.encodeLong iv data = (enc.cbcEncode (cbcLen data.length / 16) iv data).1 := by
      simp [encodeLong, h0]
    simp only [h0, henc, hround, ne_eq, not_true_eq_false, if_false]
    exact List.take_of_length_le (by omega)
  · have henc : enc.encodeLong iv data = (enc.cbcEncode (cbcLen data.length / 16) iv data).1 ++
        enc.encodeSteal (data.length % 16) (enc.cbcEncode (cbcLen data.length / 16) iv data).2
          (data.drop (cbcLen data.length)) := by
      simp [encodeLong, h0]
    have hlast := enc.length_cbcEncode_last (cbcLen data.length / 16) data hiv
    rw [← hmul] at hbody
    simp only [h0, ne_eq, not_false_eq_true, if_true]
    rw [henc, enc.cbcDecode_cbcEncode _ hiv (by omega), List.drop_left' hbody,
      decodeSteal_encodeSteal enc l hlt hlast (by rw [List.length_drop]; omega), ← hmul,
      List.take_append_drop]

theorem encodeLong_decodeLong (l : LongSize) {iv data : Bytes} (hiv : iv.length = 16)
    (hd : 16 ≤ data.length) : enc.encodeLong iv (enc.decodeLong l iv data) = data := by
  obtain ⟨hmul, hcase⟩ := cbcLen_spec hd
  have hlt : data.length % 16 < 16 := Nat.mod_lt _ (by omega)
  have hlen := enc.length_decodeLong l hiv hd
  obtain ⟨hbody, hlast⟩ := enc.length_cbcDecode hiv
    (show 16 * (cbcLen data.length / 16) ≤ data.length by omega)
  unfold encodeLong
  rw [hlen]
  rcases hcase with ⟨h0, hfull⟩ | ⟨h0, hpart⟩
  · have hround := enc.cbcEncode_cbcDecode [] hiv
      (show 16 * (cbcLen data.length / 16) ≤ data.length by omega)
    rw [List.append_nil] at hround
    have hdec : enc.decodeLong l iv data = (enc.cbcDecode (cbcLen data.length / 16) iv data).1 := by
      simp [decodeLong, h0]
    simp only [h0, hdec, hround, ne_eq, not_true_eq_false, if_false]
    exact List.take_of_length_le (by omega)
  · have hdec : enc.decodeLong l iv data = (enc.cbcDecode (cbcLen data.length / 16) iv data).1 ++
        enc.decodeSteal l (data.length % 16) (enc.cbcDecode (cbcLen data.length / 16) iv data).2
          (data.drop (cbcLen data.length)) := by
      simp [decodeLong, h0]
    rw [← hmul] at hbody
    simp only [h0, ne_eq, not_false_eq_true, if_true]
    rw [hdec, enc.cbcEncode_cbcDecode _ hiv (by omega), List.drop_left' hbody,
      encodeSteal_decodeSteal enc l hlt hlast (by rw [List.length_drop]; omega), ← hmul,
      List.take_append_drop]

/-! ## The sector -/

/-- The tag of a sector: the first block of its HMAC. -/
def tag (rnd data : Bytes) (sectorid : Nat) : Bytes :=
  (enc.hmacSha512 (data ++ toLE 8 sectorid ++ rnd)).bytes.take 16

@[simp] theorem length_tag (rnd data : Bytes) (sectorid : Nat) :
    (enc.tag rnd data sectorid).length = 16 := by
  simp [tag, sha512DigestLen]

/-- What the decoder returns once it has the plaintext, the nonce and the stored tag. -/
def verdict (plain rnd stored : Bytes) (sectorid : Nat) : Int × Bytes :=
  (if enc.tag rnd plain sectorid = stored then 0 else -1, plain)

theorem encodeSector_short (l : LongSize) (aligned : Bool) (rnd : Block) {data : Bytes}
    (sectorid : Nat) (hd : data.length < 16) :
    enc.encodeSector l aligned rnd data sectorid =
      (rnd.bytes.take data.length, enc.encode2BlocksConsec
        (xorCntInplace rnd.bytes data data.length ++ enc.tag rnd.bytes data sectorid)) := by
  simp only [encodeSector, tag]
  rw [if_pos hd]

theorem encodeSector_long (l : LongSize) (aligned : Bool) (rnd : Block) {data : Bytes}
    (sectorid : Nat) (hd : 16 ≤ data.length) :
    enc.encodeSector l aligned rnd data sectorid =
      (enc.encodeLong (enc.tag rnd.bytes data sectorid) data, enc.encode2BlocksConsec
        (rnd.bytes.take 8 ++ enc.tag rnd.bytes data sectorid ++ rnd.bytes.drop 8)) := by
  have hloop : enc.encodeBlocks (if aligned then xor16AlignedInplace l else xor16UnalignedInplace)
      (cbcLen data.length / 16) (enc.tag rnd.bytes data sectorid) data =
      enc.cbcEncode (cbcLen data.length / 16) (enc.tag rnd.bytes data sectorid) data := by
    have hmul := (cbcLen_spec hd).1
    apply encodeBlocks_eq
    · intro d key hdlen hklen
      cases aligned with
      | false => exact xor16UnalignedInplace_eq hdlen
      | true => exact xor16AlignedInplace_eq l hdlen hklen
    · exact enc.length_tag _ _ _
    · rcases (cbcLen_spec hd).2 with h | h <;> omega
  have hlen : ¬ data.length < 16 := by omega
  simp only [cbcLen, tag] at hloop
  simp only [encodeSector, encodeLong, aes256BlockSize, if_neg hlen, cbcLen, tag, hloop]

theorem verdict_eq {plain tagged : Bytes} (sectorid : Nat) (h : tagged.length = 32) :
    ((-(memcmpConst (enc.hmacSha512 (plain ++ toLE 8 sectorid ++ tagged.take 16)).bytes
        (tagged.drop 16) 16 : Int), plain) : Int × Bytes) =
      enc.verdict plain (tagged.take 16) (tagged.drop 16) sectorid := by
  have hstored : (tagged.drop 16).take 16 = tagged.drop 16 :=
    List.take_of_length_le (by rw [List.length_drop]; omega)
  rw [memcmpConst_eq (by simp [h, sha512DigestLen]), hstored, verdict, tag]
  split <;> simp_all

theorem decodeSector_short (l : LongSize) {data auth : Bytes} (sectorid : Nat)
    (hd : data.length < 16) :
    enc.decodeSector l data auth sectorid =
      enc.verdict (xor ((enc.decode2BlocksConsec auth).take data.length) data)
        (data ++ ((enc.decode2BlocksConsec auth).take 16).drop data.length)
        ((enc.decode2BlocksConsec auth).drop 16) sectorid := by
  have hlen := enc.length_decode2BlocksConsec auth
  simp only [decodeSector, aes256BlockSize, if_pos hd]
  generalize enc.decode2BlocksConsec auth = hmac at *
  obtain ⟨hpre, hpost⟩ := xorCntInplace_eq
    (show data.length ≤ hmac.length by omega) rfl
  have htagged : (data ++ hmac.drop data.length).length = 32 := by
    rw [List.length_append, List.length_drop]
    omega
  have hrnd : (data ++ hmac.drop data.length).take 16 =
      data ++ (hmac.take 16).drop data.length := by
    rw [List.take_append, List.take_of_length_le (by omega), List.drop_take]
  have hstored : (data ++ hmac.drop data.length).drop 16 = hmac.drop 16 := by
    rw [List.drop_append, List.drop_of_length_le (by omega), List.drop_drop, List.nil_append]
    congr 1
    omega
  rw [hpre, hpost, verdict_eq enc sectorid htagged, hrnd, hstored]

theorem decodeSector_long (l : LongSize) {data auth : Bytes} (sectorid : Nat)
    (hd : 16 ≤ data.length) :
    enc.decodeSector l data auth sectorid =
      enc.verdict
        (enc.decodeLong l (((enc.decode2BlocksConsec auth).drop 8).take 16) data)
        ((enc.decode2BlocksConsec auth).take 8 ++ (enc.decode2BlocksConsec auth).drop 24)
        (((enc.decode2BlocksConsec auth).drop 8).take 16) sectorid := by
  have hlen := enc.length_decode2BlocksConsec auth
  obtain ⟨hmul, hcase⟩ := cbcLen_spec hd
  generalize hhmac : enc.decode2BlocksConsec auth = hmac at *
  have hiv : ((hmac.drop 8).take 16).length = 16 := by
    rw [List.length_take, List.length_drop]
    omega
  -- the two loops of the decoder are one run over all blocks
  have hquads := enc.decodeQuads_eq l hiv
    (show 64 * (cbcLen data.length / 64) ≤ data.length by omega)
  have hlast := (enc.length_cbcDecode hiv
    (show 16 * (4 * (cbcLen data.length / 64)) ≤ data.length by omega)).2
  have hsingle := enc.decodeBlocks_eq l hlast
    (show 16 * (cbcLen data.length % 64 / 16) ≤
      (data.drop (cbcLen data.length / 64 * 64)).length by rw [List.length_drop]; omega)
  have hall := enc.cbcDecode_add (4 * (cbcLen data.length / 64)) (cbcLen data.length % 64 / 16)
    ((hmac.drop 8).take 16) data
  rw [show 4 * (cbcLen data.length / 64) + cbcLen data.length % 64 / 16 = cbcLen data.length / 16
      by omega, show 16 * (4 * (cbcLen data.length / 64)) = cbcLen data.length / 64 * 64 by omega]
    at hall
  have hrnd : (hmac.drop 24).take 8 = hmac.drop 24 :=
    List.take_of_length_le (by rw [List.length_drop]; omega)
  have hnonce : (hmac.take 8 ++ hmac.drop 24).length = 16 := by
    rw [List.length_append, List.length_take, List.length_drop]
    omega
  have htagged : (hmac.take 8 ++ hmac.drop 24 ++ (hmac.drop 8).take 16).length = 32 := by
    rw [List.length_append, hnonce, hiv]
  have hverdict := fun plain => @verdict_eq enc plain _ sectorid htagged
  rw [List.take_left' hnonce, List.drop_left' hnonce] at hverdict
  rw [← hverdict]
  have hnot : ¬ data.length < 16 := by omega
  simp only [cbcLen] at hquads hsingle hall
  simp only [decodeSector, aes256BlockSize, if_neg hnot, hhmac, hquads, hsingle, hrnd, decodeLong,
    cbcLen, hall]
  split <;> simp only [List.take_left' hnonce, List.drop_left' hnonce]

theorem verdict_accepts {plain rnd stored p : Bytes} {sectorid : Nat}
    (h : enc.verdict plain rnd stored sectorid = (0, p)) :
    plain = p ∧ enc.tag rnd plain sectorid = stored := by
  unfold verdict at h
  split at h
  · next heq => exact ⟨(Prod.mk.inj h).2, heq⟩
  · simp at h

theorem decodeSector_encodeSector (l l' : LongSize) (aligned : Bool) (rnd : Block)
    {data : Bytes} (sectorid : Nat) :
    enc.decodeSector l' (enc.encodeSector l aligned rnd data sectorid).1
      (enc.encodeSector l aligned rnd data sectorid).2 sectorid = (0, data) := by
  have hrnd : rnd.bytes.length = 16 := rnd.length_bytes
  have htag := enc.length_tag rnd.bytes data sectorid
  rcases Nat.lt_or_ge data.length 16 with hshort | hlong
  · obtain ⟨hpre, hpost⟩ := xorCntInplace_eq
      (show data.length ≤ rnd.bytes.length by omega) rfl
    have hsrc : (xorCntInplace rnd.bytes data data.length).length = 16 := by
      simp only [xorCntInplace, List.length_append, length_xor, List.length_take,
        List.length_drop]
      omega
    have hout : (rnd.bytes.take data.length).length = data.length := by
      rw [List.length_take]
      omega
    rw [encodeSector_short enc l aligned rnd sectorid hshort,
      decodeSector_short enc l' sectorid (hout.trans_lt hshort),
      decode2_encode2 enc (by rw [List.length_append, hsrc, htag]), List.take_left' hsrc,
      List.drop_left' hsrc, hout, hpost, List.take_append_drop,
      List.take_append_of_le_length (by omega), hpre, xor_comm (rnd.bytes.take _),
      xor_xor_cancel (by omega), verdict, if_pos rfl]
  · have hhead : (rnd.bytes.take 8).length = 8 := by rw [List.length_take]; omega
    have hmid : (rnd.bytes.take 8 ++ enc.tag rnd.bytes data sectorid).length = 24 := by
      rw [List.length_append, hhead, htag]
    have hall : (rnd.bytes.take 8 ++ enc.tag rnd.bytes data sectorid ++
        rnd.bytes.drop 8).length = 32 := by
      rw [List.length_append, hmid, List.length_drop]
      omega
    have hiv : ((rnd.bytes.take 8 ++ enc.tag rnd.bytes data sectorid ++
        rnd.bytes.drop 8).drop 8).take 16 = enc.tag rnd.bytes data sectorid := by
      rw [List.append_assoc, List.drop_left' hhead, List.take_left' htag]
    have hlen : (enc.encodeLong (enc.tag rnd.bytes data sectorid) data).length = data.length :=
      enc.length_encodeLong hlong
    rw [encodeSector_long enc l aligned rnd sectorid hlong,
      decodeSector_long enc l' sectorid (hlong.trans_eq hlen.symm), decode2_encode2 enc hall, hiv,
      decodeLong_encodeLong enc l' htag hlong, List.drop_left' hmid, List.append_assoc,
      List.take_left' hhead, List.take_append_drop, verdict, if_pos rfl]

theorem encodeSector_of_decodeSector (l l' : LongSize) (aligned : Bool) {c a p : Bytes}
    {sectorid : Nat} (ha : a.length = 32) (h : enc.decodeSector l' c a sectorid = (0, p)) :
    ∃ rnd : Block, enc.encodeSector l aligned rnd p sectorid = (c, a) := by
  have hlen := enc.length_decode2BlocksConsec a
  have hback := encode2_decode2 enc ha
  generalize hhmac : enc.decode2BlocksConsec a = hmac at *
  rcases Nat.lt_or_ge c.length 16 with hshort | hlong
  · rw [decodeSector_short enc l' sectorid hshort, hhmac] at h
    obtain ⟨hplain, hstored⟩ := enc.verdict_accepts h
    have htake : (hmac.take c.length).length = c.length := by rw [List.length_take]; omega
    have hplen : p.length = c.length := by rw [← hplain, length_xor, htake, min_self]
    have hrest : ((hmac.take 16).drop c.length).length = 16 - c.length := by
      rw [List.length_drop, List.length_take]
      omega
    have hrlen : (c ++ (hmac.take 16).drop c.length).length = 16 := by
      rw [List.length_append, hrest]
      omega
    refine ⟨Fixed.ofBytes 16 (c ++ (hmac.take 16).drop c.length), ?_⟩
    have hrnd := Fixed.bytes_ofBytes hrlen
    have hsrc : xorCntInplace (c ++ (hmac.take 16).drop c.length) p c.length = hmac.take 16 := by
      have hfull : p.take c.length = p := List.take_of_length_le (by omega)
      rw [xorCntInplace, List.take_left' rfl, List.drop_left' rfl, hfull, ← hplain, xor_comm c,
        xor_xor_cancel (by omega)]
      have hsame : hmac.take c.length = (hmac.take 16).take c.length := by
        rw [List.take_take, min_eq_left (by omega)]
      rw [hsame, List.take_append_drop]
    rw [hplain] at hstored
    rw [encodeSector_short enc l aligned _ sectorid (by omega), hrnd, hplen, hstored,
      List.take_left' rfl, hsrc, List.take_append_drop, hback]
  · rw [decodeSector_long enc l' sectorid hlong, hhmac] at h
    obtain ⟨hplain, hstored⟩ := enc.verdict_accepts h
    have hiv : ((hmac.drop 8).take 16).length = 16 := by
      rw [List.length_take, List.length_drop]
      omega
    have hplen : p.length = c.length := by rw [← hplain, length_decodeLong enc l' hiv hlong]
    have hhead : (hmac.take 8).length = 8 := by rw [List.length_take]; omega
    have hrlen : (hmac.take 8 ++ hmac.drop 24).length = 16 := by
      rw [List.length_append, hhead, List.length_drop]
      omega
    refine ⟨Fixed.ofBytes 16 (hmac.take 8 ++ hmac.drop 24), ?_⟩
    have hrnd := Fixed.bytes_ofBytes hrlen
    have hsplit : hmac.take 8 ++ (hmac.drop 8).take 16 ++ hmac.drop 24 = hmac := by
      rw [← List.take_add, List.take_append_drop]
    rw [hplain] at hstored
    rw [encodeSector_long enc l aligned _ sectorid (by omega), hrnd, hstored,
      List.take_left' hhead, List.drop_left' hhead, hsplit, hback, ← hplain,
      encodeLong_decodeLong enc l' hiv hlong]

/-- The length of a sector is that of its plaintext, and the auth record has 32 bytes. -/
theorem length_encodeSector (l : LongSize) (aligned : Bool) (rnd : Block) (data : Bytes)
    (sectorid : Nat) :
    (enc.encodeSector l aligned rnd data sectorid).1.length = data.length ∧
      (enc.encodeSector l aligned rnd data sectorid).2.length = 32 := by
  rcases Nat.lt_or_ge data.length 16 with hshort | hlong
  · have hrnd : rnd.bytes.length = 16 := rnd.length_bytes
    rw [encodeSector_short enc l aligned rnd sectorid hshort, List.length_take, hrnd]
    exact ⟨by omega, enc.length_encode2BlocksConsec _⟩
  · rw [encodeSector_long enc l aligned rnd sectorid hlong]
    exact ⟨enc.length_encodeLong hlong, enc.length_encode2BlocksConsec _⟩

/-- Decoding inverts encoding on every sector, and accepts a ciphertext with its auth
record only when encoding produces them. -/
theorem decode_sector_exact (l l' : LongSize) :
    (∀ (aligned : Bool) (rnd : Block) (data : Bytes) (sectorid : Nat),
      1 ≤ data.length → data.length ≤ 4096 →
      enc.decodeSector l' (enc.encodeSector l aligned rnd data sectorid).1
        (enc.encodeSector l aligned rnd data sectorid).2 sectorid = (0, data)) ∧
    (∀ (c : Bytes) (a : Fixed 32) (p : Bytes) (sectorid : Nat),
      1 ≤ c.length → c.length ≤ 4096 → enc.decodeSector l' c a.bytes sectorid = (0, p) →
      ∀ aligned : Bool, ∃ rnd : Block,
        enc.encodeSector l aligned rnd p sectorid = (c, a.bytes)) := by
  constructor
  · intro aligned rnd data sectorid _ _
    exact enc.decodeSector_encodeSector l l' aligned rnd sectorid
  · intro c a p sectorid _ _ h aligned
    exact enc.encodeSector_of_decodeSector l l' aligned a.length_bytes h

/-- A toy encoder: reversal of the block for AES, the text itself for the HMAC. -/
def reversing : SectorEncoder where
  aes :=
    { toFun := fun b => ⟨b.bytes.reverse, by simp⟩
      invFun := fun b => ⟨b.bytes.reverse, by simp⟩
      left_inv := fun _ => Subtype.ext (List.reverse_reverse _)
      right_inv := fun _ => Subtype.ext (List.reverse_reverse _) }
  hmacSha512 := Fixed.ofBytes 64

theorem decode_sector_exact_stealing :
    let data : Bytes := (List.range 20).map UInt8.ofNat
    let rnd : Block := Fixed.ofBytes 16 [7, 7, 7]
    let c := (reversing.encodeSector .long64 true rnd data 5).1
    let a := (reversing.encodeSector .long64 true rnd data 5).2
    reversing.decodeSector .long32 c a 5 = (0, data) ∧
      ∃ rnd' : Block, reversing.encodeSector .long64 false rnd' data 5 = (c, a) := by
  intro data rnd c a
  have hlen : a.length = 32 := by decide
  have hround := (decode_sector_exact reversing .long64 .long32).1 true rnd data 5
    (by decide) (by decide)
  refine ⟨hround, ?_⟩
  obtain ⟨rnd', hrnd'⟩ := (decode_sector_exact reversing .long64 .long32).2 c
    ⟨a, hlen⟩ data 5 (by decide) (by decide) hround false
  exact ⟨rnd', hrnd'⟩

end SectorEncoder

end PcloudClient.Crypto
