/-
  Crypto/Text.lean --- how the name of a file is encoded (`pcrypto.c`, lines 224-280,
  `psync_base32_encode` of `plibs.c` and `psync_cloud_crypto_encode_filename`).
-/
import PcloudClient.Crypto.Sector

set_option autoImplicit false

namespace PcloudClient.Crypto

open PcloudClient.Bytes

/-- `psync_crypto_aes256_text_encoder_t` with the two primitives it is used with: the
block cipher of its encoder and HMAC-SHA512 under the key `iv`.  The assertion of
`psync_crypto_aes256_encode_text` is a field. -/
structure TextEncoder where
  aes : Equiv.Perm Block
  hmacSha512 : Bytes → Fixed sha512DigestLen
  iv : Bytes
  ivlen : aes256BlockSize ≤ iv.length

namespace TextEncoder

variable (enc : TextEncoder)

/-- `psync_aes256_encode_block` -/
def encodeBlock (src : Bytes) : Bytes := (enc.aes (Fixed.ofBytes aes256BlockSize src)).bytes

/-- `ALIGN_A256_BS` -/
def alignA256Bs (n : Nat) : Nat := (n + aes256BlockSize - 1) / aes256BlockSize * aes256BlockSize

/-- `copy_pad` -/
def copyPad (txt : Bytes) : Bytes :=
  txt.take aes256BlockSize ++ zeros (aes256BlockSize - txt.length)

/-- The `do`-`while` loop of `psync_crypto_aes256_encode_text`. -/
def encodeRest (aesdst txt : Bytes) : Bytes :=
  let aesdst := enc.encodeBlock (xor (copyPad txt) aesdst)
  if aes256BlockSize < txt.length then
    aesdst ++ encodeRest aesdst (txt.drop aes256BlockSize)
  else aesdst
termination_by txt.length
decreasing_by
  have hblock : aes256BlockSize = 16 := rfl
  rw [List.length_drop]
  omega

/-- `psync_crypto_aes256_encode_text`: the blocks that it writes to the `alignA256Bs txt.length`
bytes of `out`, which are none for an empty text. -/
def encodeText (txt : Bytes) : Bytes :=
  if txt.length ≤ aes256BlockSize then enc.encodeBlock (xor (copyPad txt) (enc.iv.take 16))
  else
    let hmac := (enc.hmacSha512 (txt.drop aes256BlockSize)).bytes
    let aesdst := enc.encodeBlock (xor (txt.take aes256BlockSize) (hmac.take 16))
    aesdst ++ enc.encodeRest aesdst (txt.drop aes256BlockSize)

theorem length_encodeRest {aesdst txt : Bytes} (h : txt ≠ []) :
    (enc.encodeRest aesdst txt).length = alignA256Bs txt.length := by
  have hblock : aes256BlockSize = 16 := rfl
  induction aesdst, txt using TextEncoder.encodeRest.induct enc with
  | case1 aesdst txt next hlong ih =>
    have hnext : next.length = aes256BlockSize := Fixed.length_bytes _
    have hrest : (txt.drop aes256BlockSize).length = txt.length - aes256BlockSize :=
      List.length_drop
    have hne : txt.drop aes256BlockSize ≠ [] := List.ne_nil_of_length_pos (by omega)
    rw [encodeRest]
    simp only [if_pos hlong, List.length_append]
    rw [show enc.encodeBlock (xor (copyPad txt) aesdst) = next from rfl, ih hne, hrest, hnext]
    simp only [alignA256Bs, hblock] at hlong ⊢
    omega
  | case2 aesdst txt hshort =>
    have hpos := List.length_pos_of_ne_nil h
    rw [encodeRest]
    simp only [if_neg hshort, encodeBlock, Fixed.length_bytes]
    simp only [alignA256Bs, hblock] at hshort ⊢
    omega

/-- What is written is what was allocated, but for an empty text. -/
theorem length_encodeText_eq {txt : Bytes} (h : txt ≠ []) :
    (enc.encodeText txt).length = alignA256Bs txt.length := by
  have hblock : aes256BlockSize = 16 := rfl
  have hpos := List.length_pos_of_ne_nil h
  unfold encodeText
  split
  · next hshort =>
    simp only [encodeBlock, Fixed.length_bytes]
    simp only [alignA256Bs, hblock] at hshort ⊢
    omega
  · next hlong =>
    have hrest : (txt.drop aes256BlockSize).length = txt.length - aes256BlockSize :=
      List.length_drop
    have hne : txt.drop aes256BlockSize ≠ [] := List.ne_nil_of_length_pos (by omega)
    simp only [List.length_append, enc.length_encodeRest hne, hrest]
    simp only [encodeBlock, Fixed.length_bytes, alignA256Bs, hblock] at hlong ⊢
    omega

theorem length_encodeText (txt : Bytes) : aes256BlockSize ≤ (enc.encodeText txt).length := by
  unfold encodeText
  split
  · simp [encodeBlock]
  · simp [encodeBlock]

theorem length_encodeText_short {txt : Bytes} (h : txt.length ≤ aes256BlockSize) :
    (enc.encodeText txt).length = aes256BlockSize := by
  rw [encodeText, if_pos h]
  exact Fixed.length_bytes _

theorem length_le_encodeText (txt : Bytes) : txt.length ≤ (enc.encodeText txt).length := by
  by_cases h : txt = []
  · simp [h]
  · have hblock : aes256BlockSize = 16 := rfl
    rw [enc.length_encodeText_eq h, alignA256Bs, hblock]
    omega

end TextEncoder

/-! ## Base 32 -/

/-- `table` of `psync_base32_encode` -/
def base32Char (v : Nat) : UInt8 :=
  if v < 26 then UInt8.ofNat (65 + v) else UInt8.ofNat (24 + v)

/-- The last loop of `psync_base32_encode`. -/
def base32Flush (bits buff : Nat) : Bytes :=
  if bits = 0 then []
  else if bits < 5 then [base32Char (buff <<< (5 - bits) % 2 ^ 32 % 32)]
  else base32Char (buff >>> (bits - 5) % 32) :: base32Flush (bits - 5) buff
termination_by bits

/-- The first loop of `psync_base32_encode`, a round with each character; `buff` is a `uint32_t`. -/
def base32Loop (bits buff : Nat) (str : Bytes) : Bytes :=
  match str with
  | [] => base32Flush bits buff
  | ch :: rest =>
    if bits < 5 then
      let buff := (buff <<< 8 ||| ch.toNat) % 2 ^ 32
      base32Char (buff >>> (bits + 3) % 32) ::
        base32Loop (bits + 3) buff rest
    else base32Char (buff >>> (bits - 5) % 32) :: base32Loop (bits - 5) buff (ch :: rest)
termination_by (str.length, bits)

/-- `psync_base32_encode` -/
def base32Encode (str : Bytes) : Bytes := base32Loop 0 0 str

theorem length_le_base32Loop (bits buff : Nat) (str : Bytes) :
    str.length ≤ (base32Loop bits buff str).length := by
  induction bits, buff, str using base32Loop.induct with
  | case1 bits buff => simp
  | case2 bits buff ch rest hbits buff' ih =>
    rw [base32Loop, if_pos hbits]
    simp only [List.length_cons]
    exact Nat.succ_le_succ ih
  | case3 bits buff ch rest hbits ih =>
    rw [base32Loop, if_neg hbits]
    simp only [List.length_cons] at ih ⊢
    omega

theorem length_base32Flush_le (bits buff : Nat) :
    (base32Flush bits buff).length ≤ bits / 5 + 1 := by
  induction bits using base32Flush.induct with
  | case1 => simp [base32Flush]
  | case2 bits hne hlow =>
    rw [base32Flush, if_neg hne, if_pos hlow]
    simp
  | case3 bits hne hhigh ih =>
    rw [base32Flush, if_neg hne, if_neg hhigh, List.length_cons]
    omega

theorem length_base32Loop_le (bits buff : Nat) (str : Bytes) :
    (base32Loop bits buff str).length ≤ (bits + 8 * str.length) / 5 + 1 := by
  induction bits, buff, str using base32Loop.induct with
  | case1 bits buff =>
    rw [base32Loop]
    exact length_base32Flush_le bits buff
  | case2 bits buff ch rest hbits buff' ih =>
    rw [base32Loop, if_pos hbits]
    simp only [List.length_cons]
    change (base32Loop (bits + 3) buff' rest).length + 1 ≤ _
    omega
  | case3 bits buff ch rest hbits ih =>
    rw [base32Loop, if_neg hbits]
    simp only [List.length_cons] at ih ⊢
    omega

/-- `psync_cloud_crypto_encode_filename` -/
def encodeFilename (enc : TextEncoder) (name : Bytes) : Bytes := base32Encode (enc.encodeText name)

/-- An encoded name is never shorter than a block. -/
theorem length_encodeFilename (enc : TextEncoder) (name : Bytes) :
    aes256BlockSize ≤ (encodeFilename enc name).length :=
  (enc.length_encodeText name).trans (length_le_base32Loop 0 0 _)

theorem length_le_encodeFilename (enc : TextEncoder) (name : Bytes) :
    name.length ≤ (encodeFilename enc name).length :=
  (enc.length_le_encodeText name).trans (length_le_base32Loop 0 0 _)

end PcloudClient.Crypto
