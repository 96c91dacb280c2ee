/-
  Crypto/Sector.lean --- encoding and decoding of one sector (`pcrypto.c`,
  lines 97-131 and 438-590).

  AES-256 under the key of the file is any permutation of 16-byte blocks and
  HMAC-SHA512 under its key any function to 64 bytes.  A sector is encrypted in one
  of three ways: shorter than a block, whole blocks in CBC mode, or CBC mode with
  ciphertext stealing on the last two blocks.  The auth record carries the random
  nonce and the first half of the HMAC, both encrypted.
-/
import Mathlib.Logic.Equiv.Defs
import PcloudClient.Foundation.Bytes

set_option autoImplicit false

namespace PcloudClient.Crypto

open PcloudClient.Bytes

/-- `PSYNC_AES256_BLOCK_SIZE` -/
abbrev aes256BlockSize : Nat := 16

/-- `PSYNC_SHA512_DIGEST_LEN` -/
abbrev sha512DigestLen : Nat := 64

/-- One AES block. -/
abbrev Block := Fixed aes256BlockSize

/-- `psync_crypto_aes256_enc_dec_var_iv_struct_t` with the two primitives it is used
with: the block cipher of its encoder and decoder, and HMAC-SHA512 under the key `iv`. -/
structure SectorEncoder where
  aes : Equiv.Perm Block
  hmacSha512 : Bytes → Fixed sha512DigestLen

/-- `sizeof(unsigned long)` of the platforms the client is built for. -/
inductive LongSize where
  | long32
  | long64
  deriving DecidableEq, Repr

def LongSize.size : LongSize → Nat
  | .long32 => 4
  | .long64 => 8

/-! ## Byte helpers -/

/-- `xor_cnt_inplace` -/
def xorCntInplace (data key : Bytes) (count : Nat) : Bytes :=
  xor (data.take count) (key.take count) ++ data.drop count

/-- `xor16_unaligned_inplace` -/
def xor16UnalignedInplace (data key : Bytes) : Bytes := xorCntInplace data key aes256BlockSize

/-- Exclusive or of the words `0 .. cnt - 1` of two buffers, `w` bytes each. -/
def xorLongs (w cnt : Nat) (data key : Bytes) : Bytes :=
  (List.range cnt).flatMap fun i =>
    toLE w (ofLE ((data.drop (i * w)).take w) ^^^ ofLE ((key.drop (i * w)).take w))

/-- `xor16_aligned_inplace` -/
def xor16AlignedInplace (l : LongSize) (data key : Bytes) : Bytes :=
  if l.size = 8 then xorLongs 8 2 data key
  else if l.size = 4 then xorLongs 4 4 data key
  else xor16UnalignedInplace data key

/-- `memcmp_const`; the accumulator is a `uint32_t`. -/
def memcmpConst (s1 s2 : Bytes) (cnt : Nat) : Nat :=
  let r : UInt32 := (xor (s1.take cnt) (s2.take cnt)).foldl (fun r x => r ||| x.toUInt32) 0
  ((((r - 1) >>> 8) &&& 1) ^^^ 1).toNat

namespace SectorEncoder

variable (enc : SectorEncoder)

/-- `psync_aes256_encode_block` -/
def encodeBlock (src : Bytes) : Bytes := (enc.aes (Fixed.ofBytes aes256BlockSize src)).bytes

/-- `psync_aes256_decode_block` -/
def decodeBlock (src : Bytes) : Bytes := (enc.aes.symm (Fixed.ofBytes aes256BlockSize src)).bytes

/-- `psync_aes256_encode_2blocks_consec` -/
def encode2BlocksConsec (src : Bytes) : Bytes :=
  enc.encodeBlock (src.take 16) ++ enc.encodeBlock ((src.drop 16).take 16)

/-- `psync_aes256_decode_2blocks_consec` -/
def decode2BlocksConsec (src : Bytes) : Bytes :=
  enc.decodeBlock (src.take 16) ++ enc.decodeBlock ((src.drop 16).take 16)

/-- `psync_aes256_decode_4blocks_consec_xor` -/
def decode4BlocksConsecXor (l : LongSize) (src bxor : Bytes) : Bytes :=
  xorLongs l.size (aes256BlockSize * 4 / l.size)
    (enc.decodeBlock (src.take 16) ++ enc.decodeBlock ((src.drop 16).take 16) ++
      enc.decodeBlock ((src.drop 32).take 16) ++ enc.decodeBlock ((src.drop 48).take 16))
    bxor

/-! ## Encoding -/

/-- The `while (datalen)` loop of `psync_crypto_aes256_encode_sector` over `blocks`
blocks; returns the bytes written to `out` and the block left in `aessrc`. -/
def encodeBlocks (xor16 : Bytes → Bytes → Bytes) : (blocks : Nat) → (aessrc data : Bytes) →
    Bytes × Bytes
  | 0, aessrc, _ => ([], aessrc)
  | k + 1, aessrc, data =>
    let aesdst := enc.encodeBlock (xor16 aessrc data)
    let rest := encodeBlocks xor16 k aesdst (data.drop aes256BlockSize)
    (aesdst ++ rest.1, rest.2)

/-- The `if (unlikely(needsteal))` block of `psync_crypto_aes256_encode_sector`. -/
def encodeSteal (needsteal : Nat) (aessrc data : Bytes) : Bytes :=
  let aessrc := xor16UnalignedInplace aessrc data
  let data := data.drop aes256BlockSize
  let aesdst := enc.encodeBlock aessrc
  let stolen := aesdst.take needsteal
  let aesdst := xorCntInplace aesdst data needsteal
  enc.encodeBlock aesdst ++ stolen

/-- `psync_crypto_aes256_encode_sector`: returns `out` and `authout`.  `aligned` says
whether `data` and `out` are word aligned, `rnd` is the nonce drawn by the call. -/
def encodeSector (l : LongSize) (aligned : Bool) (rnd : Block) (data : Bytes)
    (sectorid : Nat) : Bytes × Bytes :=
  let hmac := (enc.hmacSha512 (data ++ toLE 8 sectorid ++ rnd.bytes)).bytes
  if data.length < aes256BlockSize then
    let aessrc := xorCntInplace rnd.bytes data data.length
    (rnd.bytes.take data.length, enc.encode2BlocksConsec (aessrc ++ hmac.take 16))
  else
    let needsteal := data.length % 16
    let datalen :=
      if needsteal ≠ 0 then data.length - (needsteal + aes256BlockSize) else data.length
    let auth :=
      enc.encode2BlocksConsec (rnd.bytes.take 8 ++ hmac.take 16 ++ rnd.bytes.drop 8)
    let xor16 := if aligned then xor16AlignedInplace l else xor16UnalignedInplace
    let body := enc.encodeBlocks xor16 (datalen / 16) (hmac.take 16) data
    let out :=
      if needsteal ≠ 0 then body.1 ++ enc.encodeSteal needsteal body.2 (data.drop datalen)
      else body.1
    (out, auth)

/-! ## Decoding -/

/-- The loop of `psync_crypto_aes256_decode_sector` over groups of four blocks; returns
the bytes written to `out` and the block left in `aesxor`. -/
def decodeQuads (l : LongSize) : (quads : Nat) → (aesxor data : Bytes) → Bytes × Bytes
  | 0, aesxor, _ => ([], aesxor)
  | k + 1, aesxor, data =>
    let aessrc := data.take 64
    let aesdst := enc.decode4BlocksConsecXor l aessrc (aesxor ++ aessrc.take 48)
    let rest := decodeQuads l k (aessrc.drop 48) (data.drop 64)
    (aesdst ++ rest.1, rest.2)

/-- The loop of `psync_crypto_aes256_decode_sector` over single blocks. -/
def decodeBlocks (l : LongSize) : (blocks : Nat) → (aesxor data : Bytes) → Bytes × Bytes
  | 0, aesxor, _ => ([], aesxor)
  | k + 1, aesxor, data =>
    let aessrc := data.take 16
    let aesdst := xor16AlignedInplace l (enc.decodeBlock aessrc) aesxor
    let rest := decodeBlocks l k aessrc (data.drop 16)
    (aesdst ++ rest.1, rest.2)

/-- The `if (unlikely(needsteal))` block of `psync_crypto_aes256_decode_sector`. -/
def decodeSteal (l : LongSize) (needsteal : Nat) (aesxor data : Bytes) : Bytes :=
  let aesdst := enc.decodeBlock (data.take 16)
  let aesdst := xorCntInplace aesdst (data.drop 16) needsteal
  let stolen := aesdst.take needsteal
  let aesdst := (data.drop 16).take needsteal ++ aesdst.drop needsteal
  xor16AlignedInplace l (enc.decodeBlock aesdst) aesxor ++ stolen

/-- `psync_crypto_aes256_decode_sector`: the return value and the bytes of `out`. -/
def decodeSector (l : LongSize) (data auth : Bytes) (sectorid : Nat) : Int × Bytes :=
  let hmac := enc.decode2BlocksConsec auth
  let datalen := data.length
  let res : Bytes × Bytes :=
    if datalen < aes256BlockSize then
      let hmac' := xorCntInplace hmac data datalen
      (hmac'.take datalen, data ++ hmac'.drop datalen)
    else
      let needsteal := datalen % 16
      let len := if needsteal ≠ 0 then datalen - (needsteal + aes256BlockSize) else datalen
      let aesxor := (hmac.drop 8).take 16
      let hmac' := hmac.take 8 ++ (hmac.drop 24).take 8 ++ aesxor
      let quads := enc.decodeQuads l (len / 64) aesxor data
      let single := enc.decodeBlocks l (len % 64 / 16) quads.2 (data.drop (len / 64 * 64))
      let out := quads.1 ++ single.1
      if needsteal ≠ 0 then
        (out ++ enc.decodeSteal l needsteal single.2 (data.drop len), hmac')
      else (out, hmac')
  let digest := (enc.hmacSha512 (res.1 ++ toLE 8 sectorid ++ res.2.take 16)).bytes
  (-(memcmpConst digest (res.2.drop 16) 16 : Int), res.1)

end SectorEncoder

/-- `psync_crypto_sign_auth_sector` -/
def signAuthSector (enc : SectorEncoder) (data : Bytes) : Bytes :=
  enc.encode2BlocksConsec (enc.hmacSha512 data).bytes

end PcloudClient.Crypto
