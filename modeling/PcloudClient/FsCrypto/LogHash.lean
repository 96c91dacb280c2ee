/-
  FsCrypto/LogHash.lean --- the hash of a log, accumulated while it is written and computed
  again when it is replayed (`pfscrypto.c`, lines 648-685).
-/
import PcloudClient.FsCrypto.Finalize
import PcloudClient.Pcrc32c.FastHash

set_option autoImplicit false

namespace PcloudClient.FsCrypto

open Bytes Pcrc32c

section

variable (cpu : Crc32Instr) (crcHashw : Nat)

/-- The reads of `psync_fs_crypto_check_log_hash` from the offset `off` on. -/
def logHashReads (lfd : Bytes) (off : Nat) (ctx : FastHash256Ctx) : FastHash256Ctx :=
  let buff := File.pread lfd sectorSize off
  if _h : buff.length ≠ 0 then
    logHashReads lfd (off + buff.length) (psyncFastHash256Update cpu crcHashw ctx buff)
  else ctx
termination_by lfd.length - off
decreasing_by
  rw [File.length_pread] at *
  omega

/-- The hash that `psync_fs_crypto_check_log_hash` computes; `buff` is what its uninitialised
context holds. -/
def logHash (buff : Buff) (lfd : Bytes) : Fixed fastHash256Len :=
  psyncFastHash256Final cpu crcHashw
    (logHashReads cpu crcHashw lfd sectorSize (psyncFastHash256Init buff))

/-- `psync_fs_crypto_check_log_hash`, with its reads.  None of them fails, so the branch for
`rd==-1` is left out. -/
def psyncFsCryptoCheckLogHash (buff : Buff) (lfd : Bytes) (mr : MasterRecord) : Int :=
  if mr.hashid ≠ logHashidFh256 then -1
  else if (logHash cpu crcHashw buff lfd).bytes ≠ mr.hash then -1
  else 0

/-- The reads feed the rest of the file in pieces. -/
theorem logHashReads_eq (lfd : Bytes) (off : Nat) (ctx : FastHash256Ctx) :
    ∃ chunks : List Bytes, chunks.flatten = lfd.drop off ∧
      logHashReads cpu crcHashw lfd off ctx =
        chunks.foldl (psyncFastHash256Update cpu crcHashw) ctx := by
  fun_induction logHashReads cpu crcHashw lfd off ctx with
  | case1 off ctx buff h ih =>
    obtain ⟨chunks, hflatten, heq⟩ := ih
    refine ⟨buff :: chunks, ?_, heq⟩
    have hlen : buff.length = min sectorSize (lfd.length - off) := File.length_pread _ _ _
    have hbuff : buff = (lfd.drop off).take buff.length := by
      rw [hlen]
      show (lfd.drop off).take sectorSize = _
      rw [List.take_eq_take_iff, List.length_drop]
      omega
    rw [List.flatten_cons, hflatten, ← List.drop_drop]
    conv => lhs; lhs; rw [hbuff]
    exact List.take_append_drop _ _
  | case2 off ctx buff h =>
    refine ⟨[], ?_, rfl⟩
    have hlen : buff.length = min sectorSize (lfd.length - off) := File.length_pread _ _ _
    have hsize : 0 < sectorSize := by decide
    rw [List.flatten_nil, List.drop_eq_nil_of_le]
    omega

theorem logHash_eq (buff : Buff) (lfd : Bytes) :
    logHash cpu crcHashw buff lfd = fastHash256 (lfd.drop sectorSize) := by
  obtain ⟨chunks, hflatten, heq⟩ :=
    logHashReads_eq cpu crcHashw lfd sectorSize (psyncFastHash256Init buff)
  rw [← hflatten, logHash, heq]
  exact hashChunks_eq cpu crcHashw buff chunks

/-- The reads decide as the check of a replay does. -/
theorem psyncFsCryptoCheckLogHash_eq (env : Env) (buff : Buff) (lfd : Bytes) (mr : MasterRecord) :
    psyncFsCryptoCheckLogHash cpu crcHashw buff lfd mr =
      checkLogHash { env with fastHash256 } lfd mr := by
  rw [psyncFsCryptoCheckLogHash, checkLogHash, logHash_eq]

end

/-- The hash of a string is the same for every way of cutting it into updates and for both
variants.  So the value accumulated over the records of a log is the one computed from reads of
the file, whose first sector is not hashed. -/
theorem fastHash256_of_pieces (cpu : Crc32Instr) :
    (∀ (crcHashw : Nat) (buff : Buff) (chunks : List Bytes),
        hashChunks cpu crcHashw (psyncFastHash256Init buff) chunks = fastHash256 chunks.flatten) ∧
      ∀ (crcHashw crcHashw' : Nat) (buff buff' : Buff) (head : Fixed sectorSize)
        (records : List Bytes),
        logHash cpu crcHashw buff (head.bytes ++ records.flatten) =
          hashChunks cpu crcHashw' (psyncFastHash256Init buff') records := by
  refine ⟨hashChunks_eq cpu, ?_⟩
  intro crcHashw crcHashw' buff buff' head records
  rw [logHash_eq, hashChunks_eq, List.drop_left' (Fixed.length_bytes head)]

end PcloudClient.FsCrypto
