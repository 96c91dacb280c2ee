/-
  FsCrypto/WriteRange.lean --- the range of an encrypted file that a write needs
  (`psync_fs_check_modified_file_write_space`, pfs.c, lines 2096-2112).

  Sector ids and the products with their size are `uint32_t` there; the interval tree holds the
  places that `psync_fs_crypto_data_sectorid_by_sectorid` gives, multiplied in 64 bits.
-/
import PcloudClient.Foundation.Intervals
import PcloudClient.FsCrypto.OffsetsAgree

set_option autoImplicit false

namespace PcloudClient.FsCrypto

open PcloudClient.Foundation
open PcloudClient.Radix

/-- `from` and `to` of a write to an encrypted file. -/
def writeRange (offset size : Nat) : Span Nat :=
  let stop := (offset + size) % 2 ^ 64
  { start := dataSectoridBySectorid (offset / sectorSize % 2 ^ 32) * sectorSize % 2 ^ 32
    stop := dataSectoridBySectorid (stop / sectorSize % 2 ^ 32) * sectorSize % 2 ^ 32 +
      stop % sectorSize }

/-- `psync_fs_check_modified_file_write_space` -/
def checkModifiedFileWriteSpace (encrypted : Bool) (writeintervals : List (Span Nat))
    (size offset : Nat) : Bool :=
  let range : Span Nat :=
    if encrypted then writeRange offset size else ⟨offset, (offset + size) % 2 ^ 64⟩
  (writeintervals.find? fun i => range.start < i.stop).any fun tr =>
    tr.start ≤ range.start ∧ range.stop ≤ tr.stop

/-- Where the byte `n` of the plain file is in the encrypted one. -/
def encryptedPos (n : Nat) : Nat := dataOffsetBySectorid (n / sectorSize) + n % sectorSize

/-- The byte `n` is in a sector that the write is about, and not behind the write. -/
def Touched (offset size n : Nat) : Prop :=
  offset / sectorSize * sectorSize ≤ n ∧ n < offset + size

/-- The three computations of an offset agree: for the sectors up to `last`, and for one write. -/
structure OffsetsOk (last offset size : Nat) : Prop where
  agree : ∀ s ≤ last, dataSectoridBySectorid s * sectorSize = dataOffsetBySectorid s
  increasing : ∀ s t, s < t → t ≤ last → dataSectoridBySectorid s < dataSectoridBySectorid t
  exactly : ∀ n, ((writeRange offset size).start ≤ encryptedPos n ∧
    encryptedPos n < (writeRange offset size).stop) ↔ Touched offset size n
  isLocal : ∀ writeintervals, checkModifiedFileWriteSpace true writeintervals size offset = true →
    ∀ n, Touched offset size n → encryptedPos n ∈ Intervals.union writeintervals

/-! ## Sector ids -/

theorem dataSectoridLoop_mod (s sect : Nat) (h : sect < 2 ^ 32) :
    dataSectoridLoop s sect = (sect + leafPos 128 (s / 128)) % 2 ^ 32 := by
  induction s, sect using dataSectoridLoop.induct with
  | case1 s sect hs ih =>
    simp only [hashTreeSectors_eq] at hs ih
    rw [dataSectoridLoop]
    simp only [hashTreeSectors_eq, hs, ↓reduceDIte]
    rw [ih (Nat.mod_lt _ (by decide)), leafPos_eq (by decide) (s / 128)]
    omega
  | case2 s sect hs =>
    rw [dataSectoridLoop, dif_neg hs]
    rw [hashTreeSectors_eq] at hs
    have hz : s / 128 = 0 := Nat.div_eq_of_lt (by omega)
    rw [hz, leafPos_zero, Nat.add_zero, Nat.mod_eq_of_lt h]

/-- The place of a sector in 32 bits. -/
theorem dataSectoridBySectorid_mod {s : Nat} (h : s < 2 ^ 32) :
    dataSectoridBySectorid s = leafPos 128 s % 2 ^ 32 := by
  rw [dataSectoridBySectorid, dataSectoridLoop_mod s s h, ← leafPos_eq (by decide) s]

theorem leafPos_unfold {s : Nat} (h : s < 128 ^ 5) :
    leafPos 128 s = s + s / 128 + s / 128 ^ 2 + s / 128 ^ 3 + s / 128 ^ 4 := by
  have hz : s / 128 / 128 / 128 / 128 / 128 = 0 := by omega
  rw [leafPos_eq (by decide) s, leafPos_eq (by decide) (s / 128),
    leafPos_eq (by decide) (s / 128 / 128), leafPos_eq (by decide) (s / 128 / 128 / 128),
    leafPos_eq (by decide) (s / 128 / 128 / 128 / 128), hz, leafPos_zero]
  omega

/-- The last sector whose place fits a word. -/
theorem leafPos_lt_word_iff (s : Nat) : leafPos 128 s < 2 ^ 32 ↔ s ≤ 4261412864 := by
  have hfirst : leafPos 128 4261412865 = 2 ^ 32 := leafPos_unfold (by decide)
  rw [← hfirst, (leafPos_strictMono (by decide)).lt_iff_lt, Nat.lt_succ_iff]

/-- The last sector whose offset fits a word. -/
theorem leafPos_lt_sectors_iff (s : Nat) : leafPos 128 s < 2 ^ 20 ↔ s ≤ 1040384 := by
  have hfirst : leafPos 128 1040385 = 2 ^ 20 := leafPos_unfold (by decide)
  rw [← hfirst, (leafPos_strictMono (by decide)).lt_iff_lt, Nat.lt_succ_iff]

/-! ## Places -/

theorem encryptedPos_eq (n : Nat) : encryptedPos n = 4096 * leafPos 128 (n / 4096) + n % 4096 := by
  rw [encryptedPos, dataOffsetBySectorid_eq]

theorem encryptedPos_strictMono : StrictMono encryptedPos := by
  intro m n hmn
  rw [encryptedPos_eq, encryptedPos_eq]
  rcases Nat.lt_or_ge (m / 4096) (n / 4096) with hlt | hge
  · have hpos := leafPos_strictMono (b := 128) (by decide) hlt
    omega
  · have hsame : m / 4096 = n / 4096 := Nat.le_antisymm (Nat.div_le_div_right hmn.le) hge
    rw [hsame]
    omega

section

variable {offset size : Nat}

theorem writeRange_stop_lt : (writeRange offset size).stop < 2 ^ 32 := by
  simp only [writeRange, sectorSize_eq]
  omega

/-- Without a wrap the range is that of the places of its ends. -/
theorem writeRange_eq (h : (offset + size) / 4096 ≤ 1040384) :
    writeRange offset size =
      ⟨encryptedPos (offset / 4096 * 4096), encryptedPos (offset + size)⟩ := by
  have hle : offset / 4096 ≤ (offset + size) / 4096 := Nat.div_le_div_right (Nat.le_add_right _ _)
  have hstart := (leafPos_lt_sectors_iff (offset / 4096)).mpr (hle.trans h)
  have hstop := (leafPos_lt_sectors_iff ((offset + size) / 4096)).mpr h
  have hsum : (offset + size) % 2 ^ 64 = offset + size := by omega
  have hfirst : offset / 4096 % 2 ^ 32 = offset / 4096 := by omega
  have hlast : (offset + size) / 4096 % 2 ^ 32 = (offset + size) / 4096 := by omega
  simp only [writeRange, sectorSize_eq, hsum, hfirst, hlast]
  rw [dataSectoridBySectorid_mod (by omega), dataSectoridBySectorid_mod (by omega),
    encryptedPos_eq, encryptedPos_eq, Nat.mul_div_cancel _ (by decide), Nat.mul_mod_left]
  congr 1
  · omega
  · omega

/-- A write of nothing at the start of a sector has no range. -/
theorem writeRange_empty (h : offset + size = offset / 4096 * 4096) :
    (writeRange offset size).start = (writeRange offset size).stop := by
  have hsector : (offset + size) % 2 ^ 64 / 4096 % 2 ^ 32 = offset / 4096 % 2 ^ 32 := by omega
  have haligned : (offset + size) % 2 ^ 64 % 4096 = 0 := by omega
  simp only [writeRange, sectorSize_eq, hsector, haligned, Nat.add_zero]

theorem touched_iff (n : Nat) :
    Touched offset size n ↔ offset / 4096 * 4096 ≤ n ∧ n < offset + size := Iff.rfl

/-- The range of a write that reaches the sectors that do not fit. -/
theorem not_exactly (h : 1040384 < (offset + size) / 4096) :
    ¬ ((writeRange offset size).start ≤ encryptedPos (offset + size - 1) ∧
      encryptedPos (offset + size - 1) < (writeRange offset size).stop) := by
  rintro ⟨-, hin⟩
  have hword := hin.trans writeRange_stop_lt
  rw [encryptedPos_eq] at hword
  have hlast := (leafPos_lt_sectors_iff ((offset + size - 1) / 4096)).mp (by omega)
  have hend : offset + size = 1040385 * 4096 := by omega
  have hzero : (writeRange offset size).stop = 0 := by
    simp only [writeRange, hend, sectorSize_eq]
    rw [dataSectoridBySectorid_mod (by decide)]
    have hfirst : leafPos 128 1040385 = 2 ^ 20 := leafPos_unfold (by decide)
    norm_num [hfirst]
  omega

end

/-! ## The check -/

/-- The three computations agree just up to the last sector whose place fits a word, and for the
writes that end before the last sector whose offset does. -/
theorem offsetsOk_iff {last : Nat} (hlast : last ≤ maxSectorid) (offset size : Nat) :
    OffsetsOk last offset size ↔ last ≤ 4261412864 ∧
      ((offset + size) / 4096 ≤ 1040384 ∨ offset + size = offset / 4096 * 4096) := by
  rw [maxSectorid_eq] at hlast
  constructor
  · rintro ⟨hagree, -, hexactly, -⟩
    constructor
    · have hself := hagree last (Nat.le_refl _)
      rw [dataSectoridBySectorid_mod (by omega), dataOffsetBySectorid_eq, sectorSize_eq] at hself
      rw [← leafPos_lt_word_iff]
      omega
    · by_contra hother
      rw [not_or, Nat.not_le] at hother
      have hstart : offset / 4096 * 4096 ≤ offset := Nat.div_mul_le_self _ _
      refine not_exactly hother.1 ((hexactly (offset + size - 1)).mpr ?_)
      rw [touched_iff]
      omega
  · rintro ⟨hword, hwrite⟩
    have hplace : ∀ s ≤ last, dataSectoridBySectorid s = leafPos 128 s := by
      intro s hs
      rw [dataSectoridBySectorid_mod (by omega)]
      exact Nat.mod_eq_of_lt ((leafPos_lt_word_iff s).mpr (by omega))
    have hexactly : ∀ n, ((writeRange offset size).start ≤ encryptedPos n ∧
        encryptedPos n < (writeRange offset size).stop) ↔ Touched offset size n := by
      intro n
      rcases hwrite with hfits | hempty
      · rw [writeRange_eq hfits, touched_iff, encryptedPos_strictMono.le_iff_le,
          encryptedPos_strictMono.lt_iff_lt]
      · rw [touched_iff, writeRange_empty hempty]
        omega
    refine ⟨fun s hs => ?_, fun s t hst ht => ?_, hexactly, fun writeintervals hcheck n hn => ?_⟩
    · rw [hplace s hs, dataOffsetBySectorid_eq, sectorSize_eq, Nat.mul_comm]
    · rw [hplace s (by omega), hplace t ht]
      exact leafPos_strictMono (by decide) hst
    · obtain ⟨hstart, hstop⟩ := (hexactly n).mpr hn
      obtain ⟨tr, hfind, htr⟩ := (Option.any_eq_true _ _).mp hcheck
      have hin : tr ∈ writeintervals := List.mem_of_find?_eq_some hfind
      rw [decide_eq_true_eq] at htr
      exact ⟨tr, hin, htr.1.trans hstart, hstop.trans_le htr.2⟩

theorem offsetsOk_start : OffsetsOk 128 4096 8192 :=
  (offsetsOk_iff (by decide) 4096 8192).mpr ⟨by decide, Or.inl (by decide)⟩

/-- A byte behind the first four gigabytes. -/
theorem not_offsetsOk_large : ¬ OffsetsOk 0 (2 ^ 32) 1 := by
  intro h
  have hpos : encryptedPos (2 ^ 32) < (writeRange (2 ^ 32) 1).stop :=
    ((h.exactly (2 ^ 32)).mpr ⟨by decide, by decide⟩).2
  have hword := hpos.trans writeRange_stop_lt
  rw [encryptedPos_eq, leafPos_unfold (by decide)] at hword
  omega

end PcloudClient.FsCrypto
