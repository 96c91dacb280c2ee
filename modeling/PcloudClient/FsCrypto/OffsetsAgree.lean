/-
  FsCrypto/OffsetsAgree.lean --- the two offset computations agree.

  `offsetsByPlainsize` builds the levels bottom-up by ceiling division,
  `offsetsByCryptosize` peels them off the size on disk.  Both are shown to return
  one closed form, `layoutOffsets`, whose entries are written with the last unit
  `m / 128 ^ l` of every level, `m` being the last sector id.
-/
import Mathlib.Tactic.IntervalCases
import PcloudClient.FsCrypto.Offsets

set_option autoImplicit false

namespace PcloudClient.FsCrypto

open PcloudClient.Radix

/-! ## Closed form of the offsets record -/

/-- Number of 4096-byte sectors of a plain size. -/
def sectorCount (n : Nat) : Nat := (n + sectorSize - 1) / sectorSize

/-- Last sector id of a non-empty file. -/
def lastSector (n : Nat) : Nat := (n - 1) / 4096

/-- Bytes of the last data sector of a non-empty file. -/
def lastSectorLen (n : Nat) : Nat := n - 4096 * lastSector n

/-- Levels of auth sectors over the sectors `0 .. m`. -/
def treeDepth (m : Nat) : Nat := Nat.log 128 m + 1

/-- Bytes of the last auth sector of level `l`. -/
def tailLen (m l : Nat) : Nat := 32 * (m / 128 ^ l % 128 + 1)

/-- Offset of the last auth sector of level `l` when the data ends at `d`. -/
def tailOff (m d : Nat) : Nat → Nat
  | 0 => d
  | l + 1 => tailOff m d l + tailLen m l

/-- End of the data of a file of `n` bytes on disk. -/
def dataEnd (n : Nat) : Nat := 4096 * leafPos 128 (lastSector n) + lastSectorLen n

/-- The common value of the two offset computations. -/
def layoutOffsets (n : Nat) : Offsets :=
  let m := lastSector n
  { masterauthoff := tailOff m (dataEnd n) (treeDepth m)
    plainsize := n
    lastauthsectoroff := (List.range 6).map fun i =>
      if i ≤ treeDepth m then tailOff m (dataEnd n) i else 0
    lastauthsectorlen := (List.range 6).map fun i =>
      if i < treeDepth m then tailLen m i else if i = treeDepth m then 32 else 0
    treelevels := treeDepth m
    needmasterauth := decide (4096 < n) }

theorem sectorCount_eq_div (n : Nat) : sectorCount n = (n + 4095) / 4096 := by
  simp only [sectorCount, sectorSize_eq]
  omega

theorem sectorCount_mono {m n : Nat} (h : m ≤ n) : sectorCount m ≤ sectorCount n := by
  rw [sectorCount_eq_div, sectorCount_eq_div]
  omega

theorem sectorCount_eq {n : Nat} (hn : 0 < n) : sectorCount n = lastSector n + 1 := by
  simp only [sectorCount, lastSector, sectorSize_eq]
  omega

theorem lastSectorLen_bounds {n : Nat} (hn : 0 < n) :
    n = 4096 * lastSector n + lastSectorLen n ∧ 0 < lastSectorLen n ∧
      lastSectorLen n ≤ 4096 := by
  simp only [lastSectorLen, lastSector]
  omega

theorem lastSector_lt {n : Nat} (hn : 0 < n) (h : sectorCount n ≤ maxSectorid) :
    lastSector n < 2 ^ 32 - 2 := by
  rw [sectorCount_eq hn, maxSectorid_eq] at h
  omega

theorem treeDepth_le {m : Nat} (h : m < 2 ^ 32) : treeDepth m ≤ 5 := by
  have hlog : Nat.log 128 m < 5 := Nat.log_lt_of_lt_pow' (by decide) (lt_trans h (by decide))
  unfold treeDepth
  omega

theorem lt_pow_treeDepth (m : Nat) : m < 128 ^ treeDepth m :=
  Nat.lt_pow_succ_log_self (by decide) m

theorem div_pow_treeDepth (m : Nat) : m / 128 ^ treeDepth m = 0 :=
  Nat.div_eq_of_lt (lt_pow_treeDepth m)

/-- A level below the top one still has more than one unit. -/
theorem one_le_div_pow_iff {m l : Nat} (hl : 0 < l) :
    1 ≤ m / 128 ^ l ↔ l < treeDepth m := by
  rw [Nat.le_div_iff_mul_le (Nat.pow_pos (by decide)), one_mul]
  unfold treeDepth
  rcases Nat.eq_zero_or_pos m with rfl | hm
  · have : 0 < 128 ^ l := Nat.pow_pos (by decide)
    simp only [Nat.log_zero_right]
    omega
  · rw [← Nat.le_log_iff_pow_le (by decide) (by omega)]
    omega

theorem div_pow_succ (m l : Nat) : m / 128 ^ (l + 1) = m / 128 ^ l / 128 := by
  rw [pow_succ, Nat.div_div_eq_div_mul]

/-! ## Loops -/

theorem dataOffsetLoop_eq (s off : Nat) :
    dataOffsetLoop s off = off + 4096 * leafPos 128 (s / 128) := by
  induction s, off using dataOffsetLoop.induct with
  | case1 s off h ih =>
    simp only [hashTreeSectors_eq, sectorSize_eq] at h ih
    rw [dataOffsetLoop]
    simp only [hashTreeSectors_eq, sectorSize_eq, h, ↓reduceDIte]
    rw [ih, leafPos_eq (by decide) (s / 128)]
    ring
  | case2 s off h =>
    rw [dataOffsetLoop, dif_neg h]
    rw [hashTreeSectors_eq] at h
    have hz : s / 128 = 0 := Nat.div_eq_of_lt (by omega)
    rw [hz, leafPos_zero]
    rfl

/-- Data sectors are the leaves of the post-order placement. -/
theorem dataOffsetBySectorid_eq (s : Nat) :
    dataOffsetBySectorid s = 4096 * leafPos 128 s := by
  unfold dataOffsetBySectorid
  rw [dataOffsetLoop_eq, leafPos_eq (by decide) s, sectorSize_eq]
  ring

theorem maxLevelSize_succ {l : Nat} (hl : l < 6) :
    maxLevelSize (l + 1) = 128 * (maxLevelSize l + 32) := by
  interval_cases l <;> rfl

theorem range_map_set {k l v : Nat} (f : Nat → Nat) :
    ((List.range k).map f).set l v = (List.range k).map fun i => if i = l then v else f i := by
  apply List.ext_getElem
  · simp
  · intro i h1 h2
    simp only [List.getElem_set, List.getElem_map, List.getElem_range]
    by_cases h : i = l
    · simp [h]
    · simp [h, Ne.symm h]

theorem zero_eq_range_map : List.replicate 6 0 = (List.range 6).map fun _ => 0 := by
  decide

/-! ## From the plain size -/

/-- Slots below `l` filled, the state of the loop of `offsetsByPlainsize`. -/
def filledBelow (o : Offsets) (m d l : Nat) : Offsets :=
  { o with
    lastauthsectoroff := (List.range 6).map fun i => if i < l then tailOff m d i else 0
    lastauthsectorlen := (List.range 6).map fun i => if i < l then tailLen m i else 0 }

theorem unit_rem (q : Nat) :
    (if (q + 1) % 128 = 0 then 128 else (q + 1) % 128) * 32 = 32 * (q % 128 + 1) := by
  split <;> omega

theorem filledBelow_setLast (o : Offsets) (m d l : Nat) :
    (filledBelow o m d l).setLast l (tailOff m d l) (tailLen m l) = filledBelow o m d (l + 1) := by
  simp only [filledBelow, Offsets.setLast, range_map_set, Offsets.mk.injEq, true_and, and_true]
  constructor
  · apply congrArg (fun f => (List.range 6).map f)
    funext i
    split_ifs <;> first | omega | simp_all
  · apply congrArg (fun f => (List.range 6).map f)
    funext i
    split_ifs <;> first | omega | simp_all

theorem plainsizeLevels_eq (o : Offsets) (m d k : Nat) :
    ∀ l, l < treeDepth m → treeDepth m - l = k →
      plainsizeLevels (m / 128 ^ l + 1) (tailOff m d l) l (filledBelow o m d l) =
        { (filledBelow o m d (treeDepth m)).setLast (treeDepth m)
            (tailOff m d (treeDepth m)) 32 with
          masterauthoff := tailOff m d (treeDepth m)
          treelevels := treeDepth m } := by
  induction k with
  | zero => intro l hl hk; omega
  | succ k ih =>
    intro l hl hk
    have hlen : (if (m / 128 ^ l + 1) % 128 = 0 then 128 else (m / 128 ^ l + 1) % 128) * 32 =
        tailLen m l := unit_rem _
    have hnext : (m / 128 ^ l + 1 + 128 - 1) / 128 = m / 128 ^ (l + 1) + 1 := by
      rw [div_pow_succ]
      generalize m / 128 ^ l = q
      omega
    rw [plainsizeLevels]
    simp only [hashTreeSectors_eq, authSize_eq, hlen, hnext, filledBelow_setLast]
    have hiff := one_le_div_pow_iff (m := m) (l := l + 1) (by omega)
    by_cases hmore : l + 1 < treeDepth m
    · have h1 : 1 < m / 128 ^ (l + 1) + 1 := by
        have := hiff.mpr hmore
        omega
      simp only [h1, ↓reduceDIte]
      exact ih (l + 1) hmore (by omega)
    · have h1 : ¬ 1 < m / 128 ^ (l + 1) + 1 := by
        have := mt hiff.mp hmore
        omega
      have hl1 : treeDepth m = l + 1 := by omega
      rw [dif_neg h1, hl1]
      rfl

theorem offsetsByPlainsize_eq {n : Nat} (hn : 0 < n) (h : sectorCount n ≤ maxSectorid) :
    offsetsByPlainsize n = layoutOffsets n := by
  have hm := lastSector_lt hn h
  have hdepth : treeDepth (lastSector n) ≤ 5 := treeDepth_le (by omega)
  have hlast : (if n % 4096 = 0 then (n / 4096 % 2 ^ 32 - 1, 4096)
      else (n / 4096 % 2 ^ 32, n % 4096)) = (lastSector n, lastSectorLen n) := by
    unfold lastSectorLen
    unfold lastSector at hm ⊢
    split <;> (rw [Prod.mk.injEq]; omega)
  have hsize : (n + 4096 - 1) / 4096 = lastSector n / 128 ^ 0 + 1 := by
    have := sectorCount_eq hn
    simpa [sectorCount] using this
  have hbase : ∀ o : Offsets, o.lastauthsectoroff = List.replicate 6 0 →
      o.lastauthsectorlen = List.replicate 6 0 →
      o = filledBelow o (lastSector n) (dataEnd n) 0 := by
    rintro ⟨⟩ h1 h2
    simp_all [filledBelow, List.range_succ]
  unfold offsetsByPlainsize
  simp only [Nat.ne_of_gt hn, ↓reduceIte, sectorSize_eq, hlast, dataOffsetBySectorid_eq, hsize]
  rw [hbase { Offsets.zero with plainsize := n, needmasterauth := decide (4096 < n) } rfl rfl]
  have hloop := plainsizeLevels_eq
    { Offsets.zero with plainsize := n, needmasterauth := decide (4096 < n) }
    (lastSector n) (dataEnd n) (treeDepth (lastSector n)) 0 (by unfold treeDepth; omega) (by omega)
  rw [tailOff] at hloop
  rw [show 4096 * leafPos 128 (lastSector n) + lastSectorLen n = dataEnd n from rfl, hloop]
  simp only [layoutOffsets, filledBelow, Offsets.setLast, range_map_set, Offsets.mk.injEq,
    true_and, and_true]
  constructor
  · apply congrArg (fun f => (List.range 6).map f)
    funext i
    split_ifs <;> first | omega | simp_all
  · apply congrArg (fun f => (List.range 6).map f)
    funext i
    split_ifs <;> omega

/-! ## From the size on disk -/

/-- Plain bytes and auth records of the levels below `l`. -/
def peeledSize (n m : Nat) : Nat → Nat
  | 0 => n
  | l + 1 => peeledSize n m l + 32 * (m / 128 ^ l + 1)

/-- Offset of the last auth sector of a level, counted from the records below it and
the complete auth sectors of the levels above. -/
theorem tailOff_eq {n : Nat} (hn : 0 < n) (l : Nat) :
    tailOff (lastSector n) (dataEnd n) l =
      peeledSize n (lastSector n) l + 4096 * leafPos 128 (lastSector n / 128 ^ (l + 1)) := by
  obtain ⟨hsplit, -, -⟩ := lastSectorLen_bounds hn
  induction l with
  | zero =>
    have h := leafPos_eq (b := 128) (by decide) (lastSector n)
    simp only [tailOff, peeledSize, dataEnd, zero_add, pow_one]
    omega
  | succ l ih =>
    have h := leafPos_eq (b := 128) (by decide) (lastSector n / 128 ^ (l + 1))
    rw [← div_pow_succ] at h
    rw [tailOff, peeledSize, ih, h, tailLen, div_pow_succ (lastSector n) l]
    generalize lastSector n / 128 ^ l = q
    omega

theorem masterauthoff_eq {n : Nat} (hn : 0 < n) :
    tailOff (lastSector n) (dataEnd n) (treeDepth (lastSector n)) =
      peeledSize n (lastSector n) (treeDepth (lastSector n)) := by
  rw [tailOff_eq hn, div_pow_succ, div_pow_treeDepth]
  simp

/-- The bytes below and including level `l` fit `m / 128 ^ l + 1` groups of that level,
and not one fewer. -/
theorem peeledSize_bounds {n : Nat} (hn : 0 < n) {l : Nat} (hl : l < 6) :
    lastSector n / 128 ^ l * (maxLevelSize l + 32) < peeledSize n (lastSector n) (l + 1) ∧
      peeledSize n (lastSector n) (l + 1) ≤
        (lastSector n / 128 ^ l + 1) * (maxLevelSize l + 32) := by
  obtain ⟨hsplit, hpos, hle⟩ := lastSectorLen_bounds hn
  induction l with
  | zero =>
    simp only [peeledSize, pow_zero, Nat.div_one,
      show maxLevelSize 0 = 4096 from rfl]
    omega
  | succ l ih =>
    obtain ⟨h1, h2⟩ := ih (by omega)
    rw [peeledSize, maxLevelSize_succ (by omega : l < 6), div_pow_succ (lastSector n) l]
    generalize lastSector n / 128 ^ l = q at h1 h2 ⊢
    generalize maxLevelSize l + 32 = g at h1 h2 ⊢
    have hq : 128 * (q / 128) ≤ q ∧ q + 1 ≤ 128 * (q / 128 + 1) := by omega
    have h3 : 128 * (q / 128) * g ≤ q * g := Nat.mul_le_mul_right _ hq.1
    have h4 : (q + 1) * g ≤ 128 * (q / 128 + 1) * g := Nat.mul_le_mul_right _ hq.2
    constructor
    · nlinarith
    · nlinarith

/-- The ceiling division of the peeling loop counts the units of the level. -/
theorem peel_count {n : Nat} (hn : 0 < n) {l : Nat} (hl : l < 6) :
    (peeledSize n (lastSector n) (l + 1) + maxLevelSize l + 32 - 1) / (maxLevelSize l + 32) =
      lastSector n / 128 ^ l + 1 := by
  obtain ⟨h1, h2⟩ := peeledSize_bounds hn hl
  generalize lastSector n / 128 ^ l = q at h1 h2 ⊢
  generalize peeledSize n (lastSector n) (l + 1) = p at h1 h2 ⊢
  generalize maxLevelSize l = g at h1 h2 ⊢
  have h3 : (q + 1) * (g + 32) = q * (g + 32) + (g + 32) := by ring
  rw [Nat.div_eq_iff (by omega)]
  constructor
  · omega
  · omega

/-- Slots from `l` to `k` filled, the state of the loop of `offsetsByCryptosize`. -/
def filledFrom (o : Offsets) (m d l k : Nat) : Offsets :=
  { o with
    lastauthsectoroff := (List.range 6).map fun i =>
      if l ≤ i ∧ i ≤ k then tailOff m d i else 0
    lastauthsectorlen := (List.range 6).map fun i =>
      if l ≤ i ∧ i < k then tailLen m i else if i = k then 32 else 0 }

theorem filledFrom_setLast (o : Offsets) (m d l k : Nat) (hl : l < k) :
    (filledFrom o m d (l + 1) k).setLast l (tailOff m d l) (tailLen m l) =
      filledFrom o m d l k := by
  simp only [filledFrom, Offsets.setLast, range_map_set, Offsets.mk.injEq, true_and, and_true]
  constructor
  · apply congrArg (fun f => (List.range 6).map f)
    funext i
    split_ifs <;> first | omega | simp_all
  · apply congrArg (fun f => (List.range 6).map f)
    funext i
    split_ifs <;> first | omega | simp_all

theorem cryptosizeLevels_eq {n : Nat} (hn : 0 < n) (o : Offsets) (k l : Nat)
    (hl : l ≤ k) (hk : k ≤ 6) :
    cryptosizeLevels l (peeledSize n (lastSector n) l) (tailOff (lastSector n) (dataEnd n) l)
        (filledFrom o (lastSector n) (dataEnd n) l k) =
      { filledFrom o (lastSector n) (dataEnd n) 0 k with plainsize := n } := by
  induction l with
  | zero => rfl
  | succ l ih =>
    have hcnt := peel_count hn (by omega : l < 6)
    have hrem := unit_rem (lastSector n / 128 ^ l)
    have hsize : peeledSize n (lastSector n) (l + 1) - (lastSector n / 128 ^ l + 1) * 32 =
        peeledSize n (lastSector n) l := by
      rw [peeledSize]
      omega
    have hoff : tailOff (lastSector n) (dataEnd n) (l + 1) - tailLen (lastSector n) l =
        tailOff (lastSector n) (dataEnd n) l := by
      rw [tailOff]
      omega
    rw [cryptosizeLevels]
    simp only [authSize_eq, hashTreeSectors_eq, hcnt, hrem, hsize]
    rw [← tailLen, hoff, filledFrom_setLast _ _ _ _ _ (by omega)]
    exact ih (by omega)

theorem maxLevelSize_lt_succ {l : Nat} (hl : l < 6) :
    maxLevelSize l < maxLevelSize (l + 1) := by
  rw [maxLevelSize_succ hl]
  omega

theorem maxLevelSize_mono {l k : Nat} (hlk : l ≤ k) (hk : k ≤ 6) :
    maxLevelSize l ≤ maxLevelSize k := by
  induction k with
  | zero =>
    have hl : l = 0 := by omega
    rw [hl]
  | succ k ih =>
    rcases Nat.lt_or_ge l (k + 1) with h | h
    · exact le_trans (ih (by omega) (by omega)) (maxLevelSize_lt_succ (by omega)).le
    · have hl : l = k + 1 := by omega
      rw [hl]

theorem findLevel_eq {size k : Nat} (hk : k ≤ 6) (hle : size ≤ maxLevelSize k)
    (hlt : ∀ l, 1 ≤ l → l < k → maxLevelSize l < size) (j : Nat) :
    ∀ l, 1 ≤ l → l ≤ k → k - l = j → findLevel size l = k := by
  induction j with
  | zero =>
    intro l h1 h2 hj
    have hl : l = k := by omega
    subst hl
    rw [findLevel, dif_neg (by omega)]
  | succ j ih =>
    intro l h1 h2 hj
    have hmore : l ≤ 6 ∧ maxLevelSize l < size := ⟨by omega, hlt l h1 (by omega)⟩
    rw [findLevel, dif_pos hmore]
    exact ih (l + 1) (by omega) (by omega) (by omega)

/-- The tree over the sectors `0 .. m` fits a full tree of its own height and no lower one. -/
theorem findLevel_masterauthoff {n : Nat} (hn : 0 < n) (h : sectorCount n ≤ maxSectorid) :
    findLevel (peeledSize n (lastSector n) (treeDepth (lastSector n))) 1 =
      treeDepth (lastSector n) := by
  have hdepth : treeDepth (lastSector n) ≤ 5 := by
    have := lastSector_lt hn h
    exact treeDepth_le (by omega)
  have hpow := div_pow_treeDepth (lastSector n)
  obtain ⟨k, hk⟩ : ∃ k, treeDepth (lastSector n) = k + 1 := ⟨Nat.log 128 (lastSector n), rfl⟩
  obtain ⟨hlow, hhigh⟩ := peeledSize_bounds hn (by omega : k < 6)
  rw [hk, div_pow_succ] at hpow
  have hq : lastSector n / 128 ^ k < 128 := Nat.lt_of_div_eq_zero (by decide) hpow
  rw [hk]
  refine findLevel_eq (by omega) ?_ ?_ k 1 (by omega) (by omega) (by omega)
  · calc peeledSize n (lastSector n) (k + 1)
        ≤ (lastSector n / 128 ^ k + 1) * (maxLevelSize k + 32) := hhigh
      _ ≤ 128 * (maxLevelSize k + 32) := Nat.mul_le_mul_right _ (by omega)
      _ = maxLevelSize (k + 1) := (maxLevelSize_succ (by omega)).symm
  · intro l hl1 hlk
    have hone : 1 ≤ lastSector n / 128 ^ k :=
      (one_le_div_pow_iff (by omega)).mpr (by omega)
    calc maxLevelSize l ≤ maxLevelSize k := maxLevelSize_mono (by omega) (by omega)
      _ < 1 * (maxLevelSize k + 32) := by omega
      _ ≤ lastSector n / 128 ^ k * (maxLevelSize k + 32) := Nat.mul_le_mul_right _ hone
      _ < peeledSize n (lastSector n) (k + 1) := hlow

theorem peeledSize_ge (n m l : Nat) : n + 32 * l ≤ peeledSize n m l := by
  induction l with
  | zero => simp [peeledSize]
  | succ l ih =>
    rw [peeledSize]
    generalize m / 128 ^ l = q
    omega

theorem cryptoSize_eq {n : Nat} (hn : 0 < n) (h : sectorCount n ≤ maxSectorid) :
    cryptoSize n = peeledSize n (lastSector n) (treeDepth (lastSector n)) +
      if 4096 < n then 32 else 0 := by
  rw [cryptoSize, offsetsByPlainsize_eq hn h, Offsets.cryptoEnd]
  simp only [layoutOffsets, masterauthoff_eq hn, decide_eq_true_eq, authSize_eq]

theorem offsetsByCryptosize_cryptoSize {n : Nat} (hn : 0 < n) (h : sectorCount n ≤ maxSectorid) :
    offsetsByCryptosize (cryptoSize n) = layoutOffsets n := by
  have hm := lastSector_lt hn h
  have hdepth : treeDepth (lastSector n) ≤ 5 := treeDepth_le (by omega)
  have hge := peeledSize_ge n (lastSector n) (treeDepth (lastSector n))
  have hone : 1 ≤ treeDepth (lastSector n) := by unfold treeDepth; omega
  have hsize := cryptoSize_eq hn h
  have hneed : decide (4096 + 32 < cryptoSize n) = decide (4096 < n) := by
    rw [decide_eq_decide, hsize]
    by_cases hbig : 4096 < n
    · simp only [hbig, if_true, iff_true]
      omega
    · have hm0 : lastSector n = 0 := by simp only [lastSector]; omega
      simp only [hbig, if_false, iff_false, hm0]
      simp only [treeDepth, Nat.log_zero_right, peeledSize, pow_zero]
      omega
  have hsub : (if decide (4096 < n) = true then cryptoSize n - 32 else cryptoSize n) =
      peeledSize n (lastSector n) (treeDepth (lastSector n)) := by
    rw [hsize]
    by_cases hbig : 4096 < n
    · simp [hbig]
    · simp [hbig]
  have hne : ¬ cryptoSize n ≤ 32 := by
    rw [hsize]
    omega
  have htop : ∀ (o : Offsets) (k : Nat), k ≤ 5 →
      o.lastauthsectoroff = List.replicate 6 0 → o.lastauthsectorlen = List.replicate 6 0 →
      o.setLast k (tailOff (lastSector n) (dataEnd n) k) 32 =
        filledFrom o (lastSector n) (dataEnd n) k k := by
    intro o k hk h1 h2
    rw [zero_eq_range_map] at h1 h2
    simp only [Offsets.setLast, filledFrom, h1, h2, range_map_set, Offsets.mk.injEq, true_and,
      and_true]
    constructor
    · apply congrArg (fun f => (List.range 6).map f)
      funext i
      split_ifs <;> first | omega | simp_all
    · apply congrArg (fun f => (List.range 6).map f)
      funext i
      split_ifs <;> omega
  rw [offsetsByCryptosize, if_neg hne]
  simp only [sectorSize_eq, authSize_eq, hneed, hsub, findLevel_masterauthoff hn h]
  rw [← masterauthoff_eq hn, htop _ _ hdepth rfl rfl, masterauthoff_eq hn,
    ← masterauthoff_eq hn]
  have hloop := cryptosizeLevels_eq hn
    { Offsets.zero with
      needmasterauth := decide (4096 < n)
      masterauthoff := tailOff (lastSector n) (dataEnd n) (treeDepth (lastSector n))
      treelevels := treeDepth (lastSector n) }
    (treeDepth (lastSector n)) (treeDepth (lastSector n)) (le_refl _) (by omega)
  rw [← masterauthoff_eq hn] at hloop
  rw [hloop]
  simp only [layoutOffsets, filledFrom, Nat.zero_le, true_and]

theorem offsets_zero : offsetsByPlainsize 0 = Offsets.zero ∧ cryptoSize 0 = 0 ∧
    offsetsByCryptosize 0 = Offsets.zero := by
  refine ⟨rfl, rfl, rfl⟩

theorem offsets_agree {n : Nat} (h : sectorCount n ≤ maxSectorid) :
    offsetsByCryptosize (cryptoSize n) = offsetsByPlainsize n := by
  rcases Nat.eq_zero_or_pos n with rfl | hn
  · rfl
  · rw [offsetsByCryptosize_cryptoSize hn h, offsetsByPlainsize_eq hn h]

theorem peeledSize_mono {k n i m j l : Nat} (hn : k ≤ n) (hm : i ≤ m) (hl : j ≤ l) :
    peeledSize k i j + (n - k) ≤ peeledSize n m l := by
  induction l with
  | zero =>
    have hj0 : j = 0 := by omega
    subst hj0
    simp only [peeledSize]
    omega
  | succ l ih =>
    rcases Nat.lt_or_ge j (l + 1) with h | h
    · have := ih (by omega)
      rw [peeledSize]
      omega
    · have hj : j = l + 1 := by omega
      subst hj
      clear ih h hl
      -- both sides have the same number of levels: compare them level by level
      induction l with
      | zero =>
        simp only [peeledSize, pow_zero, Nat.div_one]
        omega
      | succ l ih =>
        have hq : i / 128 ^ (l + 1) ≤ m / 128 ^ (l + 1) := Nat.div_le_div_right hm
        rw [peeledSize, peeledSize.eq_2 n]
        omega

theorem cryptoSize_lt {k n : Nat} (hkn : k < n) (h : sectorCount n ≤ maxSectorid) :
    cryptoSize k < cryptoSize n := by
  have hn : 0 < n := by omega
  rw [cryptoSize_eq hn h]
  rcases Nat.eq_zero_or_pos k with rfl | hk
  · have := peeledSize_ge n (lastSector n) (treeDepth (lastSector n))
    rw [offsets_zero.2.1]
    omega
  · have hcount : sectorCount k ≤ maxSectorid := by
      refine le_trans ?_ h
      simp only [sectorCount, sectorSize_eq]
      omega
    have hlast : lastSector k ≤ lastSector n := by
      simp only [lastSector]
      omega
    have hdepth : treeDepth (lastSector k) ≤ treeDepth (lastSector n) := by
      have := Nat.log_mono_right (b := 128) hlast
      unfold treeDepth
      omega
    have hmono := peeledSize_mono (k := k) (n := n) hkn.le hlast hdepth
    rw [cryptoSize_eq hk hcount]
    split_ifs <;> omega

theorem plainSize_cryptoSize {n : Nat} (h : sectorCount n ≤ maxSectorid) :
    plainSize (cryptoSize n) = n := by
  rw [plainSize, offsets_agree h]
  rcases Nat.eq_zero_or_pos n with rfl | hn
  · rfl
  · rw [offsetsByPlainsize_eq hn h]
    rfl

/-- **Encrypted-size layout agreement.**  The record computed from the size on disk is
the one computed from the plain size, the plain size is recovered, and a larger plain
size takes more bytes on disk. -/
theorem offsets_by_sizes_agree (n : Nat) (h : sectorCount n ≤ maxSectorid) :
    offsetsByCryptosize (cryptoSize n) = offsetsByPlainsize n ∧
      plainSize (cryptoSize n) = n ∧ ∀ k, k < n → cryptoSize k < cryptoSize n :=
  ⟨offsets_agree h, plainSize_cryptoSize h, fun _ hk => cryptoSize_lt hk h⟩

/-- A file of 129 sectors, the last one a single byte: two levels of auth sectors. -/
theorem offsets_by_sizes_agree_two_levels :
    sectorCount 524289 ≤ maxSectorid ∧
      offsetsByCryptosize (cryptoSize 524289) = offsetsByPlainsize 524289 ∧
      plainSize (cryptoSize 524289) = 524289 ∧ cryptoSize 524288 < cryptoSize 524289 := by
  have hcount : sectorCount 524289 ≤ maxSectorid := by decide
  obtain ⟨h1, h2, h3⟩ := offsets_by_sizes_agree 524289 hcount
  exact ⟨hcount, h1, h2, h3 524288 (by decide)⟩

end PcloudClient.FsCrypto
