/-
  FsCrypto/Layout.lean --- the parts of an encrypted file tile it.

  Data sectors, auth sectors of all levels and the master record are named by `Part`;
  `partExtent` reads the bytes of each part off the functions of `Offsets.lean`.  All
  parts but the last one of each kind sit at a place of the post-order sequence of
  `Foundation/Radix.lean`; the last ones follow each other behind them.
-/
import Mathlib.Data.List.Nodup
import PcloudClient.FsCrypto.OffsetsAgree

set_option autoImplicit false

namespace PcloudClient.FsCrypto

open PcloudClient.Radix

/-! ## Parts and their bytes -/

/-- A half-open range of bytes. -/
structure Extent where
  off : Nat
  len : Nat
  deriving DecidableEq, Repr

namespace Extent

/-- Byte `p` belongs to the range. -/
def Contains (e : Extent) (p : Nat) : Prop := e.off ≤ p ∧ p < e.off + e.len

/-- One of the two ranges ends before the other begins. -/
def Apart (e f : Extent) : Prop := e.off + e.len ≤ f.off ∨ f.off + f.len ≤ e.off

end Extent

/-- The parts of an encrypted file. -/
inductive Part where
  | data (sectorid : Nat)
  | auth (level id : Nat)
  | master
  deriving DecidableEq, Repr

/-- Index of the last auth sector of a level in a file of `n` bytes. -/
def lastAuthId (n level : Nat) : Nat :=
  getLastSectoridBySize n / hashTreeSectors ^ (level + 1)

/-- Bytes of a part of a file of `n` plain bytes. -/
def partExtent (n : Nat) : Part → Extent
  | .data s =>
    ⟨dataOffsetBySectorid s,
      if s = getLastSectoridBySize n then n - s * sectorSize else sectorSize⟩
  | .auth level id =>
    if id = lastAuthId n level then
      ⟨(offsetsByPlainsize n).lastOff level, (offsetsByPlainsize n).lastLen level⟩
    else ⟨authOffset level id, sectorSize⟩
  | .master => ⟨(offsetsByPlainsize n).masterauthoff, authSize⟩

/-- Every part of a file of `n` plain bytes. -/
def fileParts (n : Nat) : List Part :=
  (List.range (sectorCount n)).map Part.data ++
    ((List.range (offsetsByPlainsize n).treelevels).flatMap fun level =>
      (List.range (lastAuthId n level + 1)).map (Part.auth level)) ++
    if (offsetsByPlainsize n).needmasterauth then [Part.master] else []

theorem mem_fileParts_data {n s : Nat} : Part.data s ∈ fileParts n ↔ s < sectorCount n := by
  unfold fileParts
  split <;> simp

theorem mem_fileParts_auth {n level id : Nat} :
    Part.auth level id ∈ fileParts n ↔
      level < (offsetsByPlainsize n).treelevels ∧ id ≤ lastAuthId n level := by
  rw [← Nat.lt_succ_iff]
  unfold fileParts
  split <;> simp

theorem mem_fileParts_master {n : Nat} :
    Part.master ∈ fileParts n ↔ (offsetsByPlainsize n).needmasterauth = true := by
  unfold fileParts
  split <;> simp_all

theorem nodup_fileParts (n : Nat) : (fileParts n).Nodup := by
  unfold fileParts
  refine List.Nodup.append (List.Nodup.append ?_ ?_ ?_) ?_ ?_
  · exact List.nodup_range.map fun _ _ h => Part.data.inj h
  · refine List.nodup_flatMap.mpr ⟨fun level _ => ?_, ?_⟩
    · exact List.nodup_range.map fun _ _ h => (Part.auth.inj h).2
    · refine List.nodup_range.imp_of_mem ?_
      intro l l' _ _ hne p hp hp'
      obtain ⟨_, _, rfl⟩ := List.mem_map.mp hp
      obtain ⟨_, _, h⟩ := List.mem_map.mp hp'
      exact hne (Part.auth.inj h).1.symm
  · intro p hp hp'
    obtain ⟨_, _, rfl⟩ := List.mem_map.mp hp
    simp at hp'
  · split <;> simp
  · intro p hp hp'
    split at hp' <;> simp_all

/-! ## Closed forms -/

theorem getLastSectoridBySize_eq {n : Nat} (hn : 0 < n) (h : sectorCount n ≤ maxSectorid) :
    getLastSectoridBySize n = lastSector n := by
  have hm := lastSector_lt hn h
  rw [getLastSectoridBySize, if_neg (by omega), sectorSize_eq, ← lastSector,
    Nat.mod_eq_of_lt (by omega)]

theorem authOffsetLoop_eq (id ret : Nat) (hid : id < 2 ^ 27) :
    authOffsetLoop id ret = ret + 4096 * leafPos 128 (id / 128) := by
  induction id, ret using authOffsetLoop.induct with
  | case1 id ret h ih =>
    simp only [hashTreeSectors_eq, sectorSize_eq] at h ih
    rw [authOffsetLoop]
    simp only [hashTreeSectors_eq, sectorSize_eq, h, ↓reduceDIte]
    rw [ih (by omega), leafPos_eq (by decide) (id / 128), Nat.mod_eq_of_lt (by omega)]
    ring
  | case2 id ret h =>
    rw [authOffsetLoop, dif_neg h]
    rw [hashTreeSectors_eq] at h
    have hz : id / 128 = 0 := Nat.div_eq_of_lt (by omega)
    rw [hz, leafPos_zero]
    rfl

/-- Full groups below a node, counted in bytes. -/
theorem nodePos_bytes {l : Nat} (hl : l < 6) (id : Nat) :
    4096 * nodePos 128 l id + 4096 =
      maxLevelSize (l + 1) * (id + 1) + 4096 * leafPos 128 (id / 128) := by
  induction l generalizing id with
  | zero =>
    have h : leafPos 128 (128 * (id + 1) - 1) = 128 * (id + 1) - 1 + leafPos 128 id := by
      rw [leafPos_eq (by decide), show (128 * (id + 1) - 1) / 128 = id by omega]
    have hid := leafPos_eq (b := 128) (by decide) id
    simp only [nodePos, zero_add, pow_one, h, show maxLevelSize 1 = 528384 from rfl]
    omega
  | succ l ih =>
    have hid := leafPos_eq (b := 128) (by decide) id
    have hstep := ih (by omega) (128 * (id + 1) - 1)
    rw [show (128 * (id + 1) - 1) / 128 = id by omega,
      show 128 * (id + 1) - 1 + 1 = 128 * (id + 1) by omega] at hstep
    rw [nodePos_succ (by decide), maxLevelSize_succ (by omega : l + 1 < 6)]
    have hexp : 128 * (maxLevelSize (l + 1) + 32) * (id + 1) =
        maxLevelSize (l + 1) * (128 * (id + 1)) + 4096 * (id + 1) := by ring
    rw [hexp]
    linarith

/-- Auth sectors other than the last of their level are nodes of the post-order
placement. -/
theorem authOffset_eq {l id : Nat} (hl : l < 6) (hid : id < 2 ^ 27) :
    authOffset l id = 4096 * nodePos 128 l id := by
  have hbytes := nodePos_bytes hl id
  have hpos : 4096 ≤ maxLevelSize (l + 1) * (id + 1) := by
    calc 4096 ≤ maxLevelSize (l + 1) * 1 := by
          interval_cases l <;> decide
      _ ≤ maxLevelSize (l + 1) * (id + 1) := Nat.mul_le_mul_left _ (by omega)
  rw [authOffset, authOffsetLoop_eq _ _ hid, sectorSize_eq]
  omega

theorem authSectorWalk_eq (level sizesecd secd aid : Nat) :
    authSectorWalk (level + 1) sizesecd secd aid =
      (sizesecd / 128 ^ (level + 1), secd / 128 ^ (level + 1), secd / 128 ^ level % 128) := by
  induction level generalizing sizesecd secd aid with
  | zero => simp [authSectorWalk, hashTreeSectors_eq]
  | succ level ih =>
    rw [authSectorWalk, ih, hashTreeSectors_eq]
    simp only [Nat.div_div_eq_div_mul, ← pow_succ']

/-- `getAuthSectorOff` returns the auth sector above the given data sector and the slot
of its child on the path to that sector. -/
theorem getAuthSectorOff_eq (o : Offsets) (s level : Nat)
    (hs : s ≤ getLastSectoridBySize o.plainsize) :
    getAuthSectorOff s level o = some
      ⟨if s / 128 ^ (level + 1) = getLastSectoridBySize o.plainsize / 128 ^ (level + 1)
        then o.lastOff level else authOffset level (s / 128 ^ (level + 1)),
       if s / 128 ^ (level + 1) = getLastSectoridBySize o.plainsize / 128 ^ (level + 1)
        then o.lastLen level else 4096,
       s / 128 ^ level % 128⟩ := by
  have hwalk : authSectorWalk level (getLastSectoridBySize o.plainsize / 128) (s / 128) (s % 128) =
      (getLastSectoridBySize o.plainsize / 128 ^ (level + 1), s / 128 ^ (level + 1),
        s / 128 ^ level % 128) := by
    cases level with
    | zero => simp [authSectorWalk]
    | succ level =>
      rw [authSectorWalk_eq]
      simp only [Nat.div_div_eq_div_mul, ← pow_succ']
  have hle : s / 128 ^ (level + 1) ≤ getLastSectoridBySize o.plainsize / 128 ^ (level + 1) :=
    Nat.div_le_div_right hs
  rw [getAuthSectorOff]
  simp only [hashTreeSectors_eq, hwalk, sectorSize_eq]
  split_ifs with h1 h2
  · rfl
  · rfl
  · omega

theorem lastOff_eq {n level : Nat} (hn : 0 < n) (h : sectorCount n ≤ maxSectorid)
    (hl : level ≤ treeDepth (lastSector n)) :
    (offsetsByPlainsize n).lastOff level = tailOff (lastSector n) (dataEnd n) level := by
  have hm := lastSector_lt hn h
  have hdepth : treeDepth (lastSector n) ≤ 5 := treeDepth_le (by omega)
  rw [offsetsByPlainsize_eq hn h]
  simp [Offsets.lastOff, layoutOffsets, List.getD_eq_getElem?_getD, hl,
    (by omega : level < 6)]

theorem lastLen_eq {n level : Nat} (hn : 0 < n) (h : sectorCount n ≤ maxSectorid)
    (hl : level < treeDepth (lastSector n)) :
    (offsetsByPlainsize n).lastLen level = tailLen (lastSector n) level := by
  have hm := lastSector_lt hn h
  have hdepth : treeDepth (lastSector n) ≤ 5 := treeDepth_le (by omega)
  rw [offsetsByPlainsize_eq hn h]
  simp [Offsets.lastLen, layoutOffsets, List.getD_eq_getElem?_getD, hl,
    (by omega : level < 6)]

theorem lastLen_top {n : Nat} (hn : 0 < n) (h : sectorCount n ≤ maxSectorid) :
    (offsetsByPlainsize n).lastLen (treeDepth (lastSector n)) = 32 := by
  have hm := lastSector_lt hn h
  have hdepth : treeDepth (lastSector n) ≤ 5 := treeDepth_le (by omega)
  rw [offsetsByPlainsize_eq hn h]
  simp [Offsets.lastLen, layoutOffsets, List.getD_eq_getElem?_getD,
    (by omega : treeDepth (lastSector n) < 6)]

theorem treelevels_eq {n : Nat} (hn : 0 < n) (h : sectorCount n ≤ maxSectorid) :
    (offsetsByPlainsize n).treelevels = treeDepth (lastSector n) := by
  rw [offsetsByPlainsize_eq hn h]
  rfl

theorem needmasterauth_eq (n : Nat) (h : sectorCount n ≤ maxSectorid) :
    (offsetsByPlainsize n).needmasterauth = decide (4096 < n) := by
  rcases Nat.eq_zero_or_pos n with rfl | hn
  · rfl
  · rw [offsetsByPlainsize_eq hn h]
    rfl

theorem masterauthoff_tail {n : Nat} (hn : 0 < n) (h : sectorCount n ≤ maxSectorid) :
    (offsetsByPlainsize n).masterauthoff =
      tailOff (lastSector n) (dataEnd n) (treeDepth (lastSector n)) := by
  rw [offsetsByPlainsize_eq hn h]
  rfl

theorem lastAuthId_eq {n level : Nat} (hn : 0 < n) (h : sectorCount n ≤ maxSectorid) :
    lastAuthId n level = lastSector n / 128 ^ (level + 1) := by
  rw [lastAuthId, getLastSectoridBySize_eq hn h, hashTreeSectors_eq]

/-! ## Places -/

/-- Where a part sits: in the post-order body of the file, or in the row of last
parts behind it. -/
inductive Place where
  | body (u : Nat)
  | tail (j : Nat)
  deriving DecidableEq, Repr

/-- Start of the `j`-th part of the tail. -/
def tailBound (n : Nat) : Nat → Nat
  | 0 => 4096 * leafPos 128 (lastSector n)
  | j + 1 => tailOff (lastSector n) (dataEnd n) j

/-- Bytes of a place. -/
def placeExtent (n : Nat) : Place → Extent
  | .body u => ⟨4096 * u, 4096⟩
  | .tail j => ⟨tailBound n j, tailBound n (j + 1) - tailBound n j⟩

/-- Place of a part. -/
def partPlace (n : Nat) : Part → Place
  | .data s => if s = lastSector n then .tail 0 else .body (leafPos 128 s)
  | .auth level id =>
    if id = lastSector n / 128 ^ (level + 1) then .tail (level + 1)
    else .body (nodePos 128 level id)
  | .master => .tail (treeDepth (lastSector n) + 1)

/-- Index of the last part of the tail. -/
def tailTop (n : Nat) : Nat := treeDepth (lastSector n) + if 4096 < n then 1 else 0

/-- Places of a file of `n` bytes. -/
def Place.Valid (n : Nat) : Place → Prop
  | .body u => u < leafPos 128 (lastSector n)
  | .tail j => j ≤ tailTop n

theorem tailBound_zero (n : Nat) : tailBound n 0 = 4096 * leafPos 128 (lastSector n) := rfl

theorem tailBound_lt_succ {n : Nat} (hn : 0 < n) (j : Nat) :
    tailBound n j < tailBound n (j + 1) := by
  cases j with
  | zero =>
    obtain ⟨-, hpos, -⟩ := lastSectorLen_bounds hn
    simp only [tailBound, tailOff, dataEnd]
    omega
  | succ j =>
    simp only [tailBound, tailOff, tailLen]
    omega

theorem tailBound_strictMono {n : Nat} (hn : 0 < n) : StrictMono (tailBound n) :=
  strictMono_nat_of_lt_succ (tailBound_lt_succ hn)

/-- The end of the tail is the size on disk. -/
theorem tailBound_top {n : Nat} (hn : 0 < n) (h : sectorCount n ≤ maxSectorid) :
    tailBound n (tailTop n + 1) = cryptoSize n := by
  rw [cryptoSize_eq hn h, tailBound, tailTop]
  split_ifs with hbig
  · rw [tailOff, tailLen, div_pow_treeDepth, masterauthoff_eq hn]
  · rw [add_zero, add_zero, masterauthoff_eq hn]

theorem placeExtent_apart {n : Nat} (hn : 0 < n) {p q : Place} (hp : p.Valid n)
    (hq : q.Valid n) (hne : p ≠ q) : (placeExtent n p).Apart (placeExtent n q) := by
  have hmono := (tailBound_strictMono hn).monotone
  cases p with
  | body u =>
    cases q with
    | body v =>
      have huv : u ≠ v := fun e => hne (by rw [e])
      simp only [Extent.Apart, placeExtent]
      omega
    | tail j =>
      have h0 : tailBound n 0 ≤ tailBound n j := hmono (Nat.zero_le j)
      simp only [Place.Valid] at hp
      rw [tailBound_zero] at h0
      simp only [Extent.Apart, placeExtent]
      omega
  | tail i =>
    cases q with
    | body v =>
      have h0 : tailBound n 0 ≤ tailBound n i := hmono (Nat.zero_le i)
      simp only [Place.Valid] at hq
      rw [tailBound_zero] at h0
      simp only [Extent.Apart, placeExtent]
      omega
    | tail j =>
      have hij : i ≠ j := fun e => hne (by rw [e])
      have hi := tailBound_lt_succ hn i
      have hj := tailBound_lt_succ hn j
      simp only [Extent.Apart, placeExtent]
      rcases Nat.lt_or_gt_of_ne hij with hlt | hgt
      · have := hmono (by omega : i + 1 ≤ j)
        omega
      · have := hmono (by omega : j + 1 ≤ i)
        omega

theorem exists_tail_contains {n : Nat} (k p : Nat) (h0 : tailBound n 0 ≤ p)
    (hk : p < tailBound n (k + 1)) : ∃ j, j ≤ k ∧ (placeExtent n (.tail j)).Contains p := by
  induction k with
  | zero =>
    refine ⟨0, le_refl _, ?_⟩
    simp only [Extent.Contains, placeExtent]
    omega
  | succ k ih =>
    rcases Nat.lt_or_ge p (tailBound n (k + 1)) with hlt | hge
    · obtain ⟨j, hj, hc⟩ := ih hlt
      exact ⟨j, by omega, hc⟩
    · refine ⟨k + 1, le_refl _, ?_⟩
      simp only [Extent.Contains, placeExtent]
      omega

/-- The valid places cover exactly the bytes of the file. -/
theorem place_cover {n : Nat} (hn : 0 < n) (h : sectorCount n ≤ maxSectorid) (p : Nat) :
    (∃ q : Place, q.Valid n ∧ (placeExtent n q).Contains p) ↔ p < cryptoSize n := by
  have hmono := (tailBound_strictMono hn).monotone
  rw [← tailBound_top hn h]
  constructor
  · rintro ⟨q, hq, hc⟩
    cases q with
    | body u =>
      have h0 : tailBound n 0 ≤ tailBound n (tailTop n + 1) := hmono (Nat.zero_le _)
      simp only [Place.Valid] at hq
      rw [tailBound_zero] at h0
      simp only [Extent.Contains, placeExtent] at hc
      omega
    | tail j =>
      have h1 := hmono (by simp only [Place.Valid] at hq; omega : j + 1 ≤ tailTop n + 1)
      have h2 := tailBound_lt_succ hn j
      simp only [Extent.Contains, placeExtent] at hc
      omega
  · intro hp
    rcases Nat.lt_or_ge p (tailBound n 0) with hlt | hge
    · refine ⟨.body (p / 4096), ?_, ?_⟩
      · rw [tailBound_zero] at hlt
        simp only [Place.Valid]
        omega
      · simp only [Extent.Contains, placeExtent]
        omega
    · obtain ⟨j, hj, hc⟩ := exists_tail_contains _ p hge hp
      exact ⟨.tail j, hj, hc⟩

/-! ## Parts sit at their places -/

theorem partExtent_eq {n : Nat} (hn : 0 < n) (h : sectorCount n ≤ maxSectorid) {p : Part}
    (hp : p ∈ fileParts n) : partExtent n p = placeExtent n (partPlace n p) := by
  have hm := lastSector_lt hn h
  have hdepth : treeDepth (lastSector n) ≤ 5 := treeDepth_le (by omega)
  cases p with
  | data s =>
    simp only [partExtent, partPlace, getLastSectoridBySize_eq hn h, dataOffsetBySectorid_eq,
      sectorSize_eq]
    split_ifs with hs
    · simp only [placeExtent, tailBound, tailOff, dataEnd, lastSectorLen, hs, Extent.mk.injEq,
        true_and]
      omega
    · rfl
  | auth level id =>
    rw [mem_fileParts_auth, treelevels_eq hn h, lastAuthId_eq hn h] at hp
    simp only [partExtent, partPlace, lastAuthId_eq hn h, sectorSize_eq]
    split_ifs with hid
    · rw [lastOff_eq hn h hp.1.le, lastLen_eq hn h hp.1]
      simp only [placeExtent, tailBound, tailOff, Extent.mk.injEq, true_and]
      omega
    · have hlt : lastSector n / 128 ^ (level + 1) ≤ lastSector n / 128 := by
        apply Nat.div_le_div_left _ (by decide)
        exact Nat.le_self_pow (by omega) 128
      rw [authOffset_eq (by omega) (by omega)]
      rfl
  | master =>
    simp only [partExtent, partPlace, placeExtent, tailBound, tailOff, tailLen,
      masterauthoff_tail hn h, div_pow_treeDepth, authSize_eq, Extent.mk.injEq, true_and]
    omega

theorem partPlace_valid {n : Nat} (hn : 0 < n) (h : sectorCount n ≤ maxSectorid) {p : Part}
    (hp : p ∈ fileParts n) : (partPlace n p).Valid n := by
  cases p with
  | data s =>
    rw [mem_fileParts_data, sectorCount_eq hn] at hp
    simp only [partPlace]
    split_ifs with hs
    · simp [Place.Valid]
    · exact leafPos_strictMono (by decide) (by omega)
  | auth level id =>
    rw [mem_fileParts_auth, treelevels_eq hn h, lastAuthId_eq hn h] at hp
    simp only [partPlace]
    split_ifs with hid
    · simp only [Place.Valid, tailTop]
      omega
    · refine nodePos_lt (by decide) ?_
      have hlt : id + 1 ≤ lastSector n / 128 ^ (level + 1) := by omega
      calc 128 ^ (level + 1) * (id + 1)
          ≤ 128 ^ (level + 1) * (lastSector n / 128 ^ (level + 1)) := Nat.mul_le_mul_left _ hlt
        _ ≤ lastSector n := Nat.mul_div_le _ _
  | master =>
    rw [mem_fileParts_master, needmasterauth_eq n h, decide_eq_true_eq] at hp
    simp [partPlace, Place.Valid, tailTop, hp]

theorem partPlace_injective {n : Nat} (hn : 0 < n) (h : sectorCount n ≤ maxSectorid)
    {p q : Part} (hp : p ∈ fileParts n) (hq : q ∈ fileParts n)
    (heq : partPlace n p = partPlace n q) : p = q := by
  have hleaf := (leafPos_strictMono (b := 128) (by decide)).injective
  cases p with
  | data s =>
    cases q with
    | data t =>
      simp only [partPlace] at heq
      split_ifs at heq with h1 h2 h2
      · rw [h1, h2]
      · rw [hleaf (Place.body.inj heq)]
    | auth level id =>
      simp only [partPlace] at heq
      split_ifs at heq with h1 h2 h2
      · exact absurd (Place.tail.inj heq) (by omega)
      · exact absurd (Place.body.inj heq) (leafPos_ne_nodePos (by decide) _ _ _)
    | master =>
      simp only [partPlace] at heq
      split_ifs at heq
      exact absurd (Place.tail.inj heq) (by omega)
  | auth level id =>
    rw [mem_fileParts_auth, treelevels_eq hn h] at hp
    cases q with
    | data t =>
      simp only [partPlace] at heq
      split_ifs at heq with h1 h2 h2
      · exact absurd (Place.tail.inj heq) (by omega)
      · exact absurd (Place.body.inj heq).symm (leafPos_ne_nodePos (by decide) _ _ _)
    | auth level' id' =>
      simp only [partPlace] at heq
      split_ifs at heq with h1 h2 h2
      · have hl : level = level' := by simpa using Place.tail.inj heq
        rw [h1, h2, hl]
      · obtain ⟨hl, hid⟩ := nodePos_injective (by decide) (Place.body.inj heq)
        rw [hl, hid]
    | master =>
      simp only [partPlace] at heq
      split_ifs at heq
      exact absurd (Place.tail.inj heq) (by omega)
  | master =>
    cases q with
    | data t =>
      simp only [partPlace] at heq
      split_ifs at heq
      exact absurd (Place.tail.inj heq) (by omega)
    | auth level' id' =>
      rw [mem_fileParts_auth, treelevels_eq hn h] at hq
      simp only [partPlace] at heq
      split_ifs at heq
      exact absurd (Place.tail.inj heq) (by omega)
    | master => rfl

theorem exists_part_of_place {n : Nat} (hn : 0 < n) (h : sectorCount n ≤ maxSectorid)
    {q : Place} (hq : q.Valid n) : ∃ p ∈ fileParts n, partPlace n p = q := by
  cases q with
  | body u =>
    rcases (lt_leafPos_iff (by decide) _ _).mp hq with ⟨t, ht, rfl⟩ | ⟨l, id, hle, rfl⟩
    · refine ⟨.data t, mem_fileParts_data.mpr ?_, ?_⟩
      · rw [sectorCount_eq hn]
        omega
      · simp [partPlace, Nat.ne_of_lt ht]
    · have hid : id + 1 ≤ lastSector n / 128 ^ (l + 1) := by
        rw [Nat.le_div_iff_mul_le (Nat.pow_pos (by decide)), mul_comm]
        exact hle
      have hl : l + 1 < treeDepth (lastSector n) :=
        (one_le_div_pow_iff (by omega)).mp (by omega)
      refine ⟨.auth l id, mem_fileParts_auth.mpr ?_, ?_⟩
      · rw [treelevels_eq hn h, lastAuthId_eq hn h]
        omega
      · have hne : id ≠ lastSector n / 128 ^ (l + 1) := by omega
        exact if_neg hne
  | tail j =>
    simp only [Place.Valid, tailTop] at hq
    cases j with
    | zero =>
      refine ⟨.data (lastSector n), mem_fileParts_data.mpr ?_, ?_⟩
      · rw [sectorCount_eq hn]
        omega
      · simp [partPlace]
    | succ l =>
      rcases Nat.lt_or_ge l (treeDepth (lastSector n)) with hl | hl
      · refine ⟨.auth l (lastSector n / 128 ^ (l + 1)), mem_fileParts_auth.mpr ?_, ?_⟩
        · rw [treelevels_eq hn h, lastAuthId_eq hn h]
          omega
        · simp [partPlace]
      · have hbig : 4096 < n := by
          by_contra hsmall
          simp only [hsmall, if_false] at hq
          omega
        simp only [hbig, if_true] at hq
        refine ⟨.master, mem_fileParts_master.mpr ?_, ?_⟩
        · rw [needmasterauth_eq n h]
          simpa using hbig
        · simp only [partPlace, Place.tail.injEq]
          omega

/-! ## Tiling -/

theorem partExtent_apart {n : Nat} (hn : 0 < n) (h : sectorCount n ≤ maxSectorid)
    {p q : Part} (hp : p ∈ fileParts n) (hq : q ∈ fileParts n) (hne : p ≠ q) :
    (partExtent n p).Apart (partExtent n q) := by
  rw [partExtent_eq hn h hp, partExtent_eq hn h hq]
  exact placeExtent_apart hn (partPlace_valid hn h hp) (partPlace_valid hn h hq)
    fun e => hne (partPlace_injective hn h hp hq e)

theorem partExtent_cover {n : Nat} (hn : 0 < n) (h : sectorCount n ≤ maxSectorid) (b : Nat) :
    (∃ p ∈ fileParts n, (partExtent n p).Contains b) ↔ b < cryptoSize n := by
  rw [← place_cover hn h b]
  constructor
  · rintro ⟨p, hp, hc⟩
    exact ⟨partPlace n p, partPlace_valid hn h hp, partExtent_eq hn h hp ▸ hc⟩
  · rintro ⟨q, hq, hc⟩
    obtain ⟨p, hp, rfl⟩ := exists_part_of_place hn h hq
    exact ⟨p, hp, by rw [partExtent_eq hn h hp]; exact hc⟩

/-- The slot of a child lies inside the auth sector that `getAuthSectorOff` names. -/
theorem slot_inside {n s level : Nat} (hn : 0 < n) (h : sectorCount n ≤ maxSectorid)
    (hs : s < sectorCount n) (hl : level < (offsetsByPlainsize n).treelevels) :
    ∃ a, getAuthSectorOff s level (offsetsByPlainsize n) = some a ∧
      partExtent n (.auth level (s / hashTreeSectors ^ (level + 1))) = ⟨a.offset, a.size⟩ ∧
      a.authid = s / hashTreeSectors ^ level % hashTreeSectors ∧
      a.authid * authSize + authSize ≤ a.size := by
  rw [sectorCount_eq hn] at hs
  have hplain : (offsetsByPlainsize n).plainsize = n := by
    rw [offsetsByPlainsize_eq hn h]
    rfl
  have hlast : getLastSectoridBySize (offsetsByPlainsize n).plainsize = lastSector n := by
    rw [hplain, getLastSectoridBySize_eq hn h]
  refine ⟨_, getAuthSectorOff_eq _ s level (by omega), ?_, rfl, ?_⟩
  · simp only [partExtent, lastAuthId_eq hn h, hlast, hashTreeSectors_eq, sectorSize_eq]
    split_ifs <;> rfl
  · rw [treelevels_eq hn h] at hl
    simp only [hlast, authSize_eq, lastLen_eq hn h hl, tailLen]
    split_ifs with heq
    · -- the auth sector is the last of its level: compare with the last child in it
      rw [div_pow_succ, div_pow_succ] at heq
      have hle : s / 128 ^ level ≤ lastSector n / 128 ^ level := Nat.div_le_div_right (by omega)
      omega
    · omega

/-- The record of the top auth sector is the master record. -/
theorem slot_top {n s : Nat} (hn : 0 < n) (h : sectorCount n ≤ maxSectorid)
    (hs : s < sectorCount n) :
    getAuthSectorOff s (offsetsByPlainsize n).treelevels (offsetsByPlainsize n) =
      some ⟨(offsetsByPlainsize n).masterauthoff, authSize, 0⟩ := by
  rw [sectorCount_eq hn] at hs
  have hplain : (offsetsByPlainsize n).plainsize = n := by
    rw [offsetsByPlainsize_eq hn h]
    rfl
  have hlast : getLastSectoridBySize (offsetsByPlainsize n).plainsize = lastSector n := by
    rw [hplain, getLastSectoridBySize_eq hn h]
  have hz : s / 128 ^ treeDepth (lastSector n) = 0 :=
    Nat.div_eq_of_lt (lt_of_le_of_lt (by omega) (lt_pow_treeDepth _))
  rw [getAuthSectorOff_eq _ s _ (by omega), hlast, treelevels_eq hn h, div_pow_succ,
    div_pow_succ, hz, div_pow_treeDepth, lastLen_top hn h, lastOff_eq hn h (le_refl _),
    masterauthoff_tail hn h]
  rfl

/-- **Encrypted layout tiling.**  The parts of a non-empty file are pairwise apart and
cover exactly the bytes below `cryptoSize n`, and the record of every child sits in a
slot of its parent auth sector, which is one of the parts; the record of the top auth
sector is the master record. -/
theorem file_parts_tile (n : Nat) (hn : 1 ≤ n) (h : sectorCount n ≤ maxSectorid) :
    ((fileParts n).map (partExtent n)).Pairwise Extent.Apart ∧
      (∀ b, (∃ e ∈ (fileParts n).map (partExtent n), e.Contains b) ↔ b < cryptoSize n) ∧
      (∀ s < sectorCount n, ∀ level < (offsetsByPlainsize n).treelevels,
        ∃ a, getAuthSectorOff s level (offsetsByPlainsize n) = some a ∧
          Part.auth level (s / hashTreeSectors ^ (level + 1)) ∈ fileParts n ∧
          partExtent n (.auth level (s / hashTreeSectors ^ (level + 1))) = ⟨a.offset, a.size⟩ ∧
          a.authid = s / hashTreeSectors ^ level % hashTreeSectors ∧
          a.authid * authSize + authSize ≤ a.size) ∧
      ∀ s < sectorCount n,
        getAuthSectorOff s (offsetsByPlainsize n).treelevels (offsetsByPlainsize n) =
          some ⟨(offsetsByPlainsize n).masterauthoff, authSize, 0⟩ := by
  refine ⟨?_, ?_, ?_, fun s hs => slot_top hn h hs⟩
  · rw [List.pairwise_map]
    exact (nodup_fileParts n).imp_of_mem fun hp hq hne => partExtent_apart hn h hp hq hne
  · intro b
    rw [← partExtent_cover hn h b]
    simp
  · intro s hs level hl
    obtain ⟨a, h1, h2, h3, h4⟩ := slot_inside hn h hs hl
    refine ⟨a, h1, mem_fileParts_auth.mpr ⟨hl, ?_⟩, h2, h3, h4⟩
    rw [sectorCount_eq hn] at hs
    rw [lastAuthId_eq hn h, hashTreeSectors_eq]
    exact Nat.div_le_div_right (by omega)

/-- A file of 130 sectors, the last one short. -/
theorem file_parts_tile_two_levels :
    1 ≤ 528485 ∧ sectorCount 528485 ≤ maxSectorid ∧
      ((fileParts 528485).map (partExtent 528485)).Pairwise Extent.Apart := by
  have hcount : sectorCount 528485 ≤ maxSectorid := by decide
  exact ⟨by decide, hcount, (file_parts_tile 528485 (by decide) hcount).1⟩

end PcloudClient.FsCrypto
