/-
  FsCrypto/AuthTreeProofs.lean --- what the tree of auth sectors takes in the log.

  The bytes that the loop over the changed sectors appends, by the recursion of the loop
  itself, and the sizes of what it keeps on its path.
-/
import PcloudClient.Crypto.SectorProofs
import PcloudClient.FsCrypto.Layout
import PcloudClient.FsCrypto.LogRecords

set_option autoImplicit false

namespace PcloudClient.FsCrypto

/-! ## How many bytes the tree takes in the log -/

/-- Bytes appended by `switchWriteLoop`. -/
def switchWriteBytes (offsets : Offsets) (level oldsecd newsecd sizesecd : Nat) : Nat :=
  (authSectorPlace offsets level oldsecd sizesecd).2 + LogHeader.size +
    if _h : oldsecd / hashTreeSectors ≠ newsecd / hashTreeSectors ∧
        level + 1 < offsets.treelevels then
      switchWriteBytes offsets (level + 1) (oldsecd / hashTreeSectors)
        (newsecd / hashTreeSectors) (sizesecd / hashTreeSectors)
    else 0
termination_by offsets.treelevels - level

/-- Bytes appended by `switchSectors`. -/
def switchBytes (offsets : Offsets) (oldsectorid newsectorid : Nat) : Nat :=
  if oldsectorid ≠ invalidSectorid then
    switchWriteBytes offsets 0 (oldsectorid / hashTreeSectors) (newsectorid / hashTreeSectors)
      (getLastSectoridBySize offsets.plainsize / hashTreeSectors)
  else 0

/-- Bytes appended by `writeAuthTreeToLog` from the sector after `lastsect` on. -/
def treeLoopBytes (offsets : Offsets) : List Nat → (lastsect : Nat) → Nat
  | [], lastsect =>
    switchBytes offsets lastsect invalidSectorid +
      if offsets.needmasterauth then LogHeader.size + authSize else 0
  | s :: rest, lastsect =>
    (if lastsect / hashTreeSectors ≠ s / hashTreeSectors then switchBytes offsets lastsect s
      else 0) + treeLoopBytes offsets rest s

/-- Bytes appended by `writeAuthTreeToLog` for the given sectors. -/
def treeBytes (offsets : Offsets) (sectors : List Nat) : Nat :=
  treeLoopBytes offsets sectors invalidSectorid

/-! ## Slots of the path -/

theorem Env.length_sign (env : Env) (b : Bytes) : (env.sign b).length = 32 :=
  env.encoder.length_encode2BlocksConsec _

/-- All auth sectors of the path have their full size. -/
def FullArr (autharr : AuthArr) : Prop := ∀ l, (autharr l).length = 4096

theorem setSlot_other {arr : AuthArr} {l l' i : Nat} {a : Bytes} (hne : l' ≠ l) :
    arr.setSlot l i a l' = arr l' :=
  Function.update_of_ne hne _ _

theorem FullArr.setSlot {arr : AuthArr} (h : FullArr arr) {l i : Nat} {a : Bytes}
    (ha : a.length = 32) (hi : i < 128) : FullArr (arr.setSlot l i a) := by
  intro l'
  by_cases hl : l' = l
  · subst hl
    have hlen := h l'
    rw [AuthArr.setSlot, Function.update_self, authSize_eq,
      File.length_pwrite_of_le (by omega), hlen]
  · rw [setSlot_other hl]
    exact h l'

/-! ## Paths -/

theorem peeledSize_le (n m l : Nat) : peeledSize n m l ≤ n + 32 * l * (m + 1) := by
  induction l with
  | zero => simp [peeledSize]
  | succ l ih =>
    have hq : m / 128 ^ l ≤ m := Nat.div_le_self _ _
    calc peeledSize n m (l + 1) = peeledSize n m l + 32 * (m / 128 ^ l + 1) := rfl
      _ ≤ n + 32 * l * (m + 1) + 32 * (m + 1) := by omega
      _ = n + 32 * (l + 1) * (m + 1) := by ring

/-- Offsets in an encrypted file fit their 64-bit field. -/
theorem cryptoSize_lt_pow {n : Nat} (h : sectorCount n ≤ maxSectorid) : cryptoSize n < 2 ^ 60 := by
  rcases Nat.eq_zero_or_pos n with rfl | hn
  · decide
  · have hm := lastSector_lt hn h
    have hdepth : treeDepth (lastSector n) ≤ 5 := treeDepth_le (by omega)
    have hpeel := peeledSize_le n (lastSector n) (treeDepth (lastSector n))
    have hmul : 32 * treeDepth (lastSector n) * (lastSector n + 1) ≤ 32 * 5 * 2 ^ 32 :=
      Nat.mul_le_mul (by omega) (by omega)
    have hlen := lastSectorLen_bounds hn
    rw [cryptoSize_eq hn h]
    split_ifs <;> omega

end PcloudClient.FsCrypto
