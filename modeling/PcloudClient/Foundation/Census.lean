/-
  Foundation/Census.lean --- how many members of a family have a property, and what that number
  becomes when one member changes.

  The family may be infinite; only the number of members with the property is finite.
-/
import Mathlib.Data.Set.Card
import Mathlib.Logic.Function.Basic

set_option autoImplicit false

namespace PcloudClient

variable {ι α : Type} {P : α → Bool} {f : ι → α} {n m : Nat}

/-- `n` members of the family `f` have the property `P`. -/
def Census (P : α → Bool) (f : ι → α) (n : Nat) : Prop :=
  {i | P (f i) = true}.encard = (n : ℕ∞)

namespace Census

theorem of_none (h : ∀ i, P (f i) = false) : Census P f 0 := by
  have hempty : {i | P (f i) = true} = ∅ := by
    ext i
    simp [h i]
  unfold Census
  rw [hempty]
  simp

theorem congr {g : ι → α} (h : Census P f n) (heq : ∀ i, P (g i) = P (f i)) : Census P g n := by
  have hset : {i | P (g i) = true} = {i | P (f i) = true} := by
    ext i
    simp [heq i]
  rw [Census, hset]
  exact h

theorem eq (h : Census P f n) (h' : Census P f m) : n = m := by
  have hcast : (n : ℕ∞) = (m : ℕ∞) := h.symm.trans h'
  exact_mod_cast hcast

theorem pos (h : Census P f n) {i : ι} (hi : P (f i) = true) : 0 < n := by
  rcases Nat.eq_zero_or_pos n with hn | hn
  · subst hn
    have hempty : {i | P (f i) = true} = ∅ := Set.encard_eq_zero.mp h
    exact absurd (show i ∈ {i | P (f i) = true} from hi) (by rw [hempty]; simp)
  · exact hn

theorem none_of_zero (h : Census P f 0) (i : ι) : P (f i) = false := by
  by_contra hi
  exact absurd (h.pos (show P (f i) = true by simpa using hi)) (by omega)

theorem exists_of_pos (h : Census P f n) (hn : 0 < n) : ∃ i, P (f i) = true := by
  by_contra hno
  have hnone : ∀ i, P (f i) = false := by
    intro i
    by_contra hi
    exact hno ⟨i, by simpa using hi⟩
  have hzero : (0 : ℕ∞) = (n : ℕ∞) := by
    rw [← h]
    exact (of_none hnone).symm
  have : n = 0 := by exact_mod_cast hzero.symm
  omega

theorem unique (h : Census P f n) (hn : n ≤ 1) {i j : ι} (hi : P (f i) = true)
    (hj : P (f j) = true) : i = j := by
  have hle : {i | P (f i) = true}.encard ≤ 1 := by
    rw [h]
    exact_mod_cast hn
  exact Set.encard_le_one_iff.mp hle i j hi hj

/-- A member counts for one or for nothing beside the others. -/
theorem encard_split (P : α → Bool) (f : ι → α) (i : ι) :
    {j | P (f j) = true}.encard = ({j | P (f j) = true} \ {i}).encard + (P (f i)).toNat := by
  cases hi : P (f i) with
  | true =>
    have hmem : i ∈ {j | P (f j) = true} := hi
    rw [← Set.encard_sdiff_singleton_add_one hmem]
    simp
  | false =>
    have hmem : i ∉ {j | P (f j) = true} := by simp [hi]
    rw [Set.sdiff_singleton_eq_self hmem]
    simp

variable [DecidableEq ι]

/-- The members with the property besides `i` do not change with `i`. -/
theorem update_diff (P : α → Bool) (f : ι → α) (i : ι) (v : α) :
    {j | P (Function.update f i v j) = true} \ {i} = {j | P (f j) = true} \ {i} := by
  ext j
  simp only [Set.mem_sdiff, Set.mem_ofPred_eq, Set.mem_singleton_iff]
  constructor
  · rintro ⟨hj, hne⟩
    rw [Function.update_of_ne hne] at hj
    exact ⟨hj, hne⟩
  · rintro ⟨hj, hne⟩
    rw [Function.update_of_ne hne]
    exact ⟨hj, hne⟩

/-- One member changes: the number changes by what the member counted before and counts now. -/
theorem update (h : Census P f n) (i : ι) (v : α)
    (hm : n + (P v).toNat = m + (P (f i)).toNat) : Census P (Function.update f i v) m := by
  have hnew := encard_split P (Function.update f i v) i
  have hold := encard_split P f i
  rw [update_diff, Function.update_self] at hnew
  rw [h] at hold
  have hfin : ({j | P (f j) = true} \ {i}).encard ≠ ⊤ := by
    intro htop
    rw [htop, top_add] at hold
    exact absurd hold (ENat.natCast_ne_top n)
  obtain ⟨k, hk⟩ := ENat.ne_top_iff_exists.mp hfin
  rw [← hk] at hnew hold
  have hn : n = k + (P (f i)).toNat := by exact_mod_cast hold
  unfold Census
  rw [hnew]
  have hsum : k + (P v).toNat = m := by omega
  exact_mod_cast hsum

end Census

end PcloudClient
