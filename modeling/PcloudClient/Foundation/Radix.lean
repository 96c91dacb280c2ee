/-
  Foundation/Radix.lean --- post-order placement of a `b`-ary tree over a growing
  row of leaves.

  Leaves are written one after the other.  As soon as `b` siblings of one level
  are complete, their parent is written right behind them, and so on upwards.
  `leafPos b s` is the place of leaf `s` in that sequence and `nodePos b l id`
  the place of the inner node `id` of level `l` (level `0` is the level right
  above the leaves).  The module proves that these places are all different and
  that they fill an initial segment without holes.
-/
import Mathlib.Data.Nat.Log
import Mathlib.Tactic.Ring
import Mathlib.Tactic.Linarith

set_option autoImplicit false

namespace PcloudClient.Radix

/-- Place of leaf `s`: the leaves before it and the inner nodes completed before it. -/
def leafPos (b s : Nat) : Nat :=
  if _h : 2 ≤ b ∧ b ≤ s then s + leafPos b (s / b) else s
termination_by s
decreasing_by exact Nat.div_lt_self (by omega) (by omega)

/-- Place of inner node `id` of level `l`: behind the last leaf below it and the
`l` smaller nodes that end there too. -/
def nodePos (b l id : Nat) : Nat :=
  leafPos b (b ^ (l + 1) * (id + 1) - 1) + 1 + l

variable {b : Nat}

@[simp] theorem leafPos_zero : leafPos b 0 = 0 := by
  rw [leafPos]
  exact dif_neg (by omega)

theorem leafPos_eq (hb : 2 ≤ b) (s : Nat) : leafPos b s = s + leafPos b (s / b) := by
  rw [leafPos]
  by_cases h : b ≤ s
  · simp [hb, h]
  · have hdiv : s / b = 0 := Nat.div_eq_of_lt (by omega)
    simp [h, hdiv]

theorem leafPos_le_two_mul (hb : 2 ≤ b) (s : Nat) : leafPos b s ≤ 2 * s := by
  induction s using Nat.strong_induction_on with
  | _ s ih =>
    rw [leafPos_eq hb s]
    rcases Nat.eq_zero_or_pos s with rfl | hs
    · simp
    · have hlt : s / b < s := Nat.div_lt_self hs (by omega)
      have hhalf : s / b ≤ s / 2 := Nat.div_le_div_left hb (by decide)
      have := ih _ hlt
      omega

/-- From leaf `m - 1` to leaf `m` the sequence holds leaf `m - 1` itself and one
inner node for every level whose last group ends there. -/
theorem leafPos_step (hb : 2 ≤ b) (m : Nat) (hm : 0 < m) :
    ∃ w, leafPos b m = leafPos b (m - 1) + 1 + w ∧ ∀ l, b ^ (l + 1) ∣ m ↔ l < w := by
  induction m using Nat.strong_induction_on with
  | _ m ih =>
    have hb0 : 0 < b := by omega
    by_cases hdvd : b ∣ m
    · obtain ⟨k, rfl⟩ := hdvd
      have hk : 0 < k := Nat.pos_of_mul_pos_left hm
      have hlt : k < b * k := by nlinarith
      obtain ⟨w, hw, hdiv⟩ := ih k hlt hk
      have hpred : (b * k - 1) / b = k - 1 := by
        obtain ⟨j, rfl⟩ : ∃ j, k = j + 1 := ⟨k - 1, by omega⟩
        have : b * (j + 1) - 1 = (b - 1) + b * j := by
          have : b * (j + 1) = b * j + b := by ring
          omega
        rw [this, Nat.add_mul_div_left _ _ hb0, Nat.div_eq_of_lt (by omega)]
        omega
      refine ⟨w + 1, ?_, ?_⟩
      · rw [leafPos_eq hb (b * k), leafPos_eq hb (b * k - 1), hpred,
          Nat.mul_div_cancel_left _ hb0, hw]
        omega
      · intro l
        cases l with
        | zero => simp
        | succ l =>
          rw [pow_succ' b (l + 1), Nat.mul_dvd_mul_iff_left hb0, hdiv l]
          omega
    · have hpred : (m - 1) / b = m / b := by
        have hmod : m % b ≠ 0 := fun h => hdvd (Nat.dvd_of_mod_eq_zero h)
        have hsplit := Nat.div_add_mod m b
        have hlt := Nat.mod_lt m hb0
        have : m - 1 = (m % b - 1) + b * (m / b) := by omega
        rw [this, Nat.add_mul_div_left _ _ hb0, Nat.div_eq_of_lt (by omega)]
        omega
      refine ⟨0, ?_, ?_⟩
      · rw [leafPos_eq hb m, leafPos_eq hb (m - 1), hpred]
        omega
      · intro l
        constructor
        · intro h
          exact absurd (Dvd.dvd.trans (dvd_pow_self b (by omega)) h) hdvd
        · intro h
          omega

theorem leafPos_lt_succ (hb : 2 ≤ b) (s : Nat) : leafPos b s < leafPos b (s + 1) := by
  obtain ⟨w, hw, -⟩ := leafPos_step hb (s + 1) (by omega)
  simp only [Nat.add_sub_cancel] at hw
  omega

theorem leafPos_strictMono (hb : 2 ≤ b) : StrictMono (leafPos b) :=
  strictMono_nat_of_lt_succ (leafPos_lt_succ hb)

/-- The nodes ending with leaf `m - 1` lie strictly between leaf `m - 1` and leaf `m`. -/
theorem nodePos_between (hb : 2 ≤ b) (l id : Nat) :
    leafPos b (b ^ (l + 1) * (id + 1) - 1) < nodePos b l id ∧
      nodePos b l id < leafPos b (b ^ (l + 1) * (id + 1)) := by
  have hpos : 0 < b ^ (l + 1) * (id + 1) := by positivity
  obtain ⟨w, hw, hdiv⟩ := leafPos_step hb _ hpos
  have hl : l < w := (hdiv l).mp (Dvd.intro _ rfl)
  unfold nodePos
  omega

/-- A node stands right behind its last child. -/
theorem nodePos_succ (hb : 2 ≤ b) (l id : Nat) :
    nodePos b (l + 1) id = nodePos b l (b * (id + 1) - 1) + 1 := by
  have hpos : 0 < b * (id + 1) := by positivity
  have h : b ^ (l + 1) * (b * (id + 1) - 1 + 1) = b ^ (l + 1 + 1) * (id + 1) := by
    rw [Nat.sub_add_cancel hpos]
    ring
  unfold nodePos
  rw [h]
  omega

theorem leafPos_ne_nodePos (hb : 2 ≤ b) (s l id : Nat) : leafPos b s ≠ nodePos b l id := by
  intro h
  obtain ⟨h1, h2⟩ := nodePos_between hb l id
  rw [← h] at h1 h2
  have h3 := (leafPos_strictMono hb).lt_iff_lt.mp h1
  have h4 := (leafPos_strictMono hb).lt_iff_lt.mp h2
  omega

theorem nodePos_injective (hb : 2 ≤ b) {l id l' id' : Nat}
    (h : nodePos b l id = nodePos b l' id') : l = l' ∧ id = id' := by
  have hpos : 0 < b ^ (l + 1) * (id + 1) := by positivity
  have hpos' : 0 < b ^ (l' + 1) * (id' + 1) := by positivity
  obtain ⟨h1, h2⟩ := nodePos_between hb l id
  obtain ⟨h1', h2'⟩ := nodePos_between hb l' id'
  rw [h] at h1 h2
  -- both nodes end with the same leaf, so they sit in the same gap between leaves
  have h3 := (leafPos_strictMono hb).lt_iff_lt.mp (lt_trans h1 h2')
  have h4 := (leafPos_strictMono hb).lt_iff_lt.mp (lt_trans h1' h2)
  have hend : b ^ (l + 1) * (id + 1) = b ^ (l' + 1) * (id' + 1) := by omega
  have hl : l = l' := by
    unfold nodePos at h
    rw [hend] at h
    omega
  subst hl
  refine ⟨rfl, ?_⟩
  have := Nat.eq_of_mul_eq_mul_left (Nat.pow_pos (by omega)) hend
  omega

theorem nodePos_lt (hb : 2 ≤ b) {l id s : Nat} (h : b ^ (l + 1) * (id + 1) ≤ s) :
    nodePos b l id < leafPos b s :=
  lt_of_lt_of_le (nodePos_between hb l id).2 ((leafPos_strictMono hb).monotone h)

/-- The leaves before `s` and the nodes completed by them fill exactly the places
before leaf `s`. -/
theorem lt_leafPos_iff (hb : 2 ≤ b) (s u : Nat) :
    u < leafPos b s ↔
      (∃ t, t < s ∧ u = leafPos b t) ∨
        ∃ l id, b ^ (l + 1) * (id + 1) ≤ s ∧ u = nodePos b l id := by
  constructor
  · induction s with
    | zero => simp
    | succ s ih =>
      intro hu
      obtain ⟨w, hw, hdiv⟩ := leafPos_step hb (s + 1) (by omega)
      simp only [Nat.add_sub_cancel] at hw
      rcases Nat.lt_trichotomy u (leafPos b s) with hlt | heq | hgt
      · rcases ih hlt with ⟨t, ht, rfl⟩ | ⟨l, id, hle, rfl⟩
        · exact Or.inl ⟨t, by omega, rfl⟩
        · exact Or.inr ⟨l, id, by omega, rfl⟩
      · exact Or.inl ⟨s, by omega, heq⟩
      · have hl : u - leafPos b s - 1 < w := by omega
        obtain ⟨k, hk⟩ := (hdiv _).mpr hl
        have hkpos : 0 < k := by
          rcases Nat.eq_zero_or_pos k with rfl | h
          · simp at hk
          · exact h
        refine Or.inr ⟨u - leafPos b s - 1, k - 1, ?_, ?_⟩
        · rw [Nat.sub_add_cancel hkpos, ← hk]
        · unfold nodePos
          rw [Nat.sub_add_cancel hkpos, ← hk]
          simp only [Nat.add_sub_cancel]
          omega
  · rintro (⟨t, ht, rfl⟩ | ⟨l, id, hle, rfl⟩)
    · exact leafPos_strictMono hb ht
    · exact nodePos_lt hb hle

end PcloudClient.Radix
