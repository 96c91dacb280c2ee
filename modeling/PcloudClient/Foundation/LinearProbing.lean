/-
  Foundation/LinearProbing.lean --- hash tables with linear probing.

  A table has `n` slots in a circle, and an empty slot has the value 0.  A value is looked for from
  its home slot on, up to an empty slot.  So no slot between the home of a value and the slot that
  it is in may be empty; deleting moves later values back into the slot that got empty.
-/
import Mathlib.Data.Finset.Card
import Mathlib.Logic.Function.Basic
import Mathlib.Tactic.SplitIfs

set_option autoImplicit false

namespace PcloudClient.Foundation.LinearProbing

variable {α : Type} {n : Nat}

/-! ## The circle -/

/-- The slot behind `o`. -/
def next (n o : Nat) : Nat := if n ≤ o + 1 then 0 else o + 1

/-- How many steps it is from `a` to `b`. -/
def dist (n a b : Nat) : Nat := if a ≤ b then b - a else b + n - a

variable {a b m o s z : Nat}

theorem next_lt (h : o < n) : next n o < n := by
  unfold next
  split_ifs <;> omega

@[simp] theorem dist_self (n a : Nat) : dist n a a = 0 := by
  simp [dist]

theorem dist_lt (ha : a < n) (hb : b < n) : dist n a b < n := by
  unfold dist
  split_ifs <;> omega

theorem dist_pos (ha : a < n) (hne : a ≠ b) : 0 < dist n a b := by
  unfold dist
  split_ifs <;> omega

theorem dist_inj (hb : b < n) (hm : m < n) (ha : a < n) (h : dist n a b = dist n a m) : b = m := by
  unfold dist at h
  split_ifs at h <;> omega

/-- One step towards `m`. -/
theorem dist_next (ho : o < n) (hm : m < n) (hne : m ≠ o) :
    dist n o m = dist n (next n o) m + 1 := by
  unfold dist next
  split_ifs <;> omega

/-- One step away from `z`. -/
theorem dist_next_right (hz : z < n) (ho : o < n) (hne : next n o ≠ z) :
    dist n z (next n o) = dist n z o + 1 := by
  unfold next at hne ⊢
  unfold dist
  split_ifs at hne ⊢ <;> omega

/-- A slot nearer to a slot on the way is on the way itself. -/
theorem dist_lt_of_between (ha : a < n) (hb : b < n) (hm : m < n)
    (h : dist n a m < dist n a b) (hlt : dist n m s < dist n m b) :
    dist n a s < dist n a b := by
  unfold dist at h hlt ⊢
  split_ifs at h hlt ⊢ <;> omega

/-! ## Searching -/

/-- The first slot from `o` on where the search stops. -/
def walk (n : Nat) (stop : Nat → Bool) : Nat → Nat → Option Nat
  | 0, _ => none
  | fuel + 1, o => if stop o then some o else walk n stop fuel (next n o)

theorem walk_eq_some {stop : Nat → Bool} {fuel : Nat} (ho : o < n)
    (h : walk n stop fuel o = some s) :
    s < n ∧ stop s = true ∧ ∀ m < n, dist n o m < dist n o s → stop m = false := by
  induction fuel generalizing o with
  | zero => exact absurd h (by simp [walk])
  | succ fuel ih =>
    unfold walk at h
    split at h
    · next hstop =>
      obtain rfl := Option.some.inj h
      refine ⟨ho, hstop, fun m _ hm => ?_⟩
      rw [dist_self] at hm
      exact absurd hm (Nat.not_lt_zero _)
    · next hstop =>
      obtain ⟨hs, hstops, hbefore⟩ := ih (next_lt ho) h
      have hso : s ≠ o := by
        rintro rfl
        exact hstop hstops
      refine ⟨hs, hstops, fun m hm hlt => ?_⟩
      rcases eq_or_ne m o with rfl | hmo
      · exact Bool.eq_false_iff.mpr hstop
      · rw [dist_next ho hm hmo, dist_next ho hs hso] at hlt
        exact hbefore m hm (Nat.lt_of_add_lt_add_right hlt)

/-- The search ends when there is a slot to stop at within its reach. -/
theorem exists_walk (stop : Nat → Bool) {fuel : Nat} (ho : o < n) (hm : m < n)
    (hstop : stop m = true) (hfuel : dist n o m < fuel) : ∃ s, walk n stop fuel o = some s := by
  induction fuel generalizing o with
  | zero => exact absurd hfuel (Nat.not_lt_zero _)
  | succ fuel ih =>
    unfold walk
    split
    · exact ⟨o, rfl⟩
    · next hnot =>
      have hmo : m ≠ o := by
        rintro rfl
        exact hnot hstop
      rw [dist_next ho hm hmo] at hfuel
      exact ih (next_lt ho) (Nat.lt_of_add_lt_add_right hfuel)

/-! ## Tables -/

variable [Zero α] {home : α → Nat} {t : Nat → α}

/-- No slot between the home of a value and the slot that it is in is empty. -/
def Reach (n : Nat) (home : α → Nat) (t : Nat → α) : Prop :=
  ∀ s < n, t s ≠ 0 → ∀ m < n, dist n (home (t s)) m < dist n (home (t s)) s → t m ≠ 0

theorem reach_empty : Reach n home fun _ => 0 := fun _ _ hs => absurd rfl hs

/-- A search from the home of the values that it is for stops at one of them, if there is one. -/
theorem Reach.search [DecidableEq α] (h : Reach n home t) {p : α → Bool} {o : Nat} (ho : o < n)
    (hhome : ∀ s < n, t s ≠ 0 → p (t s) = true → home (t s) = o) {e : Nat} (he : e < n)
    (hempty : t e = 0) {fuel : Nat} (hfuel : n ≤ fuel) :
    ∃ s < n, walk n (fun s => decide (t s = 0) || p (t s)) fuel o = some s ∧
      (t s = 0 ∧ (∀ m < n, t m ≠ 0 → p (t m) = false) ∨ t s ≠ 0 ∧ p (t s) = true) := by
  obtain ⟨s, hwalk⟩ := exists_walk (fun s => decide (t s = 0) || p (t s)) ho he
    (by simp [hempty]) ((dist_lt ho he).trans_le hfuel)
  obtain ⟨hs, hstop, hbefore⟩ := walk_eq_some ho hwalk
  refine ⟨s, hs, hwalk, ?_⟩
  by_cases hzero : t s = 0
  · refine Or.inl ⟨hzero, fun m hm hmzero => Bool.eq_false_iff.mpr fun hpm => ?_⟩
    -- the search would have stopped at `m`, or the empty slot would cut `m` off
    have hhm := hhome m hm hmzero hpm
    rcases Nat.lt_trichotomy (dist n o m) (dist n o s) with hlt | heq | hgt
    · have hgo := hbefore m hm hlt
      simp [hpm] at hgo
    · rw [dist_inj hm hs ho heq] at hmzero
      exact hmzero hzero
    · refine h m hm hmzero s hs ?_ hzero
      rw [hhm]
      exact hgt
  · simp only [hzero, decide_false, Bool.false_or] at hstop
    exact Or.inr ⟨hzero, hstop⟩

/-- A value is put in, or takes the place of one with the same home. -/
theorem Reach.insert (h : Reach n home t) {v : α} (hv : v ≠ 0)
    (hway : ∀ m < n, dist n (home v) m < dist n (home v) s → t m ≠ 0) :
    Reach n home (Function.update t s v) := by
  have hkept : ∀ m, t m ≠ 0 → Function.update t s v m ≠ 0 := by
    intro m hm
    rcases eq_or_ne m s with rfl | hms
    · rwa [Function.update_self]
    · rwa [Function.update_of_ne hms]
  intro s' hs' hocc m hm hlt
  rcases eq_or_ne s' s with rfl | hne
  · rw [Function.update_self] at hlt
    exact hkept m (hway m hm hlt)
  · rw [Function.update_of_ne hne] at hocc hlt
    exact hkept m (h s' hs' hocc m hm hlt)

/-! ## Deleting -/

/-- A table with a hole at `z`, while the slots up to `o` have been looked at: only values behind
`o` may have the hole on their way. -/
structure Gap (n : Nat) (home : α → Nat) (t : Nat → α) (z o : Nat) : Prop where
  hole : t z = 0
  hole_lt : z < n
  slot_lt : o < n
  reach : ∀ s < n, t s ≠ 0 → ∀ m < n, dist n (home (t s)) m < dist n (home (t s)) s →
    t m ≠ 0 ∨ m = z ∧ dist n z o < dist n z s

/-- A slot is emptied. -/
theorem Reach.erase (h : Reach n home t) (hz : z < n) :
    Gap n home (Function.update t z 0) z z where
  hole := Function.update_self z 0 t
  hole_lt := hz
  slot_lt := hz
  reach := by
    intro s hs hocc m hm hlt
    have hsz : s ≠ z := by
      rintro rfl
      exact hocc (Function.update_self s 0 t)
    rw [Function.update_of_ne hsz] at hocc hlt
    rcases eq_or_ne m z with rfl | hmz
    · refine Or.inr ⟨rfl, ?_⟩
      rw [dist_self]
      exact dist_pos hz hsz.symm
    · rw [Function.update_of_ne hmz]
      exact Or.inl (h s hs hocc m hm hlt)

/-- The value behind the slots that have been looked at does not have the hole on its way. -/
theorem Gap.keep (h : Gap n home t z o)
    (hway : ¬ dist n (home (t (next n o))) z < dist n (home (t (next n o))) (next n o))
    (hocc : t (next n o) ≠ 0) : Gap n home t z (next n o) where
  hole := h.hole
  hole_lt := h.hole_lt
  slot_lt := next_lt h.slot_lt
  reach := by
    intro s hs hsocc m hm hlt
    rcases h.reach s hs hsocc m hm hlt with hmocc | ⟨rfl, hbehind⟩
    · exact Or.inl hmocc
    · refine Or.inr ⟨rfl, ?_⟩
      have hne : next n o ≠ m := by
        intro heq
        rw [heq] at hocc
        exact hocc h.hole
      have hstep := dist_next_right h.hole_lt h.slot_lt hne
      rcases Nat.lt_or_ge (dist n m (next n o)) (dist n m s) with hgo | hstay
      · exact hgo
      · have heq : next n o = s :=
          dist_inj (next_lt h.slot_lt) hs h.hole_lt (by omega)
        rw [heq] at hway
        exact absurd hlt hway

/-- The value behind has the hole on its way, and moves into it. -/
theorem Gap.move (h : Gap n home t z o)
    (hway : dist n (home (t (next n o))) z < dist n (home (t (next n o))) (next n o))
    (hocc : t (next n o) ≠ 0) :
    Gap n home (Function.update (Function.update t z (t (next n o))) (next n o) 0)
      (next n o) (next n o) where
  hole := Function.update_self _ _ _
  hole_lt := next_lt h.slot_lt
  slot_lt := next_lt h.slot_lt
  reach := by
    have ho' := next_lt h.slot_lt
    intro s hs hsocc m hm hlt
    have hso : s ≠ next n o := by
      rintro rfl
      exact hsocc (Function.update_self _ _ _)
    rcases eq_or_ne m (next n o) with rfl | hmo
    · refine Or.inr ⟨rfl, ?_⟩
      rw [dist_self]
      exact dist_pos ho' hso.symm
    · left
      rw [Function.update_of_ne hmo]
      rcases eq_or_ne m z with rfl | hmz
      · rwa [Function.update_self]
      · rw [Function.update_of_ne hmz]
        rw [Function.update_of_ne hso] at hsocc hlt
        rcases eq_or_ne s z with rfl | hsz
        · rw [Function.update_self] at hlt
          rcases h.reach _ ho' hocc m hm (hlt.trans hway) with hmocc | ⟨rfl, -⟩
          · exact hmocc
          · exact absurd rfl hmz
        · rw [Function.update_of_ne hsz] at hsocc hlt
          rcases h.reach s hs hsocc m hm hlt with hmocc | ⟨rfl, -⟩
          · exact hmocc
          · exact absurd rfl hmz

/-- The next slot is empty. -/
theorem Gap.close (h : Gap n home t z o) (hhome : ∀ s < n, t s ≠ 0 → home (t s) < n)
    (hempty : t (next n o) = 0) : Reach n home t := by
  have ho' := next_lt h.slot_lt
  intro s hs hsocc m hm hlt
  rcases h.reach s hs hsocc m hm hlt with hmocc | ⟨rfl, hbehind⟩
  · exact hmocc
  · exfalso
    have hso : next n o ≠ s := by
      rintro rfl
      exact hsocc hempty
    have hhs := hhome s hs hsocc
    rcases eq_or_ne (next n o) m with heq | hne
    · -- the whole table has been looked at
      have hlast : dist n m o + 1 = n := by
        rw [← heq]
        have hlt' := h.slot_lt
        unfold dist next
        split_ifs <;> omega
      have hmax := dist_lt h.hole_lt hs
      omega
    · have hstep := dist_next_right h.hole_lt h.slot_lt hne
      have hnear : dist n m (next n o) < dist n m s := by
        rcases Nat.lt_or_ge (dist n m (next n o)) (dist n m s) with hgo | hstay
        · exact hgo
        · exact absurd (dist_inj ho' hs h.hole_lt (by omega)) hso
      have hway := dist_lt_of_between hhs hs hm hlt hnear
      rcases h.reach s hs hsocc _ ho' hway with hocc | ⟨heq, -⟩
      · exact hocc hempty
      · exact hne heq

/-! ## Values -/

/-- The value is in a slot. -/
def Holds (n : Nat) (t : Nat → α) (v : α) : Prop := ∃ s < n, t s = v

/-- No value is in two slots. -/
def Single (n : Nat) (t : Nat → α) : Prop := ∀ s < n, ∀ s' < n, t s ≠ 0 → t s = t s' → s = s'

theorem Single.holds_erase (h : Single n t) (hs : s < n) (hocc : t s ≠ 0) {v : α} (hv : v ≠ 0) :
    Holds n (Function.update t s 0) v ↔ Holds n t v ∧ v ≠ t s := by
  constructor
  · rintro ⟨s', hs', rfl⟩
    have hne : s' ≠ s := by
      rintro rfl
      exact hv (Function.update_self _ _ _)
    rw [Function.update_of_ne hne] at hv ⊢
    exact ⟨⟨s', hs', rfl⟩, fun heq => hne (h s' hs' s hs hv heq)⟩
  · rintro ⟨⟨s', hs', rfl⟩, hne⟩
    refine ⟨s', hs', Function.update_of_ne ?_ _ _⟩
    rintro rfl
    exact hne rfl

theorem Single.erase (h : Single n t) : Single n (Function.update t s 0) := by
  intro a ha b hb hocc heq
  have has : a ≠ s := by
    rintro rfl
    exact hocc (Function.update_self _ _ _)
  have hbs : b ≠ s := by
    rintro rfl
    rw [heq] at hocc
    exact hocc (Function.update_self _ _ _)
  rw [Function.update_of_ne has] at hocc heq
  rw [Function.update_of_ne hbs] at heq
  exact h a ha b hb hocc heq

/-- A value that moves into an empty slot is still there, and so are all others. -/
theorem holds_move (hz : z < n) (ho : o < n) (hhole : t z = 0) (hne : z ≠ o) {v : α} (hv : v ≠ 0) :
    Holds n (Function.update (Function.update t z (t o)) o 0) v ↔ Holds n t v := by
  constructor
  · rintro ⟨s, hs, rfl⟩
    have hso : s ≠ o := by
      rintro rfl
      exact hv (Function.update_self _ _ _)
    rw [Function.update_of_ne hso]
    rcases eq_or_ne s z with rfl | hsz
    · rw [Function.update_self]
      exact ⟨o, ho, rfl⟩
    · rw [Function.update_of_ne hsz]
      exact ⟨s, hs, rfl⟩
  · rintro ⟨s, hs, rfl⟩
    have hsz : s ≠ z := by
      rintro rfl
      exact hv hhole
    rcases eq_or_ne s o with rfl | hso
    · refine ⟨z, hz, ?_⟩
      rw [Function.update_of_ne hne, Function.update_self]
    · refine ⟨s, hs, ?_⟩
      rw [Function.update_of_ne hso, Function.update_of_ne hsz]

theorem Single.move (h : Single n t) (ho : o < n) (hhole : t z = 0) :
    Single n (Function.update (Function.update t z (t o)) o 0) := by
  -- where the value of a slot was before
  have hback : ∀ a < n, Function.update (Function.update t z (t o)) o 0 a ≠ 0 →
      a ≠ o ∧ ((a = z ∧ Function.update (Function.update t z (t o)) o 0 a = t o) ∨
        (a ≠ z ∧ Function.update (Function.update t z (t o)) o 0 a = t a)) := by
    intro a _ hocc
    have hao : a ≠ o := by
      rintro rfl
      exact hocc (Function.update_self _ _ _)
    refine ⟨hao, ?_⟩
    rw [Function.update_of_ne hao]
    rcases eq_or_ne a z with rfl | haz
    · exact Or.inl ⟨rfl, Function.update_self _ _ _⟩
    · exact Or.inr ⟨haz, Function.update_of_ne haz _ _⟩
  intro a ha b hb hocc heq
  obtain ⟨hao, hA⟩ := hback a ha hocc
  obtain ⟨hbo, hB⟩ := hback b hb (heq ▸ hocc)
  rcases hA with ⟨haz, hat⟩ | ⟨haz, hat⟩
  · rcases hB with ⟨hbz, -⟩ | ⟨-, hbt⟩
    · rw [haz, hbz]
    · rw [hat] at hocc heq
      exact absurd (h o ho b hb hocc (heq.trans hbt)).symm hbo
  · rcases hB with ⟨-, hbt⟩ | ⟨-, hbt⟩
    · rw [hat] at hocc heq
      exact absurd (h a ha o ho hocc (heq.trans hbt)) hao
    · rw [hat] at hocc heq
      exact h a ha b hb hocc (heq.trans hbt)

/-- Fewer values than slots, each in one slot, leave a slot empty. -/
theorem Single.exists_empty (h : Single n t) (values : Finset α) (hcard : values.card < n)
    (hvalues : ∀ s < n, t s ≠ 0 → t s ∈ values) : ∃ e < n, t e = 0 := by
  by_contra hfull
  have hocc : ∀ s < n, t s ≠ 0 := fun s hs hzero => hfull ⟨s, hs, hzero⟩
  have hle : (Finset.range n).card ≤ values.card := by
    refine Finset.card_le_card_of_injOn t (fun s hs => ?_) fun s hs s' hs' heq => ?_
    · rw [Finset.coe_range, Set.mem_Iio] at hs
      exact hvalues s hs (hocc s hs)
    · rw [Finset.coe_range, Set.mem_Iio] at hs hs'
      exact h s hs s' hs' (hocc s hs) heq
  rw [Finset.card_range] at hle
  omega

end PcloudClient.Foundation.LinearProbing
