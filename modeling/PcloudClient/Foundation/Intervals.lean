/-
  Foundation/Intervals.lean --- sets as lists of separated intervals.

  A list of non-empty intervals in order, no two of which overlap or touch, stands for their
  union.  Adding, removing and cutting work on the list and are union, difference and
  intersection of sets.
-/
import Mathlib.Order.Interval.Set.LinearOrder

set_option autoImplicit false

namespace PcloudClient.Foundation

/-- The values from `start` on that are before `stop`. -/
structure Span (α : Type) where
  start : α
  stop : α
  deriving DecidableEq, Repr

namespace Intervals

variable {α : Type} [LinearOrder α]

/-- The set a list of intervals stands for. -/
def union (l : List (Span α)) : Set α :=
  {x | ∃ i ∈ l, x ∈ Set.Ico i.start i.stop}

/-- Non-empty intervals in order, with something between any two of them. -/
structure Separated (l : List (Span α)) : Prop where
  nonempty : ∀ i ∈ l, i.start < i.stop
  apart : l.Pairwise fun i j => i.stop < j.start

/-! ## Lists -/

variable {l l₁ l₂ : List (Span α)} {i : Span α} {a b e x : α}

theorem mem_union : x ∈ union l ↔ ∃ i ∈ l, i.start ≤ x ∧ x < i.stop := Iff.rfl

@[simp] theorem union_nil : union ([] : List (Span α)) = ∅ := by
  simp [union]

@[simp] theorem union_cons : union (i :: l) = Set.Ico i.start i.stop ∪ union l := by
  ext x
  simp [mem_union]

theorem union_append : union (l₁ ++ l₂) = union l₁ ∪ union l₂ := by
  induction l₁ with
  | nil => simp
  | cons i l ih => rw [List.cons_append, union_cons, ih, union_cons, Set.union_assoc]

theorem separated_nil : Separated ([] : List (Span α)) :=
  ⟨by simp, List.Pairwise.nil⟩

theorem separated_cons : Separated (i :: l) ↔
    i.start < i.stop ∧ (∀ j ∈ l, i.stop < j.start) ∧ Separated l := by
  constructor
  · rintro ⟨hne, hapart⟩
    rw [List.pairwise_cons] at hapart
    exact ⟨hne i (by simp), hapart.1, fun j hj => hne j (by simp [hj]), hapart.2⟩
  · rintro ⟨hi, hbefore, hne, hapart⟩
    refine ⟨fun j hj => ?_, List.pairwise_cons.mpr ⟨hbefore, hapart⟩⟩
    rcases List.mem_cons.mp hj with rfl | hj
    · exact hi
    · exact hne j hj

theorem separated_append : Separated (l₁ ++ l₂) ↔
    Separated l₁ ∧ Separated l₂ ∧ ∀ i ∈ l₁, ∀ j ∈ l₂, i.stop < j.start := by
  constructor
  · rintro ⟨hne, hapart⟩
    rw [List.pairwise_append] at hapart
    exact ⟨⟨fun i hi => hne i (by simp [hi]), hapart.1⟩,
      ⟨fun i hi => hne i (by simp [hi]), hapart.2.1⟩, hapart.2.2⟩
  · rintro ⟨h₁, h₂, hbetween⟩
    refine ⟨fun i hi => ?_, List.pairwise_append.mpr ⟨h₁.apart, h₂.apart, hbetween⟩⟩
    rcases List.mem_append.mp hi with hi | hi
    · exact h₁.nonempty i hi
    · exact h₂.nonempty i hi

/-- Two intervals of the list are one, or one is before the other. -/
theorem Separated.eq_or_apart (h : Separated l) {j : Span α} (hi : i ∈ l) (hj : j ∈ l) :
    i = j ∨ i.stop < j.start ∨ j.stop < i.start := by
  induction l with
  | nil => exact absurd hi (by simp)
  | cons k l ih =>
    obtain ⟨-, hbefore, hl⟩ := separated_cons.mp h
    rcases List.mem_cons.mp hi with hik | hil
    · rcases List.mem_cons.mp hj with hjk | hjl
      · exact Or.inl (hik.trans hjk.symm)
      · exact Or.inr (Or.inl (hik ▸ hbefore j hjl))
    · rcases List.mem_cons.mp hj with hjk | hjl
      · exact Or.inr (Or.inr (hjk ▸ hbefore i hil))
      · exact ih hl hil hjl

/-! ## Adding -/

/-- The interval from `a` to `b` is put in, and becomes one with those it overlaps or
touches. -/
def add (a b : α) : List (Span α) → List (Span α)
  | [] => [⟨a, b⟩]
  | i :: l =>
    if i.stop < a then i :: add a b l
    else if b < i.start then ⟨a, b⟩ :: i :: l
    else add (min i.start a) (max i.stop b) l

theorem add_append (h : ∀ i ∈ l₁, i.stop < a) : add a b (l₁ ++ l₂) = l₁ ++ add a b l₂ := by
  induction l₁ with
  | nil => rfl
  | cons i l ih =>
    rw [List.cons_append, add, if_pos (h i (by simp)), ih fun j hj => h j (by simp [hj]),
      List.cons_append]

theorem add_of_lt (h : ∀ i ∈ l, b < i.start) (hne : ∀ i ∈ l, a ≤ i.stop) :
    add a b l = ⟨a, b⟩ :: l := by
  cases l with
  | nil => rfl
  | cons i l =>
    rw [add, if_neg (not_lt.mpr (hne i (by simp))), if_pos (h i (by simp))]

/-- An interval that holds `a`, or ends there, grows. -/
theorem add_cons_of_le (hle : i.start ≤ a) (hge : a ≤ i.stop) (hab : a ≤ b) :
    add a b (i :: l) = add i.start (max i.stop b) l := by
  rw [add, if_neg (not_lt.mpr hge), if_neg (not_lt.mpr (hle.trans hab)), min_eq_left hle]

theorem Separated.add_self (h : Separated (i :: l)) : Intervals.add i.start i.stop l = i :: l := by
  obtain ⟨hi, hbefore, hl⟩ := separated_cons.mp h
  refine add_of_lt hbefore fun j hj => ?_
  exact (hi.trans ((hbefore j hj).trans (hl.nonempty j hj))).le

/-- An interval that holds `b`, or starts there, grows to the front. -/
theorem Separated.add_cons_of_ge (h : Separated (i :: l)) (ha : a < i.start) (hle : i.start ≤ b)
    (hge : b ≤ i.stop) : Intervals.add a b (i :: l) = ⟨a, i.stop⟩ :: l := by
  obtain ⟨hi, hbefore, hl⟩ := separated_cons.mp h
  rw [Intervals.add, if_neg (not_lt.mpr (ha.trans hi).le), if_neg (not_lt.mpr hle),
    min_eq_right ha.le, max_eq_left hge]
  refine add_of_lt hbefore fun j hj => ?_
  exact (ha.trans (hi.trans ((hbefore j hj).trans (hl.nonempty j hj)))).le

theorem union_add : union (add a b l) = Set.Ico a b ∪ union l := by
  induction l generalizing a b with
  | nil => simp [add]
  | cons i l ih =>
    unfold add
    split
    · rw [union_cons, ih, union_cons, Set.union_left_comm]
    · rename_i hstart
      split
      · rw [union_cons]
      · rename_i hstop
        rw [ih, union_cons, ← Set.union_assoc]
        congr 1
        rw [Set.union_comm, Set.Ico_union_Ico' (not_lt.mp hstart) (not_lt.mp hstop)]

theorem lt_start_add (h : ∀ i ∈ l, e < i.start) (ha : e < a) : ∀ i ∈ add a b l, e < i.start := by
  induction l generalizing a b with
  | nil => simpa [add] using ha
  | cons i l ih =>
    have hi := h i (by simp)
    have hl := fun j hj => h j (List.mem_cons_of_mem i hj)
    unfold add
    split
    · simpa [hi] using ih hl ha
    · split
      · simpa [hi, ha] using hl
      · exact ih hl (lt_min hi ha)

theorem Separated.add (h : Separated l) (hab : a < b) : Separated (Intervals.add a b l) := by
  induction l generalizing a b with
  | nil =>
    rw [Intervals.add, separated_cons]
    exact ⟨hab, by simp, separated_nil⟩
  | cons i l ih =>
    obtain ⟨hi, hbefore, hl⟩ := separated_cons.mp h
    unfold Intervals.add
    split
    · rename_i hstart
      exact separated_cons.mpr ⟨hi, lt_start_add hbefore hstart, ih hl hab⟩
    · split
      · rename_i hstop
        refine separated_cons.mpr ⟨hab, fun j hj => ?_, h⟩
        rcases List.mem_cons.mp hj with rfl | hj
        · exact hstop
        · exact (hstop.trans hi).trans (hbefore j hj)
      · exact ih hl (lt_of_le_of_lt (min_le_right _ _) (lt_of_lt_of_le hab (le_max_right _ _)))

/-! ## Removing -/

/-- What is left of an interval without the values from `a` to `b`. -/
def pieces (a b : α) (i : Span α) : List (Span α) :=
  (if i.start < min i.stop a then [⟨i.start, min i.stop a⟩] else []) ++
    if max i.start b < i.stop then [⟨max i.start b, i.stop⟩] else []

theorem pieces_split (ha : i.start < a) (hab : a ≤ b) (hb : b < i.stop) :
    pieces a b i = [⟨i.start, a⟩, ⟨b, i.stop⟩] := by
  rw [pieces, min_eq_right (hab.trans hb.le), max_eq_right (ha.le.trans hab), if_pos ha, if_pos hb]
  rfl

theorem pieces_inside (ha : a ≤ i.start) (hb : i.stop ≤ b) : pieces a b i = [] := by
  rw [pieces, if_neg (not_lt.mpr ((min_le_right _ _).trans ha)),
    if_neg (not_lt.mpr (hb.trans (le_max_right _ _)))]
  rfl

theorem pieces_tail (ha : a ≤ i.start) (hlt : i.start < b) (hb : b < i.stop) :
    pieces a b i = [⟨b, i.stop⟩] := by
  rw [pieces, if_neg (not_lt.mpr ((min_le_right _ _).trans ha)), max_eq_right hlt.le, if_pos hb]
  rfl

theorem pieces_head (ha : i.start < a) (hlt : a < i.stop) (hb : i.stop ≤ b) :
    pieces a b i = [⟨i.start, a⟩] := by
  rw [pieces, min_eq_right hlt.le, if_pos ha, if_neg (not_lt.mpr (hb.trans (le_max_right _ _)))]
  rfl

/-- The values from `a` to `b` are taken out. -/
def remove (a b : α) (l : List (Span α)) : List (Span α) := l.flatMap (pieces a b)

@[simp] theorem remove_nil : remove a b ([] : List (Span α)) = [] := rfl

theorem remove_cons : remove a b (i :: l) = pieces a b i ++ remove a b l := List.flatMap_cons

theorem remove_append : remove a b (l₁ ++ l₂) = remove a b l₁ ++ remove a b l₂ :=
  List.flatMap_append

theorem remove_of_le (hab : a ≤ b) (hne : ∀ i ∈ l, i.start < i.stop) (h : ∀ i ∈ l, i.stop ≤ a) :
    remove a b l = l := by
  induction l with
  | nil => rfl
  | cons i l ih =>
    have hi := h i (by simp)
    rw [remove_cons, ih (fun j hj => hne j (by simp [hj])) fun j hj => h j (by simp [hj]), pieces,
      min_eq_left hi, if_pos (hne i (by simp)),
      if_neg (not_lt.mpr (hi.trans (hab.trans (le_max_right _ _))))]
    rfl

theorem remove_of_ge (hab : a ≤ b) (hne : ∀ i ∈ l, i.start < i.stop) (h : ∀ i ∈ l, b ≤ i.start) :
    remove a b l = l := by
  induction l with
  | nil => rfl
  | cons i l ih =>
    have hi := h i (by simp)
    rw [remove_cons, ih (fun j hj => hne j (by simp [hj])) fun j hj => h j (by simp [hj]), pieces,
      max_eq_left hi, if_pos (hne i (by simp)),
      if_neg (not_lt.mpr ((min_le_right _ _).trans (hab.trans hi)))]
    rfl

theorem union_pieces : union (pieces a b i) = Set.Ico i.start i.stop \ Set.Ico a b := by
  ext x
  simp only [pieces, union_append, Set.mem_union, Set.mem_sdiff, Set.mem_Ico, not_and, not_lt]
  constructor
  · rintro (h | h)
    · split at h
      · simp only [union_cons, union_nil, Set.union_empty, Set.mem_Ico, lt_inf_iff] at h
        exact ⟨⟨h.1, h.2.1⟩, fun hax => absurd h.2.2 (not_lt.mpr hax)⟩
      · simp at h
    · split at h
      · simp only [union_cons, union_nil, Set.union_empty, Set.mem_Ico, sup_le_iff] at h
        exact ⟨⟨h.1.1, h.2⟩, fun _ => h.1.2⟩
      · simp at h
  · rintro ⟨⟨hstart, hstop⟩, hout⟩
    rcases lt_or_ge x a with hxa | hxa
    · left
      rw [if_pos (lt_of_le_of_lt hstart (lt_min hstop hxa))]
      simp [hstart, hstop, hxa]
    · right
      rw [if_pos (lt_of_le_of_lt (max_le hstart (hout hxa)) hstop)]
      simp [hstart, hstop, hout hxa]

theorem union_remove : union (remove a b l) = union l \ Set.Ico a b := by
  induction l with
  | nil => simp
  | cons i l ih =>
    rw [remove_cons, union_append, union_pieces, ih, union_cons, Set.union_sdiff_distrib]

theorem mem_pieces {j : Span α} (hj : j ∈ pieces a b i) :
    i.start ≤ j.start ∧ j.start < j.stop ∧ j.stop ≤ i.stop := by
  rcases List.mem_append.mp hj with hj | hj
  · split at hj
    · rename_i hlt
      obtain rfl := List.mem_singleton.mp hj
      exact ⟨le_refl _, hlt, min_le_left _ _⟩
    · simp at hj
  · split at hj
    · rename_i hlt
      obtain rfl := List.mem_singleton.mp hj
      exact ⟨le_max_left _ _, hlt, le_refl _⟩
    · simp at hj

theorem separated_pieces (hab : a < b) : Separated (pieces a b i) := by
  refine ⟨fun j hj => (mem_pieces hj).2.1, List.pairwise_append.mpr ⟨?_, ?_, ?_⟩⟩
  · split <;> simp
  · split <;> simp
  · intro j hj k hk
    split at hj
    · split at hk
      · obtain rfl := List.mem_singleton.mp hj
        obtain rfl := List.mem_singleton.mp hk
        exact lt_of_le_of_lt (min_le_right _ _) (lt_of_lt_of_le hab (le_max_right _ _))
      · simp at hk
    · simp at hj

theorem Separated.remove (h : Separated l) (hab : a < b) : Separated (Intervals.remove a b l) := by
  induction l with
  | nil => exact separated_nil
  | cons i l ih =>
    obtain ⟨-, hbefore, hl⟩ := separated_cons.mp h
    rw [remove_cons, separated_append]
    refine ⟨separated_pieces hab, ih hl, fun j hj k hk => ?_⟩
    obtain ⟨m, hm, hk⟩ := List.mem_flatMap.mp hk
    calc j.stop ≤ i.stop := (mem_pieces hj).2.2
      _ < m.start := hbefore m hm
      _ ≤ k.start := (mem_pieces hk).1

/-! ## Cutting -/

/-- What of an interval is before `e`. -/
def front (e : α) (i : Span α) : List (Span α) :=
  if i.start < e then [⟨i.start, min i.stop e⟩] else []

/-- The values from `e` on are taken out. -/
def cutEnd (e : α) (l : List (Span α)) : List (Span α) := l.flatMap (front e)

theorem cutEnd_cons : cutEnd e (i :: l) = front e i ++ cutEnd e l := List.flatMap_cons

theorem cutEnd_append : cutEnd e (l₁ ++ l₂) = cutEnd e l₁ ++ cutEnd e l₂ := List.flatMap_append

theorem cutEnd_of_le (hne : ∀ i ∈ l, i.start < i.stop) (h : ∀ i ∈ l, i.stop ≤ e) :
    cutEnd e l = l := by
  induction l with
  | nil => rfl
  | cons i l ih =>
    have hi := h i (by simp)
    rw [cutEnd_cons, ih (fun j hj => hne j (by simp [hj])) fun j hj => h j (by simp [hj]), front,
      if_pos (lt_of_lt_of_le (hne i (by simp)) hi), min_eq_left hi]
    rfl

theorem union_cutEnd : union (cutEnd e l) = union l ∩ Set.Iio e := by
  induction l with
  | nil => simp [cutEnd]
  | cons i l ih =>
    rw [cutEnd_cons, union_append, ih, union_cons, Set.union_inter_distrib_right]
    congr 1
    ext x
    unfold front
    split
    · simp
    · rename_i hge
      simp only [union_nil, Set.mem_empty_iff_false, Set.mem_inter_iff, Set.mem_Ico, Set.mem_Iio,
        false_iff, not_and]
      exact fun hx hxe => hge (lt_of_le_of_lt hx.1 hxe)

theorem Separated.cutEnd (h : Separated l) : Separated (Intervals.cutEnd e l) := by
  induction l with
  | nil => exact separated_nil
  | cons i l ih =>
    obtain ⟨hi, hbefore, hl⟩ := separated_cons.mp h
    rw [cutEnd_cons]
    unfold front
    split
    · rename_i hlt
      refine separated_cons.mpr ⟨lt_min hi hlt, fun j hj => ?_, ih hl⟩
      obtain ⟨m, hm, hj⟩ := List.mem_flatMap.mp hj
      unfold front at hj
      split at hj
      · obtain rfl := List.mem_singleton.mp hj
        exact lt_of_le_of_lt (min_le_left _ _) (hbefore m hm)
      · simp at hj
    · exact ih hl

end Intervals

end PcloudClient.Foundation
