/-
  Foundation/CountedForest.lean --- marks on the members of a forest, kept in a table that holds the
  marked members and those above them, each with the number of its children in the table.

  A change of one mark moves up: while it does, one member counts a child too few (`short`) or one
  too many (`extra`).  The rules below say what one step of the way up does to that.
-/
import Mathlib.Algebra.Order.BigOperators.Group.List
import Mathlib.Algebra.Order.Group.Nat
import Mathlib.Data.List.Nodup
import Mathlib.Logic.Relation

set_option autoImplicit false

namespace PcloudClient.Counted

variable {ι : Type} [DecidableEq ι]

/-- A member of the table: is it marked, and how many of its children are in the table. -/
structure Node where
  own : Bool
  cnt : Nat
  deriving DecidableEq, Repr

/-- The members that have a node, by their keys. -/
@[ext]
structure Table (ι : Type) [DecidableEq ι] where
  entries : List (ι × Node)
  nodup : (entries.map Prod.fst).Nodup

namespace Table

def empty : Table ι := ⟨[], List.nodup_nil⟩

def get (t : Table ι) (id : ι) : Option Node :=
  (t.entries.find? fun e => e.1 = id).map Prod.snd

def erase (t : Table ι) (id : ι) : Table ι where
  entries := t.entries.filter fun e => e.1 ≠ id
  nodup := t.nodup.sublist (List.filter_sublist.map Prod.fst)

/-- Put the node in, or in the place of the one there is. -/
def set (t : Table ι) (id : ι) (n : Node) : Table ι where
  entries := (id, n) :: (t.erase id).entries
  nodup := by
    rw [List.map_cons, List.nodup_cons]
    exact ⟨by simp [erase], (t.erase id).nodup⟩

def has (t : Table ι) (id : ι) : Prop := t.get id ≠ none

instance (t : Table ι) (id : ι) : Decidable (t.has id) := inferInstanceAs (Decidable (_ ≠ _))

/-- The mark of a member; without a node it has none. -/
def own (t : Table ι) (id : ι) : Bool := (t.get id).any (·.own)

/-- What a member counts; without a node it counts nothing. -/
def cnt (t : Table ι) (id : ι) : Nat := (t.get id).elim 0 (·.cnt)

/-- How many members of the table there are with `q`. -/
def count (t : Table ι) (q : ι → Bool) : Nat := t.entries.countP fun e => q e.1

/-- How many children of `id` are in the table. -/
def children (t : Table ι) (up : ι → Option ι) (id : ι) : Nat := t.count fun x => up x = some id

variable {t : Table ι} {id x : ι} {n : Node} {q q' : ι → Bool}

theorem get_eq_some : t.get id = some n ↔ (id, n) ∈ t.entries := by
  unfold get
  rw [Option.map_eq_some_iff]
  constructor
  · rintro ⟨⟨k, m⟩, hfind, rfl⟩
    have hkey : k = id := by simpa using List.find?_some hfind
    exact hkey ▸ List.mem_of_find?_eq_some hfind
  · intro hmem
    cases hfind : t.entries.find? fun e => e.1 = id with
    | none => exact absurd (List.find?_eq_none.mp hfind _ hmem) (by simp)
    | some e =>
      have hkey : e.1 = id := by simpa using List.find?_some hfind
      have heq : e = (id, n) := List.inj_on_of_nodup_map t.nodup
        (List.mem_of_find?_eq_some hfind) hmem hkey
      exact ⟨e, rfl, by rw [heq]⟩

@[simp, grind =]
theorem get_empty : (empty : Table ι).get id = none := rfl

@[simp, grind =]
theorem get_erase : (t.erase id).get x = if x = id then none else t.get x := by
  refine Option.ext fun n => ?_
  rw [get_eq_some, erase, List.mem_filter]
  by_cases h : x = id
  · simp [h]
  · simp [h, get_eq_some]

@[simp, grind =]
theorem get_set : (t.set id n).get x = if x = id then some n else t.get x := by
  refine Option.ext fun m => ?_
  rw [get_eq_some, set, List.mem_cons, ← get_eq_some, get_erase]
  by_cases h : x = id
  · simp [h, eq_comm]
  · simp [h]

/-- Only the last node that is put for a member counts. -/
theorem set_set (m : Node) : (t.set id m).set id n = t.set id n := by
  ext1
  simp [set, erase, List.filter_filter]

/-- The entry of a member comes apart from the others. -/
theorem perm_erase (h : t.get id = some n) :
    t.entries.Perm ((id, n) :: (t.erase id).entries) := by
  have hmem := get_eq_some.mp h
  have hnodup := t.nodup
  simp only [erase]
  generalize t.entries = l at hmem hnodup
  induction l with
  | nil => cases hmem
  | cons e l ih =>
    rw [List.map_cons, List.nodup_cons] at hnodup
    rcases List.mem_cons.mp hmem with rfl | htail
    · have hall : l.filter (fun e => e.1 ≠ id) = l := by
        refine List.filter_eq_self.mpr fun e he => ?_
        have hne : e.1 ≠ id := fun heq => hnodup.1 (List.mem_map.mpr ⟨e, he, heq⟩)
        simpa using hne
      rw [List.filter_cons_of_neg (by simp), hall]
    · have hne : e.1 ≠ id := fun heq => hnodup.1 (heq ▸ List.mem_map_of_mem htail)
      rw [List.filter_cons_of_pos (by simpa using hne)]
      exact ((ih htail hnodup.2).cons e).trans (List.Perm.swap ..)

theorem count_erase (h : t.get id = some n) (q : ι → Bool) :
    t.count q = (t.erase id).count q + if q id then 1 else 0 := by
  unfold count
  rw [(perm_erase h).countP_eq, List.countP_cons]

theorem entries_erase_of_get (h : t.get id = none) : (t.erase id).entries = t.entries := by
  refine List.filter_eq_self.mpr fun e he => ?_
  have hne : e.1 ≠ id := fun heq => by
    have hget : t.get e.1 = some e.2 := get_eq_some.mpr he
    rw [heq, h] at hget
    cases hget
  simpa using hne

/-- A new member. -/
theorem count_set_new (h : t.get id = none) (n : Node) (q : ι → Bool) :
    (t.set id n).count q = t.count q + if q id then 1 else 0 := by
  unfold count set
  dsimp only
  rw [entries_erase_of_get h, List.countP_cons]

/-- A member whose node changes. -/
theorem count_set_of_get {m : Node} (h : t.get id = some m) (n : Node) (q : ι → Bool) :
    (t.set id n).count q = t.count q := by
  rw [count_erase h]
  unfold count
  rw [set, List.countP_cons]

theorem count_congr (h : ∀ x, t.has x → q x = q' x) : t.count q = t.count q' := by
  refine List.countP_congr fun e he => ?_
  have hget : t.get e.1 = some e.2 := get_eq_some.mpr he
  rw [h e.1 (by simp [has, hget])]

theorem count_pos : 0 < t.count q ↔ ∃ x, t.has x ∧ q x := by
  unfold count
  rw [List.countP_pos_iff]
  constructor
  · rintro ⟨e, he, hq⟩
    have hget : t.get e.1 = some e.2 := get_eq_some.mpr he
    exact ⟨e.1, by simp [has, hget], hq⟩
  · rintro ⟨x, hx, hq⟩
    obtain ⟨n, hn⟩ := Option.ne_none_iff_exists'.mp hx
    exact ⟨(x, n), get_eq_some.mp hn, hq⟩

/-- Two properties that differ at one member only. -/
theorem count_move (h : t.get id = some n) (q q' : ι → Bool) (hq : ∀ x, x ≠ id → q x = q' x) :
    t.count q + (if q' id then 1 else 0) = t.count q' + if q id then 1 else 0 := by
  have hrest : (t.erase id).count q = (t.erase id).count q' := by
    refine count_congr fun x hx => hq x fun heq => hx ?_
    rw [get_erase, if_pos heq]
  rw [count_erase h q, count_erase h q', hrest]
  omega

theorem has_iff : t.has id ↔ ∃ n, t.get id = some n := Option.ne_none_iff_exists'

theorem has_of_get (h : t.get id = some n) : t.has id := has_iff.mpr ⟨n, h⟩

@[simp]
theorem has_set : (t.set id n).has x ↔ x = id ∨ t.has x := by
  unfold has
  rw [get_set]
  split <;> simp [*]

@[simp]
theorem has_erase : (t.erase id).has x ↔ x ≠ id ∧ t.has x := by
  unfold has
  rw [get_erase]
  split <;> simp [*]

theorem cnt_of_get (h : t.get id = some n) : t.cnt id = n.cnt := by simp [cnt, h]

theorem cnt_of_none (h : t.get id = none) : t.cnt id = 0 := by simp [cnt, h]

@[simp]
theorem cnt_set : (t.set id n).cnt x = if x = id then n.cnt else t.cnt x := by
  unfold cnt
  rw [get_set]
  split <;> rfl

@[simp]
theorem cnt_erase : (t.erase id).cnt x = if x = id then 0 else t.cnt x := by
  unfold cnt
  rw [get_erase]
  split <;> rfl

@[simp]
theorem own_set : (t.set id n).own x = if x = id then n.own else t.own x := by
  unfold own
  rw [get_set]
  split <;> rfl

@[simp]
theorem own_erase : (t.erase id).own x = if x = id then false else t.own x := by
  unfold own
  rw [get_erase]
  split <;> rfl

/-- A node put where there was none has the mark of none. -/
theorem own_set_new (h : t.get id = none) (hn : n.own = false) (x : ι) :
    (t.set id n).own x = t.own x := by
  rw [own_set]
  split
  · next heq => simp [heq, own, h, hn]
  · rfl

theorem own_set_of_get {m : Node} (h : t.get id = some m) (cnt : Nat) (x : ι) :
    (t.set id { m with cnt := cnt }).own x = t.own x := by
  rw [own_set]
  split
  · next heq => simp [heq, own, h]
  · rfl

theorem own_erase_of_get (h : t.get id = some n) (hn : n.own = false) (x : ι) :
    (t.erase id).own x = t.own x := by
  rw [own_erase]
  split
  · next heq => simp [heq, own, h, hn]
  · rfl

end Table

/-! ## Counts that are right, or off at one member -/

/-- One for the member that `o` names. -/
def one (o : Option ι) (id : ι) : Nat := if o = some id then 1 else 0

@[simp] theorem one_none (id : ι) : one none id = 0 := rfl

@[simp] theorem one_some (id x : ι) : one (some id) x = if x = id then 1 else 0 := by
  simp [one, eq_comm]

section Children

variable {up : ι → Option ι} {t : Table ι} {id : ι} {n : Node}

theorem Table.children_set_new (h : t.get id = none) (n : Node) (x : ι) :
    (t.set id n).children up x = t.children up x + one (up id) x := by
  simp [children, count_set_new h, one]

theorem Table.children_set_of_get {m : Node} (h : t.get id = some m) (n : Node) (x : ι) :
    (t.set id n).children up x = t.children up x := by
  simp [children, count_set_of_get h]

theorem Table.children_erase (h : t.get id = some n) (x : ι) :
    t.children up x = (t.erase id).children up x + one (up id) x := by
  simp [children, count_erase h, one]

end Children

/-- Every node is there for a reason. -/
def Live (t : Table ι) : Prop := ∀ id n, t.get id = some n → n.own = true ∨ 0 < n.cnt

theorem Live.set {t : Table ι} (h : Live t) (id : ι) {n : Node} (hn : n.own = true ∨ 0 < n.cnt) :
    Live (t.set id n) := by
  intro x m hx
  rw [Table.get_set] at hx
  split at hx
  · exact Option.some.inj hx ▸ hn
  · exact h x m hx

theorem Live.erase {t : Table ι} (h : Live t) (id : ι) : Live (t.erase id) := by
  intro x m hx
  rw [Table.get_erase] at hx
  split at hx
  · cases hx
  · exact h x m hx

/-- The nodes count the children in the table, up to the member `short`, which counts one too few,
and the member `extra`, which counts one too many. -/
structure Balanced (up : ι → Option ι) (short extra : Option ι) (t : Table ι) : Prop where
  live : Live t
  count : ∀ id, t.cnt id + one short id = t.children up id + one extra id

namespace Balanced

variable {up up' : ι → Option ι} {short extra : Option ι} {t : Table ι} {id x : ι} {n : Node}

theorem empty (up : ι → Option ι) : Balanced up none none (Table.empty : Table ι) where
  live := by simp [Live]
  count := fun _ => rfl

/-- A new mark, not yet counted by its parent. -/
theorem mark (h : Balanced up none extra t) (hid : t.get id = none) :
    Balanced up (up id) extra (t.set id ⟨true, 0⟩) where
  live := h.live.set id (.inl rfl)
  count := by
    intro x
    have hx := h.count x
    rw [Table.children_set_new hid, Table.cnt_set]
    simp only [one_none] at hx
    split
    · next heq =>
      rw [heq, Table.cnt_of_none hid] at hx
      rw [heq]
      dsimp only
      omega
    · omega

/-- The mark of a node that stays changes. -/
theorem setOwn (h : Balanced up short extra t) (hid : t.get id = some n) {own : Bool}
    (hlive : own = true ∨ 0 < n.cnt) :
    Balanced up short extra (t.set id { n with own := own }) where
  live := h.live.set id hlive
  count := by
    intro x
    have hx := h.count x
    rw [Table.children_set_of_get hid, Table.cnt_set, ← hx]
    split
    · next heq => rw [heq, Table.cnt_of_get hid]
    · rfl

/-- The member that counts one too few counts the child. -/
theorem countChild (h : Balanced up (some id) extra t) (hid : t.get id = some n) :
    Balanced up none extra (t.set id { n with cnt := n.cnt + 1 }) where
  live := h.live.set id (.inr (Nat.succ_pos _))
  count := by
    intro x
    have hx := h.count x
    rw [Table.children_set_of_get hid, Table.cnt_set, ← hx]
    simp only [one_some, one_none]
    split
    · next heq => rw [heq, Table.cnt_of_get hid]
    · rfl

/-- Without a node before, it now is a child that its own parent does not count. -/
theorem countChild_new (h : Balanced up (some id) extra t) (hid : t.get id = none) :
    Balanced up (up id) extra (t.set id ⟨false, 1⟩) where
  live := h.live.set id (.inr Nat.one_pos)
  count := by
    intro x
    have hx := h.count x
    rw [Table.children_set_new hid, Table.cnt_set]
    rw [one_some] at hx
    split at hx
    · next heq =>
      rw [heq, Table.cnt_of_none hid] at hx
      rw [if_pos heq, heq]
      dsimp only
      omega
    · next hne =>
      rw [if_neg hne]
      omega

/-- The member that counts one too many has a node with a count. -/
theorem exists_over (h : Balanced up none (some id) t) :
    ∃ n, t.get id = some n ∧ 0 < n.cnt := by
  have hid := h.count id
  simp only [one_none, one_some, if_true] at hid
  cases hget : t.get id with
  | none =>
    rw [Table.cnt_of_none hget] at hid
    omega
  | some n =>
    rw [Table.cnt_of_get hget] at hid
    exact ⟨n, rfl, by omega⟩

/-- It counts one less, and keeps its node. -/
theorem uncountChild (h : Balanced up none (some id) t) (hid : t.get id = some n)
    (hlive : n.own = true ∨ 0 < n.cnt - 1) :
    Balanced up none none (t.set id { n with cnt := n.cnt - 1 }) where
  live := h.live.set id hlive
  count := by
    intro x
    have hx := h.count x
    rw [Table.children_set_of_get hid, Table.cnt_set]
    rw [one_some, one_none] at hx
    simp only [one_none]
    split at hx
    · next heq =>
      rw [heq, Table.cnt_of_get hid] at hx
      rw [if_pos heq, heq]
      omega
    · next hne =>
      rw [if_neg hne]
      omega

/-- A node whose children are gone goes, and its parent counts one too many. -/
theorem uncountChild_last (h : Balanced up none (some id) t) (hid : t.get id = some n)
    (hcnt : n.cnt - 1 = 0) : Balanced up none (up id) (t.erase id) where
  live := h.live.erase id
  count := by
    intro x
    have hx := h.count x
    rw [Table.children_erase hid] at hx
    rw [one_some, one_none] at hx
    rw [Table.cnt_erase, one_none]
    split at hx
    · next heq =>
      rw [heq, Table.cnt_of_get hid] at hx
      rw [if_pos heq, heq]
      omega
    · next hne =>
      rw [if_neg hne]
      omega

/-- A mark without children goes, and its parent counts one too many. -/
theorem unmark (h : Balanced up none none t) (hid : t.get id = some n) (hcnt : n.cnt = 0) :
    Balanced up none (up id) (t.erase id) where
  live := h.live.erase id
  count := by
    intro x
    have hx := h.count x
    rw [Table.children_erase hid] at hx
    rw [Table.cnt_erase]
    simp only [one_none] at hx ⊢
    split
    · next heq =>
      rw [heq, Table.cnt_of_get hid, hcnt] at hx
      rw [heq]
      omega
    · omega

/-- Members without a node may be anywhere. -/
theorem congr_up (h : Balanced up short extra t) (hup : ∀ x, t.has x → up x = up' x) :
    Balanced up' short extra t where
  live := h.live
  count := by
    intro x
    have hchildren : t.children up' x = t.children up x :=
      Table.count_congr fun y hy => by rw [hup y hy]
    rw [hchildren]
    exact h.count x

/-- A member with a node goes to another parent: that one counts too few, the old one too many. -/
theorem move (h : Balanced up none none t) (hid : t.has id) (hup : ∀ x, x ≠ id → up x = up' x) :
    Balanced up' (up' id) (up id) t where
  live := h.live
  count := by
    intro x
    obtain ⟨n, hn⟩ := Table.has_iff.mp hid
    have hx := h.count x
    have hmove := Table.count_move hn (fun y => up y = some x) (fun y => up' y = some x)
      (fun y hy => by rw [hup y hy])
    simp only [decide_eq_true_eq, Table.children, one] at *
    omega

/-! ### Marks below -/

/-- There is a mark at the member or below it. -/
def Busy (up : ι → Option ι) (own : ι → Bool) (id : ι) : Prop :=
  ∃ x, own x = true ∧ Relation.ReflTransGen (fun c p => up c = some p) x id

/-- The parent of a node has a node, if it does not count too few. -/
theorem has_up (h : Balanced up none extra t) (hx : t.has x) (hup : up x = some id) : t.has id := by
  have hpos : 0 < t.children up id := Table.count_pos.mpr ⟨x, hx, by simpa using hup⟩
  have hid := h.count id
  intro hnone
  simp only [Table.cnt, hnone, Option.elim_none, one_none] at hid
  omega

theorem has_of_own (hx : t.own x = true) : t.has x := by
  intro hnone
  simp [Table.own, hnone] at hx

/-- Where there is a mark below, there is a node. -/
theorem has_of_busy (h : Balanced up none extra t) (hbusy : Busy up t.own id) : t.has id := by
  obtain ⟨x, hown, hpath⟩ := hbusy
  induction hpath with
  | refl => exact has_of_own hown
  | tail _ hup ih => exact h.has_up ih hup

/-- A node is there for a mark or for a child. -/
theorem has_iff_own_or_cnt (h : Balanced up short extra t) (id : ι) :
    t.has id ↔ t.own id = true ∨ 0 < t.cnt id := by
  unfold Table.has Table.own Table.cnt
  cases hget : t.get id with
  | none => simp
  | some n => simpa using h.live id n hget

/-- And where there is a node there is a mark below: a way down, from child to child, ends. -/
theorem busy_of_has {rank : ι → Nat} (h : Balanced up none none t)
    (hrank : ∀ x p, up x = some p → rank p < rank x) (hid : t.has id) : Busy up t.own id := by
  obtain ⟨bound, hbound⟩ : ∃ bound, ∀ x, t.has x → rank x ≤ bound := by
    refine ⟨(t.entries.map fun e => rank e.1).sum, fun x hx => ?_⟩
    obtain ⟨n, hn⟩ := Table.has_iff.mp hx
    exact List.le_sum_of_mem (List.mem_map.mpr ⟨(x, n), Table.get_eq_some.mp hn, rfl⟩)
  generalize hgap : bound - rank id = gap
  induction gap using Nat.strongRecOn generalizing id with
  | ind gap ih =>
    rcases (h.has_iff_own_or_cnt id).mp hid with hown | hcnt
    · exact ⟨id, hown, .refl⟩
    · have hcount := h.count id
      simp only [one_none, Nat.add_zero] at hcount
      obtain ⟨x, hx, hup⟩ := Table.count_pos.mp (hcount ▸ hcnt : 0 < t.children up id)
      have hup : up x = some id := by simpa using hup
      have hlt := hrank x id hup
      have hle := hbound x hx
      obtain ⟨y, hy, hpath⟩ := ih (bound - rank x) (by omega) hx rfl
      exact ⟨y, hy, hpath.tail hup⟩

end Balanced

end PcloudClient.Counted
