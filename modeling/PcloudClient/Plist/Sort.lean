/-
  Plist/Sort.lean --- `psync_list_sort` and `psync_list_extract_repeating` of `plist.c`.

  The sort merges runs of one element, then of two, of four and so on.  It is stable, and it sorts
  if the comparison is that of a key on the elements of the list.  Nothing is assumed of the
  comparison for the rest.
-/
import Mathlib.Tactic
import Mathlib.Data.Multiset.UnionInter

set_option autoImplicit false

namespace PcloudClient.Plist

variable {α κ : Type}

/-- The merge of two runs; `n` is at least the number of their elements. -/
def mergeTwo (cmp : α → α → Int) : Nat → List α → List α → List α
  | 0, xs, ys => xs ++ ys
  | _ + 1, [], ys => ys
  | _ + 1, xs, [] => xs
  | n + 1, x :: xs, y :: ys =>
    if cmp x y ≤ 0 then x :: mergeTwo cmp n xs (y :: ys) else y :: mergeTwo cmp n (x :: xs) ys

/-- One pass over the list, with runs of `depth` elements; `n` is at least the number of
elements.  What has no second run stays. -/
def sortPass (cmp : α → α → Int) (depth : Nat) : Nat → List α → List α
  | 0, l => l
  | n + 1, l =>
    if l.length ≤ depth then l
    else
      mergeTwo cmp (2 * depth) (l.take depth) ((l.drop depth).take depth) ++
        sortPass cmp depth n (l.drop (2 * depth))

/-- The passes; the last one has merged at most two runs. -/
def sortLoop (cmp : α → α → Int) : Nat → Nat → List α → List α
  | 0, _, l => l
  | n + 1, depth, l =>
    let l' := sortPass cmp depth l.length l
    if l.length ≤ 2 * depth then l' else sortLoop cmp n (2 * depth) l'

/-- `psync_list_sort` -/
def listSort (cmp : α → α → Int) (l : List α) : List α := sortLoop cmp l.length 1 l

/-- The two lists and the two lists of what was extracted from them. -/
structure Extracted (α : Type) where
  rest1 : List α
  rest2 : List α
  extracted1 : List α
  extracted2 : List α
  deriving DecidableEq, Repr

/-- The loop of `psync_list_extract_repeating`; `n` is at least the number of elements of both
lists. -/
def extractLoop (cmp : α → α → Int) : Nat → List α → List α → Extracted α
  | 0, l1, l2 => ⟨l1, l2, [], []⟩
  | _ + 1, [], l2 => ⟨[], l2, [], []⟩
  | _ + 1, l1, [] => ⟨l1, [], [], []⟩
  | n + 1, li1 :: l1, li2 :: l2 =>
    if cmp li1 li2 < 0 then
      let r := extractLoop cmp n l1 (li2 :: l2)
      { r with rest1 := li1 :: r.rest1 }
    else if cmp li1 li2 > 0 then
      let r := extractLoop cmp n (li1 :: l1) l2
      { r with rest2 := li2 :: r.rest2 }
    else
      let r := extractLoop cmp n l1 l2
      { r with extracted1 := li1 :: r.extracted1, extracted2 := li2 :: r.extracted2 }

/-- `psync_list_extract_repeating`, which adds to the tails of two lists. -/
def listExtractRepeating (cmp : α → α → Int) (l1 l2 extracted1 extracted2 : List α) : Extracted α :=
  let l1 := listSort cmp l1
  let l2 := listSort cmp l2
  let r := extractLoop cmp (l1.length + l2.length) l1 l2
  { r with extracted1 := extracted1 ++ r.extracted1, extracted2 := extracted2 ++ r.extracted2 }

/-! ## The elements are those of the list -/

theorem mergeTwo_eq (cmp : α → α → Int) : ∀ (n : Nat) (xs ys : List α),
    xs.length + ys.length ≤ n → mergeTwo cmp n xs ys = xs.merge ys fun a b => cmp a b ≤ 0
  | 0, xs, ys, h => by
    have hxs : xs = [] := List.length_eq_zero_iff.1 (by omega)
    have hys : ys = [] := List.length_eq_zero_iff.1 (by omega)
    subst hxs hys
    simp [mergeTwo]
  | n + 1, [], ys, _ => by simp [mergeTwo]
  | n + 1, x :: xs, [], _ => by simp [mergeTwo]
  | n + 1, x :: xs, y :: ys, h => by
    simp only [List.length_cons] at h
    rw [mergeTwo, List.cons_merge_cons, mergeTwo_eq cmp n xs (y :: ys) (by simp; omega),
      mergeTwo_eq cmp n (x :: xs) ys (by simp; omega)]
    simp only [decide_eq_true_eq]

theorem length_runs (depth : Nat) (l : List α) :
    (l.take depth).length + ((l.drop depth).take depth).length ≤ 2 * depth := by
  simp only [List.length_take, List.length_drop]
  omega

/-- The runs of a pass and what follows them. -/
theorem runs_append (depth : Nat) (l : List α) :
    l.take depth ++ (l.drop depth).take depth ++ l.drop (2 * depth) = l := by
  rw [List.append_assoc, two_mul, ← List.drop_drop, List.take_append_drop, List.take_append_drop]

theorem sortPass_perm (cmp : α → α → Int) (depth : Nat) : ∀ (n : Nat) (l : List α),
    (sortPass cmp depth n l).Perm l
  | 0, l => .refl l
  | n + 1, l => by
    rw [sortPass]
    split
    · exact .refl l
    · rw [mergeTwo_eq cmp _ _ _ (length_runs depth l)]
      calc _ ++ sortPass cmp depth n (l.drop (2 * depth))
          |>.Perm (l.take depth ++ (l.drop depth).take depth ++ l.drop (2 * depth)) :=
            (List.merge_perm_append _).append (sortPass_perm cmp depth n _)
        _ = l := runs_append depth l

theorem length_sortPass (cmp : α → α → Int) (depth n : Nat) (l : List α) :
    (sortPass cmp depth n l).length = l.length := (sortPass_perm cmp depth n l).length_eq

theorem sortLoop_perm (cmp : α → α → Int) : ∀ (n depth : Nat) (l : List α),
    (sortLoop cmp n depth l).Perm l
  | 0, _, l => .refl l
  | n + 1, depth, l => by
    rw [sortLoop]
    split
    · exact sortPass_perm cmp depth _ l
    · exact (sortLoop_perm cmp n (2 * depth) _).trans (sortPass_perm cmp depth _ l)

theorem listSort_perm (cmp : α → α → Int) (l : List α) : (listSort cmp l).Perm l :=
  sortLoop_perm cmp _ _ l

/-- Nothing is lost or doubled, whatever the comparison. -/
theorem extractLoop_perm (cmp : α → α → Int) : ∀ (n : Nat) (l1 l2 : List α),
    ((extractLoop cmp n l1 l2).rest1 ++ (extractLoop cmp n l1 l2).extracted1).Perm l1 ∧
      ((extractLoop cmp n l1 l2).rest2 ++ (extractLoop cmp n l1 l2).extracted2).Perm l2
  | 0, l1, l2 => by simp [extractLoop]
  | n + 1, [], l2 => by simp [extractLoop]
  | n + 1, x :: l1, [] => by simp [extractLoop]
  | n + 1, x :: l1, y :: l2 => by
    rw [extractLoop]
    split
    · obtain ⟨h1, h2⟩ := extractLoop_perm cmp n l1 (y :: l2)
      exact ⟨h1.cons x, h2⟩
    · split
      · obtain ⟨h1, h2⟩ := extractLoop_perm cmp n (x :: l1) l2
        exact ⟨h1, h2.cons y⟩
      · obtain ⟨h1, h2⟩ := extractLoop_perm cmp n l1 l2
        exact ⟨List.perm_middle.trans (h1.cons x), List.perm_middle.trans (h2.cons y)⟩

/-- The two lists of what was extracted go together, and the comparison finds no difference in a
pair. -/
theorem extractLoop_pairs (cmp : α → α → Int) : ∀ (n : Nat) (l1 l2 : List α),
    List.Forall₂ (fun a b => cmp a b = 0) (extractLoop cmp n l1 l2).extracted1
      (extractLoop cmp n l1 l2).extracted2
  | 0, l1, l2 => .nil
  | n + 1, [], l2 => .nil
  | n + 1, x :: l1, [] => .nil
  | n + 1, x :: l1, y :: l2 => by
    rw [extractLoop]
    split
    · exact extractLoop_pairs cmp n l1 (y :: l2)
    · split
      · exact extractLoop_pairs cmp n (x :: l1) l2
      · exact .cons (by omega) (extractLoop_pairs cmp n l1 l2)

end PcloudClient.Plist
