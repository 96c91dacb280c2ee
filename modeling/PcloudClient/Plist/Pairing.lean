/-
  Plist/Pairing.lean --- what `psync_list_extract_repeating` extracts when the comparison is that
  of a key: as many pairs as the keys of the two lists have in common, and of each key the first
  elements of both lists.
-/
import PcloudClient.Plist.Sort

set_option autoImplicit false

namespace PcloudClient.Plist

variable {α κ : Type} [LinearOrder κ]

/-- On the elements of `S` the comparison is that of `key`. -/
structure Compares (cmp : α → α → Int) (key : α → κ) (S : α → Prop) : Prop where
  lt : ∀ a b, S a → S b → (cmp a b < 0 ↔ key a < key b)
  gt : ∀ a b, S a → S b → (0 < cmp a b ↔ key b < key a)

variable {cmp : α → α → Int} {key : α → κ} {S : α → Prop}

theorem Compares.le (h : Compares cmp key S) {a b : α} (ha : S a) (hb : S b) :
    cmp a b ≤ 0 ↔ key a ≤ key b := by
  rw [← not_lt, ← not_lt, h.gt a b ha hb]

theorem Compares.eq (h : Compares cmp key S) {a b : α} (ha : S a) (hb : S b) :
    cmp a b = 0 ↔ key a = key b := by
  have hlt := h.lt a b ha hb
  have hgt := h.gt a b ha hb
  constructor
  · intro hzero
    exact le_antisymm (not_lt.1 fun hk => by have := hgt.2 hk; omega)
      (not_lt.1 fun hk => by have := hlt.2 hk; omega)
  · intro heq
    have h1 : ¬cmp a b < 0 := fun hc => (hlt.1 hc).ne heq
    have h2 : ¬0 < cmp a b := fun hc => (hgt.1 hc).ne heq.symm
    omega

/-- In the order of the key. -/
def SortedBy (key : α → κ) (l : List α) : Prop := l.Pairwise fun a b => key a ≤ key b

/-! ## Merging -/

theorem merge_sorted (h : Compares cmp key S) : ∀ {xs ys : List α}, (∀ a ∈ xs, S a) →
    (∀ a ∈ ys, S a) → SortedBy key xs → SortedBy key ys →
    SortedBy key (xs.merge ys fun a b => cmp a b ≤ 0)
  | [], ys, _, _, _, hys => by simpa using hys
  | x :: xs, [], _, _, hxs, _ => by simpa using hxs
  | x :: xs, y :: ys, hSx, hSy, hxs, hys => by
    have hx := hSx x (by simp)
    have hy := hSy y (by simp)
    have hSx' : ∀ a ∈ xs, S a := fun a ha => hSx a (by simp [ha])
    have hSy' : ∀ a ∈ ys, S a := fun a ha => hSy a (by simp [ha])
    obtain ⟨hxle, hxs'⟩ := List.pairwise_cons.1 hxs
    obtain ⟨hyle, hys'⟩ := List.pairwise_cons.1 hys
    rw [List.cons_merge_cons]
    by_cases hle : cmp x y ≤ 0
    · have hkey := (h.le hx hy).1 hle
      rw [if_pos (by simpa using hle)]
      refine List.pairwise_cons.2 ⟨fun a ha => ?_, merge_sorted h hSx' hSy hxs' hys⟩
      rcases List.mem_merge.1 ha with ha | ha
      · exact hxle a ha
      · rcases List.mem_cons.1 ha with rfl | ha
        · exact hkey
        · exact hkey.trans (hyle a ha)
    · have hkey : key y ≤ key x := (not_le.1 fun hk => hle ((h.le hx hy).2 hk)).le
      rw [if_neg (by simpa using hle)]
      refine List.pairwise_cons.2 ⟨fun a ha => ?_, merge_sorted h hSx hSy' hxs hys'⟩
      rcases List.mem_merge.1 ha with ha | ha
      · rcases List.mem_cons.1 ha with rfl | ha
        · exact hkey
        · exact hkey.trans (hxle a ha)
      · exact hyle a ha

/-- The merge keeps the order among the elements of one key. -/
theorem merge_filter (h : Compares cmp key S) (k : κ) : ∀ {xs ys : List α}, (∀ a ∈ xs, S a) →
    (∀ a ∈ ys, S a) → SortedBy key xs →
    (xs.merge ys fun a b => cmp a b ≤ 0).filter (fun a => key a = k) =
      xs.filter (fun a => key a = k) ++ ys.filter (fun a => key a = k)
  | [], ys, _, _, _ => by simp
  | x :: xs, [], _, _, _ => by simp
  | x :: xs, y :: ys, hSx, hSy, hxs => by
    have hSx' : ∀ a ∈ xs, S a := fun a ha => hSx a (by simp [ha])
    have hSy' : ∀ a ∈ ys, S a := fun a ha => hSy a (by simp [ha])
    obtain ⟨hxle, hxs'⟩ := List.pairwise_cons.1 hxs
    rw [List.cons_merge_cons]
    by_cases hle : cmp x y ≤ 0
    · rw [if_pos (by simpa using hle), List.filter_cons, List.filter_cons,
        merge_filter h k hSx' hSy hxs']
      split <;> rfl
    · have hlt : key y < key x :=
        not_le.1 fun hk => hle ((h.le (hSx x (by simp)) (hSy y (by simp))).2 hk)
      rw [if_neg (by simpa using hle), List.filter_cons, merge_filter h k hSx hSy' hxs]
      by_cases hk : key y = k
      · -- all of the first list comes after this key
        have hnone : (x :: xs).filter (fun a => key a = k) = [] := by
          rw [List.filter_eq_nil_iff]
          intro a ha
          have hge : key x ≤ key a := by
            rcases List.mem_cons.1 ha with rfl | ha
            · exact le_rfl
            · exact hxle a ha
          simpa using ((hk ▸ hlt).trans_le hge).ne'
        rw [hnone, List.nil_append, List.nil_append, List.filter_cons]
      · have hskip : (y :: ys).filter (fun a => key a = k) = ys.filter fun a => key a = k :=
          List.filter_cons_of_neg (by simpa using hk)
        rw [hskip, if_neg (by simpa using hk)]

/-! ## Passes -/

/-- Every run of `depth` elements is sorted. -/
def RunsSorted (key : α → κ) (depth : Nat) (l : List α) : Prop :=
  ∀ i, SortedBy key ((l.drop (i * depth)).take depth)

theorem runsSorted_one (l : List α) : RunsSorted key 1 l := by
  intro i
  have hlen : ((l.drop (i * 1)).take 1).length ≤ 1 := by simp
  match h : (l.drop (i * 1)).take 1, hlen with
  | [], _ => exact List.Pairwise.nil
  | [a], _ => exact List.pairwise_singleton _ a

theorem RunsSorted.drop {depth : Nat} {l : List α} (h : RunsSorted key depth l) (n : Nat) :
    RunsSorted key depth (l.drop (n * depth)) := by
  intro i
  rw [List.drop_drop, ← add_mul]
  exact h (n + i)

theorem SortedBy.sublist {l l' : List α} (h : SortedBy key l) (hsub : l'.Sublist l) :
    SortedBy key l' := List.Pairwise.sublist hsub h

/-- A pass makes the sorted runs twice as long. -/
theorem sortPass_runsSorted (h : Compares cmp key S) {depth : Nat} (hdepth : 0 < depth) :
    ∀ {n : Nat} {l : List α}, l.length ≤ n → (∀ a ∈ l, S a) → RunsSorted key depth l →
      RunsSorted key (2 * depth) (sortPass cmp depth n l)
  | 0, l, hn, _, _ => by
    have hl : l = [] := List.length_eq_zero_iff.1 (by omega)
    subst hl
    intro i
    rw [sortPass, List.drop_nil, List.take_nil]
    exact List.Pairwise.nil
  | n + 1, l, hn, hS, hruns => by
    rw [sortPass]
    split
    · next hshort =>
      intro i
      have hall : SortedBy key l := by
        have := hruns 0
        rwa [Nat.zero_mul, List.drop_zero, List.take_of_length_le hshort] at this
      exact hall.sublist ((List.take_sublist _ _).trans (List.drop_sublist _ _))
    · next hlong =>
      rw [mergeTwo_eq cmp _ _ _ (length_runs depth l)]
      have hfirst : SortedBy key (l.take depth) := by
        have := hruns 0
        rwa [Nat.zero_mul, List.drop_zero] at this
      have hsecond : SortedBy key ((l.drop depth).take depth) := by
        have := hruns 1
        rwa [Nat.one_mul] at this
      have hmerged := merge_sorted h (fun a ha => hS a (List.mem_of_mem_take ha))
        (fun a ha => hS a (List.mem_of_mem_drop (List.mem_of_mem_take ha))) hfirst hsecond
      have hrest := @sortPass_runsSorted h depth hdepth n (l.drop (2 * depth))
        (by rw [List.length_drop]; omega) (fun a ha => hS a (List.mem_of_mem_drop ha))
          (hruns.drop 2)
      set m := (l.take depth).merge ((l.drop depth).take depth) fun a b => cmp a b ≤ 0 with hm
      have hlen : m.length = min l.length (2 * depth) := by
        rw [hm, (List.merge_perm_append _).length_eq, List.length_append, List.length_take,
          List.length_take, List.length_drop]
        omega
      intro i
      by_cases hend : l.length ≤ 2 * depth
      · -- there is no third run
        have hnil : sortPass cmp depth n (l.drop (2 * depth)) = [] := by
          rw [← List.length_eq_zero_iff, length_sortPass, List.length_drop]
          omega
        rw [hnil, List.append_nil]
        exact hmerged.sublist ((List.take_sublist _ _).trans (List.drop_sublist _ _))
      · have hlen' : m.length = 2 * depth := by omega
        cases i with
        | zero =>
          rw [Nat.zero_mul, List.drop_zero, List.take_append_of_le_length hlen'.ge,
            List.take_of_length_le hlen'.le]
          exact hmerged
        | succ i =>
          have hskip : (i + 1) * (2 * depth) = m.length + i * (2 * depth) := by
            rw [hlen']
            ring
          rw [hskip, ← List.drop_drop, List.drop_left]
          exact hrest i

theorem sortPass_filter (h : Compares cmp key S) (k : κ) {depth : Nat} :
    ∀ {n : Nat} {l : List α}, (∀ a ∈ l, S a) → RunsSorted key depth l →
      (sortPass cmp depth n l).filter (fun a => key a = k) = l.filter (fun a => key a = k)
  | 0, l, _, _ => rfl
  | n + 1, l, hS, hruns => by
    rw [sortPass]
    split
    · rfl
    · rw [mergeTwo_eq cmp _ _ _ (length_runs depth l), List.filter_append]
      have hfirst : SortedBy key (l.take depth) := by
        have := hruns 0
        rwa [Nat.zero_mul, List.drop_zero] at this
      rw [merge_filter h k (fun a ha => hS a (List.mem_of_mem_take ha))
        (fun a ha => hS a (List.mem_of_mem_drop (List.mem_of_mem_take ha))) hfirst,
        @sortPass_filter h k depth n (l.drop (2 * depth))
          (fun a ha => hS a (List.mem_of_mem_drop ha)) (hruns.drop 2),
        ← List.filter_append, ← List.filter_append, runs_append]

/-- The runs are long enough when the number of passes that are left has doubled them beyond the
length of the list. -/
theorem sortLoop_sorted (h : Compares cmp key S) : ∀ {n depth : Nat} {l : List α},
    l.length ≤ depth * 2 ^ n → 0 < depth → (∀ a ∈ l, S a) → RunsSorted key depth l →
    SortedBy key (sortLoop cmp n depth l) ∧
      ∀ k, (sortLoop cmp n depth l).filter (fun a => key a = k) = l.filter (fun a => key a = k)
  | 0, depth, l, hn, _, _, hruns => by
    refine ⟨?_, fun k => rfl⟩
    have hall := hruns 0
    rwa [Nat.zero_mul, List.drop_zero, List.take_of_length_le (by simpa using hn)] at hall
  | n + 1, depth, l, hn, hdepth, hS, hruns => by
    have hpass := sortPass_runsSorted h hdepth le_rfl hS hruns
    have hfilter : ∀ k, _ := fun k => @sortPass_filter α κ _ cmp key S h k depth l.length l hS hruns
    rw [sortLoop]
    split
    · next hlast =>
      refine ⟨?_, hfilter⟩
      have hall := hpass 0
      rwa [Nat.zero_mul, List.drop_zero, List.take_of_length_le
        (by rw [length_sortPass]; exact hlast)] at hall
    · obtain ⟨hsorted, hkeep⟩ := @sortLoop_sorted h n (2 * depth) (sortPass cmp depth l.length l)
        (by rw [length_sortPass]; calc l.length ≤ depth * 2 ^ (n + 1) := hn
              _ = 2 * depth * 2 ^ n := by ring) (by omega)
        (fun a ha => hS a ((sortPass_perm cmp depth _ l).mem_iff.1 ha)) hpass
      exact ⟨hsorted, fun k => (hkeep k).trans (hfilter k)⟩

/-- `psync_list_sort` sorts, and is stable. -/
theorem listSort_sorted (h : Compares cmp key S) {l : List α} (hS : ∀ a ∈ l, S a) :
    SortedBy key (listSort cmp l) ∧
      ∀ k, (listSort cmp l).filter (fun a => key a = k) = l.filter (fun a => key a = k) :=
  sortLoop_sorted h (by rw [one_mul]; exact Nat.lt_two_pow_self.le) one_pos hS (runsSorted_one l)

/-! ## Extracting -/

theorem filter_eq_nil_of_lt {k : κ} {y : α} {l : List α} (hk : k < key y)
    (hle : ∀ a ∈ l, key y ≤ key a) : (y :: l).filter (fun a => key a = k) = [] := by
  rw [List.filter_eq_nil_iff]
  intro a ha
  rcases List.mem_cons.1 ha with rfl | ha
  · simpa using hk.ne'
  · simpa using (hk.trans_le (hle a ha)).ne'

/-- Of each key, the first elements of both lists are the pairs. -/
theorem extractLoop_zip (h : Compares cmp key S) (k : κ) : ∀ {n : Nat} {l1 l2 : List α},
    l1.length + l2.length ≤ n → (∀ a ∈ l1, S a) → (∀ a ∈ l2, S a) → SortedBy key l1 →
    SortedBy key l2 →
    ((extractLoop cmp n l1 l2).extracted1.zip (extractLoop cmp n l1 l2).extracted2).filter
        (fun p => key p.1 = k) =
      (l1.filter fun a => key a = k).zip (l2.filter fun a => key a = k)
  | 0, l1, l2, hn, _, _, _, _ => by
    have hl1 : l1 = [] := List.length_eq_zero_iff.1 (by omega)
    subst hl1
    simp [extractLoop]
  | n + 1, [], l2, _, _, _, _, _ => by simp [extractLoop]
  | n + 1, x :: l1, [], _, _, _, _, _ => by simp [extractLoop]
  | n + 1, x :: l1, y :: l2, hn, hS1, hS2, hsort1, hsort2 => by
    have hx := hS1 x (by simp)
    have hy := hS2 y (by simp)
    have hS1' : ∀ a ∈ l1, S a := fun a ha => hS1 a (by simp [ha])
    have hS2' : ∀ a ∈ l2, S a := fun a ha => hS2 a (by simp [ha])
    obtain ⟨hle1, hsort1'⟩ := List.pairwise_cons.1 hsort1
    obtain ⟨hle2, hsort2'⟩ := List.pairwise_cons.1 hsort2
    simp only [List.length_cons] at hn
    rw [extractLoop]
    split
    · next hlt =>
      have hkey := (h.lt x y hx hy).1 hlt
      have ih := @extractLoop_zip h k n l1 (y :: l2) (by simp; omega) hS1' hS2 hsort1' hsort2
      simp only [ih]
      by_cases hk : key x = k
      · -- the other list only has later keys
        rw [filter_eq_nil_of_lt (hk ▸ hkey) hle2, List.zip_nil_right, List.zip_nil_right]
      · rw [List.filter_cons_of_neg (a := x) (by simpa using hk)]
    · split
      · next hgt =>
        have hkey := (h.gt x y hx hy).1 hgt
        have ih := @extractLoop_zip h k n (x :: l1) l2 (by simp; omega) hS1 hS2' hsort1 hsort2'
        simp only [ih]
        by_cases hk : key y = k
        · rw [filter_eq_nil_of_lt (hk ▸ hkey) hle1, List.zip_nil_left, List.zip_nil_left]
        · rw [List.filter_cons_of_neg (a := y) (by simpa using hk)]
      · have hkey : key x = key y := (h.eq hx hy).1 (by omega)
        have ih := @extractLoop_zip h k n l1 l2 (by omega) hS1' hS2' hsort1' hsort2'
        rw [List.zip_cons_cons]
        by_cases hk : key x = k
        · rw [List.filter_cons_of_pos (by simpa using hk), ih,
            List.filter_cons_of_pos (by simpa using hk),
            List.filter_cons_of_pos (by simpa [← hkey] using hk), List.zip_cons_cons]
        · rw [List.filter_cons_of_neg (by simpa using hk), ih,
            List.filter_cons_of_neg (by simpa using hk),
            List.filter_cons_of_neg (by simpa [← hkey] using hk)]

/-- What is left of the two lists has no key in common. -/
theorem extractLoop_rest (h : Compares cmp key S) : ∀ {n : Nat} {l1 l2 : List α},
    l1.length + l2.length ≤ n → (∀ a ∈ l1, S a) → (∀ a ∈ l2, S a) → SortedBy key l1 →
    SortedBy key l2 → ∀ a ∈ (extractLoop cmp n l1 l2).rest1,
      ∀ b ∈ (extractLoop cmp n l1 l2).rest2, key a ≠ key b
  | 0, l1, l2, hn, _, _, _, _ => by
    have hl1 : l1 = [] := List.length_eq_zero_iff.1 (by omega)
    subst hl1
    simp [extractLoop]
  | n + 1, [], l2, _, _, _, _, _ => by simp [extractLoop]
  | n + 1, x :: l1, [], _, _, _, _, _ => by simp [extractLoop]
  | n + 1, x :: l1, y :: l2, hn, hS1, hS2, hsort1, hsort2 => by
    have hx := hS1 x (by simp)
    have hy := hS2 y (by simp)
    have hS1' : ∀ a ∈ l1, S a := fun a ha => hS1 a (by simp [ha])
    have hS2' : ∀ a ∈ l2, S a := fun a ha => hS2 a (by simp [ha])
    obtain ⟨hle1, hsort1'⟩ := List.pairwise_cons.1 hsort1
    obtain ⟨hle2, hsort2'⟩ := List.pairwise_cons.1 hsort2
    simp only [List.length_cons] at hn
    rw [extractLoop]
    split
    · next hlt =>
      have hkey := (h.lt x y hx hy).1 hlt
      have ih := @extractLoop_rest h n l1 (y :: l2) (by simp; omega) hS1' hS2 hsort1' hsort2
      intro a ha b hb
      rcases List.mem_cons.1 ha with rfl | ha
      · have hmem : b ∈ y :: l2 :=
          (extractLoop_perm cmp n l1 (y :: l2)).2.mem_iff.1 (List.mem_append_left _ hb)
        rcases List.mem_cons.1 hmem with rfl | hmem
        · exact hkey.ne
        · exact (hkey.trans_le (hle2 b hmem)).ne
      · exact ih a ha b hb
    · split
      · next hgt =>
        have hkey := (h.gt x y hx hy).1 hgt
        have ih := @extractLoop_rest h n (x :: l1) l2 (by simp; omega) hS1 hS2' hsort1 hsort2'
        intro a ha b hb
        rcases List.mem_cons.1 hb with rfl | hb
        · have hmem : a ∈ x :: l1 :=
            (extractLoop_perm cmp n (x :: l1) l2).1.mem_iff.1 (List.mem_append_left _ ha)
          rcases List.mem_cons.1 hmem with rfl | hmem
          · exact hkey.ne'
          · exact (hkey.trans_le (hle1 a hmem)).ne'
        · exact ih a ha b hb
      · exact @extractLoop_rest h n l1 l2 (by omega) hS1' hS2' hsort1' hsort2'

/-- What `psync_list_extract_repeating` does to two lists on whose elements the comparison is that
of `key`: of each key it takes the first elements of both lists, and as many as it can. -/
theorem listExtractRepeating_spec (h : Compares cmp key S) {l1 l2 : List α} (hS1 : ∀ a ∈ l1, S a)
    (hS2 : ∀ a ∈ l2, S a) :
    (∀ k, ((listExtractRepeating cmp l1 l2 [] []).extracted1.zip
        (listExtractRepeating cmp l1 l2 [] []).extracted2).filter (fun p => key p.1 = k) =
      (l1.filter fun a => key a = k).zip (l2.filter fun a => key a = k)) ∧
    ∀ a ∈ (listExtractRepeating cmp l1 l2 [] []).rest1,
      ∀ b ∈ (listExtractRepeating cmp l1 l2 [] []).rest2, key a ≠ key b := by
  obtain ⟨hsort1, hkeep1⟩ := listSort_sorted h hS1
  obtain ⟨hsort2, hkeep2⟩ := listSort_sorted h hS2
  have hS1' : ∀ a ∈ listSort cmp l1, S a := fun a ha => hS1 a ((listSort_perm cmp l1).mem_iff.1 ha)
  have hS2' : ∀ a ∈ listSort cmp l2, S a := fun a ha => hS2 a ((listSort_perm cmp l2).mem_iff.1 ha)
  refine ⟨fun k => ?_, extractLoop_rest h le_rfl hS1' hS2' hsort1 hsort2⟩
  have hzip := extractLoop_zip h k le_rfl hS1' hS2' hsort1 hsort2
  rw [hkeep1, hkeep2] at hzip
  exact hzip

/-- What holds of the extraction whatever the comparison is. -/
theorem listExtractRepeating_perm (cmp : α → α → Int) (l1 l2 : List α) :
    ((listExtractRepeating cmp l1 l2 [] []).rest1 ++
        (listExtractRepeating cmp l1 l2 [] []).extracted1).Perm l1 ∧
      ((listExtractRepeating cmp l1 l2 [] []).rest2 ++
        (listExtractRepeating cmp l1 l2 [] []).extracted2).Perm l2 ∧
      List.Forall₂ (fun a b => cmp a b = 0) (listExtractRepeating cmp l1 l2 [] []).extracted1
        (listExtractRepeating cmp l1 l2 [] []).extracted2 := by
  obtain ⟨h1, h2⟩ := extractLoop_perm cmp ((listSort cmp l1).length + (listSort cmp l2).length)
    (listSort cmp l1) (listSort cmp l2)
  exact ⟨h1.trans (listSort_perm cmp l1), h2.trans (listSort_perm cmp l2),
    extractLoop_pairs cmp _ _ _⟩

end PcloudClient.Plist
