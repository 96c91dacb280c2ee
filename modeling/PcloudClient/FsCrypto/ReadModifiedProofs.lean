/-
  FsCrypto/ReadModifiedProofs.lean --- which reads of a modified encrypted file are right.

  Reads of local sectors alone and of remote sectors alone always are: a result that is too short
  ends the read.  A merge goes on, and is described at one place of the buffer at a time.
-/
import PcloudClient.FsCrypto.ReadModified

set_option autoImplicit false

namespace PcloudClient.FsCrypto.ReadModified

open PcloudClient.Foundation

/-! ## The search for intervals -/

namespace Openfile

variable {of : Openfile}

/-- The interval that is carried from sector to sector is one of the tree. -/
def Carried (of : Openfile) (itr : Option (Span Nat)) : Prop :=
  ∀ i, itr = some i → i ∈ of.writeintervals

theorem carried_none : of.Carried none := fun _ h => nomatch h

theorem carried_nextInterval {itr : Option (Span Nat)} (h : of.Carried itr) (s : Nat) :
    of.Carried (of.nextInterval itr s) := by
  unfold nextInterval
  split
  · exact h
  · exact fun i hi => List.mem_of_find?_eq_some hi

/-- An interval that has a point is the first one that ends behind it. -/
theorem firstInterval_of_mem {i : Span Nat} (hi : i ∈ of.writeintervals) {point : Nat}
    (hstart : i.start ≤ point) (hstop : point < i.stop) : of.firstInterval point = some i := by
  obtain ⟨before, behind, hlist⟩ := List.append_of_mem hi
  have hsep := of.separated
  rw [hlist, Intervals.separated_append] at hsep
  rw [firstInterval, hlist, List.find?_append, List.find?_cons_of_pos (by simpa using hstop)]
  have hnone : before.find? (fun j => decide (point < j.stop)) = none := by
    rw [List.find?_eq_none]
    intro j hj
    have hapart := hsep.2.2 j hj i (List.mem_cons_self ..)
    simp only [decide_eq_true_eq]
    omega
  rw [hnone, Option.none_or]

theorem covers_nextInterval {itr : Option (Span Nat)} (h : of.Carried itr) (s : Nat) :
    covers (of.nextInterval itr s) s = of.isLocal s := by
  unfold nextInterval
  split
  · next hin =>
    obtain ⟨i, rfl, hi⟩ := (Option.any_eq_true _ _).mp hin
    rw [decide_eq_true_eq] at hi
    rw [isLocal, firstInterval_of_mem (h i rfl) hi.1 hi.2]
  · rfl

/-- What the first loop finds. -/
theorem classify_eq (l : List Nat) (rfr : Nat) {itr : Option (Span Nat)} (h : of.Carried itr) :
    (of.classify l rfr itr).1 =
        rfr ||| ((if l.any of.isLocal then 1 else 0) ||| if l.any (!of.isLocal ·) then 2 else 0) ∧
      of.Carried (of.classify l rfr itr).2 := by
  induction l generalizing rfr itr with
  | nil => exact ⟨by simp [classify], h⟩
  | cons s l ih =>
    obtain ⟨hval, hitr⟩ := ih (rfr ||| if covers (of.nextInterval itr s) s then 1 else 2)
      (carried_nextInterval h s)
    refine ⟨?_, hitr⟩
    rw [classify, hval, covers_nextInterval h, List.any_cons, List.any_cons, Nat.or_assoc]
    congr 1
    cases of.isLocal s with
    | true => cases l.any of.isLocal <;> cases l.any (!of.isLocal ·) <;> rfl
    | false => cases l.any of.isLocal <;> cases l.any (!of.isLocal ·) <;> rfl

theorem classify_local {l : List Nat} (h : ∀ s ∈ l, of.isLocal s = true) (hne : l ≠ []) :
    (of.classify l 0 none).1 = 1 := by
  obtain ⟨s, hs⟩ := List.exists_mem_of_ne_nil l hne
  have hany : l.any of.isLocal = true := List.any_eq_true.mpr ⟨s, hs, h s hs⟩
  have hnone : l.any (!of.isLocal ·) = false := by
    rw [List.any_eq_false]
    intro x hx
    simp [h x hx]
  rw [(classify_eq l 0 carried_none).1, hany, hnone]
  rfl

theorem classify_remote {l : List Nat} (h : ∀ s ∈ l, of.isLocal s = false) (hne : l ≠ []) :
    (of.classify l 0 none).1 = 2 := by
  obtain ⟨s, hs⟩ := List.exists_mem_of_ne_nil l hne
  have hany : l.any (!of.isLocal ·) = true := List.any_eq_true.mpr ⟨s, hs, by simp [h s hs]⟩
  have hnone : l.any of.isLocal = false := by
    rw [List.any_eq_false]
    intro x hx
    simp [h x hx]
  rw [(classify_eq l 0 carried_none).1, hany, hnone]
  rfl

theorem classify_mixed {l : List Nat} (hlocal : ∃ s ∈ l, of.isLocal s = true)
    (hremote : ∃ s ∈ l, of.isLocal s = false) : (of.classify l 0 none).1 = 3 := by
  have hany : l.any of.isLocal = true := List.any_eq_true.mpr hlocal
  have hother : l.any (!of.isLocal ·) = true := by
    obtain ⟨s, hs, h⟩ := hremote
    exact List.any_eq_true.mpr ⟨s, hs, by simp [h]⟩
  rw [(classify_eq l 0 carried_none).1, hany, hother]
  rfl

theorem classify_cases {l : List Nat} (hne : l ≠ []) :
    (∀ s ∈ l, of.isLocal s = true) ∧ (of.classify l 0 none).1 = 1 ∨
      (∀ s ∈ l, of.isLocal s = false) ∧ (of.classify l 0 none).1 = 2 ∨
      ((∃ s ∈ l, of.isLocal s = true) ∧ ∃ s ∈ l, of.isLocal s = false) ∧
        (of.classify l 0 none).1 = 3 := by
  by_cases hlocal : ∃ s ∈ l, of.isLocal s = true
  · by_cases hremote : ∃ s ∈ l, of.isLocal s = false
    · exact Or.inr (Or.inr ⟨⟨hlocal, hremote⟩, classify_mixed hlocal hremote⟩)
    · have hall : ∀ s ∈ l, of.isLocal s = true := by
        intro s hs
        by_contra hother
        exact hremote ⟨s, hs, Bool.eq_false_iff.mpr hother⟩
      exact Or.inl ⟨hall, classify_local hall hne⟩
  · have hall : ∀ s ∈ l, of.isLocal s = false := fun s hs =>
      Bool.eq_false_iff.mpr fun h => hlocal ⟨s, hs, h⟩
    exact Or.inr (Or.inl ⟨hall, classify_remote hall hne⟩)

end Openfile

/-! ## Reads of sectors -/

theorem copy_of_mem {buf : Buffer} {dst cnt p : Nat} (src : Nat → UInt8) (h : dst ≤ p)
    (hlt : p < dst + cnt) : copy buf dst cnt src p = src (p - dst) :=
  if_pos ⟨h, hlt⟩

theorem copy_of_notMem {buf : Buffer} {dst cnt p : Nat} (src : Nat → UInt8)
    (h : ¬ (dst ≤ p ∧ p < dst + cnt)) : copy buf dst cnt src p = buf p :=
  if_neg h

theorem toInt_le (n : Nat) : toInt n ≤ n := by
  unfold toInt
  rw [Int.bmod_def]
  split
  · omega
  · omega

section

variable {r : Results} {c : Contents} {buf : Buffer} {dst s : Nat}

/-- A full sector: either it is all there, or the result is the number of bytes that are. -/
theorem readNewfileFullSector_spec (p : Nat) :
    (readNewfileFullSector r c buf dst s).1 = r.sector s ∧
      (¬ (dst ≤ p ∧ p < dst + 4096) →
        (readNewfileFullSector r c buf dst s).2 p = buf p) ∧
      (dst ≤ p → (p : Int) < dst + r.sector s →
        (readNewfileFullSector r c buf dst s).2 p = c.sector s (p - dst)) ∧
      (dst ≤ p → ¬ (p : Int) < dst + r.sector s →
        (readNewfileFullSector r c buf dst s).2 p = c.junk p ∨
          (readNewfileFullSector r c buf dst s).2 p = buf p) := by
  have hle := r.sector_le s
  have hsize : sectorSize = 4096 := rfl
  unfold readNewfileFullSector
  split
  · next hneg =>
    simp only
    refine ⟨trivial, fun h => ?_, fun _ h => absurd h (by omega), fun hdst _ => ?_⟩
    · rw [copy_of_notMem _ (by omega)]
    · by_cases hin : p < dst + 4096
      · left
        rw [copy_of_mem _ hdst (by omega), Nat.add_sub_cancel' hdst]
      · right
        rw [copy_of_notMem _ (by omega)]
  · next hpos =>
    simp only
    refine ⟨trivial, fun h => ?_, fun hdst h => ?_, fun hdst h => Or.inr ?_⟩
    · rw [copy_of_notMem _ (by omega)]
    · rw [copy_of_mem _ hdst (by omega)]
    · rw [copy_of_notMem _ (by omega)]

/-- A part of a sector, from `offset` on. -/
theorem readNewfilePartialSector_spec (size offset p : Nat) :
    (readNewfilePartialSector r c buf dst s size offset).1 ≤ size ∧
      (¬ (dst ≤ p ∧ p < dst + size) →
        (readNewfilePartialSector r c buf dst s size offset).2 p = buf p) ∧
      (dst ≤ p → p < dst + size → ((offset + (p - dst) : Nat) : Int) < r.sector s →
        (readNewfilePartialSector r c buf dst s size offset).2 p =
          c.sector s (offset + (p - dst))) ∧
      (dst ≤ p → ¬ ((offset + (p - dst) : Nat) : Int) < r.sector s →
        (readNewfilePartialSector r c buf dst s size offset).2 p = buf p) ∧
      (dst ≤ p → (p : Int) < dst + (readNewfilePartialSector r c buf dst s size offset).1 →
        ((offset + (p - dst) : Nat) : Int) < r.sector s) := by
  unfold readNewfilePartialSector
  split
  · next hneg =>
    exact ⟨by omega, fun _ => rfl, fun _ _ h => absurd h (by omega), fun _ _ => rfl,
      fun _ h => absurd h (by omega)⟩
  · split
    · next hshort =>
      exact ⟨by omega, fun _ => rfl, fun _ _ h => absurd h (by omega), fun _ _ => rfl,
        fun _ h => absurd h (by omega)⟩
    · next hlong =>
      simp only
      refine ⟨by omega, fun h => ?_, fun hdst hlt h => ?_, fun hdst h => ?_, fun hdst h => by omega⟩
      · rw [copy_of_notMem _ (by omega)]
      · rw [copy_of_mem _ hdst (by omega)]
      · rw [copy_of_notMem _ (by omega)]

/-- A part of a sector comes to what is asked if the sector is long enough. -/
theorem readNewfilePartialSector_eq_iff {size offset : Nat} (hsize : 0 < size) :
    (readNewfilePartialSector r c buf dst s size offset).1 = size ↔
      ((offset + size : Nat) : Int) ≤ r.sector s := by
  unfold readNewfilePartialSector
  split
  · simp only
    omega
  · split
    · simp only
      omega
    · simp only
      omega

/-- The first `n` bytes of the buffer are those of the local sectors from `offset` on. -/
def Good (c : Contents) (offset : Nat) (n : Int) (buf : Buffer) : Prop :=
  ∀ p : Nat, (p : Int) < n → buf p = c.sector ((offset + p) / 4096) ((offset + p) % 4096)

/-- The bytes of one sector behind the good ones. -/
theorem Good.extend {offset rd : Nat} {n : Int} {buf' : Buffer} (h : Good c offset rd buf)
    {k : Nat} (hk : offset + rd = 4096 * s + k) (hkeep : ∀ p < rd, buf' p = buf p)
    (hnew : ∀ p,
      rd ≤ p → (p : Int) < n → k + (p - rd) < 4096 ∧ buf' p = c.sector s (k + (p - rd))) :
    Good c offset n buf' := by
  intro p hp
  rcases Nat.lt_or_ge p rd with hlt | hge
  · rw [hkeep p hlt]
    exact h p (by omega)
  · obtain ⟨hin, heq⟩ := hnew p hge hp
    have hdiv : (offset + p) / 4096 = s := by omega
    have hmod : (offset + p) % 4096 = k + (p - rd) := by omega
    rw [hdiv, hmod, heq]

theorem good_sectorsLoop {offset size rd : Nat} (hplace : offset + rd = 4096 * s ∨ size = 0)
    (h : Good c offset rd buf) :
    Good c offset (readSectorsLoop r c size s rd buf).1 (readSectorsLoop r c size s rd buf).2 := by
  have hsize : sectorSize = 4096 := rfl
  induction size, s, rd, buf using readSectorsLoop.induct r c with
  | case1 size s rd buf hfull ret hshort =>
    have hspec := fun p => @readNewfileFullSector_spec r c buf rd s p
    rw [readSectorsLoop, if_pos hfull]
    simp only
    rw [if_pos hshort]
    have hk : offset + rd = 4096 * s + 0 := by omega
    refine h.extend hk (fun p hp => (hspec p).2.1 (by omega)) ?_
    intro p hge hp
    simp only at hp
    have hret : (readNewfileFullSector r c buf rd s).1 = r.sector s := (hspec p).1
    have hle := r.sector_le s
    have hin : (p : Int) < rd + r.sector s := by
      rw [hret] at hp
      split at hp
      · omega
      · have hword := toInt_le ((r.sector s).toNat + rd)
        omega
    refine ⟨by omega, ?_⟩
    rw [(hspec p).2.2.1 hge hin, Nat.zero_add]
  | case2 size s rd buf hfull ret hall ih =>
    have hspec := fun p => @readNewfileFullSector_spec r c buf rd s p
    have hret : r.sector s = 4096 := by
      rw [← (hspec 0).1]
      exact not_not.mp hall
    rw [readSectorsLoop, if_pos hfull]
    simp only
    rw [if_neg hall]
    refine ih (by omega) ?_
    have hk : offset + rd = 4096 * s + 0 := by omega
    refine h.extend hk (fun p hp => (hspec p).2.1 (by omega)) ?_
    intro p hge hp
    refine ⟨by omega, ?_⟩
    rw [(hspec p).2.2.1 hge (by omega), Nat.zero_add]
  | case3 size s rd buf hpart hsome ret hshort =>
    have hspec := fun p => @readNewfilePartialSector_spec r c buf rd s size 0 p
    rw [readSectorsLoop, if_neg hpart, if_pos hsome]
    simp only
    rw [if_pos hshort]
    have hk : offset + rd = 4096 * s + 0 := by omega
    refine h.extend hk (fun p hp => (hspec p).2.1 (by omega)) ?_
    intro p hge hp
    simp only at hp
    have hin : (p : Int) < rd + (readNewfilePartialSector r c buf rd s size 0).1 := by
      split at hp
      · omega
      · have hword := toInt_le ((readNewfilePartialSector r c buf rd s size 0).1.toNat + rd)
        omega
    have hreach := (hspec p).2.2.2.2 hge hin
    have hle := (hspec p).1
    exact ⟨by omega, (hspec p).2.2.1 hge (by omega) hreach⟩
  | case4 size s rd buf hpart hsome ret hall =>
    have hspec := fun p => @readNewfilePartialSector_spec r c buf rd s size 0 p
    rw [readSectorsLoop, if_neg hpart, if_pos hsome]
    simp only
    rw [if_neg hall]
    have hret : (readNewfilePartialSector r c buf rd s size 0).1 = size := not_not.mp hall
    have hk : offset + rd = 4096 * s + 0 := by omega
    refine h.extend hk (fun p hp => (hspec p).2.1 (by omega)) ?_
    intro p hge hp
    simp only at hp
    have hword := toInt_le (rd + size)
    have hreach := (hspec p).2.2.2.2 hge (by omega)
    exact ⟨by omega, (hspec p).2.2.1 hge (by omega) hreach⟩
  | case5 size s rd buf hpart hnone =>
    rw [readSectorsLoop, if_neg hpart, if_neg hnone]
    intro p hp
    have hword := toInt_le rd
    exact h p (by simp only at hp; omega)

/-- Whatever the reads come to, what is read of local sectors alone is right. -/
theorem good_newfileLocked (currentsize size offset : Nat) :
    Good c offset (readNewfileLocked r c currentsize size offset buf).1
      (readNewfileLocked r c currentsize size offset buf).2 := by
  have hsize : sectorSize = 4096 := rfl
  have hempty : ∀ (n : Int) (b : Buffer), n ≤ 0 → Good c offset n b := fun n b hn p hp =>
    absurd hp (by omega)
  unfold readNewfileLocked
  split
  · exact hempty _ _ (show (-22 : Int) ≤ 0 by decide)
  split
  · exact hempty _ _ r.waited_le
  split
  · exact hempty _ _ (Int.le_refl 0)
  simp only [hsize]
  generalize (if currentsize < offset + size then currentsize - offset else size) = size
  split
  · next hunaligned =>
    set offdiff := if 4096 - offset % 4096 < size then 4096 - offset % 4096 else size with hoffdiff
    have hle : offdiff ≤ 4096 - offset % 4096 := by
      rw [hoffdiff]
      split
      · exact Nat.le_refl _
      · omega
    have hspec := fun p => @readNewfilePartialSector_spec r c buf 0 (offset / 4096) offdiff
      (offset % 4096) p
    have hhead : Good c offset
        (readNewfilePartialSector r c buf 0 (offset / 4096) offdiff (offset % 4096)).1
        (readNewfilePartialSector r c buf 0 (offset / 4096) offdiff (offset % 4096)).2 := by
      have hk : offset + 0 = 4096 * (offset / 4096) + offset % 4096 := by omega
      refine (hempty _ buf (Int.le_refl 0)).extend hk (fun p hp => absurd hp (Nat.not_lt_zero p)) ?_
      intro p hge hp
      have hshort := (hspec p).1
      have hreach := (hspec p).2.2.2.2 hge (by omega)
      exact ⟨by omega, (hspec p).2.2.1 hge (by omega) hreach⟩
    split
    · exact hhead
    · next hall =>
      rw [not_not] at hall
      rw [hall] at hhead
      refine good_sectorsLoop ?_ hhead
      rw [hoffdiff]
      split
      · left
        omega
      · right
        omega
  · next haligned =>
    exact good_sectorsLoop (Or.inl (by omega)) (hempty _ _ (Int.le_refl 0))

theorem readSectorsLoop_le (size rd : Nat) :
    (readSectorsLoop r c size s rd buf).1 ≤ rd + size := by
  have hsize : sectorSize = 4096 := rfl
  induction size, s, rd, buf using readSectorsLoop.induct r c with
  | case1 size s rd buf hfull ret hshort =>
    have hret : (readNewfileFullSector r c buf rd s).1 = r.sector s :=
      (readNewfileFullSector_spec 0).1
    have hle := r.sector_le s
    have hword := toInt_le ((r.sector s).toNat + rd)
    rw [readSectorsLoop, if_pos hfull]
    simp only
    rw [if_pos hshort, hret]
    simp only
    split <;> omega
  | case2 size s rd buf hfull ret hall ih =>
    rw [readSectorsLoop, if_pos hfull]
    simp only
    rw [if_neg hall]
    exact Int.le_trans ih (by omega)
  | case3 size s rd buf hpart hsome ret hshort =>
    have hle := (@readNewfilePartialSector_spec r c buf rd s size 0 0).1
    have hword := toInt_le ((readNewfilePartialSector r c buf rd s size 0).1.toNat + rd)
    rw [readSectorsLoop, if_neg hpart, if_pos hsome]
    simp only
    rw [if_pos hshort]
    simp only
    split <;> omega
  | case4 size s rd buf hpart hsome ret hall =>
    have hword := toInt_le (rd + size)
    rw [readSectorsLoop, if_neg hpart, if_pos hsome]
    simp only
    rw [if_neg hall]
    simp only
    omega
  | case5 size s rd buf hpart hnone =>
    have hword := toInt_le rd
    rw [readSectorsLoop, if_neg hpart, if_neg hnone]
    simp only
    omega

theorem readNewfileLocked_le (currentsize size offset : Nat) :
    (readNewfileLocked r c currentsize size offset buf).1 ≤ size := by
  have hsize : sectorSize = 4096 := rfl
  unfold readNewfileLocked
  split
  · simp only [einval]
    omega
  split
  · exact Int.le_trans r.waited_le (Int.natCast_nonneg size)
  split
  · exact Int.natCast_nonneg _
  simp only [hsize]
  have hcut : (if currentsize < offset + size then currentsize - offset else size) ≤ size := by
    split <;> omega
  generalize (if currentsize < offset + size then currentsize - offset else size) = cut at hcut
  split
  · have hoffdiff : (if 4096 - offset % 4096 < cut then 4096 - offset % 4096 else cut) ≤ cut := by
      split <;> omega
    generalize (if 4096 - offset % 4096 < cut then 4096 - offset % 4096 else cut) = offdiff
      at hoffdiff
    split
    · have hle := (@readNewfilePartialSector_spec r c buf 0 (offset / 4096) offdiff
        (offset % 4096) 0).1
      simp only
      omega
    · have hle := @readSectorsLoop_le r c (readNewfilePartialSector r c buf 0 (offset / 4096)
        offdiff (offset % 4096)).2 (offset / 4096 + 1) (cut - offdiff) offdiff
      omega
  · have hle := @readSectorsLoop_le r c buf (offset / 4096) cut 0
    omega

end

/-! ## The merge -/

section

variable {of : Openfile} {r : Results} {c : Contents} {size offset : Nat}

/-- What a round leaves at a place of the buffer. -/
structure Round (r : Results) (c : Contents) (offset s p : Nat) (buf buf' : Buffer) : Prop where
  elsewhere : (offset + p) / 4096 ≠ s → buf' p = buf p
  reached : (offset + p) / 4096 = s → (((offset + p) % 4096 : Nat) : Int) < r.sector s →
    buf' p = c.sector s ((offset + p) % 4096)
  notReached : (offset + p) / 4096 = s → ¬ (((offset + p) % 4096 : Nat) : Int) < r.sector s →
    buf' p = c.junk p ∨ buf' p = buf p

/-- Only the byte at the place matters. -/
theorem Round.congr {s p : Nat} {buf buf' buf₁ buf₁' : Buffer} (h : Round r c offset s p buf buf')
    (hbuf : buf₁ p = buf p) (hbuf' : buf₁' p = buf' p) : Round r c offset s p buf₁ buf₁' :=
  ⟨fun hne => by rw [hbuf, hbuf', h.elsewhere hne],
    fun heq hreach => by rw [hbuf', h.reached heq hreach],
    fun heq hreach => by rw [hbuf, hbuf']; exact h.notReached heq hreach⟩

/-- A full sector that begins at the place `dst`. -/
theorem round_full {buf : Buffer} {dst s p : Nat} (hdst : offset + dst = s * 4096) :
    Round r c offset s p buf (readNewfileFullSector r c buf dst s).2 := by
  obtain ⟨-, hkeep, hnew, hfail⟩ := @readNewfileFullSector_spec r c buf dst s p
  refine ⟨fun h => hkeep (by omega), fun h hreach => ?_, fun h hreach =>
    hfail (by omega) (by omega)⟩
  have hplace : p - dst = (offset + p) % 4096 := by omega
  rw [hnew (by omega) (by omega), hplace]

/-- A part of a sector: the request begins or ends in it. -/
theorem round_partial {buf : Buffer} {dst s p rd off : Nat} (hp : p < size)
    (hdst : offset + dst = s * 4096 + off) (hfits : off + rd ≤ 4096)
    (hend : off + rd = 4096 ∨ dst + rd = size) (hstart : off = 0 ∨ dst = 0) :
    Round r c offset s p buf (readNewfilePartialSector r c buf dst s rd off).2 := by
  obtain ⟨-, hkeep, hnew, hfail, -⟩ := @readNewfilePartialSector_spec r c buf dst s rd off p
  refine ⟨fun h => hkeep (by omega), fun h hreach => ?_, fun h hreach => Or.inr ?_⟩
  · have hplace : off + (p - dst) = (offset + p) % 4096 := by omega
    rw [hnew (by omega) (by omega) (by omega), hplace]
  · exact hfail (by omega) (by omega)

theorem round_mergeSector (hsize : 0 < size) (hword : size < 2 ^ 32) {s p : Nat} (hp : p < size)
    (hfirst : offset / 4096 ≤ s) (hlast : s ≤ (offset + size - 1) / 4096) (buf : Buffer) :
    Round r c offset s p buf (mergeSector r c size offset buf s).2 := by
  have hsector : sectorSize = 4096 := rfl
  unfold mergeSector
  simp only [hsector]
  split
  · next hhead =>
    refine round_partial hp (by omega) ?_ ?_ (Or.inr rfl)
    · split <;> omega
    · split <;> omega
  · next hhead =>
    have hplace : ((s - offset / 4096) * 4096 - offset % 4096) % 2 ^ 32 = s * 4096 - offset := by
      omega
    have hdst : offset + (s * 4096 - offset) = s * 4096 := by omega
    rw [hplace]
    by_cases htail : s = (offset + size - 1) / 4096 ∧ (offset + size) % 4096 ≠ 0
    · have hpart : ¬ (offset + size) % 4096 = 4096 := by omega
      rw [if_pos htail, if_neg hpart]
      have hstart : offset + (s * 4096 - offset) = s * 4096 + 0 := hdst.trans (Nat.add_zero _).symm
      have hfits : 0 + (offset + size) % 4096 ≤ 4096 := by omega
      have hend : s * 4096 - offset + (offset + size) % 4096 = size := by omega
      exact round_partial hp hstart hfits (Or.inr hend) (Or.inl rfl)
    · simp only [if_neg htail, ↓reduceIte]
      exact round_full hdst

/-- A part of a sector that ends with the sector or with the request is all there if each of its
bytes is. -/
theorem part_reached {x : Int} {dst s rd off : Nat} (hdst : offset + dst = s * 4096 + off)
    (hpos : 0 < rd) (hfits : off + rd ≤ 4096) (hin : dst + rd ≤ size)
    (hend : off + rd = 4096 ∨ dst + rd = size) (hstart : off = 0 ∨ dst = 0) :
    ((off + rd : Nat) : Int) ≤ x ↔
      ∀ p < size, (offset + p) / 4096 = s → (((offset + p) % 4096 : Nat) : Int) < x := by
  constructor
  · intro hle p hp hs
    omega
  · intro hall
    have hlast := hall (dst + rd - 1) (by omega) (by omega)
    omega

/-- The read of a sector comes to what is asked if all its bytes of the request are reached. -/
theorem mergeSector_asked (hsize : 0 < size) {s : Nat} (hfirst : offset / 4096 ≤ s)
    (hlast : s ≤ (offset + size - 1) / 4096) (buf : Buffer) :
    (mergeSector r c size offset buf s).1 = true ↔
      ∀ p < size, (offset + p) / 4096 = s → (((offset + p) % 4096 : Nat) : Int) < r.sector s := by
  have hsector : sectorSize = 4096 := rfl
  have hle := r.sector_le s
  unfold mergeSector
  simp only [hsector]
  split
  · next hhead =>
    have hrd : 0 < if size < 4096 - offset % 4096 then size else 4096 - offset % 4096 := by
      split <;> omega
    have hdst : offset + 0 = s * 4096 + offset % 4096 := by omega
    rw [decide_eq_true_iff, readNewfilePartialSector_eq_iff hrd]
    refine part_reached hdst hrd ?_ ?_ ?_ (Or.inr rfl)
    · split <;> omega
    · split <;> omega
    · split <;> omega
  · next hhead =>
    have hdst : offset + (s * 4096 - offset) = s * 4096 + 0 := by omega
    by_cases htail : s = (offset + size - 1) / 4096 ∧ (offset + size) % 4096 ≠ 0
    · have hpart : ¬ (offset + size) % 4096 = 4096 := by omega
      simp only [if_pos htail, if_neg hpart]
      rw [decide_eq_true_iff, readNewfilePartialSector_eq_iff (by omega)]
      exact part_reached hdst (by omega) (by omega) (by omega) (Or.inr (by omega)) (Or.inl rfl)
    · simp only [if_neg htail, ↓reduceIte]
      have hfull : (readNewfileFullSector r c buf
          (((s - offset / 4096) * 4096 - offset % 4096) % 2 ^ 32) s).1 = r.sector s := by
        exact (readNewfileFullSector_spec 0).1
      have hall : ((0 + 4096 : Nat) : Int) ≤ r.sector s ↔ ∀ p < size, (offset + p) / 4096 = s →
          (((offset + p) % 4096 : Nat) : Int) < r.sector s :=
        part_reached hdst (by omega) (by omega) (by omega) (Or.inl rfl) (Or.inl rfl)
      rw [decide_eq_true_iff, hfull, ← hall]
      omega

/-- What the second loop makes of the buffer, whatever becomes of the mutex. -/
def mergeBuffer (of : Openfile) (r : Results) (c : Contents) (size offset : Nat) (l : List Nat)
    (buf : Buffer) : Buffer :=
  (l.filter fun s => of.isLocal s).foldl (fun buf s => (mergeSector r c size offset buf s).2) buf

/-- A local sector of the list does not come to what is asked of it. -/
def Short (of : Openfile) (r : Results) (size offset : Nat) (l : List Nat) : Prop :=
  ∃ s ∈ l, of.isLocal s = true ∧
    ∃ p < size, (offset + p) / 4096 = s ∧ ¬ (((offset + p) % 4096 : Nat) : Int) < r.sector s

/-- The loop keeps the mutex while nothing is short.  At a short sector it gives it up, and at the
next one it aborts where that is noticed. -/
theorem mergeLoop_eq (debug : Bool) (hsize : 0 < size) {l : List Nat}
    (hl : ∀ s ∈ l, offset / 4096 ≤ s ∧ s ≤ (offset + size - 1) / 4096)
    {itr : Option (Span Nat)} (hitr : of.Carried itr) (held : Bool) (buf : Buffer) :
    (¬ Short of r size offset l → mergeLoop of r c debug size offset l itr held buf =
      some (held, mergeBuffer of r c size offset l buf)) ∧
    (debug = false → ∃ held', mergeLoop of r c debug size offset l itr held buf =
      some (held', mergeBuffer of r c size offset l buf)) ∧
    (debug = true → Short of r size offset l ∨ held = false →
      mergeLoop of r c debug size offset l itr held buf = none ∨
        ∃ buf', mergeLoop of r c debug size offset l itr held buf = some (false, buf')) := by
  induction l generalizing itr held buf with
  | nil =>
    refine ⟨fun _ => rfl, fun _ => ⟨held, rfl⟩, fun _ hor => Or.inr ⟨buf, ?_⟩⟩
    rcases hor with ⟨s, hs, -⟩ | rfl
    · exact absurd hs List.not_mem_nil
    · rfl
  | cons s l ih =>
    obtain ⟨hfirst, hlast⟩ := hl s (List.mem_cons_self ..)
    have hrest := fun held buf => ih (fun x hx => hl x (List.mem_cons_of_mem _ hx))
      (Openfile.carried_nextInterval hitr s) held buf
    have hasked := mergeSector_asked (r := r) (c := c) hsize hfirst hlast buf
    have htail (h : Short of r size offset l) : Short of r size offset (s :: l) := by
      obtain ⟨x, hx, hshort⟩ := h
      exact ⟨x, List.mem_cons_of_mem _ hx, hshort⟩
    rw [mergeLoop]
    simp only [Openfile.covers_nextInterval hitr]
    by_cases hlocal : of.isLocal s = true
    · have hbuf : mergeBuffer of r c size offset (s :: l) buf =
          mergeBuffer of r c size offset l (mergeSector r c size offset buf s).2 := by
        rw [mergeBuffer, List.filter_cons_of_pos hlocal, List.foldl_cons]
        rfl
      rw [if_pos hlocal, hbuf]
      by_cases hgot : (mergeSector r c size offset buf s).1 = true
      · have hhead (h : Short of r size offset (s :: l)) : Short of r size offset l := by
          obtain ⟨x, hx, hxlocal, p, hp, hplace, hno⟩ := h
          rcases List.mem_cons.mp hx with rfl | hx
          · exact absurd (hasked.mp hgot p hp hplace) hno
          · exact ⟨x, hx, hxlocal, p, hp, hplace, hno⟩
        obtain ⟨hall, hrelease, hdebug⟩ := hrest held (mergeSector r c size offset buf s).2
        simp only [hgot, if_true]
        exact ⟨fun hno => hall fun h => hno (htail h), hrelease,
          fun hd hor => hdebug hd (hor.imp_left hhead)⟩
      · have hshort : Short of r size offset (s :: l) := by
          rw [hasked] at hgot
          push Not at hgot
          obtain ⟨p, hp, hplace, hno⟩ := hgot
          exact ⟨s, List.mem_cons_self .., hlocal, p, hp, hplace, Int.not_lt.mpr hno⟩
        obtain ⟨-, hrelease, hdebug⟩ := hrest false (mergeSector r c size offset buf s).2
        simp only [hgot, unlock]
        refine ⟨fun hno => absurd hshort hno, fun hd => ?_, fun hd _ => ?_⟩
        · obtain rfl := hd
          exact hrelease rfl
        · obtain rfl := hd
          cases held with
          | true => exact hdebug rfl (Or.inr rfl)
          | false => exact Or.inl rfl
    · have hbuf : mergeBuffer of r c size offset (s :: l) buf =
          mergeBuffer of r c size offset l buf := by
        rw [mergeBuffer, List.filter_cons_of_neg hlocal]
        rfl
      have hhead (h : Short of r size offset (s :: l)) : Short of r size offset l := by
        obtain ⟨x, hx, hxlocal, hshort⟩ := h
        rcases List.mem_cons.mp hx with rfl | hx
        · exact absurd hxlocal hlocal
        · exact ⟨x, hx, hxlocal, hshort⟩
      obtain ⟨hall, hrelease, hdebug⟩ := hrest held buf
      rw [if_neg hlocal, hbuf]
      exact ⟨fun hno => hall fun h => hno (htail h), hrelease,
        fun hd hor => hdebug hd (hor.imp_left hhead)⟩

/-- The buffer after the second loop, at one place. -/
theorem mergeBuffer_at (hsize : 0 < size) (hword : size < 2 ^ 32) {l : List Nat} (hnodup : l.Nodup)
    (hl : ∀ s ∈ l, offset / 4096 ≤ s ∧ s ≤ (offset + size - 1) / 4096) {p : Nat} (hp : p < size)
    (buf : Buffer) :
    ((offset + p) / 4096 ∈ l → of.isLocal ((offset + p) / 4096) = true →
      Round r c offset ((offset + p) / 4096) p buf (mergeBuffer of r c size offset l buf)) ∧
    (((offset + p) / 4096 ∉ l ∨ of.isLocal ((offset + p) / 4096) = false) →
      mergeBuffer of r c size offset l buf p = buf p) := by
  induction l generalizing buf with
  | nil => exact ⟨fun h => absurd h List.not_mem_nil, fun _ => rfl⟩
  | cons s l ih =>
    obtain ⟨hnot, hnodup⟩ := List.nodup_cons.mp hnodup
    obtain ⟨hfirst, hlast⟩ := hl s (List.mem_cons_self ..)
    have hrest := fun buf => ih hnodup (fun x hx => hl x (List.mem_cons_of_mem _ hx)) buf
    have hround := round_mergeSector (r := r) (c := c) hsize hword hp hfirst hlast buf
    by_cases hlocal : of.isLocal s = true
    · rw [mergeBuffer, List.filter_cons_of_pos hlocal, List.foldl_cons]
      obtain ⟨hin, hout⟩ := hrest (mergeSector r c size offset buf s).2
      constructor
      · intro hmem ht
        rcases List.mem_cons.mp hmem with hs | hmem
        · rw [hs]
          exact hround.congr rfl (hout (Or.inl (hs ▸ hnot)))
        · have hne : (offset + p) / 4096 ≠ s := fun hs => hnot (hs ▸ hmem)
          exact (hin hmem ht).congr (hround.elsewhere hne).symm rfl
      · intro hor
        have hne : (offset + p) / 4096 ≠ s := by
          rintro rfl
          rcases hor with hnmem | hremote
          · exact hnmem (List.mem_cons_self ..)
          · rw [hlocal] at hremote
            exact nomatch hremote
        exact (hout (hor.imp_left fun h hmem => h (List.mem_cons_of_mem _ hmem))).trans
          (hround.elsewhere hne)
    · rw [mergeBuffer, List.filter_cons_of_neg hlocal]
      obtain ⟨hin, hout⟩ := hrest buf
      constructor
      · intro hmem ht
        rcases List.mem_cons.mp hmem with hs | hmem
        · exact absurd (hs ▸ ht) hlocal
        · exact hin hmem ht
      · exact fun hor => hout (hor.imp_left fun h hmem => h (List.mem_cons_of_mem _ hmem))

theorem mem_sectorsOf {s : Nat} :
    s ∈ sectorsOf size offset ↔ offset / 4096 ≤ s ∧ s ≤ (offset + size - 1) / 4096 := by
  have hsector : sectorSize = 4096 := rfl
  rw [sectorsOf, List.mem_range'_1, hsector]
  omega

theorem mem_sectorsOf_place {p : Nat} (hp : p < size) :
    (offset + p) / 4096 ∈ sectorsOf size offset := by
  rw [mem_sectorsOf]
  omega

/-- The buffer after a merge that does not abort. -/
def mergedBuffer (of : Openfile) (r : Results) (c : Contents) (size offset : Nat) : Buffer :=
  mergeBuffer of r c (merged of r size offset) offset (sectorsOf (merged of r size offset) offset)
    (readRemote r c (Openfile.cut of.currentsize size offset) offset).2

/-- The merge, as it is reached. -/
theorem readModified_merge (debug : Bool) (h : of.Merges r size offset) :
    readModifiedLocked of r c debug size offset =
      (mergeLoop of r c debug (merged of r size offset) offset
          (sectorsOf (merged of r size offset) offset)
          (of.classify (sectorsOf (Openfile.cut of.currentsize size offset) offset) 0 none).2 true
          (readRemote r c (Openfile.cut of.currentsize size offset) offset).2).bind fun res =>
        (unlock debug res.1).bind fun _ => some (toInt (merged of r size offset), res.2) := by
  obtain ⟨hadmitted, ⟨hsize, hinside⟩, hlocal, hremote, hpos, hstill⟩ := h
  have hmixed := Openfile.classify_mixed hlocal hremote
  have hrb : ¬ (readRemote r c (Openfile.cut of.currentsize size offset) offset).1 < 0 := by
    simp only [readRemote]
    omega
  unfold readModifiedLocked
  rw [if_neg (Nat.not_lt.mpr hadmitted), if_neg (by omega)]
  simp only [Openfile.cut] at hmixed hrb ⊢
  rw [if_neg (by rw [hmixed]; decide), if_neg (by rw [hmixed]; decide), if_neg hrb,
    if_neg (by omega)]
  rfl

/-- The remote read reaches a place of the buffer, or leaves it. -/
theorem readRemote_place (size p : Nat) :
    (p : Int) < min r.remote size ∧ (readRemote r c size offset).2 p = c.remote (offset + p) ∨
      ¬ (p : Int) < min r.remote size ∧ (readRemote r c size offset).2 p = c.buf p := by
  unfold readRemote
  simp only
  by_cases hin : (p : Int) < min r.remote size
  · exact Or.inl ⟨hin, copy_of_mem _ (Nat.zero_le p) (by omega)⟩
  · exact Or.inr ⟨hin, copy_of_notMem _ (by omega)⟩

theorem cut_le (currentsize : Nat) : Openfile.cut currentsize size offset ≤ size := by
  unfold Openfile.cut
  split <;> omega

theorem cut_pos {currentsize : Nat} (hsize : 0 < size) (h : offset < currentsize) :
    0 < Openfile.cut currentsize size offset := by
  unfold Openfile.cut
  split <;> omega

theorem merged_pos (h : of.Merges r size offset) : 0 < merged of r size offset :=
  cut_pos (cut_pos h.inside.1 h.inside.2) h.still

theorem merged_le : merged of r size offset ≤ size :=
  cut_le r.newsize |>.trans (cut_le of.currentsize)

/-- How a read that merges ends: as the merged bytes, while nothing is short or where the second
unlock is not noticed, and else not at all. -/
theorem readModified_ends (debug : Bool) (h : of.Merges r size offset) :
    (debug = false ∨ ¬ Short of r (merged of r size offset) offset
        (sectorsOf (merged of r size offset) offset) →
      readModifiedLocked of r c debug size offset =
        some (toInt (merged of r size offset), mergedBuffer of r c size offset)) ∧
    (debug = true → Short of r (merged of r size offset) offset
        (sectorsOf (merged of r size offset) offset) →
      readModifiedLocked of r c debug size offset = none) := by
  obtain ⟨hall, hrelease, hdebug⟩ := mergeLoop_eq (r := r) (c := c) debug (merged_pos h)
    (fun s hs => mem_sectorsOf.mp hs)
    (Openfile.classify_eq (sectorsOf (Openfile.cut of.currentsize size offset) offset) 0
      Openfile.carried_none).2 true
    (readRemote r c (Openfile.cut of.currentsize size offset) offset).2
  rw [readModified_merge debug h]
  refine ⟨fun hor => ?_, fun hd hshort => ?_⟩
  · by_cases hshort : Short of r (merged of r size offset) offset
        (sectorsOf (merged of r size offset) offset)
    · obtain rfl := hor.resolve_right fun hno => hno hshort
      obtain ⟨held, heq⟩ := hrelease rfl
      rw [heq]
      rfl
    · rw [hall hshort]
      cases debug <;> rfl
  · obtain rfl := hd
    rcases hdebug rfl (Or.inl hshort) with heq | ⟨buf, heq⟩
    · rw [heq]
      rfl
    · rw [heq]
      rfl

/-- A place of the buffer after the merge. -/
theorem merge_at (h : of.Merges r size offset) (hword : size < 2 ^ 32) {p : Nat}
    (hp : p < merged of r size offset) :
    (of.isLocal ((offset + p) / 4096) = true →
      Round r c offset ((offset + p) / 4096) p
        (readRemote r c (Openfile.cut of.currentsize size offset) offset).2
        (mergedBuffer of r c size offset)) ∧
    (of.isLocal ((offset + p) / 4096) = false →
      mergedBuffer of r c size offset p =
        (readRemote r c (Openfile.cut of.currentsize size offset) offset).2 p) := by
  have hle := @merged_le of r size offset
  obtain ⟨hlocal, hremote⟩ := @mergeBuffer_at of r c _ offset (merged_pos h) (by omega) _
    (List.nodup_range' ..) (fun s hs => mem_sectorsOf.mp hs) p hp
    (readRemote r c (Openfile.cut of.currentsize size offset) offset).2
  exact ⟨fun ht => hlocal (mem_sectorsOf_place hp) ht, fun ht => hremote (Or.inr ht)⟩

/-- Reads that do not merge are right, whatever the reads of sectors come to. -/
theorem readOk_of_not_merges (debug : Bool) (h : ¬ of.Merges r size offset) :
    ReadOk debug of r size offset := by
  intro c
  unfold readModifiedLocked
  split
  · refine ⟨_, rfl, Or.inl ?_⟩
    simp only [einval]
    omega
  next hadmitted =>
  split
  · refine ⟨_, rfl, Or.inr fun p hp => ?_⟩
    exact absurd hp (by simp only; omega)
  next hinside =>
  have hsize : 0 < size ∧ offset < of.currentsize := by omega
  have hpos := cut_pos hsize.1 hsize.2
  have hmem : ∀ p < Openfile.cut of.currentsize size offset, (offset + p) / 4096 ∈
      sectorsOf (Openfile.cut of.currentsize size offset) offset := fun p hp =>
    mem_sectorsOf_place hp
  have hcases := @Openfile.classify_cases of _ (List.ne_nil_of_mem (hmem 0 hpos))
  have hcut : (if of.currentsize < offset + size then of.currentsize - offset else size) =
      Openfile.cut of.currentsize size offset := rfl
  simp only [hcut]
  split
  · next hfound =>
    refine ⟨_, rfl, Or.inr ?_⟩
    have hall : ∀ s ∈ sectorsOf (Openfile.cut of.currentsize size offset) offset,
        of.isLocal s = true := by
      rcases hcases with ⟨hall, -⟩ | ⟨-, htwo⟩ | ⟨-, hthree⟩
      · exact hall
      · omega
      · omega
    intro p hp
    have hle := @readNewfileLocked_le r c c.buf of.currentsize
      (Openfile.cut of.currentsize size offset) offset
    rw [Openfile.content]
    have ht := hall _ (hmem p (by omega))
    rw [show sectorSize = 4096 from rfl, if_pos ht]
    exact good_newfileLocked _ _ _ p hp
  next hnotLocal =>
  have hremote : ∀ p : Nat, (∀ s ∈ sectorsOf (Openfile.cut of.currentsize size offset) offset,
      of.isLocal s = false) → (p : Int) < (readRemote r c (Openfile.cut of.currentsize size offset)
        offset).1 → (readRemote r c (Openfile.cut of.currentsize size offset) offset).2 p =
          of.content c (offset + p) := by
    intro p hall hp
    have hin : (p : Int) < min r.remote (Openfile.cut of.currentsize size offset) := hp
    have ht := hall _ (hmem p (by omega))
    rw [Openfile.content, show sectorSize = 4096 from rfl, if_neg (by rw [ht]; decide)]
    rcases @readRemote_place r c offset
      (Openfile.cut of.currentsize size offset) p with hreach | hout
    · exact hreach.2
    · exact absurd hin hout.1
  split
  · next hfound =>
    refine ⟨_, rfl, Or.inr fun p hp => ?_⟩
    rcases hcases with ⟨-, hone⟩ | ⟨hall, -⟩ | ⟨-, hthree⟩
    · omega
    · exact hremote p hall hp
    · omega
  next hnotRemote =>
  split
  · next hneg => exact ⟨_, rfl, Or.inl hneg⟩
  next hpos' =>
  split
  · refine ⟨_, rfl, Or.inr fun p hp => ?_⟩
    exact absurd hp (by simp only; omega)
  next hstill =>
  refine absurd ⟨Nat.not_lt.mp hadmitted, hsize, ?_, ?_, ?_, Nat.not_le.mp hstill⟩ h
  · rcases hcases with ⟨-, hone⟩ | ⟨-, htwo⟩ | ⟨hboth, -⟩
    · exact absurd hone hnotLocal
    · exact absurd htwo hnotRemote
    · exact hboth.1
  · rcases hcases with ⟨-, hone⟩ | ⟨-, htwo⟩ | ⟨hboth, -⟩
    · exact absurd hone hnotLocal
    · exact absurd htwo hnotRemote
    · exact hboth.2
  · simp only [readRemote] at hpos'
    omega

/-- What a read that merges has to get, when it is right whatever there is to read. -/
theorem reached_of_buffer (hm : of.Merges r size offset) (hword : size < 2 ^ 32) {p : Nat}
    (hp : p < merged of r size offset)
    (hbuf : ∀ c, mergedBuffer of r c size offset p = of.content c (offset + p)) :
    of.Reached r (Openfile.cut of.currentsize size offset) offset p := by
  have hsector : sectorSize = 4096 := rfl
  -- four bytes that tell where what is read came from
  let c : Contents := ⟨fun _ => 1, fun _ _ => 0, fun _ => 2, fun _ => 2⟩
  obtain ⟨hlocal, hremote⟩ := merge_at (c := c) hm hword hp
  have hbyte : mergedBuffer of r c size offset p = of.content c (offset + p) := hbuf c
  unfold Openfile.Reached
  unfold Openfile.content at hbyte
  rw [hsector] at hbyte ⊢
  split
  · next ht =>
    rw [if_pos ht] at hbyte
    by_contra hshort
    rcases (hlocal ht).notReached rfl hshort with hjunk | hstale
    · rw [hjunk] at hbyte
      exact absurd hbyte (show (2 : UInt8) ≠ 0 by decide)
    · rw [hstale] at hbyte
      rcases @readRemote_place r c offset
        (Openfile.cut of.currentsize size offset) p with hin | hout
      · rw [hin.2] at hbyte
        exact absurd hbyte (show (1 : UInt8) ≠ 0 by decide)
      · rw [hout.2] at hbyte
        exact absurd hbyte (show (2 : UInt8) ≠ 0 by decide)
  · next ht =>
    rw [if_neg ht, hremote (Bool.eq_false_iff.mpr ht)] at hbyte
    rcases @readRemote_place r c offset
      (Openfile.cut of.currentsize size offset) p with hin | hout
    · exact hin.1
    · rw [hout.2] at hbyte
      exact absurd hbyte (show (2 : UInt8) ≠ 1 by decide)

/-- And that is enough. -/
theorem buffer_of_reached (hm : of.Merges r size offset) (hword : size < 2 ^ 32) {p : Nat}
    (hp : p < merged of r size offset)
    (hreached : of.Reached r (Openfile.cut of.currentsize size offset) offset p) :
    mergedBuffer of r c size offset p = of.content c (offset + p) := by
  have hsector : sectorSize = 4096 := rfl
  obtain ⟨hlocal, hremote⟩ := merge_at (c := c) hm hword hp
  unfold Openfile.Reached at hreached
  unfold Openfile.content
  rw [hsector] at hreached ⊢
  split at hreached
  · next ht =>
    rw [if_pos ht]
    exact (hlocal ht).reached rfl hreached
  · next ht =>
    rw [if_neg ht, hremote (Bool.eq_false_iff.mpr ht)]
    rcases @readRemote_place r c offset
      (Openfile.cut of.currentsize size offset) p with hin | hout
    · exact hin.2
    · exact absurd hreached hout.1

/-- A short local sector is one with a byte of the request that its read does not reach. -/
theorem short_iff : Short of r (merged of r size offset) offset
      (sectorsOf (merged of r size offset) offset) ↔
    ∃ p < merged of r size offset, of.isLocal ((offset + p) / 4096) = true ∧
      ¬ of.Reached r (Openfile.cut of.currentsize size offset) offset p := by
  have hsector : sectorSize = 4096 := rfl
  constructor
  · rintro ⟨s, -, hlocal, p, hp, rfl, hno⟩
    refine ⟨p, hp, hlocal, ?_⟩
    rwa [Openfile.Reached, hsector, if_pos hlocal]
  · rintro ⟨p, hp, hlocal, hno⟩
    rw [Openfile.Reached, hsector, if_pos hlocal] at hno
    exact ⟨_, mem_sectorsOf_place hp, hlocal, p, hp, rfl, hno⟩

/-- Every read that merges has to get all that it asks for, from the local sectors and from the
remote file; where the second unlock is noticed, from the local sectors also what an `int` does not
count. -/
theorem readModified_ok_iff (debug : Bool) (of : Openfile) (r : Results) {size : Nat} (offset : Nat)
    (hword : size < 2 ^ 32) :
    ReadOk debug of r size offset ↔ (of.Merges r size offset →
      (∀ p : Nat, (p : Int) < toInt (merged of r size offset) →
        of.Reached r (Openfile.cut of.currentsize size offset) offset p) ∧
      (debug = true → ∀ p < merged of r size offset,
        of.isLocal ((offset + p) / sectorSize) = true →
          of.Reached r (Openfile.cut of.currentsize size offset) offset p)) := by
  have hplace {p : Nat} (hp : (p : Int) < toInt (merged of r size offset)) :
      p < merged of r size offset := by
    have hint := toInt_le (merged of r size offset)
    omega
  constructor
  · intro hok hm
    have hlocal : debug = true → ¬ Short of r (merged of r size offset) offset
        (sectorsOf (merged of r size offset) offset) := by
      intro hd hshort
      obtain ⟨res, hres, -⟩ := hok ⟨fun _ => 0, fun _ _ => 0, fun _ => 0, fun _ => 0⟩
      rw [(readModified_ends debug hm).2 hd hshort] at hres
      cases hres
    refine ⟨fun p hp => reached_of_buffer hm hword (hplace hp) fun c => ?_, fun hd p hp ht => ?_⟩
    · have hends : debug = false ∨ ¬ Short of r (merged of r size offset) offset
          (sectorsOf (merged of r size offset) offset) := by
        cases debug with
        | false => exact Or.inl rfl
        | true => exact Or.inr (hlocal rfl)
      obtain ⟨res, hres, hneg | hall⟩ := hok c
      · rw [(readModified_ends debug hm).1 hends] at hres
        obtain rfl := Option.some.inj hres
        simp only at hneg
        omega
      · rw [(readModified_ends debug hm).1 hends] at hres
        obtain rfl := Option.some.inj hres
        simp only at hall
        exact hall p hp
    · by_contra hno
      exact hlocal hd (short_iff.mpr ⟨p, hp, ht, hno⟩)
  · intro hcond
    by_cases hm : of.Merges r size offset
    · obtain ⟨hreached, hlocal⟩ := hcond hm
      intro c
      refine ⟨_, (readModified_ends debug hm).1 ?_, Or.inr fun p hp => ?_⟩
      swap
      · simp only at hp ⊢
        exact buffer_of_reached hm hword (hplace hp) (hreached p hp)
      cases debug with
      | false => exact Or.inl rfl
      | true =>
        refine Or.inr fun hshort => ?_
        obtain ⟨p, hp, ht, hno⟩ := short_iff.mp hshort
        exact hno (hlocal rfl p hp ht)
    · exact readOk_of_not_merges debug hm

end

/-! ## A file of a local and a remote sector -/

theorem eoffset_eq {s : Nat} (h : s < 128) : eoffset s = s * 4096 := by
  have hge : ¬ hashTreeSectors ≤ s := by
    have htree : hashTreeSectors = 128 := rfl
    omega
  rw [eoffset, dataSectoridBySectorid, dataSectoridLoop, dif_neg hge, sectorSize_eq]

/-- Two sectors; the first one is local. -/
def twoSectors : Openfile where
  currentsize := 8192
  writeintervals := [⟨0, 4096⟩]
  separated := ⟨by simp, List.pairwise_singleton _ _⟩

/-- The local sector is read with the result `first`, the remote file as a whole. -/
def firstReads (first : Int) (h : first ≤ 4096) : Results :=
  ⟨0, Int.le_refl 0, 8192, 8192, fun _ => first, fun _ => h⟩

theorem isLocal_twoSectors : twoSectors.isLocal 0 = true ∧ twoSectors.isLocal 1 = false := by
  rw [Openfile.isLocal, Openfile.isLocal, eoffset_eq (by decide), eoffset_eq (by decide)]
  simp only [Openfile.covers, eoffset_eq (show 0 < 128 by decide),
    eoffset_eq (show 1 < 128 by decide)]
  decide

theorem merges_twoSectors (first : Int) (h : first ≤ 4096) :
    twoSectors.Merges (firstReads first h) 8192 0 where
  admitted := by decide
  inside := by decide
  someLocal := ⟨0, by decide, isLocal_twoSectors.1⟩
  someRemote := ⟨1, by decide, isLocal_twoSectors.2⟩
  remote := show (0 : Int) ≤ 8192 by decide
  still := show 0 < 8192 by decide

/-- The read is for the whole file. -/
theorem asked_twoSectors (first : Int) (h : first ≤ 4096) :
    Openfile.cut twoSectors.currentsize 8192 0 = 8192 ∧
      merged twoSectors (firstReads first h) 8192 0 = 8192 ∧ toInt 8192 = 8192 := by
  have hcut : Openfile.cut 8192 8192 0 = 8192 := by decide
  exact ⟨hcut, (congrArg (Openfile.cut 8192 · 0) hcut).trans hcut, by decide⟩

/-- With both sectors read as a whole the bytes are those of the file, in every build. -/
theorem readOk_twoSectors :
    ReadOk true twoSectors (firstReads 4096 (by decide)) 8192 0 ∧
      ReadOk false twoSectors (firstReads 4096 (by decide)) 8192 0 := by
  obtain ⟨hcut, hmerged, hint⟩ := asked_twoSectors 4096 (by decide)
  have hsector : sectorSize = 4096 := rfl
  have hfull : ∀ s, (firstReads 4096 (by decide)).sector s = 4096 := fun _ => rfl
  have hremote : (firstReads 4096 (by decide)).remote = 8192 := rfl
  have hreached (p : Nat) (hp : p < 8192) :
      twoSectors.Reached (firstReads 4096 (by decide)) 8192 0 p := by
    unfold Openfile.Reached
    rw [hfull, hremote, hsector]
    split <;> omega
  have hok (debug : Bool) : ReadOk debug twoSectors (firstReads 4096 (by decide)) 8192 0 := by
    refine (readModified_ok_iff debug _ _ 0 (by decide)).mpr fun _ => ?_
    rw [hcut, hmerged, hint]
    exact ⟨fun p hp => hreached p (by omega), fun _ p hp _ => hreached p hp⟩
  exact ⟨hok true, hok false⟩

/-- The read of the local sector fails: the bytes are not those of the file where the second unlock
is not noticed, and where it is the program aborts. -/
theorem not_readOk_failed :
    ¬ ReadOk false twoSectors (firstReads (-5) (by decide)) 8192 0 ∧
      ¬ ReadOk true twoSectors (firstReads (-5) (by decide)) 8192 0 ∧
      ∀ c, readModifiedLocked twoSectors (firstReads (-5) (by decide)) c true 8192 0 = none := by
  obtain ⟨hcut, hmerged, hint⟩ := asked_twoSectors (-5) (by decide)
  have hmerges := merges_twoSectors (-5) (by decide)
  have hfail : (firstReads (-5) (by decide)).sector 0 = -5 := rfl
  -- the place stays a variable: `Reached` at a literal is evaluated when it is elaborated
  obtain ⟨p, hp⟩ : ∃ p : Nat, p = 0 := ⟨0, rfl⟩
  have hfirst : (0 + p) / sectorSize = 0 := by
    rw [hp]
    decide
  have hno : ¬ twoSectors.Reached (firstReads (-5) (by decide)) 8192 0 p := by
    unfold Openfile.Reached
    rw [hfirst, if_pos isLocal_twoSectors.1, hfail]
    omega
  refine ⟨fun hok => ?_, fun hok => ?_, fun c => ?_⟩
  · obtain ⟨hreached, -⟩ := (readModified_ok_iff false _ _ 0 (by decide)).mp hok hmerges
    rw [hcut, hmerged, hint] at hreached
    exact hno (hreached p (by omega))
  · obtain ⟨hreached, -⟩ := (readModified_ok_iff true _ _ 0 (by decide)).mp hok hmerges
    rw [hcut, hmerged, hint] at hreached
    exact hno (hreached p (by omega))
  · refine (readModified_ends true hmerges).2 rfl (short_iff.mpr ⟨p, ?_, ?_, ?_⟩)
    · rw [hmerged]
      omega
    · rw [← sectorSize_eq, hfirst]
      exact isLocal_twoSectors.1
    · rwa [hcut]

end PcloudClient.FsCrypto.ReadModified
