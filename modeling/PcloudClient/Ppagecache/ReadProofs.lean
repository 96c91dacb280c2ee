/-
  Ppagecache/ReadProofs.lean --- what a read returns.

  The pages of a request put together are its bytes in the revision.  Over them come the bytes
  of the data file, and the two of them are the bytes of the file, unless the request goes past
  the end of a file that has become shorter than the revision.
-/
import PcloudClient.Pfs.PlainFileProofs
import PcloudClient.Ppagecache.Read

set_option autoImplicit false

namespace PcloudClient.Ppagecache

open PcloudClient.Foundation
open PcloudClient.Pfs

/-! ## Pages -/

section

variable {remote buf : Bytes} {firstPageId pageoff size pagecnt offset i : Nat}

/-- The bytes that the pages before `i` have given. -/
def done (size pageoff i : Nat) : Nat := min size (i * PSYNC_FS_PAGE_SIZE - pageoff)

/-- The pages of a request are those that begin before its end. -/
theorem lt_pagecnt_iff {t : Nat} :
    i < sizeRoundUpToPage t / PSYNC_FS_PAGE_SIZE ↔ i * PSYNC_FS_PAGE_SIZE < t := by
  have hpage : 0 < PSYNC_FS_PAGE_SIZE := by decide
  rw [sizeRoundUpToPage, Nat.mul_div_cancel _ hpage, ← Nat.succ_le_iff, Nat.le_div_iff_mul_le hpage,
    Nat.succ_mul]
  unfold PSYNC_FS_PAGE_SIZE
  omega

theorem min_eq_ite {a b : Nat} : (if a < b then a else b) = min b a := by
  split <;> omega

/-- The last page of a request has what is left of it. -/
theorem last_eq {t s : Nat} (hs : s = i * PSYNC_FS_PAGE_SIZE) (hstart : s < t)
    (hend : t ≤ s + PSYNC_FS_PAGE_SIZE) :
    (if t % PSYNC_FS_PAGE_SIZE = 0 then PSYNC_FS_PAGE_SIZE else t % PSYNC_FS_PAGE_SIZE) =
      t - s := by
  unfold PSYNC_FS_PAGE_SIZE at *
  split <;> omega

/-- A page gives the bytes from those done before it on to those done behind it. -/
theorem copysize_eq (hoff : pageoff < PSYNC_FS_PAGE_SIZE)
    (hcnt : pagecnt = sizeRoundUpToPage (size + pageoff) / PSYNC_FS_PAGE_SIZE) (hi : i < pagecnt) :
    pbuff pageoff i = done size pageoff i ∧
      pbuff pageoff i + copysize size pageoff pagecnt i = done size pageoff (i + 1) ∧
      copyoff pageoff i + copysize size pageoff pagecnt i ≤ PSYNC_FS_PAGE_SIZE ∧
      i * PSYNC_FS_PAGE_SIZE + copyoff pageoff i = pageoff + pbuff pageoff i := by
  have hstart := lt_pagecnt_iff.mp (hcnt ▸ hi)
  by_cases h0 : i = 0
  · subst h0
    simp only [pbuff, copysize, copyoff, done, if_true, min_eq_ite, Nat.zero_add, Nat.zero_mul,
      Nat.zero_sub, Nat.min_zero, Nat.one_mul, Nat.add_zero, true_and]
    refine ⟨?_, trivial⟩
    omega
  · have hfirst : PSYNC_FS_PAGE_SIZE ≤ i * PSYNC_FS_PAGE_SIZE :=
      Nat.le_mul_of_pos_left _ (Nat.pos_of_ne_zero h0)
    have hnext : (i + 1) * PSYNC_FS_PAGE_SIZE = i * PSYNC_FS_PAGE_SIZE + PSYNC_FS_PAGE_SIZE :=
      Nat.succ_mul ..
    simp only [pbuff, copysize, copyoff, done, if_neg h0, hnext]
    by_cases hend : i = pagecnt - 1
    · have hlast : ¬ (i + 1) * PSYNC_FS_PAGE_SIZE < size + pageoff := fun h => by
        have hmore := hcnt ▸ lt_pagecnt_iff.mpr h
        omega
      rw [if_pos hend, last_eq rfl hstart (by omega)]
      omega
    · have hinner : i + 1 < pagecnt := by omega
      have hmore := lt_pagecnt_iff.mp (hcnt ▸ hinner)
      rw [if_neg hend]
      omega

theorem pageLoop_eq (hoff : pageoff < PSYNC_FS_PAGE_SIZE)
    (hcnt : pagecnt = sizeRoundUpToPage (size + pageoff) / PSYNC_FS_PAGE_SIZE)
    (hoffset : offset = firstPageId * PSYNC_FS_PAGE_SIZE + pageoff)
    (hin : offset + size ≤ remote.length) (n : Nat) (hn : i + n = pagecnt) :
    pageLoop remote firstPageId pageoff size pagecnt n i
        (File.pwrite buf (File.pread remote (done size pageoff i) offset) 0) =
      (size, File.pwrite buf (File.pread remote size offset) 0) := by
  induction n generalizing i with
  | zero =>
    have hdone : done size pageoff i = size := by
      unfold sizeRoundUpToPage at hcnt
      unfold done PSYNC_FS_PAGE_SIZE at *
      omega
    rw [pageLoop, hdone]
  | succ n ih =>
    obtain ⟨hpbuff, hnext, hpage, hplace⟩ :=
      @copysize_eq pageoff size pagecnt i hoff hcnt (by omega)
    have hdata : File.pread (page remote (firstPageId + i)) (copysize size pageoff pagecnt i)
        (copyoff pageoff i) = File.pread remote (copysize size pageoff pagecnt i)
          (offset + done size pageoff i) := by
      have hmul : (firstPageId + i) * PSYNC_FS_PAGE_SIZE =
          firstPageId * PSYNC_FS_PAGE_SIZE + i * PSYNC_FS_PAGE_SIZE := Nat.add_mul ..
      have hpos : (firstPageId + i) * PSYNC_FS_PAGE_SIZE + copyoff pageoff i =
          offset + done size pageoff i := by omega
      rw [page, File.pread_pread hpage, hpos]
    have hdone : done size pageoff (i + 1) ≤ size := min_le_left _ _
    have hlen : (File.pread remote (copysize size pageoff pagecnt i)
        (offset + done size pageoff i)).length = copysize size pageoff pagecnt i :=
      File.length_pread_of_le (by omega)
    simp only [pageLoop, hdata, hlen, if_true]
    have hbytes : (File.pread remote (done size pageoff i) offset).length = done size pageoff i :=
      File.length_pread_of_le (by omega)
    have hbuf := File.pwrite_zero_append buf (File.pread remote (done size pageoff i) offset)
      (File.pread remote (copysize size pageoff pagecnt i) (offset + done size pageoff i))
    rw [hbytes, File.pread_append_pread, ← hpbuff, hnext] at hbuf
    rw [← hpbuff, hbuf]
    exact ih (by omega)

/-- The pages of a request have its bytes. -/
theorem readUnmodified_eq {of : Openfile} (hsize : of.initialsize = of.remote.length) (buf : Bytes)
    (size offset : Nat) :
    readUnmodified of buf size offset =
      ((File.pread of.remote size offset).length,
        File.pwrite buf (File.pread of.remote size offset) 0) := by
  unfold readUnmodified
  rw [hsize]
  split
  · next hout =>
    have hnil : File.pread of.remote size offset = [] := by
      rw [← List.length_eq_zero_iff, File.length_pread]
      omega
    rw [hnil]
    rfl
  · next hout =>
    dsimp only
    have hclip : (if of.remote.length < offset + size then of.remote.length - offset else size) =
        (File.pread of.remote size offset).length := by
      rw [File.length_pread]
      split <;> omega
    have hbytes : File.pread of.remote (File.pread of.remote size offset).length offset =
        File.pread of.remote size offset := by
      rw [File.length_pread, File.pread, File.pread, List.take_eq_take_iff, List.length_drop]
      omega
    have hpage : offset - offsetRoundDownToPage offset < PSYNC_FS_PAGE_SIZE := by
      unfold offsetRoundDownToPage PSYNC_FS_PAGE_SIZE
      omega
    have hplace : offset = offsetRoundDownToPage offset / PSYNC_FS_PAGE_SIZE * PSYNC_FS_PAGE_SIZE +
        (offset - offsetRoundDownToPage offset) := by
      unfold offsetRoundDownToPage PSYNC_FS_PAGE_SIZE
      omega
    have hlen := File.length_pread of.remote size offset
    rw [hclip]
    have hloop := @pageLoop_eq of.remote buf _ _ _ _ offset 0 hpage rfl hplace
      (show offset + (File.pread of.remote size offset).length ≤ of.remote.length by omega) _
      (Nat.zero_add _)
    have hnone : done (File.pread of.remote size offset).length
        (offset - offsetRoundDownToPage offset) 0 = 0 := by
      simp [done]
    have hstart : File.pwrite buf (File.pread of.remote 0 offset) 0 = buf := by
      simp [File.pread, File.pwrite]
    rw [hnone, hstart, hbytes] at hloop
    exact hloop

end

/-! ## Intervals over pages -/

section

variable {data buf : Bytes} {size offset rd : Nat} {fi : Span Nat} {l : List (Span Nat)}

theorem ioffset_eq : ioffset offset fi = max fi.start offset := by
  unfold ioffset
  split <;> omega

/-- An interval is read up to its end or that of the request. -/
theorem ioffset_add_isize (hne : fi.start < fi.stop) (hbehind : offset < fi.stop)
    (hin : fi.start < offset + size) :
    ioffset offset fi + isize size offset fi = min fi.stop (offset + size) := by
  have hio := @ioffset_eq offset fi
  unfold isize
  dsimp only
  split <;> split <;> omega

/-- How far into the request an interval of the data file reaches. -/
def reach (data : Bytes) (size offset : Nat) (fi : Span Nat) : Nat :=
  (File.pread data (isize size offset fi) (ioffset offset fi)).length + ioffset offset fi - offset

theorem overlayLoop_cons (hin : fi.start < offset + size) :
    overlayLoop data size offset (fi :: l) rd buf =
      overlayLoop data size offset l
        (if rd ≠ size ∧ rd < reach data size offset fi then reach data size offset fi else rd)
        (File.pwrite buf (File.pread data (isize size offset fi) (ioffset offset fi))
          (ioffset offset fi - offset)) := by
  rw [overlayLoop, if_neg (by omega)]
  rfl

theorem reach_eq (hne : fi.start < fi.stop) (hbehind : offset < fi.stop)
    (hin : fi.start < offset + size) :
    reach data size offset fi =
      min (min fi.stop (offset + size)) (max data.length (max fi.start offset)) - offset := by
  rw [reach, File.length_pread, ← Nat.add_min_add_right, Nat.sub_add_eq_max, Nat.add_comm,
    ioffset_add_isize hne hbehind hin, ioffset_eq]

/-- The intervals of a request, one after the other, do not reach behind its end. -/
theorem reach_le (hne : fi.start < fi.stop) (hbehind : offset < fi.stop)
    (hin : fi.start < offset + size) : reach data size offset fi ≤ size := by
  rw [reach_eq hne hbehind hin, Nat.sub_le_iff_le_add']
  exact Nat.le_trans (Nat.min_le_left _ _) (Nat.min_le_right _ _)

theorem reach_gt (hne : fi.start < fi.stop) (hbehind : offset < fi.stop)
    (hin : fi.start < offset + size) {k : Nat} (hk : k < size) (hstop : offset + k < fi.stop)
    (hdata : offset + k < data.length) : k < reach data size offset fi := by
  rw [reach_eq hne hbehind hin, Nat.lt_sub_iff_add_lt']
  exact lt_min (lt_min hstop (Nat.add_lt_add_left hk _)) (lt_max_of_lt_left hdata)

/-- What a read over intervals returns: at least what it had before, and as far as every interval
reaches. -/
theorem overlayLoop_rd (hsep : Intervals.Separated l) (hbehind : ∀ i ∈ l, offset < i.stop)
    (hrd : rd ≤ size) :
    rd ≤ (overlayLoop data size offset l rd buf).1 ∧
      (∀ i ∈ l, i.start < offset + size →
        reach data size offset i ≤ (overlayLoop data size offset l rd buf).1) ∧
      ∀ bound, rd ≤ bound → (∀ i ∈ l, i.start < offset + size →
        reach data size offset i ≤ bound) → (overlayLoop data size offset l rd buf).1 ≤ bound := by
  induction l generalizing rd buf with
  | nil => exact ⟨Nat.le_refl _, by simp, fun bound hb _ => hb⟩
  | cons i l ih =>
    obtain ⟨hne, hrest, hsep'⟩ := Intervals.separated_cons.mp hsep
    by_cases hin : i.start < offset + size
    · have hi := hbehind i (by simp)
      have hmax : (if rd ≠ size ∧ rd < reach data size offset i then reach data size offset i
          else rd) = max rd (reach data size offset i) := by
        have hle := @reach_le data size offset i hne hi hin
        split <;> omega
      rw [overlayLoop_cons hin, hmax]
      have hle := @reach_le data size offset i hne hi hin
      obtain ⟨h₁, h₂, h₃⟩ := @ih
        (File.pwrite buf (File.pread data (isize size offset i) (ioffset offset i))
          (ioffset offset i - offset)) (max rd (reach data size offset i)) hsep'
            (fun j hj => hbehind j (by simp [hj])) (by omega)
      refine ⟨by omega, ?_, ?_⟩
      · intro j hj hjin
        rcases List.mem_cons.mp hj with rfl | hj
        · omega
        · exact h₂ j hj hjin
      · intro bound hb hall
        exact h₃ bound (max_le hb (hall i (by simp) hin)) fun j hj => hall j (by simp [hj])
    · rw [overlayLoop, if_pos (by omega)]
      refine ⟨Nat.le_refl _, ?_, fun bound hb _ => hb⟩
      intro j hj hjin
      rcases List.mem_cons.mp hj with rfl | hj
      · omega
      · have hij := hrest j hj
        omega

/-- One interval is read into the buffer. -/
theorem getElem?_piece (hne : fi.start < fi.stop) (hbehind : offset < fi.stop)
    (hin : fi.start < offset + size) (hbuf : size ≤ buf.length) {k : Nat} (hk : k < size) :
    (File.pwrite buf (File.pread data (isize size offset fi) (ioffset offset fi))
        (ioffset offset fi - offset))[k]? =
      if (fi.start ≤ offset + k ∧ offset + k < fi.stop) ∧ offset + k < data.length then
        data[offset + k]?
      else buf[k]? := by
  have hoff : offset ≤ ioffset offset fi := by
    rw [ioffset_eq]
    exact le_max_right _ _
  have hreach : ioffset offset fi - offset +
      (File.pread data (isize size offset fi) (ioffset offset fi)).length =
        reach data size offset fi := by
    rw [reach]
    omega
  have hstart : ioffset offset fi - offset ≤ k ↔ fi.start ≤ offset + k := by
    rw [Nat.sub_le_iff_le_add', ioffset_eq, max_le_iff]
    exact and_iff_left (Nat.le_add_right _ _)
  split
  · next h =>
    obtain ⟨⟨hstart', hstop⟩, hdata⟩ := h
    have hge := hstart.mpr hstart'
    have hlt := reach_gt hne hbehind hin hk hstop hdata
    rw [File.getElem?_pwrite_inside hge (by omega), File.getElem?_pread, if_pos]
    · congr 1
      omega
    · have hend := ioffset_add_isize hne hbehind hin
      have hmin : offset + k < min fi.stop (offset + size) := lt_min hstop (by omega)
      omega
  · next h =>
    refine File.getElem?_pwrite_outside (by omega) ?_
    rw [hreach, reach_eq hne hbehind hin]
    by_contra hin'
    rw [not_or, Nat.not_lt, hstart, Nat.not_le, Nat.lt_sub_iff_add_lt', lt_min_iff, lt_min_iff,
      lt_max_iff] at hin'
    obtain ⟨hstart', ⟨hstop, -⟩, hdata | hplace⟩ := hin'
    · exact h ⟨⟨hstart', hstop⟩, hdata⟩
    · exact absurd hplace (Nat.not_lt.mpr (max_le hstart' (Nat.le_add_right _ _)))

/-- A byte of a buffer that is read from the data file where there is one in the intervals, and
is as before elsewhere. -/
def Overlaid (data : Bytes) (offset : Nat) (l : List (Span Nat)) (buf result : Bytes) (k : Nat) :
    Prop :=
  (offset + k ∈ Intervals.union l ∧ offset + k < data.length → result[k]? = data[offset + k]?) ∧
    (¬(offset + k ∈ Intervals.union l ∧ offset + k < data.length) → result[k]? = buf[k]?)

theorem overlayLoop_buf (hsep : Intervals.Separated l) (hbehind : ∀ i ∈ l, offset < i.stop)
    (hbuf : size ≤ buf.length) :
    (overlayLoop data size offset l rd buf).2.length = buf.length ∧
      ∀ k < size, Overlaid data offset l buf (overlayLoop data size offset l rd buf).2 k := by
  induction l generalizing rd buf with
  | nil => exact ⟨rfl, fun k _ => ⟨by simp, fun _ => rfl⟩⟩
  | cons i l ih =>
    obtain ⟨hne, hrest, hsep'⟩ := Intervals.separated_cons.mp hsep
    have hi := hbehind i (by simp)
    by_cases hin : i.start < offset + size
    · rw [overlayLoop_cons hin]
      have hlen : (File.pwrite buf (File.pread data (isize size offset i) (ioffset offset i))
          (ioffset offset i - offset)).length = buf.length := by
        have hend := ioffset_add_isize hne hi hin
        have hio := @ioffset_eq offset i
        have hpiece := File.length_pread data (isize size offset i) (ioffset offset i)
        exact File.length_pwrite_of_le (by omega)
      obtain ⟨h₁, h₂⟩ := @ih _ (if rd ≠ size ∧ rd < reach data size offset i then
        reach data size offset i else rd) hsep' (fun j hj => hbehind j (by simp [hj]))
        (show size ≤ _ from hlen ▸ hbuf)
      refine ⟨h₁.trans hlen, fun k hk => ?_⟩
      have hpiece := @getElem?_piece data buf size offset i hne hi hin hbuf k hk
      obtain ⟨hover, hkept⟩ := h₂ k hk
      rw [hpiece] at hkept
      unfold Overlaid
      simp only [Intervals.union_cons, Set.mem_union, Set.mem_Ico]
      by_cases hl : offset + k ∈ Intervals.union l ∧ offset + k < data.length
      · exact ⟨fun _ => hover hl, fun hnot => absurd ⟨Or.inr hl.1, hl.2⟩ hnot⟩
      · rw [hkept hl]
        refine ⟨fun ⟨hmem, hdata⟩ => if_pos ⟨?_, hdata⟩, fun hout => if_neg fun hfi => ?_⟩
        · exact hmem.resolve_right fun hmem' => hl ⟨hmem', hdata⟩
        · exact hout ⟨Or.inl hfi.1, hfi.2⟩
    · rw [overlayLoop, if_pos (by omega)]
      refine ⟨rfl, fun k hk => ⟨?_, fun _ => rfl⟩⟩
      rintro ⟨⟨j, hj, hstart, -⟩, -⟩
      rcases List.mem_cons.mp hj with rfl | hj
      · omega
      · have hij := hrest j hj
        omega

/-! ## Reading a modified file -/

/-- The intervals that a read goes over: those that end behind its offset. -/
theorem intervalsFrom_spec {tree : List (Span Nat)} (hsep : Intervals.Separated tree)
    (point : Nat) :
    Intervals.Separated (intervalsFrom tree point) ∧
      (∀ i ∈ intervalsFrom tree point, i ∈ tree ∧ point < i.stop) ∧
      ∀ x, point ≤ x →
        (x ∈ Intervals.union (intervalsFrom tree point) ↔ x ∈ Intervals.union tree) := by
  induction tree with
  | nil => exact ⟨Intervals.separated_nil, by simp [intervalsFrom], fun x _ => Iff.rfl⟩
  | cons i tree ih =>
    obtain ⟨hne, hrest, hsep'⟩ := Intervals.separated_cons.mp hsep
    by_cases hi : i.stop ≤ point
    · have hdrop : intervalsFrom (i :: tree) point = intervalsFrom tree point := by
        simp [intervalsFrom, hi]
      rw [hdrop]
      obtain ⟨h₁, h₂, h₃⟩ := ih hsep'
      refine ⟨h₁, fun j hj => ⟨by simp [(h₂ j hj).1], (h₂ j hj).2⟩, fun x hx => ?_⟩
      rw [h₃ x hx, Intervals.union_cons, Set.mem_union, Set.mem_Ico]
      constructor
      · exact Or.inr
      · rintro (hout | hin)
        · omega
        · exact hin
    · have hkeep : intervalsFrom (i :: tree) point = i :: tree := by
        simp [intervalsFrom, hi]
      rw [hkeep]
      refine ⟨hsep, fun j hj => ⟨hj, ?_⟩, fun x _ => Iff.rfl⟩
      rcases List.mem_cons.mp hj with rfl | hj
      · omega
      · have hij := hrest j hj
        have hj' := hsep'.nonempty j hj
        omega

/-- A read returns what there is of the file in the request, in the first bytes of the buffer. -/
def Reads (content : Bytes) (size offset : Nat) (r : Option (Nat × Bytes)) : Prop :=
  ∃ buf, r = some (min size (content.length - offset), buf) ∧
    ∀ k < min size (content.length - offset), buf[k]? = content[offset + k]?

/-- The request ends inside the file, the file has not become shorter than the revision, the
request begins behind it or asks for nothing, or it is inside one interval. -/
def Within (of : Openfile) (size offset : Nat) : Prop :=
  offset + size ≤ of.currentsize ∨ of.initialsize ≤ of.currentsize ∨ of.initialsize ≤ offset ∨
    size = 0 ∨ onlyLocal of size offset = true

variable {of : Openfile} {content : Bytes} {records : List IndexRecord}

/-- Every interval starts in the revision or right behind it. -/
theorem start_le_remote (ho : of.Overlay content data records) (ht : of.TreeExact)
    (hfi : fi ∈ of.writeintervals) : fi.start ≤ of.remote.length := by
  by_contra hstart
  have hunion : Intervals.union of.writeintervals = recorded records := by
    rw [ht.union_eq, Openfile.present, ho.indexfile]
    rfl
  have hne := ht.separated.nonempty fi hfi
  have hlast : fi.stop - 1 ∈ recorded records :=
    hunion ▸ ⟨fi, hfi, by omega, by omega⟩
  have hbefore := ho.solid _ hlast (fi.start - 1) (by omega) (by omega)
  rw [← hunion] at hbefore
  obtain ⟨j, hj, hstart', hstop'⟩ := hbefore
  rcases ht.separated.eq_or_apart hfi hj with rfl | hapart | hapart <;> omega

/-- No interval makes a read longer than it should be. -/
theorem reach_le_of_within (ho : of.Overlay content data records) (ht : of.TreeExact)
    (hwithin : Within of size offset) (hlocal : onlyLocal of size offset = false)
    (hfi : fi ∈ of.writeintervals) (hbehind : offset < fi.stop) (hin : fi.start < offset + size) :
    reach data size offset fi ≤ min size (content.length - offset) := by
  have hne := ht.separated.nonempty fi hfi
  have hremote := start_le_remote ho ht hfi
  unfold Within at hwithin
  rw [ho.currentsize, ho.initialsize, hlocal] at hwithin
  refine le_min (reach_le hne hbehind hin) ?_
  have hmax : max content.length offset - offset = content.length - offset := by omega
  rw [reach_eq hne hbehind hin, ho.length_data, ← hmax]
  refine Nat.sub_le_sub_right ?_ offset
  have hstart : fi.start ≤ max content.length offset →
      max content.length (max fi.start offset) ≤ max content.length offset :=
    fun h => max_le (le_max_left _ _) (max_le h (le_max_right _ _))
  rcases hwithin with h | h | h | h | h
  · exact le_max_of_le_left
      (Nat.le_trans (Nat.min_le_left _ _) (Nat.le_trans (Nat.min_le_right _ _) h))
  · exact Nat.le_trans (Nat.min_le_right _ _)
      (hstart (le_max_of_le_left (Nat.le_trans hremote h)))
  · exact Nat.le_trans (Nat.min_le_right _ _)
      (hstart (le_max_of_le_right (Nat.le_trans hremote h)))
  · refine le_max_of_le_right
      (Nat.le_trans (Nat.min_le_left _ _) (Nat.le_trans (Nat.min_le_right _ _) ?_))
    rw [h, Nat.add_zero]
  · exact absurd h (by simp)

/-- A request inside one interval is read from the data file. -/
theorem onlyLocal_mem (ho : of.Overlay content data records) (ht : of.TreeExact)
    (hlocal : onlyLocal of size offset = true) {k : Nat} (hk : k < size) :
    offset + k ∈ recorded records := by
  have hunion : Intervals.union of.writeintervals = recorded records := by
    rw [ht.union_eq, Openfile.present, ho.indexfile]
    rfl
  obtain ⟨-, hmem, -⟩ := intervalsFrom_spec ht.separated offset
  unfold onlyLocal at hlocal
  cases hhead : (intervalsFrom of.writeintervals offset).head? with
  | none => rw [hhead] at hlocal; exact absurd hlocal (by simp)
  | some fi =>
    rw [hhead, Option.any_some, decide_eq_true_eq] at hlocal
    rw [← hunion]
    exact ⟨fi, (hmem fi (List.mem_of_head? hhead)).1, by omega, by omega⟩

theorem readModified_local (ho : of.Overlay content data records) (ht : of.TreeExact)
    (hlocal : onlyLocal of size offset = true) (buf : Bytes) :
    Reads content size offset (readModified of buf size offset) := by
  have hlen := File.length_pread data size offset
  rw [ho.length_data] at hlen
  refine ⟨File.pwrite buf (File.pread data size offset) 0, ?_, fun k hk => ?_⟩
  · rw [← hlen]
    simp only [readModified, ho.datafile, Option.bind_eq_bind, Option.bind_some, hlocal, if_true]
    rfl
  · have hin := onlyLocal_mem ho ht hlocal (show k < size by omega)
    rw [File.pwrite_zero, List.getElem?_append_left (by omega), File.getElem?_pread,
      if_pos (by omega), ho.inside _ hin]

/-- The two parts of a read of a modified file: what the revision has, and over it what is in the
data file. -/
theorem readModified_mixed (ho : of.Overlay content data records)
    (hlocal : onlyLocal of size offset = false) (buf : Bytes) :
    readModified of buf size offset = some (overlayLoop data size offset
      (intervalsFrom of.writeintervals offset) (File.pread of.remote size offset).length
      (File.pwrite buf (File.pread of.remote size offset) 0)) := by
  simp only [readModified, ho.datafile, Option.bind_eq_bind, Option.bind_some, hlocal,
    Bool.false_eq_true, if_false, readUnmodified_eq ho.initialsize]
  rfl

/-- A read of a modified file returns its bytes exactly when the request does not go past the end
of a file that is shorter than the revision. -/
theorem readModified_iff (ho : of.Overlay content data records) (ht : of.TreeExact)
    (hbuf : buf.length = size) :
    Reads content size offset (readModified of buf size offset) ↔ Within of size offset := by
  cases hlocal : onlyLocal of size offset with
  | true =>
    exact iff_of_true (readModified_local ho ht hlocal buf)
      (Or.inr (Or.inr (Or.inr (Or.inr hlocal))))
  | false =>
    have hunion : Intervals.union of.writeintervals = recorded records := by
      rw [ht.union_eq, Openfile.present, ho.indexfile]
      rfl
    obtain ⟨hsep, hmem, hsame⟩ := intervalsFrom_spec ht.separated offset
    have hbehind := fun i hi => (hmem i hi).2
    have hrd := File.length_pread of.remote size offset
    have hbuf' : size ≤ (File.pwrite buf (File.pread of.remote size offset) 0).length :=
      hbuf ▸ File.length_le_pwrite ..
    obtain ⟨hge, hreach, hbound⟩ := @overlayLoop_rd data
      (File.pwrite buf (File.pread of.remote size offset) 0) size offset
      (File.pread of.remote size offset).length _ hsep hbehind (by omega)
    obtain ⟨-, hbytes⟩ := @overlayLoop_buf data _ size offset
      (File.pread of.remote size offset).length _ hsep hbehind hbuf'
    rw [readModified_mixed ho hlocal buf]
    generalize overlayLoop data size offset (intervalsFrom of.writeintervals offset)
      (File.pread of.remote size offset).length
      (File.pwrite buf (File.pread of.remote size offset) 0) = r at hge hreach hbound hbytes
    constructor
    · rintro ⟨buf', hr, -⟩
      by_contra hwithin
      unfold Within at hwithin
      rw [ho.currentsize, ho.initialsize] at hwithin
      have hfst : r.1 = min size (content.length - offset) := by
        rw [Option.some.inj hr]
      omega
    · intro hwithin
      -- a position of the file is in an interval or in the revision
      have hplace : ∀ k < min size (content.length - offset),
          k < r.1 ∧ r.2[k]? = content[offset + k]? := by
        intro k hk
        have hks : k < size := by omega
        have hkc : offset + k < content.length := by omega
        obtain ⟨hover, hkept⟩ := hbytes k hks
        rw [hsame (offset + k) (by omega), hunion, ho.length_data] at hover hkept
        by_cases hin : offset + k ∈ recorded records
        · refine ⟨?_, by rw [hover ⟨hin, hkc⟩, ho.inside _ hin]⟩
          rw [← hunion, ← hsame (offset + k) (by omega)] at hin
          obtain ⟨i, hi, hstart, hstop⟩ := hin
          have hlt := reach_gt (hsep.nonempty i hi) (hbehind i hi) (by omega) hks hstop
            (show offset + k < data.length by rw [ho.length_data]; exact hkc)
          have hle := hreach i hi (by omega)
          omega
        · obtain ⟨hbyte, hrange⟩ := ho.outside _ hkc hin
          refine ⟨by omega, ?_⟩
          rw [hkept (fun h => hin h.1), hbyte, File.pwrite_zero,
            List.getElem?_append_left (by omega), File.getElem?_pread, if_pos hks]
      have hle : r.1 ≤ min size (content.length - offset) := by
        refine hbound _ ?_ fun i hi hstart =>
          reach_le_of_within ho ht hwithin hlocal (hmem i hi).1 (hbehind i hi) hstart
        unfold Within at hwithin
        rw [ho.currentsize, ho.initialsize, hlocal] at hwithin
        rw [hrd]
        rcases hwithin with h | h | h | h | h
        · omega
        · omega
        · omega
        · omega
        · exact absurd h (by simp)
      have heq : r.1 = min size (content.length - offset) := by
        by_contra hne
        have hlt := (hplace r.1 (by omega)).1
        omega
      exact ⟨r.2, by rw [← heq], fun k hk => (hplace k hk).2⟩

end

end PcloudClient.Ppagecache
