/-
  Foundation/RecordFile.lean --- files of records of one width.

  A record is written to a slot.  A file whose next record goes to the slot behind its last whole
  record grows by that record; a record in a later slot leaves slots that nobody wrote.
-/
import PcloudClient.Foundation.File

set_option autoImplicit false

namespace PcloudClient.RecordFile

open PcloudClient.File

variable (w : Nat)

/-- What stands in the slot `i`. -/
def record (f : Bytes) (i : Nat) : Bytes := pread f w (i * w)

/-- The number of whole records. -/
def count (f : Bytes) : Nat := f.length / w

def records (f : Bytes) : List Bytes := (List.range (count w f)).map (record w f)

variable {w} {f b : Bytes} {i j k : Nat}

@[simp] theorem length_records : (records w f).length = count w f := by
  simp [records]

theorem count_mul_le : count w f * w ≤ f.length := Nat.div_mul_le_self f.length w

theorem slot_le (h : j < count w f) : j * w + w ≤ f.length := by
  have hle : (j + 1) * w ≤ count w f * w := Nat.mul_le_mul_right w h
  rw [Nat.succ_mul] at hle
  exact hle.trans count_mul_le

/-- The records of a part of a file are those of the file. -/
theorem record_pread (h : j < k) : record w (pread f (k * w) (i * w)) j = record w f (i + j) := by
  have hle : (j + 1) * w ≤ k * w := Nat.mul_le_mul_right w h
  rw [Nat.succ_mul] at hle
  rw [record, record, pread_pread hle, Nat.add_mul]

/-! ## Writing -/

theorem count_pwrite (hw : 0 < w) (hb : b ≠ []) :
    count w (pwrite f b (i * w)) = max (count w f) (i + b.length / w) := by
  rw [count, count, length_pwrite hb, ← Nat.mul_add_div hw, Nat.mul_comm w i]
  rcases Nat.le_total f.length (i * w + b.length) with h | h
  · rw [Nat.max_eq_right h, Nat.max_eq_right (Nat.div_le_div_right h)]
  · rw [Nat.max_eq_left h, Nat.max_eq_left (Nat.div_le_div_right h)]

/-- A write leaves the whole records of earlier slots alone. -/
theorem record_pwrite_of_lt (hcount : j < count w f) (h : j < i) :
    record w (pwrite f b (i * w)) j = record w f j := by
  have hle : (j + 1) * w ≤ i * w := Nat.mul_le_mul_right w h
  rw [Nat.succ_mul] at hle
  exact pread_pwrite_apart (slot_le hcount) (Or.inl hle)

theorem map_record_pwrite (f b : Bytes) :
    (List.range (count w f)).map (record w (pwrite f b (count w f * w))) = records w f := by
  refine List.map_congr_left fun j hj => ?_
  have hlt : j < count w f := List.mem_range.mp hj
  exact record_pwrite_of_lt hlt hlt

/-- A whole record behind the last one. -/
theorem records_pwrite_next (hw : 0 < w) (hb : b.length = w) :
    records w (pwrite f b (count w f * w)) = records w f ++ [b] := by
  have hne : b ≠ [] := by
    rintro rfl
    exact absurd hb hw.ne
  have hcount : count w (pwrite f b (count w f * w)) = count w f + 1 := by
    rw [count_pwrite hw hne, hb, Nat.div_self hw]
    omega
  rw [records, hcount, List.range_succ, List.map_append, map_record_pwrite]
  congr 1
  have hsame := @pread_pwrite_same f b (count w f * w)
  rw [hb] at hsame
  rw [List.map_singleton, record, hsame]

/-- Part of a record behind the last one. -/
theorem records_pwrite_part (hb : b.length < w) :
    records w (pwrite f b (count w f * w)) = records w f := by
  rcases eq_or_ne b [] with rfl | hne
  · rfl
  · have hw : 0 < w := Nat.zero_lt_of_lt hb
    have hcount : count w (pwrite f b (count w f * w)) = count w f := by
      rw [count_pwrite hw hne, Nat.div_eq_of_lt hb]
      omega
    rw [records, hcount, map_record_pwrite]

end PcloudClient.RecordFile
