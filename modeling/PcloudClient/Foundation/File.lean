/-
  Foundation/File.lean --- files as byte strings, and a store of named files.

  Reading, writing at an offset and changing the size follow POSIX: a read past the
  end is short, a write past the end and a growing truncation fill with zeros.
-/
import PcloudClient.Foundation.Bytes

set_option autoImplicit false

namespace PcloudClient.File

open PcloudClient.Bytes

/-- `pread`: at most `len` bytes from `off` on. -/
def pread (f : Bytes) (len off : Nat) : Bytes := (f.drop off).take len

/-- `pwrite`: `b` at `off`; writing nothing does nothing. -/
def pwrite (f b : Bytes) (off : Nat) : Bytes :=
  if b = [] then f else (f ++ zeros (off - f.length)).take off ++ b ++ f.drop (off + b.length)

/-- `ftruncate` -/
def truncate (f : Bytes) (size : Nat) : Bytes := (f ++ zeros (size - f.length)).take size

/-! ## Lengths -/

theorem length_pread (f : Bytes) (len off : Nat) :
    (pread f len off).length = min len (f.length - off) := by
  simp [pread]

theorem length_pread_of_le {f : Bytes} {len off : Nat} (h : off + len ≤ f.length) :
    (pread f len off).length = len := by
  rw [length_pread]
  omega

@[simp] theorem length_truncate (f : Bytes) (size : Nat) : (truncate f size).length = size := by
  simp only [truncate, List.length_take, List.length_append, length_zeros]
  omega

theorem length_pwrite {f b : Bytes} {o : Nat} (hb : b ≠ []) :
    (pwrite f b o).length = max f.length (o + b.length) := by
  rw [pwrite, if_neg hb]
  simp only [List.length_append, List.length_take, List.length_drop, length_zeros]
  omega

theorem length_pwrite_of_le {f b : Bytes} {off : Nat} (h : off + b.length ≤ f.length) :
    (pwrite f b off).length = f.length := by
  rcases eq_or_ne b [] with rfl | hb
  · rfl
  · rw [length_pwrite hb]
    omega

theorem length_le_pwrite (f b : Bytes) (off : Nat) : f.length ≤ (pwrite f b off).length := by
  rcases eq_or_ne b [] with rfl | hb
  · exact le_refl _
  · rw [length_pwrite hb]
    omega

/-! ## Bytes by position -/

theorem getElem?_pread (f : Bytes) (len off i : Nat) :
    (pread f len off)[i]? = if i < len then f[off + i]? else none := by
  rw [pread, List.getElem?_take, List.getElem?_drop]

theorem getElem?_truncate (f : Bytes) (size i : Nat) :
    (truncate f size)[i]? = if i < size then some ((f[i]?).getD 0) else none := by
  rw [truncate, List.getElem?_take]
  split
  · next hi =>
    rw [List.getElem?_append]
    split
    · next hf => simp [List.getElem?_eq_getElem hf]
    · next hf =>
      rw [zeros, List.getElem?_replicate, if_pos (by omega), List.getElem?_eq_none (by omega)]
      rfl
  · rfl

theorem getElem?_pwrite {f b : Bytes} {off : Nat} (hb : b ≠ []) (i : Nat) :
    (pwrite f b off)[i]? =
      if i < off then some ((f[i]?).getD 0)
      else if i < off + b.length then b[i - off]? else f[i]? := by
  have hpre : ((f ++ zeros (off - f.length)).take off).length = off := by
    simp only [List.length_take, List.length_append, length_zeros]
    omega
  rw [pwrite, if_neg hb, List.append_assoc, List.getElem?_append, hpre]
  split
  · next hi =>
    have h := getElem?_truncate f off i
    rw [if_pos hi] at h
    exact h
  · next hi =>
    rw [List.getElem?_append]
    by_cases hib : i < off + b.length
    · rw [if_pos (by omega), if_pos hib]
    · rw [if_neg (by omega), if_neg hib, List.getElem?_drop]
      congr 1
      omega

theorem getElem?_pwrite_inside {f b : Bytes} {off i : Nat} (hge : off ≤ i)
    (hlt : i < off + b.length) : (pwrite f b off)[i]? = b[i - off]? := by
  have hb : b ≠ [] := by
    rintro rfl
    exact absurd hlt (by simpa using hge)
  rw [getElem?_pwrite hb, if_neg (by omega), if_pos hlt]

theorem getElem?_pwrite_outside {f b : Bytes} {off i : Nat} (hf : i < f.length)
    (h : i < off ∨ off + b.length ≤ i) : (pwrite f b off)[i]? = f[i]? := by
  rcases eq_or_ne b [] with rfl | hb
  · rfl
  · rw [getElem?_pwrite hb]
    split
    · rw [List.getElem?_eq_getElem hf]
      rfl
    · rw [if_neg (by omega)]

/-! ## Reading after writing -/

theorem pread_pwrite_same {f b : Bytes} {o : Nat} :
    pread (pwrite f b o) b.length o = b := by
  rcases eq_or_ne b [] with rfl | hb
  · simp [pread]
  · apply List.ext_getElem?
    intro i
    rw [getElem?_pread, getElem?_pwrite hb]
    by_cases hi : i < b.length
    · rw [if_pos hi, if_neg (by omega), if_pos (by omega)]
      congr 1
      omega
    · rw [if_neg hi, List.getElem?_eq_none (by omega)]

theorem pread_pread {f : Bytes} {n o len' off' : Nat} (h : off' + len' ≤ n) :
    pread (pread f n o) len' off' = pread f len' (o + off') := by
  apply List.ext_getElem?
  intro i
  rw [getElem?_pread, getElem?_pread, getElem?_pread]
  by_cases hi : i < len'
  · rw [if_pos hi, if_pos hi, if_pos (by omega), add_assoc]
  · rw [if_neg hi, if_neg hi]

/-- A range inside a write reads the written bytes. -/
theorem pread_pwrite_inside {f b : Bytes} {o n p : Nat} (h : p + n ≤ b.length) :
    pread (pwrite f b o) n (o + p) = pread b n p := by
  rw [← pread_pread (f := pwrite f b o) (n := b.length) (o := o) h, pread_pwrite_same]

/-- A write does not change bytes that exist and lie apart from it. -/
theorem pread_pwrite_apart {f b : Bytes} {off len pos : Nat} (hin : pos + len ≤ f.length)
    (hapart : pos + len ≤ off ∨ off + b.length ≤ pos) :
    pread (pwrite f b off) len pos = pread f len pos := by
  rcases eq_or_ne b [] with rfl | hb
  · rfl
  · apply List.ext_getElem?
    intro i
    rw [getElem?_pread, getElem?_pread, getElem?_pwrite hb]
    by_cases hi : i < len
    · have hlt : pos + i < f.length := by omega
      rw [if_pos hi, if_pos hi]
      split
      · simp [List.getElem?_eq_getElem hlt]
      · rw [if_neg (by omega)]
    · rw [if_neg hi, if_neg hi]

theorem truncate_self (f : Bytes) : truncate f f.length = f := by
  simp [truncate, zeros]

theorem truncate_truncate (f : Bytes) (size : Nat) :
    truncate (truncate f size) size = truncate f size := by
  have h := truncate_self (truncate f size)
  rwa [length_truncate] at h

/-- Writing at the end appends. -/
theorem pwrite_length (f b : Bytes) : pwrite f b f.length = f ++ b := by
  rcases eq_or_ne b [] with rfl | hb
  · simp [pwrite]
  · simp [pwrite, hb, zeros]

/-- Growing a file appends zeros. -/
theorem truncate_of_ge {f : Bytes} {size : Nat} (h : f.length ≤ size) :
    truncate f size = pwrite f (zeros (size - f.length)) f.length := by
  rw [pwrite_length, truncate, List.take_of_length_le]
  rw [List.length_append, length_zeros]
  omega

/-- A write past the end is one behind the zeros of a file that has grown. -/
theorem pwrite_truncate {f b : Bytes} {o : Nat} (h : f.length ≤ o) (hb : b ≠ []) :
    pwrite (truncate f o) b o = pwrite f b o := by
  apply List.ext_getElem?
  intro i
  rw [getElem?_pwrite hb, getElem?_pwrite hb, getElem?_truncate]
  split
  · rfl
  · rw [List.getElem?_eq_none (show f.length ≤ i by omega)]

theorem pwrite_zero (f b : Bytes) : pwrite f b 0 = b ++ f.drop b.length := by
  rw [pwrite]
  split
  · next hb => simp [hb]
  · simp

/-- Two writes one behind the other from the start are one. -/
theorem pwrite_zero_append (f a b : Bytes) :
    pwrite (pwrite f a 0) b a.length = pwrite f (a ++ b) 0 := by
  rcases eq_or_ne b [] with rfl | hb
  · simp [pwrite]
  · rw [pwrite_zero, pwrite_zero, pwrite, if_neg hb]
    simp [List.append_assoc, List.drop_append]

/-- Two ranges one behind the other are one. -/
theorem pread_append_pread (f : Bytes) (n m o : Nat) :
    pread f n o ++ pread f m (o + n) = pread f (n + m) o := by
  rw [pread, pread, pread, List.take_add, List.drop_drop]

@[simp] theorem pwrite_nil_zero (b : Bytes) : pwrite [] b 0 = b := pwrite_length [] b

theorem pread_append_left {f g : Bytes} {len off : Nat} (h : off + len ≤ f.length) :
    pread (f ++ g) len off = pread f len off := by
  rw [pread, pread, List.drop_append_of_le_length (by omega),
    List.take_append_of_le_length (by rw [List.length_drop]; omega)]

theorem pread_append_mid {f b g : Bytes} {n o : Nat} (hoff : f.length = o)
    (hlen : b.length = n) : pread (f ++ (b ++ g)) n o = b := by
  rw [pread, List.drop_left' hoff, List.take_left' hlen]

end PcloudClient.File
