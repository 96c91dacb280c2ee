/-
  Foundation/Ring.lean --- a ring of bytes between two offsets that are not reduced.

  The bytes from `start` to `stop` lie at their offsets modulo the size.  `start` is inside the
  ring and `stop` at most one round ahead of it.
-/
import PcloudClient.Foundation.Bytes

set_option autoImplicit false

namespace PcloudClient.Ring

open Bytes

variable {n : Nat}

/-- The bytes between the offsets `start` and `stop`. -/
def unread (buff : Fixed n) (start stop : Nat) : Bytes :=
  (List.range' start (stop - start)).map fun i => buff.bytes.getD (i % n) 0

@[simp] theorem length_unread (buff : Fixed n) (start stop : Nat) :
    (unread buff start stop).length = stop - start := by
  simp [unread]

@[simp] theorem unread_self (buff : Fixed n) (start : Nat) : unread buff start start = [] := by
  simp [unread]

theorem unread_append (buff : Fixed n) {start mid stop : Nat} (h : start ≤ mid) (h' : mid ≤ stop) :
    unread buff start mid ++ unread buff mid stop = unread buff start stop := by
  have hmid : start + 1 * (mid - start) = mid := by omega
  have hlen : mid - start + (stop - mid) = stop - start := by omega
  have hrange := @List.range'_append start (mid - start) (stop - mid) 1
  rw [hmid, hlen] at hrange
  rw [unread, unread, unread, ← hrange, List.map_append]

/-- What remains after `k` bytes were taken. -/
theorem drop_unread (buff : Fixed n) {start stop k : Nat} (h : start + k ≤ stop) :
    (unread buff start stop).drop k = unread buff (start + k) stop := by
  rw [← unread_append buff (Nat.le_add_right start k) h]
  exact List.drop_left' (by simp)

theorem take_unread (buff : Fixed n) {start stop k : Nat} (h : start + k ≤ stop) :
    (unread buff start stop).take k = unread buff start (start + k) := by
  rw [← unread_append buff (Nat.le_add_right start k) h]
  exact List.take_left' (by simp)

/-- One round back. -/
theorem unread_sub (buff : Fixed n) {start stop : Nat} (h : n ≤ start) :
    unread buff (start - n) (stop - n) = unread buff start stop := by
  have hlen : stop - n - (start - n) = stop - start := by omega
  apply List.ext_getElem
  · simp [hlen]
  · intro i _ _
    simp only [unread, List.getElem_map, List.getElem_range', Nat.one_mul]
    have hmod : (start - n + i) % n = (start + i) % n := by
      rw [← Nat.add_mod_right (start - n + i) n]
      congr 1
      omega
    rw [hmod]

/-- Without a wrap the bytes are a slice. -/
theorem unread_eq_slice (buff : Fixed n) {start stop : Nat} (h : stop ≤ n) :
    unread buff start stop = (buff.bytes.drop start).take (stop - start) := by
  have hn := buff.length_bytes
  apply List.ext_getElem
  · rw [length_unread, List.length_take, List.length_drop, hn]
    omega
  · intro i hi _
    rw [length_unread] at hi
    simp only [unread, List.getElem_map, List.getElem_range', Nat.one_mul, List.getElem_take,
      List.getElem_drop]
    rw [Nat.mod_eq_of_lt (by omega), List.getD_eq_getElem?_getD,
      List.getElem?_eq_getElem (by omega)]
    rfl

/-- With a wrap they are the end and the beginning. -/
theorem unread_eq_wrap (buff : Fixed n) {start stop : Nat} (hstart : start ≤ n) (h : n ≤ stop)
    (hstop : stop ≤ n + n) :
    unread buff start stop = buff.bytes.drop start ++ buff.bytes.take (stop - n) := by
  have hfirst : unread buff start n = buff.bytes.drop start := by
    rw [unread_eq_slice buff (le_refl n)]
    exact List.take_of_length_le (by rw [List.length_drop, Fixed.length_bytes])
  have hsecond : unread buff n stop = buff.bytes.take (stop - n) := by
    rw [← unread_sub buff (le_refl n), Nat.sub_self, unread_eq_slice buff (by omega),
      List.drop_zero, Nat.sub_zero]
  rw [← unread_append buff hstart h, hfirst, hsecond]

/-! ## Writing -/

/-- How many bytes fit behind `stop` in one piece. -/
def room (n start stop : Nat) : Nat :=
  if stop % n < start then start - stop % n else n - stop % n

theorem room_pos {start stop : Nat} (hn : 0 < n) : 0 < room n start stop := by
  have := Nat.mod_lt stop hn
  unfold room
  split <;> omega

/-- The free piece is inside the ring and keeps off the unread bytes. -/
theorem window_free {start stop i : Nat} (hstart : start < n) (hle : start ≤ stop)
    (hfree : stop - start < n) (hi : start ≤ i) (hi' : i < stop) :
    stop % n + room n start stop ≤ n ∧
      ¬ (stop % n ≤ i % n ∧ i % n < stop % n + room n start stop) := by
  have hstop : stop % n = if stop < n then stop else stop - n := by
    split
    · next h => exact Nat.mod_eq_of_lt h
    · next h => rw [Nat.mod_eq_sub_mod (Nat.not_lt.mp h), Nat.mod_eq_of_lt (by omega)]
  have hmod : i % n = if i < n then i else i - n := by
    split
    · next h => exact Nat.mod_eq_of_lt h
    · next h => rw [Nat.mod_eq_sub_mod (Nat.not_lt.mp h), Nat.mod_eq_of_lt (by omega)]
  unfold room
  rw [hmod, hstop]
  split_ifs <;> omega

theorem room_le {start stop : Nat} (hn : 0 < n) (hstart : start < n) :
    stop % n + room n start stop ≤ n := by
  have := Nat.mod_lt stop hn
  unfold room
  split <;> omega

theorem length_add_room_le {start stop : Nat} (hstart : start < n) (hle : start ≤ stop)
    (hfree : stop - start < n) : stop - start + room n start stop ≤ n := by
  have hstop : stop % n = if stop < n then stop else stop - n := by
    split
    · next h => exact Nat.mod_eq_of_lt h
    · next h => rw [Nat.mod_eq_sub_mod (Nat.not_lt.mp h), Nat.mod_eq_of_lt (by omega)]
  unfold room
  rw [hstop]
  split_ifs <;> omega

theorem getD_write_inside {buff : Fixed n} {off i : Nat} {src : Bytes}
    (h : off + src.length ≤ n) (hi : i < src.length) :
    (buff.write off src).bytes.getD (off + i) 0 = src.getD i 0 := by
  have hoff : (buff.bytes.take off).length = off := by
    refine List.length_take_of_le ?_
    rw [Fixed.length_bytes]
    omega
  rw [List.getD_eq_getElem?_getD, List.getD_eq_getElem?_getD, Fixed.bytes_write h,
    List.getElem?_append_right (by omega), hoff, Nat.add_sub_cancel_left,
    List.getElem?_append_left hi]

theorem getD_write_outside {buff : Fixed n} {off i : Nat} {src : Bytes}
    (h : off + src.length ≤ n) (hi : i < off ∨ off + src.length ≤ i) :
    (buff.write off src).bytes.getD i 0 = buff.bytes.getD i 0 := by
  rw [List.getD_eq_getElem?_getD, List.getD_eq_getElem?_getD]
  rcases hi with hi | hi
  · have htake := Fixed.take_write_of_le (x := buff) h (le_refl off)
    have hget := congrArg (fun l : Bytes => l[i]?) htake
    simp only [List.getElem?_take, if_pos hi] at hget
    rw [hget]
  · rw [Fixed.getElem?_write_of_le h hi]

/-- Bytes that fit behind `stop` are added at the end. -/
theorem unread_write {buff : Fixed n} {start stop : Nat} {src : Bytes} (hstart : start < n)
    (hle : start ≤ stop) (hfree : stop - start < n) (hsrc : src.length ≤ room n start stop) :
    unread (buff.write (stop % n) src) start (stop + src.length) =
      unread buff start stop ++ src := by
  have hroom : stop % n + room n start stop ≤ n := room_le (by omega) hstart
  have hfits : stop % n + src.length ≤ n := by omega
  rw [← unread_append _ hle (Nat.le_add_right stop src.length)]
  congr 1
  · apply List.map_congr_left
    intro i hi
    rw [List.mem_range'_1] at hi
    have hfree := (window_free hstart hle hfree hi.1 (by omega)).2
    exact getD_write_outside hfits (by omega)
  · apply List.ext_getElem
    · simp
    · intro i _ hi
      have hmod : (stop + i) % n = stop % n + i := by
        rw [Nat.add_mod, Nat.mod_eq_of_lt (show i < n by omega), Nat.mod_eq_of_lt (by omega)]
      simp only [unread, List.getElem_map, List.getElem_range', Nat.one_mul]
      rw [hmod, getD_write_inside hfits hi, List.getD_eq_getElem?_getD,
        List.getElem?_eq_getElem hi]
      rfl

end PcloudClient.Ring
