/-
  Pnetlibs/Adler.lean --- the rolling checksum (`adler32` and `adler32_roll` of pnetlibs.c).

  `w` is what a 32-bit variable makes of the value of a sum.
-/
import Mathlib.Algebra.BigOperators.Group.Finset.Basic
import Mathlib.Data.Nat.Bitwise
import Mathlib.Data.Nat.ModEq
import Mathlib.Tactic.Linarith
import Mathlib.Tactic.Ring
import PcloudClient.Foundation.Bytes

set_option autoImplicit false

namespace PcloudClient.Pnetlibs.Adler

/-- `ADLER32_BASE` -/
abbrev base : Nat := 65521

/-- `ADLER32_NMAX` -/
abbrev nmax : Nat := 5552

section

variable (w : Nat → Nat)

/-- `ADLER32_1`, on `adler` and `sum`. -/
def step (s : Nat × Nat) (b : UInt8) : Nat × Nat :=
  let adler := w (s.1 + b.toNat)
  (adler, w (s.2 + adler))

/-- `ADLER32_16` -/
def step16 (s : Nat × Nat) (buff : Bytes) : Nat × Nat := (buff.take 16).foldl (step w) s

/-- `n` rounds of `ADLER32_16`. -/
def rounds : Nat → Nat × Nat → Bytes → Nat × Nat
  | 0, s, _ => s
  | n + 1, s, buff => rounds n (step16 w s buff) (buff.drop 16)

/-- The last two reductions. -/
def reduce (s : Nat × Nat) : Nat × Nat := (s.1 % base, s.2 % base)

/-- The three loops of `adler32`. -/
def loops (s : Nat × Nat) (buff : Bytes) : Nat × Nat :=
  if nmax ≤ buff.length then
    loops (reduce (rounds w (nmax / 16) s buff)) (buff.drop nmax)
  else
    let n := buff.length / 16
    reduce ((buff.drop (16 * n)).foldl (step w) (rounds w n s buff))
termination_by buff.length
decreasing_by
  have hnmax : nmax = 5552 := rfl
  rw [List.length_drop]
  omega

/-- `adler32`, whose variables are given by `w`. -/
def adler32With (adler : UInt32) (buff : Bytes) : UInt32 :=
  let s := loops w ((adler &&& 0xffff).toNat, (adler >>> 16).toNat) buff
  UInt32.ofNat (s.1 ||| w (s.2 <<< 16))

end

/-- `adler32` -/
def adler32 (adler : UInt32) (buff : Bytes) : UInt32 := adler32With (· % 2 ^ 32) adler buff

/-- `adler32_roll` -/
def adler32Roll (adler : UInt32) (byteout bytein : UInt8) (len : UInt32) : UInt32 :=
  let sum := adler >>> 16
  let adler := adler &&& 0xffff
  let adler := adler + (65521 + bytein.toUInt32 - byteout.toUInt32)
  let sum := (65521 * 65521 + sum - len * byteout.toUInt32 - 1 + adler) % 65521
  let adler := adler % 65521
  adler ||| (sum <<< 16)

/-! ## The sums -/

/-- The sum of the bytes. -/
def total (buff : Bytes) : Nat := (buff.map UInt8.toNat).sum

/-- The sum of what the first sum is after each byte. -/
def runningTotal (adler : Nat) (buff : Bytes) : Nat :=
  ∑ i ∈ Finset.range buff.length, (adler + total (buff.take (i + 1)))

/-- The checksum of Adler: both sums by the base, in the two halves of a word. -/
def checksum (adler sum : Nat) (buff : Bytes) : Nat :=
  (adler + total buff) % base + 2 ^ 16 * ((sum + runningTotal adler buff) % base)

@[simp] theorem total_nil : total [] = 0 := rfl

@[simp] theorem total_cons (b : UInt8) (buff : Bytes) : total (b :: buff) = b.toNat + total buff :=
  rfl

@[simp] theorem total_append (a b : Bytes) : total (a ++ b) = total a + total b := by
  simp [total]

@[simp] theorem runningTotal_nil (adler : Nat) : runningTotal adler [] = 0 := rfl

theorem runningTotal_cons (adler : Nat) (b : UInt8) (buff : Bytes) :
    runningTotal adler (b :: buff) =
      (adler + b.toNat) + runningTotal (adler + b.toNat) buff := by
  rw [runningTotal, List.length_cons, Finset.sum_range_succ', Nat.add_comm, runningTotal]
  congr 1
  refine Finset.sum_congr rfl fun i _ => ?_
  rw [List.take_succ_cons, total_cons, Nat.add_assoc]

theorem runningTotal_append (adler : Nat) (a b : Bytes) :
    runningTotal adler (a ++ b) = runningTotal adler a + runningTotal (adler + total a) b := by
  induction a generalizing adler with
  | nil => simp
  | cons x a ih =>
    rw [List.cons_append, runningTotal_cons, runningTotal_cons, ih, total_cons]
    simp only [Nat.add_assoc]

theorem runningTotal_eq (adler : Nat) (buff : Bytes) :
    runningTotal adler buff = buff.length * adler + runningTotal 0 buff := by
  simp [runningTotal, Finset.sum_add_distrib]

theorem total_le (buff : Bytes) : total buff ≤ 255 * buff.length := by
  induction buff with
  | nil => exact Nat.le_refl 0
  | cons b buff ih =>
    have hb : b.toNat < 256 := b.toNat_lt
    rw [total_cons, List.length_cons]
    omega

theorem runningTotal_le (adler : Nat) (buff : Bytes) :
    2 * runningTotal adler buff ≤
      2 * (buff.length * adler) + 255 * (buff.length * (buff.length + 1)) := by
  induction buff generalizing adler with
  | nil => simp
  | cons b buff ih =>
    have hb : b.toNat ≤ 255 := Nat.le_of_lt_succ b.toNat_lt
    have hrest := ih (adler + b.toNat)
    have hbytes : buff.length * b.toNat ≤ buff.length * 255 := Nat.mul_le_mul_left _ hb
    rw [runningTotal_cons, List.length_cons]
    nlinarith

/-! ## The loops -/

/-- Nothing of the sums is lost. -/
theorem foldl_step {w : Nat → Nat} (hw : ∀ n < 2 ^ 32, w n = n) (s : Nat × Nat) (buff : Bytes)
    (hadler : s.1 + total buff < 2 ^ 32) (hsum : s.2 + runningTotal s.1 buff < 2 ^ 32) :
    buff.foldl (step w) s = (s.1 + total buff, s.2 + runningTotal s.1 buff) := by
  induction buff generalizing s with
  | nil => rfl
  | cons b buff ih =>
    rw [total_cons] at hadler ⊢
    rw [runningTotal_cons] at hsum ⊢
    have hstep : step w s b = (s.1 + b.toNat, s.2 + (s.1 + b.toNat)) := by
      rw [step, hw _ (by omega), hw _ (by omega)]
    rw [List.foldl_cons, hstep, ih _ (by simpa [Nat.add_assoc] using hadler)
      (by simpa [Nat.add_assoc] using hsum)]
    simp only [Nat.add_assoc]

theorem rounds_eq (w : Nat → Nat) {n : Nat} {buff : Bytes} (s : Nat × Nat)
    (h : 16 * n ≤ buff.length) : rounds w n s buff = (buff.take (16 * n)).foldl (step w) s := by
  induction n generalizing s buff with
  | zero => simp [rounds]
  | succ n ih =>
    have hrest : 16 * n ≤ (buff.drop 16).length := by rw [List.length_drop]; omega
    have hsplit : buff.take (16 * (n + 1)) = buff.take 16 ++ (buff.drop 16).take (16 * n) := by
      rw [← List.take_add, Nat.mul_add, Nat.add_comm]
    rw [rounds, ih _ hrest, step16, hsplit, List.foldl_append]

/-- A string of `nmax` bytes at most does not reach the end of a word, whatever it starts with. -/
theorem sums_lt {s : Nat × Nat} (hs : s.1 < 2 ^ 16 ∧ s.2 < 2 ^ 16) {buff : Bytes}
    (h : buff.length ≤ nmax) :
    s.1 + total buff < 2 ^ 32 ∧ s.2 + runningTotal s.1 buff < 2 ^ 32 := by
  have hlen : buff.length ≤ 5552 := h
  have htotal := total_le buff
  have hrunning := runningTotal_le s.1 buff
  have hstart : buff.length * s.1 ≤ 5552 * 65535 := Nat.mul_le_mul h (by omega)
  have hbytes : buff.length * (buff.length + 1) ≤ 5552 * 5553 :=
    Nat.mul_le_mul h (Nat.succ_le_succ h)
  constructor
  · omega
  · omega

/-- What the loops come to. -/
def reduced (s : Nat × Nat) (buff : Bytes) : Nat × Nat :=
  reduce (s.1 + total buff, s.2 + runningTotal s.1 buff)

theorem reduced_reduced (s : Nat × Nat) (a b : Bytes) :
    reduced (reduced s a) b = reduced s (a ++ b) := by
  have hadler : Nat.ModEq base ((s.1 + total a) % base + total b) (s.1 + total (a ++ b)) := by
    rw [total_append, ← Nat.add_assoc]
    exact (Nat.mod_modEq _ _).add_right _
  have hsum : Nat.ModEq base
      ((s.2 + runningTotal s.1 a) % base + runningTotal ((s.1 + total a) % base) b)
      (s.2 + runningTotal s.1 (a ++ b)) := by
    rw [runningTotal_append, runningTotal_eq ((s.1 + total a) % base) b,
      runningTotal_eq (s.1 + total a) b, ← Nat.add_assoc s.2]
    exact (Nat.mod_modEq _ _).add (((Nat.mod_modEq _ _).mul_left _).add_right _)
  exact Prod.ext hadler hsum

theorem reduced_lt (s : Nat × Nat) (buff : Bytes) :
    (reduced s buff).1 < base ∧ (reduced s buff).2 < base :=
  ⟨Nat.mod_lt _ (by decide), Nat.mod_lt _ (by decide)⟩

/-- A part that is read in one go. -/
theorem reduce_foldl {w : Nat → Nat} (hw : ∀ n < 2 ^ 32, w n = n) {s : Nat × Nat}
    (hs : s.1 < 2 ^ 16 ∧ s.2 < 2 ^ 16) {buff : Bytes} (h : buff.length ≤ nmax) :
    reduce (buff.foldl (step w) s) = reduced s buff := by
  obtain ⟨hadler, hsum⟩ := sums_lt hs h
  rw [foldl_step hw s buff hadler hsum, reduced]

theorem loops_eq {w : Nat → Nat} (hw : ∀ n < 2 ^ 32, w n = n) (s : Nat × Nat) (buff : Bytes)
    (hs : s.1 < 2 ^ 16 ∧ s.2 < 2 ^ 16) : loops w s buff = reduced s buff := by
  have hnmax : nmax = 5552 := rfl
  induction s, buff using loops.induct w with
  | case1 s buff hlong ih =>
    have hfits : 16 * (nmax / 16) ≤ buff.length := hlong
    have hround : reduce (rounds w (nmax / 16) s buff) = reduced s (buff.take nmax) := by
      rw [rounds_eq w s hfits]
      exact reduce_foldl hw hs (List.length_take_le _ _)
    obtain ⟨hadler, hsum⟩ := reduced_lt s (buff.take nmax)
    rw [loops, if_pos hlong, ih (by rw [hround]; exact ⟨hadler.trans (by decide),
      hsum.trans (by decide)⟩), hround, reduced_reduced, List.take_append_drop]
  | case2 s buff hshort =>
    have hfits : 16 * (buff.length / 16) ≤ buff.length := Nat.mul_div_le _ _
    rw [loops, if_neg hshort]
    simp only
    rw [rounds_eq w s hfits, ← List.foldl_append, List.take_append_drop]
    exact reduce_foldl hw hs (Nat.le_of_lt (Nat.not_le.mp hshort))

/-! ## The words -/

theorem low_half (x : UInt32) : (x &&& 0xffff).toNat = x.toNat % 2 ^ 16 := by
  rw [UInt32.toNat_and]
  exact Nat.and_two_pow_sub_one_eq_mod _ 16

theorem high_half (x : UInt32) : (x >>> 16).toNat = x.toNat / 2 ^ 16 := by
  rw [UInt32.toNat_shiftRight]
  exact Nat.shiftRight_eq_div_pow _ _

/-- The two halves of a word. -/
theorem join_halves {a b : Nat} (ha : a < 2 ^ 16) : a ||| b <<< 16 = a + 2 ^ 16 * b := by
  rw [Nat.or_comm, ← Nat.shiftLeft_add_eq_or_of_lt ha, Nat.shiftLeft_eq]
  ring

/-- The checksum, whatever is made of numbers that do not fit a word. -/
theorem toNat_adler32With {w : Nat → Nat} (hw : ∀ n < 2 ^ 32, w n = n) (adler : UInt32)
    (buff : Bytes) :
    (adler32With w adler buff).toNat =
      checksum (adler.toNat % 2 ^ 16) (adler.toNat / 2 ^ 16) buff := by
  have hstart : adler.toNat % 2 ^ 16 < 2 ^ 16 ∧ adler.toNat / 2 ^ 16 < 2 ^ 16 := by
    have hadler : adler.toNat < 2 ^ 32 := adler.toNat_lt
    omega
  obtain ⟨hadler, hsum⟩ :=
    reduced_lt (adler.toNat % 2 ^ 16, adler.toNat / 2 ^ 16) buff
  have hlow : (reduced (adler.toNat % 2 ^ 16, adler.toNat / 2 ^ 16) buff).1 < 2 ^ 16 :=
    hadler.trans (by decide)
  have hbase : base = 65521 := rfl
  have hshift : ∀ n < 2 ^ 16, w (n <<< 16) = n <<< 16 := by
    intro n hn
    refine hw _ ?_
    rw [Nat.shiftLeft_eq]
    omega
  rw [adler32With, low_half, high_half, loops_eq hw _ _ hstart, hshift _ (hsum.trans (by decide)),
    join_halves hlow, UInt32.toNat_ofNat', Nat.mod_eq_of_lt]
  · rfl
  · omega

theorem word_ok (n : Nat) (h : n < 2 ^ 32) : n % 2 ^ 32 = n := Nat.mod_eq_of_lt h

theorem toNat_adler32 (adler : UInt32) (buff : Bytes) :
    (adler32 adler buff).toNat = checksum (adler.toNat % 2 ^ 16) (adler.toNat / 2 ^ 16) buff :=
  toNat_adler32With word_ok adler buff

/-- The two sums in a checksum. -/
theorem halves_adler32 (adler : UInt32) (buff : Bytes) :
    ((adler32 adler buff).toNat % 2 ^ 16, (adler32 adler buff).toNat / 2 ^ 16) =
      reduced (adler.toNat % 2 ^ 16, adler.toNat / 2 ^ 16) buff := by
  obtain ⟨hadler, -⟩ := reduced_lt (adler.toNat % 2 ^ 16, adler.toNat / 2 ^ 16) buff
  have hbase : base = 65521 := rfl
  have hword : (adler32 adler buff).toNat =
      (reduced (adler.toNat % 2 ^ 16, adler.toNat / 2 ^ 16) buff).1 +
        2 ^ 16 * (reduced (adler.toNat % 2 ^ 16, adler.toNat / 2 ^ 16) buff).2 :=
    toNat_adler32 adler buff
  rw [hword]
  exact Prod.ext (by simp only; omega) (by simp only; omega)

theorem adler32_append (adler : UInt32) (a b : Bytes) :
    adler32 (adler32 adler a) b = adler32 adler (a ++ b) := by
  apply UInt32.toNat_inj.mp
  have hhalves := halves_adler32 adler a
  have hword : ∀ (x : UInt32) (c : Bytes), (adler32 x c).toNat =
      (reduced (x.toNat % 2 ^ 16, x.toNat / 2 ^ 16) c).1 +
        2 ^ 16 * (reduced (x.toNat % 2 ^ 16, x.toNat / 2 ^ 16) c).2 := toNat_adler32
  rw [hword _ b, hhalves, reduced_reduced, hword]

/-! ## The roll -/

/-- A window that moves by one byte. -/
theorem slide {x y : UInt8} {first last : Bytes} (h : x :: last = first ++ [y]) :
    total last + x.toNat = total first + y.toNat ∧
      runningTotal 1 last + last.length * x.toNat + x.toNat =
        runningTotal 1 first + total first + y.toNat := by
  have htotal : x.toNat + total last = total first + y.toNat := by
    rw [← total_cons, h]
    simp
  have hrunning : (1 + x.toNat) + runningTotal (1 + x.toNat) last =
      runningTotal 1 first + (1 + total first + y.toNat) := by
    rw [← runningTotal_cons, h, runningTotal_append, runningTotal_cons, runningTotal_nil,
      Nat.add_zero]
  rw [runningTotal_eq, Nat.mul_add] at hrunning
  have hone := runningTotal_eq 1 last
  constructor
  · omega
  · omega

/-- The first sum of a roll in its word, before it is reduced. -/
theorem toNat_rolledAdler (c : UInt32) (x y : UInt8) :
    ((c &&& 0xffff) + (65521 + y.toUInt32 - x.toUInt32)).toNat =
      c.toNat % 2 ^ 16 + 65521 + y.toNat - x.toNat := by
  have hx : x.toNat < 256 := x.toNat_lt
  have hy : y.toNat < 256 := y.toNat_lt
  have hc : c.toNat % 2 ^ 16 < 2 ^ 16 := Nat.mod_lt _ (by decide)
  rw [UInt32.toNat_add, low_half, UInt32.toNat_sub, UInt32.toNat_add, UInt8.toNat_toUInt32,
    UInt8.toNat_toUInt32, show (65521 : UInt32).toNat = 65521 from rfl]
  generalize c.toNat % 2 ^ 16 = low at hc ⊢
  omega

/-- The second sum of a roll in its word, before it is reduced. -/
theorem toNat_rolledSum {c len : UInt32} {x y : UInt8} (hprod : len.toNat * x.toNat ≤ 65521 ^ 2) :
    ((65521 * 65521 : UInt32) + c >>> 16 - len * x.toUInt32 - 1 +
      ((c &&& 0xffff) + (65521 + y.toUInt32 - x.toUInt32))).toNat =
        65521 ^ 2 + c.toNat / 2 ^ 16 + (c.toNat % 2 ^ 16 + 65521 + y.toNat) -
          (len.toNat * x.toNat + 1 + x.toNat) := by
  have hx : x.toNat < 256 := x.toNat_lt
  have hy : y.toNat < 256 := y.toNat_lt
  have hlow : c.toNat % 2 ^ 16 < 2 ^ 16 := Nat.mod_lt _ (by decide)
  have hhigh : c.toNat / 2 ^ 16 < 2 ^ 16 := Nat.div_lt_of_lt_mul c.toNat_lt
  rw [UInt32.toNat_add, toNat_rolledAdler, UInt32.toNat_sub, UInt32.toNat_sub, UInt32.toNat_add,
    high_half, UInt32.toNat_mul, UInt8.toNat_toUInt32,
    show (65521 * 65521 : UInt32).toNat = 65521 ^ 2 from rfl,
    show (1 : UInt32).toNat = 1 from rfl, Nat.mod_eq_of_lt (Nat.lt_of_le_of_lt hprod (by decide))]
  generalize c.toNat % 2 ^ 16 = low at hlow ⊢
  generalize c.toNat / 2 ^ 16 = high at hhigh ⊢
  generalize len.toNat * x.toNat = prod at hprod ⊢
  omega

theorem roll_low {first last x y : Nat} (h : last + x = first + y) (hx : x < 256) :
    ((1 + first) % 65521 + 65521 + y - x) % 65521 = (1 + last) % 65521 := by
  omega

theorem roll_high {first last sum len x y : Nat} (h : last + len + x = sum + first + y)
    (hlen : len ≤ 65521 ^ 2) (hx : x < 256) :
    (65521 ^ 2 + (0 + sum) % 65521 + ((1 + first) % 65521 + 65521 + y) - (len + 1 + x)) % 65521 =
      (0 + last) % 65521 := by
  omega

theorem adler32Roll_eq {x y : UInt8} {first last : Bytes} (h : x :: last = first ++ [y])
    (len : UInt32) (hlen : len.toNat = last.length) (hsmall : 255 * len.toNat ≤ 65521 ^ 2) :
    adler32Roll (adler32 1 first) x y len = adler32 1 last := by
  obtain ⟨htotal, hrunning⟩ := slide h
  have hx : x.toNat < 256 := x.toNat_lt
  have hy : y.toNat < 256 := y.toNat_lt
  have hprod : len.toNat * x.toNat ≤ 65521 ^ 2 := by
    refine Nat.le_trans ?_ hsmall
    rw [Nat.mul_comm]
    exact Nat.mul_le_mul_right _ (Nat.le_of_lt_succ hx)
  have hhalves := halves_adler32 1 first
  have hone : ((1 : UInt32).toNat % 2 ^ 16, (1 : UInt32).toNat / 2 ^ 16) = (1, 0) := rfl
  rw [hone] at hhalves
  obtain ⟨hlow, hhigh⟩ := Prod.mk.inj hhalves
  set c := adler32 1 first with hc
  have hbase : base = 65521 := rfl
  simp only [hbase] at hlow hhigh
  have hadler := toNat_rolledAdler c x y
  have hsum := @toNat_rolledSum c len x y hprod
  have hresult : (adler32Roll c x y len).toNat =
      (c.toNat % 2 ^ 16 + 65521 + y.toNat - x.toNat) % 65521 ||| ((65521 ^ 2 + c.toNat / 2 ^ 16 +
        (c.toNat % 2 ^ 16 + 65521 + y.toNat) - (len.toNat * x.toNat + 1 + x.toNat)) % 65521) <<<
          16 % 2 ^ 32 := by
    rw [adler32Roll, UInt32.toNat_or, UInt32.toNat_mod, hadler, UInt32.toNat_shiftLeft,
      UInt32.toNat_mod, hsum]
    rfl
  have hfirst : (c.toNat % 2 ^ 16 + 65521 + y.toNat - x.toNat) % 65521 =
      (1 + total last) % 65521 := by
    rw [hlow]
    exact roll_low htotal hx
  have hsecond : (65521 ^ 2 + c.toNat / 2 ^ 16 + (c.toNat % 2 ^ 16 + 65521 + y.toNat) -
      (len.toNat * x.toNat + 1 + x.toNat)) % 65521 = (0 + runningTotal 1 last) % 65521 := by
    rw [hlow, hhigh]
    rw [← hlen] at hrunning
    exact roll_high hrunning hprod hx
  apply UInt32.toNat_inj.mp
  rw [hresult, hfirst, hsecond, toNat_adler32]
  have hshift : ((0 + runningTotal 1 last) % 65521) <<< 16 % 2 ^ 32 =
      ((0 + runningTotal 1 last) % 65521) <<< 16 := by
    refine Nat.mod_eq_of_lt ?_
    rw [Nat.shiftLeft_eq]
    omega
  rw [hshift, join_halves (Nat.lt_trans (Nat.mod_lt _ (by decide)) (by decide))]
  rfl

/-- The sums fit their words, the checksum of a string goes on from that of a part, and a window
can be moved by a byte. -/
theorem adler_ok :
    (∀ w : Nat → Nat, (∀ n < 2 ^ 32, w n = n) →
      ∀ buff, (adler32With w 1 buff).toNat = checksum 1 0 buff) ∧
    (∀ buff, (adler32 1 buff).toNat = checksum 1 0 buff) ∧
    (∀ adler a b, adler32 (adler32 adler a) b = adler32 adler (a ++ b)) ∧
    (∀ (len : UInt32) (s : Bytes), 255 * len.toNat ≤ 65521 ^ 2 → s.length = len.toNat + 1 →
      adler32Roll (adler32 1 (s.take len.toNat)) (s.getD 0 0) (s.getD len.toNat 0) len =
        adler32 1 (s.drop 1)) := by
  refine ⟨fun w hw buff => toNat_adler32With hw 1 buff, toNat_adler32 1, adler32_append,
    fun len s hsmall hlen => ?_⟩
  have hjoin : s.getD 0 0 :: s.drop 1 = s.take len.toNat ++ [s.getD len.toNat 0] := by
    have hlast : len.toNat < s.length := by omega
    rw [List.getD_eq_getElem s 0 hlast, List.take_concat_get', List.take_of_length_le (by omega)]
    cases s with
    | nil => simp at hlen
    | cons x s => rfl
  exact adler32Roll_eq hjoin len (by rw [List.length_drop]; omega) hsmall

/-- A window of two bytes. -/
theorem adler_ok_two : adler32Roll (adler32 1 [1, 2]) 1 3 2 = adler32 1 [2, 3] :=
  adler_ok.2.2.2 2 [1, 2, 3] (by decide) rfl

end PcloudClient.Pnetlibs.Adler
