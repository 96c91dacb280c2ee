/-
  Foundation/Bytes.lean --- byte strings: exclusive or, little-endian numbers and
  strings of a fixed length.
-/
import Mathlib.Data.Nat.Bitwise
import Mathlib.Data.List.Basic
import Mathlib.Tactic.Ring

set_option autoImplicit false

namespace PcloudClient

/-- A string of bytes. -/
abbrev Bytes := List UInt8

namespace Bytes

/-- `n` zero bytes. -/
def zeros (n : Nat) : Bytes := List.replicate n 0

@[simp] theorem length_zeros (n : Nat) : (zeros n).length = n := List.length_replicate

/-! ## Exclusive or -/

/-- Bytewise exclusive or, cut to the shorter string. -/
def xor (a b : Bytes) : Bytes := List.zipWith (· ^^^ ·) a b

@[simp] theorem length_xor (a b : Bytes) : (xor a b).length = min a.length b.length :=
  List.length_zipWith

theorem xor_comm (a b : Bytes) : xor a b = xor b a := by
  unfold xor
  rw [List.zipWith_comm]
  simp only [UInt8.xor_comm]

@[simp] theorem xor_cons (x y : UInt8) (a b : Bytes) :
    xor (x :: a) (y :: b) = (x ^^^ y) :: xor a b := rfl

/-- A key at least as long as the text cancels itself. -/
theorem xor_xor_cancel {a k : Bytes} (h : a.length ≤ k.length) : xor (xor a k) k = a := by
  induction a generalizing k with
  | nil => rfl
  | cons x a ih =>
    cases k with
    | nil => simp at h
    | cons y k =>
      have hlen : a.length ≤ k.length := by simpa using h
      have hxy : x ^^^ y ^^^ y = x := by rw [UInt8.xor_assoc, UInt8.xor_self, UInt8.xor_zero]
      exact congrArg₂ List.cons hxy (ih hlen)

theorem xor_append {a a' b b' : Bytes} (h : a.length = b.length) :
    xor (a ++ a') (b ++ b') = xor a b ++ xor a' b' :=
  List.zipWith_append h

/-! ## Little-endian numbers -/

/-- The `k` low bytes of `n`, least significant first. -/
def toLE : Nat → Nat → Bytes
  | 0, _ => []
  | k + 1, n => UInt8.ofNat n :: toLE k (n / 256)

/-- The number written by `b`, least significant byte first. -/
def ofLE : Bytes → Nat
  | [] => 0
  | x :: b => x.toNat + 256 * ofLE b

@[simp] theorem length_toLE (k n : Nat) : (toLE k n).length = k := by
  induction k generalizing n with
  | zero => rfl
  | succ k ih => simp [toLE, ih]

theorem ofLE_lt (b : Bytes) : ofLE b < 256 ^ b.length := by
  induction b with
  | nil => simp [ofLE]
  | cons x b ih =>
    have hx : x.toNat < 256 := x.toNat_lt
    simp only [ofLE, List.length_cons, pow_succ]
    omega

theorem ofLE_toLE (k n : Nat) : ofLE (toLE k n) = n % 256 ^ k := by
  induction k generalizing n with
  | zero => simp [toLE, ofLE, Nat.mod_one]
  | succ k ih =>
    have hx : (UInt8.ofNat n).toNat = n % 256 := by simp
    rw [toLE, ofLE, ih, hx, pow_succ, mul_comm (256 ^ k) 256, Nat.mod_mul]

theorem toLE_ofLE (b : Bytes) : toLE b.length (ofLE b) = b := by
  induction b with
  | nil => rfl
  | cons x b ih =>
    have hx : x.toNat < 256 := x.toNat_lt
    have hdiv : (x.toNat + 256 * ofLE b) / 256 = ofLE b := by omega
    have hmod : UInt8.ofNat (x.toNat + 256 * ofLE b) = x := by
      apply UInt8.toNat_inj.mp
      simp
    simp only [List.length_cons, ofLE, toLE, hdiv, hmod, ih]

/-- Only the low bytes of a number are written. -/
theorem toLE_mod (k n : Nat) : toLE k (n % 256 ^ k) = toLE k n := by
  have h := toLE_ofLE (toLE k n)
  rwa [length_toLE, ofLE_toLE] at h

theorem toLE_add (j k n : Nat) : toLE (j + k) n = toLE j n ++ toLE k (n / 256 ^ j) := by
  induction j generalizing n with
  | zero => simp [toLE]
  | succ j ih =>
    rw [Nat.add_right_comm, toLE, toLE, ih, Nat.div_div_eq_div_mul, pow_succ, Nat.mul_comm 256,
      List.cons_append]

/-- Exclusive or of two numbers is the exclusive or of their bytes. -/
theorem toLE_xor (k m n : Nat) : toLE k (m ^^^ n) = xor (toLE k m) (toLE k n) := by
  induction k generalizing m n with
  | zero => rfl
  | succ k ih =>
    have hdiv : (m ^^^ n) / 256 = m / 256 ^^^ n / 256 := by
      have := Nat.xor_div_two_pow (a := m) (b := n) (n := 8)
      simpa using this
    have hbyte : UInt8.ofNat (m ^^^ n) = UInt8.ofNat m ^^^ UInt8.ofNat n := by
      apply UInt8.toNat_inj.mp
      simp
    simp only [toLE, xor_cons, hdiv, hbyte, ih]

/-! ## Strings of a fixed length -/

/-- A string of exactly `n` bytes. -/
def Fixed (n : Nat) : Type := { b : Bytes // b.length = n }

namespace Fixed

variable {n : Nat}

instance : DecidableEq (Fixed n) := inferInstanceAs (DecidableEq { b : Bytes // b.length = n })

/-- The bytes of the string. -/
def bytes (x : Fixed n) : Bytes := x.1

@[simp] theorem length_bytes (x : Fixed n) : x.bytes.length = n := x.2

/-- The first `n` bytes of `b`, filled up with zeros when `b` is shorter. -/
def ofBytes (n : Nat) (b : Bytes) : Fixed n :=
  ⟨(b ++ zeros n).take n, by simp⟩

theorem bytes_ofBytes {b : Bytes} (h : b.length = n) : (ofBytes n b).bytes = b := by
  subst h
  simp [ofBytes, bytes]

@[simp] theorem ofBytes_bytes (x : Fixed n) : ofBytes n x.bytes = x :=
  Subtype.ext (bytes_ofBytes x.2)

/-- `src` copied to the place `off`. -/
def write (x : Fixed n) (off : Nat) (src : Bytes) : Fixed n :=
  ofBytes n (x.bytes.take off ++ (src ++ x.bytes.drop (off + src.length)))

section

variable {x : Fixed n} {off : Nat} {src : Bytes} (h : off + src.length ≤ n)

include h

theorem bytes_write :
    (x.write off src).bytes = x.bytes.take off ++ (src ++ x.bytes.drop (off + src.length)) := by
  refine bytes_ofBytes ?_
  rw [List.length_append, List.length_append, List.length_take, List.length_drop, length_bytes]
  omega

theorem take_write_of_le {k : Nat} (hk : k ≤ off) :
    (x.write off src).bytes.take k = x.bytes.take k := by
  have hoff : (x.bytes.take off).length = off := List.length_take_of_le (by simp; omega)
  rw [bytes_write h, List.take_append_of_le_length (by omega), List.take_take,
    Nat.min_eq_left hk]

theorem take_write : (x.write off src).bytes.take (off + src.length) = x.bytes.take off ++ src := by
  have hoff : (x.bytes.take off).length = off := List.length_take_of_le (by simp; omega)
  rw [bytes_write h, ← List.append_assoc]
  exact List.take_left' (by rw [List.length_append, hoff])

theorem getElem?_write_of_le {i : Nat} (hi : off + src.length ≤ i) :
    (x.write off src).bytes[i]? = x.bytes[i]? := by
  have hoff : (x.bytes.take off).length = off := List.length_take_of_le (by simp; omega)
  rw [bytes_write h, List.getElem?_append_right (by omega), List.getElem?_append_right (by omega),
    hoff, List.getElem?_drop]
  congr 1
  omega

end

theorem getElem?_write_singleton {x : Fixed n} {off : Nat} (h : off < n) (b : UInt8) :
    (x.write off [b]).bytes[off]? = some b := by
  have hoff : (x.bytes.take off).length = off := List.length_take_of_le (by simp; omega)
  rw [bytes_write (show off + [b].length ≤ n from h), List.getElem?_append_right (by omega), hoff]
  simp

end Fixed

end Bytes

end PcloudClient
