/-
  Foundation/Reader.lean --- taking a number of bytes off the front of a string.
-/
import PcloudClient.Foundation.Bytes

set_option autoImplicit false

namespace PcloudClient.Bytes

theorem ofLE_singleton (x : UInt8) : ofLE [x] = x.toNat := by
  simp [ofLE]

/-- The first `n` bytes and the rest, if there are so many. -/
def takeBytes (n : Nat) (b : Bytes) : Option (Bytes × Bytes) :=
  if b.length < n then none else some (b.take n, b.drop n)

theorem takeBytes_append {n : Nat} {a : Bytes} (h : a.length = n) (r : Bytes) :
    takeBytes n (a ++ r) = some (a, r) := by
  have hlen : ¬ (a ++ r).length < n := by
    rw [List.length_append]
    omega
  rw [takeBytes, if_neg hlen, List.take_left' h, List.drop_left' h]

@[simp] theorem takeBytes_self (a r : Bytes) : takeBytes a.length (a ++ r) = some (a, r) :=
  takeBytes_append rfl r

@[simp] theorem takeBytes_one (x : UInt8) (r : Bytes) : takeBytes 1 (x :: r) = some ([x], r) :=
  takeBytes_append (a := [x]) rfl r

@[simp] theorem takeBytes_toLE (k n : Nat) (r : Bytes) :
    takeBytes k (toLE k n ++ r) = some (toLE k n, r) :=
  takeBytes_append (length_toLE k n) r

theorem takeBytes_eq_none {n : Nat} {b : Bytes} : takeBytes n b = none ↔ b.length < n := by
  unfold takeBytes
  split
  · next h => exact ⟨fun _ => h, fun _ => rfl⟩
  · next h => exact ⟨fun hsome => absurd hsome (by simp), fun hlt => absurd hlt h⟩

theorem takeBytes_eq_some {n : Nat} {b a r : Bytes} (h : takeBytes n b = some (a, r)) :
    b = a ++ r ∧ a.length = n := by
  unfold takeBytes at h
  split at h
  · exact absurd h (by simp)
  · next hlen =>
    obtain ⟨rfl, rfl⟩ := Prod.mk.inj (Option.some.inj h)
    refine ⟨(List.take_append_drop n b).symm, ?_⟩
    rw [List.length_take]
    omega

end PcloudClient.Bytes
