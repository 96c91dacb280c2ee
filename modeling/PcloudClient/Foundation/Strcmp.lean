/-
  Foundation/Strcmp.lean --- the order of C strings.

  A string is the list of its bytes without the terminator.  Only the sign of a result is
  used, so the terminator is put one below the least byte: a list with a zero byte in it,
  which no C string is, then still has a place in the order.
-/
import PcloudClient.Foundation.Bytes

set_option autoImplicit false

namespace PcloudClient

/-- `strcmp` -/
def strcmp : Bytes → Bytes → Int
  | [], [] => 0
  | [], y :: _ => -(y.toNat : Int) - 1
  | x :: _, [] => (x.toNat : Int) + 1
  | x :: a, y :: b => if x = y then strcmp a b else (x.toNat : Int) - y.toNat

variable {a b : Bytes} (x y : UInt8)

theorem strcmp_nil_cons : strcmp [] (y :: b) = -(y.toNat : Int) - 1 := rfl

theorem strcmp_cons_nil : strcmp (x :: a) [] = (x.toNat : Int) + 1 := rfl

theorem strcmp_cons_cons : strcmp (x :: a) (y :: b) =
    if x = y then strcmp a b else (x.toNat : Int) - y.toNat := rfl

@[simp] theorem strcmp_self (a : Bytes) : strcmp a a = 0 := by
  induction a with
  | nil => rfl
  | cons x a ih => rw [strcmp_cons_cons, if_pos rfl, ih]

theorem strcmp_eq_zero_iff : strcmp a b = 0 ↔ a = b := by
  refine ⟨fun h => ?_, fun h => h ▸ strcmp_self a⟩
  induction a generalizing b with
  | nil =>
    cases b with
    | nil => rfl
    | cons y b => rw [strcmp_nil_cons] at h; omega
  | cons x a ih =>
    cases b with
    | nil => rw [strcmp_cons_nil] at h; omega
    | cons y b =>
      rw [strcmp_cons_cons] at h
      split at h
      · next hxy => rw [hxy, ih h]
      · next hxy => exact absurd (UInt8.toNat_inj.mp (by omega)) hxy

theorem strcmp_swap (a b : Bytes) : strcmp b a = -strcmp a b := by
  induction a generalizing b with
  | nil =>
    cases b with
    | nil => rfl
    | cons y b => rw [strcmp_nil_cons, strcmp_cons_nil]; omega
  | cons x a ih =>
    cases b with
    | nil => rw [strcmp_nil_cons, strcmp_cons_nil]; omega
    | cons y b =>
      rw [strcmp_cons_cons, strcmp_cons_cons]
      split
      · next hxy => rw [if_pos hxy.symm, ih]
      · next hxy => rw [if_neg (Ne.symm hxy)]; omega

theorem strcmp_trans {a b c : Bytes} (hab : strcmp a b ≤ 0) (hbc : strcmp b c ≤ 0) :
    strcmp a c ≤ 0 := by
  induction a generalizing b c with
  | nil =>
    cases c with
    | nil => exact le_refl 0
    | cons z c => rw [strcmp_nil_cons]; omega
  | cons x a ih =>
    cases b with
    | nil => rw [strcmp_cons_nil] at hab; omega
    | cons y b =>
      cases c with
      | nil => rw [strcmp_cons_nil] at hbc; omega
      | cons z c =>
        have heq : ∀ {u v : UInt8}, (u.toNat : Int) = v.toNat → u = v :=
          fun h => UInt8.toNat_inj.mp (by omega)
        rw [strcmp_cons_cons] at hab hbc ⊢
        split at hab <;> split at hbc <;> split
        · exact ih hab hbc
        · next hxy hyz hxz => exact absurd (hxy.trans hyz) hxz
        · next hxy hyz hxz => exact absurd (hxy.symm.trans hxz) hyz
        · next hxy hyz hxz => rw [hxy]; exact hbc
        · next hxy hyz hxz => exact absurd (hxz.trans hyz.symm) hxy
        · next hxy hyz hxz => rw [← hyz]; exact hab
        · next hxy hyz hxz =>
          subst hxz
          exact absurd (heq (by omega)) hxy
        · omega

/-- A name below one of two names in order is below the other. -/
theorem strcmp_lt_of_lt_of_le {a b c : Bytes} (hab : strcmp a b < 0) (hbc : strcmp b c ≤ 0) :
    strcmp a c < 0 := by
  rcases (strcmp_trans hab.le hbc).lt_or_eq with hlt | heq
  · exact hlt
  · rw [strcmp_eq_zero_iff] at heq
    subst heq
    rw [strcmp_swap] at hbc
    omega

end PcloudClient
