/-
  Foundation/XorLinear.lean --- maps of bit vectors that are linear in exclusive or, and the
  columns that determine them.

  A map is given by the images of the single bits.  Images of a composition and of an iterate
  are found from the columns alone, so that a long iterate can be evaluated.
-/
import Mathlib.Data.BitVec
import Mathlib.Logic.Function.Iterate

set_option autoImplicit false

namespace PcloudClient

variable {w v u : Nat}

/-- `f` carries exclusive or to exclusive or. -/
def XorLinear (f : BitVec w → BitVec v) : Prop :=
  ∀ x y, f (x ^^^ y) = f x ^^^ f y

theorem xor_exchange (a b c d : BitVec v) : a ^^^ b ^^^ (c ^^^ d) = a ^^^ c ^^^ (b ^^^ d) := by
  rw [BitVec.xor_assoc, ← BitVec.xor_assoc b, BitVec.xor_comm b, BitVec.xor_assoc c,
    ← BitVec.xor_assoc a]

namespace XorLinear

theorem map_zero {f : BitVec w → BitVec v} (hf : XorLinear f) : f 0#w = 0#v := by
  have h : f 0#w ^^^ f 0#w = f 0#w := by
    rw [← hf, BitVec.xor_self]
  rw [← h, BitVec.xor_self]

theorem comp {g : BitVec v → BitVec u} {f : BitVec w → BitVec v} (hg : XorLinear g)
    (hf : XorLinear f) : XorLinear fun x => g (f x) := by
  intro x y
  show g (f (x ^^^ y)) = g (f x) ^^^ g (f y)
  rw [hf, hg]

theorem iterate {f : BitVec w → BitVec w} (hf : XorLinear f) (n : Nat) : XorLinear f^[n] := by
  induction n with
  | zero => exact fun _ _ => rfl
  | succ n ih =>
    intro x y
    rw [Function.iterate_succ_apply, Function.iterate_succ_apply, Function.iterate_succ_apply,
      hf, ih]

theorem xor {f g : BitVec w → BitVec v} (hf : XorLinear f) (hg : XorLinear g) :
    XorLinear fun x => f x ^^^ g x := by
  intro x y
  show f (x ^^^ y) ^^^ g (x ^^^ y) = f x ^^^ g x ^^^ (f y ^^^ g y)
  rw [hf, hg, xor_exchange]

theorem ushiftRight (n : Nat) : XorLinear fun x : BitVec w => x >>> n :=
  fun x y => BitVec.ushiftRight_xor_distrib x y n

theorem shiftLeft (n : Nat) : XorLinear fun x : BitVec w => x <<< n :=
  fun x y => BitVec.shiftLeft_xor_distrib x y n

theorem setWidth (v : Nat) : XorLinear fun x : BitVec w => x.setWidth v :=
  fun _ _ => BitVec.setWidth_xor

/-- A word that depends on one bit. -/
theorem bit (i : Nat) (c : BitVec v) :
    XorLinear fun x : BitVec w => if x.getLsbD i then c else 0#v := by
  intro x y
  simp only [BitVec.getLsbD_xor]
  cases x.getLsbD i <;> cases y.getLsbD i <;> simp

end XorLinear

/-! ## Columns -/

/-- The exclusive or of the columns selected by the bits of `x`, lowest bit first. -/
def mulVec : List (BitVec v) → BitVec w → BitVec v
  | [], _ => 0#v
  | c :: m, x => (if x.getLsbD 0 then c else 0#v) ^^^ mulVec m (x >>> 1)

theorem mulVec_linear (m : List (BitVec v)) : XorLinear (mulVec (w := w) m) := by
  induction m with
  | nil =>
    intro x y
    exact BitVec.xor_self.symm
  | cons c m ih => exact (XorLinear.bit 0 c).xor (ih.comp (XorLinear.ushiftRight 1))

theorem mulVec_append_singleton (m : List (BitVec v)) (c : BitVec v) (x : BitVec w) :
    mulVec (m ++ [c]) x = mulVec m x ^^^ if x.getLsbD m.length then c else 0#v := by
  induction m generalizing x with
  | nil => simp [mulVec]
  | cons d m ih =>
    rw [List.cons_append, mulVec, ih, mulVec, BitVec.xor_assoc, BitVec.getLsbD_ushiftRight,
      List.length_cons, Nat.add_comm m.length]

/-- `m` are the images of the single bits under `f`. -/
def Represents (m : List (BitVec v)) (f : BitVec w → BitVec v) : Prop :=
  ∀ x, f x = mulVec m x

/-- The `n` low bits of `x`. -/
def lowBits (n : Nat) (x : BitVec w) : BitVec w :=
  x &&& (BitVec.allOnes n).setWidth w

theorem getLsbD_lowBits (n i : Nat) (x : BitVec w) :
    (lowBits n x).getLsbD i = (x.getLsbD i && decide (i < n)) := by
  unfold lowBits
  by_cases hi : i < w
  · simp [hi]
  · simp [BitVec.getLsbD_of_ge x i (by omega)]

theorem lowBits_zero (x : BitVec w) : lowBits 0 x = 0#w := by
  apply BitVec.eq_of_getLsbD_eq
  intro i _
  simp [getLsbD_lowBits]

theorem lowBits_width (x : BitVec w) : lowBits w x = x := by
  apply BitVec.eq_of_getLsbD_eq
  intro i hi
  rw [getLsbD_lowBits, decide_eq_true hi, Bool.and_true]

theorem lowBits_succ {n : Nat} (hn : n < w) (x : BitVec w) :
    lowBits (n + 1) x = lowBits n x ^^^ if x.getLsbD n then BitVec.twoPow w n else 0#w := by
  apply BitVec.eq_of_getLsbD_eq
  intro i _
  rw [BitVec.getLsbD_xor, getLsbD_lowBits, getLsbD_lowBits]
  rcases Nat.lt_trichotomy i n with h | rfl | h
  · have hne : n ≠ i := by omega
    have hlt : i < n + 1 := by omega
    cases x.getLsbD n <;> simp [BitVec.getLsbD_twoPow, h, hne, hlt]
  · cases x.getLsbD i <;> simp [hn]
  · have hne : n ≠ i := by omega
    have hge : ¬ i < n + 1 := by omega
    have hge' : ¬ i < n := by omega
    cases x.getLsbD n <;> simp [BitVec.getLsbD_twoPow, hne, hge, hge']

/-- A linear map is the one of its columns. -/
theorem XorLinear.represents {f : BitVec w → BitVec v} (hf : XorLinear f) :
    Represents ((List.range w).map fun i => f (BitVec.twoPow w i)) f := by
  intro x
  -- the columns up to `n` give the image of the `n` low bits
  have hlow : ∀ n ≤ w,
      f (lowBits n x) = mulVec ((List.range n).map fun i => f (BitVec.twoPow w i)) x := by
    intro n
    induction n with
    | zero =>
      intro _
      rw [lowBits_zero, hf.map_zero]
      rfl
    | succ n ih =>
      intro hn
      have hcol : f (if x.getLsbD n then BitVec.twoPow w n else 0#w) =
          if x.getLsbD n then f (BitVec.twoPow w n) else 0#v := by
        split
        · rfl
        · exact hf.map_zero
      rw [lowBits_succ hn, hf, ih (by omega), hcol, List.range_succ, List.map_append,
        List.map_singleton, mulVec_append_singleton, List.length_map, List.length_range]
  have h := hlow w (le_refl w)
  rwa [lowBits_width] at h

namespace Represents

theorem comp {m : List (BitVec v)} {m' : List (BitVec u)} {f : BitVec w → BitVec v}
    {g : BitVec v → BitVec u} (hg : Represents m' g) (hf : Represents m f) :
    Represents (m.map (mulVec m')) fun x => g (f x) := by
  have hmap : ∀ (m : List (BitVec v)) (x : BitVec w),
      mulVec m' (mulVec m x) = mulVec (m.map (mulVec m')) x := by
    intro m
    induction m with
    | nil => exact fun _ => (mulVec_linear m').map_zero
    | cons c m ih =>
      intro x
      have hbit : mulVec m' (if x.getLsbD 0 then c else 0#v) =
          if x.getLsbD 0 then mulVec m' c else 0#u := by
        split
        · rfl
        · exact (mulVec_linear m').map_zero
      rw [mulVec, mulVec_linear m', hbit, ih]
      rfl
  intro x
  show g (f x) = _
  rw [hf x, hg, hmap]

end Represents

/-- The columns of an iterate of the map with the columns `m`; `bs` are the binary digits of
the number of rounds, lowest first. -/
def powColumns (m : List (BitVec w)) : List Bool → List (BitVec w)
  | [] => (List.range w).map (BitVec.twoPow w)
  | b :: bs =>
    let half := powColumns m bs
    let square := half.map (mulVec half)
    if b then square.map (mulVec m) else square

/-- The number with the binary digits `bs`, lowest first. -/
def ofBits : List Bool → Nat
  | [] => 0
  | b :: bs => 2 * ofBits bs + b.toNat

theorem Represents.pow {m : List (BitVec w)} {f : BitVec w → BitVec w} (hf : Represents m f)
    (bs : List Bool) : Represents (powColumns m bs) f^[ofBits bs] := by
  induction bs with
  | nil => exact XorLinear.represents (f := id) (fun _ _ => rfl)
  | cons b bs ih =>
    have hsquare := ih.comp ih
    have htwice : ∀ x, f^[ofBits bs] (f^[ofBits bs] x) = f^[2 * ofBits bs] x := by
      intro x
      rw [← Function.iterate_add_apply, Nat.two_mul]
    cases b with
    | false =>
      intro x
      exact (htwice x).symm.trans (hsquare x)
    | true =>
      intro x
      have h := hf.comp hsquare x
      simp only [htwice, ← Function.iterate_succ_apply'] at h
      exact h

end PcloudClient
