/-
  Pfs/Throttle.lean --- writes while the local disk is nearly full (pfs.c, lines 2114-2212).

  What the read cache gives back is a parameter of the check.  The arithmetic is that of 64 bits;
  a free space of -1 is the word of ones.
-/
import Mathlib.Algebra.GroupWithZero.Nat
import Mathlib.Logic.Function.Basic
import Mathlib.Logic.Relation

set_option autoImplicit false

namespace PcloudClient.Pfs.Throttle

/-! ## The check of the space -/

/-- `PSYNC_FS_MIN_INITIAL_WRITE_SHAPER` -/
abbrev minInitialWriteShaper : Nat := 200 * 1024

/-- What `psync_fs_do_check_write_space` comes to.  A throttled write has the values that the
speed was computed of. -/
inductive Checked where
  | failed
  | enough
  | refused
  | unthrottled
  | divisionByZero
  | throttled (freespc minlocal mult speed : Nat)
  deriving DecidableEq

/-- `psync_fs_do_check_write_space`; `freed₁` is what the call for twice the size, or the one
below three quarters, frees, and `freed₂` what the one without an upload does. -/
def doCheckWriteSpace (minlocal freespc size freed₁ freed₂ : UInt64) (uploadspeed : UInt32) :
    Checked :=
  let minlocal := minlocal.toNat
  let freespc := freespc.toNat
  let size := size.toNat
  if freespc = 2 ^ 64 - 1 then .failed
  else if (minlocal + size) % 2 ^ 64 ≤ freespc then .enough
  else
    let half := freespc ≤ minlocal / 2 ∨ minlocal ≤ 4096 ∨ freespc ≤ size
    if half ∧ freed₁.toNat < size * 2 % 2 ^ 64 then .refused
    else
      let freed := half ∨ freespc ≤ minlocal / 4 * 3 ∧ size ≤ freed₁.toNat
      let freespc := if half then minlocal / 2 + 1 else freespc
      if uploadspeed = 0 ∧ (freed ∨ size ≤ freed₂.toNat) then .unthrottled
      else
        let minlocal := minlocal / 2
        if minlocal = 0 then .divisionByZero
        else
          let mult := (freespc + 2 ^ 64 - minlocal) % 2 ^ 64 * 1023 % 2 ^ 64 / minlocal + 1
          let speed := uploadspeed.toNat * 3 % 2 ^ 32 / 2
          let speed := if speed < minInitialWriteShaper then minInitialWriteShaper else speed
          .throttled freespc minlocal mult (speed * mult % 2 ^ 64 / 1024)

/-- What is asked of the arithmetic: `assert(mult>=1 && mult<=1024)` is in the function, and
`assert(speed>0)` in `psync_fs_throttle`. -/
def Checked.Ok : Checked → Prop
  | .divisionByZero => False
  | .throttled freespc minlocal mult speed =>
    minlocal ≤ freespc ∧ 1 ≤ mult ∧ mult ≤ 1024 ∧ 0 < speed
  | _ => True

/-- A minimum whose half is nothing, with enough in the read cache. -/
def TinyMinimum (minlocal freespc size freed₁ : UInt64) (uploadspeed : UInt32) : Prop :=
  minlocal.toNat ≤ 1 ∧ freespc.toNat ≠ 2 ^ 64 - 1 ∧
    freespc.toNat < (minlocal.toNat + size.toNat) % 2 ^ 64 ∧
    size.toNat * 2 % 2 ^ 64 ≤ freed₁.toNat ∧ uploadspeed ≠ 0

/-- More free space than the minimum, by a part in some thousands of it, and still less than the
minimum and the write. -/
def PastMinimum (minlocal freespc size freed₂ : UInt64) (uploadspeed : UInt32) : Prop :=
  4096 < minlocal.toNat ∧ freespc.toNat ≠ 2 ^ 64 - 1 ∧
    freespc.toNat < (minlocal.toNat + size.toNat) % 2 ^ 64 ∧
    minlocal.toNat / 4 * 3 < freespc.toNat ∧ minlocal.toNat / 2 < freespc.toNat ∧
    size.toNat < freespc.toNat ∧ (uploadspeed = 0 → freed₂.toNat < size.toNat) ∧
    1024 * (minlocal.toNat / 2) ≤ (freespc.toNat - minlocal.toNat / 2) * 1023 % 2 ^ 64

/-- The multiplier is at most 1024 just when its quotient is below. -/
theorem div_succ_le_iff {x half : Nat} (h : 0 < half) : x / half + 1 ≤ 1024 ↔ x < 1024 * half := by
  rw [Nat.succ_le_iff, Nat.div_lt_iff_lt_mul h]

theorem speed_pos {speed mult : Nat} (hspeed : minInitialWriteShaper ≤ speed) (h : speed < 2 ^ 32)
    (hmult : 1 ≤ mult ∧ mult ≤ 1024) : 0 < speed * mult % 2 ^ 64 / 1024 := by
  have hlow : 204800 * 1 ≤ speed * mult := Nat.mul_le_mul hspeed hmult.1
  have hhigh : speed * mult ≤ 2 ^ 32 * 1024 := Nat.mul_le_mul (Nat.le_of_lt h) hmult.2
  omega

/-- The initial speed, before the multiplier. -/
theorem initial_speed (uploadspeed : UInt32) :
    minInitialWriteShaper ≤ (if uploadspeed.toNat * 3 % 2 ^ 32 / 2 < minInitialWriteShaper then
        minInitialWriteShaper else uploadspeed.toNat * 3 % 2 ^ 32 / 2) ∧
      (if uploadspeed.toNat * 3 % 2 ^ 32 / 2 < minInitialWriteShaper then
        minInitialWriteShaper else uploadspeed.toNat * 3 % 2 ^ 32 / 2) < 2 ^ 32 := by
  have hshaper : minInitialWriteShaper = 204800 := rfl
  split
  · omega
  · omega

/-- A write that is throttled, with the free space at half of the minimum or more. -/
theorem throttled_ok_iff {freespc half : Nat} (hhalf : 0 < half) (hle : half ≤ freespc)
    (hlt : freespc < 2 ^ 64) {speed : Nat} (hspeed : minInitialWriteShaper ≤ speed)
    (hword : speed < 2 ^ 32) :
    (Checked.throttled freespc half
      ((freespc + 2 ^ 64 - half) % 2 ^ 64 * 1023 % 2 ^ 64 / half + 1)
      (speed * ((freespc + 2 ^ 64 - half) % 2 ^ 64 * 1023 % 2 ^ 64 / half + 1) % 2 ^ 64 /
        1024)).Ok ↔
      (freespc - half) * 1023 % 2 ^ 64 < 1024 * half := by
  have hsub : (freespc + 2 ^ 64 - half) % 2 ^ 64 = freespc - half := by omega
  rw [hsub, ← div_succ_le_iff hhalf]
  constructor
  · rintro ⟨-, -, hmult, -⟩
    exact hmult
  · intro hmult
    exact ⟨hle, Nat.le_add_left _ _, hmult, speed_pos hspeed hword ⟨Nat.le_add_left _ _, hmult⟩⟩

theorem doCheckWriteSpace_ok (minlocal freespc size freed₁ freed₂ : UInt64)
    (uploadspeed : UInt32) :
    (doCheckWriteSpace minlocal freespc size freed₁ freed₂ uploadspeed).Ok ↔
      ¬ TinyMinimum minlocal freespc size freed₁ uploadspeed ∧
        ¬ PastMinimum minlocal freespc size freed₂ uploadspeed := by
  have hfreespc : freespc.toNat < 2 ^ 64 := freespc.toNat_lt
  have hminlocal : minlocal.toNat < 2 ^ 64 := minlocal.toNat_lt
  obtain ⟨hspeed, hword⟩ := initial_speed uploadspeed
  rw [doCheckWriteSpace]
  simp only
  by_cases hfailed : freespc.toNat = 2 ^ 64 - 1
  · rw [if_pos hfailed]
    exact iff_of_true trivial ⟨fun h => h.2.1 hfailed, fun h => h.2.1 hfailed⟩
  rw [if_neg hfailed]
  by_cases henough : (minlocal.toNat + size.toNat) % 2 ^ 64 ≤ freespc.toNat
  · rw [if_pos henough]
    exact iff_of_true trivial
      ⟨fun h => Nat.not_lt.mpr henough h.2.2.1, fun h => Nat.not_lt.mpr henough h.2.2.1⟩
  rw [if_neg henough]
  by_cases hhalf : freespc.toNat ≤ minlocal.toNat / 2 ∨ minlocal.toNat ≤ 4096 ∨
      freespc.toNat ≤ size.toNat
  · have hpast : ¬ PastMinimum minlocal freespc size freed₂ uploadspeed := by
      rintro ⟨hmin, -, -, -, hover, hsize, -⟩
      omega
    by_cases hfree : freed₁.toNat < size.toNat * 2 % 2 ^ 64
    · rw [if_pos ⟨hhalf, hfree⟩]
      exact iff_of_true trivial ⟨fun h => Nat.not_lt.mpr h.2.2.2.1 hfree, hpast⟩
    rw [if_neg fun h => hfree h.2]
    by_cases hupload : uploadspeed = 0
    · rw [if_pos ⟨hupload, Or.inl (Or.inl hhalf)⟩]
      exact iff_of_true trivial ⟨fun h => h.2.2.2.2 hupload, hpast⟩
    rw [if_neg fun h => hupload h.1]
    by_cases hzero : minlocal.toNat / 2 = 0
    · rw [if_pos hzero]
      refine iff_of_false id fun h => h.1 ⟨by omega, hfailed, by omega, by omega, hupload⟩
    · rw [if_neg hzero, if_pos hhalf,
        throttled_ok_iff (by omega) (by omega) (by omega) hspeed hword]
      refine iff_of_true (by omega) ⟨?_, hpast⟩
      rintro ⟨hmin, -⟩
      omega
  · rw [if_neg fun h => hhalf h.1]
    have htiny : ¬ TinyMinimum minlocal freespc size freed₁ uploadspeed := by
      rintro ⟨hmin, -⟩
      omega
    have hquarters : PastMinimum minlocal freespc size freed₂ uploadspeed →
        ¬ freespc.toNat ≤ minlocal.toNat / 4 * 3 := fun h => Nat.not_le.mpr h.2.2.2.1
    by_cases hskip : uploadspeed = 0 ∧ (((freespc.toNat ≤ minlocal.toNat / 2 ∨
        minlocal.toNat ≤ 4096 ∨ freespc.toNat ≤ size.toNat) ∨
          freespc.toNat ≤ minlocal.toNat / 4 * 3 ∧ size.toNat ≤ freed₁.toNat) ∨
            size.toNat ≤ freed₂.toNat)
    · rw [if_pos hskip]
      refine iff_of_true trivial ⟨htiny, fun h => ?_⟩
      obtain ⟨hupload, (hin | ⟨hlow, -⟩) | hfree⟩ := hskip
      · exact hhalf hin
      · exact hquarters h hlow
      · exact Nat.not_lt.mpr hfree (h.2.2.2.2.2.2.1 hupload)
    · have hzero : minlocal.toNat / 2 ≠ 0 := by omega
      rw [if_neg hskip, if_neg hzero, if_neg hhalf,
        throttled_ok_iff (by omega) (by omega) hfreespc hspeed hword]
      constructor
      · intro hlt
        exact ⟨htiny, fun h => Nat.not_lt.mpr h.2.2.2.2.2.2.2 hlt⟩
      · rintro ⟨-, hpast⟩
        by_contra hge
        have hmod := Nat.mod_le ((freespc.toNat - minlocal.toNat / 2) * 1023) (2 ^ 64)
        have hover : ¬ freespc.toNat ≤ minlocal.toNat / 4 * 3 := fun hlow => hge (by omega)
        have hcache : uploadspeed = 0 → freed₂.toNat < size.toNat := by
          intro hupload
          by_contra hfree
          exact hskip ⟨hupload, Or.inr (Nat.not_lt.mp hfree)⟩
        exact hpast ⟨by omega, hfailed, by omega, by omega, by omega, by omega, hcache, by omega⟩

/-! ## The shaper -/

/-- A call of `psync_fs_throttle` on its way, after `cnt` rounds; `currsec` is the second of the
round it has begun, which is read before the mutex is taken. -/
structure Call where
  size : Nat
  speed : Nat
  cnt : Nat
  currsec : Option Int

/-- The static variables of `psync_fs_throttle`, the calls, and what has been charged to each
second, the last charge first: how much, and the speed of the call. -/
structure Shaper where
  thissec : Int
  writtenthissec : Nat
  calls : Nat → Option Call
  charges : Int → List (Nat × Nat)

/-- `PSYNC_FS_MAX_SHAPER_SLEEP_SEC` -/
abbrev maxShaperSleepSec : Nat := 8

namespace Shaper

def init : Shaper := ⟨0, 0, fun _ => none, fun _ => []⟩

def setCall (s : Shaper) (tid : Nat) (c : Option Call) : Shaper :=
  { s with calls := Function.update s.calls tid c }

/-- `amount` bytes of a call are written in the second. -/
def charge (s : Shaper) (amount speed : Nat) : Shaper :=
  { s with
    writtenthissec := s.writtenthissec + amount
    charges := Function.update s.charges s.thissec ((amount, speed) :: s.charges s.thissec) }

/-- The start of a round: another second has nothing written. -/
def tick (s : Shaper) (currsec : Int) : Shaper :=
  if currsec ≠ s.thissec then { s with thissec := currsec, writtenthissec := 0 } else s

/-- A round of a call under `throttle_mutex`. -/
def round (s : Shaper) (currsec : Int) (tid : Nat) (c : Call) : Shaper :=
  let s := s.tick currsec
  if s.writtenthissec < c.speed then
    if c.speed < (s.writtenthissec + c.size) % 2 ^ 64 then
      (s.charge (c.speed - s.writtenthissec) c.speed).setCall tid
        (some ⟨c.size - (c.speed - s.writtenthissec), c.speed, c.cnt + 1, none⟩)
    else
      { (s.charge c.size c.speed).setCall tid none with
        writtenthissec := (s.writtenthissec + c.size) % 2 ^ 64 }
  else s.setCall tid (some { c with cnt := c.cnt + 1, currsec := none })

/-- What the thread `tid` does. -/
inductive Action where
  | call (tid size speed : Nat)
  | time (tid : Nat) (currsec : Int)
  | round (tid : Nat)
  | leave (tid : Nat)

/-- A call is made, reads the time, does a round, or has done all of them. -/
inductive Step : Shaper → Action → Shaper → Prop where
  | call {s : Shaper} {tid size speed : Nat} (hfree : s.calls tid = none) (hspeed : 0 < speed) :
      Step s (.call tid size speed) (s.setCall tid (some ⟨size, speed, 0, none⟩))
  | time {s : Shaper} {tid : Nat} {c : Call} (currsec : Int) (hcall : s.calls tid = some c)
      (hcnt : c.cnt < maxShaperSleepSec) (hcurrsec : c.currsec = none) :
      Step s (.time tid currsec) (s.setCall tid (some { c with currsec := some currsec }))
  | round {s : Shaper} {tid : Nat} {c : Call} {currsec : Int} (hcall : s.calls tid = some c)
      (hcurrsec : c.currsec = some currsec) : Step s (.round tid) (s.round currsec tid c)
  | leave {s : Shaper} {tid : Nat} {c : Call} (hcall : s.calls tid = some c)
      (hcnt : maxShaperSleepSec ≤ c.cnt) : Step s (.leave tid) (s.setCall tid none)

/-- A round is in the second of the round before, or in one to which nothing has been charged yet;
and the sum of what is written and of the size is one of `uint64_t`. -/
def Fits (s : Shaper) : Action → Prop
  | .round tid => ∀ c currsec, s.calls tid = some c → c.currsec = some currsec →
    (currsec = s.thissec ∨ s.charges currsec = []) ∧
      (s.tick currsec).writtenthissec + c.size < 2 ^ 64
  | _ => True

/-- Any interleaving of calls whose steps meet the condition. -/
def Run (cond : Shaper → Action → Prop) : Shaper → Shaper → Prop :=
  Relation.ReflTransGen fun s s' => ∃ a, Step s a s' ∧ cond s a

/-- Each charge to a second is made by a call whose speed is not exceeded by it and by all the
charges before. -/
def Kept : List (Nat × Nat) → Prop
  | [] => True
  | (amount, speed) :: charges => amount + (charges.map Prod.fst).sum ≤ speed ∧ Kept charges

/-- What is written this second is what has been charged to it. -/
structure Inv (s : Shaper) : Prop where
  written : s.writtenthissec = ((s.charges s.thissec).map Prod.fst).sum
  kept : ∀ sec, Kept (s.charges sec)

theorem Inv.init : Inv Shaper.init := ⟨rfl, fun _ => trivial⟩

theorem Inv.setCall {s : Shaper} (h : Inv s) (tid : Nat) (c : Option Call) :
    Inv (s.setCall tid c) :=
  ⟨h.written, h.kept⟩

theorem Inv.tick {s : Shaper} (h : Inv s) {currsec : Int}
    (hnew : currsec = s.thissec ∨ s.charges currsec = []) : Inv (s.tick currsec) := by
  unfold Shaper.tick
  split
  · next hne =>
    refine ⟨?_, h.kept⟩
    simp only [hnew.resolve_left hne]
    rfl
  · exact h

/-- One charge, of `amount` bytes. -/
theorem Inv.charge {s : Shaper} (h : Inv s) {amount speed : Nat}
    (hle : s.writtenthissec + amount ≤ speed) : Inv (s.charge amount speed) := by
  have hsum := h.written
  refine ⟨?_, fun sec => ?_⟩
  · simp only [Shaper.charge, Function.update_self, List.map_cons, List.sum_cons]
    rw [hsum, Nat.add_comm]
  · rcases eq_or_ne sec s.thissec with rfl | hne
    · simp only [Shaper.charge, Function.update_self]
      exact ⟨by omega, h.kept _⟩
    · simp only [Shaper.charge, Function.update_of_ne hne]
      exact h.kept sec

theorem Inv.round {s : Shaper} (h : Inv s) {currsec : Int} (tid : Nat) (c : Call)
    (hnew : currsec = s.thissec ∨ s.charges currsec = [])
    (hword : (s.tick currsec).writtenthissec + c.size < 2 ^ 64) : Inv (s.round currsec tid c) := by
  have htick := h.tick hnew
  have hsum := Nat.mod_eq_of_lt hword
  unfold Shaper.round
  simp only [hsum]
  split
  · next hopen =>
    split
    · exact (htick.charge (by omega)).setCall tid _
    · exact (htick.charge (by omega)).setCall tid none
  · exact htick.setCall tid _

theorem Inv.step {s s' : Shaper} {a : Action} (h : Inv s) (hstep : Step s a s') (hfits : s.Fits a) :
    Inv s' := by
  cases hstep with
  | call => exact h.setCall _ _
  | time => exact h.setCall _ _
  | round hcall hcurrsec =>
    obtain ⟨hnew, hword⟩ := hfits _ _ hcall hcurrsec
    exact h.round _ _ hnew hword
  | leave => exact h.setCall _ _

theorem Inv.run {s : Shaper} (h : Run Fits Shaper.init s) : Inv s := by
  induction h with
  | refl => exact Inv.init
  | tail _ hstep ih =>
    obtain ⟨a, hstep, hfits⟩ := hstep
    exact ih.step hstep hfits

end Shaper

/-- The check computes a speed out of a multiplier in its range, unless the minimum has no half or
the free space is past it; and while no second comes back that has been charged before, each charge
to a second is within the speed of its call, with all that was charged to the second before. -/
theorem throttle_ok (minlocal freespc size freed₁ freed₂ : UInt64) (uploadspeed : UInt32)
    (s : Shaper) :
    ((doCheckWriteSpace minlocal freespc size freed₁ freed₂ uploadspeed).Ok ↔
      ¬ TinyMinimum minlocal freespc size freed₁ uploadspeed ∧
        ¬ PastMinimum minlocal freespc size freed₂ uploadspeed) ∧
    (Shaper.Run Shaper.Fits Shaper.init s → ∀ sec, Shaper.Kept (s.charges sec)) :=
  ⟨doCheckWriteSpace_ok _ _ _ _ _ _, fun h => (Shaper.Inv.run h).kept⟩

/-! ## Two calls at five bytes a second -/

/-- A call for ten bytes and one for three, which have read their seconds. -/
def twoCalls (sec₀ sec₁ : Int) : Shaper :=
  ((((Shaper.init.setCall 0 (some ⟨10, 5, 0, none⟩)).setCall 1 (some ⟨3, 5, 0, none⟩)).setCall 0
    (some ⟨10, 5, 0, some sec₀⟩)).setCall 1 (some ⟨3, 5, 0, some sec₁⟩))

theorem run_twoCalls (cond : Shaper → Shaper.Action → Prop) (sec₀ sec₁ : Int)
    (hcond : ∀ s a, (∀ tid, a ≠ .round tid) → cond s a) :
    Shaper.Run cond Shaper.init (twoCalls sec₀ sec₁) :=
  (((Relation.ReflTransGen.single ⟨.call 0 10 5, .call rfl (by decide), hcond _ _ nofun⟩).tail
    ⟨.call 1 3 5, .call rfl (by decide), hcond _ _ nofun⟩).tail
      ⟨.time 0 sec₀, @Shaper.Step.time _ 0 ⟨10, 5, 0, none⟩ sec₀ rfl (by decide) rfl,
        hcond _ _ nofun⟩).tail
        ⟨.time 1 sec₁, @Shaper.Step.time _ 1 ⟨3, 5, 0, none⟩ sec₁ rfl (by decide) rfl,
          hcond _ _ nofun⟩

theorem fits_of_not_round (s : Shaper) (a : Shaper.Action) (h : ∀ tid, a ≠ .round tid) :
    s.Fits a := by
  cases a with
  | round tid => exact absurd rfl (h tid)
  | call | time | leave => trivial

/-- Second 11 takes five of the ten bytes and second 12 the three of the other call. -/
theorem throttle_ok_two_calls :
    ∃ s : Shaper, s.charges 11 = [(5, 5)] ∧ s.charges 12 = [(3, 5)] ∧
      ∀ sec, Shaper.Kept (s.charges sec) := by
  have hrun := run_twoCalls Shaper.Fits 11 12 fits_of_not_round
  have hround₀ := hrun.tail ⟨.round 0, .round rfl rfl, by
    intro c currsec hc hcurrsec
    cases hc
    cases hcurrsec
    decide⟩
  have hround₁ := hround₀.tail ⟨.round 1, .round rfl rfl, by
    intro c currsec hc hcurrsec
    cases hc
    cases hcurrsec
    exact ⟨.inr rfl, by decide⟩⟩
  exact ⟨_, rfl, rfl, (throttle_ok 0 100 4096 0 0 1000 _).2 hround₁⟩

/-- No minimum, a hundred bytes of free space, a page to write and two of them freed; and rounds in
the seconds 11, 10 and 11 again, the second of which read its second before the others. -/
theorem not_throttle_ok :
    ¬ (doCheckWriteSpace 0 100 4096 8192 0 1000).Ok ∧
      ∃ s, Shaper.Run (fun _ _ => True) Shaper.init s ∧ s.charges 11 = [(5, 5), (5, 5)] ∧
        ¬ ∀ sec, Shaper.Kept (s.charges sec) := by
  refine ⟨?_, ?_⟩
  · have hzero : doCheckWriteSpace 0 100 4096 8192 0 1000 = .divisionByZero := by decide
    rw [hzero]
    exact id
  · have hrun := run_twoCalls (fun _ _ => True) 11 10 fun _ _ _ => trivial
    have hround₁ := (hrun.tail ⟨.round 0, .round rfl rfl, trivial⟩).tail
      ⟨.round 1, .round rfl rfl, trivial⟩
    have hround₂ :=
      (hround₁.tail ⟨.time 0 11, .time 11 rfl (show 1 < 8 by decide) rfl, trivial⟩).tail
      ⟨.round 0, .round rfl rfl, trivial⟩
    refine ⟨_, hround₂, rfl, fun hkept => ?_⟩
    exact absurd (hkept 11).1 (by decide)

end PcloudClient.Pfs.Throttle
