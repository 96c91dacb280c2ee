/-
  FsCrypto/PauseTask.lean --- the task of a log that cannot be opened (`pfscrypto.c`, lines
  932-939 and 1738-1761, and `psync_binhex`).

  A string is its bytes with the zero at their end; a read behind them is `none`.
-/
import PcloudClient.Foundation.Bytes

set_option autoImplicit false

namespace PcloudClient.FsCrypto.PauseTask

open PcloudClient.Bytes

/-! ## The name -/

/-- A digit of `__hex_lookupl`. -/
def hexDigit (v : UInt8) : UInt8 := if v < 10 then 48 + v else 87 + v

/-- `psync_binhex` -/
def binhex (src : Bytes) : Bytes :=
  src.flatMap fun b : UInt8 => [hexDigit (b >>> 4), hexDigit (b &&& 15)]

/-- The name of `flog` in `psync_fs_crypto_do_finalize_log`, up to its zero. -/
def flogName (fileid : Int) : Bytes :=
  let fileid := ((-fileid) % 2 ^ 64).toNat
  let fileidhex := ((binhex (toLE 8 fileid)).set 8 102).set 9 0
  fileidhex.take 10

/-! ## The task -/

/-- `isxdigit` -/
def isxdigit (ch : UInt8) : Bool :=
  (48 ≤ ch && ch ≤ 57) || (97 ≤ ch && ch ≤ 102) || (65 ≤ ch && ch ≤ 70)

/-- `conv_xdigit`; a `char` is signed. -/
def convXdigit (dig : UInt8) : UInt32 :=
  if 48 ≤ dig ∧ dig ≤ 57 then dig.toUInt32 - 48
  else if 97 ≤ dig ∧ dig ≤ 102 then dig.toUInt32 - 97 + 10
  else dig.toInt8.toInt32.toUInt32 - 65 + 10

/-- The loop of `psync_fs_pause_task_by_name`. -/
def taskidLoop (taskid mul : UInt64) : Bytes → Option UInt64
  | [] => none
  | [a] => if isxdigit a then none else some taskid
  | a :: b :: fn =>
    if isxdigit a && isxdigit b then
      -- `fn+=2` comes first
      match fn with
      | c :: d :: _ =>
        taskidLoop (taskid + mul * (convXdigit c * 16 + convXdigit d).toUInt64) (mul * 256) fn
      | _ => none
    else some taskid

/-- A row of the table `fstask`; the id is the 64 bits that are bound to the statement. -/
structure Row where
  id : UInt64
  status : Nat
  deriving DecidableEq

/-- `UPDATE fstask SET status=1 WHERE id=?` -/
def pauseId (taskid : UInt64) (fstask : List Row) : List Row :=
  fstask.map fun row => if row.id = taskid then { row with status := 1 } else row

/-- `psync_fs_pause_task_by_name` -/
def pauseTaskByName (fn : Bytes) (fstask : List Row) : Option (List Row) :=
  (taskidLoop 0 1 fn).map fun taskid => pauseId taskid fstask

/-! ## Digits -/

theorem hexDigit_ofNat : ∀ n < 16, isxdigit (hexDigit (UInt8.ofNat n)) = true ∧
    convXdigit (hexDigit (UInt8.ofNat n)) = UInt32.ofNat n := by
  decide

/-- The two digits of a byte. -/
theorem digits (b : UInt8) :
    (isxdigit (hexDigit (b >>> 4)) && isxdigit (hexDigit (b &&& 15))) = true ∧
      (convXdigit (hexDigit (b >>> 4)) * 16 + convXdigit (hexDigit (b &&& 15))).toUInt64 =
        UInt64.ofNat b.toNat := by
  have hb : b.toNat < 256 := b.toNat_lt
  have hhigh : b >>> 4 = UInt8.ofNat (b.toNat / 16) := by
    apply UInt8.toNat_inj.mp
    rw [UInt8.toNat_shiftRight, UInt8.toNat_ofNat']
    have hshift : b.toNat >>> ((4 : UInt8).toNat % 8) = b.toNat / 16 :=
      Nat.shiftRight_eq_div_pow _ 4
    omega
  have hlow : b &&& 15 = UInt8.ofNat (b.toNat % 16) := by
    apply UInt8.toNat_inj.mp
    rw [UInt8.toNat_and, UInt8.toNat_ofNat']
    have hand : b.toNat &&& (15 : UInt8).toNat = b.toNat % 16 :=
      Nat.and_two_pow_sub_one_eq_mod _ 4
    omega
  obtain ⟨hhex, hval⟩ := hexDigit_ofNat (b.toNat / 16) (by omega)
  obtain ⟨hhex', hval'⟩ := hexDigit_ofNat (b.toNat % 16) (by omega)
  rw [hhigh, hlow, hhex, hhex', hval, hval']
  refine ⟨rfl, ?_⟩
  apply UInt64.toNat_inj.mp
  rw [UInt32.toNat_toUInt64, UInt32.toNat_add, UInt32.toNat_mul, UInt32.toNat_ofNat',
    UInt32.toNat_ofNat', UInt64.toNat_ofNat', show (16 : UInt32).toNat = 16 from rfl]
  omega

/-- A round reads the pair behind the one that it has looked at. -/
theorem taskidLoop_digits (taskid mul : UInt64) (b : UInt8) (c d : UInt8) (fn : Bytes) :
    taskidLoop taskid mul (hexDigit (b >>> 4) :: hexDigit (b &&& 15) :: c :: d :: fn) =
      taskidLoop (taskid + mul * (convXdigit c * 16 + convXdigit d).toUInt64) (mul * 256)
        (c :: d :: fn) := by
  rw [taskidLoop, if_pos (digits b).1]

theorem flogName_eq (n : Nat) (h : n < 2 ^ 64) :
    flogName (-(n : Int)) = binhex (toLE 4 n) ++ [102, 0] := by
  have hid : ((-(-(n : Int))) % 2 ^ 64).toNat = n := by omega
  rw [flogName, hid]
  rfl

/-- The digits of a number in base 256, but for the lowest. -/
theorem upper_digits {n : Nat} (h : n < 2 ^ 32) :
    n / 256 % 256 + 256 * (n / 256 / 256 % 256) + 65536 * (n / 256 / 256 / 256 % 256) =
      n / 256 := by
  omega

/-- The id that is read out of the name of a log. -/
theorem taskidLoop_flogName (taskid : UInt32) :
    taskidLoop 0 1 (flogName (-(taskid.toNat : Int))) =
      some (UInt64.ofNat (taskid.toNat / 256 + 185 * 2 ^ 24)) := by
  have htaskid : taskid.toNat < 2 ^ 32 := taskid.toNat_lt
  rw [flogName_eq _ (by omega)]
  simp only [toLE, binhex, List.flatMap_cons, List.flatMap_nil, List.cons_append, List.nil_append,
    taskidLoop_digits, (digits _).2, UInt8.toNat_ofNat']
  -- the last round reads the `f` and the zero behind it
  have hend : (convXdigit 102 * 16 + convXdigit 0).toUInt64 = 185 := by decide
  have hstop : ∀ t m, taskidLoop t m [102, 0] = some t := fun t m => rfl
  rw [hend, hstop]
  refine congrArg some (UInt64.toNat_inj.mp ?_)
  simp only [UInt64.toNat_add, UInt64.toNat_mul, UInt64.toNat_ofNat', UInt64.reduceToNat,
    Nat.reducePow, Nat.reduceMul, Nat.reduceMod, Nat.one_mul, Nat.zero_add, Nat.mod_mod,
    Nat.mod_add_mod, Nat.add_mod_mod, Nat.mul_mod_mod]
  rw [upper_digits htaskid]

/-! ## The row -/

/-- The row of a task is the one that is changed, whatever the table is. -/
def PausesTask (taskid : UInt32) : Prop :=
  ∀ fstask, pauseTaskByName (flogName (-(taskid.toNat : Int))) fstask =
    some (pauseId taskid.toUInt64 fstask)

/-- The one task whose id is the byte 185 four times, which is what the end of a name is read as. -/
theorem pausesTask_iff (taskid : UInt32) : PausesTask taskid ↔ taskid = 0xb9b9b9b9 := by
  have hlt : taskid.toNat < 2 ^ 32 := taskid.toNat_lt
  have hid : UInt64.ofNat (taskid.toNat / 256 + 185 * 2 ^ 24) = taskid.toUInt64 ↔
      taskid = 0xb9b9b9b9 := by
    rw [← UInt64.toNat_inj, ← UInt32.toNat_inj, UInt64.toNat_ofNat', UInt32.toNat_toUInt64,
      show (0xb9b9b9b9 : UInt32).toNat = 0xb9b9b9b9 from rfl]
    omega
  have hpause : ∀ fstask, pauseTaskByName (flogName (-(taskid.toNat : Int))) fstask =
      some (pauseId (UInt64.ofNat (taskid.toNat / 256 + 185 * 2 ^ 24)) fstask) := by
    intro fstask
    rw [pauseTaskByName, taskidLoop_flogName, Option.map_some]
  constructor
  · intro h
    have hrow := h [⟨taskid.toUInt64, 0⟩]
    rw [hpause, Option.some.injEq] at hrow
    by_contra hother
    rw [← hid] at hother
    rw [pauseId, List.map_singleton, if_neg (Ne.symm hother), pauseId, List.map_singleton,
      if_pos rfl] at hrow
    exact nomatch congrArg (List.map Row.status) hrow
  · intro h fstask
    rw [hpause, hid.mpr h]

/-- The log of the task 1. -/
theorem not_pausesTask_one : ¬ PausesTask 1 := by
  intro h
  exact absurd (h [⟨1, 0⟩]) (by decide)

end PcloudClient.FsCrypto.PauseTask
