/-
  Plocks/Rwlock.lean --- the reader/writer lock of plocks.c.

  A call of the lock is a chain of critical sections of `rw->mutex`: one from the entry to the
  return or to `pthread_cond_wait`, and one for each time the wait returns.  The thread specific
  counter is read and written by its own thread only, so its accesses belong to the section next
  to them.  A wait may return at any time, as the standard allows, so the signals of the code
  are recorded and never needed.
-/
import Mathlib.Algebra.Group.Nat.Defs
import PcloudClient.Foundation.Outcome

set_option autoImplicit false

namespace PcloudClient.Plocks

/-- The two widths of `uint_halfptr_t`. -/
inductive Platform where
  | x86_64
  | other
  deriving DecidableEq, Repr

def halfptrBits : Platform → Nat
  | .x86_64 => 32
  | .other => 16

def PSYNC_WR_RESERVED (p : Platform) : Nat := 2 ^ halfptrBits p - 1

/-- `psync_rwlock_t`, the options `PSYNC_RW_OPT_PREFER_READ` and `PSYNC_RW_OPT_RESERVED` as
two flags.  Each counter counts threads at most once. -/
structure Rwlock where
  rcount : Nat
  rwait : Nat
  wcount : Nat
  wwait : Nat
  preferRead : Bool
  reserved : Bool
  deriving DecidableEq, Repr

def Rwlock.init : Rwlock := ⟨0, 0, 0, 0, false, false⟩

/-- `psync_rwlock_lockcnt_t`: `cnt[0]` and `cnt[1]`. -/
structure Lockcnt where
  rd : Nat
  wr : Nat
  deriving DecidableEq, Repr

/-- The assertions of the lock, by function and condition. -/
inductive Assertion where
  | rdrecursiveNotReserved
  | wrrecursiveNotRead
  | wrrecursiveNotReserved
  | recursiveOutHeld
  | rslockNotRead
  | towrlockHeld
  | towrlockRcount
  | towrlockNoWcount
  | towrlockNoWcountAfterWait
  | unlockOneKind
  | unlockWcount
  | unlockWwait
  deriving DecidableEq, Repr

def assert (b : Bool) (e : Assertion) : Except Assertion Unit :=
  if b then .ok () else .error e

/-- `n++` on a `uint_halfptr_t`. -/
def incr (p : Platform) (n : Nat) : Nat := (n + 1) % 2 ^ halfptrBits p

/-- The calls that wait on a condition. -/
inductive Wait where
  | rdlock
  | timedrdlock
  | rdlockStarvewr
  | wrlock
  | timedwrlock
  | rslock
  | towrlock
  deriving DecidableEq, Repr

/-- What a section does to the conditions. -/
inductive Signal where
  | broadcastRcond
  | broadcastWcond
  | signalWcond
  deriving DecidableEq, Repr

/-- How a critical section ends. -/
inductive Ending where
  | waits (w : Wait)
  | returns (ret : Int)
  deriving DecidableEq, Repr

/-- What a critical section leaves behind. -/
structure After where
  rw : Rwlock
  cnt : Lockcnt
  ending : Ending
  signals : List Signal
  deriving DecidableEq, Repr

variable (p : Platform)

/-! ## The counter of a thread -/

/-- `none` where the code returns 0 and the caller goes on to the mutex. -/
def checkRdrecursiveIn (cnt : Lockcnt) : Except Assertion (Option Lockcnt) :=
  if cnt.rd ≠ 0 then .ok (some { cnt with rd := incr p cnt.rd })
  else if cnt.wr ≠ 0 then do
    assert (decide (cnt.wr ≠ PSYNC_WR_RESERVED p)) .rdrecursiveNotReserved
    .ok (some { cnt with wr := incr p cnt.wr })
  else .ok none

def checkWrrecursiveIn (cnt : Lockcnt) : Except Assertion (Option Lockcnt) := do
  assert (decide (cnt.rd = 0)) .wrrecursiveNotRead
  if cnt.wr ≠ 0 then do
    assert (decide (cnt.wr ≠ PSYNC_WR_RESERVED p)) .wrrecursiveNotReserved
    .ok (some { cnt with wr := incr p cnt.wr })
  else .ok none

/-- The counter after `unlock`, and whether the thread still holds the lock. -/
def checkRecursiveOut (cnt : Lockcnt) : Except Assertion (Lockcnt × Bool) :=
  if cnt.rd ≠ 0 then .ok ({ cnt with rd := cnt.rd - 1 }, decide (0 < cnt.rd - 1))
  else do
    assert (decide (cnt.wr ≠ 0)) .recursiveOutHeld
    .ok ({ cnt with wr := cnt.wr - 1 }, decide (0 < cnt.wr - 1))

/-! ## Locking for read -/

/-- The condition of the loops of `rdlock`, `tryrdlock` and `timedrdlock`. -/
def rdBlocked (rw : Rwlock) : Bool :=
  decide (rw.wcount ≠ 0) || (decide (rw.wwait ≠ 0) && !rw.reserved)

def takeRead (rw : Rwlock) : After :=
  ⟨{ rw with rcount := rw.rcount + 1 }, ⟨1, 0⟩, .returns 0, []⟩

/-- The loop of `rdlock` and `timedrdlock` from its condition on. -/
def rdLoop (w : Wait) (rw : Rwlock) (cnt : Lockcnt) : After :=
  if rdBlocked rw then ⟨{ rw with rwait := rw.rwait + 1 }, cnt, .waits w, []⟩
  else takeRead rw

def starvewrLoop (rw : Rwlock) (cnt : Lockcnt) : After :=
  if rw.wcount ≠ 0 then
    ⟨{ rw with rwait := rw.rwait + 1, preferRead := true }, cnt, .waits .rdlockStarvewr, []⟩
  else takeRead rw

/-- A recursive call returns at once, else the body runs under the mutex. -/
def orRecursive (rw : Rwlock) (body : After) : Option Lockcnt → After
  | some cnt => ⟨rw, cnt, .returns 0, []⟩
  | none => body

def rdlock (rw : Rwlock) (cnt : Lockcnt) : Except Assertion After := do
  let r ← checkRdrecursiveIn p cnt
  .ok (orRecursive rw (rdLoop .rdlock rw cnt) r)

def tryrdlock (rw : Rwlock) (cnt : Lockcnt) : Except Assertion After := do
  let r ← checkRdrecursiveIn p cnt
  .ok (orRecursive rw (if rdBlocked rw then ⟨rw, cnt, .returns (-1), []⟩ else takeRead rw) r)

def timedrdlock (rw : Rwlock) (cnt : Lockcnt) : Except Assertion After := do
  let r ← checkRdrecursiveIn p cnt
  .ok (orRecursive rw (rdLoop .timedrdlock rw cnt) r)

def rdlockStarvewr (rw : Rwlock) (cnt : Lockcnt) : Except Assertion After := do
  let r ← checkRdrecursiveIn p cnt
  .ok (orRecursive rw (starvewrLoop rw cnt) r)

/-! ## Locking for write -/

/-- The condition of the loops of `wrlock`, `trywrlock` and `timedwrlock`. -/
def wrBlocked (rw : Rwlock) : Bool :=
  decide (rw.rcount ≠ 0) || decide (rw.wcount ≠ 0) || rw.reserved

def takeWrite (rw : Rwlock) : After :=
  ⟨{ rw with wcount := rw.wcount + 1 }, ⟨0, 1⟩, .returns 0, []⟩

def wrLoop (w : Wait) (rw : Rwlock) (cnt : Lockcnt) : After :=
  if wrBlocked rw then ⟨{ rw with wwait := rw.wwait + 1 }, cnt, .waits w, []⟩
  else takeWrite rw

def wrlock (rw : Rwlock) (cnt : Lockcnt) : Except Assertion After := do
  let r ← checkWrrecursiveIn p cnt
  .ok (orRecursive rw (wrLoop .wrlock rw cnt) r)

def trywrlock (rw : Rwlock) (cnt : Lockcnt) : Except Assertion After := do
  let r ← checkWrrecursiveIn p cnt
  .ok (orRecursive rw (if wrBlocked rw then ⟨rw, cnt, .returns (-1), []⟩ else takeWrite rw) r)

def timedwrlock (rw : Rwlock) (cnt : Lockcnt) : Except Assertion After := do
  let r ← checkWrrecursiveIn p cnt
  .ok (orRecursive rw (wrLoop .timedwrlock rw cnt) r)

/-! ## Reserved locks and the upgrade -/

def rslockLoop (rw : Rwlock) (cnt : Lockcnt) : After :=
  if rw.wcount ≠ 0 ∨ rw.reserved then
    ⟨{ rw with wwait := rw.wwait + 1 }, cnt, .waits .rslock, []⟩
  else
    ⟨{ rw with rcount := rw.rcount + 1, reserved := true }, ⟨1, PSYNC_WR_RESERVED p⟩, .returns 0,
      if rw.rwait ≠ 0 then [.broadcastRcond] else []⟩

def rslock (rw : Rwlock) (cnt : Lockcnt) : Except Assertion After := do
  assert (decide (cnt.rd = 0)) .rslockNotRead
  if cnt.wr ≠ 0 then
    if cnt.wr = PSYNC_WR_RESERVED p then
      .ok ⟨rw, { cnt with rd := incr p cnt.rd }, .returns 0, []⟩
    else .ok ⟨rw, { cnt with wr := incr p cnt.wr }, .returns 0, []⟩
  else .ok (rslockLoop p rw cnt)

/-- The loop of `towrlock`, entered after the thread left the readers. -/
def towrlockLoop (rw : Rwlock) (cnt : Lockcnt) : Except Assertion After :=
  if rw.rcount ≠ 0 then
    .ok ⟨{ rw with wwait := rw.wwait + 1 }, cnt, .waits .towrlock, []⟩
  else do
    assert (decide (rw.wcount = 0)) .towrlockNoWcountAfterWait
    .ok ⟨{ rw with wcount := rw.wcount + 1, reserved := false }, ⟨0, cnt.rd⟩, .returns 0, []⟩

def towrlock (rw : Rwlock) (cnt : Lockcnt) : Except Assertion After :=
  if cnt.wr ≠ 0 ∧ cnt.wr ≠ PSYNC_WR_RESERVED p then .ok ⟨rw, cnt, .returns 0, []⟩
  else do
    assert (decide (cnt.rd ≠ 0)) .towrlockHeld
    assert (decide (rw.rcount ≠ 0)) .towrlockRcount
    assert (decide (rw.wcount = 0)) .towrlockNoWcount
    if rw.reserved ∧ cnt.wr ≠ PSYNC_WR_RESERVED p then .ok ⟨rw, cnt, .returns (-1), []⟩
    else towrlockLoop { rw with rcount := rw.rcount - 1, reserved := true } cnt

/-! ## Unlocking -/

/-- `psync_rwlock_is_reserved_by_this_thread_clr` where the option is set. -/
def clearReserved (rw : Rwlock) (cnt : Lockcnt) : Rwlock × Lockcnt :=
  if rw.reserved ∧ cnt.wr = PSYNC_WR_RESERVED p then
    ({ rw with reserved := false }, { cnt with wr := 0 })
  else (rw, cnt)

def unlockRead (rw : Rwlock) (cnt : Lockcnt) : After :=
  let (rw, cnt) := clearReserved p rw cnt
  let rw := { rw with rcount := rw.rcount - 1 }
  ⟨rw, cnt, .returns 0,
    if rw.rcount = 0 ∧ rw.wwait ≠ 0 then
      if rw.reserved then [.broadcastWcond] else [.signalWcond]
    else []⟩

/-- The signals of the last write unlock. -/
def unlockWriteSignals (rw : Rwlock) : List Signal :=
  if rw.reserved then [.broadcastWcond]
  else if rw.preferRead then
    if rw.rwait ≠ 0 then [.broadcastRcond] else if rw.wwait ≠ 0 then [.signalWcond] else []
  else if rw.wwait ≠ 0 then [.signalWcond]
  else if rw.rwait ≠ 0 then [.broadcastRcond]
  else []

def unlockWrite (rw : Rwlock) (cnt : Lockcnt) : Except Assertion After := do
  assert (decide (rw.wcount ≠ 0)) .unlockWcount
  let rw := { rw with wcount := rw.wcount - 1 }
  if rw.wcount = 0 then do
    assert (!rw.reserved || decide (rw.wwait ≠ 0)) .unlockWwait
    .ok ⟨rw, cnt, .returns 0, unlockWriteSignals rw⟩
  else .ok ⟨rw, cnt, .returns 0, []⟩

def unlock (rw : Rwlock) (cnt : Lockcnt) : Except Assertion After := do
  let (cnt, recursive) ← checkRecursiveOut cnt
  if recursive then .ok ⟨rw, cnt, .returns 0, []⟩
  else do
    assert (!(decide (rw.rcount ≠ 0) && decide (rw.wcount ≠ 0))) .unlockOneKind
    if rw.rcount ≠ 0 then .ok (unlockRead p rw cnt) else unlockWrite rw cnt

/-! ## The threads -/

inductive Op where
  | rdlock
  | rdlockStarvewr
  | tryrdlock
  | timedrdlock
  | rslock
  | towrlock
  | wrlock
  | trywrlock
  | timedwrlock
  | unlock
  deriving DecidableEq, Repr

def call (rw : Rwlock) (cnt : Lockcnt) : Op → Except Assertion After
  | .rdlock => rdlock p rw cnt
  | .rdlockStarvewr => rdlockStarvewr p rw cnt
  | .tryrdlock => tryrdlock p rw cnt
  | .timedrdlock => timedrdlock p rw cnt
  | .rslock => rslock p rw cnt
  | .towrlock => towrlock p rw cnt
  | .wrlock => wrlock p rw cnt
  | .trywrlock => trywrlock p rw cnt
  | .timedwrlock => timedwrlock p rw cnt
  | .unlock => unlock p rw cnt

/-- The wait of a thread returns: it leaves the waiters and tests the condition again. -/
def wake (rw : Rwlock) (cnt : Lockcnt) : Wait → Except Assertion After
  | .rdlock => .ok (rdLoop .rdlock { rw with rwait := rw.rwait - 1 } cnt)
  | .timedrdlock => .ok (rdLoop .timedrdlock { rw with rwait := rw.rwait - 1 } cnt)
  | .rdlockStarvewr =>
    .ok (starvewrLoop { rw with rwait := rw.rwait - 1, preferRead := false } cnt)
  | .wrlock => .ok (wrLoop .wrlock { rw with wwait := rw.wwait - 1 } cnt)
  | .timedwrlock => .ok (wrLoop .timedwrlock { rw with wwait := rw.wwait - 1 } cnt)
  | .rslock => .ok (rslockLoop p { rw with wwait := rw.wwait - 1 } cnt)
  | .towrlock => towrlockLoop { rw with wwait := rw.wwait - 1 } cnt

/-- `pthread_cond_timedwait` fails. -/
def timeout (rw : Rwlock) (cnt : Lockcnt) : Wait → Option After
  | .timedrdlock => some ⟨{ rw with rwait := rw.rwait - 1 }, cnt, .returns (-1), []⟩
  | .timedwrlock =>
    some ⟨{ rw with wwait := rw.wwait - 1 }, cnt, .returns (-1),
      if rw.wwait - 1 = 0 ∧ rw.wcount = 0 ∧ rw.rwait ≠ 0 then [.broadcastRcond] else []⟩
  | _ => none

/-- A thread: its counter, and the call in whose wait it sits. -/
structure Thread where
  cnt : Lockcnt
  inside : Option Wait
  deriving DecidableEq, Repr

def Thread.fresh : Thread := ⟨⟨0, 0⟩, none⟩

inductive Act where
  | call (op : Op)
  | wake
  | timeout
  deriving DecidableEq, Repr

/-- The critical section a thread runs next; `none` where it cannot act so. -/
def act (rw : Rwlock) (th : Thread) : Act → Option (Except Assertion After)
  | .call op => if th.inside = none then some (call p rw th.cnt op) else none
  | .wake => th.inside.map (wake p rw th.cnt)
  | .timeout => (th.inside.bind (timeout rw th.cnt)).map .ok

/-- Where the thread is after the section. -/
def After.thread (a : After) : Thread :=
  match a.ending with
  | .waits w => ⟨a.cnt, some w⟩
  | .returns _ => ⟨a.cnt, none⟩

end PcloudClient.Plocks
