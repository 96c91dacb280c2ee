/-
  Plocks/Exclusion.lean --- what the threads hold, and that the lock keeps writers apart from
  everybody.

  `Hold` is what a thread holds by the calls that returned to it, with no counter of a fixed
  width: the counters of the code are to encode it.
-/
import Mathlib.Logic.Relation
import PcloudClient.Foundation.Census
import PcloudClient.Plocks.Rwlock

set_option autoImplicit false

namespace PcloudClient.Plocks

/-! ## Holds -/

/-- What a thread holds; `n` counts the holds nested in the first one. -/
inductive Hold where
  | nothing
  | read (n : Nat)
  | reserved (n : Nat)
  | write (n : Nat)
  deriving DecidableEq, Repr

namespace Hold

def depth : Hold → Nat
  | nothing => 0
  | read n => n + 1
  | reserved n => n + 1
  | write n => n + 1

def reads : Hold → Bool
  | read _ => true
  | reserved _ => true
  | _ => false

def writes : Hold → Bool
  | write _ => true
  | _ => false

def reserves : Hold → Bool
  | reserved _ => true
  | _ => false

def lockRead : Hold → Hold
  | nothing => read 0
  | read n => read (n + 1)
  | reserved n => reserved (n + 1)
  | write n => write (n + 1)

def lockWrite : Hold → Hold
  | nothing => write 0
  | write n => write (n + 1)
  | h => h

def lockReserved : Hold → Hold
  | nothing => reserved 0
  | write n => write (n + 1)
  | h => h

def upgrade : Hold → Hold
  | read n => write n
  | reserved n => write n
  | h => h

def release : Hold → Hold
  | read (n + 1) => read n
  | reserved (n + 1) => reserved n
  | write (n + 1) => write n
  | _ => nothing

/-- What the thread holds when the call returned 0. -/
def after (h : Hold) : Op → Hold
  | .rdlock | .rdlockStarvewr | .tryrdlock | .timedrdlock => h.lockRead
  | .wrlock | .trywrlock | .timedwrlock => h.lockWrite
  | .rslock => h.lockReserved
  | .towrlock => h.upgrade
  | .unlock => h.release

/-- The counter that stands for the hold. -/
def encode (p : Platform) : Hold → Lockcnt
  | nothing => ⟨0, 0⟩
  | read n => ⟨n + 1, 0⟩
  | reserved n => ⟨n + 1, PSYNC_WR_RESERVED p⟩
  | write n => ⟨0, n + 1⟩

@[simp] theorem nothing_reads : nothing.reads = false := rfl

@[simp] theorem nothing_writes : nothing.writes = false := rfl

@[simp] theorem nothing_reserves : nothing.reserves = false := rfl

@[simp] theorem write_reads (n : Nat) : (write n).reads = false := rfl

@[simp] theorem write_writes (n : Nat) : (write n).writes = true := rfl

@[simp] theorem write_reserves (n : Nat) : (write n).reserves = false := rfl

end Hold

/-- The call whose wait it is. -/
def Wait.op : Wait → Op
  | .rdlock => .rdlock
  | .timedrdlock => .timedrdlock
  | .rdlockStarvewr => .rdlockStarvewr
  | .wrlock => .wrlock
  | .timedwrlock => .timedwrlock
  | .rslock => .rslock
  | .towrlock => .towrlock

/-- A section changes what the thread holds when its call returns 0. -/
def holdAfter (h : Hold) (op : Op) : Ending → Hold
  | .waits _ => h
  | .returns ret => if ret = 0 then h.after op else h

/-! ## The system -/

/-- A thread and what it holds. -/
structure Party where
  thread : Thread
  hold : Hold
  deriving DecidableEq, Repr

structure Config (ι : Type) where
  rw : Rwlock
  party : ι → Party

def Config.init (ι : Type) : Config ι := ⟨.init, fun _ => ⟨.fresh, .nothing⟩⟩

/-- How callers use the lock: they unlock only what they hold, lock for write or reserved only
with nothing or a write lock in hand, and upgrade only a lock they hold. -/
def Disciplined (h : Hold) : Op → Prop
  | .unlock => h ≠ .nothing
  | .towrlock => h ≠ .nothing
  | .wrlock | .trywrlock | .timedwrlock | .rslock => h = .nothing ∨ h.writes
  | _ => True

instance (h : Hold) : (op : Op) → Decidable (Disciplined h op)
  | .unlock | .towrlock => inferInstanceAs (Decidable (h ≠ .nothing))
  | .wrlock | .trywrlock | .timedwrlock | .rslock =>
    inferInstanceAs (Decidable (h = .nothing ∨ h.writes))
  | .rdlock | .rdlockStarvewr | .tryrdlock | .timedrdlock => inferInstanceAs (Decidable True)

/-- The call nests fewer holds than the counter's largest value, the mark of a reserved lock. -/
def Shallow (p : Platform) (h : Hold) (op : Op) : Prop :=
  (h.after op).depth < PSYNC_WR_RESERVED p

instance (p : Platform) (h : Hold) (op : Op) : Decidable (Shallow p h op) :=
  inferInstanceAs (Decidable ((h.after op).depth < PSYNC_WR_RESERVED p))

/-- The rule that callers follow, at the calls only. -/
def Follows (rule : Hold → Op → Prop) (h : Hold) : Act → Prop
  | .call op => rule h op
  | _ => True

/-- The call that a section belongs to. -/
def Act.op (th : Thread) : Act → Op
  | .call op => op
  | _ => (th.inside.map Wait.op).getD .unlock

/-- The thread after a section of the call `op`. -/
def Party.ended (q : Party) (op : Op) (r : After) : Party :=
  ⟨r.thread, holdAfter q.hold op r.ending⟩

variable {ι : Type} [DecidableEq ι] (p : Platform)

/-- One critical section of one thread. -/
inductive Step (rule : Hold → Op → Prop) : Config ι → Config ι → Prop
  | critical (c : Config ι) (t : ι) (a : Act) (r : After)
      (hrule : Follows rule (c.party t).hold a)
      (hact : act p c.rw (c.party t).thread a = some (.ok r)) :
      Step rule c
        ⟨r.rw, Function.update c.party t ((c.party t).ended (a.op (c.party t).thread) r)⟩

/-- The configurations that any number of threads reach in any order of their sections. -/
def Reachable (rule : Hold → Op → Prop) (c : Config ι) : Prop :=
  Relation.ReflTransGen (Step p rule) (Config.init ι) c

/-! ## Who counts for what -/

namespace Party

/-- Holds the lock for read or reserved, and does not wait inside `towrlock`. -/
@[simp] def counted (q : Party) : Bool := q.hold.reads && decide (q.thread.inside ≠ some .towrlock)

@[simp] def writes (q : Party) : Bool := q.hold.writes

/-- Owns the option `PSYNC_RW_OPT_RESERVED`. -/
@[simp] def owns (q : Party) : Bool := q.hold.reserves || decide (q.thread.inside = some .towrlock)

@[simp] def waitsRcond (q : Party) : Bool :=
  match q.thread.inside with
  | some .rdlock | some .timedrdlock | some .rdlockStarvewr => true
  | _ => false

@[simp] def waitsWcond (q : Party) : Bool :=
  match q.thread.inside with
  | some .wrlock | some .timedwrlock | some .rslock | some .towrlock => true
  | _ => false

/-- The counter encodes the hold, the hold fits, and only an upgrade waits with a lock in hand. -/
structure Sound (p : Platform) (q : Party) : Prop where
  cnt : q.thread.cnt = q.hold.encode p
  fits : q.hold.depth < PSYNC_WR_RESERVED p
  waiting : ∀ w, q.thread.inside = some w →
    if w = .towrlock then q.hold.reads = true else q.hold = .nothing

end Party

/-- A writer is alone, and the option is free while there is one. -/
def Rwlock.Apart (rw : Rwlock) : Prop :=
  rw.wcount = 0 ∨ (rw.wcount = 1 ∧ rw.rcount = 0 ∧ rw.reserved = false)

structure Inv (c : Config ι) : Prop where
  sound : ∀ t, (c.party t).Sound p
  readers : Census Party.counted c.party c.rw.rcount
  writers : Census Party.writes c.party c.rw.wcount
  owners : Census Party.owns c.party c.rw.reserved.toNat
  rwaiters : Census Party.waitsRcond c.party c.rw.rwait
  wwaiters : Census Party.waitsWcond c.party c.rw.wwait
  apart : c.rw.Apart

/-- The part of the invariant that a thread sees of the lock. -/
structure Seen (rw : Rwlock) (q : Party) : Prop where
  sound : q.Sound p
  reader : q.counted = true → 0 < rw.rcount
  writer : q.writes = true → 0 < rw.wcount
  owner : q.owns = true → rw.reserved = true
  rwaiter : q.waitsRcond = true → 0 < rw.rwait
  wwaiter : q.waitsWcond = true → 0 < rw.wwait
  apart : rw.Apart

/-- The lock's counters move with what the thread counts for. -/
structure Moves (rw : Rwlock) (q : Party) (rw' : Rwlock) (q' : Party) : Prop where
  sound : q'.Sound p
  readers : rw.rcount + q'.counted.toNat = rw'.rcount + q.counted.toNat
  writers : rw.wcount + q'.writes.toNat = rw'.wcount + q.writes.toNat
  owners : rw.reserved.toNat + q'.owns.toNat = rw'.reserved.toNat + q.owns.toNat
  rwaiters : rw.rwait + q'.waitsRcond.toNat = rw'.rwait + q.waitsRcond.toNat
  wwaiters : rw.wwait + q'.waitsWcond.toNat = rw'.wwait + q.waitsWcond.toNat
  apart : rw'.Apart

omit [DecidableEq ι] in
variable {p} in
theorem Inv.seen {c : Config ι} (h : Inv p c) (t : ι) : Seen p c.rw (c.party t) := by
  constructor
  · exact h.sound t
  · exact fun hq => h.readers.pos hq
  · exact fun hq => h.writers.pos hq
  · intro hq
    have hpos := h.owners.pos hq
    cases hr : c.rw.reserved with
    | true => rfl
    | false => simp [hr] at hpos
  · exact fun hq => h.rwaiters.pos hq
  · exact fun hq => h.wwaiters.pos hq
  · exact h.apart

variable {p} in
theorem Inv.moves {c : Config ι} (h : Inv p c) {t : ι} {rw' : Rwlock} {q' : Party}
    (hm : Moves p c.rw (c.party t) rw' q') : Inv p ⟨rw', Function.update c.party t q'⟩ := by
  constructor
  · intro u
    rcases eq_or_ne u t with hu | hu
    · subst hu
      simpa using hm.sound
    · simpa [Function.update_of_ne hu] using h.sound u
  · exact h.readers.update t q' hm.readers
  · exact h.writers.update t q' hm.writers
  · exact h.owners.update t q' hm.owners
  · exact h.rwaiters.update t q' hm.rwaiters
  · exact h.wwaiters.update t q' hm.wwaiters
  · exact hm.apart

variable {p} in
omit [DecidableEq ι] in
theorem Moves.trans {rw rw₁ rw₂ : Rwlock} {q q₁ q₂ : Party} (h₁ : Moves p rw q rw₁ q₁)
    (h₂ : Moves p rw₁ q₁ rw₂ q₂) : Moves p rw q rw₂ q₂ := by
  obtain ⟨-, hr₁, hw₁, ho₁, hrw₁, hww₁, -⟩ := h₁
  obtain ⟨hs, hr₂, hw₂, ho₂, hrw₂, hww₂, ha⟩ := h₂
  exact ⟨hs, by omega, by omega, by omega, by omega, by omega, ha⟩

/-! ## The sections of a thread with nothing in hand -/

/-- A thread outside the lock with nothing in hand. -/
def Party.idle : Party := ⟨.fresh, .nothing⟩

theorem reserved_large (p : Platform) : 1 < PSYNC_WR_RESERVED p := by
  cases p <;> decide

theorem sound_outside {h : Hold} (hfits : h.depth < PSYNC_WR_RESERVED p) :
    Party.Sound p ⟨⟨h.encode p, none⟩, h⟩ :=
  ⟨rfl, hfits, by simp⟩

theorem sound_waiting {w : Wait} (hw : w ≠ .towrlock) :
    Party.Sound p ⟨⟨⟨0, 0⟩, some w⟩, .nothing⟩ := by
  refine ⟨rfl, ?_, ?_⟩
  · have := reserved_large p
    simp only [Hold.depth]
    omega
  · intro w' hw'
    obtain rfl : w = w' := by simpa using hw'
    simp [hw]

/-- A thread with nothing in hand takes the lock for read. -/
theorem takeRead_moves {rw : Rwlock} {op : Op} (hop : Hold.nothing.after op = .read 0)
    (hw : rw.wcount = 0) :
    Moves p rw .idle (takeRead rw).rw (Party.idle.ended op (takeRead rw)) := by
  have hlarge := reserved_large p
  have hq : Party.idle.ended op (takeRead rw) = ⟨⟨⟨1, 0⟩, none⟩, .read 0⟩ := by
    simp [Party.ended, takeRead, After.thread, holdAfter, Party.idle, hop]
  rw [hq]
  refine ⟨sound_outside p (h := .read 0) (by simpa [Hold.depth] using hlarge), ?_, ?_, ?_, ?_,
    ?_, ?_⟩ <;>
    simp [takeRead, Party.idle, Thread.fresh, Rwlock.Apart, Hold.reads, Hold.writes, Hold.reserves,
      hw]

theorem takeWrite_moves {rw : Rwlock} {op : Op} (hop : Hold.nothing.after op = .write 0)
    (hfree : wrBlocked rw = false) :
    Moves p rw .idle (takeWrite rw).rw (Party.idle.ended op (takeWrite rw)) := by
  have hlarge := reserved_large p
  have hq : Party.idle.ended op (takeWrite rw) = ⟨⟨⟨0, 1⟩, none⟩, .write 0⟩ := by
    simp [Party.ended, takeWrite, After.thread, holdAfter, Party.idle, hop]
  simp only [wrBlocked, Bool.or_eq_false_iff, decide_eq_false_iff_not, not_not] at hfree
  obtain ⟨⟨hr, hw⟩, hres⟩ := hfree
  rw [hq]
  refine ⟨sound_outside p (h := .write 0) (by simpa [Hold.depth] using hlarge), ?_, ?_, ?_, ?_,
    ?_, ?_⟩ <;>
    simp [takeWrite, Party.idle, Thread.fresh, Rwlock.Apart, Hold.reads, Hold.writes,
      Hold.reserves, hr, hw, hres]

/-- A thread with nothing in hand starts to wait for the readers' condition. -/
theorem waitRcond_moves {rw : Rwlock} {w : Wait} (hw : w ≠ .towrlock) (b : Bool)
    (hr : Party.waitsRcond ⟨⟨⟨0, 0⟩, some w⟩, .nothing⟩ = true)
    (hn : Party.waitsWcond ⟨⟨⟨0, 0⟩, some w⟩, .nothing⟩ = false) (ha : rw.Apart) :
    Moves p rw .idle { rw with rwait := rw.rwait + 1, preferRead := b }
      ⟨⟨⟨0, 0⟩, some w⟩, .nothing⟩ := by
  refine ⟨sound_waiting p hw, ?_, ?_, ?_, ?_, ?_, ha⟩
  · simp [Party.idle]
  · simp [Party.idle]
  · simp [Party.idle, Thread.fresh, hw]
  · rw [hr]
    simp [Party.idle, Thread.fresh]
  · rw [hn]
    simp [Party.idle, Thread.fresh]

theorem waitWcond_moves {rw : Rwlock} {w : Wait} (hw : w ≠ .towrlock)
    (hr : Party.waitsRcond ⟨⟨⟨0, 0⟩, some w⟩, .nothing⟩ = false)
    (hn : Party.waitsWcond ⟨⟨⟨0, 0⟩, some w⟩, .nothing⟩ = true) (ha : rw.Apart) :
    Moves p rw .idle { rw with wwait := rw.wwait + 1 } ⟨⟨⟨0, 0⟩, some w⟩, .nothing⟩ := by
  refine ⟨sound_waiting p hw, ?_, ?_, ?_, ?_, ?_, ha⟩
  · simp [Party.idle]
  · simp [Party.idle]
  · simp [Party.idle, Thread.fresh, hw]
  · rw [hr]
    simp [Party.idle, Thread.fresh]
  · rw [hn]
    simp [Party.idle, Thread.fresh]

/-- The loops that wait for the readers' condition. -/
theorem rdLoop_moves {rw : Rwlock} (ha : rw.Apart) {w : Wait}
    (hw : w = .rdlock ∨ w = .timedrdlock) :
    Moves p rw .idle (rdLoop w rw ⟨0, 0⟩).rw (Party.idle.ended w.op (rdLoop w rw ⟨0, 0⟩)) := by
  unfold rdLoop
  split
  next hblocked =>
    rcases hw with rfl | rfl
    · exact waitRcond_moves p (by decide) rw.preferRead rfl rfl ha
    · exact waitRcond_moves p (by decide) rw.preferRead rfl rfl ha
  next hfree =>
    have hwcount : rw.wcount = 0 := by
      by_contra hne
      exact hfree (by simp [rdBlocked, hne])
    rcases hw with rfl | rfl
    · exact takeRead_moves p rfl hwcount
    · exact takeRead_moves p rfl hwcount

theorem starvewrLoop_moves {rw : Rwlock} (ha : rw.Apart) :
    Moves p rw .idle (starvewrLoop rw ⟨0, 0⟩).rw
      (Party.idle.ended .rdlockStarvewr (starvewrLoop rw ⟨0, 0⟩)) := by
  unfold starvewrLoop
  split
  next hblocked => exact waitRcond_moves p (by decide) true rfl rfl ha
  next hfree => exact takeRead_moves p rfl (by simpa using hfree)

/-- The loops that wait for the writers' condition. -/
theorem wrLoop_moves {rw : Rwlock} (ha : rw.Apart) {w : Wait}
    (hw : w = .wrlock ∨ w = .timedwrlock) :
    Moves p rw .idle (wrLoop w rw ⟨0, 0⟩).rw (Party.idle.ended w.op (wrLoop w rw ⟨0, 0⟩)) := by
  unfold wrLoop
  split
  next hblocked =>
    rcases hw with rfl | rfl
    · exact waitWcond_moves p (by decide) rfl rfl ha
    · exact waitWcond_moves p (by decide) rfl rfl ha
  next hfree =>
    have hfree' : wrBlocked rw = false := by simpa using hfree
    rcases hw with rfl | rfl
    · exact takeWrite_moves p rfl hfree'
    · exact takeWrite_moves p rfl hfree'

theorem rslockLoop_moves {rw : Rwlock} (ha : rw.Apart) :
    Moves p rw .idle (rslockLoop p rw ⟨0, 0⟩).rw
      (Party.idle.ended .rslock (rslockLoop p rw ⟨0, 0⟩)) := by
  unfold rslockLoop
  split
  next hblocked => exact waitWcond_moves p (by decide) rfl rfl ha
  next hfree =>
    have hlarge := reserved_large p
    simp only [not_or, not_not, Bool.not_eq_true] at hfree
    obtain ⟨hw, hres⟩ := hfree
    refine ⟨sound_outside p (h := .reserved 0) (by simpa [Hold.depth] using hlarge), ?_, ?_, ?_, ?_,
      ?_, ?_⟩ <;>
      simp [Party.ended, After.thread, holdAfter, Party.idle, Thread.fresh, Rwlock.Apart,
        Hold.after, Hold.lockReserved, Hold.reads, Hold.writes, Hold.reserves, hw, hres]

/-! ## Leaving a wait -/

variable {p} in
theorem Party.Sound.waiting_nothing {q : Party} (h : q.Sound p) {w : Wait}
    (hw : q.thread.inside = some w) (hne : w ≠ .towrlock) :
    q.hold = .nothing ∧ q.thread.cnt = ⟨0, 0⟩ := by
  have hhold : q.hold = .nothing := by simpa [hne] using h.waiting w hw
  exact ⟨hhold, by rw [h.cnt, hhold]; rfl⟩

theorem sound_idle : Party.idle.Sound p :=
  sound_outside p (h := .nothing) (by have := reserved_large p; simp [Hold.depth]; omega)

/-- The wait for the readers' condition returns, or times out. -/
theorem leaveRcond_moves {rw : Rwlock} {q : Party} (h : Seen p rw q) {w : Wait}
    (hw : q.thread.inside = some w) (hne : w ≠ .towrlock) (hr : q.waitsRcond = true)
    (hn : q.waitsWcond = false) (b : Bool) :
    Moves p rw q { rw with rwait := rw.rwait - 1, preferRead := b } .idle := by
  obtain ⟨hhold, -⟩ := h.sound.waiting_nothing hw hne
  have hpos := h.rwaiter hr
  refine ⟨sound_idle p, ?_, ?_, ?_, ?_, ?_, h.apart⟩
  · simp [Party.idle, hhold]
  · simp [Party.idle, hhold]
  · simp [Party.idle, Thread.fresh, hhold, hw, hne]
  · rw [hr]
    simp [Party.idle, Thread.fresh]
    omega
  · rw [hn]
    simp [Party.idle, Thread.fresh]

theorem leaveWcond_moves {rw : Rwlock} {q : Party} (h : Seen p rw q) {w : Wait}
    (hw : q.thread.inside = some w) (hne : w ≠ .towrlock) (hr : q.waitsRcond = false)
    (hn : q.waitsWcond = true) :
    Moves p rw q { rw with wwait := rw.wwait - 1 } .idle := by
  obtain ⟨hhold, -⟩ := h.sound.waiting_nothing hw hne
  have hpos := h.wwaiter hn
  refine ⟨sound_idle p, ?_, ?_, ?_, ?_, ?_, h.apart⟩
  · simp [Party.idle, hhold]
  · simp [Party.idle, hhold]
  · simp [Party.idle, Thread.fresh, hhold, hw, hne]
  · rw [hr]
    simp [Party.idle, Thread.fresh]
  · rw [hn]
    simp [Party.idle, Thread.fresh]
    omega

/-! ## Calls of a thread with the lock in hand -/

/-- A thread outside the lock that holds `h`. -/
def Party.holding (h : Hold) : Party := ⟨⟨h.encode p, none⟩, h⟩

/-- One more or one less hold of the same kind leaves the lock alone. -/
theorem nested_moves {rw : Rwlock} {h h' : Hold} (ha : rw.Apart)
    (hfits : h'.depth < PSYNC_WR_RESERVED p) (hr : h'.reads = h.reads)
    (hw : h'.writes = h.writes) (hs : h'.reserves = h.reserves) :
    Moves p rw (.holding p h) rw (.holding p h') := by
  refine ⟨sound_outside p hfits, ?_, ?_, ?_, ?_, ?_, ha⟩ <;>
    simp [Party.holding, hr, hw, hs]

/-- A section ends without a failed assertion and moves the lock with the thread. -/
def Passes (rw : Rwlock) (q : Party) (op : Op) (x : Except Assertion After) : Prop :=
  ∃ r, x = .ok r ∧ Moves p rw q r.rw (q.ended op r)

theorem incr_small {n : Nat} (h : n + 1 < PSYNC_WR_RESERVED p) : incr p n = n + 1 := by
  have hlt : n + 1 < 2 ^ halfptrBits p := by
    unfold PSYNC_WR_RESERVED at h
    omega
  exact Nat.mod_eq_of_lt hlt

/-- The recursive part of the calls that lock for read. -/
theorem checkRdrecursiveIn_eq {h : Hold} (hfits : h.lockRead.depth < PSYNC_WR_RESERVED p) :
    checkRdrecursiveIn p (h.encode p)
      = .ok (if h = .nothing then none else some (h.lockRead.encode p)) := by
  cases h with
  | nothing => simp [checkRdrecursiveIn, Hold.encode]
  | read n => simp [checkRdrecursiveIn, Hold.encode, Hold.lockRead, incr_small p hfits]
  | reserved n => simp [checkRdrecursiveIn, Hold.encode, Hold.lockRead, incr_small p hfits]
  | write n =>
    have hne : n + 1 ≠ PSYNC_WR_RESERVED p := by
      simp only [Hold.lockRead, Hold.depth] at hfits
      omega
    simp [checkRdrecursiveIn, Hold.encode, Hold.lockRead, incr_small p hfits, assert, hne]

/-- The recursive part of the calls that lock for write. -/
theorem checkWrrecursiveIn_eq {h : Hold} (hfits : h.lockWrite.depth < PSYNC_WR_RESERVED p)
    (hh : h = .nothing ∨ h.writes) :
    checkWrrecursiveIn p (h.encode p)
      = .ok (if h = .nothing then none else some (h.lockWrite.encode p)) := by
  cases h with
  | nothing => simp [checkWrrecursiveIn, Hold.encode, assert]
  | read n => simp [Hold.writes] at hh
  | reserved n => simp [Hold.writes] at hh
  | write n =>
    have hne : n + 1 ≠ PSYNC_WR_RESERVED p := by
      simp only [Hold.lockWrite, Hold.depth] at hfits
      omega
    simp [checkWrrecursiveIn, Hold.encode, Hold.lockWrite, incr_small p hfits, assert, hne]

/-- A call that locks for read: recursive, or its body at a thread with nothing in hand. -/
theorem read_passes {rw : Rwlock} (ha : rw.Apart) {h : Hold} {op : Op}
    (hop : h.after op = h.lockRead)
    (hfits : h.lockRead.depth < PSYNC_WR_RESERVED p) {body : After}
    (hbody : h = .nothing → Moves p rw .idle body.rw (Party.idle.ended op body)) :
    Passes p rw (.holding p h) op
      (do let r ← checkRdrecursiveIn p (h.encode p); .ok (orRecursive rw body r)) := by
  rw [checkRdrecursiveIn_eq p hfits]
  by_cases hh : h = .nothing
  · subst hh
    exact ⟨body, rfl, hbody rfl⟩
  · refine ⟨⟨rw, h.lockRead.encode p, .returns 0, []⟩, by simp [hh, orRecursive], ?_⟩
    have hq : (Party.holding p h).ended op ⟨rw, h.lockRead.encode p, .returns 0, []⟩
        = .holding p h.lockRead := by
      simp [Party.ended, After.thread, holdAfter, Party.holding, hop]
    rw [hq]
    cases h with
    | nothing => exact absurd rfl hh
    | read n => exact nested_moves p ha hfits rfl rfl rfl
    | reserved n => exact nested_moves p ha hfits rfl rfl rfl
    | write n => exact nested_moves p ha hfits rfl rfl rfl

theorem write_passes {rw : Rwlock} (ha : rw.Apart) {h : Hold} {op : Op}
    (hop : h.after op = h.lockWrite) (hfits : h.lockWrite.depth < PSYNC_WR_RESERVED p)
    (hh : h = .nothing ∨ h.writes) {body : After}
    (hbody : h = .nothing → Moves p rw .idle body.rw (Party.idle.ended op body)) :
    Passes p rw (.holding p h) op
      (do let r ← checkWrrecursiveIn p (h.encode p); .ok (orRecursive rw body r)) := by
  rw [checkWrrecursiveIn_eq p hfits hh]
  by_cases hh' : h = .nothing
  · subst hh'
    exact ⟨body, rfl, hbody rfl⟩
  · refine ⟨⟨rw, h.lockWrite.encode p, .returns 0, []⟩, by simp [hh', orRecursive], ?_⟩
    have hq : (Party.holding p h).ended op ⟨rw, h.lockWrite.encode p, .returns 0, []⟩
        = .holding p h.lockWrite := by
      simp [Party.ended, After.thread, holdAfter, Party.holding, hop]
    rw [hq]
    cases h with
    | nothing => exact absurd rfl hh'
    | read n => simp [Hold.writes] at hh
    | reserved n => simp [Hold.writes] at hh
    | write n => exact nested_moves p ha hfits rfl rfl rfl

/-- A call that gives up leaves everything as it was. -/
theorem fails_moves {rw : Rwlock} (ha : rw.Apart) (h : Hold)
    (hfits : h.depth < PSYNC_WR_RESERVED p) (op : Op) :
    Moves p rw (.holding p h) rw
      ((Party.holding p h).ended op ⟨rw, h.encode p, .returns (-1), []⟩) :=
  nested_moves p ha hfits rfl rfl rfl

theorem rslock_passes {rw : Rwlock} (ha : rw.Apart) {h : Hold}
    (hfits : h.lockReserved.depth < PSYNC_WR_RESERVED p) (hh : h = .nothing ∨ h.writes) :
    Passes p rw (.holding p h) .rslock (rslock p rw (h.encode p)) := by
  cases h with
  | nothing => exact ⟨_, by simp [rslock, assert, Hold.encode], rslockLoop_moves p ha⟩
  | read n => simp [Hold.writes] at hh
  | reserved n => simp [Hold.writes] at hh
  | write n =>
    have hne : n + 1 ≠ PSYNC_WR_RESERVED p := by
      simp only [Hold.lockReserved, Hold.depth] at hfits
      omega
    refine ⟨⟨rw, (Hold.write (n + 1)).encode p, .returns 0, []⟩, ?_, ?_⟩
    · simp [rslock, assert, Hold.encode, hne, incr_small p hfits]
    · exact nested_moves p ha hfits rfl rfl rfl

/-! ## The upgrade -/

/-- A hold for read or reserved becomes a write hold of the same depth. -/
theorem Hold.upgrade_of_reads {h : Hold} (hh : h.reads = true) :
    ∃ n, h.upgrade = .write n ∧ h.depth = n + 1 ∧ h.writes = false ∧ (h.encode p).rd = n + 1 := by
  cases h with
  | nothing => simp at hh
  | read n => exact ⟨n, rfl, rfl, rfl, rfl⟩
  | reserved n => exact ⟨n, rfl, rfl, rfl, rfl⟩
  | write n => simp [Hold.reads] at hh

/-- A thread that left the readers and owns the option. -/
def Party.upgrading (h : Hold) : Party := ⟨⟨h.encode p, some .towrlock⟩, h⟩

theorem sound_upgrading {h : Hold} (hh : h.reads = true) (hfits : h.depth < PSYNC_WR_RESERVED p) :
    (Party.upgrading p h).Sound p := by
  refine ⟨rfl, hfits, ?_⟩
  intro w hw
  obtain rfl : Wait.towrlock = w := by simpa [Party.upgrading] using hw
  simpa [Party.upgrading] using hh

/-- The thread waits for the readers to leave, or is the writer. -/
theorem towrlockLoop_passes {rw : Rwlock} {h : Hold} (hh : h.reads = true)
    (hfits : h.depth < PSYNC_WR_RESERVED p) (hw : rw.wcount = 0) (hres : rw.reserved = true) :
    ∃ r, towrlockLoop rw (h.encode p) = .ok r ∧
      Moves p { rw with wwait := rw.wwait + 1 } (.upgrading p h) r.rw
        ((Party.upgrading p h).ended .towrlock r) := by
  by_cases hr : rw.rcount = 0
  · obtain ⟨n, hn, hdepth, hnw, hrd⟩ := Hold.upgrade_of_reads p hh
    refine ⟨⟨{ rw with wcount := rw.wcount + 1, reserved := false }, (Hold.write n).encode p,
      .returns 0, []⟩, ?_, ?_⟩
    · simp only [towrlockLoop, hr, hw, hrd, assert]
      rfl
    · have hq : holdAfter h .towrlock (.returns 0) = .write n := by
        simp [holdAfter, Hold.after, hn]
      simp only [Party.ended, After.thread, Party.upgrading, hq]
      refine ⟨sound_outside p (h := .write n) (by rw [hdepth] at hfits; exact hfits), ?_, ?_, ?_,
        ?_, ?_, ?_⟩ <;>
        simp [hnw, hr, hw, hres, Rwlock.Apart]
  · refine ⟨⟨{ rw with wwait := rw.wwait + 1 }, h.encode p, .waits .towrlock, []⟩, ?_, ?_⟩
    · simp [towrlockLoop, hr]
    · have hq : (Party.upgrading p h).ended .towrlock ⟨{ rw with wwait := rw.wwait + 1 },
          h.encode p, .waits .towrlock, []⟩ = .upgrading p h := rfl
      rw [hq]
      exact ⟨sound_upgrading p hh hfits, rfl, rfl, rfl, rfl, rfl, Or.inl hw⟩

theorem towrlock_passes {rw : Rwlock} {h : Hold} (hs : Seen p rw (.holding p h))
    (hh : h ≠ .nothing) : Passes p rw (.holding p h) .towrlock (towrlock p rw (h.encode p)) := by
  have ha := hs.apart
  have hfits : h.depth < PSYNC_WR_RESERVED p := hs.sound.fits
  by_cases hwr : h.writes = true
  · obtain ⟨n, rfl⟩ : ∃ n, h = .write n := by
      cases h with
      | write n => exact ⟨n, rfl⟩
      | _ => simp [Hold.writes] at hwr
    have hne : n + 1 ≠ PSYNC_WR_RESERVED p := by
      simp only [Hold.depth] at hfits
      omega
    exact ⟨⟨rw, (Hold.write n).encode p, .returns 0, []⟩, by simp [towrlock, Hold.encode, hne],
      nested_moves p ha hfits rfl rfl rfl⟩
  · have hreads : h.reads = true := by
      cases h with
      | nothing => exact absurd rfl hh
      | read n => rfl
      | reserved n => rfl
      | write n => simp [Hold.writes] at hwr
    have hrc : 0 < rw.rcount := hs.reader (by simp [Party.holding, hreads])
    have hwc : rw.wcount = 0 := by
      rcases ha with ha | ⟨-, ha, -⟩
      · exact ha
      · omega
    have hlarge := reserved_large p
    have hmark : ((h.encode p).wr = PSYNC_WR_RESERVED p ↔ h.reserves = true) ∧
        ¬((h.encode p).wr ≠ 0 ∧ (h.encode p).wr ≠ PSYNC_WR_RESERVED p) ∧ (h.encode p).rd ≠ 0 := by
      cases h with
      | nothing => exact absurd rfl hh
      | read n => simp [Hold.encode, Hold.reserves]; omega
      | reserved n => simp [Hold.encode, Hold.reserves]
      | write n => simp [Hold.writes] at hwr
    obtain ⟨hmark, hnot, hrd⟩ := hmark
    unfold towrlock
    rw [if_neg hnot]
    have hheld : assert (decide ((h.encode p).rd ≠ 0)) .towrlockHeld = .ok () := by
      simp [assert, hrd]
    have hrcount : assert (decide (rw.rcount ≠ 0)) .towrlockRcount = .ok () := by
      simp [assert, show rw.rcount ≠ 0 by omega]
    have hwcount : assert (decide (rw.wcount = 0)) .towrlockNoWcount = .ok () := by
      simp [assert, hwc]
    rw [hheld, hrcount, hwcount]
    simp only [ok_bind]
    split
    · exact ⟨_, rfl, fails_moves p ha h hfits .towrlock⟩
    next hgo =>
      obtain ⟨r, hr, hm⟩ := towrlockLoop_passes p
        (show Hold.reads h = true from hreads) hfits
        (show ({ rw with rcount := rw.rcount - 1, reserved := true } : Rwlock).wcount = 0 from hwc)
        rfl
      refine ⟨r, hr, Moves.trans (⟨?_, ?_, ?_, ?_, ?_, ?_, ?_⟩ : Moves p rw (.holding p h)
        { rw with rcount := rw.rcount - 1, reserved := true, wwait := rw.wwait + 1 }
        (.upgrading p h)) hm⟩
      · exact sound_upgrading p hreads hfits
      · simp [Party.upgrading, Party.holding, hreads]
        omega
      · simp [Party.upgrading, Party.holding]
      · -- either the thread owned the option before, or nobody did
        simp only [Party.owns, Party.upgrading, Party.holding]
        cases hres : h.reserves with
        | true =>
          have := hs.owner (by simp [Party.holding, hres])
          simp [this]
        | false =>
          have hfree : rw.reserved = false := by
            by_contra hne
            refine hgo ⟨by simpa using hne, ?_⟩
            intro he
            exact absurd (hmark.mp he) (by simp [hres])
          simp [hfree]
      · simp [Party.upgrading, Party.holding]
      · simp [Party.upgrading, Party.holding]
      · exact Or.inl hwc

/-! ## Unlocking -/

/-- A nested unlock gives back one hold of the same kind. -/
theorem Hold.release_nested {h : Hold} (hdeep : 1 < h.depth) :
    checkRecursiveOut (h.encode p) = .ok (h.release.encode p, true) ∧
      h.release.depth < h.depth ∧ h.release.reads = h.reads ∧ h.release.writes = h.writes ∧
      h.release.reserves = h.reserves := by
  cases h with
  | nothing => simp [Hold.depth] at hdeep
  | read n =>
    obtain ⟨m, rfl⟩ : ∃ m, n = m + 1 := ⟨n - 1, by simp only [Hold.depth] at hdeep; omega⟩
    exact
      ⟨by simp [checkRecursiveOut, Hold.encode, Hold.release], Nat.lt_succ_self _, rfl, rfl, rfl⟩
  | reserved n =>
    obtain ⟨m, rfl⟩ : ∃ m, n = m + 1 := ⟨n - 1, by simp only [Hold.depth] at hdeep; omega⟩
    exact
      ⟨by simp [checkRecursiveOut, Hold.encode, Hold.release], Nat.lt_succ_self _, rfl, rfl, rfl⟩
  | write n =>
    obtain ⟨m, rfl⟩ : ∃ m, n = m + 1 := ⟨n - 1, by simp only [Hold.depth] at hdeep; omega⟩
    exact ⟨by simp [checkRecursiveOut, Hold.encode, Hold.release, assert], Nat.lt_succ_self _, rfl,
      rfl, rfl⟩

theorem unlock_nested_passes {rw : Rwlock} (ha : rw.Apart) {h : Hold}
    (hfits : h.depth < PSYNC_WR_RESERVED p) (hdeep : 1 < h.depth) :
    Passes p rw (.holding p h) .unlock (unlock p rw (h.encode p)) := by
  obtain ⟨hout, hless, hr, hw, hs⟩ := Hold.release_nested p hdeep
  refine ⟨⟨rw, h.release.encode p, .returns 0, []⟩, by simp [unlock, hout], ?_⟩
  exact nested_moves p ha (hless.trans hfits) hr hw hs

/-- The last unlock of a reader: the counter is the mark of a reserved lock or nothing. -/
theorem unlock_reader_passes {rw : Rwlock} {h : Hold} (hs : Seen p rw (.holding p h))
    (hh : h = .read 0 ∨ h = .reserved 0) :
    Passes p rw (.holding p h) .unlock (unlock p rw (h.encode p)) := by
  have hreads : h.reads = true := by rcases hh with rfl | rfl <;> rfl
  have hrc : 0 < rw.rcount := hs.reader (by simp [Party.holding, hreads])
  have hwc : rw.wcount = 0 := by
    rcases hs.apart with ha | ⟨-, ha, -⟩
    · exact ha
    · omega
  have hlarge := reserved_large p
  have hcount : rw.rcount ≠ 0 := by omega
  have hidle := sound_idle p
  rcases hh with rfl | rfl
  · refine ⟨unlockRead p rw ⟨0, 0⟩, ?_, ?_⟩
    · simp [unlock, checkRecursiveOut, Hold.encode, assert, hwc, hcount]
    · have hclr : clearReserved p rw ⟨0, 0⟩ = (rw, ⟨0, 0⟩) := by
        have hne : ¬(0 = PSYNC_WR_RESERVED p) := by omega
        simp [clearReserved, hne]
      simp only [unlockRead, hclr]
      refine ⟨hidle, ?_, ?_, ?_, ?_, ?_, Or.inl hwc⟩ <;>
        simp [Party.ended, After.thread, holdAfter, Party.holding, Hold.after, Hold.release,
          Hold.reads, Hold.writes, Hold.reserves]
      omega
  · have hres : rw.reserved = true := hs.owner rfl
    refine ⟨unlockRead p rw ⟨0, PSYNC_WR_RESERVED p⟩, ?_, ?_⟩
    · simp [unlock, checkRecursiveOut, Hold.encode, assert, hwc, hcount]
    · have hclr : clearReserved p rw ⟨0, PSYNC_WR_RESERVED p⟩
          = ({ rw with reserved := false }, ⟨0, 0⟩) := by
        simp [clearReserved, hres]
      simp only [unlockRead, hclr]
      refine ⟨hidle, ?_, ?_, ?_, ?_, ?_, Or.inl hwc⟩ <;>
        simp [Party.ended, After.thread, holdAfter, Party.holding, Hold.after, Hold.release,
          Hold.reads, Hold.writes, Hold.reserves, hres]
      omega

theorem unlock_writer_passes {rw : Rwlock} (hs : Seen p rw (.holding p (.write 0))) :
    Passes p rw (.holding p (.write 0)) .unlock (unlock p rw ((Hold.write 0).encode p)) := by
  have hpos : 0 < rw.wcount := hs.writer rfl
  obtain ⟨hwc, hrc, hres⟩ : rw.wcount = 1 ∧ rw.rcount = 0 ∧ rw.reserved = false := by
    rcases hs.apart with ha | ha
    · omega
    · exact ha
  refine ⟨⟨{ rw with wcount := 0 }, ⟨0, 0⟩, .returns 0, unlockWriteSignals { rw with wcount := 0 }⟩,
    ?_, ?_⟩
  · simp [unlock, checkRecursiveOut, Hold.encode, assert, hwc, hrc, unlockWrite, hres]
  · refine ⟨sound_idle p, ?_, ?_, ?_, ?_, ?_, Or.inl rfl⟩ <;>
      simp [Party.ended, After.thread, holdAfter, Party.holding, Hold.after, Hold.release, hwc]

theorem unlock_passes {rw : Rwlock} {h : Hold} (hs : Seen p rw (.holding p h))
    (hh : h ≠ .nothing) : Passes p rw (.holding p h) .unlock (unlock p rw (h.encode p)) := by
  by_cases hdeep : 1 < h.depth
  · exact unlock_nested_passes p hs.apart hs.sound.fits hdeep
  · cases h with
    | nothing => exact absurd rfl hh
    | read n =>
      obtain rfl : n = 0 := by simp [Hold.depth] at hdeep; omega
      exact unlock_reader_passes p hs (Or.inl rfl)
    | reserved n =>
      obtain rfl : n = 0 := by simp [Hold.depth] at hdeep; omega
      exact unlock_reader_passes p hs (Or.inr rfl)
    | write n =>
      obtain rfl : n = 0 := by simp [Hold.depth] at hdeep; omega
      exact unlock_writer_passes p hs

/-! ## Every section -/

theorem call_passes {rw : Rwlock} {h : Hold} (hs : Seen p rw (.holding p h)) {op : Op}
    (hd : Disciplined h op) (hfits : Shallow p h op) :
    Passes p rw (.holding p h) op (call p rw (h.encode p) op) := by
  have ha := hs.apart
  cases op with
  | rdlock =>
    refine read_passes p ha rfl hfits ?_
    rintro rfl
    exact rdLoop_moves p ha (Or.inl rfl)
  | rdlockStarvewr =>
    refine read_passes p ha rfl hfits ?_
    rintro rfl
    exact starvewrLoop_moves p ha
  | tryrdlock =>
    refine read_passes p ha rfl hfits ?_
    rintro rfl
    split
    · exact fails_moves p ha .nothing hs.sound.fits .tryrdlock
    next hfree =>
      refine takeRead_moves p rfl ?_
      by_contra hne
      exact hfree (by simp [rdBlocked, hne])
  | timedrdlock =>
    refine read_passes p ha rfl hfits ?_
    rintro rfl
    exact rdLoop_moves p ha (Or.inr rfl)
  | rslock => exact rslock_passes p ha hfits hd
  | towrlock => exact towrlock_passes p hs hd
  | wrlock =>
    refine write_passes p ha rfl hfits hd ?_
    rintro rfl
    exact wrLoop_moves p ha (Or.inl rfl)
  | trywrlock =>
    refine write_passes p ha rfl hfits hd ?_
    rintro rfl
    split
    · exact fails_moves p ha .nothing hs.sound.fits .trywrlock
    next hfree => exact takeWrite_moves p rfl (by simpa using hfree)
  | timedwrlock =>
    refine write_passes p ha rfl hfits hd ?_
    rintro rfl
    exact wrLoop_moves p ha (Or.inr rfl)
  | unlock => exact unlock_passes p hs hd

/-- The wait of a call that holds nothing returns. -/
theorem Passes.of_left {rw rw₁ : Rwlock} {q : Party} {op : Op} {r : After}
    (hleft : Moves p rw q rw₁ .idle) (hq : q.hold = .nothing)
    (hr : rw₁.Apart → Moves p rw₁ .idle r.rw (Party.idle.ended op r)) :
    Passes p rw q op (.ok r) := by
  refine ⟨r, rfl, ?_⟩
  have heq : q.ended op r = Party.idle.ended op r := by
    simp [Party.ended, hq, Party.idle]
  rw [heq]
  exact hleft.trans (hr hleft.apart)

theorem wake_passes {rw : Rwlock} {q : Party} (hs : Seen p rw q) {w : Wait}
    (hw : q.thread.inside = some w) :
    Passes p rw q w.op (wake p rw q.thread.cnt w) := by
  have ha := hs.apart
  by_cases hne : w = .towrlock
  · subst hne
    have hreads : q.hold.reads = true := by simpa using hs.sound.waiting _ hw
    have hres : rw.reserved = true := hs.owner (by simp [hw])
    have hpos : 0 < rw.wwait := hs.wwaiter (by simp [hw])
    have hwc : rw.wcount = 0 := by
      rcases ha with ha | ⟨-, -, ha⟩
      · exact ha
      · rw [ha] at hres
        cases hres
    have hq : q = .upgrading p q.hold := by
      obtain ⟨⟨cnt, inside⟩, hold⟩ := q
      simp only [Party.upgrading, Party.mk.injEq, Thread.mk.injEq, and_true]
      exact ⟨hs.sound.cnt, hw⟩
    obtain ⟨r, hr, hm⟩ := towrlockLoop_passes p hreads hs.sound.fits
      (show ({ rw with wwait := rw.wwait - 1 } : Rwlock).wcount = 0 from hwc) hres
    refine ⟨r, by rw [hs.sound.cnt]; exact hr, ?_⟩
    have hback : ({ rw with wwait := rw.wwait - 1 + 1 } : Rwlock) = rw := by
      rw [Nat.sub_add_cancel hpos]
    rw [hq]
    exact hback ▸ hm
  · obtain ⟨hhold, hcnt⟩ := hs.sound.waiting_nothing hw hne
    rw [hcnt]
    cases w with
    | rdlock =>
      exact Passes.of_left p (leaveRcond_moves p hs hw hne (by simp [hw]) (by simp [hw])
        rw.preferRead) hhold (fun ha => rdLoop_moves p ha (Or.inl rfl))
    | timedrdlock =>
      exact Passes.of_left p (leaveRcond_moves p hs hw hne (by simp [hw]) (by simp [hw])
        rw.preferRead) hhold (fun ha => rdLoop_moves p ha (Or.inr rfl))
    | rdlockStarvewr =>
      exact Passes.of_left p (leaveRcond_moves p hs hw hne (by simp [hw]) (by simp [hw]) false)
        hhold (fun ha => starvewrLoop_moves p ha)
    | wrlock =>
      exact Passes.of_left p (leaveWcond_moves p hs hw hne (by simp [hw]) (by simp [hw])) hhold
        (fun ha => wrLoop_moves p ha (Or.inl rfl))
    | timedwrlock =>
      exact Passes.of_left p (leaveWcond_moves p hs hw hne (by simp [hw]) (by simp [hw])) hhold
        (fun ha => wrLoop_moves p ha (Or.inr rfl))
    | rslock =>
      exact Passes.of_left p (leaveWcond_moves p hs hw hne (by simp [hw]) (by simp [hw])) hhold
        (fun ha => rslockLoop_moves p ha)
    | towrlock => exact absurd rfl hne

theorem timeout_passes {rw : Rwlock} {q : Party} (hs : Seen p rw q) {w : Wait}
    (hw : q.thread.inside = some w) {r : After} (hr : timeout rw q.thread.cnt w = some r) :
    Passes p rw q w.op (.ok r) := by
  have hidle : (Hold.nothing).depth < PSYNC_WR_RESERVED p := (sound_idle p).fits
  cases w with
  | timedrdlock =>
    obtain ⟨hhold, hcnt⟩ := hs.sound.waiting_nothing hw (by decide)
    obtain rfl := Option.some.inj hr
    rw [hcnt]
    exact Passes.of_left p (leaveRcond_moves p hs hw (by decide) (by simp [hw]) (by simp [hw])
      rw.preferRead) hhold (fun ha => fails_moves p ha .nothing hidle .timedrdlock)
  | timedwrlock =>
    obtain ⟨hhold, hcnt⟩ := hs.sound.waiting_nothing hw (by decide)
    obtain rfl := Option.some.inj hr
    rw [hcnt]
    exact Passes.of_left p (leaveWcond_moves p hs hw (by decide) (by simp [hw]) (by simp [hw]))
      hhold (fun ha => fails_moves p ha .nothing hidle .timedwrlock)
  | rdlock => simp [timeout] at hr
  | rdlockStarvewr => simp [timeout] at hr
  | wrlock => simp [timeout] at hr
  | rslock => simp [timeout] at hr
  | towrlock => simp [timeout] at hr

/-- How callers have to use the lock for its counters to hold. -/
def Sane (p : Platform) (h : Hold) (op : Op) : Prop := Disciplined h op ∧ Shallow p h op

theorem act_passes {rw : Rwlock} {q : Party} (hs : Seen p rw q) {a : Act}
    (hrule : Follows (Sane p) q.hold a) {x : Except Assertion After}
    (hx : act p rw q.thread a = some x) : Passes p rw q (a.op q.thread) x := by
  cases a with
  | call op =>
    simp only [act] at hx
    split at hx
    next hin =>
      obtain rfl := Option.some.inj hx
      have hq : q = .holding p q.hold := by
        obtain ⟨⟨cnt, inside⟩, hold⟩ := q
        simp only [Party.holding, Party.mk.injEq, Thread.mk.injEq, and_true]
        exact ⟨hs.sound.cnt, hin⟩
      have hcall := call_passes p (h := q.hold) (by rw [← hq]; exact hs) hrule.1 hrule.2
      rw [← hq, ← hs.sound.cnt] at hcall
      exact hcall
    next => simp at hx
  | wake =>
    obtain ⟨w, hw, rfl⟩ := Option.map_eq_some_iff.mp hx
    simpa [Act.op, hw] using wake_passes p hs hw
  | timeout =>
    obtain ⟨r, hr, rfl⟩ := Option.map_eq_some_iff.mp hx
    obtain ⟨w, hw, ht⟩ := Option.bind_eq_some_iff.mp hr
    simpa [Act.op, hw] using timeout_passes p hs hw ht

/-! ## Runs -/

omit [DecidableEq ι] in
theorem inv_init : Inv p (Config.init ι) := by
  refine ⟨fun _ => sound_idle p, ?_, ?_, ?_, ?_, ?_, Or.inl rfl⟩ <;>
    exact Census.of_none (fun _ => rfl)

theorem inv_step {c c' : Config ι} (h : Inv p c) (hstep : Step p (Sane p) c c') : Inv p c' := by
  obtain ⟨t, a, r, hrule, hact⟩ := hstep
  obtain ⟨r', hr, hm⟩ := act_passes p (h.seen t) hrule hact
  obtain rfl := Except.ok.inj hr
  exact h.moves hm

theorem inv_reachable {c : Config ι} (h : Reachable p (Sane p) c) : Inv p c := by
  induction h with
  | refl => exact inv_init p
  | tail _ hstep ih => exact inv_step p ih hstep

/-! ## Exclusion -/

/-- What the lock promises in a configuration to callers that follow the rule. -/
structure Excludes (rule : Hold → Op → Prop) (c : Config ι) : Prop where
  /-- `rcount` counts the holds for read or reserved, but for one that waits inside `towrlock`. -/
  rcount : {t | (c.party t).counted = true}.encard = (c.rw.rcount : ℕ∞)
  one_writer : ∀ t u, (c.party t).hold.writes = true → (c.party u).hold.writes = true → t = u
  no_reader : ∀ t u, (c.party t).hold.writes = true → (c.party u).hold.reads = false
  one_owner : ∀ t u, (c.party t).owns = true → (c.party u).owns = true → t = u
  owned : c.rw.reserved = true ↔ ∃ t, (c.party t).owns = true
  nested : ∀ t, (c.party t).thread.cnt = (c.party t).hold.encode p
  no_assertion : ∀ t a, Follows rule (c.party t).hold a →
    ∀ e, act p c.rw (c.party t).thread a ≠ some (.error e)

omit [DecidableEq ι] in
variable {p} in
/-- While a thread writes, nobody reads: not one that counts, nor one that waits to upgrade. -/
theorem Inv.no_reader {c : Config ι} (h : Inv p c) {t : ι} (ht : (c.party t).hold.writes = true)
    (u : ι) : (c.party u).hold.reads = false := by
  have hpos : 0 < c.rw.wcount := h.writers.pos ht
  obtain ⟨-, hrc, hres⟩ : c.rw.wcount = 1 ∧ c.rw.rcount = 0 ∧ c.rw.reserved = false := by
    rcases h.apart with ha | ha
    · omega
    · exact ha
  by_contra hne
  have hreads : (c.party u).hold.reads = true := by simpa using hne
  by_cases hin : (c.party u).thread.inside = some .towrlock
  · have := (h.seen u).owner (by simp [hin])
    rw [hres] at this
    cases this
  · have := (h.seen u).reader (by simp [hreads, hin])
    omega

theorem rwlock_excludes {c : Config ι} (h : Reachable p (Sane p) c) : Excludes p (Sane p) c := by
  have hinv := inv_reachable p h
  constructor
  · exact hinv.readers
  · intro t u ht hu
    refine hinv.writers.unique ?_ ht hu
    rcases hinv.apart with ha | ⟨ha, -⟩ <;> omega
  · exact fun t u ht => hinv.no_reader ht u
  · intro t u ht hu
    exact hinv.owners.unique (Bool.toNat_le c.rw.reserved) ht hu
  · constructor
    · intro hres
      exact hinv.owners.exists_of_pos (by simp [hres])
    · rintro ⟨t, ht⟩
      exact (hinv.seen t).owner ht
  · exact fun t => (hinv.sound t).cnt
  · intro t a hrule e hact
    obtain ⟨r, hr, -⟩ := act_passes p (hinv.seen t) hrule hact
    cases hr

/-- One thread reserves the lock, another reads, the first waits to upgrade and is the writer
once the reader left. -/
theorem rwlock_excludes_upgrade : ∃ c : Config Bool, Reachable .x86_64 (Sane .x86_64) c ∧
    (c.party true).hold = .write 0 ∧ (c.party false).hold = .nothing ∧
    Excludes .x86_64 (Sane .x86_64) c := by
  have h₁ : Reachable .x86_64 (Sane .x86_64) _ := .single
    (.critical (Config.init Bool) true (.call .rslock) _ ⟨by decide, by decide⟩ rfl)
  have h₂ := h₁.tail (.critical _ false (.call .rdlock) _ ⟨by decide, by decide⟩ rfl)
  have h₃ := h₂.tail (.critical _ true (.call .towrlock) _ ⟨by decide, by decide⟩ rfl)
  have h₄ := h₃.tail (.critical _ false (.call .unlock) _ ⟨by decide, by decide⟩ rfl)
  have h₅ := h₄.tail (.critical _ true .wake _ trivial rfl)
  exact ⟨_, h₅, by decide, by decide, rwlock_excludes .x86_64 h₅⟩

/-- The lock of one thread that nested `n` write holds in the first. -/
def nestedWrites (n : Nat) : Config Unit :=
  ⟨{ Rwlock.init with wcount := 1 }, fun _ => ⟨⟨⟨0, n + 1⟩, none⟩, .write n⟩⟩

theorem nestedWrites_reachable (n : Nat) (h : n + 1 ≤ PSYNC_WR_RESERVED p) :
    Reachable p Disciplined (nestedWrites n) := by
  induction n with
  | zero =>
    have hstep : Step p Disciplined (Config.init Unit) _ :=
      .critical _ () (.call .wrlock) (takeWrite Rwlock.init) (Or.inl rfl) rfl
    have hend : (⟨(takeWrite Rwlock.init).rw, Function.update (Config.init Unit).party ()
        (((Config.init Unit).party ()).ended .wrlock (takeWrite Rwlock.init))⟩ : Config Unit)
        = nestedWrites 0 := by
      simp only [nestedWrites, Config.mk.injEq]
      exact ⟨rfl, funext fun _ => rfl⟩
    exact .single (hend ▸ hstep)
  | succ n ih =>
    have hne : n + 1 ≠ PSYNC_WR_RESERVED p := by omega
    have hmod : (n + 1 + 1) % 2 ^ halfptrBits p = n + 2 := by
      unfold PSYNC_WR_RESERVED at h
      exact Nat.mod_eq_of_lt (by omega)
    have hact : act p (nestedWrites n).rw ((nestedWrites n).party ()).thread (.call .wrlock)
        = some (.ok ⟨(nestedWrites n).rw, ⟨0, n + 2⟩, .returns 0, []⟩) := by
      simp [act, call, wrlock, checkWrrecursiveIn, nestedWrites, assert, hne, incr, hmod,
        orRecursive]
    have hstep : Step p Disciplined (nestedWrites n) _ :=
      .critical _ () (.call .wrlock) _ (Or.inr rfl) hact
    refine (ih (by omega)).tail ?_
    have hend : (⟨(nestedWrites n).rw, Function.update (nestedWrites n).party ()
        (((nestedWrites n).party ()).ended .wrlock
          ⟨(nestedWrites n).rw, ⟨0, n + 2⟩, .returns 0, []⟩)⟩ : Config Unit)
        = nestedWrites (n + 1) := by
      simp only [nestedWrites, Config.mk.injEq, true_and]
      exact funext fun _ => rfl
    exact hend ▸ hstep

/-- A write hold nested to the mark of a reserved lock is taken for one. -/
theorem nested_to_mark_fails : ¬∀ c : Config Unit, Reachable .x86_64 Disciplined c →
    Excludes .x86_64 Disciplined c := by
  intro h
  have hreach := nestedWrites_reachable .x86_64 (PSYNC_WR_RESERVED .x86_64 - 1) (by decide)
  refine (h _ hreach).no_assertion () (.call .rdlock) trivial .rdrecursiveNotReserved ?_
  have hmark : PSYNC_WR_RESERVED .x86_64 - 1 + 1 = PSYNC_WR_RESERVED .x86_64 := by decide
  have hpos : PSYNC_WR_RESERVED .x86_64 ≠ 0 := by decide
  simp [act, call, rdlock, checkRdrecursiveIn, nestedWrites, assert, hmark, hpos]

end PcloudClient.Plocks
