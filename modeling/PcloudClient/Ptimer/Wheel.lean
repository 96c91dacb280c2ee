/-
  Ptimer/Wheel.lean --- the timer wheel of `ptimer.c` and the steps of its threads.

  The timer thread writes `psync_current_time` before it takes `timer_mutex`, so that what others
  do under the mutex can come between the two.  A step below is what is done under the mutex at
  one time, or the writing of the time, or the call of a callback.
-/
import Mathlib.Logic.Function.Basic
import Mathlib.Logic.Relation

set_option autoImplicit false

namespace PcloudClient.Ptimer

/-- `TIMER_ARRAY_SIZE_SHIFT` -/
abbrev timerArraySizeShift : Nat := 6

/-- `TIMER_ARRAY_SIZE` -/
abbrev timerArraySize : Nat := 64

/-- `TIMER_LEVELS` -/
abbrev timerLevels : Nat := 3

/-- `psync_timer_structure_t`.  The `id` stands for its address; of `opts` the two flags
`PTIMER_IS_RUNNING` and `PTIMER_STOP_AFTER_RUN`. -/
structure Timer where
  id : Nat
  numsec : Nat
  level : Nat
  runat : Nat
  isRunning : Bool
  stopAfterRun : Bool
  deriving DecidableEq, Repr

/-- `timerlists` -/
abbrev Wheel := Nat → Nat → List Timer

/-- The list of a level that a time belongs to. -/
def slotOf (level runat : Nat) : Nat := (runat >>> (level * timerArraySizeShift)) % timerArraySize

/-- `psync_list_add_tail` on the list of a level -/
def addTail (w : Wheel) (level slot : Nat) (timer : Timer) : Wheel :=
  Function.update w level (Function.update (w level) slot (w level slot ++ [timer]))

/-- `psync_list_init` -/
def clear (w : Wheel) (level slot : Nat) : Wheel :=
  Function.update w level (Function.update (w level) slot [])

/-- The loop of `timer_check_upper_levels`. -/
def moveDown (w : Wheel) (level sh : Nat) (timers : List Timer) : Wheel :=
  timers.foldl
    (fun w timer => addTail w level ((timer.runat >>> sh) % timerArraySize) timer) w

/-- `timer_check_upper_levels`.  `upper` is `TIMER_LEVELS-2-level`, the number of levels that are
left for the recursion. -/
def timerCheckUpperLevels (w : Wheel) (tmdiv level sh : Nat) (upper : Nat) : Wheel :=
  let m := tmdiv % timerArraySize
  let w := match upper with
    | 0 => w
    | upper + 1 =>
      if m = 0 then
        timerCheckUpperLevels w (tmdiv / timerArraySize) (level + 1)
          (sh + timerArraySizeShift) upper
      else w
  clear (moveDown w level sh (w (level + 1) m)) (level + 1) m

/-- One turn of the loop of `timer_prepare_timers`. -/
def prepareTick (w : Wheel) (list : List Timer) (i : Nat) : Wheel × List Timer :=
  let m := i % timerArraySize
  let w := if m = 0 then timerCheckUpperLevels w (i / timerArraySize) 0 0 (timerLevels - 2) else w
  (clear w 0 m, list ++ (w 0 m).map fun timer => { timer with isRunning := true })

/-- `timer_prepare_timers`, with `count` ticks after `after`. -/
def timerPrepareTimers (w : Wheel) (after : Nat) (list : List Timer) : Nat → Wheel × List Timer
  | 0 => (w, list)
  | count + 1 =>
    let (w, list) := prepareTick w list (after + 1)
    timerPrepareTimers w (after + 1) list count

/-- The loop of `psync_timer_register` that finds the level: `i` levels are not enough. -/
def findLevel (numsec n i : Nat) : Nat → Nat × Nat
  | 0 => (i, n)
  | levels + 1 =>
    if numsec ≤ n then (i, n) else findLevel numsec (n * timerArraySize) (i + 1) levels

/-- The level and the `numsec` that `psync_timer_register` gives to a timer. -/
def levelFor (numsec : Nat) : Nat × Nat :=
  let (i, n) := findLevel numsec timerArraySize 0 timerLevels
  if i = timerLevels then (i - 1, n / timerArraySize) else (i, numsec)

/-! ## The threads -/

/-- A timer and the time it was armed for. -/
structure Arming where
  id : Nat
  runat : Nat
  deriving DecidableEq, Repr

/-- The arming of a timer in a list. -/
def Timer.arming (timer : Timer) : Arming := ⟨timer.id, timer.runat⟩

/-- A timer in the list of a drain, with the ticks of the drain. -/
structure Handing where
  arming : Arming
  after : Nat
  upto : Nat
  deriving DecidableEq, Repr

/-- Where the timer thread is. -/
inductive Phase where
  | sleeping
  /-- `psync_current_time` has been written, `timer_mutex` is not locked yet -/
  | published
  /-- in `timer_process_timers`, with so many callbacks called -/
  | calling (called : Nat)
  /-- before `lt=psync_current_time` -/
  | processed
  deriving DecidableEq, Repr

/-- `timers` and `lt` are variables of the timer thread.  `nextId` names the timers; what follows
it is not in the source: the armings of all timers, those that were handed to the timer thread,
those that were taken out of the wheel by `psync_timer_stop`, and the callbacks that were called. -/
structure State where
  timerlists : Wheel
  currentTime : Nat
  lt : Nat
  timers : List Timer
  phase : Phase
  nextId : Nat
  armed : List Arming
  handed : List Handing
  stopped : List Arming
  called : List Arming

/-- After `psync_timer_init`, when the timer thread has read the time. -/
def init (now : Nat) : State where
  timerlists _ _ := []
  currentTime := now
  lt := now
  timers := []
  phase := .sleeping
  nextId := 0
  armed := []
  handed := []
  stopped := []
  called := []

/-- The tick up to which the wheel has been drained. -/
def State.drained (s : State) : Nat :=
  match s.phase with
  | .sleeping | .published => s.lt
  | .calling _ | .processed => s.currentTime

/-- A timer is put into the wheel. -/
def State.arm (s : State) (timer : Timer) : State :=
  { s with
    timerlists := addTail s.timerlists timer.level (slotOf timer.level timer.runat) timer
    armed := s.armed ++ [timer.arming] }

/-- `psync_timer_register` -/
def timerRegister (s : State) (numsec : Nat) : State :=
  let (level, numsec) := levelFor numsec
  { s.arm ⟨s.nextId, numsec, level, s.currentTime + numsec, false, false⟩ with
    nextId := s.nextId + 1 }

/-- The timers of one name in the wheel. -/
def State.waiting (s : State) (id : Nat) : List Timer :=
  (List.range timerLevels).flatMap fun level => (List.range timerArraySize).flatMap fun slot =>
    (s.timerlists level slot).filter fun timer => timer.id = id

/-- `psync_timer_stop`.  None if the timer has been freed. -/
def timerStop (s : State) (id : Nat) : Option State :=
  if s.timers.any fun timer => timer.id = id then
    some { s with
      timers := s.timers.map fun timer =>
        if timer.id = id then { timer with stopAfterRun := true } else timer }
  else
    match s.waiting id with
    | [] => none
    | timer :: _ =>
      some { s with
        timerlists := fun level slot =>
          (s.timerlists level slot).filter fun timer => timer.id ≠ id
        stopped := s.stopped ++ [timer.arming] }

/-- The part of the timer thread's loop that holds `timer_mutex`. -/
def drain (s : State) : State :=
  let (w, list) := timerPrepareTimers s.timerlists s.lt [] (s.currentTime - s.lt)
  { s with
    timerlists := w
    timers := list
    phase := .calling 0
    handed := s.handed ++ list.map fun timer => ⟨timer.arming, s.lt, s.currentTime⟩ }

/-- What `timer_process_timers` does to a timer after all callbacks. -/
def rearmTimer (s : State) (timer : Timer) : State :=
  if timer.stopAfterRun then s
  else
    s.arm { timer with
      isRunning := false, stopAfterRun := false, runat := s.currentTime + timer.numsec }

/-- The end of `timer_process_timers`. -/
def rearm (s : State) : State :=
  { s.timers.foldl rearmTimer s with timers := [], phase := .processed }

/-- What the threads do. -/
inductive Op where
  | register (numsec : Nat)
  | stop (id : Nat)
  | publish (now : Nat)
  | drain
  | call
  | rearm
  | next
  deriving DecidableEq, Repr

/-- A step, none if it cannot be taken in this state.  The clock does not go back. -/
def exec (s : State) : Op → Option State
  | .register numsec => some (timerRegister s numsec)
  | .stop id => timerStop s id
  | .publish now =>
    if s.phase = .sleeping ∧ s.currentTime ≤ now then
      some { s with currentTime := now, phase := .published }
    else none
  | .drain => if s.phase = .published then some (drain s) else none
  | .call =>
    match s.phase with
    | .calling n =>
      match s.timers[n]? with
      | some timer =>
        some { s with phase := .calling (n + 1), called := s.called ++ [timer.arming] }
      | none => none
    | _ => none
  | .rearm => if s.phase = .calling s.timers.length then some (rearm s) else none
  | .next =>
    if s.phase = .processed then some { s with lt := s.currentTime, phase := .sleeping } else none

end PcloudClient.Ptimer
