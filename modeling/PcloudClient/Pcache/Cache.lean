/-
  Pcache/Cache.lean --- the functions of `pcache.c` as programs of threads that interleave.

  A step of a thread is one access to what threads share: a mutex, a list of the hash table, a
  timer, or the call of a free callback.  Two functions of `ptimer.c` matter here and are
  taken with all that the cache can see of them: `psync_timer_stop`, and the timer thread,
  which marks timers as running, calls them one after the other and then frees those that were
  stopped meanwhile.  It may take any armed timer at any time.
-/
import Mathlib.Data.BitVec
import Mathlib.Logic.Function.Basic
import Mathlib.Logic.Relation

set_option autoImplicit false

namespace PcloudClient.Pcache

/-! ## Hashes -/

/-- `CACHE_HASH_SIZE` -/
abbrev cacheHashSize : Nat := 2048

/-- `CACHE_LOCKS` -/
abbrev cacheLocks : Nat := 8

/-- The characters of a C string; none is zero, and `char` is signed. -/
abbrev Key := List (BitVec 8)

/-- The macro is used with a `uint32_t` and with a `psync_uint_t`. -/
def hashToBucket {w : Nat} (h : BitVec w) : BitVec w := h % BitVec.ofNat w cacheHashSize

def hashToLock {w : Nat} (h : BitVec w) : BitVec w :=
  h * BitVec.ofNat w cacheLocks / BitVec.ofNat w cacheHashSize % BitVec.ofNat w cacheLocks

/-- One character in the loop of `hash_func`. -/
def hashChar (hash : BitVec 32) (c : BitVec 8) : BitVec 32 :=
  c.signExtend 32 + (hash <<< 5) + hash

def hashFunc (seed : BitVec 32) (key : Key) : BitVec 32 :=
  let hash := key.foldl hashChar seed
  let hash := hash + (hash <<< 3)
  hash ^^^ (hash >>> 11)

/-- The index in `cache_hash` that a hash belongs to. -/
def bucketOf (h : BitVec 32) : Nat := (hashToBucket h).toNat

/-- The index in `cache_mutexes` that a hash belongs to. -/
def lockOf (h : BitVec 32) : Nat := (hashToLock h).toNat

/-- The index in `cache_mutexes` that the clean functions use for the list `b`. -/
def lockOfBucket (b : Nat) : Nat := (hashToLock (BitVec.ofNat 64 b)).toNat

/-! ## State -/

/-- `hash_element`.  Its `id` stands for its address and is the number of the call of
`psync_cache_add` that made it; `maxkeys` is what that call was given. -/
structure HashElement where
  id : Nat
  value : Nat
  free : Nat
  hash : BitVec 32
  key : Key
  maxkeys : Nat
  deriving DecidableEq, Repr

/-- A timer as `psync_timer_stop` sees it. -/
inductive Timer where
  /-- not there: freed, or not registered yet -/
  | none
  | armed
  /-- with `PTIMER_IS_RUNNING`, and whether `PTIMER_STOP_AFTER_RUN` is set -/
  | running (stopAfterRun : Bool)
  deriving DecidableEq, Repr

/-- What happens to the value of an element. -/
inductive Event where
  /-- `psync_cache_get` returns `he->value` -/
  | returned (he : HashElement)
  /-- `he->free(he->value)` -/
  | freed (he : HashElement)
  deriving DecidableEq, Repr

/-- The element an event is about. -/
def Event.element : Event → HashElement
  | .returned he => he
  | .freed he => he

/-- A call of one of the functions. -/
inductive Op where
  | get (key : Key)
  | has (key : Key)
  | add (key : Key) (value free maxkeys : Nat)
  | del (key : Key)
  | cleanAll
  | cleanStartingWithOneOf (prefixes : List Key)
  deriving DecidableEq, Repr

/-- Where a thread is.  In `..Next` it is about to read the element after `prev`, or the first
one; in `..Stop` about to call `psync_timer_stop`, in `..Del` about to call `psync_list_del`.
`only` is the list of `psync_cache_clean_starting_with_one_of`, and none in
`psync_cache_clean_all`.  `todo` are the timers whose callback is still to be called. -/
inductive Pc where
  | idle
  | getLock (key : Key)
  | getNext (key : Key) (prev : Option HashElement)
  | getStop (key : Key) (he : HashElement)
  | getDel (key : Key) (he : HashElement)
  | getUnlock (key : Key) (he : HashElement)
  | getReturn (he : HashElement)
  | getMiss (key : Key)
  | hasLock (key : Key)
  | hasNext (key : Key) (prev : Option HashElement)
  | hasUnlock (key : Key)
  | addLock (he : HashElement)
  | addNext (he : HashElement) (prev : Option HashElement) (l : Nat)
  | addRefuse (he : HashElement)
  | addFree (he : HashElement)
  | addHead (he : HashElement)
  | addRegister (he : HashElement)
  | addUnlock (he : HashElement)
  | delLock (key : Key)
  | delNext (key : Key) (prev : Option HashElement)
  | delStop (key : Key) (he : HashElement)
  | delDel (key : Key) (he : HashElement)
  | delUnlock (key : Key) (he : HashElement)
  | delFree (key : Key) (he : HashElement)
  | delMiss (key : Key)
  | cleanLock (only : Option (List Key)) (h : Nat)
  | cleanFirst (only : Option (List Key)) (h : Nat)
  | cleanLoop (only : Option (List Key)) (h : Nat) (l1 : HashElement)
  | cleanStop (only : Option (List Key)) (h : Nat) (l1 : HashElement) (l2 : Option HashElement)
  | cleanDel (only : Option (List Key)) (h : Nat) (l1 : HashElement) (l2 : Option HashElement)
  | cleanFree (only : Option (List Key)) (h : Nat) (l1 : HashElement) (l2 : Option HashElement)
  | cleanUnlock (only : Option (List Key)) (h : Nat)
  | process (todo : List HashElement)
  | timerLock (he : HashElement) (todo : List HashElement)
  | timerDel (he : HashElement) (todo : List HashElement)
  | timerUnlock (he : HashElement) (todo : List HashElement)
  | timerFree (he : HashElement) (todo : List HashElement)
  | timerStop (he : HashElement) (todo : List HashElement)
  deriving DecidableEq, Repr

/-- `cache_hash`, `cache_mutexes` by their owner, the timers by the element they were
registered for, and the threads; `timers` is the list of the timer thread, which is thread 0.
`added` and `log` are not in the source, nor is `misuse`: a mutex was unlocked by a thread that
did not hold it, an element was unlinked that was in no list, or a freed timer was stopped. -/
structure State where
  bucket : Nat → List HashElement
  mutex : Nat → Option Nat
  timer : Nat → Timer
  pc : Nat → Pc
  timers : List HashElement
  added : List HashElement
  log : List Event
  misuse : Bool

/-- After `psync_cache_init`. -/
def init : State where
  bucket _ := []
  mutex _ := none
  timer _ := .none
  pc _ := .idle
  timers := []
  added := []
  log := []
  misuse := false

/-! ## What a step does to what is shared -/

namespace State

def setPc (s : State) (t : Nat) (p : Pc) : State := { s with pc := Function.update s.pc t p }

/-- `pthread_mutex_lock`, which waits while another thread holds the mutex.  The mutexes are
recursive, but no callback enters the cache again. -/
def lock (s : State) (t m : Nat) (p : Pc) : Option State :=
  if s.mutex m = none then
    some { s.setPc t p with mutex := Function.update s.mutex m (some t) }
  else none

/-- `pthread_mutex_unlock` -/
def unlock (s : State) (t m : Nat) (p : Pc) : State :=
  { s.setPc t p with
    mutex := Function.update s.mutex m none
    misuse := s.misuse || decide (s.mutex m ≠ some t) }

/-- `psync_list_del` -/
def listDel (s : State) (t b : Nat) (he : HashElement) (p : Pc) : State :=
  { s.setPc t p with
    bucket := Function.update s.bucket b ((s.bucket b).erase he)
    misuse := s.misuse || decide (he ∉ s.bucket b) }

/-- `psync_list_add_head` -/
def listAddHead (s : State) (t b : Nat) (he : HashElement) (p : Pc) : State :=
  { s.setPc t p with bucket := Function.update s.bucket b (he :: s.bucket b) }

/-- `psync_timer_stop`: whether the timer is running, and `stopped` or `runs` after it. -/
def timerStop (s : State) (t : Nat) (he : HashElement) (stopped runs : Pc) : State :=
  match s.timer he.id with
  | .armed => { s.setPc t stopped with timer := Function.update s.timer he.id .none }
  | .running _ => { s.setPc t runs with timer := Function.update s.timer he.id (.running true) }
  | .none => { s.setPc t stopped with misuse := true }

/-- `psync_timer_register` -/
def timerRegister (s : State) (t : Nat) (he : HashElement) (p : Pc) : State :=
  { s.setPc t p with timer := Function.update s.timer he.id .armed }

/-- The value leaves the cache. -/
def emit (s : State) (t : Nat) (e : Event) (p : Pc) : State :=
  { s.setPc t p with log := s.log ++ [e] }

/-- What `timer_process_timers` does with the timers it has called: those without
`PTIMER_STOP_AFTER_RUN` are armed again, the others freed. -/
def rearm (s : State) (t : Nat) (p : Pc) : State :=
  { s.setPc t p with
    timer := fun i => if i ∈ s.timers.map (·.id) then
        (if s.timer i = .running true then .none else .armed) else s.timer i
    timers := [] }

end State

/-- The element after `prev` in a list, the first one if there is no `prev`. -/
def next (es : List HashElement) (prev : Option HashElement) : Option HashElement :=
  match prev with
  | none => es.head?
  | some he => (es.drop (es.idxOf he + 1)).head?

/-- `he->hash==h && !strcmp(key, he->key)` -/
def HashElement.hasKey (he : HashElement) (h : BitVec 32) (key : Key) : Bool :=
  he.hash = h && he.key = key

/-- Whether a clean function takes the element: always in `psync_cache_clean_all`, else if
`strncmp` finds one of the prefixes at the start of its key. -/
def cleans (only : Option (List Key)) (he : HashElement) : Bool :=
  match only with
  | none => true
  | some prefixes => prefixes.any fun p => p.isPrefixOf he.key

/-! ## Programs -/

variable (seed : BitVec 32)

/-- The beginning of a call; a call of `psync_cache_add` makes its element first. -/
def start (s : State) (t : Nat) : Op → State
  | .get key => s.setPc t (.getLock key)
  | .has key => s.setPc t (.hasLock key)
  | .add key value free maxkeys =>
    let he : HashElement := ⟨s.added.length, value, free, hashFunc seed key, key, maxkeys⟩
    { s.setPc t (.addLock he) with added := s.added ++ [he] }
  | .del key => s.setPc t (.delLock key)
  | .cleanAll => s.setPc t (.cleanLock none 0)
  | .cleanStartingWithOneOf prefixes => s.setPc t (.cleanLock (some prefixes) 0)

/-- `psync_cache_get`, one step at a time. -/
def getStep (s : State) (t : Nat) : Pc → Option State
  | .getLock key => s.lock t (lockOf (hashFunc seed key)) (.getNext key none)
  | .getNext key prev =>
    match next (s.bucket (bucketOf (hashFunc seed key))) prev with
    | none => some (s.setPc t (.getMiss key))
    | some he =>
      if he.hasKey (hashFunc seed key) key then some (s.setPc t (.getStop key he))
      else some (s.setPc t (.getNext key (some he)))
  | .getStop key he => some (s.timerStop t he (.getDel key he) (.getNext key (some he)))
  | .getDel key he =>
    some (s.listDel t (bucketOf (hashFunc seed key)) he (.getUnlock key he))
  | .getUnlock key he => some (s.unlock t (lockOf (hashFunc seed key)) (.getReturn he))
  | .getReturn he => some (s.emit t (.returned he) .idle)
  | .getMiss key => some (s.unlock t (lockOf (hashFunc seed key)) .idle)
  | _ => none

/-- `psync_cache_has` -/
def hasStep (s : State) (t : Nat) : Pc → Option State
  | .hasLock key => s.lock t (lockOf (hashFunc seed key)) (.hasNext key none)
  | .hasNext key prev =>
    match next (s.bucket (bucketOf (hashFunc seed key))) prev with
    | none => some (s.setPc t (.hasUnlock key))
    | some he =>
      if he.hasKey (hashFunc seed key) key then some (s.setPc t (.hasUnlock key))
      else some (s.setPc t (.hasNext key (some he)))
  | .hasUnlock key => some (s.unlock t (lockOf (hashFunc seed key)) .idle)
  | _ => none

/-- `psync_cache_add`, after it has made its element. -/
def addStep (s : State) (t : Nat) : Pc → Option State
  | .addLock he =>
    s.lock t (lockOf he.hash) (if he.maxkeys = 0 then .addHead he else .addNext he none 0)
  | .addNext he prev l =>
    match next (s.bucket (bucketOf he.hash)) prev with
    | none => some (s.setPc t (.addHead he))
    | some he2 =>
      if he2.hasKey he.hash he.key then
        if l + 1 = he.maxkeys then some (s.setPc t (.addRefuse he))
        else some (s.setPc t (.addNext he (some he2) (l + 1)))
      else some (s.setPc t (.addNext he (some he2) l))
  | .addRefuse he => some (s.unlock t (lockOf he.hash) (.addFree he))
  | .addFree he => some (s.emit t (.freed he) .idle)
  | .addHead he => some (s.listAddHead t (bucketOf he.hash) he (.addRegister he))
  | .addRegister he => some (s.timerRegister t he (.addUnlock he))
  | .addUnlock he => some (s.unlock t (lockOf he.hash) .idle)
  | _ => none

/-- `psync_cache_del` -/
def delStep (s : State) (t : Nat) : Pc → Option State
  | .delLock key => s.lock t (lockOf (hashFunc seed key)) (.delNext key none)
  | .delNext key prev =>
    match next (s.bucket (bucketOf (hashFunc seed key))) prev with
    | none => some (s.setPc t (.delMiss key))
    | some he =>
      if he.hasKey (hashFunc seed key) key then some (s.setPc t (.delStop key he))
      else some (s.setPc t (.delNext key (some he)))
  | .delStop key he => some (s.timerStop t he (.delDel key he) (.delNext key (some he)))
  | .delDel key he =>
    some (s.listDel t (bucketOf (hashFunc seed key)) he (.delUnlock key he))
  | .delUnlock key he => some (s.unlock t (lockOf (hashFunc seed key)) (.delFree key he))
  | .delFree key he => some (s.emit t (.freed he) (.delLock key))
  | .delMiss key => some (s.unlock t (lockOf (hashFunc seed key)) .idle)
  | _ => none

/-- `psync_list_for_each_safe` has read `l1`; the end of the list ends the loop. -/
def cleanTo (only : Option (List Key)) (h : Nat) (l1 : Option HashElement) : Pc :=
  match l1 with
  | none => .cleanUnlock only h
  | some he => .cleanLoop only h he

/-- `psync_cache_clean_all` and `psync_cache_clean_starting_with_one_of` -/
def cleanStep (s : State) (t : Nat) : Pc → Option State
  | .cleanLock only h => s.lock t (lockOfBucket h) (.cleanFirst only h)
  | .cleanFirst only h => some (s.setPc t (cleanTo only h (next (s.bucket h) none)))
  | .cleanLoop only h l1 =>
    let l2 := next (s.bucket h) (some l1)
    if cleans only l1 then some (s.setPc t (.cleanStop only h l1 l2))
    else some (s.setPc t (cleanTo only h l2))
  | .cleanStop only h l1 l2 =>
    some (s.timerStop t l1 (.cleanDel only h l1 l2) (cleanTo only h l2))
  | .cleanDel only h l1 l2 => some (s.listDel t h l1 (.cleanFree only h l1 l2))
  | .cleanFree only h l1 l2 => some (s.emit t (.freed l1) (cleanTo only h l2))
  | .cleanUnlock only h =>
    some (s.unlock t (lockOfBucket h)
      (if h + 1 < cacheHashSize then .cleanLock only (h + 1) else .idle))
  | _ => none

/-- `timer_process_timers` with `cache_timer` as the callback of each timer. -/
def timerStep (s : State) (t : Nat) : Pc → Option State
  | .process [] => some (s.rearm t .idle)
  | .process (he :: todo) => some (s.setPc t (.timerLock he todo))
  | .timerLock he todo => s.lock t (lockOf he.hash) (.timerDel he todo)
  | .timerDel he todo => some (s.listDel t (bucketOf he.hash) he (.timerUnlock he todo))
  | .timerUnlock he todo => some (s.unlock t (lockOf he.hash) (.timerFree he todo))
  | .timerFree he todo => some (s.emit t (.freed he) (.timerStop he todo))
  | .timerStop he todo => some (s.timerStop t he (.process todo) (.process todo))
  | _ => none

/-- The next step of the thread `t`, if it is in a call and does not wait for a mutex. -/
def stepOf (s : State) (t : Nat) : Pc → Option State
  | .idle => none
  | p@(.getLock ..) | p@(.getNext ..) | p@(.getStop ..) | p@(.getDel ..) | p@(.getUnlock ..)
  | p@(.getReturn ..) | p@(.getMiss ..) => getStep seed s t p
  | p@(.hasLock ..) | p@(.hasNext ..) | p@(.hasUnlock ..) => hasStep seed s t p
  | p@(.addLock ..) | p@(.addNext ..) | p@(.addRefuse ..) | p@(.addFree ..) | p@(.addHead ..)
  | p@(.addRegister ..) | p@(.addUnlock ..) => addStep s t p
  | p@(.delLock ..) | p@(.delNext ..) | p@(.delStop ..) | p@(.delDel ..) | p@(.delUnlock ..)
  | p@(.delFree ..) | p@(.delMiss ..) => delStep seed s t p
  | p@(.cleanLock ..) | p@(.cleanFirst ..) | p@(.cleanLoop ..) | p@(.cleanStop ..)
  | p@(.cleanDel ..) | p@(.cleanFree ..) | p@(.cleanUnlock ..) => cleanStep s t p
  | p@(.process ..) | p@(.timerLock ..) | p@(.timerDel ..) | p@(.timerUnlock ..)
  | p@(.timerFree ..) | p@(.timerStop ..) => timerStep s t p

/-- `timer_prepare_timers` marks the timers of `fired` as running. -/
def drain (s : State) (fired : List HashElement) : State :=
  { s.setPc 0 (.process fired) with
    timer := fun i => if i ∈ fired.map (·.id) then .running false else s.timer i
    timers := fired }

/-- A step of the threads in any order. -/
inductive Step : State → State → Prop where
  | start {s : State} (t : Nat) (op : Op) : s.pc t = .idle → Step s (start seed s t op)
  | run {s s' : State} (t : Nat) : stepOf seed s t (s.pc t) = some s' → Step s s'
  | drain {s : State} (fired : List HashElement) : s.pc 0 = .idle → fired.Nodup →
      (∀ he ∈ fired, he ∈ s.added ∧ s.timer he.id = .armed) → Step s (drain s fired)

/-- A state that some interleaving reaches. -/
def Reachable (s : State) : Prop := Relation.ReflTransGen (Step seed) init s

end PcloudClient.Pcache
