/-
  Ppagecache/SharedApi.lean --- the API connection that the readers of the page cache share.

  A thread that got a connection from the pool sends its requests, offers the connection to
  others and reads its answers.  Others send their requests on the same connection under
  `sharedapi_mutex`, queue up in the same critical section and read when the connection is
  passed to them.  A step is a critical section of that mutex, a call of the pool, or the sending
  or reading of a thread that has the connection for itself.
-/
import Mathlib.Data.List.Nodup
import Mathlib.Logic.Function.Basic

set_option autoImplicit false

namespace PcloudClient.Ppagecache.SharedApi

/-- A connection, by its number. -/
abbrev Sock := Nat

/-- A request that expects one answer: who sent it, and its number. -/
structure Req (ι : Type) where
  sender : ι
  serial : Nat
  deriving DecidableEq, Repr

/-- How the thread got the connection. -/
inductive Path where
  /-- `get_urls`, with `psync_apipool_get`. -/
  | urls
  /-- `psync_pagecache_read_unmodified_thread`, with `psync_apipool_get_from_cache`. -/
  | cached
  /-- `psync_pagecache_read_unmodified_thread`, with `get_shared_api`. -/
  | shared
  deriving DecidableEq, Repr

/-- Where a thread is. -/
inductive Pc where
  | out
  /-- Has a connection and has sent nothing yet. -/
  | sending (path : Path) (s : Sock)
  /-- Before `mark_api_shared`. -/
  | sent (path : Path) (s : Sock)
  /-- Reads its answers; `first` until the first one is there. -/
  | reading (path : Path) (s : Sock) (first : Bool)
  /-- An answer did not come, before `mark_shared_api_bad`; `keeps` where the code goes to
  `err_api0` behind it. -/
  | broken (s : Sock) (keeps : Bool)
  /-- Before `psync_apipool_release_bad`. -/
  | closing (s : Sock)
  /-- `pass_shared_api` returned -1, before `psync_apipool_release`. -/
  | releasing (s : Sock)
  /-- In `wait_shared_api`, `waiter->api` is `NULL`. -/
  | waiting (s : Sock)
  /-- `waiter->api` is set: the connection, or -1. -/
  | woken (s : Sock) (passed : Bool)
  deriving DecidableEq, Repr

/-- The connection that the thread has to release or to pass on. -/
def Pc.owns : Pc → Option Sock
  | out => none
  | sending _ s => some s
  | sent _ s => some s
  | reading _ s _ => some s
  | broken s _ => some s
  | closing s => some s
  | releasing s => some s
  | waiting _ => none
  | woken s passed => if passed then some s else none

/-- Calls of the pool. -/
inductive PoolCall where
  | get (s : Sock)
  | release (s : Sock)
  | releaseBad (s : Sock)
  deriving DecidableEq, Repr

/-- An answer was read. -/
structure Answer (ι : Type) where
  reader : ι
  expected : Option (Req ι)
  got : Option (Req ι)

structure State (ι : Type) where
  /-- Connections idle in the pool. -/
  pool : List Sock
  /-- The number of connections made so far. -/
  next : Nat
  /-- The requests on a connection whose answers were not read, in the order of sending. -/
  wire : Sock → List (Req ι)
  sharedapi : Option Sock
  sharedapiwaiters : List ι
  pc : ι → Pc
  /-- The requests of a thread whose answers it has not read. -/
  pending : ι → List (Req ι)
  serial : Nat
  calls : List PoolCall
  answers : List (Answer ι)

variable {ι : Type} [DecidableEq ι]

namespace State

def init (ι : Type) : State ι :=
  ⟨[], 0, fun _ => [], none, [], fun _ => .out, fun _ => [], 0, [], []⟩

def goto (st : State ι) (t : ι) (pc : Pc) : State ι :=
  { st with pc := Function.update st.pc t pc }

/-- The thread has put `n` requests on the connection. -/
def send (st : State ι) (t : ι) (s : Sock) (n : Nat) : State ι :=
  let reqs := (List.range n).map fun i => ⟨t, st.serial + i⟩
  { st with
    wire := Function.update st.wire s (st.wire s ++ reqs)
    pending := Function.update st.pending t reqs
    serial := st.serial + n }

/-- `signal_all_waiters` -/
def signalAllWaiters (st : State ι) (s : Sock) : State ι :=
  { st with
    pc := fun u => if u ∈ st.sharedapiwaiters then .woken s false else st.pc u
    sharedapiwaiters := [] }

/-- `mark_api_shared` -/
def markApiShared (st : State ι) (s : Sock) : State ι :=
  if st.sharedapi = none then { st with sharedapi := some s } else st

/-- `mark_shared_api_bad` -/
def markSharedApiBad (st : State ι) (s : Sock) : State ι :=
  if st.sharedapi = some s then { st with sharedapi := none }.signalAllWaiters s else st

/-- `pass_shared_api` of the thread `t`. -/
def passSharedApi (st : State ι) (t : ι) (s : Sock) : State ι :=
  if st.sharedapi ≠ some s then st.goto t (.releasing s)
  else
    match st.sharedapiwaiters with
    | [] => { st with sharedapi := none }.goto t (.releasing s)
    | w :: ws => ({ st with sharedapiwaiters := ws }.goto w (.woken s true)).goto t .out

/-- One answer is taken from the connection. -/
def readAnswer (st : State ι) (t : ι) (s : Sock) : State ι :=
  { st with
    wire := Function.update st.wire s (st.wire s).tail
    pending := Function.update st.pending t (st.pending t).tail
    answers := ⟨t, (st.pending t).head?, (st.wire s).head?⟩ :: st.answers }

end State

/-- How the reading of an answer ends: -2 before its first page, -1 behind it. -/
inductive Outcome where
  | ok
  | errorFirst
  | error
  deriving DecidableEq, Repr

inductive Event (ι : Type) where
  /-- Another user of the pool leaves a connection there, or the pool loses one. -/
  | poolGrows
  | poolShrinks (s : Sock)
  /-- `psync_apipool_get` or `psync_apipool_get_from_cache` returns an idle connection. -/
  | getIdle (t : ι) (path : Path) (s : Sock)
  /-- `psync_apipool_get` returns a new connection. -/
  | getNew (t : ι)
  /-- The thread sends its `n` requests, or fails. -/
  | send (t : ι) (n : Nat) (ok : Bool)
  | markApiShared (t : ι)
  | read (t : ι) (outcome : Outcome)
  | pass (t : ι)
  | markSharedApiBad (t : ι)
  | releaseBad (t : ι)
  | release (t : ι) (kept : Bool)
  /-- `get_shared_api`, the sending and the start of `wait_shared_api`; where the sending fails
  behind `n` requests, `release_bad_shared_api`. -/
  | sendShared (t : ι) (n : Nat) (ok : Bool)
  /-- `wait_shared_api` returns. -/
  | resume (t : ι)
  deriving DecidableEq, Repr

namespace State

def step (st : State ι) : Event ι → Option (State ι)
  | .poolGrows => some { st with pool := st.next :: st.pool, next := st.next + 1 }
  | .poolShrinks s => some { st with pool := st.pool.erase s }
  | .getIdle t path s =>
    if st.pc t = .out ∧ path ≠ .shared ∧ s ∈ st.pool then
      some { st.goto t (.sending path s) with
        pool := st.pool.erase s, calls := .get s :: st.calls }
    else none
  | .getNew t =>
    if st.pc t = .out then
      some { st.goto t (.sending .urls st.next) with
        next := st.next + 1, calls := .get st.next :: st.calls }
    else none
  | .send t n ok =>
    match st.pc t with
    | .sending path s =>
      if ok then some ((st.send t s n).goto t (.sent path s))
      else some ((st.send t s n).goto t (.closing s))
    | _ => none
  | .markApiShared t =>
    match st.pc t with
    | .sent path s => some ((st.markApiShared s).goto t (.reading path s true))
    | _ => none
  | .read t outcome =>
    match st.pc t with
    | .reading path s first =>
      if st.pending t = [] then none
      else
        match outcome with
        | .ok => some ((st.readAnswer t s).goto t (.reading path s false))
        | .errorFirst => some (st.goto t (.broken s (path = .shared && first)))
        | .error => some (st.goto t (.broken s false))
    | _ => none
  | .pass t =>
    match st.pc t with
    | .reading _ s _ => if st.pending t = [] then some (st.passSharedApi t s) else none
    | _ => none
  | .markSharedApiBad t =>
    match st.pc t with
    | .broken s keeps =>
      some ((st.markSharedApiBad s).goto t (if keeps then .out else .closing s))
    | _ => none
  | .releaseBad t =>
    match st.pc t with
    | .closing s => some { st.goto t .out with calls := .releaseBad s :: st.calls }
    | _ => none
  | .release t kept =>
    match st.pc t with
    | .releasing s =>
      some { st.goto t .out with
        pool := if kept then s :: st.pool else st.pool
        calls := .release s :: st.calls }
    | _ => none
  | .sendShared t n ok =>
    match st.sharedapi with
    | some s =>
      if st.pc t = .out then
        let st := st.send t s n
        if ok then
          some { st.goto t (.waiting s) with sharedapiwaiters := st.sharedapiwaiters ++ [t] }
        else some ({ st with sharedapi := none }.signalAllWaiters s)
      else none
    | none => none
  | .resume t =>
    match st.pc t with
    | .woken s passed => some (st.goto t (if passed then .reading .shared s true else .out))
    | _ => none

def run : List (Event ι) → State ι → Option (State ι)
  | [], st => some st
  | e :: es, st => (st.step e).bind (run es)

end State

end PcloudClient.Ppagecache.SharedApi
