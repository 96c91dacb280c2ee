/-
  Pnetlibs/ApiPool.lean --- the pool of connections to the API server.

  A connection is made with a permit of the semaphore `api_pool_sem`, kept in the cache of
  pcache.c while nobody uses it, and closed with its permit given back.  Every function of
  pcache.c that touches the list of an element does so under one mutex, so each is one step; the
  calls of different threads interleave at these steps, at `sem_wait` and at the connection
  attempt.
-/
import Mathlib.Data.List.Perm.Basic
import Mathlib.Data.List.Nodup

set_option autoImplicit false

namespace PcloudClient.Pnetlibs

abbrev PSYNC_APIPOOL_MAXIDLE : Nat := 24

abbrev PSYNC_APIPOOL_MAXACTIVE : Nat := 36

/-- `hash_func`; a `char` is signed. -/
def hashFunc (key : List UInt8) : UInt32 :=
  key.foldl (fun hash c => c.toInt8.toInt32.toUInt32 + (hash <<< 5) + hash) 0

/-- `psync_socket`, with the number of the connection it is. -/
structure Socket where
  id : Nat
  misc : UInt32
  deriving DecidableEq, Repr

/-- `hash_element` with a socket; `running` is `PTIMER_IS_RUNNING` of its timer. -/
structure Element where
  key : List UInt8
  value : Socket
  running : Bool
  deriving DecidableEq, Repr

/-- Who called. -/
inductive Caller where
  | get
  | getFromCache
  | prepare
  deriving DecidableEq, Repr

/-- A call that has not returned. -/
inductive Call where
  /-- Before `psync_cache_get`, or before `psync_cache_has`. -/
  | lookup (caller : Caller)
  /-- In `api_sock_is_broken`. -/
  | check (caller : Caller) (sock : Socket)
  /-- In `psync_get_api`, before `sem_wait` returned. -/
  | wait (caller : Caller)
  /-- In `psync_api_connect`. -/
  | connect (caller : Caller)
  /-- In `psync_apipool_prepare`, before the release. -/
  | prepared (sock : Socket)
  deriving DecidableEq, Repr

/-- The socket that the call has in hand. -/
def Call.socks : Call → List Socket
  | .check _ sock => [sock]
  | .prepared sock => [sock]
  | _ => []

/-- The call has a permit and no socket yet. -/
def Call.connecting : Call → Bool
  | .connect _ => true
  | _ => false

structure Pool where
  sem : Nat
  /-- `apiserver` -/
  server : List UInt8
  /-- The elements of the cache with a socket. -/
  cache : List Element
  /-- The sockets that callers have in hand. -/
  held : List Socket
  calls : List Call
  /-- The number of connections made so far. -/
  connections : Nat
  deriving DecidableEq, Repr

namespace Pool

def init (server : List UInt8) : Pool := ⟨PSYNC_APIPOOL_MAXACTIVE, server, [], [], [], 0⟩

/-- `apikey` -/
def apikey (p : Pool) : List UInt8 := "API:".toUTF8.toList ++ p.server

/-- `psync_apipool_set_server`; `binapi` is without the zero at its end. -/
def setServer (p : Pool) (binapi : List UInt8) : Pool :=
  if binapi.length + 1 ≤ 64 then { p with server := binapi } else p

/-- `psync_ret_api` -/
def retApi (p : Pool) : Pool := { p with sem := p.sem + 1 }

/-- The element that `psync_cache_get` takes: the first with the key whose timer stops. -/
def takes (p : Pool) (e : Element) : Bool := e.key == p.apikey && !e.running

/-- `psync_cache_get(apikey)` -/
def cacheGet (p : Pool) : Option (Socket × Pool) :=
  (p.cache.find? p.takes).map fun e => (e.value, { p with cache := p.cache.erase e })

/-- `psync_cache_has(apikey)` -/
def cacheHas (p : Pool) : Bool := p.cache.any fun e => e.key == p.apikey

/-- `psync_cache_add(apikey, sock, .., psync_ret_api, PSYNC_APIPOOL_MAXIDLE)` -/
def cacheAdd (p : Pool) (sock : Socket) : Pool :=
  if PSYNC_APIPOOL_MAXIDLE ≤ p.cache.countP (fun e => e.key == p.apikey) then p.retApi
  else { p with cache := ⟨p.apikey, sock, false⟩ :: p.cache }

/-- `psync_apipool_release`.  In a debug build a socket with data to read is released as bad. -/
def release (p : Pool) (debug readable : Bool) (sock : Socket) : Pool :=
  if debug && readable then p.retApi
  else if hashFunc p.server = sock.misc then p.cacheAdd sock
  else p.retApi

/-- `psync_apipool_release_bad` -/
def releaseBad (p : Pool) : Pool := p.retApi

def setCall (p : Pool) (i : Nat) (call : Call) : Pool := { p with calls := p.calls.set i call }

/-- The call returns. -/
def endCall (p : Pool) (i : Nat) : Pool := { p with calls := p.calls.eraseIdx i }

/-- The step of a call in front of the cache. -/
def runLookup (p : Pool) (i : Nat) : Caller → Pool
  | .prepare => if p.cacheHas then p.endCall i else p.setCall i (.wait .prepare)
  | .get =>
    match p.cacheGet with
    | some (sock, p) => p.setCall i (.check .get sock)
    | none => p.setCall i (.wait .get)
  | .getFromCache =>
    match p.cacheGet with
    | some (sock, p) => p.setCall i (.check .getFromCache sock)
    | none => p.endCall i

/-- `psync_api_connect` returns a socket or `NULL`. -/
def runConnect (p : Pool) (i : Nat) (caller : Caller) (connected : Bool) : Pool :=
  if connected then
    let sock : Socket := ⟨p.connections, hashFunc p.server⟩
    let p := { p with connections := p.connections + 1 }
    match caller with
    | .prepare => p.setCall i (.prepared sock)
    | _ => { p.endCall i with held := sock :: p.held }
  else p.endCall i

end Pool

/-! ## Steps -/

inductive Event where
  | setServer (binapi : List UInt8)
  | call (caller : Caller)
  | lookup (i : Nat)
  | checked (i : Nat) (broken : Bool)
  | semWait (i : Nat)
  | connected (i : Nat) (ok : Bool)
  | releasePrepared (i : Nat) (readable : Bool)
  | release (j : Nat) (readable : Bool)
  | releaseBad (j : Nat)
  /-- The timer thread takes the timer of an element to run it. -/
  | timerRuns (k : Nat)
  /-- `cache_timer` -/
  | cacheTimer (k : Nat)
  /-- `psync_cache_clean_all`, at one element. -/
  | clean (k : Nat)
  deriving DecidableEq, Repr

/-- The connection attempt fails. -/
def Event.fails : Event → Bool
  | .connected _ ok => !ok
  | _ => false

namespace Pool

variable (debug : Bool)

def step (p : Pool) : Event → Option Pool
  | .setServer binapi => some (p.setServer binapi)
  | .call caller => some { p with calls := .lookup caller :: p.calls }
  | .lookup i =>
    match p.calls[i]? with
    | some (.lookup caller) => some (p.runLookup i caller)
    | _ => none
  | .checked i broken =>
    match p.calls[i]? with
    | some (.check caller sock) =>
      if broken then some (p.retApi.setCall i (.lookup caller))
      else some { p.endCall i with held := sock :: p.held }
    | _ => none
  | .semWait i =>
    match p.calls[i]? with
    | some (.wait caller) =>
      if 0 < p.sem then some { p.setCall i (.connect caller) with sem := p.sem - 1 } else none
    | _ => none
  | .connected i ok =>
    match p.calls[i]? with
    | some (.connect caller) => some (p.runConnect i caller ok)
    | _ => none
  | .releasePrepared i readable =>
    match p.calls[i]? with
    | some (.prepared sock) => some ((p.endCall i).release debug readable sock)
    | _ => none
  | .release j readable =>
    match p.held[j]? with
    | some sock => some ({ p with held := p.held.eraseIdx j }.release debug readable sock)
    | none => none
  | .releaseBad j =>
    match p.held[j]? with
    | some _ => some { p with held := p.held.eraseIdx j }.releaseBad
    | none => none
  | .timerRuns k =>
    match p.cache[k]? with
    | some e => some { p with cache := p.cache.set k { e with running := true } }
    | none => none
  | .cacheTimer k =>
    match p.cache[k]? with
    | some e =>
      if e.running then some { p with cache := p.cache.eraseIdx k }.retApi else none
    | none => none
  | .clean k =>
    match p.cache[k]? with
    | some e =>
      if e.running then none else some { p with cache := p.cache.eraseIdx k }.retApi
    | none => none

/-- The steps of any threads, in the order in which they happen. -/
def run : List Event → Pool → Option Pool
  | [], p => some p
  | e :: es, p => (p.step debug e).bind (run es)

end Pool

/-! ## Sockets and permits -/

namespace Pool

/-- The live sockets: idle in the cache, held by callers, or in the hands of a call. -/
def socks (p : Pool) : List Socket :=
  p.cache.map Element.value ++ (p.held ++ p.calls.flatMap Call.socks)

/-- The connection attempts that run. -/
def connecting (p : Pool) : Nat := p.calls.countP Call.connecting

/-- The permits taken from the semaphore. -/
def taken (p : Pool) : Nat := PSYNC_APIPOOL_MAXACTIVE - p.sem

end Pool

/-- What a step does to sockets and permits. -/
inductive Change (p p' : Pool) : Prop where
  | moved (hsocks : p'.socks.Perm p.socks) (hsem : p'.sem = p.sem)
      (hconn : p'.connecting = p.connecting) (hcount : p'.connections = p.connections)
  | closed (sock : Socket) (hsocks : p.socks.Perm (sock :: p'.socks)) (hsem : p'.sem = p.sem + 1)
      (hconn : p'.connecting = p.connecting) (hcount : p'.connections = p.connections)
  | taken (hsocks : p'.socks.Perm p.socks) (hsem : p.sem = p'.sem + 1)
      (hconn : p'.connecting = p.connecting + 1) (hcount : p'.connections = p.connections)
  | opened (misc : UInt32) (hsocks : p'.socks.Perm (⟨p.connections, misc⟩ :: p.socks))
      (hsem : p'.sem = p.sem) (hconn : p.connecting = p'.connecting + 1)
      (hcount : p'.connections = p.connections + 1)

/-- A failed attempt ends and leaves its permit taken. -/
structure Failed (p p' : Pool) : Prop where
  socks : p'.socks.Perm p.socks
  sem : p'.sem = p.sem
  connecting : p.connecting = p'.connecting + 1
  connections : p'.connections = p.connections

section

variable {p p' : Pool} {i : Nat} {call : Call} {debug : Bool}

theorem perm_eraseIdx {α : Type} {l : List α} {x : α} (h : l[i]? = some x) :
    l.Perm (x :: l.eraseIdx i) := by
  obtain ⟨hi, rfl⟩ := List.getElem?_eq_some_iff.mp h
  exact (List.getElem_cons_eraseIdx_perm hi).symm

theorem perm_set {α : Type} {l : List α} {x : α} (h : l[i]? = some x) (y : α) :
    (l.set i y).Perm (y :: l.eraseIdx i) := by
  obtain ⟨hi, -⟩ := List.getElem?_eq_some_iff.mp h
  exact List.set_perm_cons_eraseIdx hi y

/-- How often a socket is in hand somewhere. -/
theorem count_socks (p : Pool) (x : Socket) :
    p.socks.count x = (p.cache.map Element.value).count x + p.held.count x +
      (p.calls.flatMap Call.socks).count x := by
  simp only [Pool.socks, List.count_append]
  omega

theorem count_calls (h : p.calls[i]? = some call) (x : Socket) :
    (p.calls.flatMap Call.socks).count x =
      call.socks.count x + ((p.calls.eraseIdx i).flatMap Call.socks).count x := by
  rw [((perm_eraseIdx h).flatMap_right Call.socks).count_eq, List.flatMap_cons, List.count_append]

theorem count_set (h : p.calls[i]? = some call) (call' : Call) (x : Socket) :
    ((p.calls.set i call').flatMap Call.socks).count x =
      call'.socks.count x + ((p.calls.eraseIdx i).flatMap Call.socks).count x := by
  rw [((perm_set h call').flatMap_right Call.socks).count_eq, List.flatMap_cons, List.count_append]

theorem connecting_eraseIdx (h : p.calls[i]? = some call) :
    p.calls.countP Call.connecting =
      (p.calls.eraseIdx i).countP Call.connecting + call.connecting.toNat := by
  rw [(perm_eraseIdx h).countP_eq, List.countP_cons]
  cases call.connecting <;> rfl

theorem connecting_set (h : p.calls[i]? = some call) (call' : Call) :
    (p.calls.set i call').countP Call.connecting =
      (p.calls.eraseIdx i).countP Call.connecting + call'.connecting.toNat := by
  rw [(perm_set h call').countP_eq, List.countP_cons]
  cases call'.connecting <;> rfl

/-- The pool without one of its sockets, which somebody is about to give up. -/
structure Without (p : Pool) (sock : Socket) (p₀ : Pool) : Prop where
  socks : p.socks.Perm (sock :: p₀.socks)
  sem : p₀.sem = p.sem
  connecting : p₀.connecting = p.connecting
  connections : p₀.connections = p.connections

theorem Without.retApi {sock : Socket} {p₀ : Pool} (h : Without p sock p₀) : Change p p₀.retApi :=
  .closed sock h.socks (by rw [← h.sem]; rfl) h.connecting h.connections

/-- A released socket goes to the cache or is closed. -/
theorem Without.release {sock : Socket} {p₀ : Pool} (h : Without p sock p₀) (readable : Bool) :
    Change p (p₀.release debug readable sock) := by
  unfold Pool.release
  split
  · exact h.retApi
  · split
    · unfold Pool.cacheAdd
      split
      · exact h.retApi
      · exact .moved h.socks.symm h.sem h.connecting h.connections
    · exact h.retApi

theorem without_call (h : p.calls[i]? = some call) {sock : Socket} (hs : call.socks = [sock])
    (hc : call.connecting = false) : Without p sock (p.endCall i) := by
  refine ⟨?_, rfl, ?_, rfl⟩
  · refine List.perm_iff_count.mpr fun x => ?_
    have hx := count_calls h x
    rw [hs, List.count_singleton] at hx
    rw [count_socks, List.count_cons, count_socks]
    simp only [Pool.endCall]
    omega
  · have := connecting_eraseIdx h
    simp only [Pool.connecting, Pool.endCall]
    rw [this, hc]
    rfl

theorem without_held {j : Nat} {sock : Socket} (h : p.held[j]? = some sock) :
    Without p sock { p with held := p.held.eraseIdx j } := by
  refine ⟨?_, rfl, rfl, rfl⟩
  refine List.perm_iff_count.mpr fun x => ?_
  have hx := (perm_eraseIdx h).count_eq x
  rw [List.count_cons] at hx
  rw [count_socks, List.count_cons, count_socks]
  dsimp only
  omega

theorem without_cache {k : Nat} {e : Element} (h : p.cache[k]? = some e) :
    Without p e.value { p with cache := p.cache.eraseIdx k } := by
  refine ⟨?_, rfl, rfl, rfl⟩
  refine List.perm_iff_count.mpr fun x => ?_
  have hx := ((perm_eraseIdx h).map Element.value).count_eq x
  rw [List.map_cons, List.count_cons] at hx
  rw [count_socks, List.count_cons, count_socks]
  dsimp only
  omega

/-- A call goes on and has the same sockets in hand. -/
theorem setCall_change (h : p.calls[i]? = some call) {call' : Call}
    (hs : call'.socks = call.socks) (hc : call'.connecting = call.connecting) :
    Change p (p.setCall i call') := by
  refine .moved ?_ rfl ?_ rfl
  · refine List.perm_iff_count.mpr fun x => ?_
    have hx := count_calls h x
    have hx' := count_set h call' x
    rw [count_socks, count_socks]
    simp only [Pool.setCall]
    rw [hx, hx', hs]
  · have h₁ := connecting_eraseIdx h
    have h₂ := connecting_set h call'
    simp only [Pool.connecting, Pool.setCall]
    rw [h₁, h₂, hc]

/-- A call without a socket or a permit returns. -/
theorem endCall_change (h : p.calls[i]? = some call) (hs : call.socks = [])
    (hc : call.connecting = false) : Change p (p.endCall i) := by
  refine .moved ?_ rfl ?_ rfl
  · refine List.perm_iff_count.mpr fun x => ?_
    have hx := count_calls h x
    rw [hs, List.count_nil] at hx
    rw [count_socks, count_socks]
    simp only [Pool.endCall]
    omega
  · have := connecting_eraseIdx h
    simp only [Pool.connecting, Pool.endCall]
    rw [this, hc]
    rfl

/-- `psync_cache_get` hands a socket to the call. -/
theorem cacheGet_change (h : p.calls[i]? = some call) (hs : call.socks = [])
    (hc : call.connecting = false) {sock : Socket} {p₁ : Pool}
    (hget : p.cacheGet = some (sock, p₁)) (caller : Caller) :
    Change p (p₁.setCall i (.check caller sock)) := by
  obtain ⟨e, hfind, heq⟩ := Option.map_eq_some_iff.mp hget
  obtain ⟨rfl, rfl⟩ := Prod.mk.inj heq
  have hmem := List.mem_of_find?_eq_some hfind
  refine .moved ?_ rfl ?_ rfl
  · refine List.perm_iff_count.mpr fun x => ?_
    have hx := count_calls h x
    have hx' := count_set h (.check caller e.value) x
    have hcache := ((List.perm_cons_erase hmem).map Element.value).count_eq x
    rw [List.map_cons, List.count_cons] at hcache
    rw [hs, List.count_nil] at hx
    rw [show (Call.check caller e.value).socks = [e.value] from rfl, List.count_singleton] at hx'
    rw [count_socks, count_socks]
    simp only [Pool.setCall]
    omega
  · have h₁ := connecting_eraseIdx h
    have h₂ := connecting_set h (.check caller e.value)
    simp only [Pool.connecting, Pool.setCall]
    rw [h₁, h₂, hc]
    rfl

theorem runLookup_change {caller : Caller} (h : p.calls[i]? = some (.lookup caller)) :
    Change p (p.runLookup i caller) := by
  cases caller with
  | prepare =>
    simp only [Pool.runLookup]
    split
    · exact endCall_change h rfl rfl
    · exact setCall_change h rfl rfl
  | get =>
    simp only [Pool.runLookup]
    split
    next hget => exact cacheGet_change h rfl rfl hget .get
    next => exact setCall_change h rfl rfl
  | getFromCache =>
    simp only [Pool.runLookup]
    split
    next hget => exact cacheGet_change h rfl rfl hget .getFromCache
    next => exact endCall_change h rfl rfl

/-- `api_sock_is_broken` says no: the call returns its socket. -/
theorem hand_change (h : p.calls[i]? = some call) {sock : Socket} (hs : call.socks = [sock])
    (hc : call.connecting = false) : Change p { p.endCall i with held := sock :: p.held } := by
  have hw := without_call h hs hc
  refine .moved ?_ rfl hw.connecting rfl
  refine List.perm_iff_count.mpr fun x => ?_
  have hx := hw.socks.count_eq x
  rw [List.count_cons, count_socks (p.endCall i)] at hx
  rw [hx, count_socks]
  simp only [Pool.endCall, List.count_cons]
  omega

/-- `api_sock_is_broken` says yes: the socket is closed and the call looks for another. -/
theorem broken_change {caller : Caller} {sock : Socket}
    (h : p.calls[i]? = some (.check caller sock)) :
    Change p (p.retApi.setCall i (.lookup caller)) := by
  refine .closed sock ?_ rfl ?_ rfl
  · refine List.perm_iff_count.mpr fun x => ?_
    have hx := count_calls h x
    have hx' := count_set h (.lookup caller) x
    rw [show (Call.check caller sock).socks = [sock] from rfl, List.count_singleton] at hx
    rw [show (Call.lookup caller).socks = [] from rfl, List.count_nil] at hx'
    rw [count_socks, List.count_cons, count_socks]
    simp only [Pool.setCall, Pool.retApi]
    omega
  · have h₁ := connecting_eraseIdx h
    have h₂ := connecting_set h (.lookup caller)
    simp only [Pool.connecting, Pool.setCall, Pool.retApi]
    rw [h₁, h₂]
    rfl

theorem semWait_change {caller : Caller} (h : p.calls[i]? = some (.wait caller))
    (hsem : 0 < p.sem) :
    Change p { p.setCall i (.connect caller) with sem := p.sem - 1 } := by
  refine .taken ?_ ?_ ?_ rfl
  · refine List.perm_iff_count.mpr fun x => ?_
    have hx := count_calls h x
    have hx' := count_set h (.connect caller) x
    rw [count_socks, count_socks]
    simp only [Pool.setCall]
    rw [hx, hx']
    rfl
  · dsimp only
    omega
  · have h₁ := connecting_eraseIdx h
    have h₂ := connecting_set h (.connect caller)
    simp only [Pool.connecting, Pool.setCall]
    rw [h₁, h₂]
    rfl

theorem connected_change {caller : Caller} (h : p.calls[i]? = some (.connect caller)) :
    Change p (p.runConnect i caller true) := by
  have hc := connecting_eraseIdx h
  have hprep := connecting_set h (.prepared ⟨p.connections, hashFunc p.server⟩)
  refine .opened (hashFunc p.server) ?_ ?_ ?_ ?_
  · refine List.perm_iff_count.mpr fun x => ?_
    have hx := count_calls h x
    have hx' := count_set h (.prepared ⟨p.connections, hashFunc p.server⟩) x
    rw [show (Call.connect caller).socks = [] from rfl, List.count_nil] at hx
    rw [show (Call.prepared ⟨p.connections, hashFunc p.server⟩).socks =
      [⟨p.connections, hashFunc p.server⟩] from rfl, List.count_singleton] at hx'
    rw [List.count_cons, count_socks, count_socks]
    cases caller with
    | prepare =>
      simp only [Pool.runConnect, if_true, Pool.setCall]
      omega
    | get =>
      simp only [Pool.runConnect, if_true, Pool.endCall, List.count_cons]
      omega
    | getFromCache =>
      simp only [Pool.runConnect, if_true, Pool.endCall, List.count_cons]
      omega
  · cases caller <;> rfl
  · simp only [Pool.connecting]
    rw [hc]
    cases caller with
    | prepare =>
      simp only [Pool.runConnect, if_true, Pool.setCall]
      rw [hprep]
      rfl
    | get => rfl
    | getFromCache => rfl
  · cases caller <;> rfl

theorem failed_of_connect {caller : Caller} (h : p.calls[i]? = some (.connect caller)) :
    Failed p (p.runConnect i caller false) := by
  refine ⟨?_, rfl, ?_, rfl⟩
  · refine List.perm_iff_count.mpr fun x => ?_
    have hx := count_calls h x
    rw [show (Call.connect caller).socks = [] from rfl, List.count_nil] at hx
    rw [count_socks, count_socks]
    simp only [Pool.runConnect, Bool.false_eq_true, if_false, Pool.endCall]
    omega
  · simp only [Pool.connecting]
    rw [connecting_eraseIdx h]
    rfl

theorem timerRuns_change {k : Nat} {e : Element} (h : p.cache[k]? = some e) :
    Change p { p with cache := p.cache.set k { e with running := true } } := by
  refine .moved ?_ rfl rfl rfl
  refine List.perm_iff_count.mpr fun x => ?_
  have hx := ((perm_eraseIdx h).map Element.value).count_eq x
  have hx' := ((perm_set h { e with running := true }).map Element.value).count_eq x
  rw [List.map_cons] at hx hx'
  rw [count_socks, count_socks]
  dsimp only
  rw [hx, hx']

/-- Every step but a failed connection attempt moves, opens or closes one socket with its
permit. -/
theorem step_change {e : Event} (h : p.step debug e = some p') :
    if e.fails then Failed p p' else Change p p' := by
  cases e with
  | setServer binapi =>
    obtain rfl := Option.some.inj h
    simp only [Event.fails, Bool.false_eq_true, if_false]
    unfold Pool.setServer
    split
    · exact .moved (.refl _) rfl rfl rfl
    · exact .moved (.refl _) rfl rfl rfl
  | call caller =>
    obtain rfl := Option.some.inj h
    exact .moved (.refl _) rfl (by simp [Pool.connecting, Call.connecting]) rfl
  | lookup i =>
    simp only [Pool.step] at h
    split at h
    next hcall =>
      obtain rfl := Option.some.inj h
      exact runLookup_change hcall
    next => cases h
  | checked i broken =>
    simp only [Pool.step] at h
    split at h
    next hcall =>
      split at h
      · obtain rfl := Option.some.inj h
        exact broken_change hcall
      · obtain rfl := Option.some.inj h
        exact hand_change hcall rfl rfl
    next => cases h
  | semWait i =>
    simp only [Pool.step] at h
    split at h
    next hcall =>
      split at h
      next hsem =>
        obtain rfl := Option.some.inj h
        exact semWait_change hcall hsem
      next => cases h
    next => cases h
  | connected i ok =>
    simp only [Pool.step] at h
    split at h
    next hcall =>
      obtain rfl := Option.some.inj h
      cases ok with
      | true => exact connected_change hcall
      | false => exact failed_of_connect hcall
    next => cases h
  | releasePrepared i readable =>
    simp only [Pool.step] at h
    split at h
    next hcall =>
      obtain rfl := Option.some.inj h
      exact (without_call hcall rfl rfl).release readable
    next => cases h
  | release j readable =>
    simp only [Pool.step] at h
    split at h
    next hheld =>
      obtain rfl := Option.some.inj h
      exact (without_held hheld).release readable
    next => cases h
  | releaseBad j =>
    simp only [Pool.step] at h
    split at h
    next hheld =>
      obtain rfl := Option.some.inj h
      exact (without_held hheld).retApi
    next => cases h
  | timerRuns k =>
    simp only [Pool.step] at h
    split at h
    next hk =>
      obtain rfl := Option.some.inj h
      exact timerRuns_change hk
    next => cases h
  | cacheTimer k =>
    simp only [Pool.step] at h
    split at h
    next hk =>
      split at h
      · obtain rfl := Option.some.inj h
        exact (without_cache hk).retApi
      · cases h
    next => cases h
  | clean k =>
    simp only [Pool.step] at h
    split at h
    next hk =>
      split at h
      · cases h
      · obtain rfl := Option.some.inj h
        exact (without_cache hk).retApi
    next => cases h

/-! ## Runs -/

/-- The books of the pool after `failed` attempts that failed. -/
structure Books (failed : Nat) (p : Pool) : Prop where
  permits : p.sem + p.socks.length + p.connecting + failed = PSYNC_APIPOOL_MAXACTIVE
  distinct : (p.socks.map Socket.id).Nodup
  numbered : ∀ sock ∈ p.socks, sock.id < p.connections

theorem books_init (server : List UInt8) : Books 0 (Pool.init server) :=
  ⟨rfl, List.nodup_nil, fun _ h => nomatch h⟩

theorem Books.change {failed : Nat} (h : Books failed p) (hc : Change p p') : Books failed p' := by
  obtain ⟨hpermits, hdistinct, hnumbered⟩ := h
  cases hc with
  | moved hsocks hsem hconn hcount =>
    refine ⟨by rw [hsem, hconn, hsocks.length_eq]; exact hpermits,
      (hsocks.map _).nodup_iff.mpr hdistinct, ?_⟩
    intro s hs
    rw [hcount]
    exact hnumbered s (hsocks.mem_iff.mp hs)
  | closed sock hsocks hsem hconn hcount =>
    have hlen := hsocks.length_eq
    rw [List.length_cons] at hlen
    refine ⟨by omega, (List.nodup_cons.mp ((hsocks.map _).nodup_iff.mp hdistinct)).2, ?_⟩
    intro s hs
    rw [hcount]
    exact hnumbered s (hsocks.mem_iff.mpr (List.mem_cons_of_mem _ hs))
  | taken hsocks hsem hconn hcount =>
    have hlen := hsocks.length_eq
    refine ⟨by omega, (hsocks.map _).nodup_iff.mpr hdistinct, ?_⟩
    intro s hs
    rw [hcount]
    exact hnumbered s (hsocks.mem_iff.mp hs)
  | opened misc hsocks hsem hconn hcount =>
    have hlen := hsocks.length_eq
    rw [List.length_cons] at hlen
    refine ⟨by omega, (hsocks.map _).nodup_iff.mpr (List.nodup_cons.mpr ⟨?_, hdistinct⟩), ?_⟩
    · intro hmem
      obtain ⟨s, hs, hid⟩ := List.mem_map.mp hmem
      exact absurd (hnumbered s hs) (by rw [hid]; exact Nat.lt_irrefl _)
    · intro s hs
      rw [hcount]
      rcases List.mem_cons.mp (hsocks.mem_iff.mp hs) with rfl | hs
      · exact Nat.lt_succ_self _
      · exact Nat.lt_succ_of_lt (hnumbered s hs)

theorem Books.failed {failed : Nat} (h : Books failed p) (hf : Failed p p') :
    Books (failed + 1) p' := by
  obtain ⟨hpermits, hdistinct, hnumbered⟩ := h
  have hlen := hf.socks.length_eq
  have hsem := hf.sem
  have hconn := hf.connecting
  refine ⟨by omega, (hf.socks.map _).nodup_iff.mpr hdistinct, ?_⟩
  intro s hs
  rw [hf.connections]
  exact hnumbered s (hf.socks.mem_iff.mp hs)

theorem Books.run {failed : Nat} (h : Books failed p) {events : List Event}
    (hrun : Pool.run debug events p = some p') :
    Books (failed + events.countP Event.fails) p' := by
  induction events generalizing p failed with
  | nil =>
    obtain rfl := Option.some.inj hrun
    exact h
  | cons e events ih =>
    obtain ⟨p₁, hstep, hrest⟩ := Option.bind_eq_some_iff.mp hrun
    have hchange := step_change hstep
    rw [List.countP_cons]
    by_cases hf : e.fails = true
    · rw [if_pos hf] at hchange
      have := ih (h.failed hchange) hrest
      rw [if_pos hf]
      rwa [show failed + 1 + events.countP Event.fails =
        failed + (events.countP Event.fails + 1) by omega] at this
    · rw [if_neg hf] at hchange
      have := ih (h.change hchange) hrest
      rwa [if_neg hf, Nat.add_zero]

end

/-- The permits taken are those of the live sockets, each counted once, and of the connection
attempts that run. -/
structure Balanced (p : Pool) : Prop where
  distinct : (p.socks.map Socket.id).Nodup
  permits : p.taken = p.socks.length + p.connecting

/-- In any run, the permits taken match the live sockets exactly when no connection attempt of
the run failed: each one that fails keeps its permit for good. -/
theorem permits_balanced_iff (debug : Bool) (server : List UInt8) (events : List Event) (p : Pool)
    (hrun : Pool.run debug events (Pool.init server) = some p) :
    Balanced p ↔ ∀ e ∈ events, e.fails = false := by
  obtain ⟨hpermits, hdistinct, -⟩ := (books_init server).run hrun
  have hcount : events.countP Event.fails = 0 ↔ ∀ e ∈ events, e.fails = false := by
    rw [List.countP_eq_zero]
    simp
  rw [← hcount]
  constructor
  · rintro ⟨-, htaken⟩
    unfold Pool.taken at htaken
    omega
  · intro hzero
    refine ⟨hdistinct, ?_⟩
    unfold Pool.taken
    omega

/-- Two connections: one goes back to the cache and expires, one is released as bad. -/
theorem permits_balanced_two : ∃ p, Pool.run false [.call .get, .lookup 0, .semWait 0,
      .connected 0 true, .call .get, .lookup 0, .semWait 0, .connected 0 true, .release 0 false,
      .timerRuns 0, .cacheTimer 0, .releaseBad 0] (Pool.init [97, 112, 105]) = some p ∧
    Balanced p := by
  refine ⟨_, rfl, ?_⟩
  refine (permits_balanced_iff false [97, 112, 105] [.call .get, .lookup 0, .semWait 0,
    .connected 0 true, .call .get, .lookup 0, .semWait 0, .connected 0 true, .release 0 false,
    .timerRuns 0, .cacheTimer 0, .releaseBad 0] _ rfl).mpr ?_
  decide

/-- One failed attempt, and a permit is gone with no socket alive. -/
theorem failed_connect_keeps_permit : ¬∀ (debug : Bool) (server : List UInt8)
    (events : List Event) (p : Pool), Pool.run debug events (Pool.init server) = some p →
    Balanced p := by
  intro h
  have := (h false [97, 112, 105]
    [.call .get, .lookup 0, .semWait 0, .connected 0 false] _ rfl).permits
  exact absurd this (by decide)

end PcloudClient.Pnetlibs
