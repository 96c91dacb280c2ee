/-
  Ppagecache/UrlCache.lean --- the URLs of files that requests share, of ppagecache.c.

  A critical section of `url_cache_mutex` is one step of a reading thread, from the call or the
  return of `pthread_cond_wait` to the next wait or the unlock.  A wait may return at any time.
  What a thread does with URLs between two of these steps is the outcome of a step.
-/
import Mathlib.Data.BitVec
import Mathlib.Logic.Function.Basic
import Mathlib.Logic.Relation
import PcloudClient.Ptree.Keyed

set_option autoImplicit false

namespace PcloudClient.Ppagecache.UrlCache

abbrev Hash := BitVec 64

/-- A `psync_urls_t` on the tree: its address and its `hash`. -/
structure Node where
  urls : Nat
  hash : Hash
  deriving DecidableEq, Repr

/-- The values 0, 1 and 2 of `status`. -/
inductive Status where
  | loading
  | ready
  | bad
  deriving DecidableEq, Repr

/-- The other fields of `psync_urls_t`. -/
structure Urls where
  refcnt : Nat
  status : Status
  deriving DecidableEq, Repr

/-- Where a thread is. -/
inductive Place where
  /-- Before `psync_pagecache_read_unmodified_thread`. -/
  | outside
  /-- At `retry`. -/
  | retry
  /-- In `pthread_cond_wait` of `get_urls_for_request`. -/
  | waits (u : Nat)
  /-- In `get_urls_for_request`, with a new entry. -/
  | fetches (u : Nat)
  /-- After `get_urls_for_request` returned an entry. -/
  | uses (u : Nat)
  | ended
  deriving DecidableEq, Repr

/-- A reading thread with what it reads of its request.  `gets` and `releases` are not in the
source: how often it was given an entry and how often it released one. -/
structure Thread where
  hash : Hash
  needkey : Bool
  tries : Nat
  place : Place
  gets : Nat
  releases : Nat
  deriving DecidableEq, Repr

/-- The tree, the entries by address and the threads.  `freed` is not in the source: how often an
entry was freed. -/
structure State where
  tree : Ptree.Tree Node
  entries : Nat → Urls
  /-- The address of the next entry. -/
  next : Nat
  freed : Nat → Nat
  threads : Nat → Thread

/-- `d` of `get_urls_for_request` -/
def diff (hash : Hash) (n : Node) : Int := (hash - n.hash).toInt

/-- `psync_tree_del` -/
def delNode (t : Ptree.Tree Node) (u : Nat) : Ptree.Tree Node :=
  match t.toList.findIdx? fun n => n.urls = u with
  | some i => t.delAt i
  | none => t

namespace State

/-- No thread has started. -/
def init : State where
  tree := .nil
  entries _ := ⟨0, .bad⟩
  next := 0
  freed _ := 0
  threads _ := ⟨0, false, 0, .outside, 0, 0⟩

def setEntry (s : State) (u : Nat) (e : Urls) : State :=
  { s with entries := Function.update s.entries u e }

def setThread (s : State) (i : Nat) (t : Thread) : State :=
  { s with threads := Function.update s.threads i t }

def goes (s : State) (i : Nat) (p : Place) : State :=
  s.setThread i { s.threads i with place := p }

/-- `get_urls_for_request` returns an entry. -/
def gives (s : State) (i u : Nat) : State :=
  s.setThread i { s.threads i with place := .uses u, gets := (s.threads i).gets + 1 }

/-- The thread goes on after a release. -/
def released (s : State) (i : Nat) (p : Place) : State :=
  s.setThread i { s.threads i with place := p, releases := (s.threads i).releases + 1 }

def free (s : State) (u : Nat) : State :=
  { s with freed := Function.update s.freed u (s.freed u + 1) }

/-- `urls->refcnt++` -/
def ref (s : State) (u : Nat) : State :=
  s.setEntry u { s.entries u with refcnt := (s.entries u).refcnt + 1 }

/-- `if (--urls->refcnt==0)` free it -/
def unref (s : State) (u : Nat) : State :=
  let s := s.setEntry u { s.entries u with refcnt := (s.entries u).refcnt - 1 }
  if (s.entries u).refcnt = 0 then s.free u else s

/-! ## The functions -/

/-- `set_urls` -/
def setUrls (s : State) (u : Nat) (res : Bool) : State :=
  if res then s.setEntry u ⟨(s.entries u).refcnt + 1, .ready⟩
  else
    let s := { s with tree := delNode s.tree u }
    if (s.entries u).refcnt ≠ 0 then s.setEntry u { s.entries u with status := .bad }
    else s.free u

/-- The loop of `get_urls_for_request` that waits, and what follows it. -/
def awaitUrls (s : State) (i u : Nat) : State :=
  match (s.entries u).status with
  | .loading => s.goes i (.waits u)
  | .ready => s.gives i u
  | .bad => (s.unref u).goes i .ended

/-- A new entry, with the thread that fetches it. -/
def newUrls (s : State) (i : Nat) : State :=
  let hash := (s.threads i).hash
  State.goes
    { s.setEntry s.next ⟨0, .loading⟩ with
      tree := s.tree.addAt ⟨s.next, hash⟩ (s.tree.place (diff hash) false)
      next := s.next + 1 } i (.fetches s.next)

/-- `get_urls_for_request` up to its first wait or the first unlock. -/
def getUrlsForRequest (s : State) (i : Nat) : State :=
  match s.tree.searchPos (diff (s.threads i).hash) with
  | some k =>
    match s.tree.toList[k]? with
    | some n => (s.ref n.urls).awaitUrls i n.urls
    | none => s
  | none => s.newUrls i

/-- The end of `get_urls_for_request` for a new entry: the cache or `get_urls` had URLs or not, and
a key with them. -/
def fetched (s : State) (i u : Nat) (res key : Bool) : State :=
  if res then
    let s := s.setThread i { s.threads i with needkey := (s.threads i).needkey && ! key }
    (s.setUrls u true).gives i u
  else (s.setUrls u false).goes i .ended

/-- `release_urls` -/
def releaseUrls (s : State) (u : Nat) : State :=
  let s := if (s.entries u).refcnt = 1 ∧ (s.entries u).status = .ready then
      { s with tree := delNode s.tree u }
    else s
  s.unref u

/-- `release_bad_urls` -/
def releaseBadUrls (s : State) (u : Nat) : State :=
  let s := if (s.entries u).status = .ready then
      { s.setEntry u { s.entries u with status := .bad } with tree := delNode s.tree u }
    else s
  s.unref u

/-- `tries++<5` -/
def mayRetry (s : State) (i : Nat) : Bool := (s.threads i).tries < 5

/-- `tries++` and `goto retry` -/
def retries (s : State) (i : Nat) : State :=
  s.setThread i { s.threads i with tries := (s.threads i).tries + 1, place := .retry }

end State

/-! ## Steps -/

/-- What a thread does next. -/
inductive Act where
  | start (i : Nat) (hash : Hash) (needkey : Bool)
  /-- The status is `PSTATUS_ONLINE_OFFLINE`. -/
  | offline (i : Nat)
  | get (i : Nat)
  | wake (i : Nat)
  | fetched (i : Nat) (res key : Bool)
  | keyFails (i : Nat)
  | keyLoaded (i : Nat)
  /-- The request was served, or failed for good. -/
  | finish (i : Nat)
  /-- `psync_http_request` failed. -/
  | requestFails (i : Nat)
  /-- `psync_pagecache_read_range_from_sock` returned 1. -/
  | readBad (i : Nat)

/-- One step, where the thread is. -/
inductive Step (s : State) : Act → State → Prop where
  | start {i : Nat} (hash : Hash) (needkey : Bool) (at_ : (s.threads i).place = .outside) :
      Step s (.start i hash needkey) (s.setThread i ⟨hash, needkey, 0, .retry, 0, 0⟩)
  | offline {i : Nat} (at_ : (s.threads i).place = .outside) : Step s (.offline i) (s.goes i .ended)
  | get {i : Nat} (at_ : (s.threads i).place = .retry) : Step s (.get i) (s.getUrlsForRequest i)
  | wake {i u : Nat} (at_ : (s.threads i).place = .waits u) : Step s (.wake i) (s.awaitUrls i u)
  | fetched {i u : Nat} (res key : Bool) (at_ : (s.threads i).place = .fetches u) :
      Step s (.fetched i res key) (s.fetched i u res key)
  | keyFails {i u : Nat} (at_ : (s.threads i).place = .uses u) (key : (s.threads i).needkey) :
      Step s (.keyFails i) (s.goes i .ended)
  | keyLoaded {i u : Nat} (at_ : (s.threads i).place = .uses u) (key : (s.threads i).needkey) :
      Step s (.keyLoaded i) (s.setThread i { s.threads i with needkey := false })
  | finish {i u : Nat} (at_ : (s.threads i).place = .uses u) (key : ¬ (s.threads i).needkey) :
      Step s (.finish i) ((s.releaseUrls u).released i .ended)
  | requestAgain {i u : Nat} (at_ : (s.threads i).place = .uses u) (key : ¬ (s.threads i).needkey)
      (again : s.mayRetry i = true) : Step s (.requestFails i) (s.retries i)
  | requestFails {i u : Nat} (at_ : (s.threads i).place = .uses u) (key : ¬ (s.threads i).needkey)
      (last : s.mayRetry i = false) :
      Step s (.requestFails i) ((s.releaseUrls u).released i .ended)
  | readAgain {i u : Nat} (at_ : (s.threads i).place = .uses u) (key : ¬ (s.threads i).needkey)
      (again : s.mayRetry i = true) :
      Step s (.readBad i) (((s.releaseBadUrls u).released i .retry).retries i)
  | readFails {i u : Nat} (at_ : (s.threads i).place = .uses u) (key : ¬ (s.threads i).needkey)
      (last : s.mayRetry i = false) :
      Step s (.readBad i) ((s.releaseUrls u).released i .ended)

end PcloudClient.Ppagecache.UrlCache
