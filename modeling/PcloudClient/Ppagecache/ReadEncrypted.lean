/-
  Ppagecache/ReadEncrypted.lean --- reading from an encrypted file that is not modified.

  The pages of the data sectors and of the auth sectors above them are looked for in the cache, and
  for those that are not there a waiter is registered, all under `wait_page_mutex`.  Then the
  sectors are taken one by one: what is missing is waited for, the auth sectors up to the master
  are checked once for each auth sector of the lowest level, and the data is decoded.  The bytes
  are left out: that two checksums match and that a sector decodes is left open.
-/
import PcloudClient.FsCrypto.Offsets
import PcloudClient.Ppagecache.ToCache

set_option autoImplicit false

namespace PcloudClient.Ppagecache

open PcloudClient.Pfs (PSYNC_FS_PAGE_SIZE)
open PcloudClient.FsCrypto (Offsets AuthSectorOff getAuthSectorOff offsetsByPlainsize
  hashTreeSectors dataSectoridBySectorid)

/-! ## Asking for pages -/

/-- Where a page goes that somebody waits for: from a position on into an auth sector, which is
known by its place among those of the lowest level and its level, or to a data sector. -/
inductive Buff where
  | auth (group level pos : Nat)
  | data (i : Nat)
  deriving DecidableEq, Repr

/-- `psync_page_waiter_t` -/
structure Waiter where
  pageid : Nat
  buff : Buff
  off : Nat
  size : Nat
  deriving DecidableEq, Repr

/-- `psync_crypto_auth_page`; `slot` is the `idinparent` of the sector below it, and `waiter` is a
number on the list `waiting`. -/
structure AuthPage where
  offset : Nat
  size : Nat
  slot : Nat
  waiter : Option Nat
  deriving DecidableEq, Repr

/-- An auth sector of the lowest level and its `parent`, the parent of that and so on. -/
structure Group where
  firstpageid : Nat
  auth : AuthPage
  chain : List AuthPage
  deriving DecidableEq, Repr

/-- `psync_crypto_data_page` -/
structure DataPage where
  authpage : Nat
  waiter : Option Nat
  pagesize : Nat
  deriving DecidableEq, Repr

/-- The list `waiting`, and how many pages have been looked for. -/
structure Asked where
  waiting : List Waiter
  lookups : Nat
  deriving DecidableEq, Repr

/-- What the lookups find: the size of the page in the cache, if it is there. -/
abbrev Lookups := Nat → Option Nat

/-- A page is looked for in the cache, or a waiter is registered.  `none` where the page in the
cache is too short. -/
def Asked.ask (found : Lookups) (b : Asked) (w : Waiter) : Asked × Option (Option Nat) :=
  match found b.lookups with
  | none => (⟨b.waiting ++ [w], b.lookups + 1⟩, some (some b.waiting.length))
  | some stored =>
    (⟨b.waiting, b.lookups + 1⟩,
      if Store.cutSize stored w.size w.off = w.size then some none else none)

/-- `request_auth_page`: the `waiter` of the sector. -/
def Asked.requestAuthPage (found : Lookups) (b : Asked) (group level : Nat) (s : AuthSectorOff) :
    Asked × Option (Option Nat) :=
  let apageid := s.offset / PSYNC_FS_PAGE_SIZE
  if s.offset % PSYNC_FS_PAGE_SIZE = 0 then
    b.ask found ⟨apageid, .auth group level 0, 0, s.size⟩
  else
    let apoff := s.offset - apageid * PSYNC_FS_PAGE_SIZE
    let apsize := if s.size < PSYNC_FS_PAGE_SIZE - apoff then s.size else PSYNC_FS_PAGE_SIZE - apoff
    match b.ask found ⟨apageid, .auth group level 0, apoff, apsize⟩ with
    | (b, none) => (b, none)
    | (b, some waiter) =>
      if apsize < s.size then
        match b.ask found ⟨apageid + 1, .auth group level apsize, 0, s.size - apsize⟩ with
        | (b, none) => (b, none)
        -- the waiter of the first page is written over
        | (b, some (some waiter)) => (b, some (some waiter))
        | (b, some none) => (b, some waiter)
      else (b, some waiter)

/-- One auth sector with its waiter; `none` is a failed assertion, `some none` goes to `err0`. -/
def Asked.authPage (found : Lookups) (b : Asked) (offsets : Offsets) (pageid group level : Nat) :
    Option (Asked × Option AuthPage) :=
  (getAuthSectorOff pageid level offsets).map fun s =>
    let r := b.requestAuthPage found group level s
    (r.1, r.2.map fun waiter => ⟨s.offset, s.size, s.authid, waiter⟩)

/-- The loop over the levels above the lowest, from `level` on. -/
def Asked.chain (found : Lookups) (offsets : Offsets) (pageid group : Nat) :
    Nat → Nat → Asked → Option (Asked × Option (List AuthPage))
  | 0, _, b => some (b, some [])
  | n + 1, level, b => do
    match ← b.authPage found offsets pageid group level with
    | (b, none) => return (b, none)
    | (b, some cap) =>
      let r ← chain found offsets pageid group n (level + 1) b
      return (r.1, r.2.map (cap :: ·))

/-- The arguments of `psync_pagecache_read_unmodified_encrypted_locked`, and what it reads of the
file; `offset` is inside the file and `size` is cut to its end. -/
structure Request where
  initialsize : Nat
  offset : Nat
  size : Nat
  /-- Up to where the file is known to be good, from `offset` on. -/
  authupto : Nat
  needkey : Bool
  deriving DecidableEq, Repr

namespace Request

variable (q : Request)

def pageoff : Nat := q.offset - offsetRoundDownToPage q.offset

def pagecnt : Nat := sizeRoundUpToPage (q.size + q.pageoff) / PSYNC_FS_PAGE_SIZE

def firstPageId : Nat := offsetRoundDownToPage q.offset / PSYNC_FS_PAGE_SIZE

def offsets : Offsets := offsetsByPlainsize q.initialsize

/-- The sectors above the lowest are to be checked, too. -/
def needsChain (i : Nat) : Bool :=
  q.authupto < (q.firstPageId + i + 1) * PSYNC_FS_PAGE_SIZE ∧ q.offsets.needmasterauth = true

/-- The auth sector of the page `i` is that of the page before it. -/
def sameAuth (i : Nat) : Bool :=
  i ≠ 0 ∧ (q.firstPageId + i) / hashTreeSectors = (q.firstPageId + i - 1) / hashTreeSectors

/-- The auth sectors for a page that is the first of its auth sector. -/
def group (found : Lookups) (b : Asked) (i g : Nat) : Option (Asked × Option Group) := do
  match ← b.authPage found q.offsets (q.firstPageId + i) g 0 with
  | (b, none) => return (b, none)
  | (b, some ap) =>
    let r ← b.chain found q.offsets (q.firstPageId + i) g
      (if q.needsChain i then q.offsets.treelevels else 0) 1
    return (r.1, r.2.map fun chain =>
      ⟨(q.firstPageId + i) / hashTreeSectors * hashTreeSectors, ap, chain⟩)

/-- The first loop, from the page `i` on: the auth sectors, and for each page which one is its. -/
def authLoop (found : Lookups) :
    Nat → Nat → Asked → List Group → List Nat → Option (Asked × Option (List Group × List Nat))
  | 0, _, b, groups, owners => some (b, some (groups, owners))
  | n + 1, i, b, groups, owners =>
    if q.sameAuth i then authLoop found n (i + 1) b groups (owners ++ [groups.length - 1])
    else do
      match ← q.group found b i groups.length with
      | (b, none) => return (b, none)
      | (b, some g) => authLoop found n (i + 1) b (groups ++ [g]) (owners ++ [groups.length])

/-- `apsize` of a data sector. -/
def pagesize (i : Nat) : Nat :=
  if q.initialsize < (q.firstPageId + i) * PSYNC_FS_PAGE_SIZE + PSYNC_FS_PAGE_SIZE then
    q.initialsize - (q.firstPageId + i) * PSYNC_FS_PAGE_SIZE
  else PSYNC_FS_PAGE_SIZE

/-- The second loop, from the page `i` on. -/
def dataLoop (found : Lookups) :
    List Nat → Nat → Asked → List DataPage → Asked × Option (List DataPage)
  | [], _, b, datas => (b, some datas)
  | owner :: owners, i, b, datas =>
    match b.ask found ⟨dataSectoridBySectorid (q.firstPageId + i), .data i, 0, q.pagesize i⟩ with
    | (b, none) => (b, none)
    | (b, some waiter) =>
      dataLoop found owners (i + 1) b (datas ++ [⟨owner, waiter, q.pagesize i⟩])

end Request

/-- What is known when `wait_page_mutex` is released; `failed` where the way goes to `err0`. -/
structure Plan where
  waiting : List Waiter
  groups : List Group
  datas : List DataPage
  failed : Bool
  deriving DecidableEq, Repr

/-- `psync_pagecache_read_unmodified_encrypted_locked` up to the release of `wait_page_mutex`; a
failed assertion is `none`. -/
def Request.prepare (q : Request) (found : Lookups) : Option Plan := do
  match ← q.authLoop found q.pagecnt 0 ⟨[], 0⟩ [] [] with
  | (b, none) => return ⟨b.waiting, [], [], true⟩
  | (b, some (groups, owners)) =>
    match q.dataLoop found owners 0 b [] with
    | (b, none) => return ⟨b.waiting, groups, [], true⟩
    | (b, some datas) => return ⟨b.waiting, groups, datas, false⟩

/-! ## Waiting, checking and decoding -/

/-- Where the thread is, for the data sector `i`. -/
inductive Place where
  /-- At `err0`. -/
  | err0
  /-- Waiting for the key. -/
  | key
  /-- Before it waits for the auth sector. -/
  | auth (i : Nat)
  /-- Before it waits for the `l`-th sector of the chain; the sector below it is signed. -/
  | chain (i l : Nat)
  | compare (i l : Nat)
  | data (i : Nat)
  | decode (i : Nat)
  /-- Before the waiters are freed. -/
  | ret0
  | out
  deriving DecidableEq, Repr

/-- The state of a read; `ready` has the `error` of the waiters that are ready. -/
structure Reading where
  place : Place
  ready : Nat → Option Int
  ret : Int
  /-- The auth sectors whose `parent` is set to `NULL`. -/
  cleared : List Nat
  /-- The pairs of sectors whose checksums matched, by the place of the upper one. -/
  matched : List (Nat × Nat)
  decoded : List Nat
  /-- `free_waiters` took the waiters off the lists of the pages. -/
  detached : Bool
  /-- How often a waiter has been freed. -/
  freed : Nat → Nat

/-- `EIO` -/
def eio : Int := 5

namespace Reading

variable (st : Reading)

/-- `if (!ret && error) ret=error` -/
def join (ret error : Int) : Int := if ret = 0 then error else ret

/-- `wait_waiter` comes back: there is nothing to wait for, or the waiter is ready. -/
def waited (waiter : Option Nat) : Option Int :=
  match waiter with
  | none => some 0
  | some k => st.ready k

end Reading

inductive ReadEvent where
  /-- A page arrives, or reading it fails. -/
  | arrive (pageid : Nat) (error : Int)
  | freeWaiters
  | key (ok : Bool)
  | auth
  | chain
  | compare (ok : Bool)
  | data
  | decode (ok : Bool)
  | free
  deriving DecidableEq, Repr

namespace Plan

variable (p : Plan)

/-- The state when `wait_page_mutex` is released. -/
def start (needkey : Bool) : Reading :=
  { place := if p.failed then .err0 else if needkey then .key
      else if p.datas = [] then .ret0 else .auth 0
    ready := fun _ => none
    ret := 0
    cleared := []
    matched := []
    decoded := []
    detached := false
    freed := fun _ => 0 }

/-- `psync_pagecache_send_page_wait_page` or `psync_pagecache_send_error_page_wait` for the page. -/
def arrive (ready : Nat → Option Int) (pageid : Nat) (error : Int) : Nat → Option Int := fun k =>
  if ready k = none ∧ (p.waiting[k]?).any fun w => w.pageid = pageid then some error else ready k

/-- Each element of `waiting` is freed; the list itself stays as it is. -/
def release (freed : Nat → Nat) : Nat → Nat := fun k =>
  if k < p.waiting.length then freed k + 1 else freed k

/-- Behind the checks of a page the loop goes on with the next one. -/
def next (i : Nat) : Place := if i + 1 < p.datas.length then .auth (i + 1) else .ret0

/-- One step: of a thread that has read pages, or of the reading thread. -/
inductive Step : Reading → ReadEvent → Reading → Prop
  | arrive {st : Reading} {pageid : Nat} {error : Int} (h : st.detached = false) :
      Step st (.arrive pageid error) { st with ready := p.arrive st.ready pageid error }
  | freeWaiters {st : Reading} (h : st.place = .err0) :
      Step st .freeWaiters
        { st with
          place := .ret0
          detached := true
          ret := -eio
          freed := p.release st.freed }
  | key {st : Reading} {ok : Bool} (h : st.place = .key) :
      Step st (.key ok)
        { st with
          place := if p.datas = [] then .ret0 else .auth 0
          ret := if ok then 0 else -eio }
  | authChain {st : Reading} {i : Nat} {d : DataPage} {g : Group} {error : Int}
      (h : st.place = .auth i) (hd : p.datas[i]? = some d) (hg : p.groups[d.authpage]? = some g)
      (hw : st.waited g.auth.waiter = some error) (hchain : g.chain ≠ [])
      (hnew : d.authpage ∉ st.cleared) (hret : Reading.join st.ret error = 0) :
      Step st .auth
        { st with
          place := .chain i 0
          ret := Reading.join st.ret error
          cleared := d.authpage :: st.cleared }
  | auth {st : Reading} {i : Nat} {d : DataPage} {g : Group} {error : Int}
      (h : st.place = .auth i) (hd : p.datas[i]? = some d) (hg : p.groups[d.authpage]? = some g)
      (hw : st.waited g.auth.waiter = some error)
      (hskip : g.chain = [] ∨ d.authpage ∈ st.cleared ∨ Reading.join st.ret error ≠ 0) :
      Step st .auth { st with place := .data i, ret := Reading.join st.ret error }
  | chain {st : Reading} {i l : Nat} {d : DataPage} {g : Group} {cap : AuthPage} {error : Int}
      (h : st.place = .chain i l) (hd : p.datas[i]? = some d)
      (hg : p.groups[d.authpage]? = some g) (hcap : g.chain[l]? = some cap)
      (hw : st.waited cap.waiter = some error) :
      Step st .chain { st with place := .compare i l, ret := Reading.join st.ret error }
  | compare {st : Reading} {i l : Nat} {d : DataPage} {g : Group} {ok : Bool}
      (h : st.place = .compare i l) (hd : p.datas[i]? = some d)
      (hg : p.groups[d.authpage]? = some g) :
      Step st (.compare ok)
        { st with
          place := if l + 1 < g.chain.length then .chain i (l + 1) else .data i
          ret := if st.ret = 0 ∧ ok = false then -eio else st.ret
          matched := if st.ret = 0 ∧ ok = true then (d.authpage, l) :: st.matched else st.matched }
  | data {st : Reading} {i : Nat} {d : DataPage} {error : Int} (h : st.place = .data i)
      (hd : p.datas[i]? = some d) (hw : st.waited d.waiter = some error) :
      Step st .data { st with place := .decode i, ret := Reading.join st.ret error }
  | decode {st : Reading} {i : Nat} {ok : Bool} (h : st.place = .decode i) :
      Step st (.decode ok)
        { st with
          place := p.next i
          ret := if st.ret = 0 ∧ ok = false then -eio else st.ret
          decoded := if st.ret = 0 ∧ ok = true then i :: st.decoded else st.decoded }
  | free {st : Reading} (h : st.place = .ret0) :
      -- the elements of `waiting` are freed also where `free_waiters` has freed them
      Step st .free { st with place := .out, freed := p.release st.freed }

end Plan

end PcloudClient.Ppagecache
