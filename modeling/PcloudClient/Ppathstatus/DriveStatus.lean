/-
  Ppathstatus/DriveStatus.lean --- `psync_path_status_drive`, the status of a path of the drive.

  The loop over the bytes of the path is a recursion on its components.  The tables, the tasks and
  the folders marked to have tasks do not change during the call; a pass is one run from `restart`.
-/
import PcloudClient.Crypto.Text

set_option autoImplicit false

namespace PcloudClient.Ppathstatus.DriveStatus

open PcloudClient.Bytes PcloudClient.Crypto

abbrev FolderId := Nat

abbrev Name := Bytes

/-! ## The hash of a component -/

structure PathHash where
  a : UInt32
  b : UInt32
  c : UInt32
  d : UInt32
  deriving DecidableEq, Repr

/-- `HASH_ROUND` -/
def hashRound (h : PathHash) (n : UInt32) : PathHash :=
  ⟨(h.a + n) * 0x5724c9d1, (h.b ^^^ n) * 0x6a511717, (h.c + n) * 0x76459457,
    (h.d ^^^ n) * 0x51a97a23⟩

/-- A `char` where an `unsigned` is wanted. -/
def signedChar (ch : UInt8) : UInt32 := ch.toInt8.toInt32.toUInt32

/-- The loop of `comp_hash` and the rounds after it. -/
def hashWords : Bytes → PathHash → PathHash
  | s₀ :: s₁ :: s₂ :: s₃ :: s, h =>
    hashWords s (hashRound h (UInt32.ofNat (ofLE [s₀, s₁, s₂, s₃])))
  | [s₀, s₁, s₂], h =>
    hashRound h ((3 : UInt32) <<< 24 + 0xffff * signedChar s₂ + 0xff * signedChar s₁ +
      signedChar s₀)
  | [s₀, s₁], h => hashRound h ((2 : UInt32) <<< 24 + 0xff * signedChar s₁ + signedChar s₀)
  | [s₀], h => hashRound h ((1 : UInt32) <<< 24 + signedChar s₀)
  | [], h => h

/-- `comp_hash` -/
def compHash (s : Bytes) (seed₁ seed₂ : UInt64) : PathHash :=
  let len := UInt32.ofNat s.length
  let h := hashWords s ⟨seed₁.toUInt32, ((seed₁ >>> 32).toUInt32 ^^^ len) * 0x6a511717,
    (seed₂.toUInt32 + len) * 0x76459457, (seed₂ >>> 32).toUInt32⟩
  ⟨h.a ^^^ (h.a >>> 17), h.b, h.c ^^^ (h.c >>> 15), h.d⟩

/-! ## The path cache -/

/-- `path_cache_entry_t`; `folder` and `encrypted` are bits of its `flags`. -/
structure CacheEntry where
  hash : PathHash
  itemid : Nat
  folder : Bool
  encrypted : Bool
  deriving DecidableEq, Repr

/-- `path_cache_entries` with the buckets of `path_cache_hash` and `path_cache_lru`, as lists of
indexes. -/
structure PathCache where
  entries : Nat → CacheEntry
  buckets : Nat → List Nat
  lru : List Nat

/-- `PATH_CACHE_SIZE` -/
abbrev pathCacheSize : Nat := 512

/-- `PATH_HASH_SIZE` -/
abbrev pathHashSize : Nat := 512

def PathHash.bucket (h : PathHash) : Nat := (h.a + h.c).toNat % pathHashSize

namespace PathCache

/-- After `psync_path_status_init`. -/
def init : PathCache := ⟨fun _ => ⟨⟨0, 0, 0, 0⟩, 0, false, false⟩, fun _ => [],
  List.range pathCacheSize⟩

/-- The search in a bucket; `sel` is the rest of the condition. -/
def find (c : PathCache) (h : PathHash) (sel : CacheEntry → Bool) : Option Nat :=
  (c.buckets h.bucket).find? fun i => decide ((c.entries i).hash = h) && sel (c.entries i)

/-- An entry that was found is the last to go, if the lock allows it. -/
def touch (c : PathCache) (wrlocked : Bool) (i : Nat) : PathCache :=
  if wrlocked then { c with lru := c.lru.erase i ++ [i] } else c

/-- The entry used least recently gets another value. -/
def insert (c : PathCache) (e : CacheEntry) : PathCache :=
  match c.lru with
  | [] => c
  | i :: rest =>
    { entries := Function.update c.entries i e
      buckets := fun b =>
        (c.buckets b).filter (· ≠ i) ++ if b = e.hash.bucket then [i] else []
      lru := rest ++ [i] }

end PathCache

/-! ## The drive -/

inductive Status where
  | inSync
  | inProg
  | paused
  | notFound
  deriving DecidableEq, Repr

/-- `psync_fstask_folder_t`: the names for which `psync_fstask_find_mkdir` and its like find a
task. -/
structure FolderTasks where
  mkdirs : Name → Bool
  creats : Name → Bool
  rmdirs : Name → Bool
  unlinks : Name → Bool

/-- What the call reads. -/
structure World where
  /-- `SELECT id FROM folder WHERE parentfolderid=? AND name=?` -/
  folder : FolderId → Name → Option FolderId
  /-- `SELECT id FROM file WHERE parentfolderid=? AND name=?` -/
  file : FolderId → Name → Option Nat
  /-- `PSYNC_FOLDER_FLAG_ENCRYPTED` of the folder's row. -/
  encrypted : FolderId → Bool
  encoder : FolderId → TextEncoder
  /-- `psync_cloud_crypto_get_folder_encoder` returns the encoder. -/
  unlocked : FolderId → Bool
  /-- `psync_fstask_get_folder_tasks_rdlocked` -/
  fstask : FolderId → Option FolderTasks
  /-- `get_folder_tasks(folderid, 0)` -/
  busy : FolderId → Bool
  /-- `psync_statuses_ok_array` of `rdunlock_return_in_prog` -/
  statusesOk : Bool
  /-- `drv_hash_seed` -/
  seed : UInt64

/-- How a pass ends. -/
inductive Pass where
  | returns (st : Status) (c : PathCache)
  | restart
  /-- `psync_sql_bind_string` and `psync_sql_fetch_rowint` of a result that was freed. -/
  | useAfterFree

/-- `sizeof(buff)` in `psync_path_status_drive` -/
abbrev buffSize : Nat := 2048

/-- `sizeof(buff)` in `move_encname_to_buff`, where `buff` is a `char *` -/
abbrev charPtrSize : Nat := 8

namespace World

variable (w : World)

def hash (folderid : FolderId) (name : Name) : PathHash :=
  compHash name (UInt64.ofNat folderid) w.seed

/-- `rdunlock_return_in_prog` -/
def inProg : Status := if w.statusesOk then .inProg else .paused

/-- `move_encname_to_buff` with a buffer of `buffSize`; `none` for -1 -/
def moveEncnameToBuff (folderid : FolderId) (name : Name) : Option Name :=
  if buffSize ≤ name.length then none
  else if ¬ w.unlocked folderid then none
  else
    let encname := encodeFilename (w.encoder folderid) name
    if charPtrSize ≤ encname.length then none else some encname

/-- `psync_path_status_drive_folder_locked` -/
def folderLocked (folderid : FolderId) (c : PathCache) : Pass :=
  .returns (if w.busy folderid then w.inProg else .inSync) c

/-- The tasks of a folder, for a component that a slash follows. -/
def innerTasks (folderid : FolderId) (encrypted : Bool) (name : Name) : Option Status :=
  match w.fstask folderid with
  | none => none
  | some folder =>
    if buffSize ≤ name.length then some .inSync
    else
      match if encrypted then w.moveEncnameToBuff folderid name else some name with
      | none => some .inSync
      | some buff =>
        if folder.mkdirs buff then some w.inProg
        else if folder.rmdirs buff then some .notFound
        else none

/-- The folder that a component names, from the cache or the table, with its flag. -/
def innerLookup (wrlocked : Bool) (folderid : FolderId) (encrypted : Bool) (c : PathCache)
    (name : Name) : Except Pass (FolderId × Bool × PathCache) :=
  match c.find (w.hash folderid name) (·.folder) with
  | some i =>
    let e := c.entries i
    let c := c.touch wrlocked i
    if w.busy e.itemid then .ok (e.itemid, e.encrypted, c) else .error (.returns .inSync c)
  | none =>
    if encrypted then
      match w.moveEncnameToBuff folderid name with
      | none => .error (.returns .inSync c)
      | some _ => .error .useAfterFree
    else
      match w.folder folderid name with
      | none => .error (.returns .notFound c)
      | some id =>
        if ¬ wrlocked then .error .restart
        else
          let c := c.insert ⟨w.hash folderid name, id, true, w.encrypted id⟩
          if w.busy id then .ok (id, w.encrypted id, c) else .error (.returns .inSync c)

/-- What follows when the last component is not in the cache; `name` is `path+poff`, `buff` what the
source has in its `name`. -/
def lastLookup (wrlocked : Bool) (folderid : FolderId) (encrypted : Bool) (c : PathCache)
    (name buff : Name) : Pass :=
  let folder := w.fstask folderid
  match w.folder folderid buff, folder.any (·.rmdirs name) with
  | some id, false =>
    if ¬ wrlocked then .restart
    else
      -- `flags=ENTRY_FLAG_FOLDER`: here the flag of encrypted folders is not looked at
      w.folderLocked id (c.insert ⟨w.hash folderid name, id, true, false⟩)
  | _, _ =>
    if folder.any (·.unlinks name) then .returns .notFound c
    else
      match w.file folderid buff with
      | none => .returns .notFound c
      | some id =>
        if ¬ wrlocked then .restart
        else .returns .inSync (c.insert ⟨w.hash folderid name, id, false, encrypted⟩)

/-- After the loop. -/
def last (wrlocked : Bool) (folderid : FolderId) (encrypted : Bool) (c : PathCache) (name : Name) :
    Pass :=
  if name = [] then w.folderLocked folderid c
  else
    let folder := w.fstask folderid
    match if folder.isSome ∧ encrypted then w.moveEncnameToBuff folderid name else some name with
    | none => .returns .inSync c
    | some buff =>
      if folder.any (·.mkdirs buff) then .returns w.inProg c
      else if folder.any (·.creats buff) then .returns w.inProg c
      else
        match c.find (w.hash folderid name) fun _ => true with
        | some i =>
          let e := c.entries i
          let c := c.touch wrlocked i
          if e.folder then
            if folder.any (·.rmdirs buff) then .returns .notFound c
            else w.folderLocked e.itemid c
          else if folder.any (·.unlinks buff) then .returns .notFound c
          else .returns .inSync c
        | none =>
          match if folder.isNone ∧ encrypted then w.moveEncnameToBuff folderid name
            else some buff with
          | none => .returns .inSync c
          | some buff => w.lastLookup wrlocked folderid encrypted c name buff

/-- The components from a folder on: those that a slash follows and the last. -/
def walk (wrlocked : Bool) : FolderId → Bool → PathCache → List Name → Name → Pass
  | folderid, encrypted, c, [], name => w.last wrlocked folderid encrypted c name
  | folderid, encrypted, c, name :: inner, name' =>
    match w.innerTasks folderid encrypted name with
    | some st => .returns st c
    | none =>
      match w.innerLookup wrlocked folderid encrypted c name with
      | .error p => p
      | .ok (folderid, encrypted, c) => walk wrlocked folderid encrypted c inner name'

end World

/-- `is_slash` -/
def isSlash (ch : UInt8) : Bool := ch = 47

/-- The components that a slash follows, none of them empty, and what is left after the last
slash. -/
def split : (cur rest : Bytes) → List Name × Name
  | cur, [] => ([], cur)
  | cur, ch :: rest =>
    if isSlash ch then
      if cur = [] then split [] rest else (cur :: (split [] rest).1, (split [] rest).2)
    else split (cur ++ [ch]) rest

/-- The components of a path without its leading slashes. -/
def components (path : Bytes) : List Name × Name := split [] (path.dropWhile isSlash)

/-- `psync_path_status_drive`; `path` is not empty where the loop is reached. -/
def World.pathStatusDrive (w : World) (c : PathCache) (path : Bytes) : Pass :=
  if ¬ w.busy 0 then .returns .inSync c
  else if path.dropWhile isSlash = [] then w.folderLocked 0 c
  else
    match w.walk false 0 false c (components path).1 (components path).2 with
    | .restart => w.walk true 0 false c (components path).1 (components path).2
    | p => p

/-- What the call returns. -/
def Pass.status? : Pass → Option Status
  | .returns st _ => some st
  | _ => none

end PcloudClient.Ppathstatus.DriveStatus
