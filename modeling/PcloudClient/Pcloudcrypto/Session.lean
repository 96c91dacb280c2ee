/-
  Pcloudcrypto/Session.lean --- the crypto session: its two flags, the private key and the
  cache of decrypted keys, changed by any number of threads.

  `crypto_started_l` and the private key are written with `crypto_lock` held for writing;
  `crypto_started_un` is read and cleared without it.  Each psync_cache_ call is one step, a
  clean of the cache one step for each bucket.  The entries here are those with one of the
  five prefixes of `psync_cloud_crypto_clean_cache`: what they hold is a decrypted key or made
  from one.
-/
import Mathlib.Data.Fin.Basic
import Mathlib.Logic.Function.Basic

set_option autoImplicit false

namespace PcloudClient.Pcloudcrypto

def CACHE_HASH_SIZE : Nat := 2048

/-! ## The cache -/

/-- The prefixes `DKEY`, `FKEY`, `FLDE`, `FLDD` and `SEEN`. -/
inductive Kind where
  | dkey
  | fkey
  | flde
  | fldd
  | seen
  deriving DecidableEq, Repr

structure Key where
  kind : Kind
  id : Int
  hash : Nat
  deriving DecidableEq, Repr

/-- `hash_element`; `running` once its timer runs, which then takes it out. -/
structure Entry where
  key : Key
  running : Bool
  deriving DecidableEq, Repr

/-- `psync_cache_get`: the cache without the entry it gives. -/
def cacheGet (key : Key) (cache : List Entry) : Option (List Entry) :=
  if cache.any (fun e => e.key = key ∧ e.running = false) then
    some (cache.eraseP fun e => e.key = key ∧ e.running = false)
  else none

/-- `psync_cache_add` with `maxkeys` 2 -/
def cacheAdd (key : Key) (cache : List Entry) : List Entry :=
  if 2 ≤ cache.countP (fun e => e.key = key) then cache else ⟨key, false⟩ :: cache

/-- One bucket of `psync_cache_clean_starting_with_one_of`. -/
def cleanBucket (bucket : Key → Fin CACHE_HASH_SIZE) (b : Nat) (cache : List Entry) : List Entry :=
  cache.filter fun e => (bucket e.key).val ≠ b ∨ e.running = true

/-! ## Getters -/

inductive Getter where
  /-- `psync_cloud_crypto_get_folder_encoder` -/
  | folderEncoder (folderid : Int)
  /-- `psync_cloud_crypto_get_folder_decoder` -/
  | folderDecoder (folderid : Int)
  /-- `psync_cloud_crypto_get_file_encoder` -/
  | fileEncoder (fileid : Int) (hash : Nat)
  /-- `psync_cloud_crypto_get_file_encoder_from_binresult` -/
  | fromBinresult (fileid : Int) (hash : Nat)
  deriving DecidableEq, Repr

namespace Getter

def id : Getter → Int
  | folderEncoder i => i
  | folderDecoder i => i
  | fileEncoder i _ => i
  | fromBinresult i _ => i

/-- The getter looks at `crypto_started_un` first; it then has no `else` after its check of
`crypto_started_l`. -/
def checksUn : Getter → Bool
  | fromBinresult _ _ => false
  | _ => true

/-- Where an encoder is kept between two uses. -/
def encoderKey : Getter → Key
  | folderEncoder i => ⟨.flde, i, 0⟩
  | folderDecoder i => ⟨.fldd, i, 0⟩
  | fileEncoder i h => ⟨.seen, i, h⟩
  | fromBinresult i h => ⟨.seen, i, h⟩

/-- Where the symmetric key is kept. -/
def symKey : Getter → Key
  | folderEncoder i => ⟨.fkey, i, 0⟩
  | folderDecoder i => ⟨.fkey, i, 0⟩
  | fileEncoder i h => ⟨.dkey, i, h⟩
  | fromBinresult i h => ⟨.dkey, i, h⟩

end Getter

inductive Result where
  /-- `PSYNC_CRYPTO_NOT_STARTED` -/
  | notStarted
  /-- `PSYNC_CRYPTO_FOLDER_NOT_ENCRYPTED`, for id 0. -/
  | notEncrypted
  /-- Another error, or `PSYNC_CRYPTO_UNLOADED_SECTOR_ENCODER`. -/
  | error
  | encoder
  deriving DecidableEq, Repr

/-- Where a thread is. -/
inductive Pc where
  | idle
  /-- Before the check of `crypto_started_un`. -/
  | getCheck (g : Getter)
  /-- Before `psync_cache_get` of the encoder. -/
  | getLookup (g : Getter)
  /-- Before `pthread_rwlock_rdlock`. -/
  | getLock (g : Getter)
  /-- Before the check of `crypto_started_l`. -/
  | held (g : Getter)
  /-- Before `psync_cache_get` of a symmetric key. -/
  | heldSym (g : Getter) (key : Key)
  /-- Before the decryption of a symmetric key, which goes to the cache under `key`, if any;
  `again` where the getter starts over after that. -/
  | heldDecrypt (g : Getter) (key : Option Key) (again : Bool)
  /-- Before `psync_cache_add` of a symmetric key. -/
  | heldAdd (g : Getter) (key : Key) (again : Bool)
  /-- Before `pthread_rwlock_unlock`. -/
  | heldDone (r : Result)
  | returned (r : Result)
  /-- In the release of an encoder, before the check of `crypto_started_un`. -/
  | relCheck (g : Getter)
  /-- Before `psync_cache_add` of the encoder. -/
  | relAdd (g : Getter)
  /-- Before `pthread_rwlock_wrlock` of `psync_cloud_crypto_start`. -/
  | startLock
  | startHeld
  /-- The private key is loaded. -/
  | startLoaded
  /-- `crypto_started_l` is set. -/
  | startL
  /-- `crypto_started_un` is set. -/
  | startUn
  /-- At the start of `psync_cloud_crypto_stop`. -/
  | stopUn
  /-- Before its `pthread_rwlock_wrlock`. -/
  | stopLock
  | stopHeld
  /-- `crypto_started_l` is cleared. -/
  | stopCleared
  /-- The private key is freed. -/
  | stopFreed
  /-- In `psync_cloud_crypto_clean_cache`, with the buckets from `b` on to be cleaned. -/
  | clean (b : Nat)
  deriving DecidableEq, Repr

namespace Pc

/-- Holds `crypto_lock` for writing. -/
def writes : Pc → Bool
  | startHeld | startLoaded | startL | startUn | stopHeld | stopCleared | stopFreed => true
  | _ => false

/-- Holds `crypto_lock`. -/
def holds : Pc → Bool
  | held _ | heldSym _ _ | heldDecrypt _ _ _ | heldAdd _ _ _ | heldDone _ => true
  | pc => pc.writes

end Pc

structure State (ι : Type) where
  /-- `crypto_started_un` -/
  startedUn : Bool
  /-- `crypto_started_l` -/
  startedL : Bool
  /-- `crypto_privkey` is loaded. -/
  privkey : Bool
  cache : List Entry
  pc : ι → Pc
  /-- A getter has used the private key while the session was stopped. -/
  usedStopped : Bool
  /-- A getter has come to another result than `PSYNC_CRYPTO_NOT_STARTED` while the session
  was stopped. -/
  gaveStopped : Bool

variable {ι : Type} [DecidableEq ι]

namespace State

def init : State ι := ⟨false, false, false, [], fun _ => .idle, false, false⟩

variable (st : State ι)

def go (t : ι) (pc : Pc) : State ι := { st with pc := Function.update st.pc t pc }

/-- A getter comes to its result. -/
def settle (t : ι) (r : Result) (pc : Pc) : State ι :=
  { st.go t pc with gaveStopped := st.gaveStopped || (!st.startedL && decide (r ≠ .notStarted)) }

end State

/-! ## Steps -/

/-- A step of a thread, or of the timer. -/
inductive Step (bucket : Key → Fin CACHE_HASH_SIZE) : State ι → Option ι → State ι → Prop
  | call {st : State ι} {t : ι} {g : Getter} (hpc : st.pc t = .idle) :
      Step bucket st (some t) (st.go t (if g.checksUn then .getCheck g else .getLock g))
  | check {st : State ι} {t : ι} {g : Getter} (hpc : st.pc t = .getCheck g) :
      Step bucket st (some t)
        (if st.startedUn then st.go t (if 0 ≤ g.id then .getLookup g else .getLock g)
        else st.settle t .notStarted (.returned .notStarted))
  | lookupHit {st : State ι} {t : ι} {g : Getter} {cache : List Entry}
      (hpc : st.pc t = .getLookup g) (hget : cacheGet g.encoderKey st.cache = some cache) :
      Step bucket st (some t) ({ st with cache }.settle t .encoder (.returned .encoder))
  | lookupMiss {st : State ι} {t : ι} {g : Getter} (hpc : st.pc t = .getLookup g)
      (hget : cacheGet g.encoderKey st.cache = none) :
      Step bucket st (some t) (st.go t (.getLock g))
  | rdlock {st : State ι} {t : ι} {g : Getter} (hpc : st.pc t = .getLock g)
      (hfree : ∀ u, (st.pc u).writes = false) : Step bucket st (some t) (st.go t (.held g))
  -- the check of `crypto_started_l` in the three getters has no effect
  | heldPositive {st : State ι} {t : ι} {g : Getter} (hpc : st.pc t = .held g)
      (hun : g.checksUn = true) (hid : 0 < g.id) :
      Step bucket st (some t) (st.go t (.heldSym g g.symKey))
  | heldZero {st : State ι} {t : ι} {g : Getter} (hpc : st.pc t = .held g)
      (hun : g.checksUn = true) (hid : g.id = 0) :
      Step bucket st (some t) (st.settle t .notEncrypted (.heldDone .notEncrypted))
  -- a pending folder or file: its row in `fstask` has the key
  | heldTemp {st : State ι} {t : ι} {g : Getter} (hpc : st.pc t = .held g)
      (hun : g.checksUn = true) (hid : g.id < 0) :
      Step bucket st (some t) (st.go t (.heldDecrypt g none false))
  -- a pending modification: the key of the file it modifies
  | heldModify {st : State ι} {t : ι} {i : Int} {h : Nat} {fileid : Int} {hash : Nat}
      (hpc : st.pc t = .held (.fileEncoder i h)) (hid : i < 0) :
      Step bucket st (some t) (st.go t (.heldSym (.fileEncoder i h) ⟨.dkey, fileid, hash⟩))
  | heldTempError {st : State ι} {t : ι} {g : Getter} (hpc : st.pc t = .held g)
      (hun : g.checksUn = true) (hid : g.id < 0) :
      Step bucket st (some t) (st.settle t .error (.heldDone .error))
  | heldBinresult {st : State ι} {t : ι} {g : Getter} (hpc : st.pc t = .held g)
      (hun : g.checksUn = false) :
      Step bucket st (some t)
        (if st.startedL then st.go t (.heldDecrypt g (some g.symKey) true)
        else st.settle t .notStarted (.heldDone .notStarted))
  | symHit {st : State ι} {t : ι} {g : Getter} {key : Key} {cache : List Entry}
      (hpc : st.pc t = .heldSym g key) (hget : cacheGet key st.cache = some cache) :
      Step bucket st (some t) ({ st with cache }.go t (.heldAdd g key false))
  -- a key of the wrong type is freed
  | symHitBad {st : State ι} {t : ι} {g : Getter} {key : Key} {cache : List Entry}
      (hpc : st.pc t = .heldSym g key) (hget : cacheGet key st.cache = some cache) :
      Step bucket st (some t) ({ st with cache }.settle t .error (.heldDone .error))
  | symMiss {st : State ι} {t : ι} {g : Getter} {key : Key} (hpc : st.pc t = .heldSym g key)
      (hget : cacheGet key st.cache = none) :
      Step bucket st (some t) (st.go t (.heldDecrypt g (some key) false))
  | symError {st : State ι} {t : ι} {g : Getter} {key : Key} (hpc : st.pc t = .heldSym g key)
      (hget : cacheGet key st.cache = none) :
      Step bucket st (some t) (st.settle t .error (.heldDone .error))
  | decryptKey {st : State ι} {t : ι} {g : Getter} {key : Key} {again : Bool}
      (hpc : st.pc t = .heldDecrypt g (some key) again) :
      Step bucket st (some t)
        { st.go t (.heldAdd g key again) with usedStopped := st.usedStopped || !st.startedL }
  | decryptTemp {st : State ι} {t : ι} {g : Getter} (hpc : st.pc t = .heldDecrypt g none false) :
      Step bucket st (some t)
        { st.settle t .encoder (.heldDone .encoder) with
          usedStopped := st.usedStopped || !st.startedL }
  | decryptError {st : State ι} {t : ι} {g : Getter} {key : Option Key}
      (hpc : st.pc t = .heldDecrypt g key false) :
      Step bucket st (some t)
        { st.settle t .error (.heldDone .error) with
          usedStopped := st.usedStopped || !st.startedL }
  | addAgain {st : State ι} {t : ι} {g : Getter} {key : Key} (hpc : st.pc t = .heldAdd g key true) :
      Step bucket st (some t) ({ st with cache := cacheAdd key st.cache }.go t (.heldSym g key))
  | add {st : State ι} {t : ι} {g : Getter} {key : Key} (hpc : st.pc t = .heldAdd g key false) :
      Step bucket st (some t)
        ({ st with cache := cacheAdd key st.cache }.settle t .encoder (.heldDone .encoder))
  | rdunlock {st : State ι} {t : ι} {r : Result} (hpc : st.pc t = .heldDone r) :
      Step bucket st (some t) (st.go t (.returned r))
  | ret {st : State ι} {t : ι} {r : Result} (hpc : st.pc t = .returned r) :
      Step bucket st (some t) (st.go t .idle)
  | release {st : State ι} {t : ι} {g : Getter} (hpc : st.pc t = .idle) :
      Step bucket st (some t) (st.go t (.relCheck g))
  | relCheck {st : State ι} {t : ι} {g : Getter} (hpc : st.pc t = .relCheck g) :
      Step bucket st (some t)
        (st.go t (if st.startedUn ∧ 0 ≤ g.id then .relAdd g else .idle))
  | relAdd {st : State ι} {t : ι} {g : Getter} (hpc : st.pc t = .relAdd g) :
      Step bucket st (some t) ({ st with cache := cacheAdd g.encoderKey st.cache }.go t .idle)
  | start {st : State ι} {t : ι} (hpc : st.pc t = .idle) :
      Step bucket st (some t) (st.go t .startLock)
  | startWrlock {st : State ι} {t : ι} (hpc : st.pc t = .startLock)
      (hfree : ∀ u, (st.pc u).holds = false) : Step bucket st (some t) (st.go t .startHeld)
  -- already started, or the keys are not to be had or not to be loaded
  | startEnd {st : State ι} {t : ι} (hpc : st.pc t = .startHeld) :
      Step bucket st (some t) (st.go t .idle)
  -- `psync_sql_trylock` fails
  | startRetry {st : State ι} {t : ι} (hpc : st.pc t = .startHeld) (hl : st.startedL = false) :
      Step bucket st (some t) (st.go t .startLock)
  | startLoad {st : State ι} {t : ι} (hpc : st.pc t = .startHeld) (hl : st.startedL = false) :
      Step bucket st (some t) { st.go t .startLoaded with privkey := true }
  -- `crypto_keys_match` fails
  | startMismatch {st : State ι} {t : ι} (hpc : st.pc t = .startLoaded) :
      Step bucket st (some t) { st.go t .idle with privkey := false }
  | startSetL {st : State ι} {t : ι} (hpc : st.pc t = .startLoaded) :
      Step bucket st (some t) { st.go t .startL with startedL := true }
  | startSetUn {st : State ι} {t : ι} (hpc : st.pc t = .startL) :
      Step bucket st (some t) { st.go t .startUn with startedUn := true }
  | startUnlock {st : State ι} {t : ι} (hpc : st.pc t = .startUn) :
      Step bucket st (some t) (st.go t .idle)
  | stop {st : State ι} {t : ι} (hpc : st.pc t = .idle) : Step bucket st (some t) (st.go t .stopUn)
  | stopClearUn {st : State ι} {t : ι} (hpc : st.pc t = .stopUn) :
      Step bucket st (some t) { st.go t .stopLock with startedUn := false }
  | stopWrlock {st : State ι} {t : ι} (hpc : st.pc t = .stopLock)
      (hfree : ∀ u, (st.pc u).holds = false) : Step bucket st (some t) (st.go t .stopHeld)
  | stopNotStarted {st : State ι} {t : ι} (hpc : st.pc t = .stopHeld) (hl : st.startedL = false) :
      Step bucket st (some t) (st.go t .idle)
  | stopClearL {st : State ι} {t : ι} (hpc : st.pc t = .stopHeld) (hl : st.startedL = true) :
      Step bucket st (some t) { st.go t .stopCleared with startedL := false }
  | stopFree {st : State ι} {t : ι} (hpc : st.pc t = .stopCleared) :
      Step bucket st (some t) { st.go t .stopFreed with privkey := false }
  | stopUnlock {st : State ι} {t : ι} (hpc : st.pc t = .stopFreed) :
      Step bucket st (some t) (st.go t (.clean 0))
  | clean {st : State ι} {t : ι} {b : Nat} (hpc : st.pc t = .clean b) (hb : b < CACHE_HASH_SIZE) :
      Step bucket st (some t)
        ({ st with cache := cleanBucket bucket b st.cache }.go t (.clean (b + 1)))
  | stopReturn {st : State ι} {t : ι} (hpc : st.pc t = .clean CACHE_HASH_SIZE) :
      Step bucket st (some t) (st.go t .idle)
  -- the timer of an entry is due, and `cache_timer` takes the entry out
  | timerDue {st : State ι} {a b : List Entry} {key : Key}
      (hcache : st.cache = a ++ ⟨key, false⟩ :: b) :
      Step bucket st none { st with cache := a ++ ⟨key, true⟩ :: b }
  | timerRun {st : State ι} {a b : List Entry} {key : Key}
      (hcache : st.cache = a ++ ⟨key, true⟩ :: b) :
      Step bucket st none { st with cache := a ++ b }

end PcloudClient.Pcloudcrypto
