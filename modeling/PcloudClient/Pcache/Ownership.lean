/-
  Pcache/Ownership.lean --- who has the value of each element while the threads of the cache
  interleave.

  An element is in a list of the table, or in the hands of one thread, or its value has left
  the cache.  `View` is what a place in a program says of the thread there; the invariant only
  looks at that, so that the steps of all programs come down to a few moves.
-/
import Mathlib.Tactic
import PcloudClient.Pcache.Cache

set_option autoImplicit false

namespace PcloudClient.Pcache

/-! ## Buckets and locks -/

/-- The lock of a hash is that of its list. -/
theorem lockOf_eq (h : BitVec 32) : lockOf h = lockOfBucket (bucketOf h) := by
  have hlt := h.isLt
  simp only [lockOf, lockOfBucket, bucketOf, hashToLock, hashToBucket, cacheHashSize, cacheLocks,
    BitVec.toNat_umod, BitVec.toNat_udiv, BitVec.toNat_mul, BitVec.toNat_ofNat, Nat.reducePow,
    Nat.reduceMod]
  omega

/-! ## What a place in a program says of the thread -/

/-- `list` is the list whose mutex the thread holds, `looks` the elements of it that the thread
has a pointer to; it has stopped the timer of `claims`, or not registered it yet, while the
element is in the list; it has taken `owns` out of the list.  `pending` are the timers
whose callback will still look for the element in the table, if the timers are being called, and
`stopping` is the one whose callback has done that. -/
structure View where
  list : Option Nat := none
  looks : List HashElement := []
  claims : Option HashElement := none
  owns : Option HashElement := none
  pending : Option (List HashElement) := none
  stopping : Option HashElement := none

variable (seed : BitVec 32)

/-- The view at each place. -/
def Pc.view : Pc → View
  | .idle => {}
  | .getLock _ => {}
  | .getNext key prev => { list := some (bucketOf (hashFunc seed key)), looks := prev.toList }
  | .getStop key he => { list := some (bucketOf (hashFunc seed key)), looks := [he] }
  | .getDel key he =>
    { list := some (bucketOf (hashFunc seed key)), looks := [he], claims := some he }
  | .getUnlock key he => { list := some (bucketOf (hashFunc seed key)), owns := some he }
  | .getReturn he => { owns := some he }
  | .getMiss key => { list := some (bucketOf (hashFunc seed key)) }
  | .hasLock _ => {}
  | .hasNext key prev => { list := some (bucketOf (hashFunc seed key)), looks := prev.toList }
  | .hasUnlock key => { list := some (bucketOf (hashFunc seed key)) }
  | .addLock he => { owns := some he }
  | .addNext he prev _ =>
    { list := some (bucketOf he.hash), looks := prev.toList, owns := some he }
  | .addRefuse he => { list := some (bucketOf he.hash), owns := some he }
  | .addFree he => { owns := some he }
  | .addHead he => { list := some (bucketOf he.hash), owns := some he }
  | .addRegister he => { list := some (bucketOf he.hash), looks := [he], claims := some he }
  | .addUnlock he => { list := some (bucketOf he.hash) }
  | .delLock _ => {}
  | .delNext key prev => { list := some (bucketOf (hashFunc seed key)), looks := prev.toList }
  | .delStop key he => { list := some (bucketOf (hashFunc seed key)), looks := [he] }
  | .delDel key he =>
    { list := some (bucketOf (hashFunc seed key)), looks := [he], claims := some he }
  | .delUnlock key he => { list := some (bucketOf (hashFunc seed key)), owns := some he }
  | .delFree _ he => { owns := some he }
  | .delMiss key => { list := some (bucketOf (hashFunc seed key)) }
  | .cleanLock _ _ => {}
  | .cleanFirst _ h => { list := some h }
  | .cleanLoop _ h l1 => { list := some h, looks := [l1] }
  | .cleanStop _ h l1 l2 => { list := some h, looks := l1 :: l2.toList }
  | .cleanDel _ h l1 l2 => { list := some h, looks := l1 :: l2.toList, claims := some l1 }
  | .cleanFree _ h l1 l2 => { list := some h, looks := l2.toList, owns := some l1 }
  | .cleanUnlock _ h => { list := some h }
  | .process todo => { pending := some todo }
  | .timerLock he todo => { pending := some (he :: todo) }
  | .timerDel he todo => { list := some (bucketOf he.hash), pending := some (he :: todo) }
  | .timerUnlock he todo =>
    { list := some (bucketOf he.hash), owns := some he, pending := some todo,
      stopping := some he }
  | .timerFree he todo => { owns := some he, pending := some todo, stopping := some he }
  | .timerStop he todo => { pending := some todo, stopping := some he }

/-- The list that the next step of the thread reads or changes. -/
def Pc.accesses : Pc → Option Nat
  | .getNext key _ => some (bucketOf (hashFunc seed key))
  | .getDel key _ => some (bucketOf (hashFunc seed key))
  | .hasNext key _ => some (bucketOf (hashFunc seed key))
  | .addNext he _ _ => some (bucketOf he.hash)
  | .addHead he => some (bucketOf he.hash)
  | .delNext key _ => some (bucketOf (hashFunc seed key))
  | .delDel key _ => some (bucketOf (hashFunc seed key))
  | .cleanFirst _ h => some h
  | .cleanLoop _ h _ => some h
  | .cleanDel _ h _ _ => some h
  | .timerDel he _ => some (bucketOf he.hash)
  | _ => none

/-- Where an element is. -/
inductive Place where
  | table
  | thread (t : Nat)
  | gone
  deriving DecidableEq

/-- How often the value of the element has left the cache. -/
def State.departures (s : State) (he : HashElement) : Nat :=
  s.log.countP fun e => decide (e.element = he)

/-- Every element is where `place` says, and nowhere else. -/
structure Placed (s : State) (view : Nat → View) (place : Nat → Place) : Prop where
  numbered : ∀ he ∈ s.added, s.added[he.id]? = some he
  ofBucket : ∀ b, ∀ he ∈ s.bucket b,
    he ∈ s.added ∧ bucketOf he.hash = b ∧ place he.id = .table
  ofTable : ∀ he ∈ s.added, place he.id = .table → he ∈ s.bucket (bucketOf he.hash)
  nodup : ∀ b, (s.bucket b).Nodup
  owns : ∀ t he, (view t).owns = some he → he ∈ s.added ∧ place he.id = .thread t
  ofThread : ∀ he ∈ s.added, ∀ t, place he.id = .thread t → (view t).owns = some he
  departed : ∀ he ∈ s.added, s.departures he = if place he.id = .gone then 1 else 0
  logged : ∀ e ∈ s.log, e.element ∈ s.added

/-- A thread that has pointers into a list holds its mutex. -/
structure Locked (s : State) (view : Nat → View) : Prop where
  mutex : ∀ m t, s.mutex m = some t ↔ ∃ b, (view t).list = some b ∧ lockOfBucket b = m
  looks : ∀ t, ∀ he ∈ (view t).looks, ∃ b, (view t).list = some b ∧ he ∈ s.bucket b
  nodup : ∀ t, (view t).looks.Nodup
  claims : ∀ t he, (view t).claims = some he → he ∈ (view t).looks
  sound : s.misuse = false

/-- An element in the table has a timer, unless a thread is between the two. -/
structure Timed (s : State) (view : Nat → View) (place : Nat → Place) : Prop where
  claims : ∀ t he, (view t).claims = some he → s.timer he.id = .none
  ofNone : ∀ b, ∀ he ∈ s.bucket b, s.timer he.id = .none → ∃ t, (view t).claims = some he
  fresh : ∀ he ∈ s.added, ∀ t, place he.id = .thread t → (view t).pending = none →
    s.timer he.id = .none
  unborn : ∀ i, s.added.length ≤ i → s.timer i = .none
  armed : ∀ he ∈ s.added, s.timer he.id = .armed → place he.id = .table
  running : ∀ he ∈ s.added, ∀ st, s.timer he.id = .running st → he ∈ s.timers
  timers : ∀ he ∈ s.timers, he ∈ s.added ∧ (∃ st, s.timer he.id = .running st) ∧
    (s.timer he.id = .running true ∧ place he.id ≠ .table ∨ he ∈ (view 0).pending.getD [] ∨
      (view 0).stopping = some he)
  pending : ∀ he ∈ (view 0).pending.getD [], he ∈ s.timers ∧ place he.id = .table
  pendingNodup : ((view 0).pending.getD []).Nodup
  stopping : ∀ he, (view 0).stopping = some he → he ∈ s.timers ∧ place he.id ≠ .table
  quiet : (view 0).pending = none → s.timers = []
  others : ∀ t, t ≠ 0 → (view t).pending = none ∧ (view t).stopping = none

/-- What holds in every reachable state. -/
structure Inv (s : State) (view : Nat → View) (place : Nat → Place) : Prop where
  placed : Placed s view place
  locked : Locked s view
  timed : Timed s view place

variable {s : State} {view : Nat → View} {place : Nat → Place} {t : Nat}

theorem Placed.congr {s' : State} {view' : Nat → View} (h : Placed s view place)
    (hadded : s'.added = s.added) (hbucket : s'.bucket = s.bucket) (hlog : s'.log = s.log)
    (howns : ∀ t, (view' t).owns = (view t).owns) : Placed s' view' place := by
  obtain ⟨h1, h2, h3, h4, h5, h6, h7, h8⟩ := h
  constructor <;> simp only [State.departures, hadded, hbucket, hlog, howns] at * <;> assumption

theorem Locked.congr {s' : State} {view' : Nat → View} (h : Locked s view)
    (hmutex : s'.mutex = s.mutex) (hbucket : s'.bucket = s.bucket)
    (hmisuse : s'.misuse = s.misuse)
    (hlist : ∀ t, (view' t).list = (view t).list)
    (hlooks : ∀ t, (view' t).looks = (view t).looks)
    (hclaims : ∀ t, (view' t).claims = (view t).claims) : Locked s' view' := by
  obtain ⟨h1, h2, h3, h4, h5⟩ := h
  constructor <;> simp only [hmutex, hbucket, hmisuse, hlist, hlooks, hclaims] <;> assumption

theorem Timed.congr {s' : State} {view' : Nat → View} (h : Timed s view place)
    (hadded : s'.added = s.added) (hbucket : s'.bucket = s.bucket)
    (htimer : s'.timer = s.timer) (htimers : s'.timers = s.timers)
    (hclaims : ∀ t, (view' t).claims = (view t).claims)
    (hpending : ∀ t, (view' t).pending = (view t).pending)
    (hstopping : ∀ t, (view' t).stopping = (view t).stopping) : Timed s' view' place := by
  obtain ⟨h1, h2, h3, h4, h5, h6, h7, h8, h9, h10, h11, h12⟩ := h
  constructor <;> simp only [hadded, hbucket, htimer, htimers, hclaims, hpending, hstopping] <;>
    assumption

/-! ## Moves -/

section Moves

@[simp, grind =] theorem setPc_bucket (p : Pc) : (s.setPc t p).bucket = s.bucket := rfl

@[simp, grind =] theorem setPc_mutex (p : Pc) : (s.setPc t p).mutex = s.mutex := rfl

@[simp, grind =] theorem setPc_timer (p : Pc) : (s.setPc t p).timer = s.timer := rfl

@[simp, grind =] theorem setPc_timers (p : Pc) : (s.setPc t p).timers = s.timers := rfl

@[simp, grind =] theorem setPc_added (p : Pc) : (s.setPc t p).added = s.added := rfl

@[simp, grind =] theorem setPc_log (p : Pc) : (s.setPc t p).log = s.log := rfl

@[simp, grind =] theorem setPc_misuse (p : Pc) : (s.setPc t p).misuse = s.misuse := rfl

variable {view' : Nat → View}

/-- What a thread does not change of its view is unchanged in all views. -/
theorem same_of {α : Type} (f : View → α) (h : f (view' t) = f (view t))
    (hrest : ∀ t' ≠ t, view' t' = view t') (t' : Nat) : f (view' t') = f (view t') := by
  by_cases ht : t' = t
  · rw [ht, h]
  · rw [hrest t' ht]

/-- The thread reads another element of the list it has locked, or forgets one. -/
theorem Inv.look {looks : List HashElement} {p : Pc} (h : Inv s view place)
    (hview : view' t = { view t with looks := looks }) (hrest : ∀ t' ≠ t, view' t' = view t')
    (hclaims : (view t).claims = none)
    (hlooks : ∀ he ∈ looks, ∃ b, (view t).list = some b ∧ he ∈ s.bucket b)
    (hnodup : looks.Nodup) : Inv (s.setPc t p) view' place := by
  obtain ⟨hplaced, ⟨hmutex, hl, hn, hc, hsound⟩, htimed⟩ := h
  have hlist' := same_of (·.list) (by rw [hview]) hrest
  refine ⟨hplaced.congr rfl rfl rfl (same_of (·.owns) (by rw [hview]) hrest),
    ⟨?_, ?_, ?_, ?_, hsound⟩,
    htimed.congr rfl rfl rfl rfl (same_of (·.claims) (by rw [hview]) hrest)
      (same_of (·.pending) (by rw [hview]) hrest) (same_of (·.stopping) (by rw [hview]) hrest)⟩
  · simpa only [hlist', setPc_mutex] using hmutex
  all_goals grind

theorem Inv.lock {s' : State} {b : Nat} {p : Pc} (h : Inv s view place)
    (hstep : s.lock t (lockOfBucket b) p = some s') (hlist : (view t).list = none)
    (hview : view' t = { view t with list := some b }) (hrest : ∀ t' ≠ t, view' t' = view t') :
    Inv s' view' place := by
  unfold State.lock at hstep
  split at hstep
  case isFalse => cases hstep
  case isTrue hfree =>
    cases hstep
    obtain ⟨hplaced, ⟨hmutex, hl, hn, hc, hsound⟩, htimed⟩ := h
    refine ⟨hplaced.congr rfl rfl rfl ?_, ⟨?_, ?_, ?_, ?_, hsound⟩,
      htimed.congr rfl rfl rfl rfl ?_ ?_ ?_⟩
    all_goals intros; grind [Function.update_apply]

theorem Inv.unlock {b : Nat} {p : Pc} (h : Inv s view place) (hlist : (view t).list = some b)
    (hlooks : (view t).looks = []) (hview : view' t = { view t with list := none })
    (hrest : ∀ t' ≠ t, view' t' = view t') :
    Inv (s.unlock t (lockOfBucket b) p) view' place := by
  obtain ⟨hplaced, ⟨hmutex, hl, hn, hc, hsound⟩, htimed⟩ := h
  have hheld : s.mutex (lockOfBucket b) = some t := (hmutex _ _).2 ⟨b, hlist, rfl⟩
  refine ⟨hplaced.congr rfl rfl rfl ?_, ⟨?_, ?_, ?_, ?_, by simp [State.unlock, hsound, hheld]⟩,
    htimed.congr rfl rfl rfl rfl ?_ ?_ ?_⟩
  all_goals intros; try simp only [State.unlock, setPc_bucket]
  all_goals grind [Function.update_apply]

/-- Only one thread has pointers to an element. -/
theorem Inv.looks_unique (h : Inv s view place) {he : HashElement} {t' : Nat}
    (hlooks : he ∈ (view t).looks) (hlooks' : he ∈ (view t').looks) : t' = t := by
  obtain ⟨b, hlist, hmem⟩ := h.locked.looks t he hlooks
  obtain ⟨b', hlist', hmem'⟩ := h.locked.looks t' he hlooks'
  have hb : b' = b :=
    (h.placed.ofBucket b' he hmem').2.1.symm.trans (h.placed.ofBucket b he hmem).2.1
  have hheld := (h.locked.mutex (lockOfBucket b) t).2 ⟨b, hlist, rfl⟩
  rw [(h.locked.mutex (lockOfBucket b) t').2 ⟨b', hlist', by rw [hb]⟩] at hheld
  cases hheld
  rfl

/-- While a thread holds the mutex of a list, its elements have timers but for the one that the
thread itself claims. -/
theorem Inv.timer_ne_none (h : Inv s view place) {he : HashElement}
    (hlooks : he ∈ (view t).looks) (hclaims : (view t).claims = none) :
    s.timer he.id ≠ .none := by
  intro hnone
  obtain ⟨b, -, hmem⟩ := h.locked.looks t he hlooks
  obtain ⟨t', hclaim⟩ := h.timed.ofNone b he hmem hnone
  obtain rfl := h.looks_unique hlooks (h.locked.claims t' he hclaim)
  rw [hclaims] at hclaim
  cases hclaim

/-- Elements with one number are one element. -/
theorem Placed.id_inj (h : Placed s view place) (he he' : HashElement) (hhe : he ∈ s.added)
    (hhe' : he' ∈ s.added) (hid : he.id = he'.id) : he = he' := by
  have h1 := h.numbered he hhe
  rw [hid, h.numbered he' hhe'] at h1
  cases h1
  rfl

theorem Placed.id_lt (h : Placed s view place) (he : HashElement) (hhe : he ∈ s.added) :
    he.id < s.added.length := by
  have := h.numbered he hhe
  grind

/-- `psync_timer_stop` finds the timer armed: no timer will touch the element again. -/
theorem Inv.claim {he : HashElement} {p p' : Pc} (h : Inv s view place)
    (hlooks : he ∈ (view t).looks) (harmed : s.timer he.id = .armed)
    (hview : view' t = { view t with claims := some he })
    (hrest : ∀ t' ≠ t, view' t' = view t') (hclaims : (view t).claims = none) :
    Inv (s.timerStop t he p p') view' place := by
  have hinj := h.placed.id_inj
  have hofBucket := h.placed.ofBucket
  obtain ⟨b, hlist, hmem⟩ := h.locked.looks t he hlooks
  obtain ⟨hin, -, htable⟩ := h.placed.ofBucket b he hmem
  obtain ⟨hplaced, ⟨hmutex, hl, hn, hc, hsound⟩,
    ⟨h1, h2, h3, h4, h5, h6, h7, h8, h9, h10, h11, h12⟩⟩ := h
  have hlist' := same_of (·.list) (by rw [hview]) hrest
  have hlooks' := same_of (·.looks) (by rw [hview]) hrest
  have howns' := same_of (·.owns) (by rw [hview]) hrest
  have hpending' := same_of (·.pending) (by rw [hview]) hrest
  have hstopping' := same_of (·.stopping) (by rw [hview]) hrest
  have hlt := hplaced.id_lt he hin
  simp only [State.timerStop, harmed]
  refine ⟨hplaced.congr rfl rfl rfl howns', ⟨?_, ?_, ?_, ?_, hsound⟩, ?_⟩
  · simpa only [hlist', setPc_mutex] using hmutex
  · simpa only [hlist', hlooks', setPc_bucket] using hl
  · simpa only [hlooks'] using hn
  · grind
  · constructor <;> simp only [hpending', hstopping', setPc_timers, setPc_added, setPc_bucket,
      Function.update_apply]
    · grind
    · grind
    · grind
    · grind
    · grind
    · grind
    · grind
    · grind
    · grind
    · grind
    · grind
    · grind

/-- `psync_timer_stop` finds that the timer is running: its callback will take the element out
of the table. -/
theorem Inv.stopRunning {he : HashElement} {p p' : Pc} {st : Bool} (h : Inv s view place)
    (hin : he ∈ s.added) (hrunning : s.timer he.id = .running st)
    (hstopping : (view t).stopping = none ∨ (view t).stopping = some he)
    (hview : view' t = { view t with stopping := none })
    (hrest : ∀ t' ≠ t, view' t' = view t') :
    Inv (s.timerStop t he p p') view' place := by
  have hinj := h.placed.id_inj
  have hofBucket := h.placed.ofBucket
  obtain ⟨hplaced, hlocked, ⟨h1, h2, h3, h4, h5, h6, h7, h8, h9, h10, h11, h12⟩⟩ := h
  have hclaims' := same_of (·.claims) (by rw [hview]) hrest
  have hpending' := same_of (·.pending) (by rw [hview]) hrest
  have hlt := hplaced.id_lt he hin
  simp only [State.timerStop, hrunning]
  refine ⟨hplaced.congr rfl rfl rfl (same_of (·.owns) (by rw [hview]) hrest),
    hlocked.congr rfl rfl rfl (same_of (·.list) (by rw [hview]) hrest)
      (same_of (·.looks) (by rw [hview]) hrest) hclaims', ?_⟩
  constructor <;> simp only [hpending', hclaims', setPc_timers, setPc_added, setPc_bucket,
    Function.update_apply]
  · grind
  · grind
  · grind
  · grind
  · grind
  · grind
  · grind
  · grind
  · grind
  · grind
  · grind
  · grind

/-- An element goes from the table into the hands of a thread. -/
theorem Placed.unlink {he : HashElement} {b : Nat} {p : Pc} (h : Placed s view place)
    (hmem : he ∈ s.bucket b) (howns : (view t).owns = none) (howns' : (view' t).owns = some he)
    (hrest : ∀ t' ≠ t, view' t' = view t') :
    Placed (s.listDel t b he p) view' (Function.update place he.id (.thread t)) := by
  have hinj := h.id_inj
  obtain ⟨hin, hb, htable⟩ := h.ofBucket b he hmem
  obtain ⟨h1, h2, h3, h4, h5, h6, h7, h8⟩ := h
  constructor <;> simp only [State.listDel, State.departures, setPc_added, setPc_log,
    Function.update_apply] at *
  · grind
  · grind
  · grind
  · grind
  · grind
  · grind
  · grind
  · grind

/-- The others have no pointers into the list of the thread. -/
theorem Locked.unlink {he : HashElement} {b : Nat} {p : Pc} (h : Locked s view)
    (hmem : he ∈ s.bucket b) (hlist : (view t).list = some b)
    (hlist' : (view' t).list = some b) (hlooks' : (view' t).looks = (view t).looks.erase he)
    (hclaims' : (view' t).claims = none) (hrest : ∀ t' ≠ t, view' t' = view t') :
    Locked (s.listDel t b he p) view' := by
  have hsame := same_of (·.list) (hlist'.trans hlist.symm) hrest
  have hheld : s.mutex (lockOfBucket b) = some t := (h.mutex _ _).2 ⟨b, hlist, rfl⟩
  obtain ⟨hmutex, hl, hn, hc, hsound⟩ := h
  refine ⟨?_, ?_, ?_, ?_, ?_⟩
  · simpa only [State.listDel, hsame, setPc_mutex] using hmutex
  · simp only [State.listDel, Function.update_apply]
    intro t' he' hhe'
    by_cases ht : t' = t
    · grind
    · rw [hrest t' ht] at hhe' ⊢
      obtain ⟨b', hb', hmem'⟩ := hl t' he' hhe'
      have hother : b' ≠ b := by
        rintro rfl
        have := (hmutex _ _).2 ⟨b', hb', rfl⟩
        rw [hheld] at this
        grind
      exact ⟨b', hb', by rw [if_neg hother]; exact hmem'⟩
  · grind
  · grind
  · simp [State.listDel, hsound, hmem]

/-- `psync_list_del` of an element whose timer the thread has stopped. -/
theorem Inv.unlink {he : HashElement} {b : Nat} {p : Pc} (h : Inv s view place)
    (hlist : (view t).list = some b) (hclaims : (view t).claims = some he)
    (howns : (view t).owns = none)
    (hview : view' t = { view t with
      looks := (view t).looks.erase he, claims := none, owns := some he })
    (hrest : ∀ t' ≠ t, view' t' = view t') :
    ∃ place', Inv (s.listDel t b he p) view' place' := by
  have hinj := h.placed.id_inj
  have hofBucket := h.placed.ofBucket
  have hmem : he ∈ s.bucket b := by
    have := h.locked.looks t he (h.locked.claims t he hclaims)
    grind
  obtain ⟨hin, hb, htable⟩ := h.placed.ofBucket b he hmem
  obtain ⟨hplaced, hlocked, ⟨h1, h2, h3, h4, h5, h6, h7, h8, h9, h10, h11, h12⟩⟩ := h
  have hpending' := same_of (·.pending) (by rw [hview]) hrest
  have hstopping' := same_of (·.stopping) (by rw [hview]) hrest
  refine ⟨_, hplaced.unlink hmem howns (by rw [hview]) hrest,
    hlocked.unlink hmem hlist (by rw [hview]; exact hlist) (by rw [hview]) (by rw [hview]) hrest,
    ?_⟩
  constructor <;> simp only [State.listDel, hpending', hstopping', setPc_timers, setPc_added,
    setPc_timer, Function.update_apply]
  · grind
  · intro b' he' hhe' hnone
    have hnodup := hplaced.nodup b
    have hmem' : he' ∈ s.bucket b' ∧ he' ≠ he := by
      split at hhe' <;> grind [List.Nodup.mem_erase_iff]
    obtain ⟨t', ht'⟩ := h2 b' he' hmem'.1 hnone
    exact ⟨t', by grind⟩
  · grind
  · grind
  · grind
  · grind
  · grind
  · grind
  · grind
  · grind
  · grind
  · grind

/-- `psync_list_del` in `cache_timer`. -/
theorem Inv.fire {he : HashElement} {todo : List HashElement} {p : Pc} (h : Inv s view place)
    (hlist : (view 0).list = some (bucketOf he.hash)) (hlooks : (view 0).looks = [])
    (hclaims : (view 0).claims = none)
    (howns : (view 0).owns = none) (hpending : (view 0).pending = some (he :: todo))
    (hstopping : (view 0).stopping = none)
    (hview : view' 0 = { view 0 with
      owns := some he, pending := some todo, stopping := some he })
    (hrest : ∀ t' ≠ 0, view' t' = view t') :
    ∃ place', Inv (s.listDel 0 (bucketOf he.hash) he p) view' place' := by
  have hinj := h.placed.id_inj
  have hofBucket := h.placed.ofBucket
  have hpend := h.timed.pending he (by simp [hpending])
  have hin := (h.timed.timers he hpend.1).1
  have hmem := h.placed.ofTable he hin hpend.2
  obtain ⟨hplaced, hlocked, ⟨h1, h2, h3, h4, h5, h6, h7, h8, h9, h10, h11, h12⟩⟩ := h
  have hclaims' := same_of (·.claims) (by rw [hview]) hrest
  refine ⟨_, hplaced.unlink hmem howns (by rw [hview]) hrest,
    hlocked.unlink hmem hlist (by rw [hview]; exact hlist) (by rw [hview]; simp [hlooks])
      (by rw [hview]; exact hclaims) hrest, ?_⟩
  constructor <;> try simp only [State.listDel, hclaims', setPc_timers, setPc_added,
    setPc_timer, Function.update_apply]
  · grind
  · grind
  · grind
  · grind
  · grind
  · grind
  · grind
  · grind
  · grind
  · grind
  · grind
  · grind

/-- The value leaves the cache. -/
theorem Inv.emit {e : Event} {p : Pc} (h : Inv s view place)
    (howns : (view t).owns = some e.element)
    (hview : view' t = { view t with owns := none })
    (hrest : ∀ t' ≠ t, view' t' = view t') : ∃ place', Inv (s.emit t e p) view' place' := by
  have hinj := h.placed.id_inj
  obtain ⟨hin, hplace⟩ := h.placed.owns t _ howns
  obtain ⟨⟨g1, g2, g3, g4, g5, g6, g7, g8⟩, hlocked,
    ⟨h1, h2, h3, h4, h5, h6, h7, h8, h9, h10, h11, h12⟩⟩ := h
  have hclaims' := same_of (·.claims) (by rw [hview]) hrest
  have hpending' := same_of (·.pending) (by rw [hview]) hrest
  have hstopping' := same_of (·.stopping) (by rw [hview]) hrest
  refine ⟨Function.update place e.element.id .gone, ?_,
    hlocked.congr rfl rfl rfl (same_of (·.list) (by rw [hview]) hrest)
      (same_of (·.looks) (by rw [hview]) hrest) hclaims', ?_⟩
  · constructor <;> simp only [State.emit, State.departures, setPc_bucket, setPc_added,
      Function.update_apply] at *
    · grind
    · grind
    · grind
    · grind
    · grind
    · grind
    · intro he hhe
      rw [List.countP_append, g7 he hhe]
      simp only [List.countP_singleton, decide_eq_true_eq]
      grind
    · grind
  · constructor <;> simp only [State.emit, hclaims', hpending', hstopping', setPc_timers,
      setPc_added, setPc_timer, setPc_bucket, Function.update_apply]
    · grind
    · grind
    · grind
    · grind
    · grind
    · grind
    · grind
    · grind
    · grind
    · grind
    · grind
    · grind

/-- `psync_list_add_head` -/
theorem Inv.link {he : HashElement} {p : Pc} (h : Inv s view place)
    (hlist : (view t).list = some (bucketOf he.hash)) (hlooks : (view t).looks = [])
    (howns : (view t).owns = some he) (hclaims : (view t).claims = none)
    (hpending : (view t).pending = none)
    (hview : view' t = { view t with looks := [he], claims := some he, owns := none })
    (hrest : ∀ t' ≠ t, view' t' = view t') :
    ∃ place', Inv (s.listAddHead t (bucketOf he.hash) he p) view' place' := by
  have hinj := h.placed.id_inj
  obtain ⟨hin, hplace⟩ := h.placed.owns t _ howns
  have hnot : he ∉ s.bucket (bucketOf he.hash) := by
    intro hmem
    have := (h.placed.ofBucket _ he hmem).2.2
    rw [hplace] at this
    cases this
  obtain ⟨⟨g1, g2, g3, g4, g5, g6, g7, g8⟩, ⟨hmutex, hl, hn, hc, hsound⟩,
    ⟨h1, h2, h3, h4, h5, h6, h7, h8, h9, h10, h11, h12⟩⟩ := h
  have hlist' := same_of (·.list) (by rw [hview]) hrest
  have hpending' := same_of (·.pending) (by rw [hview]) hrest
  have hstopping' := same_of (·.stopping) (by rw [hview]) hrest
  refine ⟨Function.update place he.id .table, ?_, ?_, ?_⟩
  · constructor <;> simp only [State.listAddHead, State.departures, setPc_added, setPc_log,
      Function.update_apply] at *
    · grind
    · grind
    · grind
    · grind
    · grind
    · grind
    · grind
    · grind
  · refine ⟨?_, ?_, ?_, ?_, hsound⟩
    · simpa only [State.listAddHead, hlist', setPc_mutex] using hmutex
    · simp only [State.listAddHead, Function.update_apply]
      grind
    · grind
    · grind
  · constructor <;> simp only [State.listAddHead, hpending', hstopping', setPc_timers,
      setPc_added, setPc_timer, Function.update_apply]
    · grind
    · grind
    · grind
    · grind
    · grind
    · grind
    · grind
    · grind
    · grind
    · grind
    · grind
    · grind

/-- `psync_timer_register` -/
theorem Inv.register {he : HashElement} {p : Pc} (h : Inv s view place)
    (hclaims : (view t).claims = some he)
    (hview : view' t = { view t with looks := [], claims := none })
    (hrest : ∀ t' ≠ t, view' t' = view t') : Inv (s.timerRegister t he p) view' place := by
  have hinj := h.placed.id_inj
  have hofBucket := h.placed.ofBucket
  have honly : ∀ t', (view t').claims = some he → t' = t := fun t' ht' =>
    h.looks_unique (h.locked.claims t he hclaims) (h.locked.claims t' he ht')
  obtain ⟨b, hlist, hmem⟩ := h.locked.looks t he (h.locked.claims t he hclaims)
  obtain ⟨hin, hb, htable⟩ := h.placed.ofBucket b he hmem
  have hnone := h.timed.claims t he hclaims
  obtain ⟨hplaced, ⟨hmutex, hl, hn, hc, hsound⟩,
    ⟨h1, h2, h3, h4, h5, h6, h7, h8, h9, h10, h11, h12⟩⟩ := h
  have hlist' := same_of (·.list) (by rw [hview]) hrest
  have hpending' := same_of (·.pending) (by rw [hview]) hrest
  have hstopping' := same_of (·.stopping) (by rw [hview]) hrest
  have hlt := hplaced.id_lt he hin
  refine ⟨hplaced.congr rfl rfl rfl (same_of (·.owns) (by rw [hview]) hrest),
    ⟨?_, ?_, ?_, ?_, hsound⟩, ?_⟩
  · simpa only [State.timerRegister, hlist', setPc_mutex] using hmutex
  · simp only [State.timerRegister, setPc_bucket]
    grind
  · grind
  · grind
  · constructor <;> simp only [State.timerRegister, hpending', hstopping', setPc_timers,
      setPc_added, setPc_bucket, Function.update_apply]
    · intro t' he' hclaim
      have ht : t' ≠ t := by grind
      rw [hrest t' ht] at hclaim
      have hmem' := hl t' he' (hc t' he' hclaim)
      grind
    · grind
    · grind
    · grind
    · grind
    · grind
    · grind
    · grind
    · grind
    · grind
    · grind
    · grind

/-- A call of `psync_cache_add` makes its element. -/
theorem Inv.create {he : HashElement} {p : Pc} (h : Inv s view place)
    (hid : he.id = s.added.length) (howns : (view t).owns = none)
    (hview : view' t = { view t with owns := some he })
    (hrest : ∀ t' ≠ t, view' t' = view t') :
    ∃ place', Inv { s.setPc t p with added := s.added ++ [he] } view' place' := by
  have hlt := h.placed.id_lt
  have hofBucket := h.placed.ofBucket
  obtain ⟨⟨g1, g2, g3, g4, g5, g6, g7, g8⟩, hlocked,
    ⟨h1, h2, h3, h4, h5, h6, h7, h8, h9, h10, h11, h12⟩⟩ := h
  have hclaims' := same_of (·.claims) (by rw [hview]) hrest
  have hpending' := same_of (·.pending) (by rw [hview]) hrest
  have hstopping' := same_of (·.stopping) (by rw [hview]) hrest
  refine ⟨Function.update place he.id (.thread t), ?_,
    hlocked.congr rfl rfl rfl (same_of (·.list) (by rw [hview]) hrest)
      (same_of (·.looks) (by rw [hview]) hrest) hclaims', ?_⟩
  · constructor <;> simp only [State.departures, setPc_bucket, setPc_log, List.mem_append,
      List.mem_singleton, Function.update_apply] at *
    · grind
    · grind
    · grind
    · grind
    · grind
    · grind
    · rintro he' (hhe' | rfl)
      · grind
      · have hnone : s.log.countP (fun e => decide (e.element = he')) = 0 := by
          rw [List.countP_eq_zero]
          intro e he hel
          have := hlt _ (g8 e he)
          grind
        grind
    · grind
  · constructor <;> simp only [hclaims', hpending', hstopping', setPc_timers, setPc_timer,
      setPc_bucket, List.mem_append, List.mem_singleton, Function.update_apply]
    · grind
    · grind
    · grind
    · grind
    · grind
    · grind
    · grind
    · grind
    · grind
    · grind
    · grind
    · grind

/-- The number of an element of a list is not that of another element. -/
theorem Placed.mem_map_id (h : Placed s view place) {es : List HashElement} {he : HashElement}
    (hes : ∀ he ∈ es, he ∈ s.added) (hhe : he ∈ s.added) : he.id ∈ es.map (·.id) ↔ he ∈ es := by
  simp only [List.mem_map]
  constructor
  · rintro ⟨he', hhe', hid⟩
    rwa [← h.id_inj he' he (hes he' hhe') hhe hid]
  · exact fun hhe' => ⟨he, hhe', rfl⟩

/-- The timer thread takes timers that are armed. -/
theorem Inv.drain {fired : List HashElement} (h : Inv s view place) (hnodup : fired.Nodup)
    (hfired : ∀ he ∈ fired, he ∈ s.added ∧ s.timer he.id = .armed)
    (hpending : (view 0).pending = none) (hstopping : (view 0).stopping = none)
    (hview : view' 0 = { view 0 with pending := some fired })
    (hrest : ∀ t' ≠ 0, view' t' = view t') : Inv (drain s fired) view' place := by
  have hofBucket := h.placed.ofBucket
  have hon : ∀ he ∈ fired, (Pcache.drain s fired).timer he.id = .running false := by
    intro he hhe
    exact if_pos (List.mem_map.2 ⟨he, hhe, rfl⟩)
  have hoff : ∀ he ∈ s.added, he ∉ fired → (Pcache.drain s fired).timer he.id = s.timer he.id := by
    intro he hhe hnot
    exact if_neg fun hmem =>
      hnot ((h.placed.mem_map_id (fun he hhe => (hfired he hhe).1) hhe).1 hmem)
  have hun : ∀ i, s.added.length ≤ i → (Pcache.drain s fired).timer i = s.timer i := by
    intro i hi
    refine if_neg fun hmem => ?_
    obtain ⟨he, hhe, rfl⟩ := List.mem_map.1 hmem
    have := h.placed.id_lt he (hfired he hhe).1
    omega
  have hin : ∀ t he, (view t).claims = some he → he ∈ s.added := by
    intro t he hclaim
    obtain ⟨b, -, hmem⟩ := h.locked.looks t he (h.locked.claims t he hclaim)
    exact (hofBucket b he hmem).1
  obtain ⟨hplaced, hlocked, ⟨h1, h2, h3, h4, h5, h6, h7, h8, h9, h10, h11, h12⟩⟩ := h
  have hclaims' := same_of (·.claims) (by rw [hview]) hrest
  have hstopping' := same_of (·.stopping) (by rw [hview]) hrest
  have hpending' : (view' 0).pending = some fired := by rw [hview]
  have hquiet := h11 hpending
  refine ⟨hplaced.congr rfl rfl rfl (same_of (·.owns) (by rw [hview]) hrest),
    hlocked.congr rfl rfl rfl (same_of (·.list) (by rw [hview]) hrest)
      (same_of (·.looks) (by rw [hview]) hrest) hclaims', ?_⟩
  have hadded : (Pcache.drain s fired).added = s.added := rfl
  have hbucket : (Pcache.drain s fired).bucket = s.bucket := rfl
  have htimers : (Pcache.drain s fired).timers = fired := rfl
  generalize Pcache.drain s fired = s' at *
  constructor <;> simp only [hclaims', hstopping', hpending', hadded, hbucket, htimers] <;> grind

/-- The timer thread is done with the timers it called. -/
theorem Inv.rearm {p : Pc} (h : Inv s view place) (hpending : (view 0).pending = some [])
    (hstopping : (view 0).stopping = none) (howns : (view 0).owns = none)
    (hview : view' 0 = { view 0 with pending := none })
    (hrest : ∀ t' ≠ 0, view' t' = view t') : Inv (s.rearm 0 p) view' place := by
  have hofBucket := h.placed.ofBucket
  have hall : ∀ he ∈ s.timers, he ∈ s.added ∧ s.timer he.id = .running true ∧
      place he.id ≠ .table := by
    intro he hhe
    obtain ⟨hin, -, hcase⟩ := h.timed.timers he hhe
    simp only [hpending, hstopping, Option.getD_some, List.not_mem_nil,
      reduceCtorEq, or_false] at hcase
    exact ⟨hin, hcase⟩
  have hon : ∀ he ∈ s.timers, (s.rearm 0 p).timer he.id = .none := by
    intro he hhe
    have hmem : he.id ∈ s.timers.map (·.id) := List.mem_map.2 ⟨he, hhe, rfl⟩
    simp only [State.rearm, if_pos hmem, (hall he hhe).2.1, if_true]
  have hoff : ∀ he ∈ s.added, he ∉ s.timers → (s.rearm 0 p).timer he.id = s.timer he.id := by
    intro he hhe hnot
    exact if_neg fun hmem => hnot ((h.placed.mem_map_id (fun he hhe => (hall he hhe).1) hhe).1 hmem)
  have hun : ∀ i, s.added.length ≤ i → (s.rearm 0 p).timer i = s.timer i := by
    intro i hi
    refine if_neg fun hmem => ?_
    obtain ⟨he, hhe, rfl⟩ := List.mem_map.1 hmem
    have := h.placed.id_lt he (hall he hhe).1
    omega
  have hin : ∀ t he, (view t).claims = some he → he ∈ s.added := by
    intro t he hclaim
    obtain ⟨b, -, hmem⟩ := h.locked.looks t he (h.locked.claims t he hclaim)
    exact (hofBucket b he hmem).1
  obtain ⟨hplaced, hlocked, ⟨h1, h2, h3, h4, h5, h6, h7, h8, h9, h10, h11, h12⟩⟩ := h
  have hclaims' := same_of (·.claims) (by rw [hview]) hrest
  have hstopping' := same_of (·.stopping) (by rw [hview]) hrest
  have howns' := same_of (·.owns) (by rw [hview]) hrest
  have hpending' : (view' 0).pending = none := by rw [hview]
  refine ⟨hplaced.congr rfl rfl rfl howns',
    hlocked.congr rfl rfl rfl (same_of (·.list) (by rw [hview]) hrest)
      (same_of (·.looks) (by rw [hview]) hrest) hclaims', ?_⟩
  have hnotzero : ∀ he ∈ s.added, place he.id ≠ .thread 0 := by
    intro he hhe hplace
    have := hplaced.ofThread he hhe 0 hplace
    rw [howns] at this
    cases this
  have hadded : (s.rearm 0 p).added = s.added := rfl
  have hbucket : (s.rearm 0 p).bucket = s.bucket := rfl
  have htimers : (s.rearm 0 p).timers = [] := rfl
  generalize s.rearm 0 p = s' at *
  constructor <;> simp only [hclaims', hstopping', hpending', hadded, hbucket, htimers] <;> grind

end Moves

end PcloudClient.Pcache
