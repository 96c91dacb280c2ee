/-
  Pcache/MaxKeys.lean --- how many values of one key are held, and the whole of what the cache
  promises about a value.
-/
import PcloudClient.Pcache.Safety

set_option autoImplicit false

namespace PcloudClient.Pcache

variable {seed : BitVec 32} {s s' : State} {t : Nat}

/-! ## Lists -/

/-- The elements of a list that `psync_cache_add` counts for `he`. -/
def countFor (es : List HashElement) (he : HashElement) : Nat :=
  es.countP fun he2 => he2.hasKey he.hash he.key

/-- When an element came to the head of the list, the list had at most `maxkeys` of its key. -/
def Capped : List HashElement → Prop
  | [] => True
  | he :: es => (he.maxkeys ≠ 0 → countFor (he :: es) he ≤ he.maxkeys) ∧ Capped es

/-- Elements that leave the list only make room. -/
theorem Capped.sublist {es es' : List HashElement} (h : es'.Sublist es) (hes : Capped es) :
    Capped es' := by
  induction h with
  | slnil => trivial
  | cons he _ ih => exact ih hes.2
  | cons_cons he hsub ih =>
    refine ⟨fun hmax => ?_, ih hes.2⟩
    exact ((hsub.cons_cons he).countP_le).trans (hes.1 hmax)

theorem Capped.countP_le {es : List HashElement} (h : Capped es) {hash : BitVec 32} {key : Key}
    {m : Nat} (hm : ∀ he ∈ es, he.hasKey hash key → he.maxkeys ≠ 0 ∧ he.maxkeys ≤ m) :
    (es.countP fun he => he.hasKey hash key) ≤ m := by
  induction es with
  | nil => simp
  | cons he es ih =>
    by_cases hkey : he.hasKey hash key
    · obtain ⟨hne, hle⟩ := hm he (by simp) hkey
      have hcount := h.1 hne
      simp only [HashElement.hasKey, Bool.and_eq_true, decide_eq_true_eq] at hkey
      rw [countFor, hkey.1, hkey.2] at hcount
      exact hcount.trans hle
    · rw [List.countP_cons_of_neg (by simpa using hkey)]
      exact ih h.2 fun he' hhe' => hm he' (by simp [hhe'])

/-- How many elements the loop has passed when `prev` was the last of them. -/
def passed (es : List HashElement) : Option HashElement → Nat
  | none => 0
  | some he => es.idxOf he + 1

theorem next_eq (es : List HashElement) (prev : Option HashElement) :
    next es prev = es[passed es prev]? := by
  cases prev <;> simp [next, passed, List.head?_eq_getElem?]

theorem take_passed_next {es : List HashElement} {prev : Option HashElement} {he : HashElement}
    (hes : es.Nodup) (h : next es prev = some he) :
    es.take (passed es (some he)) = es.take (passed es prev) ++ [he] := by
  rw [next_eq] at h
  obtain ⟨hlt, hget⟩ := List.getElem?_eq_some_iff.1 h
  have hidx : es.idxOf he = passed es prev := by
    rw [← hget]
    exact List.Nodup.idxOf_getElem hes _ _
  rw [passed, hidx, List.take_add_one, h]
  rfl

theorem take_passed_end {es : List HashElement} {prev : Option HashElement}
    (h : next es prev = none) : es.take (passed es prev) = es := by
  rw [next_eq] at h
  exact List.take_of_length_le (List.getElem?_eq_none_iff.1 h)

/-! ## The loop of `psync_cache_add` -/

/-- What the loop has counted. -/
def Pc.Counts (s : State) : Pc → Prop
  | .addNext he prev l =>
    l < he.maxkeys ∧
      l = countFor
        ((s.bucket (bucketOf he.hash)).take (passed (s.bucket (bucketOf he.hash)) prev)) he
  | .addHead he => he.maxkeys ≠ 0 → countFor (s.bucket (bucketOf he.hash)) he < he.maxkeys
  | _ => True

/-- No list has more of a key than it was allowed to. -/
structure Limited (s : State) : Prop where
  capped : ∀ b, Capped (s.bucket b)
  counts : ∀ t, (s.pc t).Counts s

/-- The place only depends on the list that the thread has locked. -/
theorem Pc.Counts.congr (seed : BitVec 32) {p : Pc} (h : p.Counts s)
    (hbucket : ∀ b, (p.view seed).list = some b → s'.bucket b = s.bucket b) : p.Counts s' := by
  cases p <;> try trivial
  case addNext he prev l =>
    rw [Pc.Counts, hbucket _ rfl]
    exact h
  case addHead he =>
    rw [Pc.Counts, hbucket _ rfl]
    exact h

/-- The lists and the places after a step. -/
structure Moved (s s' : State) (t : Nat) (list : Option Nat) (p' : Pc) : Prop where
  pc : s'.pc = Function.update s.pc t p'
  bucket : s'.bucket = s.bucket ∨ ∃ b he, list = some b ∧
    s'.bucket = Function.update s.bucket b ((s.bucket b).erase he)

theorem moved_setPc {list : Option Nat} {p' : Pc} : Moved s (s.setPc t p') t list p' :=
  ⟨rfl, .inl rfl⟩

theorem moved_lock {list : Option Nat} {p' : Pc} {m : Nat} (h : s.lock t m p' = some s') :
    Moved s s' t list p' := by
  unfold State.lock at h
  split at h
  · cases h
    exact ⟨rfl, .inl rfl⟩
  · cases h

theorem moved_timerStop {list : Option Nat} {p' p'' : Pc} {he : HashElement} :
    Moved s (s.timerStop t he p' p'') t list p' ∨ Moved s (s.timerStop t he p' p'') t list p'' := by
  unfold State.timerStop
  split
  · exact .inl ⟨rfl, .inl rfl⟩
  · exact .inr ⟨rfl, .inl rfl⟩
  · exact .inl ⟨rfl, .inl rfl⟩

theorem moved_listDel {p' : Pc} {b : Nat} {he : HashElement} :
    Moved s (s.listDel t b he p') t (some b) p' :=
  ⟨rfl, .inr ⟨b, he, rfl, rfl⟩⟩

/-- The places where the count matters. -/
def Pc.counting : Pc → Bool
  | .addNext .. => true
  | .addHead .. => true
  | _ => false

theorem Pc.Counts.of_not_counting {p : Pc} (h : p.counting = false) : p.Counts s := by
  cases p
  case addNext | addHead => exact absurd h (by simp [Pc.counting])
  all_goals trivial

theorem cleanTo_counting (only : Option (List Key)) (b : Nat) (l1 : Option HashElement) :
    (cleanTo only b l1).counting = false := by
  cases l1 <;> rfl

/-- Outside `psync_cache_add` nothing is put into a list and nothing is counted. -/
theorem stepOf_spec {p : Pc} (hstep : stepOf seed s t p = some s')
    (hlock : ∀ he, p ≠ .addLock he) (hnext : ∀ he prev l, p ≠ .addNext he prev l)
    (hhead : ∀ he, p ≠ .addHead he) :
    ∃ p', Moved s s' t (p.view seed).list p' ∧ p'.counting = false := by
  cases p <;> simp only [stepOf, getStep, hasStep, addStep, delStep, cleanStep, reduceCtorEq,
    Option.some.injEq] at hstep
  case addLock he => exact absurd rfl (hlock he)
  case addNext he prev l => exact absurd rfl (hnext he prev l)
  case addHead he => exact absurd rfl (hhead he)
  case getLock | hasLock | delLock | cleanLock => exact ⟨_, moved_lock hstep, rfl⟩
  case getNext | delNext | hasNext =>
    split at hstep
    · cases hstep
      exact ⟨_, moved_setPc, rfl⟩
    · split at hstep <;> cases hstep <;> exact ⟨_, moved_setPc, rfl⟩
  case getStop | delStop =>
    cases hstep
    rcases moved_timerStop with hmoved | hmoved <;> exact ⟨_, hmoved, rfl⟩
  case getDel | delDel | cleanDel =>
    cases hstep
    exact ⟨_, moved_listDel, rfl⟩
  case cleanFirst only b =>
    cases hstep
    exact ⟨_, moved_setPc, cleanTo_counting only b _⟩
  case cleanLoop only b l1 =>
    split at hstep
    · cases hstep
      exact ⟨_, moved_setPc, rfl⟩
    · cases hstep
      exact ⟨_, moved_setPc, cleanTo_counting only b _⟩
  case cleanStop only b l1 l2 =>
    cases hstep
    rcases moved_timerStop with hmoved | hmoved
    · exact ⟨_, hmoved, rfl⟩
    · exact ⟨_, hmoved, cleanTo_counting only b _⟩
  case cleanFree only b l1 l2 =>
    cases hstep
    exact ⟨_, ⟨rfl, .inl rfl⟩, cleanTo_counting only b _⟩
  case cleanUnlock only b =>
    cases hstep
    exact ⟨_, ⟨rfl, .inl rfl⟩, by split <;> rfl⟩
  case process todo =>
    cases todo with
    | nil =>
      cases hstep
      exact ⟨_, ⟨rfl, .inl rfl⟩, rfl⟩
    | cons he todo =>
      cases hstep
      exact ⟨_, moved_setPc, rfl⟩
  case timerLock he todo => exact ⟨_, moved_lock hstep, rfl⟩
  case timerDel he todo =>
    cases hstep
    exact ⟨_, moved_listDel, rfl⟩
  case timerStop he todo =>
    cases hstep
    rcases moved_timerStop with hmoved | hmoved <;> exact ⟨_, hmoved, rfl⟩
  all_goals
    cases hstep
    exact ⟨_, ⟨rfl, .inl rfl⟩, rfl⟩

/-- A thread that has locked a list keeps the others from changing it. -/
theorem Owned.list_unique (h : Owned seed s) {t' b b' : Nat}
    (hlist : (s.views seed t).list = some b)
    (hlist' : (s.views seed t').list = some b') (hlock : lockOfBucket b = lockOfBucket b') :
    t' = t := by
  obtain ⟨place, h⟩ := h
  have hheld := (h.locked.mutex (lockOfBucket b) t).2 ⟨b, hlist, rfl⟩
  rw [(h.locked.mutex (lockOfBucket b) t').2 ⟨b', hlist', hlock.symm⟩] at hheld
  cases hheld
  rfl

/-- A step that only changes the list that the thread has locked keeps the counts of the other
threads. -/
theorem Limited.of_step (h : Limited s) (howned : Owned seed s) {p' : Pc}
    (hpc : s'.pc = Function.update s.pc t p')
    (hbucket : ∀ b, (s.views seed t).list ≠ some b → s'.bucket b = s.bucket b)
    (hcapped : ∀ b, Capped (s'.bucket b)) (hcounts : p'.Counts s') : Limited s' := by
  refine ⟨hcapped, fun t' => ?_⟩
  rw [hpc]
  by_cases ht : t' = t
  · subst ht
    simpa using hcounts
  · rw [Function.update_of_ne ht]
    refine Pc.Counts.congr seed (h.counts t') fun b hb => hbucket b fun hb' => ?_
    exact ht (howned.list_unique hb' hb rfl)

theorem Limited.moved (h : Limited s) (howned : Owned seed s) {p' : Pc}
    (hmoved : Moved s s' t (s.views seed t).list p') (hcounts : p'.Counts s') : Limited s' := by
  refine h.of_step howned hmoved.pc ?_ ?_ hcounts
  · intro b hb
    rcases hmoved.bucket with heq | ⟨b', he, hlist, heq⟩
    · rw [heq]
    · have hne : b ≠ b' := by
        rintro rfl
        exact hb hlist
      rw [heq, Function.update_of_ne hne]
  · intro b
    rcases hmoved.bucket with heq | ⟨b', he, -, heq⟩
    · rw [heq]
      exact h.capped b
    · rw [heq]
      by_cases hb : b = b'
      · subst hb
        rw [Function.update_self]
        exact (h.capped b).sublist List.erase_sublist
      · rw [Function.update_of_ne hb]
        exact h.capped b

theorem limited_stepOf (h : Limited s) (howned : Owned seed s)
    (hstep : stepOf seed s t (s.pc t) = some s') : Limited s' := by
  have hcounts := h.counts t
  have hview : s.views seed t = (s.pc t).view seed := rfl
  generalize s.pc t = p at hstep hcounts hview
  by_cases hlock : ∃ he, p = .addLock he
  · obtain ⟨he, rfl⟩ := hlock
    simp only [stepOf, addStep] at hstep
    refine h.moved howned (moved_lock hstep) ?_
    split
    case isTrue hzero => exact fun hmax => absurd hzero hmax
    case isFalse hmax => exact ⟨Nat.pos_of_ne_zero hmax, by simp [passed, countFor]⟩
  by_cases hnext : ∃ he prev l, p = .addNext he prev l
  · obtain ⟨he, prev, l, rfl⟩ := hnext
    obtain ⟨hl, hcount⟩ := hcounts
    have hnodup : (s.bucket (bucketOf he.hash)).Nodup := by
      obtain ⟨place, hinv⟩ := howned
      exact hinv.placed.nodup _
    simp only [stepOf, addStep] at hstep
    split at hstep
    case h_1 hend =>
      cases hstep
      refine h.moved howned moved_setPc fun _ => ?_
      rw [take_passed_end hend] at hcount
      exact hcount ▸ hl
    case h_2 he2 hsome =>
      have htake := take_passed_next hnodup hsome
      split at hstep
      case isTrue hkey =>
        split at hstep
        · cases hstep
          exact h.moved howned moved_setPc trivial
        case isFalse hmax =>
          cases hstep
          refine h.moved howned moved_setPc ⟨by omega, ?_⟩
          simp only [setPc_bucket, htake, countFor, List.countP_append] at hcount ⊢
          rw [← hcount, List.countP_singleton, if_pos hkey]
      case isFalse hkey =>
        cases hstep
        refine h.moved howned moved_setPc ⟨hl, ?_⟩
        simp only [setPc_bucket, htake, countFor, List.countP_append] at hcount ⊢
        rw [← hcount, List.countP_singleton, if_neg hkey]
        rfl
  by_cases hhead : ∃ he, p = .addHead he
  · obtain ⟨he, rfl⟩ := hhead
    simp only [stepOf, addStep, Option.some.injEq] at hstep
    cases hstep
    refine h.of_step howned rfl ?_ ?_ trivial
    · intro b hb
      have hne : b ≠ bucketOf he.hash := by
        rintro rfl
        exact hb (by rw [hview]; rfl)
      exact Function.update_of_ne hne _ _
    · intro b
      by_cases hb : b = bucketOf he.hash
      · subst hb
        simp only [State.listAddHead, Function.update_self]
        refine ⟨fun hmax => ?_, h.capped _⟩
        have hlt := hcounts hmax
        rw [countFor, List.countP_cons_of_pos (by simp [HashElement.hasKey])]
        exact hlt
      · simp only [State.listAddHead, Function.update_of_ne hb]
        exact h.capped b
  push Not at hlock hnext hhead
  obtain ⟨p', hmoved, hcounting⟩ := stepOf_spec hstep hlock hnext hhead
  exact h.moved howned (hview ▸ hmoved) (.of_not_counting hcounting)

theorem limited_step (h : Limited s) (howned : Owned seed s) (hstep : Step seed s s') :
    Limited s' := by
  cases hstep with
  | start t op hpc =>
    cases op <;> exact h.of_step howned rfl (fun _ _ => rfl) h.capped trivial
  | run t hrun => exact limited_stepOf h howned hrun
  | drain fired => exact h.of_step howned rfl (fun _ _ => rfl) h.capped trivial

theorem limited_of_reachable (h : Reachable seed s) : Limited s := by
  induction h with
  | refl => exact ⟨fun _ => trivial, fun _ => trivial⟩
  | tail hreach hstep ih => exact limited_step ih (owned_of_reachable hreach) hstep

/-! ## What the cache promises -/

/-- The events about an element are its departures. -/
theorem count_events (log : List Event) (he : HashElement) :
    log.count (.returned he) + log.count (.freed he) =
      log.countP fun e => decide (e.element = he) := by
  induction log with
  | nil => rfl
  | cons e log ih =>
    simp only [List.count_cons, List.countP_cons, ← ih]
    cases e with
    | returned he' => by_cases hhe : he' = he <;> simp [Event.element, hhe]; omega
    | freed he' => by_cases hhe : he' = he <;> simp [Event.element, hhe]; omega

theorem timerStop_added {p' p'' : Pc} {he : HashElement} :
    (s.timerStop t he p' p'').added = s.added := by
  unfold State.timerStop
  split <;> rfl

/-- Only the beginning of a call makes elements. -/
theorem stepOf_added {p : Pc} (hstep : stepOf seed s t p = some s') : s'.added = s.added := by
  cases p <;> simp only [stepOf, getStep, hasStep, addStep, delStep, cleanStep, timerStep,
    State.lock, reduceCtorEq, Option.some.injEq] at hstep
  case process todo => cases todo <;> cases hstep <;> rfl
  all_goals repeat' split at hstep
  all_goals cases hstep
  all_goals first | rfl | exact timerStop_added

/-- An element has the hash of its key. -/
theorem hash_of_added (h : Reachable seed s) : ∀ he ∈ s.added, he.hash = hashFunc seed he.key := by
  induction h with
  | refl => simp [init]
  | tail _ hstep ih =>
    cases hstep with
    | start t op _ =>
      cases op with
      | add key value free maxkeys =>
        simp only [start, List.mem_append, List.mem_singleton]
        rintro he (hhe | rfl)
        · exact ih he hhe
        · rfl
      | _ => exact ih
    | run t hrun =>
      rw [stepOf_added hrun]
      exact ih
    | drain => exact ih

/-- A thread is about to read or change a list only while it holds its mutex. -/
theorem mutex_of_accesses (h : Owned seed s) {b : Nat} (ha : (s.pc t).accesses seed = some b) :
    s.mutex (lockOfBucket b) = some t := by
  obtain ⟨place, h⟩ := h
  refine (h.locked.mutex _ _).2 ⟨b, ?_, rfl⟩
  rw [← ha, State.views]
  generalize s.pc t = p at ha
  cases p <;> first | rfl | cases ha

/-- While no call is under way, the timer of an element in the table is armed. -/
theorem armed_of_idle (h : Owned seed s) (hidle : ∀ t, s.pc t = .idle) {b : Nat}
    {he : HashElement} (hmem : he ∈ s.bucket b) : s.timer he.id = .armed := by
  obtain ⟨place, h⟩ := h
  have hview : ∀ t, s.views seed t = {} := fun t => by rw [State.views, hidle t]; rfl
  cases htimer : s.timer he.id with
  | armed => rfl
  | none =>
    obtain ⟨t, ht⟩ := h.timed.ofNone b he hmem htimer
    rw [hview] at ht
    cases ht
  | running st =>
    have htimers := h.timed.running he (h.placed.ofBucket b he hmem).1 st htimer
    rw [h.timed.quiet (by rw [hview])] at htimers
    cases htimers

/-- When its timer fires, the value is freed. -/
theorem freed_by_timer (h : Owned seed s) (hidle : ∀ t, s.pc t = .idle) {b : Nat}
    {he : HashElement} (hmem : he ∈ s.bucket b) :
    ∃ s', Relation.ReflTransGen (Step seed) s s' ∧ s'.log = s.log ++ [.freed he] := by
  have harmed := armed_of_idle h hidle hmem
  have hfree : s.mutex (lockOf he.hash) = none := by
    obtain ⟨place, h⟩ := h
    by_contra hheld
    obtain ⟨t, ht⟩ := Option.ne_none_iff_exists'.1 hheld
    obtain ⟨b, hb, -⟩ := (h.locked.mutex _ _).1 ht
    rw [State.views, hidle t] at hb
    cases hb
  have hin : he ∈ s.added := by
    obtain ⟨place, h⟩ := h
    exact (h.placed.ofBucket b he hmem).1
  have hdrain : Step seed s (drain s [he]) := by
    refine .drain [he] (hidle 0) (List.nodup_singleton he) fun he' hhe' => ?_
    rw [List.mem_singleton] at hhe'
    subst hhe'
    exact ⟨hin, harmed⟩
  have hlock : stepOf seed ((drain s [he]).setPc 0 (.timerLock he [])) 0 (.timerLock he []) =
      some { (drain s [he]).setPc 0 (.timerDel he []) with
        mutex := Function.update s.mutex (lockOf he.hash) (some 0) } := by
    simp only [stepOf, timerStep, State.lock]
    rw [if_pos (by exact hfree)]
    simp only [State.setPc, Function.update_idem]
    rfl
  exact ⟨_, .tail (.tail (.tail (.tail (.tail (.tail .refl hdrain) (.run 0 rfl)) (.run 0 hlock))
    (.run 0 rfl)) (.run 0 rfl)) (.run 0 rfl), rfl⟩

/-- In every state that the threads reach, each value that was passed to `psync_cache_add` is in
the table, or in the hands of one thread, or has been returned or freed, once; with no call
under way it is in the table with its timer armed, and freed when that fires.  Each
list is only touched under one mutex, and no key has more values than it was allowed to. -/
theorem value_has_one_owner (h : Reachable seed s) :
    (∃ place : HashElement → Place, ∀ he ∈ s.added,
      (place he = .table ↔ he ∈ s.bucket (bucketOf he.hash)) ∧
      (∀ t, place he = .thread t ↔ (s.views seed t).owns = some he) ∧
      s.log.count (.returned he) + s.log.count (.freed he) =
        if place he = .gone then 1 else 0) ∧
    (∀ e ∈ s.log, e.element ∈ s.added) ∧
    ((∀ t, s.pc t = .idle) → ∀ he ∈ s.added,
      s.log.count (.returned he) + s.log.count (.freed he) = 0 →
      s.timer he.id = .armed ∧
        ∃ s', Relation.ReflTransGen (Step seed) s s' ∧ s'.log = s.log ++ [.freed he]) ∧
    (∀ hash : BitVec 32, lockOf hash = lockOfBucket (bucketOf hash)) ∧
    (∀ t b, (s.pc t).accesses seed = some b → s.mutex (lockOfBucket b) = some t) ∧
    s.misuse = false ∧ (∀ b, Capped (s.bucket b)) ∧
    (∀ key m, (∀ he ∈ s.added, he.key = key → he.maxkeys ≠ 0 ∧ he.maxkeys ≤ m) →
      (∀ b, b ≠ bucketOf (hashFunc seed key) → ∀ he ∈ s.bucket b, he.key ≠ key) ∧
      ((s.bucket (bucketOf (hashFunc seed key))).countP fun he => decide (he.key = key)) ≤ m) := by
  have howned := owned_of_reachable h
  have hlimited := limited_of_reachable h
  obtain ⟨place, hinv⟩ := id howned
  have hplaced := hinv.placed
  have hdepart : ∀ he ∈ s.added, s.log.count (.returned he) + s.log.count (.freed he) =
      if place he.id = .gone then 1 else 0 := by
    intro he hhe
    rw [count_events]
    exact hplaced.departed he hhe
  have htable : ∀ he ∈ s.added, place he.id = .table ↔ he ∈ s.bucket (bucketOf he.hash) :=
    fun he hhe => ⟨hplaced.ofTable he hhe, fun hmem => (hplaced.ofBucket _ he hmem).2.2⟩
  refine ⟨⟨fun he => place he.id, fun he hhe => ⟨htable he hhe, fun t => ?_, hdepart he hhe⟩⟩,
    hplaced.logged, ?_, lockOf_eq, fun t b => mutex_of_accesses howned, hinv.locked.sound,
    hlimited.capped, ?_⟩
  · exact ⟨hplaced.ofThread he hhe t, fun howns => (hplaced.owns t he howns).2⟩
  · intro hidle he hhe hzero
    have hmem : he ∈ s.bucket (bucketOf he.hash) := by
      cases hplace : place he.id with
      | table => exact (htable he hhe).1 hplace
      | thread t =>
        have howns := hplaced.ofThread he hhe t hplace
        rw [State.views, hidle t] at howns
        cases howns
      | gone =>
        have := hdepart he hhe
        rw [if_pos hplace] at this
        omega
    exact ⟨armed_of_idle howned hidle hmem, freed_by_timer howned hidle hmem⟩
  · intro key m hm
    have hhash := hash_of_added h
    constructor
    · rintro b hb he hhe rfl
      obtain ⟨hin, hbucket, -⟩ := hplaced.ofBucket b he hhe
      rw [hhash he hin] at hbucket
      exact hb hbucket.symm
    · have hallowed : ∀ he ∈ s.bucket (bucketOf (hashFunc seed key)),
          he.hasKey (hashFunc seed key) key → he.maxkeys ≠ 0 ∧ he.maxkeys ≤ m := by
        intro he hhe hkey
        simp only [HashElement.hasKey, Bool.and_eq_true, decide_eq_true_eq] at hkey
        exact hm he (hplaced.ofBucket _ he hhe).1 hkey.2
      have hle := (hlimited.capped (bucketOf (hashFunc seed key))).countP_le hallowed
      refine le_trans (le_of_eq (List.countP_congr fun he hhe => ?_)) hle
      have hin := (hplaced.ofBucket _ he hhe).1
      simp only [HashElement.hasKey, Bool.and_eq_true, decide_eq_true_eq]
      refine ⟨fun hkey => ⟨?_, hkey⟩, fun hkey => hkey.2⟩
      rw [hhash he hin, hkey]

/-- A value is added by one thread and returned to another: it is not freed. -/
theorem value_has_one_owner_returned :
    ∃ s : State, Reachable 0 s ∧
      s.log.count (.returned ⟨0, 7, 0, hashFunc 0 [97#8], [97#8], 1⟩) = 1 ∧
      s.log.count (.freed ⟨0, 7, 0, hashFunc 0 [97#8], [97#8], 1⟩) = 0 := by
  have hadd : Relation.ReflTransGen (Step 0) init _ :=
    .tail (.tail (.tail (.tail (.tail (.tail .refl (.start 1 (.add [97#8] 7 0 1) rfl))
      (.run 1 rfl)) (.run 1 rfl)) (.run 1 rfl)) (.run 1 rfl)) (.run 1 rfl)
  have hget := hadd.tail (.start 2 (.get [97#8]) rfl) |>.tail (.run 2 rfl) |>.tail (.run 2 rfl)
    |>.tail (.run 2 rfl) |>.tail (.run 2 rfl) |>.tail (.run 2 rfl) |>.tail (.run 2 rfl)
  obtain ⟨s, hreach, hadded, hlog⟩ : ∃ s, Reachable 0 s ∧
      s.added = [⟨0, 7, 0, hashFunc 0 [97#8], [97#8], 1⟩] ∧
      s.log = [.returned ⟨0, 7, 0, hashFunc 0 [97#8], [97#8], 1⟩] := ⟨_, hget, rfl, rfl⟩
  obtain ⟨⟨place, hplace⟩, -⟩ := value_has_one_owner hreach
  have hcount := (hplace _ (by rw [hadded]; exact List.mem_singleton_self _)).2.2
  have hone : s.log.count (.returned ⟨0, 7, 0, hashFunc 0 [97#8], [97#8], 1⟩) = 1 := by
    rw [hlog]
    exact List.count_singleton_self
  refine ⟨s, hreach, hone, ?_⟩
  split at hcount <;> omega

end PcloudClient.Pcache
