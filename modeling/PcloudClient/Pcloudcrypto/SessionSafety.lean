/-
  Pcloudcrypto/SessionSafety.lean --- what the crypto session keeps in every order of steps.

  The getters and the releases look at `crypto_started_un` and act later, without a check that
  counts.  `Fine` says of each of these later steps that the session was not stopped in
  between; in every run of such steps the session is safe.
-/
import Mathlib.Logic.Relation
import PcloudClient.Pcloudcrypto.Session

set_option autoImplicit false

namespace PcloudClient.Pcloudcrypto

namespace Pc

/-- What `crypto_started_l` is while a thread is there. -/
def relies : Pc → Option Bool
  | held g => if g.checksUn then some true else none
  | heldSym _ _ | heldDecrypt _ _ _ | heldAdd _ _ _ | startL | startUn => some true
  | startLoaded | stopCleared => some false
  | _ => none

/-- A stop that has cleared the session and has not returned. -/
def stopping : Pc → Bool
  | stopCleared | stopFreed | clean _ => true
  | _ => false

/-- A stop that has not come to the bucket `b` yet. -/
def willClean (b : Nat) : Pc → Bool
  | stopCleared | stopFreed => true
  | clean c => decide (c ≤ b)
  | _ => false

end Pc

variable {ι : Type} (bucket : Key → Fin CACHE_HASH_SIZE)

/-- The step is not one of those that go wrong. -/
def Fine (st : State ι) : Option ι → Prop
  | none => True
  | some t =>
    match st.pc t with
    -- an encoder is taken from the cache only while the session is started
    | .getLookup g => st.startedL = true ∨ cacheGet g.encoderKey st.cache = none
    -- one of the three getters takes the lock only while the session is started
    | .getLock g => g.checksUn = true → st.startedL = true
    -- no start has ended since the stop cleared `crypto_started_un`
    | .stopHeld => st.startedL = true → st.startedUn = false
    -- an encoder goes back to the cache while the session is started, or a stop still has to
    -- clean its bucket
    | .relAdd g => st.startedL = true ∨ ∃ u, (st.pc u).willClean (bucket g.encoderKey) = true
    -- the timer has taken out what it kept from the stop
    | .clean b => b = CACHE_HASH_SIZE → ∀ e ∈ st.cache, e.running = false
    | _ => True

/-- A step that does not go wrong. -/
def StepFine [DecidableEq ι] (st st' : State ι) : Prop :=
  ∃ t, Step bucket st t st' ∧ Fine bucket st t

/-- The session is safe: unless the lock is held for writing it is started only with the
private key loaded; while it is stopped no getter has used the private key or has come to
another result than `PSYNC_CRYPTO_NOT_STARTED`; and once the stops have returned nothing
decrypted is in the cache. -/
structure Safe (st : State ι) : Prop where
  loaded : (∀ t, (st.pc t).writes = false) → st.startedL = true → st.privkey = true
  unused : st.usedStopped = false
  refused : st.gaveStopped = false
  cleaned : st.startedL = false → (∀ t, (st.pc t).stopping = false) → st.cache = []

structure Inv (st : State ι) : Prop where
  excl : ∀ t, (st.pc t).writes = true → ∀ u, u ≠ t → (st.pc u).holds = false
  key : st.startedL = true → st.privkey = true
  loading : ∀ t, st.pc t = .startLoaded → st.privkey = true
  flags : st.startedUn = true → st.startedL = true
  relies : ∀ t v, (st.pc t).relies = some v → st.startedL = v
  covered : st.startedL = false → ∀ e ∈ st.cache,
    e.running = true ∨ ∃ t, (st.pc t).willClean (bucket e.key) = true
  emptied : st.startedL = false → st.cache ≠ [] → ∃ t, (st.pc t).stopping = true
  unused : st.usedStopped = false
  refused : st.gaveStopped = false

/-- How a thread may move. -/
structure Moves (st : State ι) (startedL : Bool) (x y : Pc) : Prop where
  writes : y.writes = true → x.writes = true ∨ ∀ u, (st.pc u).holds = false
  holds : y.holds = true → x.holds = true ∨ ∀ u, (st.pc u).writes = false
  relies : ∀ v, y.relies = some v → startedL = v

/-- Where it stays as far as a stop is concerned. -/
structure Stays (x y : Pc) : Prop where
  willClean : ∀ b, x.willClean b = true → y.willClean b = true
  stopping : x.stopping = true → y.stopping = true

section

variable {bucket} {st st' : State ι} {t : ι} {x y : Pc}

theorem Inv.safe (h : Inv bucket st) : Safe st where
  loaded _ := h.key
  unused := h.unused
  refused := h.refused
  cleaned hL hnone := by
    by_contra hne
    obtain ⟨t, ht⟩ := h.emptied hL hne
    rw [hnone t] at ht
    exact nomatch ht

theorem inv_init : Inv bucket (State.init : State ι) where
  excl _ h := nomatch h
  key h := nomatch h
  loading _ h := nomatch h
  flags h := nomatch h
  relies _ _ h := nomatch h
  covered _ _ h := nomatch h
  emptied _ h := absurd rfl h
  unused := rfl
  refused := rfl

/-- The cache loses or gains entries. -/
theorem Inv.recache (h : Inv bucket st) {cache : List Entry}
    (hcache : ∀ e ∈ cache, e ∈ st.cache ∨ (st.startedL = false →
      ∃ u, (st.pc u).willClean (bucket e.key) = true)) : Inv bucket { st with cache } where
  excl := h.excl
  key := h.key
  loading := h.loading
  flags := h.flags
  relies := h.relies
  covered hfalse e he := by
    rcases hcache e he with hold | hnew
    · exact h.covered hfalse e hold
    · exact Or.inr (hnew hfalse)
  emptied hfalse hne := by
    obtain ⟨e, he⟩ := List.exists_mem_of_ne_nil _ hne
    rcases hcache e he with hold | hnew
    · exact h.emptied hfalse (List.ne_nil_of_mem hold)
    · obtain ⟨u, hu⟩ := hnew hfalse
      refine ⟨u, ?_⟩
      cases hpcu : st.pc u <;> rw [hpcu] at hu <;> first | rfl | exact nomatch hu
  unused := h.unused
  refused := h.refused

/-- The private key is used in a started session. -/
theorem Inv.use (h : Inv bucket st) (hL : st.startedL = true) :
    Inv bucket { st with usedStopped := st.usedStopped || !st.startedL } := by
  refine ⟨h.excl, h.key, h.loading, h.flags, h.relies, h.covered, h.emptied, ?_, h.refused⟩
  change (st.usedStopped || !st.startedL) = false
  rw [h.unused, hL]
  rfl

theorem mem_cacheGet {key : Key} {cache cache' : List Entry}
    (h : cacheGet key cache = some cache') :
    ∀ e ∈ cache', e ∈ cache := by
  unfold cacheGet at h
  split at h
  · obtain rfl := Option.some.inj h
    exact fun e he => List.mem_of_mem_eraseP he
  · exact nomatch h

theorem mem_cacheAdd {key : Key} {cache : List Entry} {e : Entry} (h : e ∈ cacheAdd key cache) :
    e ∈ cache ∨ e.key = key := by
  unfold cacheAdd at h
  split at h
  · exact Or.inl h
  · rcases List.mem_cons.mp h with rfl | h
    · exact Or.inr rfl
    · exact Or.inl h

/-- A timer makes its entry one that is taken out, or takes it out. -/
theorem Inv.timer (h : Inv bucket st) {cache : List Entry}
    (hcache : ∀ e ∈ cache, e.running = true ∨ e ∈ st.cache) (hne : cache ≠ [] → st.cache ≠ []) :
    Inv bucket { st with cache } :=
  ⟨h.excl, h.key, h.loading, h.flags, h.relies,
    fun hfalse e he => (hcache e he).elim Or.inl fun hold => h.covered hfalse e hold,
    fun hfalse hc => h.emptied hfalse (hne hc), h.unused, h.refused⟩

theorem holds_of_relies {z : Pc} {v : Bool} (h : z.relies = some v) : z.holds = true := by
  cases z <;> first | rfl | simp [Pc.relies] at h

/-- Somebody who has the lock for writing is alone in it. -/
theorem Inv.relies_alone (h : Inv bucket st) (hx : st.pc t = x) (hw : x.writes = true) (l : Bool) :
    ∀ u v, u ≠ t → (st.pc u).relies = some v → l = v := by
  intro u v hut hu
  have hfree := h.excl t (hx ▸ hw) u hut
  rw [holds_of_relies hu] at hfree
  exact nomatch hfree

theorem writes_of_free {z : Pc} (h : z.holds = false) : z.writes = false := by
  cases z <;> first | rfl | exact nomatch h

theorem added_started (hL : st.startedL = true) {key : Key} :
    ∀ e ∈ cacheAdd key st.cache, e ∈ st.cache ∨ (st.startedL = false →
      ∃ u, (st.pc u).willClean (bucket e.key) = true) :=
  fun _ _ => Or.inr fun hfalse => absurd (hL.symm.trans hfalse) nofun

variable [DecidableEq ι]

/-- Who is where after a move of `t`. -/
theorem exists_update {p : Pc → Bool} (hx : st.pc t = x) (hpc : st'.pc = Function.update st.pc t y)
    (hxy : p x = true → p y = true) (h : ∃ u, p (st.pc u) = true) : ∃ u, p (st'.pc u) = true := by
  obtain ⟨u, hu⟩ := h
  refine ⟨u, ?_⟩
  rw [hpc]
  by_cases hut : u = t
  · subst hut
    rw [Function.update_self]
    exact hxy (hx ▸ hu)
  · rw [Function.update_of_ne hut]
    exact hu

theorem Inv.excl_move (h : Inv bucket st) (hx : st.pc t = x)
    (hpc : st'.pc = Function.update st.pc t y) {l : Bool} (hmoves : Moves st l x y) :
    ∀ a, (st'.pc a).writes = true → ∀ u, u ≠ a → (st'.pc u).holds = false := by
  intro a ha u hua
  rw [hpc] at ha ⊢
  by_cases hat : a = t
  · subst hat
    rw [Function.update_self] at ha
    rw [Function.update_of_ne hua]
    rcases hmoves.writes ha with hw | hfree
    · exact h.excl a (hx ▸ hw) u hua
    · exact hfree u
  · rw [Function.update_of_ne hat] at ha
    by_cases hut : u = t
    · subst hut
      rw [Function.update_self]
      cases hy : y.holds with
      | false => rfl
      | true =>
        rcases hmoves.holds hy with hhold | hfree
        · have := h.excl a ha u hua
          rw [hx, hhold] at this
          exact nomatch this
        · rw [hfree a] at ha
          exact nomatch ha
    · rw [Function.update_of_ne hut]
      exact h.excl a ha u hua

theorem relies_move (hpc : st'.pc = Function.update st.pc t y) {l : Bool} (hmoves : Moves st l x y)
    (hother : ∀ u v, u ≠ t → (st.pc u).relies = some v → l = v) :
    ∀ u v, (st'.pc u).relies = some v → l = v := by
  intro u v hu
  rw [hpc] at hu
  by_cases hut : u = t
  · subst hut
    rw [Function.update_self] at hu
    exact hmoves.relies v hu
  · rw [Function.update_of_ne hut] at hu
    exact hother u v hut hu

theorem Inv.loading_move (h : Inv bucket st) (hx : st.pc t = x)
    (hpc : st'.pc = Function.update st.pc t y) (hy : y = .startLoaded → st'.privkey = true)
    (hkeep : st'.privkey = st.privkey ∨ x.writes = true) :
    ∀ u, st'.pc u = .startLoaded → st'.privkey = true := by
  intro u hu
  rw [hpc] at hu
  by_cases hut : u = t
  · subst hut
    rw [Function.update_self] at hu
    exact hy hu
  · rw [Function.update_of_ne hut] at hu
    rcases hkeep with hkeep | hw
    · rw [hkeep]
      exact h.loading u hu
    · have hfree := h.excl t (hx ▸ hw) u hut
      rw [hu] at hfree
      exact nomatch hfree

/-- A thread moves; `crypto_started_l` stays, and what is new in the cache is covered. -/
theorem Inv.move (h : Inv bucket st) (hx : st.pc t = x) (hpc : st'.pc = Function.update st.pc t y)
    (hmoves : Moves st st.startedL x y) (hstays : Stays x y) (hL : st'.startedL = st.startedL)
    (hkey : st.startedL = true → st'.privkey = true)
    (hloaded : y = .startLoaded → st'.privkey = true)
    (hkeep : st'.privkey = st.privkey ∨ x.writes = true)
    (hflags : st'.startedUn = true → st.startedL = true)
    (hcache : ∀ e ∈ st'.cache, e ∈ st.cache ∨ (st.startedL = false →
      ∃ u, (st.pc u).willClean (bucket e.key) = true))
    (hunused : st'.usedStopped = false) (hrefused : st'.gaveStopped = false) : Inv bucket st' where
  excl := h.excl_move hx hpc hmoves
  key := by rw [hL]; exact hkey
  loading := h.loading_move hx hpc hloaded hkeep
  flags := by rw [hL]; exact hflags
  relies := by rw [hL]; exact relies_move hpc hmoves fun u v _ => h.relies u v
  covered hfalse e he := by
    rw [hL] at hfalse
    have hclean := exists_update (p := Pc.willClean (bucket e.key)) hx hpc (hstays.willClean _)
    rcases hcache e he with hold | hnew
    · exact (h.covered hfalse e hold).imp_right hclean
    · exact Or.inr (hclean (hnew hfalse))
  emptied hfalse hne := by
    rw [hL] at hfalse
    have hstop := exists_update (p := Pc.stopping) hx hpc hstays.stopping
    obtain ⟨e, he⟩ := List.exists_mem_of_ne_nil _ hne
    rcases hcache e he with hold | hnew
    · exact hstop (h.emptied hfalse (List.ne_nil_of_mem hold))
    · obtain ⟨u, hu⟩ := hnew hfalse
      refine hstop ⟨u, ?_⟩
      cases hpcu : st.pc u <;> rw [hpcu] at hu <;> first | rfl | exact nomatch hu
  unused := hunused
  refused := hrefused

/-- A thread that is in no stop moves, and nothing else changes. -/
theorem Inv.go (h : Inv bucket st) (hx : st.pc t = x) (hmoves : Moves st st.startedL x y)
    (hstays : Stays x y) (hy : y ≠ .startLoaded) : Inv bucket (st.go t y) :=
  h.move hx rfl hmoves hstays rfl h.key (fun h => absurd h hy) (Or.inl rfl) h.flags
    (fun _ he => Or.inl he) h.unused h.refused

/-- A getter comes to a result in a started session, or to `PSYNC_CRYPTO_NOT_STARTED`. -/
theorem Inv.settle (h : Inv bucket st) (hx : st.pc t = x) {r : Result}
    (hmoves : Moves st st.startedL x y) (hstays : Stays x y) (hy : y ≠ .startLoaded)
    (hr : st.startedL = true ∨ r = .notStarted) : Inv bucket (st.settle t r y) := by
  refine h.move hx rfl hmoves hstays rfl h.key (fun h => absurd h hy) (Or.inl rfl) h.flags
    (fun _ he => Or.inl he) h.unused ?_
  change (st.gaveStopped || (!st.startedL && decide (r ≠ .notStarted))) = false
  rw [h.refused]
  rcases hr with hr | hr <;> simp [hr]

/-- `crypto_started_l` is set, with the private key loaded. -/
theorem Inv.setL (h : Inv bucket st) (hx : st.pc t = .startLoaded) (hkey : st.privkey = true) :
    Inv bucket { st.go t .startL with startedL := true } := by
  have hmoves : Moves st true .startLoaded .startL :=
    ⟨fun _ => Or.inl rfl, fun _ => Or.inl rfl, fun v hv => Option.some.inj hv⟩
  exact ⟨h.excl_move hx rfl hmoves, fun _ => hkey, h.loading_move hx rfl nofun (Or.inl rfl),
    fun _ => rfl,
    relies_move rfl hmoves (h.relies_alone hx rfl true), nofun, nofun, h.unused, h.refused⟩

/-- `crypto_started_l` is cleared; the stop that does it covers the whole cache. -/
theorem Inv.clearL (h : Inv bucket st) (hx : st.pc t = .stopHeld) (hun : st.startedUn = false) :
    Inv bucket { st.go t .stopCleared with startedL := false } := by
  have hmoves : Moves st false .stopHeld .stopCleared :=
    ⟨fun _ => Or.inl rfl, fun _ => Or.inl rfl, fun v hv => Option.some.inj hv⟩
  have hthere : Function.update st.pc t .stopCleared t = .stopCleared := Function.update_self ..
  exact ⟨h.excl_move hx rfl hmoves, nofun, h.loading_move hx rfl nofun (Or.inl rfl),
    fun hset => absurd (hun.symm.trans hset) nofun,
    relies_move rfl hmoves (h.relies_alone hx rfl false),
    fun _ _ _ => Or.inr ⟨t, congrArg (Pc.willClean _) hthere⟩,
    fun _ _ => ⟨t, congrArg Pc.stopping hthere⟩, h.unused, h.refused⟩

/-- A stop cleans a bucket: what it does not cover any more is gone. -/
theorem Inv.cleanBucket (h : Inv bucket st) {b : Nat} (hx : st.pc t = .clean b) :
    Inv bucket ({ st with cache := cleanBucket bucket b st.cache }.go t (.clean (b + 1))) := by
  have hmoves : Moves st st.startedL (.clean b) (.clean (b + 1)) := ⟨nofun, nofun, nofun⟩
  have hthere : Function.update st.pc t (.clean (b + 1)) t = .clean (b + 1) :=
    Function.update_self ..
  refine ⟨h.excl_move hx rfl hmoves, h.key, h.loading_move hx rfl nofun (Or.inl rfl), h.flags,
    relies_move rfl hmoves fun u v _ => h.relies u v, fun hfalse e he => ?_,
    fun hfalse _ => ⟨t, congrArg Pc.stopping hthere⟩, h.unused, h.refused⟩
  obtain ⟨hold, hkept⟩ := List.mem_filter.mp he
  rcases h.covered hfalse e hold with hrun | ⟨u, hu⟩
  · exact Or.inl hrun
  · rcases of_decide_eq_true hkept with hne | hrun
    · refine Or.inr ⟨u, ?_⟩
      change Pc.willClean _ (Function.update st.pc t (.clean (b + 1)) u) = true
      by_cases hut : u = t
      · subst hut
        rw [hx] at hu
        rw [Function.update_self]
        simp only [Pc.willClean, decide_eq_true_eq] at hu ⊢
        omega
      · rw [Function.update_of_ne hut]
        exact hu
    · exact Or.inl hrun

/-- A stop returns: what is left in the cache waits for another stop. -/
theorem Inv.stopReturn (h : Inv bucket st) (hx : st.pc t = .clean CACHE_HASH_SIZE)
    (hrun : ∀ e ∈ st.cache, e.running = false) : Inv bucket (st.go t .idle) := by
  have hmoves : Moves st st.startedL (.clean CACHE_HASH_SIZE) .idle := ⟨nofun, nofun, nofun⟩
  have hcovered : st.startedL = false → ∀ e ∈ st.cache,
      ∃ u, ((st.go t .idle).pc u).willClean (bucket e.key) = true := by
    intro hfalse e he
    obtain ⟨u, hu⟩ := (h.covered hfalse e he).resolve_left (by rw [hrun e he]; nofun)
    refine ⟨u, ?_⟩
    change Pc.willClean _ (Function.update st.pc t .idle u) = true
    have hut : u ≠ t := by
      rintro rfl
      rw [hx] at hu
      have hlt := (bucket e.key).isLt
      simp only [Pc.willClean, decide_eq_true_eq] at hu
      omega
    rw [Function.update_of_ne hut]
    exact hu
  refine ⟨h.excl_move hx rfl hmoves, h.key, h.loading_move hx rfl nofun (Or.inl rfl), h.flags,
    relies_move rfl hmoves fun u v _ => h.relies u v,
    fun hfalse e he => Or.inr (hcovered hfalse e he), fun hfalse hne => ?_, h.unused, h.refused⟩
  obtain ⟨e, he⟩ := List.exists_mem_of_ne_nil _ hne
  obtain ⟨u, hu⟩ := hcovered hfalse e he
  refine ⟨u, ?_⟩
  cases hpcu : (st.go t .idle).pc u <;> rw [hpcu] at hu <;> first | rfl | exact nomatch hu

theorem Inv.step (h : Inv bucket st) {a : Option ι} (hs : Step bucket st a st')
    (hfine : Fine bucket st a) : Inv bucket st' := by
  cases hs with
  | @call t g hpc =>
    refine h.go hpc ?_ ⟨nofun, nofun⟩ (by split <;> nofun)
    split
    · exact ⟨nofun, nofun, nofun⟩
    · exact ⟨nofun, nofun, nofun⟩
  | @check t g hpc =>
    split
    · refine h.go hpc ?_ ⟨nofun, nofun⟩ (by split <;> nofun)
      split
      · exact ⟨nofun, nofun, nofun⟩
      · exact ⟨nofun, nofun, nofun⟩
    · exact h.settle hpc ⟨nofun, nofun, nofun⟩ ⟨nofun, nofun⟩ nofun (Or.inr rfl)
  | @lookupHit t g cache hpc hget =>
    have hL : st.startedL = true := by
      simp only [Fine, hpc, hget] at hfine
      exact hfine.resolve_right nofun
    exact (h.recache fun e he => Or.inl (mem_cacheGet hget e he)).settle hpc ⟨nofun, nofun, nofun⟩
      ⟨nofun, nofun⟩ nofun (Or.inl hL)
  | @lookupMiss t g hpc hget => exact h.go hpc ⟨nofun, nofun, nofun⟩ ⟨nofun, nofun⟩ nofun
  | @rdlock t g hpc hfree =>
    simp only [Fine, hpc] at hfine
    refine h.go hpc ⟨nofun, fun _ => Or.inr hfree, fun v hv => ?_⟩ ⟨nofun, nofun⟩ nofun
    simp only [Pc.relies] at hv
    split at hv
    · next hun => rw [← Option.some.inj hv]; exact hfine hun
    · exact nomatch hv
  | @heldPositive t g hpc hun hid =>
    have hL : st.startedL = true := h.relies t true (by rw [hpc, Pc.relies, if_pos hun])
    exact h.go hpc ⟨nofun, fun _ => Or.inl rfl, fun v hv => hL.trans (Option.some.inj hv)⟩
      ⟨nofun, nofun⟩ nofun
  | @heldZero t g hpc hun hid =>
    have hL : st.startedL = true := h.relies t true (by rw [hpc, Pc.relies, if_pos hun])
    exact h.settle hpc ⟨nofun, fun _ => Or.inl rfl, nofun⟩ ⟨nofun, nofun⟩ nofun (Or.inl hL)
  | @heldTemp t g hpc hun hid =>
    have hL : st.startedL = true := h.relies t true (by rw [hpc, Pc.relies, if_pos hun])
    exact h.go hpc ⟨nofun, fun _ => Or.inl rfl, fun v hv => hL.trans (Option.some.inj hv)⟩
      ⟨nofun, nofun⟩ nofun
  | @heldModify t i k fileid hash hpc hid =>
    have hL : st.startedL = true := h.relies t true (by rw [hpc]; rfl)
    exact h.go hpc ⟨nofun, fun _ => Or.inl rfl, fun v hv => hL.trans (Option.some.inj hv)⟩
      ⟨nofun, nofun⟩ nofun
  | @heldTempError t g hpc hun hid =>
    have hL : st.startedL = true := h.relies t true (by rw [hpc, Pc.relies, if_pos hun])
    exact h.settle hpc ⟨nofun, fun _ => Or.inl rfl, nofun⟩ ⟨nofun, nofun⟩ nofun (Or.inl hL)
  | @heldBinresult t g hpc hun =>
    split
    · next hL =>
      exact h.go hpc ⟨nofun, fun _ => Or.inl rfl, fun v hv => hL.trans (Option.some.inj hv)⟩
        ⟨nofun, nofun⟩ nofun
    · exact h.settle hpc ⟨nofun, fun _ => Or.inl rfl, nofun⟩ ⟨nofun, nofun⟩ nofun (Or.inr rfl)
  | @symHit t g key cache hpc hget =>
    have hL : st.startedL = true := h.relies t true (by rw [hpc]; rfl)
    exact (h.recache fun e he => Or.inl (mem_cacheGet hget e he)).go hpc
      ⟨nofun, fun _ => Or.inl rfl, fun v hv => hL.trans (Option.some.inj hv)⟩ ⟨nofun, nofun⟩ nofun
  | @symHitBad t g key cache hpc hget =>
    have hL : st.startedL = true := h.relies t true (by rw [hpc]; rfl)
    exact (h.recache fun e he => Or.inl (mem_cacheGet hget e he)).settle hpc
      ⟨nofun, fun _ => Or.inl rfl, nofun⟩ ⟨nofun, nofun⟩ nofun (Or.inl hL)
  | @symMiss t g key hpc hget =>
    have hL : st.startedL = true := h.relies t true (by rw [hpc]; rfl)
    exact h.go hpc ⟨nofun, fun _ => Or.inl rfl, fun v hv => hL.trans (Option.some.inj hv)⟩
      ⟨nofun, nofun⟩ nofun
  | @symError t g key hpc hget =>
    have hL : st.startedL = true := h.relies t true (by rw [hpc]; rfl)
    exact h.settle hpc ⟨nofun, fun _ => Or.inl rfl, nofun⟩ ⟨nofun, nofun⟩ nofun (Or.inl hL)
  | @decryptKey t g key again hpc =>
    have hL : st.startedL = true := h.relies t true (by rw [hpc]; rfl)
    exact (h.use hL).go hpc ⟨nofun, fun _ => Or.inl rfl, fun v hv => hL.trans (Option.some.inj hv)⟩
      ⟨nofun, nofun⟩ nofun
  | @decryptTemp t g hpc =>
    have hL : st.startedL = true := h.relies t true (by rw [hpc]; rfl)
    exact (h.use hL).settle hpc ⟨nofun, fun _ => Or.inl rfl, nofun⟩ ⟨nofun, nofun⟩ nofun (Or.inl hL)
  | @decryptError t g key hpc =>
    have hL : st.startedL = true := h.relies t true (by rw [hpc]; rfl)
    exact (h.use hL).settle hpc ⟨nofun, fun _ => Or.inl rfl, nofun⟩ ⟨nofun, nofun⟩ nofun (Or.inl hL)
  | @addAgain t g key hpc =>
    have hL : st.startedL = true := h.relies t true (by rw [hpc]; rfl)
    exact (h.recache (added_started hL)).go hpc
      ⟨nofun, fun _ => Or.inl rfl, fun v hv => hL.trans (Option.some.inj hv)⟩ ⟨nofun, nofun⟩ nofun
  | @add t g key hpc =>
    have hL : st.startedL = true := h.relies t true (by rw [hpc]; rfl)
    exact (h.recache (added_started hL)).settle hpc ⟨nofun, fun _ => Or.inl rfl, nofun⟩
      ⟨nofun, nofun⟩ nofun
      (Or.inl hL)
  | @rdunlock t r hpc => exact h.go hpc ⟨nofun, nofun, nofun⟩ ⟨nofun, nofun⟩ nofun
  | @ret t r hpc => exact h.go hpc ⟨nofun, nofun, nofun⟩ ⟨nofun, nofun⟩ nofun
  | @release t g hpc => exact h.go hpc ⟨nofun, nofun, nofun⟩ ⟨nofun, nofun⟩ nofun
  | @relCheck t g hpc =>
    refine h.go hpc ?_ ⟨nofun, nofun⟩ (by split <;> nofun)
    split
    · exact ⟨nofun, nofun, nofun⟩
    · exact ⟨nofun, nofun, nofun⟩
  | @relAdd t g hpc =>
    simp only [Fine, hpc] at hfine
    refine (h.recache fun e he => ?_).go hpc ⟨nofun, nofun, nofun⟩ ⟨nofun, nofun⟩ nofun
    refine (mem_cacheAdd he).imp_right fun hkey hfalse => ?_
    rw [hkey]
    exact hfine.resolve_left (by rw [hfalse]; nofun)
  | @start t hpc => exact h.go hpc ⟨nofun, nofun, nofun⟩ ⟨nofun, nofun⟩ nofun
  | @startWrlock t hpc hfree =>
    exact h.go hpc ⟨fun _ => Or.inr hfree, fun _ => Or.inr fun u => writes_of_free (hfree u), nofun⟩
      ⟨nofun, nofun⟩ nofun
  | @startEnd t hpc => exact h.go hpc ⟨nofun, nofun, nofun⟩ ⟨nofun, nofun⟩ nofun
  | @startRetry t hpc hl => exact h.go hpc ⟨nofun, nofun, nofun⟩ ⟨nofun, nofun⟩ nofun
  | @startLoad t hpc hl =>
    exact h.move hpc rfl ⟨fun _ => Or.inl rfl, fun _ => Or.inl rfl,
      fun v hv => hl.trans (Option.some.inj hv)⟩ ⟨nofun, nofun⟩ rfl (fun _ => rfl) (fun _ => rfl)
        (Or.inr rfl) h.flags
      (fun _ he => Or.inl he) h.unused h.refused
  | @startMismatch t hpc =>
    have hL : st.startedL = false := h.relies t false (by rw [hpc]; rfl)
    exact h.move hpc rfl ⟨nofun, nofun, nofun⟩ ⟨nofun, nofun⟩ rfl
      (fun hset => absurd (hL.symm.trans hset) nofun) nofun (Or.inr rfl)
      h.flags (fun _ he => Or.inl he) h.unused h.refused
  | @startSetL t hpc => exact h.setL hpc (h.loading t hpc)
  | @startSetUn t hpc =>
    have hL : st.startedL = true := h.relies t true (by rw [hpc]; rfl)
    exact h.move hpc rfl ⟨fun _ => Or.inl rfl, fun _ => Or.inl rfl,
      fun v hv => hL.trans (Option.some.inj hv)⟩ ⟨nofun, nofun⟩ rfl h.key nofun (Or.inl rfl)
        (fun _ => hL)
      (fun _ he => Or.inl he) h.unused h.refused
  | @startUnlock t hpc => exact h.go hpc ⟨nofun, nofun, nofun⟩ ⟨nofun, nofun⟩ nofun
  | @stop t hpc => exact h.go hpc ⟨nofun, nofun, nofun⟩ ⟨nofun, nofun⟩ nofun
  | @stopClearUn t hpc =>
    exact h.move hpc rfl ⟨nofun, nofun, nofun⟩ ⟨nofun, nofun⟩ rfl h.key nofun (Or.inl rfl) nofun
      (fun _ he => Or.inl he) h.unused h.refused
  | @stopWrlock t hpc hfree =>
    exact h.go hpc ⟨fun _ => Or.inr hfree, fun _ => Or.inr fun u => writes_of_free (hfree u), nofun⟩
      ⟨nofun, nofun⟩ nofun
  | @stopNotStarted t hpc hl => exact h.go hpc ⟨nofun, nofun, nofun⟩ ⟨nofun, nofun⟩ nofun
  | @stopClearL t hpc hl =>
    simp only [Fine, hpc] at hfine
    exact h.clearL hpc (hfine hl)
  | @stopFree t hpc =>
    have hL : st.startedL = false := h.relies t false (by rw [hpc]; rfl)
    exact h.move hpc rfl ⟨fun _ => Or.inl rfl, fun _ => Or.inl rfl, nofun⟩
      ⟨fun _ _ => rfl, fun _ => rfl⟩ rfl (fun hset => absurd (hL.symm.trans hset) nofun) nofun
        (Or.inr rfl)
      h.flags
      (fun _ he => Or.inl he) h.unused h.refused
  | @stopUnlock t hpc =>
    exact h.go hpc ⟨nofun, nofun, nofun⟩ ⟨fun b _ => decide_eq_true (Nat.zero_le b), fun _ => rfl⟩
      nofun
  | @clean t b hpc hb => exact h.cleanBucket hpc
  | @stopReturn t hpc =>
    simp only [Fine, hpc] at hfine
    exact h.stopReturn hpc (hfine trivial)
  | @timerDue a b key hcache =>
    refine h.timer (fun e he => ?_) fun _ => by rw [hcache]; simp
    rw [hcache]
    rcases List.mem_append.mp he with he | he
    · exact Or.inr (List.mem_append_left _ he)
    · rcases List.mem_cons.mp he with rfl | he
      · exact Or.inl rfl
      · exact Or.inr (List.mem_append_right _ (List.mem_cons_of_mem _ he))
  | @timerRun a b key hcache =>
    refine h.timer (fun e he => Or.inr ?_) fun _ => by rw [hcache]; simp
    rw [hcache]
    rcases List.mem_append.mp he with he | he
    · exact List.mem_append_left _ he
    · exact List.mem_append_right _ (List.mem_cons_of_mem _ he)

/-- In every run whose steps do not go wrong the session is safe. -/
theorem session_safe (bucket : Key → Fin CACHE_HASH_SIZE) (st : State ι)
    (hrun : Relation.ReflTransGen (StepFine bucket) State.init st) : Safe st := by
  have hinv : Inv bucket st := by
    induction hrun with
    | refl => exact inv_init
    | tail _ hstep ih =>
      obtain ⟨t, hs, hfine⟩ := hstep
      exact ih.step hs hfine
  exact hinv.safe

end

/-! ## Runs -/

/-- A hash that puts everything in the first bucket. -/
def oneBucket (_ : Key) : Fin CACHE_HASH_SIZE := ⟨0, by decide⟩

/-- The entries that the first `b` buckets do not lose when they are cleaned. -/
def cleanBelow (bucket : Key → Fin CACHE_HASH_SIZE) (b : Nat) (cache : List Entry) : List Entry :=
  cache.filter fun e => b ≤ (bucket e.key).val ∨ e.running = true

theorem cleanBucket_cleanBelow (bucket : Key → Fin CACHE_HASH_SIZE) (b : Nat)
    (cache : List Entry) :
    cleanBucket bucket b (cleanBelow bucket b cache) = cleanBelow bucket (b + 1) cache := by
  rw [cleanBucket, cleanBelow, cleanBelow, List.filter_filter]
  refine List.filter_congr fun e _ => ?_
  rw [Bool.eq_iff_iff, Bool.and_eq_true, decide_eq_true_eq, decide_eq_true_eq, decide_eq_true_eq,
    ← and_or_right]
  refine or_congr_left ?_
  omega

/-- A stop cleans the buckets one by one. -/
theorem reaches_clean [DecidableEq ι] {bucket : Key → Fin CACHE_HASH_SIZE} {st : State ι} {t : ι}
    (hpc : st.pc t = .clean 0) {b : Nat} (hb : b ≤ CACHE_HASH_SIZE) :
    Relation.ReflTransGen (StepFine bucket) st
      ({ st with cache := cleanBelow bucket b st.cache }.go t (.clean b)) := by
  induction b with
  | zero =>
    have hcache : cleanBelow bucket 0 st.cache = st.cache :=
      List.filter_eq_self.mpr fun e _ => by simp
    have hsame : { st with cache := cleanBelow bucket 0 st.cache }.go t (.clean 0) = st := by
      rw [hcache, State.go, ← hpc, Function.update_eq_self]
    rw [hsame]
  | succ b ih =>
    have hat : ({ st with cache := cleanBelow bucket b st.cache }.go t (.clean b)).pc t =
        .clean b := Function.update_self ..
    have hstep := @Step.clean ι _ bucket _ t b hat hb
    have hfine : Fine bucket ({ st with cache := cleanBelow bucket b st.cache }.go t (.clean b))
        (some t) := by
      rw [Fine, hat]
      intro heq
      omega
    have hnext := (ih (Nat.le_of_lt hb)).tail ⟨some t, hstep, hfine⟩
    have hcache : ({ st with cache := cleanBelow bucket b st.cache }.go t (.clean b)).cache =
        cleanBelow bucket b st.cache := rfl
    rw [hcache, cleanBucket_cleanBelow] at hnext
    simpa only [State.go, Function.update_idem] using hnext

/-- `psync_cloud_crypto_start` by the thread `false`, a folder encoder got and released by the
thread `true`, and a stop by the first one, with the timer of the encoder due while the cache is
cleaned.  Behind the stop the second thread asks for the encoder again. -/
theorem session_safe_stopped :
    ∃ st : State Bool, Relation.ReflTransGen (StepFine oneBucket) State.init st ∧
      st.pc false = .idle ∧ st.cache = [] ∧ st.pc true = .returned .notStarted ∧ Safe st := by
  have h₁ := Relation.ReflTransGen.refl (r := StepFine oneBucket) (a := (State.init : State Bool))
    |>.tail ⟨some false, .start rfl, trivial⟩
    |>.tail ⟨some false, .startWrlock rfl (by decide), trivial⟩
    |>.tail ⟨some false, .startLoad rfl rfl, trivial⟩
    |>.tail ⟨some false, .startSetL rfl, trivial⟩
    |>.tail ⟨some false, .startSetUn rfl, trivial⟩
    |>.tail ⟨some false, .startUnlock rfl, trivial⟩
  have h₂ := h₁.tail ⟨some true, @Step.call Bool _ _ _ true (.folderEncoder 5) rfl, trivial⟩
    |>.tail ⟨some true, .check rfl, trivial⟩
    |>.tail ⟨some true, .lookupMiss rfl rfl, Or.inl rfl⟩
    |>.tail ⟨some true, .rdlock rfl (by decide), fun _ => rfl⟩
    |>.tail ⟨some true, .heldPositive rfl rfl (by decide), trivial⟩
    |>.tail ⟨some true, .symMiss rfl rfl, trivial⟩
    |>.tail ⟨some true, .decryptKey rfl, trivial⟩
    |>.tail ⟨some true, .add rfl, trivial⟩
    |>.tail ⟨some true, .rdunlock rfl, trivial⟩
    |>.tail ⟨some true, .ret rfl, trivial⟩
  have h₃ := h₂.tail ⟨some true, @Step.release Bool _ _ _ true (.folderEncoder 5) rfl, trivial⟩
    |>.tail ⟨some true, .relCheck rfl, trivial⟩
    |>.tail ⟨some true, .relAdd rfl, Or.inl rfl⟩
  have h₄ := h₃.tail ⟨some false, .stop rfl, trivial⟩
    |>.tail ⟨some false, .stopClearUn rfl, trivial⟩
    |>.tail ⟨some false, .stopWrlock rfl (by decide), trivial⟩
    |>.tail ⟨some false, .stopClearL rfl rfl, fun _ => rfl⟩
    |>.tail ⟨some false, .stopFree rfl, trivial⟩
    |>.tail ⟨some false, .stopUnlock rfl, trivial⟩
    |>.tail ⟨none, @Step.timerDue Bool _ _ _ [] [⟨⟨.fkey, 5, 0⟩, false⟩] ⟨.flde, 5, 0⟩ rfl, trivial⟩
  have h₅ := (h₄.trans (reaches_clean (t := false) rfl (Nat.le_refl _))).tail
      ⟨none, @Step.timerRun Bool _ _ _ [] [] ⟨.flde, 5, 0⟩ rfl, trivial⟩
    |>.tail ⟨some false, .stopReturn rfl, fun _ _ he => nomatch he⟩
  have h₆ := h₅.tail ⟨some true, @Step.call Bool _ _ _ true (.folderEncoder 5) rfl, trivial⟩
    |>.tail ⟨some true, .check rfl, trivial⟩
  exact ⟨_, h₆, rfl, rfl, rfl, session_safe _ _ h₆⟩

/-- A getter that has seen the session started takes the lock after a stop, and uses the
private key that is gone. -/
theorem privkey_used_stopped :
    ∃ st : State Bool,
      Relation.ReflTransGen (fun s s' => ∃ t, Step oneBucket s t s') State.init st ∧
      st.startedL = false ∧ st.privkey = false ∧ st.usedStopped = true ∧ ¬ Safe st := by
  have h₁ := Relation.ReflTransGen.refl (r := fun s s' => ∃ t, Step oneBucket s t s')
    (a := (State.init : State Bool))
    |>.tail ⟨some false, .start rfl⟩
    |>.tail ⟨some false, .startWrlock rfl (by decide)⟩
    |>.tail ⟨some false, .startLoad rfl rfl⟩
    |>.tail ⟨some false, .startSetL rfl⟩
    |>.tail ⟨some false, .startSetUn rfl⟩
    |>.tail ⟨some false, .startUnlock rfl⟩
  have h₂ := h₁.tail ⟨some true, @Step.call Bool _ _ _ true (.folderEncoder 5) rfl⟩
    |>.tail ⟨some true, .check rfl⟩
    |>.tail ⟨some true, .lookupMiss rfl rfl⟩
  have h₃ := h₂.tail ⟨some false, .stop rfl⟩
    |>.tail ⟨some false, .stopClearUn rfl⟩
    |>.tail ⟨some false, .stopWrlock rfl (by decide)⟩
    |>.tail ⟨some false, .stopClearL rfl rfl⟩
    |>.tail ⟨some false, .stopFree rfl⟩
    |>.tail ⟨some false, .stopUnlock rfl⟩
  have h₄ := h₃.tail ⟨some true, .rdlock rfl (by decide)⟩
    |>.tail ⟨some true, .heldPositive rfl rfl (by decide)⟩
    |>.tail ⟨some true, .symMiss rfl rfl⟩
    |>.tail ⟨some true, .decryptKey rfl⟩
  exact ⟨_, h₄, rfl, rfl, rfl, fun hsafe => nomatch hsafe.unused⟩

end PcloudClient.Pcloudcrypto
