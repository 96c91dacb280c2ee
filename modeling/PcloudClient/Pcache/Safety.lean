/-
  Pcache/Safety.lean --- every step of the cache is one of the moves of `Ownership`, and what
  follows for all interleavings.
-/
import PcloudClient.Pcache.Ownership

set_option autoImplicit false

namespace PcloudClient.Pcache

variable {seed : BitVec 32} {s s' : State} {place : Nat → Place} {t : Nat}

/-- The views of all threads. -/
def State.views (seed : BitVec 32) (s : State) (t : Nat) : View := (s.pc t).view seed

/-- The invariant of a state, with some place for each element. -/
def Owned (seed : BitVec 32) (s : State) : Prop := ∃ place, Inv s (s.views seed) place

theorem next_mem {es : List HashElement} {prev : Option HashElement} {he : HashElement}
    (h : next es prev = some he) : he ∈ es := by
  cases prev with
  | none => exact List.mem_of_mem_head? h
  | some he' => exact List.mem_of_mem_drop (List.mem_of_mem_head? h)

theorem next_ne {es : List HashElement} {prev he : HashElement} (hes : es.Nodup)
    (h : next es (some prev) = some he) : he ≠ prev := by
  rintro rfl
  simp only [next, List.head?_drop] at h
  obtain ⟨hlt, hget⟩ := List.getElem?_eq_some_iff.1 h
  have hidx : es.idxOf he = es.idxOf he + 1 := by
    nth_rewrite 1 [← hget]
    exact List.Nodup.idxOf_getElem hes _ _
  omega

attribute [local simp] Pc.view

section Steps

variable {p p' p'' : Pc} {he : HashElement} {b : Nat}

/-- The views after a step that puts the thread `t` at `p`. -/
theorem views_same (hpc : s'.pc = Function.update s.pc t p) :
    s'.views seed t = p.view seed ∧ ∀ t' ≠ t, s'.views seed t' = s.views seed t' := by
  constructor
  · simp [State.views, hpc]
  · intro t' ht
    simp [State.views, hpc, Function.update_of_ne ht]

theorem Owned.look (h : Owned seed s) (hpc : s.pc t = p)
    (hview : p'.view seed = { p.view seed with looks := (p'.view seed).looks })
    (hclaims : (p.view seed).claims = none)
    (hlooks : ∀ he ∈ (p'.view seed).looks,
      ∃ b, (p.view seed).list = some b ∧ he ∈ s.bucket b)
    (hnodup : (p'.view seed).looks.Nodup) : Owned seed (s.setPc t p') := by
  obtain ⟨place, h⟩ := h
  subst hpc
  have hpc' : (s.setPc t p').pc = Function.update s.pc t p' := rfl
  exact ⟨place, h.look ((views_same hpc').1.trans hview) (views_same hpc').2 hclaims hlooks hnodup⟩

theorem Owned.lock (h : Owned seed s) (hpc : s.pc t = p)
    (hstep : s.lock t (lockOfBucket b) p' = some s') (hlist : (p.view seed).list = none)
    (hview : p'.view seed = { p.view seed with list := some b }) : Owned seed s' := by
  obtain ⟨place, h⟩ := h
  subst hpc
  have hpc' : s'.pc = Function.update s.pc t p' := by
    unfold State.lock at hstep
    split at hstep
    · cases hstep; rfl
    · cases hstep
  exact ⟨place, h.lock hstep hlist ((views_same hpc').1.trans hview) (views_same hpc').2⟩

theorem Owned.unlock (h : Owned seed s) (hpc : s.pc t = p) (hlist : (p.view seed).list = some b)
    (hlooks : (p.view seed).looks = [])
    (hview : p'.view seed = { p.view seed with list := none }) :
    Owned seed (s.unlock t (lockOfBucket b) p') := by
  obtain ⟨place, h⟩ := h
  subst hpc
  have hpc' : (s.unlock t (lockOfBucket b) p').pc = Function.update s.pc t p' := rfl
  exact ⟨place, h.unlock hlist hlooks ((views_same hpc').1.trans hview) (views_same hpc').2⟩

theorem setPc_timerStop :
    (s.setPc t p'').timerStop t he p' p'' = s.timerStop t he p' p'' := by
  simp only [State.timerStop, State.setPc, Function.update_idem]

/-- `psync_timer_stop` of an element of the list that the thread has locked. -/
theorem Owned.timerStop (h : Owned seed s) (hpc : s.pc t = p) (hlooks : he ∈ (p.view seed).looks)
    (hclaims : (p.view seed).claims = none) (hstopping : (p.view seed).stopping = none)
    (hview : p'.view seed = { p.view seed with claims := some he })
    (hview' : p''.view seed = { p.view seed with looks := (p''.view seed).looks })
    (hsub : (p''.view seed).looks.Sublist (p.view seed).looks) :
    Owned seed (s.timerStop t he p' p'') := by
  have hlook : Owned seed (s.setPc t p'') := by
    obtain ⟨place, hinv⟩ := id h
    subst hpc
    exact h.look rfl hview' hclaims
      (fun he' hhe' => hinv.locked.looks t he' (hsub.subset hhe'))
        (hsub.nodup (hinv.locked.nodup t))
  obtain ⟨place, h⟩ := h
  subst hpc
  obtain ⟨b, -, hmem⟩ := h.locked.looks t he hlooks
  cases htimer : s.timer he.id with
  | none => exact absurd htimer (h.timer_ne_none hlooks hclaims)
  | armed =>
    have hpc' : (s.timerStop t he p' p'').pc = Function.update s.pc t p' := by
      simp only [State.timerStop, htimer, State.setPc]
    exact ⟨place, h.claim hlooks htimer ((views_same hpc').1.trans hview) (views_same hpc').2
      hclaims⟩
  | running st =>
    -- the pointers that the thread gives up first, then the flag of the timer
    obtain ⟨place', h'⟩ := hlook
    have hstopping' : ((s.setPc t p'').views seed t).stopping = none := by
      have hpc'' : (s.setPc t p'').pc = Function.update s.pc t p'' := rfl
      rw [(views_same hpc'').1, hview']
      exact hstopping
    have hpc' : (s.timerStop t he p' p'').pc = (s.setPc t p'').pc := by
      simp only [State.timerStop, htimer, State.setPc]
    have hsame : ∀ t', (s.timerStop t he p' p'').views seed t' = (s.setPc t p'').views seed t' := by
      intro t'
      rw [State.views, State.views, hpc']
    rw [← setPc_timerStop] at hsame ⊢
    refine ⟨place', h'.stopRunning (h.placed.ofBucket b he hmem).1 htimer (.inl hstopping')
      ?_ fun t' _ => hsame t'⟩
    rw [hsame, ← hstopping']

/-- `psync_timer_stop` at the end of `cache_timer`. -/
theorem Owned.stopAfterRun (h : Owned seed s) (hpc : s.pc 0 = p)
    (hstopping : (p.view seed).stopping = some he)
    (hview : p'.view seed = { p.view seed with stopping := none }) :
    Owned seed (s.timerStop 0 he p' p') := by
  obtain ⟨place, h⟩ := h
  subst hpc
  have hmem := (h.timed.stopping he hstopping).1
  obtain ⟨hin, ⟨st, htimer⟩, -⟩ := h.timed.timers he hmem
  have hpc' : (s.timerStop 0 he p' p').pc = Function.update s.pc 0 p' := by
    simp only [State.timerStop, htimer, State.setPc]
  exact ⟨place, h.stopRunning hin htimer (.inr hstopping) ((views_same hpc').1.trans hview)
    (views_same hpc').2⟩

theorem Owned.listDel (h : Owned seed s) (hpc : s.pc t = p) (hlist : (p.view seed).list = some b)
    (hclaims : (p.view seed).claims = some he) (howns : (p.view seed).owns = none)
    (hview : p'.view seed = { p.view seed with
      looks := (p.view seed).looks.erase he, claims := none, owns := some he }) :
    Owned seed (s.listDel t b he p') := by
  obtain ⟨place, h⟩ := h
  subst hpc
  have hpc' : (s.listDel t b he p').pc = Function.update s.pc t p' := rfl
  exact h.unlink hlist hclaims howns ((views_same hpc').1.trans hview) (views_same hpc').2

theorem Owned.emit {e : Event} (h : Owned seed s) (hpc : s.pc t = p)
    (howns : (p.view seed).owns = some e.element)
    (hview : p'.view seed = { p.view seed with owns := none }) : Owned seed (s.emit t e p') := by
  obtain ⟨place, h⟩ := h
  subst hpc
  have hpc' : (s.emit t e p').pc = Function.update s.pc t p' := rfl
  exact h.emit howns ((views_same hpc').1.trans hview) (views_same hpc').2

/-- The timer thread is the only one that calls timers. -/
theorem Owned.eq_zero (h : Owned seed s) (hpc : s.pc t = p)
    (hpending : (p.view seed).pending.isSome) : t = 0 := by
  obtain ⟨place, h⟩ := h
  subst hpc
  by_contra ht
  have hnone : ((s.pc t).view seed).pending = none := (h.timed.others t ht).1
  rw [hnone] at hpending
  cases hpending

end Steps

/-! ## The programs -/

section Programs

variable {p : Pc}

theorem owned_getStep (h : Owned seed s) (hpc : s.pc t = p)
    (hstep : getStep seed s t p = some s') : Owned seed s' := by
  cases p <;> simp only [getStep, reduceCtorEq, Option.some.injEq] at hstep
  case getLock key =>
    rw [lockOf_eq] at hstep
    exact h.lock hpc hstep rfl rfl
  case getNext key prev =>
    split at hstep
    case h_1 =>
      cases hstep
      exact h.look hpc rfl rfl (by simp) .nil
    case h_2 he hnext =>
      have hmem := next_mem hnext
      split at hstep
      all_goals
        cases hstep
        exact h.look hpc rfl rfl (by simpa using hmem) (by simp)
  case getStop key he =>
    cases hstep
    exact h.timerStop hpc (by simp) rfl rfl rfl rfl (.refl _)
  case getDel key he =>
    cases hstep
    exact h.listDel hpc rfl rfl rfl (by simp)
  case getUnlock key he =>
    cases hstep
    rw [lockOf_eq]
    exact h.unlock hpc rfl rfl rfl
  case getReturn he =>
    cases hstep
    exact h.emit hpc rfl rfl
  case getMiss key =>
    cases hstep
    rw [lockOf_eq]
    exact h.unlock hpc rfl rfl rfl

theorem owned_hasStep (h : Owned seed s) (hpc : s.pc t = p)
    (hstep : hasStep seed s t p = some s') : Owned seed s' := by
  cases p <;> simp only [hasStep, reduceCtorEq, Option.some.injEq] at hstep
  case hasLock key =>
    rw [lockOf_eq] at hstep
    exact h.lock hpc hstep rfl rfl
  case hasNext key prev =>
    split at hstep
    case h_1 =>
      cases hstep
      exact h.look hpc rfl rfl (by simp) .nil
    case h_2 he hnext =>
      have hmem := next_mem hnext
      split at hstep
      · cases hstep
        exact h.look hpc rfl rfl (by simp) .nil
      · cases hstep
        exact h.look hpc rfl rfl (by simpa using hmem) (by simp)
  case hasUnlock key =>
    cases hstep
    rw [lockOf_eq]
    exact h.unlock hpc rfl rfl rfl

theorem owned_addStep (h : Owned seed s) (hpc : s.pc t = p)
    (hstep : addStep s t p = some s') : Owned seed s' := by
  cases p <;> simp only [addStep, reduceCtorEq, Option.some.injEq] at hstep
  case addLock he =>
    rw [lockOf_eq] at hstep
    exact h.lock hpc hstep rfl (by split <;> rfl)
  case addNext he prev l =>
    split at hstep
    case h_1 =>
      cases hstep
      exact h.look hpc rfl rfl (by simp) .nil
    case h_2 he2 hnext =>
      have hmem := next_mem hnext
      split at hstep
      · split at hstep
        · cases hstep
          exact h.look hpc rfl rfl (by simp) .nil
        · cases hstep
          exact h.look hpc rfl rfl (by simpa using hmem) (by simp)
      · cases hstep
        exact h.look hpc rfl rfl (by simpa using hmem) (by simp)
  case addRefuse he =>
    cases hstep
    rw [lockOf_eq]
    exact h.unlock hpc rfl rfl rfl
  case addFree he =>
    cases hstep
    exact h.emit hpc rfl rfl
  case addHead he =>
    cases hstep
    obtain ⟨place, h⟩ := h
    have hpc' : (s.listAddHead t (bucketOf he.hash) he (.addRegister he)).pc =
      Function.update s.pc t (.addRegister he) := rfl
    have hview : s.views seed t = (Pc.addHead he).view seed := by rw [State.views, hpc]
    exact h.link (by rw [hview]; rfl) (by rw [hview]; rfl) (by rw [hview]; rfl) (by rw [hview]; rfl)
      (by rw [hview]; rfl) ((views_same hpc').1.trans (by rw [hview]; rfl)) (views_same hpc').2
  case addRegister he =>
    cases hstep
    obtain ⟨place, h⟩ := h
    have hpc' : (s.timerRegister t he (.addUnlock he)).pc =
      Function.update s.pc t (.addUnlock he) := rfl
    have hview : s.views seed t = (Pc.addRegister he).view seed := by rw [State.views, hpc]
    exact ⟨place, h.register (by rw [hview]; rfl) ((views_same hpc').1.trans (by rw [hview]; rfl))
      (views_same hpc').2⟩
  case addUnlock he =>
    cases hstep
    rw [lockOf_eq]
    exact h.unlock hpc rfl rfl rfl

theorem owned_delStep (h : Owned seed s) (hpc : s.pc t = p)
    (hstep : delStep seed s t p = some s') : Owned seed s' := by
  cases p <;> simp only [delStep, reduceCtorEq, Option.some.injEq] at hstep
  case delLock key =>
    rw [lockOf_eq] at hstep
    exact h.lock hpc hstep rfl rfl
  case delNext key prev =>
    split at hstep
    case h_1 =>
      cases hstep
      exact h.look hpc rfl rfl (by simp) .nil
    case h_2 he hnext =>
      have hmem := next_mem hnext
      split at hstep
      all_goals
        cases hstep
        exact h.look hpc rfl rfl (by simpa using hmem) (by simp)
  case delStop key he =>
    cases hstep
    exact h.timerStop hpc (by simp) rfl rfl rfl rfl (.refl _)
  case delDel key he =>
    cases hstep
    exact h.listDel hpc rfl rfl rfl (by simp)
  case delUnlock key he =>
    cases hstep
    rw [lockOf_eq]
    exact h.unlock hpc rfl rfl rfl
  case delFree key he =>
    cases hstep
    exact h.emit hpc rfl rfl
  case delMiss key =>
    cases hstep
    rw [lockOf_eq]
    exact h.unlock hpc rfl rfl rfl

theorem cleanTo_view (only : Option (List Key)) (b : Nat) (l1 : Option HashElement) :
    (cleanTo only b l1).view seed = { list := some b, looks := l1.toList } := by
  cases l1 <;> rfl

theorem owned_cleanStep (h : Owned seed s) (hpc : s.pc t = p)
    (hstep : cleanStep s t p = some s') : Owned seed s' := by
  cases p <;> simp only [cleanStep, reduceCtorEq, Option.some.injEq] at hstep
  case cleanLock only b => exact h.lock hpc hstep rfl rfl
  case cleanFirst only b =>
    cases hstep
    refine h.look hpc (by rw [cleanTo_view]; rfl) rfl ?_ ?_
    · intro he hhe
      rw [cleanTo_view] at hhe
      exact ⟨b, rfl, next_mem (Option.mem_toList.1 hhe)⟩
    · rw [cleanTo_view]
      cases next (s.bucket b) none <;> simp
  case cleanLoop only b l1 =>
    have hnodup : (s.bucket b).Nodup := by
      obtain ⟨place, h⟩ := h
      exact h.placed.nodup b
    have hmem : l1 ∈ s.bucket b := by
      obtain ⟨place, h⟩ := h
      have hview : s.views seed t = (Pc.cleanLoop only b l1).view seed := by rw [State.views, hpc]
      obtain ⟨b', hb', hmem⟩ := h.locked.looks t l1 (by rw [hview]; simp)
      rw [hview] at hb'
      cases hb'
      exact hmem
    split at hstep
    · cases hstep
      refine h.look hpc rfl rfl ?_ ?_
      · intro he hhe
        simp only [Pc.view, List.mem_cons, Option.mem_toList] at hhe
        rcases hhe with rfl | hhe
        · exact ⟨b, rfl, hmem⟩
        · exact ⟨b, rfl, next_mem hhe⟩
      · simp only [Pc.view, List.nodup_cons, Option.mem_toList]
        refine ⟨fun hnext => next_ne hnodup hnext rfl, ?_⟩
        cases next (s.bucket b) (some l1) <;> simp
    · cases hstep
      refine h.look hpc (by rw [cleanTo_view]; rfl) rfl ?_ ?_
      · intro he hhe
        rw [cleanTo_view] at hhe
        exact ⟨b, rfl, next_mem (Option.mem_toList.1 hhe)⟩
      · rw [cleanTo_view]
        cases next (s.bucket b) (some l1) <;> simp
  case cleanStop only b l1 l2 =>
    cases hstep
    refine h.timerStop hpc (by simp) rfl rfl rfl (by rw [cleanTo_view]; rfl) ?_
    rw [cleanTo_view]
    exact .cons _ (.refl _)
  case cleanDel only b l1 l2 =>
    cases hstep
    exact h.listDel hpc rfl rfl rfl (by simp)
  case cleanFree only b l1 l2 =>
    cases hstep
    exact h.emit hpc rfl (by rw [cleanTo_view]; rfl)
  case cleanUnlock only b =>
    cases hstep
    exact h.unlock hpc rfl rfl (by split <;> rfl)

theorem owned_timerStep (h : Owned seed s) (hpc : s.pc t = p)
    (hstep : timerStep s t p = some s') : Owned seed s' := by
  cases p <;> try simp only [timerStep, reduceCtorEq, Option.some.injEq] at hstep
  case process todo =>
    obtain rfl := h.eq_zero hpc rfl
    cases todo with
    | nil =>
      simp only [Option.some.injEq] at hstep
      cases hstep
      obtain ⟨place, h⟩ := h
      have hpc' : (s.rearm 0 .idle).pc = Function.update s.pc 0 .idle := rfl
      have hview : s.views seed 0 = (Pc.process []).view seed := by rw [State.views, hpc]
      exact ⟨place, h.rearm (by rw [hview]; rfl) (by rw [hview]; rfl) (by rw [hview]; rfl)
        ((views_same hpc').1.trans (by rw [hview]; rfl)) (views_same hpc').2⟩
    | cons he todo =>
      simp only [Option.some.injEq] at hstep
      cases hstep
      exact h.look hpc rfl rfl (by simp) .nil
  case timerLock he todo =>
    rw [lockOf_eq] at hstep
    exact h.lock hpc hstep rfl rfl
  case timerDel he todo =>
    cases hstep
    obtain rfl := h.eq_zero hpc rfl
    obtain ⟨place, h⟩ := h
    have hpc' : (s.listDel 0 (bucketOf he.hash) he (.timerUnlock he todo)).pc =
      Function.update s.pc 0 (.timerUnlock he todo) := rfl
    have hview : s.views seed 0 = (Pc.timerDel he todo).view seed := by rw [State.views, hpc]
    exact h.fire (by rw [hview]; rfl) (by rw [hview]; rfl) (by rw [hview]; rfl) (by rw [hview]; rfl)
      (by rw [hview]; rfl) (by rw [hview]; rfl) ((views_same hpc').1.trans (by rw [hview]; rfl))
      (views_same hpc').2
  case timerUnlock he todo =>
    cases hstep
    rw [lockOf_eq]
    exact h.unlock hpc rfl rfl rfl
  case timerFree he todo =>
    cases hstep
    exact h.emit hpc rfl rfl
  case timerStop he todo =>
    cases hstep
    obtain rfl := h.eq_zero hpc rfl
    exact h.stopAfterRun hpc rfl rfl

/-- A step of a thread in a call. -/
theorem owned_stepOf (h : Owned seed s) (hstep : stepOf seed s t (s.pc t) = some s') :
    Owned seed s' := by
  generalize hpc : s.pc t = p at hstep
  cases p <;> simp only [stepOf, reduceCtorEq] at hstep <;> first
    | exact owned_getStep h hpc hstep
    | exact owned_hasStep h hpc hstep
    | exact owned_addStep h hpc hstep
    | exact owned_delStep h hpc hstep
    | exact owned_cleanStep h hpc hstep
    | exact owned_timerStep h hpc hstep

end Programs

theorem owned_start (h : Owned seed s) (hpc : s.pc t = .idle) (op : Op) :
    Owned seed (start seed s t op) := by
  cases op with
  | add key value free maxkeys =>
    obtain ⟨place, h⟩ := h
    have hpc' : (start seed s t (.add key value free maxkeys)).pc = Function.update s.pc t
      (.addLock ⟨s.added.length, value, free, hashFunc seed key, key, maxkeys⟩) := rfl
    have hview : s.views seed t = Pc.idle.view seed := by rw [State.views, hpc]
    exact h.create rfl (by rw [hview]; rfl) ((views_same hpc').1.trans (by rw [hview]; rfl))
      (views_same hpc').2
  | _ => exact h.look hpc rfl rfl (by simp) .nil

theorem owned_step (h : Owned seed s) (hstep : Step seed s s') : Owned seed s' := by
  cases hstep with
  | start t op hpc => exact owned_start h hpc op
  | run t hrun => exact owned_stepOf h hrun
  | drain fired hpc hnodup hfired =>
    obtain ⟨place, h⟩ := h
    have hpc' : (drain s fired).pc = Function.update s.pc 0 (.process fired) := rfl
    have hview : s.views seed 0 = Pc.idle.view seed := by rw [State.views, hpc]
    exact ⟨place, h.drain hnodup hfired (by rw [hview]; rfl) (by rw [hview]; rfl)
      ((views_same hpc').1.trans (by rw [hview]; rfl)) (views_same hpc').2⟩

theorem owned_init : Owned seed init := by
  refine ⟨fun _ => .table, ?_, ?_, ?_⟩
  all_goals constructor <;> simp [init, State.views]

theorem owned_of_reachable (h : Reachable seed s) : Owned seed s := by
  induction h with
  | refl => exact owned_init
  | tail _ hstep ih => exact owned_step ih hstep

end PcloudClient.Pcache
