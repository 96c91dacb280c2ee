/-
  Ppagecache/UrlCacheProofs.lean --- what the steps of a reading thread keep of the URL cache.
-/
import PcloudClient.Ppagecache.UrlCacheTree

set_option autoImplicit false

namespace PcloudClient.Ppagecache.UrlCache

variable {s s' : State} {i u : Nat} {th : Thread}

/-! ## Threads alone -/

/-- A thread goes on without a change of the cache. -/
theorem Inv.thread (h : Inv s) (hth : th.Balanced)
    (hholds : ∀ v, th.place.holds v = (s.threads i).place.holds v)
    (hfetching : ∀ v, th.place.fetching v = (s.threads i).place.fetching v)
    (huses : ∀ v, th.place = .uses v → (s.entries v).status ≠ .loading) :
    Inv (s.setThread i th) where
  tree := h.tree
  entry v := (h.entry v).frame rfl rfl rfl Iff.rfl Iff.rfl (hholds v) (hfetching v) (huses v)
  balanced := balanced_update h rfl hth

/-- A thread without an entry goes to a place without one. -/
theorem Inv.idle (h : Inv s) (hth : th.Balanced) (hwas : (s.threads i).place.entry = none)
    (his : th.place.entry = none) : Inv (s.setThread i th) := by
  have hno : ∀ v, (s.threads i).place.entry ≠ some v := fun v => by rw [hwas]; exact nofun
  have hno' : ∀ v, th.place.entry ≠ some v := fun v => by rw [his]; exact nofun
  refine h.thread hth (fun v => ?_) (fun v => ?_) (fun v hv => ?_)
  · rw [Place.holds_false (hno v), Place.holds_false (hno' v)]
  · rw [Place.fetching_false (hno v), Place.fetching_false (hno' v)]
  · exact absurd hv (Place.uses_false (hno' v))

theorem Inv.even (h : Inv s) (hi : ∀ u, (s.threads i).place ≠ .uses u) :
    (s.threads i).gets = (s.threads i).releases := by
  have hbal := h.balanced i
  unfold Thread.Balanced at hbal
  cases hplace : (s.threads i).place with
  | uses u => exact absurd hplace (hi u)
  | _ => simpa [hplace] using hbal

/-! ## The end of a use -/

theorem unref_eq (s : State) (u : Nat) : s.unref u =
    { s with
      entries := Function.update s.entries u ⟨(s.entries u).refcnt - 1, (s.entries u).status⟩
      freed := Function.update s.freed u
        (s.freed u + if (s.entries u).refcnt - 1 = 0 then 1 else 0) } := by
  unfold State.unref State.free State.setEntry
  simp only [Function.update_self]
  split
  · rfl
  · simp

/-- A thread that holds an entry leaves it: the entry is freed with its last holder, and is not on
the tree after that. -/
theorem Inv.leave (h : Inv s) (hi : (s.threads i).place.holds u = true) {st : Status}
    (hthreads : s'.threads = Function.update s.threads i th)
    (hentries : s'.entries = Function.update s.entries u ⟨(s.entries u).refcnt - 1, st⟩)
    (hfreed : s'.freed = Function.update s.freed u
      (s.freed u + if (s.entries u).refcnt - 1 = 0 then 1 else 0))
    (hnext : s'.next = s.next) (hst : st ≠ .loading)
    (htree : (s'.tree = s.tree ∧ st = (s.entries u).status ∧
        (st = .ready → (s.entries u).refcnt ≠ 1)) ∨
      (s'.tree = delNode s.tree u ∧ (s.entries u).status = .ready ∧
        (st = .bad ∨ (s.entries u).refcnt = 1)))
    (hgone : th.place.entry = none) (hth : th.Balanced) : Inv s' := by
  obtain ⟨hlive, hpos⟩ := (h.entry u).live hi
  have hwas : (s.entries u).status ≠ .loading := by
    rcases htree with ⟨-, heq, -⟩ | ⟨-, hready, -⟩
    · exact heq ▸ hst
    · rw [hready]
      exact nofun
  have hlt : u < s.next := (h.entry u).born fun hunborn => by
    rw [hunborn] at hpos
    exact absurd hpos (Nat.lt_irrefl 0)
  have hno : ∀ v, th.place.entry ≠ some v := fun v => by rw [hgone]; exact nofun
  -- The tree is either the old one or the one without the entry.
  have hrest : TreeOk s'.tree ∧ (∀ v, v ≠ u → (OnTree s'.tree v ↔ OnTree s.tree v)) ∧
      (OnTree s'.tree u ↔ (s.entries u).refcnt ≠ 1 ∧ st ≠ .bad) := by
    have honTree := (h.entry u).onTree
    rcases htree with ⟨heq, hsame, hlast⟩ | ⟨heq, hready, hend⟩
    · rw [heq]
      refine ⟨h.tree, fun _ _ => Iff.rfl, ?_⟩
      rw [honTree, ← hsame]
      refine ⟨fun ⟨_, hb⟩ => ⟨hlast ?_, hb⟩, fun ⟨_, hb⟩ => ⟨hlive, hb⟩⟩
      cases st <;> simp_all
    · obtain ⟨hok, hiff⟩ := h.tree.del (honTree.mpr ⟨hlive, by rw [hready]; exact nofun⟩)
      rw [heq]
      refine ⟨hok, fun v hv => ⟨fun hon => ((hiff v).mp hon).2, fun hon => (hiff v).mpr ⟨hv, hon⟩⟩,
        fun hon => absurd rfl ((hiff u).mp hon).1, fun ⟨hone, hbad⟩ => ?_⟩
      rcases hend with hend | hend
      · exact absurd hend hbad
      · exact absurd hend hone
  obtain ⟨hok, hothers, hself⟩ := hrest
  have hc : Changes s s' i u th ⟨(s.entries u).refcnt - 1, st⟩
      (s.freed u + if (s.entries u).refcnt - 1 = 0 then 1 else 0) :=
    { threads := hthreads
      entries := hentries
      freed := hfreed
      next := fun v _ => by rw [hnext]
      onTree := hothers
      was := fun v hv => by
        rw [Place.entry_of_holds hi]
        exact fun heq => hv (Option.some.inj heq).symm
      is := fun v _ => hno v }
  refine hc.inv h hok hth (hc.entryOk (h.entry u) hlive (by omega) ?_ ?_ ?_ ?_ ?_ ?_)
  · rw [hlive]
    split <;> omega
  · rw [Place.holds_false (hno u), hi, hlive]
    simp only [Bool.toNat_false, Bool.toNat_true]
    by_cases hone : (s.entries u).refcnt - 1 = 0
    · rw [if_pos hone, if_neg (by omega)]
      omega
    · rw [if_neg hone, if_pos rfl]
      omega
  · rw [Place.fetching_false (hno u), Place.fetching_of_holds hi, if_neg hwas,
      if_neg fun hand => hst hand.2]
  · rw [hself, hlive]
    have hiff : (s.entries u).refcnt ≠ 1 ↔
        0 + (if (s.entries u).refcnt - 1 = 0 then 1 else 0) = 0 := by
      split <;> omega
    rw [hiff]
  · exact fun hload => absurd hload hst
  · intro hzero
    right
    rw [hlive] at hzero
    split at hzero <;> dsimp only <;> omega

theorem Inv.holder (h : Inv s) (hi : (s.threads i).place = .uses u) :
    (s.threads i).place.holds u = true ∧ (s.entries u).status ≠ .loading :=
  ⟨by simp [hi, Place.holds], (h.entry u).used i hi⟩

/-- The thread of an entry after its release. -/
theorem Thread.Balanced.released (hbal : th.Balanced) (hi : th.place = .uses u) {p : Place}
    (hp : p.entry = none) :
    Thread.Balanced { th with place := p, releases := th.releases + 1 } := by
  unfold Thread.Balanced at hbal ⊢
  rw [hi] at hbal
  cases p <;> simp_all [Place.entry]

theorem Inv.releaseUrls (h : Inv s) (hi : (s.threads i).place = .uses u) {p : Place}
    (hp : p.entry = none) : Inv ((s.releaseUrls u).released i p) := by
  obtain ⟨hholds, hnot⟩ := h.holder hi
  have hth := (h.balanced i).released hi hp
  unfold State.releaseUrls State.released State.setThread
  by_cases hlast : (s.entries u).refcnt = 1 ∧ (s.entries u).status = .ready
  · rw [if_pos hlast, unref_eq]
    exact h.leave hholds rfl rfl rfl rfl hnot (.inr ⟨rfl, hlast.2, .inr hlast.1⟩) hp hth
  · rw [if_neg hlast, unref_eq]
    exact h.leave hholds rfl rfl rfl rfl hnot
      (.inl ⟨rfl, rfl, fun hready hone => hlast ⟨hone, hready⟩⟩) hp hth

theorem Inv.releaseBadUrls (h : Inv s) (hi : (s.threads i).place = .uses u) {p : Place}
    (hp : p.entry = none) : Inv ((s.releaseBadUrls u).released i p) := by
  obtain ⟨hholds, hnot⟩ := h.holder hi
  have hth := (h.balanced i).released hi hp
  unfold State.releaseBadUrls State.released State.setThread
  by_cases hready : (s.entries u).status = .ready
  · rw [if_pos hready, unref_eq]
    have hst : (Status.bad) ≠ .loading := nofun
    refine h.leave hholds rfl ?_ ?_ rfl hst (.inr ⟨rfl, hready, .inl rfl⟩) hp hth
    all_goals simp [State.setEntry]
  · rw [if_neg hready, unref_eq]
    exact h.leave hholds rfl rfl rfl rfl hnot (.inl ⟨rfl, rfl, fun heq => absurd heq hready⟩) hp hth

/-- A thread that waited for an entry that could not be had. -/
theorem Inv.givesUp (h : Inv s) (hi : (s.threads i).place = .waits u)
    (hbad : (s.entries u).status = .bad) : Inv ((s.unref u).goes i .ended) := by
  have hth : Thread.Balanced { s.threads i with place := .ended } :=
    h.even fun v => by rw [hi]; simp
  rw [unref_eq]
  exact h.leave (by simp [hi, Place.holds]) rfl rfl rfl rfl (by rw [hbad]; simp)
    (.inl ⟨rfl, rfl, fun hready => by rw [hbad] at hready; cases hready⟩) rfl hth

/-! ## The start of a use -/

/-- A thread without an entry refers to one of the tree, to wait for it or to use it. -/
theorem Inv.joins (h : Inv s) (hon : OnTree s.tree u) (hwas : (s.threads i).place.entry = none)
    (hholds : th.place.holds u = true)
    (huses : (s.entries u).status = .loading → th.place ≠ .uses u) (hth : th.Balanced) :
    Inv ((s.ref u).setThread i th) := by
  obtain ⟨hlive, hnot⟩ := (h.entry u).onTree.mp hon
  have hno : ∀ v, (s.threads i).place.entry ≠ some v := fun v => by rw [hwas]; exact nofun
  have hc : Changes s ((s.ref u).setThread i th) i u th
      ⟨(s.entries u).refcnt + 1, (s.entries u).status⟩ (s.freed u) :=
    { threads := rfl
      entries := rfl
      freed := (Function.update_eq_self u s.freed).symm
      next := fun _ _ => Iff.rfl
      onTree := fun _ _ => Iff.rfl
      was := fun v _ => hno v
      is := fun v hv => by
        rw [Place.entry_of_holds hholds]
        exact fun heq => hv (Option.some.inj heq).symm }
  have hlt : u < s.next := (h.entry u).born fun hunborn => hnot (by rw [hunborn])
  refine hc.inv h h.tree hth (hc.entryOk (h.entry u) hlive hlt (by omega) ?_ ?_ ?_ ?_ ?_)
  · rw [if_pos hlive, hholds, Place.holds_false (hno u)]
    rfl
  · rw [Place.fetching_of_holds hholds, Place.fetching_false (hno u)]
    simp [hlive]
  · exact (h.entry u).onTree
  · exact fun hload => ⟨huses hload, .inl hload⟩
  · exact fun _ => .inr (Nat.succ_pos _)

/-- A thread makes a new entry and is the one that fetches its URLs. -/
theorem Inv.newUrls (h : Inv s) (hi : (s.threads i).place = .retry)
    (hguided : Guided (s.threads i).hash s.tree)
    (hno : s.tree.searchPos (diff (s.threads i).hash) = none) : Inv (s.newUrls i) := by
  obtain ⟨hlive, hentry⟩ := (h.entry s.next).unborn (Nat.le_refl _)
  have hoff : ¬ OnTree s.tree s.next := by
    rw [(h.entry s.next).onTree, hentry]
    exact fun hon => hon.2 rfl
  obtain ⟨htree, hiff⟩ := h.tree.add hguided hno hoff
  have hnone : ∀ v, (s.threads i).place.entry ≠ some v := fun v => by rw [hi]; rintro ⟨⟩
  have hth : Thread.Balanced { s.threads i with place := .fetches s.next } :=
    h.even fun v => by rw [hi]; simp
  have hc : Changes s (s.newUrls i) i s.next { s.threads i with place := .fetches s.next }
      ⟨0, .loading⟩ (s.freed s.next) :=
    { threads := rfl
      entries := rfl
      freed := (Function.update_eq_self _ s.freed).symm
      next := fun v hv => by
        show s.next + 1 ≤ v ↔ s.next ≤ v
        omega
      onTree := fun v hv => (hiff v).trans ⟨fun hon => hon.resolve_left hv, .inr⟩
      was := fun v _ => hnone v
      is := fun v hv heq => hv (Option.some.inj heq).symm }
  refine hc.inv h htree hth (hc.entryOk (h.entry s.next) hlive (Nat.lt_succ_self _) (by omega)
    ?_ ?_ ?_ ?_ ?_)
  · rw [if_pos hlive, hentry, Place.holds_false (hnone _)]
    rfl
  · rw [hentry, Place.fetching_false (hnone _)]
    simp [Place.fetching, hlive]
  · exact ⟨fun _ => ⟨hlive, by simp⟩, fun _ => (hiff _).mpr (.inl rfl)⟩
  · exact fun _ => ⟨by simp, .inr (Nat.le_refl _)⟩
  · exact fun _ => .inl rfl

theorem Inv.getUrlsForRequest (h : Inv s) (hi : (s.threads i).place = .retry)
    (hguided : Guided (s.threads i).hash s.tree) : Inv (s.getUrlsForRequest i) := by
  unfold State.getUrlsForRequest
  cases hsearch : s.tree.searchPos (diff (s.threads i).hash) with
  | none => exact h.newUrls hi hguided hsearch
  | some k =>
    obtain ⟨n, hat, hmem, -⟩ := searchPos_hash hsearch
    simp only [hat]
    have hon : OnTree s.tree n.urls := ⟨n, hmem, rfl⟩
    have hwas : (s.threads i).place.entry = none := by rw [hi]; rfl
    have hbal := h.even fun v => by rw [hi]; simp
    have hstatus : ((s.ref n.urls).entries n.urls).status = (s.entries n.urls).status := by
      simp [State.ref, State.setEntry]
    unfold State.awaitUrls
    cases hst : (s.entries n.urls).status with
    | loading =>
      simp only [hstatus, hst]
      exact h.joins hon hwas (by simp [Place.holds]) (by simp) hbal
    | ready =>
      simp only [hstatus, hst]
      refine h.joins hon hwas (by simp [Place.holds]) (fun hload => ?_) ?_
      · rw [hst] at hload
        cases hload
      · show (s.threads i).gets + 1 = (s.threads i).releases + 1
        omega
    | bad => exact absurd hst ((h.entry _).onTree.mp hon).2

/-- A wait returns. -/
theorem Inv.awaitUrls (h : Inv s) (hi : (s.threads i).place = .waits u) :
    Inv (s.awaitUrls i u) := by
  have hbal := h.even fun v => by rw [hi]; exact nofun
  unfold State.awaitUrls
  cases hst : (s.entries u).status with
  | loading =>
    refine h.thread hbal (fun v => ?_) (fun v => ?_) nofun
    all_goals rw [hi]
  | ready =>
    refine h.thread ?_ (fun v => ?_) (fun v => ?_) ?_
    · show (s.threads i).gets + 1 = (s.threads i).releases + 1
      omega
    · rw [hi]
      rfl
    · rw [hi]
      rfl
    · intro v hv
      obtain rfl : u = v := by simpa using hv
      rw [hst]
      exact nofun
  | bad => exact h.givesUp hi hst

/-! ## The end of a fetch -/

theorem Inv.fetched (h : Inv s) (hi : (s.threads i).place = .fetches u) (res key : Bool) :
    Inv (s.fetched i u res key) := by
  obtain ⟨hlive, hload⟩ := (h.entry u).loading hi
  have hbal := h.even fun v => by rw [hi]; simp
  have hholds : (s.threads i).place.holds u = false := by rw [hi]; rfl
  have hfetching : (s.threads i).place.fetching u = true := by simp [hi, Place.fetching]
  have hwas : ∀ v, v ≠ u → (s.threads i).place.entry ≠ some v := fun v hv heq => by
    rw [hi] at heq
    exact hv (Option.some.inj heq).symm
  have hlt : u < s.next := (h.entry u).born fun hunborn => by
    rw [hunborn] at hload
    cases hload
  have hon : OnTree s.tree u := (h.entry u).onTree.mpr ⟨hlive, by rw [hload]; simp⟩
  cases res with
  | true =>
    let th : Thread := { s.threads i with
      needkey := (s.threads i).needkey && ! key, place := .uses u, gets := (s.threads i).gets + 1 }
    have hth : th.Balanced := by
      show (s.threads i).gets + 1 = (s.threads i).releases + 1
      omega
    have hc : Changes s (s.fetched i u true key) i u th ⟨(s.entries u).refcnt + 1, .ready⟩
        (s.freed u) :=
      { threads := by simp [State.fetched, State.setUrls, State.gives, State.setThread,
          State.setEntry, th]
        entries := rfl
        freed := (Function.update_eq_self u s.freed).symm
        next := fun _ _ => Iff.rfl
        onTree := fun _ _ => Iff.rfl
        was := hwas
        is := fun v hv heq => hv (Option.some.inj heq).symm }
    refine hc.inv h h.tree hth (hc.entryOk (h.entry u) hlive hlt (by omega) ?_ ?_ ?_ (by simp) ?_)
    · rw [if_pos hlive, hholds]
      simp [th, Place.holds]
    · rw [if_pos hload, hfetching]
      simp [th, Place.fetching]
    · exact ⟨fun _ => ⟨hlive, by simp⟩, fun _ => hon⟩
    · exact fun _ => .inr (Nat.succ_pos _)
  | false =>
    obtain ⟨htree, hiff⟩ := h.tree.del hon
    let th : Thread := { s.threads i with place := .ended }
    by_cases hzero : (s.entries u).refcnt = 0
    · have heq : s.fetched i u false key =
          (State.free { s with tree := delNode s.tree u } u).goes i .ended := by
        simp [State.fetched, State.setUrls, hzero]
      have hc : Changes s (s.fetched i u false key) i u th (s.entries u) (s.freed u + 1) :=
        { threads := by rw [heq]; rfl
          entries := by
            rw [heq]
            exact (Function.update_eq_self u s.entries).symm
          freed := by rw [heq]; rfl
          next := fun v _ => by rw [heq]; exact Iff.rfl
          onTree := fun v hv => by
            rw [heq]
            exact (hiff v).trans ⟨And.right, fun hon => ⟨hv, hon⟩⟩
          was := hwas
          is := fun _ _ hc => by cases hc }
      have htree' : (s.fetched i u false key).tree = delNode s.tree u := by rw [heq]; rfl
      have hnext : (s.fetched i u false key).next = s.next := by rw [heq]; rfl
      refine hc.inv h (htree' ▸ htree) hbal
        (hc.entryOk (h.entry u) hlive (by omega) (by omega) ?_ ?_ ?_ ?_ ?_)
      · rw [hholds, hzero, if_neg (by omega)]
        rfl
      · rw [hfetching, if_pos hload, if_neg (by omega)]
        rfl
      · rw [htree']
        exact ⟨fun hon => absurd rfl ((hiff u).mp hon).1, fun hand => by omega⟩
      · exact fun _ => ⟨by simp, .inl hload⟩
      · exact fun hfreed => by omega
    · have heq : s.fetched i u false key =
          (State.setEntry { s with tree := delNode s.tree u } u
            { s.entries u with status := .bad }).goes i .ended := by
        simp [State.fetched, State.setUrls, hzero]
      have hc : Changes s (s.fetched i u false key) i u th ⟨(s.entries u).refcnt, .bad⟩
          (s.freed u) :=
        { threads := by rw [heq]; rfl
          entries := by rw [heq]; rfl
          freed := by
            rw [heq]
            exact (Function.update_eq_self u s.freed).symm
          next := fun v _ => by rw [heq]; exact Iff.rfl
          onTree := fun v hv => by
            rw [heq]
            exact (hiff v).trans ⟨And.right, fun hon => ⟨hv, hon⟩⟩
          was := hwas
          is := fun _ _ hc => by cases hc }
      have htree' : (s.fetched i u false key).tree = delNode s.tree u := by rw [heq]; rfl
      have hnext : (s.fetched i u false key).next = s.next := by rw [heq]; rfl
      refine hc.inv h (htree' ▸ htree) hbal
        (hc.entryOk (h.entry u) hlive (by omega) (by omega) ?_ ?_ ?_ (by simp) ?_)
      · rw [hholds, if_pos hlive]
        rfl
      · rw [hfetching, if_pos hload, if_neg fun hand => by cases hand.2]
        rfl
      · rw [htree']
        exact ⟨fun hon => absurd rfl ((hiff u).mp hon).1, fun hand => absurd rfl hand.2⟩
      · exact fun _ => .inr (Nat.pos_of_ne_zero hzero)

end PcloudClient.Ppagecache.UrlCache
