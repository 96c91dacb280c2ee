/-
  Ppathstatus/SyncProofs.lean --- the counts of the trees of the syncs along a run of events.
-/
import Mathlib.Algebra.GroupWithZero.Nat
import PcloudClient.Ppathstatus.Sync

set_option autoImplicit false

namespace PcloudClient.Ppathstatus.Syncs

open PcloudClient.Counted

/-- The folders of which the cache of the sync must be right: those of the sync, and those to
come. -/
def Known (rows : Rows) (next : FolderId) (s : SyncId) (f : FolderId) : Prop :=
  InSync rows s f ∨ next ≤ f

structure Inv (d : Syncs) : Prop where
  hierarchy : Hierarchy d.rows
  fresh : ∀ f, d.rows f ≠ none → f < d.next
  pos : 0 < d.next
  cache : ∀ s, CacheOk (Known d.rows d.next s) d.parents (d.tree s).cache
  balanced : ∀ s, Balanced (d.counted s) none none (d.tree s).tasks
  nodes : ∀ s f, (d.tree s).tasks.has f → InSync d.rows s f
  within : ∀ m ∈ d.moves, m.newSyncid = m.oldSyncid ∧ m.folderid ≠ 0 ∧
    InSync d.rows m.oldSyncid m.newParentFolderid
  pending : ∀ s, ∀ m ∈ movesIn d.moves s, (d.tree s).tasks.has m.folderid
  linked : ∀ s, Linked d.parents (movesIn d.moves s)
  saved : ∀ rows next, d.saved = some (rows, next) →
    Hierarchy rows ∧ (∀ f, rows f ≠ none → f < next) ∧ 0 < next
  outside : d.saved = none → d.moves = []

/-! ## The rows -/

section Rows

variable {rows rows' : Rows} {s : SyncId} {f g p : FolderId} {r r' : LocalRow} {next : FolderId}

theorem InSync.exists (h : InSync rows s f) (hf : f ≠ 0) : ∃ r, rows f = some r ∧ r.syncid = s :=
  h.resolve_left hf

/-- A folder is in one sync only. -/
theorem InSync.eq (h : InSync rows s f) (hf : f ≠ 0) (hr : rows f = some r) : r.syncid = s := by
  obtain ⟨q, hq, hs⟩ := h.exists hf
  rw [hr] at hq
  exact Option.some.inj hq ▸ hs

theorem InSync.congr (h : InSync rows s f) (hrow : rows' f = rows f) : InSync rows' s f :=
  h.imp_right fun hr => by rwa [hrow]

theorem parentOf_eq_some (h : parentOf rows.parents f = some p) :
    f ≠ 0 ∧ ∃ r, rows f = some r ∧ r.localparentfolderid = p := by
  by_cases hzero : f = 0
  · simp [parentOf, hzero] at h
  · rw [parentOf, if_neg hzero, Rows.parents, Option.map_eq_some_iff] at h
    exact ⟨hzero, h⟩

theorem Hierarchy.inSync_parent (h : Hierarchy rows) (hf : InSync rows s f)
    (hp : parentOf rows.parents f = some p) : InSync rows s p := by
  obtain ⟨hzero, r, hr, rfl⟩ := parentOf_eq_some hp
  exact hf.eq hzero hr ▸ h.closed f r hr

theorem Hierarchy.inSync_above (h : Hierarchy rows) (hf : InSync rows s f)
    (hg : Above rows.parents f g) : InSync rows s g :=
  hg.rec_closed hf fun _ _ hc hp => h.inSync_parent hc hp

theorem Hierarchy.known_parent (h : Hierarchy rows) (hfresh : ∀ f, rows f ≠ none → f < next)
    (hf : Known rows next s f) (hp : parentOf rows.parents f = some p) :
    Known rows next s p := by
  rcases hf with hin | hnext
  · exact .inl (h.inSync_parent hin hp)
  · obtain ⟨-, r, hr, -⟩ := parentOf_eq_some hp
    exact absurd (hfresh f (by simp [hr])) (Nat.not_lt.mpr hnext)

theorem Above.eq_of_no_row (h : Above rows.parents g f) (hg : rows g = none) : g = f := by
  cases h using Relation.ReflTransGen.head_induction_on with
  | refl => rfl
  | head hp _ =>
    obtain ⟨-, r, hr, -⟩ := parentOf_eq_some hp
    rw [hg] at hr
    cases hr

end Rows

/-! ## The trees -/

section Trees

variable {d : Syncs} {s t : SyncId} {tree : TaskTree}

@[simp]
theorem tree_setTree : (d.setTree s tree).tree t = if t = s then tree else d.tree t := by
  unfold Syncs.tree setTree
  by_cases h : t = s
  · simp [h]
  · simp [h]

@[simp] theorem rows_setTree : (d.setTree s tree).rows = d.rows := rfl

@[simp] theorem moves_setTree : (d.setTree s tree).moves = d.moves := rfl

theorem tree_of_none (h : d.trees s = none) : d.tree s = .init SYNC_PARENT_CACHE_SIZE := by
  simp [Syncs.tree, h]

theorem tree_of_some (h : d.trees s = some tree) : d.tree s = tree := by
  simp [Syncs.tree, h]

theorem movesIn_cons {m : SyncMove} {rest : List SyncMove} :
    movesIn (m :: rest) s =
      if m.oldSyncid = s then m.toMove :: movesIn rest s else movesIn rest s := by
  unfold movesIn
  split <;> simp [*]

theorem movesIn_append {moves : List SyncMove} {m : SyncMove} :
    movesIn (moves ++ [m]) s =
      movesIn moves s ++ if m.oldSyncid = s then [m.toMove] else [] := by
  unfold movesIn
  split <;> simp [*]

end Trees

namespace Inv

variable {d : Syncs} {s : SyncId} {f : FolderId}

theorem counted_of_not_has (h : Inv d) (hf : ¬ (d.tree s).tasks.has f) :
    d.counted s f = parentOf d.parents f :=
  countedAt_of_forall_ne fun m hm heq => hf (heq ▸ h.pending s m hm)

theorem known_parent (h : Inv d) (s : SyncId) (f p : FolderId)
    (hf : Known d.rows d.next s f) (hp : parentOf d.parents f = some p) :
    Known d.rows d.next s p :=
  h.hierarchy.known_parent h.fresh hf hp

/-- One tree takes another state; the rows and the moves stay. -/
theorem setTree (h : Inv d) (tree : TaskTree)
    (hcache : CacheOk (Known d.rows d.next s) d.parents tree.cache)
    (hbalanced : Balanced (d.counted s) none none tree.tasks)
    (hnodes : ∀ f, tree.tasks.has f → InSync d.rows s f)
    (hpending : ∀ m ∈ movesIn d.moves s, tree.tasks.has m.folderid) :
    Inv (d.setTree s tree) where
  hierarchy := h.hierarchy
  fresh := h.fresh
  pos := h.pos
  cache := by
    intro t
    rw [tree_setTree]
    split
    · next heq => exact heq ▸ hcache
    · exact h.cache t
  balanced := by
    intro t
    rw [tree_setTree]
    split
    · next heq => exact heq ▸ hbalanced
    · exact h.balanced t
  nodes := by
    intro t
    rw [tree_setTree]
    split
    · next heq => exact heq ▸ hnodes
    · exact h.nodes t
  within := h.within
  pending := by
    intro t
    rw [tree_setTree]
    split
    · next heq => exact heq ▸ hpending
    · exact h.pending t
  linked := h.linked
  saved := h.saved
  outside := h.outside

theorem init {rows : Rows} {next : FolderId} (h : Hierarchy rows)
    (hfresh : ∀ f, rows f ≠ none → f < next) (hpos : 0 < next) : Inv (.init rows next) where
  hierarchy := h
  fresh := hfresh
  pos := hpos
  cache := fun _ => cacheOk_init _ _ _
  balanced := fun _ => .empty _
  nodes := fun _ _ hf => absurd rfl hf
  within := fun _ hm => nomatch hm
  pending := fun _ _ hm => nomatch hm
  linked := fun _ => trivial
  saved := fun _ _ hp => nomatch hp
  outside := fun _ => rfl

end Inv

section Events

variable {d : Syncs} {s : SyncId} {f : FolderId}

theorem taskAdded_inv (h : Inv d) (hf : InSync d.rows s f) :
    ∃ bound, ∀ fuel, Ends bound fuel (d.taskAdded fuel s f) Inv := by
  obtain ⟨rank, hrank⟩ := h.hierarchy.ranked
  refine ⟨rank f, fun fuel => ?_⟩
  unfold taskAdded
  dsimp only
  cases hget : (d.tree s).tasks.get f with
  | some ft =>
    have hlive : ft.cnt ≠ 0 ∨ ft.own = true :=
      ((h.balanced s).live f ft hget).symm.imp_left Nat.pos_iff_ne_zero.mp
    rw [Option.getD_some, if_pos hlive]
    exact h.setTree _ (h.cache s) ((h.balanced s).setOwn hget (.inl rfl))
      (fun x hx => (Table.has_set.mp hx).elim (fun heq => heq ▸ hf) (h.nodes s x))
      (fun m hm => Table.has_set.mpr (.inr (h.pending s m hm)))
  | none =>
    have hnot : ¬ (d.tree s).tasks.has f := fun hhas => hhas hget
    simp only [Option.getD_none, ne_eq, not_true_eq_false, Bool.false_eq_true, or_self, if_false]
    have hmark := (h.balanced s).mark hget
    rw [h.counted_of_not_has hnot] at hmark
    refine (incrementAbove_spec hrank (h.known_parent s) fuel f
      { d.tree s with tasks := (d.tree s).tasks.set f ⟨true, 0⟩ } (.inl hf) (h.cache s) hmark
      (fun x hx => h.counted_of_not_has fun hhas => hx (Table.has_set.mpr (.inr hhas)))).bind ?_
    rintro tree ⟨hcache, hbal, hgrows, hnodes, -⟩
    refine h.setTree tree hcache hbal (fun x hx => ?_)
      (fun m hm => hgrows _ (Table.has_set.mpr (.inr (h.pending s m hm))))
    rcases hnodes x hx with hset | habove
    · exact (Table.has_set.mp hset).elim (fun heq => heq ▸ hf) (h.nodes s x)
    · exact h.hierarchy.inSync_above hf habove

theorem taskCompleted_inv {hasTasks : Bool} (h : Inv d)
    (hmeets : d.Meets (.completed s f hasTasks)) :
    ∃ bound, ∀ fuel, Ends bound fuel (d.taskCompleted fuel s f hasTasks) Inv := by
  obtain ⟨rank, hrank⟩ := h.hierarchy.ranked
  refine ⟨rank f, fun fuel => ?_⟩
  unfold taskCompleted
  cases hasTasks with
  | true => exact h
  | false =>
    simp only [Bool.false_eq_true, if_false]
    cases htree : d.trees s with
    | none => exact h
    | some tree =>
      obtain rfl : d.tree s = tree := tree_of_some htree
      dsimp only
      cases hget : (d.tree s).tasks.get f with
      | none => exact h
      | some ft =>
        have hin := h.nodes s f (Table.has_of_get hget)
        by_cases hcnt : ft.cnt = 0
        · simp only [hcnt, ne_eq, not_true_eq_false, if_false]
          have hgone := (h.balanced s).unmark hget hcnt
          have hownErase : ((d.tree s).tasks.erase f).own =
              Function.update (d.tree s).tasks.own f false := by
            funext x
            simp [Function.update_apply]
          have hbusy : ∀ m ∈ movesIn d.moves s,
              Balanced.Busy (d.counted s) ((d.tree s).tasks.erase f).own m.folderid := by
            intro m hm
            rw [hownErase]
            exact hmeets m hm
          have hup : ∀ x, ¬ Balanced.Busy (d.counted s) ((d.tree s).tasks.erase f).own x →
              d.counted s x = parentOf d.parents x := fun x hx =>
            countedAt_of_forall_ne fun m hm heq => hx (heq ▸ hbusy m hm)
          have hidle : ¬ Balanced.Busy (d.counted s) ((d.tree s).tasks.erase f).own f := fun hb =>
            (Table.has_erase.mp (hgone.has_of_busy hb)).1 rfl
          rw [hup f hidle] at hgone
          refine (decrementAbove_spec true hrank (h.known_parent s) fuel f
            { d.tree s with tasks := (d.tree s).tasks.erase f } (.inl hin) (h.cache s) hgone
            hup).bind ?_
          rintro tree ⟨hcache, hbal, hnodes, hown⟩
          exact h.setTree tree hcache hbal
            (fun x hx => h.nodes s x (Table.has_erase.mp (hnodes x hx)).2)
            (fun m hm => hbal.has_of_busy (hown ▸ hbusy m hm))
        · simp only [ne_eq, hcnt, not_false_eq_true, if_true]
          exact h.setTree _ (h.cache s) ((h.balanced s).setOwn hget (.inr (by omega)))
            (fun x hx => (Table.has_set.mp hx).elim (fun heq => heq ▸ hin) (h.nodes s x))
            (fun m hm => Table.has_set.mpr (.inr (h.pending s m hm)))

end Events

/-! ## Rows that change -/

theorem parents_congr {rows rows' : Rows} {x : FolderId} (h : rows' x = rows x) :
    parentOf rows'.parents x = parentOf rows.parents x := by
  simp [parentOf, Rows.parents, h]

/-- The rows of folders without a node may change, as long as the callbacks that wait still find
their new parents in the sync. -/
theorem Inv.updateRows {d d' : Syncs} (h : Inv d) (hmoves : d'.moves = d.moves)
    (hsaved : d'.saved = d.saved) (hhierarchy : Hierarchy d'.rows)
    (hfresh : ∀ f, d'.rows f ≠ none → f < d'.next) (hpos : 0 < d'.next)
    (hcache : ∀ s, CacheOk (Known d'.rows d'.next s) d'.parents (d'.tree s).cache)
    (htasks : ∀ s, (d'.tree s).tasks = (d.tree s).tasks)
    (hkeep : ∀ s f, (d.tree s).tasks.has f → d'.rows f = d.rows f)
    (hnamed : ∀ m ∈ d.moves, InSync d'.rows m.oldSyncid m.newParentFolderid) : Inv d' where
  hierarchy := hhierarchy
  fresh := hfresh
  pos := hpos
  cache := hcache
  balanced := by
    intro s
    rw [htasks s]
    refine (h.balanced s).congr_up fun x hx => ?_
    unfold counted
    rw [hmoves]
    exact (countedAt_congr (parents_congr (hkeep s x hx))).symm
  nodes := by
    intro s f hf
    rw [htasks s] at hf
    exact (h.nodes s f hf).congr (hkeep s f hf)
  within := by
    rw [hmoves]
    exact fun m hm => ⟨(h.within m hm).1, (h.within m hm).2.1, hnamed m hm⟩
  pending := by
    rw [hmoves]
    exact fun s m hm => htasks s ▸ h.pending s m hm
  linked := by
    rw [hmoves]
    exact fun s => (h.linked s).congr fun m hm => parents_congr (hkeep s _ (h.pending s m hm))
  saved := hsaved ▸ h.saved
  outside := by
    rw [hsaved, hmoves]
    exact h.outside

section Rows

variable {d : Syncs} {s : SyncId} {f : FolderId}

theorem create_inv {p : FolderId} (h : Inv d) (hmatch : d.Matching (.create p s)) (fuel : Nat) :
    Ends 0 fuel (d.exec fuel (.create p s)) Inv := by
  have hnone : d.rows d.next = none := by
    by_contra hne
    exact Nat.lt_irrefl _ (h.fresh _ hne)
  have hsame : ∀ x, x ≠ d.next →
      Function.update d.rows d.next (some ⟨p, s⟩) x = d.rows x := fun x hx => by simp [hx]
  have hin : ∀ t x, InSync d.rows t x → x ≠ d.next := by
    rintro t x (rfl | ⟨r, hr, -⟩) heq
    · exact Nat.lt_irrefl 0 (heq ▸ h.pos)
    · rw [heq, hnone] at hr
      cases hr
  refine h.updateRows rfl rfl hmatch (fun x hx => ?_) (Nat.succ_pos _) (fun t => ?_)
    (fun _ => rfl) (fun t x hx => hsame x (hin t x (h.nodes t x hx))) (fun m hm => ?_)
  · by_cases heq : x = d.next
    · exact heq ▸ Nat.lt_succ_self _
    · exact Nat.lt_succ_of_lt (h.fresh x (by simpa [heq] using hx))
  · refine ⟨(h.cache t).unique, fun e he hknown => ?_⟩
    have hold : Known d.rows d.next t e.folderid := by
      by_cases heq : e.folderid = d.next
      · exact .inr (Nat.le_of_eq heq.symm)
      · rcases hknown with hk | hk
        · exact .inl (hk.congr (hsame _ heq).symm)
        · exact .inr (Nat.le_of_succ_le hk)
    have hentry := (h.cache t).entry e he hold
    have hne : e.folderid ≠ d.next := fun heq => by
      simp [heq, Syncs.parents, Rows.parents, hnone] at hentry
    rw [← hentry]
    simp [Syncs.parents, Rows.parents, hne]
  · have hnamed := (h.within m hm).2.2
    exact hnamed.congr (hsame _ (hin _ _ hnamed))

theorem deleted_inv (h : Inv d) (hmatch : d.Matching (.deleted f)) (hmeets : d.Meets (.deleted f))
    (fuel : Nat) : Ends 0 fuel (d.exec fuel (.deleted f)) Inv := by
  obtain ⟨hrow, hhierarchy⟩ := hmatch
  obtain ⟨r, hr⟩ := Option.ne_none_iff_exists'.mp hrow
  obtain ⟨hnode, hnew⟩ := hmeets
  have hzero : f ≠ 0 := fun heq => by simp [heq, h.hierarchy.root] at hr
  have hsame : ∀ x, x ≠ f → Function.update d.rows f none x = d.rows x := fun x hx => by simp [hx]
  refine h.updateRows rfl rfl hhierarchy (fun x hx => ?_) h.pos (fun t => ?_) (fun _ => rfl)
    (fun t x hx => hsame x fun heq => ?_) (fun m hm => ?_)
  · refine h.fresh x fun hnone => hx ?_
    by_cases heq : x = f <;> simp [heq]
    exact hnone
  · refine ⟨(h.cache t).unique, fun e he hknown => ?_⟩
    have hne : e.folderid ≠ f := by
      rintro heq
      rcases hknown with (hk | ⟨q, hq, -⟩) | hk
      · exact hzero (heq ▸ hk)
      · simp [heq] at hq
      · exact absurd (h.fresh f hrow) (by rw [heq] at hk; exact Nat.not_lt.mpr hk)
    have hold : Known d.rows d.next t e.folderid :=
      hknown.imp_left fun hk => hk.congr (hsame _ hne).symm
    rw [← (h.cache t).entry e he hold]
    simp [Syncs.parents, Rows.parents, hne]
  · rw [heq] at hx
    exact hnode r hr ((h.nodes t f hx).eq hzero hr ▸ hx)
  · exact (h.within m hm).2.2.congr (hsame _ (hnew m hm))

end Rows

/-! ## Moves -/

section Moved

variable {d : Syncs} {rows : Rows} {f : FolderId} {r r' : LocalRow}

theorem MovedTo.parents (h : MovedTo d.rows f r r' rows) :
    rows.parents = Function.update d.parents f (some r'.localparentfolderid) := by
  funext g
  by_cases hg : g = f
  · simp [Rows.parents, hg, h.self]
  · rw [Function.update_of_ne hg]
    by_cases hsync : r.syncid = r'.syncid
    · simp [Syncs.parents, Rows.parents, h.other g hg (.inl hsync)]
    · by_cases habove : Above d.parents g f
      · have hrow := h.below g hg hsync habove
        cases hg' : d.rows g <;> simp [Syncs.parents, Rows.parents, hrow, hg']
      · simp [Syncs.parents, Rows.parents, h.other g hg (.inr habove)]

/-- What the folders of a sync have become: the moved folder, one below it that is new in the sync,
or one whose row is the same. -/
theorem MovedTo.known (h : MovedTo d.rows f r r' rows) {t : SyncId} {g : FolderId}
    (hg : g ≠ f) (hknown : Known rows d.next t g) :
    Known d.rows d.next t g ∨ r.syncid ≠ r'.syncid ∧ t = r'.syncid ∧ Above d.parents g f := by
  rcases hknown with hin | hnext
  · by_cases hother : r.syncid = r'.syncid ∨ ¬ Above d.parents g f
    · exact .inl (.inl (hin.congr (h.other g hg hother).symm))
    · push Not at hother
      have hrow := h.below g hg hother.1 hother.2
      rcases hin with hzero | ⟨q, hq, hs⟩
      · exact .inl (.inl (.inl hzero))
      · refine .inr ⟨hother.1, ?_, hother.2⟩
        rw [hq, eq_comm, Option.map_eq_some_iff] at hrow
        obtain ⟨q', -, rfl⟩ := hrow
        exact hs.symm
  · exact .inl (.inr hnext)

/-- The caches are right after the move if the folder's entry is taken out of that of its sync. -/
theorem MovedTo.cache (h : MovedTo d.rows f r r' rows) (hinv : Inv d) (hr : d.rows f = some r)
    {cache : List (Option ParentEntry)} {t : SyncId} (hunique : Unique cache)
    (hmem : ∀ e, some e ∈ cache → some e ∈ (d.tree t).cache)
    (hold : t = r.syncid → ∀ e, some e ∈ cache → e.folderid ≠ f)
    (hnew : r.syncid ≠ r'.syncid → t = r'.syncid → ∀ e, some e ∈ cache →
      Above d.parents e.folderid f →
      Function.update d.parents f (some r'.localparentfolderid) e.folderid =
        some e.parentfolderid) :
    CacheOk (Known rows d.next t) rows.parents cache where
  unique := hunique
  entry := by
    intro e he hknown
    have hzero : f ≠ 0 := fun heq => by simp [heq, hinv.hierarchy.root] at hr
    rw [h.parents]
    by_cases hne : e.folderid = f
    · -- the folder itself: it is known in its new sync only, which is not the old one
      have ht : t = r'.syncid := by
        rcases hknown with hin | hnext
        · exact (hin.eq (hne ▸ hzero) (hne ▸ h.self)).symm
        · exact absurd (hinv.fresh f (by simp [hr])) (Nat.not_lt.mpr (hne ▸ hnext))
      have hsync : r.syncid ≠ r'.syncid := fun heq => hold (ht.trans heq.symm) e he hne
      exact hnew hsync ht e he (hne ▸ .refl)
    · rcases h.known hne hknown with hk | ⟨hsync, ht, habove⟩
      · rw [Function.update_of_ne hne]
        exact (hinv.cache t).entry e (hmem e he) hk
      · exact hnew hsync ht e he habove

/-- A folder without a node is moved: there is nothing to count, here or in another sync. -/
theorem moved_nodeless (h : Inv d) (hr : d.rows f = some r) (hmoved : MovedTo d.rows f r r' rows)
    (hhierarchy : Hierarchy rows) (d' : Syncs) (hd' : d'.rows = rows) (hnext : d'.next = d.next)
    (hmoves : d'.moves = d.moves) (hsaved : d'.saved = d.saved)
    (htrees : ∀ t, (d'.tree t).tasks = (d.tree t).tasks)
    (hcache : ∀ t, CacheOk (Known rows d.next t) rows.parents (d'.tree t).cache)
    (hnodes : ∀ g, g = f ∨ r.syncid ≠ r'.syncid ∧ Above d.parents g f →
      ¬ (d.tree r.syncid).tasks.has g)
    (hnamed : r.syncid ≠ r'.syncid → ∀ m ∈ d.moves, ¬ Above d.parents m.newParentFolderid f) :
    Inv d' := by
  have hzero : f ≠ 0 := fun heq => by simp [heq, h.hierarchy.root] at hr
  subst hd'
  refine h.updateRows hmoves hsaved hhierarchy ?_ (hnext ▸ h.pos) ?_ htrees ?_ ?_
  · intro g hg
    rw [hnext]
    refine h.fresh g fun hnone => hg ?_
    by_cases heq : g = f
    · rw [heq, hr] at hnone
      cases hnone
    · have habove : ¬ Above d.parents g f := fun ha => heq (Above.eq_of_no_row ha hnone)
      rw [hmoved.other g heq (.inr habove), hnone]
  · intro t
    rw [hnext]
    exact hcache t
  · intro t g hg
    have hin := h.nodes t g hg
    have hold : g = f ∨ r.syncid ≠ r'.syncid ∧ Above d.parents g f → t = r.syncid := by
      rintro (rfl | ⟨-, habove⟩)
      · exact (hin.eq hzero hr).symm
      · exact ((h.hierarchy.inSync_above hin habove).eq hzero hr).symm
    have hnot : ¬ (g = f ∨ r.syncid ≠ r'.syncid ∧ Above d.parents g f) := fun hmem =>
      hnodes g hmem (hold hmem ▸ hg)
    push Not at hnot
    exact hmoved.other g hnot.1 (or_iff_not_imp_left.mpr hnot.2)
  · intro m hm
    have hin := (h.within m hm).2.2
    by_cases hsync : r.syncid = r'.syncid
    · by_cases heq : m.newParentFolderid = f
      · refine .inr ⟨r', heq ▸ hmoved.self, ?_⟩
        rw [← hsync]
        exact hin.eq (heq ▸ hzero) (heq ▸ hr)
      · exact hin.congr (hmoved.other _ heq (.inl hsync))
    · have hnot := hnamed hsync m hm
      have heq : m.newParentFolderid ≠ f := fun heq => hnot (heq ▸ .refl)
      exact hin.congr (hmoved.other _ heq (.inr hnot))

/-- A folder with a node is moved within its sync, and a callback waits. -/
theorem moved_counted (h : Inv d) (hr : d.rows f = some r) (hmoved : MovedTo d.rows f r r' rows)
    (hhierarchy : Hierarchy rows) (hsync : r.syncid = r'.syncid) (hsaved : d.saved ≠ none)
    (hhas : (d.tree r.syncid).tasks.has f) (trees : SyncId → Option TaskTree)
    (htrees : ∀ t, (({ d with trees := trees } : Syncs).tree t).tasks = (d.tree t).tasks)
    (hcache : ∀ t, CacheOk (Known rows d.next t) rows.parents
      (({ d with trees := trees } : Syncs).tree t).cache) {m : SyncMove}
    (hm : m = { folderid := f, oldParentFolderid := r.localparentfolderid,
                newParentFolderid := r'.localparentfolderid, oldSyncid := r.syncid,
                newSyncid := r'.syncid }) :
    Inv { d with trees := trees, moves := d.moves ++ [m], rows := rows } := by
  have hzero : f ≠ 0 := fun heq => by simp [heq, h.hierarchy.root] at hr
  have hold : d.parents m.toMove.folderid = some m.toMove.oldParentFolderid := by
    simp [hm, Syncs.parents, Rows.parents, hr]
  have hkeep : ∀ t g, InSync d.rows t g → InSync rows t g := by
    intro t g hin
    by_cases heq : g = f
    · refine .inr ⟨r', heq ▸ hmoved.self, ?_⟩
      rw [← hsync]
      exact hin.eq (heq ▸ hzero) (heq ▸ hr)
    · exact hin.congr (hmoved.other g heq (.inl hsync))
  have hparents : rows.parents =
      Function.update d.parents m.toMove.folderid (some m.toMove.newParentFolderid) := by
    rw [hmoved.parents, hm]
  have hother : ∀ t, t ≠ r.syncid → ∀ x, (d.tree t).tasks.has x →
      parentOf rows.parents x = parentOf d.parents x := by
    intro t ht x hx
    have hne : x ≠ f := fun heq => ht ((heq ▸ h.nodes t x hx : InSync d.rows t f).eq hzero hr).symm
    exact parents_congr (hmoved.other x hne (.inl hsync))
  exact {
    hierarchy := hhierarchy
    fresh := by
      intro g hg
      refine h.fresh g fun hnone => hg ?_
      by_cases heq : g = f
      · rw [heq, hr] at hnone
        cases hnone
      · exact (hmoved.other g heq (.inl hsync)).trans hnone
    pos := h.pos
    cache := hcache
    balanced := by
      intro t
      have htasks := htrees t
      rw [show (({ d with trees := trees, moves := d.moves ++ [m], rows := rows } : Syncs).tree
        t).tasks = (d.tree t).tasks from htasks]
      refine (h.balanced t).congr_up fun x hx => ?_
      show countedAt d.parents (movesIn d.moves t) x =
        countedAt rows.parents (movesIn (d.moves ++ [m]) t) x
      rw [movesIn_append]
      by_cases ht : m.oldSyncid = t
      · rw [if_pos ht, hparents]
        exact (countedAt_append (by simpa [hm] using hzero) hold _).symm
      · rw [if_neg ht, List.append_nil]
        exact (countedAt_congr (hother t (fun heq => ht (by simp [hm, heq])) x hx)).symm
    nodes := by
      intro t g hg
      rw [show (({ d with trees := trees, moves := d.moves ++ [m], rows := rows } : Syncs).tree
        t).tasks = (d.tree t).tasks from htrees t] at hg
      exact hkeep t g (h.nodes t g hg)
    within := by
      intro m' hm'
      rcases List.mem_append.mp hm' with hin | hlast
      · exact ⟨(h.within m' hin).1, (h.within m' hin).2.1, hkeep _ _ (h.within m' hin).2.2⟩
      · obtain rfl := List.mem_singleton.mp hlast
        subst hm
        exact ⟨hsync.symm, hzero, hsync ▸ hhierarchy.closed f r' hmoved.self⟩
    pending := by
      intro t m' hm'
      rw [show (({ d with trees := trees, moves := d.moves ++ [m], rows := rows } : Syncs).tree
        t).tasks = (d.tree t).tasks from htrees t]
      rw [movesIn_append] at hm'
      rcases List.mem_append.mp hm' with hin | hlast
      · exact h.pending t m' hin
      · split at hlast
        · next ht =>
          obtain rfl := List.mem_singleton.mp hlast
          subst hm
          exact ht ▸ hhas
        · cases hlast
    linked := by
      intro t
      show Linked rows.parents (movesIn (d.moves ++ [m]) t)
      rw [movesIn_append]
      by_cases ht : m.oldSyncid = t
      · rw [if_pos ht, hparents]
        exact (h.linked t).append (by simpa [hm] using hzero) hold
      · rw [if_neg ht, List.append_nil]
        exact (h.linked t).congr fun m' hm' =>
          hother t (fun heq => ht (by simp [hm, heq])) _ (h.pending t m' hm')
    saved := h.saved
    outside := fun hnone => absurd hnone hsaved }

theorem moved_inv {driveHas : Bool} (h : Inv d) (hmatch : d.Matching (.moved f rows driveHas))
    (hmeets : d.Meets (.moved f rows driveHas)) (fuel : Nat) :
    Ends 0 fuel (d.exec fuel (.moved f rows driveHas)) Inv := by
  obtain ⟨r, r', hr, hmoved, hsaved, hhierarchy⟩ := hmatch
  have hok := hmeets r r' hr hmoved.self
  simp only [exec, hr, hmoved.self, pathStatusSyncFolderMoved]
  by_cases hsame : r.localparentfolderid = r'.localparentfolderid ∧ r.syncid = r'.syncid
  · rw [if_pos hsame]
    have heq : rows = d.rows := by
      funext g
      by_cases hg : g = f
      · rw [hg, hmoved.self, hr]
        exact congrArg some (by cases r; cases r'; simp_all)
      · exact hmoved.other g hg (.inl hsame.2)
    rw [heq]
    exact h
  rw [if_neg hsame]
  have hne : r ≠ r' := fun heq => hsame ⟨congrArg _ heq, congrArg _ heq⟩
  have hnew : ∀ t, r.syncid ≠ r'.syncid → t = r'.syncid → ∀ e, some e ∈ (d.tree t).cache →
      Above d.parents e.folderid f →
      Function.update d.parents f (some r'.localparentfolderid) e.folderid =
        some e.parentfolderid := by
    rintro t hsync rfl
    exact ((hok.resolve_left hne).resolve_left fun hw => hsync hw.1).2.2.2.2
  have hnamed : r.syncid ≠ r'.syncid →
      ∀ m ∈ d.moves, ¬ Above d.parents m.newParentFolderid f := fun hsync =>
    ((hok.resolve_left hne).resolve_left fun hw => hsync hw.1).2.2.2.1
  cases htree : d.trees r.syncid with
  | none =>
    have hinit := tree_of_none htree
    refine moved_nodeless h hr hmoved hhierarchy { d with rows := rows } rfl rfl rfl rfl
      (fun _ => rfl) (fun t => ?_) (fun g _ => by rw [hinit]; exact fun hhas => hhas rfl) hnamed
    refine hmoved.cache h hr (h.cache t).unique (fun _ he => he) ?_ (hnew t)
    rintro rfl e he
    rw [show ({ d with rows := rows } : Syncs).tree r.syncid = d.tree r.syncid from rfl,
      hinit] at he
    cases List.eq_of_mem_replicate he
  | some tree =>
    obtain rfl : d.tree r.syncid = tree := tree_of_some htree
    set d₁ := d.setTree r.syncid (delFromParentCache f (d.tree r.syncid)) with hd₁
    have htasks : ∀ t, (d₁.tree t).tasks = (d.tree t).tasks := by
      intro t
      rw [hd₁, tree_setTree]
      split
      · next ht => rw [tasks_delFromParentCache, ht]
      · rfl
    have hcache : ∀ t, CacheOk (Known rows d.next t) rows.parents (d₁.tree t).cache := by
      intro t
      have hdel := (h.cache r.syncid).unique.delFromParentCache f
      by_cases ht : t = r.syncid
      · subst ht
        rw [hd₁, tree_setTree, if_pos rfl]
        exact hmoved.cache h hr hdel.1 (fun e he => (hdel.2 e he).1)
          (fun _ e he => (hdel.2 e he).2) fun hsync heq => absurd heq hsync
      · rw [hd₁, tree_setTree, if_neg ht]
        exact hmoved.cache h hr (h.cache t).unique (fun _ he => he)
          (fun heq => absurd heq ht) (hnew t)
    dsimp only
    rw [← hd₁]
    cases driveHas with
    | false =>
      simp only [Bool.false_eq_true, not_false_eq_true, if_true]
      refine moved_nodeless h hr hmoved hhierarchy { d₁ with rows := rows } rfl rfl rfl rfl
        htasks hcache (fun g hg => ?_) hnamed
      rcases hok.resolve_left hne with ⟨hsync, hwithin⟩ | ⟨hsync, -, hbelow, -, -⟩
      · obtain rfl := hg.resolve_right fun hcross => hcross.1 hsync
        have hiff := hwithin.resolve_left (by simp [htree])
        exact fun hhas => by simpa using hiff.mpr hhas
      · exact hg.elim (fun heq => heq ▸ hbelow f .refl) fun hcross => hbelow g hcross.2
    | true =>
      have hsome : d₁.saved.isNone = false :=
        Option.isNone_eq_false_iff.mpr (Option.isSome_iff_ne_none.mpr hsaved)
      simp only [not_true_eq_false, if_false, hsome, Bool.false_eq_true]
      rcases hok.resolve_left hne with ⟨hsync, hwithin⟩ | ⟨-, hdrive, -⟩
      · have hhas := (hwithin.resolve_left (by simp [htree])).mp rfl
        exact moved_counted h hr hmoved hhierarchy hsync hsaved hhas d₁.trees htasks
          hcache rfl
      · exact absurd hdrive (by simp [htree])

end Moved

/-! ## The callbacks -/

section Commit

variable {d : Syncs} {rank : FolderId → Nat}

/-- What a callback leaves as it is. -/
structure SameBut (d d' : Syncs) : Prop where
  rows : d'.rows = d.rows
  next : d'.next = d.next
  own : ∀ s, (d'.tree s).tasks.own = (d.tree s).tasks.own

theorem syncFolderMoved_inv {m : SyncMove} {rest : List SyncMove} (h : Inv d)
    (hmoves : d.moves = m :: rest) (hsaved : d.saved ≠ none)
    (hrank : ∀ f p, parentOf d.parents f = some p → rank p < rank f)
    (hbusy : ∀ s, ∀ m' ∈ movesIn rest s,
      Balanced.Busy (countedAt d.parents (movesIn rest s)) (d.tree s).tasks.own m'.folderid)
    (fuel : Nat) :
    Ends (rank m.newParentFolderid + rank m.oldParentFolderid) fuel (d.syncFolderMoved fuel m)
      fun d' => Inv { d' with moves := rest } ∧ SameBut d d' ∧ d'.saved ≠ none := by
  obtain ⟨hsync, -, hnew⟩ := h.within m (hmoves ▸ List.mem_cons_self)
  set s := m.oldSyncid with hs
  have hmovesIn : movesIn d.moves s = m.toMove :: movesIn rest s := by
    rw [hmoves, movesIn_cons, if_pos hs.symm]
  have hother : ∀ t, t ≠ s → movesIn d.moves t = movesIn rest t := fun t ht => by
    rw [hmoves, movesIn_cons, if_neg (Ne.symm ht)]
  have hlinked := h.linked s
  have hpending := h.pending s
  rw [hmovesIn] at hlinked hpending
  have hbal : Balanced (countedAt d.parents (movesIn rest s)) (some m.newParentFolderid)
      (some m.oldParentFolderid) (d.tree s).tasks := by
    have hbal := (h.balanced s).move (hpending _ List.mem_cons_self)
      (show ∀ x, x ≠ m.folderid → d.counted s x = countedAt d.parents (movesIn rest s) x from
        fun x hx => by rw [counted, hmovesIn, countedAt_cons_ne hx])
    rwa [hlinked.1, counted, hmovesIn, countedAt_cons_self] at hbal
  unfold syncFolderMoved
  rw [hsync]
  refine ((incrementUp_spec hrank (h.known_parent s) fuel m.newParentFolderid (d.tree s)
    (.inl hnew) (h.cache s) hbal ?_).mono (by omega) fun _ hpost => hpost).bind ?_
  · intro x hx
    exact countedAt_of_forall_ne fun m' hm' heq =>
      hx (heq ▸ hpending m' (List.mem_cons_of_mem _ hm'))
  rintro tree ⟨hcache, hbal₁, -, hnodes, hown⟩
  have htree : (d.setTree s tree).trees s = some tree := Function.update_self ..
  simp only [← hs, htree]
  have hnodes₁ : ∀ x, tree.tasks.has x → InSync d.rows s x := fun x hx =>
    (hnodes x hx).elim (h.nodes s x) fun habove => h.hierarchy.inSync_above hnew habove
  obtain ⟨n, hn, -⟩ := hbal₁.exists_over
  have hold : InSync d.rows s m.oldParentFolderid := hnodes₁ _ (Table.has_of_get hn)
  refine ((decrementUp_spec false hrank (h.known_parent s) fuel m.oldParentFolderid tree (.inl hold)
    hcache hbal₁ ?_).mono (by omega) fun _ hpost => hpost).bind ?_
  · intro x hx
    exact countedAt_of_forall_ne fun m' hm' heq => hx (hown ▸ heq ▸ hbusy s m' hm')
  rintro tree' ⟨hcache', hbal₂, hnodes', hown'⟩
  have hsame : tree'.tasks.own = (d.tree s).tasks.own := hown'.trans hown
  have htrees : ∀ t, ((d.setTree s tree).setTree s tree').tree t =
      if t = s then tree' else d.tree t := by
    intro t
    rw [tree_setTree, tree_setTree]
    split <;> rfl
  refine ⟨?_, ⟨rfl, rfl, fun t => ?_⟩, hsaved⟩
  · exact {
      hierarchy := h.hierarchy
      fresh := h.fresh
      pos := h.pos
      cache := by
        intro t
        show CacheOk _ _ (((d.setTree s tree).setTree s tree').tree t).cache
        rw [htrees]
        split
        · next ht => exact ht ▸ hcache'
        · exact h.cache t
      balanced := by
        intro t
        show Balanced (countedAt d.parents (movesIn rest t)) none none
          (((d.setTree s tree).setTree s tree').tree t).tasks
        rw [htrees]
        split
        · next ht => exact ht ▸ hbal₂
        · next ht =>
          rw [← hother t ht]
          exact h.balanced t
      nodes := by
        intro t
        show ∀ f, (((d.setTree s tree).setTree s tree').tree t).tasks.has f → _
        rw [htrees]
        split
        · next ht => exact fun f hf => ht ▸ hnodes₁ f (hnodes' f hf)
        · exact h.nodes t
      within := fun m' hm' => h.within m' (hmoves ▸ List.mem_cons_of_mem _ hm')
      pending := by
        intro t m' hm'
        show (((d.setTree s tree).setTree s tree').tree t).tasks.has m'.folderid
        have hm' : m' ∈ movesIn rest t := hm'
        rw [htrees]
        split
        · next ht =>
          rw [ht] at hm'
          exact hbal₂.has_of_busy (hsame ▸ hbusy s m' hm')
        · next ht => exact h.pending t m' (hother t ht ▸ hm')
      linked := by
        intro t
        show Linked d.parents (movesIn rest t)
        by_cases ht : t = s
        · rw [ht]
          exact hlinked.2
        · rw [← hother t ht]
          exact h.linked t
      saved := h.saved
      outside := fun hnone => absurd hnone hsaved }
  · rw [htrees]
    split
    · next ht => rw [ht, hsame]
    · rfl

theorem runCommitCallbacks_inv (fuel : Nat) (moves : List SyncMove) :
    ∀ d : Syncs, Inv d → d.moves = moves → d.saved ≠ none →
      (∀ f p, parentOf d.parents f = some p → rank p < rank f) →
      (∀ m rest, m :: rest <:+ moves → ∀ s, ∀ m' ∈ movesIn rest s,
        Balanced.Busy (countedAt d.parents (movesIn rest s)) (d.tree s).tasks.own m'.folderid) →
      Ends (moves.map fun m => rank m.newParentFolderid + rank m.oldParentFolderid).sum fuel
        (d.runCommitCallbacks fuel moves) fun d' => Inv d' ∧ d'.moves = [] := by
  induction moves with
  | nil => exact fun d h hmoves _ _ _ => ⟨h, hmoves⟩
  | cons m rest ih =>
    intro d h hmoves hsaved hrank hbusy
    unfold runCommitCallbacks
    refine ((syncFolderMoved_inv h hmoves hsaved hrank (hbusy m rest List.suffix_rfl) fuel).mono
      (by simp; omega) fun _ hpost => hpost).bind ?_
    rintro d' ⟨hinv, hsame, hsaved'⟩
    have hparents : d'.parents = d.parents := by rw [Syncs.parents, hsame.rows]
    refine (ih { d' with moves := rest } hinv rfl hsaved' ?_ ?_).mono (by simp; omega)
      fun _ hpost => hpost
    · show ∀ f p, parentOf d'.parents f = some p → rank p < rank f
      rw [hparents]
      exact hrank
    · intro m' rest' hsuffix s m'' hm''
      show Balanced.Busy (countedAt d'.parents (movesIn rest' s)) (d'.tree s).tasks.own m''.folderid
      rw [hparents, hsame.own s]
      exact hbusy m' rest' (hsuffix.trans (List.suffix_cons m rest)) s m'' hm''

end Commit

/-! ## Runs -/

section Runs

variable {d : Syncs}

theorem rollback_inv (h : Inv d) (hmatch : d.Matching .rollback) (hmeets : d.Meets .rollback)
    (fuel : Nat) : Ends 0 fuel (d.exec fuel .rollback) Inv := by
  obtain ⟨⟨rows, next⟩, hsaved⟩ := Option.ne_none_iff_exists'.mp hmatch
  have hback := hmeets rows next hsaved
  obtain ⟨hhierarchy, hfresh, hpos⟩ := h.saved rows next hsaved
  simp only [exec, hsaved, Option.map_some, Option.getD_some]
  exact {
    hierarchy := hhierarchy
    fresh := hfresh
    pos := hpos
    cache := fun s => ⟨(h.cache s).unique, fun e he hknown => by
      obtain ⟨hlt, hentry⟩ := (hback s).2 e he
      exact hentry (hknown.resolve_right (Nat.not_le.mpr hlt))⟩
    balanced := fun s => (h.balanced s).congr_up fun x hx => ((hback s).1 x hx).2
    nodes := fun s f hf => ((hback s).1 f hf).1
    within := fun _ hm => nomatch hm
    pending := fun _ _ hm => nomatch hm
    linked := fun _ => trivial
    saved := fun _ _ hp => nomatch hp
    outside := fun _ => rfl }

/-- What one event keeps, and that it returns. -/
theorem exec_inv (h : Inv d) {event : Event} (hmatch : d.Matching event) (hmeets : d.Meets event) :
    ∃ bound, ∀ fuel, Ends bound fuel (d.exec fuel event) Inv := by
  cases event with
  | start =>
    have hidle := h.outside hmatch
    refine ⟨0, fun fuel => ?_⟩
    have hsame : ({ d with saved := some (d.rows, d.next), moves := [] } : Syncs) =
        { d with saved := some (d.rows, d.next) } := by rw [← hidle]
    simp only [exec, hsame]
    exact { h with
      saved := fun rows next hp => by
        obtain ⟨rfl, rfl⟩ := Prod.mk.inj (Option.some.inj hp)
        exact ⟨h.hierarchy, h.fresh, h.pos⟩
      outside := fun hnone => nomatch hnone }
  | create p s => exact ⟨0, create_inv h hmatch⟩
  | added s f => exact taskAdded_inv h hmatch
  | completed s f hasTasks => exact taskCompleted_inv h hmeets
  | moved f rows driveHas => exact ⟨0, moved_inv h hmatch hmeets⟩
  | deleted f => exact ⟨0, deleted_inv h hmatch hmeets⟩
  | commit =>
    obtain ⟨rank, hrank⟩ := h.hierarchy.ranked
    refine ⟨_, fun fuel =>
      (runCommitCallbacks_inv fuel d.moves d h rfl hmatch hrank hmeets).bind ?_⟩
    rintro d' ⟨hinv, hmoves⟩
    exact { hinv with
      saved := fun _ _ hp => nomatch hp
      outside := fun _ => hmoves }
  | rollback => exact ⟨0, rollback_inv h hmatch hmeets⟩

theorem Inv.exact (h : Inv d) : Exact d where
  node := fun s => (h.balanced s).has_iff_own_or_cnt
  count := fun s f => by simpa using (h.balanced s).count f
  countNow := fun hmoves s f => by
    have hcount := (h.balanced s).count f
    have hcounted : d.counted s = parentOf d.parents := by
      funext x
      exact countedAt_of_forall_ne (by simp [movesIn, hmoves])
    simpa [hcounted] using hcount
  inSync := h.nodes

theorem inv_of_goodRun {rows : Rows} {next : FolderId} (hrows : Hierarchy rows)
    (hfresh : ∀ f, rows f ≠ none → f < next) (hpos : 0 < next) (hrun : GoodRun rows next d) :
    Inv d := by
  induction hrun with
  | refl => exact .init hrows hfresh hpos
  | tail _ hstep ih =>
    obtain ⟨event, fuel, hmatch, hmeets, hexec⟩ := hstep
    obtain ⟨bound, hends⟩ := exec_inv ih hmatch hmeets
    have hend := hends fuel
    rw [hexec] at hend
    exact hend

/-- Along every run of events that meet the condition the path status of the syncs is exact, and the
next such event returns: no assertion fails. -/
theorem sync_counts_exact {rows : Rows} {next : FolderId} (hrows : Hierarchy rows)
    (hfresh : ∀ f, rows f ≠ none → f < next) (hpos : 0 < next) (hrun : GoodRun rows next d) :
    Exact d ∧ ∀ event, d.Matching event → d.Meets event →
      ∃ bound, ∀ fuel, bound < fuel → ∃ d', d.exec fuel event = .ok d' := by
  have hinv := inv_of_goodRun hrows hfresh hpos hrun
  refine ⟨hinv.exact, fun event hmatch hmeets => ?_⟩
  obtain ⟨bound, hends⟩ := exec_inv hinv hmatch hmeets
  refine ⟨bound, fun fuel hfuel => ?_⟩
  obtain ⟨d', hd', -⟩ := (hends fuel).returns hfuel
  exact ⟨d', hd'⟩

end Runs

/-- Folders 1 and 2 at the top of sync 1, and folder 3 in `p`. -/
def threeFolders (p : FolderId) : Rows := fun f =>
  if f = 1 ∨ f = 2 then some ⟨0, 1⟩ else if f = 3 then some ⟨p, 1⟩ else none

theorem hierarchy_threeFolders {p : FolderId} (hp : p = 1 ∨ p = 2) :
    Hierarchy (threeFolders p) where
  root := rfl
  ranked := by
    refine ⟨fun f => if f = 3 then 2 else if f = 0 then 0 else 1, fun f q h => ?_⟩
    simp only [parentOf, Rows.parents, threeFolders] at h
    grind
  closed := by
    intro f r h
    simp only [InSync, threeFolders] at h ⊢
    grind

theorem hierarchy_threeFolders_deleted :
    Hierarchy (Function.update (threeFolders 1) 3 none) where
  root := rfl
  ranked := by
    refine ⟨fun f => if f = 0 then 0 else 1, fun f q h => ?_⟩
    simp only [parentOf, Rows.parents, threeFolders, Function.update_apply] at h
    grind
  closed := by
    intro f r h
    simp only [InSync, threeFolders, Function.update_apply] at h ⊢
    grind

theorem movedTo_threeFolders : MovedTo (threeFolders 1) 3 ⟨1, 1⟩ ⟨2, 1⟩ (threeFolders 2) where
  self := rfl
  below := fun _ _ hsync => absurd rfl hsync
  other := fun g hg _ => by simp [threeFolders, hg]

theorem fresh_threeFolders (p f : FolderId) (hf : threeFolders p f ≠ none) : f < 4 := by
  simp only [threeFolders] at hf
  grind

/-- Folder 3, with a task, is moved into folder 2 while the drive has a folder 3 with tasks. -/
theorem sync_counts_exact_moved :
    ∃ d, GoodRun (threeFolders 1) 4 d ∧ (d.tree 1).tasks.cnt 2 = 1 ∧ ¬ (d.tree 1).tasks.has 1 ∧
      Exact d := by
  obtain ⟨d, hrun, hcnt, hgone⟩ : ∃ d, GoodRun (threeFolders 1) 4 d ∧
      (d.tree 1).tasks.cnt 2 = 1 ∧ ¬ (d.tree 1).tasks.has 1 := by
    refine ⟨_, .tail (.tail (.tail (.tail .refl ⟨.added 1 3, 5, ?_, trivial, rfl⟩)
      ⟨.start, 0, rfl, trivial, rfl⟩) ⟨.moved 3 (threeFolders 2) true, 0,
        ⟨_, _, rfl, movedTo_threeFolders, nofun, hierarchy_threeFolders (.inr rfl)⟩, ?_, rfl⟩)
      ⟨.commit, 5, nofun, ?_, rfl⟩, ?_, ?_⟩
    · exact .inr ⟨⟨1, 1⟩, rfl, rfl⟩
    · rintro r r' hr hr'
      obtain rfl := Option.some.inj hr
      obtain rfl := Option.some.inj hr'
      exact .inr (.inl ⟨rfl, .inr (by decide)⟩)
    · intro m rest hsuffix s m' hm'
      have hlen := hsuffix.length_le
      simp only [List.length_cons] at hlen
      have hrest : rest = [] := List.eq_nil_of_length_eq_zero (by simpa using hlen)
      rw [hrest] at hm'
      cases hm'
    · rfl
    · decide
  exact ⟨d, hrun, hcnt, hgone, (sync_counts_exact (hierarchy_threeFolders (.inl rfl))
    (fresh_threeFolders 1) (by decide) hrun).1⟩

/-- Folder 3 has a task.  It is moved into folder 2, no folder 3 of the drive has tasks, and the
count stays at folder 1; it is deleted, and its node stays. -/
theorem sync_counts_wrong :
    (∃ d, Run (threeFolders 1) 4 d ∧ d.moves = [] ∧ (d.tree 1).tasks.cnt 1 = 1 ∧
      (d.tree 1).tasks.children (parentOf d.parents) 1 = 0 ∧ ¬ (d.tree 1).tasks.has 2 ∧
      (d.tree 1).tasks.children (parentOf d.parents) 2 = 1) ∧
    ∃ d, Run (threeFolders 1) 4 d ∧ (d.tree 1).tasks.has 3 ∧ d.rows 3 = none := by
  have hin : InSync (threeFolders 1) 1 3 := .inr ⟨⟨1, 1⟩, rfl, rfl⟩
  refine ⟨⟨_, .tail (.tail (.tail (.tail .refl ⟨.added 1 3, 5, hin, rfl⟩)
      ⟨.start, 0, rfl, rfl⟩) ⟨.moved 3 (threeFolders 2) false, 0,
        ⟨_, _, rfl, movedTo_threeFolders, nofun, hierarchy_threeFolders (.inr rfl)⟩, rfl⟩)
      ⟨.commit, 5, nofun, rfl⟩, rfl, rfl, rfl, ?_, rfl⟩,
    ⟨_, .tail (.tail .refl ⟨.added 1 3, 5, hin, rfl⟩)
      ⟨.deleted 3, 5, ⟨nofun, hierarchy_threeFolders_deleted⟩, rfl⟩, ?_, rfl⟩⟩
  · decide
  · decide

end PcloudClient.Ppathstatus.Syncs
