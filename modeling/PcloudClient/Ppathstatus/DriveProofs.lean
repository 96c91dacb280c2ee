/-
  Ppathstatus/DriveProofs.lean --- the counts of the drive's tree along a run of calls.

  While a callback waits, a folder is counted where it was moved from.  The ways up ask the table,
  which has the new place already, so they must not pass a folder whose callback waits: it has a
  node as long as it has tasks below it, and the ways up only pass folders without one.
-/
import Mathlib.Algebra.GroupWithZero.Nat
import PcloudClient.Ppathstatus.Drive

set_option autoImplicit false

namespace PcloudClient.Ppathstatus.Drive

open PcloudClient.Counted

structure Inv (d : Drive) : Prop where
  hierarchy : Hierarchy d.parents
  cache : CacheOk (fun _ => True) d.parents d.tree.cache
  balanced : Balanced d.counted none none d.tree.tasks
  nodes : ∀ f, d.tree.tasks.has f → f = 0 ∨ d.parents f ≠ none
  pending : ∀ m ∈ d.moves, d.tree.tasks.has m.folderid
  linked : Linked d.parents d.moves
  saved : ∀ parents, d.saved = some parents → Hierarchy parents
  outside : d.saved = none → d.moves = []

namespace Inv

variable {d : Drive} {f : FolderId}

/-- A folder without a node is counted at its parent of the table. -/
theorem counted_of_not_has (h : Inv d) (hf : ¬ d.tree.tasks.has f) :
    d.counted f = parentOf d.parents f :=
  countedAt_of_forall_ne fun m hm heq => hf (heq ▸ h.pending m hm)

/-- The row of a folder without a node may change. -/
theorem updateRow (h : Inv d) (hf : ¬ d.tree.tasks.has f) {row : Option FolderId} {tree : TaskTree}
    (htasks : tree.tasks = d.tree.tasks)
    (hhierarchy : Hierarchy (Function.update d.parents f row))
    (hcache : CacheOk (fun _ => True) (Function.update d.parents f row) tree.cache) :
    Inv { d with parents := Function.update d.parents f row, tree := tree } where
  hierarchy := hhierarchy
  cache := hcache
  balanced := by
    rw [htasks]
    refine h.balanced.congr_up fun x hx => (countedAt_congr ?_).symm
    have hne : x ≠ f := fun heq => hf (heq ▸ hx)
    simp [parentOf, hne]
  nodes := by
    rw [htasks]
    intro x hx
    have hne : x ≠ f := fun heq => hf (heq ▸ hx)
    simpa [hne] using h.nodes x hx
  pending := by
    rw [htasks]
    exact h.pending
  linked := by
    refine h.linked.congr fun m hm => ?_
    have hne : m.folderid ≠ f := fun heq => hf (heq ▸ h.pending m hm)
    simp [parentOf, hne]
  saved := h.saved
  outside := h.outside

/-- The entry of a folder is out of the cache before its row changes. -/
theorem cache_updateRow (h : Inv d) (f : FolderId) (row : Option FolderId) :
    CacheOk (fun _ => True) (Function.update d.parents f row)
      (delFromParentCache f d.tree).cache :=
  h.cache.delFromParentCache fun x hne _ => ⟨trivial, by simp [hne]⟩

theorem init {parents : Parents} (h : Hierarchy parents) : Inv (.init parents) where
  hierarchy := h
  cache := cacheOk_init _ _ _
  balanced := .empty _
  nodes := fun _ hf => absurd rfl hf
  pending := fun _ hm => nomatch hm
  linked := trivial
  saved := fun _ hp => nomatch hp
  outside := fun _ => rfl

end Inv

/-- What a folder and all folders above it have in common: they are there. -/
theorem Hierarchy.above {parents : Parents} (h : Hierarchy parents) {f x : FolderId}
    (hf : f = 0 ∨ parents f ≠ none) (hx : Above parents f x) : x = 0 ∨ parents x ≠ none :=
  hx.rec_closed hf fun _ _ _ => h.closed _ _

section Calls

variable {d : Drive} {f : FolderId}

/-- `psync_path_status_drive_folder_changed` for a folder that has tasks. -/
theorem folderChanged_true (h : Inv d) (hf : f = 0 ∨ d.parents f ≠ none) :
    ∃ bound, ∀ fuel, Ends bound fuel (d.folderChanged fuel f true) Inv := by
  obtain ⟨rank, hrank⟩ := h.hierarchy.ranked
  refine ⟨rank f, fun fuel => ?_⟩
  unfold folderChanged
  cases hget : d.tree.tasks.get f with
  | some ft =>
    have hhas := Table.has_of_get hget
    have hlive : ft.own = true ∨ ft.cnt ≠ 0 :=
      (h.balanced.live f ft hget).imp_right Nat.pos_iff_ne_zero.mp
    simp only [hhas, not_true_eq_false, and_false, if_false, hget, true_and, false_and, false_or,
      if_pos hlive]
    exact {
      hierarchy := h.hierarchy
      cache := h.cache
      balanced := h.balanced.setOwn hget (.inl rfl)
      nodes := fun x hx => (Table.has_set.mp hx).elim (fun heq => heq ▸ hf) (h.nodes x)
      pending := fun m hm => Table.has_set.mpr (.inr (h.pending m hm))
      linked := h.linked
      saved := h.saved
      outside := h.outside }
  | none =>
    have hnot : ¬ d.tree.tasks.has f := fun hhas => hhas hget
    simp only [hnot, not_false_eq_true, and_true, if_true, Table.get_set, not_true_eq_false,
      false_and, true_and, Bool.false_eq_true, ne_eq, or_self, if_false, Table.set_set]
    have hmark := h.balanced.mark hget
    rw [h.counted_of_not_has hnot] at hmark
    refine (incrementAbove_spec hrank (fun _ _ _ _ => trivial) fuel f
      { d.tree with tasks := d.tree.tasks.set f ⟨true, 0⟩ } trivial h.cache hmark
      (fun x hx => h.counted_of_not_has fun hhas => hx (Table.has_set.mpr (.inr hhas)))).bind ?_
    rintro tree ⟨hcache, hbal, hgrows, hnodes, -⟩
    exact {
      hierarchy := h.hierarchy
      cache := hcache
      balanced := hbal
      nodes := fun x hx => by
        rcases hnodes x hx with hset | habove
        · exact (Table.has_set.mp hset).elim (fun heq => heq ▸ hf) (h.nodes x)
        · exact h.hierarchy.above hf habove
      pending := fun m hm => hgrows _ (Table.has_set.mpr (.inr (h.pending m hm)))
      linked := h.linked
      saved := h.saved
      outside := h.outside }

/-- And for one that has none. -/
theorem folderChanged_false (h : Inv d) (hmeets : d.Meets (.changed f false)) :
    ∃ bound, ∀ fuel, Ends bound fuel (d.folderChanged fuel f false) Inv := by
  obtain ⟨rank, hrank⟩ := h.hierarchy.ranked
  refine ⟨rank f, fun fuel => ?_⟩
  unfold folderChanged
  simp only [Bool.false_eq_true, false_and, if_false]
  cases hget : d.tree.tasks.get f with
  | none => exact h
  | some ft =>
    by_cases hcnt : ft.cnt = 0
    · have hown : ft.own = true := (h.balanced.live f ft hget).resolve_right (by omega)
      simp only [hcnt, hown, ne_eq, not_true_eq_false, and_false, or_self, if_false]
      have hgone := h.balanced.unmark hget hcnt
      have hownErase : (d.tree.tasks.erase f).own =
          Function.update d.tree.tasks.own f false := by
        funext x
        simp [Function.update_apply]
      have hbusy : ∀ m ∈ d.moves,
          Balanced.Busy d.counted (d.tree.tasks.erase f).own m.folderid := by
        intro m hm
        rw [hownErase]
        exact hmeets m hm
      have hup : ∀ x, ¬ Balanced.Busy d.counted (d.tree.tasks.erase f).own x →
          d.counted x = parentOf d.parents x := fun x hx =>
        countedAt_of_forall_ne fun m hm heq => hx (heq ▸ hbusy m hm)
      have hidle : ¬ Balanced.Busy d.counted (d.tree.tasks.erase f).own f := fun hb =>
        (Table.has_erase.mp (hgone.has_of_busy hb)).1 rfl
      rw [hup f hidle] at hgone
      refine (decrementAbove_spec false hrank (fun _ _ _ _ => trivial) fuel f
        { d.tree with tasks := d.tree.tasks.erase f } trivial h.cache hgone hup).bind ?_
      rintro tree ⟨hcache, hbal, hnodes, hown'⟩
      exact {
        hierarchy := h.hierarchy
        cache := hcache
        balanced := hbal
        nodes := fun x hx => h.nodes x (Table.has_erase.mp (hnodes x hx)).2
        pending := fun m hm => hbal.has_of_busy (hown' ▸ hbusy m hm)
        linked := h.linked
        saved := h.saved
        outside := h.outside }
    · simp only [hcnt, not_false_eq_true, ne_eq, and_self, true_or, if_true]
      exact {
        hierarchy := h.hierarchy
        cache := h.cache
        balanced := h.balanced.setOwn hget (.inr (by omega))
        nodes := fun x hx => (Table.has_set.mp hx).elim
          (fun heq => heq ▸ h.nodes f (Table.has_of_get hget)) (h.nodes x)
        pending := fun m hm => Table.has_set.mpr (.inr (h.pending m hm))
        linked := h.linked
        saved := h.saved
        outside := h.outside }

/-- A move: its callback is registered, or there is nothing to count. -/
theorem moved_inv {p : FolderId} (h : Inv d) (hmatch : d.Matching (.moved f p)) (fuel : Nat) :
    Ends 0 fuel (d.exec fuel (.moved f p)) Inv := by
  obtain ⟨hzero, hrow, hsaved, hhierarchy⟩ := hmatch
  obtain ⟨old, hold⟩ := Option.ne_none_iff_exists'.mp hrow
  simp only [exec, hold, pathStatusFolderMoved]
  by_cases heq : old = p
  · have hsame : Function.update d.parents f (some p) = d.parents :=
      Function.update_eq_self_iff.mpr (by rw [hold, heq])
    rw [if_pos heq, hsame]
    exact h
  · rw [if_neg heq]
    have hcache := h.cache_updateRow f (some p)
    by_cases hhas : d.tree.tasks.has f
    · have hsome : d.saved.isNone = false := 
        Option.isNone_eq_false_iff.mpr (Option.isSome_iff_ne_none.mpr hsaved)
      simp only [tasks_delFromParentCache, hhas, not_true_eq_false, if_false, hsome,
        Bool.false_eq_true]
      exact {
        hierarchy := hhierarchy
        cache := hcache
        balanced := by
          rw [tasks_delFromParentCache]
          refine h.balanced.congr_up fun x _ => ?_
          exact (@countedAt_append d.parents d.moves x ⟨f, old, p⟩ hzero hold (some p)).symm
        nodes := fun x hx => by
          rw [tasks_delFromParentCache] at hx
          refine (h.nodes x hx).imp_right fun hx' => ?_
          by_cases hxf : x = f
          · simp [hxf]
          · simpa [hxf] using hx'
        pending := fun m hm => by
          rw [tasks_delFromParentCache]
          rcases List.mem_append.mp hm with hin | hlast
          · exact h.pending m hin
          · exact List.mem_singleton.mp hlast ▸ hhas
        linked := @Linked.append d.parents d.moves ⟨f, old, p⟩ h.linked hzero hold
        saved := h.saved
        outside := fun hnone => absurd hnone hsaved }
    · simp only [tasks_delFromParentCache, hhas, not_false_eq_true, if_true]
      exact h.updateRow hhas (tasks_delFromParentCache f d.tree) hhierarchy hcache

end Calls

/-! ## The callbacks -/

/-- What holds between two callbacks: a folder that a later callback takes the child from again may
have a node and no row. -/
structure Between (d : Drive) : Prop where
  hierarchy : Hierarchy d.parents
  cache : CacheOk (fun _ => True) d.parents d.tree.cache
  balanced : Balanced d.counted none none d.tree.tasks
  owned : ∀ f, d.tree.tasks.own f = true → f = 0 ∨ d.parents f ≠ none
  pending : ∀ m ∈ d.moves, d.tree.tasks.has m.folderid
  linked : Linked d.parents d.moves

theorem Inv.between {d : Drive} (h : Inv d) : Between d where
  hierarchy := h.hierarchy
  cache := h.cache
  balanced := h.balanced
  owned := fun f hf => h.nodes f (Balanced.has_of_own hf)
  pending := h.pending
  linked := h.linked

/-- After the last callback all nodes are of folders that are there. -/
theorem Between.nodes {d : Drive} (h : Between d) (hmoves : d.moves = []) (f : FolderId)
    (hf : d.tree.tasks.has f) : f = 0 ∨ d.parents f ≠ none := by
  rcases (h.balanced.has_iff_own_or_cnt f).mp hf with hown | hcnt
  · exact h.owned f hown
  · have hcount := h.balanced.count f
    simp only [one_none] at hcount
    obtain ⟨x, -, hx⟩ := Table.count_pos.mp (show 0 < d.tree.tasks.children d.counted f by omega)
    have hparent : parentOf d.parents x = some f := by
      have hx : countedAt d.parents d.moves x = some f := of_decide_eq_true hx
      rwa [countedAt_of_forall_ne (by simp [hmoves])] at hx
    exact h.hierarchy.closed x f hparent

/-- One callback: the new parent counts the folder, then the old one does not. -/
theorem folderMoved_between {d : Drive} {m : Move} {rest : List Move} {rank : FolderId → Nat}
    (h : Between d) (hmoves : d.moves = m :: rest)
    (hrank : ∀ f p, parentOf d.parents f = some p → rank p < rank f)
    (hbusy : ∀ m' ∈ rest, Balanced.Busy (countedAt d.parents rest) d.tree.tasks.own m'.folderid)
    (fuel : Nat) :
    Ends (rank m.newParentFolderid + rank m.oldParentFolderid) fuel
      (folderMoved d.parents fuel m d.tree) fun tree =>
        Between { d with tree := tree, moves := rest } ∧ tree.tasks.own = d.tree.tasks.own := by
  have hlinked := h.linked
  rw [hmoves] at hlinked
  have hpending : ∀ m' ∈ m :: rest, d.tree.tasks.has m'.folderid := hmoves ▸ h.pending
  have hbal : Balanced (countedAt d.parents rest) (some m.newParentFolderid)
      (some m.oldParentFolderid) d.tree.tasks := by
    have hbal := h.balanced.move (hpending m List.mem_cons_self)
      (show ∀ x, x ≠ m.folderid → d.counted x = countedAt d.parents rest x from fun x hx => by
        rw [counted, hmoves, countedAt_cons_ne hx])
    rwa [hlinked.1, counted, hmoves, countedAt_cons_self] at hbal
  refine ((incrementUp_spec hrank (fun _ _ _ _ => trivial) fuel m.newParentFolderid d.tree trivial
    h.cache hbal ?_).mono (by omega) fun _ hpost => hpost).bind ?_
  · intro x hx
    exact countedAt_of_forall_ne fun m' hm' heq =>
      hx (heq ▸ hpending m' (List.mem_cons_of_mem _ hm'))
  · rintro tree ⟨hcache, hbal₁, -, -, hown⟩
    refine (decrementUp_spec false hrank
      (fun _ _ _ _ => trivial) fuel m.oldParentFolderid tree trivial
      hcache hbal₁ ?_).mono (by omega) ?_
    · intro x hx
      exact countedAt_of_forall_ne fun m' hm' heq => hx (hown ▸ heq ▸ hbusy m' hm')
    · rintro tree' ⟨hcache', hbal₂, -, hown'⟩
      have hsame : tree'.tasks.own = d.tree.tasks.own := hown'.trans hown
      exact ⟨{
        hierarchy := h.hierarchy
        cache := hcache'
        balanced := hbal₂
        owned := fun f hf => h.owned f (hsame ▸ hf)
        pending := fun m' hm' => hbal₂.has_of_busy (hsame ▸ hbusy m' hm')
        linked := hlinked.2 }, hsame⟩

/-- All callbacks of a commit. -/
theorem runCommitCallbacks_between {rank : FolderId → Nat} (fuel : Nat) (moves : List Move) :
    ∀ d : Drive, Between d → d.moves = moves →
      (∀ f p, parentOf d.parents f = some p → rank p < rank f) →
      (∀ m rest, m :: rest <:+ moves → ∀ m' ∈ rest,
        Balanced.Busy (countedAt d.parents rest) d.tree.tasks.own m'.folderid) →
      Ends (moves.map fun m => rank m.newParentFolderid + rank m.oldParentFolderid).sum fuel
        (d.runCommitCallbacks fuel moves) fun d' =>
          Between d' ∧ d'.moves = [] ∧ d'.saved = d.saved := by
  induction moves with
  | nil => exact fun d h hmoves _ _ => ⟨h, hmoves, rfl⟩
  | cons m rest ih =>
    intro d h hmoves hrank hbusy
    unfold runCommitCallbacks
    refine ((folderMoved_between h hmoves hrank (hbusy m rest List.suffix_rfl) fuel).mono
      (by simp; omega) fun _ hpost => hpost).bind ?_
    rintro tree ⟨hbetween, hown⟩
    refine (ih { d with tree := tree, moves := rest } hbetween rfl hrank ?_).mono
      (by simp; omega) fun _ hpost => hpost
    intro m' rest' hsuffix m'' hm''
    rw [show ({ d with tree := tree, moves := rest } : Drive).tree.tasks.own =
      d.tree.tasks.own from hown]
    exact hbusy m' rest' (hsuffix.trans (List.suffix_cons m rest)) m'' hm''

/-! ## Runs -/

/-- What one call keeps, and that it returns. -/
theorem exec_inv {d : Drive} (h : Inv d) {call : Call} (hmatch : d.Matching call)
    (hmeets : d.Meets call) :
    ∃ bound, ∀ fuel, Ends bound fuel (d.exec fuel call) Inv := by
  cases call with
  | start =>
    have hidle := h.outside hmatch
    refine ⟨0, fun fuel => ?_⟩
    have hcounted : ({ d with saved := some d.parents, moves := [] } : Drive) =
        { d with saved := some d.parents } := by rw [← hidle]
    simp only [exec, hcounted]
    exact { h with
      saved := fun parents hp => Option.some.inj hp ▸ h.hierarchy
      outside := fun hnone => nomatch hnone }
  | create f p =>
    obtain ⟨hzero, hrow, hhierarchy⟩ := hmatch
    have hnot : ¬ d.tree.tasks.has f := fun hhas =>
      (h.nodes f hhas).elim hzero fun hne => hne hrow
    refine ⟨0, fun fuel => h.updateRow hnot rfl hhierarchy ⟨h.cache.unique, fun e he _ => ?_⟩⟩
    have hentry := h.cache.entry e he trivial
    have hne : e.folderid ≠ f := fun heq => by simp [heq, hrow] at hentry
    simpa [hne] using hentry
  | changed f changed =>
    cases changed with
    | true => exact folderChanged_true h hmatch
    | false => exact folderChanged_false h hmeets
  | moved f p => exact ⟨0, moved_inv h hmatch⟩
  | deleted f =>
    obtain ⟨-, -, hhierarchy⟩ := hmatch
    have hnot : ¬ d.tree.tasks.has f := hmeets
    refine ⟨0, fun fuel => ?_⟩
    simp only [exec, pathStatusFolderDeleted, if_neg hnot, ok_bind]
    exact h.updateRow hnot (tasks_delFromParentCache f d.tree) hhierarchy (h.cache_updateRow f none)
  | commit =>
    obtain ⟨rank, hrank⟩ := h.hierarchy.ranked
    refine ⟨_, fun fuel =>
      (runCommitCallbacks_between fuel d.moves d h.between rfl hrank hmeets).bind ?_⟩
    rintro d' ⟨hbetween, hmoves, hsaved⟩
    exact {
      hierarchy := hbetween.hierarchy
      cache := hbetween.cache
      balanced := hbetween.balanced
      nodes := hbetween.nodes hmoves
      pending := hbetween.pending
      linked := hbetween.linked
      saved := fun _ hp => nomatch hp
      outside := fun _ => hmoves }
  | rollback =>
    obtain ⟨saved, hsaved⟩ := Option.ne_none_iff_exists'.mp hmatch
    obtain ⟨hcounted, hentries⟩ := hmeets saved hsaved
    refine ⟨0, fun fuel => ?_⟩
    simp only [exec, hsaved, Option.getD_some]
    exact {
      hierarchy := h.saved saved hsaved
      cache := ⟨h.cache.unique, fun e he _ => hentries e he⟩
      balanced := h.balanced.congr_up hcounted
      nodes := fun f hf => by
        by_cases hzero : f = 0
        · exact .inl hzero
        · refine .inr fun hnone => ?_
          -- a folder with a node is counted somewhere, so it has a row to go back to
          have hnone : saved f = none := hnone
          have hnowhere := hcounted f hf
          rw [parentOf, if_neg hzero, hnone, counted, countedAt] at hnowhere
          cases hfind : d.moves.find? (·.folderid = f) with
          | some m => simp [hfind] at hnowhere
          | none =>
            simp only [hfind, parentOf, if_neg hzero] at hnowhere
            exact (h.nodes f hf).elim hzero fun hne => hne hnowhere
      pending := fun _ hm => nomatch hm
      linked := trivial
      saved := fun _ hp => nomatch hp
      outside := fun _ => rfl }

theorem Inv.exact {d : Drive} (h : Inv d) : Exact d where
  node := h.balanced.has_iff_own_or_cnt
  count := fun f => by simpa using h.balanced.count f
  countNow := fun hmoves f => by
    have hcount := h.balanced.count f
    have hcounted : d.counted = parentOf d.parents := by
      funext x
      exact countedAt_of_forall_ne (by simp [hmoves])
    simpa [hcounted] using hcount
  cache := fun f => by
    have hknown : (fun _ => True) f := trivial
    obtain ⟨_, hlookup, -, -⟩ := getParentFolder_spec d.tree h.cache hknown
    rw [hlookup]

theorem inv_of_goodRun {parents : Parents} (hparents : Hierarchy parents) {d : Drive}
    (hrun : GoodRun parents d) : Inv d := by
  induction hrun with
  | refl => exact .init hparents
  | tail _ hstep ih =>
    obtain ⟨call, fuel, hmatch, hmeets, hexec⟩ := hstep
    obtain ⟨bound, hends⟩ := exec_inv ih hmatch hmeets
    have hend := hends fuel
    rw [hexec] at hend
    exact hend

/-- Along every run of calls that meet the condition the path status of the drive is exact, and the
next such call returns: no assertion fails. -/
theorem drive_counts_exact {parents : Parents} (hparents : Hierarchy parents) {d : Drive}
    (hrun : GoodRun parents d) :
    Exact d ∧ ∀ call, d.Matching call → d.Meets call →
      ∃ bound, ∀ fuel, bound < fuel → ∃ d', d.exec fuel call = .ok d' := by
  have hinv := inv_of_goodRun hparents hrun
  refine ⟨hinv.exact, fun call hmatch hmeets => ?_⟩
  obtain ⟨bound, hends⟩ := exec_inv hinv hmatch hmeets
  refine ⟨bound, fun fuel hfuel => ?_⟩
  obtain ⟨d', hd', -⟩ := (hends fuel).returns hfuel
  exact ⟨d', hd'⟩

/-! ## Runs that do not meet the condition -/

/-- A folder without folders in it may get another row. -/
theorem Hierarchy.update {parents : Parents} (h : Hierarchy parents) {f : FolderId}
    {row : Option FolderId} (hf : f ≠ 0) (hleaf : ∀ c, parents c ≠ some f)
    (hrow : ∀ p, row = some p → p ≠ f ∧ (p = 0 ∨ parents p ≠ none)) :
    Hierarchy (Function.update parents f row) where
  ranked := by
    obtain ⟨rank, hrank⟩ := h.ranked
    refine ⟨Function.update rank f (row.elim 0 rank + 1), fun c p hparent => ?_⟩
    by_cases hc : c = f
    · subst hc
      have hp : row = some p := by simpa [parentOf, hf] using hparent
      simp [hp, (hrow p hp).1]
    · have hparent : parentOf parents c = some p := by simpa [parentOf, hc] using hparent
      have hp : p ≠ f := fun heq => by
        by_cases hzero : c = 0
        · simp [parentOf, hzero] at hparent
        · exact hleaf c (by rw [← heq]; simpa [parentOf, hzero] using hparent)
      simpa [hc, hp] using hrank c p hparent
  closed := by
    intro c p hparent
    by_cases hc : c = f
    · subst hc
      have hp : row = some p := by simpa [parentOf, hf] using hparent
      simpa [(hrow p hp).1] using (hrow p hp).2
    · have hparent : parentOf parents c = some p := by simpa [parentOf, hc] using hparent
      have hp : p ≠ f := fun heq => by
        by_cases hzero : c = 0
        · simp [parentOf, hzero] at hparent
        · exact hleaf c (by rw [← heq]; simpa [parentOf, hzero] using hparent)
      simpa [hp] using h.closed c p hparent

/-- Folders 1, 2 and 3 at the top and folder 4 in folder 1. -/
def fourFolders : Parents := fun f =>
  if f = 4 then some 1 else if f = 1 ∨ f = 2 ∨ f = 3 then some 0 else none

theorem hierarchy_fourFolders : Hierarchy fourFolders where
  ranked := by
    refine ⟨fun f => if f = 4 then 2 else if f = 0 then 0 else 1, fun f p h => ?_⟩
    simp only [parentOf, fourFolders] at h
    grind
  closed := by
    intro f p h
    simp only [parentOf, fourFolders] at h ⊢
    grind

theorem hierarchy_fourFolders_moved : Hierarchy (Function.update fourFolders 4 (some 2)) := by
  refine hierarchy_fourFolders.update (by decide) (fun c => ?_) fun p hp => ?_
  · unfold fourFolders
    grind
  · obtain rfl := Option.some.inj hp
    decide

/-- Folder 4, with tasks, is moved into folder 2 and counted there. -/
theorem drive_counts_exact_moved :
    ∃ d, GoodRun fourFolders d ∧ d.tree.tasks.cnt 2 = 1 ∧ ¬ d.tree.tasks.has 1 ∧ Exact d := by
  obtain ⟨d, hrun, hcnt, hgone⟩ : ∃ d, GoodRun fourFolders d ∧ d.tree.tasks.cnt 2 = 1 ∧
      ¬ d.tree.tasks.has 1 := by
    refine ⟨_, .tail (.tail (.tail (.tail .refl ⟨.changed 4 true, 5, ?_, trivial, rfl⟩)
      ⟨.start, 0, rfl, trivial, rfl⟩)
        ⟨.moved 4 2, 0, ⟨?_, ?_, ?_, hierarchy_fourFolders_moved⟩, trivial, rfl⟩)
      ⟨.commit, 5, ?_, ?_, rfl⟩, ?_, ?_⟩
    · exact .inr (by decide)
    · decide
    · decide
    · exact nofun
    · exact nofun
    · intro m rest hsuffix m' hm'
      have hlen := hsuffix.length_le
      simp only [List.length_cons] at hlen
      have hrest : rest = [] := List.eq_nil_of_length_eq_zero (by simpa using hlen)
      rw [hrest] at hm'
      cases hm'
    · rfl
    · decide
  exact ⟨d, hrun, hcnt, hgone, (drive_counts_exact hierarchy_fourFolders hrun).1⟩

/-- Folder 1 is deleted with tasks in it, and the cache keeps its parent; folder 4 is moved out of
folder 1 and then folder 1, left without tasks, from the top into folder 3, and the commit asserts a
node of folder 3. -/
theorem drive_counts_wrong :
    (∃ d, Run (Function.update (fun _ => none) 1 (some 0)) d ∧
      (getParentFolder d.parents d.tree 1).1 = some 0 ∧ parentOf d.parents 1 = none) ∧
    ∃ d, Run fourFolders d ∧ d.Matching .commit ∧
      ∀ fuel, d.exec (fuel + 5) .commit = .error .assertion := by
  have hempty : Hierarchy fun _ => none :=
    ⟨⟨fun _ => 0, fun f p h => by simp [parentOf] at h⟩, fun f p h => by simp [parentOf] at h⟩
  have hone : Hierarchy (Function.update (fun _ => none) 1 (some 0)) :=
    hempty.update (by decide) (by simp) fun p hp => by
      obtain rfl := Option.some.inj hp
      decide
  refine ⟨⟨_, .tail (.tail .refl ⟨.changed 1 true, 5, ?_, rfl⟩) ⟨.deleted 1, 5, ?_, rfl⟩, rfl, rfl⟩,
    ⟨_, .tail (.tail (.tail (.tail .refl ⟨.changed 4 true, 5, ?_, rfl⟩)
      ⟨.start, 0, rfl, rfl⟩) ⟨.moved 4 2, 0, ⟨?_, ?_, ?_, hierarchy_fourFolders_moved⟩, rfl⟩)
      ⟨.moved 1 3, 0, ⟨?_, ?_, ?_, ?_⟩, rfl⟩, ?_, fun fuel => rfl⟩⟩
  · exact .inr (by decide)
  · refine ⟨by decide, by decide, hone.update (by decide) (fun c => ?_) (by simp)⟩
    by_cases hc : c = 1 <;> simp [hc]
  · exact .inr (by decide)
  · decide
  · decide
  · simp
  · decide
  · decide
  · simp
  · refine hierarchy_fourFolders_moved.update (by decide) (fun c => ?_) fun p hp => ?_
    · unfold fourFolders
      grind
    · obtain rfl := Option.some.inj hp
      decide
  · exact Option.some_ne_none _

end PcloudClient.Ppathstatus.Drive
