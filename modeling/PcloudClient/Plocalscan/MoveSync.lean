/-
  Plocalscan/MoveSync.lean --- a folder that the scan finds moved from one sync to another.

  `scan_rename_folder` moves the row of the folder and calls `update_syncid_rec` for the rows below
  it.  That rewrites `localfolder` and `syncedfolder` at every level and never `localfile`.
-/
import PcloudClient.Plocalscan.RenamePairs
import PcloudClient.Plocalscan.Tables

set_option autoImplicit false

namespace PcloudClient.Plocalscan

/-- `update_syncid_rec`.  The ids of the children are read before the calls: no call writes
`localparentfolderid`. -/
def updateSyncidRec : (fuel : Nat) → (localfolderid syncid : Nat) → Transaction → Option Transaction
  | 0, _, _, _ => none
  | fuel + 1, localfolderid, syncid, t =>
    let t := t.updateLocalfolder localfolderid fun r => { r with syncid := syncid }
    let t := t.updateSyncedfolder localfolderid fun r => { r with syncid := syncid }
    (t.children localfolderid).foldlM (fun t id => updateSyncidRec fuel id syncid t) t

/-- `psync_task_rename_remote_folder` -/
def taskRenameRemoteFolder (oldsyncid newsyncid localfolderid newlocalparentfolderid : Nat)
    (newname : Bytes) (t : Transaction) : Transaction :=
  { t with db := { t.db with task := t.db.task ++
    [{ type := RENAME_REMOTE_FOLDER, syncid := oldsyncid, newsyncid := newsyncid,
       localitemid := localfolderid, newitemid := newlocalparentfolderid, name := newname,
       itemid := 0 }] } }

/-- `UPDATE localfolder SET localparentfolderid=?, syncid=?, name=?` -/
def LocalFolder.renamedTo (rnto : Entry) (r : LocalFolder) : LocalFolder :=
  { r with localparentfolderid := rnto.localparentfolderid, syncid := rnto.syncid,
           name := rnto.name }

/-- `UPDATE syncedfolder SET syncid=?, synctype=?` -/
def SyncedFolder.renamedTo (rnto : Entry) (r : SyncedFolder) : SyncedFolder :=
  { r with syncid := rnto.syncid, synctype := rnto.synctype }

/-- `scan_rename_folder`, without the path status -/
def scanRenameFolder (fuel : Nat) (rnfr rnto : Entry) (t : Transaction) : Option Transaction := do
  match t.db.localfolder.find? (·.id = rnfr.localid) with
  | none => some t
  | some _ =>
    let t := t.updateLocalfolder rnfr.localid (LocalFolder.renamedTo rnto)
    let t := t.updateSyncedfolder rnfr.localid (SyncedFolder.renamedTo rnto)
    let t ← if rnfr.syncid ≠ rnto.syncid then updateSyncidRec fuel rnfr.localid rnto.syncid t
      else some t
    some (taskRenameRemoteFolder rnfr.syncid rnto.syncid rnfr.localid rnto.localparentfolderid
      rnto.name t)

/-! ## What one statement does -/

section Statements

variable {t : Transaction} {id syncid : Nat}

@[simp]
theorem updateLocalfolder_localfile (set : LocalFolder → LocalFolder) :
    (t.updateLocalfolder id set).db.localfile = t.db.localfile := by
  unfold Transaction.updateLocalfolder
  dsimp only
  split <;> rfl

@[simp]
theorem updateLocalfolder_syncedfolder (set : LocalFolder → LocalFolder) :
    (t.updateLocalfolder id set).db.syncedfolder = t.db.syncedfolder := by
  unfold Transaction.updateLocalfolder
  dsimp only
  split <;> rfl

/-- A statement that did not fail wrote all its rows. -/
theorem updateLocalfolder_done {set : LocalFolder → LocalFolder}
    (h : (t.updateLocalfolder id set).failed = false) :
    t.failed = false ∧ (t.updateLocalfolder id set).db.localfolder =
      t.db.localfolder.map fun r => if r.id = id then set r else r := by
  unfold Transaction.updateLocalfolder at h ⊢
  dsimp only at h ⊢
  split at h
  · exact ⟨h, by simp [*]⟩
  · cases h

@[simp]
theorem updateSyncedfolder_localfile (set : SyncedFolder → SyncedFolder) :
    (t.updateSyncedfolder id set).db.localfile = t.db.localfile := by
  unfold Transaction.updateSyncedfolder
  dsimp only
  split <;> rfl

@[simp]
theorem updateSyncedfolder_localfolder (set : SyncedFolder → SyncedFolder) :
    (t.updateSyncedfolder id set).db.localfolder = t.db.localfolder := by
  unfold Transaction.updateSyncedfolder
  dsimp only
  split <;> rfl

theorem updateSyncedfolder_done {set : SyncedFolder → SyncedFolder}
    (h : (t.updateSyncedfolder id set).failed = false) :
    t.failed = false ∧ (t.updateSyncedfolder id set).db.syncedfolder =
      t.db.syncedfolder.map fun r => if r.localfolderid = id then set r else r := by
  unfold Transaction.updateSyncedfolder at h ⊢
  dsimp only at h ⊢
  split at h
  · exact ⟨h, by simp [*]⟩
  · cases h

/-- An update that keeps ids and parents keeps the shape, failed or not. -/
theorem skeleton_updateLocalfolder {set : LocalFolder → LocalFolder}
    (hset : ∀ r, (set r).id = r.id ∧ (set r).localparentfolderid = r.localparentfolderid) :
    skeleton (t.updateLocalfolder id set).db.localfolder = skeleton t.db.localfolder := by
  unfold Transaction.updateLocalfolder
  dsimp only
  split
  · simp only [skeleton, List.map_map]
    refine List.map_congr_left fun r _ => ?_
    simp only [Function.comp_apply]
    split
    · rw [(hset r).1, (hset r).2]
    · rfl
  · rfl

end Statements

/-! ## What the recursion does -/

/-- The rows of the folders `D` now carry `syncid`, and the others are as they were or carry it
too. -/
structure Rewritten (D : Set Nat) (syncid : Nat) (t t' : Transaction) : Prop where
  shape : skeleton t'.db.localfolder = skeleton t.db.localfolder
  failed : t'.failed = false → t.failed = false
  localfile : t'.db.localfile = t.db.localfile
  localfolder : t'.failed = false → ∀ r ∈ t'.db.localfolder,
    r.syncid = syncid ∨ r ∈ t.db.localfolder ∧ r.id ∉ D
  syncedfolder : t'.failed = false → ∀ r ∈ t'.db.syncedfolder,
    r.syncid = syncid ∨ r ∈ t.db.syncedfolder ∧ r.localfolderid ∉ D

namespace Rewritten

variable {D E : Set Nat} {syncid : Nat} {t u v : Transaction}

theorem refl (syncid : Nat) (t : Transaction) : Rewritten ∅ syncid t t where
  shape := rfl
  failed := id
  localfile := rfl
  localfolder := fun _ _ hr => .inr ⟨hr, Set.notMem_empty _⟩
  syncedfolder := fun _ _ hr => .inr ⟨hr, Set.notMem_empty _⟩

theorem trans (h : Rewritten D syncid t u) (h' : Rewritten E syncid u v) :
    Rewritten (D ∪ E) syncid t v where
  shape := h'.shape.trans h.shape
  failed := fun hv => h.failed (h'.failed hv)
  localfile := h'.localfile.trans h.localfile
  localfolder := by
    intro hv r hr
    rcases h'.localfolder hv r hr with heq | ⟨hu, hE⟩
    · exact .inl heq
    · rcases h.localfolder (h'.failed hv) r hu with heq | ⟨ht, hD⟩
      · exact .inl heq
      · exact .inr ⟨ht, fun hmem => hmem.elim hD hE⟩
  syncedfolder := by
    intro hv r hr
    rcases h'.syncedfolder hv r hr with heq | ⟨hu, hE⟩
    · exact .inl heq
    · rcases h.syncedfolder (h'.failed hv) r hu with heq | ⟨ht, hD⟩
      · exact .inl heq
      · exact .inr ⟨ht, fun hmem => hmem.elim hD hE⟩

theorem congr (h : Rewritten D syncid t u) (hDE : D = E) : Rewritten E syncid t u := hDE ▸ h

/-- The two statements of `update_syncid_rec`. -/
theorem statements (id syncid : Nat) (t : Transaction) :
    Rewritten {id} syncid t
      ((t.updateLocalfolder id fun r => { r with syncid := syncid }).updateSyncedfolder id
        fun r => { r with syncid := syncid }) where
  shape := by
    rw [updateSyncedfolder_localfolder]
    exact skeleton_updateLocalfolder fun r => ⟨rfl, rfl⟩
  failed := fun h => (updateLocalfolder_done (updateSyncedfolder_done h).1).1
  localfile := by simp
  localfolder := by
    intro h r hr
    have hrows := (updateLocalfolder_done (updateSyncedfolder_done h).1).2
    rw [updateSyncedfolder_localfolder, hrows] at hr
    obtain ⟨r₀, hr₀, rfl⟩ := List.mem_map.mp hr
    by_cases hid : r₀.id = id
    · exact .inl (by simp [hid])
    · exact .inr ⟨by simpa [hid] using hr₀, by simp [hid]⟩
  syncedfolder := by
    intro h r hr
    rw [(updateSyncedfolder_done h).2, updateLocalfolder_syncedfolder] at hr
    obtain ⟨r₀, hr₀, rfl⟩ := List.mem_map.mp hr
    by_cases hid : r₀.localfolderid = id
    · exact .inl (by simp [hid])
    · exact .inr ⟨by simpa [hid] using hr₀, by simp [hid]⟩

end Rewritten

/-- The loop over the children: each call rewrites its own part and keeps the shape, on which the
parts depend. -/
theorem foldlM_rewritten {syncid : Nat} (call : Transaction → Nat → Option Transaction)
    (part : Nat → Set Nat) (shape : List (Nat × Nat)) (ids : List Nat)
    (hcall : ∀ id ∈ ids, ∀ t, skeleton t.db.localfolder = shape →
      ∃ t', call t id = some t' ∧ Rewritten (part id) syncid t t') :
    ∀ t, skeleton t.db.localfolder = shape →
      ∃ t', ids.foldlM call t = some t' ∧ Rewritten {x | ∃ id ∈ ids, x ∈ part id} syncid t t' := by
  induction ids with
  | nil =>
    intro t _
    exact ⟨t, rfl, (Rewritten.refl syncid t).congr (by ext x; simp)⟩
  | cons id ids ih =>
    intro t ht
    obtain ⟨u, hu, hr⟩ := hcall id List.mem_cons_self t ht
    obtain ⟨v, hv, hrs⟩ := ih (fun i hi => hcall i (List.mem_cons_of_mem _ hi)) u
      (hr.shape.trans ht)
    refine ⟨v, by simp [List.foldlM_cons, hu, hv], (hr.trans hrs).congr ?_⟩
    ext x
    simp

/-- With fuel for the levels that are left, the recursion returns and rewrites the folder and all
folders below it. -/
theorem updateSyncidRec_rewritten {syncid maximum : Nat} {depth : Nat → Nat} (fuel : Nat) :
    ∀ (id : Nat) (t : Transaction),
      (∀ e ∈ skeleton t.db.localfolder, depth e.2 < depth e.1 ∧ depth e.1 ≤ maximum) →
      depth id ≤ maximum → maximum < fuel + depth id →
      ∃ t', updateSyncidRec fuel id syncid t = some t' ∧
        Rewritten {x | Below t.db.localfolder id x} syncid t t' := by
  induction fuel with
  | zero => intro id t _ hid hfuel; omega
  | succ fuel ih =>
    intro id t hdepth hid hfuel
    have hown := Rewritten.statements id syncid t
    set u := (t.updateLocalfolder id fun r => { r with syncid := syncid }).updateSyncedfolder id
      fun r => { r with syncid := syncid } with hu
    have hchildren : ∀ c ∈ u.children id, ∀ w,
        skeleton w.db.localfolder = skeleton t.db.localfolder →
        ∃ w', updateSyncidRec fuel c syncid w = some w' ∧
          Rewritten {x | Below t.db.localfolder c x} syncid w w' := by
      intro c hc w hw
      have hlevel : depth id < depth c ∧ depth c ≤ maximum :=
        hdepth _ (hown.shape ▸ mem_children.mp hc)
      obtain ⟨w', hw', hr'⟩ := ih c w (hw ▸ hdepth) hlevel.2 (by omega)
      exact ⟨w', hw', hr'.congr (by ext x; exact below_congr hw c x)⟩
    obtain ⟨v, hv, hrest⟩ := foldlM_rewritten (fun t c => updateSyncidRec fuel c syncid t)
      (fun c => {x | Below t.db.localfolder c x}) (skeleton t.db.localfolder) (u.children id)
      hchildren u hown.shape
    refine ⟨v, by simpa only [updateSyncidRec] using hv, (hown.trans hrest).congr ?_⟩
    ext x
    simp only [Set.mem_union, Set.mem_singleton_iff, Set.mem_ofPred_eq, mem_children, hown.shape]
    exact below_iff.symm

/-! ## The move -/

/-- All rows of the folder and of what is below it carry `syncid`. -/
structure CarriesSync (db : Db) (root syncid : Nat) : Prop where
  localfolder : ∀ r ∈ db.localfolder, Below db.localfolder root r.id → r.syncid = syncid
  localfile : ∀ r ∈ db.localfile, Below db.localfolder root r.localparentfolderid →
    r.syncid = syncid
  syncedfolder : ∀ r ∈ db.syncedfolder, Below db.localfolder root r.localfolderid →
    r.syncid = syncid

/-- No row of the sync refers to the folder or to what is below it. -/
structure NotReferredBy (db : Db) (root syncid : Nat) : Prop where
  localfolder : ∀ r ∈ db.localfolder, r.syncid = syncid →
    ¬ Below db.localfolder root r.id ∧ ¬ Below db.localfolder root r.localparentfolderid
  localfile : ∀ r ∈ db.localfile, r.syncid = syncid →
    ¬ Below db.localfolder root r.localparentfolderid
  syncedfolder : ∀ r ∈ db.syncedfolder, r.syncid = syncid →
    ¬ Below db.localfolder root r.localfolderid

theorem CarriesSync.notReferredBy {db : Db} {root target source : Nat}
    (h : CarriesSync db root target) (hne : source ≠ target) : NotReferredBy db root source where
  localfolder := fun r hr hsync =>
    ⟨fun hb => hne (hsync ▸ h.localfolder r hr hb),
      fun hb => hne (hsync ▸ h.localfolder r hr (.child r hr hb))⟩
  localfile := fun r hr hsync hb => hne (hsync ▸ h.localfile r hr hb)
  syncedfolder := fun r hr hsync hb => hne (hsync ▸ h.syncedfolder r hr hb)

section Reparent

variable {rows : List LocalFolder} {root parent : Nat} {set : LocalFolder → LocalFolder}

/-- What is below a folder does not depend on where the folder is. -/
theorem below_reparent (hset : ∀ r, (set r).id = r.id) (id : Nat) :
    Below (rows.map fun r => if r.id = root then set r else r) root id ↔ Below rows root id := by
  constructor
  · intro h
    induction h with
    | root => exact .root
    | child r hr _ ih =>
      obtain ⟨r₀, hr₀, rfl⟩ := List.mem_map.mp hr
      by_cases hid : r₀.id = root
      · rw [if_pos hid, hset, hid]
        exact .root
      · rw [if_neg hid] at ih ⊢
        exact .child r₀ hr₀ ih
  · intro h
    induction h with
    | root => exact .root
    | child r hr _ ih =>
      by_cases hid : r.id = root
      · rw [hid]
        exact .root
      · exact .child r (List.mem_map.mpr ⟨r, hr, if_neg hid⟩) ih

/-- A folder moved to a place that is not below it leaves a forest. -/
theorem forest_reparent (h : Forest rows)
    (hset : ∀ r, (set r).id = r.id ∧ (set r).localparentfolderid = parent)
    (hparent : ¬ Below rows root parent) :
    Forest (rows.map fun r => if r.id = root then set r else r) := by
  classical
  obtain ⟨depth, hdepth⟩ := h
  -- the moved part goes below the deepest place it can get
  refine ⟨fun x => if Below rows root x then depth x + depth parent + 1 else depth x, ?_⟩
  intro r hr
  obtain ⟨r₀, hr₀, rfl⟩ := List.mem_map.mp hr
  by_cases hid : r₀.id = root
  · rw [if_pos hid, (hset r₀).1, (hset r₀).2, hid]
    dsimp only
    rw [if_neg hparent, if_pos .root]
    omega
  · have hlevel := hdepth r₀ hr₀
    simp only [if_neg hid]
    by_cases hb : Below rows root r₀.localparentfolderid
    · simp only [if_pos hb, if_pos (Below.child r₀ hr₀ hb)]
      omega
    · rw [if_neg hb]
      split <;> omega

end Reparent

theorem updateLocalfolder_localfolder (id : Nat) (set : LocalFolder → LocalFolder)
    (t : Transaction) :
    (t.updateLocalfolder id set).db.localfolder =
        t.db.localfolder.map (fun r => if r.id = id then set r else r) ∨
      (t.updateLocalfolder id set).db.localfolder = t.db.localfolder := by
  unfold Transaction.updateLocalfolder
  dsimp only
  split
  · exact .inl rfl
  · exact .inr rfl

/-- `update_syncid_rec` returns on a forest. -/
theorem updateSyncidRec_returns {t : Transaction} (h : Forest t.db.localfolder) (id syncid : Nat) :
    ∃ enough, ∀ fuel ≥ enough, ∃ t', updateSyncidRec fuel id syncid t = some t' ∧
      Rewritten {x | Below t.db.localfolder id x} syncid t t' := by
  obtain ⟨depth, hdepth⟩ := h
  set maximum := depth id + (t.db.localfolder.map fun r => depth r.id).sum with hmaximum
  have hlevels : ∀ e ∈ skeleton t.db.localfolder, depth e.2 < depth e.1 ∧ depth e.1 ≤ maximum := by
    intro e he
    obtain ⟨r, hr, hid, hparent⟩ := mem_skeleton.mp (show (e.1, e.2) ∈ _ from he)
    have hsum := List.le_sum_of_mem (List.mem_map_of_mem (f := fun r => depth r.id) hr)
    rw [← hid, ← hparent]
    exact ⟨hdepth r hr, by omega⟩
  exact ⟨maximum + 1, fun fuel hfuel =>
    updateSyncidRec_rewritten fuel id t hlevels (by omega) (by omega)⟩

/-- The rename between two syncs returns, whether a statement failed or not; it keeps what is below
the folder and all of `localfile`, and puts the other rows below the folder into the target. -/
theorem scanRenameFolder_returns {db : Db} {rnfr rnto : Entry} (hsync : rnfr.syncid ≠ rnto.syncid)
    (hrow : ∃ r ∈ db.localfolder, r.id = rnfr.localid) (hforest : Forest db.localfolder)
    (hparent : ¬ Below db.localfolder rnfr.localid rnto.localparentfolderid) :
    ∃ enough, ∀ fuel ≥ enough, ∃ t, scanRenameFolder fuel rnfr rnto ⟨db, false⟩ = some t ∧
      t.db.localfile = db.localfile ∧
      (∀ id, Below t.db.localfolder rnfr.localid id ↔ Below db.localfolder rnfr.localid id) ∧
      (t.failed = false →
        (∀ r ∈ t.db.localfolder, Below db.localfolder rnfr.localid r.id →
          r.syncid = rnto.syncid) ∧
        ∀ r ∈ t.db.syncedfolder, Below db.localfolder rnfr.localid r.localfolderid →
          r.syncid = rnto.syncid) := by
  set u := (Transaction.updateLocalfolder rnfr.localid (LocalFolder.renamedTo rnto)
    ⟨db, false⟩).updateSyncedfolder rnfr.localid (SyncedFolder.renamedTo rnto) with hu
  have hrows := updateLocalfolder_localfolder rnfr.localid (LocalFolder.renamedTo rnto) ⟨db, false⟩
  rw [← updateSyncedfolder_localfolder (SyncedFolder.renamedTo rnto), ← hu] at hrows
  have hforest' : Forest u.db.localfolder := by
    rcases hrows with h | h <;> rw [h]
    · exact forest_reparent hforest (fun r => ⟨rfl, rfl⟩) hparent
    · exact hforest
  have hbelow : ∀ id, Below u.db.localfolder rnfr.localid id ↔
      Below db.localfolder rnfr.localid id := by
    intro id
    rcases hrows with h | h <;> rw [h]
    have hid : ∀ r, (LocalFolder.renamedTo rnto r).id = r.id := fun _ => rfl
    exact below_reparent hid id
  have hfile : u.db.localfile = db.localfile := by simp [hu]
  obtain ⟨enough, hreturns⟩ := updateSyncidRec_returns hforest' rnfr.localid rnto.syncid
  refine ⟨enough, fun fuel hfuel => ?_⟩
  obtain ⟨v, hv, hr⟩ := hreturns fuel hfuel
  refine ⟨taskRenameRemoteFolder rnfr.syncid rnto.syncid rnfr.localid rnto.localparentfolderid
      rnto.name v, ?_, ?_, ?_, ?_⟩
  · obtain ⟨r, hr', hid⟩ := hrow
    have hfound : (db.localfolder.find? (·.id = rnfr.localid)).isSome :=
      List.find?_isSome.mpr ⟨r, hr', by simpa using hid⟩
    obtain ⟨r₀, hr₀⟩ := Option.isSome_iff_exists.mp hfound
    simp only [scanRenameFolder, hr₀, if_pos hsync, ← hu, hv, Option.bind_eq_bind,
      Option.bind_some]
  · exact hr.localfile.trans hfile
  · exact fun id => (below_congr hr.shape rnfr.localid id).trans (hbelow id)
  · intro hdone
    refine ⟨fun r hr' hb => ?_, fun r hr' hb => ?_⟩
    · exact (hr.localfolder hdone r hr').resolve_right fun h => h.2 ((hbelow _).mpr hb)
    · exact (hr.syncedfolder hdone r hr').resolve_right fun h => h.2 ((hbelow _).mpr hb)

/-- A folder moved from one sync to another takes the rows below it along if there is no
`localfile` row among them, and only then. -/
theorem folder_moved_between_syncs {db : Db} {rnfr rnto : Entry} (hsync : rnfr.syncid ≠ rnto.syncid)
    (hrow : ∃ r ∈ db.localfolder, r.id = rnfr.localid) (hforest : Forest db.localfolder)
    (hparent : ¬ Below db.localfolder rnfr.localid rnto.localparentfolderid)
    (hsource : CarriesSync db rnfr.localid rnfr.syncid) :
    ∃ enough, ∀ fuel ≥ enough, ∃ t, scanRenameFolder fuel rnfr rnto ⟨db, false⟩ = some t ∧
      (t.failed = false →
        (CarriesSync (commitTransaction db t) rnfr.localid rnto.syncid ∧
            NotReferredBy (commitTransaction db t) rnfr.localid rnfr.syncid ↔
          ∀ f ∈ db.localfile, ¬ Below db.localfolder rnfr.localid f.localparentfolderid)) := by
  obtain ⟨enough, hreturns⟩ := scanRenameFolder_returns hsync hrow hforest hparent
  refine ⟨enough, fun fuel hfuel => ?_⟩
  obtain ⟨t, ht, hfile, hbelow, hmoved⟩ := hreturns fuel hfuel
  refine ⟨t, ht, fun hdone => ?_⟩
  obtain ⟨hfolder, hsynced⟩ := hmoved hdone
  have hcommit : commitTransaction db t = t.db := by simp [commitTransaction, hdone]
  rw [hcommit]
  constructor
  · rintro ⟨hcarries, -⟩ f hf hb
    have htarget := hcarries.localfile f (hfile ▸ hf) ((hbelow _).mpr hb)
    exact hsync ((hsource.localfile f hf hb).symm.trans htarget)
  · intro hnone
    have hcarries : CarriesSync t.db rnfr.localid rnto.syncid :=
      ⟨fun r hr hb => hfolder r hr ((hbelow _).mp hb),
        fun f hf hb => absurd ((hbelow _).mp hb) (hnone f (hfile ▸ hf)),
        fun r hr hb => hsynced r hr ((hbelow _).mp hb)⟩
    exact ⟨hcarries, hcarries.notReferredBy hsync⟩

/-- Two syncs; `a` with the folder `a/b` in it is in the first one. -/
def twoSyncs (localfile : List LocalFile) : Db where
  syncfolder := [1, 2]
  localfolder :=
    [{ id := 1, localparentfolderid := 0, folderid := some 10, syncid := 1, inode := 100,
       deviceid := 1, mtimenative := some 5, name := [97] },
     { id := 2, localparentfolderid := 1, folderid := some 11, syncid := 1, inode := 101,
       deviceid := 1, mtimenative := some 5, name := [98] }]
  localfile := localfile
  syncedfolder :=
    [{ syncid := 1, folderid := some 10, localfolderid := 1, synctype := 3 },
     { syncid := 1, folderid := some 11, localfolderid := 2, synctype := 3 }]
  task := []

/-- `a` as an entry of the sync, deleted from the first and new in the second. -/
def folderEntry (syncid localid : Nat) : Entry where
  localid := localid
  remoteid := 0
  localparentfolderid := 0
  parentfolderid := 0
  inode := 100
  deviceid := 1
  mtimenat := 5
  size := 0
  syncid := syncid
  synctype := 3
  isfolder := true
  name := [97]

theorem Below.eq_or_mem {rows : List LocalFolder} {root id : Nat} (h : Below rows root id) :
    id = root ∨ id ∈ rows.map (·.id) := by
  cases h with
  | root => exact .inl rfl
  | child r hr _ => exact .inr (List.mem_map_of_mem hr)

theorem forest_twoSyncs (localfile : List LocalFile) : Forest (twoSyncs localfile).localfolder :=
  ⟨id, by simp [twoSyncs]⟩

theorem carriesSync_twoSyncs {localfile : List LocalFile} (h : ∀ f ∈ localfile, f.syncid = 1) :
    CarriesSync (twoSyncs localfile) 1 1 :=
  ⟨fun r hr _ => by revert r; simp [twoSyncs], fun f hf _ => h f hf,
    fun r hr _ => by revert r; simp [twoSyncs]⟩

/-- The file `a/b/c`. -/
def fileInB : LocalFile where
  id := 7
  localparentfolderid := 2
  fileid := some 20
  syncid := 1
  size := 3
  inode := 102
  mtimenative := 5
  name := [99]

/-- The same file beside `a`. -/
def fileBesideA : LocalFile := { fileInB with localparentfolderid := 0 }

/-- With only a file beside it the folder moves as a whole. -/
theorem folder_moved_between_syncs_beside :
    ∃ enough, ∀ fuel ≥ enough, ∃ t, scanRenameFolder fuel (folderEntry 1 1) (folderEntry 2 0)
        ⟨twoSyncs [fileBesideA], false⟩ = some t ∧ t.failed = false ∧
      CarriesSync (commitTransaction (twoSyncs [fileBesideA]) t) 1 2 ∧
      NotReferredBy (commitTransaction (twoSyncs [fileBesideA]) t) 1 1 := by
  have houtside : ¬ Below (twoSyncs [fileBesideA]).localfolder 1 0 := fun h =>
    absurd h.eq_or_mem (by decide)
  have hfile : ∀ f ∈ (twoSyncs [fileBesideA]).localfile,
      ¬ Below (twoSyncs [fileBesideA]).localfolder 1 f.localparentfolderid := by
    intro f hf
    obtain rfl := List.mem_singleton.mp hf
    exact houtside
  obtain ⟨enough, hmoves⟩ := @folder_moved_between_syncs (twoSyncs [fileBesideA]) (folderEntry 1 1)
    (folderEntry 2 0) (by decide) ⟨_, List.mem_cons_self, rfl⟩ (forest_twoSyncs _) houtside
    (carriesSync_twoSyncs (by decide))
  have hdone : ∀ fuel, (scanRenameFolder (fuel + 3) (folderEntry 1 1) (folderEntry 2 0)
      ⟨twoSyncs [fileBesideA], false⟩).map Transaction.failed = some false := fun _ => rfl
  refine ⟨enough + 3, fun fuel hfuel => ?_⟩
  obtain ⟨t, ht, hmoved⟩ := hmoves fuel (by omega)
  have hfailed : t.failed = false := by
    have hmap := hdone (fuel - 3)
    rw [Nat.sub_add_cancel (by omega), ht] at hmap
    exact Option.some.inj hmap
  exact ⟨t, ht, hfailed, (hmoved hfailed).mpr hfile⟩

/-- `a/b/c` stays in the first sync, with its folder in the second. -/
theorem file_left_in_old_sync :
    ∃ t, (∀ fuel, scanRenameFolder (fuel + 3) (folderEntry 1 1) (folderEntry 2 0)
        ⟨twoSyncs [fileInB], false⟩ = some t) ∧ t.failed = false ∧
      ¬ CarriesSync (commitTransaction (twoSyncs [fileInB]) t) 1 2 ∧
      ¬ NotReferredBy (commitTransaction (twoSyncs [fileInB]) t) 1 1 := by
  have hbelow : ∀ rows, skeleton rows = [(1, 0), (2, 1)] → Below rows 1 2 := by
    intro rows hrows
    refine below_iff.mpr (.inr ⟨2, ?_, .root⟩)
    rw [hrows]
    decide
  refine ⟨(scanRenameFolder 3 (folderEntry 1 1) (folderEntry 2 0)
    ⟨twoSyncs [fileInB], false⟩).get rfl, fun fuel => rfl, rfl, fun h => ?_, fun h => ?_⟩
  · exact absurd (h.localfile fileInB (.head _) (hbelow _ rfl)) (by decide)
  · exact h.localfile fileInB (.head _) rfl (hbelow _ rfl)

end PcloudClient.Plocalscan
