/-
  Pfsfolder/Permissions.lean --- the permissions `psync_fsfolder_resolve_path` returns.

  In a folder with pending tasks the permissions of the next folder narrow those collected so
  far; in a folder without any they replace them, and those of a pending mkdir are not looked
  at.  So some folders of a path are lost: they can deny what the result grants.
-/
import Mathlib.Data.List.Nodup
import Mathlib.Data.Nat.Bitwise
import PcloudClient.Foundation.Outcome
import PcloudClient.Pfsfolder.Resolve

set_option autoImplicit false

namespace PcloudClient.Pfsfolder

open Pfstasks

/-! ## The folders of a path -/

/-- A folder below the one a component is looked up in. -/
structure Step where
  parent : FolderId
  folderid : FolderId
  /-- It is a pending mkdir, not a row of `folder`. -/
  pending : Bool
  deriving DecidableEq, Repr

variable (env : Env) (st : State)

/-- What a name stands for in a folder: a pending mkdir that is not invisible, or else a row
that is not removed. -/
inductive Holds (c : FolderId × UInt32) (name : Name) : Step → FolderId × UInt32 → Prop
  | mkdir {ename : Name} {folder : FolderTasks} {mk : Mkdir} :
      nameInFolder env c.1 c.2 name = .ok ename →
      st.getFolderTasksRdlocked c.1 = some folder → folder.findMkdir ename 0 = some mk →
      isInvisible mk.flags = false → Holds c name ⟨c.1, mk.folderid, true⟩ (mk.folderid, mk.flags)
  | row {ename : Name} {row : FolderRow} :
      nameInFolder env c.1 c.2 name = .ok ename → st.db.findFolder c.1 ename = some row →
      (∀ folder, st.getFolderTasksRdlocked c.1 = some folder →
        folder.findMkdir ename 0 = none ∧ folder.findRmdir ename 0 = none) →
      Holds c name ⟨c.1, row.id, false⟩ (row.id, row.flags)

/-- The folders that some names lead through. -/
inductive Leads : FolderId × UInt32 → List Name → List Step → Prop
  | here (c : FolderId × UInt32) : Leads c [] []
  | down {c c' : FolderId × UInt32} {name : Name} {names : List Name} {s : Step}
      {steps : List Step} :
      Holds env st c name s c' → Leads c' names steps → Leads c (name :: names) (s :: steps)

/-- The folders below the root that the path of an entry leads through, up to the one that
the entry is in. -/
def Through (path : Bytes) (steps : List Step) : Prop :=
  Leads env st (0, 0) (components path).dropLast steps

/-- All folders of a path, from the root on. -/
def pathFolders (steps : List Step) : List FolderId := 0 :: steps.map Step.folderid

/-! ## Permissions -/

/-- The permissions of a folder by itself.  The root and a folder that is not in the table
yet restrict nothing. -/
def ownPermissions (db : Db) (folderid : FolderId) : UInt32 :=
  if folderid = 0 then PERM_ALL
  else ((db.folder.find? fun row => row.id = folderid).map FolderRow.permissions).getD PERM_ALL

/-- The permissions that all of some folders give. -/
def meet (db : Db) (ids : List FolderId) : UInt32 :=
  ids.foldr (fun id acc => ownPermissions db id &&& acc) (-1)

/-- A folder gives a permission. -/
def Grants (db : Db) (bit : Nat) (id : FolderId) : Prop :=
  (ownPermissions db id).toNat.testBit bit = true

instance (db : Db) (bit : Nat) (id : FolderId) : Decidable (Grants db bit id) :=
  inferInstanceAs (Decidable (_ = true))

/-- One of the folders was looked up in a folder without pending tasks. -/
def cut (steps : List Step) : Bool := steps.any fun s => (st.getFolderTasksRdlocked s.parent).isNone

/-- The folders below the root in two parts: a pending mkdir is lost, and so is a folder with
a cut below it. -/
def split : List Step → List FolderId × List FolderId
  | [] => ([], [])
  | s :: below =>
    let (counted, lost) := split below
    if s.pending || cut st
      below then (counted, s.folderid :: lost) else (s.folderid :: counted, lost)

/-- The folders of a path whose permissions count, and those whose permissions do not. -/
def counted (steps : List Step) : List FolderId :=
  if cut st steps then (split st steps).1 else 0 :: (split st steps).1

def lost (steps : List Step) : List FolderId :=
  if cut st steps then 0 :: (split st steps).2 else (split st steps).2

/-- A folder that is lost denies no permission that all folders that count give. -/
def Covered (steps : List Step) : Prop :=
  ∀ bit < 16, (∀ id ∈ counted st steps, Grants st.db bit id) →
    ∀ id ∈ lost st steps, Grants st.db bit id

instance (steps : List Step) : Decidable (Covered st steps) :=
  inferInstanceAs (Decidable (∀ bit < 16, _ → _))

/-- `id` is the primary key of `folder`, and 0 is the root, which is in no folder. -/
structure Keyed (db : Db) : Prop where
  nodup : (db.folder.map FolderRow.id).Nodup
  root : ∀ row ∈ db.folder, row.id ≠ 0

@[simp] theorem meet_cons (db : Db) (id : FolderId) (ids : List FolderId) :
    meet db (id :: ids) = ownPermissions db id &&& meet db ids := rfl

@[simp] theorem meet_nil (db : Db) : meet db [] = -1 := rfl

/-- A permission is in the meet if all folders give it. -/
theorem testBit_meet {db : Db} {ids : List FolderId} {bit : Nat} (hbit : bit < 32) :
    (meet db ids).toNat.testBit bit = true ↔ ∀ id ∈ ids, Grants db bit id := by
  induction ids with
  | nil =>
    have hall : (-1 : UInt32).toNat = 2 ^ 32 - 1 := by decide
    rw [meet_nil, hall, Nat.testBit_two_pow_sub_one]
    simp [hbit]
  | cons id ids ih =>
    rw [meet_cons, UInt32.toNat_and, Nat.testBit_and, Bool.and_eq_true, ih, List.forall_mem_cons]
    rfl

/-- The sixteen bits that are returned. -/
theorem toUInt16_inj_iff (x y : UInt32) :
    x.toUInt16 = y.toUInt16 ↔ ∀ bit < 16, x.toNat.testBit bit = y.toNat.testBit bit := by
  rw [← UInt16.toNat_inj, UInt32.toNat_toUInt16, UInt32.toNat_toUInt16]
  constructor
  · intro h bit hbit
    have htest : (x.toNat % 2 ^ 16).testBit bit = (y.toNat % 2 ^ 16).testBit bit := by rw [h]
    rw [Nat.testBit_mod_two_pow, Nat.testBit_mod_two_pow, decide_eq_true hbit] at htest
    exact htest
  · intro h
    refine Nat.eq_of_testBit_eq fun bit => ?_
    rw [Nat.testBit_mod_two_pow, Nat.testBit_mod_two_pow]
    by_cases hbit : bit < 16
    · rw [h bit hbit]
    · rw [decide_eq_false hbit, Bool.false_and, Bool.false_and]

theorem ownPermissions_of_mem {db : Db} (hkey : Keyed db) {row : FolderRow}
    (hrow : row ∈ db.folder) :
    ownPermissions db row.id = row.permissions := by
  have hfind : db.folder.find? (fun r => r.id = row.id) = some row := by
    obtain ⟨r, hr⟩ : ∃ r, db.folder.find? (fun r => r.id = row.id) = some r := by
      rw [← Option.isSome_iff_exists, List.find?_isSome]
      exact ⟨row, hrow, by simp⟩
    have hid : r.id = row.id := by simpa using List.find?_some hr
    rw [hr, List.inj_on_of_nodup_map hkey.nodup (List.mem_of_find?_eq_some hr) hrow hid]
  rw [ownPermissions, if_neg (hkey.root row hrow), hfind]
  rfl

variable {env st}

/-! ## The walk -/

/-- A component that the walk goes into is one that the drive has. -/
theorem holds_of_resolveComponent {w w' : Walk} {name : Name}
    (hok : resolveComponent env st w name = .ok w') :
    ∃ s, Holds env st w.place name s w'.place := by
  unfold resolveComponent at hok
  cases hname : nameInFolder env w.cfolderid w.flags name with
  | error e => rw [hname] at hok; exact nomatch hok
  | ok ename =>
    rw [hname] at hok
    dsimp only at hok
    cases hrow : st.db.findFolder w.cfolderid ename with
    | none =>
      rw [hrow] at hok
      split at hok
      · next folder hfolder =>
        split at hok
        · next mk hmk =>
          split at hok
          · exact nomatch hok
          · next hshown =>
            obtain rfl := Except.ok.inj hok
            exact ⟨_, .mkdir hname hfolder hmk (Bool.eq_false_iff.mpr hshown)⟩
        · exact nomatch hok
      · exact nomatch hok
    | some row =>
      rw [hrow] at hok
      split at hok
      · next folder hfolder =>
        split at hok
        · next mk hmk =>
          split at hok
          · exact nomatch hok
          · next hshown =>
            obtain rfl := Except.ok.inj hok
            exact ⟨_, .mkdir hname hfolder hmk (Bool.eq_false_iff.mpr hshown)⟩
        · next hmk =>
          dsimp only at hok
          split at hok
          · exact nomatch hok
          · next hrm =>
            obtain rfl := Except.ok.inj hok
            refine ⟨_, .row hname hrow fun f hf => ?_⟩
            obtain rfl := Option.some.inj (hfolder.symm.trans hf)
            exact ⟨hmk, Option.not_isSome_iff_eq_none.mp hrm⟩
      · next hfolder =>
        obtain rfl := Except.ok.inj hok
        refine ⟨_, .row hname hrow fun f hf => ?_⟩
        exact nomatch hfolder.symm.trans hf

/-- What the walk collects in a component that the drive has. -/
theorem resolveComponent_of_holds (hkey : Keyed st.db) {w : Walk} {name : Name} {s : Step}
    {c : FolderId × UInt32} (h : Holds env st w.place name s c) :
    ∃ w', resolveComponent env st w name = .ok w' ∧ w'.place = c ∧
      w'.permissions =
        if s.pending then w.permissions
        else if (st.getFolderTasksRdlocked s.parent).isNone then ownPermissions st.db s.folderid
        else w.permissions &&& ownPermissions st.db s.folderid := by
  unfold resolveComponent
  cases h with
  | mkdir hname hfolder hmk hshown =>
    have hname : nameInFolder env w.cfolderid w.flags name = _ := hname
    have hfolder : st.getFolderTasksRdlocked w.cfolderid = _ := hfolder
    simp only [hname, hfolder, hmk, hshown, Bool.false_eq_true, if_false]
    exact ⟨_, rfl, rfl, rfl⟩
  | @row ename row hname hrow hfree =>
    have hname : nameInFolder env w.cfolderid w.flags name = _ := hname
    have hrow : st.db.findFolder w.cfolderid _ = _ := hrow
    have hown := ownPermissions_of_mem hkey (List.mem_of_find?_eq_some hrow)
    cases hfolder : st.getFolderTasksRdlocked w.cfolderid with
    | none =>
      simp only [hname, hrow]
      refine ⟨_, rfl, rfl, ?_⟩
      simp only [Bool.false_eq_true, if_false, Walk.place, hfolder, Option.isNone_none,
        if_true, hown]
    | some folder =>
      obtain ⟨hmk, hrm⟩ := hfree folder hfolder
      simp only [hname, hrow, hmk, hrm, Option.isSome_none, Bool.false_eq_true, if_false]
      refine ⟨_, rfl, rfl, ?_⟩
      simp only [Walk.place, hfolder, Option.isNone_some, Bool.false_eq_true, if_false, hown]

/-- The walk of some names goes through folders that the drive has. -/
theorem leads_of_walk {names : List Name} {w w' : Walk}
    (hok : names.foldlM (resolveComponent env st) w = .ok w') :
    ∃ steps, Leads env st w.place names steps := by
  induction names generalizing w with
  | nil => exact ⟨[], .here _⟩
  | cons name names ih =>
    rw [List.foldlM_cons] at hok
    obtain ⟨v, hv, hok⟩ := bind_eq_ok hok
    obtain ⟨s, hs⟩ := holds_of_resolveComponent hv
    obtain ⟨steps, hsteps⟩ := ih hok
    exact ⟨s :: steps, .down hs hsteps⟩

/-- What the walk collects on a way: the folders that count, and what it came with where
nothing cuts it off. -/
theorem permissions_of_leads (hkey : Keyed st.db) {names : List Name} {steps : List Step}
    {c : FolderId × UInt32} (h : Leads env st c names steps) {w : Walk} (hw : w.place = c) :
    ∃ w', names.foldlM (resolveComponent env st) w = .ok w' ∧
      w'.permissions =
        if cut st steps then meet st.db (split st steps).1
        else w.permissions &&& meet st.db (split st steps).1 := by
  induction h generalizing w with
  | here c => exact ⟨w, rfl, UInt32.and_neg_one.symm⟩
  | @down c c' name names s steps hs hrest ih =>
    subst hw
    obtain ⟨v, hv, hplace, hperm⟩ := resolveComponent_of_holds hkey hs
    obtain ⟨w', hw', hperm'⟩ := ih hplace
    refine ⟨w', by rw [List.foldlM_cons, hv]; exact hw', ?_⟩
    have hcut : cut st (s :: steps) =
        ((st.getFolderTasksRdlocked s.parent).isNone || cut st steps) := rfl
    have hbusy : s.pending = true → (st.getFolderTasksRdlocked s.parent).isNone = false := by
      intro hpending
      cases hs with
      | mkdir hname hfolder hmk hshown => rw [hfolder]; rfl
      | row hname hrow hfree => exact nomatch hpending
    rw [hperm', hperm, hcut, split]
    cases hbelow : cut st steps with
    | true => simp only [Bool.or_true, if_true]
    | false =>
      cases hpending : s.pending with
      | true => simp only [hbusy hpending, Bool.or_false, Bool.false_eq_true, if_false, if_true]
      | false =>
        cases (st.getFolderTasksRdlocked s.parent).isNone with
        | true =>
          simp only [Bool.or_self, Bool.or_false, Bool.false_eq_true, if_false, if_true, meet_cons]
        | false =>
          simp only [Bool.or_self, Bool.false_eq_true, if_false, meet_cons]
          exact UInt32.and_assoc _ _ _

theorem meet_split (db : Db) (steps : List Step) :
    meet db (steps.map Step.folderid) =
      meet db (split st steps).1 &&& meet db (split st steps).2 := by
  induction steps with
  | nil => exact UInt32.and_neg_one.symm
  | cons s below ih =>
    rw [List.map_cons, meet_cons, ih, split]
    dsimp only
    split <;> (rw [meet_cons]; ac_rfl)

/-- No folder of a path is left out of the two parts. -/
theorem meet_pathFolders (db : Db) (steps : List Step) :
    meet db (pathFolders steps) = meet db (counted st steps) &&& meet db (lost st steps) := by
  rw [pathFolders, meet_cons, @meet_split st, counted, lost]
  split <;> (rw [meet_cons]; ac_rfl)

/-- The result of a path is the meet of the folders that count. -/
theorem resolvePath_counted (hkey : Keyed st.db) {path : Bytes} {r : FsPath}
    (hres : resolvePath env st path = .ok r) :
    (∃ steps, Through env st path steps) ∧
      ∀ steps, Through env st path steps →
        r.permissions = (meet st.db (counted st steps)).toUInt16 := by
  unfold resolvePath at hres
  split at hres
  · next habs =>
    have hend : EndsInName path := by
      intro hslash
      obtain ⟨e, he⟩ := resolveLoop_slash env st ⟨0, PERM_ALL, 0, 0⟩ hslash
      rw [he] at hres
      exact nomatch hres
    have hne : components path ≠ [] :=
      components_ne_nil (fun hnil => by rw [hnil] at habs; exact nomatch habs) hend
    rw [resolveLoop_eq env st _ (List.dropLast_concat_getLast hne).symm hend] at hres
    obtain ⟨w, hw, hret⟩ := bind_eq_ok hres
    have hr : r.permissions = w.permissions.toUInt16 := by
      unfold retFolderData at hret
      split at hret
      · cases henc : env.encoder w.cfolderid with
        | error e => rw [henc] at hret; exact nomatch hret
        | ok enc =>
          rw [henc] at hret
          obtain rfl := Except.ok.inj hret
          rfl
      · obtain rfl := Except.ok.inj hret
        rfl
    refine ⟨leads_of_walk hw, fun steps hthrough => ?_⟩
    obtain ⟨w', hw', hperm⟩ := permissions_of_leads hkey hthrough (w := ⟨0, PERM_ALL, 0, 0⟩) rfl
    obtain rfl := Except.ok.inj (hw.symm.trans hw')
    rw [hr, hperm, counted]
    split <;> rfl
  · exact nomatch hres

/-- The permissions of a resolved path are those that all its folders give exactly when no lost
folder denies what the others give; and two sets of pending tasks that lead through the same
folders then give the same permissions. -/
theorem resolvePath_permissions (env : Env) (st : State) (path : Bytes) (r : FsPath)
    (hkey : Keyed st.db) (hres : resolvePath env st path = .ok r) :
    (∃ steps, Through env st path steps) ∧
    ∀ steps, Through env st path steps →
      (r.permissions = (meet st.db (pathFolders steps)).toUInt16 ↔ Covered st steps) ∧
      ∀ (st' : State) (r' : FsPath) (steps' : List Step), st'.db = st.db →
        resolvePath env st' path = .ok r' → Through env st' path steps' →
        pathFolders steps' = pathFolders steps → Covered st steps → Covered st' steps' →
        r'.permissions = r.permissions := by
  have hiff : ∀ {st : State} {r : FsPath} {steps : List Step}, Keyed st.db →
      resolvePath env st path = .ok r → Through env st path steps →
      (r.permissions = (meet st.db (pathFolders steps)).toUInt16 ↔ Covered st steps) := by
    intro st r steps hkey hres hthrough
    rw [(resolvePath_counted hkey hres).2 steps hthrough, toUInt16_inj_iff]
    refine forall₂_congr fun bit hbit => ?_
    have hbit' : bit < 32 := by omega
    rw [@meet_pathFolders st, UInt32.toNat_and, Nat.testBit_and, ← testBit_meet hbit',
      ← testBit_meet hbit']
    generalize (meet st.db (counted st steps)).toNat.testBit bit = a
    generalize (meet st.db (lost st steps)).toNat.testBit bit = b
    cases a <;> cases b <;> decide
  refine ⟨(resolvePath_counted hkey hres).1, fun steps hthrough => ⟨hiff hkey hres hthrough, ?_⟩⟩
  intro st' r' steps' hdb hres' hthrough' hsame hcov hcov'
  rw [(hiff (hdb ▸ hkey) hres' hthrough').mpr hcov', (hiff hkey hres hthrough).mpr hcov, hsame, hdb]

/-- A folder `a` that may only be read, in it a folder `b`, and a pending creat of some file
`z` in the folders `busy`. -/
def sharedDrive (busy : List FolderId) : State where
  folders := busy.foldr (fun id t => t.insert (folderCmp id) (fun f => f)
    (FolderTasks.addCreat { addr := id.toNat, folderid := id } ⟨-9, 0, 9, [122]⟩)) .nil
  nextAddr := 2
  db := ⟨[⟨1, 0, [97], 1, 0, 1, 0, 0, 0⟩, ⟨2, 1, [98], 15, 0, 1, 0, 0, 0⟩], [], [], []⟩

def sharedEnv : Env := ⟨fun _ => .error 3, [46], 1, fun _ _ => none⟩

/-- `/a/b/x` -/
def pathABX : Bytes := [47, 97, 47, 98, 47, 120]

/-- `/a/b/x` goes through `a` and `b`, where no folder is pending or removed in their parents. -/
theorem through_pathABX {busy : List FolderId}
    (hfree : ∀ c ∈ [((0 : FolderId), [97]), (1, [98])],
      ((sharedDrive busy).getFolderTasksRdlocked c.1).all fun f =>
        (f.findMkdir c.2 0).isNone && (f.findRmdir c.2 0).isNone) :
    Through sharedEnv (sharedDrive busy) pathABX [⟨0, 1, false⟩, ⟨1, 2, false⟩] := by
  have hnames : (components pathABX).dropLast = [[97], [98]] := by decide +kernel
  rw [Through, hnames]
  have ha : (sharedDrive busy).db.findFolder 0 [97] = some ⟨1, 0, [97], 1, 0, 1, 0, 0, 0⟩ := rfl
  have hb : (sharedDrive busy).db.findFolder 1 [98] = some ⟨2, 1, [98], 15, 0, 1, 0, 0, 0⟩ := rfl
  refine .down (.row (c := (0, 0)) rfl ha fun f hf => ?_)
    (.down (.row (c := (1, 0)) rfl hb fun f hf => ?_) (.here _))
  · have hall := hfree _ (List.mem_cons_self ..)
    rw [hf] at hall
    simpa using hall
  · have hall := hfree _ (List.mem_cons_of_mem _ (List.mem_cons_self ..))
    rw [hf] at hall
    simpa using hall

/-- With tasks in both folders nothing is lost, with tasks in `a` alone the root is, and either
way `/a/b/x` may only be read. -/
theorem resolvePath_permissions_busy :
    Keyed (sharedDrive [0, 1]).db ∧
    lost (sharedDrive [1]) [⟨0, 1, false⟩, ⟨1, 2, false⟩] = [0] ∧
    ∃ r r', resolvePath sharedEnv (sharedDrive [0, 1]) pathABX = .ok r ∧ r.permissions = 1 ∧
      resolvePath sharedEnv (sharedDrive [1]) pathABX = .ok r' ∧
        r'.permissions = r.permissions := by
  have hkey : Keyed (sharedDrive [0, 1]).db := ⟨by decide, by decide⟩
  have hres : resolvePath sharedEnv (sharedDrive [0, 1]) pathABX =
      .ok ⟨2, [120], 0, 1, 0⟩ := by decide +kernel
  have hres' :
      resolvePath sharedEnv (sharedDrive [1]) pathABX = .ok ⟨2, [120], 0, 1, 0⟩ := by decide +kernel
  have hthrough := @through_pathABX [0, 1] (by decide)
  have hthrough' := @through_pathABX [1] (by decide)
  have hcov : Covered (sharedDrive [0, 1]) [⟨0, 1, false⟩, ⟨1, 2, false⟩] := by decide
  have hcov' : Covered (sharedDrive [1]) [⟨0, 1, false⟩, ⟨1, 2, false⟩] := by decide
  obtain ⟨hmeet, hsame⟩ := (resolvePath_permissions _ _ _ _ hkey hres).2 _ hthrough
  exact ⟨hkey, by decide, _, _, hres, (hmeet.mpr hcov).trans (by decide), hres',
    hsame (sharedDrive [1]) _ _ rfl hres' hthrough' rfl hcov hcov'⟩

/-- Without pending tasks the same path may be written, through the same folders. -/
theorem resolvePath_widened :
    resolvePath sharedEnv (sharedDrive []) pathABX = .ok ⟨2, [120], 0, 15, 0⟩ ∧
    resolvePath sharedEnv (sharedDrive [1]) pathABX = .ok ⟨2, [120], 0, 1, 0⟩ ∧
    Through sharedEnv (sharedDrive []) pathABX [⟨0, 1, false⟩, ⟨1, 2, false⟩] ∧
    Through sharedEnv (sharedDrive [1]) pathABX [⟨0, 1, false⟩, ⟨1, 2, false⟩] ∧
    (meet (sharedDrive []).db (pathFolders [⟨0, 1, false⟩, ⟨1, 2, false⟩])).toUInt16 = 1 :=
  ⟨by decide +kernel, by decide +kernel, through_pathABX (by decide), through_pathABX (by decide),
    by decide⟩

end PcloudClient.Pfsfolder
