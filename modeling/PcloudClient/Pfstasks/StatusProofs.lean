/-
  Pfstasks/StatusProofs.lean --- the path status of the drive against the pending tasks.

  A call gives the folder the mark that its creats and mkdirs call for.  So the marks follow the
  tasks over a step if the calls of the step are about all folders that it fills or empties.
-/
import PcloudClient.Pfstasks.Status
import PcloudClient.Ppathstatus.Marks

set_option autoImplicit false

namespace PcloudClient.Pfstasks

open State (Inv Keyed Held)
open Ppathstatus (Drive Parents parentOf)
open Counted (Balanced.Busy)

/-! ## Calls and marks -/

section Marks

variable {st st' : State} {own : Nat → Bool} {ns : List (Nat × Bool)} {folderid : FolderId}

theorem State.changed_iff {c : FolderId} : st.changed c = true ↔ 0 < st.load c := by
  unfold State.changed State.load
  cases st.getFolderTasksRdlocked c with
  | none => simp
  | some f =>
    simp only [Option.any_some, Option.elim_some, FolderTasks.load, Bool.or_eq_true,
      Bool.not_eq_true', List.isEmpty_eq_false_iff, ← List.length_pos_iff, Ptree.Tree.length_toList]
    omega

theorem pos_of_eq {n n' : Nat} (h : n = n') : 0 < n ↔ 0 < n' := by rw [h]

theorem isNone_of_not {α : Type} {o : Option α} (h : ¬ o.isSome) : o.isNone :=
  Option.isNone_iff_eq_none.mpr (Option.not_isSome_iff_eq_none.mp h)

theorem isSome_of_not {α : Type} {o : Option α} (h : ¬ o.isNone) : o.isSome :=
  Option.isNone_eq_false_iff.mp (Bool.eq_false_of_not_eq_true h)

theorem changed_congr {c : FolderId} (h : 0 < st'.load c ↔ 0 < st.load c) :
    st'.changed c = st.changed c := by
  rw [Bool.eq_iff_iff, State.changed_iff, State.changed_iff, h]

/-- The marks after the calls. -/
def marks (ns : List (Nat × Bool)) (own : Nat → Bool) : Nat → Bool :=
  ns.foldl (fun own n => Function.update own n.1 n.2) own

theorem marks_eq {v : Nat → Bool} (hv : ∀ n ∈ ns, n.2 = v n.1)
    (hown : ∀ c, (∀ n ∈ ns, n.1 ≠ c) → own c = v c) (c : Nat) : marks ns own c = v c := by
  induction ns generalizing own with
  | nil => exact hown c nofun
  | cons n rest ih =>
    refine ih (fun m hm => hv m (List.mem_cons_of_mem n hm)) fun c hc => ?_
    change Function.update own n.1 n.2 c = v c
    rw [Function.update_apply]
    split
    · next heq => rw [heq, hv n List.mem_cons_self]
    · next hne =>
      refine hown c fun m hm => ?_
      rcases List.mem_cons.mp hm with rfl | hm
      · exact fun heq => hne heq.symm
      · exact hc m hm

/-- The calls take the marks of one state to those of the other. -/
def Follows (st : State) (ns : List (Nat × Bool)) (st' : State) : Prop :=
  ∀ own : Nat → Bool, (∀ c : Nat, own c = st.changed c) → ∀ c : Nat, marks ns own c = st'.changed c

theorem Follows.append {st'' : State} {ns' : List (Nat × Bool)} (h : Follows st ns st')
    (h' : Follows st' ns' st'') : Follows st (ns ++ ns') st'' := by
  intro own hown
  have hfold : marks (ns ++ ns') own = marks ns' (marks ns own) := List.foldl_append
  rw [hfold]
  exact h' _ (h own hown)

theorem follows_of (hv : ∀ n ∈ ns, n.2 = st'.changed n.1)
    (hload : ∀ c : Nat, (∀ n ∈ ns, n.1 ≠ c) → (0 < st'.load c ↔ 0 < st.load c)) :
    Follows st ns st' := fun _ hown =>
  marks_eq hv fun c hc => (hown c).trans (changed_congr (hload c hc)).symm

theorem follows_nil (hload : ∀ c : Nat, 0 < st'.load c ↔ 0 < st.load c) : Follows st [] st' :=
  follows_of nofun fun c _ => hload c

theorem mem_notice {n : Nat × Bool} :
    n ∈ notice st folderid ↔ (n.1 : FolderId) = folderid ∧ n.2 = st.changed folderid := by
  unfold notice
  split
  · next hpos =>
    rw [List.mem_singleton, Prod.ext_iff]
    refine and_congr ⟨fun h => by rw [h, Int.toNat_of_nonneg hpos], fun h => ?_⟩ Iff.rfl
    rw [← h, Int.toNat_natCast]
  · next hneg =>
    refine ⟨nofun, fun h => absurd ?_ hneg⟩
    rw [← h.1]
    exact Int.natCast_nonneg n.1

/-- One call, about a folder that has then what it has in the end. -/
theorem follows_notice {st'' : State}
    (hv : 0 ≤ folderid → (0 < st''.load folderid ↔ 0 < st'.load folderid))
    (hload : ∀ c : Nat, (c : FolderId) ≠ folderid → (0 < st'.load c ↔ 0 < st.load c)) :
    Follows st (notice st'' folderid) st' := by
  refine follows_of (fun n hn => ?_) fun c hc => ?_
  · obtain ⟨hid, hval⟩ := mem_notice.mp hn
    have hpos : 0 ≤ folderid := hid ▸ Int.natCast_nonneg n.1
    rw [hval, hid]
    exact changed_congr (hv hpos)
  · exact hload c fun heq => hc (c, st''.changed folderid) (mem_notice.mpr ⟨heq, rfl⟩) rfl

/-- A call that is made only if the step has found something. -/
theorem follows_if {b : Prop} [Decidable b] {st'' : State}
    (hv : b → 0 ≤ folderid → (0 < st''.load folderid ↔ 0 < st'.load folderid))
    (hload : ∀ c : Nat, (c : FolderId) ≠ folderid ∨ ¬ b → (0 < st'.load c ↔ 0 < st.load c)) :
    Follows st (if b then notice st'' folderid else []) st' := by
  split
  · next hb => exact follows_notice (hv hb) fun c hc => hload c (.inl hc)
  · next hb => exact follows_nil fun c => hload c (.inr hb)

/-- A folder that has another entry has one after one is taken out. -/
theorem spare_pos {c : Nat} {n : Nat} (h : Spare st c n) : n < st.load c :=
  h.resolve_left (Int.not_lt.mpr (Int.natCast_nonneg c))

end Marks

/-! ## The steps -/

section Steps

variable {st : State}

theorem follows_rmdir (h : Sane st) {env : Env} {folderid : FolderId} {flags : UInt32} {name : Name}
    (htold : Told st (.rmdir env folderid flags name)) :
    Sane (rmdir env st folderid flags name).2 ∧
      Follows st [] (rmdir env st folderid flags name).2 := by
  obtain ⟨hsane, hload⟩ := load_rmdir h env folderid flags name
    fun f mk hf hmk => (htold f mk hf hmk).1
  refine ⟨hsane, follows_nil fun c => ?_⟩
  by_cases hc : (c : FolderId) ≠ folderid ∨ (st.lookup folderid fun f => f.findMkdir name 0).isNone
  · rw [(hload c).1 hc]
  · push Not at hc
    obtain ⟨rfl, hfound⟩ := hc
    obtain ⟨mk, hmk⟩ := Option.ne_none_iff_exists'.mp (mt Option.isNone_iff_eq_none.mpr hfound)
    obtain ⟨f, hf, hfmk⟩ := Option.bind_eq_some_iff.mp hmk
    have hspare := spare_pos (htold f mk hf hfmk).2
    have hle := (hload c).2
    omega

theorem follows_addModifiedFile (h : Sane st) {env : Env} {p : Nat} {name : Name} {fileid : FileId}
    {hash : Int} {key : Option Bytes} (hp : Held st p 1)
    (htold : Told st (.addModifiedFile env p name fileid hash key)) :
    Sane (addModifiedFile env st p name fileid hash key).2 ∧
      Follows st (notices st (.addModifiedFile env p name fileid hash key))
        (addModifiedFile env st p name fileid hash key).2 := by
  obtain ⟨hsane, hload⟩ := load_addModifiedFile h hp env name fileid hash key
  refine ⟨hsane, follows_if (fun _ _ => Iff.rfl) fun c hc => ?_⟩
  by_cases hne : (c : FolderId) ≠ (st.folder p).folderid
  · rw [(hload c).1 hne]
  · have hnone := Option.not_isSome_iff_eq_none.mp (hc.resolve_left hne)
    push Not at hne
    have hfail := (hload c).2 (Option.isNone_iff_eq_none.mpr hnone)
    rw [if_pos hne] at hfail
    have hdel := (st.folder p).load_delCreat name 0
    have hfolder := load_folder h hp
    rw [← hne] at hfolder
    rcases htold with habsent | hcommits | hspare
    · rw [hfail, hdel.2 habsent, hfolder]
    · have hsome := hcommits.isSome fileid hash key
      rw [hnone] at hsome
      exact nomatch hsome
    · have hspare := spare_pos (hne ▸ hspare : Spare st c 1)
      omega

theorem follows_addLocalCreatStatic (h : Sane st) {folderid : FolderId} {name : Name} {taskid : Nat}
    (htold : Told st (.addLocalCreatStatic folderid name taskid)) :
    Sane (addLocalCreatStatic st folderid name taskid) ∧
      Follows st [] (addLocalCreatStatic st folderid name taskid) := by
  obtain ⟨hsane, hload⟩ := load_addLocalCreatStatic h folderid name taskid
  refine ⟨hsane, follows_nil fun c => ?_⟩
  obtain ⟨hother, hle, htaken⟩ := hload c
  by_cases hc : (c : FolderId) = folderid
  · rcases htold with hspare | ⟨hnone, hrow⟩
    · have hspare := spare_pos (hc ▸ hspare : Spare st c 0)
      omega
    · rw [htaken (hc ▸ Int.natCast_nonneg c) hnone hrow]
  · rw [hother hc]

theorem load_afterDelCreat (h : Sane st) (folderid : FolderId) (name : Name) :
    (afterDelCreat st folderid name).load folderid =
      ((st.taken folderid).delCreat name 0).load :=
  ((h.delCreat folderid name).2.2 folderid).trans (if_pos rfl)

theorem follows_unlink (h : Sane st) {env : Env} {folderid : FolderId} {name : Name}
    (htold : Told st (.unlink env folderid name)) :
    Sane (unlink env st folderid name).2 ∧
      Follows st (notices st (.unlink env folderid name)) (unlink env st folderid name).2 := by
  obtain ⟨hsane, hload⟩ := load_unlink h env folderid name
  refine ⟨hsane, ?_⟩
  simp only [notices]
  split
  · next hnone =>
    exact follows_nil fun c => by rw [(hload c).1 (.inr (Option.isNone_iff_eq_none.mpr hnone))]
  · next cr hcr =>
    split
    · next hzero =>
      refine follows_nil fun c => ?_
      by_cases hc : (c : FolderId) = folderid
      · subst hc
        obtain ⟨f, hf, hfcr⟩ := Option.bind_eq_some_iff.mp hcr
        have hspare := spare_pos (htold f cr hf hfcr hzero)
        have hdel := ((st.taken c).load_delCreat name 0).1
        have hc' := (hload c).2 rfl
        rw [load_taken h.counted] at hdel
        omega
      · rw [(hload c).1 (.inl hc)]
    · refine follows_notice (fun _ => ?_) fun c hc => by rw [(hload c).1 (.inl hc)]
      rw [load_afterDelCreat h, (hload folderid).2 rfl]

theorem follows_renameFile (h : Sane st) (env : Env) (fileid : FileId) (parentfolderid : FolderId)
    (name : Name) (to_folderid : FolderId) (new_name : Option Name) :
    Sane (renameFile env st fileid parentfolderid name to_folderid new_name).2 ∧
      Follows st (notices st (.renameFile env fileid parentfolderid name to_folderid new_name))
        (renameFile env st fileid parentfolderid name to_folderid new_name).2 := by
  obtain ⟨hsane, herror, hdone⟩ :=
    load_renameFile h env fileid parentfolderid name to_folderid new_name
  refine ⟨hsane, ?_⟩
  simp only [notices]
  split
  · next hnone =>
    obtain ⟨ftaskid, db, hload⟩ := hdone hnone
    obtain ⟨-, hfrom⟩ := load_renameFileFrom h fileid parentfolderid name ftaskid db
    -- the first call leaves the marks of the state between the halves
    have hfirst : Follows st
        (if (st.lookup parentfolderid fun f => f.findCreat name 0).isSome then
          notice (afterDelCreat st parentfolderid name) parentfolderid else [])
        (renameFileFrom st fileid parentfolderid name ftaskid db) := by
      refine follows_if (fun _ _ => ?_) fun c hc => ?_
      · rw [load_afterDelCreat h, hfrom parentfolderid, if_pos rfl]
      · by_cases heq : (c : FolderId) = parentfolderid
        · have habsent := hc.resolve_left (fun hne => hne heq)
          have hcr := find_getOrCreate (Inv.forget h.counted) parentfolderid
            (fun f => f.findCreat name 0) (fun _ _ => rfl) fun _ _ => rfl
          have hnone' : ((st.taken parentfolderid).findCreat name 0).isNone := by
            rw [State.taken, hcr]
            exact isNone_of_not habsent
          rw [hfrom c, if_pos heq, ((st.taken parentfolderid).load_delCreat name 0).2 hnone',
            load_taken h.counted, heq]
        · rw [hfrom c, if_neg heq]
    exact hfirst.append (follows_notice (fun _ => Iff.rfl) fun c hc => by rw [hload c hc])
  · next hsome =>
    exact follows_nil fun c => by rw [herror (isSome_of_not hsome)]

theorem follows_renameFolder (h : Sane st) {env : Env} {folderid parentfolderid : FolderId}
    {name : Name} {to_folderid : FolderId} {new_name : Option Name} {flags : UInt32}
    (htold : Told st (.renameFolder env folderid parentfolderid name to_folderid new_name flags)) :
    Sane (renameFolder env st folderid parentfolderid name to_folderid new_name flags).2 ∧
      Follows st
        (notices st (.renameFolder env folderid parentfolderid name to_folderid new_name flags))
        (renameFolder env st folderid parentfolderid name to_folderid new_name flags).2 := by
  obtain ⟨hsane, herror, hload⟩ :=
    load_renameFolder h env folderid parentfolderid name to_folderid new_name flags
  refine ⟨hsane, follows_if (fun _ _ => Iff.rfl) fun c hc => ?_⟩
  by_cases hne : (c : FolderId) = to_folderid
  · have hsome := hc.resolve_left fun h' => h' hne
    rw [herror (isSome_of_not hsome)]
  · rcases hload c hne with hsame | ⟨heq, hdel⟩
    · rw [hsame]
    · subst heq
      have hmk := find_getOrCreate (Inv.forget h.counted) c
        (fun f => f.findMkdir name 0) (fun _ _ => rfl) fun _ _ => rfl
      have hle := (st.taken c).load_delMkdir name 0
      rw [load_taken h.counted] at hle
      rcases htold with hfails | hsame | habsent | hspare
      · rw [herror (renameFolder_fails hfails)]
      · exact absurd hsame hne
      · rw [hdel, hle.2 (by rw [State.taken, hmk]; exact habsent)]
      · have hspare := spare_pos hspare
        omega

theorem follows_folderCreated (h : Sane st) {parentfolderid : FolderId} {taskid : Nat}
    {folderid : FolderId} {name : Name}
    (hnamed : Client.Named (.folderCreated parentfolderid taskid folderid name))
    (htold : Told st (.folderCreated parentfolderid taskid folderid name)) :
    Sane (folderCreated st parentfolderid taskid folderid name) ∧
      Follows st (notices st (.folderCreated parentfolderid taskid folderid name))
        (folderCreated st parentfolderid taskid folderid name) := by
  obtain ⟨hparent, hloadParent⟩ := load_folderCreatedParent h parentfolderid taskid folderid name
  obtain ⟨hsane, hload⟩ := load_renumberFolder hparent taskid folderid
    (htold.imp (rdlocked_folderCreatedParent h _ _ _ _ _)
      (rdlocked_folderCreatedParent h _ _ _ _ _))
  have heq : folderCreated st parentfolderid taskid folderid name =
      renumberFolder (folderCreatedParent st parentfolderid taskid folderid name) taskid folderid :=
    rfl
  refine ⟨hsane, follows_of (fun n hn => ?_) fun c hc => ?_⟩
  · have hnotice : ∃ f, n ∈ notice (folderCreated st parentfolderid taskid folderid name) f := by
      simp only [notices] at hn
      rcases List.mem_append.mp hn with hn | hn
      · exact ⟨folderid, by split at hn; exacts [hn, nomatch hn]⟩
      · exact ⟨parentfolderid, by split at hn; exacts [hn, nomatch hn]⟩
    obtain ⟨f, hf⟩ := hnotice
    obtain ⟨hid, hval⟩ := mem_notice.mp hf
    rw [hval, hid]
  · simp only [notices] at hc
    have hneg : (c : FolderId) ≠ -(taskid : FolderId) := by
      have hpos : 0 < taskid := hnamed.1
      have hsign : ∀ c t : Nat, 0 < t → (c : Int) ≠ -(t : Int) := fun c t ht => by omega
      exact hsign c taskid hpos
    have hnew : ((folderCreatedParent st parentfolderid taskid folderid name).getFolderTasksRdlocked
        (-taskid)).isNone ∨ (c : FolderId) ≠ -(taskid : FolderId) ∧ (c : FolderId) ≠ folderid := by
      by_cases hsome : ((folderCreatedParent st parentfolderid taskid folderid
          name).getFolderTasksRdlocked (-taskid)).isSome
      · refine .inr ⟨hneg, fun heq => ?_⟩
        rw [if_pos hsome] at hc
        exact hc (c, _) (List.mem_append_left _ (mem_notice.mpr ⟨heq, rfl⟩)) rfl
      · exact .inl (isNone_of_not hsome)
    have hold : (c : FolderId) ≠ parentfolderid ∨
        (st.lookup parentfolderid fun f => f.findMkdir name taskid).isNone := by
      by_cases hsome : (st.lookup parentfolderid fun f => f.findMkdir name taskid).isSome
      · refine .inl fun heq => ?_
        rw [if_pos hsome] at hc
        exact hc (c, _) (List.mem_append_right _ (mem_notice.mpr ⟨heq, rfl⟩)) rfl
      · exact .inr (isNone_of_not hsome)
    rw [heq, hload c hnew, hloadParent c hold]

theorem follows_initTask (h : Sane st) {env : InitEnv} {row : TaskRow}
    (htold : Told st (.initTask env row)) :
    Sane (initTask env st row) ∧
      Follows st (notices st (.initTask env row)) (initTask env st row) := by
  obtain ⟨hsane, hother, hfolder⟩ := load_initTask h env row
  have hmk := find_getOrCreate (Inv.forget h.counted) row.folderid
    (fun f => f.findMkdir (row.text1.getD []) 0) (fun _ _ => rfl) fun _ _ => rfl
  have hcr := find_getOrCreate (Inv.forget h.counted) row.folderid
    (fun f => f.findCreat (row.text1.getD []) 0) (fun _ _ => rfl) fun _ _ => rfl
  have hdelMkdir := (st.taken row.folderid).load_delMkdir (row.text1.getD []) 0
  have hdelCreat := (st.taken row.folderid).load_delCreat (row.text1.getD []) 0
  rw [load_taken h.counted] at hdelMkdir hdelCreat
  -- a row that tells of its own folder, which is the one it changes
  have htells : Follows st (notice (initTask env st row) row.folderid) (initTask env st row) :=
    follows_notice (fun _ => Iff.rfl) fun c hc => by rw [hother c hc]
  -- a row that tells of no folder
  have hsilent : (∀ c : Nat, (c : FolderId) = row.folderid →
      (0 < (initTask env st row).load row.folderid ↔ 0 < st.load row.folderid)) →
      Follows st [] (initTask env st row) := fun hrow => follows_nil fun c => by
    by_cases hc : (c : FolderId) = row.folderid
    · rw [hc]
      exact hrow c hc
    · rw [hother c hc]
  have hsilentMkdir : ((st.lookup row.folderid fun f => f.findMkdir (row.text1.getD []) 0).isNone ∨
        Spare st row.folderid 1) →
      (initTask env st row).load row.folderid =
        ((st.taken row.folderid).delMkdir (row.text1.getD []) 0).load →
      Follows st [] (initTask env st row) := by
    intro hcond hload
    refine hsilent fun c hc => ?_
    rcases hcond with habsent | hspare
    · rw [hload, hdelMkdir.2 (by rw [State.taken, hmk]; exact habsent)]
    · have hspare := spare_pos (hc ▸ hspare : Spare st c 1)
      rw [hc] at hspare
      omega
  have hsilentCreat : ((st.lookup row.folderid fun f => f.findCreat (row.text1.getD []) 0).isNone ∨
        Spare st row.folderid 1) →
      (initTask env st row).load row.folderid =
        ((st.taken row.folderid).delCreat (row.text1.getD []) 0).load →
      Follows st [] (initTask env st row) := by
    intro hcond hload
    refine hsilent fun c hc => ?_
    rcases hcond with habsent | hspare
    · rw [hload, hdelCreat.2 (by rw [State.taken, hcr]; exact habsent)]
    · have hspare := spare_pos (hc ▸ hspare : Spare st c 1)
      rw [hc] at hspare
      omega
  refine ⟨hsane, ?_⟩
  simp only [Told, InitTold] at htold
  simp only [notices, initNotices]
  cases htype : row.type with
  | mkdir => exact htells
  | creat => exact htells
  | renfileTo => exact htells
  | modify => exact htells
  | setFileMod =>
    rw [htype] at hfolder
    exact hsilent fun _ _ => by rw [hfolder]
  | setFileCr =>
    rw [htype] at hfolder
    exact hsilent fun _ _ => by rw [hfolder]
  | rmdir =>
    rw [htype] at htold hfolder
    exact hsilentMkdir htold hfolder
  | renfolderFrom =>
    rw [htype] at htold hfolder
    exact hsilentMkdir htold hfolder
  | unlink =>
    rw [htype] at htold hfolder
    exact hsilentCreat htold hfolder
  | unSetRev =>
    rw [htype] at htold hfolder
    exact hsilentCreat htold hfolder
  | renfileFrom =>
    rw [htype] at htold hfolder
    exact hsilentCreat htold hfolder
  | renfolderTo =>
    rw [htype] at htold hfolder
    rcases htold with hsame | hspare
    · simp only [hsame]
      exact htells
    · refine follows_notice (fun _ => Iff.rfl) fun c _ => ?_
      by_cases hc : (c : FolderId) = row.folderid
      · have hspare := spare_pos (hc ▸ hspare : Spare st c 0)
        rw [hc] at hspare ⊢
        have hle : st.load row.folderid ≤ (initTask env st row).load row.folderid := hfolder
        omega
      · rw [hother c hc]

/-- A creat that the file system itself takes out. -/
theorem follows_dropCreat (h : Sane st) {p : Nat} {name : Name} {taskid : Nat} (hp : Held st p 1)
    (htold : Told st (.dropCreat p name taskid)) :
    Sane (dropCreat st p name taskid) ∧ Follows st [] (dropCreat st p name taskid) := by
  obtain ⟨hsane, hload⟩ := h.editAt hp (FolderTasks.orderly_delCreat name taskid).toSound st.db
  refine ⟨hsane, follows_nil fun c => ?_⟩
  have hdel := (st.folder p).load_delCreat name taskid
  have hc' := hload c
  rw [show { st with db := st.db } = st from rfl] at hc'
  unfold dropCreat
  rw [hc', load_folder h hp] at *
  split
  · next hc =>
    rw [← hc] at hdel
    rcases htold with habsent | hspare
    · rw [hdel.2 habsent]
    · have hspare := spare_pos (hc ▸ hspare : Spare st c 1)
      omega
  · exact Iff.rfl

/-- A creat or a mkdir that is put in without a call, into a folder that has another. -/
theorem follows_silent {st' : State} {folderid : FolderId} (hspare : Spare st folderid 0)
    (hother : ∀ c, c ≠ folderid → st'.load c = st.load c)
    (hmore : st.load folderid ≤ st'.load folderid) : Follows st [] st' := by
  refine follows_nil fun c => ?_
  by_cases hc : (c : FolderId) = folderid
  · subst hc
    have hspare := spare_pos hspare
    omega
  · rw [hother c hc]

/-- What one step keeps, and that its calls are those that it takes. -/
theorem follows_exec (h : Sane st) {op : Op} (hop : Allowed st op) (hnamed : Client.Named op)
    (htold : Told st op) : Sane (exec st op).2 ∧ Follows st (notices st op) (exec st op).2 := by
  have hsame : ∀ {st' : State}, (Sane st' ∧ ∀ c, st'.load c = st.load c) →
      Sane st' ∧ Follows st [] st' := fun h' => ⟨h'.1, follows_nil fun c => by rw [h'.2 c]⟩
  cases op with
  | mkdir env folderid name flags =>
    obtain ⟨hsane, hload⟩ := load_mkdir h env folderid name flags
    refine ⟨hsane, follows_if (fun _ _ => Iff.rfl) fun c hc => ?_⟩
    exact pos_of_eq (hload c (hc.symm.imp_left isSome_of_not))
  | rmdir env folderid flags name => exact follows_rmdir h htold
  | addCreat env p name fileid key =>
    obtain ⟨hsane, hload⟩ := load_addCreat h hop env name fileid key
    refine ⟨hsane, follows_if (fun _ _ => Iff.rfl) fun c hc => ?_⟩
    exact pos_of_eq (hload c (hc.symm.imp_left isNone_of_not))
  | injectCreat p cr =>
    obtain ⟨hsane, hload⟩ := h.editAt hop (FolderTasks.orderly_addCreat cr).toSound st.db
    refine ⟨hsane, follows_silent htold (fun c hc => (hload c).trans (if_neg hc)) ?_⟩
    rw [← load_folder h hop]
    exact ((Nat.le_succ _).trans (FolderTasks.load_addCreat _ cr).ge).trans
      ((hload _).trans (if_pos rfl)).ge
  | injectUnlink peek p un =>
    have hg := FolderTasks.sound_addUnlinkBy peek un
    exact hsame ⟨h.edit hop.1 hg, State.load_edit_same hg.folderid (fun _ => rfl) p⟩
  | addModifiedFile env p name fileid hash key => exact follows_addModifiedFile h hop htold
  | addLocalCreatStatic folderid name taskid => exact follows_addLocalCreatStatic h htold
  | unlink env folderid name => exact follows_unlink h htold
  | renameFile env fileid parentfolderid name to_folderid new_name =>
    exact follows_renameFile h env fileid parentfolderid name to_folderid new_name
  | renameFolder env folderid parentfolderid name to_folderid new_name flags =>
    exact follows_renameFolder h htold
  | folderCreated parentfolderid taskid folderid name => exact follows_folderCreated h hnamed htold
  | folderDeleted parentfolderid taskid name =>
    exact hsame (h.withFolder_same parentfolderid (FolderTasks.orderly_delRmdir name taskid).toSound
      fun f => f.load_delRmdir name taskid)
  | fileCreated parentfolderid taskid name fileid =>
    obtain ⟨hsane, hload⟩ := load_fileCreated h parentfolderid taskid name fileid
    refine ⟨hsane, follows_if (fun _ _ => Iff.rfl) fun c hc => ?_⟩
    exact pos_of_eq (hload c (hc.imp_right isNone_of_not))
  | fileModified parentfolderid taskid name fileid =>
    obtain ⟨hsane, hload⟩ := load_fileCreated h parentfolderid taskid name fileid
    refine ⟨hsane, follows_if (fun _ _ => Iff.rfl) fun c hc => ?_⟩
    exact pos_of_eq (hload c (hc.imp_right isNone_of_not))
  | fileDeleted parentfolderid taskid name =>
    exact hsame (h.withFolder_same parentfolderid
      (FolderTasks.orderly_delUnlink name taskid).toSound
      fun f => f.load_delUnlink name taskid)
  | fileRenamed folderid taskid name frtaskid =>
    obtain ⟨hsaneTo, hloadTo⟩ := load_fileRenamedTo h folderid taskid name
    obtain ⟨hsane, hload⟩ :=
      load_renamedFrom (fun name taskid => FolderTasks.orderly_delUnlink name taskid)
      (fun name taskid f => f.load_delUnlink name taskid) hsaneTo frtaskid
    exact ⟨hsane, follows_if (fun _ _ => pos_of_eq (hload folderid).symm) fun c hc =>
      pos_of_eq ((hload c).trans (hloadTo c (hc.imp_right isNone_of_not)))⟩
  | folderRenamed parentfolderid taskid name frtaskid =>
    obtain ⟨hsaneTo, hloadTo⟩ := load_folderRenamedTo h parentfolderid taskid name
    obtain ⟨hsane, hload⟩ :=
      load_renamedFrom (fun name taskid => FolderTasks.orderly_delRmdir name taskid)
      (fun name taskid f => f.load_delRmdir name taskid) hsaneTo frtaskid
    exact ⟨hsane, follows_if (fun _ _ => pos_of_eq (hload parentfolderid).symm) fun c hc =>
      pos_of_eq ((hload c).trans (hloadTo c (hc.imp_right isNone_of_not)))⟩
  | initTask env row => exact follows_initTask h htold
  | addBannedFolder folderid name =>
    obtain ⟨hsane, hload⟩ := h.withNewFolder folderid
      ((FolderTasks.orderly_addMkdir
        { folderid := 0, taskid := 0, ctime := 0, mtime := 0, subdircnt := 0
          flags := FLAG_INVISIBLE, name }).comp
        (FolderTasks.orderly_addRmdir { folderid := 0, taskid := 0, name })).toSound
    refine ⟨hsane, follows_silent htold (fun c hc => (hload c).trans (if_neg hc)) ?_⟩
    rw [← load_taken h.counted folderid]
    refine le_trans ?_ ((hload folderid).trans (if_pos rfl)).ge
    exact (Nat.le_succ _).trans (FolderTasks.load_addMkdir _ _).ge
  | dropCreat p name taskid => exact follows_dropCreat h hop htold
  | dropUnlink p name taskid =>
    have hg := (FolderTasks.orderly_delUnlink name taskid).toSound
    exact hsame ⟨h.edit hop hg, State.load_edit_same hg.folderid
      (fun f => f.load_delUnlink name taskid) p⟩
  | take folderid => exact hsame ⟨(h.take folderid).1, State.load_getOrCreate h.keyed folderid⟩
  | release p => exact hsame ⟨h.release hop, (State.load_release h.counted h.keyed hop).2⟩
  | sql db => exact hsame ⟨h.withDb db, fun _ => rfl⟩

end Steps

/-! ## Runs -/

namespace Client

variable {parents : Parents} {db : Db} {c c' : Client} {step : Step} {fuel : Nat}

theorem own_tell {ns : List (Nat × Bool)} {d d' : Drive} (h : tell fuel ns d = .ok d') :
    d'.tree.tasks.own = marks ns d.tree.tasks.own := by
  induction ns generalizing d with
  | nil =>
    obtain rfl := Except.ok.inj h
    rfl
  | cons n rest ih =>
    simp only [tell] at h
    cases hcall : d.folderChanged fuel n.1 n.2 with
    | error e => simp only [hcall, error_bind, reduceCtorEq] at h
    | ok d'' =>
      simp only [hcall, ok_bind] at h
      rw [ih h, Ppathstatus.Drive.own_folderChanged hcall]
      rfl

/-- The counters are right, and the marks are those that the tasks call for. -/
structure Marked (c : Client) : Prop where
  sane : Sane c.tasks
  own : ∀ f : Nat, c.drive.tree.tasks.own f = c.tasks.changed f

theorem marked_start (parents : Parents) (db : Db) : Marked (start parents db) where
  sane := ⟨inv_start _ db, List.Pairwise.nil⟩
  own := fun _ => rfl

theorem marked_exec (h : Marked c) (hmatch : c.Matching step) (hkeeps : c.Keeps step)
    (hexec : c.exec fuel step = .ok c') : Marked c' := by
  cases step with
  | op op =>
    obtain ⟨hsane, hfollows⟩ := follows_exec h.sane hmatch.1 hmatch.2 hkeeps
    simp only [exec] at hexec
    cases htell : tell fuel (notices c.tasks op) c.drive with
    | error e => simp only [htell, error_bind, reduceCtorEq] at hexec
    | ok drive =>
      simp only [htell, ok_bind] at hexec
      obtain rfl := Except.ok.inj hexec
      exact ⟨hsane, fun f => (congrFun (own_tell htell) f).trans (hfollows _ h.own f)⟩
  | call call =>
    simp only [exec] at hexec
    cases hcall : c.drive.exec fuel call with
    | error e => simp only [hcall, error_bind, reduceCtorEq] at hexec
    | ok drive =>
      simp only [hcall, ok_bind] at hexec
      obtain rfl := Except.ok.inj hexec
      have hown := Ppathstatus.Drive.own_exec hcall hmatch.2 fun f heq => by
        subst heq
        exact hkeeps
      exact ⟨h.sane, fun f => (congrFun hown f).trans (h.own f)⟩

theorem marked_run (hrun : ToldRun parents db c) : Marked c := by
  induction hrun with
  | refl => exact marked_start parents db
  | tail _ hlast ih =>
    obtain ⟨step, fuel, hmatch, hkeeps, hexec⟩ := hlast
    exact marked_exec ih hmatch hkeeps hexec

/-! ## The path status -/

theorem inv_tell {ns : List (Nat × Bool)} {d d' : Drive} (hd : Ppathstatus.Drive.Inv d)
    (htells : Tells fuel ns d) (h : tell fuel ns d = .ok d') : Ppathstatus.Drive.Inv d' := by
  induction ns generalizing d with
  | nil =>
    obtain rfl := Except.ok.inj h
    exact hd
  | cons n rest ih =>
    obtain ⟨hmatch, hmeets, hrest⟩ := htells
    simp only [tell] at h
    cases hcall : d.folderChanged fuel n.1 n.2 with
    | error e => simp only [hcall, error_bind, reduceCtorEq] at h
    | ok d'' =>
      simp only [hcall, ok_bind] at h
      obtain ⟨bound, hends⟩ := Ppathstatus.Drive.exec_inv hd hmatch hmeets
      have hend := hends fuel
      rw [show d.exec fuel (.changed n.1 n.2) = .ok d'' from hcall] at hend
      exact ih hend (hrest d'' hcall) h

theorem inv_exec (h : Ppathstatus.Drive.Inv c.drive) (hmatch : c.Matching step)
    (hmeets : c.Meets fuel step) (hexec : c.exec fuel step = .ok c') :
    Ppathstatus.Drive.Inv c'.drive := by
  cases step with
  | op op =>
    simp only [exec] at hexec
    cases htell : tell fuel (notices c.tasks op) c.drive with
    | error e => simp only [htell, error_bind, reduceCtorEq] at hexec
    | ok drive =>
      simp only [htell, ok_bind] at hexec
      obtain rfl := Except.ok.inj hexec
      exact inv_tell h hmeets htell
  | call call =>
    simp only [exec] at hexec
    cases hcall : c.drive.exec fuel call with
    | error e => simp only [hcall, error_bind, reduceCtorEq] at hexec
    | ok drive =>
      simp only [hcall, ok_bind] at hexec
      obtain rfl := Except.ok.inj hexec
      obtain ⟨bound, hends⟩ := Ppathstatus.Drive.exec_inv h hmatch.1 hmeets
      have hend := hends fuel
      rw [hcall] at hend
      exact hend

theorem inv_run (hparents : Ppathstatus.Drive.Hierarchy parents) (hrun : GoodRun parents db c) :
    Ppathstatus.Drive.Inv c.drive := by
  induction hrun with
  | refl => exact .init hparents
  | tail _ hlast ih =>
    obtain ⟨step, fuel, hmatch, ⟨-, hmeets⟩, hexec⟩ := hlast
    exact inv_exec ih hmatch hmeets hexec

theorem GoodRun.told (hrun : GoodRun parents db c) : ToldRun parents db c := by
  induction hrun with
  | refl => exact .refl
  | tail _ hlast ih =>
    obtain ⟨step, fuel, hmatch, ⟨hkeeps, -⟩, hexec⟩ := hlast
    exact ih.tail ⟨step, fuel, hmatch, hkeeps, hexec⟩

/-- In every run whose steps meet the condition on the tasks the folders of the drive are marked
that have a creat or a mkdir.  If the steps meet the condition of the path status too, then outside
a transaction a folder is in sync if neither it nor a folder below it has a creat or a mkdir. -/
theorem drive_status_of_tasks (hparents : Ppathstatus.Drive.Hierarchy parents) :
    (ToldRun parents db c → ∀ f : Nat, c.drive.tree.tasks.own f = c.tasks.changed f) ∧
    (GoodRun parents db c → c.drive.moves = [] → ∀ statusesOk (f : Nat),
      pathStatusDriveFolder statusesOk c.drive.tree f = .inSync ↔
        ¬ Balanced.Busy (parentOf c.drive.parents) (fun x : Nat => c.tasks.changed x) f) := by
  refine ⟨fun hrun => (marked_run hrun).own, fun hrun hmoves statusesOk f => ?_⟩
  have hown : (fun x : Nat => c.tasks.changed x) = c.drive.tree.tasks.own :=
    funext fun x => ((marked_run hrun.told).own x).symm
  rw [hown, ← (inv_run hparents hrun).has_iff_busy hmoves f]
  unfold pathStatusDriveFolder
  cases statusesOk <;> by_cases hhas : c.drive.tree.tasks.has f <;> simp [hhas]

/-- The folders are in the root. -/
def inRoot (fs : List Nat) : Parents := fun f => if f ∈ fs then some 0 else none

theorem inRoot_cons (f : Nat) (fs : List Nat) :
    inRoot (f :: fs) = Function.update (inRoot fs) f (some 0) := by
  funext g
  by_cases h : g = f <;> simp [inRoot, h]

theorem parentOf_inRoot {fs : List Nat} {f p : Nat} (h : parentOf (inRoot fs) f = some p) :
    f ≠ 0 ∧ p = 0 := by
  simp only [parentOf, inRoot] at h
  grind

theorem hierarchy_inRoot (fs : List Nat) : Ppathstatus.Drive.Hierarchy (inRoot fs) where
  ranked := ⟨id, fun f p h => by
    obtain ⟨hf, rfl⟩ := parentOf_inRoot h
    exact Nat.pos_of_ne_zero hf⟩
  closed := fun _ _ h => .inl (parentOf_inRoot h).2

/-- Nothing is below a folder of the root. -/
theorem busy_inRoot {fs : List Nat} {own : Nat → Bool} {f : Nat} (hf : f ≠ 0)
    (h : Balanced.Busy (parentOf (inRoot fs)) own f) : own f = true := by
  obtain ⟨x, hx, hpath⟩ := h
  rcases hpath.cases_tail with rfl | ⟨y, -, hlast⟩
  · exact hx
  · exact absurd (parentOf_inRoot hlast).2 hf

/-- A folder is made in a folder of the root and another in the root; the second is done and has its
row, and the root is busy for what is in the first. -/
theorem drive_status_of_tasks_below : ∃ c, GoodRun (inRoot [5]) plainState.db c ∧
    c.drive.tree.tasks.own 5 = true ∧ c.drive.tree.tasks.own 0 = false ∧
    pathStatusDriveFolder true c.drive.tree 0 ≠ .inSync ∧
    pathStatusDriveFolder true c.drive.tree 7 = .inSync := by
  obtain ⟨c, hrun, hmoves, hparents, h5, h0, h7⟩ : ∃ c, GoodRun (inRoot [5]) plainState.db c ∧
      c.drive.moves = [] ∧ c.drive.parents = inRoot [7, 5] ∧ c.tasks.changed 5 = true ∧
      c.tasks.changed 0 = false ∧ c.tasks.changed 7 = false := by
    refine ⟨_, .tail (.tail (.tail (.tail .refl
      ⟨.op (.mkdir plainEnv 5 [99] 0), 2, ⟨trivial, trivial⟩, ⟨trivial, ?_⟩, rfl⟩)
      ⟨.op (.mkdir plainEnv 0 [100] 0), 2, ⟨trivial, trivial⟩, ⟨trivial, ?_⟩, rfl⟩)
      ⟨.call (.create 7 0), 2, ⟨⟨by decide, rfl, ?_⟩, nofun⟩, ⟨trivial, trivial⟩, rfl⟩)
      ⟨.op (.folderCreated 0 2 7 [100]), 2, ⟨trivial, by decide, by decide⟩, ⟨.inr rfl, ?_⟩, rfl⟩,
      ?_⟩
    · exact ⟨.inr (by decide), trivial, fun _ _ => trivial⟩
    · exact ⟨.inl rfl, trivial, fun _ _ => trivial⟩
    · have h := hierarchy_inRoot [7, 5]
      rwa [inRoot_cons] at h
    · exact ⟨.inl rfl, nofun, fun _ _ => trivial⟩
    · exact ⟨rfl, (inRoot_cons 7 [5]).symm, by decide, by decide, by decide⟩
  have hown := (drive_status_of_tasks (hierarchy_inRoot [5])).1 hrun.told
  have hstatus := (drive_status_of_tasks (hierarchy_inRoot [5])).2 hrun hmoves true
  refine ⟨c, hrun, (hown 5).trans h5, (hown 0).trans h0, fun hsync => ?_, ?_⟩
  · refine (hstatus 0).mp hsync ⟨5, h5, .single ?_⟩
    rw [hparents]
    rfl
  · refine (hstatus 7).mpr ?_
    rw [hparents]
    exact fun hbusy => Bool.false_ne_true (h7.symm.trans (busy_inRoot (f := 7) (by decide) hbusy))

/-- A folder is made in the root and removed again before its task is done: the root stays marked,
and is not in sync though nothing on the drive has a creat or a mkdir. -/
theorem drive_status_wrong : ∃ c, Run (fun _ _ _ => True) (fun _ => none) emptyDb c ∧
    c.drive.tree.tasks.own 0 = true ∧ c.tasks.changed 0 = false ∧ c.drive.moves = [] ∧
    pathStatusDriveFolder true c.drive.tree 0 = .inProg ∧
    ¬ Balanced.Busy (parentOf c.drive.parents) (fun x : Nat => c.tasks.changed x) 0 := by
  refine ⟨_, .tail
    (.tail .refl ⟨.op (.mkdir plainEnv 0 [97] 0), 1, ⟨trivial, trivial⟩, trivial, rfl⟩)
    ⟨.op (.rmdir plainEnv 0 0 [97]), 1, ⟨trivial, trivial⟩, trivial, rfl⟩, rfl, by decide, rfl,
    rfl, ?_⟩
  rintro ⟨x, hx, hpath⟩
  rcases hpath.cases_head with rfl | ⟨p, hparent, -⟩
  · exact absurd hx (by decide)
  · have hparent : parentOf (fun _ => none) x = some p := hparent
    simp [parentOf] at hparent

end Client

end PcloudClient.Pfstasks
