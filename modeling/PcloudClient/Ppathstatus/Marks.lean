/-
  Ppathstatus/Marks.lean --- what the calls do to `own_tasks`.

  A way up makes and frees nodes without tasks of their own, so only the two calls that are about
  the tasks of a folder change the mark of a folder.
-/
import PcloudClient.Ppathstatus.DriveProofs

set_option autoImplicit false

namespace PcloudClient.Ppathstatus

open PcloudClient.Counted

section Up

variable {parents : Parents} {tr tr' : TaskTree} {folderid : FolderId}

/-- A lookup leaves the nodes alone. -/
theorem tasks_of_getParentFolder {parent : Option FolderId}
    (h : getParentFolder parents tr folderid = (parent, tr')) : tr.tasks = tr'.tasks := by
  unfold getParentFolder at h
  split at h
  · exact congrArg (·.2.tasks) h
  · split at h
    · exact congrArg (·.2.tasks) h
    · split at h <;> exact congrArg (·.2.tasks) h

theorem own_incrementUp (fuel : Nat) (folderid : FolderId) (tr : TaskTree)
    (h : incrementUp parents fuel folderid tr = .ok tr') : tr'.tasks.own = tr.tasks.own := by
  induction fuel generalizing folderid tr with
  | zero => exact nomatch h
  | succ fuel ih =>
    unfold incrementUp at h
    simp only at h
    have hset : (tr.tasks.set folderid ⟨((tr.tasks.get folderid).getD ⟨false, 0⟩).own,
        ((tr.tasks.get folderid).getD ⟨false, 0⟩).cnt + 1⟩).own = tr.tasks.own := by
      funext x
      cases hget : tr.tasks.get folderid with
      | none => exact Table.own_set_new hget rfl x
      | some n => exact Table.own_set_of_get hget _ x
    split at h
    · obtain rfl := Except.ok.inj h
      exact hset
    · split at h
      · next heq =>
        obtain rfl := Except.ok.inj h
        rw [← tasks_of_getParentFolder heq]
        exact hset
      · next parent tr'' heq =>
        rw [ih parent tr'' h, ← tasks_of_getParentFolder heq]
        exact hset

theorem own_incrementAbove {fuel : Nat} (h : incrementAbove parents fuel folderid tr = .ok tr') :
    tr'.tasks.own = tr.tasks.own := by
  unfold incrementAbove at h
  split at h
  · next heq =>
    obtain rfl := Except.ok.inj h
    rw [tasks_of_getParentFolder heq]
  · next parent tr'' heq => rw [own_incrementUp fuel parent tr'' h, tasks_of_getParentFolder heq]

theorem own_decrementUp {checked : Bool} (fuel : Nat) (folderid : FolderId) (tr : TaskTree)
    (h : decrementUp parents checked fuel folderid tr = .ok tr') :
    tr'.tasks.own = tr.tasks.own := by
  induction fuel generalizing folderid tr with
  | zero => exact nomatch h
  | succ fuel ih =>
    unfold decrementUp at h
    split at h
    · exact nomatch h
    · next ft hget =>
      split at h
      · exact nomatch h
      · simp only at h
        split at h
        · obtain rfl := Except.ok.inj h
          funext x
          exact Table.own_set_of_get hget _ x
        · next hgone =>
          have hown : ft.own = false := by
            simpa using fun hown => hgone (.inr hown)
          have herase : (tr.tasks.erase folderid).own = tr.tasks.own :=
            funext (Table.own_erase_of_get hget hown)
          split at h
          · next heq =>
            obtain rfl := Except.ok.inj h
            rw [← tasks_of_getParentFolder heq, herase]
          · next parent tr'' heq =>
            rw [ih parent tr'' h, ← tasks_of_getParentFolder heq, herase]

theorem own_decrementAbove {checked : Bool} {fuel : Nat}
    (h : decrementAbove parents checked fuel folderid tr = .ok tr') :
    tr'.tasks.own = tr.tasks.own := by
  unfold decrementAbove at h
  split at h
  · next heq =>
    obtain rfl := Except.ok.inj h
    rw [tasks_of_getParentFolder heq]
  · next parent tr'' heq => rw [own_decrementUp fuel parent tr'' h, tasks_of_getParentFolder heq]

theorem own_deletedUp {last : Option FolderId} (fuel : Nat) (folderid : FolderId) (tr : TaskTree)
    (h : deletedUp parents fuel folderid tr = .ok (last, tr')) : tr'.tasks.own = tr.tasks.own := by
  induction fuel generalizing folderid tr with
  | zero => exact nomatch h
  | succ fuel ih =>
    unfold deletedUp at h
    split at h
    · next heq =>
      obtain ⟨-, rfl⟩ := Prod.mk.inj (Except.ok.inj h)
      rw [tasks_of_getParentFolder heq]
    · next parent tr'' heq =>
      have htasks := tasks_of_getParentFolder heq
      split at h
      · exact nomatch h
      · next ft hget =>
        simp only at h
        split at h
        · obtain ⟨-, rfl⟩ := Prod.mk.inj (Except.ok.inj h)
          rw [htasks]
          exact funext (Table.own_set_of_get hget _)
        · next hgone =>
          have hown : ft.own = false := by
            simpa using fun hown => hgone (.inr hown)
          rw [ih parent _ h, htasks]
          exact funext (Table.own_erase_of_get hget hown)

end Up

namespace Drive

variable {d d' : Drive} {f : FolderId} {fuel : Nat}

/-- The mark of the folder is what the call was told, and the others stay. -/
theorem own_folderChanged {changed : Bool} (h : d.folderChanged fuel f changed = .ok d') :
    d'.tree.tasks.own = Function.update d.tree.tasks.own f changed := by
  have hsame : d.tree.tasks.own f = changed →
      d.tree.tasks.own = Function.update d.tree.tasks.own f changed := fun heq =>
    (Function.update_eq_self_iff.mpr heq.symm).symm
  have hset : ∀ (t : Table FolderId) (n : Node), n.own = changed →
      (∀ x, x ≠ f → t.own x = d.tree.tasks.own x) →
      (t.set f n).own = Function.update d.tree.tasks.own f changed := by
    intro t n hn hother
    funext x
    rw [Table.own_set, Function.update_apply]
    split
    · exact hn
    · next hne => exact hother x hne
  unfold folderChanged at h
  extract_lets tasks src made at h
  have hother : ∀ x, x ≠ f → tasks.own x = d.tree.tasks.own x := by
    intro x hne
    simp only [tasks]
    split
    · rw [Table.own_set, if_neg hne]
    · rfl
  split at h
  · next hnone =>
    obtain rfl := Except.ok.inj h
    simp only [tasks] at hnone
    split at hnone
    · simp at hnone
    · next hcond =>
      refine hsame ?_
      have hown : d.tree.tasks.own f = false := by simp [Table.own, hnone]
      have hchanged : changed = false := by
        simpa using fun hc => hcond ⟨hc, fun hhas => hhas hnone⟩
      rw [hown, hchanged]
  · next ft hget =>
    split at h
    · obtain rfl := Except.ok.inj h
      exact hset tasks { ft with own := changed } rfl hother
    · split at h
      · next hchanged =>
        split at h
        · cases h
        · cases hup : incrementAbove d.parents fuel f
              { d.tree with tasks := tasks.set f { ft with own := true } } with
          | error e => simp only [tasks, made, src, hup] at h; cases h
          | ok tree =>
            simp only [tasks, made, src, hup] at h
            obtain rfl := Except.ok.inj h
            exact (own_incrementAbove hup).trans
              (hset tasks { ft with own := true } hchanged.symm hother)
      · next hchanged =>
        split at h
        · cases h
        · cases hup : decrementAbove d.parents false fuel f
              { d.tree with tasks := tasks.erase f } with
          | error e => simp only [tasks, made, src, hup] at h; cases h
          | ok tree =>
            simp only [tasks, made, src, hup] at h
            obtain rfl := Except.ok.inj h
            refine (own_decrementAbove hup).trans (funext fun x => ?_)
            rw [Table.own_erase, Function.update_apply]
            split
            · exact (Bool.not_eq_true _ ▸ hchanged : changed = false).symm
            · next hne => exact hother x hne

theorem own_runCommitCallbacks (moves : List Move) (d : Drive)
    (h : d.runCommitCallbacks fuel moves = .ok d') : d'.tree.tasks.own = d.tree.tasks.own := by
  induction moves generalizing d with
  | nil =>
    obtain rfl := Except.ok.inj h
    rfl
  | cons m rest ih =>
    unfold runCommitCallbacks folderMoved at h
    cases hinc : incrementUp d.parents fuel m.newParentFolderid d.tree with
    | error e => simp only [hinc] at h; cases h
    | ok tree =>
      cases hdec : decrementUp d.parents false fuel m.oldParentFolderid tree with
      | error e => simp only [hinc, ok_bind, hdec] at h; cases h
      | ok tree' =>
        simp only [hinc, ok_bind, hdec] at h
        rw [ih _ h]
        exact (own_decrementUp fuel _ _ hdec).trans (own_incrementUp fuel _ _ hinc)

/-- The marks along the calls on rows, as long as no folder with tasks is deleted. -/
theorem own_exec {call : Call} (h : d.exec fuel call = .ok d')
    (hchanged : ∀ f changed, call ≠ .changed f changed)
    (hdeleted : ∀ f, call = .deleted f → d.tree.tasks.own f = false) :
    d'.tree.tasks.own = d.tree.tasks.own := by
  cases call with
  | start => obtain rfl := Except.ok.inj h; rfl
  | create f p => obtain rfl := Except.ok.inj h; rfl
  | changed f changed => exact absurd rfl (hchanged f changed)
  | moved f p =>
    simp only [exec, pathStatusFolderMoved] at h
    split at h
    · obtain rfl := Except.ok.inj h
      rfl
    · split at h
      · obtain rfl := Except.ok.inj h
        rfl
      · split at h
        · obtain rfl := Except.ok.inj h
          simp
        · split at h
          · cases h
          · obtain rfl := Except.ok.inj h
            simp
  | deleted f =>
    have hown := hdeleted f rfl
    simp only [exec, pathStatusFolderDeleted] at h
    split at h
    · next hhas =>
      obtain ⟨n, hn⟩ := Table.has_iff.mp hhas
      cases hup : deletedUp d.parents fuel f { d.tree with tasks := d.tree.tasks.erase f } with
      | error e => simp only [hup] at h; cases h
      | ok r =>
        simp only [hup] at h
        obtain rfl := Except.ok.inj h
        have herase := own_deletedUp fuel f _ hup
        have hlast : ∀ last : Option FolderId, (last.elim r.2 (delFromParentCache · r.2)).tasks =
            r.2.tasks := by
          intro last
          cases last <;> simp
        simp only [hlast]
        rw [herase]
        refine funext (Table.own_erase_of_get hn ?_)
        simpa [Table.own, hn] using hown
    · obtain rfl := Except.ok.inj h
      simp
  | commit =>
    simp only [exec] at h
    cases hrun : d.runCommitCallbacks fuel d.moves with
    | error e => simp only [hrun] at h; cases h
    | ok d'' =>
      simp only [hrun] at h
      obtain rfl := Except.ok.inj h
      have hown := own_runCommitCallbacks _ _ hrun
      exact hown
  | rollback => obtain rfl := Except.ok.inj h; rfl

/-- Outside a transaction a folder has a node as long as there are tasks in it or below it. -/
theorem Inv.has_iff_busy (h : Inv d) (hmoves : d.moves = []) (f : FolderId) :
    d.tree.tasks.has f ↔ Balanced.Busy (parentOf d.parents) d.tree.tasks.own f := by
  obtain ⟨rank, hrank⟩ := h.hierarchy.ranked
  have hcounted : d.counted = parentOf d.parents := by
    funext x
    exact countedAt_of_forall_ne (by simp [hmoves])
  have hbal := h.balanced
  rw [hcounted] at hbal
  exact ⟨hbal.busy_of_has hrank, hbal.has_of_busy⟩

end Drive

end PcloudClient.Ppathstatus
