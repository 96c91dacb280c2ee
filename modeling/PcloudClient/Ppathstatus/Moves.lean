/-
  Ppathstatus/Moves.lean --- moves whose callbacks wait for the commit, and where that leaves the
  moved folders counted.
-/
import Mathlib.Logic.Function.Basic
import PcloudClient.Ppathstatus.Tree

set_option autoImplicit false

namespace PcloudClient.Ppathstatus

/-- `folder_moved_params_t` -/
structure Move where
  folderid : FolderId
  oldParentFolderid : FolderId
  newParentFolderid : FolderId
  deriving DecidableEq, Repr

/-- Where a folder is counted: at its parent, or until the callback of a move has run, at the parent
that it was moved from. -/
def countedAt (parents : Parents) (moves : List Move) (folderid : FolderId) : Option FolderId :=
  match moves.find? (·.folderid = folderid) with
  | some m => some m.oldParentFolderid
  | none => parentOf parents folderid

/-- A callback moves its folder to where the next one finds it, the last one to the parent of the
table. -/
def Linked (parents : Parents) : List Move → Prop
  | [] => True
  | m :: rest => countedAt parents rest m.folderid = some m.newParentFolderid ∧ Linked parents rest

section Counted

variable {parents parents' : Parents} {moves rest : List Move} {f : FolderId} {m : Move}

theorem countedAt_of_forall_ne (h : ∀ m ∈ moves, m.folderid ≠ f) :
    countedAt parents moves f = parentOf parents f := by
  unfold countedAt
  rw [List.find?_eq_none.mpr (by simpa using h)]

theorem countedAt_cons_self (m : Move) (rest : List Move) :
    countedAt parents (m :: rest) m.folderid = some m.oldParentFolderid := by
  simp [countedAt]

theorem countedAt_cons_ne (h : f ≠ m.folderid) :
    countedAt parents (m :: rest) f = countedAt parents rest f := by
  simp [countedAt, Ne.symm h]

theorem countedAt_congr (h : parentOf parents' f = parentOf parents f) :
    countedAt parents' moves f = countedAt parents moves f := by
  unfold countedAt
  rw [h]

/-- A folder that is moved, and counted where it was. -/
theorem countedAt_append (hzero : m.folderid ≠ 0)
    (hold : parents m.folderid = some m.oldParentFolderid) (row : Option FolderId) :
    countedAt (Function.update parents m.folderid row) (moves ++ [m]) f =
      countedAt parents moves f := by
  unfold countedAt
  rw [List.find?_append]
  cases hfind : moves.find? (·.folderid = f) with
  | some m' => rfl
  | none =>
    by_cases heq : f = m.folderid
    · subst heq
      simp [parentOf, hzero, hold]
    · simp [parentOf, Ne.symm heq, heq]

theorem Linked.append (h : Linked parents moves) (hzero : m.folderid ≠ 0)
    (hold : parents m.folderid = some m.oldParentFolderid) :
    Linked (Function.update parents m.folderid (some m.newParentFolderid)) (moves ++ [m]) := by
  induction moves with
  | nil => exact ⟨by simp [countedAt, parentOf, hzero], trivial⟩
  | cons m' rest ih => exact ⟨(countedAt_append hzero hold _).trans h.1, ih h.2⟩

theorem Linked.congr (h : Linked parents moves)
    (hrows : ∀ m ∈ moves, parentOf parents' m.folderid = parentOf parents m.folderid) :
    Linked parents' moves := by
  induction moves with
  | nil => trivial
  | cons m rest ih =>
    exact ⟨(countedAt_congr (hrows m List.mem_cons_self)).trans h.1,
      ih h.2 fun m' hm' => hrows m' (List.mem_cons_of_mem _ hm')⟩

end Counted

end PcloudClient.Ppathstatus
