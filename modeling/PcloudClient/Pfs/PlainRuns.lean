/-
  Pfs/PlainRuns.lean --- any sequence of writes and truncations of one file.
-/
import PcloudClient.Ppagecache.ReadProofs

set_option autoImplicit false

namespace PcloudClient.Pfs

open PcloudClient.Ppagecache

/-- What changes the bytes of an open file; `cached` tells what the page cache has when the file
is opened for writing. -/
inductive Change where
  | write (cached : Bool) (buf : Bytes) (offset : Nat)
  | ftruncate (cached : Bool) (size : Nat)
  deriving DecidableEq, Repr

namespace Change

/-- The call. -/
def exec (of : Openfile) : Change → Option Openfile
  | write cached buf offset => of.write cached buf offset
  | ftruncate cached size => of.ftruncate cached size

/-- What it does to the bytes. -/
def apply (content : Bytes) : Change → Bytes
  | write _ buf offset => File.pwrite content buf offset
  | ftruncate _ size => File.truncate content size

/-- The kernel does not pass on writes of no bytes. -/
def Nonempty : Change → Prop
  | write _ buf _ => buf ≠ []
  | ftruncate _ _ => True

end Change

/-- The calls one after the other. -/
def runChanges : List Change → Openfile → Option Openfile
  | [], of => some of
  | c :: cs, of => (c.exec of).bind (runChanges cs)

/-- A call changes the bytes of the file and keeps its tree exact. -/
theorem Openfile.Tracks.exec {of : Openfile} {content : Bytes} (ht : of.Tracks content)
    {c : Change} (hc : c.Nonempty) :
    ∃ of', c.exec of = some of' ∧ of'.Tracks (c.apply content) ∧
      (of.TreeExact → of'.TreeExact) ∧ of'.remote = of.remote := by
  cases c with
  | write cached buf offset => exact ht.write cached hc offset
  | ftruncate cached size => exact ht.ftruncate cached size

theorem Openfile.Tracks.runChanges {of : Openfile} {content : Bytes} (ht : of.Tracks content)
    {cs : List Change} (hcs : ∀ c ∈ cs, c.Nonempty) :
    ∃ of', Pfs.runChanges cs of = some of' ∧ of'.Tracks (cs.foldl Change.apply content) ∧
      (of.TreeExact → of'.TreeExact) ∧ of'.remote = of.remote := by
  induction cs generalizing of content with
  | nil => exact ⟨of, rfl, ht, id, rfl⟩
  | cons c cs ih =>
    obtain ⟨of₁, hexec, ht₁, hexact₁, hremote₁⟩ := ht.exec (hcs c (by simp))
    obtain ⟨of', hrun, ht', hexact', hremote'⟩ := ih ht₁ fun c' hc' => hcs c' (by simp [hc'])
    refine ⟨of', ?_, ht', fun h => hexact' (hexact₁ h), hremote'.trans hremote₁⟩
    rw [Pfs.runChanges, hexec, Option.bind_some, hrun]

/-- The first of the calls that changes a file of `size` bytes makes a modified one of it. -/
def Modifies (size : Nat) : List Change → Prop
  | [] => False
  | .write cached _ _ :: _ => Openfile.BecomesModified size cached
  | .ftruncate cached size' :: cs =>
    if size = size' then Modifies size cs else Openfile.BecomesModified size cached

instance decidableModifies (size : Nat) : (cs : List Change) → Decidable (Modifies size cs)
  | [] => isFalse id
  | .write cached _ _ :: _ => inferInstanceAs (Decidable (Openfile.BecomesModified size cached))
  | .ftruncate cached size' :: cs =>
    have := decidableModifies size cs
    inferInstanceAs (Decidable (if size = size' then Modifies size cs else
      Openfile.BecomesModified size cached))

/-- A file that is open for writing stays new or modified. -/
theorem runChanges_kind {of of' : Openfile} {cs : List Change}
    (hopen : of.newfile = true ∨ of.modified = true) (hrun : runChanges cs of = some of') :
    of.SameKind of' := by
  induction cs generalizing of with
  | nil =>
    cases hrun
    exact ⟨rfl, rfl⟩
  | cons c cs ih =>
    obtain ⟨of₁, hexec, hrun⟩ := Option.bind_eq_some_iff.mp hrun
    have hkind : of.SameKind of₁ := by
      cases c with
      | write cached buf offset =>
        have hkind := Openfile.write_kind hexec
        rwa [(of.ensureWritable_kind cached).1 hopen] at hkind
      | ftruncate cached size =>
        have hkind := Openfile.ftruncate_kind hexec
        split at hkind
        · exact hkind ▸ ⟨rfl, rfl⟩
        · rwa [(of.ensureWritable_kind cached).1 hopen] at hkind
    obtain ⟨hnew, hmod⟩ := hkind
    obtain ⟨hnew', hmod'⟩ := ih (by rwa [hnew, hmod]) hrun
    exact ⟨hnew'.trans hnew, hmod'.trans hmod⟩

/-- A remote file is a modified one behind the calls if the first that changed it made it so. -/
theorem modified_iff_modifies {of of' : Openfile} {cs : List Change} (hnew : of.newfile = false)
    (hmod : of.modified = false) (hsize : of.currentsize = of.initialsize)
    (hrun : runChanges cs of = some of') :
    (of'.newfile = false ∧ of'.modified = true) ↔ Modifies of.initialsize cs := by
  induction cs with
  | nil =>
    cases hrun
    exact iff_of_false (fun h => Bool.noConfusion (hmod.symm.trans h.2)) id
  | cons c cs ih =>
    obtain ⟨of₁, hexec, hrest⟩ := Option.bind_eq_some_iff.mp hrun
    have hopened : ∀ cached, (of.ensureWritable cached).SameKind of₁ →
        ((of'.newfile = false ∧ of'.modified = true) ↔
          Openfile.BecomesModified of.initialsize cached) := by
      intro cached hkind
      obtain ⟨hmodified, hbecomes⟩ := (of.ensureWritable_kind cached).2 hnew hmod
      obtain ⟨hnew₁, hmod₁⟩ := hkind
      obtain ⟨hnew', hmod'⟩ := runChanges_kind (Or.inr (hmod₁.trans hmodified)) hrest
      rw [hnew', hnew₁, hmod', hmod₁, hmodified, hbecomes]
      exact and_iff_left rfl
    cases c with
    | write cached buf offset => exact hopened cached (Openfile.write_kind hexec)
    | ftruncate cached size =>
      have hkind := Openfile.ftruncate_kind hexec
      unfold Modifies
      rw [hsize] at hkind
      split at hkind
      · next heq =>
        rw [if_pos heq]
        exact ih (hkind ▸ hrest)
      · next hne =>
        rw [if_neg hne]
        exact hopened cached hkind

/-- Behind any writes and truncations of a remote file, a read of the modified file returns the
bytes of the file exactly when its request is one that `Within` says. -/
theorem read_modified_exact (remote : Bytes) (cs : List Change) (hcs : ∀ c ∈ cs, c.Nonempty) :
    ∃ of, runChanges cs (Openfile.create remote) = some of ∧
      (of.newfile = false → of.modified = true → ∀ (buf : Bytes) (size offset : Nat),
        buf.length = size →
        (Reads (cs.foldl Change.apply remote) size offset (readModified of buf size offset) ↔
          Within of size offset)) := by
  obtain ⟨ht, hexact⟩ := Openfile.tracks_create remote
  obtain ⟨of, hrun, ht', hexact', -⟩ := ht.runChanges hcs
  refine ⟨of, hrun, fun hnew hmod buf size offset hbuf => ?_⟩
  cases ht' with
  | clean newfile modified remote initialsize currentsize datafile indexfile =>
    exact absurd hmod (by simp [modified])
  | new newfile datafile currentsize => exact absurd hnew (by simp [newfile])
  | modified newfile modified data records overlay =>
    exact readModified_iff overlay (hexact' hexact) hbuf

/-- A write in the middle, a cut before it and a write far behind the end. -/
theorem read_modified_exact_cut :
    ∃ of, runChanges [.write false [7, 8] 1, .ftruncate false 2, .write false [9] 6]
        (Openfile.create [65, 66, 67, 68]) = some of ∧
      of.newfile = false ∧ of.modified = true ∧ ∀ (buf : Bytes) (size offset : Nat),
        buf.length = size →
        (Reads [65, 7, 0, 0, 0, 0, 9] size offset (readModified of buf size offset) ↔
          Within of size offset) := by
  have hkind : ∀ of ∈ runChanges [.write false [7, 8] 1, .ftruncate false 2, .write false [9] 6]
      (Openfile.create [65, 66, 67, 68]), of.newfile = false ∧ of.modified = true := by
    decide
  obtain ⟨of, hrun, hreads⟩ := read_modified_exact [65, 66, 67, 68]
    [.write false [7, 8] 1, .ftruncate false 2, .write false [9] 6] (by simp [Change.Nonempty])
  obtain ⟨hnew, hmod⟩ := hkind of hrun
  exact ⟨of, hrun, hnew, hmod, hreads hnew hmod⟩

/-- A file of four bytes that is cut to two is read with all four. -/
theorem read_past_cut :
    ∃ of, runChanges [.ftruncate false 2] (Openfile.create [65, 66, 67, 68]) = some of ∧
      of.newfile = false ∧ of.modified = true ∧
      readModified of [0, 0, 0, 0] 4 0 = some (4, [65, 66, 67, 68]) ∧
      ¬Reads [65, 66] 4 0 (readModified of [0, 0, 0, 0] 4 0) := by
  refine ⟨_, rfl, rfl, rfl, by decide, ?_⟩
  rintro ⟨buf, hread, -⟩
  rw [show readModified _ [0, 0, 0, 0] 4 0 = some (4, [65, 66, 67, 68]) by decide] at hread
  have hcount : 4 = min 4 (2 - 0) := congrArg Prod.fst (Option.some.inj hread)
  exact absurd hcount (by decide)

end PcloudClient.Pfs
