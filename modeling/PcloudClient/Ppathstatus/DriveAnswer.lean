/-
  Ppathstatus/DriveAnswer.lean --- what the status of a path of the drive is to be, by the names of
  files and folders as the user sees them, and what a pass returns instead.
-/
import PcloudClient.Ppathstatus.DriveStatus

set_option autoImplicit false

namespace PcloudClient.Ppathstatus.DriveStatus

open PcloudClient.Crypto

namespace World

variable {w : World} {f g : FolderId} {n name : Name} {inner : List Name} {c : PathCache}

/-! ## Names and answers -/

/-- A name as the tables and the tasks of the folder have it. -/
def stored (w : World) (f : FolderId) (n : Name) : Name :=
  if w.encrypted f then encodeFilename (w.encoder f) n else n

/-- The same hierarchy and tasks with unencrypted names. -/
def plain (w : World) : World :=
  { w with
    folder := fun f n => w.folder f (w.stored f n)
    file := fun f n => w.file f (w.stored f n)
    encrypted := fun _ => false
    fstask := fun f => (w.fstask f).map fun t =>
      ⟨fun n => t.mkdirs (w.stored f n), fun n => t.creats (w.stored f n),
        fun n => t.rmdirs (w.stored f n), fun n => t.unlinks (w.stored f n)⟩ }

/-- The same tables and tasks as if no folder was encrypted: names are looked up as they are. -/
def raw (w : World) : World := { w with encrypted := fun _ => false }

def mkdir (w : World) (f : FolderId) (n : Name) : Bool := (w.fstask f).any (·.mkdirs (w.stored f n))

def creat (w : World) (f : FolderId) (n : Name) : Bool := (w.fstask f).any (·.creats (w.stored f n))

def rmdir (w : World) (f : FolderId) (n : Name) : Bool := (w.fstask f).any (·.rmdirs (w.stored f n))

def unlink (w : World) (f : FolderId) (n : Name) : Bool :=
  (w.fstask f).any (·.unlinks (w.stored f n))

/-- The status of a folder. -/
def folderStatus (w : World) (f : FolderId) : Status := if w.busy f then w.inProg else .inSync

/-- The status of what has the name in the folder. -/
def lastStatus (w : World) (f : FolderId) (n : Name) : Status :=
  if w.mkdir f n ∨ w.creat f n then w.inProg
  else
    match w.folder f (w.stored f n) with
    | some g => if w.rmdir f n then .notFound else w.folderStatus g
    | none =>
      if w.unlink f n then .notFound
      else if (w.file f (w.stored f n)).isSome then .inSync else .notFound

/-- The status of a path from a folder with tasks on. -/
def statusAt (w : World) : FolderId → List Name → Name → Status
  | f, [], name => if name = [] then w.folderStatus f else w.lastStatus f name
  | f, n :: inner, name =>
    if w.mkdir f n then w.inProg
    else if w.rmdir f n then .notFound
    else
      match w.folder f (w.stored f n) with
      | none => .notFound
      | some g => if w.busy g then w.statusAt g inner name else .inSync

/-- Along the folders with tasks, a name of an encrypted folder is looked up. -/
def looksAt (w : World) : FolderId → List Name → Name → Bool
  | f, [], name => name ≠ [] ∧ w.encrypted f
  | f, n :: inner, name =>
    w.encrypted f ||
      (! w.mkdir f n && ! w.rmdir f n &&
        match w.folder f (w.stored f n) with
        | none => false
        | some g => w.busy g && w.looksAt g inner name)

/-- The status of a path. -/
def statusOf (w : World) (path : Bytes) : Status :=
  if w.busy 0 then w.statusAt 0 (components path).1 (components path).2 else .inSync

def LooksEncrypted (w : World) (path : Bytes) : Prop :=
  w.busy 0 = true ∧ w.looksAt 0 (components path).1 (components path).2 = true

/-- The folder has a pending creat or mkdir in it or below it. -/
inductive Below (w : World) : FolderId → Prop where
  | mkdir {f : FolderId} {t : FolderTasks} {n : Name} (tasks : w.fstask f = some t)
      (found : t.mkdirs n = true) : Below w f
  | creat {f : FolderId} {t : FolderTasks} {n : Name} (tasks : w.fstask f = some t)
      (found : t.creats n = true) : Below w f
  | folder {f g : FolderId} {n : Name} (row : w.folder f n = some g) (below : Below w g) : Below w f

/-- The path has a pending creat or mkdir itself, below it, or a pending mkdir above it. -/
inductive Pending (w : World) : FolderId → List Name → Name → Prop where
  | above {f : FolderId} {n name : Name} {inner : List Name} (pending : w.mkdir f n = true) :
      Pending w f (n :: inner) name
  | mkdir {f : FolderId} {name : Name} (named : name ≠ []) (pending : w.mkdir f name = true) :
      Pending w f [] name
  | creat {f : FolderId} {name : Name} (named : name ≠ []) (pending : w.creat f name = true) :
      Pending w f [] name
  | here {f : FolderId} (below : Below w f) : Pending w f [] []
  | folder {f g : FolderId} {name : Name} (named : name ≠ [])
      (row : w.folder f (w.stored f name) = some g) (below : Below w g) : Pending w f [] name
  | inner {f g : FolderId} {n name : Name} {inner : List Name}
      (row : w.folder f (w.stored f n) = some g) (rest : Pending w g inner name) :
      Pending w f (n :: inner) name

/-- The tables and the tasks belong together: the top is not encrypted, a name is that of a folder
or of a file, and the folders with a creat or a mkdir in them or below them are marked. -/
structure Marked (w : World) : Prop where
  top : w.encrypted 0 = false
  unique : ∀ f n g, w.folder f n = some g → w.file f n = none
  own : ∀ f t n, w.fstask f = some t → t.mkdirs n = true ∨ t.creats n = true → w.busy f = true
  up : ∀ f n g, w.folder f n = some g → w.busy g = true → w.busy f = true

section inner

variable (hmkdir : w.mkdir f n = false) (hrmdir : w.rmdir f n = false)

include hmkdir hrmdir

theorem statusAt_none (hrow : w.folder f (w.stored f n) = none) :
    w.statusAt f (n :: inner) name = .notFound := by
  rw [statusAt, if_neg (by simp [hmkdir]), if_neg (by simp [hrmdir])]
  simp only [hrow]

theorem statusAt_some (hrow : w.folder f (w.stored f n) = some g) :
    w.statusAt f (n :: inner) name = if w.busy g then w.statusAt g inner name else .inSync := by
  rw [statusAt, if_neg (by simp [hmkdir]), if_neg (by simp [hrmdir])]
  simp only [hrow]

theorem looksAt_some (hrow : w.folder f (w.stored f n) = some g) :
    w.looksAt f (n :: inner) name = (w.encrypted f || (w.busy g && w.looksAt g inner name)) := by
  simp [looksAt, hmkdir, hrmdir, hrow]

end inner

theorem looksAt_of_encrypted (henc : w.encrypted f = true) :
    w.looksAt f (n :: inner) name = true := by
  simp [looksAt, henc]

/-! ## Pending tasks and the answer -/

theorem inProg_ne_inSync (w : World) : w.inProg ≠ .inSync := by
  unfold inProg
  split <;> decide

theorem Below.busy (h : w.Marked) (hbelow : Below w f) : w.busy f = true := by
  induction hbelow with
  | mkdir tasks found => exact h.own _ _ _ tasks (.inl found)
  | creat tasks found => exact h.own _ _ _ tasks (.inr found)
  | folder row _ ih => exact h.up _ _ _ row ih

theorem busy_of_mkdir (h : w.Marked) (hpending : w.mkdir f n = true) : w.busy f = true := by
  obtain ⟨t, ht, hfound⟩ := (Option.any_eq_true _ _).mp hpending
  exact h.own f t _ ht (.inl hfound)

theorem busy_of_creat (h : w.Marked) (hpending : w.creat f n = true) : w.busy f = true := by
  obtain ⟨t, ht, hfound⟩ := (Option.any_eq_true _ _).mp hpending
  exact h.own f t _ ht (.inr hfound)

theorem Pending.busy (h : w.Marked) (hpending : Pending w f inner name) : w.busy f = true := by
  induction hpending with
  | above pending => exact busy_of_mkdir h pending
  | mkdir _ pending => exact busy_of_mkdir h pending
  | creat _ pending => exact busy_of_creat h pending
  | here below => exact below.busy h
  | folder _ row below => exact h.up _ _ _ row (below.busy h)
  | inner row _ ih => exact h.up _ _ _ row ih

/-- No path with a pending creat or mkdir is in sync. -/
theorem Pending.statusAt_ne (h : w.Marked) (hpending : Pending w f inner name) :
    w.statusAt f inner name ≠ .inSync := by
  induction hpending with
  | above pending =>
    rw [statusAt, if_pos pending]
    exact w.inProg_ne_inSync
  | mkdir named pending =>
    rw [statusAt, if_neg named, lastStatus, if_pos (.inl pending)]
    exact w.inProg_ne_inSync
  | creat named pending =>
    rw [statusAt, if_neg named, lastStatus, if_pos (.inr pending)]
    exact w.inProg_ne_inSync
  | here below =>
    rw [statusAt, if_pos rfl, folderStatus, if_pos (below.busy h)]
    exact w.inProg_ne_inSync
  | folder named row below =>
    rw [statusAt, if_neg named, lastStatus]
    simp only [row]
    split_ifs
    · exact w.inProg_ne_inSync
    · simp
    · rw [folderStatus, if_pos (below.busy h)]
      exact w.inProg_ne_inSync
  | inner row rest ih =>
    rw [statusAt, row]
    simp only [rest.busy h, if_true]
    split_ifs
    · exact w.inProg_ne_inSync
    · simp
    · exact ih

/-! ## The unencrypted hierarchy -/

@[simp] theorem plain_stored (w : World) (f : FolderId) (n : Name) : w.plain.stored f n = n := rfl

theorem plain_any (w : World) (f : FolderId) (n : Name) (find : FolderTasks → Name → Bool)
    (hfind : ∀ t, find ⟨fun n => t.mkdirs (w.stored f n), fun n => t.creats (w.stored f n),
      fun n => t.rmdirs (w.stored f n), fun n => t.unlinks (w.stored f n)⟩ n =
        find t (w.stored f n)) :
    (w.plain.fstask f).any (find · (w.plain.stored f n)) =
      (w.fstask f).any (find · (w.stored f n)) := by
  have hplain : w.plain.fstask f = (w.fstask f).map fun t =>
      ⟨fun n => t.mkdirs (w.stored f n), fun n => t.creats (w.stored f n),
        fun n => t.rmdirs (w.stored f n), fun n => t.unlinks (w.stored f n)⟩ := rfl
  rw [hplain, Option.any_map, plain_stored]
  cases w.fstask f with
  | none => rfl
  | some t => exact hfind t

theorem plain_mkdir (w : World) (f : FolderId) (n : Name) : w.plain.mkdir f n = w.mkdir f n :=
  w.plain_any f n FolderTasks.mkdirs fun _ => rfl

theorem plain_creat (w : World) (f : FolderId) (n : Name) : w.plain.creat f n = w.creat f n :=
  w.plain_any f n FolderTasks.creats fun _ => rfl

theorem plain_rmdir (w : World) (f : FolderId) (n : Name) : w.plain.rmdir f n = w.rmdir f n :=
  w.plain_any f n FolderTasks.rmdirs fun _ => rfl

theorem plain_unlink (w : World) (f : FolderId) (n : Name) : w.plain.unlink f n = w.unlink f n :=
  w.plain_any f n FolderTasks.unlinks fun _ => rfl

theorem plain_lastStatus (w : World) (f : FolderId) (n : Name) :
    w.plain.lastStatus f n = w.lastStatus f n := by
  unfold lastStatus
  rw [plain_mkdir, plain_creat, plain_rmdir, plain_unlink]
  rfl

theorem plain_statusAt (w : World) (f : FolderId) (inner : List Name) (name : Name) :
    w.plain.statusAt f inner name = w.statusAt f inner name := by
  induction inner generalizing f with
  | nil =>
    unfold statusAt
    rw [plain_lastStatus]
    rfl
  | cons n inner ih =>
    have hrow : w.plain.folder f (w.plain.stored f n) = w.folder f (w.stored f n) := rfl
    unfold statusAt
    rw [plain_mkdir, plain_rmdir, hrow]
    cases w.folder f (w.stored f n) with
    | none => rfl
    | some g =>
      simp only [ih g]
      rfl

theorem plain_looksAt (w : World) (f : FolderId) (inner : List Name) (name : Name) :
    w.plain.looksAt f inner name = false := by
  induction inner generalizing f with
  | nil => simp [looksAt, plain]
  | cons n inner ih =>
    unfold looksAt
    cases w.plain.folder f (w.plain.stored f n) with
    | none => simp [plain]
    | some g => simp [ih g, show w.plain.encrypted f = false from rfl]

/-! ## Names as they are -/

@[simp] theorem raw_stored (w : World) (f : FolderId) (n : Name) : w.raw.stored f n = n := rfl

theorem raw_marked (h : w.Marked) : w.raw.Marked := ⟨rfl, h.unique, h.own, h.up⟩

theorem raw_lastStatus (henc : w.encrypted f = false) (n : Name) :
    w.raw.lastStatus f n = w.lastStatus f n := by
  have hstored : w.stored f n = n := by simp [stored, henc]
  unfold lastStatus mkdir creat rmdir unlink
  rw [hstored]
  rfl

/-- Where no name of an encrypted folder is looked up, the status does not depend on encryption. -/
theorem raw_statusAt (hlooks : w.looksAt f inner name = false) :
    w.raw.statusAt f inner name = w.statusAt f inner name := by
  induction inner generalizing f with
  | nil =>
    unfold statusAt
    by_cases hname : name = []
    · rw [if_pos hname, if_pos hname]
      rfl
    · have henc : w.encrypted f = false := by simpa [looksAt, hname] using hlooks
      rw [if_neg hname, if_neg hname, raw_lastStatus henc]
  | cons n inner ih =>
    rw [looksAt, Bool.or_eq_false_iff] at hlooks
    obtain ⟨henc, hrest⟩ := hlooks
    have hstored : w.stored f n = n := by simp [stored, henc]
    have hmkdir : w.raw.mkdir f n = w.mkdir f n := by rw [mkdir, mkdir, hstored, raw_stored]; rfl
    have hrmdir : w.raw.rmdir f n = w.rmdir f n := by rw [rmdir, rmdir, hstored, raw_stored]; rfl
    have hrow : w.raw.folder f (w.raw.stored f n) = w.folder f (w.stored f n) := by
      rw [hstored, raw_stored]
      rfl
    cases hmk : w.mkdir f n with
    | true =>
      rw [statusAt, statusAt, hmkdir, hmk]
      rfl
    | false =>
      cases hrm : w.rmdir f n with
      | true =>
        rw [statusAt, statusAt, hmkdir, hmk, hrmdir, hrm]
        rfl
      | false =>
        rw [hmk] at hmkdir
        rw [hrm] at hrmdir
        cases hg : w.folder f (w.stored f n) with
        | none => rw [statusAt_none hmk hrm hg, statusAt_none hmkdir hrmdir (hrow.trans hg)]
        | some g =>
          rw [statusAt_some hmk hrm hg, statusAt_some hmkdir hrmdir (hrow.trans hg)]
          cases hbusy : w.busy g with
          | false => simp [raw, hbusy]
          | true =>
            have hnext : w.looksAt g inner name = false := by
              simpa [hmk, hrm, hg, hbusy] using hrest
            rw [ih hnext, show w.raw.busy g = true from hbusy]

theorem plain_marked (h : w.Marked) : w.plain.Marked where
  top := rfl
  unique f n g hrow := h.unique f _ g hrow
  own f t n ht hfound := by
    obtain ⟨t', ht', rfl⟩ := Option.map_eq_some_iff.mp ht
    exact h.own f t' _ ht' hfound
  up f n g hrow := h.up f _ g hrow

end World

end PcloudClient.Ppathstatus.DriveStatus
