/-
  Pfsfolder/Resolve.lean --- the two walks of `pfsfolder.c` from a path to a folder.

  Both functions run with the database read locked, so the tables, the pending tasks and the
  crypto session do not change under them.  A failed walk gives `cryptoerr`, which is 0 when
  the path was not found.
-/
import Mathlib.Data.List.TakeWhile
import PcloudClient.Pfstasks.Folders

set_option autoImplicit false

namespace PcloudClient.Pfsfolder

open Pfstasks

/-- The slash. -/
def SLASH : UInt8 := 47

/-- `PSYNC_PERM_ALL` -/
def PERM_ALL : UInt32 := 15

/-- What the walks read beside the tasks. -/
structure Env where
  /-- `psync_cloud_crypto_get_folder_encoder` and `psync_cloud_crypto_encode_filename`; an error
  is the number of the crypto error. -/
  encoder : FolderId → Except Nat (Name → Name)
  /-- `psync_fake_prefix` -/
  fake : Name
  /-- `psync_my_userid` -/
  myUserid : Nat
  /-- `SELECT id FROM sharedfolder WHERE userid=? AND folderid=?` -/
  sharedfolder : Nat → FolderId → Option UInt32

/-- `psync_fspath_t` -/
structure FsPath where
  folderid : FolderId
  name : Name
  shareid : UInt32
  permissions : UInt16
  flags : UInt16
  deriving DecidableEq, Repr

/-- The local variables of `psync_fsfolder_resolve_path`. -/
structure Walk where
  cfolderid : FolderId
  permissions : UInt32
  flags : UInt32
  shareid : UInt32
  deriving DecidableEq, Repr

/-- The folder that a walk has come to, with its flags: all that `psync_fsfolderid_by_path`
knows. -/
def Walk.place (w : Walk) : FolderId × UInt32 := (w.cfolderid, w.flags)

variable (env : Env) (st : State)

/-- `get_encname_for_folder` -/
def getEncnameForFolder (folderid : FolderId) (name : Name) : Except Nat Name :=
  match env.encoder folderid with
  | .error e => .error e
  | .ok enc => .ok (enc name)

/-- The name of a component in its folder: `ename`. -/
def nameInFolder (folderid : FolderId) (flags : UInt32) (name : Name) : Except Nat Name :=
  if isEncrypted flags then getEncnameForFolder env folderid name else .ok name

/-- `ret_folder_data` -/
def retFolderData (w : Walk) (name : Name) : Except Nat FsPath :=
  if isEncrypted w.flags && !env.fake.isPrefixOf name then
    match env.encoder w.cfolderid with
    | .error e => .error e
    | .ok enc => .ok ⟨w.cfolderid, enc name, w.shareid, w.permissions.toUInt16, w.flags.toUInt16⟩
  else .ok ⟨w.cfolderid, name, w.shareid, w.permissions.toUInt16, w.flags.toUInt16⟩

/-- `check_userid` -/
def checkUserid (userid : Nat) (folderid : FolderId) (shareid : UInt32) : UInt32 :=
  if userid = env.myUserid ∨ shareid ≠ 0 then shareid
  else (env.sharedfolder userid folderid).getD shareid

/-- One component of `psync_fsfolder_resolve_path`. -/
def resolveComponent (w : Walk) (name : Name) : Except Nat Walk :=
  match nameInFolder env w.cfolderid w.flags name with
  | .error e => .error e
  | .ok ename =>
    let row := st.db.findFolder w.cfolderid ename
    match st.getFolderTasksRdlocked w.cfolderid with
    | some folder =>
      match folder.findMkdir ename 0 with
      | some mk =>
        if isInvisible mk.flags then .error 0
        else .ok { w with cfolderid := mk.folderid, flags := mk.flags }
      | none =>
        match row with
        | none => .error 0
        | some row =>
          if (folder.findRmdir ename 0).isSome then .error 0
          else .ok ⟨row.id, w.permissions &&& row.permissions, row.flags,
            checkUserid env row.userid row.id w.shareid⟩
    | none =>
      match row with
      | none => .error 0
      | some row =>
        .ok ⟨row.id, row.permissions, row.flags, checkUserid env row.userid row.id w.shareid⟩

/-! ## Cutting a path at its slashes -/

/-- `while (*path=='/') path++` -/
def skipSlashes (path : Bytes) : Bytes := path.dropWhile (· = SLASH)

/-- The path up to the next slash. -/
def component (path : Bytes) : Name := path.takeWhile (· ≠ SLASH)

/-- The path from the next slash on; nothing when `strchr(path, '/')` is `NULL`. -/
def rest (path : Bytes) : Bytes := path.dropWhile (· ≠ SLASH)

theorem length_rest_lt {path : Bytes} (h : skipSlashes path ≠ []) :
    (rest (skipSlashes path)).length < path.length := by
  have hle : (skipSlashes path).length ≤ path.length := (List.dropWhile_sublist _).length_le
  obtain ⟨x, tail, hx⟩ := List.exists_cons_of_ne_nil h
  have hhead : x ≠ SLASH := by
    have := List.head?_dropWhile_not (· = SLASH) path
    rw [← skipSlashes, hx] at this
    simpa using this
  have hrest : (rest tail).length ≤ tail.length := (List.dropWhile_sublist _).length_le
  rw [hx] at hle ⊢
  rw [rest, List.dropWhile_cons_of_pos (by simpa using hhead), ← rest]
  rw [List.length_cons] at hle
  omega

theorem component_append_rest (path : Bytes) : component path ++ rest path = path :=
  List.takeWhile_append_dropWhile

/-- The loop of `psync_fsfolder_resolve_path`. -/
def resolveLoop (w : Walk) (path : Bytes) : Except Nat FsPath :=
  if _h : skipSlashes path = [] then .error 0
  else if rest (skipSlashes path) = [] then retFolderData env w (skipSlashes path)
  else
    match resolveComponent env st w (component (skipSlashes path)) with
    | .error e => .error e
    | .ok w => resolveLoop w (rest (skipSlashes path))
termination_by path.length
decreasing_by exact length_rest_lt _h

/-- `psync_fsfolder_resolve_path` -/
def resolvePath (path : Bytes) : Except Nat FsPath :=
  if path.head? = some SLASH then resolveLoop env st ⟨0, PERM_ALL, 0, 0⟩ path else .error 0

/-- One component of `psync_fsfolderid_by_path`. -/
def byPathComponent (c : FolderId × UInt32) (name : Name) : Except Nat (FolderId × UInt32) :=
  match nameInFolder env c.1 c.2 name with
  | .error e => .error e
  | .ok ename =>
    let row := st.db.findFolder c.1 ename
    match st.getFolderTasksRdlocked c.1 with
    | some folder =>
      match folder.findMkdir ename 0 with
      | some mk => .ok (mk.folderid, mk.flags)
      | none =>
        match row with
        | none => .error 0
        | some row =>
          if (folder.findRmdir ename 0).isSome then .error 0 else .ok (row.id, row.flags)
    | none =>
      match row with
      | none => .error 0
      | some row => .ok (row.id, row.flags)

/-- The loop of `psync_fsfolderid_by_path`. -/
def byPathLoop (c : FolderId × UInt32) (path : Bytes) : Except Nat (FolderId × UInt32) :=
  if _h : skipSlashes path = [] then .ok c
  else
    match byPathComponent env st c (component (skipSlashes path)) with
    | .error e => .error e
    | .ok c => byPathLoop c (rest (skipSlashes path))
termination_by path.length
decreasing_by exact length_rest_lt _h

/-- `psync_fsfolderid_by_path`, with the flags it stores; an error is
`PSYNC_INVALID_FSFOLDERID`. -/
def fsfolderidByPath (path : Bytes) : Except Nat (FolderId × UInt32) :=
  if path.head? = some SLASH then byPathLoop env st (0, 0) path else .error 0

/-! ## The components of a path -/

/-- The names between the slashes of a path. -/
def components (path : Bytes) : List Name :=
  if _h : skipSlashes path = [] then []
  else component (skipSlashes path) :: components (rest (skipSlashes path))
termination_by path.length
decreasing_by exact length_rest_lt _h

/-- The path does not end in a slash. -/
def EndsInName (path : Bytes) : Prop := path.getLast? ≠ some SLASH

instance (path : Bytes) : Decidable (EndsInName path) :=
  inferInstanceAs (Decidable (path.getLast? ≠ some SLASH))

theorem components_of_skip {path : Bytes} (h : skipSlashes path = []) : components path = [] := by
  rw [components, dif_pos h]

theorem components_of_ne {path : Bytes} (h : skipSlashes path ≠ []) :
    components path = component (skipSlashes path) :: components (rest (skipSlashes path)) := by
  rw [components, dif_neg h]

/-- `psync_fsfolderid_by_path` goes through the components one by one. -/
theorem byPathLoop_eq (c : FolderId × UInt32) (path : Bytes) :
    byPathLoop env st c path = (components path).foldlM (byPathComponent env st) c := by
  fun_induction byPathLoop env st c path with
  | case1 c path h => rw [components_of_skip h]; rfl
  | case2 c path h e herr =>
    rw [components_of_ne h, List.foldlM_cons, herr]
    rfl
  | case3 c path h c' hok ih =>
    rw [components_of_ne h, List.foldlM_cons, hok, ih]
    rfl

theorem getLast?_of_append {a b path : Bytes} (h : a ++ b = path) (hne : b ≠ []) :
    b.getLast? = path.getLast? := by
  rw [← h, List.getLast?_append_of_ne_nil _ hne]

theorem getLast?_skipSlashes {path : Bytes} (h : skipSlashes path ≠ []) :
    (skipSlashes path).getLast? = path.getLast? :=
  getLast?_of_append List.takeWhile_append_dropWhile h

theorem getLast?_rest {path : Bytes} (h : rest path ≠ []) : (rest path).getLast? = path.getLast? :=
  getLast?_of_append (component_append_rest path) h

theorem EndsInName.rest {path : Bytes} (hend : EndsInName path) (h : skipSlashes path ≠ [])
    (hlast : Pfsfolder.rest (skipSlashes path) ≠ []) :
    EndsInName (Pfsfolder.rest (skipSlashes path)) := by
  rwa [EndsInName, getLast?_rest hlast, getLast?_skipSlashes h]

theorem components_ne_nil {path : Bytes} (hne : path ≠ []) (hend : EndsInName path) :
    components path ≠ [] := by
  have hskip : skipSlashes path ≠ [] := by
    intro hnil
    have hall : ∀ x ∈ path, x = SLASH := by simpa [skipSlashes] using hnil
    refine hend ?_
    rw [List.getLast?_eq_some_getLast hne, hall _ (List.getLast_mem hne)]
  rw [components_of_ne hskip]
  exact List.cons_ne_nil _ _

/-- `psync_fsfolder_resolve_path` goes through all components but the last one. -/
theorem resolveLoop_eq (w : Walk) {path : Bytes} {names : List Name} {name : Name}
    (hnames : components path = names ++ [name]) (hend : EndsInName path) :
    resolveLoop env st w path =
      names.foldlM (resolveComponent env st) w >>= fun w => retFolderData env w name := by
  induction w, path using resolveLoop.induct env st generalizing names with
  | case1 w path h =>
    rw [components_of_skip h] at hnames
    exact absurd hnames (by simp)
  | case2 w path h hlast =>
    have htake := component_append_rest (skipSlashes path)
    rw [hlast, List.append_nil] at htake
    rw [components_of_ne h, hlast, components_of_skip rfl, htake] at hnames
    obtain ⟨rfl, hname⟩ := List.append_inj' (show [] ++ [_] = names ++ [name] from hnames) rfl
    rw [resolveLoop, dif_neg h, if_pos hlast, (List.cons.inj hname).1]
    rfl
  | case3 w path h hlast e herr =>
    rw [components_of_ne h] at hnames
    cases names with
    | nil => exact absurd (List.cons.inj hnames).2 (components_ne_nil hlast (hend.rest h hlast))
    | cons n names =>
      obtain ⟨rfl, -⟩ := List.cons.inj hnames
      rw [resolveLoop, dif_neg h, if_neg hlast, List.foldlM_cons, herr]
      rfl
  | case4 w path h hlast w' hok ih =>
    rw [components_of_ne h] at hnames
    cases names with
    | nil => exact absurd (List.cons.inj hnames).2 (components_ne_nil hlast (hend.rest h hlast))
    | cons n names =>
      obtain ⟨rfl, hrest⟩ := List.cons.inj hnames
      rw [resolveLoop, dif_neg h, if_neg hlast, List.foldlM_cons, hok]
      exact ih hrest (hend.rest h hlast)

/-- A path that ends in a slash is resolved to nothing. -/
theorem resolveLoop_slash (w : Walk) {path : Bytes} (hend : path.getLast? = some SLASH) :
    ∃ e, resolveLoop env st w path = .error e := by
  induction w, path using resolveLoop.induct env st with
  | case1 w path h => exact ⟨0, by rw [resolveLoop, dif_pos h]⟩
  | case2 w path h hlast =>
    rw [← getLast?_skipSlashes h] at hend
    have hall : ∀ x ∈ skipSlashes path, x ≠ SLASH := by simpa [rest] using hlast
    exact absurd rfl (hall _ (List.mem_of_getLast? hend))
  | case3 w path h hlast e herr =>
    exact ⟨e, by rw [resolveLoop, dif_neg h, if_neg hlast, herr]⟩
  | case4 w path h hlast w' hok ih =>
    obtain ⟨e, he⟩ := ih (by rw [getLast?_rest hlast, getLast?_skipSlashes h, hend])
    exact ⟨e, by rw [resolveLoop, dif_neg h, if_neg hlast, hok]; exact he⟩

end PcloudClient.Pfsfolder
