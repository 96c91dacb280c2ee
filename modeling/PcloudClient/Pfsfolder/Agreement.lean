/-
  Pfsfolder/Agreement.lean --- the two walks of `pfsfolder.c` come to the same folder.

  `psync_fsfolder_resolve_path` stops one component before `psync_fsfolderid_by_path` does,
  and gives the last component as a name in the folder it came to.  In an encrypted folder it
  has to encode that name, so it needs the folder's encoder one time more.  The other
  difference is that it does not go into a pending folder that is invisible.
-/
import PcloudClient.Foundation.Outcome
import PcloudClient.Pfsfolder.Resolve

set_option autoImplicit false

namespace PcloudClient.Pfsfolder

open Pfstasks

variable (env : Env) (st : State)

/-- `q` is a path to the folder that holds the last component `name` of `p`. -/
structure IsParent (q p : Bytes) (name : Name) : Prop where
  components : components p = components q ++ [name]
  absolute : q.head? = some SLASH ↔ p.head? = some SLASH

/-- The component is a pending mkdir that is invisible. -/
def hidden (c : FolderId × UInt32) (name : Name) : Bool :=
  match nameInFolder env c.1 c.2 name, st.getFolderTasksRdlocked c.1 with
  | .ok ename, some folder => ((folder.findMkdir ename 0).map Mkdir.flags).any isInvisible
  | _, _ => false

/-- No component on the way of `psync_fsfolderid_by_path` is an invisible mkdir. -/
def Visible (c : FolderId × UInt32) : List Name → Prop
  | [] => True
  | name :: names =>
    hidden env st c name = false ∧
      ∀ c', byPathComponent env st c name = .ok c' → Visible c' names

/-- Where the last name of a path can be had in its folder: outside of an encrypted folder,
for one of the client's own refresh files, or with the folder's encoder. -/
def Encodable (c : FolderId × UInt32) (name : Name) : Prop :=
  isEncrypted c.2 = true → env.fake.isPrefixOf name = false → ∃ enc, env.encoder c.1 = .ok enc

/-- The last component as `psync_fsfolder_resolve_path` gives it. -/
def lastName (c : FolderId × UInt32) (name : Name) : Except Nat Name :=
  if isEncrypted c.2 && !env.fake.isPrefixOf name then getEncnameForFolder env c.1
    name else .ok name

variable {env st}

/-- One component: the same branch in both functions. -/
theorem resolveComponent_place (w : Walk) (name : Name)
    (hvis : hidden env st w.place name = false) :
    (resolveComponent env st w name).map Walk.place = byPathComponent env st w.place name := by
  unfold resolveComponent byPathComponent Walk.place
  unfold hidden Walk.place at hvis
  cases hname : nameInFolder env w.cfolderid w.flags name with
  | error e => rfl
  | ok ename =>
    rw [hname] at hvis
    dsimp only at hvis ⊢
    cases hfolder : st.getFolderTasksRdlocked w.cfolderid with
    | none =>
      cases st.db.findFolder w.cfolderid ename with
      | none => rfl
      | some row => rfl
    | some folder =>
      rw [hfolder] at hvis
      dsimp only at hvis ⊢
      cases hmk : folder.findMkdir ename 0 with
      | some mk =>
        rw [hmk] at hvis
        have hshown : isInvisible mk.flags = false := by simpa using hvis
        dsimp only
        rw [hshown]
        rfl
      | none =>
        cases st.db.findFolder w.cfolderid ename with
        | none => rfl
        | some row =>
          dsimp only
          split <;> rfl

/-- All components but the last one. -/
theorem resolveComponents_place (names : List Name) (w : Walk)
    (hvis : Visible env st w.place names) :
    (names.foldlM (resolveComponent env st) w).map Walk.place =
      names.foldlM (byPathComponent env st) w.place := by
  induction names generalizing w with
  | nil => rfl
  | cons name names ih =>
    have hstep := resolveComponent_place w name hvis.1
    rw [List.foldlM_cons, List.foldlM_cons, ← hstep]
    cases hok : resolveComponent env st w name with
    | error e => rfl
    | ok w' =>
      refine ih w' (hvis.2 _ ?_)
      rw [← hstep, hok]
      rfl

theorem retFolderData_eq (w : Walk) (name : Name) :
    retFolderData env w name = (lastName env w.place name).map fun n =>
      ⟨w.cfolderid, n, w.shareid, w.permissions.toUInt16, w.flags.toUInt16⟩ := by
  unfold retFolderData lastName getEncnameForFolder Walk.place
  split
  · cases env.encoder w.cfolderid with
    | error e => rfl
    | ok enc => rfl
  · rfl

theorem encodable_iff (c : FolderId × UInt32) (name : Name) :
    Encodable env c name ↔ ∃ n, lastName env c name = .ok n := by
  unfold Encodable lastName getEncnameForFolder
  cases isEncrypted c.2 with
  | false => simp
  | true =>
    cases env.fake.isPrefixOf name with
    | true => simp
    | false =>
      cases env.encoder c.1 with
      | error e => simp
      | ok enc => simp

/-- The two resolvers agree: where no component on the way is an invisible pending mkdir, a
path that ends in a name is resolved exactly when its parent directory is found and the name
can be encoded there, and then to the folder and the flags of the parent directory, with the
last component as the name.  A path that ends in a slash is not resolved. -/
theorem resolvePath_agrees (env : Env) (st : State) (p q : Bytes) (name : Name)
    (hparent : IsParent q p name) (hvis : Visible env st (0, 0) (components q)) :
    (p.getLast? = some SLASH → ∃ e, resolvePath env st p = .error e) ∧
    (EndsInName p →
      ((∃ r, resolvePath env st p = .ok r) ↔
        ∃ c, fsfolderidByPath env st q = .ok c ∧ Encodable env c name) ∧
      ∀ r, resolvePath env st p = .ok r →
        ∃ flags, fsfolderidByPath env st q = .ok (r.folderid, flags) ∧ r.flags = flags.toUInt16 ∧
          lastName env (r.folderid, flags) name = .ok r.name) := by
  refine ⟨fun hslash => ?_, fun hend => ?_⟩
  · unfold resolvePath
    split
    · exact resolveLoop_slash env st _ hslash
    · exact ⟨0, rfl⟩
  · by_cases habs : p.head? = some SLASH
    · have hq : fsfolderidByPath env st q =
          ((components q).foldlM (resolveComponent env st) ⟨0, PERM_ALL, 0, 0⟩).map Walk.place := by
        rw [fsfolderidByPath, if_pos (hparent.absolute.mpr habs), byPathLoop_eq]
        exact (resolveComponents_place _ ⟨0, PERM_ALL, 0, 0⟩ hvis).symm
      rw [resolvePath, if_pos habs, resolveLoop_eq env st _ hparent.components hend, hq]
      cases (components q).foldlM (resolveComponent env st) ⟨0, PERM_ALL, 0, 0⟩ with
      | error e =>
        exact ⟨⟨(fun ⟨r, h⟩ => nomatch h), (fun ⟨c, h, _⟩ => nomatch h)⟩, fun r h => nomatch h⟩
      | ok w =>
        rw [ok_bind, retFolderData_eq]
        constructor
        · constructor
          · rintro ⟨r, hr⟩
            obtain ⟨n, hn, -⟩ := map_eq_ok hr
            exact ⟨w.place, rfl, (encodable_iff w.place name).mpr ⟨n, hn⟩⟩
          · rintro ⟨c, hc, henc⟩
            obtain rfl := Except.ok.inj hc
            obtain ⟨n, hn⟩ := (encodable_iff w.place name).mp henc
            exact ⟨_, by rw [hn]; rfl⟩
        · intro r hr
          obtain ⟨n, hn, rfl⟩ := map_eq_ok hr
          exact ⟨w.flags, rfl, rfl, hn⟩
    · have hfail : resolvePath env st p = .error 0 := if_neg habs
      have hfailq : fsfolderidByPath env st q = .error 0 :=
        if_neg fun h => habs (hparent.absolute.mp h)
      rw [hfail, hfailq]
      exact ⟨⟨(fun ⟨r, h⟩ => nomatch h), (fun ⟨c, h, _⟩ => nomatch h)⟩, fun r h => nomatch h⟩

/-- A drive with an encrypted folder `e` in its root, and no pending tasks. -/
def lockedDrive : State where
  folders := .nil
  nextAddr := 0
  db := ⟨[⟨5, 0, [101], 15, 1, 1, 0, 0, 0⟩], [], [], []⟩

/-- A client whose crypto session is not started. -/
def lockedEnv : Env := ⟨fun _ => .error 3, [46, 114], 1, fun _ _ => none⟩

/-- A client whose crypto session is started; the encoder puts a byte before each name. -/
def unlockedEnv : Env := ⟨fun _ => .ok (69 :: ·), [46, 114], 1, fun _ _ => none⟩

/-- With the session started, `/e/x` is the encoded `x` in the folder of `/e`. -/
theorem resolvePath_agrees_unlocked :
    IsParent [47, 101] [47, 101, 47, 120] [120] ∧
    Visible unlockedEnv lockedDrive (0, 0) (components [47, 101]) ∧
    fsfolderidByPath unlockedEnv lockedDrive [47, 101] = .ok (5, 1) ∧
    ∃ r, resolvePath unlockedEnv lockedDrive [47, 101, 47, 120] = .ok r := by
  have hparent : IsParent [47, 101] [47, 101, 47, 120] [120] := ⟨by decide +kernel, by decide⟩
  have hcomps : components [47, 101] = [[101]] := by decide +kernel
  have hvis : Visible unlockedEnv lockedDrive (0, 0) (components [47, 101]) := by
    rw [hcomps]
    exact ⟨by decide, fun _ _ => trivial⟩
  have hfound : fsfolderidByPath unlockedEnv lockedDrive [47, 101] = .ok (5, 1) := by decide +kernel
  have hagree := (resolvePath_agrees unlockedEnv lockedDrive [47, 101, 47, 120] [47, 101] [120]
    hparent hvis).2 (by decide)
  exact ⟨hparent, hvis, hfound, hagree.1.mpr ⟨(5, 1), hfound, fun _ _ => ⟨_, rfl⟩⟩⟩

/-- Without it the parent directory is found and the path is not resolved. -/
theorem resolvePath_locked :
    IsParent [47, 101] [47, 101, 47, 120] [120] ∧ EndsInName [47, 101, 47, 120] ∧
    fsfolderidByPath lockedEnv lockedDrive [47, 101] = .ok (5, 1) ∧
    resolvePath lockedEnv lockedDrive [47, 101, 47, 120] = .error 3 :=
  ⟨⟨by decide +kernel, by decide⟩, by decide, by decide +kernel, by decide +kernel⟩

end PcloudClient.Pfsfolder
