/-
  Plocalscan/RenamePairs.lean --- how `scanner_scan` finds renames: deleted and new entries that
  the comparisons of `plocalscan.c` do not tell apart.

  A folder is known by its device and its inode, but `compare_inode` only looks at the inode.  Both
  comparisons take the sign of a difference of unsigned numbers of 64 bits, which is an order only
  on values that are less than half a turn apart.
-/
import PcloudClient.Foundation.Bytes
import PcloudClient.Plist.Pairing

set_option autoImplicit false

namespace PcloudClient.Plocalscan

open PcloudClient.Plist

/-- `sync_folderlist` -/
structure Entry where
  localid : Nat
  remoteid : Nat
  localparentfolderid : Nat
  parentfolderid : Nat
  inode : BitVec 64
  deviceid : BitVec 64
  mtimenat : BitVec 64
  size : BitVec 64
  syncid : Nat
  synctype : Nat
  isfolder : Bool
  name : Bytes
  deriving DecidableEq, Repr

/-- `compare_sizeinodemtime` -/
def compareSizeinodemtime (f1 f2 : Entry) : Int :=
  let d := (f1.size - f2.size).toInt
  if d < 0 then -1
  else if d > 0 then 1
  else
    let d := (f1.inode - f2.inode).toInt
    if d < 0 then -1
    else if d > 0 then 1
    else
      let d := (f1.mtimenat - f2.mtimenat).toInt
      if d < 0 then -1
      else if d > 0 then 1
      else 0

/-- `compare_inode` -/
def compareInode (f1 f2 : Entry) : Int :=
  let d := (f1.inode - f2.inode).toInt
  if d < 0 then -1
  else if d > 0 then 1
  else 0

/-- The renames of folders that one turn of the loop of `scanner_scan` finds in
`SCAN_LIST_DELFOLDERS` and `SCAN_LIST_NEWFOLDERS`. -/
def renamedFolders (del new : List Entry) : Extracted Entry :=
  listExtractRepeating compareInode del new [] []

/-- The renames of files that `scanner_scan` finds in `SCAN_LIST_DELFILES` and
`SCAN_LIST_NEWFILES`. -/
def renamedFiles (del new : List Entry) : Extracted Entry :=
  listExtractRepeating compareSizeinodemtime del new [] []

/-- What tells folders apart. -/
def Entry.folderIdentity (e : Entry) : BitVec 64 × BitVec 64 := (e.deviceid, e.inode)

/-- What tells files apart. -/
def Entry.fileIdentity (e : Entry) : BitVec 64 × BitVec 64 × BitVec 64 :=
  (e.size, e.inode, e.mtimenat)

/-- The pairs are of one identity, there are as many as the two lists have in common, and every
entry is in one pair or left on its list. -/
structure Paired {ι : Type} [DecidableEq ι] (identity : Entry → ι) (del new : List Entry)
    (r : Extracted Entry) : Prop where
  same : List.Forall₂ (fun a b => identity a = identity b) r.extracted1 r.extracted2
  count : (r.extracted1.map identity : Multiset ι) =
    (del.map identity : Multiset ι) ∩ (new.map identity : Multiset ι)
  del : (r.rest1 ++ r.extracted1).Perm del
  new : (r.rest2 ++ r.extracted2).Perm new

/-! ## Differences of 64 bits -/

/-- Less than half a turn after `c`. -/
def After (c v : BitVec 64) : Prop := (v - c).toNat < 2 ^ 63

/-- The difference of two values of one half turn. -/
theorem toInt_sub_of_after {c v w : BitVec 64} (hv : After c v) (hw : After c w) :
    (v - w).toInt = ((v - c).toNat : Int) - (w - c).toNat := by
  have hv' := v.isLt
  have hw' := w.isLt
  have hc' := c.isLt
  simp only [After, BitVec.toInt_eq_toNat_cond, BitVec.toNat_sub] at *
  split <;> omega

theorem toNat_sub_inj {c v w : BitVec 64} : (v - c).toNat = (w - c).toNat ↔ v = w := by
  refine ⟨fun h => BitVec.eq_of_toNat_eq ?_, fun h => by rw [h]⟩
  have hv := v.isLt
  have hw := w.isLt
  simp only [BitVec.toNat_sub] at h
  omega

/-- The inodes of the entries are less than half a turn apart. -/
def InodesOrdered (es : List Entry) : Prop := ∃ c, ∀ e ∈ es, After c e.inode

/-- So are the sizes, the inodes of files of one size, and the times of files of one size and
inode. -/
def FilesOrdered (es : List Entry) : Prop :=
  (∃ c, ∀ e ∈ es, After c e.size) ∧
  (∀ size, ∃ c, ∀ e ∈ es, e.size = size → After c e.inode) ∧
  ∀ size inode, ∃ c, ∀ e ∈ es, e.size = size → e.inode = inode → After c e.mtimenat

theorem compares_inode {es : List Entry} {c : BitVec 64} (h : ∀ e ∈ es, After c e.inode) :
    Compares compareInode (fun e => (e.inode - c).toNat) fun e => e ∈ es := by
  constructor
  all_goals
    intro a b ha hb
    have hd := toInt_sub_of_after (h a ha) (h b hb)
    simp only [compareInode, hd]
    split <;> [skip; split] <;> omega

/-- The key of a file, with the starts of the half turns. -/
def fileKey (c : BitVec 64) (c' : BitVec 64 → BitVec 64) (c'' : BitVec 64 → BitVec 64 → BitVec 64)
    (e : Entry) : Nat ×ₗ Nat ×ₗ Nat :=
  toLex ((e.size - c).toNat, toLex ((e.inode - c' e.size).toNat,
    (e.mtimenat - c'' e.size e.inode).toNat))

theorem compares_sizeinodemtime {es : List Entry} {c : BitVec 64} {c' : BitVec 64 → BitVec 64}
    {c'' : BitVec 64 → BitVec 64 → BitVec 64} (h : ∀ e ∈ es, After c e.size)
    (h' : ∀ size, ∀ e ∈ es, e.size = size → After (c' size) e.inode)
    (h'' : ∀ size inode, ∀ e ∈ es, e.size = size → e.inode = inode →
      After (c'' size inode) e.mtimenat) :
    Compares compareSizeinodemtime (fileKey c c' c'') fun e => e ∈ es := by
  have hsign : ∀ a ∈ es, ∀ b ∈ es,
      (compareSizeinodemtime a b < 0 ↔ fileKey c c' c'' a < fileKey c c' c'' b) ∧
      (0 < compareSizeinodemtime a b ↔ fileKey c c' c'' b < fileKey c c' c'' a) := by
    intro a ha b hb
    have hsize := toInt_sub_of_after (h a ha) (h b hb)
    simp only [compareSizeinodemtime, fileKey, Prod.Lex.toLex_lt_toLex, hsize]
    rcases lt_trichotomy (a.size - c).toNat (b.size - c).toNat with hlt | heq | hgt
    · rw [if_pos (by omega)]
      omega
    · have hs : a.size = b.size := toNat_sub_inj.1 heq
      rw [if_neg (by omega), if_neg (by omega)]
      have hinode := toInt_sub_of_after (h' a.size a ha rfl) (h' a.size b hb hs.symm)
      simp only [heq, lt_irrefl, false_or, true_and, ← hs, hinode]
      rcases lt_trichotomy (a.inode - c' a.size).toNat (b.inode - c' a.size).toNat with
        hlt' | heq' | hgt'
      · rw [if_pos (by omega)]
        omega
      · have hi : a.inode = b.inode := toNat_sub_inj.1 heq'
        rw [if_neg (by omega), if_neg (by omega)]
        have hmtime := toInt_sub_of_after (h'' a.size a.inode a ha rfl rfl)
          (h'' a.size a.inode b hb hs.symm hi.symm)
        simp only [heq', lt_irrefl, false_or, true_and, ← hi, hmtime]
        split <;> [skip; split] <;> omega
      · rw [if_neg (by omega), if_pos (by omega)]
        omega
    · rw [if_neg (by omega), if_pos (by omega)]
      omega
  exact ⟨fun a b ha hb => (hsign a ha b hb).1, fun a b ha hb => (hsign a ha b hb).2⟩

/-! ## Identities -/

theorem toInt_sub_eq_zero {v w : BitVec 64} : (v - w).toInt = 0 ↔ v = w := by
  have hv := v.isLt
  have hw := w.isLt
  refine ⟨fun h => BitVec.eq_of_toNat_eq ?_, fun h => by simp [h]⟩
  simp only [BitVec.toInt_eq_toNat_cond, BitVec.toNat_sub] at h
  split at h <;> omega

theorem compareInode_eq_zero {a b : Entry} : compareInode a b = 0 ↔ a.inode = b.inode := by
  rw [← toInt_sub_eq_zero]
  simp only [compareInode]
  split <;> [skip; split] <;> omega

theorem compareSizeinodemtime_eq_zero {a b : Entry} :
    compareSizeinodemtime a b = 0 ↔ a.fileIdentity = b.fileIdentity := by
  simp only [Entry.fileIdentity, Prod.mk.injEq, ← toInt_sub_eq_zero]
  simp only [compareSizeinodemtime]
  split <;> [skip; split <;>
    [skip; split <;> [skip; split <;> [skip; split <;> [skip; split]]]]] <;>
    omega

/-- Pairs of one identity that leave no identity on both lists are all there are. -/
theorem paired_of_rest {ι : Type} [DecidableEq ι] {identity : Entry → ι} {del new : List Entry}
    {r : Extracted Entry} (hdel : (r.rest1 ++ r.extracted1).Perm del)
    (hnew : (r.rest2 ++ r.extracted2).Perm new)
    (hsame : List.Forall₂ (fun a b => identity a = identity b) r.extracted1 r.extracted2)
    (hrest : ∀ a ∈ r.rest1, ∀ b ∈ r.rest2, identity a ≠ identity b) :
    Paired identity del new r := by
  refine ⟨hsame, ?_, hdel, hnew⟩
  have hmap : List.Forall₂ (· = ·) (r.extracted1.map identity) (r.extracted2.map identity) :=
    List.forall₂_map_left_iff.2 (List.forall₂_map_right_iff.2 hsame)
  rw [List.forall₂_eq_eq_eq] at hmap
  refine Multiset.ext.2 fun i => ?_
  have h1 := (hdel.map identity).count_eq i
  have h2 := (hnew.map identity).count_eq i
  rw [List.map_append, List.count_append] at h1 h2
  rw [Multiset.count_inter, Multiset.coe_count, Multiset.coe_count, Multiset.coe_count, ← h1, ← h2,
    ← hmap]
  have hnone : (r.rest1.map identity).count i = 0 ∨ (r.rest2.map identity).count i = 0 := by
    by_contra hboth
    rw [not_or, ← Ne, ← Ne, ← Nat.pos_iff_ne_zero, ← Nat.pos_iff_ne_zero, List.count_pos_iff,
      List.count_pos_iff, List.mem_map, List.mem_map] at hboth
    obtain ⟨⟨a, ha, rfl⟩, b, hb, heq⟩ := hboth
    exact hrest a ha b hb heq.symm
  omega

/-- Of each inode, the first deleted and the first new folders are on one device, as far as both
go. -/
def SameDevices (del new : List Entry) : Prop :=
  ∀ inode, ∀ p ∈ (del.filter fun e => e.inode = inode).zip (new.filter fun e => e.inode = inode),
    p.1.deviceid = p.2.deviceid

theorem files_paired {del new : List Entry} (h : FilesOrdered (del ++ new)) :
    Paired Entry.fileIdentity del new (renamedFiles del new) := by
  obtain ⟨⟨c, h1⟩, h2, h3⟩ := h
  choose c' h2 using h2
  choose c'' h3 using h3
  have hcmp := compares_sizeinodemtime h1 h2 h3
  have hdel : ∀ a ∈ del, a ∈ del ++ new := fun a ha => List.mem_append_left _ ha
  have hnew : ∀ a ∈ new, a ∈ del ++ new := fun a ha => List.mem_append_right _ ha
  obtain ⟨hperm1, hperm2, hpairs⟩ := listExtractRepeating_perm compareSizeinodemtime del new
  refine paired_of_rest hperm1 hperm2 (hpairs.imp fun a b => compareSizeinodemtime_eq_zero.1) ?_
  intro a ha b hb heq
  refine (listExtractRepeating_spec hcmp hdel hnew).2 a ha b hb ?_
  rw [← hcmp.eq (hdel a (hperm1.mem_iff.1 (List.mem_append_left _ ha)))
    (hnew b (hperm2.mem_iff.1 (List.mem_append_left _ hb)))]
  exact compareSizeinodemtime_eq_zero.2 heq

theorem folders_paired_iff {del new : List Entry} (h : InodesOrdered (del ++ new)) :
    Paired Entry.folderIdentity del new (renamedFolders del new) ↔ SameDevices del new := by
  obtain ⟨c, h⟩ := h
  have hcmp := compares_inode h
  have hdel : ∀ a ∈ del, a ∈ del ++ new := fun a ha => List.mem_append_left _ ha
  have hnew : ∀ a ∈ new, a ∈ del ++ new := fun a ha => List.mem_append_right _ ha
  obtain ⟨hperm1, hperm2, hpairs⟩ := listExtractRepeating_perm compareInode del new
  obtain ⟨hzip, hrest⟩ := listExtractRepeating_spec hcmp hdel hnew
  -- the pairs of an inode
  have hpair : ∀ a b, (a, b) ∈ (renamedFolders del new).extracted1.zip
      (renamedFolders del new).extracted2 ↔ (a, b) ∈
        (del.filter fun e => e.inode = a.inode).zip (new.filter fun e => e.inode = a.inode) := by
    intro a b
    have hk := hzip (a.inode - c).toNat
    simp only [toNat_sub_inj] at hk
    rw [← hk, List.mem_filter]
    simp [renamedFolders]
  constructor
  · rintro hpaired inode ⟨a, b⟩ hp
    have ha : a.inode = inode := by
      have := (List.mem_filter.1 (List.of_mem_zip hp).1).2
      simpa using this
    subst ha
    have hsame := (List.forall₂_iff_zip.1 hpaired.same).2 ((hpair a b).2 hp)
    exact congrArg Prod.fst hsame
  · intro hdevices
    refine paired_of_rest hperm1 hperm2 (List.forall₂_iff_zip.2 ⟨hpairs.length_eq, ?_⟩) ?_
    · intro a b hp
      have hinode := compareInode_eq_zero.1 ((List.forall₂_iff_zip.1 hpairs).2 hp)
      exact Prod.ext (hdevices a.inode (a, b) ((hpair a b).1 hp)) hinode
    · intro a ha b hb heq
      have hinode : a.inode = b.inode := congrArg Prod.snd heq
      exact hrest a ha b hb (by rw [hinode])

/-- With values less than half a turn apart, the renames that one turn of the loop finds among the
folders, and those that are found among the files after it, are right exactly if no inode is on two
devices where folders are paired. -/
theorem rename_pairs_iff {delfolders newfolders delfiles newfiles : List Entry}
    (hfolders : InodesOrdered (delfolders ++ newfolders))
    (hfiles : FilesOrdered (delfiles ++ newfiles)) :
    Paired Entry.folderIdentity delfolders newfolders (renamedFolders delfolders newfolders) ∧
        Paired Entry.fileIdentity delfiles newfiles (renamedFiles delfiles newfiles) ↔
      SameDevices delfolders newfolders := by
  rw [folders_paired_iff hfolders]
  exact and_iff_left (files_paired hfiles)

/-- Values below the half turn. -/
def Small (e : Entry) : Prop :=
  e.inode.toNat < 2 ^ 63 ∧ e.size.toNat < 2 ^ 63 ∧ e.mtimenat.toNat < 2 ^ 63

instance : DecidablePred Small := fun _ => inferInstanceAs (Decidable (_ ∧ _ ∧ _))

theorem after_zero {v : BitVec 64} : After 0 v ↔ v.toNat < 2 ^ 63 := by
  simp [After]

theorem inodesOrdered_of_small {es : List Entry} (h : ∀ e ∈ es, Small e) : InodesOrdered es :=
  ⟨0, fun e he => after_zero.2 (h e he).1⟩

theorem filesOrdered_of_small {es : List Entry} (h : ∀ e ∈ es, Small e) : FilesOrdered es :=
  ⟨⟨0, fun e he => after_zero.2 (h e he).2.1⟩, fun _ => ⟨0, fun e he _ => after_zero.2 (h e he).1⟩,
    fun _ _ => ⟨0, fun e he _ _ => after_zero.2 (h e he).2.2⟩⟩

/-- A folder or a file with these numbers. -/
def entryOf (isfolder : Bool) (deviceid inode size mtimenat : Nat) : Entry :=
  ⟨1, 0, 0, 0, .ofNat 64 inode, .ofNat 64 deviceid, .ofNat 64 mtimenat, .ofNat 64 size, 1, 3,
    isfolder, []⟩

/-- Folders on two devices; a hard link or a second sync gives two of them one inode. -/
def goneFolders : List Entry :=
  [entryOf true 1 5 0 0, entryOf true 2 9 0 0, entryOf true 1 5 0 0, entryOf true 1 3 0 0]

def comeFolders : List Entry :=
  [entryOf true 2 9 0 0, entryOf true 1 5 0 0, entryOf true 1 7 0 0, entryOf true 1 5 0 0,
    entryOf true 1 5 0 0]

def goneFiles : List Entry :=
  [entryOf false 0 7 10 21, entryOf false 0 7 10 20, entryOf false 0 8 4 20,
    entryOf false 0 7 10 20]

def comeFiles : List Entry :=
  [entryOf false 1 7 10 20, entryOf false 1 7 10 22, entryOf false 1 8 4 20]

/-- Of the folders two of inode 5 and that of inode 9 are paired, and three are left; of the files
one of two with the same numbers is paired. -/
theorem rename_pairs_iff_moved :
    Paired Entry.folderIdentity goneFolders comeFolders (renamedFolders goneFolders comeFolders) ∧
      Paired Entry.fileIdentity goneFiles comeFiles (renamedFiles goneFiles comeFiles) ∧
      (renamedFolders goneFolders comeFolders).extracted1.length = 3 ∧
      (renamedFolders goneFolders comeFolders).rest2 =
        [entryOf true 1 5 0 0, entryOf true 1 7 0 0] ∧
      (renamedFiles goneFiles comeFiles).extracted1 =
        [entryOf false 0 8 4 20, entryOf false 0 7 10 20] := by
  have hdevice : ∀ e ∈ goneFolders ++ comeFolders,
      e.deviceid = if e.inode = 9 then 2 else 1 := by
    decide
  have hsmall : InodesOrdered (goneFolders ++ comeFolders) ∧
      FilesOrdered (goneFiles ++ comeFiles) :=
    ⟨inodesOrdered_of_small (by decide), filesOrdered_of_small (by decide)⟩
  obtain ⟨hfolders, hfiles⟩ := (rename_pairs_iff hsmall.1 hsmall.2).2 fun inode p hp => by
      obtain ⟨h1, h2⟩ := List.of_mem_zip hp
      obtain ⟨h1, hi1⟩ := List.mem_filter.1 h1
      obtain ⟨h2, hi2⟩ := List.mem_filter.1 h2
      rw [hdevice _ (List.mem_append_left _ h1), hdevice _ (List.mem_append_right _ h2),
        of_decide_eq_true hi1, of_decide_eq_true hi2]
  exact ⟨hfolders, hfiles, by decide, by decide, by decide⟩

/-- Folders with one inode on two devices are taken for a rename; and of files with inodes
more than half a turn apart a renamed one is not found. -/
theorem rename_pairs_wrong :
    ¬Paired Entry.folderIdentity [entryOf true 1 5 0 0] [entryOf true 2 5 0 0]
        (renamedFolders [entryOf true 1 5 0 0] [entryOf true 2 5 0 0]) ∧
      ¬Paired Entry.fileIdentity
        [entryOf false 0 0 0 0, entryOf false 0 (2 ^ 63 - 1) 0 0, entryOf false 0 (2 ^ 64 - 2) 0 0]
        [entryOf false 0 (2 ^ 63 - 1) 0 0]
        (renamedFiles
          [entryOf false 0 0 0 0, entryOf false 0 (2 ^ 63 - 1) 0 0,
            entryOf false 0 (2 ^ 64 - 2) 0 0]
          [entryOf false 0 (2 ^ 63 - 1) 0 0]) := by
  constructor
  · intro h
    have hpair : (entryOf true 1 5 0 0, entryOf true 2 5 0 0) ∈
        (renamedFolders [entryOf true 1 5 0 0] [entryOf true 2 5 0 0]).extracted1.zip
          (renamedFolders [entryOf true 1 5 0 0] [entryOf true 2 5 0 0]).extracted2 := by
      decide
    exact absurd ((List.forall₂_iff_zip.1 h.same).2 hpair) (by decide)
  · intro h
    have hcount := congrArg Multiset.card h.count
    exact absurd hcount (by decide)

end PcloudClient.Plocalscan
