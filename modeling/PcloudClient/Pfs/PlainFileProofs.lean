/-
  Pfs/PlainFileProofs.lean --- where the bytes of an open file are.

  The bytes of a modified file are in its data file, at the positions of the index file, and in
  the remote revision everywhere else.
-/
import PcloudClient.Pfs.PlainFile

set_option autoImplicit false

namespace PcloudClient.Pfs

open PcloudClient.Foundation

/-! ## The index file -/

/-- The positions that the records of an index file have. -/
def recorded (records : List IndexRecord) : Set Nat :=
  {x | ∃ r ∈ records, r.offset ≤ x ∧ x < r.offset + r.length}

theorem recorded_append (records : List IndexRecord) (start len : Nat) :
    recorded (records ++ [⟨start, len⟩]) = recorded records ∪ Set.Ico start (start + len) := by
  ext x
  simp [recorded, or_and_right, exists_or]

/-- Loading an index file adds its positions to the tree. -/
theorem loadIntervalTree_eq {records : List IndexRecord} (hpos : ∀ r ∈ records, 0 < r.length)
    {tree : List (Span Nat)} (hsep : Intervals.Separated tree) :
    ∃ tree', loadIntervalTree records tree = some tree' ∧ Intervals.Separated tree' ∧
      Intervals.union tree' = Intervals.union tree ∪ recorded records := by
  induction records generalizing tree with
  | nil => exact ⟨tree, rfl, hsep, by simp [recorded]⟩
  | cons r records ih =>
    have hr : r.offset < r.offset + r.length := Nat.lt_add_of_pos_right (hpos r (by simp))
    obtain ⟨tree', hload, hsep', hunion⟩ :=
      ih (fun r' hr' => hpos r' (by simp [hr'])) (hsep.add hr)
    refine ⟨tree', ?_, hsep', ?_⟩
    · rw [loadIntervalTree, intervalTreeAdd, if_pos hr, Option.bind_some, hload]
    · rw [hunion, Intervals.union_add]
      ext x
      simp only [recorded, Set.mem_union, Set.mem_Ico, Set.mem_ofPred_eq, List.mem_cons,
        exists_eq_or_imp]
      tauto

theorem putRecord_length (records : List IndexRecord) (r : IndexRecord) :
    Openfile.putRecord records r records.length = records ++ [r] := by
  simp [Openfile.putRecord]

namespace Openfile

/-! ## What an open file holds -/

/-- A modified file with these bytes: `data` is its data file and `records` its index. -/
structure Overlay (of : Openfile) (content data : Bytes) (records : List IndexRecord) : Prop where
  datafile : of.datafile = some data
  indexfile : of.indexfile = some records
  indexoff : of.indexoff = records.length
  initialsize : of.initialsize = of.remote.length
  currentsize : of.currentsize = content.length
  length_data : data.length = content.length
  positive : ∀ r ∈ records, 0 < r.length
  /-- what is recorded is in the data file -/
  inside : ∀ x ∈ recorded records, data[x]? = content[x]?
  /-- everything else is remote -/
  outside : ∀ x < content.length, x ∉ recorded records → content[x]? = of.remote[x]? ∧
    x < of.remote.length
  /-- behind the remote revision there are no gaps -/
  solid : ∀ x ∈ recorded records, ∀ y, of.remote.length ≤ y → y ≤ x → y ∈ recorded records

/-- The positions that have been put into the data file since it was opened. -/
def present (of : Openfile) : Set Nat := of.indexfile.elim ∅ recorded

/-- `writeintervals` says where the bytes of the data file are. -/
structure TreeExact (of : Openfile) : Prop where
  separated : Intervals.Separated of.writeintervals
  union_eq : Intervals.union of.writeintervals = of.present

/-- The bytes of an open file, whatever it is. -/
inductive Tracks (of : Openfile) (content : Bytes) : Prop where
  | clean (newfile : of.newfile = false) (modified : of.modified = false)
      (remote : of.remote = content) (initialsize : of.initialsize = content.length)
      (currentsize : of.currentsize = content.length) (datafile : of.datafile = none)
      (indexfile : of.indexfile = none)
  | new (newfile : of.newfile = true) (datafile : of.datafile = some content)
      (currentsize : of.currentsize = content.length)
  | modified (newfile : of.newfile = false) (modified : of.modified = true) (data : Bytes)
      (records : List IndexRecord) (overlay : of.Overlay content data records)

section

variable {of : Openfile} {content data buf : Bytes} {records : List IndexRecord}
  {start stop size offset : Nat}

theorem recordRange_eq (hindex : of.indexfile = some records) (hoff : of.indexoff = records.length)
    (hlt : start < stop) :
    of.recordRange start stop = some { of with
      indexfile := some (records ++ [⟨start, stop - start⟩])
      indexoff := of.indexoff + 1
      writeintervals := Intervals.add start stop of.writeintervals } := by
  simp only [recordRange, hindex, intervalTreeAdd, if_pos hlt, Option.bind_eq_bind,
    Option.bind_some, hoff, putRecord_length]
  rfl

/-- Bytes are put into the data file, at the end or before it, and recorded. -/
theorem Overlay.put (ho : of.Overlay content data records) (hle : offset ≤ content.length)
    (hbuf : buf ≠ []) {of' : Openfile}
    (hdata : of'.datafile = some (File.pwrite data buf offset))
    (hindex : of'.indexfile = some (records ++ [⟨offset, buf.length⟩]))
    (hoff : of'.indexoff = of.indexoff + 1) (hinit : of'.initialsize = of.initialsize)
    (hremote : of'.remote = of.remote)
    (hsize : of'.currentsize = max content.length (offset + buf.length)) :
    of'.Overlay (File.pwrite content buf offset) (File.pwrite data buf offset)
      (records ++ [⟨offset, buf.length⟩]) := by
  have hlen := File.length_pwrite (f := content) (o := offset) hbuf
  have hpos : 0 < buf.length := List.length_pos_iff.mpr hbuf
  refine ⟨hdata, hindex, ?_, ?_, ?_, ?_, ?_, ?_, ?_, ?_⟩
  · rw [hoff, ho.indexoff, List.length_append, List.length_singleton]
  · rw [hinit, hremote, ho.initialsize]
  · rw [hsize, hlen]
  · rw [hlen, File.length_pwrite hbuf, ho.length_data]
  · intro r hr
    rcases List.mem_append.mp hr with hr | hr
    · exact ho.positive r hr
    · obtain rfl := List.mem_singleton.mp hr
      exact hpos
  · intro x hx
    rw [File.getElem?_pwrite hbuf, File.getElem?_pwrite hbuf]
    rw [recorded_append] at hx
    rcases hx with hx | ⟨hge, hlt⟩
    · rw [ho.inside x hx]
    · have hnot : ¬x < offset := by omega
      rw [if_neg hnot, if_neg hnot, if_pos hlt, if_pos hlt]
  · intro x hx hout
    rw [recorded_append, Set.mem_union, not_or, Set.mem_Ico] at hout
    have hx' : x < content.length := by omega
    rw [hremote, File.getElem?_pwrite hbuf]
    obtain ⟨hbyte, hin⟩ := ho.outside x hx' hout.1
    refine ⟨?_, hin⟩
    split
    · rw [← hbyte, List.getElem?_eq_getElem hx', Option.getD_some]
    · rw [if_neg (by omega), hbyte]
  · intro x hx y hy hyx
    rw [hremote] at hy
    rw [recorded_append] at hx ⊢
    rcases hx with hx | ⟨hge, hlt⟩
    · exact Or.inl (ho.solid x hx y hy hyx)
    · by_cases hy' : offset ≤ y
      · exact Or.inr ⟨hy', by omega⟩
      · left
        by_contra hout
        have hrange := (ho.outside y (by omega) hout).2
        omega

/-- The file is cut. -/
theorem Overlay.cut (ho : of.Overlay content data records) (hle : size ≤ content.length)
    {of' : Openfile} (hdata : of'.datafile = some (File.truncate data size))
    (hindex : of'.indexfile = of.indexfile) (hoff : of'.indexoff = of.indexoff)
    (hinit : of'.initialsize = of.initialsize) (hremote : of'.remote = of.remote)
    (hsize : of'.currentsize = size) :
    of'.Overlay (File.truncate content size) (File.truncate data size) records := by
  refine ⟨hdata, ?_, ?_, ?_, ?_, ?_, ho.positive, ?_, ?_, ?_⟩
  · rw [hindex, ho.indexfile]
  · rw [hoff, ho.indexoff]
  · rw [hinit, hremote, ho.initialsize]
  · rw [hsize, File.length_truncate]
  · rw [File.length_truncate, File.length_truncate]
  · intro x hx
    rw [File.getElem?_truncate, File.getElem?_truncate, ho.inside x hx]
  · intro x hx hout
    rw [File.length_truncate] at hx
    have hx' : x < content.length := by omega
    obtain ⟨hbyte, hin⟩ := ho.outside x hx' hout
    refine ⟨?_, hremote ▸ hin⟩
    rw [File.getElem?_truncate, if_pos hx, hremote, ← hbyte, List.getElem?_eq_getElem hx',
      Option.getD_some]
  · rw [hremote]
    exact ho.solid

/-- What a step on a modified file leaves: the bytes `content`, with the positions `added` in the
data file besides those that were there. -/
structure Steps (of : Openfile) (records : List IndexRecord) (added : Set Nat) (of' : Openfile)
    (content data : Bytes) (records' : List IndexRecord) : Prop where
  overlay : of'.Overlay content data records'
  newfile : of'.newfile = of.newfile
  modified : of'.modified = of.modified
  remote : of'.remote = of.remote
  recorded_eq : recorded records' = recorded records ∪ added
  /-- the tree keeps what it had and gets what the index gets -/
  union_eq : Intervals.union of'.writeintervals = Intervals.union of.writeintervals ∪ added
  separated : Intervals.Separated of.writeintervals → Intervals.Separated of'.writeintervals

theorem Overlay.steps_put (ho : of.Overlay content data records) (hle : offset ≤ content.length)
    (hbuf : buf ≠ []) {of' : Openfile}
    (hof : of' = { of with
      datafile := some (File.pwrite data buf offset)
      indexfile := some (records ++ [⟨offset, buf.length⟩])
      indexoff := of.indexoff + 1
      writeintervals := Intervals.add offset (offset + buf.length) of.writeintervals
      currentsize := max content.length (offset + buf.length) }) :
    of.Steps records (Set.Ico offset (offset + buf.length)) of' (File.pwrite content buf offset)
      (File.pwrite data buf offset) (records ++ [⟨offset, buf.length⟩]) := by
  have hlt : offset < offset + buf.length :=
    Nat.lt_add_of_pos_right (List.length_pos_iff.mpr hbuf)
  subst hof
  refine ⟨ho.put hle hbuf rfl rfl rfl rfl rfl rfl, rfl, rfl, rfl, recorded_append .., ?_, ?_⟩
  · rw [Intervals.union_add, Set.union_comm]
  · exact fun hsep => hsep.add hlt

theorem Steps.refl (ho : of.Overlay content data records) :
    of.Steps records ∅ of content data records :=
  ⟨ho, rfl, rfl, rfl, by simp, by simp, id⟩

theorem Steps.trans {of₁ of₂ : Openfile} {records₁ records₂ : List IndexRecord}
    {added₁ added₂ : Set Nat} {content₁ content₂ data₁ data₂ : Bytes}
    (h₁ : of.Steps records added₁ of₁ content₁ data₁ records₁)
    (h₂ : of₁.Steps records₁ added₂ of₂ content₂ data₂ records₂) :
    of.Steps records (added₁ ∪ added₂) of₂ content₂ data₂ records₂ where
  overlay := h₂.overlay
  newfile := h₂.newfile.trans h₁.newfile
  modified := h₂.modified.trans h₁.modified
  remote := h₂.remote.trans h₁.remote
  recorded_eq := by rw [h₂.recorded_eq, h₁.recorded_eq, Set.union_assoc]
  union_eq := by rw [h₂.union_eq, h₁.union_eq, Set.union_assoc]
  separated := fun hsep => h₂.separated (h₁.separated hsep)

/-- `psync_fs_modfile_check_size_ok` on a modified file. -/
theorem Overlay.modfileCheckSizeOk (ho : of.Overlay content data records)
    (hnew : of.newfile = false) (size : Nat) :
    ∃ of' data' records', of.modfileCheckSizeOk size = some of' ∧
      of.Steps records (Set.Ico content.length size) of'
        (File.truncate content (max content.length size)) data' records' := by
  unfold Openfile.modfileCheckSizeOk
  have hsize := ho.currentsize
  by_cases hlt : content.length < size
  · rw [if_pos (hsize ▸ hlt)]
    have hzeros : (Bytes.zeros (size - content.length)).length = size - content.length :=
      Bytes.length_zeros _
    have hbuf : Bytes.zeros (size - content.length) ≠ [] := by
      rw [← List.length_pos_iff, hzeros]
      omega
    have hrange : content.length + (size - content.length) = size := by omega
    have hstep := ho.steps_put (Nat.le_refl _) hbuf rfl
    have hdata : File.pwrite data (Bytes.zeros (size - content.length)) content.length =
        File.truncate data size := by
      rw [← ho.length_data] at hlt ⊢
      rw [File.truncate_of_ge hlt.le]
    rw [hzeros, hrange, max_eq_right hlt.le, ← File.truncate_of_ge hlt.le, hdata] at hstep
    rw [max_eq_right hlt.le]
    refine ⟨_, _, _, ?_, hstep⟩
    have hrecord := @recordRange_eq { of with datafile := some (File.truncate data size) } records
      of.currentsize size ho.indexfile ho.indexoff (hsize ▸ hlt)
    simp only [ho.datafile, Option.bind_eq_bind, Option.bind_some]
    rw [if_neg (by simp [hnew]), hrecord]
    simp only [hsize]
    rfl
  · rw [if_neg (hsize ▸ hlt), max_eq_left (by omega), File.truncate_self, Set.Ico_eq_empty hlt]
    exact ⟨of, data, records, rfl, Steps.refl ho⟩

/-- `psync_fs_write_modified` -/
theorem Overlay.writeModified (ho : of.Overlay content data records) (hnew : of.newfile = false)
    (hbuf : buf ≠ []) (offset : Nat) :
    ∃ of' data' records', of.writeModified buf offset = some of' ∧
      of.Steps records (Set.Ico content.length offset ∪ Set.Ico offset (offset + buf.length)) of'
        (File.pwrite content buf offset) data' records' := by
  obtain ⟨of₁, data₁, records₁, hcheck, hstep₁⟩ := ho.modfileCheckSizeOk hnew offset
  have ho₁ := hstep₁.overlay
  have hle : offset ≤ (File.truncate content (max content.length offset)).length := by
    rw [File.length_truncate]
    omega
  have hstep₂ := ho₁.steps_put hle hbuf rfl
  have hcontent : File.pwrite (File.truncate content (max content.length offset)) buf offset =
      File.pwrite content buf offset := by
    rcases le_total content.length offset with hlen | hlen
    · rw [max_eq_right hlen, File.pwrite_truncate hlen hbuf]
    · rw [max_eq_left hlen, File.truncate_self]
  rw [hcontent] at hstep₂
  refine ⟨_, _, _, ?_, hstep₁.trans hstep₂⟩
  have hlt : offset < offset + buf.length :=
    Nat.lt_add_of_pos_right (List.length_pos_iff.mpr hbuf)
  have hrecord := @recordRange_eq { of₁ with datafile := some (File.pwrite data₁ buf offset) }
    records₁ offset (offset + buf.length) ho₁.indexfile ho₁.indexoff hlt
  rw [Nat.add_sub_cancel_left] at hrecord
  simp only [Openfile.writeModified, hcheck, ho₁.datafile, Option.bind_eq_bind, Option.bind_some,
    hrecord]
  have hsize := ho₁.currentsize
  split
  · next hgrow =>
    rw [hsize] at hgrow
    rw [max_eq_right hgrow.le]
    rfl
  · next hgrow =>
    rw [hsize] at hgrow
    rw [max_eq_left (not_lt.mp hgrow), ← hsize]
    rfl

/-- `psync_fs_ftruncate_of_locked` on a modified file. -/
theorem Overlay.ftruncate (ho : of.Overlay content data records) (hnew : of.newfile = false)
    (hmod : of.modified = true) (cached : Bool) (size : Nat) :
    ∃ of' data' records', of.ftruncate cached size = some of' ∧
      of.Steps records (Set.Ico content.length size) of' (File.truncate content size) data'
        records' := by
  unfold Openfile.ftruncate
  rw [ho.currentsize]
  by_cases hsame : content.length = size
  · rw [if_pos hsame, ← hsame, File.truncate_self, Set.Ico_self]
    exact ⟨of, data, records, rfl, Steps.refl ho⟩
  · rw [if_neg hsame]
    have hwritable : of.ensureWritable cached = of := by simp [ensureWritable, hmod]
    obtain ⟨of₁, data₁, records₁, hcheck, hstep₁⟩ := ho.modfileCheckSizeOk hnew size
    have ho₁ := hstep₁.overlay
    have hsize := ho₁.currentsize
    rw [File.length_truncate] at hsize
    simp only [hwritable, hcheck, Option.bind_eq_bind, Option.bind_some]
    rcases lt_or_gt_of_ne hsame with hlt | hlt
    · rw [max_eq_right hlt.le] at hstep₁ hsize
      rw [if_neg (by simp [hsize]), ← hsize]
      rw [← hsize] at hstep₁
      exact ⟨of₁, data₁, records₁, rfl, hstep₁⟩
    · rw [max_eq_left hlt.le] at hstep₁ hsize
      rw [if_pos (by rw [hsize]; exact hsame), ho₁.datafile]
      rw [File.truncate_self] at hstep₁
      refine ⟨_, File.truncate data₁ size, records₁, rfl, ?_⟩
      refine ⟨hstep₁.overlay.cut hlt.le rfl rfl rfl rfl rfl rfl, ?_, ?_, ?_, ?_, ?_, ?_⟩
      · exact hstep₁.newfile
      · exact hstep₁.modified
      · exact hstep₁.remote
      · exact hstep₁.recorded_eq
      · exact hstep₁.union_eq
      · exact hstep₁.separated

theorem Steps.treeExact {of' : Openfile} {added : Set Nat} {content' data' : Bytes}
    {records' : List IndexRecord} (hindex : of.indexfile = some records)
    (hs : of.Steps records added of' content' data' records') (ht : of.TreeExact) :
    of'.TreeExact := by
  refine ⟨hs.separated ht.separated, ?_⟩
  rw [hs.union_eq, ht.union_eq, present, present, hindex, hs.overlay.indexfile]
  exact hs.recorded_eq.symm

end

/-! ## Opening a file for writing -/

section

variable {of : Openfile} {content : Bytes}

/-- The first write makes a new or a modified file of one that is remote, with the same bytes. -/
theorem Tracks.ensureWritable (ht : of.Tracks content) (cached : Bool) :
    (of.ensureWritable cached).Tracks content ∧
      ((of.ensureWritable cached).newfile = true ∨ (of.ensureWritable cached).modified = true) ∧
      (of.TreeExact → (of.ensureWritable cached).TreeExact) ∧
      (of.ensureWritable cached).remote = of.remote := by
  cases ht with
  | new newfile datafile currentsize =>
    have hsame : of.ensureWritable cached = of := by simp [Openfile.ensureWritable, newfile]
    rw [hsame]
    exact ⟨.new newfile datafile currentsize, Or.inl newfile, id, rfl⟩
  | modified newfile modified data records overlay =>
    have hsame : of.ensureWritable cached = of := by simp [Openfile.ensureWritable, modified]
    rw [hsame]
    exact ⟨.modified newfile modified data records overlay, Or.inr modified, id, rfl⟩
  | clean newfile modified remote initialsize currentsize datafile indexfile =>
    obtain ⟨nf, md, is, cs, rem, df, ix, io, wi⟩ := of
    dsimp only at newfile modified remote initialsize currentsize datafile indexfile
    subst newfile modified remote initialsize currentsize datafile indexfile
    unfold Openfile.ensureWritable
    rw [if_pos ⟨rfl, rfl⟩]
    unfold reopenFileForWriting
    dsimp only [openWriteFiles]
    split
    · -- a new file: its pages are copied
      split
      · refine ⟨.new rfl ?_ rfl, Or.inl rfl, fun h => ⟨h.separated, h.union_eq⟩, rfl⟩
        simp [File.pwrite_nil_zero]
      · rename_i hempty
        refine ⟨.new rfl ?_ rfl, Or.inl rfl, fun h => ⟨h.separated, h.union_eq⟩, rfl⟩
        rw [not_not, List.length_eq_zero_iff] at hempty
        simp [hempty]
    · refine ⟨.modified rfl rfl (File.truncate [] rem.length) [] ?_, Or.inr rfl,
        fun h => ⟨h.separated, h.union_eq.trans ?_⟩, rfl⟩
      · refine ⟨rfl, rfl, rfl, rfl, rfl, File.length_truncate .., ?_, ?_, ?_, ?_⟩
        · simp
        · simp [recorded]
        · exact fun x hx _ => ⟨rfl, hx⟩
        · simp [recorded]
      · simp [present, recorded]

/-! ## New files and modified ones -/

/-- A file of `size` bytes that is opened for writing becomes a modified one, not a new one. -/
def BecomesModified (size : Nat) (cached : Bool) : Prop :=
  ¬(size = 0 ∨ (size ≤ PSYNC_FS_MAX_SIZE_CONVERT_NEWFILE ∧ cached = true))

instance (size : Nat) (cached : Bool) : Decidable (BecomesModified size cached) :=
  inferInstanceAs (Decidable (¬_))

/-- The two files are of one kind: new, modified or only remote. -/
def SameKind (of of' : Openfile) : Prop := of'.newfile = of.newfile ∧ of'.modified = of.modified

theorem openWriteFiles_kind (of : Openfile) : of.SameKind of.openWriteFiles := by
  unfold openWriteFiles
  dsimp only
  split
  · exact ⟨rfl, rfl⟩
  · split <;> exact ⟨rfl, rfl⟩

theorem reopenFileForWriting_kind (hnew : of.newfile = false) (cached : Bool) :
    (of.reopenFileForWriting cached).modified = true ∧
      ((of.reopenFileForWriting cached).newfile = false ↔
        BecomesModified of.initialsize cached) := by
  have hopened := openWriteFiles_kind { of with newfile := true, modified := true }
  have hopened' := openWriteFiles_kind of
  unfold reopenFileForWriting BecomesModified
  dsimp only
  split
  · next hcached =>
    rw [iff_false_right (not_not.mpr hcached)]
    split
    · exact ⟨hopened.2, fun h => Bool.noConfusion (hopened.1.symm.trans h)⟩
    · exact ⟨hopened.2, fun h => Bool.noConfusion (hopened.1.symm.trans h)⟩
  · next hcached => exact ⟨rfl, iff_of_true (hopened'.1.trans hnew) hcached⟩

theorem ensureWritable_kind (of : Openfile) (cached : Bool) :
    ((of.newfile = true ∨ of.modified = true) → of.ensureWritable cached = of) ∧
      (of.newfile = false → of.modified = false →
        (of.ensureWritable cached).modified = true ∧
          ((of.ensureWritable cached).newfile = false ↔
            BecomesModified of.initialsize cached)) := by
  unfold ensureWritable
  constructor
  · rintro (h | h) <;> simp [h]
  · intro hnew hmod
    rw [if_pos ⟨hnew, hmod⟩]
    exact reopenFileForWriting_kind hnew cached

theorem recordRange_kind {of' : Openfile} {start stop : Nat}
    (h : of.recordRange start stop = some of') : of.SameKind of' := by
  obtain ⟨records, -, h⟩ := Option.bind_eq_some_iff.mp h
  obtain ⟨tree, -, h⟩ := Option.bind_eq_some_iff.mp h
  cases h
  exact ⟨rfl, rfl⟩

theorem modfileCheckSizeOk_kind {of' : Openfile} {size : Nat}
    (h : of.modfileCheckSizeOk size = some of') : of.SameKind of' := by
  unfold modfileCheckSizeOk at h
  split at h
  · obtain ⟨data, -, h⟩ := Option.bind_eq_some_iff.mp h
    dsimp only at h
    split at h
    · cases h
      exact ⟨rfl, rfl⟩
    · obtain ⟨of₁, hrecord, h⟩ := Option.bind_eq_some_iff.mp h
      cases h
      obtain ⟨hnew, hmod⟩ := recordRange_kind hrecord
      exact ⟨hnew, hmod⟩
  · cases h
    exact ⟨rfl, rfl⟩

theorem writeModified_kind {of' : Openfile} {buf : Bytes} {offset : Nat}
    (h : of.writeModified buf offset = some of') : of.SameKind of' := by
  obtain ⟨of₁, hcheck, h⟩ := Option.bind_eq_some_iff.mp h
  obtain ⟨data, -, h⟩ := Option.bind_eq_some_iff.mp h
  obtain ⟨of₂, hrecord, h⟩ := Option.bind_eq_some_iff.mp h
  obtain ⟨hnew, hmod⟩ := modfileCheckSizeOk_kind hcheck
  obtain ⟨hnew', hmod'⟩ := recordRange_kind hrecord
  split at h
  · cases h
    exact ⟨hnew'.trans hnew, hmod'.trans hmod⟩
  · cases h
    exact ⟨hnew'.trans hnew, hmod'.trans hmod⟩

theorem writeNewfile_kind {of' : Openfile} {buf : Bytes} {offset : Nat}
    (h : of.writeNewfile buf offset = some of') : of.SameKind of' := by
  obtain ⟨data, -, h⟩ := Option.bind_eq_some_iff.mp h
  dsimp only at h
  split at h
  · cases h
    exact ⟨rfl, rfl⟩
  · cases h
    exact ⟨rfl, rfl⟩

/-- A write leaves the kind of file that it made when it opened the file. -/
theorem write_kind {of' : Openfile} {cached : Bool} {buf : Bytes} {offset : Nat}
    (h : of.write cached buf offset = some of') : (of.ensureWritable cached).SameKind of' := by
  unfold write at h
  dsimp only at h
  split at h
  · exact writeNewfile_kind h
  · exact writeModified_kind h

/-- So does a truncation, but one to the size that the file has opens nothing. -/
theorem ftruncate_kind {of' : Openfile} {cached : Bool} {size : Nat}
    (h : of.ftruncate cached size = some of') :
    if of.currentsize = size then of' = of else (of.ensureWritable cached).SameKind of' := by
  unfold ftruncate at h
  split at h
  · next hsize =>
    rw [if_pos hsize]
    exact (Option.some.inj h).symm
  · next hsize =>
    rw [if_neg hsize]
    obtain ⟨of₁, hcheck, h⟩ := Option.bind_eq_some_iff.mp h
    have hkind := modfileCheckSizeOk_kind hcheck
    split at h
    · obtain ⟨data, -, h⟩ := Option.bind_eq_some_iff.mp h
      cases h
      exact hkind
    · cases h
      exact hkind

/-! ## Writing and truncating -/

variable {buf : Bytes} {offset size : Nat}

theorem writeNewfile_eq (hdata : of.datafile = some content)
    (hsize : of.currentsize = content.length) (hbuf : buf ≠ []) :
    of.writeNewfile buf offset = some { of with
      datafile := some (File.pwrite content buf offset)
      currentsize := (File.pwrite content buf offset).length } := by
  simp only [writeNewfile, hdata, Option.bind_eq_bind, Option.bind_some, hsize]
  rw [File.length_pwrite hbuf]
  split
  · next hgrow => rw [max_eq_right hgrow.le]; rfl
  · next hgrow => rw [max_eq_left (not_lt.mp hgrow)]; rfl

/-- `psync_fs_write` -/
theorem Tracks.write (ht : of.Tracks content) (cached : Bool) (hbuf : buf ≠ []) (offset : Nat) :
    ∃ of', of.write cached buf offset = some of' ∧ of'.Tracks (File.pwrite content buf offset) ∧
      (of.TreeExact → of'.TreeExact) ∧ of'.remote = of.remote := by
  obtain ⟨ht', hopen, hexact, hremote⟩ := ht.ensureWritable cached
  unfold Openfile.write
  generalize of.ensureWritable cached = of₁ at ht' hopen hexact hremote
  cases ht' with
  | clean newfile modified remote initialsize currentsize datafile indexfile =>
    rw [newfile, modified] at hopen
    exact absurd hopen (by simp)
  | new newfile datafile currentsize =>
    rw [if_pos newfile, writeNewfile_eq datafile currentsize hbuf]
    exact ⟨_, rfl, .new newfile rfl rfl, fun h => ⟨(hexact h).separated, (hexact h).union_eq⟩,
      hremote⟩
  | modified newfile modified data records overlay =>
    obtain ⟨of', data', records', hwrite, hsteps⟩ := overlay.writeModified newfile hbuf offset
    rw [if_neg (by simp [newfile])]
    refine ⟨of', hwrite, .modified ?_ ?_ data' records' hsteps.overlay, fun h => ?_,
      hsteps.remote.trans hremote⟩
    · rw [hsteps.newfile, newfile]
    · rw [hsteps.modified, modified]
    · exact hsteps.treeExact overlay.indexfile (hexact h)

theorem modfileCheckSizeOk_new (hnew : of.newfile = true) (hdata : of.datafile = some content)
    (hsize : of.currentsize = content.length) :
    of.modfileCheckSizeOk size = some { of with
      datafile := some (File.truncate content (max content.length size)) } := by
  unfold Openfile.modfileCheckSizeOk
  split
  · next hlt =>
    simp only [hdata, Option.bind_eq_bind, Option.bind_some, hnew, if_true]
    rw [max_eq_right (hsize ▸ hlt).le]
    rfl
  · next hlt =>
    rw [max_eq_left (hsize ▸ not_lt.mp hlt), File.truncate_self, ← hdata]

theorem Tracks.currentsize_eq (ht : of.Tracks content) : of.currentsize = content.length := by
  cases ht with
  | clean newfile modified remote initialsize currentsize datafile indexfile => exact currentsize
  | new newfile datafile currentsize => exact currentsize
  | modified newfile modified data records overlay => exact overlay.currentsize

/-- A file that is opened for writing is truncated as one that was open. -/
theorem Tracks.ftruncate_ensureWritable (ht : of.Tracks content) (cached : Bool)
    (hne : content.length ≠ size) :
    of.ftruncate cached size = (of.ensureWritable cached).ftruncate cached size := by
  obtain ⟨ht', hopen, -⟩ := ht.ensureWritable cached
  have htwice : (of.ensureWritable cached).ensureWritable cached = of.ensureWritable cached := by
    generalize of.ensureWritable cached = of₁ at hopen
    rcases hopen with hopen | hopen <;> simp [Openfile.ensureWritable, hopen]
  unfold Openfile.ftruncate
  rw [ht.currentsize_eq, ht'.currentsize_eq, if_neg hne, if_neg hne, htwice]

/-- `psync_fs_ftruncate_of_locked` -/
theorem Tracks.ftruncate (ht : of.Tracks content) (cached : Bool) (size : Nat) :
    ∃ of', of.ftruncate cached size = some of' ∧ of'.Tracks (File.truncate content size) ∧
      (of.TreeExact → of'.TreeExact) ∧ of'.remote = of.remote := by
  by_cases hsame : content.length = size
  · unfold Openfile.ftruncate
    rw [if_pos (ht.currentsize_eq.trans hsame), ← hsame, File.truncate_self]
    exact ⟨of, rfl, ht, id, rfl⟩
  · rw [ht.ftruncate_ensureWritable cached hsame]
    obtain ⟨ht', hopen, hexact, hremote⟩ := ht.ensureWritable cached
    generalize of.ensureWritable cached = of₁ at ht' hopen hexact hremote
    cases ht' with
    | clean newfile modified remote initialsize currentsize datafile indexfile =>
      rw [newfile, modified] at hopen
      exact absurd hopen (by simp)
    | new newfile datafile currentsize =>
      have hopened : of₁.ensureWritable cached = of₁ := by simp [Openfile.ensureWritable, newfile]
      have hne : of₁.currentsize ≠ size := currentsize ▸ hsame
      refine ⟨{ of₁ with datafile := some (File.truncate content size), currentsize := size }, ?_,
        .new newfile rfl (File.length_truncate ..).symm,
        fun h => ⟨(hexact h).separated, (hexact h).union_eq⟩, hremote⟩
      simp only [Openfile.ftruncate, if_neg hne, hopened, Option.bind_eq_bind,
        modfileCheckSizeOk_new newfile datafile currentsize, Option.bind_some]
      rw [if_pos hne]
      rcases le_total content.length size with hlen | hlen
      · rw [max_eq_right hlen, File.truncate_truncate]
        rfl
      · rw [max_eq_left hlen, File.truncate_self]
        rfl
    | modified newfile modified data records overlay =>
      obtain ⟨of', data', records', htrunc, hsteps⟩ :=
        overlay.ftruncate newfile modified cached size
      refine ⟨of', htrunc, .modified ?_ ?_ data' records' hsteps.overlay, fun h => ?_,
        hsteps.remote.trans hremote⟩
      · rw [hsteps.newfile, newfile]
      · rw [hsteps.modified, modified]
      · exact hsteps.treeExact overlay.indexfile (hexact h)

/-- A file that nobody has changed. -/
theorem tracks_create (remote : Bytes) :
    (create remote).Tracks remote ∧ (create remote).TreeExact :=
  ⟨.clean rfl rfl rfl rfl rfl rfl rfl, Intervals.separated_nil, by simp [create, present]⟩

end

end Openfile

end PcloudClient.Pfs
