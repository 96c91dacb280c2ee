/-
  Pfs/Rounds.lean --- a plain file that is changed, uploaded and changed again.

  An upload that is complete makes the open file one that is only remote.  `writeintervals` stays
  as it was, and the next data file begins without any of it.  An encrypted file goes through the
  same rounds, but its writes go to a log first, so its intervals are those of the data file and the
  log together; it is not covered here.
-/
import PcloudClient.FsUpload.Modify

set_option autoImplicit false

namespace PcloudClient.Pfs

open PcloudClient.Foundation
open PcloudClient.Ppagecache
open PcloudClient.FsUpload.Modify (uploadModify uploadModify_sends assemble)

/-- The revision an upload of the file makes: the whole data file of a new file, or what
`upload_modify` has the server put together. -/
def uploaded (of : Openfile) : Option Bytes :=
  if of.newfile then of.datafile else (uploadModify of).map (assemble of.remote)

/-- What happens to one open file. -/
inductive Event where
  | change (c : Change)
  | upload
  deriving DecidableEq, Repr

namespace Event

/-- An upload ends with `psync_fs_update_openfile`. -/
def exec (of : Openfile) : Event → Option Openfile
  | change c => c.exec of
  | upload => (uploaded of).map of.updateOpenfile

/-- The bytes of the file stay the same when it is uploaded. -/
def apply (content : Bytes) : Event → Bytes
  | change c => c.apply content
  | upload => content

/-- A write has bytes, and only a file that was written to is uploaded. -/
def Possible (of : Openfile) : Event → Prop
  | change c => c.Nonempty
  | upload => of.newfile = true ∨ of.modified = true

/-- The event is a write or a truncation that makes a modified file of one that is remote. -/
def Reopens (of : Openfile) : Event → Prop
  | change (.write cached _ _) => of.newfile = false ∧ of.modified = false ∧
      (of.ensureWritable cached).newfile = false
  | change (.ftruncate cached size) => of.newfile = false ∧ of.modified = false ∧
      (of.ensureWritable cached).newfile = false ∧ of.currentsize ≠ size
  | upload => False

/-- A file that becomes a modified one has nothing in `writeintervals`. -/
def Clears (of : Openfile) (e : Event) : Prop := e.Reopens of → of.writeintervals = []

end Event

/-- The events one after the other. -/
def runEvents : List Event → Openfile → Option Openfile
  | [], of => some of
  | e :: es, of => (e.exec of).bind (runEvents es)

/-- Each event meets a condition in the state it finds. -/
def Meets (cond : Openfile → Event → Prop) : List Event → Openfile → Prop
  | [], _ => True
  | e :: es, of => cond of e ∧ ∀ of', e.exec of = some of' → Meets cond es of'

section

variable {of : Openfile} {content : Bytes}

/-- Whatever is in `writeintervals`, an upload makes a revision of the bytes of the file. -/
theorem Openfile.Tracks.uploaded (ht : of.Tracks content)
    (hopen : of.newfile = true ∨ of.modified = true) : uploaded of = some content := by
  unfold Pfs.uploaded
  cases ht with
  | clean newfile modified remote initialsize currentsize datafile indexfile =>
    rw [newfile, modified] at hopen
    exact absurd hopen (by simp)
  | new newfile datafile currentsize => rw [if_pos newfile, datafile]
  | modified newfile modified data records overlay =>
    obtain ⟨requests, hupload, hsends⟩ := uploadModify_sends overlay
    rw [if_neg (by simp [newfile]), hupload, Option.map_some]
    exact congrArg some hsends.assembles

theorem Openfile.newfile_of_ensureWritable {cached : Bool}
    (hopened : (of.ensureWritable cached).newfile = false) : of.newfile = false := by
  by_contra hnew
  rw [Bool.not_eq_false] at hnew
  have hsame : of.ensureWritable cached = of := by simp [ensureWritable, hnew]
  rw [hsame, hnew] at hopened
  exact absurd hopened (by simp)

theorem Event.Reopens.clean {e : Event} (h : e.Reopens of) :
    of.newfile = false ∧ of.modified = false := by
  cases e with
  | upload => exact absurd h id
  | change c =>
    cases c with
    | write cached buf offset => exact ⟨h.1, h.2.1⟩
    | ftruncate cached size => exact ⟨h.1, h.2.1⟩

/-- A file that is remote has no index, so an empty tree is exact. -/
theorem Openfile.Tracks.exact_of_nil (ht : of.Tracks content) (hnew : of.newfile = false)
    (hmod : of.modified = false) (htree : of.writeintervals = []) : of.TreeExact := by
  cases ht with
  | clean newfile modified remote initialsize currentsize datafile indexfile =>
    refine ⟨htree ▸ Intervals.separated_nil, ?_⟩
    rw [htree, Intervals.union_nil, present, indexfile]
    rfl
  | new newfile datafile currentsize => exact absurd newfile (by simp [hnew])
  | modified newfile modified data records overlay => exact absurd modified (by simp [hmod])

/-- A modified file was one before, or has just become one. -/
theorem Event.modified_before {e : Event} {of' : Openfile} (hexec : e.exec of = some of')
    (hnew : of'.newfile = false) (hmod : of'.modified = true) :
    (of.newfile = false ∧ of.modified = true) ∨ e.Reopens of := by
  cases e with
  | upload =>
    rw [Event.exec, Option.map_eq_some_iff] at hexec
    obtain ⟨remote, -, rfl⟩ := hexec
    exact absurd hmod (by simp [Openfile.updateOpenfile])
  | change c =>
    cases c with
    | write cached buf offset =>
      have hopened := (Openfile.write_kind hexec).1.symm.trans hnew
      have hof := Openfile.newfile_of_ensureWritable hopened
      cases hm : of.modified with
      | true => exact Or.inl ⟨hof, rfl⟩
      | false => exact Or.inr ⟨hof, hm, hopened⟩
    | ftruncate cached size =>
      have hkind := Openfile.ftruncate_kind hexec
      split at hkind
      · exact Or.inl (hkind ▸ ⟨hnew, hmod⟩)
      · next hsame =>
        have hopened := hkind.1.symm.trans hnew
        have hof := Openfile.newfile_of_ensureWritable hopened
        cases hm : of.modified with
        | true => exact Or.inl ⟨hof, rfl⟩
        | false => exact Or.inr ⟨hof, hm, hopened, hsame⟩

/-- The tree of a modified file is exact. -/
def Openfile.ModifiedExact (of : Openfile) : Prop :=
  of.newfile = false → of.modified = true → of.TreeExact

/-- An event keeps the bytes where they can be found, and the tree exact if a file that becomes a
modified one has an empty tree. -/
theorem Openfile.Tracks.event (ht : of.Tracks content) (hexact : of.ModifiedExact) {e : Event}
    (hpossible : e.Possible of) (hclears : e.Clears of) :
    ∃ of', e.exec of = some of' ∧ of'.Tracks (e.apply content) ∧ of'.ModifiedExact := by
  cases e with
  | change c =>
    obtain ⟨of', hexec, ht', hexact', -⟩ := ht.exec hpossible
    refine ⟨of', hexec, ht', fun hnew hmod => hexact' ?_⟩
    rcases Event.modified_before (e := .change c) hexec hnew hmod with ⟨hn, hm⟩ | hreopens
    · exact hexact hn hm
    · exact ht.exact_of_nil hreopens.clean.1 hreopens.clean.2 (hclears hreopens)
  | upload =>
    refine ⟨of.updateOpenfile content, ?_, .clean rfl rfl rfl rfl rfl rfl rfl, ?_⟩
    · rw [Event.exec, ht.uploaded hpossible, Option.map_some]
    · intro _ hmod
      exact absurd hmod (by simp [updateOpenfile])

theorem Openfile.Tracks.runEvents (ht : of.Tracks content) (hexact : of.ModifiedExact)
    {es : List Event} (hpossible : Meets (fun of e => e.Possible of) es of)
    (hclears : Meets (fun of e => e.Clears of) es of) :
    ∃ of', Pfs.runEvents es of = some of' ∧ of'.Tracks (es.foldl Event.apply content) ∧
      of'.ModifiedExact := by
  induction es generalizing of content with
  | nil => exact ⟨of, rfl, ht, hexact⟩
  | cons e es ih =>
    obtain ⟨of₁, hexec, ht₁, hexact₁⟩ := ht.event hexact hpossible.1 hclears.1
    obtain ⟨of', hrun, ht', hexact'⟩ :=
      ih ht₁ hexact₁ (hpossible.2 of₁ hexec) (hclears.2 of₁ hexec)
    refine ⟨of', ?_, ht', hexact'⟩
    rw [Pfs.runEvents, hexec, Option.bind_some, hrun]

theorem reads_pread (content buf : Bytes) (size offset : Nat) :
    Reads content size offset (some ((File.pread content size offset).length,
      File.pwrite buf (File.pread content size offset) 0)) := by
  have hlen := File.length_pread content size offset
  refine ⟨_, by rw [hlen], fun k hk => ?_⟩
  rw [File.pwrite_zero, List.getElem?_append_left (by omega), File.getElem?_pread,
    if_pos (by omega)]

/-- A read of a file with an exact tree returns its bytes. -/
theorem Openfile.Tracks.read (ht : of.Tracks content) (hexact : of.ModifiedExact) {buf : Bytes}
    {size offset : Nat} (hbuf : buf.length = size)
    (hwithin : of.newfile = false → of.modified = true → Within of size offset) :
    Reads content size offset (read of buf size offset) := by
  unfold Ppagecache.read
  cases ht with
  | clean newfile modified remote initialsize currentsize datafile indexfile =>
    rw [if_neg (by simp [newfile]), if_neg (by simp [modified]),
      readUnmodified_eq (by rw [initialsize, remote]), remote]
    exact reads_pread content buf size offset
  | new newfile datafile currentsize =>
    rw [if_pos newfile, readNewfile, datafile]
    exact reads_pread content buf size offset
  | modified newfile modified data records overlay =>
    rw [if_neg (by simp [newfile]), if_pos modified]
    exact (readModified_iff overlay (hexact newfile modified) hbuf).mpr
      (hwithin newfile modified)

end

/-- What the claim asks of an open file whose bytes are `content`. -/
structure Faithful (of : Openfile) (content : Bytes) : Prop where
  /-- `writeintervals` are the ranges that are in the data file -/
  tree : of.newfile = false → of.modified = true → Intervals.union of.writeintervals = of.present
  /-- a read returns the bytes -/
  read : ∀ (buf : Bytes) (size offset : Nat), buf.length = size →
    (of.newfile = false → of.modified = true → Within of size offset) →
    Reads content size offset (Ppagecache.read of buf size offset)
  /-- an upload makes a revision of the bytes -/
  upload : of.newfile = true ∨ of.modified = true → uploaded of = some content

/-- In any number of rounds of changes and uploads the open file is faithful, as long as no file
becomes a modified one with a tree that an earlier round has left. -/
theorem rounds_faithful (remote : Bytes) (es : List Event)
    (hpossible : Meets (fun of e => e.Possible of) es (Openfile.create remote))
    (hclears : Meets (fun of e => e.Clears of) es (Openfile.create remote)) :
    ∃ of, runEvents es (Openfile.create remote) = some of ∧
      Faithful of (es.foldl Event.apply remote) := by
  obtain ⟨ht, hexact⟩ := Openfile.tracks_create remote
  obtain ⟨of, hrun, ht', hexact'⟩ := ht.runEvents (fun _ _ => hexact) hpossible hclears
  refine ⟨of, hrun, fun hnew hmod => (hexact' hnew hmod).union_eq, ?_, ht'.uploaded⟩
  exact fun buf size offset hbuf hwithin => ht'.read hexact' hbuf hwithin

/-- A file that is only cut is uploaded with an empty tree. -/
theorem rounds_faithful_cut :
    ∃ of, runEvents [.change (.ftruncate false 3), .upload, .change (.write false [9] 1)]
        (Openfile.create [65, 66, 67, 68]) = some of ∧ Faithful of [65, 9, 67] :=
  rounds_faithful _ _
    ⟨trivial, fun _ h => by
      obtain rfl := Option.some.inj h
      exact ⟨Or.inr rfl, fun _ h' => by
        obtain rfl := Option.some.inj h'
        exact ⟨by simp [Event.Possible, Change.Nonempty], fun _ _ => trivial⟩⟩⟩
    ⟨fun _ => rfl, fun _ h => by
      obtain rfl := Option.some.inj h
      exact ⟨fun h' => absurd h' id, fun _ h' => by
        obtain rfl := Option.some.inj h'
        exact ⟨fun _ => rfl, fun _ _ => trivial⟩⟩⟩

/-- The first byte is written and the file uploaded; then its third byte is written.  The first
byte, which the revision has and the new data file has not, is in the tree, and reads as zero. -/
theorem rounds_stale :
    ∃ of, runEvents [.change (.write false [88] 0), .upload, .change (.write false [89] 2)]
        (Openfile.create [65, 66, 67, 68]) = some of ∧ of.newfile = false ∧ of.modified = true ∧
      read of [0, 0, 0, 0] 4 0 = some (4, [0, 66, 89, 68]) ∧
      ¬Reads [88, 66, 89, 68] 4 0 (read of [0, 0, 0, 0] 4 0) ∧
      Intervals.union of.writeintervals ≠ of.present := by
  refine ⟨{
    newfile := false
    modified := true
    initialsize := 4
    currentsize := 4
    remote := [88, 66, 67, 68]
    datafile := some [0, 0, 89, 0]
    indexfile := some [⟨2, 1⟩]
    indexoff := 1
    writeintervals := [⟨0, 1⟩, ⟨2, 3⟩] }, by decide, rfl, rfl, by decide, ?_, ?_⟩
  · rintro ⟨buf, hread, hbytes⟩
    rw [show read _ [0, 0, 0, 0] 4 0 = some (4, [0, 66, 89, 68]) by decide] at hread
    obtain rfl : [0, 66, 89, 68] = buf := congrArg Prod.snd (Option.some.inj hread)
    exact absurd (hbytes 0 (by decide)) (by decide)
  · intro heq
    have htree : 0 ∈ Intervals.union [(⟨0, 1⟩ : Span Nat), ⟨2, 3⟩] :=
      ⟨⟨0, 1⟩, by decide, by decide, by decide⟩
    rw [heq] at htree
    obtain ⟨r, hr, hle, -⟩ := htree
    obtain rfl := List.mem_singleton.mp hr
    exact absurd hle (by decide)

end PcloudClient.Pfs
