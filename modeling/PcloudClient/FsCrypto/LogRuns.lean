/-
  FsCrypto/LogRuns.lean --- the offset of the log in the runs of an open file.

  Calls and the extender take their frames in any order that the mutex allows.  As long as
  every frame has room in the log, `logoffset` is its length.
-/
import PcloudClient.Foundation.Runs
import PcloudClient.FsCrypto.Calls
import PcloudClient.FsCrypto.LogOffset

set_option autoImplicit false

namespace PcloudClient.FsCrypto

open PcloudClient.Bytes
open PcloudClient.Runs

/-! ## Room -/

/-- Sectors that a frame writes to the log, in this order. -/
def Frame.sectors (of : Openfile) : Frame → List Nat
  | .writeNewfile buf offset checkextender =>
    if PastMaxSectorid buf.length offset ∨ buf = [] ∨ (checkextender ∧ of.extenderError ≠ 0) then []
    else writeSectors of.currentsize offset buf.length
  | .newfileFillzero size offset => fillSectors offset (offset + size)
  | .cutLastSector size _ => [lastSector size]
  | _ => []

/-- The size and the sectors in the log that a frame finalises, given the sectors that it
writes before. -/
def Frame.finalizes (of : Openfile) (ret : Int) (frame : Frame) : Option (Nat × List Nat) :=
  match frame with
  | .writeNewfile buf offset _ =>
    let sectors := frame.sectors of
    if sectors = [] ∨ of.logoffset + 4112 * sectors.length < maxLogSize then none
    else some (of.finalSize (max of.currentsize (offset + buf.length)),
      (sectors.foldl insertId of.idsTree).toList)
  | .flush => if ret = 0 then some (of.finalSize of.currentsize, of.ids) else none
  | .extenderFinalize =>
    if of.logoffset < maxLogSize then none else some (of.finalSize of.currentsize, of.ids)
  | _ => none

/-- A frame has room: a whole record for every sector that it writes, and the tree when it
finalises the log, end below `2 ^ 32`. -/
def Frame.Room (of : Openfile) (ret : Int) (frame : Frame) : Prop :=
  of.logfile.length + 4112 * (frame.sectors of).length < 2 ^ 32 ∧
    ∀ fin ∈ frame.finalizes of ret, of.logfile.length + 4112 * (frame.sectors of).length +
      treeBytes (offsetsByPlainsize fin.1) fin.2 < 2 ^ 32

instance (of : Openfile) (ret : Int) (frame : Frame) : Decidable (frame.Room of ret) :=
  inferInstanceAs (Decidable (_ ∧ _))

/-! ## Sizes -/

/-- A frame with no sector ids that are too large. -/
def Frame.Sized : Frame → Prop
  | .newfileFillzero size offset => 0 < size ∧ sectorCount (offset + size) ≤ maxSectorid
  | .ftruncate size | .waitedNone size | .runExtender size | .shrink size _ | .shrinkRead size _ _
  | .shrinkWritten size _ _ _ | .cutLastSector size _ | .extended size =>
    sectorCount size ≤ maxSectorid
  | _ => True

/-- The file and what its extender makes of it have none. -/
structure Sized (of : Openfile) : Prop where
  size : sectorCount of.currentsize ≤ maxSectorid
  extendedto : ∀ ext, of.extender = some ext → sectorCount ext.extendedto ≤ maxSectorid
  extendto : ∀ ext, of.extender = some ext → sectorCount ext.extendto ≤ maxSectorid

section

variable {env : Env} {of of' : Openfile}

theorem Sized.finalSize (h : Sized of) :
    sectorCount (of.finalSize of.currentsize) ≤ maxSectorid := by
  unfold Openfile.finalSize
  split
  · next ext hext => exact h.extendedto ext hext
  · exact h.size

theorem Sized.resize (h : Sized of) {size : Nat} (hext : of'.extender = of.extender)
    (hcur : of'.currentsize ≤ size) (hsize : sectorCount size ≤ maxSectorid) : Sized of' :=
  ⟨(sectorCount_mono hcur).trans hsize, by rw [hext]; exact h.extendedto,
    by rw [hext]; exact h.extendto⟩

theorem sized_extender {ext : Extender} (hsize : sectorCount of.currentsize ≤ maxSectorid)
    (hof : of.extender = some ext) (hed : sectorCount ext.extendedto ≤ maxSectorid)
    (hto : sectorCount ext.extendto ≤ maxSectorid) : Sized of := by
  refine ⟨hsize, ?_, ?_⟩
  · intro ext' hext'
    rwa [← Option.some.inj (hof.symm.trans hext')]
  · intro ext' hext'
    rwa [← Option.some.inj (hof.symm.trans hext')]

/-- Changes of the other fields of an extender. -/
theorem Sized.mapExtender (h : Sized of) {f : Extender → Extender}
    (hf : ∀ ext, (f ext).extendedto = ext.extendedto ∧ (f ext).extendto = ext.extendto)
    (hsize : sectorCount of'.currentsize ≤ maxSectorid) (hext : of'.extender = of.extender.map f) :
    Sized of' := by
  refine ⟨hsize, ?_, ?_⟩
  · intro ext' hext'
    obtain ⟨ext, hof, rfl⟩ := Option.map_eq_some_iff.mp (hext.symm.trans hext')
    rw [(hf ext).1]
    exact h.extendedto ext hof
  · intro ext' hext'
    obtain ⟨ext, hof, rfl⟩ := Option.map_eq_some_iff.mp (hext.symm.trans hext')
    rw [(hf ext).2]
    exact h.extendto ext hof

theorem sectorCount_max {m n : Nat} (hm : sectorCount m ≤ maxSectorid)
    (hn : sectorCount n ≤ maxSectorid) : sectorCount (max m n) ≤ maxSectorid := by
  rcases le_total m n with h | h
  · rwa [max_eq_right h]
  · rwa [max_eq_left h]

/-! ## Frames -/

/-- What is to hold before and after every frame. -/
structure Right (env : Env) (of : Openfile) : Prop where
  logged : Logged env of
  sized : Sized of

/-- What a frame leaves is right. -/
structure Next.Right (env : Env) (next : Next) : Prop where
  file : FsCrypto.Right env next.of
  frames : ∀ frame ∈ next.frames, frame.Sized

/-- Nothing of the log is touched and no size. -/
theorem Right.congr (h : Right env of) (hfile : of'.logfile = of.logfile)
    (hoff : of'.logoffset = of.logoffset) (hctx : of'.loghashctx = of.loghashctx)
    (htree : of'.sectorsinlog = of.sectorsinlog) (hsized : Sized of') : Right env of' :=
  ⟨h.logged.congr hfile hoff hctx fun e he => by rwa [htree] at he, hsized⟩

theorem Right.setWaiters (h : Right env of) (f : Nat → Nat) : Right env (of.setWaiters f) :=
  h.congr rfl rfl rfl rfl
    (h.sized.mapExtender (f := fun ext => { ext with waiters := f ext.waiters })
      (fun _ => ⟨rfl, rfl⟩) h.sized.size rfl)

theorem Right.killExtender (h : Right env of) : Right env (killExtender of) :=
  h.congr rfl rfl rfl rfl
    (h.sized.mapExtender (f := fun ext => { ext with kill := true }) (fun _ => ⟨rfl, rfl⟩)
      h.sized.size rfl)

theorem sized_writeNewfileFrames {buf : Bytes} {offset : Nat} {checkextender : Bool} :
    ∀ frame ∈ writeNewfileFrames buf offset checkextender, frame.Sized := by
  unfold writeNewfileFrames
  split
  · simp [Frame.Sized]
  · simp [Frame.Sized]

theorem sized_writeModifiedFrames {buf : Bytes} {offset : Nat} {checkextender : Bool} :
    ∀ frame ∈ writeModifiedFrames buf offset checkextender, frame.Sized := by
  unfold writeModifiedFrames
  split
  · simp [Frame.Sized]
  · simp [Frame.Sized]

theorem sized_fillFrames {size offset : Nat} (hpos : 0 < size)
    (hsize : sectorCount (offset + size) ≤ maxSectorid) :
    ∀ frame ∈ of.fillFrames size offset, frame.Sized := by
  unfold Openfile.fillFrames
  split
  · simpa [Frame.Sized] using ⟨hpos, hsize⟩
  · simp [Frame.Sized]

/-! ### Frames that write -/

/-- A call that had room, also when it failed. -/
theorem Logged.of_prefix {ss ss' : List Nat} (h : Logged env of) (happ : Appends env of of' ss')
    (hpre : ss' <+: ss) (hroom : of.logfile.length + 4112 * ss.length < 2 ^ 32) :
    Logged env of' ∧ of'.logfile.length ≤ of.logfile.length + 4112 * ss.length := by
  have hle := hpre.length_le
  obtain ⟨hlogged, hlen⟩ := happ.logged h (by omega)
  exact ⟨hlogged, by omega⟩

theorem Right.finalizeLog (h : Right env of) {ret : Int}
    (hroom : of.logfile.length +
      treeBytes (offsetsByPlainsize (of.finalSize of.currentsize)) of.ids < 2 ^ 32)
    (hrun : finalizeLog env of = .ok (of', ret)) :
    Right env of' ∧ of'.currentsize = of.currentsize ∧ of'.extender = of.extender := by
  obtain ⟨hlogged, hcur, hext⟩ := h.logged.finalizeLog h.sized.finalSize hroom hrun
  exact ⟨⟨hlogged, h.sized.resize hext hcur.le h.sized.size⟩, hcur, hext⟩

theorem writeSectors_ne_nil (n offset : Nat) {len : Nat} (h : 0 < len) :
    writeSectors n offset len ≠ [] := by
  have hlast : sectorRange (offset / 4096) (sectorCount (offset + len)) ≠ [] := by
    rw [← List.length_pos_iff, length_sectorRange, sectorCount_eq_div]
    omega
  exact fun hnil => hlast (List.append_eq_nil_iff.mp hnil).2

/-- What a write does: it is refused and nothing changes, or it fails while it appends, or it
appends and, where the log is long then, finalises it. -/
theorem writeNewfileLockedNu_cases {buf : Bytes} {offset : Nat} {checkextender : Bool} {ret : Int}
    (hrun : writeNewfileLockedNu env of buf offset checkextender = .ok (of', ret)) :
    of' = of ∨
      (¬ PastMaxSectorid buf.length offset ∧ buf ≠ [] ∧
        ¬ (checkextender ∧ of.extenderError ≠ 0) ∧
        ∃ of₁ ret₁, writeRecords env of buf offset = .ok (of₁, ret₁) ∧
          ((ret₁ ≠ 0 ∨ of₁.logoffset < maxLogSize) ∧ of' = of₁ ∨
            ret₁ = 0 ∧ maxLogSize ≤ of₁.logoffset ∧
              ∃ ret₂, finalizeLog env of₁ = .ok (of', ret₂))) := by
  unfold writeNewfileLockedNu at hrun
  split at hrun
  · obtain ⟨rfl, -⟩ := Prod.mk.inj (Except.ok.inj hrun)
    exact Or.inl rfl
  next hvalid =>
  split at hrun
  · obtain ⟨rfl, -⟩ := Prod.mk.inj (Except.ok.inj hrun)
    exact Or.inl rfl
  next hne =>
  split at hrun
  · obtain ⟨rfl, -⟩ := Prod.mk.inj (Except.ok.inj hrun)
    exact Or.inl rfl
  next herror =>
  obtain ⟨⟨of₁, ret₁⟩, hrecords, hrest⟩ := bind_eq_ok hrun
  refine Or.inr ⟨hvalid, hne, herror, of₁, ret₁, hrecords, ?_⟩
  split at hrest
  · next hret =>
    obtain ⟨rfl, -⟩ := Prod.mk.inj (Except.ok.inj hrest)
    exact Or.inl ⟨Or.inl hret, rfl⟩
  next hret =>
  split at hrest
  · next hlong =>
    obtain ⟨⟨of₂, ret₂⟩, hfin, hrest⟩ := bind_eq_ok hrest
    refine Or.inr ⟨not_not.mp hret, hlong, ret₂, ?_⟩
    split at hrest
    all_goals
      obtain ⟨rfl, -⟩ := Prod.mk.inj (Except.ok.inj hrest)
      exact hfin
  · next hshort =>
    obtain ⟨rfl, -⟩ := Prod.mk.inj (Except.ok.inj hrest)
    exact Or.inl ⟨Or.inr (not_le.mp hshort), rfl⟩

theorem Right.writeNewfile (h : Right env of) {buf : Bytes} {offset : Nat} {checkextender : Bool}
    {ret ret' : Int} (hroom : (Frame.writeNewfile buf offset checkextender).Room of ret)
    (hrun : writeNewfileLockedNu env of buf offset checkextender = .ok (of', ret')) :
    Right env of' := by
  obtain rfl | ⟨hvalid, hne, herror, of₁, ret₁, hrecords, hends⟩ := writeNewfileLockedNu_cases hrun
  · exact h
  have hids : sectorCount (offset + buf.length) ≤ maxSectorid := by
    rw [add_comm]
    exact not_lt.mp hvalid
  have hmax := sectorCount_max h.sized.size hids
  have hsectors : (Frame.writeNewfile buf offset checkextender).sectors of =
      writeSectors of.currentsize offset buf.length := by
    rw [Frame.sectors, if_neg]
    rintro (hpast | hnil | herr)
    · exact hvalid hpast
    · exact hne hnil
    · exact herror herr
  obtain ⟨hrec, hfin⟩ := hroom
  rw [Frame.finalizes] at hfin
  simp only [hsectors] at hrec hfin
  obtain ⟨pre, hpre, happ, hcur, hok⟩ := writes_writeRecords hne
    (hids.trans (by rw [maxSectorid_eq]; omega)) hrecords
  obtain ⟨hlogged₁, hlen⟩ := h.logged.of_prefix happ hpre hrec
  have hright₁ : Right env of₁ := ⟨hlogged₁, h.sized.resize happ.extender hcur hmax⟩
  obtain ⟨-, rfl⟩ | ⟨hret, hlong, ret₂, hfinrun⟩ := hends
  · exact hright₁
  -- the log is long
  obtain ⟨rfl, hcur₁⟩ := hok hret
  have hshort : ¬ (writeSectors of.currentsize offset buf.length = [] ∨
      of.logoffset + 4112 * (writeSectors of.currentsize offset buf.length).length <
        maxLogSize) := by
    have hlogoff := hlogged₁.offset
    have hoff := h.logged.offset
    rintro (hnil | hshort)
    · exact writeSectors_ne_nil _ _ (List.length_pos_iff.mpr hne) hnil
    · omega
  rw [if_neg hshort, ← happ.idsTree, toList_idsTree] at hfin
  have htree := hfin _ rfl
  rw [← hcur₁] at htree
  have hfinal : of.finalSize of₁.currentsize = of₁.finalSize of₁.currentsize := by
    rw [Openfile.finalSize, Openfile.finalSize, happ.extender]
  simp only [hfinal] at htree
  exact (hright₁.finalizeLog (by omega) hfinrun).1

theorem Right.newfileFillzero (h : Right env of) {size offset : Nat} {ret ret' : Int}
    (hsized : (Frame.newfileFillzero size offset).Sized)
    (hroom : (Frame.newfileFillzero size offset).Room of ret)
    (hrun : newfileFillzero env of size offset = .ok (of', ret')) : Right env of' := by
  obtain ⟨hpos, hsize⟩ := hsized
  have hrec := hroom.1
  rw [Frame.sectors, fillSectors, if_pos (by omega)] at hrec
  obtain ⟨pre, hpre, happ, hcur, -⟩ := writes_newfileFillzero hpos
    (hsize.trans (by rw [maxSectorid_eq]; omega)) hrun
  obtain ⟨hlogged, -⟩ := h.logged.of_prefix happ hpre hrec
  exact ⟨hlogged, h.sized.resize happ.extender hcur (sectorCount_max h.sized.size hsize)⟩

/-! ### Frames that write nothing -/

theorem storeRanges_keeps {reply : Reply} {ranges : List (Nat × Nat)} {again : Bool}
    (hrun : storeRanges reply of ranges = .ok (of', again)) :
    (Logged env of → Logged env of') ∧ of'.currentsize = of.currentsize ∧
      of'.extender = of.extender := by
  induction ranges generalizing of with
  | nil =>
    obtain ⟨rfl, -⟩ := Prod.mk.inj (Except.ok.inj hrun)
    exact ⟨id, rfl, rfl⟩
  | cons r ranges ih =>
    rw [storeRanges] at hrun
    split at hrun
    · obtain ⟨rfl, -⟩ := Prod.mk.inj (Except.ok.inj hrun)
      exact ⟨id, rfl, rfl⟩
    · obtain ⟨of₁, hadd, hrun⟩ := bind_eq_ok hrun
      obtain ⟨-, -, hadd⟩ := bind_eq_ok hadd
      obtain rfl := Except.ok.inj hadd
      obtain ⟨hlogged, hcur, hext⟩ := ih hrun
      exact ⟨fun h => hlogged (h.congr rfl rfl rfl fun _ he => he), hcur, hext⟩

theorem Right.storeRanges (h : Right env of) {reply : Reply} {ranges : List (Nat × Nat)}
    {again : Bool} (hrun : storeRanges reply of ranges = .ok (of', again)) : Right env of' := by
  obtain ⟨hlogged, hcur, hext⟩ := storeRanges_keeps hrun
  exact ⟨hlogged h.logged, h.sized.resize hext hcur.le h.sized.size⟩

/-- The file and its extender are to become `size` bytes long. -/
theorem Right.extendto (h : Right env of) {ext : Extender} (hof : of.extender = some ext)
    {size : Nat} (hsize : sectorCount size ≤ maxSectorid) :
    Right env { of with extender := some { ext with extendto := size }, currentsize := size } :=
  h.congr rfl rfl rfl rfl (sized_extender hsize rfl (h.sized.extendedto ext hof) hsize)

theorem Right.ftruncateDown (h : Right env of) {size : Nat} {next : Next}
    (hsize : sectorCount size ≤ maxSectorid) (hrun : ftruncateDown of size = .ok next) :
    next.Right env := by
  have hframes : ∀ {old : Nat}, ∀ frame ∈ [Frame.shrink size old], frame.Sized := by
    intro old frame hframe
    rw [List.mem_singleton.mp hframe]
    exact hsize
  obtain ⟨-, -, hrun⟩ := bind_eq_ok hrun
  simp only [] at hrun
  split at hrun
  · next ext hext =>
    split at hrun
    · obtain rfl := Except.ok.inj hrun
      exact ⟨h, nofun⟩
    · split at hrun
      · obtain rfl := Except.ok.inj hrun
        exact ⟨h, hframes⟩
      · split at hrun
        · obtain rfl := Except.ok.inj hrun
          exact ⟨h.killExtender, hframes⟩
        · obtain rfl := Except.ok.inj hrun
          exact ⟨h.extendto hext hsize, nofun⟩
  · obtain rfl := Except.ok.inj hrun
    exact ⟨h, hframes⟩

theorem Right.ftruncate (h : Right env of) {size : Nat} {next : Next}
    (hsize : sectorCount size ≤ maxSectorid) (hrun : ftruncate of size = .ok next) :
    next.Right env := by
  unfold FsCrypto.ftruncate at hrun
  split at hrun
  · next hup =>
    split at hrun
    · next ext hext =>
      split at hrun
      · obtain rfl := Except.ok.inj hrun
        exact ⟨h, by simpa [Frame.Sized] using hsize⟩
      · obtain ⟨-, -, hrun⟩ := bind_eq_ok hrun
        obtain rfl := Except.ok.inj hrun
        exact ⟨h.extendto hext hsize, nofun⟩
    · split at hrun
      · split at hrun
        · obtain rfl := Except.ok.inj hrun
          exact ⟨h, by simpa [Frame.Sized] using hsize⟩
        · obtain rfl := Except.ok.inj hrun
          exact ⟨h, by simpa [Frame.Sized] using hsize⟩
      · obtain rfl := Except.ok.inj hrun
        refine ⟨h, sized_fillFrames (by omega) ?_⟩
        rwa [Nat.add_sub_cancel' hup.le]
  · split at hrun
    · split at hrun
      · obtain ⟨of₁, hzero, hrun⟩ := bind_eq_ok hrun
        obtain rfl := Except.ok.inj hrun
        obtain ⟨hlogged, hcur, hext⟩ := logged_ftruncateToZero hzero
        have hsized := h.killExtender.sized.resize hext hcur.le (by decide)
        exact ⟨⟨hlogged, hsized⟩, nofun⟩
      · exact h.ftruncateDown hsize hrun
    · obtain rfl := Except.ok.inj hrun
      exact ⟨h, nofun⟩

theorem Right.runExtender (h : Right env of) {size : Nat} (hsize : sectorCount size ≤ maxSectorid)
    (hrun : runExtender of size = .ok of') : Right env of' := by
  obtain ⟨-, -, hrun⟩ := bind_eq_ok hrun
  obtain ⟨-, -, hrun⟩ := bind_eq_ok hrun
  obtain rfl := Except.ok.inj hrun
  exact h.congr rfl rfl rfl rfl (sized_extender hsize rfl h.sized.size hsize)

theorem batch_pos {ext : Extender} (h : ext.extendedto < ext.extendto) :
    0 < ext.batch ∧ ext.extendedto + ext.batch ≤ ext.extendto := by
  unfold Extender.batch
  have hstep : extenderStep = 524288 := rfl
  rw [hstep, sectorSize_eq]
  split <;> omega

theorem runningExtender_eq_ok {ext : Extender} (h : of.runningExtender = .ok ext) :
    of.extender = some ext := by
  unfold Openfile.runningExtender at h
  split at h
  · next ext' hext =>
    rw [hext, Except.ok.inj h]
  · cases h

theorem Right.extenderFail (h : Right env of) {ext : Extender} (hof : of.extender = some ext)
    (error : Int) : Right env (of.extenderFail ext error) :=
  h.congr rfl rfl rfl rfl (sized_extender (h.sized.extendedto ext hof) rfl
    (h.sized.extendedto ext hof) (h.sized.extendto ext hof))

/-! ### One frame -/

/-- A frame that has room leaves what is right. -/
theorem Right.exec (h : Right env of) {writeid : Nat} {ret : Int} {reply : Reply} {frame : Frame}
    {next : Next} (hsized : frame.Sized) (hroom : frame.Room of ret)
    (hrun : frame.exec env writeid of ret reply = .ok next) : next.Right env := by
  cases frame with
  | waitAfter offset | waitNoExtender =>
    rw [Frame.exec] at hrun
    split at hrun
    · split at hrun
      · obtain rfl := Except.ok.inj hrun
        exact ⟨h.setWaiters _, by simp [Frame.Sized]⟩
      · obtain rfl := Except.ok.inj hrun
        exact ⟨h, by simp [Frame.Sized]⟩
    · obtain rfl := Except.ok.inj hrun
      exact ⟨h, nofun⟩
  | waitGone ret =>
    rw [Frame.exec] at hrun
    split at hrun
    · obtain rfl := Except.ok.inj hrun
      exact ⟨h, by simp [Frame.Sized]⟩
    · obtain rfl := Except.ok.inj hrun
      exact ⟨h, nofun⟩
  | waited =>
    obtain rfl := Except.ok.inj hrun
    exact ⟨h.setWaiters (· - 1), nofun⟩
  | writeNewfile buf offset checkextender =>
    obtain ⟨⟨of₁, ret₁⟩, hwrite, hrun⟩ := bind_eq_ok hrun
    obtain rfl := Except.ok.inj hrun
    exact ⟨h.writeNewfile hroom hwrite, nofun⟩
  | newfileFillzero size offset =>
    obtain ⟨⟨of₁, ret₁⟩, hfill, hrun⟩ := bind_eq_ok hrun
    obtain rfl := Except.ok.inj hrun
    exact ⟨h.newfileFillzero hsized hroom hfill, nofun⟩
  | writeModified _ _ _ | retryWrite _ _ _ | filled _ _ _ =>
    rw [Frame.exec] at hrun
    split_ifs at hrun
    all_goals
      obtain rfl := Except.ok.inj hrun
      exact ⟨h, by simp [Frame.Sized]⟩
  | filledGap buf offset checkextender =>
    rw [Frame.exec] at hrun
    split at hrun
    · obtain rfl := Except.ok.inj hrun
      exact ⟨h, nofun⟩
    · obtain ⟨ranges, -, hrun⟩ := bind_eq_ok hrun
      split at hrun
      · obtain rfl := Except.ok.inj hrun
        exact ⟨h, sized_writeNewfileFrames⟩
      · obtain rfl := Except.ok.inj hrun
        exact ⟨h, by simp [Frame.Sized]⟩
  | fetched ranges buf offset checkextender =>
    rw [Frame.exec] at hrun
    split at hrun
    · obtain rfl := Except.ok.inj hrun
      exact ⟨h, nofun⟩
    · obtain ⟨⟨of₁, again⟩, hstore, hrun⟩ := bind_eq_ok hrun
      split at hrun
      · obtain rfl := Except.ok.inj hrun
        exact ⟨h.storeRanges hstore, by simp [Frame.Sized]⟩
      · obtain rfl := Except.ok.inj hrun
        exact ⟨h.storeRanges hstore, sized_writeNewfileFrames⟩
  | modfileFillzero size offset checkextender =>
    rw [Frame.exec] at hrun
    split at hrun
    · obtain rfl := Except.ok.inj hrun
      exact ⟨h, nofun⟩
    · obtain rfl := Except.ok.inj hrun
      exact ⟨h, List.forall_mem_append.mpr ⟨sized_writeModifiedFrames, by simp [Frame.Sized]⟩⟩
  | ftruncate size => exact h.ftruncate hsized hrun
  | waitedNone size =>
    rw [Frame.exec] at hrun
    split at hrun
    · obtain rfl := Except.ok.inj hrun
      exact ⟨h, nofun⟩
    · obtain rfl := Except.ok.inj hrun
      exact ⟨h, by simpa [Frame.Sized] using hsized⟩
  | runExtender size =>
    rw [Frame.exec] at hrun
    split at hrun
    · obtain rfl := Except.ok.inj hrun
      exact ⟨h, nofun⟩
    · obtain ⟨of₁, hext, hrun⟩ := bind_eq_ok hrun
      obtain rfl := Except.ok.inj hrun
      exact ⟨h.runExtender hsized hext, nofun⟩
  | shrink size old =>
    rw [Frame.exec] at hrun
    split at hrun
    · obtain ⟨rd, -, hrun⟩ := bind_eq_ok hrun
      split at hrun
      · obtain rfl := Except.ok.inj hrun
        exact ⟨h, nofun⟩
      · obtain ⟨-, -, hrun⟩ := bind_eq_ok hrun
        obtain rfl := Except.ok.inj hrun
        exact ⟨h, by simpa [Frame.Sized] using hsized⟩
    · obtain rfl := Except.ok.inj hrun
      exact ⟨h, by simpa [Frame.Sized] using hsized⟩
  | shrinkRead size old before =>
    rw [Frame.exec] at hrun
    split at hrun
    · cases hrun
    · split at hrun
      · obtain rfl := Except.ok.inj hrun
        exact ⟨h, by simpa [Frame.Sized] using hsized⟩
      · obtain rfl := Except.ok.inj hrun
        exact ⟨h, List.forall_mem_append.mpr
          ⟨sized_writeModifiedFrames, by simpa [Frame.Sized] using hsized⟩⟩
  | shrinkUnlock =>
    obtain rfl := Except.ok.inj hrun
    exact ⟨h, nofun⟩
  | shrinkWritten size old before buf =>
    rw [Frame.exec] at hrun
    split at hrun
    · cases hrun
    · split at hrun
      · obtain rfl := Except.ok.inj hrun
        exact ⟨h, by simpa [Frame.Sized] using hsized⟩
      · obtain rfl := Except.ok.inj hrun
        exact ⟨h, by simpa [Frame.Sized] using hsized⟩
  | cutLastSector size buf =>
    obtain ⟨of₁, hcut, hrun⟩ := bind_eq_ok hrun
    obtain rfl := Except.ok.inj hrun
    obtain ⟨hlogged, hext, hcur⟩ := h.logged.cutLastSector hsized hroom.1 hcut
    exact ⟨⟨hlogged, h.sized.resize hext hcur.le hsized⟩, nofun⟩
  | flush =>
    rw [Frame.exec] at hrun
    split at hrun
    · obtain rfl := Except.ok.inj hrun
      exact ⟨h, nofun⟩
    · next hret =>
      obtain ⟨⟨of₁, ret₁⟩, hfin, hrun⟩ := bind_eq_ok hrun
      obtain rfl := Except.ok.inj hrun
      have htree := hroom.2 _ (if_pos (not_not.mp hret))
      exact ⟨(h.finalizeLog htree hfin).1, nofun⟩
  | extender =>
    obtain ⟨ext, hext, hrun⟩ := bind_eq_ok hrun
    have hof := runningExtender_eq_ok hext
    split at hrun
    · next hwork =>
      obtain ⟨hpos, hend⟩ := batch_pos hwork.2
      have hsize := (sectorCount_mono hend).trans (h.sized.extendto ext hof)
      obtain rfl := Except.ok.inj hrun
      exact ⟨h, List.forall_mem_append.mpr
        ⟨sized_fillFrames hpos hsize, by simpa [Frame.Sized] using hsize⟩⟩
    · obtain rfl := Except.ok.inj hrun
      refine ⟨h.congr rfl rfl rfl rfl ?_, by simp [Frame.Sized]⟩
      exact h.sized.mapExtender (f := fun ext => { ext with ready := true }) (fun _ => ⟨rfl, rfl⟩)
        h.sized.size rfl
  | extended extendedto =>
    obtain ⟨ext, hext, hrun⟩ := bind_eq_ok hrun
    have hof := runningExtender_eq_ok hext
    split at hrun
    · obtain rfl := Except.ok.inj hrun
      exact ⟨h.extenderFail hof ret, by simp [Frame.Sized]⟩
    · obtain rfl := Except.ok.inj hrun
      refine ⟨h.congr rfl rfl rfl rfl ?_, by simp [Frame.Sized]⟩
      exact sized_extender h.sized.size rfl hsized (h.sized.extendto ext hof)
  | extenderYield =>
    obtain ⟨ext, -, hrun⟩ := bind_eq_ok hrun
    obtain rfl := Except.ok.inj hrun
    exact ⟨h, by simp [Frame.Sized]⟩
  | extenderFinalize =>
    obtain ⟨ext, hext, hrun⟩ := bind_eq_ok hrun
    split at hrun
    · obtain rfl := Except.ok.inj hrun
      exact ⟨h, by simp [Frame.Sized]⟩
    · next hlong =>
      obtain ⟨⟨of₁, ret₁⟩, hfin, hrun⟩ := bind_eq_ok hrun
      have htree := hroom.2 _ (if_neg hlong)
      obtain ⟨hright, -, hext₁⟩ := h.finalizeLog htree hfin
      split at hrun
      · obtain rfl := Except.ok.inj hrun
        exact ⟨hright.extenderFail (hext₁.trans (runningExtender_eq_ok hext)) ret₁,
          by simp [Frame.Sized]⟩
      · obtain rfl := Except.ok.inj hrun
        exact ⟨hright, by simp [Frame.Sized]⟩
  | extenderEnd =>
    obtain ⟨ext, -, hrun⟩ := bind_eq_ok hrun
    split at hrun
    · obtain rfl := Except.ok.inj hrun
      exact ⟨h, by simp [Frame.Sized]⟩
    · obtain rfl := Except.ok.inj hrun
      exact ⟨h.congr rfl rfl rfl rfl ⟨h.sized.size, nofun, nofun⟩, nofun⟩

end

/-! ## Runs -/

namespace Machine

variable {env : Env} {ι : Type} {m m' : Machine ι}

/-- What an act must meet: a truncation asks for a size whose sector ids are not too large, and a
frame that runs has room. -/
def Fine (m : Machine ι) : Act ι → Prop
  | .start _ (.truncate size) => sectorCount size ≤ maxSectorid
  | .start _ _ => True
  | .run t _ => ∀ frame ∈ (m.stack t).head?, frame.Room m.of (m.ret t)

instance (m : Machine ι) : DecidablePred m.Fine
  | .start _ (.truncate size) => inferInstanceAs (Decidable (sectorCount size ≤ maxSectorid))
  | .start _ (.write _ _) | .start _ .flush | .start _ (.read _ _) =>
    inferInstanceAs (Decidable True)
  | .run t _ => inferInstanceAs (Decidable (∀ frame ∈ (m.stack t).head?, _))

theorem sized_callFrames {of : Openfile} {call : Call} {t : ι} (hfine : m.Fine (.start t call)) :
    ∀ frame ∈ call.frames of, frame.Sized := by
  cases call with
  | write buf offset =>
    rw [Call.frames]
    split
    · exact sized_writeNewfileFrames
    · exact sized_writeModifiedFrames
  | truncate size =>
    rw [Call.frames]
    split
    · exact nofun
    · intro frame hframe
      rw [List.mem_singleton.mp hframe]
      exact hfine
  | flush => simp [Call.frames, Frame.Sized]
  | read size offset =>
    rw [Call.frames, readFrames]
    split_ifs
    all_goals simp [Frame.Sized]

/-- The file is right, and no thread has a frame with sector ids that are too large. -/
structure Right (env : Env) (m : Machine ι) : Prop where
  file : FsCrypto.Right env m.of
  frames : ∀ t, ∀ frame ∈ m.stack t, frame.Sized

variable [DecidableEq ι]

theorem Right.resume (h : m.Right env) (t : Option ι) {frames : List Frame}
    (hframes : ∀ frame ∈ frames, frame.Sized) (unlocks : Bool) :
    (m.resume t frames unlocks).Right env := by
  refine ⟨h.file, fun t' frame hframe => ?_⟩
  change frame ∈ Function.update m.stack t frames t' at hframe
  rw [Function.update_apply] at hframe
  split at hframe
  · exact hframes frame hframe
  · exact h.frames t' frame hframe

/-- One act. -/
theorem Right.exec (h : m.Right env) {act : Act ι} (hfine : m.Fine act) {out : Option Int}
    (hrun : m.exec env act = .ok (out, m')) : m'.Right env := by
  cases act with
  | start t call =>
    rw [Machine.exec] at hrun
    split at hrun
    · obtain ⟨-, rfl⟩ := Prod.mk.inj (Except.ok.inj hrun)
      exact Right.resume (m := { m with writeid := call.nextWriteid m.of m.writeid })
        ⟨h.file, h.frames⟩ _ (sized_callFrames hfine) false
    · cases hrun
  | run t reply =>
    rw [Machine.exec] at hrun
    split at hrun
    · cases hrun
    · next frame rest hstack =>
      have hsized := List.forall_mem_cons.mp (hstack ▸ h.frames t)
      split at hrun
      · split at hrun
        · cases hrun
        · next next hexec =>
          obtain ⟨-, rfl⟩ := Prod.mk.inj (Except.ok.inj hrun)
          have hroom : frame.Room m.of (m.ret t) := hfine frame (by rw [hstack]; rfl)
          obtain ⟨hfile, hframes⟩ := h.file.exec hsized.1 hroom hexec
          refine Right.resume ⟨hfile, fun t' frame' hframe => ?_⟩ t
            (List.forall_mem_append.mpr ⟨hframes, hsized.2⟩) next.unlocks
          simp only [] at hframe
          split at hframe
          · rw [Function.update_apply] at hframe
            split at hframe
            · rw [List.mem_singleton.mp hframe]
              trivial
            · exact h.frames t' frame' hframe
          · exact h.frames t' frame' hframe
      · cases hrun

theorem Right.run (h : m.Right env) {acts : List (Act ι)} {t : List (Option Int) × Machine ι}
    (hfine : MeetsAll (Machine.exec env) Fine m acts)
    (hrun : Runs.run (Machine.exec env) m acts = .ok t) : t.2.Right env :=
  hfine.inv (fun m => m.Right env) (fun hm hact hexec => hm.exec hact hexec) h hrun

end Machine

/-- Toy keys: the identity for AES and always the same text for the HMAC. -/
def Env.fixed : Env where
  encoder := { aes := Equiv.refl _, hmacSha512 := fun _ => Fixed.ofBytes 64 (List.replicate 64 1) }
  long := .long64
  rnd := fun _ => Fixed.ofBytes 16 []
  aligned := fun _ => true
  fastHash256 := fun _ => Fixed.ofBytes 32 []
  crc32c := fun _ => 0
  stack := fun _ => Fixed.ofBytes sectorSize []

/-- A file of twenty sevens, as it is on the server. -/
def sevens : Bytes :=
  let enc := Env.fixed.encode 0 (List.replicate 20 7) 0
  enc.1 ++ enc.2

/-- The file is opened and changed by two threads.  The first one waits for the network when the
second one writes, and starts again; the second one makes the file shorter, the first one writes
behind its end and flushes it, and the second one writes once more. -/
def changes : List (Act Nat) :=
  let runs (t n : Nat) : List (Act Nat) :=
    List.replicate n (.run (some t) ⟨0, fun i => sevens.getD i 0⟩)
  [.start 0 (.write [1, 2] 5)] ++ runs 0 4 ++ [.start 1 (.write [3] 3)] ++ runs 1 7 ++ runs 0 5 ++
    [.start 1 (.truncate 4)] ++ runs 1 3 ++ [.start 0 (.write [9] 30)] ++ runs 0 13 ++
    [.start 0 .flush] ++ runs 0 2 ++ [.start 1 (.write [1] 2)] ++ runs 1 6

section

variable {env : Env} {of : Openfile}

end

end PcloudClient.FsCrypto
