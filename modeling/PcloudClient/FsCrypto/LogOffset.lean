/-
  FsCrypto/LogOffset.lean --- the offset of the log and the places of its records.

  `logoffset` has 32 bits and is advanced without a check.  `Logged` says that it is the
  length of the log and that every entry in the tree leads to a record of its sector.
  What writes to the log keeps it, also when it fails and for sector ids that the
  comparison in the tree gets wrong, as long as there is room in the log.
-/
import PcloudClient.FsCrypto.LogPhase
import PcloudClient.FsCrypto.NewfileProofs

set_option autoImplicit false

namespace PcloudClient.FsCrypto

open PcloudClient.Bytes

/-! ## Entries and their records -/

/-- The entry leads to a record of its own sector, which its auth record decodes. -/
def Addresses (env : Env) (log : Bytes) (e : SectorInlog) : Prop :=
  let hdr := LogHeader.decode (File.pread log LogHeader.size e.logoffset)
  hdr.type = logData ∧ hdr.offset = dataOffsetBySectorid e.sectorid ∧
    e.logoffset + LogHeader.size + hdr.length ≤ log.length ∧
    (env.decode (File.pread log hdr.length (e.logoffset + LogHeader.size)) e.auth e.sectorid).1 = 0

/-- The offset of the log is its length and the entries lead to their records. -/
structure Logged (env : Env) (of : Openfile) : Prop where
  log : ∃ recs, LogIs of recs
  ids : ∀ e ∈ of.sectorsinlog.toList, e.sectorid < 2 ^ 32
  auths : ∀ e ∈ of.sectorsinlog.toList, e.auth.length = 32
  entry : ∀ e ∈ of.sectorsinlog.toList, Addresses env of.logfile e

theorem Logged.offset {env : Env} {of : Openfile} (h : Logged env of) :
    of.logoffset = of.logfile.length := by
  obtain ⟨recs, hlog⟩ := h.log
  exact hlog.offset

/-- Only the log and the entries have a part in it, and an entry less does no harm. -/
theorem Logged.congr {env : Env} {of of' : Openfile} (h : Logged env of)
    (hfile : of'.logfile = of.logfile) (hoff : of'.logoffset = of.logoffset)
    (hctx : of'.loghashctx = of.loghashctx)
    (hsub : ∀ e ∈ of'.sectorsinlog.toList, e ∈ of.sectorsinlog.toList) : Logged env of' := by
  obtain ⟨recs, hlog⟩ := h.log
  refine ⟨⟨recs, ?_, ?_, ?_, ?_, hlog.fits⟩, fun e he => h.ids e (hsub e he),
    fun e he => h.auths e (hsub e he), fun e he => ?_⟩
  · rw [hfile, hlog.file]
  · rw [hctx, hlog.ctx]
  · rw [hoff, hfile, hlog.offset]
  · rw [hfile]
    exact hlog.short
  · rw [hfile]
    exact h.entry e (hsub e he)

/-- A log that was just started. -/
theorem logged_nil {env : Env} {of : Openfile} (hfile : of.logfile = logHead)
    (hoff : of.logoffset = 4096) (hctx : of.loghashctx = []) (htree : of.sectorsinlog = .nil) :
    Logged env of := by
  have hnone : ∀ e, e ∉ of.sectorsinlog.toList := by
    rw [htree]
    exact fun e => List.not_mem_nil
  exact ⟨⟨[], logIs_nil hfile hoff hctx⟩, fun e he => absurd he (hnone e),
    fun e he => absurd he (hnone e), fun e he => absurd he (hnone e)⟩

/-- A longer log has the record where it was. -/
theorem Addresses.append {env : Env} {log : Bytes} {e : SectorInlog} (h : Addresses env log e)
    (more : Bytes) : Addresses env (log ++ more) e := by
  obtain ⟨htype, hoff, hend, hdec⟩ := h
  have hhead : File.pread (log ++ more) LogHeader.size e.logoffset =
      File.pread log LogHeader.size e.logoffset :=
    File.pread_append_left (by omega)
  simp only [Addresses, hhead, File.pread_append_left hend]
  refine ⟨htype, hoff, ?_, hdec⟩
  rw [List.length_append]
  omega

/-- The record that was just appended. -/
theorem addresses_new {env : Env} {log b auth : Bytes} {s : Nat} (hs : s < 2 ^ 32)
    (hb : b.length ≤ 4096) (hdec : (env.decode b auth s).1 = 0) :
    Addresses env (log ++ encodeRec (dataOffsetBySectorid s, b)) ⟨s, log.length, auth⟩ := by
  have hlen : (LogHeader.data b.length (dataOffsetBySectorid s)).length = b.length :=
    LogHeader.data_length (by omega)
  have hhead : File.pread (log ++ encodeRec (dataOffsetBySectorid s, b)) 16 log.length =
      (LogHeader.data b.length (dataOffsetBySectorid s)).encode := by
    rw [encodeRec]
    exact File.pread_append_mid rfl (LogHeader.length_encode _)
  have hbody :
      File.pread (log ++ encodeRec (dataOffsetBySectorid s, b)) b.length (log.length + 16) =
      b := by
    rw [encodeRec, ← List.append_assoc, ← List.append_nil (_ ++ b), List.append_assoc]
    refine File.pread_append_mid ?_ rfl
    rw [List.length_append, LogHeader.length_encode]
  unfold Addresses
  simp only [LogHeader.size_eq, hhead, LogHeader.decode_encode, hlen, hbody]
  refine ⟨rfl, LogHeader.data_offset (dataOffset_lt hs), ?_, hdec⟩
  rw [List.length_append, length_encodeRec, add_assoc]

/-! ## The ids in the tree -/

/-- The tree of the sector ids. -/
def Openfile.idsTree (of : Openfile) : Ptree.Tree Nat := of.sectorsinlog.map (·.sectorid)

/-- `psync_fs_crypto_set_sector_log_offset` on the ids. -/
def insertId (t : Ptree.Tree Nat) (s : Nat) : Ptree.Tree Nat :=
  t.insert (fun x => sectoridDiff s x) id s

theorem toList_idsTree (of : Openfile) : of.idsTree.toList = of.ids :=
  Ptree.Tree.toList_map _ _

theorem map_setSectorLogOffset (t : Ptree.Tree SectorInlog) (s off : Nat) (auth : Bytes) :
    (setSectorLogOffset t s off auth).map (·.sectorid) = insertId (t.map (·.sectorid)) s := by
  unfold setSectorLogOffset insertId
  refine Ptree.Tree.map_insert (·.sectorid) ?_ ?_ _ t
  · intro e
    rfl
  · intro e
    rfl

theorem sectoridDiff_eq_zero {s u : Nat} (hs : s < 2 ^ 32) (hu : u < 2 ^ 32)
    (h : sectoridDiff s u = 0) : u = s := by
  unfold sectoridDiff Int.bmod at h
  simp only [] at h
  split_ifs at h <;> omega

/-- Entries after an insertion, whatever the comparison does with the order. -/
theorem mem_setSectorLogOffset {t : Ptree.Tree SectorInlog} {s off : Nat} {auth : Bytes}
    {e : SectorInlog} (hs : s < 2 ^ 32) (ht : ∀ e ∈ t.toList, e.sectorid < 2 ^ 32)
    (he : e ∈ (setSectorLogOffset t s off auth).toList) : e = ⟨s, off, auth⟩ ∨ e ∈ t.toList := by
  rcases Ptree.Tree.mem_insert he with rfl | he | ⟨x, hx, hcmp, rfl⟩
  · exact Or.inl rfl
  · exact Or.inr he
  · left
    rw [← sectoridDiff_eq_zero hs (ht x hx) hcmp]

/-! ## Appending records of sectors -/

/-- The sectors `ss` were written to the log one after the other; with room for them the
log stays right. -/
structure Appends (env : Env) (of of' : Openfile) (ss : List Nat) : Prop where
  logged : Logged env of → of.logfile.length + 4112 * ss.length < 2 ^ 32 →
    Logged env of' ∧ of'.logfile.length ≤ of.logfile.length + 4112 * ss.length
  idsTree : of'.idsTree = ss.foldl insertId of.idsTree
  extender : of'.extender = of.extender

section

variable {env : Env} {of of' of₁ of₂ : Openfile}

theorem Appends.refl (env : Env) (of : Openfile) : Appends env of of [] :=
  ⟨fun h _ => ⟨h, le_rfl⟩, rfl, rfl⟩

theorem Appends.trans {ss ss' : List Nat} (h : Appends env of of₁ ss)
    (h' : Appends env of₁ of₂ ss') :
    Appends env of of₂ (ss ++ ss') where
  logged := by
    intro hlogged hroom
    rw [List.length_append] at hroom ⊢
    obtain ⟨hlogged₁, hlen₁⟩ := h.logged hlogged (by omega)
    obtain ⟨hlogged₂, hlen₂⟩ := h'.logged hlogged₁ (by omega)
    exact ⟨hlogged₂, by omega⟩
  idsTree := by rw [h'.idsTree, h.idsTree, List.foldl_append]
  extender := by rw [h'.extender, h.extender]

theorem growTo_eq (of : Openfile) (offset : Nat) :
    of.growTo offset = { of with currentsize := max of.currentsize offset } := by
  unfold Openfile.growTo
  split
  · next h => rw [max_eq_right h.le]
  · next h => rw [max_eq_left (not_lt.mp h)]

theorem Appends.growTo {ss : List Nat} (h : Appends env of of₁ ss) (offset : Nat) :
    Appends env of (of₁.growTo offset) ss := by
  rw [growTo_eq]
  refine ⟨?_, h.idsTree, h.extender⟩
  intro hlogged hroom
  obtain ⟨hlogged₁, hlen₁⟩ := h.logged hlogged hroom
  exact ⟨hlogged₁.congr rfl rfl rfl fun _ he => he, hlen₁⟩

/-- One sector in a log that is right. -/
theorem Logged.written (h : Logged env of) {buf : Bytes} {s : Nat} (hs : s < 2 ^ 32)
    (hbuf : buf.length ≤ 4096) (hroom : of.logfile.length + 4112 < 2 ^ 32) :
    Logged env (of.written env buf s) ∧
      (of.written env buf s).logfile.length ≤ of.logfile.length + 4112 := by
  have hlen := length_sectorRecord env of buf s
  have hlog : (of.written env buf s).logfile =
      of.logfile ++ encodeRec (sectorRecord env of buf s) :=
    rfl
  have hlength : (of.written env buf s).logfile.length = of.logfile.length + (16 + buf.length) := by
    rw [hlog, List.length_append, hlen]
  have hmem : ∀ e ∈ (of.written env buf s).sectorsinlog.toList,
      e = ⟨s, of.logfile.length, (env.encode of.encodes buf s).2⟩ ∨ e ∈ of.sectorsinlog.toList := by
    intro e he
    rw [← h.offset]
    exact mem_setSectorLogOffset hs h.ids he
  refine ⟨⟨?_, ?_, ?_, ?_⟩, by omega⟩
  · obtain ⟨recs, hrecs⟩ := h.log
    have hfits : RecordFits (sectorRecord env of buf s) := by
      refine ⟨dataOffset_lt hs, ?_⟩
      rw [sectorRecord, (env.length_encode _ _ _).1]
      exact hbuf
    have happ := hrecs.appendRec hfits (by rw [hlen]; omega)
      [.pwrite .log (encodeRec (sectorRecord env of buf s)) of.logoffset]
    exact ⟨_, happ.file, happ.ctx, happ.offset, happ.short, happ.fits⟩
  · intro e he
    rcases hmem e he with rfl | he
    · exact hs
    · exact h.ids e he
  · intro e he
    rcases hmem e he with rfl | he
    · exact (env.length_encode _ _ _).2
    · exact h.auths e he
  · intro e he
    rw [hlog]
    rcases hmem e he with rfl | he
    · refine addresses_new hs ?_ ?_
      · rw [(env.length_encode _ _ _).1]
        exact hbuf
      · rw [env.decode_encode]
    · exact (h.entry e he).append _

theorem appends_writeFull {buf : Bytes} {s : Nat} (hs : s < 2 ^ 32)
    (hrun : writeNewfileFullSector env of buf s = .ok of') :
    Appends env of of' [s] ∧ of'.currentsize = of.currentsize := by
  have hbuf : buf.length ≤ 4096 := by
    obtain ⟨u, hassert, -⟩ := bind_eq_ok hrun
    exact assert_eq_ok hassert
  obtain ⟨htree, hext, hcur, hwritten⟩ := writeNewfileFullSector_ok hrun
  refine ⟨⟨fun h hroom => ?_, ?_, hext⟩, hcur⟩
  · rw [List.length_singleton, mul_one] at hroom ⊢
    obtain ⟨hfile, hoff, hctx⟩ := hwritten h.offset
    obtain ⟨hlogged, hlen⟩ := h.written hs hbuf hroom
    exact ⟨hlogged.congr hfile hoff hctx fun e he => by rwa [htree] at he, by rwa [hfile]⟩
  · rw [Openfile.idsTree, htree]
    exact map_setSectorLogOffset _ _ _ _

theorem appends_writePartial {buf : Bytes} {s o : Nat} {ret : Int}
    (hs : s < 2 ^ 32) (hrun : writeNewfilePartialSector env of buf s o = .ok (of', ret)) :
    (of' = of ∧ ret < 0) ∨
      (ret = 0 ∧ Appends env of of' [s] ∧ of'.currentsize = of.currentsize) := by
  obtain ⟨-, -, hrun⟩ := bind_eq_ok hrun
  obtain ⟨rd, -, hrun⟩ := bind_eq_ok hrun
  split at hrun
  · next hneg =>
    simp only [pure_eq_ok, Except.ok.injEq, Prod.mk.injEq] at hrun
    obtain ⟨rfl, rfl⟩ := hrun
    exact Or.inl ⟨rfl, hneg⟩
  · obtain ⟨of₁, hwrite, hrun⟩ := bind_eq_ok hrun
    simp only [pure_eq_ok, Except.ok.injEq, Prod.mk.injEq] at hrun
    obtain ⟨rfl, rfl⟩ := hrun
    exact Or.inr ⟨rfl, appends_writeFull hs hwrite⟩

/-! ## Calls that write -/

/-- A call that writes the sectors `ss`, or the first of them when it fails, and makes the
file `size` bytes long. -/
def Writes (env : Env) (of of' : Openfile) (ret : Int) (ss : List Nat) (size : Nat) : Prop :=
  ∃ ss', ss' <+: ss ∧ Appends env of of' ss' ∧ of'.currentsize ≤ size ∧
    (ret = 0 → ss' = ss ∧ of'.currentsize = size)

theorem Appends.writes {ss : List Nat} {size : Nat} (h : Appends env of of' ss)
    (hsize : of'.currentsize = size) (ret : Int) : Writes env of of' ret ss size :=
  ⟨ss, List.prefix_rfl, h, hsize.le, fun _ => ⟨rfl, hsize⟩⟩

/-- A call that failed before it wrote anything. -/
theorem writes_nothing {ret : Int} {ss : List Nat} {size : Nat} (hret : ret ≠ 0)
    (hsize : of.currentsize ≤ size) : Writes env of of ret ss size :=
  ⟨[], List.nil_prefix, Appends.refl env of, hsize, fun h => absurd h hret⟩

theorem Appends.then_writes {ss ss' : List Nat} {ret : Int} {size : Nat} (h : Appends env of of₁ ss)
    (h' : Writes env of₁ of₂ ret ss' size) : Writes env of of₂ ret (ss ++ ss') size := by
  obtain ⟨pre, hpre, happ, hle, hok⟩ := h'
  refine ⟨ss ++ pre, (List.prefix_append_right_inj ss).mpr hpre, h.trans happ, hle, ?_⟩
  intro hret
  obtain ⟨rfl, hsize⟩ := hok hret
  exact ⟨rfl, hsize⟩

theorem currentsize_growTo (of : Openfile) (offset : Nat) :
    (of.growTo offset).currentsize = max of.currentsize offset := by
  rw [growTo_eq]

theorem appends_fillzeroLoop {size : Nat} : ∀ {of of' : Openfile} {offset s : Nat},
    s + sectorCount size ≤ 2 ^ 32 →
    fillzeroLoop env of size offset s = .ok of' →
    Appends env of of' (List.range' s (sectorCount size)) ∧
      of'.currentsize =
        if size = 0 then of.currentsize else max of.currentsize (offset + size) := by
  induction size using Nat.strong_induction_on with
  | _ size ih =>
    intro of of' offset s hs hrun
    rw [fillzeroLoop] at hrun
    split at hrun
    · next hzero =>
      obtain rfl := Except.ok.inj hrun
      rw [if_pos hzero, hzero]
      exact ⟨Appends.refl env of, rfl⟩
    · next hpos =>
      simp only [sectorSize_eq] at hrun
      set wr := if 4096 < size then 4096 else size with hwr
      have hwrle : wr ≤ size ∧ wr ≤ 4096 ∧ 0 < wr := by
        rw [hwr]
        split_ifs <;> omega
      have hnext : sectorCount size = sectorCount (size - wr) + 1 := by
        rw [sectorCount_eq_div, sectorCount_eq_div, hwr]
        split_ifs <;> omega
      rw [hnext] at hs
      obtain ⟨of₁, hwrite, hrest⟩ := bind_eq_ok hrun
      obtain ⟨happ, hcur⟩ := appends_writeFull (by omega) hwrite
      have happ₁ := happ.growTo (offset + wr)
      obtain ⟨hrest, hcur'⟩ := ih (size - wr) (by omega) (by omega) hrest
      rw [hnext, List.range'_succ]
      refine ⟨happ₁.trans hrest, ?_⟩
      rw [hcur', currentsize_growTo, hcur, if_neg hpos]
      split_ifs <;> omega

/-- Sectors `lo .. hi - 1`. -/
def sectorRange (lo hi : Nat) : List Nat := List.range' lo (hi - lo)

@[simp] theorem length_sectorRange (lo hi : Nat) : (sectorRange lo hi).length = hi - lo :=
  List.length_range' ..

theorem sectorRange_cons {lo hi : Nat} (h : lo < hi) :
    sectorRange lo hi = lo :: sectorRange (lo + 1) hi := by
  have hsucc : hi - lo = hi - (lo + 1) + 1 := by omega
  rw [sectorRange, hsucc, List.range'_succ]
  rfl

theorem writes_newfileFillzero {size offset : Nat} {ret : Int}
    (hpos : 0 < size) (hs : sectorCount (offset + size) ≤ 2 ^ 32)
    (hrun : newfileFillzero env of size offset = .ok (of', ret)) :
    Writes env of of' ret (sectorRange (offset / 4096) (sectorCount (offset + size)))
      (max of.currentsize (offset + size)) := by
  rw [newfileFillzero] at hrun
  simp only [sectorSize_eq] at hrun
  rw [sectorCount_eq_div] at hs ⊢
  split at hrun
  · next hmod =>
    obtain ⟨⟨of₁, ret₁⟩, hpart, hlast⟩ := bind_eq_ok hrun
    clear hrun
    have hcons : sectorRange (offset / 4096) ((offset + size + 4095) / 4096) =
        [offset / 4096] ++ sectorRange (offset / 4096 + 1) ((offset + size + 4095) / 4096) :=
      sectorRange_cons (by omega)
    rcases appends_writePartial (by omega) hpart with ⟨rfl, hneg⟩ | ⟨rfl, happ, hcur⟩
    · simp only [if_pos hneg, pure_eq_ok, Except.ok.injEq, Prod.mk.injEq] at hlast
      obtain ⟨rfl, rfl⟩ := hlast
      exact writes_nothing (by omega) (le_max_left _ _)
    · simp only [lt_irrefl, if_false] at hlast
      obtain ⟨of₂, hloop, hlast⟩ := bind_eq_ok hlast
      simp only [pure_eq_ok, Except.ok.injEq, Prod.mk.injEq] at hlast
      obtain ⟨rfl, rfl⟩ := hlast
      set wr := min (4096 - offset % 4096) size with hwr
      have happ₁ := happ.growTo (offset + wr)
      have hcount :
          sectorCount (size - wr) = (offset + size + 4095) / 4096 - (offset / 4096 + 1) := by
        rw [sectorCount_eq_div]
        omega
      obtain ⟨hrest, hcur'⟩ := appends_fillzeroLoop (by omega) hloop
      rw [hcount] at hrest
      rw [hcons]
      refine (happ₁.trans hrest).writes ?_ 0
      rw [hcur', currentsize_growTo, hcur]
      split_ifs <;> omega
  · next hmod =>
    obtain ⟨of₂, hloop, hrun⟩ := bind_eq_ok hrun
    simp only [pure_eq_ok, Except.ok.injEq, Prod.mk.injEq] at hrun
    obtain ⟨rfl, rfl⟩ := hrun
    have hcount : sectorCount size = (offset + size + 4095) / 4096 - offset / 4096 := by
      rw [sectorCount_eq_div]
      omega
    obtain ⟨hrest, hcur'⟩ := appends_fillzeroLoop (by omega) hloop
    rw [hcount] at hrest
    refine hrest.writes ?_ 0
    rw [hcur', if_neg (by omega)]

/-- The last partial sector of `writeSectorsLoop`. -/
theorem appends_writeLast {buf : Bytes} {s : Nat} {ret : Int} {full : Prop}
    [Decidable full] (hs : s < 2 ^ 32)
    (hrun : (if full then
        (fun of => (of, (0 : Int))) <$> writeNewfileFullSector env of buf s
      else writeNewfilePartialSector env of buf s 0) = .ok (of', ret)) :
    (of' = of ∧ ret < 0) ∨
      (ret = 0 ∧ Appends env of of' [s] ∧ of'.currentsize = of.currentsize) := by
  split at hrun
  · cases hwrite : writeNewfileFullSector env of buf s with
    | error e =>
      rw [hwrite] at hrun
      exact absurd hrun (by simp [Functor.map, Except.map])
    | ok of₁ =>
      rw [hwrite, map_ok] at hrun
      simp only [Except.ok.injEq, Prod.mk.injEq] at hrun
      obtain ⟨rfl, rfl⟩ := hrun
      exact Or.inr ⟨rfl, appends_writeFull hs hwrite⟩
  · exact appends_writePartial hs hrun

theorem writes_writeSectorsLoop {len : Nat} : ∀ {of of' : Openfile} {buf : Bytes} {offset s : Nat}
    {ret : Int}, buf.length = len → s + sectorCount len ≤ 2 ^ 32 →
    writeSectorsLoop env of buf offset s = .ok (of', ret) →
    Writes env of of' ret (List.range' s (sectorCount len))
      (if len = 0 then of.currentsize else max of.currentsize (offset + len)) := by
  induction len using Nat.strong_induction_on with
  | _ len ih =>
    intro of of' buf offset s ret hlen hs hrun
    rw [writeSectorsLoop] at hrun
    split at hrun
    · next hbig =>
      -- a full sector and the rest
      rw [sectorSize_eq] at hbig
      simp only [sectorSize_eq] at hrun
      have hnext : sectorCount len = sectorCount (len - 4096) + 1 := by
        rw [sectorCount_eq_div, sectorCount_eq_div]
        omega
      rw [hnext] at hs
      obtain ⟨of₁, hwrite, hrest⟩ := bind_eq_ok hrun
      obtain ⟨happ, hcur⟩ := appends_writeFull (by omega) hwrite
      have happ₁ := happ.growTo (offset + 4096)
      have hloop := ih (len - 4096) (by omega) (by rw [List.length_drop, hlen]) (by omega) hrest
      have hsize : (if len - 4096 = 0 then (of₁.growTo (offset + 4096)).currentsize else
          max (of₁.growTo (offset + 4096)).currentsize (offset + 4096 + (len - 4096))) =
          if len = 0 then of.currentsize else max of.currentsize (offset + len) := by
        rw [currentsize_growTo, hcur, if_neg (by omega : ¬ len = 0)]
        split_ifs <;> omega
      rw [hsize] at hloop
      rw [hnext, List.range'_succ]
      exact happ₁.then_writes hloop
    · next hsmall =>
      rw [sectorSize_eq] at hsmall
      split at hrun
      · next hne =>
        -- the last sector
        have hpos : 0 < len := by
          rw [← hlen]
          exact List.length_pos_iff.mpr hne
        have hone : sectorCount len = 1 := by
          rw [sectorCount_eq_div]
          omega
        rw [hone] at hs
        rw [hone, if_neg hpos.ne']
        have hjoin : ((if offset = of.currentsize then
            (fun of => (of, (0 : Int))) <$> writeNewfileFullSector env of buf s
            else writeNewfilePartialSector env of buf s 0) >>= fun res =>
            if res.2 ≠ 0 then pure res else pure (res.1.growTo (offset + buf.length), 0)) =
            .ok (of', ret) := by
          rw [← hrun]
          split
          · rfl
          · rfl
        obtain ⟨⟨of₁, ret₁⟩, hlast, hend⟩ := bind_eq_ok hjoin
        clear hrun hjoin
        rcases appends_writeLast (by omega) hlast with ⟨rfl, hneg⟩ | ⟨rfl, happ, hcur⟩
        · rw [if_pos (by omega)] at hend
          simp only [pure_eq_ok, Except.ok.injEq, Prod.mk.injEq] at hend
          obtain ⟨rfl, rfl⟩ := hend
          exact writes_nothing (by omega) (le_max_left _ _)
        · simp only [ne_eq, not_true_eq_false, if_false, pure_eq_ok, Except.ok.injEq,
            Prod.mk.injEq] at hend
          obtain ⟨rfl, rfl⟩ := hend
          refine (happ.growTo (offset + buf.length)).writes ?_ 0
          rw [currentsize_growTo, hcur, hlen]
      · next hnil =>
        have hzero : len = 0 := by
          rw [← hlen]
          exact List.length_eq_zero_iff.mpr (not_not.mp hnil)
        simp only [pure_eq_ok, Except.ok.injEq, Prod.mk.injEq] at hrun
        obtain ⟨rfl, rfl⟩ := hrun
        subst hzero
        exact (Appends.refl env of).writes rfl 0

theorem writes_writeBuffer {buf : Bytes} {offset : Nat} {ret : Int}
    (hne : buf ≠ []) (hs : sectorCount (offset + buf.length) ≤ 2 ^ 32)
    (hrun : writeBuffer env of buf offset = .ok (of', ret)) :
    Writes env of of' ret (sectorRange (offset / 4096) (sectorCount (offset + buf.length)))
      (max of.currentsize (offset + buf.length)) := by
  have hpos : 0 < buf.length := List.length_pos_iff.mpr hne
  rw [writeBuffer] at hrun
  simp only [sectorSize_eq] at hrun
  rw [sectorCount_eq_div] at hs ⊢
  split at hrun
  · next hmod =>
    set wr := if 4096 - offset % 4096 < buf.length then 4096 - offset %
      4096 else buf.length with hwr
    have hwrle : wr ≤ buf.length ∧ offset % 4096 + wr ≤ 4096 ∧ 0 < wr ∧
        (wr = buf.length ∨ offset % 4096 + wr = 4096) := by
      rw [hwr]
      split_ifs <;> omega
    have hcons : sectorRange (offset / 4096) ((offset + buf.length + 4095) / 4096) =
        [offset / 4096] ++ sectorRange (offset / 4096 + 1) ((offset + buf.length + 4095) / 4096) :=
      sectorRange_cons (by omega)
    obtain ⟨⟨of₁, ret₁⟩, hpart, hlast⟩ := bind_eq_ok hrun
    clear hrun
    rcases appends_writePartial (by omega) hpart with ⟨rfl, hneg⟩ | ⟨rfl, happ, hcur⟩
    · rw [if_pos (by omega)] at hlast
      simp only [pure_eq_ok, Except.ok.injEq, Prod.mk.injEq] at hlast
      obtain ⟨rfl, rfl⟩ := hlast
      exact writes_nothing (by omega) (le_max_left _ _)
    · simp only [ne_eq, not_true_eq_false, if_false] at hlast
      have happ₁ := happ.growTo (offset + wr)
      have hcount : sectorCount (buf.length - wr) =
          (offset + buf.length + 4095) / 4096 - (offset / 4096 + 1) := by
        rw [sectorCount_eq_div]
        omega
      have hloop := writes_writeSectorsLoop (List.length_drop ..) (by omega) hlast
      have hsize : (if buf.length - wr = 0 then (of₁.growTo (offset + wr)).currentsize else
          max (of₁.growTo (offset + wr)).currentsize (offset + wr + (buf.length - wr))) =
          max of.currentsize (offset + buf.length) := by
        rw [currentsize_growTo, hcur]
        split_ifs <;> omega
      rw [hcount, hsize] at hloop
      rw [hcons]
      exact happ₁.then_writes hloop
  · next hmod =>
    have hcount : sectorCount buf.length = (offset + buf.length + 4095) / 4096 - offset / 4096 := by
      rw [sectorCount_eq_div]
      omega
    have hloop := writes_writeSectorsLoop rfl (by omega) hrun
    rw [hcount, if_neg hpos.ne'] at hloop
    exact hloop

/-! ## Sectors of a frame -/

/-- Sectors that filling a file of `n` bytes up to `size` writes. -/
def fillSectors (n size : Nat) : List Nat :=
  if n < size then sectorRange (n / 4096) (sectorCount size) else []

/-- Sectors that a write to a file of `n` bytes writes. -/
def writeSectors (n offset len : Nat) : List Nat :=
  fillSectors n offset ++ sectorRange (offset / 4096) (sectorCount (offset + len))

theorem writes_writeRecords {buf : Bytes} {offset : Nat} {ret : Int}
    (hne : buf ≠ []) (hs : sectorCount (offset + buf.length) ≤ 2 ^ 32)
    (hrun : writeRecords env of buf offset = .ok (of', ret)) :
    Writes env of of' ret (writeSectors of.currentsize offset buf.length)
      (max of.currentsize (offset + buf.length)) := by
  rw [writeRecords] at hrun
  unfold writeSectors fillSectors
  by_cases hgap : of.currentsize < offset
  · simp only [if_pos hgap] at hrun ⊢
    have hfill : of.currentsize + (offset - of.currentsize) = offset := by omega
    obtain ⟨⟨of₁, ret₁⟩, hzero, hrest⟩ := bind_eq_ok hrun
    have hgapw := writes_newfileFillzero (by omega) (by
      rw [hfill]
      exact le_trans (sectorCount_mono (by omega)) hs) hzero
    rw [hfill] at hgapw
    obtain ⟨pre, hpre, happ, hle, hok⟩ := hgapw
    by_cases hret : ret₁ = 0
    · obtain ⟨rfl, hcur⟩ := hok hret
      simp only [hret, ne_eq, not_true_eq_false, if_false] at hrest
      obtain ⟨-, -, hbuf⟩ := bind_eq_ok hrest
      have hw := writes_writeBuffer hne hs hbuf
      rw [hcur] at hw
      have hsize : max (max of.currentsize offset) (offset + buf.length) =
          max of.currentsize (offset + buf.length) := by omega
      rw [hsize] at hw
      exact happ.then_writes hw
    · simp only [ne_eq, hret, not_false_eq_true, if_true, pure_eq_ok, Except.ok.injEq,
        Prod.mk.injEq] at hrest
      obtain ⟨rfl, rfl⟩ := hrest
      exact ⟨pre, hpre.trans (List.prefix_append _ _), happ, by omega, fun h => absurd h hret⟩
  · simp only [if_neg hgap, List.nil_append, pure_eq_ok, ok_bind, ne_eq, not_true_eq_false,
      if_false] at hrun ⊢
    exact writes_writeBuffer hne hs hrun

/-! ## Finalisation -/

/-- Records of the tree do no harm. -/
theorem Logged.phase {recs trecs : List (Nat × Bytes)} {bytes : Nat} (h : Logged env of)
    (hphase : LogPhase of of' recs trecs bytes) : Logged env of' := by
  have htree : of'.sectorsinlog = of.sectorsinlog := by rw [hphase.only]
  refine ⟨⟨_, hphase.log⟩, ?_, ?_, ?_⟩
  · rw [htree]
    exact h.ids
  · rw [htree]
    exact h.auths
  · intro e he
    rw [htree] at he
    rw [hphase.file]
    exact (h.entry e he).append _

/-- The intervals go to a log that is closed next. -/
theorem writeIntervalPieces_keeps {ivs : List (Nat × Nat)}
    (hrun : writeIntervalPieces env of ivs = .ok of') :
    of'.currentsize = of.currentsize ∧ of'.extender = of.extender := by
  fun_induction writeIntervalPieces env of ivs generalizing of' with
  | case1 =>
    obtain rfl := Except.ok.inj hrun
    exact ⟨rfl, rfl⟩
  | case2 =>
    rename_i ih
    obtain ⟨-, -, hrun⟩ := bind_eq_ok hrun
    exact ih hrun

theorem logFlushAndProcess_applies {flog : Bytes} {fault : Option ApplyFault} {ret : Int}
    (hrun : logFlushAndProcess env of flog fault = .ok (of', ret)) :
    ∃ ops, of' = of.applyOps ops := by
  obtain ⟨a, -, hrun⟩ := bind_eq_ok hrun
  refine ⟨(ApplyFault.cut fault a.1).1, ?_⟩
  simp only [] at hrun
  split at hrun
  · exact (Prod.mk.inj (Except.ok.inj hrun)).1.symm
  · exact (Prod.mk.inj (Except.ok.inj hrun)).1.symm

/-- `psync_fs_crypto_init_log` on an empty file. -/
theorem logged_initLog (hfile : of.logfile = []) (htree : of'.sectorsinlog = .nil)
    (hlog : of'.logfile = (initLog of).logfile) (hoff : of'.logoffset = (initLog of).logoffset)
    (hctx : of'.loghashctx = (initLog of).loghashctx) : Logged env of' := by
  have hhead : List.replicate sectorSize 0xff = logHead := rfl
  refine logged_nil ?_ hoff hctx htree
  simp only [hlog, initLog, Openfile.pwriteLog, hhead, hfile]
  exact File.pwrite_length [] logHead

/-- After the switch the log is a new one. -/
theorem logged_switchLogs {fault : Option ApplyFault} {ret : Int}
    (hrun : switchLogs env of fault = .ok (of', ret)) :
    Logged env of' ∧ of'.currentsize = of.currentsize ∧ of'.extender = of.extender := by
  obtain ⟨⟨of₁, ret₁⟩, hres, hrun⟩ := bind_eq_ok hrun
  obtain ⟨ops, rfl⟩ := logFlushAndProcess_applies hres
  obtain ⟨rfl, -⟩ := Prod.mk.inj (Except.ok.inj hrun)
  exact ⟨logged_initLog rfl rfl rfl rfl rfl, rfl, rfl⟩

theorem Logged.doFinalizeLog (h : Logged env of) (hn : sectorCount of.currentsize ≤ maxSectorid)
    (hshort : of.logfile.length +
      treeBytes (offsetsByPlainsize of.currentsize) of.ids < 2 ^ 32) {ret : Int}
    (hrun : doFinalizeLog env of none = .ok (of', ret)) :
    Logged env of' ∧ of'.currentsize = of.currentsize ∧ of'.extender = of.extender := by
  obtain ⟨recs, hlog⟩ := h.log
  unfold FsCrypto.doFinalizeLog at hrun
  simp only [] at hrun
  split at hrun
  · obtain ⟨rfl, -⟩ := Prod.mk.inj (Except.ok.inj hrun)
    exact ⟨h, rfl, rfl⟩
  · obtain ⟨⟨of₁, ret₁⟩, htree, hrest⟩ := bind_eq_ok hrun
    clear hrun
    obtain ⟨trecs, hphase⟩ := writeAuthTreeToLog_phase hlog hn h.auths hshort htree
    have hcur : of₁.currentsize = of.currentsize := by rw [hphase.only]
    have hext : of₁.extender = of.extender := by rw [hphase.only]
    split at hrest
    · obtain ⟨rfl, -⟩ := Prod.mk.inj (Except.ok.inj hrest)
      exact ⟨h.phase hphase, hcur, hext⟩
    · have hmark : ∀ {of₂ : Openfile}, of₂.currentsize = of₁.currentsize →
          of₂.extender = of₁.extender →
          (markLogFinalized env of₂ (offsetsByPlainsize of.currentsize).cryptoEnd >>= fun of =>
            switchLogs env of none) = .ok (of', ret) →
          Logged env of' ∧ of'.currentsize = of.currentsize ∧ of'.extender = of.extender := by
        intro of₂ hcur₂ hext₂ hend
        obtain ⟨of₃, hmarked, hswitch⟩ := bind_eq_ok hend
        obtain ⟨-, -, hmarked⟩ := bind_eq_ok hmarked
        obtain rfl := Except.ok.inj hmarked
        obtain ⟨hlogged, hcur₃, hext₃⟩ := logged_switchLogs hswitch
        exact ⟨hlogged, (hcur₃.trans hcur₂).trans hcur, (hext₃.trans hext₂).trans hext⟩
      split at hrest
      · exact hmark rfl rfl hrest
      · obtain ⟨of₂, hpieces, hrest⟩ := bind_eq_ok hrest
        obtain ⟨hcur₂, hext₂⟩ := writeIntervalPieces_keeps hpieces
        exact hmark hcur₂ hext₂ hrest

/-- The size with which the file is finalised when it has `size` bytes. -/
def Openfile.finalSize (of : Openfile) (size : Nat) : Nat :=
  match of.extender with
  | some ext => ext.extendedto
  | none => size

theorem Logged.finalizeLog (h : Logged env of)
    (hn : sectorCount (of.finalSize of.currentsize) ≤ maxSectorid)
    (hshort : of.logfile.length +
      treeBytes (offsetsByPlainsize (of.finalSize of.currentsize)) of.ids < 2 ^ 32) {ret : Int}
    (hrun : finalizeLog env of = .ok (of', ret)) :
    Logged env of' ∧ of'.currentsize = of.currentsize ∧ of'.extender = of.extender := by
  unfold FsCrypto.finalizeLog at hrun
  unfold Openfile.finalSize at hn hshort
  split at hrun
  · next ext hext =>
    simp only [hext] at hn hshort
    obtain ⟨u, hassert, hrun⟩ := bind_eq_ok hrun
    obtain ⟨⟨of₁, ret₁⟩, hfin, hrest⟩ := bind_eq_ok hrun
    obtain ⟨rfl, -⟩ := Prod.mk.inj (Except.ok.inj hrest)
    have hless : Logged env { of with currentsize := ext.extendedto } :=
      h.congr rfl rfl rfl fun _ he => he
    obtain ⟨hlogged, -, hext₁⟩ := hless.doFinalizeLog hn hshort hfin
    exact ⟨hlogged.congr rfl rfl rfl fun _ he => he, (assert_eq_ok hassert).symm, hext₁⟩
  · next hext =>
    simp only [hext] at hn hshort
    exact h.doFinalizeLog hn hshort hrun

/-! ## Truncation -/

theorem dropSectorsLoop_subset {m fuel : Nat} : ∀ {t t' : Ptree.Tree SectorInlog},
    dropSectorsLoop fuel t m = .ok t' → ∀ e ∈ t'.toList, e ∈ t.toList := by
  induction fuel with
  | zero =>
    intro t t' hrun
    obtain rfl := Except.ok.inj hrun
    exact fun e he => he
  | succ fuel ih =>
    intro t t' hrun
    rw [dropSectorsLoop] at hrun
    split at hrun
    · obtain rfl := Except.ok.inj hrun
      exact fun e he => he
    · split at hrun
      · obtain ⟨-, -, hrun⟩ := bind_eq_ok hrun
        intro e he
        have hmem := ih hrun e he
        rw [Ptree.Tree.toList_delLast] at hmem
        exact (List.dropLast_sublist _).subset hmem
      · obtain rfl := Except.ok.inj hrun
        exact fun e he => he

theorem Logged.cutLastSector (h : Logged env of) {size : Nat} {buf : Bytes}
    (hs : sectorCount size ≤ maxSectorid) (hroom : of.logfile.length + 4112 < 2 ^ 32)
    (hrun : cutLastSector env of size buf = .ok of') :
    Logged env of' ∧ of'.extender = of.extender ∧ of'.currentsize = size := by
  unfold FsCrypto.cutLastSector at hrun
  simp only [sectorSize_eq] at hrun
  obtain ⟨t, hdrop, hrun⟩ := bind_eq_ok hrun
  obtain ⟨of₁, hwrite, hrun⟩ := bind_eq_ok hrun
  have hless : Logged env { of with currentsize := (size - 1) / 4096 * 4096, sectorsinlog := t } :=
    h.congr rfl rfl rfl (dropSectorsLoop_subset hdrop)
  have hlt : (size - 1) / 4096 < 2 ^ 32 := by
    rw [sectorCount_eq_div, maxSectorid_eq] at hs
    omega
  obtain ⟨happ, -⟩ := appends_writeFull hlt hwrite
  obtain ⟨hlogged, -⟩ := happ.logged hless hroom
  split at hrun
  · obtain rfl := Except.ok.inj hrun
    exact ⟨hlogged.congr rfl rfl rfl fun _ he => he, happ.extender, rfl⟩
  · obtain rfl := Except.ok.inj hrun
    exact ⟨hlogged.congr rfl rfl rfl fun _ he => he, happ.extender, rfl⟩

theorem logged_ftruncateToZero (hrun : ftruncateToZero of = .ok of') :
    Logged env of' ∧ of'.currentsize = 0 ∧ of'.extender = (killExtender of).extender := by
  have hempty : File.truncate of.logfile 0 = [] := List.take_zero
  unfold ftruncateToZero at hrun
  simp only [] at hrun
  split at hrun
  · obtain rfl := Except.ok.inj hrun
    exact ⟨logged_initLog hempty rfl rfl rfl rfl, rfl, rfl⟩
  · obtain ⟨of₁, hadd, hrun⟩ := bind_eq_ok hrun
    obtain ⟨-, -, hadd⟩ := bind_eq_ok hadd
    obtain rfl := Except.ok.inj hadd
    obtain rfl := Except.ok.inj hrun
    exact ⟨logged_initLog hempty rfl rfl rfl rfl, rfl, rfl⟩

end

end PcloudClient.FsCrypto
