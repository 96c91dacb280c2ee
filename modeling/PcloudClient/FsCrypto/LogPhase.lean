/-
  FsCrypto/LogPhase.lean --- writing the tree to the log, from any state.

  Whatever the entries are and whatever is read from the data file, the part of a
  finalisation before the log is closed only appends records to the log.
-/
import PcloudClient.FsCrypto.AuthTreeProofs

set_option autoImplicit false

namespace PcloudClient.FsCrypto

open PcloudClient.FileStore

/-! ## Running to a result -/

theorem assert_eq_ok {cond : Prop} [Decidable cond] {u : Unit}
    (h : assert cond = .ok u) : cond := by
  unfold assert at h
  split at h
  · assumption
  · exact absurd h (by simp)

/-! ## Bounds of the places -/

/-- No auth sector is longer than a sector. -/
def LensLe (o : Offsets) : Prop := ∀ level, o.lastLen level ≤ 4096

theorem lensLe_zero : LensLe Offsets.zero := by
  intro level
  rw [Offsets.lastLen, Offsets.zero, List.getD_eq_getElem?_getD, List.getElem?_replicate]
  split_ifs <;> exact Nat.zero_le _

theorem LensLe.setLast {o : Offsets} (h : LensLe o) (level off : Nat) {len : Nat}
    (hlen : len ≤ 4096) :
    LensLe (o.setLast level off len) := by
  intro l
  have hl := h l
  rw [Offsets.lastLen, List.getD_eq_getElem?_getD] at hl ⊢
  rw [Offsets.setLast, List.getElem?_set]
  split_ifs
  · exact hlen
  · exact Nat.zero_le _
  · exact hl

theorem lensLe_plainsizeLevels {size : Nat} : ∀ {off level : Nat} {o : Offsets}, LensLe o →
    LensLe (plainsizeLevels size off level o) := by
  induction size using Nat.strong_induction_on with
  | _ size ih =>
    intro off level o h
    have hlen : (if size % 128 = 0 then 128 else size % 128) * 32 ≤ 4096 := by
      split_ifs <;> omega
    rw [plainsizeLevels]
    simp only [hashTreeSectors_eq, authSize_eq]
    split
    · next hmore => exact ih _ (by omega) (h.setLast _ _ hlen)
    · exact (h.setLast level 0 hlen).setLast (level + 1) 0 (by omega)

theorem lensLe_cryptosizeLevels {level size off : Nat} {o : Offsets} (h : LensLe o) :
    LensLe (cryptosizeLevels level size off o) := by
  induction level generalizing size off o with
  | zero => exact h
  | succ level ih =>
    rw [cryptosizeLevels]
    apply ih
    refine h.setLast _ _ ?_
    simp only [hashTreeSectors_eq, authSize_eq]
    split_ifs <;> omega

theorem lensLe_offsetsByPlainsize (n : Nat) : LensLe (offsetsByPlainsize n) := by
  unfold offsetsByPlainsize
  simp only []
  split
  · exact lensLe_zero
  · exact lensLe_plainsizeLevels lensLe_zero

theorem lensLe_offsetsByCryptosize (n : Nat) : LensLe (offsetsByCryptosize n) := by
  unfold offsetsByCryptosize
  split
  · exact lensLe_zero
  · refine lensLe_cryptosizeLevels fun l => lensLe_zero.setLast _ 0 ?_ l
    rw [authSize_eq]
    omega

theorem authSectorPlace_le {o : Offsets} (h : LensLe o) (level k sizesect : Nat) :
    (authSectorPlace o level k sizesect).2 ≤ 4096 := by
  unfold authSectorPlace
  split
  · exact h level
  · exact le_rfl

theorem masterauthoff_lt {n : Nat} (h : sectorCount n ≤ maxSectorid) :
    (offsetsByPlainsize n).masterauthoff < 2 ^ 60 := by
  have hsize := cryptoSize_lt_pow h
  unfold cryptoSize Offsets.cryptoEnd at hsize
  split_ifs at hsize <;> omega

/-! ## Appending to the log -/

/-- The records `trecs` were appended to the log `recs`, at most `bytes` bytes, and nothing
else was done. -/
structure LogPhase (of of' : Openfile) (recs trecs : List (Nat × Bytes)) (bytes : Nat) : Prop where
  only : of' = { of with
    logfile := of'.logfile
    logoffset := of'.logoffset
    loghashctx := of'.loghashctx
    writeintervals := of'.writeintervals
    trace := of'.trace }
  log : LogIs of' (recs ++ trecs)
  file : of'.logfile = of.logfile ++ encodeRecs trecs
  length : of'.logfile.length ≤ of.logfile.length + bytes

namespace LogPhase

variable {of of' of₁ of₂ : Openfile} {recs trecs trecs' : List (Nat × Bytes)} {m n : Nat}

theorem refl (h : LogIs of recs) : LogPhase of of recs [] 0 where
  only := rfl
  log := by rwa [List.append_nil]
  file := by simp
  length := le_rfl

theorem mono (h : LogPhase of of' recs trecs m) (hle : m ≤ n) : LogPhase of of' recs trecs n :=
  { h with length := h.length.trans (Nat.add_le_add_left hle _) }

theorem trans (h : LogPhase of of₁ recs trecs m)
    (h' : LogPhase of₁ of₂ (recs ++ trecs) trecs' n) :
    LogPhase of of₂ recs (trecs ++ trecs') (m + n) where
  only := by rw [h'.only, h.only]
  log := by
    rw [← List.append_assoc]
    exact h'.log
  file := by rw [h'.file, h.file, encodeRecs_append, List.append_assoc]
  length := by
    have h1 := h.length
    have h2 := h'.length
    omega

end LogPhase

/-! ## The tree -/

section

variable {env : Env} {of of' : Openfile} {recs : List (Nat × Bytes)} {arr arr' : AuthArr} {n : Nat}

/-- One more record in the log, by the operations `ops`. -/
theorem LogIs.phase (h : LogIs of recs) {r : Nat × Bytes} {bytes : Nat} (hr : RecordFits r)
    (hbytes : (encodeRec r).length ≤ bytes)
    (hshort : of.logfile.length + (encodeRec r).length < 2 ^ 32)
    (ops : List (FileOp CacheFile)) (ivs : List (Nat × Nat)) :
    LogPhase of { of.appendRec r ops with writeintervals := ivs } recs [r] bytes where
  only := rfl
  log := by
    have happ := h.appendRec hr hshort ops
    exact ⟨happ.file, happ.ctx, happ.offset, happ.short, happ.fits⟩
  file := by
    rw [encodeRecs_cons, encodeRecs_nil, List.append_nil]
    rfl
  length := by
    change (of.logfile ++ encodeRec r).length ≤ _
    rw [List.length_append]
    omega

/-- A header and its content, written one behind the other. -/
theorem LogIs.appendPair (h : LogIs of recs) {off : Nat} {b : Bytes} (hoff : off < 2 ^ 64)
    (hb : b.length ≤ 4096) (hshort : of.logfile.length + (b.length + 16) < 2 ^ 32)
    (ivs : List (Nat × Nat)) :
    LogPhase of
      (({ ((of.pwriteLog (LogHeader.data b.length off).encode of.logoffset).hashUpdate
          (LogHeader.data b.length off).encode).pwriteLog b (of.logoffset + 16) with
          writeintervals := ivs }.hashUpdate b).advanceLog (b.length + 16))
      recs [(off, b)] (b.length + 16) := by
  have hrec : encodeRec (off, b) = (LogHeader.data b.length off).encode ++ b := rfl
  have hreclen : (encodeRec (off, b)).length = b.length + 16 := by
    rw [length_encodeRec, add_comm]
  have hfile :
      File.pwrite (File.pwrite of.logfile (LogHeader.data b.length off).encode of.logoffset)
      b (of.logoffset + 16) = of.logfile ++ encodeRec (off, b) := by
    have hend : of.logfile.length + 16 =
        (of.logfile ++ (LogHeader.data b.length off).encode).length := by
      rw [List.length_append, LogHeader.length_encode]
    rw [h.offset, File.pwrite_length, hend, File.pwrite_length, hrec, List.append_assoc]
  have hphase := h.phase ⟨hoff, hb⟩ hreclen.le (by rw [hreclen]; exact hshort)
    [.pwrite .log (LogHeader.data b.length off).encode of.logoffset,
      .pwrite .log b (of.logoffset + 16)] ivs
  have hstate : (({ ((of.pwriteLog (LogHeader.data b.length off).encode of.logoffset).hashUpdate
      (LogHeader.data b.length off).encode).pwriteLog b (of.logoffset + 16) with
      writeintervals := ivs }.hashUpdate b).advanceLog (b.length + 16)) =
      { of.appendRec (off, b) [.pwrite .log (LogHeader.data b.length off).encode of.logoffset,
        .pwrite .log b (of.logoffset + 16)] with writeintervals := ivs } := by
    simp only [Openfile.pwriteLog, Openfile.hashUpdate, Openfile.advanceLog, hfile,
      Openfile.appendRec, hreclen]
    simp [hrec]
  rw [hstate]
  exact hphase

/-- A record written at once. -/
theorem LogIs.appendOne (h : LogIs of recs) {r : Nat × Bytes} {bytes : Nat} (hr : RecordFits r)
    (hbytes : (encodeRec r).length ≤ bytes)
    (hshort : of.logfile.length + (encodeRec r).length < 2 ^ 32)
    (ivs : List (Nat × Nat)) :
    LogPhase of
      ({ (of.pwriteLog (encodeRec r) of.logoffset).hashUpdate (encodeRec r) with
        writeintervals := ivs }.advanceLog (encodeRec r).length) recs [r] bytes := by
  have hphase := h.phase hr hbytes hshort [.pwrite .log (encodeRec r) of.logoffset] ivs
  have hstate : ({ (of.pwriteLog (encodeRec r) of.logoffset).hashUpdate (encodeRec r) with
      writeintervals := ivs }.advanceLog (encodeRec r).length) =
      { of.appendRec r [.pwrite .log (encodeRec r) of.logoffset] with writeintervals := ivs } := by
    simp only [Openfile.pwriteLog, Openfile.hashUpdate, Openfile.advanceLog, Openfile.appendRec,
      h.offset, File.pwrite_length]
  rw [hstate]
  exact hphase

theorem writeAuthSector_phase (h : LogIs of recs) (hfull : FullArr arr)
    (hn : sectorCount n ≤ maxSectorid) {level k sizesect : Nat}
    (hshort : of.logfile.length +
      ((authSectorPlace (offsetsByPlainsize n) level k sizesect).2 + 16) < 2 ^ 32)
    (hrun : writeAuthSector env of arr (offsetsByPlainsize n) level k sizesect = .ok (of', arr')) :
    (∃ trecs, LogPhase of of' recs trecs
      ((authSectorPlace (offsetsByPlainsize n) level k sizesect).2 + 16)) ∧ FullArr arr' := by
  have hle := authSectorPlace_le (lensLe_offsetsByPlainsize n) level k sizesect
  set place := authSectorPlace (offsetsByPlainsize n) level k sizesect with hplace
  have hlen : ((arr level).take place.2).length = place.2 := by
    rw [List.length_take, hfull level]
    omega
  have hmaster := masterauthoff_lt hn
  have hfull' : FullArr (arr.setSlot (level + 1) (k % hashTreeSectors)
      (env.sign ((arr level).take place.2))) :=
    hfull.setSlot (env.length_sign _) (Nat.mod_lt _ (by decide))
  have hend : place.1 + place.2 ≤ (offsetsByPlainsize n).masterauthoff + authSize →
      ∀ ivs, ∃ trecs, LogPhase of
        (({ ((of.pwriteLog (LogHeader.data place.2 place.1).encode of.logoffset).hashUpdate
            (LogHeader.data place.2 place.1).encode).pwriteLog ((arr level).take place.2)
            (of.logoffset + 16) with
            writeintervals := ivs }.hashUpdate ((arr level).take place.2)).advanceLog
          (place.2 + 16)) recs trecs (place.2 + 16) := by
    intro hin ivs
    rw [authSize_eq] at hin
    have hphase := h.appendPair (show place.1 < 2 ^ 64 by omega)
      (show ((arr level).take place.2).length ≤ 4096 by omega) (by rw [hlen]; exact hshort) ivs
    rw [hlen] at hphase
    exact ⟨_, hphase⟩
  have hbody : ∀ {m : Except Abort Unit}, (m = .ok () →
      place.1 + place.2 ≤ (offsetsByPlainsize n).masterauthoff + authSize) →
      (m >>= fun _ => (do
        let of₁ := (((of.pwriteLog (LogHeader.data place.2 place.1).encode of.logoffset).hashUpdate
            (LogHeader.data place.2 place.1).encode).pwriteLog ((arr level).take place.2)
            (of.logoffset + 16)).hashUpdate ((arr level).take place.2)
        let of₂ ← if of₁.newfile then pure of₁ else of₁.intervalTreeAdd place.1 (place.1 + place.2)
        return (of₂.advanceLog (place.2 + 16), arr.setSlot (level + 1) (k % hashTreeSectors)
          (env.sign ((arr level).take place.2))))) = .ok (of', arr') →
      (∃ trecs, LogPhase of of' recs trecs (place.2 + 16)) ∧ FullArr arr' := by
    intro m hm hdo
    obtain ⟨⟨⟩, hok, hdo⟩ := bind_eq_ok hdo
    simp only [] at hdo
    split at hdo
    · simp only [pure_eq_ok, ok_bind, Except.ok.injEq, Prod.mk.injEq] at hdo
      obtain ⟨rfl, rfl⟩ := hdo
      exact ⟨hend (hm hok) of.writeintervals, hfull'⟩
    · obtain ⟨of₂, hadd, hdo⟩ := bind_eq_ok hdo
      obtain ⟨-, -, hadd⟩ := bind_eq_ok hadd
      simp only [pure_eq_ok, Except.ok.injEq, Prod.mk.injEq] at hdo hadd
      obtain ⟨rfl, rfl⟩ := hdo
      subst hadd
      exact ⟨hend (hm hok) _, hfull'⟩
  unfold writeAuthSector at hrun
  simp only [← hplace] at hrun
  split at hrun
  · obtain ⟨-, -, hrun⟩ := bind_eq_ok hrun
    exact hbody assert_eq_ok hrun
  · exact hbody assert_eq_ok hrun

theorem switchWriteLoop_phase (hn : sectorCount n ≤ maxSectorid) {k : Nat} :
    ∀ {of of' : Openfile} {recs : List (Nat × Bytes)} {arr arr' : AuthArr}
      {level oldsecd newsecd sizesecd : Nat}, (offsetsByPlainsize n).treelevels - level = k →
    LogIs of recs → FullArr arr →
    of.logfile.length + switchWriteBytes (offsetsByPlainsize n) level oldsecd newsecd sizesecd <
      2 ^ 32 →
    switchWriteLoop env of arr (offsetsByPlainsize n) level oldsecd newsecd sizesecd =
      .ok (of', arr') →
    (∃ trecs, LogPhase of of' recs trecs
      (switchWriteBytes (offsetsByPlainsize n) level oldsecd newsecd sizesecd)) ∧ FullArr arr' := by
  induction k using Nat.strong_induction_on with
  | _ k ih =>
    intro of of' recs arr arr' level oldsecd newsecd sizesecd hk h hfull hshort hrun
    rw [switchWriteLoop] at hrun
    rw [switchWriteBytes, LogHeader.size_eq] at hshort ⊢
    obtain ⟨⟨of₁, arr₁⟩, hwrite, hrest⟩ := bind_eq_ok hrun
    clear hrun
    obtain ⟨⟨trecs, hphase⟩, hfull₁⟩ := writeAuthSector_phase h hfull hn (by omega) hwrite
    split at hrest
    · next hcond =>
      rw [dif_pos hcond] at hshort ⊢
      have hlen := hphase.length
      obtain ⟨⟨trecs', hphase'⟩, hfull₂⟩ := ih _ (by omega) rfl hphase.log hfull₁ (by omega) hrest
      exact ⟨⟨_, hphase.trans hphase'⟩, hfull₂⟩
    · next hcond =>
      rw [dif_neg hcond]
      simp only [pure_eq_ok, Except.ok.injEq, Prod.mk.injEq] at hrest
      obtain ⟨rfl, rfl⟩ := hrest
      exact ⟨⟨trecs, hphase⟩, hfull₁⟩

/-- What is loaded keeps the size of the auth sectors. -/
theorem loadAuthSector_full {f : Bytes} {ooffsets : Offsets} (hfull : FullArr arr)
    (hlens : LensLe ooffsets) {level k sizesect : Nat}
    (hload : loadAuthSector f arr ooffsets level k sizesect = some arr') : FullArr arr' := by
  unfold loadAuthSector at hload
  split at hload
  · simp only [] at hload
    split at hload
    · exact absurd hload (by simp)
    · next hlen =>
      have hle := authSectorPlace_le hlens level k sizesect
      obtain rfl := Option.some.inj hload
      intro l
      by_cases hl : l = level
      · have hsize := hfull level
        subst hl
        rw [Function.update_self, File.length_pwrite_of_le (by omega), hsize]
      · rw [Function.update_of_ne hl]
        exact hfull l
  · obtain rfl := Option.some.inj hload
    exact hfull

theorem switchLoadLoop_full {f : Bytes} {offsets ooffsets : Offsets} (hlens : LensLe ooffsets)
    {k : Nat} : ∀ {arr arr' : AuthArr} {level oldsecd newsecd sizesecd : Nat},
    offsets.treelevels - level = k → FullArr arr →
    switchLoadLoop f arr offsets ooffsets level oldsecd newsecd sizesecd = some arr' →
    FullArr arr' := by
  induction k using Nat.strong_induction_on with
  | _ k ih =>
    intro arr arr' level oldsecd newsecd sizesecd hk hfull hload
    rw [switchLoadLoop] at hload
    obtain ⟨arr₁, hone, hrest⟩ := Option.bind_eq_some_iff.mp hload
    have hfull₁ := loadAuthSector_full hfull hlens hone
    split at hrest
    · exact ih _ (by omega) rfl hfull₁ hrest
    · obtain rfl := Option.some.inj hrest
      exact hfull₁

theorem switchLoad_full (f : Bytes) (offsets : Offsets) (old new : Nat) (hfull : FullArr arr) :
    FullArr (switchLoad f arr old new offsets).1 := by
  unfold switchLoad
  split
  · simp only []
    split
    · next hload => exact switchLoadLoop_full (lensLe_offsetsByCryptosize _) rfl hfull hload
    · exact hfull
  · exact hfull

theorem switchSectors_phase (h : LogIs of recs) (hfull : FullArr arr)
    (hn : sectorCount n ≤ maxSectorid) {old new : Nat} {ret : Int}
    (hshort : of.logfile.length + switchBytes (offsetsByPlainsize n) old new < 2 ^ 32)
    (hrun : switchSectors env of old new arr (offsetsByPlainsize n) = .ok (of', arr', ret)) :
    (∃ trecs, LogPhase of of' recs trecs (switchBytes (offsetsByPlainsize n) old new)) ∧
      FullArr arr' := by
  unfold switchSectors at hrun
  unfold switchBytes at hshort ⊢
  by_cases hold : old ≠ invalidSectorid
  · rw [if_pos hold] at hrun hshort ⊢
    obtain ⟨⟨of₁, arr₁⟩, hwrite, hrest⟩ := bind_eq_ok hrun
    simp only [pure_eq_ok, Except.ok.injEq, Prod.mk.injEq] at hrest
    obtain ⟨rfl, hload⟩ := hrest
    obtain ⟨hphase, hfull₁⟩ := switchWriteLoop_phase hn rfl h hfull hshort hwrite
    refine ⟨hphase, ?_⟩
    have hfull₂ := switchLoad_full of₁.datafile (offsetsByPlainsize n) old new hfull₁
    rw [hload] at hfull₂
    exact hfull₂
  · rw [if_neg hold] at hrun ⊢
    simp only [pure_eq_ok, ok_bind, Except.ok.injEq, Prod.mk.injEq] at hrun
    obtain ⟨rfl, hload⟩ := hrun
    refine ⟨⟨[], LogPhase.refl h⟩, ?_⟩
    have hfull₂ := switchLoad_full of.datafile (offsetsByPlainsize n) old new hfull
    rw [hload] at hfull₂
    exact hfull₂

theorem writeAuthTreeLoop_phase (hn : sectorCount n ≤ maxSectorid) {entries : List SectorInlog} :
    ∀ {of of' : Openfile} {recs : List (Nat × Bytes)} {arr arr' : AuthArr} {last last' : Nat}
      {ret : Int}, (∀ e ∈ entries, e.auth.length = 32) → LogIs of recs → FullArr arr →
    of.logfile.length + treeLoopBytes (offsetsByPlainsize n) (entries.map (·.sectorid)) last <
      2 ^ 32 →
    writeAuthTreeLoop env (offsetsByPlainsize n) entries last of arr = .ok (of', arr', last', ret) →
    FullArr arr' ∧ ∃ trecs bytes, LogPhase of of' recs trecs bytes ∧
      bytes + (if ret = 0 then treeLoopBytes (offsetsByPlainsize n) [] last' else 0) ≤
        treeLoopBytes (offsetsByPlainsize n) (entries.map (·.sectorid)) last := by
  induction entries with
  | nil =>
    intro of of' recs arr arr' last last' ret _ h hfull hshort hrun
    simp only [writeAuthTreeLoop, Except.ok.injEq, Prod.mk.injEq] at hrun
    obtain ⟨rfl, rfl, rfl, rfl⟩ := hrun
    exact ⟨hfull, [], 0, LogPhase.refl h, by simp⟩
  | cons e rest ih =>
    intro of of' recs arr arr' last last' ret hauth h hfull hshort hrun
    have hset : ∀ {arr : AuthArr}, FullArr arr →
        FullArr (arr.setSlot 0 (e.sectorid % hashTreeSectors) e.auth) := fun hfull =>
      hfull.setSlot (hauth e (List.mem_cons_self ..)) (Nat.mod_lt _ (by decide))
    have hrestauth : ∀ e' ∈ rest, e'.auth.length = 32 := fun e' he' =>
      hauth e' (List.mem_cons_of_mem _ he')
    rw [writeAuthTreeLoop] at hrun
    rw [List.map_cons, treeLoopBytes] at hshort ⊢
    by_cases hswitch : last / hashTreeSectors ≠ e.sectorid / hashTreeSectors
    · rw [if_pos hswitch] at hrun hshort ⊢
      obtain ⟨⟨of₁, arr₁, ret₁⟩, hone, hloop⟩ := bind_eq_ok hrun
      obtain ⟨⟨trecs, hphase⟩, hfull₁⟩ := switchSectors_phase h hfull hn (by omega) hone
      have hlen := hphase.length
      by_cases hret : ret₁ = 0
      · simp only [hret, ne_eq, not_true_eq_false, if_false] at hloop
        obtain ⟨hfull₂, trecs', bytes, hphase', hle⟩ := ih hrestauth hphase.log (hset hfull₁)
          (by omega) hloop
        exact ⟨hfull₂, _, _, hphase.trans hphase', by omega⟩
      · simp only [ne_eq, hret, not_false_eq_true, if_true, pure_eq_ok, Except.ok.injEq,
          Prod.mk.injEq] at hloop
        obtain ⟨rfl, rfl, rfl, rfl⟩ := hloop
        refine ⟨hfull₁, _, _, hphase, ?_⟩
        rw [if_neg hret]
        omega
    · rw [if_neg hswitch] at hrun hshort ⊢
      simp only [pure_eq_ok, ok_bind, ne_eq, not_true_eq_false, if_false] at hrun
      obtain ⟨hfull₂, trecs', bytes, hphase', hle⟩ := ih hrestauth h (hset hfull) (by omega) hrun
      exact ⟨hfull₂, trecs', bytes, hphase', by omega⟩

theorem writeMasterAuth_phase (h : LogIs of recs) (hn : sectorCount n ≤ maxSectorid)
    (hshort : of.logfile.length + 48 < 2 ^ 32)
    (hrun : writeMasterAuth env of arr (offsetsByPlainsize n) = .ok of') :
    ∃ trecs, LogPhase of of' recs trecs 48 := by
  have hmaster := masterauthoff_lt hn
  set auth := env.sign ((arr ((offsetsByPlainsize n).treelevels - 1)).take
    ((offsetsByPlainsize n).lastLen ((offsetsByPlainsize n).treelevels - 1))) with hauth
  have hlen : auth.length = 32 := env.length_sign _
  have hrec : (LogHeader.data authSize (offsetsByPlainsize n).masterauthoff).encode ++ auth =
      encodeRec ((offsetsByPlainsize n).masterauthoff, auth) := by
    rw [encodeRec, hlen]
  have hreclen : (encodeRec ((offsetsByPlainsize n).masterauthoff, auth)).length = 48 := by
    rw [length_encodeRec, hlen]
  have happ : ∀ ivs, LogPhase of
      ({ (of.pwriteLog (encodeRec ((offsetsByPlainsize n).masterauthoff, auth))
          of.logoffset).hashUpdate (encodeRec ((offsetsByPlainsize n).masterauthoff, auth)) with
          writeintervals := ivs }.advanceLog
        (encodeRec ((offsetsByPlainsize n).masterauthoff, auth)).length)
      recs [((offsetsByPlainsize n).masterauthoff, auth)] 48 := by
    intro ivs
    have hfits : RecordFits ((offsetsByPlainsize n).masterauthoff, auth) := by
      refine ⟨by omega, ?_⟩
      rw [hlen]
      omega
    exact h.appendOne hfits hreclen.le (by rw [hreclen]; exact hshort) ivs
  unfold writeMasterAuth at hrun
  obtain ⟨-, -, hrun⟩ := bind_eq_ok hrun
  obtain ⟨-, -, hrun⟩ := bind_eq_ok hrun
  obtain ⟨-, -, hrun⟩ := bind_eq_ok hrun
  simp only [← hauth, hrec] at hrun
  split at hrun
  · simp only [pure_eq_ok, ok_bind, Except.ok.injEq] at hrun
    subst hrun
    exact ⟨_, happ of.writeintervals⟩
  · obtain ⟨of₂, hadd, hrun⟩ := bind_eq_ok hrun
    obtain ⟨-, -, hadd⟩ := bind_eq_ok hadd
    simp only [pure_eq_ok, Except.ok.injEq] at hrun hadd
    subst hrun hadd
    exact ⟨_, happ _⟩

/-- The tree of a file of `n` bytes is appended to the log, or a part of it when the data
file cannot be read. -/
theorem writeAuthTreeToLog_phase (h : LogIs of recs) (hn : sectorCount n ≤ maxSectorid)
    (hauth : ∀ e ∈ of.sectorsinlog.toList, e.auth.length = 32) {ret : Int}
    (hshort : of.logfile.length + treeBytes (offsetsByPlainsize n)
      (of.sectorsinlog.toList.map (·.sectorid)) < 2 ^ 32)
    (hrun : writeAuthTreeToLog env of (offsetsByPlainsize n) = .ok (of', ret)) :
    ∃ trecs, LogPhase of of' recs trecs (treeBytes (offsetsByPlainsize n)
      (of.sectorsinlog.toList.map (·.sectorid))) := by
  have hfull : FullArr fun level => (env.stack level).bytes := fun level => (env.stack level).2
  unfold writeAuthTreeToLog at hrun
  obtain ⟨⟨of₁, arr₁, last, ret₁⟩, hloop, hrest⟩ := bind_eq_ok hrun
  clear hrun
  obtain ⟨hfull₁, trecs, bytes, hphase, hle⟩ :=
    writeAuthTreeLoop_phase hn hauth h hfull hshort hloop
  have hlen := hphase.length
  unfold treeBytes at hshort ⊢
  by_cases hret : ret₁ = 0
  · rw [if_pos hret, treeLoopBytes] at hle
    simp only [hret, ne_eq, not_true_eq_false, if_false] at hrest
    obtain ⟨⟨of₂, arr₂, ret₂⟩, hlast, hrest⟩ := bind_eq_ok hrest
    obtain ⟨⟨trecs', hphase'⟩, hfull₂⟩ := switchSectors_phase hphase.log hfull₁ hn (by omega) hlast
    have hboth := hphase.trans hphase'
    have hlen₂ := hboth.length
    split at hrest
    · simp only [pure_eq_ok, Except.ok.injEq, Prod.mk.injEq] at hrest
      obtain ⟨rfl, rfl⟩ := hrest
      exact ⟨_, hboth.mono (by omega)⟩
    · split at hrest
      · next hmaster =>
        rw [if_pos hmaster, LogHeader.size_eq, authSize_eq] at hle
        obtain ⟨of₃, hwrite, hend⟩ := bind_eq_ok hrest
        simp only [pure_eq_ok, Except.ok.injEq, Prod.mk.injEq] at hend
        obtain ⟨rfl, rfl⟩ := hend
        obtain ⟨trecs'', hphase''⟩ := writeMasterAuth_phase hboth.log hn (by omega) hwrite
        exact ⟨_, (hboth.trans hphase'').mono (by omega)⟩
      · simp only [pure_eq_ok, Except.ok.injEq, Prod.mk.injEq] at hrest
        obtain ⟨rfl, rfl⟩ := hrest
        exact ⟨_, hboth.mono (by omega)⟩
  · rw [if_neg hret] at hle
    simp only [ne_eq, hret, not_false_eq_true, if_true, pure_eq_ok, Except.ok.injEq,
      Prod.mk.injEq] at hrest
    obtain ⟨rfl, rfl⟩ := hrest
    exact ⟨_, hphase.mono (by omega)⟩

end

end PcloudClient.FsCrypto
