/-
  FsCrypto/LogRecords.lean --- logs as lists of records.

  `encodeRecs` is what the engine appends to a log, and a log that is marked as finalised
  passes the checks of `processLog`.
-/
import PcloudClient.Foundation.File
import PcloudClient.FsCrypto.Finalize

set_option autoImplicit false

namespace PcloudClient.FsCrypto

open PcloudClient.Bytes
open PcloudClient.FileStore

/-! ## Headers -/

theorem LogHeader.decode_encode (h : LogHeader) : LogHeader.decode h.encode = h := by
  have h16 : ofLE (toLE 2 h.u16.toNat) = h.u16.toNat := by
    exact (ofLE_toLE 2 _).trans (Nat.mod_eq_of_lt h.u16.toNat_lt)
  have h32 : ofLE (toLE 4 h.u32.toNat) = h.u32.toNat := by
    exact (ofLE_toLE 4 _).trans (Nat.mod_eq_of_lt h.u32.toNat_lt)
  have h64 : ofLE (toLE 8 h.u64.toNat) = h.u64.toNat := by
    exact (ofLE_toLE 8 _).trans (Nat.mod_eq_of_lt h.u64.toNat_lt)
  have e2 : (h.encode.drop 2).take 2 = toLE 2 h.u16.toNat := by
    simp [encode]
  have e4 : (h.encode.drop 4).take 4 = toLE 4 h.u32.toNat := by
    rw [show h.encode = ([h.type, h.u8] ++ toLE 2 h.u16.toNat) ++
      (toLE 4 h.u32.toNat ++ toLE 8 h.u64.toNat) by simp [encode],
      List.drop_left' (by simp), List.take_left' (by simp)]
  have e8 : (h.encode.drop 8).take 8 = toLE 8 h.u64.toNat := by
    rw [encode, List.drop_left' (by simp), List.take_of_length_le (by simp)]
  rw [decode, e2, e4, e8, h16, h32, h64]
  simp [encode]

theorem LogHeader.data_length {len off : Nat} (h : len < 2 ^ 16) :
    (LogHeader.data len off).length = len := by
  simp only [LogHeader.data, LogHeader.length, UInt16.toNat_ofNat']
  exact Nat.mod_eq_of_lt h

theorem LogHeader.data_offset {len off : Nat} (h : off < 2 ^ 64) :
    (LogHeader.data len off).offset = off := by
  simp only [LogHeader.data, LogHeader.offset, UInt64.toNat_ofNat']
  exact Nat.mod_eq_of_lt h

/-! ## Records -/

/-- A data record in the log. -/
def encodeRec (r : Nat × Bytes) : Bytes := (LogHeader.data r.2.length r.1).encode ++ r.2

/-- The records of a log, one after the other. -/
def encodeRecs (recs : List (Nat × Bytes)) : Bytes := recs.flatMap encodeRec

/-- A record whose header can be written. -/
def RecordFits (r : Nat × Bytes) : Prop := r.1 < 2 ^ 64 ∧ r.2.length ≤ 4096

@[simp] theorem length_encodeRec (r : Nat × Bytes) : (encodeRec r).length = 16 + r.2.length := by
  simp [encodeRec]

@[simp] theorem encodeRecs_nil : encodeRecs [] = [] := rfl

@[simp] theorem encodeRecs_cons (r : Nat × Bytes) (recs : List (Nat × Bytes)) :
    encodeRecs (r :: recs) = encodeRec r ++ encodeRecs recs := rfl

theorem encodeRecs_append (recs recs' : List (Nat × Bytes)) :
    encodeRecs (recs ++ recs') = encodeRecs recs ++ encodeRecs recs' :=
  List.flatMap_append

/-! ## The master record -/

theorem MasterRecord.length_encodeHead {mr : MasterRecord} (h : mr.hash.length = 32) :
    mr.encodeHead.length = 56 := by
  simp [encodeHead, h]

/-- A record whose fields fit their types. -/
structure MasterRecord.Fits (mr : MasterRecord) : Prop where
  hash : mr.hash.length = 32
  status : mr.status < 2 ^ 32
  hashid : mr.hashid < 2 ^ 32
  logsize : mr.logsize < 2 ^ 64
  filesize : mr.filesize < 2 ^ 64
  crc : mr.crc < 2 ^ 32

theorem MasterRecord.decode_encode {mr : MasterRecord} (hmr : mr.Fits) (pad : Bytes) :
    MasterRecord.decode (mr.encode pad) = mr := by
  have hle : ∀ {k n : Nat}, n < 256 ^ k → ofLE (toLE k n) = n := fun h =>
    (ofLE_toLE _ _).trans (Nat.mod_eq_of_lt h)
  have hstatus : File.pread (mr.encode pad) 4 0 = toLE 4 mr.status := by
    simp only [encode, encodeHead, List.append_assoc]
    exact File.pread_append_mid (f := []) rfl (length_toLE _ _)
  have hhashid : File.pread (mr.encode pad) 4 4 = toLE 4 mr.hashid := by
    simp only [encode, encodeHead, List.append_assoc]
    exact File.pread_append_mid (length_toLE _ _) (length_toLE _ _)
  have hlogsize : File.pread (mr.encode pad) 8 8 = toLE 8 mr.logsize := by
    have h := File.pread_append_mid (f := toLE 4 mr.status ++ toLE 4 mr.hashid)
      (b := toLE 8 mr.logsize) (g := toLE 8 mr.filesize ++ mr.hash ++ toLE 4 mr.crc ++ pad)
      (n := 8) (o := 8) (by simp) (by simp)
    simpa only [encode, encodeHead, List.append_assoc] using h
  have hfilesize : File.pread (mr.encode pad) 8 16 = toLE 8 mr.filesize := by
    have h := File.pread_append_mid
      (f := toLE 4 mr.status ++ toLE 4 mr.hashid ++ toLE 8 mr.logsize)
      (b := toLE 8 mr.filesize) (g := mr.hash ++ toLE 4 mr.crc ++ pad)
      (n := 8) (o := 16) (by simp) (by simp)
    simpa only [encode, encodeHead, List.append_assoc] using h
  have hhash : File.pread (mr.encode pad) 32 24 = mr.hash := by
    have h := File.pread_append_mid
      (f := toLE 4 mr.status ++ toLE 4 mr.hashid ++ toLE 8 mr.logsize ++ toLE 8 mr.filesize)
      (b := mr.hash) (g := toLE 4 mr.crc ++ pad) (n := 32) (o := 24) (by simp) hmr.hash
    simpa only [encode, encodeHead, List.append_assoc] using h
  have hcrc : File.pread (mr.encode pad) 4 56 = toLE 4 mr.crc := by
    have h := File.pread_append_mid (f := mr.encodeHead) (b := toLE 4 mr.crc) (g := pad)
      (n := 4) (o := 56) (length_encodeHead hmr.hash) (by simp)
    simpa only [encode, List.append_assoc] using h
  rw [decode, hstatus, hhashid, hlogsize, hfilesize, hhash, hcrc, hle hmr.status, hle hmr.hashid,
    hle hmr.logsize, hle hmr.filesize, hle hmr.crc]

section

variable (env : Env)

/-- A log closed by `markLogFinalized`: its master record, the rest of the first sector,
and `body`. -/
structure FinalizedLog (lfd : Bytes) (filesize : Nat) (body : Bytes) : Prop where
  exists_master : ∃ mr : MasterRecord, ∃ pad fill : Bytes,
    lfd = mr.encode pad ++ (fill ++ body) ∧ pad.length = 4 ∧ fill.length = 4032 ∧ mr.Fits ∧
      mr.status = 1 ∧ mr.hashid = 0 ∧ mr.logsize = lfd.length ∧ mr.filesize = filesize ∧
      mr.hash = (env.fastHash256 body).bytes ∧ mr.crc = env.crc32c mr.encodeHead % 2 ^ 32

variable {env}

theorem FinalizedLog.drop {lfd body : Bytes} {filesize : Nat}
    (h : FinalizedLog env lfd filesize body) :
    lfd.drop 4096 = body ∧ lfd.length = 4096 + body.length := by
  obtain ⟨mr, pad, fill, hlfd, hpad, hfill, hfits, -⟩ := h.exists_master
  have hhead := MasterRecord.length_encodeHead hfits.hash
  have hlen : (mr.encode pad ++ fill).length = 4096 := by
    simp [MasterRecord.encode, hhead, hpad, hfill]
  rw [hlfd, ← List.append_assoc]
  exact ⟨List.drop_left' hlen, by rw [List.length_append, hlen]⟩

/-- A finalised log passes all checks of `processLog`. -/
theorem processLog_of_finalized {lfd body : Bytes} {filesize : Nat}
    (h : FinalizedLog env lfd filesize body) (ifd checkhash : Bool) :
    processLog env lfd ifd checkhash =
      (processRecords lfd filesize ifd 4096 [] 0).map fun a =>
        (.truncate .data filesize ::
          ((if ifd then [.truncate .index 0] else []) ++ a.1), a.2) := by
  have hdrop := h.drop.1
  obtain ⟨mr, pad, fill, hlfd, hpad, hfill, hfits, hstatus, hhashid, hlogsize, hfilesize, hhash,
    hcrc⟩ := h.exists_master
  have hhead := MasterRecord.length_encodeHead hfits.hash
  have hlen : (mr.encode pad).length = 64 := by simp [MasterRecord.encode, hhead, hpad]
  have hraw : File.pread lfd MasterRecord.size 0 = mr.encode pad := by
    rw [hlfd, File.pread, List.drop_zero, List.take_left' hlen]
  have hcrcraw : (mr.encode pad).take 56 = mr.encodeHead := by
    rw [MasterRecord.encode, List.append_assoc, List.take_left' hhead]
  have hcheck : checkLogHash env lfd mr = 0 := by
    rw [checkLogHash, if_neg (by rw [hhashid]; decide), sectorSize_eq, hdrop, hhash,
      if_neg (by simp)]
  simp only [processLog, hraw, MasterRecord.decode_encode hfits, hcrcraw]
  rw [if_neg (by rw [hlen]; decide), if_neg (by rw [hstatus]; decide),
    if_neg (by rw [hlogsize]; exact fun h => h rfl), if_neg (by rw [hcrc]; exact fun h => h rfl),
    if_neg (by rw [hcheck]; simp), hfilesize, sectorSize_eq]
  cases processRecords lfd filesize ifd 4096 [] 0 <;> rfl

theorem markLogFinalized_eq {of : Openfile} {hd body : Bytes} {filesize : Nat}
    (hlog : of.logfile = hd ++ body) (hhd : hd.length = 4096) (hctx : of.loghashctx = body)
    (hsize : of.logfile.length < 2 ^ 64) (hfilesize : filesize < 2 ^ 64) :
    ∃ lfd b, markLogFinalized env of filesize =
        .ok { of with logfile := lfd, trace := of.trace ++ [.pwrite .log b 0] } ∧
      lfd = File.pwrite of.logfile b 0 ∧ FinalizedLog env lfd filesize body := by
  have hlen : of.logfile.length = of.loghashctx.length + sectorSize := by
    rw [hlog, hctx, List.length_append, hhd, add_comm]
  let mr0 : MasterRecord :=
    { status := logStatusFinalized
      hashid := logHashidFh256
      logsize := of.logfile.length
      filesize := filesize
      hash := (env.fastHash256 of.loghashctx).bytes
      crc := 0 }
  let mr := { mr0 with crc := env.crc32c mr0.encodeHead % 2 ^ 32 }
  have hfits : mr.Fits :=
    { hash := Fixed.length_bytes _
      status := (by decide : logStatusFinalized < 2 ^ 32)
      hashid := (by decide : logHashidFh256 < 2 ^ 32)
      logsize := hsize
      filesize := hfilesize
      crc := Nat.mod_lt _ (by decide) }
  have hhead := MasterRecord.length_encodeHead hfits.hash
  have hpad : ((env.stack 0).bytes.take 4).length = 4 := by simp [sectorSize_eq]
  have henc : (mr.encode ((env.stack 0).bytes.take 4)).length = 64 := by
    rw [MasterRecord.encode, List.length_append, List.length_append, hhead, hpad, length_toLE]
  have hpw : File.pwrite of.logfile (mr.encode ((env.stack 0).bytes.take 4)) 0 =
      mr.encode ((env.stack 0).bytes.take 4) ++ (hd.drop 64 ++ body) := by
    have hne : mr.encode ((env.stack 0).bytes.take 4) ≠ [] := by
      rw [← List.length_pos_iff, henc]
      decide
    rw [File.pwrite, if_neg hne, henc, hlog, List.drop_append_of_le_length (by omega)]
    simp
  refine ⟨_, mr.encode ((env.stack 0).bytes.take 4), ?_, rfl, ⟨mr, _, hd.drop 64, hpw, hpad, ?_,
    hfits, rfl, rfl, ?_, rfl, ?_, rfl⟩⟩
  · simp only [markLogFinalized]
    rw [assert_true hlen]
    rfl
  · rw [List.length_drop, hhd]
  · rw [hpw, List.length_append, henc, List.length_append, List.length_drop, hhd]
    change of.logfile.length = _
    rw [hlog, List.length_append, hhd]
    omega
  · change (env.fastHash256 of.loghashctx).bytes = _
    rw [hctx]

end

/-! ## The log of an open file -/

/-- The first sector of a log that is not finalised. -/
def logHead : Bytes := List.replicate 4096 0xff

@[simp] theorem length_logHead : logHead.length = 4096 := List.length_replicate

/-- The current log holds exactly `recs`, and `logoffset` is its length. -/
structure LogIs (of : Openfile) (recs : List (Nat × Bytes)) : Prop where
  file : of.logfile = logHead ++ encodeRecs recs
  ctx : of.loghashctx = encodeRecs recs
  offset : of.logoffset = of.logfile.length
  short : of.logfile.length < 2 ^ 32
  fits : ∀ r ∈ recs, RecordFits r

/-- `r` appended to the log by the operations `ops`. -/
def Openfile.appendRec (of : Openfile) (r : Nat × Bytes) (ops : List (FileOp CacheFile)) :
    Openfile :=
  { of with
    logfile := of.logfile ++ encodeRec r
    loghashctx := of.loghashctx ++ encodeRec r
    logoffset := (of.logoffset + (encodeRec r).length) % 2 ^ 32
    trace := of.trace ++ ops }

theorem LogIs.appendRec {of : Openfile} {recs : List (Nat × Bytes)} {r : Nat × Bytes}
    (h : LogIs of recs) (hr : RecordFits r)
    (hshort : of.logfile.length + (encodeRec r).length < 2 ^ 32)
    (ops : List (FileOp CacheFile)) : LogIs (of.appendRec r ops) (recs ++ [r]) where
  file := by
    simp only [Openfile.appendRec]
    rw [h.file, encodeRecs_append, List.append_assoc]
    simp
  ctx := by
    simp only [Openfile.appendRec]
    rw [h.ctx, encodeRecs_append]
    simp
  offset := by
    simp only [Openfile.appendRec]
    rw [h.offset, Nat.mod_eq_of_lt hshort, List.length_append]
  short := by
    simp only [Openfile.appendRec]
    rwa [List.length_append]
  fits := by
    intro r' hr'
    rcases List.mem_append.mp hr' with hr' | hr'
    · exact h.fits r' hr'
    · rw [List.mem_singleton.mp hr']
      exact hr

/-- An open file whose log was just started. -/
theorem logIs_nil {of : Openfile} (hfile : of.logfile = logHead) (hoff : of.logoffset = 4096)
    (hctx : of.loghashctx = []) : LogIs of [] := by
  refine ⟨by rw [hfile]; simp, by rw [hctx]; rfl, ?_, ?_, by simp⟩
  · rw [hoff, hfile, length_logHead]
  · rw [hfile, length_logHead]
    decide

end PcloudClient.FsCrypto
