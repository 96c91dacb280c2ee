/-
  Pcompression/DeflateProofs.lean --- what one call of `psync_deflate_write` and of
  `psync_deflate_read` does to the ring and to the bytes that wait.
-/
import PcloudClient.Pcompression.Deflate

set_option autoImplicit false

namespace PcloudClient.Pcompression

open Bytes

variable {z : Zlib}

@[simp] theorem except_ok_bind {ε α β : Type} (a : α) (f : α → Except ε β) :
    (Except.ok a).bind f = f a := rfl

namespace Deflate

/-! ## What waits -/

/-- The bytes in the ring. -/
def ringBytes (d : Deflate z) : Bytes := Ring.unread d.buffer d.bufferstartoff d.bufferendoff

/-- The bytes left in the flush buffer. -/
def flushBytes (d : Deflate z) : Bytes :=
  match d.flushbuff with
  | some flushbuff => flushbuff.drop d.flushbuffoff
  | none => []

/-- What reads hand out before zlib is called again. -/
def unread (d : Deflate z) : Bytes := d.ringBytes ++ d.flushBytes

@[simp] theorem length_ringBytes (d : Deflate z) :
    d.ringBytes.length = d.bufferendoff - d.bufferstartoff :=
  Ring.length_unread _ _ _

theorem flushBytes_of_none {d : Deflate z} (h : d.flushbuff = none) : d.flushBytes = [] := by
  rw [flushBytes, h]

theorem flushBytes_of_some {d : Deflate z} {b : Bytes} (h : d.flushbuff = some b) :
    d.flushBytes = b.drop d.flushbuffoff := by
  rw [flushBytes, h]

/-- The offsets of the ring. -/
structure RingOk (d : Deflate z) : Prop where
  start_lt : d.bufferstartoff < bufferSize
  start_le : d.bufferstartoff ≤ d.bufferendoff
  le_size : d.bufferendoff - d.bufferstartoff ≤ bufferSize

theorem RingOk.init (level : Int) (buffer : Fixed bufferSize) :
    RingOk (psyncDeflateInit z level buffer) :=
  ⟨show 0 < bufferSize by decide, le_refl _, show 0 - 0 ≤ bufferSize by decide⟩

/-- The offset into the flush buffer stays inside it. -/
def FlushOk (d : Deflate z) : Prop := ∀ b, d.flushbuff = some b → d.flushbuffoff ≤ b.length

/-! ## Where zlib writes -/

/-- The free pieces of the ring, in the order in which `psync_deflate_write` offers them. -/
def freePieces (d : Deflate z) : List Nat :=
  if d.bufferendoff - d.bufferstartoff = bufferSize then []
  else
    let first := Ring.room bufferSize d.bufferstartoff d.bufferendoff
    first :: if d.bufferendoff + first - d.bufferstartoff = bufferSize then []
      else [Ring.room bufferSize d.bufferstartoff (d.bufferendoff + first)]

theorem setOutBuff_full {d : Deflate z} (h : d.bufferendoff - d.bufferstartoff = bufferSize) :
    d.setOutBuff = .ok none :=
  if_pos h

theorem setOutBuff_free {d : Deflate z} (h : d.bufferendoff - d.bufferstartoff ≠ bufferSize) :
    d.setOutBuff = .ok (some (d.bufferendoff % bufferSize,
      Ring.room bufferSize d.bufferstartoff d.bufferendoff)) := by
  have hroom : 0 < Ring.room bufferSize d.bufferstartoff d.bufferendoff :=
    Ring.room_pos (by decide)
  have hne : Ring.room bufferSize d.bufferstartoff d.bufferendoff ≠ 0 := by omega
  rw [setOutBuff, if_neg h]
  show (assert (Ring.room bufferSize d.bufferstartoff d.bufferendoff ≠ 0)).bind _ = _
  rw [assert_true hne]
  rfl

/-- What a call into the ring leaves: the offsets stay sound and the output is added. -/
theorem ring_called {d : Deflate z} (h : d.RingOk)
    (hfree : d.bufferendoff - d.bufferstartoff ≠ bufferSize) (r : ZResult z.State)
    (availOut : Nat)
    (hout : r.out.length ≤ Ring.room bufferSize d.bufferstartoff d.bufferendoff) :
    let d' : Deflate z := { d.called r availOut with
      buffer := d.buffer.write (d.bufferendoff % bufferSize) r.out
      bufferendoff := d.bufferendoff + r.out.length }
    d'.RingOk ∧ d'.ringBytes = d.ringBytes ++ r.out := by
  obtain ⟨hlt, hle, hsize⟩ := h
  have hless : d.bufferendoff - d.bufferstartoff < bufferSize := by omega
  have hroom := Ring.length_add_room_le hlt hle hless
  refine ⟨⟨hlt, ?_, ?_⟩, Ring.unread_write hlt hle hless hout⟩
  · show d.bufferstartoff ≤ d.bufferendoff + r.out.length
    omega
  · show d.bufferendoff + r.out.length - d.bufferstartoff ≤ bufferSize
    omega

/-- The fields that calls of zlib leave alone. -/
structure SameBuffers (d d' : Deflate z) : Prop where
  isDeflate : d'.isDeflate = d.isDeflate
  flushbuff : d'.flushbuff = d.flushbuff
  flushbuffoff : d'.flushbuffoff = d.flushbuffoff

/-- A call of zlib into the free piece at the end. -/
theorem callCompressorRing_spec {d : Deflate z} (h : d.RingOk)
    (hfree : d.bufferendoff - d.bufferstartoff ≠ bufferSize) (f : Int) (input : Bytes) :
    let room := Ring.room bufferSize d.bufferstartoff d.bufferendoff
    let r := d.zcall f input room
    ∃ d', d.callCompressorRing f input (d.bufferendoff % bufferSize) room =
        .ok (r.ret, input.drop r.consumed, d') ∧
      d'.RingOk ∧ d'.ringBytes = d.ringBytes ++ r.out ∧ d'.zout = d.zout ++ r.out ∧
      d'.stream = r.state ∧ d'.moreData = decide (room - r.out.length = 0) ∧
      d'.bufferstartoff = d.bufferstartoff ∧ d'.bufferendoff = d.bufferendoff + r.out.length ∧
      SameBuffers d d' := by
  intro room r
  have hroom : 0 < room := Ring.room_pos (by decide)
  have hne : room ≠ 0 := by omega
  have hring := ring_called h hfree r room (z.out_le _ _ _ _ _)
  refine ⟨_, ?_, hring.1, hring.2, rfl, rfl, rfl, rfl, rfl, ⟨rfl, rfl, rfl⟩⟩
  rw [callCompressorRing, assert_true hne]
  rfl

/-! ## The flush buffer -/

/-- Only the stream, the flush buffer and the flags differ. -/
structure SameRing (d d' : Deflate z) : Prop where
  isDeflate : d'.isDeflate = d.isDeflate
  buffer : d'.buffer = d.buffer
  start : d'.bufferstartoff = d.bufferstartoff
  stop : d'.bufferendoff = d.bufferendoff
  off : d'.flushbuffoff = d.flushbuffoff

theorem SameRing.ringBytes_eq {d d' : Deflate z} (h : SameRing d d') :
    d'.ringBytes = d.ringBytes := by
  rw [ringBytes, ringBytes, h.buffer, h.start, h.stop]

theorem SameRing.ringOk {d d' : Deflate z} (h : SameRing d d') (hd : d.RingOk) : d'.RingOk := by
  obtain ⟨hlt, hle, hsize⟩ := hd
  rw [← h.start, ← h.stop] at hle hsize
  rw [← h.start] at hlt
  exact ⟨hlt, hle, hsize⟩

/-- The size of the memory doubles with each round. -/
def AllocOk (buff : Bytes) (alloced : Nat) : Prop :=
  buff.length = 0 ∧ alloced = 4096 ∨ 0 < buff.length ∧ alloced = 2 * buff.length

theorem finishFlushLoop_total (f : Int) (fuel : Nat) {d : Deflate z} {buff : Bytes}
    {alloced : Nat} {input : Bytes} (hfuel : z.budget d.stream (psyncTranslateFlush f) input < fuel)
    (halloc : AllocOk buff alloced)
    (hsmall : z.budget d.stream (psyncTranslateFlush f) input + buff.length < 2 ^ 31) :
    ∃ r, finishFlushLoop f fuel d buff alloced input = .ok r := by
  induction fuel generalizing d buff alloced input with
  | zero => exact absurd hfuel (Nat.not_lt_zero _)
  | succ fuel ih =>
    have hbudget := z.budget_le true d.stream (psyncTranslateFlush f) input (alloced - buff.length)
    have hout := z.out_le true d.stream (psyncTranslateFlush f) input (alloced - buff.length)
    simp only [finishFlushLoop]
    generalize z.call true d.stream (psyncTranslateFlush f) input (alloced - buff.length) = r at *
    unfold AllocOk at halloc
    split_ifs with hret hbuf hlen hroom hwrap
    · exact ⟨_, rfl⟩
    · exact ⟨_, rfl⟩
    · exact ⟨_, rfl⟩
    · exact ⟨_, rfl⟩
    · omega
    · -- the memory is full, so this call used up some of the budget
      have hused : (buff ++ r.out).length = alloced := by
        rw [List.length_append]
        omega
      have hnext : z.budget r.state (psyncTranslateFlush f) (input.drop r.consumed) < fuel := by
        omega
      exact ih (d := d.flushCalled r) hnext
        (Or.inr ⟨by omega, by omega⟩ : AllocOk (buff ++ r.out) (alloced * 2))
        (show z.budget r.state _ _ + _ < _ by omega)

/-- Where the loop returns, the ring and the flag are as before. -/
theorem finishFlushLoop_same {f : Int} (fuel : Nat) {d : Deflate z} {buff : Bytes}
    {alloced : Nat} {input : Bytes} {r : ZRet × Bytes × Deflate z}
    (h : finishFlushLoop f fuel d buff alloced input = .ok r) :
    SameRing d r.2.2 ∧ r.2.2.moreData = d.moreData := by
  induction fuel generalizing d buff alloced input with
  | zero => exact nomatch h
  | succ fuel ih =>
    simp only [finishFlushLoop] at h
    generalize z.call true d.stream (psyncTranslateFlush f) input (alloced - buff.length) = c at *
    split_ifs at h
    · obtain rfl := Except.ok.inj h
      exact ⟨⟨rfl, rfl, rfl, rfl, rfl⟩, rfl⟩
    · obtain rfl := Except.ok.inj h
      exact ⟨⟨rfl, rfl, rfl, rfl, rfl⟩, rfl⟩
    · obtain rfl := Except.ok.inj h
      exact ⟨⟨rfl, rfl, rfl, rfl, rfl⟩, rfl⟩
    · obtain rfl := Except.ok.inj h
      exact ⟨⟨rfl, rfl, rfl, rfl, rfl⟩, rfl⟩
    · obtain ⟨hsame, hmore⟩ := ih (d := d.flushCalled c) h
      exact ⟨⟨hsame.isDeflate, hsame.buffer, hsame.start, hsame.stop, hsame.off⟩, hmore⟩

/-- A flush that does not end the stream keeps all its output. -/
theorem finishFlushLoop_fifo {f : Int} (hf : psyncTranslateFlush f ≠ .finish) (fuel : Nat)
    {d : Deflate z} {buff taken : Bytes} {alloced : Nat} {input : Bytes}
    {r : ZRet × Bytes × Deflate z} (hfin : z.finishing d.stream = false)
    (halloc : AllocOk buff alloced) (hnone : d.flushbuff = none) (hout : taken ++ buff = d.zout)
    (h : finishFlushLoop f fuel d buff alloced input = .ok r) :
    r.1 = .ok ∧ z.owed r.2.2.stream = [] ∧ z.finishing r.2.2.stream = false ∧
      ∃ b, taken ++ b = r.2.2.zout ∧
        (r.2.2.flushbuff = some b ∨ r.2.2.flushbuff = none ∧ b = []) := by
  induction fuel generalizing d buff alloced input with
  | zero => exact nomatch h
  | succ fuel ih =>
    have haccepts :=
      z.accepts d.stream (psyncTranslateFlush f) input (alloced - buff.length) hfin hf
    have hdrained := z.drained true d.stream (psyncTranslateFlush f) input (alloced - buff.length)
    have hbuf := z.bufError_out true d.stream (psyncTranslateFlush f) input (alloced - buff.length)
    have hfin' := z.finishing_of true d.stream (psyncTranslateFlush f) input (alloced - buff.length)
    have hle := z.out_le true d.stream (psyncTranslateFlush f) input (alloced - buff.length)
    simp only [finishFlushLoop] at h
    generalize z.call true d.stream (psyncTranslateFlush f) input (alloced - buff.length) = c at *
    have hcalm : z.finishing c.state = false := by
      rw [Bool.eq_false_iff]
      intro hc
      rcases hfin' hc with h' | h'
      · exact absurd h' (by rw [hfin]; decide)
      · exact hf h'.2
    have hcurrent : 0 < alloced - buff.length := by
      unfold AllocOk at halloc
      omega
    have hzout : taken ++ (buff ++ c.out) = d.zout ++ c.out := by
      rw [← hout, List.append_assoc]
    split_ifs at h with hret hbufError hlen hroom hwrap
    · exact absurd (haccepts.resolve_left hret) hbufError
    · -- nothing was left to write
      obtain rfl := Except.ok.inj h
      have hc : c.ret = .bufError := haccepts.resolve_left hret
      have hempty : buff = [] := List.length_eq_zero_iff.mp hlen
      refine ⟨rfl, hdrained hcurrent (by rw [hc]; decide) (Or.inr hret), hcalm, [], ?_,
        Or.inr ⟨hnone, rfl⟩⟩
      show taken ++ [] = d.zout ++ c.out
      rw [← hzout, hempty, hbuf hc]
      rfl
    · obtain rfl := Except.ok.inj h
      have hc : c.ret = .bufError := haccepts.resolve_left hret
      refine ⟨rfl, hdrained hcurrent (by rw [hc]; decide) (Or.inr hret), hcalm, buff, ?_,
        Or.inl rfl⟩
      show taken ++ buff = d.zout ++ c.out
      rw [← hzout, hbuf hc, List.append_nil]
    · obtain rfl := Except.ok.inj h
      have hc : c.ret = .ok := not_not.mp hret
      exact ⟨rfl, hdrained hcurrent (by rw [hc]; decide) (Or.inl (by omega)), hcalm, _, hzout,
        Or.inl rfl⟩
    · have hused : (buff ++ c.out).length = alloced := by
        rw [List.length_append]
        omega
      exact ih (d := d.flushCalled c) hcalm
        (Or.inr ⟨by omega, by omega⟩ : AllocOk (buff ++ c.out) (alloced * 2)) hnone hzout h

/-! ## Reading -/

/-- A read that ends behind the wrap and leaves something there. -/
def ShortWrap (d : Deflate z) (len : Nat) : Prop :=
  len < d.bufferendoff - d.bufferstartoff ∧ bufferSize < d.bufferstartoff + len

instance (d : Deflate z) (len : Nat) : Decidable (d.ShortWrap len) :=
  inferInstanceAs (Decidable (_ ∧ _))

theorem copyRing_eq {d : Deflate z} (h : d.RingOk) {len : Nat}
    (hlen : len ≤ d.bufferendoff - d.bufferstartoff) (hwrap : ¬ d.ShortWrap len) :
    d.copyRing len = .ok (d.ringBytes.take len) := by
  obtain ⟨hlt, hle, hsize⟩ := h
  have htake : d.ringBytes.take len =
      Ring.unread d.buffer d.bufferstartoff (d.bufferstartoff + len) :=
    Ring.take_unread d.buffer (by omega)
  unfold copyRing
  split
  · next hin =>
    rw [htake, Ring.unread_eq_slice d.buffer hin, Nat.add_sub_cancel_left]
  · next hout =>
    have hall : d.bufferstartoff + len = d.bufferendoff := by
      unfold ShortWrap at hwrap
      omega
    have hmod : d.bufferendoff % bufferSize = d.bufferendoff - bufferSize := by
      rw [Nat.mod_eq_sub_mod (by omega), Nat.mod_eq_of_lt (by omega)]
    have hrest : len - (bufferSize - d.bufferstartoff) = d.bufferendoff - bufferSize := by omega
    rw [hmod, assert_true hrest, except_ok_bind, hrest, htake, hall,
      Ring.unread_eq_wrap d.buffer (by omega) (by omega) (by omega)]

/-- Short of the wrap, and only there, the assertion in the copy holds. -/
theorem copyRing_shortWrap {d : Deflate z} (h : d.RingOk) {len : Nat} (hwrap : d.ShortWrap len) :
    d.copyRing len = .error .assertFailed := by
  obtain ⟨hlt, hle, hsize⟩ := h
  obtain ⟨hshort, hout⟩ := hwrap
  have hmod : d.bufferendoff % bufferSize = d.bufferendoff - bufferSize := by
    rw [Nat.mod_eq_sub_mod (by omega), Nat.mod_eq_of_lt (by omega)]
  have hne : ¬ len - (bufferSize - d.bufferstartoff) = d.bufferendoff - bufferSize := by omega
  rw [copyRing, if_neg (by omega), hmod, assert, if_neg hne]
  rfl

theorem advance_eq {d : Deflate z} (h : d.RingOk) {len : Nat}
    (hlen : len ≤ d.bufferendoff - d.bufferstartoff) :
    ∃ start stop, d.advance len = .ok { d with bufferstartoff := start, bufferendoff := stop } ∧
      RingOk { d with bufferstartoff := start, bufferendoff := stop } ∧
      Ring.unread d.buffer start stop = d.ringBytes.drop len ∧
      stop - start = d.bufferendoff - d.bufferstartoff - len := by
  obtain ⟨hlt, hle, hsize⟩ := h
  have hdrop : d.ringBytes.drop len =
      Ring.unread d.buffer (d.bufferstartoff + len) d.bufferendoff :=
    Ring.drop_unread d.buffer (by omega)
  simp only [advance]
  split_ifs with hall hround
  · refine ⟨0, 0, rfl,
      ⟨show 0 < bufferSize by decide, le_refl 0, show 0 - 0 ≤ bufferSize by decide⟩, ?_, by omega⟩
    rw [hdrop, hall, Ring.unread_self, Ring.unread_self]
  · have hstop : bufferSize ≤ d.bufferendoff := by omega
    refine ⟨d.bufferstartoff + len - bufferSize, d.bufferendoff - bufferSize, ?_,
      ⟨?_, ?_, ?_⟩, ?_, by omega⟩
    · rw [assert_true hstop]
      rfl
    · show d.bufferstartoff + len - bufferSize < bufferSize
      omega
    · show d.bufferstartoff + len - bufferSize ≤ d.bufferendoff - bufferSize
      omega
    · show d.bufferendoff - bufferSize - (d.bufferstartoff + len - bufferSize) ≤ bufferSize
      omega
    · rw [hdrop, Ring.unread_sub d.buffer hround]
  · refine ⟨d.bufferstartoff + len, d.bufferendoff, rfl, ⟨?_, ?_, ?_⟩, hdrop.symm, by omega⟩
    · show d.bufferstartoff + len < bufferSize
      omega
    · show d.bufferstartoff + len ≤ d.bufferendoff
      omega
    · show d.bufferendoff - (d.bufferstartoff + len) ≤ bufferSize
      omega

/-- A read from the ring hands out the front of what is there. -/
theorem readRing_spec {d : Deflate z} (h : d.RingOk) {len : Nat} (hwrap : ¬ d.ShortWrap len) :
    ∃ start stop, d.readRing len =
        .ok ((min len (d.bufferendoff - d.bufferstartoff) : Nat), d.ringBytes.take len,
          { d with bufferstartoff := start, bufferendoff := stop }) ∧
      RingOk { d with bufferstartoff := start, bufferendoff := stop } ∧
      Ring.unread d.buffer start stop = d.ringBytes.drop len ∧
      stop - start = d.bufferendoff - d.bufferstartoff - len := by
  have hmin : min len (d.bufferendoff - d.bufferstartoff) ≤ d.bufferendoff - d.bufferstartoff :=
    Nat.min_le_right _ _
  have hwrap' : ¬ d.ShortWrap (min len (d.bufferendoff - d.bufferstartoff)) := by
    unfold ShortWrap at *
    omega
  have htake : d.ringBytes.take (min len (d.bufferendoff - d.bufferstartoff)) =
      d.ringBytes.take len := by
    rw [List.take_eq_take_iff, length_ringBytes]
    omega
  have hdrop : d.ringBytes.drop (min len (d.bufferendoff - d.bufferstartoff)) =
      d.ringBytes.drop len := by
    rcases Nat.le_total len (d.bufferendoff - d.bufferstartoff) with hl | hl
    · rw [Nat.min_eq_left hl]
    · rw [Nat.min_eq_right hl, List.drop_eq_nil_of_le (by simp),
        List.drop_eq_nil_of_le (by simpa using hl)]
  obtain ⟨start, stop, hadv, hok, hunread, hlen⟩ := advance_eq h hmin
  have hsize : min len (d.bufferendoff - d.bufferstartoff) ≤ bufferSize :=
    Nat.le_trans hmin h.le_size
  refine ⟨start, stop, ?_, hok, hunread.trans hdrop, by omega⟩
  simp only [readRing]
  rw [assert_true hsize, except_ok_bind, assert_true (Nat.le_of_lt h.start_lt), except_ok_bind,
    copyRing_eq h hmin hwrap', except_ok_bind, hadv, htake]
  rfl

/-! ## Reads of every kind -/

/-- A read of no bytes that goes to zlib. -/
def ZeroDirect (d : Deflate z) (len : Nat) : Prop :=
  len = 0 ∧ d.bufferstartoff = d.bufferendoff ∧ d.flushbuff = none ∧ d.moreData = true

instance (d : Deflate z) (len : Nat) : Decidable (d.ZeroDirect len) :=
  inferInstanceAs (Decidable (_ ∧ _))

/-- How many bytes wait. -/
def unreadLen (d : Deflate z) : Nat :=
  d.bufferendoff - d.bufferstartoff + (d.flushbuff.map fun b => b.length - d.flushbuffoff).getD 0

theorem length_unread (d : Deflate z) : d.unread.length = d.unreadLen := by
  unfold unread unreadLen flushBytes
  cases d.flushbuff <;> simp

theorem read_ring {d : Deflate z} (h : d.RingOk) (hne : d.bufferendoff ≠ d.bufferstartoff)
    (len : Nat) : d.read len = d.readRing len := by
  rw [read, assert_true h.start_le, except_ok_bind, if_neg hne]

theorem read_flushbuff {d : Deflate z} (h : d.RingOk) (heq : d.bufferendoff = d.bufferstartoff)
    {b : Bytes} (hb : d.flushbuff = some b) (len : Nat) :
    d.read len = .ok (d.readFlushbuff b len) := by
  rw [read, assert_true h.start_le, except_ok_bind, if_pos heq]
  simp only [hb]

theorem read_empty {d : Deflate z} (h : d.RingOk) (heq : d.bufferendoff = d.bufferstartoff)
    (hb : d.flushbuff = none) (len : Nat) :
    d.read len = if d.moreData then d.readDirect len
      else .ok (if d.streamEnd then eof else nodata, [], d) := by
  rw [read, assert_true h.start_le, except_ok_bind, if_pos heq]
  simp only [hb]

/-- What is left after a read from the flush buffer. -/
theorem readFlushbuff_spec {d : Deflate z} {b : Bytes} (hb : d.flushbuff = some b)
    (hoff : d.flushbuffoff ≤ b.length) (len : Nat) :
    (d.readFlushbuff b len).1 = (min len (b.length - d.flushbuffoff) : Nat) ∧
      (d.readFlushbuff b len).2.1 = d.flushBytes.take len ∧
      (d.readFlushbuff b len).2.2.flushBytes = d.flushBytes.drop len ∧
      SameRing { d with flushbuffoff := (d.readFlushbuff b len).2.2.flushbuffoff }
        (d.readFlushbuff b len).2.2 ∧
      (d.readFlushbuff b len).2.2.FlushOk := by
  have hmin : min len (b.length - d.flushbuffoff) ≤ b.length - d.flushbuffoff :=
    Nat.min_le_right _ _
  refine ⟨rfl, ?_, ?_, ⟨rfl, rfl, rfl, rfl, rfl⟩, ?_⟩
  · show (b.drop d.flushbuffoff).take _ = _
    rw [flushBytes_of_some hb, List.take_eq_take_iff, List.length_drop]
    omega
  · rw [flushBytes_of_some hb, List.drop_drop]
    simp only [readFlushbuff]
    split_ifs with hall
    · rw [flushBytes_of_none rfl, List.drop_eq_nil_of_le]
      omega
    · rw [flushBytes_of_some rfl]
      show b.drop (d.flushbuffoff + min len (b.length - d.flushbuffoff)) = _
      rcases Nat.le_total len (b.length - d.flushbuffoff) with hl | hl
      · rw [Nat.min_eq_left hl]
      · exact absurd (by rw [Nat.min_eq_right hl]; omega) hall
  · intro b' hb'
    simp only [readFlushbuff] at hb' ⊢
    split_ifs at hb' with hall
    obtain rfl := Option.some.inj hb'
    omega

/-- `out`, of `k` bytes, is the front of what waited in `d`, and `d'` has the rest. -/
structure Takes (d : Deflate z) (len k : Nat) (out : Bytes) (d' : Deflate z) : Prop where
  length : out.length = k
  unread : out ++ d'.unread = d.unread
  ring : d'.RingOk
  flush : d'.FlushOk
  stream : d'.stream = d.stream
  isDeflate : d'.isDeflate = d.isDeflate
  moreData : d'.moreData = d.moreData
  zout : d'.zout = d.zout
  zcalls : d'.zcalls = d.zcalls
  nothing : 0 < len → k = 0 → d'.unread = []
  flushbuff : d'.flushbuff ≠ none → d.flushbuff ≠ none
  flushbuffoff : d.bufferendoff ≠ d.bufferstartoff →
    d'.flushbuff = d.flushbuff ∧ d'.flushbuffoff = d.flushbuffoff

/-- A read that does not go to zlib takes the front of what waits. -/
theorem read_buffered {d : Deflate z} (h : d.RingOk) (hflush : d.FlushOk) {len : Nat}
    (hwrap : ¬ d.ShortWrap len)
    (hbuff : d.bufferendoff ≠ d.bufferstartoff ∨ d.flushbuff ≠ none) :
    ∃ k : Nat, ∃ out d', d.read len = .ok (k, out, d') ∧ d.Takes len k out d' := by
  by_cases hne : d.bufferendoff = d.bufferstartoff
  · obtain ⟨b, hb⟩ := Option.ne_none_iff_exists'.mp (hbuff.resolve_left (not_not.mpr hne))
    have hring : d.ringBytes = [] := by rw [ringBytes, hne, Ring.unread_self]
    obtain ⟨hret, hout, hrest, hsame, hok⟩ := readFlushbuff_spec hb (hflush b hb) len
    have hring' : (d.readFlushbuff b len).2.2.ringBytes = [] := by
      rw [hsame.ringBytes_eq]
      exact hring
    have hfl : d.flushBytes.length = b.length - d.flushbuffoff := by
      rw [flushBytes_of_some hb, List.length_drop]
    refine ⟨min len (b.length - d.flushbuffoff), (d.readFlushbuff b len).2.1,
      (d.readFlushbuff b len).2.2, read_flushbuff h hne hb len, ?_⟩
    exact {
      length := by rw [hout, List.length_take, hfl]
      unread := by
        rw [Deflate.unread, Deflate.unread, hring, hring', hout, hrest]
        exact List.take_append_drop len d.flushBytes
      ring := hsame.ringOk ⟨h.start_lt, h.start_le, h.le_size⟩
      flush := hok
      stream := rfl
      isDeflate := rfl
      moreData := rfl
      zout := rfl
      zcalls := rfl
      nothing := by
        intro hpos hzero
        rw [Deflate.unread, hring', hrest, List.drop_eq_nil_of_le (by omega)]
        rfl
      flushbuff := fun _ => by rw [hb]; exact Option.some_ne_none b
      flushbuffoff := fun hc => absurd hne hc }
  · obtain ⟨start, stop, hread, hok, hunread, hlen⟩ := readRing_spec h hwrap
    have hstart := h.start_le
    refine ⟨min len (d.bufferendoff - d.bufferstartoff), _, _,
      (read_ring h hne len).trans hread, ?_⟩
    exact {
      length := by rw [List.length_take, length_ringBytes]
      unread := by
        show d.ringBytes.take len ++ (Ring.unread d.buffer start stop ++ d.flushBytes) = _
        rw [hunread, ← List.append_assoc, List.take_append_drop]
        rfl
      ring := hok
      flush := hflush
      stream := rfl
      isDeflate := rfl
      moreData := rfl
      zout := rfl
      zcalls := rfl
      nothing := fun _ hzero => absurd hzero (by omega)
      flushbuff := id
      flushbuffoff := fun _ => ⟨rfl, rfl⟩ }

theorem Takes.unreadLen_eq {d d' : Deflate z} {len k : Nat} {out : Bytes}
    (h : d.Takes len k out d') : k + d'.unreadLen = d.unreadLen := by
  rw [← length_unread, ← length_unread, ← h.unread, List.length_append, h.length]

/-! ## Direct reads -/

/-- A read that goes to zlib returns what zlib wrote, unless an error is found. -/
theorem readDirect_spec (d : Deflate z) {len : Nat} (hlen : 0 < len) :
    ∃ ret : Int, ∃ out streamEnd, d.readDirect len = .ok (ret, out,
        { d.called (d.zcall noflush [] len) len with streamEnd := streamEnd }) ∧
      ((d.zcall noflush [] len).ret ≠ .streamError → (d.zcall noflush [] len).ret ≠ .dataError →
        out = (d.zcall noflush [] len).out) ∧
      ((d.zcall noflush [] len).ret = .streamError ∨ (d.zcall noflush [] len).ret = .dataError →
        out = [] ∧ ret = error) ∧
      (ret = nodata ∨ ret = eof → (d.zcall noflush [] len).out = []) := by
  have hbuf := z.bufError_out d.isDeflate d.stream
    (if d.isDeflate then psyncTranslateFlush noflush else .syncFlush) [] len
  have hne : len ≠ 0 := by omega
  have hret : ∀ out : Bytes, ((if out.length = 0 then nodata else (out.length : Int)) = nodata ∨
      (if out.length = 0 then nodata else (out.length : Int)) = eof) → out = [] := by
    intro out h
    rw [← List.length_eq_zero_iff]
    by_contra hpos
    rw [if_neg hpos] at h
    simp only [nodata, eof] at h
    omega
  simp only [readDirect, callCompressorDirect]
  rw [assert_true hne, except_ok_bind]
  simp only [except_ok_bind]
  change (d.zcall noflush [] len).ret = .bufError → (d.zcall noflush [] len).out = [] at hbuf
  cases hc : (d.zcall noflush [] len).ret with
  | bufError =>
    exact ⟨_, _, d.streamEnd, rfl, fun _ _ => (hbuf hc).symm, by simp, fun _ => hbuf hc⟩
  | streamError =>
    exact ⟨_, _, d.streamEnd, rfl, fun h => absurd rfl h, fun _ => ⟨rfl, rfl⟩,
      by simp [error, nodata, eof]⟩
  | dataError =>
    exact ⟨_, _, d.streamEnd, rfl, fun _ h => absurd rfl h, fun _ => ⟨rfl, rfl⟩,
      by simp [error, nodata, eof]⟩
  | streamEnd => exact ⟨_, _, true, rfl, fun _ _ => rfl, by simp, hret _⟩
  | ok => exact ⟨_, _, d.streamEnd, rfl, fun _ _ => rfl, by simp, hret _⟩
  | other => exact ⟨_, _, d.streamEnd, rfl, fun _ _ => rfl, by simp, hret _⟩

end Deflate

end PcloudClient.Pcompression
