/-
  Pcompression/WriteProofs.lean --- `psync_deflate_write`: where its output goes, and when
  nothing is left inside zlib.
-/
import PcloudClient.Pcompression.DeflateProofs

set_option autoImplicit false

namespace PcloudClient.Pcompression

open Bytes

variable {z : Zlib}

namespace Deflate

/-! ## The stream between calls -/

/-- The flush mode that zlib is called with. -/
def mode (d : Deflate z) (f : Int) : ZFlush :=
  if d.isDeflate then psyncTranslateFlush f else .syncFlush

/-- A stream that was asked to finish has written everything, and only `deflate` finishes. -/
structure Calm (d : Deflate z) : Prop where
  finished : z.finishing d.stream = true → z.owed d.stream = []
  inflates : d.isDeflate = false → z.finishing d.stream = false

/-- Room left over, or a return code other than `Z_OK`: nothing is owed. -/
theorem owed_zcall {d : Deflate z} {f : Int} (input : Bytes) {availOut : Nat} (hpos : 0 < availOut)
    (hcalm : d.mode f ≠ .finish → d.Calm)
    (h : (d.zcall f input availOut).out.length < availOut ∨ (d.zcall f input availOut).ret ≠ .ok) :
    z.owed (d.zcall f input availOut).state = [] := by
  by_cases herr : (d.zcall f input availOut).ret = .streamError
  · obtain ⟨hfin, hmode, -, hstate⟩ := z.refused _ _ _ _ _ herr
    have hstate : (d.zcall f input availOut).state = d.stream := hstate
    rw [hstate]
    exact (hcalm hmode).finished hfin
  · exact z.drained _ _ _ _ _ hpos herr h

/-- A call that does not finish leaves the stream calm, and a `deflate` that makes progress is
not finishing. -/
theorem calm_zcall {d d' : Deflate z} {f : Int} {input : Bytes} {availOut : Nat}
    (hmode : d.mode f ≠ .finish) (hcalm : d.Calm)
    (hd : d'.stream = (d.zcall f input availOut).state) (hsame : d'.isDeflate = d.isDeflate) :
    d'.Calm ∧ ((d.zcall f input availOut).ret = .ok → z.finishing d'.stream = false) := by
  have hfin : z.finishing d'.stream = true →
      z.finishing d.stream = true ∧ (d.zcall f input availOut).ret = .streamError := by
    intro h
    rw [hd] at h
    rcases z.finishing_of _ _ _ _ _ h with h' | h'
    · refine ⟨h', ?_⟩
      cases hdef : d.isDeflate with
      | false => exact absurd (hcalm.inflates hdef) (by rw [h']; decide)
      | true =>
        have hmode' : psyncTranslateFlush f ≠ .finish := by simpa [mode, hdef] using hmode
        have hz : d.zcall f input availOut =
            z.call true d.stream (psyncTranslateFlush f) input availOut := by
          simp [zcall, hdef]
        rw [hz]
        exact z.finishing_refuses _ _ _ _ h' hmode'
    · exact absurd h'.2 hmode
  refine ⟨⟨?_, ?_⟩, ?_⟩
  · intro h
    obtain ⟨hold, herr⟩ := hfin h
    have hstate : (d.zcall f input availOut).state = d.stream := (z.refused _ _ _ _ _ herr).2.2.2
    rw [hd, hstate]
    exact hcalm.finished hold
  · intro hdef
    rw [Bool.eq_false_iff]
    intro h
    exact absurd (hcalm.inflates (hsame ▸ hdef)) (by rw [(hfin h).1]; decide)
  · intro hok
    rw [Bool.eq_false_iff]
    intro h
    rw [(hfin h).2] at hok
    exact absurd hok (by decide)

/-! ## The calls of one write -/

/-- The room of the next call. -/
def nextRoom (d : Deflate z) : Nat := Ring.room bufferSize d.bufferstartoff d.bufferendoff

/-- One call into the ring, with all the room at its end, and the stream that it leaves. -/
structure Called (d : Deflate z) (f : Int) (input : Bytes) (d' : Deflate z) : Prop where
  free : d.bufferendoff - d.bufferstartoff ≠ bufferSize
  ring : d'.RingOk
  ringBytes : d'.ringBytes = d.ringBytes ++ (d.zcall f input d.nextRoom).out
  zout : d'.zout = d.zout ++ (d.zcall f input d.nextRoom).out
  stream : d'.stream = (d.zcall f input d.nextRoom).state
  moreData : d'.moreData = decide (d.nextRoom - (d.zcall f input d.nextRoom).out.length = 0)
  start : d'.bufferstartoff = d.bufferstartoff
  stop : d'.bufferendoff = d.bufferendoff + (d.zcall f input d.nextRoom).out.length
  same : SameBuffers d d'

theorem nextRoom_pos (d : Deflate z) : 0 < d.nextRoom := Ring.room_pos (by decide)

theorem out_le_nextRoom (d : Deflate z) (f : Int) (input : Bytes) :
    (d.zcall f input d.nextRoom).out.length ≤ d.nextRoom :=
  z.out_le _ _ _ _ _

theorem callCompressorRing_called {d : Deflate z} (h : d.RingOk)
    (hfree : d.bufferendoff - d.bufferstartoff ≠ bufferSize) (f : Int) (input : Bytes) :
    ∃ d', d.callCompressorRing f input (d.bufferendoff % bufferSize) d.nextRoom =
        .ok ((d.zcall f input d.nextRoom).ret,
          input.drop (d.zcall f input d.nextRoom).consumed, d') ∧
      d.Called f input d' := by
  obtain ⟨d', hcall, hring, hbytes, hzout, hstream, hmore, hstart, hstop, hsame⟩ :=
    callCompressorRing_spec h hfree f input
  exact ⟨d', hcall, ⟨hfree, hring, hbytes, hzout, hstream, hmore, hstart, hstop, hsame⟩⟩

section Called

variable {d d' : Deflate z} {f : Int} {input : Bytes}

/-- Without the flag there was room left. -/
theorem Called.room_left (h : d.Called f input d') (hmore : d'.moreData = false) :
    (d.zcall f input d.nextRoom).out.length < d.nextRoom := by
  have hdec := h.moreData
  rw [hmore, eq_comm, decide_eq_false_iff_not] at hdec
  have := out_le_nextRoom d f input
  omega

theorem Called.no_room (h : d.Called f input d') (hmore : d'.moreData = true) :
    (d.zcall f input d.nextRoom).out.length = d.nextRoom := by
  have hdec := h.moreData
  rw [hmore, eq_comm, decide_eq_true_iff] at hdec
  have := out_le_nextRoom d f input
  omega

/-- A call that could make no progress leaves the flag cleared. -/
theorem Called.not_bufError (h : d.Called f input d') (hmore : d'.moreData = true) :
    (d.zcall f input d.nextRoom).ret ≠ .bufError := by
  intro hret
  have hout : (d.zcall f input d.nextRoom).out = [] := z.bufError_out _ _ _ _ _ hret
  have hroom := h.no_room hmore
  have hpos := nextRoom_pos d
  rw [hout, List.length_nil] at hroom
  omega

theorem Called.fifo {taken : Bytes} (h : d.Called f input d')
    (hout : taken ++ d.ringBytes = d.zout) : taken ++ d'.ringBytes = d'.zout := by
  rw [h.ringBytes, h.zout, ← List.append_assoc, hout]

/-- A call uses up some of what the flush may still write. -/
theorem Called.budget_le (h : d.Called f input d') (hdef : d.isDeflate = true) :
    z.budget d'.stream (psyncTranslateFlush f)
        (input.drop (d.zcall f input d.nextRoom).consumed) ≤
      z.budget d.stream (psyncTranslateFlush f) input := by
  have hz : d.zcall f input d.nextRoom =
      z.call true d.stream (psyncTranslateFlush f) input d.nextRoom := by
    simp [zcall, hdef]
  have hbudget := z.budget_le true d.stream (psyncTranslateFlush f) input d.nextRoom
  rw [h.stream, hz]
  omega

theorem Called.owed (h : d.Called f input d') (hcalm : d.mode f ≠ .finish → d.Calm)
    (hdone : (d.zcall f input d.nextRoom).ret ≠ .ok ∨ d'.moreData = false) :
    z.owed d'.stream = [] := by
  rw [h.stream]
  exact owed_zcall input (nextRoom_pos d) hcalm (hdone.symm.imp_left h.room_left)

theorem Called.calm (h : d.Called f input d') (hmode : d.mode f ≠ .finish) (hcalm : d.Calm) :
    d'.Calm ∧ ((d.zcall f input d.nextRoom).ret = .ok → z.finishing d'.stream = false) :=
  calm_zcall hmode hcalm h.stream h.same.isDeflate

theorem Called.mode_eq (h : d.Called f input d') (g : Int) : d'.mode g = d.mode g := by
  rw [mode, mode, h.same.isDeflate]

end Called

/-- The one or two calls into the ring that a write makes: the return code, the rest of the input
and the stream after them. -/
inductive Calls (d : Deflate z) (f : Int) (data : Bytes) : ZRet → Bytes → Deflate z → Prop where
  | one {d₁ : Deflate z} (first : d.Called f data d₁)
      (done : (d.zcall f data d.nextRoom).ret ≠ .ok ∨ d₁.moreData = false ∨
        d₁.bufferendoff - d₁.bufferstartoff = bufferSize) :
      Calls d f data (d.zcall f data d.nextRoom).ret
        (data.drop (d.zcall f data d.nextRoom).consumed) d₁
  | two {d₁ d₂ : Deflate z} {rest : Bytes} (first : d.Called f data d₁)
      (ok : (d.zcall f data d.nextRoom).ret = .ok) (more : d₁.moreData = true)
      (hrest : data.drop (d.zcall f data d.nextRoom).consumed = rest)
      (second : d₁.Called f rest d₂) :
      Calls d f data
        (if (d₁.zcall f rest d₁.nextRoom).ret = .bufError then .ok
          else (d₁.zcall f rest d₁.nextRoom).ret)
        (rest.drop (d₁.zcall f rest d₁.nextRoom).consumed) d₂

theorem writeAgain_calls {d d₁ : Deflate z} {f : Int} {data : Bytes} (first : d.Called f data d₁) :
    ∃ ret rest d', writeAgain f (d.zcall f data d.nextRoom).ret
        (data.drop (d.zcall f data d.nextRoom).consumed) d₁ = .ok (ret, rest, d') ∧
      Calls d f data ret rest d' := by
  unfold writeAgain
  by_cases hok : (d.zcall f data d.nextRoom).ret = .ok ∧ d₁.moreData = true
  · rw [if_pos hok]
    by_cases hfull : d₁.bufferendoff - d₁.bufferstartoff = bufferSize
    · rw [setOutBuff_full hfull]
      exact ⟨_, _, _, rfl, .one first (Or.inr (Or.inr hfull))⟩
    · obtain ⟨d₂, hcall, second⟩ := callCompressorRing_called first.ring hfull f
        (data.drop (d.zcall f data d.nextRoom).consumed)
      refine ⟨_, _, d₂, ?_, .two first hok.1 hok.2 rfl second⟩
      rw [setOutBuff_free hfull, except_ok_bind]
      show (d₁.callCompressorRing f _ (d₁.bufferendoff % bufferSize) d₁.nextRoom).bind _ = _
      rw [hcall]
      rfl
  · rw [if_neg hok]
    refine ⟨_, _, _, rfl, .one first ?_⟩
    by_cases hret : (d.zcall f data d.nextRoom).ret = .ok
    · exact Or.inr (Or.inl (Bool.eq_false_iff.mpr fun hm => hok ⟨hret, hm⟩))
    · exact Or.inl hret

/-- A write is refused, or it makes its calls into the ring and goes on to the flush buffer. -/
theorem write_eq {d : Deflate z} (h : d.RingOk) (data : Bytes) (f : Int) :
    (∃ ret, d.write data f = .ok (ret, d)) ∨
      d.flushbuff = none ∧ d.bufferendoff - d.bufferstartoff ≠ bufferSize ∧
        ∃ ret rest d', Calls d f data ret rest d' ∧
          d.write data f = (writeFlush f ret rest d').map fun r =>
            writeReturn data.length r.1 r.2.1 r.2.2 := by
  unfold write
  by_cases hempty : data = [] ∧ f = noflush
  · rw [if_pos hempty]
    exact Or.inl ⟨_, rfl⟩
  rw [if_neg hempty]
  by_cases hflush : d.flushbuff.isSome = true
  · rw [if_pos hflush]
    exact Or.inl ⟨_, rfl⟩
  rw [if_neg hflush]
  by_cases hfull : d.bufferendoff - d.bufferstartoff = bufferSize
  · rw [setOutBuff_full hfull]
    exact Or.inl ⟨_, rfl⟩
  obtain ⟨d₁, hcall, first⟩ := callCompressorRing_called h hfull f data
  obtain ⟨ret, rest, d', hagain, hcalls⟩ := writeAgain_calls first
  refine Or.inr ⟨by simpa using hflush, hfull, ret, rest, d', hcalls, ?_⟩
  rw [setOutBuff_free hfull, except_ok_bind]
  show (d.callCompressorRing f data (d.bufferendoff % bufferSize) d.nextRoom).bind _ = _
  rw [hcall, except_ok_bind]
  show (writeAgain f _ _ d₁).bind _ = _
  rw [hagain, except_ok_bind]
  show (writeFlush f ret rest d').bind _ = _
  cases writeFlush f ret rest d' <;> rfl

section Calls

variable {d d' : Deflate z} {f : Int} {data rest : Bytes} {ret : ZRet}

theorem Calls.ring (h : Calls d f data ret rest d') : d'.RingOk := by
  cases h with
  | one first _ => exact first.ring
  | two _ _ _ _ second => exact second.ring

theorem Calls.same (h : Calls d f data ret rest d') : SameBuffers d d' := by
  cases h with
  | one first _ => exact first.same
  | two first _ _ _ second =>
    obtain ⟨hdef, hbuff, hoff⟩ := second.same
    exact ⟨hdef.trans first.same.isDeflate, hbuff.trans first.same.flushbuff,
      hoff.trans first.same.flushbuffoff⟩

theorem Calls.fifo {taken : Bytes} (h : Calls d f data ret rest d')
    (hout : taken ++ d.ringBytes = d.zout) : taken ++ d'.ringBytes = d'.zout := by
  cases h with
  | one first _ => exact first.fifo hout
  | two first _ _ _ second => exact second.fifo (first.fifo hout)

theorem Calls.budget_le (h : Calls d f data ret rest d') (hdef : d.isDeflate = true) :
    z.budget d'.stream (psyncTranslateFlush f) rest ≤
      z.budget d.stream (psyncTranslateFlush f) data := by
  cases h with
  | one first _ => exact first.budget_le hdef
  | two first _ _ hrest second =>
    have hfirst := first.budget_le hdef
    rw [hrest] at hfirst
    exact (second.budget_le (first.same.isDeflate.trans hdef)).trans hfirst

end Calls

/-! ## No fault -/

/-- A flush with less than 2 GiB of output, so that the size of the flush buffer fits. -/
def FlushFits (d : Deflate z) (data : Bytes) (f : Int) : Prop :=
  d.isDeflate = true → f ≠ noflush → z.budget d.stream (psyncTranslateFlush f) data < 2 ^ 31

instance (d : Deflate z) (data : Bytes) (f : Int) : Decidable (d.FlushFits data f) :=
  inferInstanceAs (Decidable (_ → _))

/-- What the last part of a write leaves of the ring. -/
theorem writeFlush_total {d : Deflate z} (h : d.RingOk) (hnone : d.flushbuff = none) (f : Int)
    (ret : ZRet) (rest : Bytes) (hfits : d.FlushFits rest f) :
    ∃ r, writeFlush f ret rest d = .ok r ∧ r.2.2.RingOk ∧
      (∀ b, r.2.2.flushbuff = some b → r.2.2.flushbuffoff = 0) := by
  unfold writeFlush
  split
  · next hc =>
    obtain ⟨r, hr⟩ := finishFlushLoop_total f
      (z.budget d.stream (psyncTranslateFlush f) rest + 1)
      (d := { d with moreData := false, flushbuffoff := 0 }) (Nat.lt_succ_self _)
      (show AllocOk [] 4096 from Or.inl ⟨rfl, rfl⟩) (hfits hc.2.1 hc.2.2.1)
    obtain ⟨hsame, -⟩ := finishFlushLoop_same _ hr
    exact ⟨r, hr, hsame.ringOk ⟨h.start_lt, h.start_le, h.le_size⟩, fun _ _ => hsame.off⟩
  · exact ⟨_, rfl, h, fun b hb => absurd hb (by rw [hnone]; exact (nofun))⟩

theorem writeReturn_snd (len : Nat) (ret : ZRet) (rest : Bytes) (d : Deflate z) :
    ∃ streamEnd, (writeReturn len ret rest d).2 = { d with streamEnd := streamEnd } := by
  simp only [writeReturn]
  split
  · exact ⟨true, rfl⟩
  · exact ⟨d.streamEnd, rfl⟩

/-- A write returns, keeps the ring sound and starts a new flush buffer at its front. -/
theorem write_total {d : Deflate z} (h : d.RingOk) {data : Bytes} {f : Int}
    (hfits : d.FlushFits data f) :
    ∃ ret d', d.write data f = .ok (ret, d') ∧ d'.RingOk ∧
      (d' = d ∨ ∀ b, d'.flushbuff = some b → d'.flushbuffoff = 0) := by
  rcases write_eq h data f with ⟨ret, hret⟩ | ⟨hnone, -, ret, rest, d', hcalls, hwrite⟩
  · exact ⟨ret, d, hret, h, Or.inl rfl⟩
  have hfits' : d'.FlushFits rest f := fun hdef hf =>
    (hcalls.budget_le (hcalls.same.isDeflate ▸ hdef)).trans_lt
      (hfits (hcalls.same.isDeflate ▸ hdef) hf)
  obtain ⟨r, hr, hring, hoff⟩ := writeFlush_total hcalls.ring (hcalls.same.flushbuff.trans hnone) f
    ret rest hfits'
  obtain ⟨streamEnd, hsnd⟩ := writeReturn_snd data.length r.1 r.2.1 r.2.2
  refine ⟨(writeReturn data.length r.1 r.2.1 r.2.2).1, (writeReturn data.length r.1 r.2.1 r.2.2).2,
    ?_, ?_, Or.inr ?_⟩
  · rw [hwrite, hr]
    rfl
  · rw [hsnd]
    exact ⟨hring.start_lt, hring.start_le, hring.le_size⟩
  · rw [hsnd]
    exact hoff

/-! ## First in, first out -/

/-- All output that zlib wrote is among the bytes `got` or waits, and zlib owes no more unless the
flag says so. -/
structure Fifo (got : Bytes) (d : Deflate z) : Prop where
  ring : d.RingOk
  flush : d.FlushOk
  fifo : got ++ d.unread = d.zout
  owed : d.moreData = false → z.owed d.stream = []
  calm : d.Calm
  flushbuff : d.flushbuff ≠ none → d.moreData = false

theorem Fifo.init (level : Int) (buffer : Fixed bufferSize) :
    Fifo [] (psyncDeflateInit z level buffer) where
  ring := RingOk.init level buffer
  flush := fun _ hb => nomatch hb
  fifo := by
    show [] ++ (Ring.unread buffer 0 0 ++ []) = []
    rw [Ring.unread_self]
    rfl
  owed := fun _ => z.init_owed level
  calm := ⟨fun _ => z.init_owed level, fun _ => z.init_finishing level⟩
  flushbuff := fun h => absurd rfl h

/-- `Z_FINISH` with this input and these pieces of room, one after the other, ends the stream or
leaves room. -/
def EndsWithin (z : Zlib) : z.State → Bytes → List Nat → Prop
  | _, _, [] => False
  | s, data, n :: ns =>
    (z.call true s .finish data n).ret ≠ .ok ∨ (z.call true s .finish data n).out.length < n ∨
      EndsWithin z (z.call true s .finish data n).state
        (data.drop (z.call true s .finish data n).consumed) ns

instance decidableEndsWithin :
    ∀ (s : z.State) (data : Bytes) (ns : List Nat), Decidable (EndsWithin z s data ns)
  | _, _, [] => .isFalse id
  | s, data, n :: ns =>
    have := decidableEndsWithin (z.call true s .finish data n).state
      (data.drop (z.call true s .finish data n).consumed) ns
    inferInstanceAs (Decidable (_ ∨ _ ∨ _))

/-- The rest of a stream that is ended now fits into the ring. -/
def EndFits (d : Deflate z) (data : Bytes) (f : Int) : Prop :=
  d.isDeflate = true → f = flushEnd → d.flushbuff = none →
    d.bufferendoff - d.bufferstartoff ≠ bufferSize → EndsWithin z d.stream data d.freePieces

instance (d : Deflate z) (data : Bytes) (f : Int) : Decidable (d.EndFits data f) :=
  inferInstanceAs (Decidable (_ → _))

theorem mode_finish {d : Deflate z} {f : Int} (h : d.mode f = .finish) :
    d.isDeflate = true ∧ f = flushEnd := by
  unfold mode at h
  split at h
  · next hdef =>
    refine ⟨hdef, ?_⟩
    unfold psyncTranslateFlush at h
    split_ifs at h with h₁ h₂ h₃
    exact h₃
  · exact nomatch h

theorem zcall_flushEnd {d : Deflate z} (hdef : d.isDeflate = true) (input : Bytes) (room : Nat) :
    d.zcall flushEnd input room = z.call true d.stream .finish input room := by
  rw [zcall, hdef]
  rfl

theorem freePieces_free {d : Deflate z} (h : d.bufferendoff - d.bufferstartoff ≠ bufferSize) :
    d.freePieces = d.nextRoom ::
      if d.bufferendoff + d.nextRoom - d.bufferstartoff = bufferSize then []
      else [Ring.room bufferSize d.bufferstartoff (d.bufferendoff + d.nextRoom)] := by
  rw [freePieces, if_neg h]
  rfl

/-- A call with `Z_FINISH` that ends the stream or leaves room. -/
theorem Called.ends {d d' : Deflate z} {input : Bytes} (h : d.Called flushEnd input d')
    (hdef : d.isDeflate = true)
    (hdone : (z.call true d.stream .finish input d.nextRoom).ret ≠ .ok ∨
      (z.call true d.stream .finish input d.nextRoom).out.length < d.nextRoom) :
    ¬ ((z.call true d.stream .finish input d.nextRoom).ret = .ok ∧ d'.moreData = true) ∧
      z.owed d'.stream = [] := by
  have hmode : d.mode flushEnd = .finish := by
    rw [mode, hdef]
    rfl
  rw [← zcall_flushEnd hdef] at hdone ⊢
  refine ⟨fun hc => ?_, ?_⟩
  · have hroom := h.no_room hc.2
    rcases hdone with hret | hlt
    · exact hret hc.1
    · omega
  · rw [h.stream]
    exact owed_zcall input (nextRoom_pos d) (fun hc => absurd hmode hc) hdone.symm

section Calls

variable {d d' : Deflate z} {f : Int} {data rest : Bytes} {ret : ZRet}

/-- Where the end fits, the calls into the ring are enough. -/
theorem Calls.ends (h : Calls d f data ret rest d') (hnone : d.flushbuff = none)
    (hmode : d.mode f = .finish) (hends : d.EndFits data f) :
    ¬ (ret = .ok ∧ d'.moreData = true) ∧ z.owed d'.stream = [] := by
  obtain ⟨hdef, rfl⟩ := mode_finish hmode
  cases h with
  | one first done =>
    have hfits := hends hdef rfl hnone first.free
    rw [freePieces_free first.free] at hfits
    rw [zcall_flushEnd hdef] at done ⊢
    rcases hfits with hret | hlt | hrest
    · exact first.ends hdef (Or.inl hret)
    · exact first.ends hdef (Or.inr hlt)
    -- with room for a second piece the code would have gone on
    by_cases hmore : d'.moreData = true
    · refine first.ends hdef (Or.inl fun hret => ?_)
      rcases done with hret' | hmore' | hfull
      · exact hret' hret
      · exact absurd hmore (by rw [hmore']; decide)
      · rw [first.start, first.stop, first.no_room hmore] at hfull
        rw [if_pos hfull] at hrest
        exact hrest
    · have hmore' := Bool.eq_false_iff.mpr hmore
      exact ⟨fun hc => hmore hc.2, first.owed (fun hc => absurd hmode hc) (Or.inr hmore')⟩
  | @two d₁ _ rest₁ first ok more hrest second =>
    have hfits := hends hdef rfl hnone first.free
    have hdef₁ := first.same.isDeflate.trans hdef
    have hroom := first.no_room more
    have hstart := first.start
    have hstop := first.stop
    have hstream := first.stream
    have hfree := second.free
    rw [hroom] at hstop
    rw [hstart, hstop] at hfree
    have hnext : d₁.nextRoom =
        Ring.room bufferSize d.bufferstartoff (d.bufferendoff + d.nextRoom) := by
      rw [nextRoom, hstart, hstop]
    rw [freePieces_free first.free, if_neg hfree, ← hnext] at hfits
    rw [zcall_flushEnd hdef] at ok hroom hstream hrest
    rw [zcall_flushEnd hdef₁]
    rcases hfits with hret | hlt | hfits
    · exact absurd ok hret
    · exact absurd hroom (Nat.ne_of_lt hlt)
    rw [hrest, ← hstream] at hfits
    obtain ⟨hno, howed⟩ := second.ends hdef₁ (hfits.imp_right fun h => h.resolve_right not_false)
    refine ⟨fun hc => ?_, howed⟩
    split_ifs at hc with hbuf
    · exact second.not_bufError hc.2 (by rw [zcall_flushEnd hdef₁]; exact hbuf)
    · exact hno hc

/-- Without `Z_FINISH` the stream stays calm, and owes nothing where the calls were enough. -/
theorem Calls.calm (h : Calls d f data ret rest d') (hmode : d.mode f ≠ .finish)
    (hcalm : d.Calm) :
    d'.Calm ∧ (ret = .ok → d'.moreData = true → z.finishing d'.stream = false) ∧
      (d'.moreData = false → z.owed d'.stream = []) := by
  cases h with
  | one first _ =>
    obtain ⟨hcalm', hfin⟩ := first.calm hmode hcalm
    exact ⟨hcalm', fun hok _ => hfin hok, fun hm => first.owed (fun _ => hcalm) (Or.inr hm)⟩
  | @two d₁ _ _ first _ _ _ second =>
    have hmode₁ : d₁.mode f ≠ .finish := by rwa [first.mode_eq]
    have hcalm₁ := (first.calm hmode hcalm).1
    obtain ⟨hcalm', hfin⟩ := second.calm hmode₁ hcalm₁
    refine ⟨hcalm', fun hok hm => hfin ?_, fun hm => second.owed (fun _ => hcalm₁) (Or.inr hm)⟩
    have hbuf := second.not_bufError hm
    rwa [if_neg hbuf] at hok

end Calls

/-- A write keeps the order of the output: what is not in the ring is in the flush buffer behind
it, and what is in neither zlib still owes. -/
theorem write_fifo {got : Bytes} {d d' : Deflate z} {data : Bytes} {f ret : Int} (h : Fifo got d)
    (hends : d.EndFits data f) (hwrite : d.write data f = .ok (ret, d')) : Fifo got d' := by
  rcases write_eq h.ring data f with ⟨ret', hret⟩ | ⟨hnone, -, ret', rest, d₁, hcalls, heq⟩
  · rw [hret] at hwrite
    obtain ⟨rfl, rfl⟩ := Prod.mk.inj (Except.ok.inj hwrite)
    exact h
  have hfifo : got ++ d₁.ringBytes = d₁.zout := by
    refine hcalls.fifo ?_
    rw [← h.fifo, unread, flushBytes_of_none hnone, List.append_nil]
  have hnone₁ := hcalls.same.flushbuff.trans hnone
  have hring := hcalls.ring
  rw [heq] at hwrite
  obtain ⟨r, hr, hret⟩ : ∃ r, writeFlush f ret' rest d₁ = .ok r ∧
      writeReturn data.length r.1 r.2.1 r.2.2 = (ret, d') := by
    cases hr : writeFlush f ret' rest d₁ with
    | error e => rw [hr] at hwrite; cases hwrite
    | ok r => rw [hr] at hwrite; exact ⟨r, rfl, Except.ok.inj hwrite⟩
  suffices hr' : Fifo got r.2.2 by
    obtain ⟨streamEnd, hsnd⟩ := writeReturn_snd data.length r.1 r.2.1 r.2.2
    rw [hret] at hsnd
    change d' = _ at hsnd
    rw [hsnd]
    exact ⟨⟨hr'.ring.start_lt, hr'.ring.start_le, hr'.ring.le_size⟩, hr'.flush, hr'.fifo, hr'.owed,
      ⟨hr'.calm.finished, hr'.calm.inflates⟩, hr'.flushbuff⟩
  unfold writeFlush at hr
  split at hr
  · next hc =>
    -- the ring is full and the flush goes on behind it
    obtain ⟨hok, hdef, hflush, hmore⟩ := hc
    have hmode : d.mode f ≠ .finish := fun hmode =>
      (hcalls.ends hnone hmode hends).1 ⟨hok, hmore⟩
    obtain ⟨hcalm, hfin, -⟩ := hcalls.calm hmode h.calm
    have hdef' : d.isDeflate = true := hcalls.same.isDeflate ▸ hdef
    have htranslate : psyncTranslateFlush f ≠ .finish := by simpa [mode, hdef'] using hmode
    obtain ⟨-, howed, hfinished, b, hb, hbuff⟩ := finishFlushLoop_fifo htranslate _
      (d := { d₁ with moreData := false, flushbuffoff := 0 }) (hfin hok hmore)
      (Or.inl ⟨rfl, rfl⟩) hnone₁ (show got ++ d₁.ringBytes ++ [] = d₁.zout by
        rw [List.append_nil, hfifo]) hr
    obtain ⟨hsame, hmore'⟩ := finishFlushLoop_same _ hr
    have hbytes : r.2.2.ringBytes = d₁.ringBytes := hsame.ringBytes_eq
    have hdef'' : r.2.2.isDeflate = true := hsame.isDeflate.trans hdef
    have hoff : r.2.2.flushbuffoff = 0 := hsame.off
    have hflushBytes : r.2.2.flushBytes = b := by
      rcases hbuff with hsome | ⟨hnone', rfl⟩
      · rw [flushBytes_of_some hsome, hoff, List.drop_zero]
      · exact flushBytes_of_none hnone'
    exact {
      ring := hsame.ringOk ⟨hring.start_lt, hring.start_le, hring.le_size⟩
      flush := fun b' _ => by rw [hoff]; exact Nat.zero_le _
      fifo := by rw [unread, hbytes, hflushBytes, ← List.append_assoc]; exact hb
      owed := fun _ => howed
      calm := ⟨fun _ => howed, fun hc => absurd hc (by rw [hdef'']; decide)⟩
      flushbuff := fun _ => hmore' }
  · obtain rfl := Except.ok.inj hr
    have hcalm : d₁.Calm ∧ (d₁.moreData = false → z.owed d₁.stream = []) := by
      by_cases hmode : d.mode f = .finish
      · have howed := (hcalls.ends hnone hmode hends).2
        have hdef : d₁.isDeflate = true := hcalls.same.isDeflate.trans (mode_finish hmode).1
        exact ⟨⟨fun _ => howed, fun hc => absurd hc (by rw [hdef]; decide)⟩, fun _ => howed⟩
      · obtain ⟨hcalm, -, howed⟩ := hcalls.calm hmode h.calm
        exact ⟨hcalm, howed⟩
    exact {
      ring := hring
      flush := fun b hb => absurd hb (by rw [hnone₁]; simp)
      fifo := by rw [unread, flushBytes_of_none hnone₁, List.append_nil]; exact hfifo
      owed := hcalm.2
      calm := hcalm.1
      flushbuff := fun hc => absurd hnone₁ hc }

end Deflate

end PcloudClient.Pcompression
