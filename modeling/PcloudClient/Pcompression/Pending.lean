/-
  Pcompression/Pending.lean --- the offsets of the ring, and what `psync_deflate_pending` counts.
-/
import PcloudClient.Pcompression.WriteProofs
import PcloudClient.Pcompression.Stored

set_option autoImplicit false

namespace PcloudClient.Pcompression

open Bytes Runs

variable {z : Zlib}

namespace Deflate

/-! ## Reads without zlib -/

/-- Reads that return `n` bytes in all and do not call zlib. -/
inductive ReadsBuffered : Deflate z → Nat → Deflate z → Prop where
  | nil (d : Deflate z) : ReadsBuffered d 0 d
  | cons {d d₁ d' : Deflate z} {len n : Nat} {ret : Int} {out : Bytes} (pos : 0 < len)
      (read : d.read len = .ok (ret, out, d₁)) (same : d₁.zcalls = d.zcalls)
      (rest : ReadsBuffered d₁ n d') : ReadsBuffered d (out.length + n) d'

theorem read_shortWrap {d : Deflate z} (h : d.RingOk) {len : Nat} (hwrap : d.ShortWrap len) :
    d.read len = .error .assertFailed := by
  have hshort := hwrap.1
  have hmin : min len (d.bufferendoff - d.bufferstartoff) = len := Nat.min_eq_left (by omega)
  have hsize : len ≤ bufferSize := by
    have := h.le_size
    omega
  rw [read_ring h (by omega)]
  simp only [readRing, hmin]
  rw [assert_true hsize, except_ok_bind, assert_true (Nat.le_of_lt h.start_lt), except_ok_bind,
    copyRing_shortWrap h hwrap]
  rfl

/-- A read that does not call zlib takes what it returns from what waits. -/
theorem unreadLen_read {d d' : Deflate z} (h : d.RingOk) (hflush : d.FlushOk) {len : Nat}
    {ret : Int} {out : Bytes} (hlen : 0 < len) (hread : d.read len = .ok (ret, out, d'))
    (hsame : d'.zcalls = d.zcalls) :
    d'.RingOk ∧ d'.FlushOk ∧ out.length + d'.unreadLen = d.unreadLen := by
  by_cases hwrap : d.ShortWrap len
  · rw [read_shortWrap h hwrap] at hread
    exact nomatch hread
  by_cases hbuff : d.bufferendoff ≠ d.bufferstartoff ∨ d.flushbuff ≠ none
  · obtain ⟨k, out', e, hread', htakes⟩ := read_buffered h hflush hwrap hbuff
    rw [hread] at hread'
    obtain ⟨-, rfl, rfl⟩ : ret = k ∧ out = out' ∧ d' = e := by simpa using hread'
    exact ⟨htakes.ring, htakes.flush, by rw [htakes.length, htakes.unreadLen_eq]⟩
  push Not at hbuff
  rw [read_empty h hbuff.1 hbuff.2] at hread
  split at hread
  · -- a direct read is a call of zlib
    obtain ⟨_, _, streamEnd, hdirect, -⟩ := readDirect_spec d hlen
    rw [hdirect] at hread
    obtain ⟨-, -, rfl⟩ := by simpa using hread
    change d.zcalls + 1 = d.zcalls at hsame
    omega
  · obtain ⟨-, rfl, rfl⟩ := by simpa using hread
    exact ⟨h, hflush, Nat.zero_add _⟩

/-- No more than what waits can be read without zlib. -/
theorem ReadsBuffered.le {d d' : Deflate z} {n : Nat} (hreads : ReadsBuffered d n d')
    (h : d.RingOk) (hflush : d.FlushOk) : n ≤ d.unreadLen := by
  induction hreads with
  | nil => exact Nat.zero_le _
  | cons pos read same rest ih =>
    obtain ⟨hring, hflush', hlen⟩ := unreadLen_read h hflush pos read same
    have := ih hring hflush'
    omega

/-- All that waits can be read without zlib, one byte at a time. -/
theorem readsBuffered_unreadLen {d : Deflate z} (h : d.RingOk) (hflush : d.FlushOk) :
    ∃ d', ReadsBuffered d d.unreadLen d' := by
  obtain ⟨n, hn⟩ : ∃ n, d.unreadLen = n := ⟨_, rfl⟩
  induction n using Nat.strong_induction_on generalizing d with
  | _ n ih =>
    by_cases hzero : n = 0
    · rw [hn, hzero]
      exact ⟨d, .nil d⟩
    have hwrap : ¬ d.ShortWrap 1 := by
      rintro ⟨-, hout⟩
      have := h.start_lt
      omega
    have hbuff : d.bufferendoff ≠ d.bufferstartoff ∨ d.flushbuff ≠ none := by
      by_contra hc
      push Not at hc
      rw [unreadLen, hc.1, hc.2, Nat.sub_self] at hn
      exact hzero hn.symm
    obtain ⟨k, out, d₁, hread, htakes⟩ := read_buffered h hflush hwrap hbuff
    have hlen := htakes.unreadLen_eq
    have hk : k ≠ 0 := by
      intro hk
      have hnothing := congrArg List.length (htakes.nothing Nat.one_pos hk)
      rw [length_unread, List.length_nil] at hnothing
      omega
    obtain ⟨d', hrest⟩ := ih d₁.unreadLen (by omega) htakes.ring htakes.flush rfl
    refine ⟨d', ?_⟩
    rw [← hlen, ← htakes.length]
    exact .cons Nat.one_pos hread htakes.zcalls hrest

/-! ## Runs -/

/-- Of the flush buffer nothing was read yet. -/
def Whole (d : Deflate z) : Prop := ∀ b, d.flushbuff = some b → d.flushbuffoff = 0

theorem Whole.flushOk {d : Deflate z} (h : d.Whole) : d.FlushOk := by
  intro b hb
  rw [h b hb]
  exact Nat.zero_le _

theorem Whole.pending_eq {d : Deflate z} (h : d.Whole) : d.pending = d.unreadLen := by
  unfold pending unreadLen
  cases hb : d.flushbuff with
  | none => rfl
  | some b => simp [h b hb]

/-- A read from the flush buffer that leaves some of it. -/
def PartFlush (d : Deflate z) (len : Nat) : Prop :=
  d.bufferendoff = d.bufferstartoff ∧ ∃ b, d.flushbuff = some b ∧ len < b.length - d.flushbuffoff

theorem partFlush_iff {d : Deflate z} {len : Nat} :
    d.PartFlush len ↔ d.bufferendoff = d.bufferstartoff ∧
      (d.flushbuff.any fun b => len < b.length - d.flushbuffoff) = true := by
  unfold PartFlush
  cases d.flushbuff <;> simp

instance (d : Deflate z) (len : Nat) : Decidable (d.PartFlush len) :=
  decidable_of_iff _ partFlush_iff.symm

/-- What a call must meet: the size of a flush fits, a read asks for something, does not end
behind the wrap, and takes the flush buffer as a whole. -/
def KeepsPending (d : Deflate z) : Op → Prop
  | .write data f => d.FlushFits data f
  | .read len => 0 < len ∧ ¬ d.ShortWrap len ∧ ¬ d.PartFlush len

instance (d : Deflate z) : DecidablePred d.KeepsPending
  | .write data f => inferInstanceAs (Decidable (d.FlushFits data f))
  | .read _ => inferInstanceAs (Decidable (_ ∧ _))

theorem read_whole {d : Deflate z} (h : d.RingOk) (hwhole : d.Whole) {len : Nat}
    (hmeets : d.KeepsPending (.read len)) :
    ∃ ret out d', d.read len = .ok (ret, out, d') ∧ d'.RingOk ∧ d'.Whole := by
  obtain ⟨hlen, hwrap, hpart⟩ := hmeets
  by_cases hne : d.bufferendoff ≠ d.bufferstartoff
  · obtain ⟨k, out, d', hread, htakes⟩ := read_buffered h hwhole.flushOk hwrap (Or.inl hne)
    obtain ⟨hbuff, hoff⟩ := htakes.flushbuffoff hne
    refine ⟨k, out, d', hread, htakes.ring, fun b hb => ?_⟩
    rw [hoff]
    exact hwhole b (hbuff ▸ hb)
  have heq := not_not.mp hne
  cases hb : d.flushbuff with
  | some b =>
    refine ⟨_, _, _, read_flushbuff h heq hb len, ⟨h.start_lt, h.start_le, h.le_size⟩, ?_⟩
    have hall : d.flushbuffoff + min len (b.length - d.flushbuffoff) = b.length := by
      have hoff := hwhole b hb
      have hrest : ¬ len < b.length - d.flushbuffoff := fun hlt => hpart ⟨heq, b, hb, hlt⟩
      omega
    intro b' hb'
    change (if d.flushbuffoff + min len (b.length - d.flushbuffoff) = b.length then none
      else some b) = some b' at hb'
    rw [if_pos hall] at hb'
    exact nomatch hb'
  | none =>
    rw [read_empty h heq hb]
    split
    · obtain ⟨ret, out, streamEnd, hdirect, -⟩ := readDirect_spec d hlen
      refine ⟨ret, out, _, hdirect, ⟨h.start_lt, h.start_le, h.le_size⟩, ?_⟩
      intro b' (hb' : d.flushbuff = some b')
      rw [hb] at hb'
      exact nomatch hb'
    · exact ⟨_, _, d, rfl, h, hwhole⟩

/-- The offsets are sound and a flush buffer is whole, whatever was returned before. -/
def WholeRing (_ : List (Int × Bytes)) (d : Deflate z) : Prop := d.RingOk ∧ d.Whole

theorem whole_init (level : Int) (buffer : Fixed bufferSize) (outs : List (Int × Bytes)) :
    WholeRing outs (psyncDeflateInit z level buffer) :=
  ⟨RingOk.init level buffer, fun _ hb => nomatch hb⟩

theorem step_whole {outs : List (Int × Bytes)} {d : Deflate z} {op : Op} (h : WholeRing outs d)
    (hmeets : d.KeepsPending op) :
    ∃ o d', step d op = .ok (o, d') ∧ WholeRing (outs ++ [o]) d' := by
  obtain ⟨hring, hwhole⟩ := h
  cases op with
  | write data f =>
    obtain ⟨ret, d', hwrite, hring', hflush⟩ := write_total hring hmeets
    refine ⟨(ret, []), d', by rw [step, hwrite]; rfl, hring', ?_⟩
    rcases hflush with rfl | hoff
    · exact hwhole
    · exact hoff
  | read len =>
    obtain ⟨ret, out, d', hread, hring', hwhole'⟩ := read_whole hring hwhole hmeets
    exact ⟨(ret, out), d', by rw [step, hread]; rfl, hring', hwhole'⟩

/-- The window that zlib would be given is inside the ring and off the bytes not read yet. -/
def WindowFree (d : Deflate z) : Prop :=
  ∃ window, d.setOutBuff = .ok window ∧ ∀ stop availOut, window = some (stop, availOut) →
    stop + availOut ≤ bufferSize ∧ 0 < availOut ∧
      ∀ i, d.bufferstartoff ≤ i → i < d.bufferendoff →
        ¬ (stop ≤ i % bufferSize ∧ i % bufferSize < stop + availOut)

theorem RingOk.windowFree {d : Deflate z} (h : d.RingOk) : d.WindowFree := by
  obtain ⟨hlt, hle, hsize⟩ := h
  by_cases hfull : d.bufferendoff - d.bufferstartoff = bufferSize
  · exact ⟨none, setOutBuff_full hfull, fun _ _ hw => nomatch hw⟩
  · refine ⟨_, setOutBuff_free hfull, fun stop availOut hw => ?_⟩
    obtain ⟨rfl, rfl⟩ := Prod.mk.inj (Option.some.inj hw)
    have hpos : 0 < bufferSize := by decide
    exact ⟨Ring.room_le hpos hlt, Ring.room_pos hpos, fun i hi hi' =>
      (Ring.window_free hlt hle (by omega) hi hi').2⟩

end Deflate

/-- The calls return, so no assertion failed; the offsets are sound; every window that the next
write gives to zlib is free; and `psync_deflate_pending` is the greatest number of bytes that
reads return without zlib. -/
def SoundRing (z : Zlib) (level : Int) (buffer : Fixed bufferSize) (ops : List Op) : Prop :=
  ∃ outs d, run step (psyncDeflateInit z level buffer) ops = .ok (outs, d) ∧
    d.bufferstartoff < bufferSize ∧ d.bufferstartoff ≤ d.bufferendoff ∧
    d.bufferendoff ≤ d.bufferstartoff + bufferSize ∧
    d.WindowFree ∧
    (∀ data f stop availOut ret rest d₁, d.setOutBuff = .ok (some (stop, availOut)) →
      d.callCompressorRing f data stop availOut = .ok (ret, rest, d₁) → d₁.WindowFree) ∧
    (∃ d', Deflate.ReadsBuffered d d.pending d') ∧
    ∀ n d', Deflate.ReadsBuffered d n d' → n ≤ d.pending

theorem psyncDeflate_soundRing (z : Zlib) (level : Int) (buffer : Fixed bufferSize)
    (ops : List Op)
    (h : MeetsAll step Deflate.KeepsPending (psyncDeflateInit z level buffer) ops) :
    SoundRing z level buffer ops := by
  obtain ⟨outs, d, hrun, hring, hwhole⟩ := run_keeps Deflate.WholeRing
    (fun _ _ _ hinv hmeets => Deflate.step_whole hinv hmeets)
    [] (Deflate.whole_init level buffer []) h
  refine ⟨outs, d, hrun, hring.start_lt, hring.start_le, ?_, hring.windowFree, ?_, ?_, ?_⟩
  · have := hring.le_size
    have := hring.start_le
    omega
  · intro data f stop availOut ret rest d₁ hset hcall
    by_cases hfull : d.bufferendoff - d.bufferstartoff = bufferSize
    · rw [Deflate.setOutBuff_full hfull] at hset
      exact nomatch hset
    rw [Deflate.setOutBuff_free hfull] at hset
    obtain ⟨rfl, rfl⟩ := Prod.mk.inj (Option.some.inj (Except.ok.inj hset))
    obtain ⟨d₂, hcall₂, hcalled⟩ := Deflate.callCompressorRing_called hring hfull f data
    rw [show Ring.room bufferSize d.bufferstartoff d.bufferendoff = d.nextRoom from rfl,
      hcall₂] at hcall
    obtain ⟨-, -, rfl⟩ := by simpa using hcall
    exact hcalled.ring.windowFree
  · rw [hwhole.pending_eq]
    exact Deflate.readsBuffered_unreadLen hring hwhole.flushOk
  · intro n d' hreads
    rw [hwhole.pending_eq]
    exact hreads.le hring hwhole.flushOk

theorem psyncDeflate_soundRing_everyWay :
    SoundRing stored 6 (Fixed.ofBytes bufferSize []) everyWay :=
  psyncDeflate_soundRing stored 6 _ everyWay (by decide +kernel)

/-- A read that ends behind the wrap, with more to read there, fails an assertion. -/
theorem not_soundRing_shortWrap :
    ¬ SoundRing stored 6 (Fixed.ofBytes bufferSize [])
      [.write (List.replicate 4000 1) flush, .read 3900, .write (List.replicate 1000 2) flush,
        .read 500] := by
  rintro ⟨outs, d, hrun, -⟩
  have hfails : (run step (psyncDeflateInit stored 6 (Fixed.ofBytes bufferSize []))
      [.write (List.replicate 4000 1) flush, .read 3900, .write (List.replicate 1000 2) flush,
        .read 500]).map (fun r => r.1.length) = .error .assertFailed := by decide +kernel
  rw [hrun] at hfails
  exact nomatch hfails

end PcloudClient.Pcompression
