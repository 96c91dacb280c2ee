/-
  Pcompression/Fifo.lean --- reads hand out the output of zlib in its order, in every run in
  which a flush that ends the stream fits into the ring and no read ends behind the wrap.
-/
import PcloudClient.Pcompression.WriteProofs
import PcloudClient.Pcompression.Stored

set_option autoImplicit false

namespace PcloudClient.Pcompression

open Bytes Runs

variable {z : Zlib}

namespace Deflate

/-- A read that goes to zlib, where `inflate` writes before it finds an error: what it wrote is
not returned. -/
def DropsOnError (d : Deflate z) (len : Nat) : Prop :=
  d.bufferendoff = d.bufferstartoff ∧ d.flushbuff = none ∧ d.moreData = true ∧
    (d.zcall noflush [] len).ret = .dataError ∧ (d.zcall noflush [] len).out ≠ []

instance (d : Deflate z) (len : Nat) : Decidable (d.DropsOnError len) :=
  inferInstanceAs (Decidable (_ ∧ _))

theorem mode_noflush (d : Deflate z) : d.mode noflush ≠ .finish := by
  unfold mode
  split
  · decide
  · exact (nofun)

/-- A read from zlib. -/
theorem readDirect_fifo {got : Bytes} {d : Deflate z} (h : Fifo got d) {len : Nat}
    (hempty : d.bufferendoff = d.bufferstartoff) (hnone : d.flushbuff = none) (hlen : 0 < len)
    (hdrops : (d.zcall noflush [] len).ret = .dataError → (d.zcall noflush [] len).out = []) :
    ∃ ret out d', d.readDirect len = .ok (ret, out, d') ∧ Fifo (got ++ out) d' ∧
      (ret = nodata ∨ ret = eof → d'.unread = [] ∧ z.owed d'.stream = []) := by
  obtain ⟨ret, out, streamEnd, hread, hout, herr, hdrained⟩ := readDirect_spec d hlen
  have hmode := mode_noflush d
  have hle : (d.zcall noflush [] len).out.length ≤ len := z.out_le _ _ _ _ _
  have howed := fun hdone => owed_zcall [] hlen (fun _ => h.calm) (f := noflush) (d := d) hdone
  have hcalm : (d.called (d.zcall noflush [] len) len).Calm :=
    (@calm_zcall z d (d.called (d.zcall noflush [] len) len) noflush [] len hmode h.calm rfl rfl).1
  have hall : out = (d.zcall noflush [] len).out := by
    by_cases hstream : (d.zcall noflush [] len).ret = .streamError
    · have hnothing : (d.zcall noflush [] len).out = [] := (z.refused _ _ _ _ _ hstream).2.2.1
      rw [hnothing, (herr (Or.inl hstream)).1]
    by_cases hdata : (d.zcall noflush [] len).ret = .dataError
    · rw [hdrops hdata, (herr (Or.inr hdata)).1]
    · exact hout hstream hdata
  have hnothing : d.unread = [] := by
    rw [unread, ringBytes, hempty, Ring.unread_self, flushBytes_of_none hnone]
    rfl
  have hunread : (d.called (d.zcall noflush [] len) len).unread = [] := hnothing
  have hfifo : got ++ out ++ [] = d.zout ++ (d.zcall noflush [] len).out := by
    rw [← h.fifo, hnothing, hall, List.append_nil, List.append_nil]
  refine ⟨ret, out, _, hread, ?_, fun hret => ⟨hunread, ?_⟩⟩
  · exact {
      ring := ⟨h.ring.start_lt, h.ring.start_le, h.ring.le_size⟩
      flush := h.flush
      fifo := by
        show got ++ out ++ (d.called (d.zcall noflush [] len) len).unread = _
        rw [hunread]
        exact hfifo
      owed := by
        intro hmore
        have hroom : ¬ len - (d.zcall noflush [] len).out.length = 0 := of_decide_eq_false hmore
        exact howed (Or.inl (by omega))
      calm := ⟨hcalm.finished, hcalm.inflates⟩
      flushbuff := fun hc => absurd hnone hc }
  · exact howed (Or.inl (by rw [hdrained hret]; exact hlen))

/-- A read keeps the order, and where it finds nothing there is nothing. -/
theorem read_fifo {got : Bytes} {d : Deflate z} (h : Fifo got d) {len : Nat}
    (hwrap : ¬ d.ShortWrap len) (hzero : ¬ d.ZeroDirect len) (hdrops : ¬ d.DropsOnError len) :
    ∃ ret out d', d.read len = .ok (ret, out, d') ∧ Fifo (got ++ out) d' ∧
      (0 < len → ret = nodata ∨ ret = eof → d'.unread = [] ∧ z.owed d'.stream = []) := by
  by_cases hbuff : d.bufferendoff ≠ d.bufferstartoff ∨ d.flushbuff ≠ none
  · obtain ⟨k, out, d', hread, htakes⟩ := read_buffered h.ring h.flush hwrap hbuff
    refine ⟨k, out, d', hread, ?_, ?_⟩
    · exact {
        ring := htakes.ring
        flush := htakes.flush
        fifo := by rw [List.append_assoc, htakes.unread, htakes.zout, h.fifo]
        owed := by rw [htakes.moreData, htakes.stream]; exact h.owed
        calm := ⟨by rw [htakes.stream]; exact h.calm.finished,
          by rw [htakes.isDeflate, htakes.stream]; exact h.calm.inflates⟩
        flushbuff := fun hc => htakes.moreData.trans (h.flushbuff (htakes.flushbuff hc)) }
    · intro hlen hret
      have hk : k = 0 := by
        simp only [nodata, eof] at hret
        omega
      have hnothing := htakes.nothing hlen hk
      refine ⟨hnothing, ?_⟩
      have hlen' : d.unread.length = 0 := by
        rw [← htakes.unread, hnothing, List.append_nil, htakes.length, hk]
      rw [length_unread, unreadLen] at hlen'
      have hstart := h.ring.start_le
      have hflush : d.flushbuff ≠ none := hbuff.resolve_left fun hne => hne (by omega)
      rw [htakes.stream]
      exact h.owed (h.flushbuff hflush)
  · push Not at hbuff
    obtain ⟨hempty, hnone⟩ := hbuff
    rw [read_empty h.ring hempty hnone]
    by_cases hmore : d.moreData = true
    · rw [if_pos hmore]
      have hlen : 0 < len := Nat.pos_of_ne_zero fun hz => hzero ⟨hz, hempty.symm, hnone, hmore⟩
      obtain ⟨ret, out, d', hread, hfifo, hdrained⟩ := readDirect_fifo h hempty hnone hlen
        (fun herr => by_contra fun hne => hdrops ⟨hempty, hnone, hmore, herr, hne⟩)
      exact ⟨ret, out, d', hread, hfifo, fun _ => hdrained⟩
    · rw [if_neg hmore]
      refine ⟨_, [], d, rfl, by rwa [List.append_nil], fun _ _ => ⟨?_, ?_⟩⟩
      · rw [unread, ringBytes, hempty, Ring.unread_self, flushBytes_of_none hnone]
        rfl
      · exact h.owed (Bool.eq_false_iff.mpr hmore)

/-! ## Runs -/

/-- What a call must meet: the size of a flush fits, a flush that ends the stream stays in the
ring, a read does not end behind the wrap, and one that goes to zlib has room and finds no
error. -/
def KeepsOrder (d : Deflate z) : Op → Prop
  | .write data f => d.FlushFits data f ∧ d.EndFits data f
  | .read len => ¬ d.ShortWrap len ∧ ¬ d.ZeroDirect len ∧ ¬ d.DropsOnError len

instance (d : Deflate z) : DecidablePred d.KeepsOrder
  | .write _ _ => inferInstanceAs (Decidable (_ ∧ _))
  | .read _ => inferInstanceAs (Decidable (_ ∧ _))

theorem step_fifo {outs : List (Int × Bytes)} {d : Deflate z} {op : Op}
    (h : Fifo (returned outs) d) (hmeets : d.KeepsOrder op) :
    ∃ o d', step d op = .ok (o, d') ∧ Fifo (returned (outs ++ [o])) d' := by
  cases op with
  | write data f =>
    obtain ⟨ret, d', hwrite, -⟩ := write_total h.ring hmeets.1
    refine ⟨(ret, []), d', by rw [step, hwrite]; rfl, ?_⟩
    have hfifo := write_fifo h hmeets.2 hwrite
    rwa [returned, List.flatMap_append, List.flatMap_singleton, List.append_nil]
  | read len =>
    obtain ⟨ret, out, d', hread, hfifo, -⟩ := read_fifo h hmeets.1 hmeets.2.1 hmeets.2.2
    refine ⟨(ret, out), d', by rw [step, hread]; rfl, ?_⟩
    rwa [returned, List.flatMap_append, List.flatMap_singleton]

end Deflate

/-- The calls return; what they handed out is the front of what zlib wrote and owes for the input
it took; and it is all of that once a read finds nothing. -/
def Lossless (z : Zlib) (level : Int) (buffer : Fixed bufferSize) (ops : List Op) : Prop :=
  ∃ outs d, run step (psyncDeflateInit z level buffer) ops = .ok (outs, d) ∧
    returned outs <+: d.zout ++ z.owed d.stream ∧
    ∀ len, 0 < len → d.KeepsOrder (.read len) →
      ∃ ret out d', d.read len = .ok (ret, out, d') ∧
        (ret = nodata ∨ ret = eof →
          returned outs ++ out = d'.zout ∧ z.owed d'.stream = [])

theorem psyncDeflate_lossless (z : Zlib) (level : Int) (buffer : Fixed bufferSize)
    (ops : List Op)
    (h : MeetsAll step Deflate.KeepsOrder (psyncDeflateInit z level buffer) ops) :
    Lossless z level buffer ops := by
  obtain ⟨outs, d, hrun, hfifo⟩ := run_keeps (fun outs d => Deflate.Fifo (returned outs) d)
    (fun _ _ _ hinv hmeets => Deflate.step_fifo hinv hmeets)
    [] (Deflate.Fifo.init level buffer) h
  rw [List.nil_append] at hfifo
  refine ⟨outs, d, hrun, ?_, ?_⟩
  · rw [← hfifo.fifo, List.append_assoc]
    exact List.prefix_append _ _
  · intro len hlen hmeets
    obtain ⟨ret, out, d', hread, hfifo', hdrained⟩ :=
      Deflate.read_fifo hfifo hmeets.1 hmeets.2.1 hmeets.2.2
    refine ⟨ret, out, d', hread, fun hret => ?_⟩
    obtain ⟨hnothing, howed⟩ := hdrained hlen hret
    have hall := hfifo'.fifo
    rw [hnothing, List.append_nil] at hall
    exact ⟨hall, howed⟩

theorem psyncDeflate_lossless_everyWay :
    Lossless stored 6 (Fixed.ofBytes bufferSize []) everyWay :=
  psyncDeflate_lossless stored 6 _ everyWay (by decide +kernel)

/-- The end of a stream that does not fit into the ring is lost: 5000 bytes are written, the ring
returns 4096 of them, and then comes `PSYNC_DEFLATE_EOF`. -/
theorem not_lossless_flushEnd :
    ¬ Lossless stored 6 (Fixed.ofBytes bufferSize [])
      [.write (List.replicate 5000 1) flushEnd, .read 4096] := by
  rintro ⟨outs, d, hrun, -, hreads⟩
  have hd : (run step (psyncDeflateInit stored 6 (Fixed.ofBytes bufferSize []))
      [.write (List.replicate 5000 1) flushEnd, .read 4096]).map (fun r =>
        ([(returned r.1).length, r.2.zout.length, r.2.bufferstartoff, r.2.bufferendoff],
          [r.2.flushbuff.isNone, r.2.moreData, r.2.streamEnd])) =
      .ok ([4096, 5000, 0, 0], [true, false, true]) := by decide +kernel
  rw [hrun] at hd
  have hd := Except.ok.inj hd
  simp only [Prod.mk.injEq, List.cons.injEq, and_true] at hd
  obtain ⟨⟨hlen, hzout, hstart, hstop⟩, hnone, hmore, hend⟩ := hd
  have hring : d.RingOk := by
    refine ⟨?_, ?_, ?_⟩
    · rw [hstart]; decide
    · rw [hstart, hstop]
    · rw [hstart, hstop]; decide
  obtain ⟨ret, out, d', hread, hall⟩ := hreads 1 (by decide)
    ⟨fun hwrap => absurd hwrap.1 (by rw [hstart, hstop]; decide),
      fun hzero => absurd hzero.1 (by decide),
      fun hdrops => absurd hdrops.2.2.1 (by rw [hmore]; decide)⟩
  rw [Deflate.read_empty hring (hstop.trans hstart.symm)
    (Option.isNone_iff_eq_none.mp hnone), hmore, hend] at hread
  simp only [Bool.false_eq_true, if_false, if_true, Except.ok.injEq, Prod.mk.injEq] at hread
  obtain ⟨rfl, rfl, rfl⟩ := hread
  have hlost := congrArg List.length (hall (Or.inr rfl)).1
  rw [List.append_nil, hlen, hzout] at hlost
  exact absurd hlost (by decide)

end PcloudClient.Pcompression
