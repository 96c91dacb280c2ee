/-
  Pasyncnet/Demux.lean --- every request is called back once, with what was sent for it.
-/
import Mathlib.Data.List.Nodup
import Mathlib.Logic.Relation
import PcloudClient.Pasyncnet.Views

set_option autoImplicit false

namespace PcloudClient.Pasyncnet

open PcloudClient.Bytes

/-! ## Packets -/

/-- A packet on the connection. -/
def encode (id : Nat) (payload : Bytes) : Bytes :=
  toLE 4 id ++ toLE 2 (payload.length - 1) ++ payload

/-- The bytes of the packets that have been seen. -/
def packets (log : List Event) : Bytes :=
  log.flatMap fun
    | .packet id payload => encode id payload
    | _ => []

/-- The beginning of a packet. -/
def Unfinished (rest : Bytes) : Prop :=
  rest.length < streamHeaderLen ∨
    rest.length < streamHeaderLen + ofLE ((rest.drop 4).take 2) + 1

/-- The packets that have been seen and the buffer are what the server has sent. -/
inductive Framed (prms : Params) (log : List Event) (input : Bytes) : Prop
  | header (hbuf : prms.processBuf = .streamHeader)
      (hlen : prms.buffer.length + prms.curreadbuffrem = streamHeaderLen)
      (hrem : 0 < prms.curreadbuffrem) (hinput : input = packets log ++ prms.buffer)
  | data (hbuf : prms.processBuf = .streamData)
      (hlen : prms.buffer.length + prms.curreadbuffrem = prms.curreadbufflen)
      (hrem : 0 < prms.curreadbuffrem) (hmax : prms.curreadbufflen ≤ 2 ^ 16)
      (hinput : input = packets log ++
        (toLE 4 prms.currentstreamid ++ toLE 2 (prms.curreadbufflen - 1) ++ prms.buffer))

section

variable {prms : Params} {log : List Event} {input : Bytes}

theorem packets_append (log log' : List Event) :
    packets (log ++ log') = packets log ++ packets log' := List.flatMap_append

/-- Only packets are on the connection. -/
theorem packets_of_request {m : Nat} (h : ∀ e ∈ log, e.request? = some m) : packets log = [] := by
  refine List.flatMap_eq_nil_iff.mpr ?_
  intro e he
  have := h e he
  cases e with
  | packet | returned => cases this
  | opened | wrote | deleted | called => rfl

theorem Framed.unfinished (h : Framed prms log input) :
    ∃ rest, Unfinished rest ∧ input = packets log ++ rest := by
  cases h with
  | header hbuf hlen hrem hinput =>
    refine ⟨_, Or.inl ?_, hinput⟩
    omega
  | data hbuf hlen hrem hmax hinput =>
    refine ⟨_, Or.inr ?_, hinput⟩
    have htake :
        ((toLE 4 prms.currentstreamid ++ toLE 2 (prms.curreadbufflen - 1) ++ prms.buffer).drop
        4).take 2 = toLE 2 (prms.curreadbufflen - 1) := by
      rw [List.append_assoc, List.drop_left' (length_toLE 4 _), List.take_left' (length_toLE 2 _)]
    rw [htake, ofLE_toLE, Nat.mod_eq_of_lt (by omega), List.length_append, List.length_append,
      length_toLE, length_toLE]
    show 4 + 2 + prms.buffer.length < 6 + (prms.curreadbufflen - 1) + 1
    omega

theorem Framed.init : Framed .init [] [] :=
  .header rfl rfl (by decide) rfl

/-- Only the buffer counts, and the packets. -/
theorem Framed.congr {prms' : Params} {log' : List Event} (h : Framed prms log input)
    (hbuf : prms'.processBuf = prms.processBuf) (hbuffer : prms'.buffer = prms.buffer)
    (hrem : prms'.curreadbuffrem = prms.curreadbuffrem)
    (hlen : prms'.curreadbufflen = prms.curreadbufflen)
    (hid : prms'.currentstreamid = prms.currentstreamid)
    (hlog : packets log' = packets log) : Framed prms' log' input := by
  cases h with
  | header hbuf₀ hlen₀ hrem₀ hinput =>
    refine .header (hbuf.trans hbuf₀) ?_ ?_ ?_
    · rw [hbuffer, hrem]
      exact hlen₀
    · rw [hrem]
      exact hrem₀
    · rw [hlog, hbuffer]
      exact hinput
  | data hbuf₀ hlen₀ hrem₀ hmax hinput =>
    refine .data (hbuf.trans hbuf₀) ?_ ?_ ?_ ?_
    · rw [hbuffer, hrem, hlen]
      exact hlen₀
    · rw [hrem]
      exact hrem₀
    · rw [hlen]
      exact hmax
    · rw [hlog, hid, hlen, hbuffer]
      exact hinput

end

/-! ## Reading -/

/-- The view of a request that a packet, and what it does to its stream, is not of. -/
theorem view_other {n m id : Nat} {payload : Bytes} {log log' : List Event}
    (hid : (view n log).streamid ≠ some id) (hlog : ∀ e ∈ log', e.request? = some m)
    (hne : m ≠ n) : view n (log ++ .packet id payload :: log') = view n log := by
  rw [view_append, List.foldl_cons, View.after_packet_of_ne hid, View.foldl_of_ne hlog hne]

theorem view_packet {n id : Nat} {payload : Bytes} {log log' : List Event}
    (hid : (view n log).streamid = some id) :
    view n (log ++ .packet id payload :: log') = log'.foldl (View.after n)
      { view n log with payloads := (view n log).payloads ++ [payload] } := by
  rw [view_append, List.foldl_cons, View.after_packet hid]

theorem fileDownloadFree_request (s : Stream) (error : Nat) :
    ∀ e ∈ s.fileDownloadFree error, e.request? = some s.request := by
  intro e he
  unfold Stream.fileDownloadFree at he
  split at he
  · rw [List.mem_singleton.mp he]
    rfl
  · cases he

theorem fileDownloadSendError_request (s : Stream) (error errorflags : Nat) :
    ∀ e ∈ s.fileDownloadSendError error errorflags, e.request? = some s.request := by
  intro e he
  rcases List.mem_cons.mp he with rfl | he
  · rfl
  · exact fileDownloadFree_request s error e he

section

variable {sha1 : Bytes → Bytes} {s : Stream} {o : Outcome} {buff : Bytes} {writes : Writes}
  {opened : Bool}

theorem processFileDownloadData_request
    (h : processFileDownloadData sha1 s buff writes = some o) :
    ∀ e ∈ o.log, e.request? = some s.request := by
  unfold processFileDownloadData at h
  split at h
  · obtain rfl := Option.some.inj h
    exact fileDownloadSendError_request s _ _
  · obtain ⟨⟨b, err⟩, -, rfl⟩ := Option.map_eq_some_iff.mp h
    cases err with
    | some err =>
      intro e he
      rcases List.mem_cons.mp he with rfl | he
      · rfl
      · exact fileDownloadSendError_request _ _ _ e he
    | none =>
      dsimp only
      split
      · intro e he
        rcases List.mem_cons.mp he with rfl | he
        · rfl
        · exact fileDownloadSendError_request _ _ _ e he
      · intro e he
        rw [List.mem_singleton.mp he]
        rfl

theorem processFileDownloadHeaders_request
    (h : processFileDownloadHeaders sha1 s buff opened writes = some o) :
    ∀ e ∈ o.log, e.request? = some s.request := by
  unfold processFileDownloadHeaders at h
  split at h
  · obtain rfl := Option.some.inj h
    exact fun e he => nomatch he
  · dsimp only at h
    split at h
    · obtain rfl := Option.some.inj h
      exact fileDownloadSendError_request _ _ _
    · split at h
      · obtain rfl := Option.some.inj h
        exact fileDownloadSendError_request _ _ _
      · split at h
        · obtain rfl := Option.some.inj h
          exact fileDownloadSendError_request _ _ _
        · split at h
          · have hlog := processFileDownloadData_request h
            exact hlog
          · obtain rfl := Option.some.inj h
            exact fun e he => nomatch he

/-- A packet is seen by the request of its stream only. -/
theorem process_request (h : s.process sha1 buff opened writes = some o) :
    ∀ e ∈ o.log, e.request? = some s.request := by
  unfold Stream.process at h
  split at h
  · exact processFileDownloadHeaders_request h
  · exact processFileDownloadData_request h

/-- The stream of a request that has not been called back. -/
def Stream.Follows (s : Stream) (running : Bool) (v : View) : Prop :=
  s.Waiting v ∨ s.Due v [] ∨ running = false ∧ s.Short v

theorem Stream.Follows.streamid {running : Bool} {v : View} (h : s.Follows running v) :
    v.streamid = some s.streamid := by
  rcases h with h | h | ⟨-, h⟩
  · exact h.streamid
  · exact h.streamid
  · exact h.streamid

theorem Stream.Follows.calls {running : Bool} {v : View} (h : s.Follows running v) :
    v.calls = [] := by
  rcases h with h | h | ⟨-, h⟩
  · exact h.calls
  · exact h.calls
  · exact h.calls

theorem Stream.Follows.stopped {running : Bool} {v : View} (h : s.Follows running v) :
    s.Follows false v := by
  rcases h with h | h | ⟨-, h⟩
  · exact Or.inl h
  · exact Or.inr (Or.inl h)
  · exact Or.inr (Or.inr ⟨rfl, h⟩)

/-- What a packet leaves of its stream, as long as the thread runs. -/
theorem Stream.Follows.leaves {v : View} (h : s.Follows true v)
    (herror : s.processData = .headers → respLen ≤ buff.length →
      (DownloadResp.ofBytes buff).error ≠ 2 ^ 32 - 100)
    (hp : s.process sha1 buff opened writes = some o) :
    Leaves sha1 s o { v with payloads := v.payloads ++ [buff] } := by
  rcases h with h | h | ⟨hrun, -⟩
  · unfold Stream.process at hp
    rw [h.stage] at hp
    exact h.leaves (herror h.stage) hp
  · unfold Stream.process at hp
    rw [h.stage] at hp
    obtain ⟨a, ha, hsha1, hsize⟩ := h.announced
    -- the headers are in the first packet
    obtain ⟨p, rest, hpay, hlen⟩ : ∃ p rest, v.payloads = p :: rest ∧ respLen ≤ p.length := by
      unfold View.announced at ha
      split at ha
      next => cases ha
      next p rest hpay =>
        split at ha
        next hlen => exact ⟨p, rest, hpay, hlen⟩
        next => cases ha
    have hflat : respLen ≤ v.payloads.flatten.length := by
      rw [hpay, List.flatten_cons, List.length_append]
      omega
    have hdue : s.Due { v with payloads := v.payloads ++ [buff] } buff := by
      refine ⟨h.active, h.streamid, h.calls, h.stage, ⟨a, ?_, hsha1, hsize⟩, h.hashed, ?_, h.rem⟩
      · unfold View.announced at ha ⊢
        dsimp only
        rw [hpay] at ha ⊢
        exact ha
      · have hdata := h.data
        rw [List.append_nil] at hdata
        unfold View.data at hdata ⊢
        dsimp only
        rw [List.flatten_append, List.flatten_singleton, List.drop_append_of_le_length hflat, hdata]
    exact hdue.leaves hp
  · cases hrun

/-- What is written is what has arrived, and it is not the whole file. -/
theorem Stream.Follows.unsettled {running : Bool} {v : View} (h : s.Follows running v) :
    v.written = v.data ∧ ∀ a, v.announced = some a → a.size ≠ 0 →
      ¬(v.written.length = a.size ∧ sha1 v.written = a.sha1hex) := by
  rcases h with h | h | ⟨-, h⟩
  · refine ⟨?_, ?_⟩
    · unfold View.data
      rw [h.payloads, h.written]
      rfl
    · intro a ha
      unfold View.announced at ha
      rw [h.payloads] at ha
      cases ha
  · refine ⟨?_, ?_⟩
    · have := h.data
      rw [List.append_nil] at this
      exact this.symm
    · rintro a ha - ⟨hlen, -⟩
      obtain ⟨a', ha', -, hsize⟩ := h.announced
      obtain rfl := Option.some.inj (ha.symm.trans ha')
      have := h.rem
      omega
  · obtain ⟨p, hpay, hshort⟩ := h.payloads
    refine ⟨?_, ?_⟩
    · unfold View.data
      rw [hpay, h.written, List.flatten_singleton, List.drop_eq_nil_of_le (Nat.le_of_lt hshort)]
    · intro a ha
      unfold View.announced at ha
      rw [hpay] at ha
      dsimp only at ha
      rw [if_neg (Nat.not_le.mpr hshort)] at ha
      cases ha

theorem Stream.Follows.of_running {running : Bool} {v : View} (h : s.Follows true v) :
    s.Follows running v := by
  rcases h with h | h | ⟨hrun, -⟩
  · exact Or.inl h
  · exact Or.inr (Or.inl h)
  · cases hrun

end

/-! ## The streams -/

/-- What holds of the streams of a connection. -/
structure Streaming (sha1 : Bytes → Bytes) (streams : List Stream) (last : Nat) (running : Bool)
    (log : List Event) : Prop where
  ids : (streams.map (·.streamid)).Nodup
  requests : (streams.map (·.request)).Nodup
  idsLe : ∀ s ∈ streams, s.streamid ≤ last
  active : ∀ s ∈ streams, s.active = true → s.Follows running (view s.request log)
  passive : ∀ s ∈ streams, s.active = false → running = false ∧ view s.request log = .empty
  closed : ∀ n, (∀ s ∈ streams, s.request ≠ n) →
    view n log = .empty ∨ Settled sha1 (view n log)

namespace Streaming

variable {sha1 : Bytes → Bytes} {streams : List Stream} {last : Nat} {running : Bool}
  {log log' : List Event} {s t : Stream} {o : Outcome} {n id : Nat} {payload : Bytes}

/-- An open request has a stream. -/
theorem exists_stream (h : Streaming sha1 streams last running log)
    (hid : (view n log).streamid = some id) :
    ∃ s ∈ streams, s.request = n ∧ s.streamid = id ∧ s.active = true := by
  rcases Classical.em (∃ s ∈ streams, s.request = n) with ⟨s, hs, rfl⟩ | hnone
  · cases hact : s.active with
    | true =>
      have := (h.active s hs hact).streamid
      rw [hid] at this
      exact ⟨s, hs, rfl, (Option.some.inj this).symm, hact⟩
    | false =>
      rw [(h.passive s hs hact).2] at hid
      cases hid
  · have hne : ∀ s ∈ streams, s.request ≠ n := fun s hs hn => hnone ⟨s, hs, hn⟩
    rcases h.closed n hne with hempty | hsettled
    · rw [hempty] at hid
      cases hid
    · rw [hsettled.streamid] at hid
      cases hid

theorem eq_of_streamid (h : Streaming sha1 streams last running log) (hs : s ∈ streams)
    (ht : t ∈ streams) (heq : s.streamid = t.streamid) : s = t :=
  List.inj_on_of_nodup_map h.ids hs ht heq

theorem eq_of_request (h : Streaming sha1 streams last running log) (hs : s ∈ streams)
    (ht : t ∈ streams) (heq : s.request = t.request) : s = t :=
  List.inj_on_of_nodup_map h.requests hs ht heq

/-- Where no view changes, the streams are as they were. -/
theorem of_views (h : Streaming sha1 streams last running log)
    (hview : ∀ n, view n log' = view n log) : Streaming sha1 streams last running log' := by
  refine ⟨h.ids, h.requests, h.idsLe, ?_, ?_, ?_⟩
  · intro s hs hact
    rw [hview]
    exact h.active s hs hact
  · intro s hs hact
    rw [hview]
    exact h.passive s hs hact
  · intro n hn
    rw [hview]
    exact h.closed n hn

theorem stopped (h : Streaming sha1 streams last running log) :
    Streaming sha1 streams last false log :=
  ⟨h.ids, h.requests, h.idsLe, fun s hs hact => (h.active s hs hact).stopped,
    fun s hs hact => ⟨rfl, (h.passive s hs hact).2⟩, h.closed⟩

/-- A packet of which no stream knows is thrown away. -/
theorem view_unknown (h : Streaming sha1 streams last running log)
    (hnone : ∀ s ∈ streams, s.streamid ≠ id) (n : Nat) :
    view n (log ++ [.packet id payload]) = view n log := by
  rw [view_append, List.foldl_cons, List.foldl_nil]
  refine View.after_packet_of_ne ?_
  intro hid
  obtain ⟨s, hs, -, hsid, -⟩ := h.exists_stream hid
  exact hnone s hs hsid

theorem view_known (h : Streaming sha1 streams last running log) (hs : s ∈ streams)
    (hlog : ∀ e ∈ o.log, e.request? = some s.request) (hne : s.request ≠ n) :
    view n (log ++ .packet s.streamid payload :: o.log) = view n log := by
  refine view_other ?_ hlog hne
  intro hid
  obtain ⟨t, ht, hreq, htid, -⟩ := h.exists_stream hid
  rw [h.eq_of_streamid ht hs htid] at hreq
  exact hne hreq

theorem closed_of_ne (h : Streaming sha1 streams last running log) (hs : s ∈ streams)
    (hlog : ∀ e ∈ o.log, e.request? = some s.request) (hne : s.request ≠ n)
    (hn : ∀ t ∈ streams, t ≠ s → t.request ≠ n) :
    view n (log ++ .packet s.streamid payload :: o.log) = .empty ∨
      Settled sha1 (view n (log ++ .packet s.streamid payload :: o.log)) := by
  rw [h.view_known hs hlog hne]
  refine h.closed n ?_
  intro t ht
  rcases Classical.em (t = s) with rfl | hts
  · exact hne
  · exact hn t ht hts

/-- A packet for a stream. -/
theorem packet (h : Streaming sha1 streams last true log) (hs : s ∈ streams)
    (hact : s.active = true) (hlog : ∀ e ∈ o.log, e.request? = some s.request)
    (hleaves : Leaves sha1 s o
      { view s.request log with payloads := (view s.request log).payloads ++ [payload] }) :
    Streaming sha1
      (match o.stream with
        | some s' => streams.map fun t => if t.streamid = s.streamid then s' else t
        | none => streams.filter fun t => t.streamid ≠ s.streamid)
      last (!o.stop) (log ++ .packet s.streamid payload :: o.log) := by
  have hown : view s.request (log ++ .packet s.streamid payload :: o.log) = o.log.foldl
      (View.after s.request) { view s.request log with
        payloads := (view s.request log).payloads ++ [payload] } :=
    view_packet (h.active s hs hact).streamid
  have hother : ∀ t ∈ streams, t.streamid ≠ s.streamid →
      view t.request (log ++ .packet s.streamid payload :: o.log) = view t.request log := by
    intro t ht hts
    refine h.view_known hs hlog ?_
    intro hreq
    exact hts (congrArg Stream.streamid (h.eq_of_request hs ht hreq)).symm
  have hothers : ∀ t ∈ streams, t.streamid ≠ s.streamid →
      t.active = true ∧ t.Follows (!o.stop)
        (view t.request (log ++ .packet s.streamid payload :: o.log)) := by
    intro t ht hts
    rw [hother t ht hts]
    cases htact : t.active with
    | true => exact ⟨rfl, (h.active t ht htact).of_running⟩
    | false => cases (h.passive t ht htact).1
  rcases hleaves with ⟨s', hstream, hid, hreq, hgoes⟩ | ⟨hstream, hsettled⟩
  · rw [hstream]
    have hids : (streams.map fun t => if t.streamid = s.streamid then s' else t).map (·.streamid)
        = streams.map (·.streamid) := by
      rw [List.map_map]
      refine List.map_congr_left ?_
      intro t _
      show (if t.streamid = s.streamid then s' else t).streamid = t.streamid
      split
      next heq => rw [hid, heq]
      next => rfl
    have hreqs : (streams.map fun t => if t.streamid = s.streamid then s' else t).map (·.request)
        = streams.map (·.request) := by
      rw [List.map_map]
      refine List.map_congr_left ?_
      intro t ht
      show (if t.streamid = s.streamid then s' else t).request = t.request
      split
      next heq => rw [hreq, h.eq_of_streamid ht hs heq]
      next => rfl
    have hmem : ∀ {t : Stream},
        t ∈ (streams.map fun t => if t.streamid = s.streamid then s' else t) →
        t = s' ∨ t ∈ streams ∧ t.streamid ≠ s.streamid := by
      intro t ht
      obtain ⟨u, hu, rfl⟩ := List.mem_map.mp ht
      split
      next => exact Or.inl rfl
      next hne => exact Or.inr ⟨hu, hne⟩
    have hfollows : s'.Follows (!o.stop)
        (view s'.request (log ++ .packet s.streamid payload :: o.log)) := by
      rw [hreq, hown]
      rcases hgoes with hdue | ⟨hstop, hshort⟩
      · exact Or.inr (Or.inl hdue)
      · rw [hstop]
        exact Or.inr (Or.inr ⟨rfl, hshort⟩)
    have hact' : s'.active = true := by
      rcases hgoes with hdue | ⟨-, hshort⟩
      · exact hdue.active
      · exact hshort.active
    refine ⟨?_, ?_, ?_, ?_, ?_, ?_⟩
    · rw [hids]
      exact h.ids
    · rw [hreqs]
      exact h.requests
    · intro t ht
      rcases hmem ht with rfl | ⟨ht, -⟩
      · rw [hid]
        exact h.idsLe s hs
      · exact h.idsLe t ht
    · intro t ht _
      rcases hmem ht with rfl | ⟨ht, hne⟩
      · exact hfollows
      · exact (hothers t ht hne).2
    · intro t ht hpas
      rcases hmem ht with rfl | ⟨ht, hne⟩
      · cases hact'.symm.trans hpas
      · cases (hothers t ht hne).1.symm.trans hpas
    · intro n hn
      have hn' : ∀ t ∈ streams, t.request ≠ n := by
        intro t ht heq
        have hmem' : (if t.streamid = s.streamid then s' else t) ∈
            streams.map fun t => if t.streamid = s.streamid then s' else t :=
          List.mem_map_of_mem ht
        refine hn _ hmem' ?_
        rw [← heq]
        split
        next hts => rw [hreq, h.eq_of_streamid ht hs hts]
        next => rfl
      exact h.closed_of_ne hs hlog (hn' s hs) fun t ht _ => hn' t ht
  · rw [hstream]
    have hmem : ∀ {t : Stream}, t ∈ (streams.filter fun t => t.streamid ≠ s.streamid) →
        t ∈ streams ∧ t.streamid ≠ s.streamid := by
      intro t ht
      obtain ⟨ht, hne⟩ := List.mem_filter.mp ht
      exact ⟨ht, of_decide_eq_true hne⟩
    refine ⟨h.ids.sublist (List.filter_sublist.map _),
      h.requests.sublist (List.filter_sublist.map _),
      fun t ht => h.idsLe t (hmem ht).1, fun t ht _ =>
        (hothers t (hmem ht).1 (hmem ht).2).2, ?_, ?_⟩
    · intro t ht hpas
      cases (hothers t (hmem ht).1 (hmem ht).2).1.symm.trans hpas
    · intro n hn
      rcases Classical.em (s.request = n) with rfl | hne
      · rw [hown]
        exact Or.inr hsettled
      · refine h.closed_of_ne hs hlog hne ?_
        intro t ht hts
        refine hn t (List.mem_filter.mpr ⟨ht, ?_⟩)
        exact decide_eq_true fun heq => hts (h.eq_of_streamid ht hs heq)

/-- A request of which nothing has been seen has no stream while the thread runs. -/
theorem request_ne (h : Streaming sha1 streams last true log) (hempty : view n log = .empty) :
    ∀ t ∈ streams, t.request ≠ n := by
  intro t ht hreq
  cases hact : t.active with
  | true =>
    have := (h.active t ht hact).streamid
    rw [hreq, hempty] at this
    cases this
  | false => cases (h.passive t ht hact).1

/-- A new stream has an id of its own. -/
theorem added (h : Streaming sha1 streams last running log) (hid : last < s.streamid)
    (hnew : ∀ t ∈ streams, t.request ≠ s.request) :
    ((streams ++ [s]).map (·.streamid)).Nodup ∧ ((streams ++ [s]).map (·.request)).Nodup ∧
      ∀ t ∈ streams ++ [s], t.streamid ≤ s.streamid := by
  refine ⟨?_, ?_, ?_⟩
  · rw [List.map_append, List.map_singleton]
    refine List.nodup_append.mpr ⟨h.ids, List.nodup_singleton _, ?_⟩
    intro i hi j hj heq
    obtain ⟨t, ht, rfl⟩ := List.mem_map.mp hi
    rw [List.mem_singleton.mp hj] at heq
    have := h.idsLe t ht
    omega
  · rw [List.map_append, List.map_singleton]
    refine List.nodup_append.mpr ⟨h.requests, List.nodup_singleton _, ?_⟩
    intro i hi j hj heq
    obtain ⟨t, ht, rfl⟩ := List.mem_map.mp hi
    rw [List.mem_singleton.mp hj] at heq
    exact hnew t ht heq
  · intro t ht
    rcases List.mem_append.mp ht with ht | ht
    · have := h.idsLe t ht
      omega
    · rw [List.mem_singleton.mp ht]

/-- A request is sent to the server. -/
theorem opened (h : Streaming sha1 streams last true log)
    (hempty : view s.request log = .empty) (hid : last < s.streamid) (hact : s.active = true)
    (hstage : s.processData = .headers) (line : Line) :
    Streaming sha1 (streams ++ [s]) s.streamid true
      (log ++ [.opened s.request s.streamid line]) := by
  have hnew := h.request_ne hempty
  obtain ⟨hids, hreqs, hle⟩ := h.added hid hnew
  have hown : view s.request (log ++ [.opened s.request s.streamid line]) =
      { View.empty with streamid := some s.streamid } := by
    rw [view_append, hempty]
    exact if_pos rfl
  have hother : ∀ {m : Nat}, m ≠ s.request →
      view m (log ++ [.opened s.request s.streamid line]) = view m log := by
    intro m hne
    rw [view_append, List.foldl_cons, List.foldl_nil, View.after_of_ne rfl hne.symm]
  refine ⟨hids, hreqs, hle, ?_, ?_, ?_⟩
  · intro t ht htact
    rcases List.mem_append.mp ht with ht | ht
    · rw [hother (hnew t ht)]
      exact h.active t ht htact
    · rw [List.mem_singleton.mp ht, hown]
      exact Or.inl ⟨hact, rfl, rfl, hstage, rfl, rfl⟩
  · intro t ht htact
    rcases List.mem_append.mp ht with ht | ht
    · rw [hother (hnew t ht)]
      exact h.passive t ht htact
    · rw [List.mem_singleton.mp ht, hact] at htact
      cases htact
  · intro m hm
    have hne : m ≠ s.request :=
      (hm s (List.mem_append_right _ (List.mem_singleton_self s))).symm
    rw [hother hne]
    exact h.closed m fun t ht => hm t (List.mem_append_left _ ht)

/-- A request could not be sent, and the thread stops. -/
theorem unsent (h : Streaming sha1 streams last true log)
    (hempty : view s.request log = .empty) (hid : last < s.streamid) (hact : s.active = false) :
    Streaming sha1 (streams ++ [s]) s.streamid false log := by
  obtain ⟨hids, hreqs, hle⟩ := h.added hid (h.request_ne hempty)
  refine ⟨hids, hreqs, hle, ?_, ?_, ?_⟩
  · intro t ht htact
    rcases List.mem_append.mp ht with ht | ht
    · exact (h.active t ht htact).stopped
    · rw [List.mem_singleton.mp ht, hact] at htact
      cases htact
  · intro t ht htact
    rcases List.mem_append.mp ht with ht | ht
    · exact ⟨rfl, (h.passive t ht htact).2⟩
    · rw [List.mem_singleton.mp ht]
      exact ⟨rfl, hempty⟩
  · exact fun m hm => h.closed m fun t ht => hm t (List.mem_append_left _ ht)

/-- Behind the loop a stream is freed. -/
theorem freed (h : Streaming sha1 (s :: streams) last false log) :
    Streaming sha1 streams last false (log ++ s.freeStream) := by
  have hlog : ∀ e ∈ s.freeStream, e.request? = some s.request := by
    intro e he
    rcases List.mem_append.mp he with he | he
    · split at he
      · rw [List.mem_singleton.mp he]
        rfl
      · cases he
    · exact fileDownloadFree_request s _ e he
  have hreqs := h.requests
  rw [List.map_cons] at hreqs
  obtain ⟨hnotin, hreqs'⟩ := List.nodup_cons.mp hreqs
  have hids := h.ids
  rw [List.map_cons] at hids
  have hother : ∀ {m : Nat}, s.request ≠ m → view m (log ++ s.freeStream) = view m log := by
    intro m hne
    rw [view_append, View.foldl_of_ne hlog hne]
  have hne : ∀ t ∈ streams, s.request ≠ t.request :=
    fun t ht heq => hnotin (heq ▸ List.mem_map_of_mem ht)
  refine ⟨(List.nodup_cons.mp hids).2, hreqs', fun t ht => h.idsLe t (List.mem_cons_of_mem _ ht),
    ?_, ?_, ?_⟩
  · intro t ht hact
    rw [hother (hne t ht)]
    exact h.active t (List.mem_cons_of_mem _ ht) hact
  · intro t ht hact
    rw [hother (hne t ht)]
    exact h.passive t (List.mem_cons_of_mem _ ht) hact
  · intro m hm
    rcases Classical.em (s.request = m) with rfl | hsm
    · rw [view_append]
      unfold Stream.freeStream
      rw [List.foldl_append, View.foldl_fileDownloadFree]
      cases hact : s.active with
      | true =>
        have hfollows := h.active s List.mem_cons_self hact
        obtain ⟨hwritten, hshort⟩ := @Stream.Follows.unsettled sha1 s false _ hfollows
        have hcalled : [Event.called s.request ⟨errorNet, errFlagRetryAsIs, 0, 0, []⟩].foldl
            (View.after s.request) (view s.request log) =
              { view s.request log with
                streamid := none
                calls := (view s.request log).calls ++
                  [⟨errorNet, errFlagRetryAsIs, 0, 0, []⟩] } := if_pos rfl
        rw [if_pos rfl, hcalled]
        exact Or.inr (settled_called hfollows.calls (hwritten ▸ List.prefix_refl _) nofun hshort)
      | false =>
        rw [if_neg nofun]
        exact Or.inl (h.passive s List.mem_cons_self hact).2
    · rw [hother hsm]
      refine h.closed m ?_
      intro t ht
      rcases List.mem_cons.mp ht with rfl | ht
      · exact hsm
      · exact hm t ht

end Streaming

/-! ## Requests and answers -/

/-- What holds of the requests and their answers. -/
structure Asking (st : State) : Prop where
  idle : st.caller = none → st.tasks = [] ∧ st.answers = []
  fresh : ∀ n, st.caller = some n → n < st.requests ∧ ∀ ok, .returned n ok ∉ st.log
  waiting : ∀ n, st.caller = some n →
    (st.answers = [] ∧ view n st.log = .empty ∧ (st.tasks = [] ∨ ∃ task, st.tasks = [(n, task)])) ∨
      st.tasks = [] ∧ ∃ ch, st.answers = [ch] ∧ (ch = 0 ↔ view n st.log ≠ .empty)
  accepted : ∀ n, .returned n true ∈ st.log → view n st.log ≠ .empty
  refused : ∀ n, .returned n false ∈ st.log → view n st.log = .empty
  later : ∀ n, st.requests ≤ n → view n st.log = .empty ∧ ∀ ok, .returned n ok ∉ st.log

namespace Asking

variable {st st' : State}

/-- Reading and freeing have no part in it. -/
theorem of_log (h : Asking st) (hcaller : st'.caller = st.caller) (htasks : st'.tasks = st.tasks)
    (hans : st'.answers = st.answers) (hreq : st'.requests = st.requests)
    (hret : ∀ n ok, .returned n ok ∈ st'.log ↔ .returned n ok ∈ st.log)
    (hview : ∀ n, view n st'.log = .empty ↔ view n st.log = .empty) : Asking st' := by
  refine ⟨?_, ?_, ?_, ?_, ?_, ?_⟩
  · rw [hcaller, htasks, hans]
    exact h.idle
  · intro n hn
    rw [hcaller] at hn
    obtain ⟨hlt, hnot⟩ := h.fresh n hn
    exact ⟨by rw [hreq]; exact hlt, fun ok hmem => hnot ok ((hret n ok).mp hmem)⟩
  · intro n hn
    rw [hcaller] at hn
    rw [hans, htasks, Ne, hview]
    exact h.waiting n hn
  · intro n hn hempty
    exact h.accepted n ((hret n true).mp hn) ((hview n).mp hempty)
  · intro n hn
    exact (hview n).mpr (h.refused n ((hret n false).mp hn))
  · intro n hn
    rw [hreq] at hn
    obtain ⟨hempty, hnot⟩ := h.later n hn
    exact ⟨(hview n).mpr hempty, fun ok hmem => hnot ok ((hret n ok).mp hmem)⟩

/-- A call returns, and with 0 if and only if the request has been sent. -/
theorem returned {n : Nat} {ok : Bool} (h : Asking st)
    (hlt : n < st'.requests) (hle : st.requests ≤ st'.requests)
    (hnot : ∀ ok, .returned n ok ∉ st.log) (hok : ok = true ↔ view n st.log ≠ .empty)
    (hcaller : st'.caller = none) (htasks : st'.tasks = []) (hans : st'.answers = [])
    (hlog : st'.log = st.log ++ [.returned n ok]) : Asking st' := by
  have hview : ∀ m, view m st'.log = view m st.log := by
    intro m
    rw [hlog, view_append]
    rfl
  have hmem : ∀ {m : Nat} {ok' : Bool}, Event.returned m ok' ∈ st'.log →
      .returned m ok' ∈ st.log ∨ m = n ∧ ok' = ok := by
    intro m ok' hm
    rw [hlog] at hm
    rcases List.mem_append.mp hm with hm | hm
    · exact Or.inl hm
    · cases List.mem_singleton.mp hm
      exact Or.inr ⟨rfl, rfl⟩
  refine ⟨fun _ => ⟨htasks, hans⟩, ?_, ?_, ?_, ?_, ?_⟩
  · intro m hm
    rw [hcaller] at hm
    cases hm
  · intro m hm
    rw [hcaller] at hm
    cases hm
  · intro m hm
    rw [hview]
    rcases hmem hm with hm | ⟨rfl, rfl⟩
    · exact h.accepted m hm
    · exact hok.mp rfl
  · intro m hm
    rw [hview]
    rcases hmem hm with hm | ⟨rfl, rfl⟩
    · exact h.refused m hm
    · exact Classical.byContradiction fun hne => nomatch hok.mpr hne
  · intro m hm
    rw [hview]
    obtain ⟨hempty, hnot'⟩ := h.later m (Nat.le_trans hle hm)
    refine ⟨hempty, ?_⟩
    intro ok' hmem'
    rcases hmem hmem' with hm' | ⟨rfl, -⟩
    · exact hnot' ok' hm'
    · omega

end Asking

end PcloudClient.Pasyncnet
