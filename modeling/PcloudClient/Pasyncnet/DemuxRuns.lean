/-
  Pasyncnet/DemuxRuns.lean --- whole runs of a connection.
-/
import PcloudClient.Pasyncnet.Demux

set_option autoImplicit false

namespace PcloudClient.Pasyncnet

open PcloudClient.Bytes

/-! ## What a read does -/

section

variable {sha1 : Bytes → Bytes} {prms prms' : Params} {log log' : List Event} {input b : Bytes}
  {opened stop : Bool} {writes : Writes}

/-- The bytes are put into the buffer; when it is full it is a header, or a packet for nobody, or
a packet for a stream. -/
inductive ReadCase (sha1 : Bytes → Bytes) (prms : Params) (b : Bytes) (opened : Bool)
    (writes : Writes) : Params → List Event → Bool → Prop
  | part (hrem : b.length < prms.curreadbuffrem) :
      ReadCase sha1 prms b opened writes
        { prms with
          buffer := prms.buffer ++ b, curreadbuffrem := prms.curreadbuffrem - b.length } [] false
  | header (hrem : b.length = prms.curreadbuffrem) (hbuf : prms.processBuf = .streamHeader)
      {prms' : Params} (hstreams : prms'.streams = prms.streams)
      (hlast : prms'.laststreamid = prms.laststreamid)
      (hid : prms'.currentstreamid = ofLE ((prms.buffer ++ b).take 4))
      (hbuffer : prms'.buffer = []) (hbuf' : prms'.processBuf = .streamData)
      (hlen : prms'.curreadbufflen = ofLE (((prms.buffer ++ b).drop 4).take 2) + 1)
      (hrem' : prms'.curreadbuffrem = prms'.curreadbufflen) :
      ReadCase sha1 prms b opened writes prms' [] false
  | unknown (hrem : b.length = prms.curreadbuffrem) (hbuf : prms.processBuf = .streamData)
      (hnone : ∀ s ∈ prms.streams, s.streamid ≠ prms.currentstreamid)
      {prms' : Params} (hstreams : prms'.streams = prms.streams)
      (hlast : prms'.laststreamid = prms.laststreamid) (hbuffer : prms'.buffer = [])
      (hbuf' : prms'.processBuf = .streamHeader) (hrem' : prms'.curreadbuffrem = streamHeaderLen) :
      ReadCase sha1 prms b opened writes prms'
        [.packet prms.currentstreamid (prms.buffer ++ b)] false
  | stream (hrem : b.length = prms.curreadbuffrem) (hbuf : prms.processBuf = .streamData)
      {s : Stream} (hs : s ∈ prms.streams) (hid : s.streamid = prms.currentstreamid)
      {o : Outcome} (ho : s.process sha1 (prms.buffer ++ b) opened writes = some o)
      {prms' : Params}
      (hstreams : prms'.streams = (prms.withOutcome prms.currentstreamid o.stream).streams)
      (hlast : prms'.laststreamid = prms.laststreamid) (hbuffer : prms'.buffer = [])
      (hbuf' : prms'.processBuf = .streamHeader) (hrem' : prms'.curreadbuffrem = streamHeaderLen) :
      ReadCase sha1 prms b opened writes prms'
        (.packet prms.currentstreamid (prms.buffer ++ b) :: o.log) o.stop

theorem readCase (hlen : b.length ≤ prms.curreadbuffrem)
    (h : prms.handleDecompressedData sha1 b opened writes = some (prms', log', stop)) :
    ReadCase sha1 prms b opened writes prms' log' stop := by
  unfold Params.handleDecompressedData at h
  dsimp only at h
  split at h
  next hrem =>
    cases h
    exact .part (by omega)
  next hrem =>
    have hfull : b.length = prms.curreadbuffrem := by omega
    split at h
    next hbuf =>
      cases h
      exact .header hfull hbuf rfl rfl rfl rfl rfl rfl rfl
    next hbuf =>
      unfold Params.processStreamData at h
      dsimp only at h
      split at h
      next hfind =>
        cases h
        refine .unknown hfull hbuf ?_ rfl rfl rfl rfl rfl
        intro s hs heq
        exact List.find?_eq_none.mp hfind s hs (decide_eq_true heq)
      next s hfind =>
        obtain ⟨o, ho, heq⟩ := Option.map_eq_some_iff.mp h
        cases heq
        have hid : decide (s.streamid = prms.currentstreamid) = true := by
          have := List.find?_some hfind
          exact this
        exact .stream hfull hbuf (List.mem_of_find?_eq_some hfind) (of_decide_eq_true hid) ho
          rfl rfl rfl rfl rfl

theorem Framed.read (h : Framed prms log input) (hcase : ReadCase sha1 prms b opened writes prms'
    log' stop) : Framed prms' (log ++ log') (input ++ b) := by
  have hdone : ∀ {rest : List Event}, prms.processBuf = .streamData →
      b.length = prms.curreadbuffrem → packets rest = [] → prms'.buffer = [] →
      prms'.processBuf = .streamHeader → prms'.curreadbuffrem = streamHeaderLen →
      Framed prms' (log ++ .packet prms.currentstreamid (prms.buffer ++ b) :: rest)
        (input ++ b) := by
    intro rest hbuf hrem hrest hbuffer hbuf' hrem'
    cases h with
    | header hbuf₀ => cases hbuf.symm.trans hbuf₀
    | data _ hlen _ _ hinput =>
      refine .header hbuf' ?_ ?_ ?_
      · rw [hbuffer, hrem']
        rfl
      · rw [hrem']
        decide
      · have hpacket : packets (.packet prms.currentstreamid (prms.buffer ++ b) :: rest) =
            encode prms.currentstreamid (prms.buffer ++ b) ++ packets rest := rfl
        have hlen' : (prms.buffer ++ b).length = prms.curreadbufflen := by
          rw [List.length_append]
          omega
        rw [hbuffer, packets_append, hpacket, hrest, hinput]
        unfold encode
        rw [hlen']
        simp only [List.append_assoc, List.append_nil]
  cases hcase with
  | part hrem =>
    rw [List.append_nil]
    cases h with
    | header hbuf hlen hrem' hinput =>
      refine .header hbuf ?_ (Nat.sub_pos_of_lt hrem) ?_
      · show (prms.buffer ++ b).length + (prms.curreadbuffrem - b.length) = streamHeaderLen
        rw [List.length_append]
        omega
      · rw [hinput, List.append_assoc]
    | data hbuf hlen hrem' hmax hinput =>
      refine .data hbuf ?_ (Nat.sub_pos_of_lt hrem) hmax ?_
      · show (prms.buffer ++ b).length + (prms.curreadbuffrem - b.length) = prms.curreadbufflen
        rw [List.length_append]
        omega
      · rw [hinput]
        simp only [List.append_assoc]
  | header hrem hbuf hstreams hlast hid hbuffer hbuf' hlen hrem' =>
    rw [List.append_nil]
    cases h with
    | data hbuf₀ => cases hbuf.symm.trans hbuf₀
    | header _ hlen₀ _ hinput =>
      have hsix : (prms.buffer ++ b).length = 6 := by
        rw [List.length_append]
        show _ = streamHeaderLen
        omega
      have hin : input ++ b = packets log ++ (prms.buffer ++ b) := by
        rw [hinput, List.append_assoc]
      generalize prms.buffer ++ b = hdr at hsix hid hlen hin
      have htake : (hdr.take 4).length = 4 := List.length_take_of_le (by omega)
      have hdrop : ((hdr.drop 4).take 2).length = 2 :=
        List.length_take_of_le (by rw [List.length_drop]; omega)
      have hlt := ofLE_lt ((hdr.drop 4).take 2)
      rw [hdrop] at hlt
      refine .data hbuf' ?_ ?_ ?_ ?_
      · rw [hbuffer, hrem']
        exact Nat.zero_add _
      · rw [hrem', hlen]
        exact Nat.succ_pos _
      · rw [hlen]
        exact hlt
      · have hid' : toLE 4 (ofLE (hdr.take 4)) = hdr.take 4 := by
          have := toLE_ofLE (hdr.take 4)
          rw [htake] at this
          exact this
        have hlen' : toLE 2 (ofLE ((hdr.drop 4).take 2)) = (hdr.drop 4).take 2 := by
          have := toLE_ofLE ((hdr.drop 4).take 2)
          rw [hdrop] at this
          exact this
        have hall : (hdr.drop 4).take 2 = hdr.drop 4 :=
          List.take_of_length_le (by rw [List.length_drop]; omega)
        rw [hin, hid, hlen, hbuffer, Nat.add_sub_cancel, hid', hlen', hall, List.append_nil,
          List.take_append_drop]
  | unknown hrem hbuf hnone hstreams hlast hbuffer hbuf' hrem' =>
    exact hdone hbuf hrem rfl hbuffer hbuf' hrem'
  | stream hrem hbuf hs hid ho hstreams hlast hbuffer hbuf' hrem' =>
    exact hdone hbuf hrem (packets_of_request (process_request ho)) hbuffer hbuf' hrem'

end

/-! ## The invariant -/

/-- A request can go wrong where the time to wait for the answer is over or the answer cannot be
written; an error of the server reads as none where 100 more is 2^32; and ids repeat. -/
def Act.Fine (st : State) : Act → Prop
  | .giveUp => False
  | .command _ replied => replied = true ∧ st.prms.laststreamid + 1 < 2 ^ 32
  | .read b _ _ => ∀ s ∈ st.prms.streams, s.streamid = st.prms.currentstreamid →
      s.processData = .headers → st.prms.processBuf = .streamData →
        b.length = st.prms.curreadbuffrem → respLen ≤ (st.prms.buffer ++ b).length →
          (DownloadResp.ofBytes (st.prms.buffer ++ b)).error ≠ 2 ^ 32 - 100
  | _ => True

structure Inv (sha1 : Bytes → Bytes) (st : State) : Prop where
  framed : Framed st.prms st.log st.input
  streaming : Streaming sha1 st.prms.streams st.prms.laststreamid st.running st.log
  asking : Asking st

namespace Inv

variable {sha1 : Bytes → Bytes} {st st' : State} {e : Act}

theorem init : Inv sha1 .init := by
  refine ⟨Framed.init, ⟨List.nodup_nil, List.nodup_nil, nofun, nofun, nofun, fun n _ => Or.inl rfl⟩,
    ⟨fun _ => ⟨rfl, rfl⟩, nofun, nofun, nofun, nofun, fun n _ => ⟨rfl, nofun⟩⟩⟩

/-- A call returns. -/
theorem returned {n : Nat} {ok : Bool} (h : Inv sha1 st) (hprms : st'.prms = st.prms)
    (hrun : st'.running = st.running) (hinput : st'.input = st.input)
    (hlog : st'.log = st.log ++ [.returned n ok]) (hask : Asking st') : Inv sha1 st' := by
  refine ⟨?_, ?_, hask⟩
  · rw [hprms, hinput]
    refine h.framed.congr rfl rfl rfl rfl rfl ?_
    rw [hlog, packets_append]
    exact List.append_nil _
  · rw [hprms, hrun]
    refine h.streaming.of_views ?_
    intro m
    rw [hlog, view_append]
    rfl

/-- The task of a request is taken when nothing has been seen of it. -/
theorem command_caller (h : Inv sha1 st) {n : Nat} {task : Task} {tasks : List (Nat × Task)}
    (htasks : st.tasks = (n, task) :: tasks) :
    st.caller = some n ∧ tasks = [] ∧ st.answers = [] ∧ view n st.log = .empty := by
  cases hcaller : st.caller with
  | none =>
    rw [(h.asking.idle hcaller).1] at htasks
    cases htasks
  | some m =>
    rcases h.asking.waiting m hcaller with ⟨hans, hempty, hnil | ⟨task', hone⟩⟩ | ⟨hnil, -⟩
    · rw [hnil] at htasks
      cases htasks
    · rw [hone] at htasks
      cases htasks
      exact ⟨rfl, rfl, hans, hempty⟩
    · rw [hnil] at htasks
      cases htasks

/-- The answer to a task is 0 if and only if the request has been sent. -/
theorem answered (h : Inv sha1 st) {n : Nat} {task : Task} {tasks : List (Nat × Task)}
    {ch : Nat} {log : List Event} (htasks : st.tasks = (n, task) :: tasks)
    (hlog : ∀ e ∈ log, e.request? = some n)
    (hch : ch = 0 ↔ view n (st.log ++ log) ≠ .empty)
    (hcaller : st'.caller = st.caller) (htasks' : st'.tasks = tasks)
    (hans : st'.answers = st.answers ++ [ch]) (hreq : st'.requests = st.requests)
    (hlog' : st'.log = st.log ++ log) : Asking st' := by
  obtain ⟨hn, rfl, hnil, hempty⟩ := h.command_caller htasks
  have hother : ∀ {m : Nat}, n ≠ m → view m st'.log = view m st.log := by
    intro m hne
    rw [hlog', view_append, View.foldl_of_ne hlog hne]
  have hret : ∀ (m : Nat) (ok : Bool), .returned m ok ∈ st'.log → .returned m ok ∈ st.log := by
    intro m ok hm
    rw [hlog'] at hm
    rcases List.mem_append.mp hm with hm | hm
    · exact hm
    · cases hlog _ hm
  obtain ⟨hlt, hnot⟩ := h.asking.fresh n hn
  refine ⟨?_, ?_, ?_, ?_, ?_, ?_⟩
  · rw [hcaller, hn]
    exact nofun
  · intro m hm
    rw [hcaller] at hm
    obtain ⟨hlt', hnot'⟩ := h.asking.fresh m hm
    rw [hreq]
    exact ⟨hlt', fun ok hmem => hnot' ok (hret m ok hmem)⟩
  · intro m hm
    rw [hcaller, hn] at hm
    obtain rfl := Option.some.inj hm
    refine Or.inr ⟨htasks', ch, ?_, ?_⟩
    · rw [hans, hnil]
      rfl
    · rw [hlog']
      exact hch
  · intro m hm
    have hm' := hret m true hm
    rw [hother (fun heq => hnot true (heq ▸ hm'))]
    exact h.asking.accepted m hm'
  · intro m hm
    have hm' := hret m false hm
    rw [hother (fun heq => hnot false (heq ▸ hm'))]
    exact h.asking.refused m hm'
  · intro m hm
    rw [hreq] at hm
    obtain ⟨hempty', hnot'⟩ := h.asking.later m hm
    rw [hother (by omega)]
    exact ⟨hempty', fun ok hmem => hnot' ok (hret m ok hmem)⟩

/-- `handle_file_download` and `handle_file_download_nm` -/
theorem download (h : Inv sha1 st) (hrun : st.running = true) {n : Nat} {task : Task}
    {tasks : List (Nat × Task)} {line : Nat → Line} {sent : Bool} {prms : Params}
    {log : List Event} {ret : Int} (htasks : st.tasks = (n, task) :: tasks)
    (hlast : st.prms.laststreamid + 1 < 2 ^ 32)
    (hdata : st.prms.startDownload n line sent = (prms, log, ret)) :
    Inv sha1 { st with
      running := decide (0 ≤ ret) && true
      prms := prms
      tasks := tasks
      answers := st.answers ++ [answerOf ret]
      log := st.log ++ log } := by
  obtain ⟨-, -, -, hempty⟩ := h.command_caller htasks
  have hstreaming := h.streaming
  rw [hrun] at hstreaming
  have hmod : (st.prms.laststreamid + 1) % 2 ^ 32 = st.prms.laststreamid + 1 :=
    Nat.mod_eq_of_lt hlast
  unfold Params.startDownload at hdata
  cases sent with
  | true =>
    cases hdata
    refine ⟨?_, ?_, ?_⟩
    · refine h.framed.congr rfl rfl rfl rfl rfl ?_
      rw [packets_append]
      exact List.append_nil _
    · refine @Streaming.opened sha1 st.prms.streams st.prms.laststreamid st.log
        { st.prms.createStream n with active := true } hstreaming hempty ?_ rfl rfl _
      show st.prms.laststreamid < (st.prms.laststreamid + 1) % 2 ^ 32
      rw [hmod]
      exact Nat.lt_succ_self _
    · refine h.answered htasks ?_ ?_ rfl rfl rfl rfl rfl
      · intro e he
        rw [List.mem_singleton.mp he]
        rfl
      · refine ⟨?_, fun _ => rfl⟩
        intro _ hview
        rw [view_append, hempty] at hview
        have hid : View.after n .empty (.opened n ((st.prms.laststreamid + 1) % 2 ^ 32)
            (line ((st.prms.laststreamid + 1) % 2 ^ 32))) = .empty := hview
        dsimp only [View.after] at hid
        rw [if_pos rfl] at hid
        cases congrArg View.streamid hid
  | false =>
    simp only [Bool.false_eq_true, reduceIte] at hdata
    cases hdata
    refine ⟨?_, ?_, ?_⟩
    · rw [List.append_nil]
      exact h.framed.congr rfl rfl rfl rfl rfl rfl
    · show Streaming sha1 _ _ false (st.log ++ [])
      rw [List.append_nil]
      refine @Streaming.unsent sha1 st.prms.streams st.prms.laststreamid st.log
        { st.prms.createStream n with active := false } hstreaming hempty ?_ rfl
      show st.prms.laststreamid < (st.prms.laststreamid + 1) % 2 ^ 32
      rw [hmod]
      exact Nat.lt_succ_self _
    · refine h.answered htasks (show ∀ e ∈ ([] : List Event), e.request? = some n from nofun) ?_
        rfl rfl rfl rfl rfl
      rw [List.append_nil]
      exact ⟨nofun, fun hne => absurd hempty hne⟩

/-- A read leaves the requests as they are. -/
theorem read_views (h : Inv sha1 st) (hrun : st.running = true) {b : Bytes} {opened stop : Bool}
    {writes : Writes} {prms : Params} {log : List Event}
    (hcase : ReadCase sha1 st.prms b opened writes prms log stop) {n : Nat} :
    (view n st.log = .empty → view n (st.log ++ log) = .empty) ∧
      ∀ ok, .returned n ok ∉ log := by
  have hstreaming := h.streaming
  rw [hrun] at hstreaming
  cases hcase with
  | part | header => exact ⟨fun hempty => by rw [List.append_nil]; exact hempty, nofun⟩
  | unknown hrem hbuf hnone =>
    refine ⟨fun hempty => (hstreaming.view_unknown hnone n).trans hempty, ?_⟩
    intro ok hmem
    cases List.mem_singleton.mp hmem
  | @stream _ _ s hs hid o ho =>
    have hlog := process_request ho
    refine ⟨?_, ?_⟩
    · intro hempty
      rw [← hid, hstreaming.view_known hs hlog (hstreaming.request_ne hempty s hs)]
      exact hempty
    · intro ok hmem
      rcases List.mem_cons.mp hmem with heq | hmem
      · cases heq
      · cases hlog _ hmem

theorem read_streaming (h : Inv sha1 st) (hrun : st.running = true) {b : Bytes}
    {opened stop : Bool} {writes : Writes} {prms : Params} {log : List Event}
    (hfine : (Act.read b opened writes).Fine st)
    (hcase : ReadCase sha1 st.prms b opened writes prms log stop) :
    Streaming sha1 prms.streams prms.laststreamid (!stop) (st.log ++ log) := by
  have hstreaming := h.streaming
  rw [hrun] at hstreaming
  cases hcase with
  | part =>
    rw [List.append_nil]
    exact hstreaming
  | header _ _ hstreams hlast =>
    rw [List.append_nil, hstreams, hlast]
    exact hstreaming
  | unknown _ _ hnone hstreams hlast =>
    rw [hstreams, hlast]
    exact hstreaming.of_views fun n => hstreaming.view_unknown hnone n
  | @stream hrem hbuf s hs hid o ho prms' hstreams hlast =>
    have hact : s.active = true := by
      cases hact : s.active with
      | true => rfl
      | false => cases (hstreaming.passive s hs hact).1
    rw [hstreams, hlast, ← hid]
    exact hstreaming.packet hs hact (process_request ho)
      ((hstreaming.active s hs hact).leaves
        (fun hheaders hlen => hfine s hs hid hheaders hbuf hrem hlen) ho)

theorem free_views (h : Inv sha1 st) {s : Stream} {streams : List Stream}
    (hs : st.prms.streams = s :: streams) {n : Nat} :
    (view n st.log = .empty → view n (st.log ++ s.freeStream) = .empty) ∧
      packets s.freeStream = [] ∧ ∀ ok, .returned n ok ∉ s.freeStream := by
  have hmem : s ∈ st.prms.streams := by
    rw [hs]
    exact List.mem_cons_self
  have hlog : ∀ e ∈ s.freeStream, e.request? = some s.request := by
    intro e he
    rcases List.mem_append.mp he with he | he
    · split at he
      · rw [List.mem_singleton.mp he]
        rfl
      · cases he
    · exact fileDownloadFree_request s _ e he
  refine ⟨?_, packets_of_request hlog, fun ok hret => nomatch hlog _ hret⟩
  intro hempty
  rw [view_append]
  rcases Classical.em (s.request = n) with rfl | hne
  · cases hact : s.active with
    | true =>
      have := (h.streaming.active s hmem hact).streamid
      rw [hempty] at this
      cases this
    | false =>
      unfold Stream.freeStream
      rw [List.foldl_append, View.foldl_fileDownloadFree, hact, if_neg nofun]
      exact hempty
  · rw [View.foldl_of_ne hlog hne]
    exact hempty

theorem step (h : Inv sha1 st) (hs : Step sha1 st e st') (hfine : e.Fine st) : Inv sha1 st' := by
  cases hs with
  | @submit task hcaller =>
    obtain ⟨htasks, hans⟩ := h.asking.idle hcaller
    obtain ⟨hempty, hnot⟩ := h.asking.later st.requests (Nat.le_refl _)
    refine ⟨h.framed, h.streaming, ⟨nofun, ?_, ?_, h.asking.accepted, h.asking.refused, ?_⟩⟩
    · intro n hn
      obtain rfl := Option.some.inj hn
      exact ⟨Nat.lt_succ_self _, hnot⟩
    · intro n hn
      obtain rfl := Option.some.inj hn
      refine Or.inl ⟨hans, hempty, Or.inr ⟨task, ?_⟩⟩
      show st.tasks ++ [(st.requests, task)] = [(st.requests, task)]
      rw [htasks]
      rfl
    · exact fun n hn => h.asking.later n (Nat.le_of_succ_le hn)
  | submitFails hcaller =>
    obtain ⟨htasks, hans⟩ := h.asking.idle hcaller
    obtain ⟨hempty, hnot⟩ := h.asking.later st.requests (Nat.le_refl _)
    have hok : false = true ↔ view st.requests st.log ≠ .empty :=
      ⟨nofun, fun hne => absurd hempty hne⟩
    refine h.returned rfl rfl rfl rfl ?_
    exact h.asking.returned (Nat.lt_succ_self _) (Nat.le_succ _) hnot hok hcaller htasks hans rfl
  | @command sent replied n task tasks prms log ret hrun htasks hdata =>
    obtain ⟨rfl, hlast⟩ := hfine
    cases task with
    | exit =>
      cases hdata
      obtain ⟨-, -, -, hempty⟩ := h.command_caller htasks
      refine ⟨?_, ?_, ?_⟩
      · show Framed st.prms (st.log ++ []) st.input
        rw [List.append_nil]
        exact h.framed
      · show Streaming sha1 _ _ false (st.log ++ [])
        rw [List.append_nil]
        exact h.streaming.stopped
      · refine h.answered htasks (show ∀ e ∈ ([] : List Event), e.request? = some n from nofun) ?_
          rfl rfl rfl rfl rfl
        rw [List.append_nil]
        exact ⟨nofun, fun hne => absurd hempty hne⟩
    | fileDwl fileid =>
      have hstart : st.prms.startDownload n (.dwl · fileid) sent = (prms, log, ret) := hdata
      exact h.download hrun htasks hlast hstart
    | fileDwlNm fileid sha1hex =>
      have hstart : st.prms.startDownload n (.dwlnm · fileid sha1hex) sent = (prms, log, ret) :=
        hdata
      exact h.download hrun htasks hlast hstart
  | commandLost hrun =>
    refine ⟨h.framed, h.streaming.stopped, ?_⟩
    exact h.asking.of_log rfl rfl rfl rfl (fun _ _ => Iff.rfl) fun _ => Iff.rfl
  | @answer n ch answers hcaller hans =>
    obtain ⟨hlt, hnot⟩ := h.asking.fresh n hcaller
    rcases h.asking.waiting n hcaller with ⟨hnil, -⟩ | ⟨htasks, ch', hone, hch⟩
    · rw [hnil] at hans
      cases hans
    · rw [hone] at hans
      cases hans
      refine h.returned rfl rfl rfl rfl ?_
      refine h.asking.returned hlt (Nat.le_refl _) hnot ?_ rfl htasks rfl rfl
      rw [decide_eq_true_iff]
      exact hch
  | @hangup n hcaller hans hrun =>
    obtain ⟨hlt, hnot⟩ := h.asking.fresh n hcaller
    rcases h.asking.waiting n hcaller with ⟨-, hempty, -⟩ | ⟨-, ch, hone, -⟩
    · have hok : false = true ↔ view n st.log ≠ .empty := ⟨nofun, fun hne => absurd hempty hne⟩
      refine h.returned rfl rfl rfl rfl ?_
      exact h.asking.returned hlt (Nat.le_refl _) hnot hok rfl rfl hans rfl
    · rw [hone] at hans
      cases hans
  | giveUp => cases hfine
  | @read b opened writes prms log stop hrun hne hlen hdata =>
    have hcase := readCase hlen hdata
    refine ⟨h.framed.read hcase, h.read_streaming hrun hfine hcase, ?_⟩
    refine h.asking.of_log rfl rfl rfl rfl ?_ ?_
    · intro n ok
      refine ⟨?_, fun hmem => List.mem_append_left _ hmem⟩
      intro hmem
      rcases List.mem_append.mp hmem with hmem | hmem
      · exact hmem
      · exact absurd hmem ((h.read_views hrun hcase).2 ok)
    · intro n
      refine ⟨?_, (h.read_views hrun hcase).1⟩
      intro hempty
      refine Classical.byContradiction ?_
      intro hne'
      dsimp only at hempty
      rw [view_append] at hempty
      exact View.foldl_ne_empty hne' hempty
  | fail =>
    refine ⟨h.framed, h.streaming.stopped, ?_⟩
    exact h.asking.of_log rfl rfl rfl rfl (fun _ _ => Iff.rfl) fun _ => Iff.rfl
  | @free s streams hrun hstreams =>
    have hstreaming := h.streaming
    rw [hrun, hstreams] at hstreaming
    refine ⟨?_, ?_, ?_⟩
    · refine h.framed.congr rfl rfl rfl rfl rfl ?_
      rw [packets_append, (h.free_views hstreams (n := 0)).2.1, List.append_nil]
    · show Streaming sha1 streams st.prms.laststreamid st.running (st.log ++ s.freeStream)
      rw [hrun]
      exact hstreaming.freed
    · refine h.asking.of_log rfl rfl rfl rfl ?_ ?_
      · intro n ok
        refine ⟨?_, fun hmem => List.mem_append_left _ hmem⟩
        intro hmem
        rcases List.mem_append.mp hmem with hmem | hmem
        · exact hmem
        · exact absurd hmem ((h.free_views hstreams).2.2 ok)
      · intro n
        refine ⟨?_, (h.free_views hstreams).1⟩
        intro hempty
        refine Classical.byContradiction ?_
        intro hne'
        dsimp only at hempty
        rw [view_append] at hempty
        exact View.foldl_ne_empty hne' hempty

/-- Nothing has been seen of a request, it has a stream, or its callback has been called. -/
theorem view_cases (h : Inv sha1 st) (n : Nat) :
    view n st.log = .empty ∨ (∃ s ∈ st.prms.streams, s.request = n ∧
      s.Follows st.running (view n st.log)) ∨ Settled sha1 (view n st.log) := by
  rcases Classical.em (∃ s ∈ st.prms.streams, s.request = n) with ⟨s, hs, rfl⟩ | hnone
  · cases hact : s.active with
    | true => exact Or.inr (Or.inl ⟨s, hs, rfl, h.streaming.active s hs hact⟩)
    | false => exact Or.inl (h.streaming.passive s hs hact).2
  · rcases h.streaming.closed n (fun s hs hn => hnone ⟨s, hs, hn⟩) with hempty | hsettled
    · exact Or.inl hempty
    · exact Or.inr (Or.inr hsettled)

end Inv

/-! ## Demultiplexing -/

/-- What is promised of a connection. -/
structure Demux (sha1 : Bytes → Bytes) (st : State) : Prop where
  atMostOnce : ∀ n, (view n st.log).calls.length ≤ 1
  /-- A request that was accepted is called back, before its stream is gone. -/
  once : ∀ n, .returned n true ∈ st.log → (∀ s ∈ st.prms.streams, s.request ≠ n) →
    ∃ r, (view n st.log).calls = [r]
  never : ∀ n, .returned n false ∈ st.log → (view n st.log).calls = []
  /-- The packets that are seen are those that the server sent, however the bytes arrive. -/
  sent : ∃ rest, Unfinished rest ∧ st.input = packets st.log ++ rest
  written : ∀ n, (view n st.log).written <+: (view n st.log).data ∧
    ((view n st.log).calls = [] → (view n st.log).written = (view n st.log).data)
  success : ∀ n a, (view n st.log).announced = some a → a.size ≠ 0 →
    ((view n st.log).Succeeded ↔ (view n st.log).written.length = a.size ∧
      sha1 (view n st.log).written = a.sha1hex) ∧
    ((view n st.log).Succeeded → (view n st.log).written = (view n st.log).data)
  /-- When the thread is out of its loop all streams go. -/
  freed : st.running = false → ∃ st', Relation.ReflTransGen (fun st st' => Step sha1 st .free st')
    st st' ∧ st'.prms.streams = []

section

variable {sha1 : Bytes → Bytes} {st : State}

theorem exists_freed (streams : List Stream) (hrun : st.running = false)
    (hs : st.prms.streams = streams) :
    ∃ st', Relation.ReflTransGen (fun st st' => Step sha1 st .free st') st st' ∧
      st'.prms.streams = [] := by
  induction streams generalizing st with
  | nil => exact ⟨st, .refl, hs⟩
  | cons s streams ih =>
    obtain ⟨st', hreach, hnil⟩ := @ih { st with
      prms := { st.prms with streams := streams }, log := st.log ++ s.freeStream } hrun rfl
    exact ⟨st', .head (.free hrun hs) hreach, hnil⟩

theorem Inv.demux (h : Inv sha1 st) : Demux sha1 st := by
  refine ⟨?_, ?_, ?_, h.framed.unfinished, ?_, ?_, fun hrun => exists_freed _ hrun rfl⟩
  · intro n
    rcases h.view_cases n with hempty | ⟨s, hs, hn, hfollows⟩ | hsettled
    · rw [hempty]
      exact Nat.zero_le 1
    · rw [hfollows.calls]
      exact Nat.zero_le 1
    · obtain ⟨r, hr⟩ := hsettled.once
      rw [hr]
      exact Nat.le_refl 1
  · intro n hret hnone
    rcases h.view_cases n with hempty | ⟨s, hs, hn, -⟩ | hsettled
    · exact absurd hempty (h.asking.accepted n hret)
    · exact absurd hn (hnone s hs)
    · exact hsettled.once
  · intro n hret
    rw [h.asking.refused n hret]
    rfl
  · intro n
    rcases h.view_cases n with hempty | ⟨s, hs, hn, hfollows⟩ | hsettled
    · rw [hempty]
      exact ⟨List.prefix_refl _, fun _ => rfl⟩
    · have hwritten := (@Stream.Follows.unsettled sha1 s _ _ hfollows).1
      exact ⟨hwritten ▸ List.prefix_refl _, fun _ => hwritten⟩
    · refine ⟨hsettled.written, ?_⟩
      intro hnil
      obtain ⟨r, hr⟩ := hsettled.once
      rw [hr] at hnil
      cases hnil
  · intro n a ha hsize
    rcases h.view_cases n with hempty | ⟨s, hs, hn, hfollows⟩ | hsettled
    · rw [hempty] at ha
      cases ha
    · have hfail : ¬(view n st.log).Succeeded := by
        rintro ⟨r, hr, -⟩
        rw [hfollows.calls] at hr
        cases hr
      have hshort := (@Stream.Follows.unsettled sha1 s _ _ hfollows).2 a ha hsize
      exact ⟨⟨fun hs => absurd hs hfail, fun hw => absurd hw hshort⟩, fun hs => absurd hs hfail⟩
    · exact ⟨hsettled.success a ha hsize, hsettled.whole a ha hsize⟩

end

/-- A step under a condition on the state before it. -/
def StepsWhen (sha1 : Bytes → Bytes) (cond : State → Act → Prop) (st st' : State) : Prop :=
  ∃ e, Step sha1 st e st' ∧ cond st e

/-- The streams of a connection are kept apart, whatever the server sends and in whatever pieces,
as long as nobody who makes a request stops to wait for the answer. -/
theorem download_demux {sha1 : Bytes → Bytes} {st : State}
    (hrun : Relation.ReflTransGen (StepsWhen sha1 fun st e => e.Fine st) .init st) :
    Demux sha1 st := by
  have hinv : Inv sha1 st := by
    induction hrun with
    | refl => exact Inv.init
    | tail _ hs ih =>
      obtain ⟨e, hs, hfine⟩ := hs
      exact ih.step hs hfine
  exact hinv.demux

instance (st : State) (e : Act) : Decidable (e.Fine st) :=
  match e with
  | .giveUp => isFalse id
  | .command _ replied =>
    inferInstanceAs (Decidable (replied = true ∧ st.prms.laststreamid + 1 < 2 ^ 32))
  | .read b _ _ =>
    inferInstanceAs (Decidable (∀ s ∈ st.prms.streams, s.streamid = st.prms.currentstreamid →
      s.processData = .headers → st.prms.processBuf = .streamData →
        b.length = st.prms.curreadbuffrem → respLen ≤ (st.prms.buffer ++ b).length →
          (DownloadResp.ofBytes (st.prms.buffer ++ b)).error ≠ 2 ^ 32 - 100))
  | .submit _ | .submitFails | .commandLost | .answer | .hangup | .fail | .free => isTrue trivial

/-- A run of acts that meet the condition. -/
def State.run (sha1 : Bytes → Bytes) : State → List Act → Option State
  | st, [] => some st
  | st, e :: acts => if e.Fine st then (st.next sha1 e).bind fun st => st.run sha1 acts else none

theorem State.reaches_run {sha1 : Bytes → Bytes} {st st' : State} {acts : List Act}
    (h : st.run sha1 acts = some st') :
    Relation.ReflTransGen (StepsWhen sha1 fun st e => e.Fine st) st st' := by
  induction acts generalizing st with
  | nil =>
    cases h
    exact .refl
  | cons e acts ih =>
    obtain ⟨hfine, h⟩ := Option.ite_none_right_eq_some.mp h
    obtain ⟨st₁, hnext, hrun⟩ := Option.bind_eq_some_iff.mp h
    exact .head ⟨e, State.next_iff.mp hnext, hfine⟩ (ih hrun)

/-- The checksum of `abcd`. -/
def sha1OfAbcd : Bytes :=
  [56, 49, 102, 101, 56, 98, 102, 101, 56, 55, 53, 55, 54, 99, 51, 101, 99, 98, 50, 50, 52, 50, 54,
    102, 56, 101, 53, 55, 56, 52, 55, 51, 56, 50, 57, 49, 55, 97, 99, 102]

/-- The checksum of `xyz`. -/
def sha1OfXyz : Bytes :=
  [54, 54, 98, 50, 55, 52, 49, 55, 100, 51, 55, 101, 48, 50, 52, 99, 52, 54, 53, 50, 54, 99, 50,
    102, 54, 100, 51, 53, 56, 97, 55, 53, 52, 102, 99, 53, 53, 50, 102, 51]

/-- A checksum that is right for these two files. -/
def sha1OfTwo (b : Bytes) : Bytes := if b = [97, 98, 99, 100] then sha1OfAbcd else sha1OfXyz

/-- The headers of a file. -/
def headersOf (size : Nat) (sha1hex : Bytes) : Bytes :=
  toLE 4 0 ++ toLE 4 0 ++ toLE 8 size ++ toLE 8 0 ++ toLE 8 0 ++ toLE 8 0 ++ toLE 8 0 ++ sha1hex

/-- Two files arrive in turns, the header of a packet and a packet in two pieces.  The disk is
full when the second is written; a request that was refused in between has no stream, and a last
one is taken up before the connection fails. -/
def turns : List Act :=
  [.submit (.fileDwl 7), .command true true, .answer,
    .submit (.fileDwl 9), .command true true, .answer,
    .submitFails,
    .read [1, 0] true [], .read [0, 0, 89, 0] true [],
    .read (headersOf 4 sha1OfAbcd ++ [97, 98]) true [.ok 2],
    .read [2, 0, 0, 0, 88, 0] true [], .read (headersOf 3 sha1OfXyz ++ [120]) true [.ok 1],
    .read [1, 0, 0, 0, 1, 0] true [], .read [99] true [], .read [100] true [.ok 1, .ok 1],
    .read [2, 0, 0, 0, 1, 0] true [], .read [121, 122] true [.ok 1, .error nospc],
    .submit (.fileDwlNm 12 sha1OfXyz), .command true true, .answer,
    .fail, .free]

theorem download_demux_turns :
    ∃ st, Relation.ReflTransGen (StepsWhen sha1OfTwo fun st e => e.Fine st) .init st ∧
      (.returned 0 true ∈ st.log ∧ (view 0 st.log).calls.map AsyncResult.error = [0] ∧
        (view 0 st.log).written = [97, 98, 99, 100]) ∧
      (.returned 1 true ∈ st.log ∧ (view 1 st.log).calls.map AsyncResult.error = [errorDiskFull] ∧
        (view 1 st.log).written = [120, 121] ∧ (view 1 st.log).data = [120, 121, 122]) ∧
      (.returned 2 false ∈ st.log ∧ (view 2 st.log).calls = []) ∧
      (.returned 3 true ∈ st.log ∧ (view 3 st.log).calls.map AsyncResult.error = [errorNet]) ∧
      Demux sha1OfTwo st := by
  have hsome : (State.init.run sha1OfTwo turns).isSome := by decide +kernel
  obtain ⟨st, hst⟩ := Option.isSome_iff_exists.mp hsome
  have hend : ∀ st ∈ State.init.run sha1OfTwo turns,
      (.returned 0 true ∈ st.log ∧ (view 0 st.log).calls.map AsyncResult.error = [0] ∧
        (view 0 st.log).written = [97, 98, 99, 100]) ∧
      (.returned 1 true ∈ st.log ∧ (view 1 st.log).calls.map AsyncResult.error = [errorDiskFull] ∧
        (view 1 st.log).written = [120, 121] ∧ (view 1 st.log).data = [120, 121, 122]) ∧
      (.returned 2 false ∈ st.log ∧ (view 2 st.log).calls = []) ∧
      (.returned 3 true ∈ st.log ∧
        (view 3 st.log).calls.map AsyncResult.error = [errorNet]) := by
    decide +kernel
  have hreach := State.reaches_run hst
  obtain ⟨hfirst, hsecond, hthird, hlast⟩ := hend st hst
  exact ⟨st, hreach, hfirst, hsecond, hthird, hlast, download_demux hreach⟩

/-- Who waits too long for the answer is told that the request failed; the thread takes it up all
the same, and calls back. -/
theorem refused_called_back :
    ¬∀ (sha1 : Bytes → Bytes) (st : State),
      Relation.ReflTransGen (StepsWhen sha1 fun _ _ => True) .init st → Demux sha1 st := by
  intro h
  have h₁ := Relation.ReflTransGen.refl (r := StepsWhen sha1OfTwo fun _ _ => True)
    (a := .init) |>.tail ⟨.submit (.fileDwl 7), .submit rfl, trivial⟩
  have h₂ := h₁.tail ⟨.giveUp, .giveUp rfl, trivial⟩
  have h₃ := h₂.tail ⟨.command true true, .command rfl rfl rfl, trivial⟩
  have h₄ := h₃.tail ⟨.fail, .fail rfl, trivial⟩
  have h₅ := h₄.tail ⟨.free, .free rfl rfl, trivial⟩
  have hnever := (h _ _ h₅).never 0 (by decide)
  exact absurd hnever (by decide)

end PcloudClient.Pasyncnet
