/-
  Pasyncnet/Streams.lean --- downloads that share one connection (`pasyncnet.c`).

  A thread owns the connection.  Who wants a file writes a task into a socket pair and waits for
  one byte; the thread sends the request for a new stream and answers.  The server cuts the
  files into packets, each with the id of its stream, and the thread writes them to the files and
  calls back.  What is left out is the compression, the grouping of requests, and the statements
  for the database that the headers of a file lead to.
-/
import PcloudClient.Foundation.Bytes

set_option autoImplicit false

namespace PcloudClient.Pasyncnet

open PcloudClient.Bytes

/-! ## Constants -/

/-- `STREAM_HEADER_LEN`: 4 bytes stream id, 2 bytes length. -/
abbrev streamHeaderLen : Nat := 6

/-- `sizeof(task_file_download_resp_t)` -/
abbrev respLen : Nat := 88

/-- `PSYNC_ASYNC_ERR_FLAG_RETRY_AS_IS` -/
abbrev errFlagRetryAsIs : Nat := 2

/-- `PSYNC_ASYNC_ERROR_NET` -/
abbrev errorNet : Nat := 1

/-- `PSYNC_ASYNC_ERROR_FILE` -/
abbrev errorFile : Nat := 2

/-- `PSYNC_ASYNC_ERROR_DISK_FULL` -/
abbrev errorDiskFull : Nat := 3

/-- `PSYNC_ASYNC_ERROR_IO` -/
abbrev errorDisk : Nat := 4

/-- `PSYNC_ASYNC_ERROR_CHECKSUM` -/
abbrev errorChecksum : Nat := 5

/-- `P_NOSPC` -/
abbrev nospc : Int := 28

/-! ## Streams -/

/-- `psync_async_result_t` -/
structure AsyncResult where
  error : Nat
  errorflags : Nat
  size : Nat
  hash : Nat
  sha1hex : Bytes
  deriving DecidableEq, Repr

/-- `task_file_download_resp_t`, without what goes to the database only. -/
structure DownloadResp where
  error : Nat
  errorflags : Nat
  size : Nat
  hash : Nat
  sha1hex : Bytes
  deriving DecidableEq, Repr

/-- `memcpy` from the first bytes of a packet. -/
def DownloadResp.ofBytes (buff : Bytes) : DownloadResp where
  error := ofLE (buff.take 4)
  errorflags := ofLE ((buff.drop 4).take 4)
  size := ofLE ((buff.drop 8).take 8)
  hash := ofLE ((buff.drop 16).take 8)
  sha1hex := (buff.drop 48).take 40

/-- `process_data` of a stream. -/
inductive ProcessData where
  | headers
  | data
  deriving DecidableEq, Repr

/-- `stream_t` with its `file_download_add_t`.  The callback and its argument are the number of
the request; `sha1ctx` is what has been hashed; `fd` is set while the file is open. -/
structure Stream where
  request : Nat
  streamid : Nat
  /-- `STREAM_FLAG_ACTIVE` -/
  active : Bool
  processData : ProcessData
  size : Nat
  hash : Nat
  sha1hex : Bytes
  sha1ctx : Bytes
  remsize : Nat
  fd : Bool
  deriving DecidableEq, Repr

/-- The request line for a stream. -/
inductive Line where
  | dwl (strm fileid : Nat)
  | dwlnm (strm fileid : Nat) (sha1 : Bytes)
  deriving DecidableEq, Repr

/-- What can be seen from outside. -/
inductive Event where
  /-- The request for a file went to the server, with a stream of its own. -/
  | opened (request streamid : Nat) (line : Line)
  /-- A packet is complete. -/
  | packet (streamid : Nat) (payload : Bytes)
  /-- Bytes were written to the file of a request. -/
  | wrote (request : Nat) (b : Bytes)
  /-- The file of a request was deleted. -/
  | deleted (request : Nat)
  /-- The callback of a request was called. -/
  | called (request : Nat) (r : AsyncResult)
  /-- The call that made the request returned, with 0 or not. -/
  | returned (request : Nat) (ok : Bool)
  deriving DecidableEq, Repr

/-- What a packet does: its stream, unless it is closed, what is seen, and if the thread is to
stop. -/
structure Outcome where
  stream : Option Stream
  log : List Event
  stop : Bool
  deriving DecidableEq, Repr

namespace Stream

/-- `file_download_free` -/
def fileDownloadFree (s : Stream) (error : Nat) : List Event :=
  if s.fd ∧ error ≠ 0 then [.deleted s.request] else []

/-- `file_download_send_error`: the callback, and the stream is closed. -/
def fileDownloadSendError (s : Stream) (error errorflags : Nat) : List Event :=
  .called s.request ⟨error, errorflags, s.size, s.hash, s.sha1hex⟩ :: s.fileDownloadFree error

/-- `free_stream` -/
def freeStream (s : Stream) : List Event :=
  (if s.active then [.called s.request ⟨errorNet, errFlagRetryAsIs, 0, 0, []⟩] else []) ++
    s.fileDownloadFree errorNet

end Stream

/-- What the calls of `psync_file_write` return: an error, or how many bytes were written. -/
abbrev Writes := List (Except Int Nat)

/-- The loop that writes a packet: what reaches the file, and the error.  It has no result where a
write does not return, or says that it wrote more than it was given. -/
def writeLoop : Writes → Bytes → Option (Bytes × Option Int)
  | _, [] => some ([], none)
  | [], _ :: _ => none
  | .error err :: _, _ :: _ => some ([], some err)
  | .ok wr :: writes, x :: buff =>
    if wr ≤ (x :: buff).length then
      (writeLoop writes ((x :: buff).drop wr)).map fun (b, err) => ((x :: buff).take wr ++ b, err)
    else none

section

variable (sha1 : Bytes → Bytes)

/-- `process_file_download_data` -/
def processFileDownloadData (s : Stream) (buff : Bytes) (writes : Writes) : Option Outcome :=
  if s.remsize < buff.length then
    some ⟨none, s.fileDownloadSendError errorNet errFlagRetryAsIs, true⟩
  else
    let s := { s with remsize := s.remsize - buff.length, sha1ctx := s.sha1ctx ++ buff }
    (writeLoop writes buff).map fun
      | (b, some err) =>
        ⟨none, .wrote s.request b ::
          s.fileDownloadSendError (if err = nospc then errorDiskFull else errorDisk) 0, false⟩
      | (b, none) =>
        if s.remsize = 0 then
          -- `file_download_checksum`
          ⟨none, .wrote s.request b ::
            s.fileDownloadSendError (if sha1 s.sha1ctx = s.sha1hex then 0 else errorChecksum) 0,
            false⟩
        else ⟨some s, [.wrote s.request b], false⟩

/-- `process_file_download_headers`; `opened` is if the local file could be opened. -/
def processFileDownloadHeaders (s : Stream) (buff : Bytes) (opened : Bool) (writes : Writes) :
    Option Outcome :=
  if buff.length < respLen then some ⟨some s, [], true⟩
  else
    let r := DownloadResp.ofBytes buff
    let s := { s with size := r.size, hash := r.hash, sha1hex := r.sha1hex }
    if r.error ≠ 0 then
      some ⟨none, s.fileDownloadSendError ((r.error + 100) % 2 ^ 32) r.errorflags, false⟩
    else if opened = false then some ⟨none, s.fileDownloadSendError errorFile 0, false⟩
    else
      let s := { s with fd := true, remsize := s.size }
      if s.remsize = 0 then some ⟨none, s.fileDownloadSendError 0 0, false⟩
      else
        let s := { s with processData := .data, sha1ctx := [] }
        if respLen < buff.length then
          processFileDownloadData sha1 s (buff.drop respLen) writes
        else some ⟨some s, [], false⟩

/-- `s->process_data(s, ..)` -/
def Stream.process (s : Stream) (buff : Bytes) (opened : Bool) (writes : Writes) :
    Option Outcome :=
  match s.processData with
  | .headers => processFileDownloadHeaders sha1 s buff opened writes
  | .data => processFileDownloadData sha1 s buff writes

end

/-! ## The connection -/

/-- `process_buf` -/
inductive ProcessBuf where
  | streamHeader
  | streamData
  deriving DecidableEq, Repr

/-- `async_thread_params_t`; `buffer` is what of it has been read. -/
structure Params where
  streams : List Stream
  laststreamid : Nat
  processBuf : ProcessBuf
  buffer : Bytes
  curreadbuffrem : Nat
  curreadbufflen : Nat
  currentstreamid : Nat
  deriving DecidableEq, Repr

namespace Params

/-- `read_stream_header_setup` -/
def readStreamHeaderSetup (prms : Params) : Params :=
  { prms with buffer := [], curreadbuffrem := streamHeaderLen, processBuf := .streamHeader }

/-- The thread's parameters before its loop. -/
def init : Params := readStreamHeaderSetup ⟨[], 0, .streamHeader, [], 0, 0, 0⟩

/-- `create_stream` and the assignments that follow. -/
def createStream (prms : Params) (request : Nat) : Stream :=
  { request := request
    streamid := (prms.laststreamid + 1) % 2 ^ 32
    active := false
    processData := .headers
    size := 0
    hash := 0
    sha1hex := []
    sha1ctx := []
    remsize := 0
    fd := false }

/-- A download is requested; `sent` is if `send_data` succeeds.  A stream of which the server does
not know is not active. -/
def startDownload (prms : Params) (request : Nat) (line : Nat → Line) (sent : Bool) :
    Params × List Event × Int :=
  let s := prms.createStream request
  ({ prms with streams := prms.streams ++ [{ s with active := sent }], laststreamid := s.streamid },
    if sent then [.opened request s.streamid (line s.streamid)] else [], if sent then 0 else -1)

/-- `handle_file_download` -/
def handleFileDownload (prms : Params) (request fileid : Nat) (sent : Bool) :
    Params × List Event × Int :=
  prms.startDownload request (.dwl · fileid) sent

/-- `handle_file_download_nm` -/
def handleFileDownloadNm (prms : Params) (request fileid : Nat) (sha1hex : Bytes) (sent : Bool) :
    Params × List Event × Int :=
  prms.startDownload request (.dwlnm · fileid sha1hex) sent

/-- `process_stream_header` -/
def processStreamHeader (prms : Params) : Params :=
  let len := ofLE ((prms.buffer.drop 4).take 2)
  { prms with
    currentstreamid := ofLE (prms.buffer.take 4)
    buffer := []
    curreadbufflen := len + 1
    curreadbuffrem := len + 1
    processBuf := .streamData }

/-- The streams after a packet for one of them. -/
def withOutcome (prms : Params) (id : Nat) (stream : Option Stream) : Params :=
  { prms with
    streams :=
      match stream with
      | some s => prms.streams.map fun t => if t.streamid = id then s else t
      | none => prms.streams.filter fun t => t.streamid ≠ id }

/-- `process_stream_data`; the last is if the thread is to stop. -/
def processStreamData (sha1 : Bytes → Bytes) (prms : Params) (opened : Bool) (writes : Writes) :
    Option (Params × List Event × Bool) :=
  let id := prms.currentstreamid
  let packet := Event.packet id prms.buffer
  match prms.streams.find? fun s => s.streamid = id with
  | none => some (prms.readStreamHeaderSetup, [packet], false)
  | some s =>
    (s.process sha1 prms.buffer opened writes).map fun o =>
      ((prms.withOutcome id o.stream).readStreamHeaderSetup, packet :: o.log, o.stop)

/-- One turn of the loop of `handle_decompressed_data` that gets bytes. -/
def handleDecompressedData (sha1 : Bytes → Bytes) (prms : Params) (b : Bytes) (opened : Bool)
    (writes : Writes) : Option (Params × List Event × Bool) :=
  let prms := { prms with
    buffer := prms.buffer ++ b, curreadbuffrem := prms.curreadbuffrem - b.length }
  if prms.curreadbuffrem ≠ 0 then some (prms, [], false)
  else
    match prms.processBuf with
    | .streamHeader => some (prms.processStreamHeader, [], false)
    | .streamData => prms.processStreamData sha1 opened writes

end Params

/-! ## Requests and answers -/

/-- A task in the socket pair. -/
inductive Task where
  | exit
  | fileDwl (fileid : Nat)
  | fileDwlNm (fileid : Nat) (sha1hex : Bytes)
  deriving DecidableEq, Repr

/-- The connection, its thread and the threads that make requests. -/
structure State where
  /-- The loop of the thread runs. -/
  running : Bool
  prms : Params
  /-- The request whose maker has `amutex` and waits for the answer. -/
  caller : Option Nat
  /-- The tasks in the socket pair, with the requests they are of. -/
  tasks : List (Nat × Task)
  answers : List Nat
  /-- How many requests there have been. -/
  requests : Nat
  /-- What the server has sent. -/
  input : Bytes
  log : List Event
  deriving DecidableEq, Repr

/-- A connection that has just been made. -/
def State.init : State := ⟨true, .init, none, [], [], 0, [], []⟩

/-- `handle_command_data` -/
def Params.handleCommandData (prms : Params) (request : Nat) (task : Task) (sent : Bool) :
    Params × List Event × Int :=
  match task with
  | .exit => (prms, [], -1)
  | .fileDwl fileid => prms.handleFileDownload request fileid sent
  | .fileDwlNm fileid sha1hex => prms.handleFileDownloadNm request fileid sha1hex sent

/-- The byte that `handle_command` answers. -/
def answerOf (ret : Int) : Nat := if ret < 0 then 255 else ret.toNat % 256

inductive Act where
  | submit (task : Task)
  | submitFails
  /-- `handle_command`: if the request is sent, and if the answer is written. -/
  | command (sent replied : Bool)
  | commandLost
  | answer
  /-- The other end of the socket pair is closed. -/
  | hangup
  /-- The time to wait for the answer is over. -/
  | giveUp
  | read (b : Bytes) (opened : Bool) (writes : Writes)
  /-- The connection fails. -/
  | fail
  /-- A stream is freed behind the loop. -/
  | free
  deriving DecidableEq, Repr

/-- One step of the thread, or of a thread that makes a request. -/
inductive Step (sha1 : Bytes → Bytes) : State → Act → State → Prop
  | submit {st : State} {task : Task} (h : st.caller = none) :
      Step sha1 st (.submit task)
        { st with
          caller := some st.requests
          tasks := st.tasks ++ [(st.requests, task)]
          requests := st.requests + 1 }
  | submitFails {st : State} (h : st.caller = none) :
      Step sha1 st .submitFails
        { st with requests := st.requests + 1, log := st.log ++ [.returned st.requests false] }
  | command {st : State} {sent replied : Bool} {request : Nat} {task : Task}
      {tasks : List (Nat × Task)} {prms : Params} {log : List Event} {ret : Int}
      (hrun : st.running = true) (htasks : st.tasks = (request, task) :: tasks)
      (hdata : st.prms.handleCommandData request task sent = (prms, log, ret)) :
      Step sha1 st (.command sent replied)
        { st with
          running := decide (0 ≤ ret) && replied
          prms := prms
          tasks := tasks
          answers := if replied then st.answers ++ [answerOf ret] else st.answers
          log := st.log ++ log }
  | commandLost {st : State} (hrun : st.running = true) (htasks : st.tasks ≠ []) :
      Step sha1 st .commandLost { st with running := false }
  | answer {st : State} {request ch : Nat} {answers : List Nat} (h : st.caller = some request)
      (hans : st.answers = ch :: answers) :
      Step sha1 st .answer
        { st with
          caller := none
          answers := answers
          log := st.log ++ [.returned request (ch = 0)] }
  | hangup {st : State} {request : Nat} (h : st.caller = some request) (hans : st.answers = [])
      (hrun : st.running = false) :
      Step sha1 st .hangup
        { st with caller := none, tasks := [], log := st.log ++ [.returned request false] }
  | giveUp {st : State} {request : Nat} (h : st.caller = some request) :
      Step sha1 st .giveUp
        { st with caller := none, log := st.log ++ [.returned request false] }
  | read {st : State} {b : Bytes} {opened : Bool} {writes : Writes} {prms : Params}
      {log : List Event} {stop : Bool} (hrun : st.running = true) (hne : b ≠ [])
      (hlen : b.length ≤ st.prms.curreadbuffrem)
      (hdata : st.prms.handleDecompressedData sha1 b opened writes = some (prms, log, stop)) :
      Step sha1 st (.read b opened writes)
        { st with
          running := !stop
          prms := prms
          input := st.input ++ b
          log := st.log ++ log }
  | fail {st : State} (hrun : st.running = true) : Step sha1 st .fail { st with running := false }
  | free {st : State} {s : Stream} {streams : List Stream} (hrun : st.running = false)
      (hs : st.prms.streams = s :: streams) :
      Step sha1 st .free
        { st with
          prms := { st.prms with streams := streams }
          log := st.log ++ s.freeStream }

/-- The step of an act, if the act is possible. -/
def State.next (sha1 : Bytes → Bytes) (st : State) : Act → Option State
  | .submit task =>
    if st.caller = none then
      some { st with
        caller := some st.requests
        tasks := st.tasks ++ [(st.requests, task)]
        requests := st.requests + 1 }
    else none
  | .submitFails =>
    if st.caller = none then
      some { st with requests := st.requests + 1, log := st.log ++ [.returned st.requests false] }
    else none
  | .command sent replied =>
    match st.tasks with
    | [] => none
    | (request, task) :: tasks =>
      if st.running = true then
        let (prms, log, ret) := st.prms.handleCommandData request task sent
        some { st with
          running := decide (0 ≤ ret) && replied
          prms := prms
          tasks := tasks
          answers := if replied then st.answers ++ [answerOf ret] else st.answers
          log := st.log ++ log }
      else none
  | .commandLost =>
    if st.running = true ∧ st.tasks ≠ [] then some { st with running := false } else none
  | .answer =>
    match st.caller, st.answers with
    | some request, ch :: answers =>
      some { st with
        caller := none
        answers := answers
        log := st.log ++ [.returned request (ch = 0)] }
    | _, _ => none
  | .hangup =>
    match st.caller with
    | some request =>
      if st.answers = [] ∧ st.running = false then
        some { st with caller := none, tasks := [], log := st.log ++ [.returned request false] }
      else none
    | none => none
  | .giveUp =>
    st.caller.map fun request =>
      { st with caller := none, log := st.log ++ [.returned request false] }
  | .read b opened writes =>
    if st.running = true ∧ b ≠ [] ∧ b.length ≤ st.prms.curreadbuffrem then
      (st.prms.handleDecompressedData sha1 b opened writes).map fun (prms, log, stop) =>
        { st with
          running := !stop
          prms := prms
          input := st.input ++ b
          log := st.log ++ log }
    else none
  | .fail => if st.running = true then some { st with running := false } else none
  | .free =>
    match st.prms.streams with
    | s :: streams =>
      if st.running = false then
        some { st with
          prms := { st.prms with streams := streams }
          log := st.log ++ s.freeStream }
      else none
    | [] => none

theorem State.next_iff {sha1 : Bytes → Bytes} {st st' : State} {e : Act} :
    st.next sha1 e = some st' ↔ Step sha1 st e st' := by
  constructor
  · intro h
    cases e with
    | submit task =>
      obtain ⟨hcaller, ⟨⟩⟩ := Option.ite_none_right_eq_some.mp h
      exact .submit hcaller
    | submitFails =>
      obtain ⟨hcaller, ⟨⟩⟩ := Option.ite_none_right_eq_some.mp h
      exact .submitFails hcaller
    | command sent replied =>
      rw [next] at h
      split at h
      · cases h
      · next htasks =>
        obtain ⟨hrun, ⟨⟩⟩ := Option.ite_none_right_eq_some.mp h
        exact .command hrun htasks rfl
    | commandLost =>
      obtain ⟨⟨hrun, htasks⟩, ⟨⟩⟩ := Option.ite_none_right_eq_some.mp h
      exact .commandLost hrun htasks
    | answer =>
      rw [next] at h
      split at h
      · next hcaller hans =>
        cases h
        exact .answer hcaller hans
      · cases h
    | hangup =>
      rw [next] at h
      split at h
      · next hcaller =>
        obtain ⟨⟨hans, hrun⟩, ⟨⟩⟩ := Option.ite_none_right_eq_some.mp h
        exact .hangup hcaller hans hrun
      · cases h
    | giveUp =>
      obtain ⟨request, hcaller, rfl⟩ := Option.map_eq_some_iff.mp h
      exact .giveUp hcaller
    | read b opened writes =>
      obtain ⟨⟨hrun, hne, hlen⟩, h⟩ := Option.ite_none_right_eq_some.mp h
      obtain ⟨⟨prms, log, stop⟩, hdata, rfl⟩ := Option.map_eq_some_iff.mp h
      exact .read hrun hne hlen hdata
    | fail =>
      obtain ⟨hrun, ⟨⟩⟩ := Option.ite_none_right_eq_some.mp h
      exact .fail hrun
    | free =>
      rw [next] at h
      split at h
      · next hstreams =>
        obtain ⟨hrun, ⟨⟩⟩ := Option.ite_none_right_eq_some.mp h
        exact .free hrun hstreams
      · cases h
  · intro h
    cases h with
    | submit h | submitFails h | fail h => exact if_pos h
    | command hrun htasks hdata => simp only [next, htasks, if_pos hrun, hdata]
    | commandLost hrun htasks => exact if_pos ⟨hrun, htasks⟩
    | answer h hans => simp only [next, h, hans]
    | hangup h hans hrun => simp only [next, h, if_pos (And.intro hans hrun)]
    | giveUp h => rw [next, h, Option.map_some]
    | read hrun hne hlen hdata => rw [next, if_pos ⟨hrun, hne, hlen⟩, hdata, Option.map_some]
    | free hrun hs => simp only [next, hs, if_pos hrun]

end PcloudClient.Pasyncnet
