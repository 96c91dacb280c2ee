/-
  FsUpload/RunTasks.lean --- a batch of tasks over one connection (`pfsupload.c`, lines
  73-235 and 1123-1759).

  The requests of a batch are sent one behind the other.  Responses carry no id: `rtask`
  walks behind `task` and takes each response for the next task that sent a request.  What
  is not there when the last request is out is waited for.  Whatever the socket finds at
  each read, a response ends up in the task it belongs to, as long as no task is of a type
  without a request and the last read that did not wait ended between two responses.
-/
import Mathlib.Data.List.Intervals
import PcloudClient.Papi.AsyncReader

set_option autoImplicit false

namespace PcloudClient.FsUpload

open PcloudClient.Bytes PcloudClient.Papi

/-! ## Sending a task -/

/-- The fields of `fsupload_task_t` that do not change in `psync_fsupload_run_tasks`. -/
structure Task where
  type : Nat
  status : Nat
  deriving DecidableEq, Repr

/-- What a batch meets outside, for the tasks by their place in it: the size of the data
file if it can be opened, whether a request can be written, and the body with which the
server answers it. -/
structure Env where
  size : Nat → Option Nat
  sends : String → Nat → Bool
  answer : Nat → Bytes
  answer_lt : ∀ i, (answer i).length < 2 ^ 32

/-- The return values 0, -1 and -2 of a `psync_send_task` function. -/
inductive Ret where
  | ok
  | error
  | deferred
  deriving DecidableEq, Repr

/-- `PSYNC_FS_DIRECT_UPLOAD_LIMIT` -/
abbrev directUploadLimit : Nat := 256 * 1024

/-- A task that is one command. -/
def sendCommand (command : String) (env : Env) (i : Nat) : Ret :=
  if env.sends command i then .ok else .error

def sendTaskMkdir := sendCommand "createfolderifnotexists"
def sendTaskRmdir := sendCommand "deletefolder"
def sendTaskUnlink := sendCommand "deletefile"
def sendTaskRenameFile := sendCommand "renamefile"
def sendTaskRenameFolder := sendCommand "renamefolder"
def sendTaskUnlinkSetRev := sendCommand "deletefile"
def sendTaskSetFlMod := sendCommand "setfilemtime"
def sendTaskSetFlCr := sendCommand "setfilemtime"

/-- `psync_send_task_creat` with a connection: a large file is left for later. -/
def sendTaskCreat (env : Env) (i : Nat) : Ret :=
  match env.size i with
  | none => .error
  | some size => if directUploadLimit < size then .deferred else sendCommand "uploadfile" env i

/-- `psync_send_task_modify` with a connection -/
def sendTaskModify (_ : Env) (_ : Nat) : Ret := .deferred

/-- `psync_send_task_func`, with `none` for `NULL`. -/
def sendTaskFunc : List (Option (Env → Nat → Ret)) :=
  [none, sendTaskMkdir, sendTaskRmdir, sendTaskCreat, sendTaskUnlink, none, sendTaskRenameFile,
    none, sendTaskRenameFolder, sendTaskModify, sendTaskUnlinkSetRev, sendTaskSetFlMod,
    sendTaskSetFlCr]

/-- A response as the server sends it. -/
def response (body : Bytes) : Bytes := toLE 4 body.length ++ body

/-! ## The batch -/

/-- Where `psync_fsupload_run_tasks` is: at the head of the loop over the tasks, at
`get_result_async`, at the head of the last loop, behind it, or at `err0`. -/
inductive Pc where
  | task
  | read
  | drain
  | done
  | err0
  deriving DecidableEq, Repr

/-- The variables of `psync_fsupload_run_tasks` and the fields of the tasks it writes;
`requests` are the tasks whose requests went over the connection, in that order. -/
structure Run where
  pc : Pc
  task : Nat
  rtask : Nat
  np : Nat
  needprocessing : Nat → Bool
  res : Nat → Option Result
  sock : Socket
  reader : Reader
  requests : List Nat

/-- What must not happen. -/
inductive Bug where
  /-- a function pointer of the table is `NULL` -/
  | nullFunction
  /-- `assert(&rtask->list!=tasks)` -/
  | assertion
  deriving DecidableEq, Repr

/-- `while (rtask->needprocessing)`, with `k` tasks from `rtask` to the end. -/
def skipProcessing (needprocessing : Nat → Bool) : Nat → Nat → Option Nat
  | 0, _ => none
  | k + 1, rtask =>
    if needprocessing rtask then skipProcessing needprocessing k (rtask + 1) else some rtask

namespace Run

/-- The body of the loop over the tasks up to `get_result_async`. -/
def sendTask (env : Env) (st : Run) (t : Task) : Except Bug Run :=
  let st := { st with needprocessing := Function.update st.needprocessing st.task false }
  if t.type = 0 ∨ sendTaskFunc.length ≤ t.type then .ok { st with task := st.task + 1 }
  else if t.status = 11 then
    .ok { st with
      needprocessing := Function.update st.needprocessing st.task true
      task := st.task + 1 }
  else
    match sendTaskFunc[t.type]?.join with
    | none => .error .nullFunction
    | some send =>
      match send env st.task with
      | .error => .ok { st with pc := .err0 }
      | .deferred =>
        .ok { st with
          needprocessing := Function.update st.needprocessing st.task true
          np := st.np + 1
          task := st.task + 1 }
      | .ok =>
        .ok { st with
          pc := .read
          sock := { st.sock with stream := st.sock.stream ++ response (env.answer st.task) }
          requests := st.requests ++ [st.task] }

/-- A turn of the loop around `get_result_async`. -/
def readResult (batch : List Task) (st : Run) : Except Bug Run :=
  let a := getResultAsync st.sock st.reader
  let st := { st with sock := a.sock, reader := a.reader }
  match a.ret with
  | none => .ok { st with pc := .task, task := st.task + 1 }
  | some (.ok none) => .ok { st with pc := .err0 }
  | some res =>
    match skipProcessing st.needprocessing (batch.length - st.rtask) st.rtask with
    | none => .error .assertion
    | some rtask =>
      .ok { st with res := Function.update st.res rtask (some res), rtask := rtask + 1 }

/-- A turn of the last loop.  A wait that takes too long ends like a failed read. -/
def drainResult (st : Run) : Run :=
  if st.rtask = st.task then { st with pc := .done }
  else if st.needprocessing st.rtask then { st with rtask := st.rtask + 1 }
  else
    match getResult st.sock with
    | none => { st with pc := .err0 }
    | some (.ok none, sock) => { st with pc := .err0, sock := sock }
    | some (res, sock) =>
      { st with
        res := Function.update st.res st.rtask (some res)
        sock := sock
        rtask := st.rtask + 1 }

/-- A step of `psync_fsupload_run_tasks`. -/
def step (env : Env) (batch : List Task) (st : Run) : Except Bug Run :=
  match st.pc with
  | .task =>
    match batch[st.task]? with
    | none => .ok { st with pc := .drain }
    | some t => st.sendTask env t
  | .read => st.readResult batch
  | .drain => .ok st.drainResult
  | .done => .ok st
  | .err0 => .ok st

/-- `n` steps. -/
def steps (env : Env) (batch : List Task) : Nat → Run → Except Bug Run
  | 0, st => .ok st
  | n + 1, st => steps env batch n st >>= step env batch

/-- The start, with whatever the memory of the tasks holds in `needprocessing`. -/
def start (needprocessing : Nat → Bool) (arrivals : List Nat) (r : Reader) : Run :=
  ⟨.task, 0, 0, 0, needprocessing, fun _ => none, ⟨[], arrivals⟩, r.init, []⟩

/-- The tasks that `psync_fsupload_process_tasks` processes with a response. -/
def processed (batch : List Task) (st : Run) : List (Nat × Result) :=
  (List.range batch.length).filterMap fun i =>
    if (batch[i]?.map Task.status) = some 11 then none else (st.res i).map (i, ·)

end Run

/-! ## Which tasks send a request -/

/-- The table has a function for the type. -/
def Task.sendable (t : Task) : Prop := sendTaskFunc[t.type]?.join.isSome

theorem Task.sendable.type {t : Task} (h : t.sendable) :
    ¬ (t.type = 0 ∨ sendTaskFunc.length ≤ t.type) := by
  rintro (hzero | hlong)
  · rw [sendable, hzero] at h
    exact absurd h (by simp [sendTaskFunc])
  · rw [sendable, List.getElem?_eq_none hlong] at h
    exact absurd h (by simp)

/-- The task at a place of the batch sends a request when its turn comes. -/
def requested (env : Env) (batch : List Task) (i : Nat) : Bool :=
  match batch[i]? with
  | none => false
  | some t =>
    t.status != 11 && (sendTaskFunc[t.type]?.join.any fun send => send env i == .ok)

/-- The tasks from `a` to `b` that send a request. -/
def requestsIn (env : Env) (batch : List Task) (a b : Nat) : List Nat :=
  (List.Ico a b).filter (requested env batch)

section

variable {env : Env} {batch : List Task}

theorem requestsIn_self (a : Nat) : requestsIn env batch a a = [] := by
  rw [requestsIn, List.Ico.self_empty]
  rfl

theorem requestsIn_succ {a b : Nat} (h : a ≤ b) :
    requestsIn env batch a (b + 1) =
      requestsIn env batch a b ++ if requested env batch b then [b] else [] := by
  rw [requestsIn, List.Ico.succ_top h, List.filter_append, List.filter_singleton]
  cases requested env batch b <;> rfl

theorem requestsIn_append {a b c : Nat} (hab : a ≤ b) (hbc : b ≤ c) :
    requestsIn env batch a c = requestsIn env batch a b ++ requestsIn env batch b c := by
  rw [requestsIn, requestsIn, requestsIn, ← List.filter_append, List.Ico.append_consecutive hab hbc]

theorem mem_requestsIn {a b i : Nat} :
    i ∈ requestsIn env batch a b ↔ (a ≤ i ∧ i < b) ∧ requested env batch i = true := by
  rw [requestsIn, List.mem_filter, List.Ico.mem]

theorem nodup_requestsIn (a b : Nat) : (requestsIn env batch a b).Nodup :=
  (List.Ico.nodup a b).filter _

/-- The first task from `a` on that sends a request. -/
theorem requestsIn_eq_cons {a b j : Nat} {rest : List Nat}
    (h : requestsIn env batch a b = j :: rest) :
    a ≤ j ∧ j < b ∧ requested env batch j = true ∧
      (∀ i, a ≤ i → i < j → requested env batch i = false) ∧
      requestsIn env batch a (j + 1) = [j] ∧ rest = requestsIn env batch (j + 1) b := by
  have hmem : j ∈ requestsIn env batch a b := by simp [h]
  obtain ⟨⟨haj, hjb⟩, hreq⟩ := mem_requestsIn.mp hmem
  have hbefore : requestsIn env batch a j = [] := by
    have hsplit := @requestsIn_append env batch _ _ _ haj hjb.le
    rw [h] at hsplit
    cases hpre : requestsIn env batch a j with
    | nil => rfl
    | cons x xs =>
      rw [hpre] at hsplit
      obtain ⟨rfl, -⟩ := List.cons.inj hsplit
      have hx : j ∈ requestsIn env batch a j := by simp [hpre]
      exact absurd (mem_requestsIn.mp hx).1.2 (by omega)
  have hone : requestsIn env batch a (j + 1) = [j] := by
    rw [requestsIn_succ haj, hbefore, if_pos hreq]
    rfl
  refine ⟨haj, hjb, hreq, ?_, hone, ?_⟩
  · intro i hai hij
    by_contra hi
    have hx : i ∈ requestsIn env batch a j := mem_requestsIn.mpr ⟨⟨hai, hij⟩, by simpa using hi⟩
    rw [hbefore] at hx
    exact absurd hx (by simp)
  · rw [requestsIn_append (show a ≤ j + 1 by omega) hjb, hone] at h
    exact (List.cons.inj h).2.symm

theorem skipProcessing_eq {needs : Nat → Bool} {k a j : Nat} (haj : a ≤ j) (hjk : j < a + k)
    (hj : needs j = false) (hbefore : ∀ i, a ≤ i → i < j → needs i = true) :
    skipProcessing needs k a = some j := by
  induction k generalizing a with
  | zero => omega
  | succ k ih =>
    rw [skipProcessing]
    rcases Nat.eq_or_lt_of_le haj with rfl | hlt
    · rw [if_neg (by simp [hj])]
    · rw [if_pos (hbefore a le_rfl hlt)]
      exact ih hlt (by omega) fun i hi => hbefore i (by omega)

end

/-- The responses to the tasks of a list. -/
def responses (env : Env) (l : List Nat) : Bytes := (l.map fun i => response (env.answer i)).flatten

theorem responses_cons (env : Env) (i : Nat) (l : List Nat) :
    responses env (i :: l) = response (env.answer i) ++ responses env l := by
  simp [responses]

theorem responses_append (env : Env) (k l : List Nat) :
    responses env (k ++ l) = responses env k ++ responses env l := by
  simp [responses]

/-- A whole response is read as what it is, or `NULL` is read. -/
theorem nextResult_response {body : Bytes} (h : body.length < 2 ^ 32) (rest : Bytes) :
    (∃ tail, nextResult (response body ++ rest) = some (.ok none, tail)) ∨
      nextResult (response body ++ rest) = some (parseResult body, rest) := by
  have hof : ofLE (toLE 4 body.length) = body.length := by
    rw [ofLE_toLE]
    exact Nat.mod_eq_of_lt (by omega)
  rw [response, List.append_assoc, nextResult_append (length_toLE 4 _), hof]
  by_cases hbig : 2 ^ 31 ≤ body.length
  · exact Or.inl ⟨body ++ rest, if_pos hbig⟩
  · right
    rw [if_neg hbig, takeBytes_self]
    rfl

/-! ## Responses and tasks -/

namespace Run

/-- The tasks before this one have had their turn. -/
def turn (st : Run) : Nat :=
  match st.pc with
  | .read => st.task + 1
  | _ => st.task

/-- The first `k` requests are answered and their responses are in the tasks that sent
them; no other task has one. -/
def Stored (env : Env) (st : Run) (k : Nat) : Prop :=
  ∀ i, st.res i =
    if i ∈ st.requests.take k then some (parseResult (env.answer i)) else none

/-- While the batch runs, with `k` responses read. -/
structure Live (env : Env) (batch : List Task) (st : Run) (k : Nat) : Prop where
  valid : st.reader.Valid
  rtask_le : st.rtask ≤ st.turn
  turn_le : st.turn ≤ batch.length
  needs : ∀ i < st.turn, st.needprocessing i = !requested env batch i
  requests : st.requests = requestsIn env batch 0 st.turn
  answered : (requestsIn env batch 0 st.rtask).length = k
  stream : st.reader.pending ++ st.sock.stream =
    responses env (requestsIn env batch st.rtask st.turn)

/-- The invariant of the batch. -/
structure Inv (env : Env) (batch : List Task) (st : Run) (k : Nat) : Prop where
  nodup : st.requests.Nodup
  stored : st.Stored env k
  live : st.pc = .done ∨ st.pc = .err0 ∨ st.Live env batch k
  drain : st.pc = .drain → st.reader.pending = [] ∧ st.task = batch.length
  done : st.pc = .done → st.requests.take k = st.requests

/-- What a step needs: a task whose turn it is has a function to send it, and when there is
none left, `get_result_async` has not begun a response. -/
def Careful (batch : List Task) (st : Run) : Prop :=
  st.pc = .task →
    (∀ t, batch[st.task]? = some t → t.sendable) ∧
      (batch[st.task]? = none → st.reader.state = 0 ∧ st.reader.bytesread = 0)

variable {env : Env} {batch : List Task} {st st' : Run} {k : Nat}

theorem Live.requests_eq (h : st.Live env batch k) :
    st.requests = requestsIn env batch 0 st.rtask ++ requestsIn env batch st.rtask st.turn := by
  rw [h.requests, requestsIn_append (Nat.zero_le _) h.rtask_le]

theorem Live.take_eq (h : st.Live env batch k) :
    st.requests.take k = requestsIn env batch 0 st.rtask := by
  rw [h.requests_eq, ← h.answered, List.take_left]

/-- The response that is next in the stream is the one of the next task that sent a
request. -/
theorem Live.next (h : st.Live env batch k) {res : Result} {rest : Bytes}
    (hnext : nextResult (st.reader.pending ++ st.sock.stream) = some (res, rest)) :
    ∃ j l, requestsIn env batch st.rtask st.turn = j :: l ∧
      (res = .ok none ∨ (res = parseResult (env.answer j) ∧ rest = responses env l)) := by
  rw [h.stream] at hnext
  cases hreq : requestsIn env batch st.rtask st.turn with
  | nil =>
    rw [hreq] at hnext
    exact absurd hnext (by rw [nextResult_eq_none (by simp [responses])]; simp)
  | cons j l =>
    refine ⟨j, l, rfl, ?_⟩
    rw [hreq, responses_cons] at hnext
    rcases nextResult_response (env.answer_lt j) (responses env l) with ⟨tail, heq⟩ | heq
    · rw [heq] at hnext
      exact Or.inl (Prod.mk.inj (Option.some.inj hnext)).1.symm
    · rw [heq] at hnext
      obtain ⟨rfl, rfl⟩ := Prod.mk.inj (Option.some.inj hnext)
      exact Or.inr ⟨rfl, rfl⟩

theorem Live.answered_succ (h : st.Live env batch k) {j : Nat} {l : List Nat}
    (hreq : requestsIn env batch st.rtask st.turn = j :: l) :
    (requestsIn env batch 0 (j + 1)).length = k + 1 := by
  obtain ⟨hle, -, -, -, hone, -⟩ := requestsIn_eq_cons hreq
  rw [requestsIn_append (Nat.zero_le _) (show st.rtask ≤ j + 1 by omega), hone,
    List.length_append, h.answered]
  rfl

/-- One more response is stored in the task it belongs to. -/
theorem Stored.update (h : st.Live env batch k) (hstored : st.Stored env k) {j : Nat}
    {l : List Nat} (hreq : requestsIn env batch st.rtask st.turn = j :: l) :
    st.requests.take (k + 1) = requestsIn env batch 0 (j + 1) ∧
      ∀ i, Function.update st.res j (some (parseResult (env.answer j))) i =
        if i ∈ st.requests.take (k + 1) then some (parseResult (env.answer i)) else none := by
  obtain ⟨hle, hlt, hj, hbefore, hone, rfl⟩ := requestsIn_eq_cons hreq
  have hsplit : requestsIn env batch 0 (j + 1) = requestsIn env batch 0 st.rtask ++ [j] := by
    rw [requestsIn_append (Nat.zero_le _) (show st.rtask ≤ j + 1 by omega), hone]
  have htake : st.requests.take (k + 1) = requestsIn env batch 0 (j + 1) := by
    rw [hsplit, h.requests_eq, hreq, ← h.answered, List.take_length_add_append]
    rfl
  refine ⟨htake, ?_⟩
  intro i
  rw [htake, hsplit]
  have hi := hstored i
  rw [h.take_eq] at hi
  by_cases hij : i = j
  · subst hij
    simp
  · rw [Function.update_of_ne hij, hi]
    simp [hij]

theorem Inv.isLive (h : st.Inv env batch k) (hdone : st.pc ≠ .done) (herr : st.pc ≠ .err0) :
    st.Live env batch k :=
  (h.live.resolve_left hdone).resolve_left herr

/-- The end at `err0` keeps what is stored. -/
theorem Inv.err0 (h : st.Inv env batch k) (hpc : st'.pc = .err0) (hres : st'.res = st.res)
    (hreq : st'.requests = st.requests) : st'.Inv env batch k where
  nodup := hreq ▸ h.nodup
  stored := by
    unfold Stored
    rw [hres, hreq]
    exact h.stored
  live := Or.inr (Or.inl hpc)
  drain := fun hdrain => absurd (hpc.symm.trans hdrain) (by simp)
  done := fun hdone => absurd (hpc.symm.trans hdone) (by simp)

/-- A task that sends no request. -/
theorem Inv.skip (h : st.Inv env batch k) (hpc : st.pc = .task) (hlt : st.task < batch.length)
    (hnot : requested env batch st.task = false) (np : Nat) :
    Inv env batch { st with
      needprocessing := Function.update st.needprocessing st.task true
      np := np
      task := st.task + 1 } k := by
  have hlive := h.isLive (by simp [hpc]) (by simp [hpc])
  have hturn : st.turn = st.task := by rw [turn, hpc]
  have hrtask := hlive.rtask_le
  rw [hturn] at hrtask
  refine ⟨h.nodup, h.stored, Or.inr (Or.inr ?_), by simp [hpc], by simp [hpc]⟩
  have hturn' : turn { st with
      needprocessing := Function.update st.needprocessing st.task true
      np := np
      task := st.task + 1 } = st.task + 1 := by simp [turn, hpc]
  refine ⟨hlive.valid, ?_, ?_, ?_, ?_, hlive.answered, ?_⟩
  · rw [hturn']
    exact hrtask.trans (Nat.le_succ _)
  · rw [hturn']
    exact hlt
  · intro i hi
    rw [hturn'] at hi
    by_cases heq : i = st.task
    · subst heq
      simp [hnot]
    · simp only [Function.update_of_ne heq]
      exact hlive.needs i (by omega)
  · rw [hturn', requestsIn_succ (Nat.zero_le _), hnot, ← hturn]
    simpa using hlive.requests
  · rw [hturn', requestsIn_succ hrtask, hnot, ← hturn]
    simpa using hlive.stream

/-- A task that sends a request. -/
theorem Inv.request (h : st.Inv env batch k) (hpc : st.pc = .task) (hlt : st.task < batch.length)
    (hreq : requested env batch st.task = true) :
    Inv env batch { st with
      pc := .read
      needprocessing := Function.update st.needprocessing st.task false
      sock := { st.sock with stream := st.sock.stream ++ response (env.answer st.task) }
      requests := st.requests ++ [st.task] } k := by
  have hlive := h.isLive (by simp [hpc]) (by simp [hpc])
  have hturn : st.turn = st.task := by rw [turn, hpc]
  have hrtask := hlive.rtask_le
  have hrequests := hlive.requests
  rw [hturn] at hrtask hrequests
  have hsucc : requestsIn env batch 0 (st.task + 1) = st.requests ++ [st.task] := by
    rw [requestsIn_succ (Nat.zero_le _), if_pos hreq, hrequests]
  have htake : (st.requests ++ [st.task]).take k = st.requests.take k := by
    refine List.take_append_of_le_length ?_
    rw [hlive.requests_eq, List.length_append, hlive.answered]
    exact Nat.le_add_right _ _
  refine ⟨?_, ?_, Or.inr (Or.inr ?_), by simp, by simp⟩
  · show (st.requests ++ [st.task]).Nodup
    rw [← hsucc]
    exact nodup_requestsIn _ _
  · intro i
    have hi := h.stored i
    simp only [htake]
    exact hi
  · refine ⟨hlive.valid, ?_, ?_, ?_, ?_, ?_, ?_⟩
    · exact hrtask.trans (Nat.le_succ _)
    · exact hlt
    · intro i hi
      have hi : i < st.task + 1 := hi
      by_cases heq : i = st.task
      · subst heq
        simp [hreq]
      · simp only [Function.update_of_ne heq]
        exact hlive.needs i (by omega)
    · exact hsucc.symm
    · exact hlive.answered
    · have hstream := hlive.stream
      rw [hturn] at hstream
      show st.reader.pending ++ (st.sock.stream ++ response (env.answer st.task)) =
        responses env (requestsIn env batch st.rtask (st.task + 1))
      rw [← List.append_assoc, hstream, requestsIn_succ hrtask, if_pos hreq, responses_append]
      simp [responses]

theorem sendTask_inv (h : st.Inv env batch k) (hpc : st.pc = .task) {t : Task}
    (ht : batch[st.task]? = some t) (hsend : t.sendable) :
    ∃ st', st.sendTask env t = .ok st' ∧ st'.Inv env batch k := by
  have hlt : st.task < batch.length := (List.getElem?_eq_some_iff.mp ht).1
  obtain ⟨send, hfun⟩ := Option.isSome_iff_exists.mp hsend
  unfold sendTask
  simp only []
  rw [if_neg hsend.type]
  by_cases hcancel : t.status = 11
  · have hnot : requested env batch st.task = false := by simp [requested, ht, hcancel]
    rw [if_pos hcancel, Function.update_idem]
    exact ⟨_, rfl, h.skip hpc hlt hnot st.np⟩
  · rw [if_neg hcancel, hfun]
    simp only []
    cases hret : send env st.task with
    | error => exact ⟨_, rfl, h.err0 rfl rfl rfl⟩
    | deferred =>
      have hnot : requested env batch st.task = false := by
        simp [requested, ht, hfun, hret]
      simp only [Function.update_idem]
      exact ⟨_, rfl, h.skip hpc hlt hnot (st.np + 1)⟩
    | ok =>
      have hreq : requested env batch st.task = true := by
        simp [requested, ht, hfun, hret, hcancel]
      exact ⟨_, rfl, h.request hpc hlt hreq⟩

theorem readResult_inv (h : st.Inv env batch k) (hpc : st.pc = .read) :
    ∃ st' k', st.readResult batch = .ok st' ∧ st'.Inv env batch k' := by
  have hlive := h.isLive (by simp [hpc]) (by simp [hpc])
  have hturn : st.turn = st.task + 1 := by rw [turn, hpc]
  have htakes := @getResultAsync_takes st.sock st.reader hlive.valid
  unfold readResult
  generalize getResultAsync st.sock st.reader = a at htakes ⊢
  cases htakes with
  | @needmore sock r valid keeps =>
    refine ⟨_, k, rfl, h.nodup, h.stored, Or.inr (Or.inr ?_), by simp, by simp⟩
    refine ⟨valid, ?_, ?_, ?_, ?_, hlive.answered, ?_⟩
    · exact hturn ▸ hlive.rtask_le
    · exact hturn ▸ hlive.turn_le
    · intro i hi
      exact hlive.needs i (hturn ▸ hi)
    · exact hturn ▸ hlive.requests
    · exact keeps.trans (hturn ▸ hlive.stream)
  | @ready sock r res next =>
    obtain ⟨j, l, hreq, hres⟩ := hlive.next next
    by_cases hnull : res = .ok none
    · subst hnull
      exact ⟨_, k, rfl, h.err0 rfl rfl rfl⟩
    · obtain ⟨hres, hrest⟩ := hres.resolve_left hnull
      obtain ⟨hle, hlt, hj, hbefore, hone, hl⟩ := requestsIn_eq_cons hreq
      have hskip :
          skipProcessing st.needprocessing (batch.length - st.rtask) st.rtask = some j := by
        have hlen := hlive.turn_le
        refine skipProcessing_eq hle (by omega) ?_ ?_
        · rw [hlive.needs j hlt, hj]
          rfl
        · intro i hi hij
          rw [hlive.needs i (by omega), hbefore i hi hij]
          rfl
      obtain ⟨htake, hupdate⟩ := Stored.update hlive h.stored hreq
      rw [← hres] at hupdate
      refine ⟨{ st with
        sock := sock
        reader := r.init
        res := Function.update st.res j (some res)
        rtask := j + 1 }, k + 1, ?_, h.nodup, hupdate, Or.inr (Or.inr ?_), by simp [hpc],
        by simp [hpc]⟩
      · cases res with
        | error fault => simp only [hskip]
        | ok o =>
          cases o with
          | none => exact absurd rfl hnull
          | some b => simp only [hskip]
      · refine ⟨r.valid_init, ?_, hlive.turn_le, hlive.needs, hlive.requests, ?_, ?_⟩
        · exact hlt
        · exact hlive.answered_succ hreq
        · exact hrest.trans (congrArg (responses env) hl)

theorem drainResult_inv (h : st.Inv env batch k) (hpc : st.pc = .drain) :
    ∃ k', st.drainResult.Inv env batch k' := by
  have hlive := h.isLive (by simp [hpc]) (by simp [hpc])
  have hturn : st.turn = st.task := by rw [turn, hpc]
  obtain ⟨hpending, htask⟩ := h.drain hpc
  unfold drainResult
  by_cases hend : st.rtask = st.task
  · rw [if_pos hend]
    refine ⟨k, h.nodup, h.stored, Or.inl rfl, by simp, ?_⟩
    intro _
    show st.requests.take k = st.requests
    rw [hlive.take_eq, hend, ← hturn, ← hlive.requests]
  · have hrtask := hlive.rtask_le
    have hlt : st.rtask < st.turn := by omega
    rw [if_neg hend]
    by_cases hneeds : st.needprocessing st.rtask = true
    · have hnot : requested env batch st.rtask = false := by
        have := hlive.needs st.rtask hlt
        rw [hneeds] at this
        simpa using this.symm
      have hone : requestsIn env batch st.rtask (st.rtask + 1) = [] := by
        rw [requestsIn_succ le_rfl, requestsIn_self, hnot]
        rfl
      rw [if_pos hneeds]
      refine ⟨k, h.nodup, h.stored, Or.inr (Or.inr ?_), fun _ => ⟨hpending, htask⟩,
        fun hdone => absurd (hpc.symm.trans hdone) (by simp)⟩
      refine ⟨hlive.valid, hlt, hlive.turn_le, hlive.needs, hlive.requests, ?_, ?_⟩
      · show (requestsIn env batch 0 (st.rtask + 1)).length = k
        rw [requestsIn_append (Nat.zero_le _) (Nat.le_succ st.rtask), hone, List.append_nil]
        exact hlive.answered
      · show st.reader.pending ++ st.sock.stream =
          responses env (requestsIn env batch (st.rtask + 1) st.turn)
        rw [hlive.stream, requestsIn_append (Nat.le_succ st.rtask) hlt, hone, List.nil_append]
    · rw [if_neg hneeds]
      cases hget : getResult st.sock with
      | none => exact ⟨k, h.err0 rfl rfl rfl⟩
      | some x =>
        obtain ⟨res, sock⟩ := x
        have hnext := nextResult_of_getResult hget
        have hsame : st.reader.pending ++ st.sock.stream = st.sock.stream := by
          rw [hpending, List.nil_append]
        rw [← hsame] at hnext
        obtain ⟨j, l, hreq, hres⟩ := hlive.next hnext
        by_cases hnull : res = .ok none
        · subst hnull
          exact ⟨k, h.err0 rfl rfl rfl⟩
        · obtain ⟨hres, hrest⟩ := hres.resolve_left hnull
          obtain ⟨hle, hjlt, hj, hbefore, hone, hl⟩ := requestsIn_eq_cons hreq
          obtain rfl : j = st.rtask := by
            by_contra hne
            have hfalse := hbefore st.rtask le_rfl (by omega)
            have := hlive.needs st.rtask hlt
            rw [hfalse] at this
            exact hneeds this
          obtain ⟨htake, hupdate⟩ := Stored.update hlive h.stored hreq
          rw [← hres] at hupdate
          have hinv : Inv env batch { st with
              res := Function.update st.res st.rtask (some res)
              sock := sock
              rtask := st.rtask + 1 } (k + 1) := by
            refine ⟨h.nodup, hupdate, Or.inr (Or.inr ?_), fun _ => ⟨hpending, htask⟩,
              fun hdone => absurd (hpc.symm.trans hdone) (by simp)⟩
            refine ⟨hlive.valid, hlt, hlive.turn_le, hlive.needs, hlive.requests, ?_, ?_⟩
            · exact hlive.answered_succ hreq
            · show st.reader.pending ++ sock.stream =
                responses env (requestsIn env batch (st.rtask + 1) st.turn)
              rw [hpending, List.nil_append, hrest, hl]
          cases res with
          | error fault => exact ⟨k + 1, hinv⟩
          | ok o =>
            cases o with
            | none => exact absurd rfl hnull
            | some b => exact ⟨k + 1, hinv⟩

/-- A step stores no response in a task that it does not belong to. -/
theorem step_inv (h : st.Inv env batch k) (hcareful : st.Careful batch) :
    ∃ st' k', st.step env batch = .ok st' ∧ st'.Inv env batch k' := by
  unfold step
  cases hpc : st.pc with
  | task =>
    obtain ⟨hsend, hstart⟩ := hcareful hpc
    cases ht : batch[st.task]? with
    | none =>
      have hlive := h.isLive (by simp [hpc]) (by simp [hpc])
      have hturn : st.turn = st.task := by rw [turn, hpc]
      have hge : batch.length ≤ st.task := List.getElem?_eq_none_iff.mp ht
      have hle := hlive.turn_le
      obtain ⟨hstate, hread⟩ := hstart ht
      have hnil : st.reader.data = [] :=
        List.eq_nil_of_length_eq_zero (hlive.valid.bytesread ▸ hread)
      have hpending : st.reader.pending = [] := by rw [Reader.pending, if_pos hstate, hnil]
      refine ⟨_, k, rfl, h.nodup, h.stored, Or.inr (Or.inr ?_), fun _ => ⟨hpending, ?_⟩, by simp⟩
      · exact ⟨hlive.valid, hturn ▸ hlive.rtask_le, hturn ▸ hlive.turn_le, hturn ▸ hlive.needs,
          hturn ▸ hlive.requests, hlive.answered, hturn ▸ hlive.stream⟩
      · show st.task = batch.length
        omega
    | some t =>
      obtain ⟨st', hok, hinv⟩ := sendTask_inv h hpc ht (hsend t ht)
      exact ⟨st', k, hok, hinv⟩
  | read => exact readResult_inv h hpc
  | drain =>
    obtain ⟨k', hinv⟩ := drainResult_inv h hpc
    exact ⟨_, k', rfl, hinv⟩
  | done => exact ⟨st, k, rfl, h⟩
  | err0 => exact ⟨st, k, rfl, h⟩

theorem start_inv (env : Env) (batch : List Task) (needprocessing : Nat → Bool)
    (arrivals : List Nat) (r : Reader) : (start needprocessing arrivals r).Inv env batch 0 where
  nodup := List.nodup_nil
  stored := fun i => by simp [start]
  live := Or.inr (Or.inr ⟨r.valid_init, le_rfl, Nat.zero_le _, by simp [start, turn],
    (requestsIn_self 0).symm, congrArg List.length (requestsIn_self 0),
    (congrArg (responses env) (requestsIn_self 0)).symm⟩)
  drain := by simp [start]
  done := by simp [start]

/-- Every response read so far is in the task whose request it answers, no other task has
one, and no task is processed with another response.  The rest of the stream are the
responses to the other requests; behind the last loop there is none. -/
def Matched (env : Env) (batch : List Task) (st : Run) : Prop :=
  st.requests.Nodup ∧ ∃ k, st.Stored env k ∧
    (st.pc ≠ .done → st.pc ≠ .err0 →
      st.reader.pending ++ st.sock.stream = responses env (st.requests.drop k)) ∧
    (st.pc = .done → st.requests.take k = st.requests) ∧
    ∀ p ∈ st.processed batch, p.1 ∈ st.requests ∧ p.2 = parseResult (env.answer p.1)

theorem Inv.matched (h : st.Inv env batch k) : st.Matched env batch := by
  refine ⟨h.nodup, k, h.stored, ?_, h.done, ?_⟩
  · intro hdone herr
    have hlive := h.isLive hdone herr
    rw [hlive.stream, hlive.requests_eq, ← hlive.answered, List.drop_left]
  · rintro ⟨i, res⟩ hp
    obtain ⟨i', -, hi⟩ := List.mem_filterMap.mp hp
    split at hi
    · exact absurd hi (by simp)
    · obtain ⟨res', hres, heq⟩ := Option.map_eq_some_iff.mp hi
      obtain ⟨rfl, rfl⟩ := Prod.mk.inj heq
      rw [h.stored i'] at hres
      split at hres
      · next hmem => exact ⟨List.mem_of_mem_take hmem, (Option.some.inj hres).symm⟩
      · exact absurd hres (by simp)

/-- In every run whose steps are careful, all responses are matched in every state, and
nothing that must not happen happens. -/
theorem responses_matched (env : Env) (batch : List Task) (needprocessing : Nat → Bool)
    (arrivals : List Nat) (r : Reader) (n : Nat)
    (hcareful : ∀ m < n, ∀ st, steps env batch m (start needprocessing arrivals r) = .ok st →
      st.Careful batch) :
    ∃ st, steps env batch n (start needprocessing arrivals r) = .ok st ∧
      st.Matched env batch := by
  suffices hinv : ∃ st k, steps env batch n (start needprocessing arrivals r) = .ok st ∧
      st.Inv env batch k by
    obtain ⟨st, k, hok, hst⟩ := hinv
    exact ⟨st, hok, hst.matched⟩
  induction n with
  | zero => exact ⟨_, 0, rfl, start_inv env batch needprocessing arrivals r⟩
  | succ n ih =>
    obtain ⟨st, k, hok, hst⟩ := ih fun m hm => hcareful m (by omega)
    obtain ⟨st', k', hstep, hst'⟩ := step_inv hst (hcareful n (by omega) st hok)
    exact ⟨st', k', by rw [steps, hok]; exact hstep, hst'⟩

instance (t : Task) : Decidable t.sendable :=
  inferInstanceAs (Decidable (sendTaskFunc[t.type]?.join.isSome = true))

instance (batch : List Task) (st : Run) : Decidable (st.Careful batch) :=
  inferInstanceAs (Decidable (st.pc = .task →
    (∀ t ∈ batch[st.task]?, t.sendable) ∧
      (batch[st.task]? = none → st.reader.state = 0 ∧ st.reader.bytesread = 0)))

/-- A server that answers the request of a task with the number of the task. -/
def numbered : Env :=
  ⟨fun _ => none, fun _ _ => true, fun i => [UInt8.ofNat (200 + i % 20)], fun _ => by simp⟩

/-- A folder is made, a removed folder was cancelled, a modified file is left for later, a
file is removed and another folder is made. -/
def fiveTasks : List Task := [⟨1, 0⟩, ⟨2, 11⟩, ⟨9, 0⟩, ⟨4, 0⟩, ⟨1, 0⟩]

/-- No response is there behind the first send and the last one; the read behind the second
finds the response to the first task.  The other two are waited for, one of them a byte at
a time. -/
def late : Run :=
  start (fun _ => true) [0, 4, 1, 0, 0, 1, 1, 1, 1, 1, 4, 1] ⟨0, 0, 0, 0, []⟩

theorem responses_matched_numbered :
    ∃ st, steps numbered fiveTasks 15 late = .ok st ∧ st.Matched numbered fiveTasks ∧
      st.pc = .done ∧ st.np = 1 ∧ st.requests = [0, 3, 4] ∧
      (List.range 5).map (fun i => (st.res i).isSome) = [true, false, false, true, true] := by
  have hcareful : ∀ m < 15, ∀ st ∈ (steps numbered fiveTasks m late).toOption,
      st.Careful fiveTasks := by
    decide +kernel
  have hend : ∀ st ∈ (steps numbered fiveTasks 15 late).toOption,
      st.pc = .done ∧ st.np = 1 ∧ st.requests = [0, 3, 4] ∧
        (List.range 5).map (fun i => (st.res i).isSome) = [true, false, false, true, true] := by
    decide +kernel
  obtain ⟨st, hok, hmatched⟩ := responses_matched numbered fiveTasks (fun _ => true)
    [0, 4, 1, 0, 0, 1, 1, 1, 1, 1, 4, 1] ⟨0, 0, 0, 0, []⟩ 15
    fun m hm st hst => hcareful m hm st (by rw [late, hst]; rfl)
  exact ⟨st, hok, hmatched, hend st (by rw [late, hok]; rfl)⟩

/-- A server that answers every request with the five bytes of an empty string and a
number. -/
def fiveBytes : Env :=
  ⟨fun _ => none, fun _ _ => true, fun _ => [1, 0, 0, 0, 203], fun _ => by simp⟩

/-- The length of the response arrives before its body: the last loop takes the first bytes
of the body for a length and stores what comes behind them. -/
theorem responses_not_matched :
    ¬ ∀ (env : Env) (batch : List Task) (needprocessing : Nat → Bool) (arrivals : List Nat)
        (r : Reader) (n : Nat),
      ∃ st, steps env batch n (start needprocessing arrivals r) = .ok st ∧
        st.Matched env batch := by
  intro h
  obtain ⟨st, hok, -, k, hstored, -⟩ :=
    h fiveBytes [⟨1, 0⟩] (fun _ => true) [4, 0, 4, 1] ⟨0, 0, 0, 0, []⟩ 4
  -- a number was stored, and the response is a string
  have hnum : ((steps fiveBytes [⟨1, 0⟩] 4 (start (fun _ => true) [4, 0, 4, 1]
      ⟨0, 0, 0, 0, []⟩)).toOption.map fun st =>
        match st.res 0 with
        | some (.ok (some (.num _))) => true
        | _ => false) = some true := by
    decide +kernel
  rw [hok, Except.toOption, Option.map_some, hstored 0] at hnum
  have hparse : parseResult (fiveBytes.answer 0) = .ok (some (.str [])) := rfl
  rw [hparse] at hnum
  by_cases hk : 0 ∈ st.requests.take k
  · rw [if_pos hk] at hnum
    exact absurd hnum (by decide)
  · rw [if_neg hk] at hnum
    exact absurd hnum (by decide)

end Run

end PcloudClient.FsUpload
