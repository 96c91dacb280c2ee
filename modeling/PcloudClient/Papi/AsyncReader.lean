/-
  Papi/AsyncReader.lean --- waiting and not waiting for a result (`papi.c`, lines 387-472).

  A response is a length of four bytes and a body.  `get_result` waits until a whole one is
  there; `get_result_async` takes what the socket has and keeps the rest of the work in an
  `async_result_reader`.  Both cut the same stream into the same results, however the
  bytes arrive.
-/
import PcloudClient.Papi.Response

set_option autoImplicit false

namespace PcloudClient.Papi

open PcloudClient.Bytes

/-! ## Sockets -/

/-- The bytes the server has sent or will send, and how many of them each later read
finds. -/
structure Socket where
  stream : Bytes
  arrivals : List Nat
  deriving DecidableEq, Repr

/-- What `psync_socket_read_noblock` returns: `PSYNC_SOCKET_WOULDBLOCK`,
`PSYNC_SOCKET_ERROR` or the bytes it read. -/
inductive Rd where
  | wouldblock
  | error
  | bytes (b : Bytes)
  deriving DecidableEq, Repr

namespace Socket

/-- `psync_socket_read_noblock_plain`.  `read` refuses a negative count and returns 0 for
the count 0 without looking at the socket. -/
def readNoblock (sock : Socket) (num : Int) : Rd × Socket :=
  if num < 0 then (.error, sock)
  else if num = 0 then (.bytes [], sock)
  else
    match sock.arrivals with
    | [] => (.wouldblock, sock)
    | k :: arrivals =>
      match sock.stream.take (min k num.toNat) with
      | [] => (.wouldblock, { sock with arrivals := arrivals })
      | x :: b => (.bytes (x :: b), ⟨sock.stream.drop (x :: b).length, arrivals⟩)

/-- The loop of `psync_socket_readall_plain` with `num` bytes to go; `none` if it waits for
more. -/
def readallLoop : List Nat → Bytes → Nat → Option (Bytes × Socket)
  | arrivals, stream, 0 => some ([], ⟨stream, arrivals⟩)
  | [], _, _ + 1 => none
  | k :: arrivals, stream, num + 1 =>
    let b := stream.take (min k (num + 1))
    (readallLoop arrivals (stream.drop b.length) (num + 1 - b.length)).map fun (c, sock) =>
      (b ++ c, sock)

/-- `psync_socket_readall_plain` -/
def readall (sock : Socket) (num : Int) : Option (Bytes × Socket) :=
  readallLoop sock.arrivals sock.stream num.toNat

end Socket

/-- What `parse_result` leaves, `none` being `NULL`. -/
abbrev Result := Except Fault (Option Binresult)

/-- A `uint32_t` passed as an `int`. -/
def asInt (n : Nat) : Int := if n < 2 ^ 31 then n else n - 2 ^ 32

/-- `get_result`; `none` if it waits for more. -/
def getResult (sock : Socket) : Option (Result × Socket) := do
  let (len, sock) ← sock.readall 4
  let ressize := ofLE len
  let (data, sock) ← sock.readall (asInt ressize)
  if data.length ≠ ressize then return (.ok none, sock)
  return (parseResult data, sock)

/-! ## The reader -/

/-- `async_result_reader`.  `data` are the bytes already behind the pointer of that name,
which is `&respsize` in state 0. -/
structure Reader where
  state : Nat
  bytesread : Nat
  bytestoread : Nat
  respsize : Nat
  data : Bytes
  deriving DecidableEq, Repr

namespace Reader

/-- `async_result_reader_init` -/
def init (r : Reader) : Reader :=
  { r with state := 0, bytesread := 0, bytestoread := 4, data := [] }

/-- `b` is read to `data + bytesread`. -/
def store (r : Reader) (b : Bytes) : Reader :=
  { r with bytesread := r.bytesread + b.length, data := r.data.take r.bytesread ++ b }

/-- The length is complete and memory for the body is taken. -/
def toBody (r : Reader) : Reader :=
  { r with
    state := 1
    bytesread := 0
    bytestoread := ofLE r.data
    respsize := ofLE r.data
    data := [] }

end Reader

/-- What `get_result_async` leaves: `ASYNC_RES_NEEDMORE` or the result it is ready with. -/
structure Async where
  ret : Option Result
  sock : Socket
  reader : Reader

/-- The body of `get_result_async` from the label `again` on, which `goto again` leads
to. -/
def asyncTurn (again : Socket → Reader → Async) (sock : Socket) (r : Reader) : Async :=
  match sock.readNoblock (asInt (r.bytestoread - r.bytesread)) with
  | (.wouldblock, sock) => ⟨none, sock, r⟩
  | (.error, sock) => ⟨some (.ok none), sock, r.init⟩
  | (.bytes [], sock) => ⟨some (.ok none), sock, r.init⟩
  | (.bytes (x :: b), sock) =>
    let r := r.store (x :: b)
    if r.bytesread = r.bytestoread then
      if r.state = 0 then again sock r.toBody
      else ⟨some (parseResult (r.data.take r.respsize)), sock, r.init⟩
    else ⟨none, sock, r⟩

/-- `get_result_async`.  The label is reached from state 0 only, so twice at most. -/
def getResultAsync : Socket → Reader → Async :=
  asyncTurn (asyncTurn fun sock r => ⟨none, sock, r⟩)

/-- `n` calls of `get_result_async`: the results with the reader behind each of them. -/
def asyncResults : Nat → Socket → Reader → List (Result × Reader)
  | 0, _, _ => []
  | n + 1, sock, r =>
    let t := getResultAsync sock r
    t.ret.toList.map (·, t.reader) ++ asyncResults n t.sock t.reader

/-- At most `n` calls of `get_result`, up to one that waits. -/
def blockingResults : Nat → Socket → List Result
  | 0, _ => []
  | n + 1, sock =>
    match getResult sock with
    | none => []
    | some (res, sock) => res :: blockingResults n sock

/-! ## The results of a stream -/

/-- The first result of a stream and what follows it.  A length of `2 ^ 31` or more is no
length of a body. -/
def nextResult (stream : Bytes) : Option (Result × Bytes) := do
  let (len, rest) ← takeBytes 4 stream
  if 2 ^ 31 ≤ ofLE len then return (.ok none, rest)
  let (body, rest) ← takeBytes (ofLE len) rest
  return (parseResult body, rest)

theorem nextResult_eq_none {stream : Bytes} (h : stream.length < 4) : nextResult stream = none := by
  rw [nextResult, takeBytes_eq_none.mpr h]
  rfl

theorem nextResult_append {len : Bytes} (h : len.length = 4) (rest : Bytes) :
    nextResult (len ++ rest) =
      if 2 ^ 31 ≤ ofLE len then some (.ok none, rest)
      else (takeBytes (ofLE len) rest).map fun x => (parseResult x.1, x.2) := by
  rw [nextResult, takeBytes_append h]
  simp only [Option.bind_eq_bind, Option.bind_some]
  split
  · rfl
  · cases takeBytes (ofLE len) rest <;> rfl

theorem nextResult_shorter {stream rest : Bytes} {res : Result}
    (h : nextResult stream = some (res, rest)) : rest.length + 4 ≤ stream.length := by
  by_cases hfour : stream.length < 4
  · rw [nextResult_eq_none hfour] at h
    exact absurd h (by simp)
  · obtain ⟨len, tail, rfl, hlen⟩ : ∃ len tail, stream = len ++ tail ∧ len.length = 4 :=
      ⟨stream.take 4, stream.drop 4, (List.take_append_drop 4 stream).symm,
        by rw [List.length_take]; omega⟩
    rw [nextResult_append hlen] at h
    rw [List.length_append]
    split at h
    · obtain ⟨-, rfl⟩ := Prod.mk.inj (Option.some.inj h)
      omega
    · obtain ⟨⟨body, tail'⟩, hbody, heq⟩ := Option.map_eq_some_iff.mp h
      obtain ⟨rfl, -⟩ := takeBytes_eq_some hbody
      obtain ⟨-, rfl⟩ := Prod.mk.inj heq
      simp only [List.length_append]
      omega

/-- All the results of a stream. -/
def results (stream : Bytes) : List Result :=
  match h : nextResult stream with
  | none => []
  | some (res, rest) =>
    have := nextResult_shorter h
    res :: results rest
termination_by stream.length

theorem results_eq_nil {stream : Bytes} (h : nextResult stream = none) : results stream = [] := by
  rw [results]
  split
  · rfl
  · next hsome => exact absurd (h.symm.trans hsome) (by simp)

theorem results_eq_cons {stream rest : Bytes} {res : Result}
    (h : nextResult stream = some (res, rest)) : results stream = res :: results rest := by
  rw [results]
  split
  · next hnone => exact absurd (h.symm.trans hnone) (by simp)
  · next hsome =>
    obtain ⟨rfl, rfl⟩ := Prod.mk.inj (Option.some.inj (hsome.symm.trans h))
    rfl

/-! ## Reads of a socket -/

namespace Socket

/-- Enough reads find something for the whole stream to be read. -/
def Delivers (sock : Socket) : Prop :=
  sock.stream.length ≤ sock.arrivals.countP (0 < ·)

theorem Delivers.tail {stream : Bytes} {k : Nat} {arrivals : List Nat} {n : Nat}
    (h : Delivers ⟨stream, k :: arrivals⟩) (hn : 0 < n) :
    Delivers ⟨stream.drop (stream.take (min k n)).length, arrivals⟩ := by
  simp only [Delivers, List.countP_cons, decide_eq_true_eq, List.length_drop,
    List.length_take] at h ⊢
  split at h <;> omega

/-- What a read of some bytes does. -/
theorem readNoblock_pos {sock : Socket} {num : Int} (h : 0 < num) :
    (∃ arrivals, sock.readNoblock num = (.wouldblock, { sock with arrivals := arrivals })) ∨
      ∃ x b tail arrivals, sock.stream = (x :: b) ++ tail ∧ (x :: b).length ≤ num.toNat ∧
        sock.readNoblock num = (.bytes (x :: b), ⟨tail, arrivals⟩) := by
  obtain ⟨stream, arrivals⟩ := sock
  unfold readNoblock
  rw [if_neg (by omega), if_neg (by omega)]
  cases arrivals with
  | nil => exact Or.inl ⟨[], rfl⟩
  | cons k arrivals =>
    simp only []
    cases htake : stream.take (min k num.toNat) with
    | nil => exact Or.inl ⟨arrivals, rfl⟩
    | cons x b =>
      have hlen : (x :: b).length ≤ min k num.toNat := htake ▸ List.length_take_le _ _
      refine Or.inr ⟨x, b, stream.drop (x :: b).length, arrivals, ?_, by omega, rfl⟩
      have hpre : x :: b <+: stream := htake ▸ List.take_prefix _ _
      rw [← List.prefix_iff_eq_append.mp hpre]
      simp

/-- A read never loses what later reads need, and uses an arrival up. -/
theorem readNoblock_delivers {sock : Socket} {num : Int} (h : sock.Delivers) :
    (sock.readNoblock num).2.Delivers := by
  obtain ⟨stream, arrivals⟩ := sock
  unfold readNoblock
  split
  · exact h
  · split
    · exact h
    · cases arrivals with
      | nil => exact h
      | cons k arrivals =>
        have htail := h.tail (show 0 < num.toNat by omega)
        simp only []
        cases htake : stream.take (min k num.toNat) with
        | nil =>
          rw [htake] at htail
          exact htail
        | cons x b =>
          rw [htake] at htail
          exact htail

theorem readNoblock_arrivals_le (sock : Socket) (num : Int) :
    (sock.readNoblock num).2.arrivals.length ≤ sock.arrivals.length := by
  obtain ⟨stream, arrivals⟩ := sock
  unfold readNoblock
  split
  · exact le_rfl
  · split
    · exact le_rfl
    · cases arrivals with
      | nil => exact le_rfl
      | cons k arrivals =>
        simp only []
        split <;> simp

theorem readNoblock_arrivals {sock : Socket} {num : Int} (h : 0 < num) :
    (sock.readNoblock num).2.arrivals.length = sock.arrivals.length - 1 := by
  obtain ⟨stream, arrivals⟩ := sock
  unfold readNoblock
  rw [if_neg (by omega), if_neg (by omega)]
  cases arrivals with
  | nil => rfl
  | cons k arrivals =>
    simp only []
    split <;> simp

theorem readallLoop_eq {arrivals : List Nat} {stream : Bytes} {num : Nat} {b : Bytes}
    {sock : Socket} (h : readallLoop arrivals stream num = some (b, sock)) :
    takeBytes num stream = some (b, sock.stream) := by
  induction arrivals generalizing stream num b sock with
  | nil =>
    cases num with
    | zero =>
      obtain ⟨rfl, rfl⟩ := Prod.mk.inj (Option.some.inj h)
      simp [takeBytes]
    | succ num => exact absurd h (by simp [readallLoop])
  | cons k arrivals ih =>
    cases num with
    | zero =>
      obtain ⟨rfl, rfl⟩ := Prod.mk.inj (Option.some.inj h)
      simp [takeBytes]
    | succ num =>
      rw [readallLoop] at h
      obtain ⟨⟨c, sock'⟩, hloop, heq⟩ := Option.map_eq_some_iff.mp h
      obtain ⟨rfl, rfl⟩ := Prod.mk.inj heq
      obtain ⟨hdrop, hlen⟩ := takeBytes_eq_some (ih hloop)
      have hle : (stream.take (min k (num + 1))).length ≤ num + 1 := by
        rw [List.length_take]
        omega
      have hstream : stream = stream.take (min k (num + 1)) ++ (c ++ sock'.stream) := by
        conv_lhs => rw [← List.take_append_drop (min k (num + 1)) stream]
        rw [← hdrop, List.length_take]
        congr 1
        rcases Nat.le_total (min k (num + 1)) stream.length with hk | hk
        · rw [Nat.min_eq_left hk]
        · rw [List.drop_eq_nil_of_le hk, Nat.min_eq_right hk, List.drop_length]
      conv_lhs => rw [hstream, ← List.append_assoc]
      exact takeBytes_append (by rw [List.length_append]; omega) _

/-- A read of everything waits only for bytes the stream does not have. -/
theorem readallLoop_delivers {arrivals : List Nat} {stream : Bytes} {num : Nat}
    (h : Delivers ⟨stream, arrivals⟩) :
    (∃ b sock, readallLoop arrivals stream num = some (b, sock) ∧ sock.Delivers) ∨
      stream.length < num := by
  induction arrivals generalizing stream num with
  | nil =>
    cases num with
    | zero => exact Or.inl ⟨[], ⟨stream, []⟩, rfl, h⟩
    | succ num =>
      right
      have hlen : stream.length ≤ 0 := h
      omega
  | cons k arrivals ih =>
    cases num with
    | zero => exact Or.inl ⟨[], ⟨stream, k :: arrivals⟩, rfl, h⟩
    | succ num =>
      rcases @ih _ (num + 1 - (stream.take (min k (num + 1))).length)
        (h.tail (Nat.succ_pos num)) with ⟨b, sock, hloop, hsock⟩ | hshort
      · exact Or.inl ⟨_, sock, by rw [readallLoop, hloop]; rfl, hsock⟩
      · right
        simp only [List.length_drop, List.length_take] at hshort
        omega

end Socket

theorem asInt_of_lt {n : Nat} (h : n < 2 ^ 31) : asInt n = n := if_pos h

theorem asInt_neg {n : Nat} (h : 2 ^ 31 ≤ n) (hlt : n < 2 ^ 32) : asInt n < 0 := by
  rw [asInt, if_neg (by omega)]
  omega

/-! ## The blocking reader -/

/-- A read of all bytes of a length, as a number that may be negative. -/
theorem readall_asInt {sock sock' : Socket} {n : Nat} {data : Bytes}
    (hn : n < 2 ^ 32) (h : sock.readall (asInt n) = some (data, sock')) :
    takeBytes (if 2 ^ 31 ≤ n then 0 else n) sock.stream = some (data, sock'.stream) := by
  have hnum : (asInt n).toNat = if 2 ^ 31 ≤ n then 0 else n := by
    split
    · next hbig => exact Int.toNat_of_nonpos (asInt_neg hbig hn).le
    · next hsmall => rw [asInt_of_lt (by omega)]; rfl
  have hloop : Socket.readallLoop sock.arrivals sock.stream (asInt n).toNat =
      some (data, sock') := h
  rw [← hnum, Socket.readallLoop_eq hloop]

theorem ofLE_lt_of_length {b : Bytes} (h : b.length = 4) : ofLE b < 2 ^ 32 := by
  have hpow : (256 : Nat) ^ 4 = 2 ^ 32 := by norm_num
  rw [← hpow, ← h]
  exact ofLE_lt b

/-- `get_result` returns the first result of the stream. -/
theorem nextResult_of_getResult {sock sock' : Socket} {res : Result}
    (h : getResult sock = some (res, sock')) :
    nextResult sock.stream = some (res, sock'.stream) := by
  unfold getResult at h
  obtain ⟨⟨len, mid⟩, hlen, hrest⟩ := Option.bind_eq_some_iff.mp h
  obtain ⟨hstream, hfour⟩ := takeBytes_eq_some (Socket.readallLoop_eq hlen)
  obtain ⟨⟨data, last⟩, hdata, hret⟩ := Option.bind_eq_some_iff.mp hrest
  have hfour : len.length = 4 := hfour
  have hbody := readall_asInt (ofLE_lt_of_length hfour) hdata
  rw [hstream, nextResult_append hfour]
  simp only [] at hret hbody
  by_cases hbig : 2 ^ 31 ≤ ofLE len
  · rw [if_pos hbig] at hbody ⊢
    obtain ⟨hmid, hnil⟩ := takeBytes_eq_some hbody
    rw [if_pos (by omega)] at hret
    obtain ⟨rfl, rfl⟩ := Prod.mk.inj (Option.some.inj hret)
    rw [hmid, List.eq_nil_of_length_eq_zero hnil]
    rfl
  · rw [if_neg hbig] at hbody ⊢
    obtain ⟨-, hlength⟩ := takeBytes_eq_some hbody
    rw [if_neg (by omega)] at hret
    obtain ⟨rfl, rfl⟩ := Prod.mk.inj (Option.some.inj hret)
    rw [hbody]
    rfl

theorem getResult_eq {sock mid last : Socket} {len data : Bytes}
    (hlen : sock.readall 4 = some (len, mid))
    (hdata : mid.readall (asInt (ofLE len)) = some (data, last)) :
    getResult sock =
      some (if data.length ≠ ofLE len then .ok none else parseResult data, last) := by
  rw [getResult, hlen, Option.bind_eq_bind, Option.bind_some]
  simp only []
  rw [hdata, Option.bind_some]
  simp only []
  split <;> rfl

/-- `get_result` waits only for bytes that the stream does not have. -/
theorem getResult_delivers {sock : Socket} (h : sock.Delivers) :
    (∃ res sock', getResult sock = some (res, sock') ∧ sock'.Delivers) ∨
      nextResult sock.stream = none := by
  rcases @Socket.readallLoop_delivers _ _ 4 h with ⟨len, mid, hlen, hmid⟩ | hshort
  · have hfirst : sock.readall 4 = some (len, mid) := hlen
    obtain ⟨hstream, hfour⟩ := takeBytes_eq_some (Socket.readallLoop_eq hlen)
    rcases @Socket.readallLoop_delivers _ _ (asInt (ofLE len)).toNat hmid with
      ⟨data, last, hdata, hlast⟩ | hshort
    · have hsecond : mid.readall (asInt (ofLE len)) = some (data, last) := hdata
      exact Or.inl ⟨_, last, getResult_eq hfirst hsecond, hlast⟩
    · right
      have hlt := ofLE_lt_of_length hfour
      have hsmall : ¬ 2 ^ 31 ≤ ofLE len := by
        intro hbig
        have := asInt_neg hbig hlt
        omega
      rw [asInt_of_lt (by omega), Int.toNat_natCast] at hshort
      rw [hstream, nextResult_append hfour, if_neg hsmall, takeBytes_eq_none.mpr hshort]
      rfl
  · exact Or.inr (nextResult_eq_none hshort)

theorem blockingResults_first (n : Nat) (sock : Socket) :
    blockingResults n sock <+: results sock.stream := by
  induction n generalizing sock with
  | zero => exact List.nil_prefix
  | succ n ih =>
    rw [blockingResults]
    cases hget : getResult sock with
    | none => exact List.nil_prefix
    | some x =>
      obtain ⟨res, sock'⟩ := x
      rw [results_eq_cons (nextResult_of_getResult hget)]
      exact (List.prefix_cons_inj res).mpr (ih sock')

theorem blockingResults_eq {n : Nat} {sock : Socket} (h : sock.Delivers)
    (hn : sock.stream.length ≤ n) : blockingResults n sock = results sock.stream := by
  induction n generalizing sock with
  | zero =>
    rw [results_eq_nil (nextResult_eq_none (by omega))]
    rfl
  | succ n ih =>
    rw [blockingResults]
    rcases getResult_delivers h with ⟨res, sock', hget, hsock⟩ | hnone
    · have hnext := nextResult_of_getResult hget
      have hlen := nextResult_shorter hnext
      rw [hget, results_eq_cons hnext]
      simp only []
      rw [ih hsock (by omega)]
    · rw [results_eq_nil hnone]
      cases hget : getResult sock with
      | none => rfl
      | some x => exact absurd ((nextResult_of_getResult hget).symm.trans hnone) (by simp)

/-! ## The reader that does not wait -/

namespace Reader

/-- The reader between two calls. -/
structure Valid (r : Reader) : Prop where
  bytesread : r.bytesread = r.data.length
  state : (r.state = 0 ∧ r.bytestoread = 4 ∧ r.data.length < 4) ∨
    (r.state = 1 ∧ r.bytestoread = r.respsize ∧ r.data.length < r.respsize ∧
      r.respsize < 2 ^ 31)

/-- The bytes of the response that the reader has taken. -/
def pending (r : Reader) : Bytes :=
  if r.state = 0 then r.data else toLE 4 r.respsize ++ r.data

theorem valid_init (r : Reader) : r.init.Valid :=
  ⟨rfl, Or.inl ⟨rfl, rfl, Nat.zero_lt_succ 3⟩⟩

@[simp] theorem pending_init (r : Reader) : r.init.pending = [] := rfl

theorem store_data (r : Reader) (h : r.bytesread = r.data.length) (b : Bytes) :
    (r.store b).data = r.data ++ b ∧ (r.store b).bytesread = (r.store b).data.length := by
  have hdata : (r.store b).data = r.data ++ b := by rw [store, h, List.take_length]
  refine ⟨hdata, ?_⟩
  rw [hdata, List.length_append, ← h]
  rfl

/-- Nothing but the bytes already taken is not a whole response. -/
theorem Valid.nextResult_pending {r : Reader} (h : r.Valid) : nextResult r.pending = none := by
  unfold pending
  rcases h.state with ⟨hstate, -, hlen⟩ | ⟨hstate, -, hlen, hsize⟩
  · rw [if_pos hstate]
    exact nextResult_eq_none hlen
  · have hof : ofLE (toLE 4 r.respsize) = r.respsize := by
      rw [ofLE_toLE]
      exact Nat.mod_eq_of_lt (by omega)
    rw [if_neg (by omega), nextResult_append (length_toLE 4 _), hof, if_neg (by omega),
      takeBytes_eq_none.mpr hlen]
    rfl

end Reader

/-- A call that needs more keeps the stream; one that is ready has its first result, and
the reader is at the start again. -/
inductive Async.Takes (stream : Bytes) : Async → Prop where
  | needmore {sock : Socket} {r : Reader} (valid : r.Valid)
      (keeps : r.pending ++ sock.stream = stream) : Takes stream ⟨none, sock, r⟩
  | ready {sock : Socket} {r : Reader} {res : Result}
      (next : nextResult stream = some (res, sock.stream)) : Takes stream ⟨some res, sock, r.init⟩

theorem asyncTurn_wouldblock {again : Socket → Reader → Async} {sock sock' : Socket} {r : Reader}
    (h : sock.readNoblock (asInt (r.bytestoread - r.bytesread)) = (.wouldblock, sock')) :
    asyncTurn again sock r = ⟨none, sock', r⟩ := by
  rw [asyncTurn, h]

theorem asyncTurn_nothing {again : Socket → Reader → Async} {sock sock' : Socket} {r : Reader}
    {rd : Rd} (h : sock.readNoblock (asInt (r.bytestoread - r.bytesread)) = (rd, sock'))
    (hrd : rd = .error ∨ rd = .bytes []) :
    asyncTurn again sock r = ⟨some (.ok none), sock', r.init⟩ := by
  rw [asyncTurn, h]
  rcases hrd with rfl | rfl <;> rfl

theorem asyncTurn_bytes {again : Socket → Reader → Async} {sock sock' : Socket} {r : Reader}
    {x : UInt8} {b : Bytes}
    (h : sock.readNoblock (asInt (r.bytestoread - r.bytesread)) = (.bytes (x :: b), sock')) :
    asyncTurn again sock r =
      if (r.store (x :: b)).bytesread = r.bytestoread then
        if r.state = 0 then again sock' (r.store (x :: b)).toBody
        else ⟨some (parseResult ((r.store (x :: b)).data.take r.respsize)), sock',
          (r.store (x :: b)).init⟩
      else ⟨none, sock', r.store (x :: b)⟩ := by
  rw [asyncTurn, h]
  rfl

/-- A turn in the middle of a body. -/
theorem asyncTurn_body {again : Socket → Reader → Async} {sock : Socket} {r : Reader}
    (h : r.Valid) (hstate : r.state = 1) :
    Async.Takes (r.pending ++ sock.stream) (asyncTurn again sock r) := by
  obtain ⟨-, hto, hlen, hsize⟩ := h.state.resolve_left (by omega)
  have hread := h.bytesread
  have hnum : asInt (r.bytestoread - r.bytesread) = ((r.respsize - r.data.length : Nat) : Int) := by
    rw [hto, hread]
    exact asInt_of_lt (by omega)
  have hof : ofLE (toLE 4 r.respsize) = r.respsize := by
    rw [ofLE_toLE]
    exact Nat.mod_eq_of_lt (by omega)
  rcases @Socket.readNoblock_pos sock ((r.respsize - r.data.length : Nat) : Int) (by omega) with
    ⟨arrivals, heq⟩ | ⟨x, b, tail, arrivals, hstream, hle, heq⟩
  · rw [asyncTurn_wouldblock (hnum ▸ heq)]
    exact .needmore h rfl
  · rw [asyncTurn_bytes (hnum ▸ heq), if_neg (show ¬ r.state = 0 by omega)]
    obtain ⟨hdata, hlength⟩ := r.store_data h.bytesread (x :: b)
    rw [Int.toNat_natCast] at hle
    have hpending : r.pending ++ sock.stream =
        toLE 4 r.respsize ++ ((r.store (x :: b)).data ++ tail) := by
      rw [Reader.pending, if_neg (by omega), hstream, hdata]
      simp only [List.append_assoc]
    by_cases hdone : (r.store (x :: b)).bytesread = r.bytestoread
    · have hfull : (r.store (x :: b)).data.length = r.respsize := by omega
      rw [if_pos hdone]
      refine .ready ?_
      rw [hpending, nextResult_append (length_toLE 4 _), hof, if_neg (by omega),
        takeBytes_append hfull, List.take_of_length_le hfull.le]
      rfl
    · rw [if_neg hdone]
      have hless : (r.store (x :: b)).data.length < r.respsize := by
        rw [hlength, hto] at hdone
        rw [hdata, List.length_append] at hdone ⊢
        omega
      refine .needmore ⟨hlength, Or.inr ⟨hstate, hto, hless, hsize⟩⟩ ?_
      rw [hpending, Reader.pending, if_neg (show ¬ (r.store (x :: b)).state = 0 from
        fun h => absurd (hstate.symm.trans h) (by simp)), List.append_assoc]
      rfl

/-- The turn that begins a body. -/
theorem asyncTurn_toBody {again : Socket → Reader → Async} {sock : Socket} {r : Reader}
    (h : r.data.length = 4) :
    Async.Takes (r.data ++ sock.stream) (asyncTurn again sock r.toBody) := by
  have hlt := ofLE_lt_of_length h
  by_cases hbig : 2 ^ 31 ≤ ofLE r.data
  · have hneg : asInt (r.toBody.bytestoread - r.toBody.bytesread) < 0 := asInt_neg hbig hlt
    rw [asyncTurn_nothing (if_pos hneg) (Or.inl rfl)]
    refine .ready ?_
    rw [nextResult_append h, if_pos hbig]
  · by_cases hzero : ofLE r.data = 0
    · have hnum : asInt (r.toBody.bytestoread - r.toBody.bytesread) = 0 := by
        rw [Reader.toBody, hzero]
        exact asInt_of_lt (Nat.two_pow_pos 31)
      have hnot : ¬ asInt (r.toBody.bytestoread - r.toBody.bytesread) < 0 := by omega
      rw [asyncTurn_nothing ((if_neg hnot).trans (if_pos hnum)) (Or.inr rfl)]
      refine .ready ?_
      rw [nextResult_append h, if_neg hbig, hzero]
      rfl
    · have hvalid : r.toBody.Valid :=
        ⟨rfl, Or.inr ⟨rfl, rfl, Nat.pos_of_ne_zero hzero, Nat.lt_of_not_le hbig⟩⟩
      have hpending : r.toBody.pending = r.data := by
        have hto := toLE_ofLE r.data
        rw [h] at hto
        simpa [Reader.pending, Reader.toBody] using hto
      rw [← hpending]
      exact asyncTurn_body hvalid rfl

theorem getResultAsync_takes {sock : Socket} {r : Reader} (h : r.Valid) :
    Async.Takes (r.pending ++ sock.stream) (getResultAsync sock r) := by
  rcases h.state with ⟨hstate, hto, hlen⟩ | ⟨hstate, -, -, -⟩
  · have hread := h.bytesread
    have hnum : asInt (r.bytestoread - r.bytesread) = ((4 - r.data.length : Nat) : Int) := by
      rw [hto, hread]
      exact asInt_of_lt (by omega)
    unfold getResultAsync
    rcases @Socket.readNoblock_pos sock ((4 - r.data.length : Nat) : Int) (by omega) with
      ⟨arrivals, heq⟩ | ⟨x, b, tail, arrivals, hstream, hle, heq⟩
    · rw [asyncTurn_wouldblock (hnum ▸ heq)]
      exact .needmore h rfl
    · rw [asyncTurn_bytes (hnum ▸ heq), if_pos hstate]
      obtain ⟨hdata, hlength⟩ := r.store_data h.bytesread (x :: b)
      rw [Int.toNat_natCast] at hle
      have hpending : r.pending ++ sock.stream = (r.store (x :: b)).data ++ tail := by
        rw [Reader.pending, if_pos hstate, hstream, hdata, List.append_assoc]
      by_cases hdone : (r.store (x :: b)).bytesread = r.bytestoread
      · have hfour : (r.store (x :: b)).data.length = 4 := by omega
        rw [if_pos hdone, hpending]
        exact @asyncTurn_toBody _ ⟨tail, arrivals⟩ _ hfour
      · have hless : (r.store (x :: b)).data.length < 4 := by
          rw [hlength, hto] at hdone
          rw [hdata, List.length_append] at hdone ⊢
          omega
        rw [if_neg hdone, hpending]
        refine .needmore ⟨hlength, Or.inl ⟨hstate, hto, hless⟩⟩ ?_
        rw [Reader.pending, if_pos (show (r.store (x :: b)).state = 0 from hstate)]
  · exact asyncTurn_body h hstate

/-- A turn does to the socket what its reads do. -/
theorem asyncTurn_sock {P : Socket → Prop} {again : Socket → Reader → Async} {sock : Socket}
    {r : Reader} (hread : ∀ num, P (sock.readNoblock num).2)
    (hagain : ∀ num r, P (again (sock.readNoblock num).2 r).sock) :
    P (asyncTurn again sock r).sock := by
  have hsock := hread (asInt (r.bytestoread - r.bytesread))
  have hnext := hagain (asInt (r.bytestoread - r.bytesread))
  cases hrd : sock.readNoblock (asInt (r.bytestoread - r.bytesread)) with
  | mk rd sock' =>
    rw [hrd] at hsock hnext
    cases rd with
    | wouldblock => rw [asyncTurn_wouldblock hrd]; exact hsock
    | error => rw [asyncTurn_nothing hrd (Or.inl rfl)]; exact hsock
    | bytes b =>
      cases b with
      | nil => rw [asyncTurn_nothing hrd (Or.inr rfl)]; exact hsock
      | cons x b =>
        rw [asyncTurn_bytes hrd]
        split
        · split
          · exact hnext _
          · exact hsock
        · exact hsock

theorem getResultAsync_delivers {sock : Socket} {r : Reader} (h : sock.Delivers) :
    (getResultAsync sock r).sock.Delivers :=
  asyncTurn_sock (P := Socket.Delivers) (fun _ => Socket.readNoblock_delivers h) fun _ _ =>
    asyncTurn_sock (P := Socket.Delivers)
      (fun _ => Socket.readNoblock_delivers (Socket.readNoblock_delivers h))
      fun _ _ => Socket.readNoblock_delivers (Socket.readNoblock_delivers h)

/-- Every call uses an arrival up. -/
theorem getResultAsync_arrivals {sock : Socket} {r : Reader} (h : r.Valid) :
    (getResultAsync sock r).sock.arrivals.length ≤ sock.arrivals.length - 1 := by
  have hpos : 0 < asInt (r.bytestoread - r.bytesread) := by
    have hread := h.bytesread
    rw [asInt_of_lt (by rcases h.state with h | h <;> omega)]
    rcases h.state with h | h <;> omega
  unfold getResultAsync
  have hfirst := @Socket.readNoblock_arrivals sock _ hpos
  cases hrd : sock.readNoblock (asInt (r.bytestoread - r.bytesread)) with
  | mk rd sock' =>
    rw [hrd] at hfirst
    cases rd with
    | wouldblock => rw [asyncTurn_wouldblock hrd]; exact hfirst.le
    | error => rw [asyncTurn_nothing hrd (Or.inl rfl)]; exact hfirst.le
    | bytes b =>
      cases b with
      | nil => rw [asyncTurn_nothing hrd (Or.inr rfl)]; exact hfirst.le
      | cons x b =>
        rw [asyncTurn_bytes hrd]
        split
        · split
          · refine asyncTurn_sock (P := fun s => s.arrivals.length ≤ sock.arrivals.length - 1)
              ?_ ?_
            · exact fun num => (Socket.readNoblock_arrivals_le sock' num).trans hfirst.le
            · exact fun num _ => (Socket.readNoblock_arrivals_le sock' num).trans hfirst.le
          · exact hfirst.le
        · exact hfirst.le

/-- The reader and the socket that `n` calls leave. -/
def asyncAfter : Nat → Socket → Reader → Socket × Reader
  | 0, sock, r => (sock, r)
  | n + 1, sock, r =>
    asyncAfter n (getResultAsync sock r).sock (getResultAsync sock r).reader

/-- The results of the calls are the first ones of the stream, and the others are still to
come. -/
theorem asyncResults_append (n : Nat) {sock : Socket} {r : Reader} (h : r.Valid) :
    results (r.pending ++ sock.stream) =
        (asyncResults n sock r).map Prod.fst ++
          results ((asyncAfter n sock r).2.pending ++ (asyncAfter n sock r).1.stream) ∧
      (asyncAfter n sock r).2.Valid ∧
      ∀ d ∈ asyncResults n sock r, d.2.init = d.2 := by
  induction n generalizing sock r with
  | zero => exact ⟨rfl, h, by simp [asyncResults]⟩
  | succ n ih =>
    have htakes := @getResultAsync_takes sock r h
    rw [asyncResults, asyncAfter]
    generalize getResultAsync sock r = t at htakes ⊢
    cases htakes with
    | needmore valid keeps =>
      obtain ⟨hres, hvalid, hinit⟩ := ih valid
      rw [keeps] at hres
      exact ⟨hres, hvalid, hinit⟩
    | @ready sock' r' res next =>
      obtain ⟨hres, hvalid, hinit⟩ := @ih sock' r'.init r'.valid_init
      refine ⟨?_, hvalid, ?_⟩
      · rw [results_eq_cons next]
        exact congrArg (res :: ·) hres
      · intro d hd
        rcases List.mem_cons.mp hd with rfl | hd
        · rfl
        · exact hinit d hd

theorem asyncAfter_stream {n : Nat} {sock : Socket} {r : Reader} (h : r.Valid)
    (hsock : sock.Delivers) (hn : sock.arrivals.length ≤ n) :
    (asyncAfter n sock r).1.stream = [] := by
  induction n generalizing sock r with
  | zero =>
    have harr : sock.arrivals = [] := List.eq_nil_of_length_eq_zero (by omega)
    have hlen : sock.stream.length ≤ 0 := by
      have := hsock
      rw [Socket.Delivers, harr] at this
      exact this
    exact List.eq_nil_of_length_eq_zero (Nat.le_zero.mp hlen)
  | succ n ih =>
    have hvalid : (getResultAsync sock r).reader.Valid := by
      have htakes := @getResultAsync_takes sock r h
      generalize getResultAsync sock r = t at htakes ⊢
      cases htakes with
      | needmore valid _ => exact valid
      | @ready _ r' _ _ => exact r'.valid_init
    have harr := @getResultAsync_arrivals sock r h
    exact ih hvalid (getResultAsync_delivers hsock) (by omega)

/-- Whatever a read finds, the two ways to wait for results give the same ones, as far as
both have come; when all bytes have arrived, they give all of them.  Behind a result the
reader is as `async_result_reader_init` leaves it. -/
theorem async_results_eq_blocking (stream : Bytes) (arrivals waits : List Nat) (n m : Nat)
    (r : Reader) :
    (∀ d ∈ asyncResults n ⟨stream, arrivals⟩ r.init, d.2.init = d.2) ∧
      ((asyncResults n ⟨stream, arrivals⟩ r.init).map Prod.fst <+:
          blockingResults m ⟨stream, waits⟩ ∨
        blockingResults m ⟨stream, waits⟩ <+:
          (asyncResults n ⟨stream, arrivals⟩ r.init).map Prod.fst) ∧
      (Socket.Delivers ⟨stream, arrivals⟩ → arrivals.length ≤ n →
        Socket.Delivers ⟨stream, waits⟩ → stream.length ≤ m →
        (asyncResults n ⟨stream, arrivals⟩ r.init).map Prod.fst =
          blockingResults m ⟨stream, waits⟩) := by
  obtain ⟨hres, hvalid, hinit⟩ :=
    @asyncResults_append n ⟨stream, arrivals⟩ _ r.valid_init
  rw [Reader.pending_init, List.nil_append] at hres
  refine ⟨hinit, ?_, ?_⟩
  · have hasync : (asyncResults n ⟨stream, arrivals⟩ r.init).map Prod.fst <+: results stream :=
      ⟨_, hres.symm⟩
    exact List.prefix_or_prefix_of_prefix hasync (blockingResults_first m ⟨stream, waits⟩)
  · intro hsock hn hwaits hm
    have hdone := asyncAfter_stream r.valid_init hsock hn
    rw [hdone, List.append_nil, results_eq_nil hvalid.nextResult_pending,
      List.append_nil] at hres
    rw [← hres]
    exact (blockingResults_eq hwaits hm).symm

/-- Two responses, the first cut inside its length, and a read that finds nothing. -/
theorem async_results_eq_blocking_split :
    (asyncResults 12 ⟨[1, 0, 0, 0, 203, 2, 0, 0, 0, 8, 7], [1, 3, 0, 1, 2, 1, 1, 1, 1, 1, 1, 1]⟩
        (Reader.init ⟨0, 0, 0, 0, []⟩)).map Prod.fst =
      blockingResults 11 ⟨[1, 0, 0, 0, 203, 2, 0, 0, 0, 8, 7], List.replicate 11 1⟩ :=
  (async_results_eq_blocking [1, 0, 0, 0, 203, 2, 0, 0, 0, 8, 7]
    [1, 3, 0, 1, 2, 1, 1, 1, 1, 1, 1, 1] (List.replicate 11 1) 12 11 ⟨0, 0, 0, 0, []⟩).2.2
    (by simp [Socket.Delivers]) (by simp) (by simp [Socket.Delivers]) (by simp)

end PcloudClient.Papi
