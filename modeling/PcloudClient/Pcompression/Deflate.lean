/-
  Pcompression/Deflate.lean --- a compression stream with its output ring (`pcompression.c`).

  Output waits in three places: in the ring, in a buffer that a flush allocates when the ring is
  full, and inside zlib.  zlib is a parameter, with what its manual says of a stream that works.
-/
import PcloudClient.Foundation.Outcome
import PcloudClient.Foundation.Ring
import PcloudClient.Foundation.Runs

set_option autoImplicit false

namespace PcloudClient.Pcompression

open Bytes

/-- `BUFFER_SIZE` -/
abbrev bufferSize : Nat := 4096

/-! ## zlib -/

inductive ZFlush where
  | noFlush
  | partialFlush
  | syncFlush
  | finish
  deriving DecidableEq, Repr

/-- What `deflate` and `inflate` return; `other` is a missing dictionary or memory. -/
inductive ZRet where
  | ok
  | streamEnd
  | bufError
  | streamError
  | dataError
  | other
  deriving DecidableEq, Repr

/-- One call: how much of the input it took and what it wrote. -/
structure ZResult (σ : Type) where
  state : σ
  consumed : Nat
  out : Bytes
  ret : ZRet

/-- zlib.  `call true` is `deflate` and `call false` is `inflate`, each with its flush mode, its
input and the room it has for output.  `owed` is the output that is determined and not yet
written, `finishing` says that `Z_FINISH` was asked for, and `budget` bounds what calls with one
flush mode still write for some input. -/
structure Zlib where
  State : Type
  init : Int → State
  call : Bool → State → ZFlush → Bytes → Nat → ZResult State
  owed : State → Bytes
  finishing : State → Bool
  budget : State → ZFlush → Bytes → Nat
  init_owed : ∀ level, owed (init level) = []
  init_finishing : ∀ level, finishing (init level) = false
  /-- The output does not exceed the room. -/
  out_le : ∀ d s f data avail, (call d s f data avail).out.length ≤ avail
  /-- Output is only added at the end. -/
  appends : ∀ d s f data avail,
    owed s <+: (call d s f data avail).out ++ owed (call d s f data avail).state
  /-- Room that is left over, and every return code but `Z_OK`, say that nothing is owed. -/
  drained : ∀ d s f data avail, 0 < avail → (call d s f data avail).ret ≠ .streamError →
    (call d s f data avail).out.length < avail ∨ (call d s f data avail).ret ≠ .ok →
      owed (call d s f data avail).state = []
  /-- `Z_BUF_ERROR` means that no progress was possible. -/
  bufError_out : ∀ d s f data avail, (call d s f data avail).ret = .bufError →
    (call d s f data avail).out = []
  /-- `Z_STREAM_ERROR` is for another mode after `Z_FINISH`, and changes nothing. -/
  refused : ∀ d s f data avail, (call d s f data avail).ret = .streamError →
    finishing s = true ∧ f ≠ .finish ∧ (call d s f data avail).out = [] ∧
      (call d s f data avail).state = s
  /-- Only `deflate` with `Z_FINISH` starts to finish. -/
  finishing_of : ∀ d s f data avail, finishing (call d s f data avail).state = true →
    finishing s = true ∨ d = true ∧ f = .finish
  /-- Once it finishes, `deflate` refuses the other modes. -/
  finishing_refuses : ∀ s f data avail, finishing s = true → f ≠ .finish →
    (call true s f data avail).ret = .streamError
  /-- Before, `deflate` makes progress or says that it cannot. -/
  accepts : ∀ s f data avail, finishing s = false → f ≠ .finish →
    (call true s f data avail).ret = .ok ∨ (call true s f data avail).ret = .bufError
  budget_le : ∀ d s f data avail,
    (call d s f data avail).out.length +
      budget (call d s f data avail).state f (data.drop (call d s f data avail).consumed) ≤
      budget s f data

/-! ## The stream -/

/-- How a call can fail to return. -/
inductive Fault where
  | assertFailed
  /-- The size of the flush buffer wrapped around. -/
  | heapOverflow
  | diverges
  deriving DecidableEq, Repr

/-- `assert(cond)` -/
def assert (cond : Prop) [Decidable cond] : Except Fault Unit :=
  if cond then .ok () else .error .assertFailed

@[simp] theorem assert_true {cond : Prop} [Decidable cond] (h : cond) : assert cond = .ok () :=
  if_pos h

/-- `PSYNC_DEFLATE_DECOMPRESS` -/
abbrev deflateDecompress : Int := 0

/-- `PSYNC_DEFLATE_NOFLUSH` -/
abbrev noflush : Int := 0

/-- `PSYNC_DEFLATE_FLUSH` -/
abbrev flush : Int := 1

/-- `PSYNC_DEFLATE_FLUSH_END` -/
abbrev flushEnd : Int := 2

/-- `PSYNC_DEFLATE_NODATA` -/
abbrev nodata : Int := -1

/-- `PSYNC_DEFLATE_FULL` -/
abbrev full : Int := -2

/-- `PSYNC_DEFLATE_ERROR` -/
abbrev error : Int := -3

/-- `PSYNC_DEFLATE_EOF` -/
abbrev eof : Int := 0

/-- `psync_translate_flush` -/
def psyncTranslateFlush (f : Int) : ZFlush :=
  if f = noflush then .noFlush
  else if f = flush then .partialFlush
  else if f = flushEnd then .finish
  else .noFlush

/-- `psync_deflate_t`.  `flushbuff` holds the `flushbufflen` bytes in use; the flags are
`FLAG_DEFLATE`, `FLAG_MORE_DATA` and `FLAG_STREAM_END`.  `zout` is all that zlib wrote and
`zcalls` counts its calls; neither is in the source. -/
structure Deflate (z : Zlib) where
  stream : z.State
  flushbuff : Option Bytes
  flushbuffoff : Nat
  bufferstartoff : Nat
  bufferendoff : Nat
  isDeflate : Bool
  moreData : Bool
  streamEnd : Bool
  buffer : Fixed bufferSize
  zout : Bytes
  zcalls : Nat

variable {z : Zlib}

/-- `psync_deflate_init`; `buffer` is what the memory held before. -/
def psyncDeflateInit (z : Zlib) (level : Int) (buffer : Fixed bufferSize) : Deflate z where
  stream := z.init level
  flushbuff := none
  flushbuffoff := 0
  bufferstartoff := 0
  bufferendoff := 0
  isDeflate := decide (level ≠ deflateDecompress)
  moreData := false
  streamEnd := false
  buffer := buffer
  zout := []
  zcalls := 0

namespace Deflate

/-- `psync_deflate_set_out_buff`: where zlib may write and how much, unless the ring is full. -/
def setOutBuff (def_ : Deflate z) : Except Fault (Option (Nat × Nat)) :=
  if def_.bufferendoff - def_.bufferstartoff = bufferSize then .ok none
  else
    let stop := def_.bufferendoff % bufferSize
    let availOut :=
      if stop < def_.bufferstartoff then def_.bufferstartoff - stop else bufferSize - stop
    (assert (availOut ≠ 0)).bind fun _ => .ok (some (stop, availOut))

/-- The call itself, as `deflate` or `inflate`. -/
def zcall (def_ : Deflate z) (f : Int) (input : Bytes) (availOut : Nat) : ZResult z.State :=
  z.call def_.isDeflate def_.stream
    (if def_.isDeflate then psyncTranslateFlush f else .syncFlush) input availOut

/-- The stream after a call. -/
def called (def_ : Deflate z) (r : ZResult z.State) (availOut : Nat) : Deflate z :=
  { def_ with
    stream := r.state
    moreData := decide (availOut - r.out.length = 0)
    zout := def_.zout ++ r.out
    zcalls := def_.zcalls + 1 }

/-- `psync_deflate_call_compressor` into the ring at `stop`, which moves the end. -/
def callCompressorRing (def_ : Deflate z) (f : Int) (input : Bytes) (stop availOut : Nat) :
    Except Fault (ZRet × Bytes × Deflate z) :=
  (assert (availOut ≠ 0)).bind fun _ =>
    let r := def_.zcall f input availOut
    .ok (r.ret, input.drop r.consumed,
      { def_.called r availOut with
        buffer := def_.buffer.write stop r.out
        bufferendoff := def_.bufferendoff + r.out.length })

/-- `psync_deflate_call_compressor` into the memory of the caller. -/
def callCompressorDirect (def_ : Deflate z) (f : Int) (input : Bytes) (availOut : Nat) :
    Except Fault (ZRet × Bytes × Deflate z) :=
  (assert (availOut ≠ 0)).bind fun _ =>
    let r := def_.zcall f input availOut
    .ok (r.ret, r.out, def_.called r availOut)

/-- The stream after a call into the flush buffer. -/
def flushCalled (def_ : Deflate z) (r : ZResult z.State) : Deflate z :=
  { def_ with
    stream := r.state
    zout := def_.zout ++ r.out
    zcalls := def_.zcalls + 1 }

/-- The loop of `psync_deflate_finish_flush_add_buffer`.  `buff` are the `used` bytes and
`alloced` the size of the memory. -/
def finishFlushLoop (f : Int) : Nat → Deflate z → Bytes → Nat → Bytes →
    Except Fault (ZRet × Bytes × Deflate z)
  | 0, _, _, _, _ => .error .diverges
  | fuel + 1, def_, buff, alloced, input =>
    let current := alloced - buff.length
    let r := z.call true def_.stream (psyncTranslateFlush f) input current
    let rest := input.drop r.consumed
    let def_ := def_.flushCalled r
    if r.ret ≠ .ok then
      -- the memory is not freed and what it holds is lost
      if r.ret ≠ .bufError then .ok (r.ret, rest, def_)
      else if buff.length = 0 then .ok (.ok, rest, def_)
      else .ok (.ok, rest, { def_ with flushbuff := some buff })
    else if current - r.out.length ≠ 0 then
      .ok (.ok, rest, { def_ with flushbuff := some (buff ++ r.out) })
    -- `alloced` is a `uint32_t`
    else if 2 ^ 32 ≤ alloced * 2 then .error .heapOverflow
    else finishFlushLoop f fuel def_ (buff ++ r.out) (alloced * 2) rest

/-- `psync_deflate_finish_flush_add_buffer` -/
def finishFlushAddBuffer (def_ : Deflate z) (f : Int) (input : Bytes) :
    Except Fault (ZRet × Bytes × Deflate z) :=
  finishFlushLoop f (z.budget def_.stream (psyncTranslateFlush f) input + 1)
    { def_ with moreData := false, flushbuffoff := 0 } [] 4096 input

/-- The second call of `psync_deflate_write`, into the free bytes at the start of the ring. -/
def writeAgain (f : Int) (ret : ZRet) (rest : Bytes) (def_ : Deflate z) :
    Except Fault (ZRet × Bytes × Deflate z) :=
  if ret = .ok ∧ def_.moreData then
    def_.setOutBuff.bind fun
      | none => .ok (ret, rest, def_)
      | some (stop, availOut) =>
        (def_.callCompressorRing f rest stop availOut).bind fun (ret, rest, def_) =>
          .ok (if ret = .bufError then .ok else ret, rest, def_)
  else .ok (ret, rest, def_)

/-- The last part of `psync_deflate_write`. -/
def writeFlush (f : Int) (ret : ZRet) (rest : Bytes) (def_ : Deflate z) :
    Except Fault (ZRet × Bytes × Deflate z) :=
  if ret = .ok ∧ def_.isDeflate ∧ f ≠ noflush ∧ def_.moreData then
    def_.finishFlushAddBuffer f rest
  else .ok (ret, rest, def_)

/-- What `psync_deflate_write` returns after its calls. -/
def writeReturn (len : Nat) (ret : ZRet) (rest : Bytes) (def_ : Deflate z) : Int × Deflate z :=
  let def_ := if ret = .streamEnd then { def_ with streamEnd := true } else def_
  (if ret = .streamError ∨ ret = .dataError then error else (len - rest.length : Nat), def_)

/-- `psync_deflate_write` -/
def write (def_ : Deflate z) (data : Bytes) (f : Int) : Except Fault (Int × Deflate z) :=
  if data = [] ∧ f = noflush then .ok (error, def_)
  else if def_.flushbuff.isSome then .ok (full, def_)
  else
    def_.setOutBuff.bind fun
      | none => .ok (full, def_)
      | some (stop, availOut) =>
        (def_.callCompressorRing f data stop availOut).bind fun (ret, rest, def_) =>
          (writeAgain f ret rest def_).bind fun (ret, rest, def_) =>
            (writeFlush f ret rest def_).bind fun (ret, rest, def_) =>
              .ok (writeReturn data.length ret rest def_)

/-- `psync_deflate_read` from the flush buffer. -/
def readFlushbuff (def_ : Deflate z) (flushbuff : Bytes) (len : Nat) : Int × Bytes × Deflate z :=
  let len := min len (flushbuff.length - def_.flushbuffoff)
  let off := def_.flushbuffoff + len
  ((len : Int), (flushbuff.drop def_.flushbuffoff).take len,
    { def_ with
      flushbuffoff := off
      flushbuff := if off = flushbuff.length then none else some flushbuff })

/-- `psync_deflate_read` from zlib itself. -/
def readDirect (def_ : Deflate z) (len : Nat) : Except Fault (Int × Bytes × Deflate z) :=
  (def_.callCompressorDirect noflush [] len).bind fun (ret, out, def_) =>
    match ret with
    | .bufError => .ok (nodata, [], def_)
    | .streamError | .dataError => .ok (error, [], def_)
    | .streamEnd =>
      .ok (if out.length = 0 then nodata else out.length, out, { def_ with streamEnd := true })
    | .ok | .other => .ok (if out.length = 0 then nodata else out.length, out, def_)

/-- The bytes that `psync_deflate_read` copies from the ring. -/
def copyRing (def_ : Deflate z) (len : Nat) : Except Fault Bytes :=
  if def_.bufferstartoff + len ≤ bufferSize then
    .ok ((def_.buffer.bytes.drop def_.bufferstartoff).take len)
  else
    (assert (len - (bufferSize - def_.bufferstartoff) = def_.bufferendoff % bufferSize)).bind
      fun _ =>
      .ok (def_.buffer.bytes.drop def_.bufferstartoff ++
        def_.buffer.bytes.take (len - (bufferSize - def_.bufferstartoff)))

/-- The offsets after `len` bytes were copied. -/
def advance (def_ : Deflate z) (len : Nat) : Except Fault (Deflate z) :=
  let start := def_.bufferstartoff + len
  if start = def_.bufferendoff then .ok { def_ with bufferstartoff := 0, bufferendoff := 0 }
  else if bufferSize ≤ start then
    (assert (bufferSize ≤ def_.bufferendoff)).bind fun _ =>
      .ok { def_ with
        bufferstartoff := start - bufferSize
        bufferendoff := def_.bufferendoff - bufferSize }
  else .ok { def_ with bufferstartoff := start }

/-- `psync_deflate_read` from the ring. -/
def readRing (def_ : Deflate z) (len : Nat) : Except Fault (Int × Bytes × Deflate z) :=
  let len := min len (def_.bufferendoff - def_.bufferstartoff)
  (assert (len ≤ bufferSize)).bind fun _ =>
    (assert (def_.bufferstartoff ≤ bufferSize)).bind fun _ =>
      (def_.copyRing len).bind fun data =>
        (def_.advance len).bind fun def_ => .ok ((len : Int), data, def_)

/-- `psync_deflate_read`: what it returns, the bytes it hands out and the stream after it. -/
def read (def_ : Deflate z) (len : Nat) : Except Fault (Int × Bytes × Deflate z) :=
  (assert (def_.bufferstartoff ≤ def_.bufferendoff)).bind fun _ =>
    if def_.bufferendoff = def_.bufferstartoff then
      match def_.flushbuff with
      | some flushbuff => .ok (def_.readFlushbuff flushbuff len)
      | none =>
        if def_.moreData then def_.readDirect len
        else .ok (if def_.streamEnd then eof else nodata, [], def_)
    else def_.readRing len

/-- `psync_deflate_pending` -/
def pending (def_ : Deflate z) : Nat :=
  def_.bufferendoff - def_.bufferstartoff + (def_.flushbuff.map List.length).getD 0

end Deflate

/-! ## Runs -/

/-- A call of `psync_deflate_write` or `psync_deflate_read`. -/
inductive Op where
  | write (data : Bytes) (f : Int)
  | read (len : Nat)
  deriving DecidableEq, Repr

/-- One call: what it returns with the bytes it hands out, and the stream after it. -/
def step (def_ : Deflate z) : Op → Except Fault ((Int × Bytes) × Deflate z)
  | .write data f => (def_.write data f).map fun r => ((r.1, []), r.2)
  | .read len => (def_.read len).map fun r => ((r.1, r.2.1), r.2.2)

/-- All the bytes that the calls handed out. -/
def returned (outs : List (Int × Bytes)) : Bytes := outs.flatMap (·.2)

end PcloudClient.Pcompression
