/-
  Papi/Request.lean --- requests to the API server (`papi.c`, lines 474-546).

  A request is a length of two bytes, the length of the command with a flag for data, the
  length of the data when there is any, the command, the number of parameters and the
  parameters.
-/
import Mathlib.Algebra.Order.BigOperators.Group.List
import PcloudClient.Foundation.Reader

set_option autoImplicit false

namespace PcloudClient.Papi

open PcloudClient.Bytes

/-! ## Parameters -/

/-- The value of a parameter; `opts` of a string is a `uint32_t`. -/
inductive Value where
  | str (str : Bytes) (opts : str.length < 2 ^ 32)
  | num (num : UInt64)
  | bool (val : Bool)
  deriving DecidableEq

/-- `binparam` as `P_LSTR`, `P_NUM` and `P_BOOL` make it. -/
structure Binparam where
  name : Bytes
  value : Value
  deriving DecidableEq

namespace Value

/-- `PARAM_STR`, `PARAM_NUM` and `PARAM_BOOL` -/
def paramtype : Value → Nat
  | .str _ _ => 0
  | .num _ => 1
  | .bool _ => 2

/-- The bytes of a value. -/
def encode : Value → Bytes
  | .str s _ => toLE 4 s.length ++ s
  | .num n => toLE 8 n.toNat
  | .bool b => [if b then 1 else 0]

end Value

namespace Binparam

/-- What `calculate_params_len` adds for a parameter.  The sum for a string is one of
`uint32_t`. -/
def paramLen (p : Binparam) : Nat :=
  match p.value with
  | .str s _ => (p.name.length + s.length + 5) % 2 ^ 32
  | .num _ => p.name.length + 1 + 8
  | .bool _ => p.name.length + 2

/-- The bytes of a parameter. -/
def encode (p : Binparam) : Bytes :=
  UInt8.ofNat (p.value.paramtype <<< 6 + p.name.length) :: (p.name ++ p.value.encode)

end Binparam

/-! ## Writing a request -/

/-- `calculate_params_len` -/
def calculateParamsLen (cmdlen : Nat) (params : List Binparam) (datalen : Int64) : Nat :=
  cmdlen + 2 + (if datalen ≠ -1 then 8 else 0) + (params.map (·.paramLen)).sum

/-- The length of the command with the length of the data. -/
def encodeHead (cmdlen : Nat) (datalen : Int64) : Bytes :=
  if datalen ≠ -1 then UInt8.ofNat (cmdlen ||| 0x80) :: toLE 8 datalen.toUInt64.toNat
  else [UInt8.ofNat cmdlen]

/-- What `do_prepare_command` writes behind the two bytes of the length. -/
def payload (command : Bytes) (params : List Binparam) (datalen : Int64) : Bytes :=
  encodeHead command.length datalen ++ command ++ [UInt8.ofNat params.length] ++
    params.flatMap (·.encode)

/-- `do_prepare_command`: the bytes written and `*retlen`. -/
def doPrepareCommand (command : Bytes) (params : List Binparam) (datalen : Int64) :
    Option (Bytes × Nat) :=
  let plen := calculateParamsLen command.length params datalen
  if 0xffff < plen then none
  else some (toLE 2 plen ++ payload command params datalen, plen + 2)

/-! ## Reading a request -/

/-- A value of the type `t`. -/
def decodeValue (t : Nat) (b : Bytes) : Option (Value × Bytes) :=
  match t with
  | 0 => do
    let (len, b) ← takeBytes 4 b
    let (s, b) ← takeBytes (ofLE len) b
    if h : s.length < 2 ^ 32 then some (.str s h, b) else none
  | 1 => do
    let (n, b) ← takeBytes 8 b
    some (.num (UInt64.ofNat (ofLE n)), b)
  | 2 => do
    let (v, b) ← takeBytes 1 b
    some (.bool (v = [1]), b)
  | _ => none

/-- The first parameter of `b`. -/
def decodeParam (b : Bytes) : Option (Binparam × Bytes) := do
  let (tag, b) ← takeBytes 1 b
  let (name, b) ← takeBytes (ofLE tag % 64) b
  let (value, b) ← decodeValue (ofLE tag / 64) b
  some (⟨name, value⟩, b)

/-- `n` parameters. -/
def decodeParams : Nat → Bytes → Option (List Binparam × Bytes)
  | 0, b => some ([], b)
  | n + 1, b => do
    let (p, b) ← decodeParam b
    let (ps, b) ← decodeParams n b
    some (p :: ps, b)

/-- The length of the command and of the data. -/
def decodeHead (b : Bytes) : Option ((Nat × Int64) × Bytes) := do
  let (c, b) ← takeBytes 1 b
  if ofLE c < 0x80 then some ((ofLE c, -1), b)
  else
    let (n, b) ← takeBytes 8 b
    some ((ofLE c - 0x80, (UInt64.ofNat (ofLE n)).toInt64), b)

/-- The command, the parameters and the length of the data of a whole request. -/
def decodeCommand (b : Bytes) : Option (Bytes × List Binparam × Int64) := do
  let (plen, b) ← takeBytes 2 b
  if b.length ≠ ofLE plen then none
  else
    let ((cmdlen, datalen), b) ← decodeHead b
    let (command, b) ← takeBytes cmdlen b
    let (cnt, b) ← takeBytes 1 b
    let (params, b) ← decodeParams (ofLE cnt) b
    if b = [] then some (command, params, datalen) else none

/-! ## Lengths -/

/-- The exact length of a parameter. -/
def Binparam.exactLen (p : Binparam) : Nat := p.encode.length

/-- The sum for a parameter does not leave `uint32_t`. -/
def Binparam.fits (p : Binparam) : Prop :=
  ∀ s h, p.value = .str s h → p.name.length + s.length + 5 < 2 ^ 32

theorem Binparam.exactLen_eq (p : Binparam) :
    p.exactLen = p.name.length + 1 + p.value.encode.length := by
  simp only [exactLen, encode, List.length_cons, List.length_append]
  omega

theorem Binparam.paramLen_eq {p : Binparam} (h : p.fits) : p.paramLen = p.exactLen := by
  rw [exactLen_eq, paramLen]
  split
  · next s hs hv =>
    rw [Nat.mod_eq_of_lt (h s hs hv), hv]
    simp only [Value.encode, List.length_append, length_toLE]
    omega
  · next n hv =>
    rw [hv]
    simp only [Value.encode, length_toLE]
  · next b hv =>
    rw [hv]
    rfl

theorem Binparam.exactLen_of_not_fits {p : Binparam} (h : ¬ p.fits) : 2 ^ 32 ≤ p.exactLen := by
  simp only [fits, not_forall, not_lt] at h
  obtain ⟨s, hs, hv, hlen⟩ := h
  rw [exactLen_eq, hv]
  simp only [Value.encode, List.length_append, length_toLE]
  omega

theorem length_encodeHead (cmdlen : Nat) (datalen : Int64) :
    (encodeHead cmdlen datalen).length = 1 + if datalen ≠ -1 then 8 else 0 := by
  unfold encodeHead
  split
  · rw [List.length_cons, length_toLE]
  · rfl

theorem length_payload (command : Bytes) (params : List Binparam) (datalen : Int64) :
    (payload command params datalen).length =
      command.length + 2 + (if datalen ≠ -1 then 8 else 0) + (params.map (·.exactLen)).sum := by
  simp only [payload, List.length_append, length_encodeHead, List.length_singleton,
    List.length_flatMap, Binparam.exactLen]
  omega

/-- The length that is computed is the length that is written. -/
theorem calculateParamsLen_eq {command : Bytes} {params : List Binparam} {datalen : Int64}
    (h : ∀ p ∈ params, p.fits) :
    calculateParamsLen command.length params datalen = (payload command params datalen).length := by
  rw [length_payload, calculateParamsLen]
  congr 2
  apply List.map_congr_left
  intro p hp
  exact Binparam.paramLen_eq (h p hp)

/-! ## Reading what was written -/

theorem decodeValue_encode (v : Value) (r : Bytes) :
    decodeValue v.paramtype (v.encode ++ r) = some (v, r) := by
  cases v with
  | str s h =>
    have hlen : ofLE (toLE 4 s.length) = s.length := by
      rw [ofLE_toLE]
      exact Nat.mod_eq_of_lt h
    simp only [decodeValue, Value.paramtype, Value.encode, List.append_assoc, takeBytes_toLE,
      Option.bind_eq_bind, Option.bind_some, hlen, takeBytes_self, h, dif_pos]
  | num n =>
    have hnum : ofLE (toLE 8 n.toNat) = n.toNat := by
      rw [ofLE_toLE]
      exact Nat.mod_eq_of_lt n.toNat_lt
    simp only [decodeValue, Value.paramtype, Value.encode, takeBytes_toLE, Option.bind_eq_bind,
      Option.bind_some, hnum, UInt64.ofNat_toNat]
  | bool b =>
    simp only [decodeValue, Value.paramtype, Value.encode, List.cons_append, takeBytes_one,
      Option.bind_eq_bind, Option.bind_some]
    cases b <;> rfl

theorem decodeParam_encode {p : Binparam} (h : p.name.length < 64) (r : Bytes) :
    decodeParam (p.encode ++ r) = some (p, r) := by
  have htype : p.value.paramtype < 3 := by
    cases p.value <;> simp [Value.paramtype]
  have hshift : p.value.paramtype <<< 6 = p.value.paramtype * 64 := by
    rw [Nat.shiftLeft_eq]
  have htag : ofLE [UInt8.ofNat (p.value.paramtype <<< 6 + p.name.length)] =
      p.value.paramtype * 64 + p.name.length := by
    rw [ofLE_singleton, hshift, UInt8.toNat_ofNat']
    omega
  have hname : (p.value.paramtype * 64 + p.name.length) % 64 = p.name.length := by omega
  have hval : (p.value.paramtype * 64 + p.name.length) / 64 = p.value.paramtype := by omega
  simp only [decodeParam, Binparam.encode, List.cons_append, List.append_assoc, takeBytes_one,
    Option.bind_eq_bind, Option.bind_some, htag, hname, hval, takeBytes_self, decodeValue_encode]

theorem decodeParams_encode {params : List Binparam} (h : ∀ p ∈ params, p.name.length < 64)
    (r : Bytes) :
    decodeParams params.length (params.flatMap (·.encode) ++ r) = some (params, r) := by
  induction params with
  | nil => rfl
  | cons p ps ih =>
    rw [List.flatMap_cons, List.append_assoc, List.length_cons, decodeParams,
      decodeParam_encode (h p (by simp)), Option.bind_eq_bind, Option.bind_some]
    simp only []
    rw [ih fun q hq => h q (by simp [hq]), Option.bind_eq_bind, Option.bind_some]

theorem decodeHead_encode {cmdlen : Nat} (h : cmdlen < 128) (datalen : Int64) (r : Bytes) :
    decodeHead (encodeHead cmdlen datalen ++ r) = some ((cmdlen, datalen), r) := by
  by_cases hdata : datalen = -1
  · have hcmd : ofLE [UInt8.ofNat cmdlen] = cmdlen := by
      rw [ofLE_singleton, UInt8.toNat_ofNat']
      omega
    simp only [encodeHead, hdata, ne_eq, not_true_eq_false, if_false, decodeHead, List.cons_append,
      takeBytes_one, Option.bind_eq_bind, Option.bind_some, hcmd, h, if_true, List.nil_append]
  · have hor : cmdlen ||| 0x80 = cmdlen + 0x80 := by
      have hadd := Nat.two_pow_add_eq_or_of_lt (show cmdlen < 2 ^ 7 from h) 1
      rw [Nat.or_comm, show 0x80 = 2 ^ 7 * 1 from rfl, ← hadd]
      omega
    have hcmd : ofLE [UInt8.ofNat (cmdlen ||| 0x80)] = cmdlen + 0x80 := by
      rw [ofLE_singleton, hor, UInt8.toNat_ofNat']
      omega
    have hnum : ofLE (toLE 8 datalen.toUInt64.toNat) = datalen.toUInt64.toNat := by
      rw [ofLE_toLE]
      exact Nat.mod_eq_of_lt (UInt64.toNat_lt _)
    have hnot : ¬ cmdlen + 0x80 < 0x80 := by omega
    simp only [encodeHead, hdata, ne_eq, not_false_eq_true, if_true, decodeHead, List.cons_append,
      takeBytes_one, Option.bind_eq_bind, Option.bind_some, hcmd, hnot, if_false, takeBytes_toLE,
      hnum, UInt64.ofNat_toNat, Nat.add_sub_cancel]
    rfl

/-- A written payload is read back. -/
theorem decodeCommand_payload {command : Bytes} {params : List Binparam} {datalen : Int64}
    (hcmd : command.length < 128) (hcnt : params.length ≤ 255)
    (hnames : ∀ p ∈ params, p.name.length < 64)
    (hlen : (payload command params datalen).length ≤ 0xffff) :
    decodeCommand
      (toLE 2 (payload command params datalen).length ++ payload command params datalen) =
      some (command, params, datalen) := by
  have hplen : ofLE (toLE 2 (payload command params datalen).length) =
      (payload command params datalen).length := by
    rw [ofLE_toLE]
    exact Nat.mod_eq_of_lt (by omega)
  have hpcnt : ofLE [UInt8.ofNat params.length] = params.length := by
    rw [ofLE_singleton, UInt8.toNat_ofNat']
    omega
  have hparams := decodeParams_encode hnames []
  rw [List.append_nil] at hparams
  simp only [decodeCommand, takeBytes_toLE, Option.bind_eq_bind, Option.bind_some, hplen, ne_eq,
    not_true_eq_false, if_false]
  simp only [payload, List.append_assoc, decodeHead_encode hcmd, Option.bind_some, takeBytes_self,
    List.cons_append, List.nil_append, takeBytes_one, hpcnt, hparams, if_true]

/-! ## The whole command -/

/-- `do_prepare_command` does what it should: no request exactly when the payload is too
long, otherwise a request of the right length that says what was asked for. -/
def EncodesCommand (command : Bytes) (params : List Binparam) (datalen : Int64) : Prop :=
  (doPrepareCommand command params datalen = none ↔
      0xffff < (payload command params datalen).length) ∧
    ∀ data retlen, doPrepareCommand command params datalen = some (data, retlen) →
      data.length = (payload command params datalen).length + 2 ∧ retlen = data.length ∧
      ofLE (data.take 2) = (payload command params datalen).length ∧
      decodeCommand data = some (command, params, datalen)

theorem doPrepareCommand_eq_none {command : Bytes} {params : List Binparam} {datalen : Int64} :
    doPrepareCommand command params datalen = none ↔
      0xffff < calculateParamsLen command.length params datalen := by
  simp only [doPrepareCommand]
  split
  · next h => exact ⟨fun _ => h, fun _ => rfl⟩
  · next h => exact ⟨fun hsome => absurd hsome (by simp), fun hlt => absurd hlt h⟩

theorem encodesCommand_of_fits {command : Bytes} {params : List Binparam} {datalen : Int64}
    (hcmd : command.length < 128) (hcnt : params.length ≤ 255)
    (hnames : ∀ p ∈ params, p.name.length < 64) (hfits : ∀ p ∈ params, p.fits) :
    EncodesCommand command params datalen := by
  have hlen := @calculateParamsLen_eq command params datalen hfits
  refine ⟨by rw [doPrepareCommand_eq_none, hlen], ?_⟩
  intro data retlen hsome
  simp only [doPrepareCommand, hlen] at hsome
  split at hsome
  · exact absurd hsome (by simp)
  · next hle =>
    rw [not_lt] at hle
    obtain ⟨rfl, rfl⟩ := Prod.mk.inj (Option.some.inj hsome)
    refine ⟨?_, ?_, ?_, decodeCommand_payload hcmd hcnt hnames hle⟩
    · rw [List.length_append, length_toLE]
      omega
    · rw [List.length_append, length_toLE]
      omega
    · rw [List.take_left' (length_toLE _ _), ofLE_toLE]
      exact Nat.mod_eq_of_lt (by omega)

/-- A parameter that does not fit makes the payload too long. -/
theorem length_payload_of_not_fits {command : Bytes} {params : List Binparam} {datalen : Int64}
    (h : ¬ ∀ p ∈ params, p.fits) : 0xffff < (payload command params datalen).length := by
  simp only [not_forall] at h
  obtain ⟨p, hp, hfits⟩ := h
  have hlong := Binparam.exactLen_of_not_fits hfits
  have hle : p.exactLen ≤ (params.map (·.exactLen)).sum :=
    List.le_sum_of_mem (List.mem_map_of_mem hp)
  rw [length_payload]
  omega

/-- A command is encoded as it should be exactly when no string leaves `uint32_t` together
with its name, or the request is refused anyway. -/
theorem prepare_command_exact (command : Bytes) (params : List Binparam) (datalen : Int64)
    (hcmd : command.length < 128) (hcnt : params.length ≤ 255)
    (hnames : ∀ p ∈ params, p.name.length < 64) :
    EncodesCommand command params datalen ↔
      (∀ p ∈ params, p.fits) ∨ 0xffff < calculateParamsLen command.length params datalen := by
  constructor
  · intro h
    by_cases hfits : ∀ p ∈ params, p.fits
    · exact Or.inl hfits
    · right
      rw [← doPrepareCommand_eq_none, h.1]
      exact length_payload_of_not_fits hfits
  · rintro (hfits | hlong)
    · exact encodesCommand_of_fits hcmd hcnt hnames hfits
    · by_cases hfits : ∀ p ∈ params, p.fits
      · exact encodesCommand_of_fits hcmd hcnt hnames hfits
      · have hnone := doPrepareCommand_eq_none.mpr hlong
        refine ⟨⟨fun _ => length_payload_of_not_fits hfits, fun _ => hnone⟩, ?_⟩
        intro data retlen hsome
        rw [hnone] at hsome
        exact absurd hsome (by simp)

theorem prepare_command_exact_userinfo :
    EncodesCommand [117, 105] [⟨[97], .str [120, 121] (by decide)⟩, ⟨[110], .num 5⟩] (-1) :=
  (prepare_command_exact [117, 105] [⟨[97], .str [120, 121] (by decide)⟩, ⟨[110], .num 5⟩] (-1)
    (by decide) (by decide) (by decide)).mpr (Or.inl (by
      intro p hp s h hv
      rcases List.mem_cons.mp hp with rfl | hp
      · obtain rfl : [120, 121] = s := by simpa using hv
        decide
      · rw [List.mem_singleton.mp hp] at hv
        exact absurd hv (by simp)))

/-- The sum for a string five bytes short of four gigabytes is zero. -/
theorem not_encodesCommand_of_length {s : Bytes} (h : s.length < 2 ^ 32)
    (hlen : s.length = 2 ^ 32 - 5) : ¬ EncodesCommand [] [⟨[], .str s h⟩] (-1) := by
  have hfits : ¬ Binparam.fits ⟨[], .str s h⟩ := by
    intro hfits
    have hlt := hfits s h rfl
    simp only [hlen, List.length_nil] at hlt
    omega
  have hzero : Binparam.paramLen ⟨[], .str s h⟩ = 0 := by
    simp only [Binparam.paramLen, hlen, List.length_nil]
    decide
  have hsmall : ¬ 0xffff < calculateParamsLen ([] : Bytes).length [⟨[], .str s h⟩] (-1) := by
    simp only [calculateParamsLen, List.map_cons, List.map_nil, hzero, List.length_nil]
    decide
  intro henc
  refine hsmall (doPrepareCommand_eq_none.mp (henc.1.mpr (length_payload_of_not_fits ?_)))
  intro hall
  exact hfits (hall _ (by simp))

theorem length_hugeString : (zeros (2 ^ 32 - 5)).length < 2 ^ 32 := by
  rw [length_zeros]
  decide

/-- Such a request is written although it is too long. -/
theorem prepare_command_wraps :
    ¬ EncodesCommand [] [⟨[], .str (zeros (2 ^ 32 - 5)) length_hugeString⟩] (-1) :=
  not_encodesCommand_of_length length_hugeString (length_zeros _)

end PcloudClient.Papi
