/-
  Papi/Response.lean --- responses of the API server (`papi.c`, lines 143-385).

  A body is parsed twice: `calc_ret_len` finds out how much memory the result takes and
  `do_parse_result` builds it there.  The bytes not read yet stand for both `*data` and
  `*datalen`; a body is shorter than `2 ^ 32` bytes, so no count overflows.  Reading a byte
  behind the end is a fault, as is a reference to a string that is not recorded.
-/
import PcloudClient.Foundation.Reader

set_option autoImplicit false

namespace PcloudClient.Papi

open PcloudClient.Bytes

/-! ## Tags -/

/-- `RPARAM_STR1` to `RPARAM_END` with the lengths of the ranges. -/
abbrev rparamStr1 : Nat := 0
abbrev rparamStr4 : Nat := 3
abbrev rparamRstr1 : Nat := 4
abbrev rparamRstr4 : Nat := 7
abbrev rparamNum1 : Nat := 8
abbrev rparamNum8 : Nat := 15
abbrev rparamHash : Nat := 16
abbrev rparamArray : Nat := 17
abbrev rparamBfalse : Nat := 18
abbrev rparamBtrue : Nat := 19
abbrev rparamData : Nat := 20
abbrev rparamShortStrBase : Nat := 100
abbrev rparamShortRstrBase : Nat := 150
abbrev rparamSmallNumBase : Nat := 200
abbrev rparamEnd : UInt8 := 255
abbrev vshortStrLen : Nat := 50
abbrev vshortRstrCnt : Nat := 50
abbrev vsmallNumberNum : Nat := 20

/-- What the first byte of a value says: a length or an id in the tag itself, or the
number of bytes that hold it. -/
inductive Tag where
  | shortStr (len : Nat)
  | str (l : Nat)
  | rstr (l : Nat)
  | shortRstr (id : Nat)
  | num (l : Nat)
  | smallNum (n : Nat)
  | bfalse
  | btrue
  | array
  | hash
  | data
  | bad
  deriving DecidableEq, Repr

/-- The tests of `calc_ret_len` and `do_parse_result`, in their order. -/
def tag (type : Nat) : Tag :=
  if rparamShortStrBase ≤ type ∧ type < rparamShortStrBase + vshortStrLen then
    .shortStr (type - rparamShortStrBase)
  else if rparamStr1 ≤ type ∧ type ≤ rparamStr4 then .str (type - rparamStr1 + 1)
  else if rparamRstr1 ≤ type ∧ type ≤ rparamRstr4 then .rstr (type - rparamRstr1 + 1)
  else if rparamShortRstrBase ≤ type ∧ type < rparamShortRstrBase + vshortRstrCnt then
    .shortRstr (type - rparamShortRstrBase)
  else if rparamNum1 ≤ type ∧ type ≤ rparamNum8 then .num (type - rparamNum1 + 1)
  else if rparamSmallNumBase ≤ type ∧ type < rparamSmallNumBase + vsmallNumberNum then
    .smallNum (type - rparamSmallNumBase)
  else if type = rparamBfalse then .bfalse
  else if type = rparamBtrue then .btrue
  else if type = rparamArray then .array
  else if type = rparamHash then .hash
  else if type = rparamData then .data
  else .bad

/-- What can go wrong in memory. -/
inductive Fault where
  /-- a byte behind the end is read -/
  | pastEnd
  /-- a string that is not recorded is referred to -/
  | badReference
  /-- a field of `NULL` is read -/
  | nullPointer
  /-- the bound of the recursion is too small -/
  | fuel
  deriving DecidableEq, Repr

/-! ## The length of a result -/

/-- `sizeof(binresult)` -/
abbrev binresultSize : Nat := 16

/-- `offsetof(binresult, str)` and a string with its zero byte, aligned to 8 bytes. -/
def strSize (len : Nat) : Nat := 8 + (len + 8) / 8 * 8

/-- What `calc_ret_len` leaves: the return value, the bytes not read yet and `*strcnt`. -/
structure Calc where
  ret : Nat
  rest : Bytes
  strcnt : Nat
  deriving DecidableEq, Repr

/-- The part of `calc_ret_len` for a string of `len` bytes. -/
def calcStr (len : Nat) (data : Bytes) (strcnt : Nat) : Option Calc :=
  (takeBytes len data).map fun (_, rest) => ⟨strSize len, rest, strcnt + 1⟩

/-- The part of `calc_ret_len` for the string `id`. -/
def calcRstr (id : Nat) (data : Bytes) (strcnt : Nat) : Option Calc :=
  if id < strcnt then some ⟨0, data, strcnt⟩ else none

mutual

/-- `calc_ret_len`; `none` is the return value -1. -/
def calcRetLenAux : Nat → Bytes → Nat → Except Fault (Option Calc)
  | 0, _, _ => .error .fuel
  | _ + 1, [], _ => .ok none
  | fuel + 1, type :: data, strcnt =>
    match tag type.toNat with
    | .shortStr len => .ok (calcStr len data strcnt)
    | .str l => .ok ((takeBytes l data).bind fun (len, data) => calcStr (ofLE len) data strcnt)
    | .rstr l => .ok ((takeBytes l data).bind fun (id, data) => calcRstr (ofLE id) data strcnt)
    | .shortRstr id => .ok (calcRstr id data strcnt)
    | .num l => .ok ((takeBytes l data).map fun (_, rest) => ⟨binresultSize, rest, strcnt⟩)
    | .smallNum _ => .ok (some ⟨0, data, strcnt⟩)
    | .bfalse => .ok (some ⟨0, data, strcnt⟩)
    | .btrue => .ok (some ⟨0, data, strcnt⟩)
    | .array => do
      let items ← calcArray fuel data strcnt
      return items.map fun c => { c with ret := binresultSize + c.ret }
    | .hash => do
      let items ← calcHash fuel data strcnt
      return items.map fun c => { c with ret := binresultSize + c.ret }
    | .data => .ok ((takeBytes 8 data).map fun (_, rest) => ⟨binresultSize, rest, strcnt⟩)
    | .bad => .ok none

/-- The loop of `calc_ret_len` over the values of an array, with a pointer for each. -/
def calcArray : Nat → Bytes → Nat → Except Fault (Option Calc)
  | 0, _, _ => .error .fuel
  | _ + 1, [], _ => .error .pastEnd
  | fuel + 1, b :: data, strcnt =>
    if b = rparamEnd then .ok (some ⟨0, data, strcnt⟩)
    else do
      match ← calcRetLenAux fuel (b :: data) strcnt with
      | none => return none
      | some c =>
        if c.rest.length < 1 then return none
        else
          let items ← calcArray fuel c.rest c.strcnt
          return items.map fun cs => { cs with ret := c.ret + cs.ret + 8 }

/-- The loop of `calc_ret_len` over the pairs of a hash, with a `hashpair` for each. -/
def calcHash : Nat → Bytes → Nat → Except Fault (Option Calc)
  | 0, _, _ => .error .fuel
  | _ + 1, [], _ => .error .pastEnd
  | fuel + 1, b :: data, strcnt =>
    if b = rparamEnd then .ok (some ⟨0, data, strcnt⟩)
    else do
      match ← calcRetLenAux fuel (b :: data) strcnt with
      | none => return none
      | some c =>
        match ← calcRetLenAux fuel c.rest c.strcnt with
        | none => return none
        | some d =>
          if d.rest.length < 1 then return none
          else
            let items ← calcHash fuel d.rest d.strcnt
            return items.map fun cs => { cs with ret := c.ret + d.ret + cs.ret + 16 }

end

/-- `calc_ret_len`, with as much recursion as the bytes allow. -/
def calcRetLen (data : Bytes) (strcnt : Nat) : Except Fault (Option Calc) :=
  calcRetLenAux (2 * data.length + 1) data strcnt

/-! ## Building a result -/

/-- `binresult`, and the pointer `NULL` -/
inductive Binresult where
  | null
  | str (str : Bytes)
  | num (num : Nat)
  | bool (val : Bool)
  | array (array : List Binresult)
  | hash (hash : List (Bytes × Binresult))
  | data (num : Nat)

/-- The bytes not read yet, the offset of `*odata` in the result buffer, the recorded
strings and the parts of the buffer written so far. -/
structure Parse where
  data : Bytes
  odata : Nat
  strings : List Bytes
  written : List (Nat × Nat)
  deriving DecidableEq, Repr

namespace Parse

/-- `n` bytes of the input are read. -/
def read (st : Parse) (n : Nat) : Except Fault (Bytes × Parse) :=
  match takeBytes n st.data with
  | none => .error .pastEnd
  | some (b, rest) => .ok (b, { st with data := rest })

/-- `size` bytes of the buffer are taken and `len` of them written. -/
def write (st : Parse) (len size : Nat) : Parse :=
  { st with
    odata := st.odata + size
    written := st.written ++ [(st.odata, len)] }

/-- The part of `do_parse_result` for a string of `len` bytes. -/
def parseStr (st : Parse) (len : Nat) : Except Fault (Binresult × Parse) := do
  let (s, st) ← st.read len
  return (.str s, { st.write (8 + len + 1) (strSize len) with strings := st.strings ++ [s] })

/-- `strings[id]` -/
def parseRstr (st : Parse) (id : Nat) : Except Fault (Binresult × Parse) :=
  match st.strings[id]? with
  | none => .error .badReference
  | some s => .ok (.str s, st)

end Parse

mutual

/-- `do_parse_result` -/
def doParseResultAux : Nat → Parse → Except Fault (Binresult × Parse)
  | 0, _ => .error .fuel
  | fuel + 1, st => do
    let (type, st) ← st.read 1
    match tag (ofLE type) with
    | .shortStr len => st.parseStr len
    | .str l =>
      let (len, st) ← st.read l
      st.parseStr (ofLE len)
    | .rstr l =>
      let (id, st) ← st.read l
      st.parseRstr (ofLE id)
    | .shortRstr id => st.parseRstr id
    | .num l =>
      let (n, st) ← st.read l
      return (.num (ofLE n), st.write binresultSize binresultSize)
    | .smallNum n => return (.num n, st)
    | .bfalse => return (.bool false, st)
    | .btrue => return (.bool true, st)
    | .array =>
      let (items, st) ← parseArray fuel (st.write binresultSize binresultSize)
      return (.array items, st.write (8 * items.length) (8 * items.length))
    | .hash =>
      let (items, st) ← parseHash fuel (st.write binresultSize binresultSize)
      return (.hash items, st.write (16 * items.length) (16 * items.length))
    | .data =>
      let (n, st) ← st.read 8
      return (.data (ofLE n), st.write binresultSize binresultSize)
    | .bad => return (.null, st)

/-- The loop of `do_parse_result` over the values of an array. -/
def parseArray : Nat → Parse → Except Fault (List Binresult × Parse)
  | 0, _ => .error .fuel
  | fuel + 1, st =>
    match st.data with
    | [] => .error .pastEnd
    | b :: rest =>
      if b = rparamEnd then .ok ([], { st with data := rest })
      else do
        let (v, st) ← doParseResultAux fuel st
        let (vs, st) ← parseArray fuel st
        return (v :: vs, st)

/-- The loop of `do_parse_result` over the pairs of a hash.  A pair whose key is no string
is dropped. -/
def parseHash : Nat → Parse → Except Fault (List (Bytes × Binresult) × Parse)
  | 0, _ => .error .fuel
  | fuel + 1, st =>
    match st.data with
    | [] => .error .pastEnd
    | b :: rest =>
      if b = rparamEnd then .ok ([], { st with data := rest })
      else do
        let (key, st) ← doParseResultAux fuel st
        let (v, st) ← doParseResultAux fuel st
        match key with
        | .null => .error .nullPointer
        | .str s =>
          let (vs, st) ← parseHash fuel st
          return ((s, v) :: vs, st)
        | _ => parseHash fuel st

end

/-- `do_parse_result` on a whole body. -/
def doParseResult (data : Bytes) : Except Fault (Binresult × Parse) :=
  doParseResultAux (2 * data.length + 1) ⟨data, 0, [], []⟩

/-- `parse_result` -/
def parseResult (data : Bytes) : Except Fault (Option Binresult) := do
  match ← calcRetLen data 0 with
  | none => return none
  | some _ =>
    let (res, _) ← doParseResult data
    return some res

end PcloudClient.Papi
