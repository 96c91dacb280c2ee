/-
  Ppagecache/RangeNext.lean --- the header `X-Range-Next` of `ppagecache.c`.

  The header is written from the end of a buffer on the stack to its start; `off` is the place of
  the next byte.  A write outside the buffer ends the construction with `outside`.
-/
import Mathlib.Data.List.TakeWhile
import Mathlib.Data.Nat.Digits.Defs
import PcloudClient.Foundation.Bytes
import PcloudClient.Foundation.Outcome

set_option autoImplicit false

namespace PcloudClient.Ppagecache.RangeNext

/-- `psync_request_range_t` -/
structure Range where
  offset : UInt64
  length : UInt64
  deriving DecidableEq, Repr

/-- How the construction ends without a header. -/
inductive Stop where
  /-- a write outside the buffer -/
  | outside
  /-- `return NULL` -/
  | null
  deriving DecidableEq, Repr

/-- `buff` and `off`. -/
structure Writer where
  buff : Bytes
  off : Nat

/-- `sizeof(buff)` -/
abbrev sizeofBuff : Nat := 2048

/-- A subtraction from a `size_t`. -/
def back (off k : Nat) : Nat := (off + (2 ^ 64 - k)) % 2 ^ 64

/-- `memcpy(buff+off, s, ...)` -/
def memcpy (buff : Bytes) (off : Nat) (s : Bytes) : Except Stop Bytes :=
  if off + s.length ≤ buff.length then .ok (buff.take off ++ s ++ buff.drop (off + s.length))
  else .error .outside

/-- `'0'+d` -/
def digit (d : Nat) : UInt8 := UInt8.ofNat (48 + d)

/-- `"X-Range-Next:"` -/
def rangeNextName : Bytes := [88, 45, 82, 97, 110, 103, 101, 45, 78, 101, 120, 116, 58]

/-- `"Cookie: dwltag="` -/
def dwltagName : Bytes := [67, 111, 111, 107, 105, 101, 58, 32, 100, 119, 108, 116, 97, 103, 61]

namespace Writer

/-- `buff[off--]=c` -/
def put (w : Writer) (c : UInt8) : Except Stop Writer := do
  let buff ← memcpy w.buff w.off [c]
  .ok ⟨buff, back w.off 1⟩

/-- The inner loop of `PSYNC_CONSTRUCT_ADD_NUMBER`. -/
def putDigits (w : Writer) (x : Nat) : Except Stop Writer := do
  let w ← w.put (digit (x % 10))
  if _h : x / 10 = 0 then .ok w else putDigits w (x / 10)
termination_by x
decreasing_by omega

/-- `PSYNC_CONSTRUCT_ADD_NUMBER` -/
def addNumber (w : Writer) (x : UInt64) : Except Stop Writer :=
  if w.off ≤ 24 then .error .null else w.putDigits x.toNat

/-- One range of the loop. -/
def addRange (w : Writer) (range : Range) : Except Stop Writer := do
  let w ← w.addNumber (range.offset + range.length - 1)
  let w ← w.put 45
  let w ← w.addNumber range.offset
  let w ← w.put 32
  w.put 44

/-- The end of the header and the cookie. -/
def addEnd (w : Writer) (dwltag : Bytes) : Except Stop Writer := do
  let w ← w.put 0
  let w ← w.put 10
  let w ← w.put 13
  if dwltag.length ≤ 40 ∧ 0 < dwltag.length then
    let off := back w.off (dwltag.length - 1)
    let buff ← memcpy w.buff off dwltag
    let off := back off dwltagName.length
    let buff ← memcpy buff off dwltagName
    let w : Writer := ⟨buff, back off 1⟩
    let w ← w.put 10
    w.put 13
  else .ok w

end Writer

/-- `psync_http_construct_range_next_header`, with what the buffer holds at first; `psync_strdup`
copies up to the terminator. -/
def constructRangeNextHeader (stack : Bytes) (ranges : List Range) (dwltag : Bytes) :
    Except Stop Bytes := do
  let w ← Writer.addEnd ⟨stack, sizeofBuff - 1⟩ dwltag
  let w ← (ranges.drop 1).reverse.foldlM Writer.addRange w
  if w.off < rangeNextName.length + 1 then .error .null
  else
    let start := back w.off (rangeNextName.length - 2)
    let buff ← memcpy w.buff start rangeNextName
    .ok ((buff.drop start).takeWhile (· ≠ 0))

/-! ## What is written -/

/-- A number in decimal. -/
def decimal (x : Nat) : Bytes := (Nat.toDigits 10 x).map fun c => UInt8.ofNat c.toNat

theorem decimal_eq (x : Nat) :
    decimal x = (if x / 10 = 0 then [] else decimal (x / 10)) ++ [digit (x % 10)] := by
  have hdigit : ∀ d < 10, UInt8.ofNat (Nat.digitChar d).toNat = digit d := by decide
  rw [decimal, Nat.toDigits_eq_if (by decide)]
  by_cases h : x < 10
  · rw [if_pos h, if_pos (Nat.div_eq_of_lt h), List.map_singleton, hdigit x h,
      Nat.mod_eq_of_lt h, List.nil_append]
  · rw [if_neg h, if_neg (by omega), List.map_append, List.map_singleton,
      hdigit _ (Nat.mod_lt _ (by decide)), ← decimal]

/-- A 64-bit number has at most 20 digits. -/
theorem length_decimal_le (x : UInt64) : (decimal x.toNat).length ≤ 20 := by
  rw [decimal, List.length_map]
  refine Nat.toDigits_length 10 x.toNat 20 (by decide) ?_
  have := x.toNat_lt
  omega

/-- A range as a first and a last byte. -/
def pair (range : Range) : Bytes :=
  32 :: (decimal range.offset.toNat ++ 45 :: decimal (range.offset + range.length - 1).toNat)

/-- The end of the header, with the cookie. -/
def endText (dwltag : Bytes) : Bytes :=
  if dwltag.length ≤ 40 ∧ 0 < dwltag.length then
    13 :: 10 :: (dwltagName ++ (dwltag ++ [13, 10]))
  else [13, 10]

/-- The header that lists the ranges. -/
def rangeNextHeader (ranges : List Range) (dwltag : Bytes) : Bytes :=
  rangeNextName ++ List.intercalate [44] (ranges.map pair) ++ endText dwltag

/-- The buffer ends with a text, right behind the place of the next byte. -/
structure Ends (w : Writer) (text : Bytes) : Prop where
  length : w.buff.length = 2048
  off : w.off + 1 + text.length = 2048
  text : w.buff.drop (w.off + 1) = text

theorem back_eq {off k : Nat} (hk : k ≤ off) (hoff : off < 2 ^ 64) : back off k = off - k := by
  unfold back
  omega

/-- A block that ends right before the text. -/
theorem Ends.memcpy {w : Writer} {text s : Bytes} {off : Nat} (h : Ends w text)
    (hoff : off + s.length = w.off + 1) (hpos : 0 < off) :
    ∃ buff, memcpy w.buff off s = .ok buff ∧ Ends ⟨buff, off - 1⟩ (s ++ text) := by
  have hlength := h.length
  have hw := h.off
  refine ⟨w.buff.take off ++ s ++ w.buff.drop (off + s.length), if_pos (by omega), ?_⟩
  have htake : (w.buff.take off).length = off := by rw [List.length_take]; omega
  constructor
  · dsimp only
    rw [List.length_append, List.length_append, htake, List.length_drop]
    omega
  · dsimp only
    rw [List.length_append]
    omega
  · dsimp only
    rw [Nat.sub_add_cancel hpos, List.append_assoc, List.drop_left' htake, hoff, h.text]

theorem Ends.put {w : Writer} {text : Bytes} (h : Ends w text) (hpos : 0 < w.off) (c : UInt8) :
    ∃ w', w.put c = .ok w' ∧ Ends w' (c :: text) := by
  obtain ⟨buff, hbuff, hends⟩ := h.memcpy (show w.off + [c].length = w.off + 1 from rfl) hpos
  refine ⟨⟨buff, w.off - 1⟩, ?_, hends⟩
  have hoff := h.off
  rw [Writer.put, hbuff, ok_bind, back_eq (by omega) (by omega)]

theorem Ends.putDigits {text : Bytes} {w : Writer} {x : Nat} (h : Ends w text)
    (hlen : (decimal x).length ≤ w.off) :
    ∃ w', w.putDigits x = .ok w' ∧ Ends w' (decimal x ++ text) := by
  induction x using Nat.strong_induction_on generalizing w text with
  | _ x ih =>
    rw [decimal_eq x] at hlen ⊢
    rw [List.length_append, List.length_singleton] at hlen
    obtain ⟨w', hput, hw'⟩ := h.put (by omega) (digit (x % 10))
    rw [Writer.putDigits, hput, ok_bind]
    by_cases hdiv : x / 10 = 0
    · rw [dif_pos hdiv, if_pos hdiv]
      exact ⟨w', rfl, hw'⟩
    · rw [dif_neg hdiv, if_neg hdiv, List.append_assoc, List.singleton_append]
      rw [if_neg hdiv] at hlen
      have hoff := hw'.off
      have hold := h.off
      rw [List.length_cons] at hoff
      exact ih (x / 10) (by omega) hw' (by omega)

/-- The number is written where there is room for any, and nothing is returned elsewhere. -/
theorem Ends.addNumber {text : Bytes} {w : Writer} (h : Ends w text) (x : UInt64) :
    (24 < w.off ∧ ∃ w', w.addNumber x = .ok w' ∧ Ends w' (decimal x.toNat ++ text)) ∨
      (w.off ≤ 24 ∧ w.addNumber x = .error .null) := by
  by_cases hoff : w.off ≤ 24
  · exact .inr ⟨hoff, if_pos hoff⟩
  · have hlen := length_decimal_le x
    obtain ⟨w', hput, hw'⟩ := h.putDigits (x := x.toNat) (by omega)
    exact .inl ⟨by omega, w', (if_neg hoff).trans hput, hw'⟩

/-- What the loop writes for a range. -/
def rangeText (range : Range) : Bytes := 44 :: pair range

theorem Ends.addRange {text : Bytes} {w : Writer} (h : Ends w text) (range : Range) :
    (∃ w', w.addRange range = .ok w' ∧ Ends w' (rangeText range ++ text) ∧ 3 ≤ w'.off) ∨
      (2023 ≤ (rangeText range ++ text).length ∧ w.addRange range = .error .null) := by
  have hlast := length_decimal_le (range.offset + range.length - 1)
  have hfirst := length_decimal_le range.offset
  have hlen : (rangeText range ++ text).length =
      (decimal range.offset.toNat).length +
        (decimal (range.offset + range.length - 1).toNat).length + text.length + 3 := by
    simp only [rangeText, pair, List.length_append, List.length_cons]
    omega
  have hoff := h.off
  rw [Writer.addRange]
  rcases h.addNumber (range.offset + range.length - 1) with ⟨hroom, w₁, h₁, e₁⟩ | ⟨hroom, hnull⟩
  · have hoff₁ := e₁.off
    rw [List.length_append] at hoff₁
    obtain ⟨w₂, h₂, e₂⟩ := e₁.put (by omega) 45
    have hoff₂ := e₂.off
    rw [List.length_cons, List.length_append] at hoff₂
    rw [h₁, ok_bind, h₂, ok_bind]
    rcases e₂.addNumber range.offset with ⟨hroom₂, w₃, h₃, e₃⟩ | ⟨hroom₂, hnull⟩
    · have hoff₃ := e₃.off
      rw [List.length_append, List.length_cons, List.length_append] at hoff₃
      obtain ⟨w₄, h₄, e₄⟩ := e₃.put (by omega) 32
      have hoff₄ := e₄.off
      rw [List.length_cons, List.length_append, List.length_cons, List.length_append] at hoff₄
      obtain ⟨w₅, h₅, e₅⟩ := e₄.put (by omega) 44
      rw [h₃, ok_bind, h₄, ok_bind, h₅]
      have htext : rangeText range ++ text = 44 :: 32 :: (decimal range.offset.toNat ++
          45 :: (decimal (range.offset + range.length - 1).toNat ++ text)) := by
        simp only [rangeText, pair, List.cons_append, List.append_assoc]
      have hoff₅ := e₅.off
      simp only [List.length_cons, List.length_append] at hoff₅
      exact .inl ⟨w₅, rfl, htext ▸ e₅, by omega⟩
    · rw [hnull]
      exact .inr ⟨by omega, rfl⟩
  · rw [hnull]
    exact .inr ⟨by omega, rfl⟩

/-- The loop, from the last range to the second. -/
theorem Ends.addRanges {text : Bytes} {w : Writer} (h : Ends w text) (ranges : List Range) :
    (∃ w', ranges.reverse.foldlM Writer.addRange w = .ok w' ∧
        Ends w' (ranges.flatMap rangeText ++ text)) ∨
      (2023 ≤ (ranges.flatMap rangeText ++ text).length ∧
        ranges.reverse.foldlM Writer.addRange w = .error .null) := by
  rw [List.foldlM_reverse]
  induction ranges with
  | nil => exact .inl ⟨w, rfl, h⟩
  | cons range ranges ih =>
    rw [List.foldrM_cons, List.flatMap_cons, List.append_assoc]
    rcases ih with ⟨w', hw', e⟩ | ⟨hlen, hnull⟩
    · rw [hw', ok_bind]
      exact (e.addRange range).imp_left fun ⟨w'', hw'', e', _⟩ => ⟨w'', hw'', e'⟩
    · rw [hnull]
      refine .inr ⟨?_, rfl⟩
      rw [List.length_append]
      omega

theorem ends_addEnd {stack : Bytes} (hstack : stack.length = sizeofBuff) (dwltag : Bytes) :
    ∃ w, Writer.addEnd ⟨stack, sizeofBuff - 1⟩ dwltag = .ok w ∧ Ends w (endText dwltag ++ [0]) := by
  have h : Ends ⟨stack, sizeofBuff - 1⟩ [] :=
    ⟨hstack, rfl, List.drop_eq_nil_of_le (Nat.le_of_eq hstack)⟩
  obtain ⟨w₁, h₁, e₁⟩ := h.put (Nat.succ_pos 2046) 0
  have hoff₁ := e₁.off
  rw [List.length_cons, List.length_nil] at hoff₁
  obtain ⟨w₂, h₂, e₂⟩ := e₁.put (by omega) 10
  have hoff₂ := e₂.off
  simp only [List.length_cons, List.length_nil] at hoff₂
  obtain ⟨w₃, h₃, e₃⟩ := e₂.put (by omega) 13
  have hoff₃ := e₃.off
  simp only [List.length_cons, List.length_nil] at hoff₃
  rw [Writer.addEnd, h₁, ok_bind, h₂, ok_bind, h₃, ok_bind, endText]
  by_cases htag : dwltag.length ≤ 40 ∧ 0 < dwltag.length
  · rw [if_pos htag, if_pos htag]
    have hbig : w₃.off < 2 ^ 64 := by omega
    have hback : back w₃.off (dwltag.length - 1) = w₃.off - (dwltag.length - 1) :=
      back_eq (by omega) hbig
    obtain ⟨buff₄, h₄, e₄⟩ := e₃.memcpy
      (show w₃.off - (dwltag.length - 1) + dwltag.length = w₃.off + 1 by omega) (by omega)
    have hname : dwltagName.length = 15 := rfl
    have hback' : back (w₃.off - (dwltag.length - 1)) dwltagName.length =
        w₃.off - (dwltag.length - 1) - 15 := back_eq (by omega) (by omega)
    obtain ⟨buff₅, h₅, e₅⟩ := e₄.memcpy
      (show w₃.off - (dwltag.length - 1) - 15 + dwltagName.length =
        w₃.off - (dwltag.length - 1) - 1 + 1 by omega) (by omega)
    have hback'' : back (w₃.off - (dwltag.length - 1) - 15) 1 =
        w₃.off - (dwltag.length - 1) - 15 - 1 := back_eq (by omega) (by omega)
    dsimp only at h₅
    dsimp only
    rw [hback, h₄, ok_bind, hback', h₅, ok_bind, hback'']
    obtain ⟨w₆, h₆, e₆⟩ := e₅.put (by dsimp only; omega) 10
    have hoff₆ := e₆.off
    simp only [List.length_cons, List.length_append, List.length_nil] at hoff₆
    obtain ⟨w₇, h₇, e₇⟩ := e₆.put (by omega) 13
    rw [h₆, ok_bind, h₇]
    refine ⟨w₇, rfl, ?_⟩
    simpa using e₇
  · rw [if_neg htag, if_neg htag]
    exact ⟨w₃, rfl, e₃⟩

/-! ## The header -/

theorem flatMap_rangeText (range : Range) (ranges : List Range) :
    (range :: ranges).flatMap rangeText =
      44 :: List.intercalate [44] ((range :: ranges).map pair) := by
  induction ranges generalizing range with
  | nil => simp [rangeText, List.intercalate]
  | cons range' ranges ih =>
    rw [List.flatMap_cons, ih range', List.map_cons, List.map_cons, List.map_cons,
      List.intercalate_cons_cons, rangeText, List.append_assoc]
    rfl

/-- A string ends where its terminator would be the first. -/
theorem takeWhile_terminated (s : Bytes) :
    (s ++ [0]).takeWhile (· ≠ 0) = s.takeWhile (· ≠ 0) := by
  induction s with
  | nil => rfl
  | cons c s ih => rw [List.cons_append, List.takeWhile_cons, List.takeWhile_cons, ih]

/-- What is returned is the header up to its first zero; nothing is returned only where the text
would leave less than 25 bytes of the buffer. -/
theorem construct_cases {stack : Bytes} (hstack : stack.length = sizeofBuff)
    {ranges : List Range} (hranges : 2 ≤ ranges.length) (dwltag : Bytes) :
    constructRangeNextHeader stack ranges dwltag =
        .ok ((rangeNextHeader (ranges.drop 1) dwltag).takeWhile (· ≠ 0)) ∨
      (2023 ≤ ((ranges.drop 1).flatMap rangeText ++ (endText dwltag ++ [0])).length ∧
        constructRangeNextHeader stack ranges dwltag = .error .null) := by
  obtain ⟨first, range, rest, rfl⟩ : ∃ first range rest, ranges = first :: range :: rest := by
    match ranges, hranges with
    | first :: range :: rest, _ => exact ⟨first, range, rest, rfl⟩
  obtain ⟨w, hw, e⟩ := ends_addEnd hstack dwltag
  rw [constructRangeNextHeader, hw, ok_bind, List.drop_one, List.tail_cons]
  rcases e.addRanges (range :: rest) with ⟨w', hw', e'⟩ | ⟨hlen, hnull⟩
  · rw [hw', ok_bind]
    have hname : rangeNextName.length = 13 := rfl
    have hoff := e'.off
    simp only [List.length_append, List.length_singleton] at hoff
    rw [hname]
    by_cases hroom : w'.off < 13 + 1
    · rw [if_pos hroom]
      refine .inr ⟨?_, rfl⟩
      simp only [List.length_append, List.length_singleton]
      omega
    · rw [if_neg hroom]
      left
      have hback : back w'.off (13 - 2) = w'.off - 11 := back_eq (by omega) (by omega)
      have htext := e'.text
      rw [flatMap_rangeText, List.cons_append] at htext
      -- the colon of the name takes the place of the first comma
      have hdrop : w'.buff.drop (w'.off + 2) =
          List.intercalate [44] ((range :: rest).map pair) ++ (endText dwltag ++ [0]) := by
        rw [show w'.off + 2 = w'.off + 1 + 1 from rfl, ← List.drop_drop, htext]
        rfl
      have hlength := e'.length
      have htake : (w'.buff.take (w'.off - 11)).length = w'.off - 11 := by
        rw [List.length_take]
        omega
      have hfits : w'.off - 11 + rangeNextName.length ≤ w'.buff.length := by
        rw [hname]
        omega
      dsimp only
      rw [hback, memcpy, if_pos hfits, ok_bind, List.append_assoc,
        List.drop_left' htake, hname, show w'.off - 11 + 13 = w'.off + 2 by omega, hdrop,
        rangeNextHeader, ← List.append_assoc, ← List.append_assoc]
      exact congrArg _ (takeWhile_terminated _)
  · rw [hnull]
    exact .inr ⟨hlen, rfl⟩

/-- The ranges with their first and last bytes as numbers, and the cookie. -/
def listedRanges (ranges : List Range) (dwltag : Bytes) : Bytes :=
  rangeNextName ++ List.intercalate [44] (ranges.map fun r =>
    32 :: (decimal r.offset.toNat ++ 45 :: decimal (r.offset.toNat + r.length.toNat - 1))) ++
      endText dwltag

/-- Nothing is returned, or the header that lists the ranges. -/
def Lists (stack : Bytes) (ranges : List Range) (dwltag : Bytes) : Prop :=
  constructRangeNextHeader stack ranges dwltag = .error .null ∨
    constructRangeNextHeader stack ranges dwltag = .ok (listedRanges (ranges.drop 1) dwltag)

theorem not_lists {stack : Bytes} (hstack : stack.length = sizeofBuff) {ranges : List Range}
    (hranges : 2 ≤ ranges.length) {dwltag : Bytes}
    (hshort : ((ranges.drop 1).flatMap rangeText ++ (endText dwltag ++ [0])).length < 2023)
    (hne : (rangeNextHeader (ranges.drop 1) dwltag).takeWhile (· ≠ 0) ≠
      listedRanges (ranges.drop 1) dwltag) : ¬ Lists stack ranges dwltag := by
  rcases construct_cases hstack hranges dwltag with hok | ⟨hlong, -⟩
  · rintro (h | h)
    · exact nomatch hok.symm.trans h
    · exact hne (Except.ok.inj (hok.symm.trans h))
  · omega

/-- A tag with a zero byte cuts the header, and the last byte of a range that ends behind
`2^64 - 1` is another. -/
theorem construct_differs :
    ¬ Lists (List.replicate sizeofBuff 0) [⟨0, 1⟩, ⟨10, 10⟩] [97, 0, 98] ∧
      ¬ Lists (List.replicate sizeofBuff 0) [⟨0, 1⟩, ⟨18446744073709551615, 2⟩] [] := by
  have hstack : (List.replicate sizeofBuff (0 : UInt8)).length = sizeofBuff :=
    List.length_replicate
  exact ⟨not_lists hstack (by decide) (by decide) (by decide),
    not_lists hstack (by decide) (by decide) (by decide)⟩

theorem zero_notMem_decimal (x : Nat) : 0 ∉ decimal x := by
  have hdigit : ∀ d < 10, digit d ≠ 0 := by decide
  induction x using Nat.strong_induction_on with
  | _ x ih =>
    rw [decimal_eq, List.mem_append, List.mem_singleton, not_or]
    refine ⟨?_, (hdigit _ (Nat.mod_lt _ (by decide))).symm⟩
    by_cases hdiv : x / 10 = 0
    · rw [if_pos hdiv]
      exact List.not_mem_nil
    · rw [if_neg hdiv]
      exact ih _ (by omega)

theorem zero_notMem_ranges (ranges : List Range) : 0 ∉ ranges.flatMap rangeText := by
  rw [List.mem_flatMap]
  rintro ⟨range, -, hmem⟩
  simp only [rangeText, pair, List.mem_cons, List.mem_append] at hmem
  rcases hmem with h | h | h | h | h
  · exact nomatch h
  · exact nomatch h
  · exact zero_notMem_decimal _ h
  · exact nomatch h
  · exact zero_notMem_decimal _ h

theorem zero_notMem_endText {dwltag : Bytes} (htag : dwltag.length ≤ 40 → 0 ∉ dwltag) :
    0 ∉ endText dwltag := by
  rw [endText]
  split
  · next hlen =>
    simp only [List.mem_cons, List.mem_append, not_or]
    exact ⟨by decide, by decide, by decide, htag hlen.1, by decide, by decide, List.not_mem_nil⟩
  · decide

/-- Without a zero in the tag the header is a whole string. -/
theorem takeWhile_header {ranges : List Range} {dwltag : Bytes}
    (htag : dwltag.length ≤ 40 → 0 ∉ dwltag) :
    (rangeNextHeader ranges dwltag).takeWhile (· ≠ 0) = rangeNextHeader ranges dwltag := by
  refine List.takeWhile_eq_self_iff.2 fun c hc => decide_eq_true ?_
  rintro rfl
  rw [rangeNextHeader, List.mem_append, List.mem_append] at hc
  rcases hc with (hc | hc) | hc
  · exact absurd hc (by decide)
  · cases ranges with
    | nil => exact nomatch hc
    | cons range ranges =>
      refine zero_notMem_ranges (range :: ranges) ?_
      rw [flatMap_rangeText]
      exact List.mem_cons_of_mem _ hc
  · exact zero_notMem_endText htag hc

/-- Where the last byte is a 64-bit number it is listed as it is. -/
theorem rangeNextHeader_eq {ranges : List Range} (dwltag : Bytes)
    (hlast : ∀ r ∈ ranges, 1 ≤ r.offset.toNat + r.length.toNat ∧
      r.offset.toNat + r.length.toNat ≤ 2 ^ 64) :
    rangeNextHeader ranges dwltag = listedRanges ranges dwltag := by
  rw [rangeNextHeader, listedRanges]
  congr 3
  refine List.map_congr_left fun r hr => ?_
  have htoNat : (r.offset + r.length - 1).toNat = r.offset.toNat + r.length.toNat - 1 := by
    obtain ⟨hpos, hle⟩ := hlast r hr
    rw [UInt64.toNat_sub, UInt64.toNat_add, show (1 : UInt64).toNat = 1 from rfl]
    omega
  rw [pair, htoNat]

/-- For at least two ranges and any tag: nothing is written outside the buffer, and the result is
`NULL`, only where the text would leave less than 25 bytes of the buffer, or the header, which ends
at the first zero of the tag. -/
theorem construct_ok {stack : Bytes} (hstack : stack.length = sizeofBuff) {ranges : List Range}
    (hranges : 2 ≤ ranges.length) (dwltag : Bytes) :
    constructRangeNextHeader stack ranges dwltag ≠ .error .outside ∧
    (constructRangeNextHeader stack ranges dwltag = .error .null →
      2023 ≤ ((ranges.drop 1).flatMap rangeText ++ (endText dwltag ++ [0])).length) ∧
    (∀ hdr, constructRangeNextHeader stack ranges dwltag = .ok hdr →
      hdr = (rangeNextHeader (ranges.drop 1) dwltag).takeWhile (· ≠ 0) ∧
        ((dwltag.length ≤ 40 → 0 ∉ dwltag) → hdr = rangeNextHeader (ranges.drop 1) dwltag) ∧
        ((dwltag.length ≤ 40 → 0 ∉ dwltag) →
          (∀ r ∈ ranges.drop 1, 1 ≤ r.offset.toNat + r.length.toNat ∧
            r.offset.toNat + r.length.toNat ≤ 2 ^ 64) →
          hdr = listedRanges (ranges.drop 1) dwltag)) := by
  rcases construct_cases hstack hranges dwltag with hok | ⟨hlong, hnull⟩
  · rw [hok]
    refine ⟨nofun, nofun, fun hdr h => ?_⟩
    obtain rfl := Except.ok.inj h
    refine ⟨rfl, takeWhile_header, fun htag hlast => ?_⟩
    rw [takeWhile_header htag, rangeNextHeader_eq dwltag hlast]
  · rw [hnull]
    exact ⟨nofun, fun _ => hlong, nofun⟩

/-- Three ranges and the tag "ab": the second and the third are listed, and the cookie follows. -/
theorem construct_ok_three :
    constructRangeNextHeader (List.replicate sizeofBuff 0) [⟨0, 5⟩, ⟨10, 10⟩, ⟨30, 2⟩] [97, 98] =
      .ok [88, 45, 82, 97, 110, 103, 101, 45, 78, 101, 120, 116, 58, 32, 49, 48, 45, 49, 57, 44,
        32, 51, 48, 45, 51, 49, 13, 10, 67, 111, 111, 107, 105, 101, 58, 32, 100, 119, 108, 116,
        97, 103, 61, 97, 98, 13, 10] := by
  obtain ⟨hinside, hnull, hlisted⟩ := @construct_ok (List.replicate sizeofBuff 0)
    List.length_replicate [⟨0, 5⟩, ⟨10, 10⟩, ⟨30, 2⟩] (by decide) [97, 98]
  cases hrun : constructRangeNextHeader (List.replicate sizeofBuff 0)
      [⟨0, 5⟩, ⟨10, 10⟩, ⟨30, 2⟩] [97, 98] with
  | error stop =>
    cases stop with
    | outside => exact absurd hrun hinside
    | null => exact absurd (hnull hrun) (by decide)
  | ok hdr =>
    rw [(hlisted hdr hrun).2.2 (by decide) (by decide)]
    decide

end PcloudClient.Ppagecache.RangeNext
