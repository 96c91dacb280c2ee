/-
  Crypto/TextDecode.lean --- how an encoded name is read back (`psync_base32_decode` of
  `plibs.c`, `pcrypto.c`, lines 282-356, and `psync_cloud_crypto_decode_filename`).

  A read outside of the memory that a function has is `none`; a `none` inside is its `NULL`.
-/
import Mathlib.Tactic.IntervalCases
import PcloudClient.Crypto.SectorProofs
import PcloudClient.Crypto.Text

set_option autoImplicit false

namespace PcloudClient.Crypto

open PcloudClient.Bytes

/-! ## Base 32 -/

/-- The value of a character. -/
def base32Value (ch : UInt8) : Option Nat :=
  if 65 ≤ ch.toNat ∧ ch.toNat ≤ 90 then some ((ch.toNat &&& 0x1f) - 1)
  else if 50 ≤ ch.toNat ∧ ch.toNat ≤ 55 then some (ch.toNat - (50 - 26))
  else none

/-- The loop of `psync_base32_decode`, with the bytes it writes; `buff` is a `uint32_t`. -/
def base32DecodeLoop (bits buff : Nat) : Bytes → Option Bytes
  | [] => some []
  | ch :: str =>
    match base32Value ch with
    | none => none
    | some v =>
      let buff := (buff <<< 5 + v) % 2 ^ 32
      if 8 ≤ bits + 5 then
        (base32DecodeLoop (bits - 3) buff str).map fun out =>
          UInt8.ofNat (buff >>> (bits - 3)) :: out
      else base32DecodeLoop (bits + 5) buff str

/-- `psync_base32_decode` -/
def base32Decode (str : Bytes) : Option Bytes := base32DecodeLoop 0 0 str

/-! ## The text -/

/-- `strlen` from a place on. -/
def strlen (mem : Bytes) (off : Nat) : Option Nat := (mem.drop off).findIdx? fun x => x = 0

/-- The loop that looks for something behind the end of the text. -/
def zeroPadded (ret : Bytes) (len stop : Nat) : Bool :=
  ((ret.take stop).drop len).all fun x => x = 0

/-- A block of `data`. -/
def blockAt (data : Bytes) (off : Nat) : Option Bytes :=
  if off + aes256BlockSize ≤ data.length then some ((data.drop off).take aes256BlockSize) else none

namespace TextEncoder

variable (enc : TextEncoder)

/-- `psync_aes256_decode_block` of the decoder with the same key. -/
def decodeBlock (src : Bytes) : Bytes := (enc.aes.symm (Fixed.ofBytes aes256BlockSize src)).bytes

/-- The `while (--datalen)` loops of `psync_crypto_aes256_decode_text`, at the block `off`. -/
def decodeRest (xor16 : Bytes → Bytes → Bytes) (data : Bytes) : Nat → Nat → Option Bytes
  | 0, _ => some []
  | n + 1, off =>
    (blockAt data off).bind fun block =>
      (blockAt data (off - aes256BlockSize)).bind fun xorptr =>
        (decodeRest xor16 data n (off + aes256BlockSize)).map fun out =>
          xor16 (enc.decodeBlock block) xorptr ++ out

/-- `psync_crypto_aes256_decode_text`, with the memory that it returns. -/
def decodeText (l : LongSize) (aligned : Bool) (data : Bytes) : Option (Option Bytes) :=
  if data.length % aes256BlockSize ≠ 0 ∨ data.length = 0 then some none
  else if data.length / aes256BlockSize = 1 then
    (blockAt data 0).bind fun block =>
      let ret := xor16AlignedInplace l (enc.decodeBlock block) enc.iv ++ [0]
      (strlen ret 0).map fun len =>
        if zeroPadded ret (len + 1) data.length then some ret else none
  else
    let xor16 := if aligned then xor16AlignedInplace l else xor16UnalignedInplace
    (blockAt data 0).bind fun block =>
      (enc.decodeRest xor16 data (data.length / aes256BlockSize - 1) aes256BlockSize).bind
        fun out =>
        let ret := enc.decodeBlock block ++ out ++ [0]
        (strlen ret aes256BlockSize).map fun len =>
          let hmac := (enc.hmacSha512 ((ret.drop aes256BlockSize).take len)).bytes
          let ret := xor16AlignedInplace l (ret.take aes256BlockSize) hmac ++
            ret.drop aes256BlockSize
          if zeroPadded ret (len + aes256BlockSize + 1) data.length then some ret else none

end TextEncoder

/-- `psync_cloud_crypto_decode_filename` of a name up to its end. -/
def decodeFilename (enc : TextEncoder) (l : LongSize) (aligned : Bool) (name : Bytes) :
    Option (Option Bytes) :=
  match base32Decode name with
  | none => some none
  | some filenameenc => enc.decodeText l aligned filenameenc

/-- The string at the start of memory. -/
def cString (mem : Bytes) : Bytes := mem.takeWhile fun x => x ≠ 0

/-! ## Base 32 is undone -/

theorem base32Value_char {v : Nat} (h : v < 32) : base32Value (base32Char v) = some v := by
  have hall : ∀ v < 32, base32Value (base32Char v) = some v := by decide
  exact hall v h

/-- What the encoder has to send and the decoder has received of one byte `b`: the encoder has its
low bits left, and the decoder has its high bits. -/
structure Between (bits buff bits' buff' b : Nat) : Prop where
  sum : bits + bits' = 8
  sending : 0 < bits ∧ bits < 8
  low : buff % 2 ^ bits = b % 2 ^ bits
  high : buff' % 2 ^ bits' = b / 2 ^ bits
  byte : b < 256

theorem base32DecodeLoop_char {bits buff v : Nat} (h : v < 32) (str : Bytes) :
    base32DecodeLoop bits buff (base32Char v :: str) =
      if 8 ≤ bits + 5 then
        (base32DecodeLoop (bits - 3) ((buff <<< 5 + v) % 2 ^ 32) str).map fun out =>
          UInt8.ofNat (((buff <<< 5 + v) % 2 ^ 32) >>> (bits - 3)) :: out
      else base32DecodeLoop (bits + 5) ((buff <<< 5 + v) % 2 ^ 32) str := by
  rw [base32DecodeLoop, base32Value_char h]

theorem ofNat_eq_of_mod {x b : Nat} (h : x % 256 = b) : UInt8.ofNat x = UInt8.ofNat b := by
  apply UInt8.toNat_inj.mp
  subst h
  simp

section

variable {bits buff bits' buff' b : Nat}

/-- The encoder sends bits of the byte only, and has some left. -/
theorem Between.some_left (h : Between bits buff bits' buff' b) (hbits : 5 < bits) :
    ¬ 8 ≤ bits' + 5 ∧ Between (bits - 5) buff (bits' + 5)
      ((buff' <<< 5 + buff >>> (bits - 5) % 32) % 2 ^ 32) b := by
  obtain ⟨hsum, ⟨hlo, hhi⟩, hlow, hhigh, hbyte⟩ := h
  obtain rfl : bits' = 8 - bits := by omega
  simp only [Nat.shiftLeft_eq, Nat.shiftRight_eq_div_pow]
  interval_cases bits
  all_goals
    refine ⟨by omega, by omega, by omega, ?_, ?_, by omega⟩
    all_goals
      norm_num at hlow hhigh ⊢
      omega

/-- The encoder sends the last bits of the byte, which the decoder then has. -/
theorem Between.none_left (h : Between 5 buff bits' buff' b) :
    bits' = 3 ∧ UInt8.ofNat (((buff' <<< 5 + buff >>> (5 - 5) % 32) % 2 ^ 32) >>> (bits' - 3)) =
      UInt8.ofNat b := by
  obtain ⟨hsum, -, hlow, hhigh, hbyte⟩ := h
  obtain rfl : bits' = 3 := by omega
  refine ⟨rfl, ofNat_eq_of_mod ?_⟩
  simp only [Nat.shiftLeft_eq, Nat.shiftRight_eq_div_pow]
  norm_num at hlow hhigh ⊢
  omega

/-- The encoder sends the last bits of the byte with bits `m` behind them. -/
theorem Between.sends (h : Between bits buff bits' buff' b) (hbits : bits < 5) {m : Nat}
    (hm : m < 2 ^ (5 - bits)) :
    8 ≤ bits' + 5 ∧ buff % 2 ^ bits * 2 ^ (5 - bits) + m < 32 ∧
      UInt8.ofNat (((buff' <<< 5 + (buff % 2 ^ bits * 2 ^ (5 - bits) + m)) % 2 ^ 32) >>>
        (bits' - 3)) = UInt8.ofNat b ∧
      (buff' <<< 5 + (buff % 2 ^ bits * 2 ^ (5 - bits) + m)) % 2 ^ 32 % 2 ^ (bits' - 3) = m := by
  obtain ⟨hsum, ⟨hlo, hhi⟩, hlow, hhigh, hbyte⟩ := h
  obtain rfl : bits' = 8 - bits := by omega
  simp only [Nat.shiftLeft_eq, Nat.shiftRight_eq_div_pow]
  interval_cases bits
  all_goals
    norm_num at hlow hhigh hm ⊢
    refine ⟨?_, ofNat_eq_of_mod ?_, ?_⟩
    all_goals omega

/-- A byte that is loaded behind the bits that are left. -/
theorem loaded (buff : Nat) (hbits : bits < 5) (hb : b < 256) :
    ((buff <<< 8 ||| b) % 2 ^ 32) >>> (bits + 3) % 32 =
        buff % 2 ^ bits * 2 ^ (5 - bits) + b / 2 ^ (bits + 3) ∧
      b / 2 ^ (bits + 3) < 2 ^ (5 - bits) ∧
      (buff <<< 8 ||| b) % 2 ^ 32 % 2 ^ (bits + 3) = b % 2 ^ (bits + 3) := by
  rw [← Nat.shiftLeft_add_eq_or_of_lt (show b < 2 ^ 8 from hb)]
  simp only [Nat.shiftLeft_eq, Nat.shiftRight_eq_div_pow]
  interval_cases bits
  all_goals
    norm_num
    omega

theorem flushed (buff : Nat) (hbits : bits < 5) :
    buff <<< (5 - bits) % 2 ^ 32 % 32 = buff % 2 ^ bits * 2 ^ (5 - bits) + 0 := by
  simp only [Nat.shiftLeft_eq]
  interval_cases bits
  all_goals
    norm_num
    omega

theorem base32Decode_flush (h : Between bits buff bits' buff' b) :
    base32DecodeLoop bits' buff' (base32Flush bits buff) = some [UInt8.ofNat b] := by
  induction bits using base32Flush.induct generalizing bits' buff' with
  | case1 => exact absurd h.sending.1 (Nat.lt_irrefl 0)
  | case2 bits hne hlow =>
    obtain ⟨hout, hlt, hbyte, -⟩ := h.sends hlow (Nat.two_pow_pos _)
    rw [base32Flush, if_neg hne, if_pos hlow, flushed buff hlow, base32DecodeLoop_char hlt,
      if_pos hout, hbyte]
    rfl
  | case3 bits hne hhigh ih =>
    have hlt : buff >>> (bits - 5) % 32 < 32 := Nat.mod_lt _ (by decide)
    rw [base32Flush, if_neg hne, if_neg hhigh, base32DecodeLoop_char hlt]
    by_cases hfive : bits = 5
    · subst hfive
      obtain ⟨rfl, hbyte⟩ := h.none_left
      rw [if_pos (by decide), hbyte]
      simp [base32Flush, base32DecodeLoop]
    · obtain ⟨hout, hnext⟩ := h.some_left (by omega)
      rw [if_neg hout]
      exact ih hnext

/-- The decoder has each byte when the encoder has sent its last bits. -/
theorem base32Decode_loop (bits buff : Nat) (str : Bytes) :
    (∀ bits' buff' b, Between bits buff bits' buff' b →
      base32DecodeLoop bits' buff' (base32Loop bits buff str) = some (UInt8.ofNat b :: str)) ∧
    (bits = 0 → ∀ buff', base32DecodeLoop 0 buff' (base32Loop bits buff str) = some str) := by
  induction bits, buff, str using base32Loop.induct with
  | case1 bits buff =>
    refine ⟨fun bits' buff' b h => ?_, fun hbits buff' => ?_⟩
    · rw [base32Loop]
      exact base32Decode_flush h
    · subst hbits
      simp [base32Loop, base32Flush, base32DecodeLoop]
  | case2 bits buff ch rest hbits next ih =>
    have hch : ch.toNat < 256 := ch.toNat_lt
    obtain ⟨hvalue, hm, hlow⟩ := loaded buff hbits hch
    rw [base32Loop, if_pos hbits]
    simp only [hvalue]
    refine ⟨fun bits' buff' b h => ?_, fun hzero buff' => ?_⟩
    · obtain ⟨hout, hlt, hbyte, hhigh⟩ := h.sends hbits hm
      have hnext : Between (bits + 3) next (bits' - 3)
          ((buff' <<< 5 + (buff % 2 ^ bits * 2 ^ (5 - bits) + ch.toNat / 2 ^ (bits + 3))) % 2 ^ 32)
          ch.toNat := by
        have hsum := h.sum
        have hsending := h.sending
        exact ⟨by omega, by omega, hlow, hhigh, hch⟩
      rw [base32DecodeLoop_char hlt, if_pos hout, hbyte, ih.1 _ _ _ hnext, Option.map_some,
        UInt8.ofNat_toNat]
    · subst hzero
      have hlt : buff % 2 ^ 0 * 2 ^ (5 - 0) + ch.toNat / 2 ^ (0 + 3) < 32 := by omega
      rw [base32DecodeLoop_char hlt, if_neg (by decide)]
      have hnext : Between (0 + 3) next (0 + 5)
          ((buff' <<< 5 + (buff % 2 ^ 0 * 2 ^ (5 - 0) + ch.toNat / 2 ^ (0 + 3))) % 2 ^ 32)
          ch.toNat := by
        refine ⟨rfl, by decide, hlow, ?_, hch⟩
        rw [Nat.shiftLeft_eq]
        omega
      rw [ih.1 _ _ _ hnext, UInt8.ofNat_toNat]
  | case3 bits buff ch rest hbits ih =>
    have hlt : buff >>> (bits - 5) % 32 < 32 := Nat.mod_lt _ (by decide)
    rw [base32Loop, if_neg hbits]
    refine ⟨fun bits' buff' b h => ?_, fun hzero => absurd hzero (by omega)⟩
    rw [base32DecodeLoop_char hlt]
    by_cases hfive : bits = 5
    · subst hfive
      obtain ⟨rfl, hbyte⟩ := h.none_left
      rw [if_pos (by decide), hbyte, ih.2 rfl]
      rfl
    · obtain ⟨hout, hnext⟩ := h.some_left (by omega)
      rw [if_neg hout]
      exact ih.1 _ _ _ hnext

end

theorem base32Decode_encode (str : Bytes) : base32Decode (base32Encode str) = some str :=
  (base32Decode_loop 0 0 str).2 rfl 0

/-! ## Reads -/

theorem strlen_some {mem : Bytes} {off : Nat} (h : off ≤ mem.length) :
    ∃ len, strlen (mem ++ [0]) off = some len := by
  have hmem : (0 : UInt8) ∈ (mem ++ [0]).drop off := by
    rw [List.drop_append_of_le_length h]
    simp
  cases hfind : strlen (mem ++ [0]) off with
  | some len => exact ⟨len, rfl⟩
  | none =>
    have hno := List.findIdx?_eq_none_iff.mp hfind 0 hmem
    simp at hno

/-- The end of a text without zeros. -/
theorem strlen_append {before t : Bytes} (k : Nat) (h : 0 ∉ t) {off : Nat}
    (hoff : off = before.length) : strlen (before ++ (t ++ 0 :: zeros k)) off = some t.length := by
  subst hoff
  unfold strlen
  rw [List.drop_left, List.findIdx?_append]
  have hnone : t.findIdx? (fun x => decide (x = 0)) = none := by
    rw [List.findIdx?_eq_none_iff]
    intro x hx
    simp only [decide_eq_false_iff_not]
    rintro rfl
    exact h hx
  rw [hnone, List.findIdx?_cons]
  simp

theorem zeroPadded_append {before : Bytes} (k : Nat) {len stop : Nat} (hlen : before.length < len)
    (hstop : stop = before.length + k) : zeroPadded (before ++ 0 :: zeros k) len stop = true := by
  subst hstop
  unfold zeroPadded
  rw [List.all_eq_true]
  intro x hx
  have hmem : x ∈ (0 :: zeros k : Bytes) := by
    have hdrop := List.mem_of_mem_take (List.drop_take .. ▸ hx)
    have hsplit : (before ++ 0 :: zeros k).drop len =
        (0 :: zeros k : Bytes).drop (len - before.length) := by
      rw [List.drop_append, List.drop_of_length_le (by omega), List.nil_append]
    rw [hsplit] at hdrop
    exact List.mem_of_mem_drop hdrop
  have hzero : ∀ y ∈ (0 :: zeros k : Bytes), y = 0 := by
    intro y hy
    rcases List.mem_cons.mp hy with rfl | hy
    · rfl
    · exact List.eq_of_mem_replicate hy
  simp [hzero x hmem]

theorem blockAt_append {a b c : Bytes} {off : Nat} (ha : a.length = off)
    (hb : b.length = aes256BlockSize) : blockAt (a ++ (b ++ c)) off = some b := by
  subst ha
  have hblock : aes256BlockSize = 16 := rfl
  unfold blockAt
  rw [if_pos (by simp only [List.length_append]; omega), List.drop_left, List.take_left' hb]

theorem blockAt_some {data : Bytes} {off : Nat} (h : off + aes256BlockSize ≤ data.length) :
    ∃ b, blockAt data off = some b ∧ b.length = 16 := by
  refine ⟨_, if_pos h, ?_⟩
  have hblock : aes256BlockSize = 16 := rfl
  rw [List.length_take, List.length_drop]
  omega

theorem cString_append {t : Bytes} (k : Nat) (h : 0 ∉ t) : cString (t ++ 0 :: zeros k) = t := by
  unfold cString
  rw [List.takeWhile_append_of_pos]
  · simp
  · intro x hx
    simp only [ne_eq, decide_not, Bool.not_eq_true', decide_eq_false_iff_not]
    rintro rfl
    exact h hx

namespace TextEncoder

variable (enc : TextEncoder)

@[simp] theorem length_decodeBlock (b : Bytes) : (enc.decodeBlock b).length = 16 :=
  Fixed.length_bytes _

theorem decodeBlock_encodeBlock {b : Bytes} (h : b.length = 16) :
    enc.decodeBlock (enc.encodeBlock b) = b := by
  rw [decodeBlock, encodeBlock, Fixed.ofBytes_bytes, Equiv.symm_apply_apply,
    Fixed.bytes_ofBytes h]

/-- Both ways to combine a block with another. -/
def Combines (xor16 : Bytes → Bytes → Bytes) : Prop :=
  ∀ data key : Bytes, data.length = 16 → 16 ≤ key.length → xor16 data key = xor data (key.take 16)

theorem combines (l : LongSize) (aligned : Bool) :
    Combines (if aligned then xor16AlignedInplace l else xor16UnalignedInplace) := by
  intro data key hd hk
  cases aligned with
  | true => exact xor16AlignedInplace_eq l hd hk
  | false => exact xor16UnalignedInplace_eq hd

/-- Whole blocks are read inside of the data. -/
theorem decodeRest_some (xor16 : Bytes → Bytes → Bytes) (data : Bytes) (n : Nat) {off : Nat}
    (hoff : 16 ≤ off) (h : off + n * 16 ≤ data.length) :
    ∃ out, enc.decodeRest xor16 data n off = some out := by
  have hblock : aes256BlockSize = 16 := rfl
  induction n generalizing off with
  | zero => exact ⟨[], rfl⟩
  | succ n ih =>
    obtain ⟨block, hread, -⟩ := blockAt_some (show off + aes256BlockSize ≤ data.length by omega)
    obtain ⟨xorptr, hprev, -⟩ := blockAt_some
      (show off - aes256BlockSize + aes256BlockSize ≤ data.length by omega)
    have hnext : off + aes256BlockSize + n * 16 ≤ data.length := by omega
    obtain ⟨out, hrest⟩ := ih (Nat.le_trans hoff (Nat.le_add_right _ _)) hnext
    exact ⟨_, by rw [decodeRest, hread, Option.bind_some, hprev, Option.bind_some, hrest,
      Option.map_some]⟩

/-- Any data is read inside of its memory, and what is accepted ends with a zero. -/
theorem decodeText_some (l : LongSize) (aligned : Bool) (data : Bytes) :
    ∃ r, enc.decodeText l aligned data = some r ∧ ∀ mem, r = some mem → (0 : UInt8) ∈ mem := by
  have hblock : aes256BlockSize = 16 := rfl
  unfold decodeText
  split
  · exact ⟨none, rfl, nofun⟩
  · next hlen =>
    rw [not_or, not_not, hblock] at hlen
    obtain ⟨block, hread, hblen⟩ := blockAt_some (show 0 + aes256BlockSize ≤ data.length by omega)
    split
    · rw [hread, Option.bind_some]
      obtain ⟨len, hstrlen⟩ := strlen_some
        (Nat.zero_le (xor16AlignedInplace l (enc.decodeBlock block) enc.iv).length)
      simp only [hstrlen, Option.map_some]
      refine ⟨_, rfl, fun mem hmem => ?_⟩
      split at hmem
      · obtain rfl := Option.some.inj hmem
        simp
      · exact nomatch hmem
    · obtain ⟨out, hout⟩ := enc.decodeRest_some
        (if aligned then xor16AlignedInplace l else xor16UnalignedInplace) data
        (data.length / aes256BlockSize - 1) (Nat.le_of_eq hblock.symm) (by rw [hblock]; omega)
      rw [hread, Option.bind_some]
      simp only [hout, Option.bind_some]
      obtain ⟨len, hstrlen⟩ : ∃ len,
          strlen (enc.decodeBlock block ++ out ++ [0]) aes256BlockSize = some len :=
        strlen_some (by simp)
      rw [hstrlen, Option.map_some]
      refine ⟨_, rfl, fun mem hmem => ?_⟩
      split at hmem
      · obtain rfl := Option.some.inj hmem
        refine List.mem_append_right _ ?_
        rw [List.drop_append_of_le_length (by simp)]
        simp
      · exact nomatch hmem

/-! ## The text is read back -/

theorem length_copyPad {txt : Bytes} : (copyPad txt).length = 16 := by
  have hblock : aes256BlockSize = 16 := rfl
  simp only [copyPad, List.length_append, List.length_take, length_zeros]
  omega

theorem copyPad_short {txt : Bytes} (h : txt.length ≤ 16) :
    copyPad txt = txt ++ zeros (16 - txt.length) := by
  rw [copyPad, List.take_of_length_le h]

theorem copyPad_long {txt : Bytes} (h : 16 < txt.length) : copyPad txt = txt.take 16 := by
  have hnone : aes256BlockSize - txt.length = 0 := Nat.sub_eq_zero_of_le (Nat.le_of_lt h)
  rw [copyPad, hnone]
  exact List.append_nil _

/-- A block is combined with another, encoded, decoded and combined again. -/
theorem decode_block {xor16 : Bytes → Bytes → Bytes} (hxor : Combines xor16) (b : Bytes)
    {key : Bytes} (hb : b.length = 16) (hkey : 16 ≤ key.length) :
    xor16 (enc.decodeBlock (enc.encodeBlock (xor b (key.take 16)))) key = b := by
  have hkeylen : (key.take 16).length = 16 := by rw [List.length_take]; omega
  have hlen : (xor b (key.take 16)).length = 16 := by rw [length_xor, hb, hkeylen]; rfl
  rw [enc.decodeBlock_encodeBlock hlen, hxor _ _ hlen hkey, xor_xor_cancel (by omega)]

/-- The blocks behind the first one, by the rounds of the encoder; each round reads the block
before. -/
theorem decodeRest_encodeRest {xor16 : Bytes → Bytes → Bytes} (hxor : Combines xor16)
    (prev rest : Bytes) (hprev : prev.length = 16) :
    ∃ n, (enc.encodeRest prev rest).length = (n + 1) * 16 ∧ rest.length ≤ (n + 1) * 16 ∧
      ∀ before : Bytes, enc.decodeRest xor16 (before ++ (prev ++ enc.encodeRest prev rest)) (n + 1)
        (before.length + 16) = some (rest ++ zeros ((n + 1) * 16 - rest.length)) := by
  have hblock : aes256BlockSize = 16 := rfl
  induction prev, rest using TextEncoder.encodeRest.induct enc with
  | case1 prev rest next hlong ih =>
    have hnext : next.length = 16 := Fixed.length_bytes _
    have hpad : xor16 (enc.decodeBlock next) prev = rest.take 16 := by
      rw [← copyPad_long hlong]
      have hundo := enc.decode_block hxor (copyPad rest) length_copyPad
        (Nat.le_of_eq hprev.symm)
      rwa [List.take_of_length_le (Nat.le_of_eq hprev)] at hundo
    have hcode : enc.encodeRest prev rest = next ++ enc.encodeRest next (rest.drop 16) := by
      rw [encodeRest]
      exact if_pos hlong
    obtain ⟨n, hlen, hfits, hdecode⟩ := ih hnext
    rw [hblock] at hlen hfits hdecode hlong
    rw [List.length_drop] at hfits hdecode
    refine ⟨n + 1, by rw [hcode, List.length_append]; omega, by omega, fun before => ?_⟩
    have hread : blockAt (before ++ (prev ++ (next ++ enc.encodeRest next (rest.drop 16))))
        (before.length + 16) = some next := by
      rw [← List.append_assoc]
      exact blockAt_append (by simp [hprev]) hnext
    have hprevious : blockAt (before ++ (prev ++ (next ++ enc.encodeRest next (rest.drop 16))))
        before.length = some prev := blockAt_append rfl hprev
    have hrest := hdecode (before ++ prev)
    have hzeros : (n + 1) * 16 - (rest.length - 16) = (n + 1 + 1) * 16 - rest.length := by omega
    rw [List.length_append, hprev, List.append_assoc, hzeros] at hrest
    rw [decodeRest, hcode, hread, Option.bind_some, hblock, Nat.add_sub_cancel, hprevious,
      Option.bind_some, hrest, Option.map_some, hpad, ← List.append_assoc, List.take_append_drop]
  | case2 prev rest hshort =>
    rw [hblock, Nat.not_lt] at hshort
    have hcode : enc.encodeRest prev rest = enc.encodeBlock (xor (copyPad rest) prev) := by
      rw [encodeRest]
      exact if_neg (Nat.not_lt.mpr hshort)
    have hlen : (enc.encodeBlock (xor (copyPad rest) prev)).length = 16 := Fixed.length_bytes _
    refine ⟨0, by rw [hcode, hlen], by omega, fun before => ?_⟩
    have hread : blockAt (before ++ (prev ++ enc.encodeBlock (xor (copyPad rest) prev)))
        (before.length + 16) = some (enc.encodeBlock (xor (copyPad rest) prev)) := by
      have hhere := @blockAt_append (before ++ prev) _ [] (before.length + 16)
        (by rw [List.length_append, hprev]) hlen
      rwa [List.append_nil, List.append_assoc] at hhere
    have hprevious : blockAt (before ++ (prev ++ enc.encodeBlock (xor (copyPad rest) prev)))
        before.length = some prev := blockAt_append rfl hprev
    have hpad := enc.decode_block hxor (copyPad rest) length_copyPad
      (Nat.le_of_eq hprev.symm)
    rw [List.take_of_length_le (Nat.le_of_eq hprev)] at hpad
    rw [decodeRest, hcode, hread, Option.bind_some, hblock, Nat.add_sub_cancel, hprevious,
      Option.bind_some, decodeRest, Option.map_some, hpad, List.append_nil, copyPad_short hshort]

theorem zeros_append_zero (k : Nat) : zeros k ++ [0] = 0 :: zeros k := by
  rw [zeros, ← List.replicate_succ', List.replicate_succ]

/-- A text of one block at most. -/
theorem decodeText_short (l : LongSize) (aligned : Bool) {t : Bytes} (h0 : 0 ∉ t)
    (hshort : t.length ≤ 16) :
    enc.decodeText l aligned (enc.encodeText t) =
      some (some (t ++ 0 :: zeros (16 - t.length))) := by
  have hblock : aes256BlockSize = 16 := rfl
  have hxor : Combines (xor16AlignedInplace l) := fun d key hd hkey =>
    xor16AlignedInplace_eq l hd hkey
  have hpad := enc.decode_block hxor (copyPad t) length_copyPad enc.ivlen
  have hcode : enc.encodeText t = enc.encodeBlock (xor (copyPad t) (enc.iv.take 16)) :=
    if_pos hshort
  have hlen : (enc.encodeText t).length = 16 := enc.length_encodeText_short hshort
  have hread : blockAt (enc.encodeText t) 0 = some (enc.encodeText t) := by
    have hhere := @blockAt_append [] _ [] 0 rfl hlen
    rwa [List.append_nil, List.nil_append] at hhere
  have hret : copyPad t ++ [0] = t ++ 0 :: zeros (16 - t.length) := by
    rw [copyPad_short hshort, List.append_assoc, zeros_append_zero]
  have hstrlen : strlen (t ++ 0 :: zeros (16 - t.length)) 0 = some t.length :=
    @strlen_append [] t _ h0 0 rfl
  have hclean : zeroPadded (t ++ 0 :: zeros (16 - t.length)) (t.length + 1) 16 = true :=
    zeroPadded_append _ (Nat.lt_succ_self _) (by omega)
  rw [decodeText, if_neg (by rw [hlen]; decide), if_pos (by rw [hlen]; rfl), hread,
    Option.bind_some]
  simp only [hlen]
  rw [hcode, hpad, hret, hstrlen, Option.map_some, if_pos hclean]

/-- A longer text: the code of the first block has the hash of the rest in it, which is read
first. -/
theorem decodeText_long (l : LongSize) (aligned : Bool) {t : Bytes} (h0 : 0 ∉ t)
    (hlong : 16 < t.length) :
    ∃ k, enc.decodeText l aligned (enc.encodeText t) = some (some (t ++ 0 :: zeros k)) := by
  have hblock : aes256BlockSize = 16 := rfl
  let hmac := (enc.hmacSha512 (t.drop 16)).bytes
  have hhmac : 16 ≤ hmac.length := by
    rw [Fixed.length_bytes]
    decide
  let head := xor (t.take 16) (hmac.take 16)
  have hheadlen : head.length = 16 := by
    rw [length_xor, List.length_take, List.length_take]
    omega
  have hfirst : (enc.encodeBlock head).length = 16 := Fixed.length_bytes _
  obtain ⟨n, hlen, hfits, hdecode⟩ := enc.decodeRest_encodeRest (combines l aligned)
    (enc.encodeBlock head) (t.drop 16) hfirst
  have hrest := hdecode []
  rw [List.nil_append, List.length_nil, Nat.zero_add] at hrest
  have hcode : enc.encodeText t =
      enc.encodeBlock head ++ enc.encodeRest (enc.encodeBlock head) (t.drop 16) :=
    if_neg (Nat.not_le.mpr hlong)
  have hdatalen : (enc.encodeText t).length = 16 + (n + 1) * 16 := by
    rw [hcode, List.length_append, hfirst, hlen]
  refine ⟨(n + 1) * 16 - (t.drop 16).length, ?_⟩
  set k := (n + 1) * 16 - (t.drop 16).length with hk
  have hread : blockAt (enc.encodeText t) 0 = some (enc.encodeBlock head) := by
    have hhere := @blockAt_append [] _ (enc.encodeRest (enc.encodeBlock head) (t.drop 16)) 0 rfl
      hfirst
    rwa [List.nil_append, ← hcode] at hhere
  have hret : head ++ (t.drop 16 ++ zeros k) ++ [0] = head ++ (t.drop 16 ++ 0 :: zeros k) := by
    simp only [List.append_assoc, zeros_append_zero]
  have htail : 0 ∉ t.drop 16 := fun hmem => h0 (List.mem_of_mem_drop hmem)
  have hstrlen : strlen (head ++ (t.drop 16 ++ 0 :: zeros k)) 16 = some (t.drop 16).length :=
    strlen_append k htail hheadlen.symm
  have hundo : xor16AlignedInplace l head hmac = t.take 16 := by
    rw [xor16AlignedInplace_eq l hheadlen hhmac]
    exact xor_xor_cancel (by rw [List.length_take, List.length_take]; omega)
  have hclean : zeroPadded (t ++ 0 :: zeros k) ((t.drop 16).length + 16 + 1)
      (16 + (n + 1) * 16) = true := by
    rw [List.length_drop] at hk hfits ⊢
    exact zeroPadded_append k (by omega) (by omega)
  rw [decodeText, if_neg (by rw [hdatalen, hblock]; omega),
    if_neg (by rw [hdatalen, hblock]; omega), hread, Option.bind_some]
  have hblocks : (16 + (n + 1) * 16) / 16 - 1 = n + 1 := by omega
  rw [← hcode] at hrest
  simp only [hdatalen, hblock, hblocks, hrest, Option.bind_some,
    enc.decodeBlock_encodeBlock hheadlen, hret, hstrlen, Option.map_some]
  rw [List.drop_left' hheadlen, List.take_left' hheadlen, List.take_left' rfl, hundo,
    ← List.append_assoc, List.take_append_drop, if_pos hclean]

end TextEncoder

/-! ## Names -/

theorem decodeFilename_encodeFilename (enc : TextEncoder) (l : LongSize) (aligned : Bool)
    {t : Bytes} (h0 : 0 ∉ t) :
    ∃ mem, decodeFilename enc l aligned (encodeFilename enc t) = some (some mem) ∧
      cString mem = t := by
  rw [decodeFilename, encodeFilename, base32Decode_encode]
  by_cases hlong : 16 < t.length
  · obtain ⟨k, hdecode⟩ := enc.decodeText_long l aligned h0 hlong
    exact ⟨_, hdecode, cString_append k h0⟩
  · have hdecode := enc.decodeText_short l aligned h0 (Nat.not_lt.mp hlong)
    exact ⟨_, hdecode, cString_append _ h0⟩

theorem decodeFilename_some (enc : TextEncoder) (l : LongSize) (aligned : Bool) (s : Bytes) :
    ∃ r, decodeFilename enc l aligned s = some r ∧ ∀ mem, r = some mem → (0 : UInt8) ∈ mem := by
  rw [decodeFilename]
  cases base32Decode s with
  | none => exact ⟨none, rfl, nofun⟩
  | some filenameenc => exact enc.decodeText_some l aligned filenameenc

/-- What the decoder of base 32 writes fits the memory that it allocates. -/
theorem length_base32DecodeLoop {bits buff : Nat} {str out : Bytes}
    (h : base32DecodeLoop bits buff str = some out) (hbits : bits < 8) :
    out.length * 8 ≤ bits + 5 * str.length := by
  induction str generalizing bits buff out with
  | nil =>
    obtain rfl := Option.some.inj h
    simp
  | cons ch str ih =>
    rw [base32DecodeLoop] at h
    split at h
    · exact nomatch h
    · split at h
      · obtain ⟨rest, hrest, rfl⟩ := Option.map_eq_some_iff.mp h
        have hlen := ih hrest (by omega)
        simp only [List.length_cons]
        omega
      · have hlen := ih h (by omega)
        simp only [List.length_cons]
        omega

theorem length_base32Decode {str out : Bytes} (h : base32Decode str = some out) :
    out.length + 1 ≤ (str.length + 7) / 8 * 5 + 1 := by
  have hlen := length_base32DecodeLoop h (by decide)
  omega

/-- Names that are not empty and have no zero are encoded into the memory that is allocated, and
come back; every name is decoded inside of the memory that there is, and what is accepted is a
string. -/
theorem filename_codec (enc : TextEncoder) (l : LongSize) (aligned : Bool) :
    (∀ t : Bytes, t ≠ [] → 0 ∉ t →
      (enc.encodeText t).length = TextEncoder.alignA256Bs t.length ∧ ∃ mem,
        decodeFilename enc l aligned (encodeFilename enc t) = some (some mem) ∧ cString mem = t) ∧
    (∀ t t' : Bytes, t ≠ [] → t' ≠ [] → 0 ∉ t → 0 ∉ t' →
      encodeFilename enc t = encodeFilename enc t' → t = t') ∧
    (∀ s : Bytes, ∃ r, decodeFilename enc l aligned s = some r ∧
      ∀ mem, r = some mem → (0 : UInt8) ∈ mem) ∧
    ∀ s out : Bytes, base32Decode s = some out → out.length + 1 ≤ (s.length + 7) / 8 * 5 + 1 := by
  refine ⟨fun t hne h0 =>
      ⟨enc.length_encodeText_eq hne, decodeFilename_encodeFilename enc l aligned h0⟩,
    fun t t' _ _ h0 h0' heq => ?_, decodeFilename_some enc l aligned,
    fun s out => length_base32Decode⟩
  obtain ⟨mem, hdecode, hmem⟩ := decodeFilename_encodeFilename enc l aligned h0
  obtain ⟨mem', hdecode', hmem'⟩ := decodeFilename_encodeFilename enc l aligned h0'
  rw [heq, hdecode'] at hdecode
  obtain rfl : mem' = mem := Option.some.inj (Option.some.inj hdecode)
  rw [← hmem, hmem']

/-- An encoder whose primitives do nothing. -/
def plainEncoder : TextEncoder :=
  ⟨Equiv.refl _, fun _ => Fixed.ofBytes _ [], zeros 16, by decide⟩

/-- A name of two blocks. -/
theorem filename_codec_plain :
    (plainEncoder.encodeText (List.replicate 20 97)).length = 32 ∧ ∃ mem,
      decodeFilename plainEncoder .long64 true
        (encodeFilename plainEncoder (List.replicate 20 97)) =
        some (some mem) ∧ cString mem = List.replicate 20 97 :=
  (filename_codec plainEncoder .long64 true).1 (List.replicate 20 97) (by decide) (by decide)

end PcloudClient.Crypto
