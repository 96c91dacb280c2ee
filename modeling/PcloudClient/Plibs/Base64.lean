/-
  Plibs/Base64.lean --- base 64 for URLs (`plibs.c`, lines 65-90 and 246-315).

  The decoder writes to memory it has allocated, at a place that only its table tells; a write
  outside of that memory is `none`.
-/
import PcloudClient.Foundation.Bytes

set_option autoImplicit false

namespace PcloudClient.Plibs

/-- `base64_table` -/
def base64Table : List Char :=
  ['A', 'B', 'C', 'D', 'E', 'F', 'G', 'H', 'I', 'J', 'K', 'L', 'M',
   'N', 'O', 'P', 'Q', 'R', 'S', 'T', 'U', 'V', 'W', 'X', 'Y', 'Z',
   'a', 'b', 'c', 'd', 'e', 'f', 'g', 'h', 'i', 'j', 'k', 'l', 'm',
   'n', 'o', 'p', 'q', 'r', 's', 't', 'u', 'v', 'w', 'x', 'y', 'z',
   '0', '1', '2', '3', '4', '5', '6', '7', '8', '9', '-', '_']

/-- The rows of `base64_reverse_table` up to 127; the others are all -2. -/
def base64ReverseTable : List Int :=
  [-2, -2, -2, -2, -2, -2, -2, -2, -2, -1, -1, -2, -2, -1, -2, -2,
   -2, -2, -2, -2, -2, -2, -2, -2, -2, -2, -2, -2, -2, -2, -2, -2,
   -1, -2, -2, -2, -2, -2, -2, -2, -2, -2, -2, 62, -2, 62, -2, 63,
   52, 53, 54, 55, 56, 57, 58, 59, 60, 61, -2, -2, -2, -1, -2, -2,
   -2,  0,  1,  2,  3,  4,  5,  6,  7,  8,  9, 10, 11, 12, 13, 14,
   15, 16, 17, 18, 19, 20, 21, 22, 23, 24, 25, -2, -2, -2, -2, 63,
   -2, 26, 27, 28, 29, 30, 31, 32, 33, 34, 35, 36, 37, 38, 39, 40,
   41, 42, 43, 44, 45, 46, 47, 48, 49, 50, 51, -2, -2, -2, -2, -2]

def base64Char (n : Nat) : UInt8 := UInt8.ofNat (base64Table.getD n 'A').toNat

/-- A member of `base64_reverse_table`, a `char`, which is signed or not. -/
def base64Reverse (signed : Bool) (x : UInt8) : Int :=
  let ch := base64ReverseTable.getD x.toNat (-2)
  if signed then ch else ch % 256

/-- `psync_base64_encode` -/
def base64Encode : Bytes → Bytes
  | c0 :: c1 :: c2 :: rest =>
    base64Char (c0.toNat >>> 2) ::
      base64Char (((c0.toNat &&& 0x03) <<< 4) + (c1.toNat >>> 4)) ::
      base64Char (((c1.toNat &&& 0x0f) <<< 2) + (c2.toNat >>> 6)) ::
      base64Char (c2.toNat &&& 0x3f) :: base64Encode rest
  | [c0, c1] =>
    [base64Char (c0.toNat >>> 2), base64Char (((c0.toNat &&& 0x03) <<< 4) + (c1.toNat >>> 4)),
     base64Char ((c1.toNat &&& 0x0f) <<< 2)]
  | [c0] => [base64Char (c0.toNat >>> 2), base64Char ((c0.toNat &&& 0x03) <<< 4)]
  | [] => []

/-- `result[j]=x` -/
def put (result : Bytes) (j : Nat) (x : UInt8) : Option Bytes :=
  if j < result.length then some (result.set j x) else none

/-- `result[j]|=x` -/
def putOr (result : Bytes) (j : Nat) (x : UInt8) : Option Bytes :=
  put result j (result.getD j 0 ||| x)

/-- The `switch` of `psync_base64_decode`. -/
def base64Put (result : Bytes) (i j ch : Nat) : Option (Bytes × Nat) :=
  match i % 4 with
  | 0 => (put result j (UInt8.ofNat (ch <<< 2))).map fun r => (r, j)
  | 1 => (putOr result j (UInt8.ofNat (ch >>> 4))).bind fun r =>
      (put r (j + 1) (UInt8.ofNat ((ch &&& 0x0f) <<< 4))).map fun r => (r, j + 1)
  | 2 => (putOr result j (UInt8.ofNat (ch >>> 2))).bind fun r =>
      (put r (j + 1) (UInt8.ofNat ((ch &&& 0x03) <<< 6))).map fun r => (r, j + 1)
  | _ => (putOr result j (UInt8.ofNat ch)).map fun r => (r, j + 1)

/-- The loop of `psync_base64_decode`; a `none` inside is its `NULL`. -/
def base64Loop (signed : Bool) : Bytes → Bytes → Nat → Nat → Option (Option (Bytes × Nat))
  | [], result, _, j => some (some (result, j))
  | x :: str, result, i, j =>
    let ch := base64Reverse signed x
    if ch = -1 then base64Loop signed str result i j
    else if ch = -2 then some none
    else (base64Put result i j ch.toNat).bind fun r => base64Loop signed str r.1 (i + 1) r.2

/-- `psync_base64_decode`; `junk` is what the allocated memory holds. -/
def base64Decode (signed : Bool) (junk : Nat → UInt8) (str : Bytes) : Option (Option Bytes) :=
  match base64Loop signed str ((List.range ((str.length + 3) / 4 * 3 + 1)).map junk) 0 0 with
  | none => none
  | some none => some none
  | some (some (result, j)) => (put result j 0).map fun r => some (r.take j)

/-! ## The memory of the decoder -/

variable {signed : Bool} {result str : Bytes} {i j ch : Nat} {x y : UInt8}

theorem put_some (h : j < result.length) : put result j x = some (result.set j x) := if_pos h

theorem putOr_some (h : j < result.length) :
    putOr result j x = some (result.set j (result.getD j 0 ||| x)) := if_pos h

/-- Three bytes for four characters. -/
theorem base64Put_some (hj : j = i * 3 / 4) (h : i / 4 * 3 + 2 < result.length) :
    ∃ r, base64Put result i j ch = some (r, (i + 1) * 3 / 4) ∧ r.length = result.length := by
  unfold base64Put
  split
  · next hi =>
    rw [put_some (by omega)]
    exact ⟨_, by rw [Option.map_some, show (i + 1) * 3 / 4 = j by omega], List.length_set⟩
  · next hi =>
    rw [putOr_some (by omega), Option.bind_some, put_some (by rw [List.length_set]; omega)]
    refine ⟨_, by rw [Option.map_some, show (i + 1) * 3 / 4 = j + 1 by omega], ?_⟩
    rw [List.length_set, List.length_set]
  · next hi =>
    rw [putOr_some (by omega), Option.bind_some, put_some (by rw [List.length_set]; omega)]
    refine ⟨_, by rw [Option.map_some, show (i + 1) * 3 / 4 = j + 1 by omega], ?_⟩
    rw [List.length_set, List.length_set]
  · next h0 h1 h2 =>
    have hlast : i % 4 ≠ 0 ∧ i % 4 ≠ 1 ∧ i % 4 ≠ 2 := ⟨h0, h1, h2⟩
    rw [putOr_some (by omega)]
    exact ⟨_, by rw [Option.map_some, show (i + 1) * 3 / 4 = j + 1 by omega], List.length_set⟩

/-- The loop stays inside of what is allocated for its characters. -/
theorem base64Loop_some (hj : j = i * 3 / 4)
    (h : (i + str.length + 3) / 4 * 3 + 1 ≤ result.length) :
    base64Loop signed str result i j = some none ∨
      ∃ r j', base64Loop signed str result i j = some (some (r, j')) ∧ j' < r.length := by
  induction str generalizing result i j with
  | nil =>
    rw [List.length_nil] at h
    exact .inr ⟨result, j, rfl, by omega⟩
  | cons x str ih =>
    rw [List.length_cons] at h
    rw [base64Loop]
    split
    · exact ih hj (by omega)
    · split
      · exact .inl rfl
      · obtain ⟨r, hput, hlen⟩ := @base64Put_some result i j (base64Reverse signed x).toNat hj
          (by omega)
        rw [hput, Option.bind_some]
        exact ih rfl (by rw [hlen]; omega)

theorem base64Decode_ne_none (signed : Bool) (junk : Nat → UInt8) (str : Bytes) :
    base64Decode signed junk str ≠ none := by
  unfold base64Decode
  rcases @base64Loop_some signed ((List.range ((str.length + 3) / 4 * 3 + 1)).map junk) str 0 0 rfl
    (by simp) with hnull | ⟨r, j', hloop, hj'⟩
  · rw [hnull]
    exact nofun
  · rw [hloop]
    simp only
    rw [put_some hj']
    exact nofun

/-! ## The round trip -/

theorem base64Reverse_char {n : Nat} (h : n < 64) : base64Reverse signed (base64Char n) = n := by
  have hall : ∀ signed : Bool, ∀ n < 64, base64Reverse signed (base64Char n) = n := by decide
  exact hall signed n h

/-- A character of the table puts its bits. -/
theorem base64Loop_char {n : Nat} (h : n < 64) :
    base64Loop signed (base64Char n :: str) result i j =
      (base64Put result i j n).bind fun r => base64Loop signed str r.1 (i + 1) r.2 := by
  rw [base64Loop, base64Reverse_char h]
  rw [if_neg (by omega), if_neg (by omega), Int.toNat_natCast]

/-- Bits that do not meet are added. -/
theorem join_bits (k : Nat) {h l : Nat} (hl : l < 2 ^ k) :
    UInt8.ofNat (h <<< k) ||| UInt8.ofNat l = UInt8.ofNat (2 ^ k * h + l) := by
  rw [Nat.two_pow_add_eq_or_of_lt hl, Nat.shiftLeft_eq, Nat.mul_comm, ← UInt8.ofNat_or]

/-- The parts of a byte. -/
theorem join_parts (k : Nat) {m : Nat} (hm : m = 2 ^ k) (c : UInt8) :
    UInt8.ofNat ((c.toNat / m) <<< k) ||| UInt8.ofNat (c.toNat % m) = c := by
  subst hm
  rw [join_bits k (Nat.mod_lt _ (Nat.two_pow_pos k)), Nat.div_add_mod, UInt8.ofNat_toNat]

/-! What one character does to the memory behind what is there. -/

variable {before after : Bytes} {q q' : UInt8}

theorem put_append (hj : j = before.length) :
    put (before ++ q :: after) j x = some (before ++ x :: after) := by
  subst hj
  rw [put_some (by simp), List.set_append_right _ _ (Nat.le_refl _), Nat.sub_self]
  rfl

theorem putOr_append (hj : j = before.length) :
    putOr (before ++ q :: after) j x = some (before ++ (q ||| x) :: after) := by
  subst hj
  unfold putOr
  rw [put_append rfl]
  simp

theorem base64Put_first (hi : i % 4 = 0) (hj : j = before.length) :
    base64Put (before ++ q :: after) i j ch =
      some (before ++ UInt8.ofNat (ch <<< 2) :: after, j) := by
  simp only [base64Put, hi, put_append hj, Option.map_some]

/-- The second character of four, and the third with other shifts. -/
theorem putOr_put_append (hj : j = before.length) :
    ((putOr (before ++ q :: q' :: after) j x).bind fun r =>
        (put r (j + 1) y).map fun r => (r, j + 1)) =
      some (before ++ (q ||| x) :: y :: after, j + 1) := by
  have hlist : before ++ (q ||| x) :: q' :: after = (before ++ [q ||| x]) ++ q' :: after := by simp
  rw [putOr_append hj, Option.bind_some, hlist, put_append (by simp [hj]), Option.map_some]
  simp

theorem base64Put_second (hi : i % 4 = 1) (hj : j = before.length) :
    base64Put (before ++ q :: q' :: after) i j ch =
      some (before ++ (q ||| UInt8.ofNat (ch >>> 4)) :: UInt8.ofNat ((ch &&& 0x0f) <<< 4) :: after,
        j + 1) := by
  simp only [base64Put, hi, putOr_put_append hj]

theorem base64Put_third (hi : i % 4 = 2) (hj : j = before.length) :
    base64Put (before ++ q :: q' :: after) i j ch =
      some (before ++ (q ||| UInt8.ofNat (ch >>> 2)) :: UInt8.ofNat ((ch &&& 0x03) <<< 6) :: after,
        j + 1) := by
  simp only [base64Put, hi, putOr_put_append hj]

theorem base64Put_fourth (hi : i % 4 = 3) (hj : j = before.length) :
    base64Put (before ++ q :: after) i j ch =
      some (before ++ (q ||| UInt8.ofNat ch) :: after, j + 1) := by
  simp only [base64Put, hi, putOr_append hj, Option.map_some]

/-! The bits of three bytes. -/

variable {c0 c1 c2 : UInt8}

theorem first_byte {m : Nat} (hm : m < 16) :
    UInt8.ofNat (c0.toNat >>> 2 <<< 2) |||
      UInt8.ofNat ((((c0.toNat &&& 0x03) <<< 4) + m) >>> 4) = c0 := by
  have hlow : c0.toNat &&& 0x03 = c0.toNat % 4 := Nat.and_two_pow_sub_one_eq_mod _ 2
  have hnext : (((c0.toNat &&& 0x03) <<< 4) + m) >>> 4 = c0.toNat % 4 := by
    rw [hlow, Nat.shiftLeft_eq, Nat.shiftRight_eq_div_pow]
    omega
  rw [hnext, Nat.shiftRight_eq_div_pow]
  exact join_parts 2 rfl c0

theorem second_byte {h m : Nat} (hm : m < 4) :
    UInt8.ofNat (((h <<< 4) + (c1.toNat >>> 4) &&& 0x0f) <<< 4) |||
      UInt8.ofNat ((((c1.toNat &&& 0x0f) <<< 2) + m) >>> 2) = c1 := by
  have hlt := c1.toNat_lt
  have hmod : ∀ n, n &&& 0x0f = n % 16 := fun n => Nat.and_two_pow_sub_one_eq_mod n 4
  have hhigh : (h <<< 4) + (c1.toNat >>> 4) &&& 0x0f = c1.toNat / 16 := by
    rw [hmod, Nat.shiftLeft_eq, Nat.shiftRight_eq_div_pow]
    omega
  have hnext : (((c1.toNat &&& 0x0f) <<< 2) + m) >>> 2 = c1.toNat % 16 := by
    rw [hmod, Nat.shiftLeft_eq, Nat.shiftRight_eq_div_pow]
    omega
  rw [hnext, hhigh]
  exact join_parts 4 rfl c1

theorem third_byte {h : Nat} :
    UInt8.ofNat (((h <<< 2) + (c2.toNat >>> 6) &&& 0x03) <<< 6) |||
      UInt8.ofNat (c2.toNat &&& 0x3f) = c2 := by
  have hlt := c2.toNat_lt
  have hlow : c2.toNat &&& 0x3f = c2.toNat % 64 := Nat.and_two_pow_sub_one_eq_mod _ 6
  have hmod : ∀ n, n &&& 0x03 = n % 4 := fun n => Nat.and_two_pow_sub_one_eq_mod n 2
  have hhigh : (h <<< 2) + (c2.toNat >>> 6) &&& 0x03 = c2.toNat / 64 := by
    rw [hmod, Nat.shiftLeft_eq, Nat.shiftRight_eq_div_pow]
    omega
  rw [hlow, hhigh]
  exact join_parts 6 rfl c2

theorem char_bounds (c0 c1 c2 : UInt8) :
    c0.toNat >>> 2 < 64 ∧ ((c0.toNat &&& 0x03) <<< 4) + (c1.toNat >>> 4) < 64 ∧
      ((c1.toNat &&& 0x0f) <<< 2) + (c2.toNat >>> 6) < 64 ∧ c2.toNat &&& 0x3f < 64 ∧
      c1.toNat >>> 4 < 16 ∧ c2.toNat >>> 6 < 4 := by
  have h0 := c0.toNat_lt
  have h1 := c1.toNat_lt
  have h2 := c2.toNat_lt
  have hlow0 : c0.toNat &&& 0x03 = c0.toNat % 4 := Nat.and_two_pow_sub_one_eq_mod _ 2
  have hlow1 : c1.toNat &&& 0x0f = c1.toNat % 16 := Nat.and_two_pow_sub_one_eq_mod _ 4
  have hlow2 : c2.toNat &&& 0x3f = c2.toNat % 64 := Nat.and_two_pow_sub_one_eq_mod _ 6
  rw [hlow0, hlow1, hlow2]
  simp only [Nat.shiftLeft_eq, Nat.shiftRight_eq_div_pow]
  omega

/-- Four characters put three bytes. -/
theorem base64Loop_three {q0 q1 q2 : UInt8} (hi : i % 4 = 0) (hj : j = before.length) :
    base64Loop signed (base64Encode (c0 :: c1 :: c2 :: str)) (before ++ q0 :: q1 :: q2 :: after)
        i j =
      base64Loop signed (base64Encode str) (before ++ c0 :: c1 :: c2 :: after) (i + 4) (j + 3) := by
  obtain ⟨hn0, hn1, hn2, hn3, hm1, hm2⟩ := char_bounds c0 c1 c2
  have hnext : ∀ c (l : Bytes), before ++ c :: l = (before ++ [c]) ++ l := fun c l => by simp
  have hnext2 : ∀ c c' (l : Bytes), before ++ c :: c' :: l = (before ++ [c, c']) ++ l :=
    fun c c' l => by simp
  rw [base64Encode, base64Loop_char hn0, base64Put_first hi hj, Option.bind_some,
    base64Loop_char hn1, base64Put_second (by omega) hj, Option.bind_some, first_byte hm1,
    base64Loop_char hn2, hnext, base64Put_third (by omega) (by simp [hj]), Option.bind_some,
    second_byte hm2, base64Loop_char hn3, ← hnext, hnext2,
    base64Put_fourth (by omega) (by simp [hj]), Option.bind_some, third_byte]
  simp

theorem exists_three {l : Bytes} (h : 3 ≤ l.length) : ∃ q0 q1 q2 r, l = q0 :: q1 :: q2 :: r := by
  match l with
  | q0 :: q1 :: q2 :: r => exact ⟨q0, q1, q2, r, rfl⟩
  | [] => simp at h
  | [_] => simp at h
  | [_, _] => simp at h

/-- The loop on what was encoded. -/
theorem base64Loop_encode (b : Bytes) (hi : i % 4 = 0) (hj : j = before.length)
    (hafter : (b.length + 2) / 3 * 3 + 1 ≤ after.length) :
    ∃ r, base64Loop signed (base64Encode b) (before ++ after) i j =
      some (some (before ++ b ++ r, j + b.length)) ∧ r ≠ [] := by
  induction b using base64Encode.induct generalizing before after i j with
  | case1 c0 c1 c2 rest ih =>
    simp only [List.length_cons] at hafter
    obtain ⟨q0, q1, q2, after, rfl⟩ := exists_three (l := after) (by omega)
    simp only [List.length_cons] at hafter
    obtain ⟨r, hloop, hr⟩ : ∃ r, base64Loop signed (base64Encode rest)
        ((before ++ [c0, c1, c2]) ++ after) (i + 4) (j + 3) =
          some (some (before ++ [c0, c1, c2] ++ rest ++ r, j + 3 + rest.length)) ∧ r ≠ [] :=
      ih (by omega) (by simp [hj]) (by omega)
    have hlist : before ++ c0 :: c1 :: c2 :: after = before ++ [c0, c1, c2] ++ after := by simp
    have hlen : j + 3 + rest.length = j + (c0 :: c1 :: c2 :: rest).length := by
      simp only [List.length_cons]
      omega
    refine ⟨r, ?_, hr⟩
    rw [base64Loop_three hi hj, hlist, hloop, hlen]
    simp
  | case2 c0 c1 =>
    obtain ⟨hn0, hn1, hn2, -, hm1, -⟩ := char_bounds c0 c1 0
    have hn2 : (c1.toNat &&& 0x0f) <<< 2 < 64 := by simpa using hn2
    have hlist : ∀ l : Bytes, before ++ c0 :: l = (before ++ [c0]) ++ l := fun l => by simp
    simp only [List.length_cons, List.length_nil] at hafter
    obtain ⟨q0, q1, q2, after, rfl⟩ := exists_three (l := after) (by omega)
    refine ⟨UInt8.ofNat ((((c1.toNat &&& 0x0f) <<< 2) &&& 0x03) <<< 6) :: after, ?_,
      List.cons_ne_nil _ _⟩
    rw [base64Encode, base64Loop_char hn0, base64Put_first hi hj, Option.bind_some,
      base64Loop_char hn1, base64Put_second (by omega) hj, Option.bind_some, first_byte hm1,
      base64Loop_char hn2, hlist, base64Put_third (by omega) (by simp [hj]), Option.bind_some,
      show (c1.toNat &&& 0x0f) <<< 2 = ((c1.toNat &&& 0x0f) <<< 2) + 0 from rfl,
      second_byte (by decide)]
    simp [base64Loop]
  | case3 c0 =>
    obtain ⟨hn0, hn1, -, -, -, -⟩ := char_bounds c0 0 0
    have hn1 : (c0.toNat &&& 0x03) <<< 4 < 64 := by simpa using hn1
    simp only [List.length_cons, List.length_nil] at hafter
    obtain ⟨q0, q1, q2, after, rfl⟩ := exists_three (l := after) (by omega)
    refine ⟨UInt8.ofNat ((((c0.toNat &&& 0x03) <<< 4) &&& 0x0f) <<< 4) :: q2 :: after, ?_,
      List.cons_ne_nil _ _⟩
    rw [base64Encode, base64Loop_char hn0, base64Put_first hi hj, Option.bind_some,
      base64Loop_char hn1, base64Put_second (by omega) hj, Option.bind_some,
      show (c0.toNat &&& 0x03) <<< 4 = ((c0.toNat &&& 0x03) <<< 4) + 0 from rfl,
      first_byte (by decide)]
    simp [base64Loop]
  | case4 =>
    refine ⟨after, by simp [base64Encode, base64Loop], ?_⟩
    rintro rfl
    simp at hafter

theorem length_base64Encode (b : Bytes) :
    (b.length + 2) / 3 * 3 + 1 ≤ ((base64Encode b).length + 3) / 4 * 3 + 1 := by
  induction b using base64Encode.induct with
  | case1 c0 c1 c2 rest ih =>
    rw [base64Encode]
    simp only [List.length_cons]
    omega
  | case2 c0 c1 => simp [base64Encode]
  | case3 c0 => simp [base64Encode]
  | case4 => exact Nat.le_refl _

theorem base64Decode_encode (signed : Bool) (junk : Nat → UInt8) (b : Bytes) :
    base64Decode signed junk (base64Encode b) = some (some b) := by
  obtain ⟨r, hloop, hr⟩ := @base64Loop_encode signed 0 0 []
    ((List.range (((base64Encode b).length + 3) / 4 * 3 + 1)).map junk) b rfl rfl (by
      rw [List.length_map, List.length_range]
      exact length_base64Encode b)
  rw [List.nil_append, List.nil_append, Nat.zero_add] at hloop
  unfold base64Decode
  rw [hloop]
  simp only
  obtain ⟨x, r, rfl⟩ := List.exists_cons_of_ne_nil hr
  rw [put_append rfl, Option.map_some, List.take_left]

/-- Base 64 is undone by its decoder, which writes only to its memory whatever it is given. -/
theorem base64_codec :
    (∀ signed junk b, base64Decode signed junk (base64Encode b) = some (some b)) ∧
    (∀ signed junk str, base64Decode signed junk str ≠ none) ∧
    ∀ b b', b ≠ b' → base64Encode b ≠ base64Encode b' := by
  refine ⟨base64Decode_encode, base64Decode_ne_none, fun b b' hne heq => hne ?_⟩
  have hdecode := base64Decode_encode true (fun _ => 0) b
  rw [heq, base64Decode_encode] at hdecode
  exact (Option.some.inj (Option.some.inj hdecode)).symm

end PcloudClient.Plibs
