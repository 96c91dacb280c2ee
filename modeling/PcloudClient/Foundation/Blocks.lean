/-
  Foundation/Blocks.lean --- loops that eat a byte string in pieces: bytes up to an aligned
  address, then blocks of a fixed length.

  Each loop gives the state and what is left.  A loop is correct for a fold `g` of the whole
  string when its body does to one piece what `g` does.
-/
import PcloudClient.Foundation.Bytes

set_option autoImplicit false

namespace PcloudClient.Blocks

variable {σ : Type}

/-- `while (addr%n && len) {s=f(s, *data); data++; len--;}` -/
def untilAligned (n : Nat) (f : σ → UInt8 → σ) : Nat → σ → Bytes → σ × Bytes
  | _, s, [] => (s, [])
  | addr, s, b :: data =>
    if addr % n = 0 then (s, b :: data) else untilAligned n f (addr + 1) (f s b) data

/-- `while (len>=n) {s=f(s, data); data+=n; len-=n;}` -/
def overBlocks (n : Nat) (f : σ → Bytes → σ) (s : σ) (data : Bytes) : σ × Bytes :=
  if 0 < n ∧ n ≤ data.length then overBlocks n f (f s (data.take n)) (data.drop n) else (s, data)
termination_by data.length
decreasing_by
  rw [List.length_drop]
  omega

section

variable {n : Nat} {f : σ → Bytes → σ}

theorem overBlocks_of_lt {data : Bytes} (h : data.length < n) (s : σ) :
    overBlocks n f s data = (s, data) := by
  rw [overBlocks, if_neg (by omega)]

theorem overBlocks_of_le {data : Bytes} (hn : 0 < n) (h : n ≤ data.length) (s : σ) :
    overBlocks n f s data = overBlocks n f (f s (data.take n)) (data.drop n) := by
  rw [overBlocks, if_pos ⟨hn, h⟩]

/-- One whole block in front. -/
theorem overBlocks_block {b : Bytes} (hn : 0 < n) (hb : b.length = n) (s : σ) (data : Bytes) :
    overBlocks n f s (b ++ data) = overBlocks n f (f s b) data := by
  rw [overBlocks_of_le hn (by rw [List.length_append]; omega), List.take_left' hb,
    List.drop_left' hb]

/-- Induction along the blocks of a string. -/
theorem blocks_induction {n : Nat} (hn : 0 < n) {P : Bytes → Prop}
    (short : ∀ data, data.length < n → P data)
    (block : ∀ b data, b.length = n → P data → P (b ++ data)) (data : Bytes) : P data := by
  induction hlen : data.length using Nat.strong_induction_on generalizing data with
  | _ len ih =>
    rcases Nat.lt_or_ge data.length n with h | h
    · exact short data h
    · rw [← List.take_append_drop n data]
      refine block _ _ (List.length_take_of_le h) (ih _ ?_ _ rfl)
      rw [List.length_drop]
      omega

/-- The rest is what the length leaves over. -/
theorem length_overBlocks_rest_eq (hn : 0 < n) (s : σ) (data : Bytes) :
    (overBlocks n f s data).2.length = data.length % n := by
  induction data using blocks_induction hn generalizing s with
  | short data h => rw [overBlocks_of_lt h, Nat.mod_eq_of_lt h]
  | block b data hb ih =>
    rw [overBlocks_block hn hb, ih, List.length_append, hb, Nat.add_mod_left]

/-- The loop over a concatenation goes on with the rest of the first part. -/
theorem overBlocks_append (hn : 0 < n) (s : σ) (a b : Bytes) :
    overBlocks n f s (a ++ b) =
      overBlocks n f (overBlocks n f s a).1 ((overBlocks n f s a).2 ++ b) := by
  induction a using blocks_induction hn generalizing s with
  | short a h => rw [overBlocks_of_lt h]
  | block c a hc ih => rw [List.append_assoc, overBlocks_block hn hc, overBlocks_block hn hc, ih]

end

section

variable {g : σ → Bytes → σ} (hg : ∀ s a b, g s (a ++ b) = g (g s a) b)

include hg

theorem overBlocks_spec {n : Nat} {f : σ → Bytes → σ} (hn : 0 < n)
    (hf : ∀ s b, b.length = n → f s b = g s b) (s : σ) (data : Bytes) :
    g (overBlocks n f s data).1 (overBlocks n f s data).2 = g s data := by
  induction data using blocks_induction hn generalizing s with
  | short data h => rw [overBlocks_of_lt h]
  | block b data hb ih => rw [overBlocks_block hn hb, ih, hg, hf s b hb]

theorem untilAligned_spec {n : Nat} {f : σ → UInt8 → σ} (hf : ∀ s b, f s b = g s [b])
    (addr : Nat) (s : σ) (data : Bytes) :
    g (untilAligned n f addr s data).1 (untilAligned n f addr s data).2 = g s data := by
  induction data generalizing addr s with
  | nil => rfl
  | cons b data ih =>
    unfold untilAligned
    split
    · rfl
    · rw [ih, hf, ← hg]
      rfl

end

end PcloudClient.Blocks
