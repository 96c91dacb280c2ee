/-
  Pcompression/Stored.lean --- a stream that stores: it writes what it reads, with the flush modes
  and return codes of zlib.
-/
import PcloudClient.Pcompression.Deflate

set_option autoImplicit false

namespace PcloudClient.Pcompression

open Bytes

/-- What is stored and not yet written, and whether the end was asked for. -/
structure StoredState where
  pend : Bytes
  finishing : Bool

/-- One call, when it is not refused. -/
def storedCall (d : Bool) (s : StoredState) (f : ZFlush) (data : Bytes) (avail : Nat) :
    ZResult StoredState where
  state := ⟨(s.pend ++ data).drop avail, s.finishing || (d && decide (f = .finish))⟩
  consumed := data.length
  out := (s.pend ++ data).take avail
  ret :=
    if (d && decide (f = .finish)) ∧ (s.pend ++ data).length ≤ avail then .streamEnd
    else if s.pend ++ data = [] then .bufError
    else .ok

theorem storedCall_ok_or_bufError (s : StoredState) {f : ZFlush} (hf : f ≠ .finish)
    (data : Bytes) (avail : Nat) :
    (storedCall true s f data avail).ret = .ok ∨
      (storedCall true s f data avail).ret = .bufError := by
  simp only [storedCall, hf]
  by_cases h : s.pend ++ data = []
  · right
    simp [h]
  · left
    simp [h]

/-- Only `deflate` that finishes refuses another mode. -/
def storedRefuses (d : Bool) (s : StoredState) (f : ZFlush) : Bool :=
  d && s.finishing && decide (f ≠ .finish)

/-- A stream that stores. -/
def stored : Zlib where
  State := StoredState
  init _ := ⟨[], false⟩
  call d s f data avail :=
    if storedRefuses d s f then ⟨s, 0, [], .streamError⟩ else storedCall d s f data avail
  owed s := s.pend
  finishing s := s.finishing
  budget s _ data := s.pend.length + data.length
  init_owed _ := rfl
  init_finishing _ := rfl
  out_le d s f data avail := by
    split
    · exact Nat.zero_le _
    · exact List.length_take_le _ _
  appends d s f data avail := by
    split
    · exact List.prefix_rfl
    · simp only [storedCall, List.take_append_drop]
      exact List.prefix_append _ _
  drained d s f data avail hpos herr h := by
    split at h
    · next hrefuse => exact absurd (by simp [hrefuse]) herr
    · next hrefuse =>
      rw [if_neg hrefuse]
      simp only [storedCall, List.drop_eq_nil_iff, List.length_take] at h ⊢
      rcases h with h | h
      · omega
      · split_ifs at h with hend hnil
        · exact hend.2
        · rw [hnil]
          exact Nat.zero_le _
        · exact absurd rfl h
  bufError_out d s f data avail h := by
    split at h
    · exact nomatch h
    · next hrefuse =>
      rw [if_neg hrefuse]
      simp only [storedCall] at h ⊢
      split_ifs at h with hend hnil
      rw [hnil, List.take_nil]
  refused d s f data avail h := by
    split at h
    · next hrefuse =>
      rw [if_pos hrefuse]
      simp only [storedRefuses, Bool.and_eq_true, decide_eq_true_iff] at hrefuse
      exact ⟨hrefuse.1.2, hrefuse.2, rfl, rfl⟩
    · simp only [storedCall] at h
      split_ifs at h
  finishing_of d s f data avail h := by
    split at h
    · exact Or.inl h
    · simp only [storedCall, Bool.or_eq_true, Bool.and_eq_true, decide_eq_true_iff] at h
      exact h
  finishing_refuses s f data avail hfin hf := by
    rw [if_pos (by simp [storedRefuses, hfin, hf])]
  accepts s f data avail hfin hf := by
    rw [if_neg (by simp [storedRefuses, hfin])]
    exact storedCall_ok_or_bufError s hf data avail
  budget_le d s f data avail := by
    split
    · simp
    · simp only [storedCall, List.length_take, List.length_drop, List.length_append]
      omega

/-- Output in the ring and over its wrap, in the flush buffer and in zlib itself, up to the end of
the stream. -/
def everyWay : List Op :=
  [.write (List.replicate 4000 1) flush, .read 3000, .write (List.replicate 5000 2) flush,
    .read 4096, .read 1904, .write (List.replicate 5000 3) noflush, .read 4096, .read 500,
    .read 500, .write [4] flushEnd, .read 2]

/-- How much each of the calls takes or returns. -/
example : ((Runs.run step (psyncDeflateInit stored 6 (Fixed.ofBytes bufferSize [])) everyWay).map
    fun r => r.1.map (·.1)) =
    .ok [4000, 3000, 5000, 4096, 1904, 5000, 4096, 500, 404, 1, 1] := by decide +kernel

end PcloudClient.Pcompression
