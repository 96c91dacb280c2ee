/-
  Pfs/IndexFileProofs.lean --- when the index file of a modified file says what was written.

  A slot that is reserved and left without a whole record shows only with the next record: from
  then on the file has more records than ranges were acknowledged, whatever is written later.
-/
import PcloudClient.Pfs.IndexFile

set_option autoImplicit false

namespace PcloudClient.Pfs.IndexFile

open PcloudClient.Foundation PcloudClient.Bytes

/-! ## Records -/

@[simp] theorem length_encode (r : IndexRecord) : (encode r).length = 16 := by
  simp [encode]

theorem decode_encode {r : IndexRecord} (h : r.offset + r.length < 2 ^ 64) :
    decode (encode r) = r := by
  have hoffset : r.offset % 256 ^ 8 = r.offset := Nat.mod_eq_of_lt (by omega)
  have hlength : r.length % 256 ^ 8 = r.length := Nat.mod_eq_of_lt (by omega)
  rw [decode, encode, List.take_left' (length_toLE 8 _), List.drop_left' (length_toLE 8 _),
    ofLE_toLE, ofLE_toLE, hoffset, hlength]

@[simp] theorem length_records (f : Bytes) :
    (records f).length = RecordFile.count recordSize f := by
  simp [records]

/-- The next records of a file, as a buffer that they were read to has them. -/
theorem records_drop {f : Bytes} {i k : Nat} (h : i + k ≤ RecordFile.count recordSize f) :
    (records f).drop i =
      ((List.range k).map fun j => decode (RecordFile.record recordSize
        (File.pread f (k * recordSize) (i * recordSize)) j)) ++ (records f).drop (i + k) := by
  rw [← List.drop_drop, ← List.take_append_drop k ((records f).drop i), List.drop_left' (by
    rw [List.length_take, List.length_drop, length_records]
    omega)]
  congr 1
  refine List.ext_getElem ?_ fun j hleft hright => ?_
  · rw [List.length_take, List.length_drop, length_records, List.length_map, List.length_range]
    omega
  · have hj : j < k := by simpa using hright
    simp only [List.getElem_take, List.getElem_drop, records, RecordFile.records, List.getElem_map,
      List.getElem_range, RecordFile.record_pread hj]

/-! ## Loading -/

theorem addRecords_append (rs rs' : List IndexRecord) (tree : List (Span Nat)) :
    addRecords (rs ++ rs') tree = (addRecords rs tree).bind (addRecords rs') := by
  induction rs generalizing tree with
  | nil => rfl
  | cons r rs ih =>
    rw [List.cons_append, addRecords, addRecords, Option.bind_assoc]
    exact congrArg _ (funext ih)

/-- An empty record fails the assertion of the interval tree. -/
theorem length_pos_of_addRecords {rs : List IndexRecord} {tree tree' : List (Span Nat)}
    (h : addRecords rs tree = some tree') : ∀ r ∈ rs, 0 < r.length := by
  induction rs generalizing tree with
  | nil => exact fun r hr => absurd hr List.not_mem_nil
  | cons r rs ih =>
    obtain ⟨tree₁, hadd, hrest⟩ := Option.bind_eq_some_iff.mp h
    intro r' hr'
    rcases List.mem_cons.mp hr' with rfl | hr'
    · rw [intervalTreeAdd] at hadd
      split at hadd
      · next hlt =>
        have hmod := Nat.mod_le (r'.offset + r'.length) (2 ^ 64)
        omega
      · exact absurd hadd (by simp)
    · exact ih hrest r' hr'

theorem loadLoop_eq (f : Bytes) (i : Nat) (tree : List (Span Nat)) :
    loadLoop f (RecordFile.count recordSize f) i tree =
      (addRecords ((records f).drop i) tree).map some := by
  induction hk : RecordFile.count recordSize f - i using Nat.strongRecOn generalizing i tree with
  | ind k ih =>
    have hpos := batch_pos
    rw [loadLoop]
    split
    · next hlt =>
      simp only
      generalize hrd : (if RecordFile.count recordSize f - i < batch then
        RecordFile.count recordSize f - i else batch) = rd
      have hle : i + rd ≤ RecordFile.count recordSize f := by
        split at hrd <;> omega
      have hread : (File.pread f (rd * recordSize) (i * recordSize)).length = rd * recordSize := by
        refine File.length_pread_of_le ?_
        rw [← Nat.add_mul]
        exact (Nat.mul_le_mul_right _ hle).trans RecordFile.count_mul_le
      rw [if_neg (not_not_intro hread), records_drop hle, addRecords_append, Option.map_bind]
      congr 1
      funext tree₁
      rw [Function.comp_apply]
      have hnext : (records f).drop (i + batch) = (records f).drop (i + rd) := by
        split at hrd
        · rw [List.drop_eq_nil_of_le (by rw [length_records]; omega),
            List.drop_eq_nil_of_le (by rw [length_records]; omega)]
        · rw [hrd]
      rw [ih _ (by omega) (i + batch) tree₁ rfl, hnext]
    · next hge =>
      rw [List.drop_eq_nil_of_le (by rw [length_records]; omega)]
      rfl

theorem loadIntervalTree_eq (f : Bytes) (tree : List (Span Nat)) :
    loadIntervalTree f tree =
      (addRecords (records f) tree).map fun tree' => some ((records f).length, tree') := by
  have hcnt : f.length / recordSize = RecordFile.count recordSize f := rfl
  rw [loadIntervalTree, hcnt, loadLoop_eq, List.drop_zero, Option.map_map, length_records]
  rfl

namespace Openfile

variable {of : Openfile}

theorem exact_iff : of.Exact ↔ records of.indexfile = of.acknowledged ∧
    addRecords of.acknowledged [] = some of.writeintervals := by
  constructor
  · intro h
    refine ⟨h.records, ?_⟩
    have hloaded := h.loaded
    rw [loadIntervalTree_eq, Option.map_eq_some_iff] at hloaded
    obtain ⟨tree, htree, heq⟩ := hloaded
    rw [← h.records, htree, (Prod.mk.inj (Option.some.inj heq)).2]
  · rintro ⟨hrecords, htree⟩
    rw [← hrecords] at htree
    refine ⟨hrecords, length_pos_of_addRecords htree, ?_⟩
    rw [loadIntervalTree_eq, htree]
    rfl

theorem Exact.length_acknowledged (h : of.Exact) :
    of.acknowledged.length = RecordFile.count recordSize of.indexfile := by
  rw [← h.records, length_records]

/-! ## One record -/

/-- The index file is exact, and its records are in slots that were given out. -/
structure Kept (of : Openfile) : Prop where
  exact : of.Exact
  slots : RecordFile.count recordSize of.indexfile ≤ of.indexoff
  size : of.currentsize < 2 ^ 64

/-- The index file has more records than were acknowledged. -/
structure Broken (of : Openfile) : Prop where
  extra : of.acknowledged.length < RecordFile.count recordSize of.indexfile
  slots : RecordFile.count recordSize of.indexfile ≤ of.indexoff

theorem Broken.not_exact (h : of.Broken) : ¬ of.Exact := fun hexact =>
  absurd hexact.length_acknowledged h.extra.ne

/-- The request does not stop the program, and keeps the index file exact. -/
def Good (o : Option (Int × Openfile)) : Prop := ∃ ret of', o = some (ret, of') ∧ of'.Kept

/-- The request stops the program or breaks the index file. -/
def Bad (o : Option (Int × Openfile)) : Prop := ∀ ret of', o = some (ret, of') → of'.Broken

theorem putBytes_le (ret : Option Nat) : putBytes ret ≤ recordSize := Nat.min_le_right _ _

/-- What a record that is written in part, or as a whole, makes of the file. -/
theorem putRecord_eq (of : Openfile) (r : IndexRecord) (ioff : Nat) (ret : Option Nat) :
    of.putRecord r ioff ret =
      if putBytes ret = recordSize then
        (intervalTreeAdd of.writeintervals r.offset (r.offset + r.length)).map fun tree =>
          (0, { of with
            indexfile := File.pwrite of.indexfile (encode r) (ioff * recordSize)
            writeintervals := tree
            acknowledged := of.acknowledged ++ [r] })
      else some (-1, { of with
        indexfile :=
          File.pwrite of.indexfile ((encode r).take (putBytes ret)) (ioff * recordSize) }) := by
  have hsize : recordSize = 16 := rfl
  have hlen := length_encode r
  rw [putRecord, Nat.mul_comm recordSize ioff]
  cases ret with
  | none =>
    rw [if_neg (show putBytes none ≠ recordSize by decide)]
    rfl
  | some n =>
    simp only [pwrite, hlen]
    by_cases hn : recordSize ≤ n
    · have hput : putBytes (some n) = recordSize := Nat.min_eq_right hn
      have htake : (encode r).take n = encode r := List.take_of_length_le (by omega)
      have hmin : min n 16 = 16 := Nat.min_eq_right hn
      rw [if_pos hput, htake, hmin, if_neg (not_not_intro rfl)]
    · have hput : putBytes (some n) = n := Nat.min_eq_left (Nat.le_of_not_le hn)
      have hmin : min n 16 = n := Nat.min_eq_left (Nat.le_of_not_le hn)
      rw [hput, hmin, if_neg (show n ≠ recordSize by omega),
        if_pos (show ((n : Nat) : Int) ≠ recordSize by omega)]

theorem count_putRecord {r : IndexRecord} {ioff k : Nat} (hk : k ≠ 0)
    (hcount : RecordFile.count recordSize of.indexfile ≤ ioff) (hle : k ≤ recordSize) :
    RecordFile.count recordSize
        (File.pwrite of.indexfile ((encode r).take k) (ioff * recordSize)) =
      ioff + k / recordSize := by
  have hlen : ((encode r).take k).length = k := by
    rw [List.length_take, length_encode]
    exact Nat.min_eq_left hle
  have hne : (encode r).take k ≠ [] := by
    intro hnil
    rw [hnil] at hlen
    exact hk hlen.symm
  rw [RecordFile.count_pwrite (by decide) hne, hlen]
  exact Nat.max_eq_right (hcount.trans (Nat.le_add_right _ _))

/-- A record that goes behind the last one, or of which nothing is written. -/
theorem exact_putRecord (hexact : of.Exact) (r : IndexRecord) (ioff : Nat) (ret : Option Nat)
    (hr : r.offset + r.length < 2 ^ 64)
    (hok : putBytes ret ≠ 0 → RecordFile.count recordSize of.indexfile = ioff ∧
      (putBytes ret = recordSize → 0 < r.length))
    (hcount : RecordFile.count recordSize of.indexfile ≤ ioff) :
    ∃ x of', of.putRecord r ioff ret = some (x, of') ∧ of'.Exact ∧
      RecordFile.count recordSize of'.indexfile ≤ ioff + 1 ∧ of'.indexoff = of.indexoff ∧
      of'.currentsize = of.currentsize ∧ (x = 0 ↔ putBytes ret = recordSize) ∧
      (x = 0 → RecordFile.count recordSize of'.indexfile = ioff + 1) := by
  obtain ⟨hrecords, htree⟩ := exact_iff.mp hexact
  rw [putRecord_eq]
  by_cases hfull : putBytes ret = recordSize
  · obtain ⟨hlast, hlength⟩ := hok (by rw [hfull]; decide)
    have hadd : intervalTreeAdd of.writeintervals r.offset (r.offset + r.length) =
        some (Intervals.add r.offset (r.offset + r.length) of.writeintervals) :=
      if_pos (Nat.lt_add_of_pos_right (hlength hfull))
    have hnext : records (File.pwrite of.indexfile (encode r) (ioff * recordSize)) =
        of.acknowledged ++ [r] := by
      rw [records, ← hlast, RecordFile.records_pwrite_next (by decide) (length_encode r),
        List.map_append, List.map_singleton, decode_encode hr, ← hrecords, records]
    have hcount' : RecordFile.count recordSize
        (File.pwrite of.indexfile (encode r) (ioff * recordSize)) = ioff + 1 := by
      rw [← length_records, hnext, List.length_append, hexact.length_acknowledged, hlast]
      rfl
    rw [if_pos hfull, hadd, Option.map_some]
    refine ⟨_, _, rfl, exact_iff.mpr ⟨hnext, ?_⟩, hcount'.le, rfl, rfl,
      iff_of_true rfl hfull, fun _ => hcount'⟩
    rw [addRecords_append, htree, Option.bind_some, addRecords, Nat.mod_eq_of_lt hr, hadd]
    rfl
  · rw [if_neg hfull]
    have hle := putBytes_le ret
    have hsame : records (File.pwrite of.indexfile ((encode r).take (putBytes ret))
        (ioff * recordSize)) = records of.indexfile := by
      by_cases hzero : putBytes ret = 0
      · rw [hzero]
        rfl
      · rw [records, ← (hok hzero).1, RecordFile.records_pwrite_part, ← records]
        rw [List.length_take, length_encode]
        omega
    have hcount' : RecordFile.count recordSize
        (File.pwrite of.indexfile ((encode r).take (putBytes ret)) (ioff * recordSize)) ≤
          ioff + 1 := by
      rw [← length_records, hsame, length_records]
      omega
    exact ⟨_, _, rfl, exact_iff.mpr ⟨hsame.trans hrecords, htree⟩, hcount', rfl, rfl,
      iff_of_false (by decide) hfull, fun hx => absurd hx (by decide)⟩

/-- Any other record, and any record in a file that is broken already. -/
theorem bad_putRecord {r : IndexRecord} {ioff : Nat} {ret : Option Nat}
    (hack : of.acknowledged.length ≤ RecordFile.count recordSize of.indexfile)
    (hoff : of.indexoff = ioff + 1)
    (hcount : RecordFile.count recordSize of.indexfile ≤ ioff)
    (hbad : (putBytes ret ≠ 0 ∧ (RecordFile.count recordSize of.indexfile ≠ ioff ∨
        putBytes ret = recordSize ∧ r.length = 0)) ∨
      of.acknowledged.length < RecordFile.count recordSize of.indexfile) :
    Bad (of.putRecord r ioff ret) := by
  have hsize : recordSize = 16 := rfl
  have hle := putBytes_le ret
  rw [putRecord_eq]
  by_cases hfull : putBytes ret = recordSize
  · rw [if_pos hfull]
    intro x of' hof'
    obtain ⟨tree, hadd, heq⟩ := Option.map_eq_some_iff.mp hof'
    have hlength : 0 < r.length := by
      rw [intervalTreeAdd] at hadd
      split at hadd
      · omega
      · exact absurd hadd (by simp)
    have hcount' := count_putRecord (r := r) (k := recordSize) (by decide) hcount (le_refl _)
    rw [List.take_of_length_le (length_encode r).le, Nat.div_self (by decide)] at hcount'
    rw [← (Prod.mk.inj heq).2]
    refine ⟨?_, ?_⟩
    · rw [hcount', List.length_append, List.length_singleton]
      omega
    · rw [hcount']
      exact hoff.ge
  · rw [if_neg hfull]
    intro x of' hof'
    rw [← (Prod.mk.inj (Option.some.inj hof')).2]
    by_cases hzero : putBytes ret = 0
    · rw [hzero]
      have hextra : of.acknowledged.length < RecordFile.count recordSize of.indexfile := by
        omega
      have hslots : RecordFile.count recordSize of.indexfile ≤ of.indexoff := by
        omega
      exact ⟨hextra, hslots⟩
    · have hcount' := count_putRecord (r := r) hzero hcount hle
      rw [Nat.div_eq_of_lt (by omega)] at hcount'
      have hextra : of.acknowledged.length < ioff := by
        omega
      have hslots : ioff ≤ of.indexoff := by
        omega
      refine ⟨?_, ?_⟩
      · rw [hcount']
        exact hextra
      · rw [hcount']
        exact hslots

/-! ## Requests -/

/-- The next record goes behind the last one. -/
def AtEnd (of : Openfile) : Prop := RecordFile.count recordSize of.indexfile = of.indexoff

theorem not_putOk {ret : Option Nat} {length : Nat} : ¬ of.PutOk ret length ↔
    putBytes ret ≠ 0 ∧ (RecordFile.count recordSize of.indexfile ≠ of.indexoff ∨
      putBytes ret = recordSize ∧ length = 0) := by
  unfold PutOk
  rw [Classical.not_imp, Classical.not_and_iff_not_or_not, Classical.not_imp, Nat.not_lt,
    Nat.le_zero]

theorem Kept.modfileCheckSizeOk (h : of.Kept) {size : Nat} {res : Results}
    (hsize : size < 2 ^ 64)
    (hok : of.currentsize < size → res.extended = true →
      of.PutOk res.extension (size - of.currentsize)) :
    ∃ x of', of.modfileCheckSizeOk size res = some (x, of') ∧ of'.Kept ∧
      (x = 0 ↔ (of.currentsize < size →
        res.extended = true ∧ putBytes res.extension = recordSize)) ∧
      (x = 0 → (of'.AtEnd ↔ of.AtEnd)) := by
  rw [Openfile.modfileCheckSizeOk]
  by_cases hlt : of.currentsize < size
  · rw [if_pos hlt]
    cases hext : res.extended with
    | false =>
      exact ⟨_, _, rfl, h, iff_of_false (by decide) fun hx => absurd (hx hlt).1 (by decide),
        fun hx => absurd hx (by decide)⟩
    | true =>
      -- the state in which the record of the new part is written
      have hexact : Exact { of with
          datafile := File.truncate of.datafile size, indexoff := of.indexoff + 1 } :=
        ⟨h.exact.records, h.exact.nonempty, h.exact.loaded⟩
      obtain ⟨x, of', hput, hexact', hslots, hoff, hcur, hx, hlast⟩ := exact_putRecord hexact
        ⟨of.currentsize, size - of.currentsize⟩ of.indexoff res.extension
        (show of.currentsize + (size - of.currentsize) < 2 ^ 64 by omega) (hok hlt hext) h.slots
      have hslots' : RecordFile.count recordSize of'.indexfile ≤ of'.indexoff := by
        rw [hoff]
        exact hslots
      simp only [Bool.true_eq_false, if_false]
      rw [hput, Option.map_some]
      by_cases hzero : x = 0
      · simp only [hzero, ne_eq, not_true_eq_false, if_false]
        refine ⟨_, _, rfl, ⟨⟨hexact'.records, hexact'.nonempty, hexact'.loaded⟩, hslots', hsize⟩,
          iff_of_true rfl fun _ => ⟨trivial, hx.mp hzero⟩, fun _ => ?_⟩
        have hbefore : of.AtEnd := by
          refine (hok hlt hext ?_).1
          rw [hx.mp hzero]
          decide
        have hbehind : RecordFile.count recordSize of'.indexfile = of'.indexoff := by
          rw [hlast hzero, hoff]
        exact iff_of_true hbehind hbefore
      · simp only [ne_eq, hzero, not_false_eq_true, if_true]
        refine ⟨_, _, rfl, ⟨hexact', hslots', ?_⟩, iff_of_false (by decide) fun hall =>
          hzero (hx.mpr (hall hlt).2), fun hx' => absurd hx' (by decide)⟩
        rw [hcur]
        exact h.size
  · rw [if_neg hlt]
    exact ⟨_, _, rfl, h, iff_of_true rfl fun hlt' => absurd hlt' hlt, fun _ => Iff.rfl⟩

theorem bad_modfileCheckSizeOk {size : Nat} {res : Results}
    (hslots : RecordFile.count recordSize of.indexfile ≤ of.indexoff)
    (hack : of.acknowledged.length ≤ RecordFile.count recordSize of.indexfile)
    (hbad : (of.currentsize < size ∧ res.extended = true ∧
        ¬ of.PutOk res.extension (size - of.currentsize)) ∨
      of.acknowledged.length < RecordFile.count recordSize of.indexfile) :
    Bad (of.modfileCheckSizeOk size res) := by
  rw [Openfile.modfileCheckSizeOk]
  by_cases hlt : of.currentsize < size
  · rw [if_pos hlt]
    cases hext : res.extended with
    | false =>
      rintro x of' hof'
      rcases hbad with ⟨-, hext', -⟩ | hextra
      · rw [hext] at hext'
        exact absurd hext' (by decide)
      · rw [← (Prod.mk.inj (Option.some.inj hof')).2]
        exact ⟨hextra, hslots⟩
    | true =>
      have hput : Bad (putRecord { of with
          datafile := File.truncate of.datafile size, indexoff := of.indexoff + 1 }
          ⟨of.currentsize, size - of.currentsize⟩ of.indexoff res.extension) := by
        refine bad_putRecord hack rfl hslots ?_
        rcases hbad with ⟨-, -, hnot⟩ | hextra
        · exact Or.inl (not_putOk.mp hnot)
        · exact Or.inr hextra
      simp only [Bool.true_eq_false, if_false]
      intro x of' hof'
      obtain ⟨⟨y, of₁⟩, hof₁, heq⟩ := Option.map_eq_some_iff.mp hof'
      have hbroken := hput y of₁ hof₁
      simp only at heq
      split at heq
      · rw [← (Prod.mk.inj heq).2]
        exact hbroken
      · rw [← (Prod.mk.inj heq).2]
        exact ⟨hbroken.extra, hbroken.slots⟩
  · rw [if_neg hlt]
    intro x of' hof'
    rcases hbad with ⟨hlt', -⟩ | hextra
    · exact absurd hlt' hlt
    · rw [← (Prod.mk.inj (Option.some.inj hof')).2]
      exact ⟨hextra, hslots⟩

theorem Kept.writeChecked (h : of.Kept) {buf : Bytes} {offset : Nat} {res : Results}
    (hinside : offset + buf.length < 2 ^ 64)
    (hok : ∀ n, res.data = some n → of.PutOk res.index (min n buf.length)) :
    Good (of.writeChecked buf offset res) := by
  rw [Openfile.writeChecked]
  cases hdata : res.data with
  | none =>
    have hslots : RecordFile.count recordSize of.indexfile ≤ of.indexoff + 1 :=
      h.slots.trans (Nat.le_succ _)
    exact ⟨_, _, rfl, ⟨h.exact.records, h.exact.nonempty, h.exact.loaded⟩, hslots, h.size⟩
  | some n =>
    have hlen : offset + min n buf.length < 2 ^ 64 := by
      have hmin := Nat.min_le_right n buf.length
      omega
    have hexact : Exact { of with
        indexoff := of.indexoff + 1, datafile := File.pwrite of.datafile (buf.take n) offset } :=
      ⟨h.exact.records, h.exact.nonempty, h.exact.loaded⟩
    obtain ⟨x, of', hput, hexact', hslots, hoff, hcur, -⟩ := exact_putRecord hexact
      ⟨offset, min n buf.length⟩ of.indexoff res.index hlen
      (hok n hdata) h.slots
    have hslots' : RecordFile.count recordSize of'.indexfile ≤ of'.indexoff := by
      rw [hoff]
      exact hslots
    have hsize' : of'.currentsize < 2 ^ 64 := by
      rw [hcur]
      exact h.size
    have hwritten : ¬ ((min n buf.length : Nat) : Int) = -1 := by omega
    simp only [pwrite, hwritten, if_false, Int.toNat_natCast, hput, Option.map_some]
    split
    · exact ⟨_, _, rfl, hexact', hslots', hsize'⟩
    · split
      · exact ⟨_, _, rfl, ⟨hexact'.records, hexact'.nonempty, hexact'.loaded⟩, hslots', hinside⟩
      · exact ⟨_, _, rfl, hexact', hslots', hsize'⟩

theorem bad_writeChecked {buf : Bytes} {offset : Nat} {res : Results}
    (hslots : RecordFile.count recordSize of.indexfile ≤ of.indexoff)
    (hack : of.acknowledged.length ≤ RecordFile.count recordSize of.indexfile)
    (hbad : (∃ n, res.data = some n ∧ ¬ of.PutOk res.index (min n buf.length)) ∨
      of.acknowledged.length < RecordFile.count recordSize of.indexfile) :
    Bad (of.writeChecked buf offset res) := by
  rw [Openfile.writeChecked]
  cases hdata : res.data with
  | none =>
    intro x of' hof'
    rcases hbad with ⟨n, hn, -⟩ | hextra
    · rw [hdata] at hn
      exact absurd hn (by simp)
    · rw [← (Prod.mk.inj (Option.some.inj hof')).2]
      exact ⟨hextra, hslots.trans (Nat.le_succ _)⟩
  | some n =>
    have hput : Bad (putRecord { of with
        indexoff := of.indexoff + 1, datafile := File.pwrite of.datafile (buf.take n) offset }
        ⟨offset, min n buf.length⟩ of.indexoff res.index) := by
      refine bad_putRecord hack rfl hslots ?_
      rcases hbad with ⟨m, hm, hnot⟩ | hextra
      · rw [hdata] at hm
        rw [← Option.some.inj hm] at hnot
        exact Or.inl (not_putOk.mp hnot)
      · exact Or.inr hextra
    have hwritten : ¬ ((min n buf.length : Nat) : Int) = -1 := by omega
    simp only [pwrite, hwritten, if_false, Int.toNat_natCast]
    intro x of' hof'
    obtain ⟨⟨y, of₁⟩, hof₁, heq⟩ := Option.map_eq_some_iff.mp hof'
    have hbroken := hput y of₁ hof₁
    simp only at heq
    split at heq
    · rw [← (Prod.mk.inj heq).2]
      exact hbroken
    · split at heq
      · rw [← (Prod.mk.inj heq).2]
        exact ⟨hbroken.extra, hbroken.slots⟩
      · rw [← (Prod.mk.inj heq).2]
        exact hbroken

theorem Kept.exec (h : of.Kept) {c : Call} (hok : of.Steady c) : Good (c.exec of) := by
  cases c with
  | write buf offset inside res =>
    obtain ⟨hgrow, hwrite⟩ := hok
    obtain ⟨x, of', hcheck, hkept, hx, hlast⟩ := h.modfileCheckSizeOk (by omega) hgrow
    rw [Call.exec, writeModified, hcheck, Option.bind_some]
    by_cases hzero : x = 0
    · simp only [hzero, ne_eq, not_true_eq_false, if_false]
      refine hkept.writeChecked inside fun n hn hput => ?_
      obtain ⟨hend, hlength⟩ := hwrite (hx.mp hzero) n hn hput
      exact ⟨(hlast hzero).mpr hend, hlength⟩
    · simp only [hzero, ne_eq, not_false_eq_true, if_true]
      exact ⟨_, _, rfl, hkept⟩
  | ftruncate size inside res =>
    rw [Call.exec, Openfile.ftruncate]
    split
    · exact ⟨_, _, rfl, h⟩
    · obtain ⟨x, of', hcheck, hkept, -⟩ := h.modfileCheckSizeOk inside hok
      rw [hcheck, Option.map_some]
      simp only
      have hcut : Kept { of' with currentsize := size } :=
        ⟨⟨hkept.exact.records, hkept.exact.nonempty, hkept.exact.loaded⟩, hkept.slots, inside⟩
      split
      · exact ⟨_, _, rfl, hkept⟩
      · split
        · split
          · exact ⟨_, _, rfl, hkept⟩
          · exact ⟨_, _, rfl, ⟨hcut.exact.records, hcut.exact.nonempty, hcut.exact.loaded⟩,
              hcut.slots, inside⟩
        · exact ⟨_, _, rfl, hcut⟩

/-- A write is bad when the check of the size is. -/
theorem bad_writeModified {buf : Bytes} {offset : Nat} {res : Results}
    (hbad : Bad (of.modfileCheckSizeOk offset res)) : Bad (of.writeModified buf offset res) := by
  intro x of' hof'
  obtain ⟨⟨y, of₁⟩, hof₁, heq⟩ := Option.bind_eq_some_iff.mp hof'
  have hbroken := hbad y of₁ hof₁
  simp only at heq
  split at heq
  · rw [← (Prod.mk.inj (Option.some.inj heq)).2]
    exact hbroken
  · exact bad_writeChecked hbroken.slots hbroken.extra.le (Or.inr hbroken.extra) x of' heq

theorem bad_ftruncate {size : Nat} {res : Results}
    (hne : of.currentsize ≠ size) (hbad : Bad (of.modfileCheckSizeOk size res)) :
    Bad (of.ftruncate size res) := by
  rw [Openfile.ftruncate, if_neg hne]
  intro x of' hof'
  obtain ⟨⟨y, of₁⟩, hof₁, heq⟩ := Option.map_eq_some_iff.mp hof'
  have hbroken := hbad y of₁ hof₁
  simp only at heq
  split at heq
  · rw [← (Prod.mk.inj heq).2]
    exact hbroken
  · split at heq
    · split at heq
      · rw [← (Prod.mk.inj heq).2]
        exact hbroken
      · rw [← (Prod.mk.inj heq).2]
        exact ⟨hbroken.extra, hbroken.slots⟩
    · rw [← (Prod.mk.inj heq).2]
      exact ⟨hbroken.extra, hbroken.slots⟩

/-- A broken index file stays broken. -/
theorem Broken.exec (h : of.Broken) (c : Call) : Bad (c.exec of) := by
  cases c with
  | write buf offset inside res =>
    exact bad_writeModified (bad_modfileCheckSizeOk h.slots h.extra.le (Or.inr h.extra))
  | ftruncate size inside res =>
    by_cases hsame : of.currentsize = size
    · rw [Call.exec, Openfile.ftruncate, if_pos hsame]
      intro x of' hof'
      rw [← (Prod.mk.inj (Option.some.inj hof')).2]
      exact h
    · exact bad_ftruncate hsame (bad_modfileCheckSizeOk h.slots h.extra.le (Or.inr h.extra))

theorem Kept.bad_exec (h : of.Kept) {c : Call} (hnot : ¬ of.Steady c) : Bad (c.exec of) := by
  have hack := h.exact.length_acknowledged
  cases c with
  | write buf offset inside res =>
    by_cases hgrow : of.currentsize < offset → res.extended = true →
        of.PutOk res.extension (offset - of.currentsize)
    · -- the size could be made right, and the write is the reason
      have hwrite : ¬ ((of.currentsize < offset →
            res.extended = true ∧ putBytes res.extension = recordSize) →
          ∀ n, res.data = some n → of.PutOk res.index (min n buf.length)) :=
        fun hall => hnot ⟨hgrow, hall⟩
      obtain ⟨hdone, hput⟩ := Classical.not_imp.mp hwrite
      obtain ⟨n, hn⟩ := Classical.not_forall.mp hput
      obtain ⟨hdata, hnotput⟩ := Classical.not_imp.mp hn
      obtain ⟨x, of', hcheck, hkept, hx, hlast⟩ := h.modfileCheckSizeOk (by omega) hgrow
      have hzero : x = 0 := hx.mpr hdone
      rw [Call.exec, writeModified, hcheck, Option.bind_some]
      simp only [hzero, ne_eq, not_true_eq_false, if_false]
      refine bad_writeChecked hkept.slots hkept.exact.length_acknowledged.le
        (Or.inl ⟨n, hdata, fun hok => hnotput fun hbytes => ?_⟩)
      obtain ⟨hend, hlength⟩ := hok hbytes
      exact ⟨(hlast hzero).mp hend, hlength⟩
    · obtain ⟨hlt, hrest⟩ := Classical.not_imp.mp hgrow
      obtain ⟨hext, hnotput⟩ := Classical.not_imp.mp hrest
      exact bad_writeModified
        (bad_modfileCheckSizeOk h.slots hack.le (Or.inl ⟨hlt, hext, hnotput⟩))
  | ftruncate size inside res =>
    obtain ⟨hlt, hrest⟩ := Classical.not_imp.mp hnot
    obtain ⟨hext, hnotput⟩ := Classical.not_imp.mp hrest
    exact bad_ftruncate hlt.ne
      (bad_modfileCheckSizeOk h.slots hack.le (Or.inl ⟨hlt, hext, hnotput⟩))

/-- Opening a file again makes its tree anew, and slots that stayed empty are given out again. -/
theorem Kept.load (h : of.Kept) :
    ∃ of', { of with writeintervals := [] }.load = some (0, of') ∧ of'.Opened ∧
      of'.writeintervals = of.writeintervals := by
  refine ⟨{ of with indexoff := (records of.indexfile).length }, ?_, ⟨?_, ?_, h.size⟩, rfl⟩
  · rw [Openfile.load, h.exact.loaded]
    rfl
  · exact ⟨h.exact.records, h.exact.nonempty, h.exact.loaded⟩
  · exact (length_records _).symm

end Openfile

/-! ## Runs -/

theorem runCalls_kept {of : Openfile} (h : of.Kept) {cs : List Call} (hcs : AllSteady cs of) :
    ∃ of', runCalls cs of = some of' ∧ of'.Kept := by
  induction cs generalizing of with
  | nil => exact ⟨of, rfl, h⟩
  | cons c cs ih =>
    obtain ⟨hsteady, hrest⟩ := hcs
    obtain ⟨ret, of₁, hexec, hkept⟩ := h.exec hsteady
    obtain ⟨of', hrun, hkept'⟩ := ih hkept (hrest ret of₁ hexec)
    refine ⟨of', ?_, hkept'⟩
    rw [runCalls, hexec]
    exact hrun

theorem runCalls_broken {of of' : Openfile} (h : of.Broken) {cs : List Call}
    (hrun : runCalls cs of = some of') : of'.Broken := by
  induction cs generalizing of with
  | nil => exact Option.some.inj hrun ▸ h
  | cons c cs ih =>
    obtain ⟨⟨ret, of₁⟩, hexec, hrest⟩ := Option.bind_eq_some_iff.mp hrun
    exact ih (h.exec c ret of₁ hexec) hrest

theorem allSteady_of_exact {of of' : Openfile} (h : of.Kept) {cs : List Call}
    (hrun : runCalls cs of = some of') (hexact : of'.Exact) : AllSteady cs of := by
  induction cs generalizing of with
  | nil => trivial
  | cons c cs ih =>
    obtain ⟨⟨ret, of₁⟩, hexec, hrest⟩ := Option.bind_eq_some_iff.mp hrun
    have hsteady : of.Steady c := by
      by_contra hnot
      exact (runCalls_broken (h.bad_exec hnot ret of₁ hexec) hrest).not_exact hexact
    obtain ⟨ret', of₂, hexec', hkept⟩ := h.exec hsteady
    refine ⟨hsteady, fun ret₁ of₃ hexec₁ => ?_⟩
    have hsame := Prod.mk.inj (Option.some.inj (hexec.symm.trans hexec'))
    have hsame₁ := Prod.mk.inj (Option.some.inj (hexec₁.symm.trans hexec'))
    rw [hsame₁.2]
    rw [hsame.2] at hrest
    exact ih hkept hrest

/-- A run behind which the index file says what was acknowledged is one whose requests all meet
the condition. -/
theorem runCalls_exact_iff {of : Openfile} (hopened : of.Opened) (cs : List Call) :
    (∃ of', runCalls cs of = some of' ∧ of'.Exact) ↔ AllSteady cs of := by
  have hkept : of.Kept := ⟨hopened.exact, hopened.slot.le, hopened.size⟩
  constructor
  · rintro ⟨of', hrun, hexact⟩
    exact allSteady_of_exact hkept hrun hexact
  · intro hcs
    obtain ⟨of', hrun, hkept'⟩ := runCalls_kept hkept hcs
    exact ⟨of', hrun, hkept'.exact⟩

/-- A modified file of four bytes, nothing of which is local. -/
def unwritten : Openfile where
  currentsize := 4
  datafile := File.truncate [] 4
  indexfile := []
  indexoff := 0
  writeintervals := []
  acknowledged := []

theorem opened_unwritten : unwritten.Opened :=
  ⟨Openfile.exact_iff.mpr ⟨rfl, rfl⟩, rfl, by decide⟩

/-- A byte is written behind the end, with its record and that of the zeros before it. -/
theorem exact_unwritten : ∃ of', runCalls [.write [7] 6 (by decide)
    ⟨true, some 16, some 1, some 16, true⟩] unwritten = some of' ∧ of'.Exact := by
  refine (runCalls_exact_iff opened_unwritten _).mpr ⟨⟨fun _ _ _ => ?_, fun _ n hn _ => ?_⟩,
    fun _ _ _ => trivial⟩
  · exact ⟨rfl, fun _ => by decide⟩
  · rw [← Option.some.inj hn]
    exact ⟨rfl, fun _ => by decide⟩

/-- The write of the data fails, and the next one does not. -/
theorem not_exact_failed : ¬ ∃ of', runCalls [
    .write [7] 0 (by decide) ⟨true, none, none, none, true⟩,
    .write [8] 2 (by decide) ⟨true, none, some 1, some 16, true⟩] unwritten = some of' ∧
      of'.Exact := by
  rintro ⟨of', hrun, hexact⟩
  have hcounts : (runCalls [
      .write [7] 0 (by decide) ⟨true, none, none, none, true⟩,
      .write [8] 2 (by decide) ⟨true, none, some 1, some 16, true⟩] unwritten).map (fun of =>
        (of.acknowledged.length, RecordFile.count recordSize of.indexfile)) = some (1, 2) := by
    decide
  rw [hrun, Option.map_some, hexact.length_acknowledged] at hcounts
  have hpair := Prod.mk.inj (Option.some.inj hcounts)
  exact absurd (hpair.1.symm.trans hpair.2) (by decide)

end PcloudClient.Pfs.IndexFile
