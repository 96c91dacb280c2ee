/-
  Papi/ResponseProofs.lean --- the two passes over a response agree, and which bodies make
  the first one read behind the end.

  `Wires` is the grammar of complete values and `Open` that of values that break off right
  behind the tag of an array or of a hash.
-/
import PcloudClient.Foundation.Outcome
import PcloudClient.Papi.Response

set_option autoImplicit false

namespace PcloudClient.Papi

open PcloudClient.Bytes

/-! ## The second pass follows the first -/

/-- From `st` to `st'` the second pass reads what `c` has read and stays inside its memory;
`spare` bytes of it are left for later. -/
structure Follows (st : Parse) (c : Calc) (st' : Parse) (spare : Nat) : Prop where
  data : st'.data = c.rest
  strings : st'.strings.length = c.strcnt
  ge : st.odata ≤ st'.odata
  le : st'.odata + spare ≤ st.odata + c.ret
  written : ∃ ws, st'.written = st.written ++ ws ∧ ∀ w ∈ ws, w.1 + w.2 ≤ st'.odata

theorem Follows.refl {st : Parse} : Follows st ⟨0, st.data, st.strings.length⟩ st 0 :=
  ⟨rfl, rfl, le_refl _, le_refl _, [], by simp⟩

theorem Follows.trans {st st₁ st₂ : Parse} {c d : Calc} {m n : Nat} (h₁ : Follows st c st₁ m)
    (h₂ : Follows st₁ d st₂ n) : Follows st { d with ret := c.ret + d.ret } st₂ (m + n) := by
  obtain ⟨ws₁, hws₁, hin₁⟩ := h₁.written
  obtain ⟨ws₂, hws₂, hin₂⟩ := h₂.written
  have hge₁ := h₁.ge
  have hge₂ := h₂.ge
  have hle₁ := h₁.le
  have hle₂ := h₂.le
  refine ⟨h₂.data, h₂.strings, by omega, by simp only []; omega, ws₁ ++ ws₂, ?_, ?_⟩
  · rw [hws₂, hws₁, List.append_assoc]
  · intro w hw
    rcases List.mem_append.mp hw with hw | hw
    · exact (hin₁ w hw).trans hge₂
    · exact hin₂ w hw

/-- More memory does no harm. -/
theorem Follows.mono {st st' : Parse} {c : Calc} {m n ret : Nat} (h : Follows st c st' m)
    (hret : c.ret + n ≤ ret + m) : Follows st { c with ret := ret } st' n := by
  have hle := h.le
  exact ⟨h.data, h.strings, h.ge, by simp only []; omega, h.written⟩

theorem Follows.write {st : Parse} {len size : Nat} (hlen : len ≤ size) :
    Follows st ⟨size, st.data, st.strings.length⟩ (st.write len size) 0 :=
  ⟨rfl, rfl, Nat.le_add_right _ _, le_refl _, [(st.odata, len)], rfl, by
    intro w hw
    rw [List.mem_singleton.mp hw]
    exact Nat.add_le_add_left hlen _⟩

theorem Parse.read_eq {st : Parse} {n : Nat} {b rest : Bytes}
    (h : takeBytes n st.data = some (b, rest)) : st.read n = .ok (b, { st with data := rest }) := by
  simp only [Parse.read, h]

/-- Bytes that are read leave the buffer alone. -/
theorem Follows.of_data {st st' : Parse} {c : Calc} {n : Nat} {rest : Bytes}
    (h : Follows { st with data := rest } c st' n) : Follows st c st' n :=
  ⟨h.data, h.strings, h.ge, h.le, h.written⟩

theorem le_strSize (len : Nat) : 8 + len + 1 ≤ strSize len := by
  unfold strSize
  omega

theorem parseStr_follows {st : Parse} {len : Nat} {c : Calc}
    (h : calcStr len st.data st.strings.length = some c) :
    ∃ s st', st.parseStr len = .ok (.str s, st') ∧ Follows st c st' 0 := by
  obtain ⟨⟨s, rest⟩, htake, hc⟩ := Option.map_eq_some_iff.mp h
  have hparse : st.parseStr len = .ok (.str s,
      { ({ st with data := rest } : Parse).write (8 + len + 1) (strSize len) with
        strings := st.strings ++ [s] }) := by
    simp only [Parse.parseStr, Parse.read_eq htake, ok_bind, pure_eq_ok]
  refine ⟨s, _, hparse, ?_⟩
  rw [← hc]
  have hwrite :=
    @Follows.write { st with data := rest } (8 + len + 1) (strSize len) (le_strSize len)
  exact ⟨rfl, by simp, hwrite.ge, hwrite.le, hwrite.written⟩

theorem parseRstr_follows {st : Parse} {id : Nat} {c : Calc}
    (h : calcRstr id st.data st.strings.length = some c) :
    ∃ s, st.parseRstr id = .ok (.str s, st) ∧ Follows st c st 0 := by
  unfold calcRstr at h
  split at h
  · next hlt =>
    obtain rfl := Option.some.inj h
    refine ⟨st.strings[id], ?_, Follows.refl⟩
    simp only [Parse.parseRstr, List.getElem?_eq_getElem hlt]
  · exact absurd h (by simp)

/-- What the second pass does where the first one came through. -/
structure Agrees (fuel : Nat) : Prop where
  value : ∀ {data : Bytes} {c : Calc} {st : Parse}, st.data = data →
    calcRetLenAux fuel data st.strings.length = .ok (some c) →
    ∃ v st', doParseResultAux fuel st = .ok (v, st') ∧ v ≠ .null ∧ Follows st c st' 0
  array : ∀ {data : Bytes} {c : Calc} {st : Parse}, st.data = data →
    calcArray fuel data st.strings.length = .ok (some c) →
    ∃ vs st', parseArray fuel st = .ok (vs, st') ∧ Follows st c st' (8 * vs.length)
  hash : ∀ {data : Bytes} {c : Calc} {st : Parse}, st.data = data →
    calcHash fuel data st.strings.length = .ok (some c) →
    ∃ vs st', parseHash fuel st = .ok (vs, st') ∧ Follows st c st' (16 * vs.length)

/-- A value that is no array and no hash. -/
theorem leaf_agrees {fuel : Nat} {type : UInt8} {rest : Bytes} {c : Calc} {st : Parse}
    (hst : st.data = type :: rest) (harray : tag type.toNat ≠ .array)
    (hhash : tag type.toNat ≠ .hash)
    (h : calcRetLenAux (fuel + 1) (type :: rest) st.strings.length = .ok (some c)) :
    ∃ v st', doParseResultAux (fuel + 1) st = .ok (v, st') ∧ v ≠ .null ∧ Follows st c st' 0 := by
  have hread : st.read 1 = .ok ([type], { st with data := rest }) :=
    Parse.read_eq (by rw [hst, takeBytes_one])
  simp only [doParseResultAux, hread, ok_bind, ofLE_singleton]
  simp only [calcRetLenAux] at h
  cases htag : tag type.toNat with
  | shortStr len =>
    simp only [htag, Except.ok.injEq] at h
    obtain ⟨s, st', hrun, hfollows⟩ := @parseStr_follows { st with data := rest } len c h
    exact ⟨.str s, st', hrun, by simp, hfollows.of_data⟩
  | str l =>
    simp only [htag, Except.ok.injEq] at h
    obtain ⟨⟨len, data⟩, htake, h⟩ := Option.bind_eq_some_iff.mp h
    have hread₂ := @Parse.read_eq { st with data := rest } l len data htake
    obtain ⟨s, st', hrun, hfollows⟩ := @parseStr_follows { st with data := data } (ofLE len) c h
    refine ⟨.str s, st', ?_, by simp, hfollows.of_data⟩
    simp only [hread₂, ok_bind]
    exact hrun
  | rstr l =>
    simp only [htag, Except.ok.injEq] at h
    obtain ⟨⟨id, data⟩, htake, h⟩ := Option.bind_eq_some_iff.mp h
    have hread₂ := @Parse.read_eq { st with data := rest } l id data htake
    obtain ⟨s, hrun, hfollows⟩ := @parseRstr_follows { st with data := data } (ofLE id) c h
    refine ⟨.str s, _, ?_, by simp, hfollows.of_data⟩
    simp only [hread₂, ok_bind]
    exact hrun
  | shortRstr id =>
    simp only [htag, Except.ok.injEq] at h
    obtain ⟨s, hrun, hfollows⟩ := @parseRstr_follows { st with data := rest } id c h
    exact ⟨.str s, _, hrun, by simp, hfollows.of_data⟩
  | num l =>
    simp only [htag, Except.ok.injEq] at h
    obtain ⟨⟨n, data⟩, htake, rfl⟩ := Option.map_eq_some_iff.mp h
    have hread₂ := @Parse.read_eq { st with data := rest } l n data htake
    refine ⟨.num (ofLE n), _, ?_, by simp,
      (@Follows.write { st with data := data } _ _ (le_refl binresultSize)).of_data⟩
    simp only [hread₂, ok_bind, pure_eq_ok]
  | smallNum n =>
    simp only [htag, Except.ok.injEq, Option.some.injEq] at h
    obtain rfl := h
    exact ⟨.num n, _, rfl, by simp, (@Follows.refl { st with data := rest }).of_data⟩
  | bfalse =>
    simp only [htag, Except.ok.injEq, Option.some.injEq] at h
    obtain rfl := h
    exact ⟨.bool false, _, rfl, by simp, (@Follows.refl { st with data := rest }).of_data⟩
  | btrue =>
    simp only [htag, Except.ok.injEq, Option.some.injEq] at h
    obtain rfl := h
    exact ⟨.bool true, _, rfl, by simp, (@Follows.refl { st with data := rest }).of_data⟩
  | array => exact absurd htag harray
  | hash => exact absurd htag hhash
  | data =>
    simp only [htag, Except.ok.injEq] at h
    obtain ⟨⟨n, data⟩, htake, rfl⟩ := Option.map_eq_some_iff.mp h
    have hread₂ := @Parse.read_eq { st with data := rest } 8 n data htake
    refine ⟨.data (ofLE n), _, ?_, by simp,
      (@Follows.write { st with data := data } _ _ (le_refl binresultSize)).of_data⟩
    simp only [hread₂, ok_bind, pure_eq_ok]
  | bad =>
    simp only [htag, Except.ok.injEq] at h
    exact absurd h (by simp)

/-- A header in front and the pointers behind. -/
theorem Follows.block {st st' : Parse} {c : Calc} {n : Nat}
    (h : Follows (st.write binresultSize binresultSize) c st' n) :
    Follows st { c with ret := binresultSize + c.ret } (st'.write n n) 0 := by
  have hhead := @Follows.write st _ _ (le_refl binresultSize)
  have hbody := hhead.trans h
  have htail := hbody.trans (@Follows.write st' _ _ (le_refl n))
  refine ⟨h.data, h.strings, htail.ge, ?_, htail.written⟩
  have hle := hbody.le
  simp only [Parse.write] at hle ⊢
  omega

theorem value_agrees {fuel : Nat} (ih : Agrees fuel) {data : Bytes} {c : Calc} {st : Parse}
    (hst : st.data = data)
    (h : calcRetLenAux (fuel + 1) data st.strings.length = .ok (some c)) :
    ∃ v st', doParseResultAux (fuel + 1) st = .ok (v, st') ∧ v ≠ .null ∧ Follows st c st' 0 := by
  cases data with
  | nil =>
    simp only [calcRetLenAux, Except.ok.injEq] at h
    exact absurd h (by simp)
  | cons type rest =>
    have hread : st.read 1 = .ok ([type], { st with data := rest }) :=
      Parse.read_eq (by rw [hst, takeBytes_one])
    by_cases harray : tag type.toNat = .array
    · simp only [calcRetLenAux, harray] at h
      obtain ⟨items, hitems, h⟩ := bind_eq_ok h
      obtain ⟨d, rfl, rfl⟩ := Option.map_eq_some_iff.mp (Except.ok.inj h)
      obtain ⟨vs, st', hrun, hfollows⟩ := @Agrees.array fuel ih rest d
        (({ st with data := rest } : Parse).write binresultSize binresultSize) rfl hitems
      refine ⟨.array vs, _, ?_, by simp, hfollows.block.of_data⟩
      simp only [doParseResultAux, hread, ok_bind, ofLE_singleton, harray, hrun, pure_eq_ok]
    · by_cases hhash : tag type.toNat = .hash
      · simp only [calcRetLenAux, hhash] at h
        obtain ⟨items, hitems, h⟩ := bind_eq_ok h
        obtain ⟨d, rfl, rfl⟩ := Option.map_eq_some_iff.mp (Except.ok.inj h)
        obtain ⟨vs, st', hrun, hfollows⟩ := @Agrees.hash fuel ih rest d
          (({ st with data := rest } : Parse).write binresultSize binresultSize) rfl hitems
        refine ⟨.hash vs, _, ?_, by simp, hfollows.block.of_data⟩
        simp only [doParseResultAux, hread, ok_bind, ofLE_singleton, hhash, hrun, pure_eq_ok]
      · exact leaf_agrees hst harray hhash h

theorem Follows.end {st : Parse} {rest : Bytes} :
    Follows st ⟨0, rest, st.strings.length⟩ { st with data := rest } 0 :=
  (@Follows.refl { st with data := rest }).of_data

theorem array_agrees {fuel : Nat} (ih : Agrees fuel) {data : Bytes} {c : Calc} {st : Parse}
    (hst : st.data = data) (h : calcArray (fuel + 1) data st.strings.length = .ok (some c)) :
    ∃ vs st', parseArray (fuel + 1) st = .ok (vs, st') ∧ Follows st c st' (8 * vs.length) := by
  cases data with
  | nil => exact absurd h (by simp [calcArray])
  | cons b rest =>
    by_cases hend : b = rparamEnd
    · simp only [calcArray, if_pos hend, Except.ok.injEq, Option.some.injEq] at h
      obtain rfl := h
      refine ⟨[], _, ?_, Follows.end⟩
      simp only [parseArray, hst, if_pos hend]
    · simp only [calcArray, if_neg hend] at h
      obtain ⟨o, hvalue, h⟩ := bind_eq_ok h
      cases o with
      | none => exact absurd (Except.ok.inj h) (by simp)
      | some d =>
        simp only [] at h
        split at h
        · exact absurd (Except.ok.inj h) (by simp)
        · obtain ⟨items, hitems, h⟩ := bind_eq_ok h
          obtain ⟨e, rfl, rfl⟩ := Option.map_eq_some_iff.mp (Except.ok.inj h)
          obtain ⟨v, st₁, hrun₁, -, hfollows₁⟩ := ih.value hst hvalue
          obtain ⟨vs, st₂, hrun₂, hfollows₂⟩ := ih.array hfollows₁.data
            (by rw [hfollows₁.strings]; exact hitems)
          refine ⟨v :: vs, st₂, ?_, (hfollows₁.trans hfollows₂).mono ?_⟩
          · simp only [parseArray, hst, if_neg hend, hrun₁, ok_bind, hrun₂, pure_eq_ok]
          · simp only [List.length_cons]
            omega

theorem hash_agrees {fuel : Nat} (ih : Agrees fuel) {data : Bytes} {c : Calc} {st : Parse}
    (hst : st.data = data) (h : calcHash (fuel + 1) data st.strings.length = .ok (some c)) :
    ∃ vs st', parseHash (fuel + 1) st = .ok (vs, st') ∧ Follows st c st' (16 * vs.length) := by
  cases data with
  | nil => exact absurd h (by simp [calcHash])
  | cons b rest =>
    by_cases hend : b = rparamEnd
    · simp only [calcHash, if_pos hend, Except.ok.injEq, Option.some.injEq] at h
      obtain rfl := h
      refine ⟨[], _, ?_, Follows.end⟩
      simp only [parseHash, hst, if_pos hend]
    · simp only [calcHash, if_neg hend] at h
      obtain ⟨o, hkey, h⟩ := bind_eq_ok h
      cases o with
      | none => exact absurd (Except.ok.inj h) (by simp)
      | some d =>
        obtain ⟨o, hvalue, h⟩ := bind_eq_ok h
        cases o with
        | none => exact absurd (Except.ok.inj h) (by simp)
        | some d' =>
          simp only [] at h
          split at h
          · exact absurd (Except.ok.inj h) (by simp)
          · obtain ⟨items, hitems, h⟩ := bind_eq_ok h
            obtain ⟨e, rfl, rfl⟩ := Option.map_eq_some_iff.mp (Except.ok.inj h)
            obtain ⟨key, st₁, hrun₁, hnull, hfollows₁⟩ := ih.value hst hkey
            obtain ⟨v, st₂, hrun₂, -, hfollows₂⟩ := ih.value hfollows₁.data
              (by rw [hfollows₁.strings]; exact hvalue)
            obtain ⟨vs, st₃, hrun₃, hfollows₃⟩ := ih.hash hfollows₂.data
              (by rw [hfollows₂.strings]; exact hitems)
            have hfollows := (hfollows₁.trans hfollows₂).trans hfollows₃
            -- a pair without a string for a key leaves its memory unused
            have hdropped : ∀ {k : Nat}, k ≤ 16 * vs.length + 16 →
                Follows st { e with ret := d.ret + d'.ret + e.ret + 16 } st₃ k := fun hk =>
              hfollows.mono (by simp only []; omega)
            simp only [parseHash, hst, if_neg hend, hrun₁, ok_bind, hrun₂, hrun₃, pure_eq_ok]
            cases key with
            | null => exact absurd rfl hnull
            | str s =>
              exact ⟨(s, v) :: vs, st₃, rfl, hdropped (by simp only [List.length_cons]; omega)⟩
            | num n => exact ⟨vs, st₃, rfl, hdropped (by omega)⟩
            | bool b => exact ⟨vs, st₃, rfl, hdropped (by omega)⟩
            | array a => exact ⟨vs, st₃, rfl, hdropped (by omega)⟩
            | hash a => exact ⟨vs, st₃, rfl, hdropped (by omega)⟩
            | data n => exact ⟨vs, st₃, rfl, hdropped (by omega)⟩

theorem agrees (fuel : Nat) : Agrees fuel := by
  induction fuel with
  | zero =>
    refine ⟨?_, ?_, ?_⟩
    · intro data c st _ h
      exact absurd h (by simp [calcRetLenAux])
    · intro data c st _ h
      exact absurd h (by simp [calcArray])
    · intro data c st _ h
      exact absurd h (by simp [calcHash])
  | succ fuel ih =>
    exact ⟨value_agrees ih, array_agrees ih, hash_agrees ih⟩

/-! ## The grammar -/

/-- A value that is no array and no hash, behind `n` strings and in front of the rest with
`m` strings. -/
inductive Leaf : Nat → Bytes → Nat → Prop
  | shortStr {n len : Nat} {type : UInt8} {s : Bytes} (htag : tag type.toNat = .shortStr len)
      (hs : s.length = len) : Leaf n (type :: s) (n + 1)
  | str {n l : Nat} {type : UInt8} {len s : Bytes} (htag : tag type.toNat = .str l)
      (hlen : len.length = l) (hs : s.length = ofLE len) : Leaf n (type :: (len ++ s)) (n + 1)
  | rstr {n l : Nat} {type : UInt8} {id : Bytes} (htag : tag type.toNat = .rstr l)
      (hid : id.length = l) (hlt : ofLE id < n) : Leaf n (type :: id) n
  | shortRstr {n id : Nat} {type : UInt8} (htag : tag type.toNat = .shortRstr id) (hlt : id < n) :
      Leaf n [type] n
  | num {n l : Nat} {type : UInt8} {b : Bytes} (htag : tag type.toNat = .num l)
      (hb : b.length = l) : Leaf n (type :: b) n
  | smallNum {n k : Nat} {type : UInt8} (htag : tag type.toNat = .smallNum k) : Leaf n [type] n
  | bfalse {n : Nat} {type : UInt8} (htag : tag type.toNat = .bfalse) : Leaf n [type] n
  | btrue {n : Nat} {type : UInt8} (htag : tag type.toNat = .btrue) : Leaf n [type] n
  | data {n : Nat} {type : UInt8} {b : Bytes} (htag : tag type.toNat = .data)
      (hb : b.length = 8) : Leaf n (type :: b) n

/-- `k` values in a row. -/
inductive Wires : Nat → Nat → Bytes → Nat → Prop
  | nil {n : Nat} : Wires 0 n [] n
  | leaf {k n m p : Nat} {a b : Bytes} (ha : Leaf n a m) (hb : Wires k m b p) :
      Wires (k + 1) n (a ++ b) p
  | array {j k n m p : Nat} {type : UInt8} {a b : Bytes} (htag : tag type.toNat = .array)
      (ha : Wires j n a m) (hb : Wires k m b p) :
      Wires (k + 1) n (type :: (a ++ rparamEnd :: b)) p
  | hash {j k n m p : Nat} {type : UInt8} {a b : Bytes} (htag : tag type.toNat = .hash)
      (ha : Wires (2 * j) n a m) (hb : Wires k m b p) :
      Wires (k + 1) n (type :: (a ++ rparamEnd :: b)) p

/-- A value that breaks off right behind the tag of an array or of a hash. -/
inductive Open : Nat → Bytes → Prop
  | array {n : Nat} {type : UInt8} (htag : tag type.toNat = .array) : Open n [type]
  | hash {n : Nat} {type : UInt8} (htag : tag type.toNat = .hash) : Open n [type]
  | inArray {k n m : Nat} {type : UInt8} {a b : Bytes} (htag : tag type.toNat = .array)
      (ha : Wires k n a m) (hb : Open m b) : Open n (type :: (a ++ b))
  | inHash {k n m : Nat} {type : UInt8} {a b : Bytes} (htag : tag type.toNat = .hash)
      (ha : Wires k n a m) (hb : Open m b) : Open n (type :: (a ++ b))

theorem Wires.append {j k n m p : Nat} {a b : Bytes} (ha : Wires j n a m) (hb : Wires k m b p) :
    Wires (j + k) n (a ++ b) p := by
  induction ha with
  | nil => simpa using hb
  | leaf ha _ ih =>
    rw [List.append_assoc, Nat.add_right_comm]
    exact .leaf ha (ih hb)
  | array htag ha _ _ ih =>
    rw [List.cons_append, List.append_assoc, Nat.add_right_comm]
    exact .array htag ha (ih hb)
  | hash htag ha _ _ ih =>
    rw [List.cons_append, List.append_assoc, Nat.add_right_comm]
    exact .hash htag ha (ih hb)

theorem Leaf.ne_nil {n m : Nat} {a : Bytes} (h : Leaf n a m) : a ≠ [] := by
  cases h <;> simp

theorem Wires.le_length {k n m : Nat} {a : Bytes} (h : Wires k n a m) : k ≤ a.length := by
  induction h with
  | nil => exact le_refl _
  | leaf ha _ ih =>
    have := List.length_pos_iff.mpr ha.ne_nil
    rw [List.length_append]
    omega
  | array htag _ _ _ ih =>
    simp only [List.length_cons, List.length_append]
    omega
  | hash htag _ _ _ ih =>
    simp only [List.length_cons, List.length_append]
    omega

/-! ## What the first pass accepts -/

theorem calcStr_sound {len n : Nat} {data : Bytes} {c : Calc} (h : calcStr len data n = some c) :
    ∃ s, data = s ++ c.rest ∧ s.length = len ∧ c.strcnt = n + 1 := by
  obtain ⟨⟨s, rest⟩, htake, rfl⟩ := Option.map_eq_some_iff.mp h
  obtain ⟨hdata, hlen⟩ := takeBytes_eq_some htake
  exact ⟨s, hdata, hlen, rfl⟩

theorem calcRstr_sound {id n : Nat} {data : Bytes} {c : Calc} (h : calcRstr id data n = some c) :
    id < n ∧ data = c.rest ∧ c.strcnt = n := by
  unfold calcRstr at h
  split at h
  · next hlt =>
    obtain rfl := Option.some.inj h
    exact ⟨hlt, rfl, rfl⟩
  · exact absurd h (by simp)

theorem leaf_sound {fuel n : Nat} {type : UInt8} {rest : Bytes} {c : Calc}
    (harray : tag type.toNat ≠ .array) (hhash : tag type.toNat ≠ .hash)
    (h : calcRetLenAux (fuel + 1) (type :: rest) n = .ok (some c)) :
    ∃ a, rest = a ++ c.rest ∧ Leaf n (type :: a) c.strcnt := by
  simp only [calcRetLenAux] at h
  cases htag : tag type.toNat with
  | shortStr len =>
    simp only [htag, Except.ok.injEq] at h
    obtain ⟨s, hdata, hlen, hcnt⟩ := calcStr_sound h
    exact ⟨s, hdata, hcnt ▸ .shortStr htag hlen⟩
  | str l =>
    simp only [htag, Except.ok.injEq] at h
    obtain ⟨⟨len, data⟩, htake, h⟩ := Option.bind_eq_some_iff.mp h
    obtain ⟨hrest, hl⟩ := takeBytes_eq_some htake
    obtain ⟨s, hdata, hlen, hcnt⟩ := calcStr_sound h
    simp only [] at hdata hlen
    refine ⟨len ++ s, ?_, hcnt ▸ .str htag hl hlen⟩
    rw [hrest, hdata, List.append_assoc]
  | rstr l =>
    simp only [htag, Except.ok.injEq] at h
    obtain ⟨⟨id, data⟩, htake, h⟩ := Option.bind_eq_some_iff.mp h
    obtain ⟨hrest, hl⟩ := takeBytes_eq_some htake
    obtain ⟨hlt, hdata, hcnt⟩ := calcRstr_sound h
    simp only [] at hdata hlt
    refine ⟨id, ?_, ?_⟩
    · rw [hrest, hdata]
    · rw [hcnt]
      exact .rstr htag hl hlt
  | shortRstr id =>
    simp only [htag, Except.ok.injEq] at h
    obtain ⟨hlt, hdata, hcnt⟩ := calcRstr_sound h
    refine ⟨[], hdata, ?_⟩
    rw [hcnt]
    exact .shortRstr htag hlt
  | num l =>
    simp only [htag, Except.ok.injEq] at h
    obtain ⟨⟨b, data⟩, htake, rfl⟩ := Option.map_eq_some_iff.mp h
    obtain ⟨hrest, hl⟩ := takeBytes_eq_some htake
    exact ⟨b, hrest, .num htag hl⟩
  | smallNum k =>
    simp only [htag, Except.ok.injEq, Option.some.injEq] at h
    obtain rfl := h
    exact ⟨[], rfl, .smallNum htag⟩
  | bfalse =>
    simp only [htag, Except.ok.injEq, Option.some.injEq] at h
    obtain rfl := h
    exact ⟨[], rfl, .bfalse htag⟩
  | btrue =>
    simp only [htag, Except.ok.injEq, Option.some.injEq] at h
    obtain rfl := h
    exact ⟨[], rfl, .btrue htag⟩
  | array => exact absurd htag harray
  | hash => exact absurd htag hhash
  | data =>
    simp only [htag, Except.ok.injEq] at h
    obtain ⟨⟨b, data⟩, htake, rfl⟩ := Option.map_eq_some_iff.mp h
    obtain ⟨hrest, hl⟩ := takeBytes_eq_some htake
    exact ⟨b, hrest, .data htag hl⟩
  | bad =>
    simp only [htag, Except.ok.injEq] at h
    exact absurd h (by simp)

/-- Such a value cannot go wrong. -/
theorem leaf_ne_error {fuel n : Nat} {type : UInt8} {rest : Bytes} {e : Fault}
    (harray : tag type.toNat ≠ .array) (hhash : tag type.toNat ≠ .hash) :
    calcRetLenAux (fuel + 1) (type :: rest) n ≠ .error e := by
  simp only [calcRetLenAux]
  cases htag : tag type.toNat with
  | array => exact absurd htag harray
  | hash => exact absurd htag hhash
  | _ => simp

/-- What the first pass has read, and what it means when it reads behind the end. -/
structure Sound (fuel : Nat) : Prop where
  value : ∀ {data : Bytes} {n : Nat} {c : Calc}, calcRetLenAux fuel data n = .ok (some c) →
    ∃ a, data = a ++ c.rest ∧ Wires 1 n a c.strcnt
  array : ∀ {data : Bytes} {n : Nat} {c : Calc}, calcArray fuel data n = .ok (some c) →
    ∃ k a, data = a ++ rparamEnd :: c.rest ∧ Wires k n a c.strcnt
  hash : ∀ {data : Bytes} {n : Nat} {c : Calc}, calcHash fuel data n = .ok (some c) →
    ∃ k a, data = a ++ rparamEnd :: c.rest ∧ Wires (2 * k) n a c.strcnt
  valueError : ∀ {data : Bytes} {n : Nat} {e : Fault}, 2 * data.length + 1 ≤ fuel →
    calcRetLenAux fuel data n = .error e → e = .pastEnd ∧ Open n data
  arrayError : ∀ {data : Bytes} {n : Nat} {e : Fault}, 2 * data.length + 2 ≤ fuel →
    calcArray fuel data n = .error e → e = .pastEnd ∧
      (data = [] ∨ ∃ k m a b, data = a ++ b ∧ Wires k n a m ∧ Open m b)
  hashError : ∀ {data : Bytes} {n : Nat} {e : Fault}, 2 * data.length + 2 ≤ fuel →
    calcHash fuel data n = .error e → e = .pastEnd ∧
      (data = [] ∨ ∃ k m a b, data = a ++ b ∧ Wires k n a m ∧ Open m b)

theorem Sound.shorter {fuel n : Nat} (h : Sound fuel) {data : Bytes} {c : Calc}
    (hrun : calcRetLenAux fuel data n = .ok (some c)) : c.rest.length < data.length := by
  obtain ⟨a, rfl, hwires⟩ := h.value hrun
  have := hwires.le_length
  rw [List.length_append]
  omega

theorem value_sound {fuel n : Nat} (ih : Sound fuel) {data : Bytes} {c : Calc}
    (h : calcRetLenAux (fuel + 1) data n = .ok (some c)) :
    ∃ a, data = a ++ c.rest ∧ Wires 1 n a c.strcnt := by
  cases data with
  | nil =>
    simp only [calcRetLenAux, Except.ok.injEq] at h
    exact absurd h (by simp)
  | cons type rest =>
    by_cases harray : tag type.toNat = .array
    · simp only [calcRetLenAux, harray] at h
      obtain ⟨items, hitems, h⟩ := bind_eq_ok h
      obtain ⟨d, rfl, rfl⟩ := Option.map_eq_some_iff.mp (Except.ok.inj h)
      obtain ⟨k, a, rfl, hwires⟩ := ih.array hitems
      exact ⟨type :: (a ++ [rparamEnd]), by simp, .array harray hwires .nil⟩
    · by_cases hhash : tag type.toNat = .hash
      · simp only [calcRetLenAux, hhash] at h
        obtain ⟨items, hitems, h⟩ := bind_eq_ok h
        obtain ⟨d, rfl, rfl⟩ := Option.map_eq_some_iff.mp (Except.ok.inj h)
        obtain ⟨k, a, rfl, hwires⟩ := ih.hash hitems
        exact ⟨type :: (a ++ [rparamEnd]), by simp, .hash hhash hwires .nil⟩
      · obtain ⟨a, rfl, hleaf⟩ := leaf_sound harray hhash h
        refine ⟨type :: a, rfl, ?_⟩
        have hone := Wires.leaf hleaf .nil
        rwa [List.append_nil] at hone

theorem array_sound {fuel n : Nat} (ih : Sound fuel) {data : Bytes} {c : Calc}
    (h : calcArray (fuel + 1) data n = .ok (some c)) :
    ∃ k a, data = a ++ rparamEnd :: c.rest ∧ Wires k n a c.strcnt := by
  cases data with
  | nil => exact absurd h (by simp [calcArray])
  | cons b rest =>
    by_cases hend : b = rparamEnd
    · simp only [calcArray, if_pos hend, Except.ok.injEq, Option.some.injEq] at h
      obtain rfl := h
      exact ⟨0, [], by rw [hend]; rfl, .nil⟩
    · simp only [calcArray, if_neg hend] at h
      obtain ⟨o, hvalue, h⟩ := bind_eq_ok h
      cases o with
      | none => exact absurd (Except.ok.inj h) (by simp)
      | some d =>
        simp only [] at h
        split at h
        · exact absurd (Except.ok.inj h) (by simp)
        · obtain ⟨items, hitems, h⟩ := bind_eq_ok h
          obtain ⟨e, rfl, rfl⟩ := Option.map_eq_some_iff.mp (Except.ok.inj h)
          obtain ⟨a, hdata, hone⟩ := ih.value hvalue
          obtain ⟨k, a', hrest, hmore⟩ := ih.array hitems
          refine ⟨1 + k, a ++ a', ?_, hone.append hmore⟩
          rw [hdata, hrest, List.append_assoc]

theorem hash_sound {fuel n : Nat} (ih : Sound fuel) {data : Bytes} {c : Calc}
    (h : calcHash (fuel + 1) data n = .ok (some c)) :
    ∃ k a, data = a ++ rparamEnd :: c.rest ∧ Wires (2 * k) n a c.strcnt := by
  cases data with
  | nil => exact absurd h (by simp [calcHash])
  | cons b rest =>
    by_cases hend : b = rparamEnd
    · simp only [calcHash, if_pos hend, Except.ok.injEq, Option.some.injEq] at h
      obtain rfl := h
      exact ⟨0, [], by rw [hend]; rfl, .nil⟩
    · simp only [calcHash, if_neg hend] at h
      obtain ⟨o, hkey, h⟩ := bind_eq_ok h
      cases o with
      | none => exact absurd (Except.ok.inj h) (by simp)
      | some d =>
        obtain ⟨o, hvalue, h⟩ := bind_eq_ok h
        cases o with
        | none => exact absurd (Except.ok.inj h) (by simp)
        | some d' =>
          simp only [] at h
          split at h
          · exact absurd (Except.ok.inj h) (by simp)
          · obtain ⟨items, hitems, h⟩ := bind_eq_ok h
            obtain ⟨e, rfl, rfl⟩ := Option.map_eq_some_iff.mp (Except.ok.inj h)
            obtain ⟨a, hdata, hone⟩ := ih.value hkey
            obtain ⟨a', hdata', htwo⟩ := ih.value hvalue
            obtain ⟨k, a'', hrest, hmore⟩ := ih.hash hitems
            refine ⟨k + 1, a ++ (a' ++ a''), ?_, ?_⟩
            · rw [hdata, hdata', hrest]
              simp
            · have hall := hone.append (htwo.append hmore)
              rwa [show 1 + (1 + 2 * k) = 2 * (k + 1) by ring] at hall

theorem value_error {fuel n : Nat} (ih : Sound fuel) {data : Bytes} {e : Fault}
    (hfuel : 2 * data.length + 1 ≤ fuel + 1) (h : calcRetLenAux (fuel + 1) data n = .error e) :
    e = .pastEnd ∧ Open n data := by
  cases data with
  | nil => exact absurd h (by simp [calcRetLenAux])
  | cons type rest =>
    rw [List.length_cons] at hfuel
    by_cases harray : tag type.toNat = .array
    · simp only [calcRetLenAux, harray] at h
      rcases bind_eq_error h with h | ⟨items, -, h⟩
      · obtain ⟨he, rfl | ⟨k, m, a, b, rfl, hwires, hopen⟩⟩ := ih.arrayError (by omega) h
        · exact ⟨he, .array harray⟩
        · exact ⟨he, .inArray harray hwires hopen⟩
      · exact absurd h (by simp)
    · by_cases hhash : tag type.toNat = .hash
      · simp only [calcRetLenAux, hhash] at h
        rcases bind_eq_error h with h | ⟨items, -, h⟩
        · obtain ⟨he, rfl | ⟨k, m, a, b, rfl, hwires, hopen⟩⟩ := ih.hashError (by omega) h
          · exact ⟨he, .hash hhash⟩
          · exact ⟨he, .inHash hhash hwires hopen⟩
        · exact absurd h (by simp)
      · exact absurd h (leaf_ne_error harray hhash)

theorem array_error {fuel n : Nat} (ih : Sound fuel) {data : Bytes} {e : Fault}
    (hfuel : 2 * data.length + 2 ≤ fuel + 1) (h : calcArray (fuel + 1) data n = .error e) :
    e = .pastEnd ∧ (data = [] ∨ ∃ k m a b, data = a ++ b ∧ Wires k n a m ∧ Open m b) := by
  cases data with
  | nil =>
    simp only [calcArray, Except.error.injEq] at h
    exact ⟨h.symm, Or.inl rfl⟩
  | cons b rest =>
    by_cases hend : b = rparamEnd
    · exact absurd h (by simp [calcArray, hend])
    · simp only [calcArray, if_neg hend] at h
      rcases bind_eq_error h with h | ⟨o, hvalue, h⟩
      · obtain ⟨he, hopen⟩ := ih.valueError (by omega) h
        exact ⟨he, Or.inr ⟨0, n, [], _, rfl, .nil, hopen⟩⟩
      · cases o with
        | none => exact absurd h (by simp)
        | some d =>
          simp only [] at h
          have hshort := ih.shorter hvalue
          split at h
          · exact absurd h (by simp)
          · next hmore =>
            rcases bind_eq_error h with h | ⟨items, -, h⟩
            · obtain ⟨a, hdata, hone⟩ := ih.value hvalue
              obtain ⟨he, hnil | ⟨k, m, a', b', hrest, hwires, hopen⟩⟩ :=
                ih.arrayError (by omega) h
              · exact absurd hmore (by simp [hnil])
              · refine ⟨he, Or.inr ⟨1 + k, m, a ++ a', b', ?_, hone.append hwires, hopen⟩⟩
                rw [hdata, hrest, List.append_assoc]
            · exact absurd h (by simp)

theorem hash_error {fuel n : Nat} (ih : Sound fuel) {data : Bytes} {e : Fault}
    (hfuel : 2 * data.length + 2 ≤ fuel + 1) (h : calcHash (fuel + 1) data n = .error e) :
    e = .pastEnd ∧ (data = [] ∨ ∃ k m a b, data = a ++ b ∧ Wires k n a m ∧ Open m b) := by
  cases data with
  | nil =>
    simp only [calcHash, Except.error.injEq] at h
    exact ⟨h.symm, Or.inl rfl⟩
  | cons b rest =>
    by_cases hend : b = rparamEnd
    · exact absurd h (by simp [calcHash, hend])
    · simp only [calcHash, if_neg hend] at h
      rcases bind_eq_error h with h | ⟨o, hkey, h⟩
      · obtain ⟨he, hopen⟩ := ih.valueError (by omega) h
        exact ⟨he, Or.inr ⟨0, n, [], _, rfl, .nil, hopen⟩⟩
      · cases o with
        | none => exact absurd h (by simp)
        | some d =>
          simp only [] at h
          have hshort := ih.shorter hkey
          obtain ⟨a, hdata, hone⟩ := ih.value hkey
          rcases bind_eq_error h with h | ⟨o, hvalue, h⟩
          · obtain ⟨he, hopen⟩ := ih.valueError (by omega) h
            exact ⟨he, Or.inr ⟨1, _, a, _, hdata, hone, hopen⟩⟩
          · cases o with
            | none => exact absurd h (by simp)
            | some d' =>
              simp only [] at h
              have hshort' := ih.shorter hvalue
              obtain ⟨a', hdata', htwo⟩ := ih.value hvalue
              split at h
              · exact absurd h (by simp)
              · next hmore =>
                rcases bind_eq_error h with h | ⟨items, -, h⟩
                · obtain ⟨he, hnil | ⟨k, m, a'', b', hrest, hwires, hopen⟩⟩ :=
                    ih.hashError (by omega) h
                  · exact absurd hmore (by simp [hnil])
                  · refine ⟨he, Or.inr ⟨1 + (1 + k), m, a ++ (a' ++ a''), b', ?_,
                      hone.append (htwo.append hwires), hopen⟩⟩
                    rw [hdata, hdata', hrest]
                    simp
                · exact absurd h (by simp)

theorem sound (fuel : Nat) : Sound fuel := by
  induction fuel with
  | zero =>
    refine ⟨?_, ?_, ?_, ?_, ?_, ?_⟩
    · intro data n c h
      exact absurd h (by simp [calcRetLenAux])
    · intro data n c h
      exact absurd h (by simp [calcArray])
    · intro data n c h
      exact absurd h (by simp [calcHash])
    · intro data n e hfuel
      omega
    · intro data n e hfuel
      omega
    · intro data n e hfuel
      omega
  | succ fuel ih =>
    exact ⟨value_sound ih, array_sound ih, hash_sound ih, value_error ih, array_error ih,
      hash_error ih⟩

/-! ## What the first pass takes for a value -/

/-- The first byte is not the one that ends an array or a hash. -/
def Begins (data : Bytes) : Prop := ∃ x rest, data = x :: rest ∧ x ≠ rparamEnd

theorem Begins.ne_nil {data : Bytes} (h : Begins data) : data ≠ [] := by
  obtain ⟨x, rest, rfl, -⟩ := h
  simp

theorem Begins.append {a : Bytes} (h : Begins a) (b : Bytes) : Begins (a ++ b) := by
  obtain ⟨x, rest, rfl, hx⟩ := h
  exact ⟨x, rest ++ b, rfl, hx⟩

theorem begins_of_tag {type : UInt8} {rest : Bytes} (h : tag type.toNat ≠ .bad) :
    Begins (type :: rest) := by
  refine ⟨type, rest, rfl, ?_⟩
  rintro rfl
  exact h (by decide)

theorem Leaf.begins {n m : Nat} {a : Bytes} (h : Leaf n a m) : Begins a := by
  cases h <;> (apply begins_of_tag; simp [*])

theorem Open.begins {n : Nat} {b : Bytes} (h : Open n b) : Begins b := by
  cases h <;> (apply begins_of_tag; simp [*])

/-- A value is read, with any fuel that is enough for all bytes. -/
def Reads (data : Bytes) (n : Nat) (c : Calc) : Prop :=
  ∀ fuel, 2 * data.length + 1 ≤ fuel → calcRetLenAux fuel data n = .ok (some c)

theorem Reads.shorter {data : Bytes} {n : Nat} {c : Calc} (h : Reads data n c) :
    c.rest.length < data.length :=
  (sound _).shorter (h _ (le_refl _))

/-- `k` values are read one after the other. -/
def Takes : Nat → Bytes → Nat → Bytes → Nat → Prop
  | 0, data, n, tail, m => data = tail ∧ n = m
  | k + 1, data, n, tail, m => ∃ c, Reads data n c ∧ Begins data ∧ Takes k c.rest c.strcnt tail m

theorem Takes.split {j k n m : Nat} {data tail : Bytes} (h : Takes (j + k) data n tail m) :
    ∃ mid p, Takes j data n mid p ∧ Takes k mid p tail m := by
  induction j generalizing data n with
  | zero => exact ⟨data, n, ⟨rfl, rfl⟩, by simpa using h⟩
  | succ j ih =>
    rw [Nat.add_right_comm] at h
    obtain ⟨c, hread, hbegins, h⟩ := h
    obtain ⟨mid, p, h₁, h₂⟩ := ih h
    exact ⟨mid, p, ⟨c, hread, hbegins, h₁⟩, h₂⟩

theorem Takes.ne_nil {k n m : Nat} {data tail : Bytes} (h : Takes k data n tail m)
    (htail : tail ≠ []) : data ≠ [] := by
  cases k with
  | zero => exact h.1 ▸ htail
  | succ k =>
    obtain ⟨c, -, hbegins, -⟩ := h
    exact hbegins.ne_nil

/-- Memory added in front. -/
def addRet (ret : Nat) (o : Option Calc) : Option Calc :=
  o.map fun c => { c with ret := ret + c.ret }

theorem addRet_addRet (r s : Nat) (o : Option Calc) : addRet r (addRet s o) = addRet (r + s) o := by
  cases o with
  | none => rfl
  | some c => simp [addRet, Nat.add_assoc]

theorem map_map_addRet (r s : Nat) (x : Except Fault (Option Calc)) :
    addRet r <$> addRet s <$> x = addRet (r + s) <$> x := by
  cases x with
  | error e => rfl
  | ok o => simp only [map_ok, addRet_addRet]

theorem map_addRet_zero (x : Except Fault (Option Calc)) : addRet 0 <$> x = x := by
  cases x with
  | error e => rfl
  | ok o => cases o <;> simp [addRet]

/-- The loop over an array goes past the values that are read. -/
theorem calcArray_takes {k n m : Nat} {data tail : Bytes} (h : Takes k data n tail m)
    (htail : tail ≠ []) :
    ∃ ret, ∀ fuel, 2 * data.length + 2 ≤ fuel → ∃ fuel', 2 * tail.length + 2 ≤ fuel' ∧
      calcArray fuel data n = addRet ret <$> calcArray fuel' tail m := by
  induction k generalizing data n with
  | zero =>
    obtain ⟨rfl, rfl⟩ := h
    refine ⟨0, fun fuel hfuel => ⟨fuel, hfuel, ?_⟩⟩
    rw [map_addRet_zero]
  | succ k ih =>
    obtain ⟨c, hread, hbegins, h⟩ := h
    have hshort := hread.shorter
    have hmore := List.length_pos_iff.mpr (h.ne_nil htail)
    obtain ⟨ret, hrest⟩ := ih h
    refine ⟨c.ret + 8 + ret, fun fuel hfuel => ?_⟩
    obtain ⟨fuel, rfl⟩ : ∃ f, fuel = f + 1 := ⟨fuel - 1, by omega⟩
    obtain ⟨fuel', hfuel', hrun⟩ := hrest fuel (by omega)
    refine ⟨fuel', hfuel', ?_⟩
    obtain ⟨x, rest, rfl, hx⟩ := hbegins
    rw [← map_map_addRet, ← hrun]
    simp only [calcArray, if_neg hx, hread fuel (by omega), ok_bind]
    rw [if_neg (by omega)]
    cases calcArray fuel c.rest c.strcnt with
    | error e => rfl
    | ok o =>
      cases o with
      | none => rfl
      | some d => simp [addRet, Nat.add_right_comm]

/-- The loop over a hash goes past the pairs that are read. -/
theorem calcHash_takes {k n m : Nat} {data tail : Bytes} (h : Takes (2 * k) data n tail m)
    (htail : tail ≠ []) :
    ∃ ret, ∀ fuel, 2 * data.length + 2 ≤ fuel → ∃ fuel', 2 * tail.length + 2 ≤ fuel' ∧
      calcHash fuel data n = addRet ret <$> calcHash fuel' tail m := by
  induction k generalizing data n with
  | zero =>
    obtain ⟨rfl, rfl⟩ := h
    refine ⟨0, fun fuel hfuel => ⟨fuel, hfuel, ?_⟩⟩
    rw [map_addRet_zero]
  | succ k ih =>
    obtain ⟨c, hread, hbegins, d, hread', hbegins', h⟩ := h
    have hshort := hread.shorter
    have hshort' := hread'.shorter
    have hmore := List.length_pos_iff.mpr (Takes.ne_nil h htail)
    obtain ⟨ret, hrest⟩ := ih h
    refine ⟨c.ret + d.ret + 16 + ret, fun fuel hfuel => ?_⟩
    obtain ⟨fuel, rfl⟩ : ∃ f, fuel = f + 1 := ⟨fuel - 1, by omega⟩
    obtain ⟨fuel', hfuel', hrun⟩ := hrest fuel (by omega)
    refine ⟨fuel', hfuel', ?_⟩
    obtain ⟨x, rest, rfl, hx⟩ := hbegins
    rw [← map_map_addRet, ← hrun]
    simp only [calcHash, if_neg hx, hread fuel (by omega), hread' fuel (by omega), ok_bind]
    rw [if_neg (by omega)]
    cases calcHash fuel d.rest d.strcnt with
    | error e => rfl
    | ok o =>
      cases o with
      | none => rfl
      | some d => simp [addRet, Nat.add_right_comm]

theorem Leaf.reads {n m : Nat} {a : Bytes} (h : Leaf n a m) (r : Bytes) :
    ∃ ret, Reads (a ++ r) n ⟨ret, r, m⟩ := by
  have hreads : ∀ {b : Bytes} {c : Calc}, (∀ fuel, calcRetLenAux (fuel + 1) b n = .ok (some c)) →
      Reads b n c := by
    intro b c hrun fuel hfuel
    obtain ⟨fuel, rfl⟩ : ∃ f, fuel = f + 1 := ⟨fuel - 1, by omega⟩
    exact hrun fuel
  cases h with
  | @shortStr len _ _ htag hs =>
    refine ⟨strSize len, hreads fun fuel => ?_⟩
    simp only [List.cons_append, calcRetLenAux, htag, calcStr, takeBytes_append hs, Option.map_some]
  | @str _ _ len _ htag hlen hs =>
    refine ⟨strSize (ofLE len), hreads fun fuel => ?_⟩
    simp only [List.cons_append, List.append_assoc, calcRetLenAux, htag, calcStr,
      takeBytes_append hlen, Option.bind_some, takeBytes_append hs, Option.map_some]
  | rstr htag hid hlt =>
    refine ⟨0, hreads fun fuel => ?_⟩
    simp only [List.cons_append, calcRetLenAux, htag, calcRstr, takeBytes_append hid,
      Option.bind_some, if_pos hlt]
  | shortRstr htag hlt =>
    refine ⟨0, hreads fun fuel => ?_⟩
    simp only [List.cons_append, List.nil_append, calcRetLenAux, htag, calcRstr, if_pos hlt]
  | num htag hb =>
    refine ⟨binresultSize, hreads fun fuel => ?_⟩
    simp only [List.cons_append, calcRetLenAux, htag, takeBytes_append hb, Option.map_some]
  | smallNum htag =>
    refine ⟨0, hreads fun fuel => ?_⟩
    simp only [List.cons_append, List.nil_append, calcRetLenAux, htag]
  | bfalse htag =>
    refine ⟨0, hreads fun fuel => ?_⟩
    simp only [List.cons_append, List.nil_append, calcRetLenAux, htag]
  | btrue htag =>
    refine ⟨0, hreads fun fuel => ?_⟩
    simp only [List.cons_append, List.nil_append, calcRetLenAux, htag]
  | data htag hb =>
    refine ⟨binresultSize, hreads fun fuel => ?_⟩
    simp only [List.cons_append, calcRetLenAux, htag, takeBytes_append hb, Option.map_some]

/-- An array whose values are read is read. -/
theorem reads_array {k n m : Nat} {type : UInt8} {data rest : Bytes}
    (htag : tag type.toNat = .array) (h : Takes k data n (rparamEnd :: rest) m) :
    ∃ ret, Reads (type :: data) n ⟨ret, rest, m⟩ := by
  obtain ⟨ret, hloop⟩ := calcArray_takes h (by simp)
  refine ⟨binresultSize + (ret + 0), fun fuel hfuel => ?_⟩
  rw [List.length_cons] at hfuel
  obtain ⟨fuel, rfl⟩ : ∃ f, fuel = f + 1 := ⟨fuel - 1, by omega⟩
  obtain ⟨fuel', hfuel', hrun⟩ := hloop fuel (by omega)
  obtain ⟨fuel', rfl⟩ : ∃ f, fuel' = f + 1 := ⟨fuel' - 1, by omega⟩
  simp only [calcRetLenAux, htag, hrun, calcArray, if_true, map_ok, addRet,
    Option.map_some, ok_bind, pure_eq_ok]

/-- A hash whose pairs are read is read. -/
theorem reads_hash {k n m : Nat} {type : UInt8} {data rest : Bytes}
    (htag : tag type.toNat = .hash) (h : Takes (2 * k) data n (rparamEnd :: rest) m) :
    ∃ ret, Reads (type :: data) n ⟨ret, rest, m⟩ := by
  obtain ⟨ret, hloop⟩ := calcHash_takes h (by simp)
  refine ⟨binresultSize + (ret + 0), fun fuel hfuel => ?_⟩
  rw [List.length_cons] at hfuel
  obtain ⟨fuel, rfl⟩ : ∃ f, fuel = f + 1 := ⟨fuel - 1, by omega⟩
  obtain ⟨fuel', hfuel', hrun⟩ := hloop fuel (by omega)
  obtain ⟨fuel', rfl⟩ : ∃ f, fuel' = f + 1 := ⟨fuel' - 1, by omega⟩
  simp only [calcRetLenAux, htag, hrun, calcHash, if_true, map_ok, addRet, Option.map_some, ok_bind,
    pure_eq_ok]

theorem Wires.takes {k n m : Nat} {a : Bytes} (h : Wires k n a m) (tail : Bytes) :
    Takes k (a ++ tail) n tail m := by
  induction h generalizing tail with
  | nil => exact ⟨rfl, rfl⟩
  | @leaf k n m p a b ha _ ih =>
    obtain ⟨ret, hread⟩ := ha.reads (b ++ tail)
    rw [List.append_assoc]
    exact ⟨_, hread, ha.begins.append _, ih tail⟩
  | @array j k n m p type a b htag _ _ iha ihb =>
    rw [List.cons_append, List.append_assoc, List.cons_append]
    obtain ⟨ret, hread⟩ := reads_array htag (iha (rparamEnd :: (b ++ tail)))
    exact ⟨_, hread, begins_of_tag (by simp [htag]), ihb tail⟩
  | @hash j k n m p type a b htag _ _ iha ihb =>
    rw [List.cons_append, List.append_assoc, List.cons_append]
    obtain ⟨ret, hread⟩ := reads_hash htag (iha (rparamEnd :: (b ++ tail)))
    exact ⟨_, hread, begins_of_tag (by simp [htag]), ihb tail⟩

/-- A value that breaks off behind a tag makes the first pass read behind the end. -/
theorem Open.pastEnd {n : Nat} {data : Bytes} (h : Open n data) :
    ∀ {fuel : Nat}, 2 * data.length + 1 ≤ fuel → calcRetLenAux fuel data n = .error .pastEnd := by
  induction h with
  | array htag =>
    intro fuel hfuel
    rw [List.length_singleton] at hfuel
    obtain ⟨fuel, rfl⟩ : ∃ f, fuel = f + 2 := ⟨fuel - 2, by omega⟩
    simp only [calcRetLenAux, htag, calcArray, error_bind]
  | hash htag =>
    intro fuel hfuel
    rw [List.length_singleton] at hfuel
    obtain ⟨fuel, rfl⟩ : ∃ f, fuel = f + 2 := ⟨fuel - 2, by omega⟩
    simp only [calcRetLenAux, htag, calcHash, error_bind]
  | @inArray k n m type a b htag ha hb ih =>
    intro fuel hfuel
    rw [List.length_cons] at hfuel
    obtain ⟨fuel, rfl⟩ : ∃ f, fuel = f + 1 := ⟨fuel - 1, by omega⟩
    obtain ⟨ret, hloop⟩ := calcArray_takes (ha.takes b) hb.begins.ne_nil
    obtain ⟨fuel', hfuel', hrun⟩ := hloop fuel (by omega)
    obtain ⟨fuel', rfl⟩ : ∃ f, fuel' = f + 1 := ⟨fuel' - 1, by omega⟩
    have hopen := @ih fuel' (by omega)
    obtain ⟨x, rest, rfl, hx⟩ := hb.begins
    simp only [calcRetLenAux, htag, hrun, calcArray, if_neg hx, hopen, error_bind]
    rfl
  | @inHash k n m type a b htag ha hb ih =>
    intro fuel hfuel
    rw [List.length_cons] at hfuel
    obtain ⟨fuel, rfl⟩ : ∃ f, fuel = f + 1 := ⟨fuel - 1, by omega⟩
    -- the value that breaks off stands for a key or for a value
    rcases Nat.even_or_odd' k with ⟨j, rfl | rfl⟩
    · obtain ⟨ret, hloop⟩ := calcHash_takes (ha.takes b) hb.begins.ne_nil
      obtain ⟨fuel', hfuel', hrun⟩ := hloop fuel (by omega)
      obtain ⟨fuel', rfl⟩ : ∃ f, fuel' = f + 1 := ⟨fuel' - 1, by omega⟩
      have hopen := @ih fuel' (by omega)
      obtain ⟨x, rest, rfl, hx⟩ := hb.begins
      simp only [calcRetLenAux, htag, hrun, calcHash, if_neg hx, hopen, error_bind]
      rfl
    · obtain ⟨mid, p, hpairs, c, hread, hbegins, rfl, rfl⟩ := Takes.split (ha.takes b)
      obtain ⟨ret, hloop⟩ := calcHash_takes hpairs hbegins.ne_nil
      obtain ⟨fuel', hfuel', hrun⟩ := hloop fuel (by omega)
      obtain ⟨fuel', rfl⟩ : ∃ f, fuel' = f + 1 := ⟨fuel' - 1, by omega⟩
      have hshort := hread.shorter
      have hopen := @ih fuel' (by omega)
      have hkey := hread fuel' (by omega)
      obtain ⟨x, rest, rfl, hx⟩ := hbegins
      simp only [calcRetLenAux, htag, hrun, calcHash, if_neg hx, hkey, hopen, ok_bind, error_bind]
      rfl

/-! ## Whole bodies -/

/-- The first pass stays inside the body, and where it comes through the second one reads the
same bytes, follows only references to recorded strings and stays inside the memory. -/
def ParsesSafely (data : Bytes) : Prop :=
  ∃ res, calcRetLen data 0 = .ok res ∧ ∀ c, res = some c →
    ∃ v st, doParseResult data = .ok (v, st) ∧ st.data = c.rest ∧ st.strings.length = c.strcnt ∧
      ∀ w ∈ st.written, w.1 + w.2 ≤ c.ret

/-- A body is parsed safely exactly when it does not break off right behind the tag of an
array or of a hash. -/
theorem parse_safe_iff (data : Bytes) : ParsesSafely data ↔ ¬ Open 0 data := by
  constructor
  · rintro ⟨res, hrun, -⟩ hopen
    have herror := hopen.pastEnd (le_refl _)
    rw [calcRetLen, herror] at hrun
    exact absurd hrun (by simp)
  · intro hopen
    cases hrun : calcRetLen data 0 with
    | error e => exact absurd ((sound _).valueError (le_refl _) hrun).2 hopen
    | ok res =>
      refine ⟨res, hrun, ?_⟩
      rintro c rfl
      obtain ⟨v, st, hparse, -, hfollows⟩ :=
        @Agrees.value _ (agrees _) data c ⟨data, 0, [], []⟩ rfl hrun
      refine ⟨v, st, hparse, hfollows.data, hfollows.strings, ?_⟩
      obtain ⟨ws, hws, hin⟩ := hfollows.written
      have hle := hfollows.le
      intro w hw
      rw [hws, List.nil_append] at hw
      have := hin w hw
      simp only [Nat.zero_add] at hle
      omega

/-- The body of one byte that is the tag of an array. -/
theorem parse_reads_past_end :
    calcRetLen [17] 0 = .error .pastEnd ∧ ¬ ParsesSafely [17] := by
  have hrun : calcRetLen [17] 0 = .error .pastEnd := by decide
  refine ⟨hrun, ?_⟩
  rintro ⟨res, hok, -⟩
  rw [hrun] at hok
  exact absurd hok (by simp)

end PcloudClient.Papi
