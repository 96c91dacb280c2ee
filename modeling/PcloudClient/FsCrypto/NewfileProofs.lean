/-
  FsCrypto/NewfileProofs.lean --- the map of the log and the records of sectors.

  What a write of a sector and a truncation do to the tree `sectorsinlog`, and the record
  that a written sector is in the log.
-/
import PcloudClient.FsCrypto.AuthTreeProofs
import PcloudClient.FsCrypto.Newfile

set_option autoImplicit false

namespace PcloudClient.FsCrypto

/-! ## The tree of sectors -/

/-- Sectors with an entry in the tree. -/
def Openfile.ids (of : Openfile) : List Nat := of.sectorsinlog.toList.map (·.sectorid)

/-- The 32-bit difference orders sector ids that are less than `2 ^ 31` apart. -/
theorem compares_near {t : Ptree.Tree SectorInlog} {s : Nat}
    (ht : ∀ e ∈ t.toList, e.sectorid < s + 2 ^ 31 ∧ s < e.sectorid + 2 ^ 31) :
    t.Compares (·.sectorid) (fun e => sectoridDiff s e.sectorid) s := by
  intro e he
  have := ht e he
  unfold sectoridDiff Int.bmod
  simp only []
  split_ifs <;> omega

section

variable {t : Ptree.Tree SectorInlog} {s off : Nat} {auth : Bytes}

theorem mem_toList_setSectorLogOffset
    (hc : t.Compares (·.sectorid) (fun e => sectoridDiff s e.sectorid) s)
    (ho : t.Ordered (·.sectorid)) (e : SectorInlog) :
    e ∈ (setSectorLogOffset t s off auth).toList ↔
      e = ⟨s, off, auth⟩ ∨ e ∈ t.toList ∧ e.sectorid ≠ s := by
  rw [setSectorLogOffset, Ptree.Tree.toList_insert ho hc]
  · simp only [List.mem_append, List.mem_cons, List.mem_filter, decide_eq_true_eq]
    constructor
    · rintro (⟨h, hlt⟩ | rfl | ⟨h, hlt⟩)
      · exact Or.inr ⟨h, hlt.ne⟩
      · exact Or.inl rfl
      · exact Or.inr ⟨h, hlt.ne'⟩
    · rintro (rfl | ⟨h, hne⟩)
      · exact Or.inr (Or.inl rfl)
      · rcases Nat.lt_or_gt_of_ne hne with hlt | hgt
        · exact Or.inl ⟨h, hlt⟩
        · exact Or.inr (Or.inr ⟨h, hgt⟩)
  · rintro x rfl
    rfl

theorem ordered_setSectorLogOffset
    (hc : t.Compares (·.sectorid) (fun e => sectoridDiff s e.sectorid) s)
    (ho : t.Ordered (·.sectorid)) :
    (setSectorLogOffset t s off auth).Ordered (·.sectorid) := by
  unfold Ptree.Tree.Ordered
  rw [setSectorLogOffset, Ptree.Tree.toList_insert ho hc]
  · rw [List.pairwise_append, List.pairwise_cons]
    refine ⟨List.Pairwise.filter _ ho, ⟨?_, List.Pairwise.filter _ ho⟩, ?_⟩
    · intro e he
      simpa using (List.mem_filter.mp he).2
    · intro e he e' he'
      have hlt : e.sectorid < s := by simpa using (List.mem_filter.mp he).2
      rcases List.mem_cons.mp he' with rfl | he'
      · exact hlt
      · have hgt : s < e'.sectorid := by simpa using (List.mem_filter.mp he').2
        exact hlt.trans hgt
  · rintro x rfl
    rfl

end

/-! ## Truncation -/

theorem dropSectorsLoop_eq {m : Nat} (fuel : Nat) : ∀ {t : Ptree.Tree SectorInlog},
    t.toList.length ≤ fuel → t.Ordered (·.sectorid) →
    ∃ t', dropSectorsLoop fuel t m = .ok t' ∧ t'.Ordered (·.sectorid) ∧
      ∀ e, e ∈ t'.toList ↔ e ∈ t.toList ∧ e.sectorid < m := by
  induction fuel with
  | zero =>
    intro t hlen hord
    have hnil : t.toList = [] := List.eq_nil_of_length_eq_zero (by omega)
    exact ⟨t, rfl, hord, fun e => by rw [hnil]; simp⟩
  | succ fuel ih =>
    intro t hlen hord
    rw [dropSectorsLoop, Ptree.Tree.getLast_eq]
    rcases List.eq_nil_or_concat t.toList with hnil | ⟨init, e, hlist⟩
    · rw [hnil]
      exact ⟨t, rfl, hord, fun e => by rw [hnil]; simp⟩
    · rw [List.concat_eq_append] at hlist
      rw [hlist, List.getLast?_append_of_ne_nil _ (by simp)]
      simp only [List.getLast?_singleton]
      have hsorted : init.Pairwise (fun x y => x.sectorid < y.sectorid) ∧
          ∀ x ∈ init, x.sectorid < e.sectorid := by
        unfold Ptree.Tree.Ordered at hord
        rw [hlist, List.pairwise_append] at hord
        exact ⟨hord.1, fun x hx => hord.2.2 x hx e (List.mem_singleton.mpr rfl)⟩
      have hdel : t.delLast.toList = init := by
        rw [Ptree.Tree.toList_delLast, hlist, List.dropLast_concat]
      by_cases hm : m ≤ e.sectorid
      · have hassert : t.delLast.getLast.all (fun p => p.sectorid < e.sectorid) = true := by
          rw [Ptree.Tree.getLast_eq, hdel]
          cases hlast : init.getLast? with
          | none => rfl
          | some p => simpa using hsorted.2 p (List.mem_of_getLast? hlast)
        obtain ⟨t', hloop, hord', hmem⟩ := ih (t := t.delLast)
          (by
            have := congrArg List.length hlist
            rw [List.length_append, List.length_singleton] at this
            rw [hdel]
            omega)
          (by unfold Ptree.Tree.Ordered; rw [hdel]; exact hsorted.1)
        refine ⟨t', ?_, hord', ?_⟩
        · rw [if_pos hm, assert_true hassert, ok_bind]
          exact hloop
        · intro x
          rw [hmem x, hdel, List.mem_append, List.mem_singleton]
          constructor
          · rintro ⟨hx, hlt⟩
            exact ⟨Or.inl hx, hlt⟩
          · rintro ⟨hx | rfl, hlt⟩
            · exact ⟨hx, hlt⟩
            · omega
      · refine ⟨t, by rw [if_neg hm], hord, ?_⟩
        intro x
        rw [hlist, List.mem_append, List.mem_singleton]
        constructor
        · rintro (hx | rfl)
          · exact ⟨Or.inl hx, by have := hsorted.2 x hx; omega⟩
          · exact ⟨Or.inr rfl, by omega⟩
        · rintro ⟨hx, -⟩
          exact hx

/-! ## Writing a sector -/

/-- The record that `writeNewfileFullSector` appends. -/
def sectorRecord (env : Env) (of : Openfile) (buf : Bytes) (s : Nat) : Nat × Bytes :=
  (dataOffsetBySectorid s, (env.encode of.encodes buf s).1)

/-- What `writeNewfileFullSector` makes of the open file. -/
def Openfile.written (env : Env) (of : Openfile) (buf : Bytes) (s : Nat) : Openfile :=
  { of.appendRec (sectorRecord env of buf s)
      [.pwrite .log (encodeRec (sectorRecord env of buf s)) of.logoffset] with
    sectorsinlog := setSectorLogOffset of.sectorsinlog s of.logoffset
      (env.encode of.encodes buf s).2
    encodes := of.encodes + 1 }

theorem Env.length_encode (env : Env) (i : Nat) (data : Bytes) (s : Nat) :
    (env.encode i data s).1.length = data.length ∧ (env.encode i data s).2.length = 32 :=
  env.encoder.length_encodeSector _ _ _ _ _

theorem Env.decode_encode (env : Env) (i : Nat) (data : Bytes) (s : Nat) :
    env.decode (env.encode i data s).1 (env.encode i data s).2 s = (0, data) :=
  env.encoder.decodeSector_encodeSector _ _ _ _ s

theorem length_sectorRecord (env : Env) (of : Openfile) (buf : Bytes) (s : Nat) :
    (encodeRec (sectorRecord env of buf s)).length = 16 + buf.length := by
  rw [length_encodeRec, sectorRecord, (env.length_encode _ _ _).1]

/-- Beside the log, a write of a sector changes the intervals of a modified file. -/
theorem writeNewfileFullSector_ok {env : Env} {of of' : Openfile} {buf : Bytes} {s : Nat}
    (hrun : writeNewfileFullSector env of buf s = .ok of') :
    of'.sectorsinlog = (of.written env buf s).sectorsinlog ∧ of'.extender = of.extender ∧
      of'.currentsize = of.currentsize ∧
      (of.logoffset = of.logfile.length → of'.logfile = (of.written env buf s).logfile ∧
        of'.logoffset = (of.written env buf s).logoffset ∧
        of'.loghashctx = (of.written env buf s).loghashctx) := by
  have hrec : (LogHeader.data buf.length (dataOffsetBySectorid s)).encode ++
      (env.encode of.encodes buf s).1 = encodeRec (sectorRecord env of buf s) := by
    rw [encodeRec, sectorRecord, (env.length_encode _ _ _).1]
  obtain ⟨-, -, hrun⟩ := bind_eq_ok hrun
  simp only [hrec] at hrun
  have hfile : of.logoffset = of.logfile.length →
      File.pwrite of.logfile (encodeRec (sectorRecord env of buf s)) of.logoffset =
        (of.written env buf s).logfile := by
    intro hoff
    rw [hoff, File.pwrite_length]
    rfl
  split at hrun
  · obtain rfl := Except.ok.inj hrun
    exact ⟨rfl, rfl, rfl, fun hoff => ⟨hfile hoff, rfl, rfl⟩⟩
  · obtain ⟨-, -, hrun⟩ := bind_eq_ok hrun
    obtain rfl := Except.ok.inj hrun
    exact ⟨rfl, rfl, rfl, fun hoff => ⟨hfile hoff, rfl, rfl⟩⟩

theorem dataOffset_lt {s : Nat} (hs : s < 2 ^ 32) : dataOffsetBySectorid s < 2 ^ 64 := by
  have hle := Radix.leafPos_le_two_mul (b := 128) (by decide) s
  rw [dataOffsetBySectorid_eq]
  omega

end PcloudClient.FsCrypto
