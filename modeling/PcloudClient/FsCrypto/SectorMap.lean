/-
  FsCrypto/SectorMap.lean --- the tree of the sectors in the log, as a map.

  The tree is changed by `psync_fs_crypto_set_sector_log_offset`, by the loop of
  `psync_fs_crypto_ftruncate_down` and by a truncation to zero.  Its order is by a difference of
  32 bits that is read as signed.
-/
import PcloudClient.FsCrypto.LogOffset
import PcloudClient.FsCrypto.NewfileProofs

set_option autoImplicit false

namespace PcloudClient.FsCrypto

/-- The changes of `of->sectorsinlog`. -/
inductive SectorOp where
  | set (sectorid logoffset : Nat) (auth : Bytes)
  | truncateDown (lastsectorid : Nat)
  | truncateToZero
  deriving DecidableEq, Repr

namespace SectorOp

def exec (t : Ptree.Tree SectorInlog) : SectorOp → Except Abort (Ptree.Tree SectorInlog)
  | set sectorid logoffset auth => .ok (setSectorLogOffset t sectorid logoffset auth)
  | truncateDown lastsectorid => dropSectorsLoop t.toList.length t lastsectorid
  | truncateToZero => .ok .nil

/-- The ids that the callers pass. -/
def Admitted : SectorOp → Prop
  | set sectorid _ _ => sectorid ≤ maxSectorid
  | _ => True

end SectorOp

def runSectorOps : List SectorOp → Ptree.Tree SectorInlog → Except Abort (Ptree.Tree SectorInlog)
  | [], t => .ok t
  | op :: ops, t => do
    let t ← op.exec t
    runSectorOps ops t

/-! ## The map -/

/-- The latest log offset and authentication of a sector. -/
abbrev SectorMap := Nat → Option (Nat × Bytes)

namespace SectorMap

def empty : SectorMap := fun _ => none

def apply (m : SectorMap) : SectorOp → SectorMap
  | .set sectorid logoffset auth => Function.update m sectorid (some (logoffset, auth))
  | .truncateDown lastsectorid => fun id => if id < lastsectorid then m id else none
  | .truncateToZero => empty

/-- A sector that is set is less than `2 ^ 31` away from every sector in the map. -/
def Near (m : SectorMap) : SectorOp → Prop
  | .set sectorid _ _ => ∀ id, m id ≠ none → id < sectorid + 2 ^ 31 ∧ sectorid < id + 2 ^ 31
  | _ => True

/-- Every step of the run is near. -/
def NearRun : SectorMap → List SectorOp → Prop
  | _, [] => True
  | m, op :: ops => m.Near op ∧ NearRun (m.apply op) ops

end SectorMap

/-- The tree is the map: the search finds what was set last and not removed, there is one node
for each id, and the nodes stand in ascending order. -/
structure IsSectorMap (t : Ptree.Tree SectorInlog) (m : SectorMap) : Prop where
  found : ∀ id ≤ maxSectorid, (findSector t id).map (fun e => (e.logoffset, e.auth)) = m id
  own : ∀ id ≤ maxSectorid, ∀ e, findSector t id = some e → e.sectorid = id
  nodes : ∀ id, (t.toList.filter (fun e => e.sectorid = id)).length = if m id = none then 0 else 1
  ascending : t.toList.Pairwise (fun x y => x.sectorid < y.sectorid)

/-! ## The invariant -/

/-- The nodes of the tree are the entries of the map, and no two are far apart. -/
structure Mapped (t : Ptree.Tree SectorInlog) (m : SectorMap) : Prop where
  ordered : t.Ordered (·.sectorid)
  entries : ∀ e, e ∈ t.toList ↔ m e.sectorid = some (e.logoffset, e.auth)
  admitted : ∀ e ∈ t.toList, e.sectorid ≤ maxSectorid
  near : ∀ e ∈ t.toList, ∀ e' ∈ t.toList, e.sectorid < e'.sectorid + 2 ^ 31

section

variable {t : Ptree.Tree SectorInlog} {m : SectorMap}

theorem Mapped.mem_of_some (h : Mapped t m) {id : Nat} {v : Nat × Bytes} (hv : m id = some v) :
    ⟨id, v.1, v.2⟩ ∈ t.toList :=
  (h.entries ⟨id, v.1, v.2⟩).mpr hv

theorem mapped_empty : Mapped .nil SectorMap.empty :=
  ⟨List.Pairwise.nil, by simp [Ptree.Tree.toList, SectorMap.empty], by simp [Ptree.Tree.toList],
    by simp [Ptree.Tree.toList]⟩

theorem Mapped.set (h : Mapped t m) {s off : Nat} {auth : Bytes} (hs : s ≤ maxSectorid)
    (hnear : m.Near (.set s off auth)) :
    Mapped (setSectorLogOffset t s off auth) (m.apply (.set s off auth)) := by
  have hapart : ∀ e ∈ t.toList, e.sectorid < s + 2 ^ 31 ∧ s < e.sectorid + 2 ^ 31 := by
    intro e he
    refine hnear e.sectorid ?_
    rw [(h.entries e).mp he]
    simp
  have hc := compares_near hapart
  have hmem := @mem_toList_setSectorLogOffset t s off auth hc h.ordered
  constructor
  · exact ordered_setSectorLogOffset hc h.ordered
  · intro e
    rw [hmem e]
    by_cases hes : e.sectorid = s
    · simp only [SectorMap.apply, hes, Function.update_self, Option.some.injEq, Prod.mk.injEq,
        ne_eq, not_true_eq_false, and_false, or_false]
      constructor
      · rintro rfl
        exact ⟨rfl, rfl⟩
      · obtain ⟨id, o, a⟩ := e
        rintro ⟨rfl, rfl⟩
        simpa using hes
    · have hne : e ≠ ⟨s, off, auth⟩ := by
        rintro rfl
        exact hes rfl
      simp only [SectorMap.apply, Function.update_of_ne hes, hne, false_or, hes, ne_eq,
        not_false_eq_true, and_true]
      exact h.entries e
  · intro e he
    rcases (hmem e).mp he with rfl | ⟨he, -⟩
    · exact hs
    · exact h.admitted e he
  · intro e he e' he'
    rcases (hmem e).mp he with rfl | ⟨he, -⟩
    · rcases (hmem e').mp he' with rfl | ⟨he', -⟩
      · exact Nat.lt_add_of_pos_right (by decide)
      · exact (hapart e' he').2
    · rcases (hmem e').mp he' with rfl | ⟨he', -⟩
      · exact (hapart e he).1
      · exact h.near e he e' he'

theorem Mapped.truncateDown (h : Mapped t m) (last : Nat) :
    ∃ t', dropSectorsLoop t.toList.length t last = .ok t' ∧
      Mapped t' (m.apply (.truncateDown last)) := by
  obtain ⟨t', hloop, hord, hmem⟩ := dropSectorsLoop_eq (m := last) _ (Nat.le_refl _) h.ordered
  refine ⟨t', hloop, hord, ?_, ?_, ?_⟩
  · intro e
    rw [hmem e, h.entries e]
    simp only [SectorMap.apply]
    constructor
    · rintro ⟨he, hlt⟩
      rw [if_pos hlt, he]
    · intro he
      by_cases hlt : e.sectorid < last
      · rw [if_pos hlt] at he
        exact ⟨he, hlt⟩
      · rw [if_neg hlt] at he
        cases he
  · exact fun e he => h.admitted e ((hmem e).mp he).1
  · exact fun e he e' he' => h.near e ((hmem e).mp he).1 e' ((hmem e').mp he').1

/-- One change of the tree is the change of the map. -/
theorem Mapped.exec (h : Mapped t m) {op : SectorOp} (hop : op.Admitted) (hnear : m.Near op) :
    ∃ t', op.exec t = .ok t' ∧ Mapped t' (m.apply op) := by
  cases op with
  | set s off auth => exact ⟨_, rfl, h.set hop hnear⟩
  | truncateDown last => exact h.truncateDown last
  | truncateToZero => exact ⟨_, rfl, mapped_empty⟩

theorem Mapped.run (h : Mapped t m) {ops : List SectorOp} (hops : ∀ op ∈ ops, op.Admitted)
    (hnear : m.NearRun ops) :
    ∃ t', runSectorOps ops t = .ok t' ∧ Mapped t' (ops.foldl SectorMap.apply m) := by
  induction ops generalizing t m with
  | nil => exact ⟨t, rfl, h⟩
  | cons op ops ih =>
    obtain ⟨t₁, hexec, h₁⟩ := h.exec (hops op (by simp)) hnear.1
    obtain ⟨t', hrun, h'⟩ := ih h₁ (fun o ho => hops o (by simp [ho])) hnear.2
    exact ⟨t', by simp [runSectorOps, hexec, hrun], h'⟩

/-- What the search returns is in the tree, wherever the comparison leads. -/
theorem findSector_mem {id : Nat} {e : SectorInlog} (hfind : findSector t id = some e) :
    e ∈ t.toList ∧ sectoridDiff id e.sectorid = 0 := by
  unfold findSector at hfind
  induction t with
  | nil => cases hfind
  | node l x r ht ihl ihr =>
    simp only [Ptree.Tree.search] at hfind
    simp only [Ptree.Tree.toList, List.mem_append, List.mem_cons]
    split at hfind
    · exact ⟨Or.inl (ihl hfind).1, (ihl hfind).2⟩
    · split at hfind
      · exact ⟨Or.inr (Or.inr (ihr hfind).1), (ihr hfind).2⟩
      · obtain rfl := Option.some.inj hfind
        exact ⟨Or.inr (Or.inl rfl), by omega⟩

theorem Mapped.findSector_some (h : Mapped t m) {id : Nat} (hid : id ≤ maxSectorid)
    {e : SectorInlog} : findSector t id = some e ↔ e ∈ t.toList ∧ e.sectorid = id := by
  constructor
  · intro hfind
    obtain ⟨he, hdiff⟩ := findSector_mem hfind
    have hle := h.admitted e he
    rw [maxSectorid_eq] at hid hle
    exact ⟨he, sectoridDiff_eq_zero (by omega) (by omega) hdiff⟩
  · rintro ⟨he, rfl⟩
    have hc := compares_near (t := t) (s := e.sectorid)
      fun e' he' => ⟨h.near e' he' e he, h.near e he e' he'⟩
    exact (Ptree.Tree.search_eq_some_iff h.ordered hc).mpr ⟨he, rfl⟩

theorem Mapped.isSectorMap (h : Mapped t m) : IsSectorMap t m := by
  constructor
  · intro id hid
    cases hfind : findSector t id with
    | some e =>
      obtain ⟨he, rfl⟩ := (h.findSector_some hid).mp hfind
      rw [(h.entries e).mp he]
      rfl
    | none =>
      cases hm : m id with
      | none => rfl
      | some v =>
        have := (h.findSector_some hid).mpr ⟨h.mem_of_some hm, rfl⟩
        rw [hfind] at this
        cases this
  · exact fun id hid e hfind => ((h.findSector_some hid).mp hfind).2
  · intro id
    have hnodup : (t.toList.filter (fun e => e.sectorid = id)).length ≤ 1 := by
      have hp : (t.toList.filter (fun e => e.sectorid = id)).Pairwise
          (fun x y => x.sectorid < y.sectorid) := List.Pairwise.filter _ h.ordered
      generalize hl : t.toList.filter (fun e => e.sectorid = id) = nodes at hp ⊢
      rcases nodes with _ | ⟨x, _ | ⟨y, rest⟩⟩
      · exact Nat.zero_le 1
      · exact Nat.le_refl 1
      · have hx : x ∈ t.toList.filter (fun e => e.sectorid = id) := by simp [hl]
        have hy : y ∈ t.toList.filter (fun e => e.sectorid = id) := by simp [hl]
        have hxy := (List.pairwise_cons.mp hp).1 y (by simp)
        simp only [List.mem_filter, decide_eq_true_eq] at hx hy
        omega
    split
    next hm =>
      rw [List.length_eq_zero_iff, List.filter_eq_nil_iff]
      intro e he hes
      have hes' : e.sectorid = id := by simpa using hes
      have := (h.entries e).mp he
      rw [hes', hm] at this
      cases this
    next hm =>
      obtain ⟨v, hv⟩ := Option.ne_none_iff_exists'.mp hm
      have hmem : (⟨id, v.1, v.2⟩ : SectorInlog) ∈
          t.toList.filter (fun e => e.sectorid = id) := by
        simp [h.mem_of_some hv]
      have := List.length_pos_of_mem hmem
      omega
  · exact h.ordered

end

/-! ## Runs -/

/-- The tree is the map after any changes, as long as no two sectors that are in it at the same
time are `2 ^ 31` or more apart. -/
theorem sector_map_near (ops : List SectorOp) (hops : ∀ op ∈ ops, op.Admitted)
    (hnear : SectorMap.empty.NearRun ops) :
    ∃ t, runSectorOps ops .nil = .ok t ∧ IsSectorMap t (ops.foldl SectorMap.apply .empty) := by
  obtain ⟨t, hrun, h⟩ := mapped_empty.run hops hnear
  exact ⟨t, hrun, h.isSectorMap⟩

/-- Sectors on both sides of `2 ^ 31`, one of them removed. -/
theorem sector_map_near_cut :
    ∃ t, runSectorOps [.set (2 ^ 31) 4096 (List.replicate 32 1), .set 7 8208 (List.replicate 32 2),
        .truncateDown 8, .set 9 12320 (List.replicate 32 3)] .nil = .ok t ∧
      IsSectorMap t ([.set (2 ^ 31) 4096 (List.replicate 32 1), .set 7 8208 (List.replicate 32 2),
        .truncateDown 8, .set 9 12320 (List.replicate 32 3)].foldl SectorMap.apply .empty) := by
  refine sector_map_near _ ?_ ?_
  · simp [SectorOp.Admitted, maxSectorid_eq]
  · refine ⟨?_, ?_, trivial, ?_, trivial⟩
    · intro id hid
      exact absurd rfl hid
    · intro id hid
      obtain rfl : id = 2 ^ 31 := by
        by_contra hne
        exact hid (Function.update_of_ne hne _ _)
      decide
    · intro id hid
      have hlt : id < 8 := by
        by_contra hge
        exact hid (by simp [SectorMap.apply, hge])
      omega

/-- The first sector and one behind `2 ^ 31` are in the wrong order. -/
theorem sector_map_wraps : ¬∀ ops : List SectorOp, (∀ op ∈ ops, op.Admitted) →
    ∃ t, runSectorOps ops .nil = .ok t ∧ IsSectorMap t (ops.foldl SectorMap.apply .empty) := by
  intro h
  obtain ⟨t, hrun, ht⟩ := h [.set 0 4096 (List.replicate 32 1),
    .set (2 ^ 31 + 1) 8208 (List.replicate 32 2)] (by simp [SectorOp.Admitted, maxSectorid_eq])
  have hlist : (runSectorOps [.set 0 4096 (List.replicate 32 1),
      .set (2 ^ 31 + 1) 8208 (List.replicate 32 2)] .nil).map (fun t => t.toList.map (·.sectorid))
      = .ok [2 ^ 31 + 1, 0] := by
    rfl
  rw [hrun] at hlist
  have hids : t.toList.map (·.sectorid) = [2 ^ 31 + 1, 0] := Except.ok.inj hlist
  have hasc : (t.toList.map (·.sectorid)).Pairwise (· < ·) :=
    List.pairwise_map.mpr ht.ascending
  rw [hids] at hasc
  exact absurd hasc (by decide)

end PcloudClient.FsCrypto
