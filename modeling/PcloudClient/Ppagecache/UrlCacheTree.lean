/-
  Ppagecache/UrlCacheTree.lean --- the tree of URLs as long as its searches are guided, and what
  holds of one entry.

  The hashes are 64-bit numbers on a circle; an order of them is that of a circle cut at a `base`.
-/
import PcloudClient.Foundation.Census
import PcloudClient.Ppagecache.UrlCache

set_option autoImplicit false

namespace PcloudClient.Ppagecache.UrlCache

variable {hash : Hash} {t : Ptree.Tree Node} {n : Node} {u v : Nat}

/-! ## The tree -/

def position (base hash : Hash) : Nat := (hash - base).toNat

/-- The nodes stand in the order of the circle from some point on, and at each node on its way the
sign of the difference leads to the side of the hash in that order. -/
def Guided (hash : Hash) (t : Ptree.Tree Node) : Prop :=
  ∃ base : Hash, Ptree.Tree.Sorted (fun n : Node => (position base n.hash : Int)) t ∧
    Ptree.Tree.Guides (diff hash) (fun n : Node => (position base n.hash : Int))
      (position base hash) false t

structure TreeOk (t : Ptree.Tree Node) : Prop where
  hashes : (t.toList.map (·.hash)).Nodup
  urls : (t.toList.map (·.urls)).Nodup

/-- The entry is on the tree. -/
def OnTree (t : Ptree.Tree Node) (u : Nat) : Prop := ∃ n ∈ t.toList, n.urls = u

theorem position_injective {base hash' : Hash} (h : position base hash = position base hash') :
    hash = hash' := by
  have hsub : hash - base = hash' - base := BitVec.eq_of_toNat_eq h
  have hadd := congrArg (· + base) hsub
  simpa using hadd

theorem TreeOk.nil : TreeOk .nil := ⟨List.nodup_nil, List.nodup_nil⟩

/-- A guided search finds an entry just if there is one with the hash. -/
theorem Guided.search (h : Guided hash t) :
    (t.searchPos (diff hash)).isSome ↔ ∃ n ∈ t.toList, n.hash = hash := by
  obtain ⟨base, hsorted, hguides⟩ := h
  have hnone := Ptree.Tree.searchPos_none_iff_key hsorted hguides
  rw [← not_iff_not, Option.not_isSome_iff_eq_none, hnone]
  constructor
  · rintro hno ⟨n, hn, rfl⟩
    exact hno n hn rfl
  · intro hno n hn heq
    exact hno ⟨n, hn, position_injective (Int.ofNat_inj.mp heq)⟩

/-- What a search finds has the hash. -/
theorem searchPos_hash {k : Nat} (h : t.searchPos (diff hash) = some k) :
    ∃ n, t.toList[k]? = some n ∧ n ∈ t.toList ∧ n.hash = hash := by
  obtain ⟨a, n, b, hsplit, rfl, hzero⟩ := Ptree.Tree.searchPos_some h
  refine ⟨n, ?_, by rw [hsplit]; simp, ?_⟩
  · rw [hsplit, List.getElem?_append_right (Nat.le_refl _), Nat.sub_self]
    rfl
  · have hint : (hash - n.hash).toInt = 0 := hzero
    have hsub : hash - n.hash = 0 := BitVec.eq_of_toInt_eq (by rw [hint]; rfl)
    have hadd := congrArg (· + n.hash) hsub
    simpa using hadd.symm

theorem TreeOk.add (h : TreeOk t) (hguided : Guided hash t)
    (hno : t.searchPos (diff hash) = none) (hu : ¬ OnTree t u) :
    TreeOk (t.addAt ⟨u, hash⟩ (t.place (diff hash) false)) ∧
      ∀ v, OnTree (t.addAt ⟨u, hash⟩ (t.place (diff hash) false)) v ↔ v = u ∨ OnTree t v := by
  have hfresh : ¬ ∃ n ∈ t.toList, n.hash = hash := by
    rw [← hguided.search, hno]
    simp
  obtain ⟨base, hsorted, hguides⟩ := hguided
  obtain ⟨-, hperm⟩ := @Ptree.Tree.Sorted.addAt_place _ _ _ _ _ ⟨u, hash⟩ hsorted hguides
  refine ⟨⟨?_, ?_⟩, fun v => ?_⟩
  · rw [(hperm.map _).nodup_iff, List.map_cons, List.nodup_cons]
    refine ⟨fun hmem => hfresh ?_, h.hashes⟩
    obtain ⟨n, hn, heq⟩ := List.mem_map.mp hmem
    exact ⟨n, hn, heq⟩
  · rw [(hperm.map _).nodup_iff, List.map_cons, List.nodup_cons]
    refine ⟨fun hmem => hu ?_, h.urls⟩
    obtain ⟨n, hn, heq⟩ := List.mem_map.mp hmem
    exact ⟨n, hn, heq⟩
  · unfold OnTree
    constructor
    · rintro ⟨n, hn, rfl⟩
      rcases List.mem_cons.mp (hperm.mem_iff.mp hn) with rfl | hn
      · exact .inl rfl
      · exact .inr ⟨n, hn, rfl⟩
    · rintro (rfl | ⟨n, hn, rfl⟩)
      · exact ⟨⟨v, hash⟩, hperm.mem_iff.mpr (List.mem_cons_self ..), rfl⟩
      · exact ⟨n, hperm.mem_iff.mpr (List.mem_cons_of_mem _ hn), rfl⟩

theorem TreeOk.del (h : TreeOk t) (hu : OnTree t u) :
    TreeOk (delNode t u) ∧ ∀ v, OnTree (delNode t u) v ↔ v ≠ u ∧ OnTree t v := by
  unfold delNode
  cases hfind : t.toList.findIdx? fun n => decide (n.urls = u) with
  | none =>
    obtain ⟨n, hn, rfl⟩ := hu
    have hno := List.findIdx?_eq_none_iff.mp hfind n hn
    simp at hno
  | some i =>
    obtain ⟨hlt, hat, -⟩ := List.findIdx?_eq_some_iff_getElem.mp hfind
    obtain ⟨a, m, b, hsplit, rfl, hm⟩ : ∃ a m b, t.toList = a ++ m :: b ∧ a.length = i ∧
        m.urls = u := by
      refine ⟨t.toList.take i, t.toList[i], t.toList.drop (i + 1), ?_, ?_, by simpa using hat⟩
      · rw [← List.drop_eq_getElem_cons hlt, List.take_append_drop]
      · rw [List.length_take]
        omega
    have hlist := Ptree.Tree.toList_delAt hsplit
    have hsub : (t.delAt a.length).toList.Sublist t.toList := by
      rw [hlist, hsplit]
      exact (List.sublist_cons_self m b).append_left a
    refine ⟨⟨(hsub.map _).nodup h.hashes, (hsub.map _).nodup h.urls⟩, ?_⟩
    intro v
    have hurls := h.urls
    rw [hsplit, List.map_append, List.map_cons, List.nodup_middle, List.nodup_cons,
      ← List.map_append] at hurls
    unfold OnTree
    simp only [hlist]
    constructor
    · rintro ⟨n, hn, rfl⟩
      refine ⟨?_, n, ?_, rfl⟩
      · rintro rfl
        exact hurls.1 (by rw [hm]; exact List.mem_map_of_mem hn)
      · rw [hsplit]
        rcases List.mem_append.mp hn with hn | hn
        · exact List.mem_append_left _ hn
        · exact List.mem_append_right _ (List.mem_cons_of_mem _ hn)
    · rintro ⟨hv, n, hn, rfl⟩
      rw [hsplit] at hn
      rcases List.mem_append.mp hn with hn | hn
      · exact ⟨n, List.mem_append_left _ hn, rfl⟩
      · rcases List.mem_cons.mp hn with rfl | hn
        · exact absurd hm hv
        · exact ⟨n, List.mem_append_right _ hn, rfl⟩

/-! ## One entry -/

/-- The thread has the entry or waits for it. -/
def Place.holds (u : Nat) : Place → Bool
  | .waits v => v = u
  | .uses v => v = u
  | _ => false

def Place.fetching (u : Nat) : Place → Bool
  | .fetches v => v = u
  | _ => false

structure EntryOk (s : State) (u : Nat) : Prop where
  counted : Census (fun th : Thread => th.place.holds u) s.threads
    (if s.freed u = 0 then (s.entries u).refcnt else 0)
  fetched : Census (fun th : Thread => th.place.fetching u) s.threads
    (if s.freed u = 0 ∧ (s.entries u).status = .loading then 1 else 0)
  onTree : OnTree s.tree u ↔ s.freed u = 0 ∧ (s.entries u).status ≠ .bad
  used : ∀ i, (s.threads i).place = .uses u → (s.entries u).status ≠ .loading
  kept : u < s.next → s.freed u = 0 → (s.entries u).status = .loading ∨ 0 < (s.entries u).refcnt
  once : s.freed u ≤ 1
  unborn : s.next ≤ u → s.freed u = 0 ∧ s.entries u = ⟨0, .bad⟩

variable {s s' : State} {i : Nat} {th : Thread}

theorem EntryOk.live (h : EntryOk s u) (hi : (s.threads i).place.holds u = true) :
    s.freed u = 0 ∧ 0 < (s.entries u).refcnt := by
  have hpos := h.counted.pos hi
  split at hpos
  · next hfreed => exact ⟨hfreed, hpos⟩
  · omega

theorem EntryOk.loading (h : EntryOk s u) (hi : (s.threads i).place = .fetches u) :
    s.freed u = 0 ∧ (s.entries u).status = .loading := by
  have hpos := h.fetched.pos (i := i) (by simp [hi, Place.fetching])
  split at hpos
  · assumption
  · omega

theorem EntryOk.born (h : EntryOk s u) (hentry : s.entries u ≠ ⟨0, .bad⟩) : u < s.next := by
  by_contra hno
  exact hentry (h.unborn (by omega)).2

/-- An entry that stays as it is, while a thread goes from one use of it to the same use. -/
theorem EntryOk.frame (h : EntryOk s v)
    (hthreads : s'.threads = Function.update s.threads i th)
    (hentry : s'.entries v = s.entries v) (hfreed : s'.freed v = s.freed v)
    (hnext : s'.next ≤ v ↔ s.next ≤ v) (htree : OnTree s'.tree v ↔ OnTree s.tree v)
    (hholds : th.place.holds v = (s.threads i).place.holds v)
    (hfetching : th.place.fetching v = (s.threads i).place.fetching v)
    (huses : th.place = .uses v → (s.entries v).status ≠ .loading) : EntryOk s' v where
  counted := by
    rw [hthreads, hentry, hfreed]
    exact h.counted.update i th (by rw [hholds])
  fetched := by
    rw [hthreads, hentry, hfreed]
    exact h.fetched.update i th (by rw [hfetching])
  onTree := by
    rw [htree, hentry, hfreed]
    exact h.onTree
  used j hj := by
    rw [hentry]
    rw [hthreads] at hj
    by_cases hji : j = i
    · subst hji
      rw [Function.update_self] at hj
      exact huses hj
    · rw [Function.update_of_ne hji] at hj
      exact h.used j hj
  kept := by
    rw [hentry, hfreed]
    intro hlt
    exact h.kept (by omega)
  once := by
    rw [hfreed]
    exact h.once
  unborn := by
    rw [hentry, hfreed, hnext]
    exact h.unborn

/-! ## All entries -/

/-- The entry that a thread has to do with. -/
def Place.entry : Place → Option Nat
  | .waits u => some u
  | .fetches u => some u
  | .uses u => some u
  | _ => none

theorem Place.holds_false {p : Place} (h : p.entry ≠ some v) : p.holds v = false := by
  cases p <;> simp_all [Place.entry, Place.holds]

theorem Place.fetching_false {p : Place} (h : p.entry ≠ some v) : p.fetching v = false := by
  cases p <;> simp_all [Place.entry, Place.fetching]

theorem Place.uses_false {p : Place} (h : p.entry ≠ some v) : p ≠ .uses v := by
  rintro rfl
  exact h rfl

theorem Place.entry_of_holds {p : Place} (h : p.holds u = true) : p.entry = some u := by
  cases p <;> simp_all [Place.entry, Place.holds]

theorem Place.fetching_of_holds {p : Place} (h : p.holds u = true) : p.fetching u = false := by
  cases p <;> simp_all [Place.fetching, Place.holds]

/-- A thread that was given an entry has it or has released it. -/
def Thread.Balanced (th : Thread) : Prop :=
  th.gets = th.releases + (match th.place with | .uses _ => 1 | _ => 0)

structure Inv (s : State) : Prop where
  tree : TreeOk s.tree
  entry : ∀ u, EntryOk s u
  balanced : ∀ i, (s.threads i).Balanced

theorem Inv.init : Inv .init where
  tree := .nil
  entry u :=
    { counted := Census.of_none fun _ => rfl
      fetched := Census.of_none fun _ => rfl
      onTree := by simp [OnTree, State.init, Ptree.Tree.toList]
      used := nofun
      kept := nofun
      once := Nat.zero_le 1
      unborn := fun _ => ⟨rfl, rfl⟩ }
  balanced _ := rfl

/-- One thread and one entry change. -/
structure Changes (s s' : State) (i u : Nat) (th : Thread) (e : Urls) (f : Nat) : Prop where
  threads : s'.threads = Function.update s.threads i th
  entries : s'.entries = Function.update s.entries u e
  freed : s'.freed = Function.update s.freed u f
  next : ∀ v, v ≠ u → (s'.next ≤ v ↔ s.next ≤ v)
  onTree : ∀ v, v ≠ u → (OnTree s'.tree v ↔ OnTree s.tree v)
  was : ∀ v, v ≠ u → (s.threads i).place.entry ≠ some v
  is : ∀ v, v ≠ u → th.place.entry ≠ some v

variable {e : Urls} {f : Nat}

theorem balanced_update (h : Inv s) (hthreads : s'.threads = Function.update s.threads i th)
    (hth : th.Balanced) (j : Nat) : (s'.threads j).Balanced := by
  rw [hthreads]
  by_cases hji : j = i
  · subst hji
    rw [Function.update_self]
    exact hth
  · rw [Function.update_of_ne hji]
    exact h.balanced j

/-- Only the changed entry is to be looked at. -/
theorem Changes.inv (hc : Changes s s' i u th e f) (h : Inv s) (htree : TreeOk s'.tree)
    (hth : th.Balanced) (hentry : EntryOk s' u) : Inv s' where
  tree := htree
  entry v := by
    by_cases hv : v = u
    · exact hv ▸ hentry
    · exact (h.entry v).frame hc.threads (by rw [hc.entries, Function.update_of_ne hv])
        (by rw [hc.freed, Function.update_of_ne hv]) (hc.next v hv) (hc.onTree v hv)
        (by rw [Place.holds_false (hc.was v hv), Place.holds_false (hc.is v hv)])
        (by rw [Place.fetching_false (hc.was v hv), Place.fetching_false (hc.is v hv)])
        (fun hp => absurd hp (Place.uses_false (hc.is v hv)))
  balanced := balanced_update h hc.threads hth

/-- The changed entry, where it is alive before. -/
theorem Changes.entryOk (hc : Changes s s' i u th e f) (h : EntryOk s u) (hlive : s.freed u = 0)
    (hlt : u < s'.next) (hf : f ≤ 1)
    (hcount : (s.entries u).refcnt + (th.place.holds u).toNat
      = (if f = 0 then e.refcnt else 0) + ((s.threads i).place.holds u).toNat)
    (hfetch : (if (s.entries u).status = .loading then 1 else 0) + (th.place.fetching u).toNat
      = (if f = 0 ∧ e.status = .loading then 1 else 0) + ((s.threads i).place.fetching u).toNat)
    (htree : OnTree s'.tree u ↔ f = 0 ∧ e.status ≠ .bad)
    (hused : e.status = .loading →
      th.place ≠ .uses u ∧ ((s.entries u).status = .loading ∨ s.next ≤ u))
    (hkept : f = 0 → e.status = .loading ∨ 0 < e.refcnt) : EntryOk s' u where
  counted := by
    rw [hc.threads, hc.entries, hc.freed, Function.update_self, Function.update_self]
    refine h.counted.update i th ?_
    rw [if_pos hlive]
    exact hcount
  fetched := by
    rw [hc.threads, hc.entries, hc.freed, Function.update_self, Function.update_self]
    refine h.fetched.update i th ?_
    simp only [hlive, true_and]
    exact hfetch
  onTree := by
    rw [hc.entries, hc.freed, Function.update_self, Function.update_self]
    exact htree
  used j hj hload := by
    rw [hc.entries, Function.update_self] at hload
    obtain ⟨hplace, hwas⟩ := hused hload
    rw [hc.threads] at hj
    by_cases hji : j = i
    · subst hji
      rw [Function.update_self] at hj
      exact hplace hj
    · rw [Function.update_of_ne hji] at hj
      rcases hwas with hwas | hwas
      · exact h.used j hj hwas
      · have hpos := (h.live (i := j) (by simp [hj, Place.holds])).2
        rw [(h.unborn hwas).2] at hpos
        exact absurd hpos (Nat.lt_irrefl 0)
  kept _ hfreed := by
    rw [hc.freed, Function.update_self] at hfreed
    rw [hc.entries, Function.update_self]
    exact hkept hfreed
  once := by
    rw [hc.freed, Function.update_self]
    exact hf
  unborn hle := by omega

end PcloudClient.Ppagecache.UrlCache
