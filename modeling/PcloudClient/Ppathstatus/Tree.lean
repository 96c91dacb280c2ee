/-
  Ppathstatus/Tree.lean --- a tree of `folder_tasks_t` with its cache of parents.

  `ppathstatus.c` has one such tree for the drive and one for each sync, with a copy of the
  functions for either; the copies differ in the table that is asked for a parent and in the size of
  the cache. The tree itself is kept as the table of its nodes.  The hash of the parent cache only
  says where an entry is looked for, so the cache is kept as its slots in the order of the lru list.
-/
import PcloudClient.Foundation.CountedForest

set_option autoImplicit false

namespace PcloudClient.Ppathstatus

open PcloudClient.Counted

/-- `psync_folderid_t`; `none` stands for `PSYNC_INVALID_FOLDERID`. -/
abbrev FolderId := Nat

/-- `parent_cache_entry_t` -/
structure ParentEntry where
  folderid : FolderId
  parentfolderid : FolderId
  deriving DecidableEq, Repr

/-- `folder_tasks` and the parent cache; a slot that is on `cache_free` is `none`. -/
structure TaskTree where
  tasks : Table FolderId
  cache : List (Option ParentEntry)

def PARENT_CACHE_SIZE : Nat := 128

def SYNC_PARENT_CACHE_SIZE : Nat := 64

def TaskTree.init (size : Nat) : TaskTree := ⟨.empty, List.replicate size none⟩

/-- Why a call does not return. -/
inductive Stop where
  | assertion
  | outOfFuel
  deriving DecidableEq, Repr

/-- The rows of `folder` or of `localfolder`: the parent of a folder. -/
abbrev Parents := FolderId → Option FolderId

/-- Does the slot hold the entry of the folder? -/
def holds (folderid : FolderId) (slot : Option ParentEntry) : Bool :=
  slot.any (·.folderid = folderid)

/-- `get_parent_folder`, `get_sync_parent_folder` -/
def getParentFolder (parents : Parents) (tr : TaskTree) (folderid : FolderId) :
    Option FolderId × TaskTree :=
  if folderid = 0 then (none, tr)
  else
    match tr.cache.find? (holds folderid) with
    | some slot =>
      (slot.map (·.parentfolderid),
        { tr with cache := tr.cache.eraseP (holds folderid) ++ [slot] })
    | none =>
      match parents folderid with
      | none => (none, tr)
      | some parent =>
        (some parent, { tr with cache := tr.cache.tail ++ [some ⟨folderid, parent⟩] })

/-- `psync_path_status_del_from_parent_cache`, `sync_del_from_parent_cache` -/
def delFromParentCache (folderid : FolderId) (tr : TaskTree) : TaskTree :=
  if tr.cache.any (holds folderid) then
    { tr with cache := none :: tr.cache.eraseP (holds folderid) }
  else tr

/-- `child_task_cnt--`, of a `uint32_t` -/
def decr (cnt : Nat) : Nat := if cnt = 0 then 2 ^ 32 - 1 else cnt - 1

/-- Count a child at the folder, `get_folder_tasks(folderid, 1)` and `child_task_cnt++`, and go on
with the folder's parent unless the folder had a node already. -/
def incrementUp (parents : Parents) : (fuel : Nat) → FolderId → TaskTree → Except Stop TaskTree
  | 0, _, _ => .error .outOfFuel
  | fuel + 1, folderid, tr =>
    let ft := (tr.tasks.get folderid).getD ⟨false, 0⟩
    let ft := { ft with cnt := ft.cnt + 1 }
    let tr := { tr with tasks := tr.tasks.set folderid ft }
    if ft.cnt > 1 ∨ ft.own then .ok tr
    else
      match getParentFolder parents tr folderid with
      | (none, tr) => .ok tr
      | (some parent, tr) => incrementUp parents fuel parent tr

/-- `while ((folderid=get_parent_folder(folderid))!=PSYNC_INVALID_FOLDERID)` around it -/
def incrementAbove (parents : Parents) (fuel : Nat) (folderid : FolderId) (tr : TaskTree) :
    Except Stop TaskTree :=
  match getParentFolder parents tr folderid with
  | (none, tr) => .ok tr
  | (some parent, tr) => incrementUp parents fuel parent tr

/-- Take a child off the count of the folder, `assert(ft)` and `child_task_cnt--`; a folder left
without tasks goes and the folder's parent is next.  One of the loops has
`assert(ft->child_task_cnt)` as well, which `checked` stands for. -/
def decrementUp (parents : Parents) (checked : Bool) :
    (fuel : Nat) → FolderId → TaskTree → Except Stop TaskTree
  | 0, _, _ => .error .outOfFuel
  | fuel + 1, folderid, tr =>
    match tr.tasks.get folderid with
    | none => .error .assertion
    | some ft =>
      if checked ∧ ft.cnt = 0 then .error .assertion
      else
        let ft := { ft with cnt := decr ft.cnt }
        if ft.cnt ≠ 0 ∨ ft.own then .ok { tr with tasks := tr.tasks.set folderid ft }
        else
          match getParentFolder parents { tr with tasks := tr.tasks.erase folderid } folderid with
          | (none, tr) => .ok tr
          | (some parent, tr) => decrementUp parents checked fuel parent tr

def decrementAbove (parents : Parents) (checked : Bool) (fuel : Nat) (folderid : FolderId)
    (tr : TaskTree) : Except Stop TaskTree :=
  match getParentFolder parents tr folderid with
  | (none, tr) => .ok tr
  | (some parent, tr) => decrementUp parents checked fuel parent tr

/-- The loop of `psync_path_status_folder_deleted` and `psync_path_status_sync_folder_deleted`, with
the value that `folderid` has after it. -/
def deletedUp (parents : Parents) : (fuel : Nat) → FolderId → TaskTree →
    Except Stop (Option FolderId × TaskTree)
  | 0, _, _ => .error .outOfFuel
  | fuel + 1, folderid, tr =>
    match getParentFolder parents tr folderid with
    | (none, tr) => .ok (none, tr)
    | (some parent, tr) =>
      match tr.tasks.get parent with
      | none => .error .assertion
      | some ft =>
        let ft := { ft with cnt := decr ft.cnt }
        if ft.cnt ≠ 0 ∨ ft.own then
          .ok (some parent, { tr with tasks := tr.tasks.set parent ft })
        else deletedUp parents fuel parent { tr with tasks := tr.tasks.erase parent }

/-! ## Calls that return -/

/-- The call returns with `P`, or its fuel, at most `bound`, was too little; no assertion fails. -/
def Ends {α : Type} (bound fuel : Nat) (r : Except Stop α) (P : α → Prop) : Prop :=
  match r with
  | .ok a => P a
  | .error .outOfFuel => fuel ≤ bound
  | .error .assertion => False

namespace Ends

variable {α β : Type} {bound bound' fuel fuel' : Nat} {r : Except Stop α} {P Q : α → Prop}

theorem mono (h : Ends bound fuel r P) (hfuel : fuel ≤ bound → fuel' ≤ bound')
    (hpost : ∀ a, P a → Q a) : Ends bound' fuel' r Q := by
  match r, h with
  | .ok a, h => exact hpost a h
  | .error .outOfFuel, h => exact hfuel h

theorem bind {f : α → Except Stop β} {R : β → Prop} (h : Ends bound fuel r P)
    (hf : ∀ a, P a → Ends bound fuel (f a) R) : Ends bound fuel (r >>= f) R := by
  match r, h with
  | .ok a, h => exact hf a h
  | .error .outOfFuel, h => exact h

theorem returns (h : Ends bound fuel r P) (hfuel : bound < fuel) : ∃ a, r = .ok a ∧ P a := by
  match r, h with
  | .ok a, h => exact ⟨a, rfl, h⟩
  | .error .outOfFuel, h => exact absurd (show fuel ≤ bound from h) (by omega)

end Ends

/-! ## The cache -/

/-- Folder 0 has no parent, whatever is in its row. -/
def parentOf (parents : Parents) (folderid : FolderId) : Option FolderId :=
  if folderid = 0 then none else parents folderid

/-- At most one slot holds the entry of a folder. -/
def Unique (cache : List (Option ParentEntry)) : Prop :=
  cache.Pairwise fun a b => ∀ folderid, holds folderid a = true → holds folderid b = false

/-- The entries of the folders in question are those of the table. -/
structure CacheOk (known : FolderId → Prop) (parents : Parents)
    (cache : List (Option ParentEntry)) : Prop where
  unique : Unique cache
  entry : ∀ e, some e ∈ cache → known e.folderid → parents e.folderid = some e.parentfolderid

section Cache

variable {known : FolderId → Prop} {parents : Parents} {tr : TaskTree} {folderid : FolderId}
  {cache : List (Option ParentEntry)} {slot : Option ParentEntry}

theorem holds_iff : holds folderid slot = true ↔ ∃ e, slot = some e ∧ e.folderid = folderid := by
  simp [holds, Option.any_eq_true]

/-- The slot that a search finds comes apart from the others. -/
theorem perm_eraseP (h : cache.find? (holds folderid) = some slot) :
    (slot :: cache.eraseP (holds folderid)).Perm cache := by
  obtain ⟨hslot, before, after, rfl, hbefore⟩ := List.find?_eq_some_iff_append.mp h
  rw [List.eraseP_append_right _ (by simpa using hbefore), List.eraseP_cons_of_pos hslot]
  exact List.perm_middle.symm

theorem Unique.perm {cache' : List (Option ParentEntry)} (h : Unique cache)
    (hperm : cache.Perm cache') : Unique cache' := by
  refine (hperm.pairwise_iff fun {a b} hab f hb => ?_).mp h
  by_contra hne
  exact absurd (hab f (by simpa using hne)) (by simp [hb])

/-- Once an entry is taken out there is no other of the folder. -/
theorem Unique.eraseP (h : Unique cache) (hfind : cache.find? (holds folderid) = some slot) :
    Unique (cache.eraseP (holds folderid)) ∧
      ∀ b ∈ cache.eraseP (holds folderid), holds folderid b = false := by
  have hcons := h.perm (perm_eraseP hfind).symm
  rw [Unique, List.pairwise_cons] at hcons
  exact ⟨hcons.2, fun b hb => hcons.1 b hb folderid (List.find?_some hfind)⟩

theorem cacheOk_init (known : FolderId → Prop) (parents : Parents) (size : Nat) :
    CacheOk known parents (TaskTree.init size).cache where
  unique := List.pairwise_replicate.mpr (.inr fun _ h => by simp [holds] at h)
  entry := fun e he => nomatch List.eq_of_mem_replicate he

/-- A lookup answers with the parent of the table and leaves the nodes alone. -/
theorem getParentFolder_spec (tr : TaskTree) (h : CacheOk known parents tr.cache)
    (hknown : known folderid) :
    ∃ tr', getParentFolder parents tr folderid = (parentOf parents folderid, tr') ∧
      tr'.tasks = tr.tasks ∧ CacheOk known parents tr'.cache := by
  unfold getParentFolder parentOf
  by_cases hzero : folderid = 0
  · exact ⟨tr, by simp [hzero], rfl, h⟩
  simp only [if_neg hzero]
  cases hfind : tr.cache.find? (holds folderid) with
  | some slot =>
    obtain ⟨e, rfl, he⟩ := holds_iff.mp (List.find?_some hfind)
    have hparent := h.entry e (List.mem_of_find?_eq_some hfind) (he ▸ hknown)
    have hperm : (tr.cache.eraseP (holds folderid) ++ [some e]).Perm tr.cache :=
      List.perm_append_comm.trans (perm_eraseP hfind)
    refine ⟨{ tr with cache := tr.cache.eraseP (holds folderid) ++ [some e] }, ?_, rfl, ?_, ?_⟩
    · rw [← he, hparent]
      rfl
    · exact h.unique.perm hperm.symm
    · exact fun e' he' => h.entry e' (hperm.subset he')
  | none =>
    cases hrow : parents folderid with
    | none => exact ⟨tr, rfl, rfl, h⟩
    | some parent =>
      refine ⟨{ tr with cache := tr.cache.tail ++ [some ⟨folderid, parent⟩] }, rfl, rfl, ?_, ?_⟩
      · refine List.pairwise_append.mpr ⟨h.unique.sublist (List.tail_sublist _),
          List.pairwise_singleton .., fun a ha b hb f hf => ?_⟩
        obtain rfl := List.mem_singleton.mp hb
        by_contra hne
        -- the new entry is that of `folderid`, which no other slot holds
        have hf' : folderid = f := by simpa [holds] using hne
        exact List.find?_eq_none.mp hfind a (List.mem_of_mem_tail ha) (hf' ▸ hf)
      · intro e' he'
        rcases List.mem_append.mp he' with hold | hnew
        · exact h.entry e' (List.mem_of_mem_tail hold)
        · obtain rfl : e' = ⟨folderid, parent⟩ := by simpa using hnew
          exact fun _ => hrow

/-- An entry taken out of the cache leaves the others. -/
theorem Unique.delFromParentCache (h : Unique tr.cache) (folderid : FolderId) :
    Unique (delFromParentCache folderid tr).cache ∧
      ∀ e, some e ∈ (delFromParentCache folderid tr).cache →
        some e ∈ tr.cache ∧ e.folderid ≠ folderid := by
  unfold Ppathstatus.delFromParentCache
  split
  · next hany =>
    obtain ⟨slot, hslot⟩ : ∃ slot, tr.cache.find? (holds folderid) = some slot :=
      Option.isSome_iff_exists.mp (by rwa [List.find?_isSome, ← List.any_eq_true])
    obtain ⟨hunique, hother⟩ := h.eraseP hslot
    refine ⟨List.pairwise_cons.mpr ⟨fun _ _ _ hnone => by simp [holds] at hnone, hunique⟩, ?_⟩
    intro e he
    have he : some e ∈ tr.cache.eraseP (holds folderid) := by simpa using he
    refine ⟨List.mem_of_mem_eraseP he, fun heq => ?_⟩
    simpa [holds, heq] using hother _ he
  · next hany =>
    refine ⟨h, fun e he => ⟨he, fun heq => ?_⟩⟩
    exact hany (List.any_eq_true.mpr ⟨some e, he, by simp [holds, heq]⟩)

/-- The cache may then be asked about other rows, if those of the other folders are the same. -/
theorem CacheOk.delFromParentCache {known' : FolderId → Prop} {parents' : Parents}
    (h : CacheOk known parents tr.cache)
    (hrows : ∀ f, f ≠ folderid → known' f → known f ∧ parents' f = parents f) :
    CacheOk known' parents' (delFromParentCache folderid tr).cache where
  unique := (h.unique.delFromParentCache folderid).1
  entry := by
    intro e he hknown
    obtain ⟨hmem, hne⟩ := (h.unique.delFromParentCache folderid).2 e he
    obtain ⟨hk, hrow⟩ := hrows _ hne hknown
    rw [hrow]
    exact h.entry e hmem hk

@[simp]
theorem tasks_delFromParentCache (folderid : FolderId) (tr : TaskTree) :
    (delFromParentCache folderid tr).tasks = tr.tasks := by
  unfold delFromParentCache
  split <;> rfl

end Cache

/-! ## The two ways up -/

/-- The folder `x` is `f` or above it. -/
def Above (parents : Parents) (f x : FolderId) : Prop :=
  Relation.ReflTransGen (fun c p => parentOf parents c = some p) f x

/-- What holds of a folder and of the parents of folders it holds of. -/
theorem Above.rec_closed {parents : Parents} {f x : FolderId} (h : Above parents f x)
    {R : FolderId → Prop} (hf : R f) (hclosed : ∀ c p, R c → parentOf parents c = some p → R p) :
    R x := by
  induction h with
  | refl => exact hf
  | tail _ hparent ih => exact hclosed _ _ ih hparent

section Up

variable {known : FolderId → Prop} {parents : Parents} {up : FolderId → Option FolderId}
  {extra : Option FolderId} {rank : FolderId → Nat}

/-- The way up counts the child that was missing.  Only folders without a node are passed, and of
these the table knows the parents at which they would be counted. -/
theorem incrementUp_spec
    (hrank : ∀ f p, parentOf parents f = some p → rank p < rank f)
    (hclosed : ∀ f p, known f → parentOf parents f = some p → known p) (fuel : Nat) :
    ∀ (folderid : FolderId) (tr : TaskTree), known folderid →
      CacheOk known parents tr.cache → Balanced up (some folderid) extra tr.tasks →
      (∀ x, ¬ tr.tasks.has x → up x = parentOf parents x) →
      Ends (rank folderid) fuel (incrementUp parents fuel folderid tr) fun tr' =>
        CacheOk known parents tr'.cache ∧ Balanced up none extra tr'.tasks ∧
        (∀ x, tr.tasks.has x → tr'.tasks.has x) ∧
        (∀ x, tr'.tasks.has x → tr.tasks.has x ∨ Above parents folderid x) ∧
        tr'.tasks.own = tr.tasks.own := by
  induction fuel with
  | zero => exact fun folderid tr _ _ _ _ => Nat.zero_le _
  | succ fuel ih =>
    intro folderid tr hknown hcache hbal hup
    unfold incrementUp
    cases hget : tr.tasks.get folderid with
    | some ft =>
      have hstop : ft.cnt + 1 > 1 ∨ ft.own = true := by
        rcases hbal.live folderid ft hget with hown | hcnt
        · exact .inr hown
        · exact .inl (by omega)
      simp only [Option.getD_some, if_pos hstop]
      exact ⟨hcache, hbal.countChild hget, fun x hx => Table.has_set.mpr (.inr hx),
        fun x hx => (Table.has_set.mp hx).elim (fun heq => .inr (heq ▸ .refl)) .inl,
        funext fun x => Table.own_set_of_get hget _ x⟩
    | none =>
      have hnew := hbal.countChild_new hget
      simp only [Option.getD_none, Nat.zero_add]
      rw [if_neg (by simp)]
      obtain ⟨tr₁, hlookup, htasks, hcache₁⟩ := getParentFolder_spec
        { tr with tasks := tr.tasks.set folderid ⟨false, 1⟩ } hcache hknown
      rw [hlookup]
      dsimp only at htasks
      have hgrows : ∀ x, tr.tasks.has x → tr₁.tasks.has x := fun x hx => by
        rw [htasks]
        exact Table.has_set.mpr (.inr hx)
      have hnodes : ∀ x, tr₁.tasks.has x → tr.tasks.has x ∨ Above parents folderid x :=
        fun x hx => by
          rw [htasks] at hx
          exact (Table.has_set.mp hx).elim (fun heq => .inr (heq ▸ .refl)) .inl
      have hown : tr₁.tasks.own = tr.tasks.own := funext fun x => by
        rw [htasks]
        exact Table.own_set_new hget rfl x
      rw [hup _ fun hhas => hhas hget, ← htasks] at hnew
      cases hparent : parentOf parents folderid with
      | none => exact ⟨hcache₁, hparent ▸ hnew, hgrows, hnodes, hown⟩
      | some parent =>
        rw [hparent] at hnew
        have hlt := hrank folderid parent hparent
        refine (ih parent tr₁ (hclosed _ _ hknown hparent) hcache₁ hnew
          (fun x hx => hup x fun hhas => hx (hgrows x hhas))).mono (by omega) ?_
        rintro tr₂ ⟨hcache₂, hbal₂, hgrows₂, hnodes₂, hown₂⟩
        exact ⟨hcache₂, hbal₂, fun x hx => hgrows₂ x (hgrows x hx),
          fun x hx => (hnodes₂ x hx).elim (hnodes x) fun habove =>
            .inr (Relation.ReflTransGen.head hparent habove), hown₂.trans hown⟩

/-- The way up takes off the child that is counted too much.  Only folders left without a mark in
or below them are passed. -/
theorem decrementUp_spec (checked : Bool)
    (hrank : ∀ f p, parentOf parents f = some p → rank p < rank f)
    (hclosed : ∀ f p, known f → parentOf parents f = some p → known p) (fuel : Nat) :
    ∀ (folderid : FolderId) (tr : TaskTree), known folderid →
      CacheOk known parents tr.cache → Balanced up none (some folderid) tr.tasks →
      (∀ x, ¬ Balanced.Busy up tr.tasks.own x → up x = parentOf parents x) →
      Ends (rank folderid) fuel (decrementUp parents checked fuel folderid tr) fun tr' =>
        CacheOk known parents tr'.cache ∧ Balanced up none none tr'.tasks ∧
        (∀ x, tr'.tasks.has x → tr.tasks.has x) ∧ tr'.tasks.own = tr.tasks.own := by
  induction fuel with
  | zero => exact fun folderid tr _ _ _ _ => Nat.zero_le _
  | succ fuel ih =>
    intro folderid tr hknown hcache hbal hup
    obtain ⟨ft, hget, hpos⟩ := hbal.exists_over
    unfold decrementUp
    have hcounted : ¬ (checked = true ∧ ft.cnt = 0) := fun hzero => by omega
    simp only [hget, if_neg hcounted]
    have hdecr : decr ft.cnt = ft.cnt - 1 := by rw [decr, if_neg (by omega)]
    simp only [hdecr]
    by_cases hstop : ft.cnt - 1 ≠ 0 ∨ ft.own = true
    · rw [if_pos hstop]
      refine ⟨hcache, hbal.uncountChild hget ?_, ?_, ?_⟩
      · rcases hstop with hcnt | hown
        · exact .inr (by omega)
        · exact .inl hown
      · exact fun x hx => (Table.has_set.mp hx).elim (fun heq => heq ▸ Table.has_of_get hget) id
      · exact funext fun x => Table.own_set_of_get hget _ x
    · rw [if_neg hstop]
      push Not at hstop
      have hgone := hbal.uncountChild_last hget hstop.1
      have hown : (tr.tasks.erase folderid).own = tr.tasks.own :=
        funext fun x => Table.own_erase_of_get hget (by simpa using hstop.2) x
      -- a mark below the folder would still give it a node
      have hidle : ¬ Balanced.Busy up tr.tasks.own folderid := fun hbusy =>
        (Table.has_erase.mp (hgone.has_of_busy (hown ▸ hbusy))).1 rfl
      obtain ⟨tr₁, hlookup, htasks, hcache₁⟩ := getParentFolder_spec
        { tr with tasks := tr.tasks.erase folderid } hcache hknown
      rw [hlookup]
      dsimp only at htasks
      have hnodes : ∀ x, tr₁.tasks.has x → tr.tasks.has x := fun x hx => by
        rw [htasks] at hx
        exact (Table.has_erase.mp hx).2
      rw [hup _ hidle, ← htasks] at hgone
      rw [← htasks] at hown
      cases hparent : parentOf parents folderid with
      | none => exact ⟨hcache₁, hparent ▸ hgone, hnodes, hown⟩
      | some parent =>
        rw [hparent] at hgone
        have hlt := hrank folderid parent hparent
        refine (ih parent tr₁ (hclosed _ _ hknown hparent) hcache₁ hgone
          (fun x hx => hup x (hown ▸ hx))).mono (by omega) ?_
        rintro tr₂ ⟨hcache₂, hbal₂, hnodes₂, hown₂⟩
        exact ⟨hcache₂, hbal₂, fun x hx => hnodes x (hnodes₂ x hx), hown₂.trans hown⟩

/-- The same from a folder whose parent counts too few. -/
theorem incrementAbove_spec
    (hrank : ∀ f p, parentOf parents f = some p → rank p < rank f)
    (hclosed : ∀ f p, known f → parentOf parents f = some p → known p) (fuel : Nat)
    (folderid : FolderId) (tr : TaskTree) (hknown : known folderid)
    (hcache : CacheOk known parents tr.cache)
    (hbal : Balanced up (parentOf parents folderid) extra tr.tasks)
    (hup : ∀ x, ¬ tr.tasks.has x → up x = parentOf parents x) :
    Ends (rank folderid) fuel (incrementAbove parents fuel folderid tr) fun tr' =>
      CacheOk known parents tr'.cache ∧ Balanced up none extra tr'.tasks ∧
      (∀ x, tr.tasks.has x → tr'.tasks.has x) ∧
      (∀ x, tr'.tasks.has x → tr.tasks.has x ∨ Above parents folderid x) ∧
      tr'.tasks.own = tr.tasks.own := by
  unfold incrementAbove
  obtain ⟨tr₁, hlookup, htasks, hcache₁⟩ := getParentFolder_spec tr hcache hknown
  rw [hlookup, ← htasks]
  rw [← htasks] at hbal hup
  cases hparent : parentOf parents folderid with
  | none => exact ⟨hcache₁, hparent ▸ hbal, fun _ hx => hx, fun _ hx => .inl hx, rfl⟩
  | some parent =>
    rw [hparent] at hbal
    have hlt := hrank folderid parent hparent
    refine (incrementUp_spec hrank hclosed fuel parent tr₁ (hclosed _ _ hknown hparent) hcache₁ hbal
      hup).mono (by omega) ?_
    rintro tr₂ ⟨hcache₂, hbal₂, hgrows, hnodes, hown⟩
    exact ⟨hcache₂, hbal₂, hgrows, fun x hx => (hnodes x hx).imp_right
      (Relation.ReflTransGen.head hparent), hown⟩

/-- The same from a folder whose parent counts too many. -/
theorem decrementAbove_spec (checked : Bool)
    (hrank : ∀ f p, parentOf parents f = some p → rank p < rank f)
    (hclosed : ∀ f p, known f → parentOf parents f = some p → known p) (fuel : Nat)
    (folderid : FolderId) (tr : TaskTree) (hknown : known folderid)
    (hcache : CacheOk known parents tr.cache)
    (hbal : Balanced up none (parentOf parents folderid) tr.tasks)
    (hup : ∀ x, ¬ Balanced.Busy up tr.tasks.own x → up x = parentOf parents x) :
    Ends (rank folderid) fuel (decrementAbove parents checked fuel folderid tr) fun tr' =>
      CacheOk known parents tr'.cache ∧ Balanced up none none tr'.tasks ∧
      (∀ x, tr'.tasks.has x → tr.tasks.has x) ∧ tr'.tasks.own = tr.tasks.own := by
  unfold decrementAbove
  obtain ⟨tr₁, hlookup, htasks, hcache₁⟩ := getParentFolder_spec tr hcache hknown
  rw [hlookup, ← htasks]
  rw [← htasks] at hbal hup
  cases hparent : parentOf parents folderid with
  | none => exact ⟨hcache₁, hparent ▸ hbal, fun _ hx => hx, rfl⟩
  | some parent =>
    rw [hparent] at hbal
    have hlt := hrank folderid parent hparent
    exact (decrementUp_spec checked hrank hclosed fuel parent tr₁
      (hclosed _ _ hknown hparent) hcache₁ hbal
      hup).mono (by omega) fun _ h => h

end Up

end PcloudClient.Ppathstatus
