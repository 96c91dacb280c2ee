/-
  Ppagecache/ReadEncryptedProofs.lean --- what an encrypted read waits for and checks.
-/
import PcloudClient.Ppagecache.ReadEncrypted

set_option autoImplicit false

namespace PcloudClient.Ppagecache

open PcloudClient.Pfs (PSYNC_FS_PAGE_SIZE)
open PcloudClient.FsCrypto (Offsets AuthSectorOff getAuthSectorOff offsetsByPlainsize
  hashTreeSectors dataSectoridBySectorid authSectorWalk)

/-! ## Who waits for which page -/

/-- The waiter that a sector keeps is one for that sector. -/
def Keeper (waiting : List Waiter) (g level : Nat) (waiter : Option Nat) : Prop :=
  ∃ k w pos, waiter = some k ∧ waiting[k]? = some w ∧ w.buff = .auth g level pos

section

variable {waiting : List Waiter} {found : Lookups} {b : Asked} {g level : Nat} {offsets : Offsets}
  {pageid : Nat}

theorem getElem?_append_of_some {l : List Waiter} {k : Nat} {w : Waiter}
    (h : waiting[k]? = some w) :
    (waiting ++ l)[k]? = some w := by
  rw [List.getElem?_append_left (List.getElem?_eq_some_iff.mp h).1]
  exact h

/-- What a call adds to `waiting`. -/
structure Adds (waiting waiting' : List Waiter) (kind : Buff → Prop) : Prop where
  old : ∀ (k : Nat) (w : Waiter), waiting[k]? = some w → waiting'[k]? = some w
  new : ∀ (k : Nat) (w : Waiter), waiting'[k]? = some w → waiting[k]? = some w ∨ kind w.buff

theorem Adds.refl (waiting : List Waiter) (kind : Buff → Prop) : Adds waiting waiting kind :=
  ⟨fun _ _ h => h, fun _ _ h => Or.inl h⟩

theorem Adds.trans {waiting' waiting'' : List Waiter} {kind kind' : Buff → Prop}
    (h : Adds waiting waiting' kind) (h' : Adds waiting' waiting'' kind') :
    Adds waiting waiting'' fun x => kind x ∨ kind' x := by
  refine ⟨fun k w hw => h'.old k w (h.old k w hw), ?_⟩
  intro k w hw
  rcases h'.new k w hw with hw | hkind
  · exact (h.new k w hw).imp id Or.inl
  · exact Or.inr (Or.inr hkind)

theorem Adds.mono {waiting' : List Waiter} {kind kind' : Buff → Prop}
    (h : Adds waiting waiting' kind) (himp : ∀ x, kind x → kind' x) : Adds waiting waiting' kind' :=
  ⟨h.old, fun k w hw => (h.new k w hw).imp id (himp _)⟩

theorem Adds.keeper {waiting' : List Waiter} {kind : Buff → Prop} (h : Adds waiting waiting' kind)
    {waiter : Option Nat} (hk : Keeper waiting g level waiter) :
    Keeper waiting' g level waiter := by
  obtain ⟨k, w, pos, hwaiter, hw, hbuff⟩ := hk
  exact ⟨k, w, pos, hwaiter, h.old k w hw, hbuff⟩

theorem adds_singleton (w : Waiter) : Adds waiting (waiting ++ [w]) (· = w.buff) := by
  refine ⟨fun k w' hw => getElem?_append_of_some hw, ?_⟩
  intro k w' hw
  rcases Nat.lt_or_ge k waiting.length with hlt | hge
  · rw [List.getElem?_append_left hlt] at hw
    exact Or.inl hw
  · rw [List.getElem?_append_right hge] at hw
    have := List.mem_of_getElem? hw
    rw [List.mem_singleton.mp this]
    exact Or.inr rfl

/-- A page that is not in the cache has a waiter then. -/
theorem ask_spec (w : Waiter) :
    Adds b.waiting (b.ask found w).1.waiting (· = w.buff) ∧
      ∀ r, (b.ask found w).2 = some r →
        (r = none ∧ (b.ask found w).1.waiting = b.waiting) ∨
          ∃ k, r = some k ∧ (b.ask found w).1.waiting[k]? = some w := by
  unfold Asked.ask
  split
  · refine ⟨adds_singleton w, ?_⟩
    intro r hr
    obtain rfl := Option.some.inj hr
    exact Or.inr ⟨_, rfl, by simp⟩
  · refine ⟨Adds.refl _ _, ?_⟩
    intro r hr
    dsimp only at hr
    split at hr
    · exact Or.inl ⟨(Option.some.inj hr).symm, rfl⟩
    · cases hr

/-- It is a page of this auth sector. -/
def IsAuth (g level : Nat) (x : Buff) : Prop := ∃ pos, x = .auth g level pos

/-- A sector that has a page to wait for keeps a waiter. -/
theorem requestAuthPage_spec (s : AuthSectorOff) :
    Adds b.waiting (b.requestAuthPage found g level s).1.waiting (IsAuth g level) ∧
      ∀ r, (b.requestAuthPage found g level s).2 = some r →
        (b.requestAuthPage found g level s).1.waiting = b.waiting ∨
          Keeper (b.requestAuthPage found g level s).1.waiting g level r := by
  have hkeep : ∀ {b' : List Waiter} {k : Nat} {w : Waiter} {pos : Nat}, b'[k]? = some w →
      w.buff = .auth g level pos → Keeper b' g level (some k) :=
    fun hw hb => ⟨_, _, _, rfl, hw, hb⟩
  unfold Asked.requestAuthPage
  dsimp only
  split
  · obtain ⟨hadds, hret⟩ := @ask_spec found b
      ⟨s.offset / PSYNC_FS_PAGE_SIZE, .auth g level 0, 0, s.size⟩
    refine ⟨hadds.mono fun x hx => ⟨0, hx⟩, ?_⟩
    intro r hr
    rcases hret r hr with ⟨-, hsame⟩ | ⟨k, rfl, hk⟩
    · exact Or.inl hsame
    · exact Or.inr (hkeep hk rfl)
  · generalize hw₁ : (⟨s.offset / PSYNC_FS_PAGE_SIZE, .auth g level 0, _, _⟩ : Waiter) = w₁
    have hb₁ : w₁.buff = .auth g level 0 := by
      rw [← hw₁]
    obtain ⟨hadds, hret⟩ := @ask_spec found b w₁
    have hadds' := hadds.mono (fun x hx => (⟨0, hx.trans hb₁⟩ : IsAuth g level x))
    generalize b.ask found w₁ = r₁ at hadds hadds' hret ⊢
    obtain ⟨b₁, ret₁⟩ := r₁
    cases ret₁ with
    | none => exact ⟨hadds', fun _ hr => nomatch hr⟩
    | some waiter =>
      have hfirst : b₁.waiting = b.waiting ∨ Keeper b₁.waiting g level waiter := by
        rcases hret waiter rfl with ⟨-, hsame⟩ | ⟨k, rfl, hk⟩
        · exact Or.inl hsame
        · exact Or.inr (hkeep hk hb₁)
      dsimp only
      generalize (if s.size < _ then s.size else _) = apsize
      split
      · obtain ⟨hadds₂, hret₂⟩ := @ask_spec found b₁
          ⟨s.offset / PSYNC_FS_PAGE_SIZE + 1, .auth g level apsize, 0, s.size - apsize⟩
        have hboth := (hadds'.trans (hadds₂.mono
          fun x hx => (⟨apsize, hx⟩ : IsAuth g level x))).mono fun _ hx => hx.elim id id
        generalize b₁.ask found
          ⟨s.offset / PSYNC_FS_PAGE_SIZE + 1, .auth g level apsize, 0, s.size - apsize⟩ = r₂
          at hadds₂ hret₂ hboth ⊢
        obtain ⟨b₂, ret₂⟩ := r₂
        match ret₂ with
        | none => exact ⟨hboth, fun _ hr => nomatch hr⟩
        | some (some waiter₂) =>
          refine ⟨hboth, ?_⟩
          intro r hr
          obtain rfl := Option.some.inj hr
          rcases hret₂ _ rfl with ⟨hnone, -⟩ | ⟨k, hk, hw⟩
          · cases hnone
          · rw [hk]
            exact Or.inr (hkeep hw rfl)
        | some none =>
          refine ⟨hboth, ?_⟩
          intro r hr
          obtain rfl := Option.some.inj hr
          rcases hret₂ _ rfl with ⟨-, hsame⟩ | ⟨k, hk, -⟩
          · dsimp only at hsame ⊢
            rw [hsame]
            exact hfirst
          · cases hk
      · refine ⟨hadds', ?_⟩
        intro r hr
        obtain rfl := Option.some.inj hr
        exact hfirst

/-! ## The auth sectors -/

/-- The sector is this one. -/
def AuthPage.IsAt (cap : AuthPage) (s : AuthSectorOff) : Prop :=
  cap.offset = s.offset ∧ cap.size = s.size ∧ cap.slot = s.authid

/-- A sector of a group by its level. -/
def Group.sector (gr : Group) : Nat → Option AuthPage
  | 0 => some gr.auth
  | l + 1 => gr.chain[l]?

theorem authPage_spec {b' : Asked} {ret : Option AuthPage}
    (h : b.authPage found offsets pageid g level = some (b', ret)) :
    Adds b.waiting b'.waiting (IsAuth g level) ∧ ∀ cap, ret = some cap →
      (∃ s, getAuthSectorOff pageid level offsets = some s ∧ cap.IsAt s) ∧
      (b'.waiting = b.waiting ∨ Keeper b'.waiting g level cap.waiter) := by
  obtain ⟨s, hs, heq⟩ := Option.map_eq_some_iff.mp h
  obtain ⟨rfl, rfl⟩ := Prod.mk.inj heq
  obtain ⟨hadds, hret⟩ := @requestAuthPage_spec found b g level s
  refine ⟨hadds, ?_⟩
  intro cap hcap
  obtain ⟨waiter, hwaiter, rfl⟩ := Option.map_eq_some_iff.mp hcap
  exact ⟨⟨s, hs, rfl, rfl, rfl⟩, hret waiter hwaiter⟩

/-- The sectors of the levels from `level` on, each with a waiter where it has a page to wait
for. -/
theorem chain_spec (n : Nat) {level : Nat} {b b' : Asked} {ret : Option (List AuthPage)}
    (h : Asked.chain found offsets pageid g n level b = some (b', ret)) :
    Adds b.waiting b'.waiting (fun x => ∃ l, IsAuth g l x) ∧ ∀ caps, ret = some caps →
      caps.length = n ∧
      (∀ (j : Nat) (cap : AuthPage), caps[j]? = some cap →
        ∃ s, getAuthSectorOff pageid (level + j) offsets = some s ∧ cap.IsAt s) ∧
      ∀ (k : Nat) (w : Waiter), b'.waiting[k]? = some w → b.waiting[k]? = some w ∨
        ∃ (j : Nat) (cap : AuthPage), IsAuth g (level + j) w.buff ∧ caps[j]? = some cap ∧
          Keeper b'.waiting g (level + j) cap.waiter := by
  induction n generalizing level b b' ret with
  | zero =>
    obtain ⟨rfl, rfl⟩ := Prod.mk.inj (Option.some.inj h)
    refine ⟨Adds.refl _ _, ?_⟩
    intro caps hcaps
    obtain rfl := Option.some.inj hcaps
    exact ⟨rfl, fun j cap hcap => by simp at hcap, fun k w hw => Or.inl hw⟩
  | succ n ih =>
    unfold Asked.chain at h
    obtain ⟨⟨b₁, ret₁⟩, hauth, h⟩ := Option.bind_eq_some_iff.mp h
    obtain ⟨hadds, hfirst⟩ := authPage_spec hauth
    cases ret₁ with
    | none =>
      obtain ⟨rfl, rfl⟩ := Prod.mk.inj (Option.some.inj h)
      exact ⟨hadds.mono fun x hx => ⟨level, hx⟩, fun caps hcaps => nomatch hcaps⟩
    | some cap =>
      obtain ⟨⟨b₂, ret₂⟩, hrest, h⟩ := Option.bind_eq_some_iff.mp h
      obtain ⟨rfl, rfl⟩ := Prod.mk.inj (Option.some.inj h)
      obtain ⟨hadds₂, hrest⟩ := ih hrest
      obtain ⟨hsector, hkeep⟩ := hfirst cap rfl
      refine ⟨(hadds.trans hadds₂).mono fun x hx => hx.elim (fun hx => ⟨level, hx⟩) id, ?_⟩
      intro caps hcaps
      obtain ⟨rest, hret, rfl⟩ := Option.map_eq_some_iff.mp hcaps
      obtain ⟨hlen, hsectors, hfiled⟩ := hrest rest hret
      refine ⟨by rw [List.length_cons, hlen], ?_, ?_⟩
      · intro j c hc
        cases j with
        | zero =>
          obtain rfl := Option.some.inj hc
          exact hsector
        | succ j =>
          obtain ⟨s, hs, hat⟩ := hsectors j c hc
          exact ⟨s, by rw [← hs, Nat.add_right_comm]; rfl, hat⟩
      · intro k w hw
        rcases hfiled k w hw with hw | ⟨j, c, hbuff, hc, hk⟩
        · rcases hadds.new k w hw with hold | hbuff
          · exact Or.inl hold
          · rcases hkeep with hsame | hkeep
            · rw [hsame] at hw
              exact Or.inl hw
            · exact Or.inr ⟨0, cap, hbuff, rfl, hadds₂.keeper hkeep⟩
        · refine Or.inr ⟨j + 1, c, ?_, hc, ?_⟩
          · rw [show level + (j + 1) = level + 1 + j by omega]
            exact hbuff
          · rw [show level + (j + 1) = level + 1 + j by omega]
            exact hk

end

namespace Request

variable {q : Request} {found : Lookups} {i : Nat}

/-- The part of the file that is known to be good has a page of the auth sector of page `i`. -/
def Known (q : Request) (i : Nat) : Prop :=
  q.offsets.needmasterauth = false ∨ ∃ j ≤ i,
    (q.firstPageId + j) / hashTreeSectors = (q.firstPageId + i) / hashTreeSectors ∧
      (q.firstPageId + j + 1) * PSYNC_FS_PAGE_SIZE ≤ q.authupto

/-- The group has the auth sectors of page `i` on all levels, or only the lowest where the file is
known to be good. -/
def Whole (q : Request) (i : Nat) (gr : Group) : Prop :=
  (gr.chain = [] ∧ q.Known i) ∨
    gr.chain.length = q.offsets.treelevels ∧ ∀ (l : Nat) (cap : AuthPage), gr.chain[l]? = some cap →
      ∃ s, getAuthSectorOff (q.firstPageId + i) (l + 1) q.offsets = some s ∧ cap.IsAt s

/-- On the levels above the lowest the pages of an auth sector have the same ones. -/
theorem getAuthSectorOff_congr {s s' l : Nat} {o : Offsets}
    (h : s / hashTreeSectors = s' / hashTreeSectors) :
    getAuthSectorOff s (l + 1) o = getAuthSectorOff s' (l + 1) o := by
  unfold getAuthSectorOff authSectorWalk
  rw [h]

theorem Whole.next {gr : Group} (h : q.Whole i gr)
    (hsame : (q.firstPageId + (i + 1)) / hashTreeSectors = (q.firstPageId + i) / hashTreeSectors) :
    q.Whole (i + 1) gr := by
  rcases h with ⟨hnil, hknown⟩ | ⟨hlen, hcaps⟩
  · refine Or.inl ⟨hnil, hknown.imp id ?_⟩
    rintro ⟨j, hj, hgroup, hle⟩
    exact ⟨j, Nat.le_succ_of_le hj, hgroup.trans hsame.symm, hle⟩
  · refine Or.inr ⟨hlen, ?_⟩
    intro l cap hcap
    rw [getAuthSectorOff_congr hsame]
    exact hcaps l cap hcap

theorem group_spec {b b' : Asked} {g : Nat} {gr : Group}
    (h : q.group found b i g = some (b', some gr)) :
    Adds b.waiting b'.waiting (fun x => ∃ l, IsAuth g l x) ∧ q.Whole i gr ∧
      ∀ (k : Nat) (w : Waiter), b'.waiting[k]? = some w → b.waiting[k]? = some w ∨
        ∃ l cap, IsAuth g l w.buff ∧ gr.sector l = some cap ∧ Keeper b'.waiting g l cap.waiter := by
  unfold group at h
  obtain ⟨⟨b₁, ret₁⟩, hauth, h⟩ := Option.bind_eq_some_iff.mp h
  cases ret₁ with
  | none =>
    cases (Prod.mk.inj (Option.some.inj h)).2
  | some ap =>
    obtain ⟨⟨b₂, ret₂⟩, hchain, h⟩ := Option.bind_eq_some_iff.mp h
    obtain ⟨rfl, hret⟩ := Prod.mk.inj (Option.some.inj h)
    obtain ⟨chain, hret₂, rfl⟩ := Option.map_eq_some_iff.mp hret
    obtain ⟨hadds, hfirst⟩ := authPage_spec hauth
    obtain ⟨-, hkeep⟩ := hfirst ap rfl
    obtain ⟨hadds₂, hrest⟩ := chain_spec _ hchain
    obtain ⟨hlen, hsectors, hfiled⟩ := hrest chain hret₂
    refine ⟨(hadds.trans hadds₂).mono fun x hx => hx.elim (fun hx => ⟨0, hx⟩) id, ?_, ?_⟩
    · cases hneeds : q.needsChain i with
      | false =>
        rw [hneeds] at hlen
        refine Or.inl ⟨List.length_eq_zero_iff.mp hlen, ?_⟩
        unfold needsChain at hneeds
        rw [decide_eq_false_iff_not, not_and_or, Nat.not_lt, Bool.not_eq_true] at hneeds
        exact hneeds.symm.imp id fun hle => ⟨i, Nat.le_refl _, rfl, hle⟩
      | true =>
        rw [hneeds, if_pos rfl] at hlen
        refine Or.inr ⟨hlen, ?_⟩
        intro l cap hcap
        rw [Nat.add_comm l 1]
        exact hsectors l cap hcap
    · intro k w hw
      rcases hfiled k w hw with hw | ⟨j, cap, hbuff, hcap, hk⟩
      · rcases hadds.new k w hw with hold | hbuff
        · exact Or.inl hold
        · rcases hkeep with hsame | hkeep
          · rw [hsame] at hw
            exact Or.inl hw
          · exact Or.inr ⟨0, ap, hbuff, rfl, hadds₂.keeper hkeep⟩
      · refine Or.inr ⟨j + 1, cap, ?_, hcap, ?_⟩
        · rw [Nat.add_comm j 1]
          exact hbuff
        · rw [Nat.add_comm j 1]
          exact hk

/-- What the first loop has done before the page `i`. -/
structure Grouped (q : Request) (b : Asked) (groups : List Group) (owners : List Nat) (i : Nat) :
    Prop where
  filed : ∀ (k : Nat) (w : Waiter), b.waiting[k]? = some w → ∃ g l gr cap, IsAuth g l w.buff ∧
    groups[g]? = some gr ∧ gr.sector l = some cap ∧ Keeper b.waiting g l cap.waiter
  count : owners.length = i
  owner : ∀ (j o : Nat), owners[j]? = some o → ∃ gr, groups[o]? = some gr ∧ q.Whole j gr
  used : ∀ g < groups.length, ∃ j : Nat, owners[j]? = some g
  last : ∀ j : Nat, i = j + 1 → owners[j]? = some (groups.length - 1)

theorem Grouped.next {b : Asked} {groups : List Group} {owners : List Nat}
    (h : Grouped q b groups owners i) (hsame : q.sameAuth i = true) :
    Grouped q b groups (owners ++ [groups.length - 1]) (i + 1) := by
  obtain ⟨hne, hdiv⟩ : i ≠ 0 ∧ (q.firstPageId + i) / hashTreeSectors
      = (q.firstPageId + i - 1) / hashTreeSectors := by
    simpa [sameAuth] using hsame
  obtain ⟨j, rfl⟩ := Nat.exists_eq_succ_of_ne_zero hne
  refine ⟨h.filed, by rw [List.length_append, h.count]; rfl, ?_, ?_, ?_⟩
  · intro k o ho
    rcases Nat.lt_or_ge k owners.length with hlt | hge
    · rw [List.getElem?_append_left hlt] at ho
      exact h.owner k o ho
    · rw [List.getElem?_append_right hge] at ho
      obtain rfl : o = groups.length - 1 := List.mem_singleton.mp (List.mem_of_getElem? ho)
      have hk : k = j + 1 := by
        have := (List.getElem?_eq_some_iff.mp ho).1
        rw [List.length_singleton] at this
        have := h.count
        omega
      obtain ⟨gr, hgr, hwhole⟩ := h.owner j _ (h.last j rfl)
      refine ⟨gr, hgr, ?_⟩
      rw [hk]
      exact hwhole.next hdiv
  · intro g hg
    obtain ⟨k, hk⟩ := h.used g hg
    refine ⟨k, ?_⟩
    rw [List.getElem?_append_left (List.getElem?_eq_some_iff.mp hk).1]
    exact hk
  · intro k hk
    rw [List.getElem?_append_right (by have := h.count; omega)]
    have := h.count
    rw [show k - owners.length = 0 by omega]
    rfl

theorem Grouped.group {b b' : Asked} {groups : List Group} {owners : List Nat} {gr : Group}
    (h : Grouped q b groups owners i) (hg : q.group found b i groups.length = some (b', some gr)) :
    Grouped q b' (groups ++ [gr]) (owners ++ [groups.length]) (i + 1) := by
  obtain ⟨hadds, hwhole, hfiled⟩ := group_spec hg
  have hold : ∀ {g : Nat} {gr' : Group},
      groups[g]? = some gr' → (groups ++ [gr])[g]? = some gr' := by
    intro g gr' hgr'
    rw [List.getElem?_append_left (List.getElem?_eq_some_iff.mp hgr').1]
    exact hgr'
  have hnew : (groups ++ [gr])[groups.length]? = some gr := by simp
  refine ⟨?_, by rw [List.length_append, h.count]; rfl, ?_, ?_, ?_⟩
  · intro k w hw
    rcases hfiled k w hw with hw | ⟨l, cap, hbuff, hcap, hkeep⟩
    · obtain ⟨g, l, gr', cap, hbuff, hgr', hcap, hkeep⟩ := h.filed k w hw
      exact ⟨g, l, gr', cap, hbuff, hold hgr', hcap, hadds.keeper hkeep⟩
    · exact ⟨groups.length, l, gr, cap, hbuff, hnew, hcap, hkeep⟩
  · intro k o ho
    rcases Nat.lt_or_ge k owners.length with hlt | hge
    · rw [List.getElem?_append_left hlt] at ho
      obtain ⟨gr', hgr', hw⟩ := h.owner k o ho
      exact ⟨gr', hold hgr', hw⟩
    · rw [List.getElem?_append_right hge] at ho
      obtain rfl : o = groups.length := List.mem_singleton.mp (List.mem_of_getElem? ho)
      have hk : k = i := by
        have := (List.getElem?_eq_some_iff.mp ho).1
        rw [List.length_singleton] at this
        have := h.count
        omega
      rw [hk]
      exact ⟨gr, hnew, hwhole⟩
  · intro g hg'
    rw [List.length_append, List.length_singleton] at hg'
    rcases Nat.lt_or_ge g groups.length with hlt | hge
    · obtain ⟨k, hk⟩ := h.used g hlt
      refine ⟨k, ?_⟩
      rw [List.getElem?_append_left (List.getElem?_eq_some_iff.mp hk).1]
      exact hk
    · obtain rfl : g = groups.length := by omega
      exact ⟨owners.length, by simp⟩
  · intro k hk
    have := h.count
    rw [List.getElem?_append_right (by omega), show k - owners.length = 0 by omega,
      List.length_append]
    rfl

end Request

/-- What the reading thread relies on. -/
structure Plan.Sound (p : Plan) (q : Request) : Prop where
  /-- A sector that has a page to wait for keeps a waiter. -/
  auth : ∀ (k : Nat) (w : Waiter) (g l : Nat), p.waiting[k]? = some w → IsAuth g l w.buff →
    ∃ gr cap, p.groups[g]? = some gr ∧ gr.sector l = some cap ∧ Keeper p.waiting g l cap.waiter
  data : ∀ (k : Nat) (w : Waiter) (i : Nat), p.waiting[k]? = some w → w.buff = .data i →
    ∃ d, p.datas[i]? = some d ∧ d.waiter = some k
  owner : ∀ (i : Nat) (d : DataPage), p.datas[i]? = some d →
    ∃ gr, p.groups[d.authpage]? = some gr ∧ q.Whole i gr
  used : ∀ (g : Nat) (gr : Group), p.groups[g]? = some gr →
    ∃ (i : Nat) (d : DataPage), p.datas[i]? = some d ∧ d.authpage = g
  pages : ∀ i < q.pagecnt, ∃ d, p.datas[i]? = some d

end PcloudClient.Ppagecache
