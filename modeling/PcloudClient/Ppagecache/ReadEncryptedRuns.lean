/-
  Ppagecache/ReadEncryptedRuns.lean --- in which order an encrypted file is checked.
-/
import Mathlib.Logic.Relation
import PcloudClient.Ppagecache.ReadEncryptedProofs

set_option autoImplicit false

namespace PcloudClient.Ppagecache

open PcloudClient.FsCrypto (getAuthSectorOff)

/-! ## What has arrived -/

/-- Every page that overlaps the auth sector and was not in the cache has come, and without an
error unless the read fails. -/
def Plan.Arrived (p : Plan) (st : Reading) (g l : Nat) : Prop :=
  ∀ (k : Nat) (w : Waiter), p.waiting[k]? = some w → IsAuth g l w.buff →
    ∃ error, st.ready k = some error ∧ (st.ret = 0 → error = 0)

/-- No auth sector has two pages that are not in the cache. -/
def Plan.Single (p : Plan) : Prop :=
  ∀ (k k' : Nat) (w w' : Waiter) (g l : Nat), p.waiting[k]? = some w → p.waiting[k']? = some w' →
    IsAuth g l w.buff → IsAuth g l w'.buff → k = k'

/-- The auth sectors of the page `i` that the thread has signed, or compares or decodes with. -/
def Place.Uses : Place → Nat → Nat → Prop
  | .chain j m, i, l => j = i ∧ (l = 0 ∨ l = m)
  | .compare j m, i, l => j = i ∧ (l = 0 ∨ l = m ∨ l = m + 1)
  | .data j, i, l => j = i ∧ l = 0
  | .decode j, i, l => j = i ∧ l = 0
  | _, _, _ => False

theorem join_eq_zero {ret error : Int} (h : Reading.join ret error = 0) : ret = 0 ∧ error = 0 := by
  unfold Reading.join at h
  split at h
  next hz => exact ⟨hz, h⟩
  next hz => exact absurd h hz

namespace Plan

variable {p : Plan} {q : Request} {st st' : Reading} {e : ReadEvent}

/-- Who has waited for the waiter that a sector keeps, has waited for all of its pages. -/
theorem Sound.waited (h : p.Sound q) (hs : p.Single) {g l : Nat} {gr : Group} {cap : AuthPage}
    (hgr : p.groups[g]? = some gr) (hcap : gr.sector l = some cap) {error : Int}
    (hw : st.waited cap.waiter = some error) {k : Nat} {w : Waiter} (hk : p.waiting[k]? = some w)
    (hbuff : IsAuth g l w.buff) : st.ready k = some error := by
  obtain ⟨gr', cap', hgr', hcap', k', w', pos, hwaiter, hk', hpos⟩ := h.auth k w g l hk hbuff
  obtain rfl := Option.some.inj (hgr.symm.trans hgr')
  obtain rfl := Option.some.inj (hcap.symm.trans hcap')
  obtain rfl := hs k k' w w' g l hk hk' hbuff ⟨pos, hpos⟩
  rw [hwaiter] at hw
  exact hw

/-- A waiter that is ready stays so. -/
theorem Step.ready (hs : p.Step st e st') {k : Nat} {x : Int} (h : st.ready k = some x) :
    st'.ready k = some x := by
  cases hs with
  | arrive =>
    show Plan.arrive p _ _ _ k = some x
    unfold Plan.arrive
    rw [if_neg (fun hn => by rw [h] at hn; cases hn.1)]
    exact h
  | freeWaiters => exact h
  | key => exact h
  | authChain => exact h
  | auth => exact h
  | chain => exact h
  | compare => exact h
  | data => exact h
  | decode => exact h
  | free => exact h

/-- A read that has failed fails. -/
theorem Step.ret_eq_zero (hs : p.Step st e st') (hkey : st.place ≠ .key) (h : st'.ret = 0) :
    st.ret = 0 := by
  cases hs with
  | arrive => exact h
  | freeWaiters => cases h
  | key hp => exact absurd hp hkey
  | authChain => exact (join_eq_zero h).1
  | auth => exact (join_eq_zero h).1
  | chain => exact (join_eq_zero h).1
  | compare =>
    dsimp only at h
    split at h
    next hcond => exact hcond.1
    next => exact h
  | data => exact (join_eq_zero h).1
  | decode =>
    dsimp only at h
    split at h
    next hcond => exact hcond.1
    next => exact h
  | free => exact h

/-- The sectors that have been signed, or are compared or decoded with, have arrived. -/
def Seen (p : Plan) (st : Reading) : Prop :=
  ∀ (i l : Nat) (d : DataPage), p.datas[i]? = some d → st.place.Uses i l →
    p.Arrived st d.authpage l

/-- A step uses sectors that it used before, or one that it has waited for. -/
theorem Seen.of_uses (h : p.Seen st) (hs : p.Step st e st')
    (huses : ∀ (i l : Nat) (d : DataPage), p.datas[i]? = some d → st'.place.Uses i l →
      st.place.Uses i l ∨ ∃ error, (st'.ret = 0 → error = 0) ∧ ∀ (k : Nat) (w : Waiter),
        p.waiting[k]? = some w → IsAuth d.authpage l w.buff → st.ready k = some error) :
    p.Seen st' := by
  intro i l d hd hplace k w hk hbuff
  rcases huses i l d hd hplace with hold | ⟨error, hzero, hwaited⟩
  · obtain ⟨error, hready, hzero⟩ := h i l d hd hold k w hk hbuff
    refine ⟨error, hs.ready hready, fun hret => hzero (hs.ret_eq_zero ?_ hret)⟩
    intro hp
    rw [hp] at hold
    exact hold
  · exact ⟨error, hs.ready (hwaited k w hk hbuff), hzero⟩

theorem Seen.step (h : p.Seen st) (hsound : p.Sound q) (hsingle : p.Single)
    (hs : p.Step st e st') : p.Seen st' := by
  refine h.of_uses hs ?_
  intro j m d' hd' huses
  cases hs with
  | arrive => exact Or.inl huses
  | freeWaiters => cases huses
  | key =>
    change Place.Uses (if p.datas = [] then .ret0 else .auth 0) j m at huses
    split at huses <;> cases huses
  | @authChain i d g error hp hd hg hw hchain hnew hret =>
    obtain ⟨rfl, hm⟩ := huses
    obtain rfl := Option.some.inj (hd.symm.trans hd')
    obtain rfl : m = 0 := hm.elim id id
    exact Or.inr ⟨error, fun hz => (join_eq_zero hz).2,
      fun k w hk hbuff => hsound.waited hsingle hg rfl hw hk hbuff⟩
  | @auth i d g error hp hd hg hw hskip =>
    obtain ⟨rfl, rfl⟩ := huses
    obtain rfl := Option.some.inj (hd.symm.trans hd')
    exact Or.inr ⟨error, fun hz => (join_eq_zero hz).2,
      fun k w hk hbuff => hsound.waited hsingle hg rfl hw hk hbuff⟩
  | @chain i l d g cap error hp hd hg hcap hw =>
    rw [hp]
    obtain ⟨rfl, rfl | rfl | rfl⟩ := huses
    · exact Or.inl ⟨rfl, Or.inl rfl⟩
    · exact Or.inl ⟨rfl, Or.inr rfl⟩
    · obtain rfl := Option.some.inj (hd.symm.trans hd')
      exact Or.inr ⟨error, fun hz => (join_eq_zero hz).2, fun k w hk hbuff =>
        hsound.waited hsingle hg (show g.sector (l + 1) = some cap from hcap) hw hk hbuff⟩
  | @compare i l d g ok hp hd hg =>
    rw [hp]
    change Place.Uses (if l + 1 < g.chain.length then .chain i (l + 1) else .data i) j m at huses
    split at huses
    · obtain ⟨rfl, rfl | rfl⟩ := huses
      · exact Or.inl ⟨rfl, Or.inl rfl⟩
      · exact Or.inl ⟨rfl, Or.inr (Or.inr rfl)⟩
    · exact Or.inl ⟨huses.1, Or.inl huses.2⟩
  | @data i d error hp hd hw =>
    rw [hp]
    exact Or.inl huses
  | @decode i ok hp =>
    change Place.Uses (p.next i) j m at huses
    unfold Plan.next at huses
    split at huses <;> cases huses
  | free => cases huses

end Plan

/-! ## What is still to be waited for -/

namespace Place

/-- The wait for the auth sector of the page `i` is ahead. -/
def AuthAhead : Place → Nat → Prop
  | .err0, _ => True
  | .key, _ => True
  | .auth j, i => j ≤ i
  | .chain j _, i => j < i
  | .compare j _, i => j < i
  | .data j, i => j < i
  | .decode j, i => j < i
  | .ret0, _ => False
  | .out, _ => False

/-- The chain of the page `i` is being checked, and the wait for its `l`-th sector is ahead. -/
def ChainAhead : Place → Nat → Nat → Prop
  | .chain j m, i, l => j = i ∧ m ≤ l
  | .compare j m, i, l => j = i ∧ m < l
  | _, _, _ => False

/-- The wait for the data sector `i` is ahead. -/
def DataAhead : Place → Nat → Prop
  | .err0, _ => True
  | .key, _ => True
  | .auth j, i => j ≤ i
  | .chain j _, i => j ≤ i
  | .compare j _, i => j ≤ i
  | .data j, i => j ≤ i
  | .decode j, i => j < i
  | .ret0, _ => False
  | .out, _ => False

end Place

namespace Plan

/-- The waiter that the thread waits for. -/
def waiterAt (p : Plan) : Place → Option Nat
  | .auth i => do
    let d ← p.datas[i]?
    let g ← p.groups[d.authpage]?
    g.auth.waiter
  | .chain i l => do
    let d ← p.datas[i]?
    let g ← p.groups[d.authpage]?
    let cap ← g.chain[l]?
    cap.waiter
  | .data i => do
    let d ← p.datas[i]?
    d.waiter
  | _ => none

/-- The key cannot be had, a page could not be read, two checksums differ or a sector does not
decode. -/
def Fails (p : Plan) (st : Reading) : ReadEvent → Prop
  | .key ok => ok = false
  | .compare ok => ok = false
  | .decode ok => ok = false
  | .auth => st.waited (p.waiterAt st.place) ≠ some 0
  | .chain => st.waited (p.waiterAt st.place) ≠ some 0
  | .data => st.waited (p.waiterAt st.place) ≠ some 0
  | _ => False

/-- The pages of the auth sectors above the lowest level that are still to come are all of the
chain that is being checked, and will be waited for there. -/
def Clear (p : Plan) (st : Reading) : Prop :=
  ∀ (k : Nat) (w : Waiter) (g l : Nat), p.waiting[k]? = some w → IsAuth g (l + 1) w.buff →
    st.ready k = none → ∃ (i : Nat) (d : DataPage), p.datas[i]? = some d ∧ d.authpage = g ∧
      st.place.ChainAhead i l

/-- If this step is the first that fails, no auth sector of another chain has a page to come. -/
def Calm (p : Plan) (st : Reading) (e : ReadEvent) : Prop :=
  st.ret = 0 → p.Fails st e → p.Clear st

variable {p : Plan} {q : Request} {st st' : Reading} {e : ReadEvent}

theorem Step.fails (hs : p.Step st e st') (hplace : st.place ≠ .err0) (hret : st.ret = 0)
    (hret' : st'.ret ≠ 0) : p.Fails st e := by
  have hjoin : ∀ {waiter : Option Nat} {error : Int}, st.waited waiter = some error →
      Reading.join st.ret error ≠ 0 → st.waited waiter ≠ some 0 := by
    intro waiter error hw hne hzero
    obtain rfl := Option.some.inj (hw.symm.trans hzero)
    rw [hret] at hne
    exact hne rfl
  cases hs with
  | arrive => exact absurd hret hret'
  | freeWaiters hp => exact absurd hp hplace
  | @key ok hp =>
    cases ok with
    | false => rfl
    | true => exact absurd rfl hret'
  | authChain hp hd hg hw =>
    show st.waited (p.waiterAt st.place) ≠ some 0
    simpa [hp, waiterAt, hd, hg] using hjoin hw hret'
  | auth hp hd hg hw =>
    show st.waited (p.waiterAt st.place) ≠ some 0
    simpa [hp, waiterAt, hd, hg] using hjoin hw hret'
  | chain hp hd hg hcap hw =>
    show st.waited (p.waiterAt st.place) ≠ some 0
    simpa [hp, waiterAt, hd, hg, hcap] using hjoin hw hret'
  | @compare i l d g ok =>
    cases ok with
    | false => rfl
    | true => exact absurd hret (by simpa using hret')
  | data hp hd hw =>
    show st.waited (p.waiterAt st.place) ≠ some 0
    simpa [hp, waiterAt, hd] using hjoin hw hret'
  | @decode i ok =>
    cases ok with
    | false => rfl
    | true => exact absurd hret (by simpa using hret')
  | free => exact absurd hret hret'

/-- Every waiter is ready, or the wait for it is ahead. -/
structure Waits (p : Plan) (st : Reading) : Prop where
  place : st.place ≠ .err0
  root : ∀ (k : Nat) (w : Waiter) (g : Nat), p.waiting[k]? = some w → IsAuth g 0 w.buff →
    st.ready k = none → ∃ (i : Nat) (d : DataPage), p.datas[i]? = some d ∧ d.authpage = g ∧
      st.place.AuthAhead i
  chain : ∀ (k : Nat) (w : Waiter) (g l : Nat), p.waiting[k]? = some w →
    IsAuth g (l + 1) w.buff → st.ready k = none →
      ∃ (i : Nat) (d : DataPage), p.datas[i]? = some d ∧ d.authpage = g ∧
        (st.place.ChainAhead i l ∨ st.ret = 0 ∧ g ∉ st.cleared ∧ st.place.AuthAhead i)
  data : ∀ (k : Nat) (w : Waiter) (i : Nat), p.waiting[k]? = some w → w.buff = .data i →
    st.ready k = none → st.place.DataAhead i

theorem Step.not_ready (hs : p.Step st e st') {k : Nat} (h : st'.ready k = none) :
    st.ready k = none := by
  cases hk : st.ready k with
  | none => rfl
  | some x =>
    have := hs.ready hk
    rw [h] at this
    cases this

/-- Until the read fails the chains that are not checked yet will be. -/
theorem Waits.pending (h : p.Waits st) (hs : p.Step st e st') (hcalm : p.Calm st e) {k : Nat}
    {w : Waiter} {g l : Nat} (hk : p.waiting[k]? = some w) (hbuff : IsAuth g (l + 1) w.buff)
    (hready : st'.ready k = none) :
    ∃ (i : Nat) (d : DataPage), p.datas[i]? = some d ∧ d.authpage = g ∧
      (st.place.ChainAhead i l ∨ st'.ret = 0 ∧ g ∉ st.cleared ∧ st.place.AuthAhead i) := by
  have hready' := hs.not_ready hready
  obtain ⟨i, d, hd, hg, hchain | ⟨hret, hnew, hahead⟩⟩ := h.chain k w g l hk hbuff hready'
  · exact ⟨i, d, hd, hg, Or.inl hchain⟩
  · rcases Decidable.em (st'.ret = 0) with hzero | hne
    · exact ⟨i, d, hd, hg, Or.inr ⟨hzero, hnew, hahead⟩⟩
    · have hclear := hcalm hret (hs.fails h.place hret hne)
      obtain ⟨j, d', hd', hg', hchain⟩ := hclear k w g l hk hbuff hready'
      exact ⟨j, d', hd', hg', Or.inl hchain⟩

/-- The wait for an auth sector stays ahead until the thread is through with it; then its chain is
checked, unless there is none, it has been or the read fails. -/
theorem Step.authAhead (hs : p.Step st e st') (hne : st.place ≠ .err0) {i : Nat} {d : DataPage}
    (hd : p.datas[i]? = some d) (h : st.place.AuthAhead i) :
    st'.place.AuthAhead i ∨ ∃ g error, p.groups[d.authpage]? = some g ∧
      st.waited g.auth.waiter = some error ∧
        (st'.place = .chain i 0 ∧ d.authpage ∈ st'.cleared ∨
          g.chain = [] ∨ d.authpage ∈ st.cleared ∨ st'.ret ≠ 0) := by
  have hlt := (List.getElem?_eq_some_iff.mp hd).1
  cases hs with
  | arrive => exact Or.inl h
  | freeWaiters hp => exact absurd hp hne
  | key =>
    refine Or.inl ?_
    show Place.AuthAhead (if p.datas = [] then .ret0 else .auth 0) i
    rw [if_neg (List.ne_nil_of_length_pos (Nat.zero_lt_of_lt hlt))]
    exact Nat.zero_le i
  | @authChain j d' g error hp hd' hg hw =>
    rw [hp] at h
    rcases Nat.lt_or_eq_of_le h with hji | rfl
    · exact Or.inl hji
    · obtain rfl := Option.some.inj (hd.symm.trans hd')
      exact Or.inr ⟨g, error, hg, hw, Or.inl ⟨rfl, List.mem_cons_self⟩⟩
  | @auth j d' g error hp hd' hg hw hskip =>
    rw [hp] at h
    rcases Nat.lt_or_eq_of_le h with hji | rfl
    · exact Or.inl hji
    · obtain rfl := Option.some.inj (hd.symm.trans hd')
      exact Or.inr ⟨g, error, hg, hw, Or.inr hskip⟩
  | chain hp =>
    rw [hp] at h
    exact Or.inl h
  | @compare j l d' g ok hp =>
    rw [hp] at h
    refine Or.inl ?_
    show Place.AuthAhead (if l + 1 < g.chain.length then .chain j (l + 1) else .data j) i
    split
    · exact h
    · exact h
  | data hp =>
    rw [hp] at h
    exact Or.inl h
  | @decode j ok hp =>
    rw [hp] at h
    have hji : j < i := h
    refine Or.inl ?_
    show Place.AuthAhead (p.next j) i
    unfold Plan.next
    rw [if_pos (by omega)]
    exact hji
  | free hp =>
    rw [hp] at h
    cases h

theorem Step.chainAhead (hs : p.Step st e st') {i l : Nat} {d : DataPage} {gr : Group}
    {cap : AuthPage} (hd : p.datas[i]? = some d) (hgr : p.groups[d.authpage]? = some gr)
    (hcap : gr.chain[l]? = some cap) (h : st.place.ChainAhead i l) :
    st'.place.ChainAhead i l ∨ ∃ error, st.waited cap.waiter = some error := by
  cases hs with
  | arrive => exact Or.inl h
  | freeWaiters hp => rw [hp] at h; cases h
  | key hp => rw [hp] at h; cases h
  | authChain hp => rw [hp] at h; cases h
  | auth hp => rw [hp] at h; cases h
  | @chain j m d' g cap' error hp hd' hg hcap' hw =>
    rw [hp] at h
    obtain ⟨rfl, hm⟩ := h
    rcases Nat.lt_or_eq_of_le hm with hlt | rfl
    · exact Or.inl ⟨rfl, hlt⟩
    · obtain rfl := Option.some.inj (hd.symm.trans hd')
      obtain rfl := Option.some.inj (hgr.symm.trans hg)
      obtain rfl := Option.some.inj (hcap.symm.trans hcap')
      exact Or.inr ⟨error, hw⟩
  | @compare j m d' g ok hp hd' hg =>
    rw [hp] at h
    obtain ⟨rfl, hm⟩ := h
    obtain rfl := Option.some.inj (hd.symm.trans hd')
    obtain rfl := Option.some.inj (hgr.symm.trans hg)
    have hlen := (List.getElem?_eq_some_iff.mp hcap).1
    refine Or.inl ?_
    show Place.ChainAhead (if m + 1 < gr.chain.length then .chain j (m + 1) else .data j) j l
    rw [if_pos (by omega)]
    exact ⟨rfl, hm⟩
  | data hp => rw [hp] at h; cases h
  | decode hp => rw [hp] at h; cases h
  | free hp => rw [hp] at h; cases h

theorem Step.dataAhead (hs : p.Step st e st') (hne : st.place ≠ .err0) {i : Nat} {d : DataPage}
    (hd : p.datas[i]? = some d) (h : st.place.DataAhead i) :
    st'.place.DataAhead i ∨ ∃ error, st.waited d.waiter = some error := by
  have hlt := (List.getElem?_eq_some_iff.mp hd).1
  cases hs with
  | arrive => exact Or.inl h
  | freeWaiters hp => exact absurd hp hne
  | key =>
    refine Or.inl ?_
    show Place.DataAhead (if p.datas = [] then .ret0 else .auth 0) i
    rw [if_neg (List.ne_nil_of_length_pos (Nat.zero_lt_of_lt hlt))]
    exact Nat.zero_le i
  | authChain hp =>
    rw [hp] at h
    exact Or.inl h
  | auth hp =>
    rw [hp] at h
    exact Or.inl h
  | chain hp =>
    rw [hp] at h
    exact Or.inl h
  | @compare j l d' g ok hp =>
    rw [hp] at h
    refine Or.inl ?_
    show Place.DataAhead (if l + 1 < g.chain.length then .chain j (l + 1) else .data j) i
    split
    · exact h
    · exact h
  | @data j d' error hp hd' hw =>
    rw [hp] at h
    rcases Nat.lt_or_eq_of_le h with hji | rfl
    · exact Or.inl hji
    · obtain rfl := Option.some.inj (hd.symm.trans hd')
      exact Or.inr ⟨error, hw⟩
  | @decode j ok hp =>
    rw [hp] at h
    have hji : j < i := h
    refine Or.inl ?_
    show Place.DataAhead (p.next j) i
    unfold Plan.next
    rw [if_pos (by omega)]
    exact hji
  | free hp =>
    rw [hp] at h
    cases h

/-- Where a chain is taken up, the thread is at its first sector. -/
theorem Step.mem_cleared (hs : p.Step st e st') {g : Nat} (h : g ∈ st'.cleared) :
    g ∈ st.cleared ∨ ∃ (i : Nat) (d : DataPage), p.datas[i]? = some d ∧ d.authpage = g ∧
      st'.place = .chain i 0 := by
  cases hs with
  | @authChain i d gr error hp hd =>
    rcases List.mem_cons.mp h with rfl | h
    · exact Or.inr ⟨i, d, hd, rfl, rfl⟩
    · exact Or.inl h
  | arrive => exact Or.inl h
  | freeWaiters => exact Or.inl h
  | key => exact Or.inl h
  | auth => exact Or.inl h
  | chain => exact Or.inl h
  | compare => exact Or.inl h
  | data => exact Or.inl h
  | decode => exact Or.inl h
  | free => exact Or.inl h

theorem Step.place_ne_err0 (hs : p.Step st e st') (h : st.place ≠ .err0) : st'.place ≠ .err0 := by
  cases hs with
  | arrive => exact h
  | key =>
    dsimp only
    split <;> nofun
  | compare =>
    dsimp only
    split <;> nofun
  | decode =>
    dsimp only [Plan.next]
    split <;> nofun
  | freeWaiters => nofun
  | authChain => nofun
  | auth => nofun
  | chain => nofun
  | data => nofun
  | free => nofun

theorem Waits.step (h : p.Waits st) (hsound : p.Sound q) (hsingle : p.Single)
    (hs : p.Step st e st') (hcalm : p.Calm st e) : p.Waits st' := by
  -- a sector that has been waited for has no page to come
  have hwaited : ∀ {k : Nat} {w : Waiter} {g l : Nat} {gr : Group} {cap : AuthPage} {error : Int},
      p.waiting[k]? = some w → IsAuth g l w.buff → st'.ready k = none → p.groups[g]? = some gr →
      gr.sector l = some cap → st.waited cap.waiter = some error → False := by
    intro k w g l gr cap error hk hbuff hready hgr hcap hw
    have := hsound.waited hsingle hgr hcap hw hk hbuff
    rw [hs.not_ready hready] at this
    cases this
  refine ⟨hs.place_ne_err0 h.place, ?_, ?_, ?_⟩
  · intro k w g hk hbuff hready
    obtain ⟨i, d, hd, rfl, hahead⟩ := h.root k w g hk hbuff (hs.not_ready hready)
    rcases hs.authAhead h.place hd hahead with hahead | ⟨gr, error, hgr, hw, -⟩
    · exact ⟨i, d, hd, rfl, hahead⟩
    · exact (hwaited hk hbuff hready hgr rfl hw).elim
  · intro k w g l hk hbuff hready
    obtain ⟨gr, cap, hgr, hcap, -⟩ := hsound.auth k w g (l + 1) hk hbuff
    obtain ⟨i, d, hd, rfl, hchain | ⟨hret, hnew, hahead⟩⟩ := h.pending hs hcalm hk hbuff hready
    · rcases hs.chainAhead hd hgr hcap hchain with hchain | ⟨error, hw⟩
      · exact ⟨i, d, hd, rfl, Or.inl hchain⟩
      · exact (hwaited hk hbuff hready hgr hcap hw).elim
    · rcases Decidable.em (d.authpage ∈ st'.cleared) with hmem | hnew'
      · rcases hs.mem_cleared hmem with hmem | ⟨j, d', hd', hg', hplace⟩
        · exact absurd hmem hnew
        · refine ⟨j, d', hd', hg', Or.inl ?_⟩
          rw [hplace]
          exact ⟨rfl, Nat.zero_le l⟩
      · rcases hs.authAhead h.place hd hahead with hahead | ⟨gr', error, hgr', -, hcase⟩
        · exact ⟨i, d, hd, rfl, Or.inr ⟨hret, hnew', hahead⟩⟩
        · obtain rfl := Option.some.inj (hgr.symm.trans hgr')
          rcases hcase with ⟨hplace, -⟩ | hnil | hmem | hne
          · refine ⟨i, d, hd, rfl, Or.inl ?_⟩
            rw [hplace]
            exact ⟨rfl, Nat.zero_le l⟩
          · change gr.chain[l]? = some cap at hcap
            rw [hnil] at hcap
            cases hcap
          · exact absurd hmem hnew
          · exact absurd hret hne
  · intro k w i hk hbuff hready
    have hready' := hs.not_ready hready
    obtain ⟨d, hd, hwaiter⟩ := hsound.data k w i hk hbuff
    rcases hs.dataAhead h.place hd (h.data k w i hk hbuff hready') with hahead | ⟨error, hw⟩
    · exact hahead
    · rw [hwaiter] at hw
      cases hready'.symm.trans hw

end Plan

/-! ## What has been checked -/

namespace Place

/-- The decoding of the page `i` is ahead. -/
def DecodeAhead : Place → Nat → Prop
  | .err0, _ => True
  | .key, _ => True
  | .auth j, i => j ≤ i
  | .chain j _, i => j ≤ i
  | .compare j _, i => j ≤ i
  | .data j, i => j ≤ i
  | .decode j, i => j ≤ i
  | .ret0, _ => False
  | .out, _ => False

/-- The chain of the page `i` is being checked, and the comparison with its `l`-th sector is
ahead. -/
def LinkAhead : Place → Nat → Nat → Prop
  | .chain j m, i, l => j = i ∧ m ≤ l
  | .compare j m, i, l => j = i ∧ m ≤ l
  | _, _, _ => False

end Place

namespace Plan

variable {p : Plan} {q : Request} {st st' : Reading} {e : ReadEvent}

theorem Step.mem_decoded (hs : p.Step st e st') {i : Nat} (h : i ∈ st.decoded) :
    i ∈ st'.decoded := by
  cases hs with
  | decode =>
    dsimp only
    split
    · exact List.mem_cons_of_mem _ h
    · exact h
  | arrive => exact h
  | freeWaiters => exact h
  | key => exact h
  | authChain => exact h
  | auth => exact h
  | chain => exact h
  | compare => exact h
  | data => exact h
  | free => exact h

theorem Step.mem_matched (hs : p.Step st e st') {x : Nat × Nat} (h : x ∈ st.matched) :
    x ∈ st'.matched := by
  cases hs with
  | compare =>
    dsimp only
    split
    · exact List.mem_cons_of_mem _ h
    · exact h
  | arrive => exact h
  | freeWaiters => exact h
  | key => exact h
  | authChain => exact h
  | auth => exact h
  | chain => exact h
  | data => exact h
  | decode => exact h
  | free => exact h

theorem Step.mem_cleared_of (hs : p.Step st e st') {g : Nat} (h : g ∈ st.cleared) :
    g ∈ st'.cleared := by
  cases hs with
  | authChain => exact List.mem_cons_of_mem _ h
  | arrive => exact h
  | freeWaiters => exact h
  | key => exact h
  | auth => exact h
  | chain => exact h
  | compare => exact h
  | data => exact h
  | decode => exact h
  | free => exact h

/-- A page is decoded in its turn, or the read fails. -/
theorem Step.decodeAhead (hs : p.Step st e st') (hret : st'.ret = 0) {i : Nat} {d : DataPage}
    (hd : p.datas[i]? = some d) (h : st.place.DecodeAhead i) :
    st'.place.DecodeAhead i ∨ i ∈ st'.decoded := by
  have hlt := (List.getElem?_eq_some_iff.mp hd).1
  cases hs with
  | arrive => exact Or.inl h
  | freeWaiters => cases hret
  | key =>
    refine Or.inl ?_
    show Place.DecodeAhead (if p.datas = [] then .ret0 else .auth 0) i
    rw [if_neg (List.ne_nil_of_length_pos (Nat.zero_lt_of_lt hlt))]
    exact Nat.zero_le i
  | authChain hp =>
    rw [hp] at h
    exact Or.inl h
  | auth hp =>
    rw [hp] at h
    exact Or.inl h
  | chain hp =>
    rw [hp] at h
    exact Or.inl h
  | @compare j l d' g ok hp =>
    rw [hp] at h
    refine Or.inl ?_
    show Place.DecodeAhead (if l + 1 < g.chain.length then .chain j (l + 1) else .data j) i
    split
    · exact h
    · exact h
  | data hp =>
    rw [hp] at h
    exact Or.inl h
  | @decode j ok hp =>
    rw [hp] at h
    rcases Nat.lt_or_eq_of_le h with hji | rfl
    · refine Or.inl ?_
      show Place.DecodeAhead (p.next j) i
      unfold Plan.next
      rw [if_pos (by omega)]
      exact hji
    · refine Or.inr ?_
      dsimp only at hret ⊢
      split at hret
      next => cases hret
      next hcond =>
        have hok : ok = true := by
          cases ok with
          | false => exact absurd ⟨hret, rfl⟩ hcond
          | true => rfl
        rw [if_pos ⟨hret, hok⟩]
        exact List.mem_cons_self
  | free hp =>
    rw [hp] at h
    cases h

/-- A pair of sectors is compared in its turn, or the read fails. -/
theorem Step.linkAhead (hs : p.Step st e st') (hret : st'.ret = 0) {i l : Nat} {d : DataPage}
    {gr : Group} {cap : AuthPage} (hd : p.datas[i]? = some d)
    (hgr : p.groups[d.authpage]? = some gr) (hcap : gr.chain[l]? = some cap)
    (h : st.place.LinkAhead i l) : st'.place.LinkAhead i l ∨ (d.authpage, l) ∈ st'.matched := by
  cases hs with
  | arrive => exact Or.inl h
  | freeWaiters hp => rw [hp] at h; cases h
  | key hp => rw [hp] at h; cases h
  | authChain hp => rw [hp] at h; cases h
  | auth hp => rw [hp] at h; cases h
  | chain hp =>
    rw [hp] at h
    exact Or.inl h
  | @compare j m d' g ok hp hd' hg =>
    rw [hp] at h
    obtain ⟨rfl, hm⟩ := h
    obtain rfl := Option.some.inj (hd.symm.trans hd')
    obtain rfl := Option.some.inj (hgr.symm.trans hg)
    rcases Nat.lt_or_eq_of_le hm with hlt | rfl
    · have hlen := (List.getElem?_eq_some_iff.mp hcap).1
      refine Or.inl ?_
      show Place.LinkAhead (if m + 1 < gr.chain.length then .chain j (m + 1) else .data j) j l
      rw [if_pos (by omega)]
      exact ⟨rfl, hlt⟩
    · refine Or.inr ?_
      dsimp only at hret ⊢
      split at hret
      next => cases hret
      next hcond =>
        have hok : ok = true := by
          cases ok with
          | false => exact absurd ⟨hret, rfl⟩ hcond
          | true => rfl
        rw [if_pos ⟨hret, hok⟩]
        exact List.mem_cons_self
  | data hp => rw [hp] at h; cases h
  | decode hp => rw [hp] at h; cases h
  | free hp => rw [hp] at h; cases h

/-- What is known of a read that has not failed. -/
structure Checked (p : Plan) (st : Reading) : Prop where
  key : st.place = .key → st.ret = 0
  decoded : st.ret = 0 → ∀ (i : Nat) (d : DataPage), p.datas[i]? = some d →
    st.place.DecodeAhead i ∨ i ∈ st.decoded
  cleared : st.ret = 0 → ∀ (i : Nat) (d : DataPage) (gr : Group), p.datas[i]? = some d →
    p.groups[d.authpage]? = some gr →
      st.place.AuthAhead i ∨ gr.chain = [] ∨ d.authpage ∈ st.cleared
  matched : st.ret = 0 → ∀ (g l : Nat) (gr : Group) (cap : AuthPage), g ∈ st.cleared →
    p.groups[g]? = some gr → gr.chain[l]? = some cap → (g, l) ∈ st.matched ∨
      ∃ (i : Nat) (d : DataPage), p.datas[i]? = some d ∧ d.authpage = g ∧ st.place.LinkAhead i l

theorem Checked.ret_eq_zero (h : p.Checked st) (hs : p.Step st e st') (hret : st'.ret = 0) :
    st.ret = 0 := by
  rcases Decidable.em (st.place = .key) with hkey | hkey
  · exact h.key hkey
  · exact hs.ret_eq_zero hkey hret

theorem Step.place_ne_key (hs : p.Step st e st') (h : st'.place = .key) :
    st.place = .key ∧ st'.ret = st.ret := by
  cases hs with
  | arrive => exact ⟨h, rfl⟩
  | key =>
    dsimp only at h
    split at h <;> cases h
  | compare =>
    dsimp only at h
    split at h <;> cases h
  | decode =>
    dsimp only [Plan.next] at h
    split at h <;> cases h
  | freeWaiters => cases h
  | authChain => cases h
  | auth => cases h
  | chain => cases h
  | data => cases h
  | free => cases h

theorem Checked.step (h : p.Checked st) (hne : st.place ≠ .err0) (hs : p.Step st e st') :
    p.Checked st' := by
  refine ⟨?_, ?_, ?_, ?_⟩
  · intro hkey
    obtain ⟨hkey', hret⟩ := hs.place_ne_key hkey
    rw [hret]
    exact h.key hkey'
  · intro hret i d hd
    rcases h.decoded (h.ret_eq_zero hs hret) i d hd with hahead | hmem
    · exact hs.decodeAhead hret hd hahead
    · exact Or.inr (hs.mem_decoded hmem)
  · intro hret i d gr hd hgr
    rcases h.cleared (h.ret_eq_zero hs hret) i d gr hd hgr with hahead | hnil | hmem
    · rcases hs.authAhead hne hd hahead with hahead | ⟨gr', error, hgr', -, hcase⟩
      · exact Or.inl hahead
      · obtain rfl := Option.some.inj (hgr.symm.trans hgr')
        rcases hcase with ⟨-, hmem⟩ | hnil | hmem | hfail
        · exact Or.inr (Or.inr hmem)
        · exact Or.inr (Or.inl hnil)
        · exact Or.inr (Or.inr (hs.mem_cleared_of hmem))
        · exact absurd hret hfail
    · exact Or.inr (Or.inl hnil)
    · exact Or.inr (Or.inr (hs.mem_cleared_of hmem))
  · intro hret g l gr cap hmem hgr hcap
    rcases hs.mem_cleared hmem with hmem | ⟨i, d, hd, rfl, hplace⟩
    · rcases h.matched (h.ret_eq_zero hs hret) g l gr cap hmem hgr hcap with
        hmatch | ⟨i, d, hd, rfl, hlink⟩
      · exact Or.inl (hs.mem_matched hmatch)
      · rcases hs.linkAhead hret hd hgr hcap hlink with hlink | hmatch
        · exact Or.inr ⟨i, d, hd, rfl, hlink⟩
        · exact Or.inl hmatch
    · refine Or.inr ⟨i, d, hd, rfl, ?_⟩
      rw [hplace]
      exact ⟨rfl, Nat.zero_le l⟩

/-! ## Every order of arrival -/

/-- All auth sectors above the page `i` have been compared, up to the master, or the part of the
file is known to be good. -/
def Verified (p : Plan) (q : Request) (st : Reading) (i : Nat) : Prop :=
  q.Known i ∨ ∃ d gr, p.datas[i]? = some d ∧ p.groups[d.authpage]? = some gr ∧
    ∀ l < q.offsets.treelevels, ∃ cap s, gr.chain[l]? = some cap ∧
      getAuthSectorOff (q.firstPageId + i) (l + 1) q.offsets = some s ∧ cap.IsAt s ∧
        (d.authpage, l) ∈ st.matched

/-- An auth sector is used when it has arrived, a waiter is freed when it is ready or taken off the
list of its page, and only once, and data is returned when it is decoded and all sectors above it
are compared. -/
structure Ordered (p : Plan) (q : Request) (st : Reading) : Prop where
  arrived : ∀ (i l : Nat) (d : DataPage), p.datas[i]? = some d → st.place.Uses i l →
    p.Arrived st d.authpage l
  freed : st.place = .ret0 → ∀ (k : Nat) (w : Waiter), p.waiting[k]? = some w →
    st.ready k ≠ none ∨ st.detached = true
  once : ∀ k, st.freed k ≤ 1
  verified : st.place = .out → st.ret = 0 → ∀ i < q.pagecnt,
    i ∈ st.decoded ∧ p.Verified q st i

/-- Nothing is freed before the end, and there once. -/
structure FreedOnce (st : Reading) : Prop where
  before : st.place ≠ .out → ∀ k, st.freed k = 0
  once : ∀ k, st.freed k ≤ 1

theorem FreedOnce.step (h : FreedOnce st) (hs : p.Step st e st')
    (hne : st.place = .err0 → p.waiting = []) : FreedOnce st' := by
  have hout {place : Place} (hp : st.place = place) (hplace : place ≠ .out) (k : Nat) :
      st.freed k = 0 := h.before (fun hp' => hplace (hp.symm.trans hp')) k
  cases hs with
  | arrive => exact ⟨h.before, h.once⟩
  | freeWaiters hp =>
    have hfreed (k : Nat) : p.release st.freed k = 0 := by
      rw [release, hne hp, List.length_nil, if_neg (Nat.not_lt_zero k)]
      exact hout hp (by simp) k
    exact ⟨fun _ => hfreed, fun k => (hfreed k).trans_le (Nat.zero_le 1)⟩
  | key hp => exact ⟨fun _ => hout hp (by simp), h.once⟩
  | authChain hp => exact ⟨fun _ => hout hp (by simp), h.once⟩
  | auth hp => exact ⟨fun _ => hout hp (by simp), h.once⟩
  | chain hp => exact ⟨fun _ => hout hp (by simp), h.once⟩
  | compare hp => exact ⟨fun _ => hout hp (by simp), h.once⟩
  | data hp => exact ⟨fun _ => hout hp (by simp), h.once⟩
  | decode hp => exact ⟨fun _ => hout hp (by simp), h.once⟩
  | free hp =>
    refine ⟨fun hplace => absurd rfl hplace, fun k => ?_⟩
    change p.release st.freed k ≤ 1
    rw [release, hout hp (by simp) k]
    split
    · exact Nat.le_refl _
    · exact Nat.zero_le _

/-- On the way from `err0`. -/
def Broken (st : Reading) : Prop :=
  st.place = .err0 ∨ (st.place = .ret0 ∨ st.place = .out) ∧ st.detached = true ∧ st.ret ≠ 0

theorem Broken.step (h : Broken st) (hs : p.Step st e st') : Broken st' := by
  rcases h with hp | ⟨hp | hp, hdet, hret⟩
  · cases hs with
    | arrive => exact Or.inl hp
    | freeWaiters => exact Or.inr ⟨Or.inl rfl, rfl, nofun⟩
    | key hp' | authChain hp' | auth hp' | chain hp' | compare hp' | data hp' | decode hp'
    | free hp' => cases hp.symm.trans hp'
  · cases hs with
    | arrive hn => cases hdet.symm.trans hn
    | free => exact Or.inr ⟨Or.inr rfl, hdet, hret⟩
    | freeWaiters hp' | key hp' | authChain hp' | auth hp' | chain hp' | compare hp' | data hp'
    | decode hp' => cases hp.symm.trans hp'
  · cases hs with
    | arrive hn => cases hdet.symm.trans hn
    | freeWaiters hp' | key hp' | authChain hp' | auth hp' | chain hp' | compare hp' | data hp'
    | decode hp' | free hp' => cases hp.symm.trans hp'

theorem Broken.ordered (h : Broken st) (hfreed : FreedOnce st) : p.Ordered q st := by
  refine ⟨?_, ?_, hfreed.once, ?_⟩
  · intro i l d hd huses
    rcases h with hp | ⟨hp | hp, -⟩ <;> rw [hp] at huses <;> cases huses
  · intro hp k w hk
    rcases h with hp' | ⟨-, hdet, -⟩
    · cases hp.symm.trans hp'
    · exact Or.inr hdet
  · intro hp hret
    rcases h with hp' | ⟨-, -, hne⟩
    · cases hp.symm.trans hp'
    · exact absurd hret hne

/-- What holds while the sectors are taken one by one. -/
structure Going (p : Plan) (st : Reading) : Prop where
  seen : p.Seen st
  waits : p.Waits st
  checked : p.Checked st
  freed : FreedOnce st

theorem Going.step (h : p.Going st) (hsound : p.Sound q) (hsingle : p.Single)
    (hs : p.Step st e st') (hcalm : p.Calm st e) : p.Going st' :=
  ⟨h.seen.step hsound hsingle hs, h.waits.step hsound hsingle hs hcalm,
    h.checked.step h.waits.place hs, h.freed.step hs fun hp => absurd hp h.waits.place⟩

theorem Going.ordered (h : p.Going st) (hsound : p.Sound q) : p.Ordered q st := by
  refine ⟨h.seen, ?_, h.freed.once, ?_⟩
  · intro hp k w hk
    refine Or.inl ?_
    intro hready
    -- at the end nothing is ahead
    cases hbuff : w.buff with
    | auth g l pos =>
      cases l with
      | zero =>
        obtain ⟨i, d, -, -, hahead⟩ := h.waits.root k w g hk ⟨pos, hbuff⟩ hready
        rw [hp] at hahead
        exact hahead
      | succ l =>
        obtain ⟨i, d, -, -, hchain | ⟨-, -, hahead⟩⟩ :=
          h.waits.chain k w g l hk ⟨pos, hbuff⟩ hready
        · rw [hp] at hchain
          exact hchain
        · rw [hp] at hahead
          exact hahead
    | data i =>
      have hahead := h.waits.data k w i hk hbuff hready
      rw [hp] at hahead
      exact hahead
  · intro hp hret i hi
    obtain ⟨d, hd⟩ := hsound.pages i hi
    obtain ⟨gr, hgr, hwhole⟩ := hsound.owner i d hd
    refine ⟨?_, ?_⟩
    · rcases h.checked.decoded hret i d hd with hahead | hmem
      · rw [hp] at hahead
        cases hahead
      · exact hmem
    · rcases hwhole with ⟨-, hknown⟩ | ⟨hlen, hcaps⟩
      · exact Or.inl hknown
      · refine Or.inr ⟨d, gr, hd, hgr, ?_⟩
        intro l hl
        have hcap := List.getElem?_eq_getElem (show l < gr.chain.length by omega)
        obtain ⟨s, hs, hat⟩ := hcaps l _ hcap
        refine ⟨_, s, hcap, hs, hat, ?_⟩
        rcases h.checked.cleared hret i d gr hd hgr with hahead | hnil | hmem
        · rw [hp] at hahead
          cases hahead
        · rw [hnil, List.length_nil] at hlen
          omega
        · rcases h.checked.matched hret _ l gr _ hmem hgr hcap with hmatch | ⟨j, d', -, -, hlink⟩
          · exact hmatch
          · rw [hp] at hlink
            cases hlink

/-- A step under a condition on the state before it. -/
def StepsWhen (p : Plan) (cond : Reading → ReadEvent → Prop) (st st' : Reading) : Prop :=
  ∃ e, p.Step st e st' ∧ cond st e

/-- With a waiter on `waiting` the way over `err0` frees it twice. -/
theorem not_ordered_of_err0 (q : Request) (hfailed : p.failed = true) (hwaiting : p.waiting ≠ []) :
    ∃ st, Relation.ReflTransGen (p.StepsWhen p.Calm) (p.start q.needkey) st ∧
      ¬ p.Ordered q st := by
  have hplace : (p.start q.needkey).place = .err0 := by
    rw [start, hfailed]
    rfl
  refine ⟨_, (Relation.ReflTransGen.single
    ⟨.freeWaiters, .freeWaiters hplace, fun _ h => h.elim⟩).tail
    ⟨.free, .free rfl, fun _ h => h.elim⟩, ?_⟩
  intro hordered
  have honce : p.release (p.release fun _ => 0) 0 ≤ 1 := hordered.once 0
  have hpos : 0 < p.waiting.length := List.length_pos_iff.mpr hwaiting
  rw [release, release, if_pos hpos, if_pos hpos] at honce
  exact absurd honce (by decide)

/-- The first bytes of a file of two sectors.  Its lowest auth sector lies on the pages 1 and 2. -/
def twoSectors : Request := ⟨8186, 0, 100, 0, false⟩

end Plan

end PcloudClient.Ppagecache
