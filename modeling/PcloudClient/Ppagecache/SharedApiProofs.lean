/-
  Ppagecache/SharedApiProofs.lean --- who owns a shared connection, and whose answers come next
  on it.
-/
import PcloudClient.Ppagecache.SharedApi

set_option autoImplicit false

namespace PcloudClient.Ppagecache.SharedApi

variable {ι : Type} [DecidableEq ι]

/-! ## Ownership -/

/-- How often the connection was got from the pool. -/
def gets (calls : List PoolCall) (s : Sock) : Nat := calls.count (.get s)

/-- How often it was given back, as good or as bad. -/
def releases (calls : List PoolCall) (s : Sock) : Nat :=
  calls.count (.release s) + calls.count (.releaseBad s)

/-- Every connection has one owner, or is with the pool, and was given back as often as it was
got but for the time it has an owner. -/
structure Ledger (own : ι → Option Sock) (pool : List Sock) (next : Nat)
    (calls : List PoolCall) : Prop where
  one : ∀ t u s, own t = some s → own u = some s → t = u
  nodup : pool.Nodup
  apart : ∀ s ∈ pool, ∀ t, own t ≠ some s
  old : ∀ t s, own t = some s → s < next
  poolOld : ∀ s ∈ pool, s < next
  owned : ∀ t s, own t = some s → gets calls s = releases calls s + 1
  free : ∀ s, (∀ t, own t ≠ some s) → gets calls s = releases calls s

namespace Ledger

variable {own : ι → Option Sock} {pool : List Sock} {next : Nat} {calls : List PoolCall}

/-- A thread gets a connection that nobody owns. -/
theorem get (h : Ledger own pool next calls) {t : ι} {s : Sock} {pool' : List Sock} {next' : Nat}
    (ht : own t = none) (hs : ∀ u, own u ≠ some s) (hpool : pool'.Nodup)
    (hsub : ∀ x ∈ pool', x ∈ pool ∧ x ≠ s) (hnext : next ≤ next') (hlt : s < next') :
    Ledger (Function.update own t (some s)) pool' next' (.get s :: calls) := by
  have hown : ∀ u x, Function.update own t (some s) u = some x →
      (u = t ∧ x = s) ∨ (u ≠ t ∧ own u = some x) := by
    intro u x hu
    by_cases hut : u = t
    · subst hut
      rw [Function.update_self] at hu
      exact Or.inl ⟨rfl, (Option.some.inj hu).symm⟩
    · rw [Function.update_of_ne hut] at hu
      exact Or.inr ⟨hut, hu⟩
  have hcount : ∀ x, x ≠ s → gets (.get s :: calls) x = gets calls x := by
    intro x hx
    simp [gets, Ne.symm hx]
  have hrel : ∀ x, releases (.get s :: calls) x = releases calls x := by
    intro x
    simp [releases]
  constructor
  · intro u v x hu hv
    rcases hown u x hu with ⟨rfl, rfl⟩ | ⟨-, hu'⟩
    · rcases hown v x hv with ⟨rfl, -⟩ | ⟨-, hv'⟩
      · rfl
      · exact absurd hv' (hs v)
    · rcases hown v x hv with ⟨rfl, rfl⟩ | ⟨-, hv'⟩
      · exact absurd hu' (hs u)
      · exact h.one u v x hu' hv'
  · exact hpool
  · intro x hx u hu
    rcases hown u x hu with ⟨-, rfl⟩ | ⟨-, hu⟩
    · exact (hsub x hx).2 rfl
    · exact h.apart x (hsub x hx).1 u hu
  · intro u x hu
    rcases hown u x hu with ⟨-, rfl⟩ | ⟨-, hu⟩
    · exact hlt
    · exact Nat.lt_of_lt_of_le (h.old u x hu) hnext
  · exact fun x hx => Nat.lt_of_lt_of_le (h.poolOld x (hsub x hx).1) hnext
  · intro u x hu
    rcases hown u x hu with ⟨-, rfl⟩ | ⟨-, hu'⟩
    · rw [hrel, ← h.free x hs]
      simp [gets]
    · have hne : x ≠ s := by
        rintro rfl
        exact hs u hu'
      rw [hcount x hne, hrel]
      exact h.owned u x hu'
  · intro x hx
    have hne : x ≠ s := by
      rintro rfl
      exact hx t (by simp)
    rw [hcount x hne, hrel]
    refine h.free x fun u hu => ?_
    have hut : u ≠ t := by
      rintro rfl
      rw [ht] at hu
      cases hu
    exact hx u (by rw [Function.update_of_ne hut]; exact hu)

/-- The owner gives its connection back. -/
theorem drop (h : Ledger own pool next calls) {t : ι} {s : Sock} {pool' : List Sock}
    {c : PoolCall} (ht : own t = some s) (hc : c = .release s ∨ c = .releaseBad s)
    (hpool : pool' = pool ∨ pool' = s :: pool) :
    Ledger (Function.update own t none) pool' next (c :: calls) := by
  have hown : ∀ u x, Function.update own t none u = some x → u ≠ t ∧ own u = some x := by
    intro u x hu
    have hut : u ≠ t := by
      rintro rfl
      rw [Function.update_self] at hu
      cases hu
    rw [Function.update_of_ne hut] at hu
    exact ⟨hut, hu⟩
  have hne : ∀ u x, Function.update own t none u = some x → x ≠ s := by
    rintro u x hu rfl
    exact (hown u x hu).1 (h.one u t x (hown u x hu).2 ht)
  have hgets : ∀ x, gets (c :: calls) x = gets calls x := by
    intro x
    rcases hc with rfl | rfl <;> simp [gets]
  have hother : ∀ x, x ≠ s → releases (c :: calls) x = releases calls x := by
    intro x hx
    rcases hc with rfl | rfl <;> simp [releases, Ne.symm hx]
  have hself : releases (c :: calls) s = releases calls s + 1 := by
    rcases hc with rfl | rfl <;> simp [releases] <;> omega
  constructor
  · exact fun u v x hu hv => h.one u v x (hown u x hu).2 (hown v x hv).2
  · rcases hpool with rfl | rfl
    · exact h.nodup
    · exact List.nodup_cons.mpr ⟨fun hs => h.apart s hs t ht, h.nodup⟩
  · intro x hx u hu
    rcases hpool with rfl | rfl
    · exact h.apart x hx u (hown u x hu).2
    · rcases List.mem_cons.mp hx with rfl | hx
      · exact hne u x hu rfl
      · exact h.apart x hx u (hown u x hu).2
  · exact fun u x hu => h.old u x (hown u x hu).2
  · intro x hx
    rcases hpool with rfl | rfl
    · exact h.poolOld x hx
    · rcases List.mem_cons.mp hx with rfl | hx
      · exact h.old t x ht
      · exact h.poolOld x hx
  · intro u x hu
    rw [hgets, hother x (hne u x hu)]
    exact h.owned u x (hown u x hu).2
  · intro x hx
    rw [hgets]
    by_cases hxs : x = s
    · subst hxs
      rw [hself]
      exact h.owned t x ht
    · rw [hother x hxs]
      refine h.free x fun u hu => ?_
      have hut : u ≠ t := by
        rintro rfl
        exact hxs (Option.some.inj (hu.symm.trans ht))
      exact hx u (by rw [Function.update_of_ne hut]; exact hu)

/-- The owner passes its connection to another thread. -/
theorem pass (h : Ledger own pool next calls) {t w : ι} {s : Sock} (ht : own t = some s)
    (hw : own w = none) :
    Ledger (Function.update (Function.update own w (some s)) t none) pool next calls := by
  have htw : t ≠ w := by
    rintro rfl
    rw [ht] at hw
    cases hw
  have hown : ∀ u x, Function.update (Function.update own w (some s)) t none u = some x →
      (u = w ∧ x = s) ∨ (u ≠ t ∧ own u = some x) := by
    intro u x hu
    by_cases hut : u = t
    · subst hut
      rw [Function.update_self] at hu
      cases hu
    · rw [Function.update_of_ne hut] at hu
      by_cases huw : u = w
      · subst huw
        rw [Function.update_self] at hu
        exact Or.inl ⟨rfl, (Option.some.inj hu).symm⟩
      · rw [Function.update_of_ne huw] at hu
        exact Or.inr ⟨hut, hu⟩
  have hback : ∀ u x, own u = some x →
      ∃ v, Function.update (Function.update own w (some s)) t none v = some x := by
    intro u x hu
    by_cases hut : u = t
    · subst hut
      obtain rfl := Option.some.inj (hu.symm.trans ht)
      exact ⟨w, by rw [Function.update_of_ne htw.symm, Function.update_self]⟩
    · have huw : u ≠ w := by
        rintro rfl
        rw [hw] at hu
        cases hu
      exact ⟨u, by rw [Function.update_of_ne hut, Function.update_of_ne huw]; exact hu⟩
  have hfrom : ∀ u x, Function.update (Function.update own w (some s)) t none u = some x →
      ∃ v, own v = some x := by
    intro u x hu
    rcases hown u x hu with ⟨-, rfl⟩ | ⟨-, hu⟩
    · exact ⟨t, ht⟩
    · exact ⟨u, hu⟩
  constructor
  · intro u v x hu hv
    rcases hown u x hu with ⟨rfl, rfl⟩ | ⟨hut, hu'⟩
    · rcases hown v x hv with ⟨rfl, -⟩ | ⟨hvt, hv'⟩
      · rfl
      · exact absurd (h.one v t x hv' ht) hvt
    · rcases hown v x hv with ⟨rfl, rfl⟩ | ⟨-, hv'⟩
      · exact absurd (h.one u t x hu' ht) hut
      · exact h.one u v x hu' hv'
  · exact h.nodup
  · intro x hx u hu
    obtain ⟨v, hv⟩ := hfrom u x hu
    exact h.apart x hx v hv
  · intro u x hu
    obtain ⟨v, hv⟩ := hfrom u x hu
    exact h.old v x hv
  · exact h.poolOld
  · intro u x hu
    obtain ⟨v, hv⟩ := hfrom u x hu
    exact h.owned v x hv
  · intro x hx
    refine h.free x fun u hu => ?_
    obtain ⟨v, hv⟩ := hback u x hu
    exact hx v hv

omit [DecidableEq ι] in
/-- The pool changes without a thread. -/
theorem repool (h : Ledger own pool next calls) {pool' : List Sock} {next' : Nat}
    (hpool : pool'.Nodup) (hmem : ∀ x ∈ pool', x ∈ pool ∨ next ≤ x) (hle : next ≤ next')
    (hlt : ∀ x ∈ pool', x < next') : Ledger own pool' next' calls := by
  refine ⟨h.one, hpool, ?_, fun t s hs => Nat.lt_of_lt_of_le (h.old t s hs) hle, hlt,
    h.owned, h.free⟩
  intro x hx t ht
  rcases hmem x hx with hx | hx
  · exact h.apart x hx t ht
  · exact absurd (h.old t x ht) (Nat.not_lt.mpr hx)

end Ledger

/-! ## The answers on a connection -/

namespace Pc

/-- The connection that others may send on while the thread has it. -/
def offers : Pc → Option Sock
  | reading _ s _ => some s
  | broken s _ => some s
  | woken s passed => if passed then some s else none
  | _ => none

/-- The connection whose next answers are those of the thread. -/
def healthy : Pc → Option Sock
  | sent _ s => some s
  | reading _ s _ => some s
  | woken s passed => if passed then some s else none
  | _ => none

/-- The connection that has no answers to come. -/
def silent : Pc → Option Sock
  | sending _ s => some s
  | releasing s => some s
  | _ => none

def waits : Pc → Option Sock
  | waiting s => some s
  | _ => none

/-- The thread is about to leave with the connection in hand. -/
def keeps : Pc → Bool
  | broken _ keeps => keeps
  | _ => false

variable {x : Pc} {s : Sock}

theorem owns_of_offers (h : x.offers = some s) : x.owns = some s := by
  cases x <;> simp_all [offers, owns]

theorem owns_of_healthy (h : x.healthy = some s) : x.owns = some s := by
  cases x <;> simp_all [healthy, owns]

theorem owns_of_silent (h : x.silent = some s) : x.owns = some s := by
  cases x <;> simp_all [silent, owns]

theorem not_owns_of_waits (h : x.waits = some s) : x.owns = none := by
  cases x <;> simp_all [waits, owns]

end Pc

/-- The requests of the waiters, behind those of the thread that has the connection. -/
def State.behind (st : State ι) (s : Sock) : List (Req ι) :=
  if st.sharedapi = some s then st.sharedapiwaiters.flatMap st.pending else []

structure Inv (st : State ι) : Prop where
  ledger : Ledger (fun t => (st.pc t).owns) st.pool st.next st.calls
  senders : ∀ t, ∀ q ∈ st.pending t, q.sender = t
  nodup : st.sharedapiwaiters.Nodup
  queued : ∀ t, t ∈ st.sharedapiwaiters ↔ (st.pc t).waits ≠ none
  queue : ∀ t s, (st.pc t).waits = some s → st.sharedapi = some s
  offered : ∀ s, st.sharedapi = some s → ∃ t, (st.pc t).offers = some s
  wires : ∀ t s, (st.pc t).healthy = some s → st.wire s = st.pending t ++ st.behind s
  silent : ∀ t s, (st.pc t).silent = some s → st.wire s = []
  idle : ∀ s ∈ st.pool, st.wire s = []
  unused : ∀ s, st.next ≤ s → st.wire s = []
  none_keeps : ∀ t, (st.pc t).keeps = false
  answers : ∀ a ∈ st.answers, ∃ q, a.expected = some q ∧ a.got = some q ∧ q.sender = a.reader

section

variable {st st' : State ι} {t : ι} {x : Pc}

omit [DecidableEq ι] in
theorem inv_init : Inv (State.init ι) := by
  refine ⟨⟨?_, List.nodup_nil, ?_, ?_, ?_, ?_, ?_⟩, ?_, List.nodup_nil, ?_, ?_, ?_, ?_, ?_, ?_, ?_,
    ?_, ?_⟩ <;> simp [State.init, Pc.owns, Pc.waits, Pc.healthy, Pc.silent, Pc.keeps, gets,
    releases]

/-- A thread acts on its own: on the connection it has and on the pool. -/
structure Local (st st' : State ι) (t : ι) (x : Pc) : Prop where
  pc : st'.pc = Function.update st.pc t x
  wire : ∀ s, (st.pc t).owns ≠ some s → st'.wire s = st.wire s
  pending : ∀ u, u ≠ t → st'.pending u = st.pending u
  shared : st'.sharedapi = st.sharedapi
  waiters : st'.sharedapiwaiters = st.sharedapiwaiters
  before : (st.pc t).waits = none
  after : x.waits = none

theorem owns_update (pc : ι → Pc) (t : ι) (x : Pc) :
    (fun u => (Function.update pc t x u).owns) =
      Function.update (fun u => (pc u).owns) t x.owns := by
  funext u
  by_cases hu : u = t
  · subst hu
    simp
  · simp [Function.update_of_ne hu]

omit [DecidableEq ι] in
theorem Inv.not_waiter (h : Inv st) (ht : (st.pc t).waits = none) : t ∉ st.sharedapiwaiters :=
  fun hmem => (h.queued t).mp hmem ht

theorem Local.behind (h : Inv st) (hl : Local st st' t x) (s : Sock) :
    st'.behind s = st.behind s := by
  unfold State.behind
  rw [hl.shared, hl.waiters]
  split
  · refine List.flatMap_congr fun u hu => ?_
    refine hl.pending u ?_
    rintro rfl
    exact h.not_waiter hl.before hu
  · rfl

/-- What is left to show of a thread that acts on its own. -/
theorem Local.inv (h : Inv st) (hl : Local st st' t x)
    (hledger : Ledger (Function.update (fun u => (st.pc u).owns) t x.owns) st'.pool st'.next
      st'.calls)
    (hsender : ∀ q ∈ st'.pending t, q.sender = t)
    (hoffers : ∀ s, (st.pc t).offers = some s → st.sharedapi = some s → x.offers = some s)
    (hwires : ∀ s, x.healthy = some s → st'.wire s = st'.pending t ++ st.behind s)
    (hsilent : ∀ s, x.silent = some s → st'.wire s = [])
    (hidle : ∀ s ∈ st'.pool, st'.wire s = []) (hunused : ∀ s, st'.next ≤ s → st'.wire s = [])
    (hkeeps : x.keeps = false)
    (hanswers : ∀ a ∈ st'.answers,
      ∃ q, a.expected = some q ∧ a.got = some q ∧ q.sender = a.reader) : Inv st' := by
  have hother : ∀ u s, u ≠ t → (st.pc u).owns = some s → (st.pc t).owns ≠ some s :=
    fun u s hu hus hts => hu (h.ledger.one u t s hus hts)
  have hpc : ∀ u, u ≠ t → st'.pc u = st.pc u := by
    intro u hu
    rw [hl.pc, Function.update_of_ne hu]
  have hself : st'.pc t = x := by rw [hl.pc, Function.update_self]
  constructor
  · rw [hl.pc, owns_update]
    exact hledger
  · intro u q hq
    by_cases hu : u = t
    · subst hu
      exact hsender q hq
    · rw [hl.pending u hu] at hq
      exact h.senders u q hq
  · rw [hl.waiters]
    exact h.nodup
  · intro u
    rw [hl.waiters]
    by_cases hu : u = t
    · subst hu
      rw [hself, hl.after]
      simpa using h.not_waiter hl.before
    · rw [hpc u hu]
      exact h.queued u
  · intro u s hus
    rw [hl.shared]
    by_cases hu : u = t
    · subst hu
      rw [hself, hl.after] at hus
      cases hus
    · rw [hpc u hu] at hus
      exact h.queue u s hus
  · intro s hs
    rw [hl.shared] at hs
    obtain ⟨u, hu⟩ := h.offered s hs
    by_cases hut : u = t
    · subst hut
      exact ⟨u, by rw [hself]; exact hoffers s hu hs⟩
    · exact ⟨u, by rw [hpc u hut]; exact hu⟩
  · intro u s hus
    rw [hl.behind h]
    by_cases hu : u = t
    · subst hu
      rw [hself] at hus
      exact hwires s hus
    · rw [hpc u hu] at hus
      rw [hl.wire s (hother u s hu (Pc.owns_of_healthy hus)), hl.pending u hu]
      exact h.wires u s hus
  · intro u s hus
    by_cases hu : u = t
    · subst hu
      rw [hself] at hus
      exact hsilent s hus
    · rw [hpc u hu] at hus
      rw [hl.wire s (hother u s hu (Pc.owns_of_silent hus))]
      exact h.silent u s hus
  · exact hidle
  · exact hunused
  · intro u
    by_cases hu : u = t
    · subst hu
      rw [hself]
      exact hkeeps
    · rw [hpc u hu]
      exact h.none_keeps u
  · exact hanswers

/-- The owner goes on with its connection. -/
theorem Inv.same_owner (h : Inv st) (hx : x.owns = (st.pc t).owns) :
    Ledger (Function.update (fun u => (st.pc u).owns) t x.owns) st.pool st.next st.calls := by
  have hsame : Function.update (fun u => (st.pc u).owns) t x.owns = fun u => (st.pc u).owns := by
    rw [hx]
    exact Function.update_eq_self t _
  rw [hsame]
  exact h.ledger

omit [DecidableEq ι] in
/-- A connection that is shared has an owner that offers it. -/
theorem Inv.not_shared (h : Inv st) {s : Sock} (hown : (st.pc t).owns = some s)
    (hno : (st.pc t).offers = none) : st.sharedapi ≠ some s := by
  intro hs
  obtain ⟨u, hu⟩ := h.offered s hs
  obtain rfl := h.ledger.one u t s (Pc.owns_of_offers hu) hown
  rw [hno] at hu
  cases hu

omit [DecidableEq ι] in
theorem Inv.behind_nil (h : Inv st) {s : Sock} (hown : (st.pc t).owns = some s)
    (hno : (st.pc t).offers = none) : st.behind s = [] := by
  unfold State.behind
  rw [if_neg (h.not_shared hown hno)]

omit [DecidableEq ι] in
/-- The pool changes without a thread. -/
theorem Inv.repool (h : Inv st) (pool : List Sock) (next : Nat) (hpool : pool.Nodup)
    (hmem : ∀ s ∈ pool, s ∈ st.pool ∨ st.next ≤ s) (hle : st.next ≤ next)
    (hlt : ∀ s ∈ pool, s < next) : Inv { st with pool := pool, next := next } := by
  refine ⟨h.ledger.repool hpool hmem hle hlt, h.senders, h.nodup, h.queued, h.queue, h.offered,
    h.wires, h.silent, ?_, fun s hs => h.unused s (Nat.le_trans hle hs), h.none_keeps, h.answers⟩
  intro s hs
  rcases hmem s hs with hs | hs
  · exact h.idle s hs
  · exact h.unused s hs

/-- The thread gets a connection that nobody owns and nothing is on. -/
theorem Inv.get (h : Inv st) (ht : st.pc t = .out) (path : Path) {s : Sock} (pool : List Sock)
    (next : Nat) (hs : ∀ u, (st.pc u).owns ≠ some s) (hwire : st.wire s = [])
    (hpool : pool.Nodup) (hsub : ∀ x ∈ pool, x ∈ st.pool ∧ x ≠ s) (hnext : st.next ≤ next)
    (hlt : s < next) :
    Inv { st.goto t (.sending path s) with
      pool := pool, next := next, calls := .get s :: st.calls } := by
  have hl : Local st { st.goto t (.sending path s) with
      pool := pool, next := next, calls := .get s :: st.calls } t (.sending path s) :=
    ⟨rfl, fun _ _ => rfl, fun _ _ => rfl, rfl, rfl, by rw [ht]; rfl, rfl⟩
  refine hl.inv h (h.ledger.get ?_ hs hpool hsub hnext hlt) (h.senders t) ?_ ?_ ?_ ?_ ?_ rfl
    h.answers
  · rw [ht]
    rfl
  · intro s' hs'
    rw [ht] at hs'
    cases hs'
  · exact fun s' hs' => nomatch hs'
  · intro s' hs'
    obtain rfl := Option.some.inj hs'
    exact hwire
  · exact fun s' hs' => h.idle s' (hsub s' hs').1
  · exact fun s' hs' => h.unused s' (Nat.le_trans hnext hs')

/-- The requests that a thread puts on its connection. -/
theorem Inv.send (h : Inv st) {path : Path} {s : Sock} (ht : st.pc t = .sending path s) (n : Nat)
    (ok : Bool) :
    Inv ((st.send t s n).goto t (if ok then .sent path s else .closing s)) := by
  have hown : (st.pc t).owns = some s := by rw [ht]; rfl
  have hempty : st.wire s = [] := h.silent t s (by rw [ht]; rfl)
  have hbehind : st.behind s = [] := h.behind_nil hown (by rw [ht]; rfl)
  have hlt : s < st.next := h.ledger.old t s hown
  have hother : ∀ s', s' ≠ s →
      Function.update st.wire s (st.wire s ++ (List.range n).map fun i => ⟨t, st.serial + i⟩) s' =
        st.wire s' := fun s' hs' => Function.update_of_ne hs' _ _
  have hl : Local st ((st.send t s n).goto t (if ok then .sent path s else .closing s)) t
      (if ok then .sent path s else .closing s) := by
    refine ⟨rfl, ?_, ?_, rfl, rfl, by rw [ht]; rfl, by cases ok <;> rfl⟩
    · intro s' hs'
      refine hother s' ?_
      rintro rfl
      exact hs' hown
    · exact fun u hu => Function.update_of_ne hu _ _
  refine hl.inv h (h.same_owner ?_) ?_ ?_ ?_ ?_ ?_ ?_ ?_ h.answers
  · rw [hown]
    cases ok <;> rfl
  · intro q hq
    simp only [State.goto, State.send, Function.update_self, List.mem_map] at hq
    obtain ⟨i, -, rfl⟩ := hq
    rfl
  · intro s' hs'
    rw [ht] at hs'
    cases hs'
  · intro s' hs'
    cases ok with
    | true =>
      obtain rfl := Option.some.inj hs'
      simp [State.goto, State.send, hempty, hbehind]
    | false => cases hs'
  · intro s' hs'
    cases ok <;> cases hs'
  · intro s' hs'
    have hne : s' ≠ s := by
      rintro rfl
      exact h.ledger.apart s' hs' t hown
    exact (hother s' hne).trans (h.idle s' hs')
  · intro s' hs'
    have hne : s' ≠ s := by
      rintro rfl
      exact absurd hlt (Nat.not_lt.mpr hs')
    exact (hother s' hne).trans (h.unused s' hs')
  · cases ok <;> rfl

/-- The next answer is the one that the reader expects. -/
theorem Inv.read (h : Inv st) {path : Path} {s : Sock} {first : Bool}
    (ht : st.pc t = .reading path s first) (hne : st.pending t ≠ []) :
    Inv ((st.readAnswer t s).goto t (.reading path s false)) := by
  have hown : (st.pc t).owns = some s := by rw [ht]; rfl
  have hwire : st.wire s = st.pending t ++ st.behind s := h.wires t s (by rw [ht]; rfl)
  have hlt : s < st.next := h.ledger.old t s hown
  obtain ⟨q, rest, hpend⟩ := List.exists_cons_of_ne_nil hne
  have hother : ∀ s', s' ≠ s →
      Function.update st.wire s (st.wire s).tail s' = st.wire s' :=
    fun s' hs' => Function.update_of_ne hs' _ _
  have hl : Local st ((st.readAnswer t s).goto t (.reading path s false)) t
      (.reading path s false) := by
    refine ⟨rfl, ?_, ?_, rfl, rfl, by rw [ht]; rfl, rfl⟩
    · intro s' hs'
      refine hother s' ?_
      rintro rfl
      exact hs' hown
    · exact fun u hu => Function.update_of_ne hu _ _
  refine hl.inv h (h.same_owner (by rw [hown]; rfl)) ?_ ?_ ?_ ?_ ?_ ?_ rfl ?_
  · intro q' hq'
    simp only [State.goto, State.readAnswer, Function.update_self] at hq'
    exact h.senders t q' (List.mem_of_mem_tail hq')
  · intro s' hs' _
    rw [ht] at hs'
    exact hs'
  · intro s' hs'
    obtain rfl := Option.some.inj hs'
    simp only [State.goto, State.readAnswer, Function.update_self]
    rw [hwire, hpend]
    rfl
  · exact fun s' hs' => nomatch hs'
  · intro s' hs'
    have hs'' : s' ≠ s := by
      rintro rfl
      exact h.ledger.apart s' hs' t hown
    exact (hother s' hs'').trans (h.idle s' hs')
  · intro s' hs'
    have hs'' : s' ≠ s := by
      rintro rfl
      exact absurd hlt (Nat.not_lt.mpr hs')
    exact (hother s' hs'').trans (h.unused s' hs')
  · intro a ha
    rcases List.mem_cons.mp ha with rfl | ha
    · refine ⟨q, by simp [hpend], by simp [hwire, hpend], h.senders t q (by simp [hpend])⟩
    · exact h.answers a ha

/-- The thread goes on with nothing sent or read. -/
theorem Inv.goto (h : Inv st) (hown : x.owns = (st.pc t).owns) (hbefore : (st.pc t).waits = none)
    (hafter : x.waits = none)
    (hoffers : ∀ s, (st.pc t).offers = some s → st.sharedapi = some s → x.offers = some s)
    (hwires : ∀ s, x.healthy = some s → st.wire s = st.pending t ++ st.behind s)
    (hsilent : ∀ s, x.silent = some s → st.wire s = []) (hkeeps : x.keeps = false) :
    Inv (st.goto t x) := by
  have hl : Local st (st.goto t x) t x :=
    ⟨rfl, fun _ _ => rfl, fun _ _ => rfl, rfl, rfl, hbefore, hafter⟩
  exact hl.inv h (h.same_owner hown) (h.senders t) hoffers hwires hsilent h.idle h.unused hkeeps
    h.answers

/-- The owner gives its connection back to the pool. -/
theorem Inv.drop (h : Inv st) (pool : List Sock) {s : Sock} (hown : (st.pc t).owns = some s)
    (hbefore : (st.pc t).waits = none) (hoffers : (st.pc t).offers = none)
    {c : PoolCall} (hc : c = .release s ∨ c = .releaseBad s)
    (hpool : pool = st.pool ∨ (pool = s :: st.pool ∧ st.wire s = [])) :
    Inv { st.goto t .out with pool := pool, calls := c :: st.calls } := by
  have hl : Local st { st.goto t .out with pool := pool, calls := c :: st.calls } t .out :=
    ⟨rfl, fun _ _ => rfl, fun _ _ => rfl, rfl, rfl, hbefore, rfl⟩
  refine hl.inv h (h.ledger.drop hown hc (hpool.imp id And.left)) (h.senders t) ?_ ?_ ?_ ?_
    h.unused rfl h.answers
  · intro s' hs'
    rw [hoffers] at hs'
    cases hs'
  · exact fun s' hs' => nomatch hs'
  · exact fun s' hs' => nomatch hs'
  · intro s' hs'
    rcases hpool with rfl | ⟨rfl, hwire⟩
    · exact h.idle s' hs'
    · rcases List.mem_cons.mp hs' with rfl | hs'
      · exact hwire
      · exact h.idle s' hs'

omit [DecidableEq ι] in
/-- Nobody waits while no connection is shared. -/
theorem Inv.waiters_nil (h : Inv st) (hs : st.sharedapi = none) : st.sharedapiwaiters = [] := by
  rw [List.eq_nil_iff_forall_not_mem]
  intro u hu
  obtain ⟨s, hus⟩ := Option.ne_none_iff_exists'.mp ((h.queued u).mp hu)
  rw [h.queue u s hus] at hs
  cases hs

/-- The thread offers its connection. -/
theorem Inv.markApiShared (h : Inv st) {path : Path} {s : Sock} (ht : st.pc t = .sent path s) :
    Inv ((st.markApiShared s).goto t (.reading path s true)) := by
  have hown : (st.pc t).owns = some s := by rw [ht]; rfl
  have hwire : st.wire s = st.pending t ++ st.behind s := h.wires t s (by rw [ht]; rfl)
  have hgo : Inv (st.goto t (.reading path s true)) := by
    refine h.goto (by rw [hown]; rfl) (by rw [ht]; rfl) rfl ?_ ?_ (fun _ hs => nomatch hs) rfl
    · intro s' hs'
      rw [ht] at hs'
      cases hs'
    · intro s' hs'
      obtain rfl := Option.some.inj hs'
      exact hwire
  unfold State.markApiShared
  split
  next hnone =>
    have hnil := h.waiters_nil hnone
    refine ⟨hgo.ledger, hgo.senders, hgo.nodup, hgo.queued, ?_, ?_, ?_, hgo.silent, hgo.idle,
      hgo.unused, hgo.none_keeps, hgo.answers⟩
    · intro u s' hus
      have := hgo.queue u s' hus
      rw [show (st.goto t (.reading path s true)).sharedapi = none from hnone] at this
      cases this
    · intro s' hs'
      obtain rfl := Option.some.inj hs'
      exact ⟨t, by simp [State.goto, Pc.offers]⟩
    · intro u s' hus
      have := hgo.wires u s' hus
      have hzero : (st.goto t (.reading path s true)).behind s' = [] := by
        simp [State.behind, State.goto, hnone]
      have hone : ({ st with sharedapi := some s }.goto t (.reading path s true)).behind s' =
          [] := by
        simp [State.behind, State.goto, hnil]
      rw [hzero] at this
      rw [hone]
      exact this
  next => exact hgo

/-- The connection is no longer shared and its waiters are sent away. -/
theorem Inv.unshare (h : Inv st) {s : Sock} (hs : st.sharedapi = some s)
    (hq : ∀ u, (st.pc u).healthy = some s → st.sharedapiwaiters = []) :
    Inv ({ st with sharedapi := none }.signalAllWaiters s) := by
  have hpc : ∀ u, (if u ∈ st.sharedapiwaiters then Pc.woken s false else st.pc u) = st.pc u ∨
      ((st.pc u).waits = some s ∧
        (if u ∈ st.sharedapiwaiters then Pc.woken s false else st.pc u) = .woken s false) := by
    intro u
    by_cases hu : u ∈ st.sharedapiwaiters
    · rw [if_pos hu]
      obtain ⟨s', hus⟩ := Option.ne_none_iff_exists'.mp ((h.queued u).mp hu)
      obtain rfl := Option.some.inj (hs.symm.trans (h.queue u s' hus))
      exact Or.inr ⟨hus, rfl⟩
    · rw [if_neg hu]
      exact Or.inl rfl
  have howns : (fun u => (if u ∈ st.sharedapiwaiters then Pc.woken s false else st.pc u).owns) =
      fun u => (st.pc u).owns := by
    funext u
    rcases hpc u with hu | ⟨hw, hu⟩
    · rw [hu]
    · rw [hu, Pc.not_owns_of_waits hw]
      rfl
  have hwaits : ∀ u,
      (if u ∈ st.sharedapiwaiters then Pc.woken s false else st.pc u).waits = none := by
    intro u
    by_cases hu : u ∈ st.sharedapiwaiters
    · rw [if_pos hu]
      rfl
    · rw [if_neg hu]
      by_contra hw
      exact hu ((h.queued u).mpr hw)
  constructor
  · exact howns ▸ h.ledger
  · exact h.senders
  · exact List.nodup_nil
  · intro u
    simp [State.signalAllWaiters, hwaits u]
  · intro u s' hus
    exact absurd ((hwaits u).symm.trans hus) (by simp)
  · exact fun s' hs' => nomatch hs'
  · intro u s' hus
    have hbehind : ({ st with sharedapi := none }.signalAllWaiters s).behind s' = [] := by
      simp [State.behind, State.signalAllWaiters]
    rw [hbehind]
    rcases hpc u with hu | ⟨-, hu⟩
    · simp only [State.signalAllWaiters, hu] at hus
      have hold := h.wires u s' hus
      have hnil : st.behind s' = [] := by
        unfold State.behind
        split
        next heq =>
          obtain rfl := Option.some.inj (hs.symm.trans heq)
          rw [hq u hus]
          rfl
        next => rfl
      rw [hnil] at hold
      exact hold
    · simp only [State.signalAllWaiters, hu] at hus
      cases hus
  · intro u s' hus
    rcases hpc u with hu | ⟨-, hu⟩
    · simp only [State.signalAllWaiters, hu] at hus
      exact h.silent u s' hus
    · simp only [State.signalAllWaiters, hu] at hus
      cases hus
  · exact h.idle
  · exact h.unused
  · intro u
    rcases hpc u with hu | ⟨-, hu⟩
    · simp only [State.signalAllWaiters, hu]
      exact h.none_keeps u
    · simp only [State.signalAllWaiters, hu]
      rfl
  · exact h.answers

/-- The thread gives up a connection that it may have shared. -/
theorem Inv.markSharedApiBad (h : Inv st) {s : Sock} (ht : st.pc t = .broken s false) :
    Inv ((st.markSharedApiBad s).goto t (.closing s)) := by
  have hown : (st.pc t).owns = some s := by rw [ht]; rfl
  have hnot : t ∉ st.sharedapiwaiters := h.not_waiter (by rw [ht]; rfl)
  unfold State.markSharedApiBad
  split
  next hs =>
    have hun := h.unshare hs (by
      intro u hu
      obtain rfl := h.ledger.one u t s (Pc.owns_of_healthy hu) hown
      rw [ht] at hu
      cases hu)
    have hpc : ({ st with sharedapi := none }.signalAllWaiters s).pc t = .broken s false := by
      simp [State.signalAllWaiters, hnot, ht]
    refine hun.goto (by rw [hpc]; rfl) (by rw [hpc]; rfl) rfl ?_ (fun _ hs => nomatch hs)
      (fun _ hs => nomatch hs) rfl
    exact fun s' _ hs' => nomatch hs'
  next hs =>
    refine h.goto (by rw [hown]; rfl) (by rw [ht]; rfl) rfl ?_ (fun _ hs => nomatch hs)
      (fun _ hs => nomatch hs) rfl
    intro s' hoff hs'
    rw [ht] at hoff
    obtain rfl := Option.some.inj hoff
    exact absurd hs' hs

/-- The first waiter gets the connection. -/
theorem Inv.handOver (h : Inv st) {path : Path} {s : Sock} {first : Bool} {w : ι} {ws : List ι}
    (ht : st.pc t = .reading path s first) (hpend : st.pending t = [])
    (hs : st.sharedapi = some s) (hws : st.sharedapiwaiters = w :: ws) :
    Inv (({ st with sharedapiwaiters := ws }.goto w (.woken s true)).goto t .out) := by
  have hown : (st.pc t).owns = some s := by rw [ht]; rfl
  have hww : (st.pc w).waits ≠ none := (h.queued w).mp (by simp [hws])
  have hwt : w ≠ t := by
    rintro rfl
    rw [ht] at hww
    exact hww rfl
  have hwfree : (st.pc w).owns = none := by
    obtain ⟨s', hw⟩ := Option.ne_none_iff_exists'.mp hww
    exact Pc.not_owns_of_waits hw
  have hnodup : w ∉ ws ∧ ws.Nodup := by
    have := h.nodup
    rw [hws] at this
    exact List.nodup_cons.mp this
  have hwire : st.wire s = st.pending w ++ ws.flatMap st.pending := by
    rw [h.wires t s (by rw [ht]; rfl), hpend, State.behind, if_pos hs, hws]
    rfl
  -- the three kinds of threads after the step
  have hpt : Function.update (Function.update st.pc w (.woken s true)) t Pc.out t = .out :=
    Function.update_self ..
  have hpw : Function.update (Function.update st.pc w (.woken s true)) t Pc.out w =
      .woken s true := by
    rw [Function.update_of_ne hwt, Function.update_self]
  have hpu : ∀ u, u ≠ t → u ≠ w →
      Function.update (Function.update st.pc w (.woken s true)) t Pc.out u = st.pc u := by
    intro u hut huw
    rw [Function.update_of_ne hut, Function.update_of_ne huw]
  have hbehind : ∀ s', (({ st with sharedapiwaiters := ws }.goto w (.woken s true)).goto t
      .out).behind s' = if s' = s then ws.flatMap st.pending else [] := by
    intro s'
    simp only [State.behind, State.goto, hs, Option.some.injEq]
    by_cases hss : s = s'
    · rw [if_pos hss, if_pos hss.symm]
    · rw [if_neg hss, if_neg (Ne.symm hss)]
  constructor
  · have hledger := h.ledger.pass hown hwfree
    have hfun : (fun u => (Function.update (Function.update st.pc w (.woken s true)) t
        Pc.out u).owns) =
        Function.update (Function.update (fun u => (st.pc u).owns) w (some s)) t none := by
      rw [owns_update, owns_update]
      rfl
    exact hfun ▸ hledger
  · exact h.senders
  · exact hnodup.2
  · intro u
    simp only [State.goto]
    by_cases hut : u = t
    · subst hut
      rw [hpt]
      have := h.not_waiter (t := u) (by rw [ht]; rfl)
      rw [hws, List.mem_cons, not_or] at this
      simpa [Pc.waits] using this.2
    · by_cases huw : u = w
      · subst huw
        rw [hpw]
        simpa [Pc.waits] using hnodup.1
      · rw [hpu u hut huw, ← h.queued u, hws, List.mem_cons]
        simp [huw]
  · intro u s' hus
    simp only [State.goto] at hus
    by_cases hut : u = t
    · subst hut
      rw [hpt] at hus
      cases hus
    · by_cases huw : u = w
      · subst huw
        rw [hpw] at hus
        cases hus
      · rw [hpu u hut huw] at hus
        exact h.queue u s' hus
  · intro s' hs'
    obtain rfl := Option.some.inj (hs.symm.trans hs')
    exact ⟨w, by simp only [State.goto]; rw [hpw]; rfl⟩
  · intro u s' hus
    simp only [State.goto] at hus
    rw [hbehind s']
    by_cases hut : u = t
    · subst hut
      rw [hpt] at hus
      cases hus
    · by_cases huw : u = w
      · subst huw
        rw [hpw] at hus
        obtain rfl := Option.some.inj hus
        rw [if_pos rfl]
        exact hwire
      · rw [hpu u hut huw] at hus
        have hss : s' ≠ s := by
          rintro rfl
          exact hut (h.ledger.one u t s' (Pc.owns_of_healthy hus) hown)
        have hold := h.wires u s' hus
        rw [State.behind, hs, if_neg (by simpa using Ne.symm hss)] at hold
        rw [if_neg hss]
        exact hold
  · intro u s' hus
    simp only [State.goto] at hus
    by_cases hut : u = t
    · subst hut
      rw [hpt] at hus
      cases hus
    · by_cases huw : u = w
      · subst huw
        rw [hpw] at hus
        cases hus
      · rw [hpu u hut huw] at hus
        exact h.silent u s' hus
  · exact h.idle
  · exact h.unused
  · intro u
    simp only [State.goto]
    by_cases hut : u = t
    · subst hut
      rw [hpt]
      rfl
    · by_cases huw : u = w
      · subst huw
        rw [hpw]
        rfl
      · rw [hpu u hut huw]
        exact h.none_keeps u
  · exact h.answers

/-- A thread sends on the shared connection and queues up. -/
theorem Inv.sendShared (h : Inv st) {s : Sock} (ht : st.pc t = .out) (hs : st.sharedapi = some s)
    (n : Nat) :
    Inv { (st.send t s n).goto t (.waiting s) with
      sharedapiwaiters := (st.send t s n).sharedapiwaiters ++ [t] } := by
  obtain ⟨o, ho⟩ := h.offered s hs
  have hoown : (st.pc o).owns = some s := Pc.owns_of_offers ho
  have hot : o ≠ t := by
    rintro rfl
    rw [ht] at hoown
    cases hoown
  have hnot : t ∉ st.sharedapiwaiters := h.not_waiter (by rw [ht]; rfl)
  have hpt : Function.update st.pc t (.waiting s) t = .waiting s := Function.update_self ..
  have hpu : ∀ u, u ≠ t → Function.update st.pc t (.waiting s) u = st.pc u :=
    fun u hu => Function.update_of_ne hu _ _
  -- the requests of the waiters, and those of the new one
  generalize hreqs : ((List.range n).map fun i => (⟨t, st.serial + i⟩ : Req ι)) = reqs
  have hsenders : ∀ q ∈ reqs, q.sender = t := by
    intro q hq
    rw [← hreqs] at hq
    obtain ⟨i, -, rfl⟩ := List.mem_map.mp hq
    rfl
  have hqueue : (st.sharedapiwaiters ++ [t]).flatMap (Function.update st.pending t reqs) =
      st.sharedapiwaiters.flatMap st.pending ++ reqs := by
    rw [List.flatMap_append]
    congr 1
    · refine List.flatMap_congr fun u hu => Function.update_of_ne ?_ _ _
      rintro rfl
      exact hnot hu
    · simp
  have hother : ∀ s', s' ≠ s → Function.update st.wire s (st.wire s ++ reqs) s' = st.wire s' :=
    fun s' hs' => Function.update_of_ne hs' _ _
  have hst : { (st.send t s n).goto t (.waiting s) with
      sharedapiwaiters := (st.send t s n).sharedapiwaiters ++ [t] } =
      { st with
        wire := Function.update st.wire s (st.wire s ++ reqs)
        pending := Function.update st.pending t reqs
        serial := st.serial + n
        pc := Function.update st.pc t (.waiting s)
        sharedapiwaiters := st.sharedapiwaiters ++ [t] } := by
    rw [← hreqs]
    rfl
  rw [hst]
  constructor
  · have hfun : (fun u => (Function.update st.pc t (Pc.waiting s) u).owns) =
        fun u => (st.pc u).owns := by
      rw [owns_update]
      refine Function.update_eq_self_iff.mpr ?_
      rw [ht]
      rfl
    exact hfun ▸ h.ledger
  · intro u q hq
    by_cases hu : u = t
    · subst hu
      simp only [Function.update_self] at hq
      exact hsenders q hq
    · simp only [Function.update_of_ne hu] at hq
      exact h.senders u q hq
  · exact List.nodup_append.mpr ⟨h.nodup, List.nodup_singleton t, by
      rintro u hu v hv rfl
      obtain rfl := List.mem_singleton.mp hv
      exact hnot hu⟩
  · intro u
    by_cases hu : u = t
    · subst hu
      simp [Pc.waits]
    · dsimp only
      rw [hpu u hu, ← h.queued u]
      simp [hu]
  · intro u s' hus
    by_cases hu : u = t
    · subst hu
      dsimp only at hus
      rw [hpt] at hus
      obtain rfl := Option.some.inj hus
      exact hs
    · dsimp only at hus
      rw [hpu u hu] at hus
      exact h.queue u s' hus
  · intro s' hs'
    obtain rfl := Option.some.inj (hs.symm.trans hs')
    exact ⟨o, by dsimp only; rw [hpu o hot]; exact ho⟩
  · intro u s' hus
    by_cases hu : u = t
    · subst hu
      dsimp only at hus
      rw [hpt] at hus
      cases hus
    · dsimp only at hus ⊢
      rw [hpu u hu] at hus
      have hold := h.wires u s' hus
      rw [Function.update_of_ne hu]
      by_cases hss : s' = s
      · subst hss
        rw [State.behind, if_pos hs] at hold
        simp only [State.behind, hs, if_true, hqueue, Function.update_self]
        rw [hold, List.append_assoc]
      · have hnone : ¬st.sharedapi = some s' := by
          rw [hs]
          simpa using Ne.symm hss
        rw [State.behind, if_neg hnone] at hold
        simp only [State.behind, if_neg hnone]
        rw [hother s' hss]
        exact hold
  · intro u s' hus
    by_cases hu : u = t
    · subst hu
      dsimp only at hus
      rw [hpt] at hus
      cases hus
    · dsimp only at hus ⊢
      rw [hpu u hu] at hus
      have hss : s' ≠ s := by
        rintro rfl
        obtain rfl := h.ledger.one u o s' (Pc.owns_of_silent hus) hoown
        cases hx : st.pc u <;> rw [hx] at hus ho <;> simp [Pc.silent, Pc.offers] at hus ho
      rw [hother s' hss]
      exact h.silent u s' hus
  · intro s' hs'
    have hss : s' ≠ s := by
      rintro rfl
      exact h.ledger.apart s' hs' o hoown
    exact (hother s' hss).trans (h.idle s' hs')
  · intro s' hs'
    have hss : s' ≠ s := by
      rintro rfl
      exact absurd (h.ledger.old o s' hoown) (Nat.not_lt.mpr hs')
    exact (hother s' hss).trans (h.unused s' hs')
  · intro u
    by_cases hu : u = t
    · subst hu
      dsimp only
      rw [hpt]
      rfl
    · dsimp only
      rw [hpu u hu]
      exact h.none_keeps u
  · exact h.answers

/-- The thread has read its answers and passes the connection on. -/
theorem Inv.pass (h : Inv st) {path : Path} {s : Sock} {first : Bool}
    (ht : st.pc t = .reading path s first) (hpend : st.pending t = []) :
    Inv (st.passSharedApi t s) := by
  have hown : (st.pc t).owns = some s := by rw [ht]; rfl
  have hwire : st.wire s = st.behind s := by
    rw [h.wires t s (by rw [ht]; rfl), hpend]
    rfl
  unfold State.passSharedApi
  split
  next hs =>
    have hsilent : st.wire s = [] := by
      rw [hwire, State.behind, if_neg hs]
    refine h.goto (by rw [hown]; rfl) (by rw [ht]; rfl) rfl ?_ (fun _ hs => nomatch hs) ?_ rfl
    · intro s' hoff hs'
      rw [ht] at hoff
      obtain rfl := Option.some.inj hoff
      exact absurd hs' hs
    · intro s' hs'
      obtain rfl := Option.some.inj hs'
      exact hsilent
  next hs =>
    have hs : st.sharedapi = some s := by simpa using hs
    split
    next hnil =>
      have hun := h.unshare hs (fun _ _ => hnil)
      have heq : { st with sharedapi := none }.signalAllWaiters s =
          { st with sharedapi := none } := by
        simp [State.signalAllWaiters, hnil]
      rw [heq] at hun
      refine hun.goto
        (by rw [show ({ st with sharedapi := none } : State ι).pc = st.pc from rfl, hown]; rfl)
        (by rw [show ({ st with sharedapi := none } : State ι).pc = st.pc from rfl, ht]; rfl) rfl
        (fun _ _ hs => nomatch hs) (fun _ hs => nomatch hs) ?_ rfl
      intro s' hs'
      obtain rfl := Option.some.inj hs'
      rw [hwire, State.behind, if_pos hs, hnil]
      rfl
    next w ws hws => exact h.handOver ht hpend hs hws

/-! ## Steps and runs -/

/-- The step does not lead into the two exits that forget the connection: a request is not sent
on the shared connection, or the thread it was passed to gets no answer at all. -/
def Meets (st : State ι) : Event ι → Prop
  | .sendShared _ _ ok => ok = true
  | .read t .errorFirst => ∀ s, st.pc t ≠ .reading .shared s true
  | _ => True

/-- Every step of the run does so. -/
def MeetsAll : State ι → List (Event ι) → Prop
  | _, [] => True
  | st, e :: es => Meets st e ∧ ∀ st', st.step e = some st' → MeetsAll st' es

theorem Inv.getEvent (h : Inv st) {path : Path} {s : Sock}
    (hstep : st.step (.getIdle t path s) = some st') : Inv st' := by
  simp only [State.step] at hstep
  split at hstep
  next hcond =>
    obtain ⟨ht, -, hs⟩ := hcond
    obtain rfl := Option.some.inj hstep
    refine h.get ht path _ st.next (h.ledger.apart s hs) (h.idle s hs)
      (h.ledger.nodup.erase s) ?_ (Nat.le_refl _) (h.ledger.poolOld s hs)
    intro x hx
    exact ⟨List.mem_of_mem_erase hx, fun hxs => h.ledger.nodup.not_mem_erase (hxs ▸ hx)⟩
  next => cases hstep

theorem Inv.getNewEvent (h : Inv st) (hstep : st.step (.getNew t) = some st') : Inv st' := by
  simp only [State.step] at hstep
  split at hstep
  next ht =>
    obtain rfl := Option.some.inj hstep
    refine h.get ht .urls st.pool _ ?_ (h.unused _ (Nat.le_refl _)) h.ledger.nodup ?_
      (Nat.le_succ _) (Nat.lt_succ_self _)
    · intro u hu
      exact absurd (h.ledger.old u _ hu) (Nat.lt_irrefl _)
    · intro x hx
      exact ⟨hx, Nat.ne_of_lt (h.ledger.poolOld x hx)⟩
  next => cases hstep

theorem Inv.readEvent (h : Inv st) {outcome : Outcome} (hmeets : Meets st (.read t outcome))
    (hstep : st.step (.read t outcome) = some st') : Inv st' := by
  simp only [State.step] at hstep
  split at hstep
  next path s first ht =>
    split at hstep
    next => cases hstep
    next hpend =>
      have hown : (st.pc t).owns = some s := by rw [ht]; rfl
      have hbroken : Inv (st.goto t (.broken s false)) := by
        refine h.goto (by rw [hown]; rfl) (by rw [ht]; rfl) rfl ?_ (fun _ hs => nomatch hs)
          (fun _ hs => nomatch hs) rfl
        intro s' hoff _
        rw [ht] at hoff
        exact hoff
      cases outcome with
      | ok =>
        obtain rfl := Option.some.inj hstep
        exact h.read ht hpend
      | errorFirst =>
        obtain rfl := Option.some.inj hstep
        have hkeeps : (decide (path = .shared) && first) = false := by
          by_contra hne
          simp only [Bool.not_eq_false, Bool.and_eq_true, decide_eq_true_eq] at hne
          obtain ⟨rfl, rfl⟩ := hne
          exact hmeets s ht
        rw [hkeeps]
        exact hbroken
      | error =>
        obtain rfl := Option.some.inj hstep
        exact hbroken
  next => cases hstep

theorem Inv.resumeEvent (h : Inv st) (hstep : st.step (.resume t) = some st') : Inv st' := by
  simp only [State.step] at hstep
  split at hstep
  next s passed ht =>
    obtain rfl := Option.some.inj hstep
    cases passed with
    | true =>
      refine h.goto (by rw [ht]; rfl) (by rw [ht]; rfl) rfl ?_ ?_ (fun _ hs => nomatch hs) rfl
      · intro s' hoff _
        rw [ht] at hoff
        exact hoff
      · intro s' hs'
        exact h.wires t s' (by rw [ht]; exact hs')
    | false =>
      refine h.goto (by rw [ht]; rfl) (by rw [ht]; rfl) rfl ?_ (fun _ hs => nomatch hs)
        (fun _ hs => nomatch hs) rfl
      intro s' hoff _
      rw [ht] at hoff
      cases hoff
  next => cases hstep

theorem Inv.step (h : Inv st) {e : Event ι} (hmeets : Meets st e)
    (hstep : st.step e = some st') : Inv st' := by
  cases e with
  | poolGrows =>
    obtain rfl := Option.some.inj hstep
    refine h.repool _ _ (List.nodup_cons.mpr ⟨?_, h.ledger.nodup⟩) ?_ (Nat.le_succ _) ?_
    · exact fun hmem => absurd (h.ledger.poolOld _ hmem) (Nat.lt_irrefl _)
    · intro s hs
      rcases List.mem_cons.mp hs with rfl | hs
      · exact Or.inr (Nat.le_refl _)
      · exact Or.inl hs
    · intro s hs
      rcases List.mem_cons.mp hs with rfl | hs
      · exact Nat.lt_succ_self _
      · exact Nat.lt_succ_of_lt (h.ledger.poolOld s hs)
  | poolShrinks s =>
    obtain rfl := Option.some.inj hstep
    exact h.repool _ st.next (h.ledger.nodup.erase s)
      (fun x hx => Or.inl (List.mem_of_mem_erase hx)) (Nat.le_refl _)
      (fun x hx => h.ledger.poolOld x (List.mem_of_mem_erase hx))
  | getIdle t path s => exact h.getEvent hstep
  | getNew t => exact h.getNewEvent hstep
  | send t n ok =>
    simp only [State.step] at hstep
    split at hstep
    next path s ht =>
      have hsend := h.send ht n ok
      cases ok with
      | true =>
        obtain rfl := Option.some.inj hstep
        exact hsend
      | false =>
        obtain rfl := Option.some.inj hstep
        exact hsend
    next => cases hstep
  | markApiShared t =>
    simp only [State.step] at hstep
    split at hstep
    next path s ht =>
      obtain rfl := Option.some.inj hstep
      exact h.markApiShared ht
    next => cases hstep
  | read t outcome => exact h.readEvent hmeets hstep
  | pass t =>
    simp only [State.step] at hstep
    split at hstep
    next path s first ht =>
      split at hstep
      next hpend =>
        obtain rfl := Option.some.inj hstep
        exact h.pass ht hpend
      next => cases hstep
    next => cases hstep
  | markSharedApiBad t =>
    simp only [State.step] at hstep
    split at hstep
    next s keeps ht =>
      obtain rfl := Option.some.inj hstep
      obtain rfl : keeps = false := by
        have := h.none_keeps t
        rw [ht] at this
        exact this
      exact h.markSharedApiBad ht
    next => cases hstep
  | releaseBad t =>
    simp only [State.step] at hstep
    split at hstep
    next s ht =>
      obtain rfl := Option.some.inj hstep
      exact h.drop st.pool (by rw [ht]; rfl) (by rw [ht]; rfl) (by rw [ht]; rfl)
        (Or.inr rfl) (Or.inl rfl)
    next => cases hstep
  | release t kept =>
    simp only [State.step] at hstep
    split at hstep
    next s ht =>
      obtain rfl := Option.some.inj hstep
      refine h.drop _ (by rw [ht]; rfl) (by rw [ht]; rfl) (by rw [ht]; rfl) (Or.inl rfl) ?_
      cases kept with
      | true => exact Or.inr ⟨rfl, h.silent t s (by rw [ht]; rfl)⟩
      | false => exact Or.inl rfl
    next => cases hstep
  | sendShared t n ok =>
    have hok : ok = true := hmeets
    subst hok
    simp only [State.step] at hstep
    split at hstep
    next s hs =>
      split at hstep
      next ht =>
        obtain rfl := Option.some.inj hstep
        exact h.sendShared ht hs n
      next => cases hstep
    next => cases hstep
  | resume t => exact h.resumeEvent hstep

theorem Inv.run (h : Inv st) {events : List (Event ι)} (hmeets : MeetsAll st events)
    (hrun : State.run events st = some st') : Inv st' := by
  induction events generalizing st with
  | nil =>
    obtain rfl := Option.some.inj hrun
    exact h
  | cons e events ih =>
    obtain ⟨st₁, hstep, hrest⟩ := Option.bind_eq_some_iff.mp hrun
    exact ih (h.step hmeets.1 hstep) (hmeets.2 st₁ hstep) hrest

end

/-- The thread reads from the connection. -/
def Reads (x : Pc) (s : Sock) : Prop := ∃ path first, x = .reading path s first

/-- One reader at a time, each answer to the one who asked, and each connection given back once
by the time that no thread has it. -/
structure Exclusive (st : State ι) : Prop where
  one_reader : ∀ t u s, Reads (st.pc t) s → Reads (st.pc u) s → t = u
  answered : ∀ a ∈ st.answers, ∃ q, a.expected = some q ∧ a.got = some q ∧ q.sender = a.reader
  in_hand : ∀ t s, (st.pc t).owns = some s → gets st.calls s = releases st.calls s + 1
  given_back : ∀ s, (∀ t, (st.pc t).owns ≠ some s) → gets st.calls s = releases st.calls s

theorem shared_api_exclusive (events : List (Event ι)) (st : State ι)
    (hmeets : MeetsAll (State.init ι) events)
    (hrun : State.run events (State.init ι) = some st) : Exclusive st := by
  have h := inv_init.run hmeets hrun
  refine ⟨?_, h.answers, h.ledger.owned, h.ledger.free⟩
  rintro t u s ⟨path, first, ht⟩ ⟨path', first', hu⟩
  exact h.ledger.one t u s (by rw [ht]; rfl) (by rw [hu]; rfl)

/-- Two threads: the second sends on the connection of the first, reads when it is passed on and
gives it back. -/
theorem shared_api_exclusive_two : ∃ st : State Bool,
    State.run [.getNew false, .send false 2 true, .markApiShared false, .sendShared true 1 true,
      .read false .ok, .read false .ok, .pass false, .resume true, .read true .ok, .pass true,
      .release true true] (State.init Bool) = some st ∧ Exclusive st := by
  refine ⟨_, rfl, shared_api_exclusive [.getNew false, .send false 2 true, .markApiShared false,
    .sendShared true 1 true, .read false .ok, .read false .ok, .pass false, .resume true,
    .read true .ok, .pass true, .release true true] _ ?_ rfl⟩
  simp [MeetsAll, Meets]

/-- The second thread gets no answer: nobody gives the connection back. -/
theorem shared_api_forgotten : ¬∀ (events : List (Event Bool)) (st : State Bool),
    State.run events (State.init Bool) = some st → Exclusive st := by
  intro h
  have hex := h [.getNew false, .send false 1 true, .markApiShared false, .sendShared true 1 true,
    .read false .ok, .pass false, .resume true, .read true .errorFirst, .markSharedApiBad true]
    _ rfl
  have hnone := hex.given_back 0 (by decide)
  exact absurd hnone (by decide)

end PcloudClient.Ppagecache.SharedApi
