/-
  Plibs/Transaction.lean --- the transactions of `plibs.c` on the thread that has the SQL lock.

  What SQLite answers to a statement is given with the operation: whether it can be prepared, and
  whether it runs.  A failed `assert` ends the program, as the use of a null pointer does.
-/
import Mathlib.Data.List.Nodup
import PcloudClient.Foundation.Outcome

set_option autoImplicit false

namespace PcloudClient.Plibs.Transaction

/-- Why the program ends. -/
inductive Fault where
  | assertion
  | nullPointer
  deriving DecidableEq, Repr

/-- `tran_callback_t`, at the address `node`. -/
structure TranCallback where
  node : Nat
  commitCallback : Nat
  rollbackCallback : Nat
  ptr : Nat
  deriving DecidableEq, Repr

/-- A call of one of the two functions of a pair, with the lock count at that time. -/
structure Call where
  node : Nat
  func : Nat
  ptr : Nat
  lockcnt : Nat
  deriving DecidableEq, Repr

/-- What has happened. -/
structure History where
  /-- how often a start has returned success -/
  started : Nat
  /-- for each transaction that has ended, whether its `COMMIT` succeeded -/
  ended : List Bool
  /-- how many prepared statements have failed since the last start that returned success -/
  failures : Nat
  /-- the registered pairs, each with the number of its transaction -/
  registered : List (TranCallback × Nat)
  calls : List Call
  deriving DecidableEq, Repr

/-- `sqllockcnt`, the static variables and the history. -/
structure State where
  lockcnt : Nat
  inTransaction : Bool
  transactionFailed : Bool
  tranCallbacks : List TranCallback
  history : History
  deriving DecidableEq, Repr

/-- A call of one of the functions, with the answers to its statements. -/
inductive Op where
  | start (prepared done : Bool)
  /-- a prepared statement that is run and freed -/
  | runFree (prepared done : Bool)
  /-- `psync_sql_statement` -/
  | statement (done : Bool)
  | addCallbacks (commitCallback rollbackCallback ptr : Nat)
  /-- the answers to `COMMIT` and, when it is used, to `ROLLBACK` -/
  | commit (prepared done rollbackPrepared rollbackDone : Bool)
  | rollback (prepared done : Bool)
  deriving DecidableEq, Repr

namespace State

/-- Before any transaction, on a thread that has the lock `outer` times. -/
def init (outer : Nat) : State := ⟨outer, false, false, [], ⟨0, [], 0, [], []⟩⟩

/-- `psync_sql_lock` -/
def lock (s : State) : State := { s with lockcnt := s.lockcnt + 1 }

/-- `psync_sql_unlock` -/
def unlock (s : State) : Except Fault State :=
  if s.lockcnt = 0 then .error .assertion else .ok { s with lockcnt := s.lockcnt - 1 }

/-- `psync_sql_prep_statement`: whether the result is not `NULL`. -/
def prepStatement (s : State) (prepared : Bool) : Except Fault (Bool × State) :=
  if prepared then .ok (true, s.lock)
  else do
    let s ← s.lock.unlock
    .ok (false, s)

/-- A statement fails. -/
def fail (s : State) : State :=
  { s with
    transactionFailed := true
    history := { s.history with failures := s.history.failures + 1 } }

/-- `psync_sql_run_free` -/
def runFree (s : State) (res done : Bool) : Except Fault (Int × State) :=
  if !res then .error .nullPointer
  else if done then do
    let s ← s.unlock
    .ok (0, s)
  else do
    let s ← s.fail.unlock
    .ok (-1, s)

/-- A transaction begins. -/
def begin (s : State) : State :=
  { s with
    inTransaction := true
    transactionFailed := false
    tranCallbacks := []
    history := { s.history with started := s.history.started + 1, failures := 0 } }

/-- `psync_sql_start_transaction` -/
def startTransaction (s : State) (prepared done : Bool) : Except Fault (Int × State) := do
  let (res, s) ← s.lock.prepStatement prepared
  if s.inTransaction then .error .assertion
  else if !res then .ok (-1, s)
  else
    let (failed, s) ← s.runFree res done
    if failed ≠ 0 then .ok (-1, s) else .ok (0, s.begin)

/-- `run_commit_callbacks`; the cells stay linked when they are freed. -/
def runCommitCallbacks (s : State) (success : Bool) : State :=
  { s with
    history :=
      { s.history with
        calls := s.history.calls ++ s.tranCallbacks.map fun cb =>
          ⟨cb.node, if success then cb.commitCallback else cb.rollbackCallback, cb.ptr,
            s.lockcnt⟩ } }

/-- The `COMMIT` of the transaction has succeeded, or it is rolled back. -/
def record (s : State) (success : Bool) : State :=
  { s with history := { s.history with ended := s.history.ended ++ [success] } }

/-- `psync_sql_rollback_transaction` -/
def rollbackTransaction (s : State) (prepared done : Bool) : Except Fault (Int × State) := do
  let (res, s) ← s.prepStatement prepared
  if !s.inTransaction then .error .assertion
  else
    let (_, s) ← s.runFree res done
    let s := (s.record false).runCommitCallbacks false
    let s ← { s with inTransaction := false }.unlock
    .ok (0, s)

/-- `psync_sql_commit_transaction` -/
def commitTransaction (s : State) (prepared done rollbackPrepared rollbackDone : Bool) :
    Except Fault (Int × State) := do
  if !s.inTransaction then .error .assertion
  else if s.transactionFailed then
    let (_, s) ← s.rollbackTransaction rollbackPrepared rollbackDone
    .ok (-1, s)
  else
    let (res, s) ← s.prepStatement prepared
    let (failed, s) ← s.runFree res done
    if failed = 0 then
      let s := (s.record true).runCommitCallbacks true
      let s ← { s with inTransaction := false }.unlock
      .ok (0, s)
    else
      let (_, s) ← s.rollbackTransaction rollbackPrepared rollbackDone
      .ok (-1, s)

/-- `psync_sql_transation_add_callbacks` -/
def addCallbacks (s : State) (commitCallback rollbackCallback ptr : Nat) : Except Fault State :=
  if !s.inTransaction then .error .assertion
  else
    let cb : TranCallback := ⟨s.history.registered.length, commitCallback, rollbackCallback, ptr⟩
    .ok { s with
      tranCallbacks := s.tranCallbacks ++ [cb]
      history :=
        { s.history with registered := s.history.registered ++ [(cb, s.history.started)] } }

/-- One call. -/
def exec (s : State) : Op → Except Fault (Int × State)
  | .start prepared done => s.startTransaction prepared done
  | .runFree prepared done => do
    let (res, s) ← s.prepStatement prepared
    if res then s.runFree res done else .ok (-1, s)
  | .statement done => do
    let s ← s.lock.unlock
    .ok (if done then 0 else -1, s)
  | .addCallbacks commitCallback rollbackCallback ptr => do
    let s ← s.addCallbacks commitCallback rollbackCallback ptr
    .ok (0, s)
  | .commit prepared done rollbackPrepared rollbackDone =>
    s.commitTransaction prepared done rollbackPrepared rollbackDone
  | .rollback prepared done => s.rollbackTransaction prepared done

end State

/-- The states of the runs whose steps all meet a condition. -/
inductive Run (cond : State → Op → Prop) (outer : Nat) : State → Prop where
  | init : Run cond outer (.init outer)
  | step {s s' : State} {op : Op} {r : Int} (hrun : Run cond outer s) (hcond : cond s op)
      (hstep : s.exec op = .ok (r, s')) : Run cond outer s'

/-- The bracket of the transactions that have been started: a transaction is open, with the lock
and both flags as that needs, or none is; a registered pair of a transaction that is open has not
been called, and one of a transaction that has ended has been called once, with the lock held, the
function that the end of the transaction asks for.  `transaction_failed` is reset only by the next
start, so it tells of the last transaction that was started. -/
structure Bracket (outer : Nat) (s : State) : Prop where
  lock : s.lockcnt = outer + (s.history.started - s.history.ended.length)
  bracket : s.history.ended.length ≤ s.history.started ∧
    s.history.started ≤ s.history.ended.length + 1
  inTransaction : s.inTransaction = true ↔ s.history.ended.length < s.history.started
  transactionFailed : s.transactionFailed = true ↔ 0 < s.history.failures
  called : ∀ cb k, (cb, k) ∈ s.history.registered →
    match s.history.ended[k - 1]? with
    | none => ∀ call ∈ s.history.calls, call.node ≠ cb.node
    | some success => ∃ lockcnt, outer < lockcnt ∧
        s.history.calls.filter (fun call => call.node = cb.node) =
          [⟨cb.node, if success then cb.commitCallback else cb.rollbackCallback, cb.ptr, lockcnt⟩]

/-- Every `BEGIN` succeeds, and a `COMMIT` or `ROLLBACK` that is used can be prepared. -/
def Sound (s : State) : Op → Prop
  | .start prepared done => prepared = true ∧ done = true
  | .commit prepared done rollbackPrepared _ =>
    if s.transactionFailed then rollbackPrepared = true
    else prepared = true ∧ (done = true ∨ rollbackPrepared = true)
  | .rollback prepared _ => prepared = true
  | _ => True

/-! ## What each function does -/

namespace State

variable {s : State}

/-- A transaction ends. -/
def finish (s : State) (success : Bool) : State :=
  { (s.record success).runCommitCallbacks success with
    inTransaction := false
    lockcnt := s.lockcnt - 1 }

theorem startTransaction_eq (s : State) (prepared done : Bool) :
    s.startTransaction prepared done =
      if s.inTransaction then .error .assertion
      else if prepared && done then .ok (0, s.lock.begin)
      else .ok (-1, if prepared then s.lock.fail else s.lock) := by
  obtain ⟨lockcnt, inTransaction, _, _, _⟩ := s
  cases inTransaction <;> cases prepared <;> cases done <;> rfl

theorem rollbackTransaction_eq (hopen : s.inTransaction = true) (hlock : 0 < s.lockcnt)
    (prepared done : Bool) :
    s.rollbackTransaction prepared done =
      if prepared then .ok (0, (if done then s else s.fail).finish false)
      else .error .nullPointer := by
  obtain ⟨lockcnt, inTransaction, _, _, _⟩ := s
  obtain rfl : inTransaction = true := hopen
  obtain ⟨n, rfl⟩ := Nat.exists_eq_succ_of_ne_zero (Nat.pos_iff_ne_zero.mp hlock)
  cases prepared <;> cases done <;> rfl

theorem commitTransaction_eq (hopen : s.inTransaction = true) (hlock : 0 < s.lockcnt)
    (prepared done rollbackPrepared rollbackDone : Bool) :
    s.commitTransaction prepared done rollbackPrepared rollbackDone =
      if s.transactionFailed then
        if rollbackPrepared then .ok (-1, (if rollbackDone then s else s.fail).finish false)
        else .error .nullPointer
      else if !prepared then .error .nullPointer
      else if done then .ok (0, s.finish true)
      else if rollbackPrepared then
        .ok (-1, (if rollbackDone then s.fail else s.fail.fail).finish false)
      else .error .nullPointer := by
  obtain ⟨lockcnt, inTransaction, transactionFailed, _, _⟩ := s
  obtain rfl : inTransaction = true := hopen
  obtain ⟨n, rfl⟩ := Nat.exists_eq_succ_of_ne_zero (Nat.pos_iff_ne_zero.mp hlock)
  cases transactionFailed <;> cases prepared <;> cases done <;> cases rollbackPrepared <;>
    cases rollbackDone <;> rfl

theorem rollbackTransaction_closed (hclosed : s.inTransaction = false) (prepared done : Bool) :
    s.rollbackTransaction prepared done = .error .assertion := by
  obtain ⟨lockcnt, inTransaction, _, _, _⟩ := s
  obtain rfl : inTransaction = false := hclosed
  cases prepared <;> rfl

theorem commitTransaction_closed (hclosed : s.inTransaction = false)
    (prepared done rollbackPrepared rollbackDone : Bool) :
    s.commitTransaction prepared done rollbackPrepared rollbackDone = .error .assertion := by
  rw [commitTransaction, hclosed]
  rfl

theorem exec_runFree (s : State) (prepared done : Bool) :
    s.exec (.runFree prepared done) =
      .ok (if prepared && done then (0, s) else (-1, if prepared then s.fail else s)) := by
  obtain ⟨lockcnt, _, _, _, _⟩ := s
  cases prepared <;> cases done <;> rfl

end State

/-! ## What holds in every run -/

/-- The pairs of the open transaction are linked, and each pair has its own cell. -/
structure Inv (outer : Nat) (s : State) : Prop extends Bracket outer s where
  distinct : (s.history.registered.map fun p => p.1.node).Nodup
  fresh : ∀ p ∈ s.history.registered, p.1.node < s.history.registered.length ∧ 1 ≤ p.2 ∧
    p.2 ≤ s.history.started
  made : ∀ call ∈ s.history.calls, ∃ p ∈ s.history.registered, call.node = p.1.node
  linked : s.inTransaction = true → s.tranCallbacks =
    (s.history.registered.filter fun p => p.2 = s.history.started).map (·.1)

theorem inv_init (outer : Nat) : Inv outer (.init outer) where
  lock := rfl
  bracket := ⟨Nat.le_refl _, Nat.zero_le _⟩
  inTransaction := ⟨nofun, nofun⟩
  transactionFailed := ⟨nofun, nofun⟩
  called := nofun
  distinct := List.nodup_nil
  fresh := nofun
  made := nofun
  linked := nofun

variable {outer : Nat} {s : State}

theorem Inv.fail (h : Inv outer s) : Inv outer s.fail where
  lock := h.lock
  bracket := h.bracket
  inTransaction := h.inTransaction
  transactionFailed := ⟨fun _ => Nat.succ_pos _, fun _ => rfl⟩
  called := h.called
  distinct := h.distinct
  fresh := h.fresh
  made := h.made
  linked := h.linked

theorem Inv.begin (h : Inv outer s) (hclosed : s.inTransaction = false) :
    Inv outer s.lock.begin := by
  have heq : s.history.started = s.history.ended.length := by
    have hnot := mt h.inTransaction.mpr (by rw [hclosed]; nofun)
    have := h.bracket
    omega
  have hlock := h.lock
  exact {
    lock := by
      change s.lockcnt + 1 = outer + (s.history.started + 1 - s.history.ended.length)
      omega
    bracket := by
      change s.history.ended.length ≤ s.history.started + 1 ∧
        s.history.started + 1 ≤ s.history.ended.length + 1
      exact ⟨by omega, by omega⟩
    inTransaction := ⟨fun _ => by
      change s.history.ended.length < s.history.started + 1
      omega, fun _ => rfl⟩
    transactionFailed := ⟨nofun, nofun⟩
    called := h.called
    distinct := h.distinct
    fresh := fun p hp => by
      obtain ⟨hnode, hpos, hle⟩ := h.fresh p hp
      exact ⟨hnode, hpos, Nat.le_succ_of_le hle⟩
    made := h.made
    linked := fun _ => by
      symm
      change (s.history.registered.filter fun p => p.2 = s.history.started + 1).map _ = []
      rw [List.map_eq_nil_iff, List.filter_eq_nil_iff]
      intro p hp heq
      have := (h.fresh p hp).2.2
      have := of_decide_eq_true heq
      omega }

/-- The transaction that is open is the last that was started. -/
theorem Inv.open (h : Inv outer s) (hopen : s.inTransaction = true) :
    s.history.started = s.history.ended.length + 1 ∧ s.lockcnt = outer + 1 := by
  have hlt := h.inTransaction.mp hopen
  have hle := h.bracket.2
  have hlock := h.lock
  exact ⟨by omega, by omega⟩

theorem Inv.addCallbacks (h : Inv outer s) {s' : State} {commitCallback rollbackCallback ptr : Nat}
    (hstep : s.addCallbacks commitCallback rollbackCallback ptr = .ok s') : Inv outer s' := by
  cases hopen : s.inTransaction with
  | false =>
    rw [State.addCallbacks, hopen] at hstep
    exact nomatch hstep
  | true =>
    obtain ⟨hstarted, -⟩ := h.open hopen
    rw [State.addCallbacks, hopen] at hstep
    obtain rfl := Except.ok.inj hstep
    have hnew : ∀ p ∈ s.history.registered, p.1.node ≠ s.history.registered.length :=
      fun p hp => Nat.ne_of_lt (h.fresh p hp).1
    exact {
      lock := h.lock
      bracket := h.bracket
      inTransaction := ⟨fun _ => h.inTransaction.mp hopen, fun _ => rfl⟩
      transactionFailed := h.transactionFailed
      called := fun cb k hmem => by
        rcases List.mem_append.mp hmem with hmem | hmem
        · exact h.called cb k hmem
        · obtain ⟨rfl, rfl⟩ := Prod.mk.inj (List.mem_singleton.mp hmem)
          dsimp only
          rw [hstarted, Nat.add_sub_cancel, List.getElem?_eq_none (Nat.le_refl _)]
          intro call hcall heq
          obtain ⟨p, hp, hnode⟩ := h.made call hcall
          exact hnew p hp (hnode.symm.trans heq)
      distinct := by
        dsimp only
        rw [List.map_append, List.nodup_append]
        refine ⟨h.distinct, List.nodup_singleton _, fun node hnode node' hnode' => ?_⟩
        obtain ⟨p, hp, rfl⟩ := List.mem_map.mp hnode
        obtain rfl := List.mem_singleton.mp hnode'
        exact hnew p hp
      fresh := fun p hp => by
        dsimp only at hp ⊢
        rw [List.length_append, List.length_singleton]
        rcases List.mem_append.mp hp with hp | hp
        · obtain ⟨hlt, hrest⟩ := h.fresh p hp
          exact ⟨Nat.lt_succ_of_lt hlt, hrest⟩
        · obtain rfl := List.mem_singleton.mp hp
          exact ⟨Nat.lt_succ_self _, by dsimp only; omega, Nat.le_refl _⟩
      made := fun call hcall => by
        obtain ⟨p, hp, hnode⟩ := h.made call hcall
        exact ⟨p, List.mem_append_left _ hp, hnode⟩
      linked := fun _ => by
        dsimp only
        rw [h.linked hopen, List.filter_append, List.map_append]
        congr 1
        rw [List.filter_cons_of_pos (by simp), List.filter_nil]
        rfl }

/-- Of values with different keys the key finds one. -/
theorem filter_eq_singleton {α β : Type} [DecidableEq β] {l : List α} {key : α → β}
    (h : (l.map key).Nodup) {x : α} (hx : x ∈ l) : l.filter (fun y => key y = key x) = [x] := by
  induction l with
  | nil => exact nomatch hx
  | cons y l ih =>
    rw [List.map_cons, List.nodup_cons] at h
    rcases List.mem_cons.mp hx with rfl | hx
    · rw [List.filter_cons_of_pos (by simp), List.filter_eq_nil_iff.mpr]
      intro z hz heq
      exact h.1 (of_decide_eq_true heq ▸ List.mem_map_of_mem hz)
    · have hne : key y ≠ key x := fun heq => h.1 (heq ▸ List.mem_map_of_mem hx)
      rw [List.filter_cons_of_neg (by simpa using hne), ih h.2 hx]

/-- A transaction ends with the calls of its pairs. -/
theorem Inv.finish (h : Inv outer s) (hopen : s.inTransaction = true) (success : Bool) :
    Inv outer (s.finish success) := by
  obtain ⟨hstarted, hlock⟩ := h.open hopen
  have hlinked := h.linked hopen
  -- the pairs of a call are those of the transaction that ends
  have hof {call : Call} (hcall : call ∈ s.tranCallbacks.map fun cb =>
      (⟨cb.node, if success then cb.commitCallback else cb.rollbackCallback, cb.ptr,
        s.lockcnt⟩ : Call)) :
      ∃ p ∈ s.history.registered, p.2 = s.history.started ∧ call.node = p.1.node := by
    obtain ⟨cb, hcb, rfl⟩ := List.mem_map.mp hcall
    rw [hlinked] at hcb
    obtain ⟨p, hp, rfl⟩ := List.mem_map.mp hcb
    obtain ⟨hp, hk⟩ := List.mem_filter.mp hp
    exact ⟨p, hp, of_decide_eq_true hk, rfl⟩
  have hinj {p q : TranCallback × Nat} (hp : p ∈ s.history.registered)
      (hq : q ∈ s.history.registered) (heq : p.1.node = q.1.node) : p = q :=
    List.inj_on_of_nodup_map h.distinct hp hq heq
  exact {
    lock := by
      change s.lockcnt - 1 = outer + (s.history.started - (s.history.ended ++ [success]).length)
      rw [List.length_append, List.length_singleton]
      omega
    bracket := by
      change (s.history.ended ++ [success]).length ≤ s.history.started ∧
        s.history.started ≤ (s.history.ended ++ [success]).length + 1
      rw [List.length_append, List.length_singleton]
      omega
    inTransaction := by
      change false = true ↔ (s.history.ended ++ [success]).length < s.history.started
      rw [List.length_append, List.length_singleton]
      exact ⟨nofun, fun hlt => by omega⟩
    transactionFailed := h.transactionFailed
    called := fun cb k hmem => by
      have hold := h.called cb k hmem
      obtain ⟨-, hpos, hle⟩ := h.fresh _ hmem
      dsimp only at hpos hle
      change match (s.history.ended ++ [success])[k - 1]? with
        | none => ∀ call ∈ s.history.calls ++ _, call.node ≠ cb.node
        | some success => ∃ lockcnt, outer < lockcnt ∧
          (s.history.calls ++ _).filter (fun call => call.node = cb.node) = _
      by_cases hk : k = s.history.started
      · rw [hk, hstarted, Nat.add_sub_cancel, List.getElem?_eq_none (Nat.le_refl _)] at hold
        rw [hk, hstarted, Nat.add_sub_cancel, List.getElem?_append_right (Nat.le_refl _),
          Nat.sub_self]
        refine ⟨s.lockcnt, by omega, ?_⟩
        rw [List.filter_append, List.filter_eq_nil_iff.mpr (fun call hcall heq =>
          hold call hcall (of_decide_eq_true heq)), List.nil_append, List.filter_map]
        have hcb : cb ∈ s.tranCallbacks := by
          rw [hlinked]
          exact List.mem_map.mpr ⟨(cb, k), List.mem_filter.mpr ⟨hmem, decide_eq_true hk⟩, rfl⟩
        have hnodup : (s.tranCallbacks.map TranCallback.node).Nodup := by
          rw [hlinked, List.map_map]
          exact h.distinct.sublist (List.filter_sublist.map _)
        rw [show (fun call : Call => decide (call.node = cb.node)) ∘ _ =
          fun cb' : TranCallback => decide (cb'.node = cb.node) from rfl,
          show (s.record success).tranCallbacks = s.tranCallbacks from rfl,
          filter_eq_singleton hnodup hcb]
        rfl
      · have hlt : k - 1 < s.history.ended.length := by omega
        rw [List.getElem?_append_left hlt]
        rw [List.getElem?_eq_getElem hlt] at hold ⊢
        obtain ⟨lockcnt, hlocked, hcalls⟩ := hold
        refine ⟨lockcnt, hlocked, ?_⟩
        rw [List.filter_append, hcalls, List.filter_eq_nil_iff.mpr, List.append_nil]
        intro call hcall heq
        obtain ⟨p, hp, hp', hnode⟩ := hof hcall
        have := hinj hp hmem (hnode.symm.trans (of_decide_eq_true heq))
        exact hk (by rw [← hp', this])
    distinct := h.distinct
    fresh := h.fresh
    made := fun call hcall => by
      rcases List.mem_append.mp hcall with hcall | hcall
      · exact h.made call hcall
      · obtain ⟨p, hp, -, hnode⟩ := hof hcall
        exact ⟨p, hp, hnode⟩
    linked := nofun }

/-- What a statement that may fail leaves. -/
theorem Inv.failIf (h : Inv outer s) (done : Bool) : Inv outer (if done then s else s.fail) := by
  cases done with
  | true => exact h
  | false => exact h.fail

/-- A step that meets the condition keeps the bracket, or an assertion ends the program. -/
theorem Inv.exec (h : Inv outer s) {op : Op} (hsound : Sound s op) :
    (∃ r s', s.exec op = .ok (r, s') ∧ Inv outer s') ∨ s.exec op = .error .assertion := by
  cases op with
  | start prepared done =>
    obtain ⟨rfl, rfl⟩ := hsound
    rw [State.exec, State.startTransaction_eq]
    cases hopen : s.inTransaction with
    | true => exact .inr rfl
    | false => exact .inl ⟨0, _, rfl, h.begin hopen⟩
  | runFree prepared done =>
    rw [State.exec_runFree]
    cases prepared with
    | false => exact .inl ⟨-1, s, rfl, h⟩
    | true =>
      cases done with
      | false => exact .inl ⟨-1, s.fail, rfl, h.fail⟩
      | true => exact .inl ⟨0, s, rfl, h⟩
  | statement done => exact .inl ⟨_, s, rfl, h⟩
  | addCallbacks commitCallback rollbackCallback ptr =>
    rw [State.exec]
    cases hadd : s.addCallbacks commitCallback rollbackCallback ptr with
    | ok s' => exact .inl ⟨0, s', rfl, h.addCallbacks hadd⟩
    | error f =>
      rw [State.addCallbacks] at hadd
      split at hadd
      · obtain rfl := Except.error.inj hadd
        exact .inr rfl
      · exact nomatch hadd
  | commit prepared done rollbackPrepared rollbackDone =>
    rw [State.exec]
    cases hopen : s.inTransaction with
    | false => exact .inr (State.commitTransaction_closed hopen ..)
    | true =>
      have hlock : 0 < s.lockcnt := by rw [(h.open hopen).2]; exact Nat.succ_pos _
      rw [State.commitTransaction_eq hopen hlock]
      rw [Sound] at hsound
      cases hfailed : s.transactionFailed with
      | true =>
        rw [hfailed, if_pos rfl] at hsound
        rw [if_pos rfl, if_pos hsound]
        refine .inl ⟨-1, _, rfl, Inv.finish (h.failIf rollbackDone) ?_ false⟩
        cases rollbackDone <;> exact hopen
      | false =>
        rw [hfailed, if_neg nofun] at hsound
        obtain ⟨rfl, hrest⟩ := hsound
        rw [if_neg nofun, if_neg nofun]
        cases done with
        | true => exact .inl ⟨0, _, rfl, h.finish hopen true⟩
        | false =>
          rw [if_neg nofun, if_pos (hrest.resolve_left nofun)]
          refine .inl ⟨-1, _, rfl, Inv.finish ?_ ?_ false⟩
          · cases rollbackDone with
            | true => exact h.fail
            | false => exact h.fail.fail
          · cases rollbackDone <;> exact hopen
  | rollback prepared done =>
    rw [State.exec]
    cases hopen : s.inTransaction with
    | false => exact .inr (State.rollbackTransaction_closed hopen ..)
    | true =>
      have hlock : 0 < s.lockcnt := by rw [(h.open hopen).2]; exact Nat.succ_pos _
      obtain rfl : prepared = true := hsound
      rw [State.rollbackTransaction_eq hopen hlock, if_pos rfl]
      refine .inl ⟨0, _, rfl, Inv.finish (h.failIf done) ?_ false⟩
      cases done <;> exact hopen

theorem Run.inv (h : Run Sound outer s) : Inv outer s := by
  induction h with
  | init => exact inv_init outer
  | step _ hcond hstep ih =>
    rcases ih.exec hcond with ⟨r, s', hok, hinv⟩ | herror
    · rw [hok] at hstep
      obtain ⟨-, rfl⟩ := Prod.mk.inj (Except.ok.inj hstep)
      exact hinv
    · rw [herror] at hstep
      exact nomatch hstep

/-- A start whose `BEGIN` cannot be run returns with the lock. -/
theorem start_keeps_lock : ¬ ∀ s, Run (fun _ _ => True) 0 s → Bracket 0 s := by
  intro h
  have hrun : Run (fun _ _ => True) 0 ⟨1, false, true, [], ⟨0, [], 1, [], []⟩⟩ :=
    .step (r := -1) .init trivial (show State.exec _ (.start true false) = _ from rfl)
  exact absurd (h _ hrun).lock (by decide)

/-- In every run in which each `BEGIN` succeeds and a `COMMIT` or `ROLLBACK` that is used can be
prepared, the bracket holds in every state, and nothing but an assertion ends the program. -/
theorem transaction_ok (h : Run Sound outer s) :
    Bracket outer s ∧ ∀ op, Sound s op → s.exec op ≠ .error .nullPointer := by
  refine ⟨h.inv.toBracket, fun op hsound herror => ?_⟩
  rcases h.inv.exec hsound with ⟨r, s', hok, -⟩ | hassert
  · exact nomatch hok.symm.trans herror
  · exact nomatch hassert.symm.trans herror

/-- A transaction with a pair that is committed. -/
theorem transaction_ok_committed :
    Bracket 0 ⟨0, false, false, [⟨0, 5, 6, 7⟩],
      ⟨1, [true], 0, [(⟨0, 5, 6, 7⟩, 1)], [⟨0, 5, 7, 1⟩]⟩⟩ :=
  (transaction_ok
    (.step (r := 0)
      (.step (r := 0)
        (.step (r := 0) .init (show Sound _ (.start true true) from ⟨rfl, rfl⟩) rfl)
        (show Sound _ (.addCallbacks 5 6 7) from trivial) rfl)
      (show Sound _ (.commit true true true true) from ⟨rfl, .inl rfl⟩) rfl)).1

end PcloudClient.Plibs.Transaction
