/-
  Pasyncnet/Views.lean --- what is seen of one request, and what a packet does to it.
-/
import PcloudClient.Pasyncnet.Streams

set_option autoImplicit false

namespace PcloudClient.Pasyncnet

open PcloudClient.Bytes

/-! ## Views -/

/-- The events of one request. -/
structure View where
  /-- The id of its stream, until the callback is called. -/
  streamid : Option Nat
  /-- The packets with this id. -/
  payloads : List Bytes
  written : Bytes
  calls : List AsyncResult
  deriving DecidableEq, Repr

namespace View

def empty : View := ⟨none, [], [], []⟩

def after (n : Nat) (v : View) : Event → View
  | .opened m id _ => if m = n then { v with streamid := some id } else v
  | .packet id payload =>
    if v.streamid = some id then { v with payloads := v.payloads ++ [payload] } else v
  | .wrote m b => if m = n then { v with written := v.written ++ b } else v
  | .called m r =>
    if m = n then { v with streamid := none, calls := v.calls ++ [r] } else v
  | .deleted _ => v
  | .returned _ _ => v

/-- The bytes of the file among the payloads. -/
def data (v : View) : Bytes := v.payloads.flatten.drop respLen

/-- What the server says of the file. -/
def announced (v : View) : Option DownloadResp :=
  match v.payloads with
  | [] => none
  | p :: _ => if respLen ≤ p.length then some (.ofBytes p) else none

/-- The callback was called with no error. -/
def Succeeded (v : View) : Prop := ∃ r ∈ v.calls, r.error = 0

end View

def view (n : Nat) (log : List Event) : View := log.foldl (View.after n) .empty

theorem view_append (n : Nat) (log log' : List Event) :
    view n (log ++ log') = log'.foldl (View.after n) (view n log) := List.foldl_append

/-- The request whose stream an event is of. -/
def Event.request? : Event → Option Nat
  | .opened m _ _ => some m
  | .packet _ _ => none
  | .wrote m _ => some m
  | .deleted m => some m
  | .called m _ => some m
  | .returned _ _ => none

namespace View

variable {n : Nat} {v : View}

/-- The events of other requests are not seen. -/
theorem after_of_ne {e : Event} {m : Nat} (he : e.request? = some m) (hne : m ≠ n) :
    v.after n e = v := by
  cases e with
  | packet | returned => cases he
  | opened | wrote | called =>
    obtain rfl := Option.some.inj he
    exact if_neg hne
  | deleted => rfl

theorem foldl_of_ne {log : List Event} {m : Nat} (hlog : ∀ e ∈ log, e.request? = some m)
    (hne : m ≠ n) : log.foldl (View.after n) v = v := by
  induction log with
  | nil => rfl
  | cons e log ih =>
    rw [List.foldl_cons, after_of_ne (hlog e List.mem_cons_self) hne]
    exact ih fun e he => hlog e (List.mem_cons_of_mem _ he)

theorem after_packet_of_ne {id : Nat} {payload : Bytes} (h : v.streamid ≠ some id) :
    v.after n (.packet id payload) = v := if_neg h

theorem after_packet {id : Nat} {payload : Bytes} (h : v.streamid = some id) :
    v.after n (.packet id payload) = { v with payloads := v.payloads ++ [payload] } := if_pos h

theorem foldl_fileDownloadFree (s : Stream) (error : Nat) :
    (s.fileDownloadFree error).foldl (View.after n) v = v := by
  unfold Stream.fileDownloadFree
  split <;> rfl

theorem foldl_fileDownloadSendError {s : Stream} (hn : s.request = n) (error errorflags : Nat) :
    (s.fileDownloadSendError error errorflags).foldl (View.after n) v =
      { v with
        streamid := none
        calls := v.calls ++ [⟨error, errorflags, s.size, s.hash, s.sha1hex⟩] } := by
  unfold Stream.fileDownloadSendError
  rw [List.foldl_cons, foldl_fileDownloadFree]
  exact if_pos hn

/-- Who has been seen stays so. -/
theorem after_ne_empty {e : Event} (h : v ≠ .empty) : v.after n e ≠ .empty := by
  intro hempty
  cases e with
  | opened m id line =>
    dsimp only [after] at hempty
    split at hempty
    · cases congrArg View.streamid hempty
    · exact h hempty
  | packet id payload =>
    dsimp only [after] at hempty
    split at hempty
    · have hnil : v.payloads ++ [payload] = [] := congrArg View.payloads hempty
      exact List.append_ne_nil_of_right_ne_nil _ (List.cons_ne_nil _ _) hnil
    · exact h hempty
  | wrote m b =>
    dsimp only [after] at hempty
    split at hempty
    · have hnil : v.written ++ b = [] := congrArg View.written hempty
      refine h ?_
      rw [(List.append_eq_nil_iff.mp hnil).2, List.append_nil] at hempty
      exact hempty
    · exact h hempty
  | called m r =>
    dsimp only [after] at hempty
    split at hempty
    · have hnil : v.calls ++ [r] = [] := congrArg View.calls hempty
      exact List.append_ne_nil_of_right_ne_nil _ (List.cons_ne_nil _ _) hnil
    · exact h hempty
  | deleted m => exact h hempty
  | returned m ok => exact h hempty

theorem foldl_ne_empty {log : List Event} (h : v ≠ .empty) :
    log.foldl (View.after n) v ≠ .empty := by
  induction log generalizing v with
  | nil => exact h
  | cons e log ih => exact ih (after_ne_empty h)

theorem after_wrote (b : Bytes) : v.after n (.wrote n b) = { v with written := v.written ++ b } :=
  if_pos rfl

end View

/-! ## What a packet does -/

/-- What holds when the callback has been called: once, and with no error for a file that has
the announced length and checksum. -/
structure Settled (sha1 : Bytes → Bytes) (v : View) : Prop where
  streamid : v.streamid = none
  once : ∃ r, v.calls = [r]
  written : v.written <+: v.data
  success : ∀ a, v.announced = some a → a.size ≠ 0 →
    (v.Succeeded ↔ v.written.length = a.size ∧ sha1 v.written = a.sha1hex)
  whole : ∀ a, v.announced = some a → a.size ≠ 0 → v.Succeeded → v.written = v.data

namespace Stream

/-- The headers are still to come. -/
structure Waiting (s : Stream) (v : View) : Prop where
  active : s.active = true
  streamid : v.streamid = some s.streamid
  calls : v.calls = []
  stage : s.processData = .headers
  payloads : v.payloads = []
  written : v.written = []

/-- The headers are there, and `rest` is what of the file has arrived and is not written. -/
structure Due (s : Stream) (v : View) (rest : Bytes) : Prop where
  active : s.active = true
  streamid : v.streamid = some s.streamid
  calls : v.calls = []
  stage : s.processData = .data
  announced : ∃ a, v.announced = some a ∧ s.sha1hex = a.sha1hex ∧
    v.written.length + s.remsize = a.size
  hashed : s.sha1ctx = v.written
  data : v.data = v.written ++ rest
  rem : 0 < s.remsize

/-- The headers are too short; the thread stops. -/
structure Short (s : Stream) (v : View) : Prop where
  active : s.active = true
  streamid : v.streamid = some s.streamid
  calls : v.calls = []
  payloads : ∃ p, v.payloads = [p] ∧ p.length < respLen
  written : v.written = []

end Stream

variable {sha1 : Bytes → Bytes} {s : Stream} {v : View} {o : Outcome} {buff : Bytes}
  {writes : Writes} {opened : Bool}

/-- A callback with an error, when not all of the file is written. -/
theorem settled_called {r : AsyncResult} (hcalls : v.calls = []) (hpre : v.written <+: v.data)
    (herror : r.error ≠ 0)
    (hshort : ∀ a, v.announced = some a → a.size ≠ 0 →
      ¬(v.written.length = a.size ∧ sha1 v.written = a.sha1hex)) :
    Settled sha1 { v with streamid := none, calls := v.calls ++ [r] } := by
  rw [hcalls, List.nil_append]
  have hfail : ∀ {w : View}, w.calls = [r] → ¬w.Succeeded := by
    rintro w hw ⟨r', hr, hzero⟩
    rw [hw] at hr
    obtain rfl := List.mem_singleton.mp hr
    exact herror hzero
  refine ⟨rfl, ⟨_, rfl⟩, hpre, ?_, ?_⟩
  · intro a ha hsize
    exact ⟨fun h => (hfail rfl h).elim, fun h => (hshort a ha hsize h).elim⟩
  · exact fun a _ _ h => (hfail rfl h).elim

theorem settled_of_error {n error errorflags : Nat} (hn : s.request = n) (hcalls : v.calls = [])
    (hpre : v.written <+: v.data) (herror : error ≠ 0)
    (hshort : ∀ a, v.announced = some a → a.size ≠ 0 →
      ¬(v.written.length = a.size ∧ sha1 v.written = a.sha1hex)) :
    Settled sha1 ((s.fileDownloadSendError error errorflags).foldl (View.after n) v) := by
  rw [View.foldl_fileDownloadSendError hn]
  exact settled_called hcalls hpre herror hshort

/-- A callback with no error, when the file is written, or has no bytes. -/
theorem settled_of_success {n errorflags : Nat} (hn : s.request = n) (hcalls : v.calls = [])
    (hpre : v.written <+: v.data)
    (hdone : ∀ a, v.announced = some a → a.size ≠ 0 →
      v.written = v.data ∧ v.written.length = a.size ∧ sha1 v.written = a.sha1hex) :
    Settled sha1 ((s.fileDownloadSendError 0 errorflags).foldl (View.after n) v) := by
  rw [View.foldl_fileDownloadSendError hn, hcalls]
  refine ⟨rfl, ⟨_, rfl⟩, hpre, ?_, fun a ha hsize _ => (hdone a ha hsize).1⟩
  intro a ha hsize
  exact ⟨fun _ => (hdone a ha hsize).2, fun _ => ⟨_, List.mem_singleton_self _, rfl⟩⟩

/-- What the loop writes is what it was given, or less of it and an error. -/
theorem writeLoop_spec {b : Bytes} {err : Option Int} (h : writeLoop writes buff = some (b, err)) :
    b <+: buff ∧ (err = none → b = buff) ∧ (err ≠ none → b.length < buff.length) := by
  induction writes generalizing buff b with
  | nil =>
    cases buff with
    | nil =>
      obtain ⟨rfl, rfl⟩ := Prod.mk.inj (Option.some.inj h)
      exact ⟨List.prefix_refl _, fun _ => rfl, fun hne => absurd rfl hne⟩
    | cons x buff => cases h
  | cons w writes ih =>
    cases buff with
    | nil =>
      obtain ⟨rfl, rfl⟩ := Prod.mk.inj (Option.some.inj h)
      exact ⟨List.prefix_refl _, fun _ => rfl, fun hne => absurd rfl hne⟩
    | cons x buff =>
      cases w with
      | error e =>
        obtain ⟨rfl, rfl⟩ := Prod.mk.inj (Option.some.inj h)
        exact ⟨List.nil_prefix, nofun, fun _ => Nat.succ_pos _⟩
      | ok wr =>
        unfold writeLoop at h
        split at h
        next hle =>
          obtain ⟨⟨b', err'⟩, hrest, heq⟩ := Option.map_eq_some_iff.mp h
          obtain ⟨rfl, rfl⟩ := Prod.mk.inj heq
          obtain ⟨hpre, hall, hless⟩ := ih hrest
          have hsplit := List.take_append_drop wr (x :: buff)
          refine ⟨?_, ?_, ?_⟩
          · obtain ⟨t, ht⟩ := hpre
            refine ⟨t, ?_⟩
            rw [List.append_assoc, ht]
            exact hsplit
          · intro hnone
            rw [hall hnone]
            exact hsplit
          · intro hne
            have := hless hne
            have hlen := congrArg List.length hsplit
            rw [List.length_append] at hlen ⊢
            omega
        next => cases h

/-- What a packet leaves of its stream: it goes on, or the request is settled. -/
def Leaves (sha1 : Bytes → Bytes) (s : Stream) (o : Outcome) (v : View) : Prop :=
  (∃ s', o.stream = some s' ∧ s'.streamid = s.streamid ∧ s'.request = s.request ∧
    (s'.Due (o.log.foldl (View.after s.request) v) [] ∨
      o.stop = true ∧ s'.Short (o.log.foldl (View.after s.request) v))) ∨
  o.stream = none ∧ Settled sha1 (o.log.foldl (View.after s.request) v)

theorem Stream.Due.leaves (h : s.Due v buff)
    (hp : processFileDownloadData sha1 s buff writes = some o) : Leaves sha1 s o v := by
  obtain ⟨a, ha, hsha1, hsize⟩ := h.announced
  have hrem := h.rem
  have hpre : v.written <+: v.data := ⟨buff, h.data.symm⟩
  have hshort : ∀ {w : View}, w.announced = v.announced → w.written.length ≠ a.size →
      ∀ a', w.announced = some a' → a'.size ≠ 0 →
        ¬(w.written.length = a'.size ∧ sha1 w.written = a'.sha1hex) := by
    rintro w hw hlen a' ha' - ⟨hlen', -⟩
    rw [hw, ha] at ha'
    obtain rfl := Option.some.inj ha'
    exact hlen hlen'
  unfold processFileDownloadData at hp
  split at hp
  next hlt =>
    obtain rfl := Option.some.inj hp
    exact Or.inr ⟨rfl, settled_of_error rfl h.calls hpre nofun (hshort rfl (by omega))⟩
  next hle =>
    obtain ⟨⟨b, err⟩, hwrite, rfl⟩ := Option.map_eq_some_iff.mp hp
    obtain ⟨hb, hall, hless⟩ := writeLoop_spec hwrite
    have hpre' : v.written ++ b <+: v.data := by
      obtain ⟨t, ht⟩ := hb
      refine ⟨t, ?_⟩
      rw [h.data, List.append_assoc, ht]
    cases err with
    | some err =>
      refine Or.inr ⟨rfl, ?_⟩
      rw [List.foldl_cons, View.after_wrote]
      have := hless nofun
      refine settled_of_error rfl h.calls hpre' ?_ (hshort rfl ?_)
      · split <;> nofun
      · rw [List.length_append]
        omega
    | none =>
      obtain rfl := hall rfl
      dsimp only
      split
      next hzero =>
        have hdone : (v.written ++ b).length = a.size := by
          rw [List.length_append]
          omega
        refine Or.inr ⟨rfl, ?_⟩
        dsimp only
        rw [List.foldl_cons, View.after_wrote, h.hashed]
        rcases Decidable.em (sha1 (v.written ++ b) = s.sha1hex) with hok | hbad
        · rw [if_pos hok]
          refine settled_of_success rfl h.calls hpre' ?_
          intro a' ha' _
          obtain rfl := Option.some.inj (ha.symm.trans ha')
          exact ⟨h.data.symm, hdone, hok.trans hsha1⟩
        · rw [if_neg hbad]
          refine settled_of_error rfl h.calls hpre' nofun ?_
          rintro a' ha' - ⟨-, hok⟩
          obtain rfl := Option.some.inj (ha.symm.trans ha')
          exact hbad (hok.trans hsha1.symm)
      next hmore =>
        refine Or.inl ⟨_, rfl, rfl, rfl, Or.inl ?_⟩
        rw [List.foldl_cons, List.foldl_nil, View.after_wrote]
        refine ⟨h.active, h.streamid, h.calls, h.stage, ⟨a, ha, hsha1, ?_⟩, ?_, ?_,
          Nat.pos_of_ne_zero hmore⟩
        · show (v.written ++ b).length + (s.remsize - b.length) = a.size
          rw [List.length_append]
          omega
        · show s.sha1ctx ++ b = v.written ++ b
          rw [h.hashed]
        · rw [List.append_nil]
          exact h.data

/-- The error that the server announces, and that the headers are sent as. -/
theorem headers_error_ne {error : Nat} (hlt : error < 2 ^ 32) (hne : error ≠ 2 ^ 32 - 100) :
    (error + 100) % 2 ^ 32 ≠ 0 := by
  omega

theorem Stream.Waiting.leaves (h : s.Waiting v)
    (herror : respLen ≤ buff.length → (DownloadResp.ofBytes buff).error ≠ 2 ^ 32 - 100)
    (hp : processFileDownloadHeaders sha1 s buff opened writes = some o) :
    Leaves sha1 s o { v with payloads := v.payloads ++ [buff] } := by
  rw [h.payloads, List.nil_append]
  generalize hw : ({ v with payloads := [buff] } : View) = w
  have hid : w.streamid = some s.streamid := by
    rw [← hw]
    exact h.streamid
  have hcalls : w.calls = [] := by
    rw [← hw]
    exact h.calls
  have hwritten : w.written = [] := by
    rw [← hw]
    exact h.written
  have hpayloads : w.payloads = [buff] := by
    rw [← hw]
  have hdata : w.data = buff.drop respLen := by
    unfold View.data
    rw [hpayloads, List.flatten_singleton]
  have hpre : w.written <+: w.data := by
    rw [hwritten]
    exact List.nil_prefix
  have hshort : ∀ a, w.announced = some a → a.size ≠ 0 →
      ¬(w.written.length = a.size ∧ sha1 w.written = a.sha1hex) := by
    rintro a - hsize ⟨hlen, -⟩
    rw [hwritten] at hlen
    exact hsize hlen.symm
  unfold processFileDownloadHeaders at hp
  split at hp
  next hlt =>
    obtain rfl := Option.some.inj hp
    exact Or.inl ⟨s, rfl, rfl, rfl,
      Or.inr ⟨rfl, h.active, hid, hcalls, ⟨buff, hpayloads, hlt⟩, hwritten⟩⟩
  next hge =>
    rw [Nat.not_lt] at hge
    have hann : w.announced = some (DownloadResp.ofBytes buff) := by
      unfold View.announced
      rw [hpayloads]
      exact if_pos hge
    dsimp only at hp
    split at hp
    next hne =>
      obtain rfl := Option.some.inj hp
      have hlt : (DownloadResp.ofBytes buff).error < 2 ^ 32 := by
        have hlt := ofLE_lt (buff.take 4)
        have hlen : (buff.take 4).length = 4 :=
          List.length_take_of_le (Nat.le_trans (by decide) hge)
        rw [hlen] at hlt
        exact hlt
      exact Or.inr ⟨rfl,
        settled_of_error rfl hcalls hpre (headers_error_ne hlt (herror hge)) hshort⟩
    next =>
      split at hp
      next =>
        obtain rfl := Option.some.inj hp
        exact Or.inr ⟨rfl, settled_of_error rfl hcalls hpre nofun hshort⟩
      next =>
        split at hp
        next hzero =>
          obtain rfl := Option.some.inj hp
          refine Or.inr ⟨rfl, settled_of_success rfl hcalls hpre ?_⟩
          intro a ha hsize
          rw [hann] at ha
          obtain rfl := Option.some.inj ha
          exact absurd hzero hsize
        next hsize =>
          have hdue : ∀ t : Stream, t.active = s.active → t.streamid = s.streamid →
              t.processData = .data → t.sha1hex = (DownloadResp.ofBytes buff).sha1hex →
              t.remsize = (DownloadResp.ofBytes buff).size → t.sha1ctx = [] →
              t.Due w (buff.drop respLen) := by
            intro t hactive hid' hstage hsha1 hrem hctx
            refine ⟨hactive.trans h.active, ?_, hcalls, hstage, ⟨_, hann, hsha1, ?_⟩, ?_, ?_, ?_⟩
            · rw [hid']
              exact hid
            · rw [hwritten, hrem]
              exact Nat.zero_add _
            · rw [hctx]
              exact hwritten.symm
            · rw [hdata, hwritten, List.nil_append]
            · rw [hrem]
              exact Nat.pos_of_ne_zero hsize
          split at hp
          next hmore =>
            have hgo : ∀ t : Stream, processFileDownloadData sha1 t (buff.drop respLen) writes
                = some o → t.Due w (buff.drop respLen) → Leaves sha1 t o w :=
              fun t hp hdue => hdue.leaves hp
            have hleaves := hgo _ hp (hdue _ rfl rfl rfl rfl rfl rfl)
            exact hleaves
          next hexact =>
            obtain rfl := Option.some.inj hp
            have hnil : buff.drop respLen = [] := List.drop_eq_nil_of_le (Nat.le_of_not_lt hexact)
            rw [hnil] at hdue
            exact Or.inl ⟨_, rfl, rfl, rfl, Or.inl (hdue _ rfl rfl rfl rfl rfl rfl)⟩

end PcloudClient.Pasyncnet
