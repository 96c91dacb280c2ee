/-
  Ptimer/Runs.lean --- when timers are handed over, in every run of the threads.

  A timer that is registered between the writing of `psync_current_time` and the drain up to it
  counts from the new time, while the wheel still stands at the old one.  If it is then more than
  one turn of its level ahead, the drain takes it for one of a turn before.
-/
import PcloudClient.Ptimer.Cascade

set_option autoImplicit false

namespace PcloudClient.Ptimer

/-- An arming is in a list of the wheel. -/
def State.Waits (s : State) (a : Arming) : Prop :=
  ∃ level slot, ∃ timer ∈ s.timerlists level slot, timer.arming = a

/-- How often an arming has been handed to the timer thread. -/
def State.handings (s : State) (a : Arming) : Nat := (s.handed.map (·.arming)).count a

/-- The timers whose callback the timer thread has still to call. -/
def State.uncalled (s : State) : List Timer :=
  match s.phase with
  | .calling n => s.timers.drop n
  | _ => []

/-- Each arming waits, or has been handed over once, or was stopped; none waits for a tick that
has been drained; each was handed over in the drain that covers its tick; and the callbacks are
called in the order of the handings. -/
structure State.Exact (s : State) : Prop where
  nodup : s.armed.Nodup
  once : ∀ a ∈ s.armed,
    (s.Waits a ∧ s.handings a = 0 ∧ s.stopped.count a = 0) ∨
    (¬s.Waits a ∧ s.handings a = 1 ∧ s.stopped.count a = 0) ∨
    (¬s.Waits a ∧ s.handings a = 0 ∧ s.stopped.count a = 1)
  notSkipped : ∀ a, s.Waits a → s.drained < a.runat
  covered : ∀ h ∈ s.handed, h.after < h.arming.runat ∧ h.arming.runat ≤ h.upto
  called : s.handed.map (·.arming) = s.called ++ s.uncalled.map (·.arming)

/-- The intervals that `psync_timer_register` is asked for. -/
def Op.Allowed : Op → Prop
  | .register numsec => 1 ≤ numsec ∧ numsec ≤ 64 ^ 3
  | _ => True

/-- A timer that is registered while the drain up to the published time is still to come is at
most one turn of its level ahead of the drained time. -/
def Op.Timely (s : State) : Op → Prop
  | .register numsec => s.phase = .published →
    (s.currentTime + numsec) >>> ((levelFor numsec).1 * timerArraySizeShift) ≤
      s.lt >>> ((levelFor numsec).1 * timerArraySizeShift) + timerArraySize
  | _ => True

/-- A step of the threads. -/
def Step (s s' : State) : Prop := ∃ op : Op, op.Allowed ∧ exec s op = some s'

/-- A step whose registration is timely. -/
def TimelyStep (s s' : State) : Prop := ∃ op : Op, op.Allowed ∧ op.Timely s ∧ exec s op = some s'

instance : DecidablePred Op.Allowed
  | .register _ => inferInstanceAs (Decidable (_ ∧ _))
  | .stop _ | .publish _ | .drain | .call | .rearm | .next => .isTrue trivial

instance (s : State) : DecidablePred (Op.Timely s)
  | .register _ => inferInstanceAs (Decidable (_ → _))
  | .stop _ | .publish _ | .drain | .call | .rearm | .next => .isTrue trivial

/-- The steps, none if one cannot be taken or is not timely. -/
def timelyRun : List Op → State → Option State
  | [], s => some s
  | op :: ops, s =>
    if op.Allowed ∧ op.Timely s then (exec s op).bind (timelyRun ops) else none

theorem reaches_of_timelyRun {ops : List Op} {s s' : State} (h : timelyRun ops s = some s') :
    Relation.ReflTransGen TimelyStep s s' := by
  induction ops generalizing s with
  | nil =>
    obtain rfl := Option.some.inj h
    exact .refl
  | cons op ops ih =>
    simp only [timelyRun] at h
    split at h
    · next hop =>
      obtain ⟨s₁, hexec, hrest⟩ := Option.bind_eq_some_iff.mp h
      exact .head ⟨op, hop.1, hop.2, hexec⟩ (ih hrest)
    · cases h

/-! ## Levels -/

theorem levelFor_fits {numsec : Nat} (hpos : 1 ≤ numsec) (hle : numsec ≤ 64 ^ 3) :
    (levelFor numsec).2 = numsec ∧ (levelFor numsec).1 < timerLevels ∧
      timerArraySize ^ (levelFor numsec).1 ≤ numsec ∧
      numsec ≤ timerArraySize ^ ((levelFor numsec).1 + 1) := by
  unfold levelFor findLevel
  by_cases h0 : numsec ≤ 64
  · simp [h0]; omega
  · unfold findLevel
    by_cases h1 : numsec ≤ 64 * 64
    · simp [h0, h1, timerArraySize]; omega
    · unfold findLevel
      have h2 : numsec ≤ 64 * 64 * 64 := by omega
      simp [h0, h1, h2, timerArraySize]; omega

/-- From the drained time, an interval of the level is at most one turn ahead. -/
theorem inTime_of_le (time : Nat) {level numsec : Nat} (hlower : timerArraySize ^ level ≤ numsec)
    (hupper : numsec ≤ timerArraySize ^ (level + 1)) :
    InTime (unit level time) level (time + numsec) := by
  have hpos : 0 < timerArraySize ^ level := Nat.pow_pos (by decide)
  constructor
  · calc unit level time < unit level time + 1 := Nat.lt_succ_self _
      _ = unit level (time + timerArraySize ^ level) := (Nat.add_div_right time hpos).symm
      _ ≤ unit level (time + numsec) := unit_mono level (by omega)
  · calc unit level (time + numsec) ≤ unit level (time + timerArraySize ^ (level + 1)) :=
          unit_mono level (by omega)
      _ = unit level time + timerArraySize := by
          rw [unit, unit, pow_succ, Nat.add_mul_div_left _ _ hpos]

/-! ## The invariant -/

/-- What holds along a run; `rest` are the timers that the timer thread has still to arm again or
to free. -/
structure Inv (s : State) (place : Arming → Option (Nat × Nat)) (rest : List Timer) : Prop where
  wheel : Wheel.Ok s.timerlists (fun l => unit l s.drained) place
  counts : ∀ a, (if (place a).isSome then 1 else 0) + s.handings a + s.stopped.count a =
    s.armed.count a
  nodup : s.armed.Nodup
  ids : ∀ a ∈ s.armed, a.id < s.nextId
  latest : ∀ a, (place a).isSome → ∀ a' ∈ s.armed, a'.id = a.id → a'.runat ≤ a.runat
  restNodup : (rest.map (·.arming)).Nodup
  rest : ∀ timer ∈ rest, timer.Fits ∧ timer.arming ∈ s.armed ∧ timer.runat ≤ s.drained ∧
    ∀ a ∈ s.armed, a.id = timer.id → a.runat ≤ timer.runat
  handed : ∀ h ∈ s.handed, h.after < h.arming.runat ∧ h.arming.runat ≤ h.upto
  called : s.handed.map (·.arming) = s.called ++ s.uncalled.map (·.arming)
  time : s.lt ≤ s.currentTime
  asleep : s.phase = .sleeping → s.lt = s.currentTime
  quiet : (∀ n, s.phase ≠ .calling n) → s.timers = []

variable {s s' : State} {place : Arming → Option (Nat × Nat)} {rest : List Timer}

theorem Inv.waits_iff (h : Inv s place rest) (a : Arming) : s.Waits a ↔ (place a).isSome := by
  constructor
  · rintro ⟨level, slot, timer, htimer, rfl⟩
    rw [h.wheel.placed _ _ _ htimer]
    rfl
  · intro ha
    obtain ⟨⟨level, slot⟩, hplace⟩ := Option.isSome_iff_exists.1 ha
    obtain ⟨timer, htimer, harming⟩ := h.wheel.found _ _ _ hplace
    exact ⟨level, slot, timer, htimer, harming⟩

theorem Inv.mem_armed (h : Inv s place rest) {a : Arming} (ha : (place a).isSome) :
    a ∈ s.armed := by
  have hcount := h.counts a
  rw [if_pos ha] at hcount
  exact List.count_pos_iff.1 (by omega)

theorem Inv.exact (h : Inv s place rest) : s.Exact := by
  refine ⟨h.nodup, fun a ha => ?_, fun a ha => ?_, h.handed, h.called⟩
  · have hcount := h.counts a
    rw [List.count_eq_one_of_mem h.nodup ha] at hcount
    rw [h.waits_iff]
    split at hcount
    · next hsome =>
      exact .inl ⟨hsome, by omega, by omega⟩
    · next hnone =>
      rcases Nat.eq_zero_or_pos (s.handings a) with hzero | hpos
      · exact .inr (.inr ⟨hnone, hzero, by omega⟩)
      · exact .inr (.inl ⟨hnone, by omega, by omega⟩)
  · exact h.wheel.lt_runat ((h.waits_iff a).1 ha)

/-! ## Steps -/

/-- A timer whose arming is new is put into the wheel. -/
theorem Wheel.Ok.addTail {w : Wheel} {pos : Nat → Nat} (h : Wheel.Ok w pos place) {timer : Timer}
    (hfits : timer.Fits) (hnew : place timer.arming = none)
    (hin : InTime (pos timer.level) timer.level timer.runat) :
    Wheel.Ok (Ptimer.addTail w timer.level (slotOf timer.level timer.runat) timer) pos
      (Function.update place timer.arming
        (some (timer.level, slotOf timer.level timer.runat))) := by
  have hold : ∀ level slot, ∀ timer' ∈ w level slot, timer'.arming ≠ timer.arming := by
    intro level slot timer' htimer' heq
    have hplace := h.placed _ _ _ htimer'
    rw [heq, hnew] at hplace
    cases hplace
  have hsplit : ∀ a level slot, Function.update place timer.arming
      (some (timer.level, slotOf timer.level timer.runat)) a = some (level, slot) →
      (a = timer.arming ∧ level = timer.level ∧ slot = slotOf timer.level timer.runat) ∨
        place a = some (level, slot) := by
    intro a level slot ha
    by_cases heq : a = timer.arming
    · subst heq
      rw [Function.update_self] at ha
      cases ha
      exact .inl ⟨rfl, rfl, rfl⟩
    · rw [Function.update_of_ne heq] at ha
      exact .inr ha
  refine ⟨?_, ?_, ?_, ?_, ?_, ?_, ?_⟩
  · intro level slot timer' htimer'
    rw [addTail_apply, List.mem_append] at htimer'
    rcases htimer' with htimer' | htimer'
    · rw [Function.update_of_ne (hold _ _ _ htimer')]
      exact h.placed _ _ _ htimer'
    · split at htimer'
      · next hwhere =>
        rw [List.mem_singleton] at htimer'
        subst htimer'
        rw [Function.update_self, hwhere.1, hwhere.2]
      · cases htimer'
  · intro a level slot ha
    rw [addTail_apply]
    rcases hsplit a level slot ha with ⟨rfl, rfl, rfl⟩ | ha
    · exact ⟨timer, by simp, rfl⟩
    · obtain ⟨timer', htimer', harming⟩ := h.found _ _ _ ha
      exact ⟨timer', List.mem_append_left _ htimer', harming⟩
  · intro a level slot ha
    rcases hsplit a level slot ha with ⟨rfl, rfl, rfl⟩ | ha
    · exact hfits.level
    · exact h.level _ _ _ ha
  · intro a level slot ha
    rcases hsplit a level slot ha with ⟨rfl, rfl, rfl⟩ | ha
    · rfl
    · exact h.slot _ _ _ ha
  · intro a level slot ha
    rcases hsplit a level slot ha with ⟨rfl, rfl, rfl⟩ | ha
    · exact hin
    · exact h.inTime _ _ _ ha
  · intro level slot
    rw [addTail_apply, List.map_append, List.nodup_append]
    refine ⟨h.nodup _ _, by split <;> simp, fun a ha b hb heq => ?_⟩
    subst heq
    obtain ⟨timer', htimer', rfl⟩ := List.mem_map.1 ha
    split at hb
    · rw [List.map_singleton, List.mem_singleton] at hb
      exact hold _ _ _ htimer' hb
    · cases hb
  · intro level slot timer' htimer'
    rw [addTail_apply, List.mem_append] at htimer'
    rcases htimer' with htimer' | htimer'
    · exact h.fits _ _ _ htimer'
    · split at htimer'
      · rw [List.mem_singleton] at htimer'
        subst htimer'
        exact hfits
      · cases htimer'

/-- A timer that no list has is armed. -/
theorem Inv.arm (h : Inv s place rest) {timer : Timer} {n : Nat} (hn : s.nextId ≤ n)
    (hid : timer.id < n) (hfits : timer.Fits)
    (hin : InTime (unit timer.level s.drained) timer.level timer.runat)
    (hwaits : ∀ a, (place a).isSome → a.id ≠ timer.id)
    (hrest : ∀ timer' ∈ rest, timer'.id ≠ timer.id)
    (hlater : ∀ a ∈ s.armed, a.id = timer.id → a.runat < timer.runat) :
    ∃ place', Inv { s.arm timer with nextId := n } place' rest := by
  have hnew : timer.arming ∉ s.armed := fun ha => lt_irrefl _ (hlater _ ha rfl)
  have hnone : place timer.arming = none := by
    by_contra hsome
    exact hnew (h.mem_armed (Option.isSome_iff_ne_none.2 hsome))
  refine ⟨_, h.wheel.addTail hfits hnone hin, ?_, ?_, ?_, ?_, h.restNodup, ?_, h.handed, h.called,
    h.time, h.asleep, h.quiet⟩
  · intro a
    have hcount := h.counts a
    simp only [State.arm, State.handings, List.count_append] at hcount ⊢
    by_cases heq : a = timer.arming
    · subst heq
      rw [hnone] at hcount
      simp only [Function.update_self, Option.isSome_some, List.count_singleton_self] at hcount ⊢
      simp only [Option.isSome_none, Bool.false_eq_true, if_false, if_true] at hcount ⊢
      omega
    · rw [Function.update_of_ne heq, List.count_eq_zero.2 (by simpa using heq : a ∉ [timer.arming])]
      exact hcount
  · exact List.nodup_append.2 ⟨h.nodup, List.nodup_singleton _, by
      rintro a ha b hb rfl
      rw [List.mem_singleton] at hb
      exact hnew (hb ▸ ha)⟩
  · intro a ha
    rcases List.mem_append.1 ha with ha | ha
    · exact (h.ids a ha).trans_le hn
    · rw [List.mem_singleton] at ha
      rw [ha]
      exact hid
  · intro a ha a' ha' hsame
    by_cases heq : a = timer.arming
    · subst heq
      rcases List.mem_append.1 ha' with ha' | ha'
      · exact (hlater a' ha' hsame).le
      · rw [List.mem_singleton] at ha'
        rw [ha']
    · rw [Function.update_of_ne heq] at ha
      rcases List.mem_append.1 ha' with ha' | ha'
      · exact h.latest a ha a' ha' hsame
      · rw [List.mem_singleton] at ha'
        rw [ha'] at hsame
        exact absurd hsame.symm (hwaits a ha)
  · intro timer' htimer'
    obtain ⟨hf, hmem, hle, hlatest⟩ := h.rest timer' htimer'
    refine ⟨hf, List.mem_append_left _ hmem, hle, fun a ha hsame => ?_⟩
    rcases List.mem_append.1 ha with ha | ha
    · exact hlatest a ha hsame
    · rw [List.mem_singleton] at ha
      rw [ha] at hsame
      exact absurd hsame.symm (hrest timer' htimer')

theorem Inv.register (h : Inv s place rest) {numsec : Nat} (hallowed : (Op.register numsec).Allowed)
    (htimely : (Op.register numsec).Timely s) :
    ∃ place', Inv (timerRegister s numsec) place' rest := by
  obtain ⟨hsec, hlevel, hlower, hupper⟩ := levelFor_fits hallowed.1 hallowed.2
  have hdrained : s.drained ≤ s.currentTime := by
    unfold State.drained
    have := h.time
    split <;> omega
  have hin : InTime (unit (levelFor numsec).1 s.drained) (levelFor numsec).1
      (s.currentTime + numsec) := by
    obtain ⟨hlt, hle⟩ := inTime_of_le s.currentTime hlower hupper
    refine ⟨(unit_mono _ hdrained).trans_lt hlt, ?_⟩
    by_cases hphase : s.phase = .published
    · have hahead := htimely hphase
      have hpow : 2 ^ ((levelFor numsec).1 * timerArraySizeShift) =
          timerArraySize ^ (levelFor numsec).1 := by
        rw [mul_comm, pow_mul]
        norm_num
      rw [Nat.shiftRight_eq_div_pow, Nat.shiftRight_eq_div_pow, hpow] at hahead
      rw [State.drained, hphase]
      exact hahead
    · have hsame : s.drained = s.currentTime := by
        unfold State.drained
        have := h.asleep
        split <;> simp_all
      rw [hsame]
      exact hle
  have hfresh : ∀ a ∈ s.armed, a.id ≠ s.nextId := fun a ha => (h.ids a ha).ne
  have hpair : levelFor numsec = ((levelFor numsec).1, numsec) := Prod.ext rfl hsec
  unfold timerRegister
  rw [hpair]
  refine h.arm (Nat.le_succ _) (Nat.lt_succ_self _)
    ⟨hlevel, hallowed.1, hlower, hupper⟩ hin ?_ ?_ ?_
  · exact fun a ha => hfresh a (h.mem_armed ha)
  · exact fun timer' htimer' => hfresh _ (h.rest timer' htimer').2.1
  · exact fun a ha hsame => absurd hsame (hfresh a ha)

/-- `timer_process_timers` arms a timer again, or frees it. -/
theorem Inv.rearmTimer {timer : Timer} (h : Inv s place (timer :: rest))
    (hdrained : s.drained = s.currentTime) :
    ∃ place', Inv (rearmTimer s timer) place' rest := by
  obtain ⟨hfits, hmem, hle, hlatest⟩ := h.rest timer (by simp)
  have hnodup := h.restNodup
  rw [List.map_cons, List.nodup_cons] at hnodup
  have hrest : Inv s place rest :=
    { h with
      restNodup := hnodup.2
      rest := fun timer' htimer' => h.rest timer' (List.mem_cons_of_mem _ htimer') }
  unfold Ptimer.rearmTimer
  split
  · exact ⟨place, hrest⟩
  · refine hrest.arm le_rfl (h.ids _ hmem)
      ⟨hfits.level, hfits.pos, hfits.lower, hfits.upper⟩ ?_ ?_ ?_ ?_
    · rw [hdrained]
      exact inTime_of_le s.currentTime hfits.lower hfits.upper
    · intro a ha hsame
      have hlt := h.wheel.lt_runat ha
      have := hlatest a (h.mem_armed ha) hsame
      omega
    · intro timer' htimer' hsame
      obtain ⟨-, hmem', -, hlatest'⟩ := h.rest timer' (List.mem_cons_of_mem _ htimer')
      have h1 := hlatest _ hmem' hsame
      have h2 := hlatest' _ hmem hsame.symm
      have heq : timer.arming = timer'.arming := by
        simp only [Timer.arming] at h1 h2 ⊢
        rw [hsame, le_antisymm h2 h1]
      exact hnodup.1 (heq ▸ List.mem_map_of_mem htimer')
    · intro a ha hsame
      have hbefore := hlatest a ha hsame
      have hpos := hfits.pos
      show a.runat < s.currentTime + timer.numsec
      omega

theorem rearmTimer_same (s : State) (timer : Timer) :
    (rearmTimer s timer).currentTime = s.currentTime ∧ (rearmTimer s timer).phase = s.phase ∧
      (rearmTimer s timer).lt = s.lt ∧ (rearmTimer s timer).timers = s.timers := by
  unfold rearmTimer
  split <;> exact ⟨rfl, rfl, rfl, rfl⟩

theorem rearmFold {n : Nat} : ∀ {rest : List Timer} {s : State}
    {place : Arming → Option (Nat × Nat)}, Inv s place rest → s.phase = .calling n →
    ∃ place', Inv (rest.foldl rearmTimer s) place' [] ∧
      (rest.foldl rearmTimer s).phase = .calling n ∧
      (rest.foldl rearmTimer s).timers = s.timers
  | [], s, place, h, hphase => ⟨place, h, hphase, rfl⟩
  | timer :: rest, s, place, h, hphase => by
    obtain ⟨place₁, h₁⟩ := h.rearmTimer (by rw [State.drained, hphase])
    obtain ⟨-, hphase₁, -, htimers₁⟩ := rearmTimer_same s timer
    obtain ⟨place₂, h₂, hphase₂, htimers₂⟩ := rearmFold h₁ (hphase₁.trans hphase)
    exact ⟨place₂, h₂, hphase₂, htimers₂.trans htimers₁⟩

theorem Inv.rearm (h : Inv s place s.timers) (hphase : s.phase = .calling s.timers.length) :
    ∃ place', Inv (rearm s) place' [] := by
  obtain ⟨place', h', hphase', htimers'⟩ := rearmFold h hphase
  refine ⟨place', ?_⟩
  have hcalled := h'.called
  have huncalled : (s.timers.foldl Ptimer.rearmTimer s).uncalled = [] := by
    simp [State.uncalled, hphase', htimers']
  rw [huncalled] at hcalled
  have hwheel := h'.wheel
  rw [State.drained, hphase'] at hwheel
  exact ⟨hwheel, h'.counts, h'.nodup, h'.ids, h'.latest, h'.restNodup, by simp, h'.handed, hcalled,
    h'.time, by simp [Ptimer.rearm], fun _ => rfl⟩

theorem Inv.drain (h : Inv s place []) (hphase : s.phase = .published) :
    ∃ place', Inv (drain s) place' (drain s).timers := by
  have hwheel := h.wheel
  rw [State.drained, hphase] at hwheel
  have hupto : s.lt + (s.currentTime - s.lt) = s.currentTime := Nat.add_sub_cancel' h.time
  obtain ⟨place', out, hlist, hok, hsome, hout⟩ :=
    @timerPrepareTimers_ok (s.currentTime - s.lt) s.lt _ _ [] hwheel
  rw [hupto] at hok hsome hout
  rw [List.nil_append] at hlist
  have hstate : Ptimer.drain s = { s with
      timerlists := (timerPrepareTimers s.timerlists s.lt [] (s.currentTime - s.lt)).1
      timers := out
      phase := .calling 0
      handed := s.handed ++ out.map fun timer => ⟨timer.arming, s.lt, s.currentTime⟩ } := by
    rw [← hlist]
    rfl
  have hmap : (out.map fun timer => (⟨timer.arming, s.lt, s.currentTime⟩ : Handing)).map
      (·.arming) =
      out.map (·.arming) := by
    rw [List.map_map]
    rfl
  rw [hstate]
  refine ⟨place', hok, ?_, h.nodup, h.ids, ?_, hout.nodup, ?_, ?_, ?_, h.time, by simp,
    fun hnot => absurd rfl (hnot 0)⟩
  · intro a
    have hcount := h.counts a
    simp only [State.handings, List.map_append, hmap, List.count_append] at hcount ⊢
    by_cases hwait : (place a).isSome
    · by_cases hlt : s.currentTime < a.runat
      · have hnot : a ∉ out.map (·.arming) := fun ha => by
          have := (hout.mem a).1 ha
          omega
        rw [if_pos ((hsome a).2 ⟨hwait, hlt⟩), List.count_eq_zero.2 hnot]
        rw [if_pos hwait] at hcount
        omega
      · rw [if_neg (fun ha => hlt ((hsome a).1 ha).2),
          List.count_eq_one_of_mem hout.nodup ((hout.mem a).2 ⟨hwait, by omega⟩)]
        rw [if_pos hwait] at hcount
        omega
    · have hnot : a ∉ out.map (·.arming) := fun ha => hwait ((hout.mem a).1 ha).1
      rw [if_neg (fun ha => hwait ((hsome a).1 ha).1), List.count_eq_zero.2 hnot]
      rw [if_neg hwait] at hcount
      omega
  · exact fun a ha => h.latest a ((hsome a).1 ha).1
  · intro timer htimer
    obtain ⟨hwait, hle⟩ := (hout.mem timer.arming).1 (List.mem_map_of_mem htimer)
    exact ⟨hout.fits timer htimer, h.mem_armed hwait, hle,
      fun a ha hsame => h.latest _ hwait a ha hsame⟩
  · intro hd hhd
    rcases List.mem_append.1 hhd with hhd | hhd
    · exact h.handed hd hhd
    · obtain ⟨timer, htimer, rfl⟩ := List.mem_map.1 hhd
      obtain ⟨hwait, hle⟩ := (hout.mem timer.arming).1 (List.mem_map_of_mem htimer)
      exact ⟨hwheel.lt_runat hwait, hle⟩
  · have hcalled := h.called
    simp only [State.uncalled, hphase, List.map_nil, List.append_nil] at hcalled
    rw [List.map_append, hmap, hcalled]
    rfl

/-- `psync_timer_stop` of a timer that is being called only leaves a mark. -/
theorem Inv.stopRunning (h : Inv s place s.timers) (id : Nat) :
    ∃ place', Inv { s with timers := s.timers.map fun timer =>
      if timer.id = id then { timer with stopAfterRun := true } else timer } place'
      (s.timers.map fun timer =>
        if timer.id = id then { timer with stopAfterRun := true } else timer) := by
  have harming : ∀ timers : List Timer, (timers.map fun timer =>
      if timer.id = id then { timer with stopAfterRun := true } else timer).map (·.arming) =
      timers.map (·.arming) := by
    intro timers
    rw [List.map_map]
    refine List.map_congr_left fun timer _ => ?_
    simp only [Function.comp_apply]
    split <;> rfl
  refine ⟨place, h.wheel, h.counts, h.nodup, h.ids, h.latest, ?_, ?_, h.handed, ?_, h.time,
    h.asleep, fun hnot => by simp [h.quiet hnot]⟩
  · rw [harming]
    exact h.restNodup
  · intro timer htimer
    obtain ⟨timer', htimer', rfl⟩ := List.mem_map.1 htimer
    obtain ⟨hfits, hrest⟩ := h.rest timer' htimer'
    split
    · exact ⟨⟨hfits.level, hfits.pos, hfits.lower, hfits.upper⟩, hrest⟩
    · exact ⟨hfits, hrest⟩
  · have hcalled := h.called
    simp only [State.uncalled] at hcalled ⊢
    cases hphase : s.phase with
    | calling n =>
      rw [hphase] at hcalled
      simp only [← List.map_drop, harming]
      exact hcalled
    | _ =>
      rw [hphase] at hcalled
      exact hcalled

theorem mem_waiting {timer : Timer} {id : Nat} (h : timer ∈ s.waiting id) :
    timer.id = id ∧ ∃ level slot, timer ∈ s.timerlists level slot := by
  simp only [State.waiting, List.mem_flatMap, List.mem_filter, decide_eq_true_eq] at h
  obtain ⟨level, -, slot, -, hmem, hid⟩ := h
  exact ⟨hid, level, slot, hmem⟩

/-- `psync_timer_stop` of a timer in the wheel. -/
theorem Inv.stopWaiting (h : Inv s place rest) {id : Nat} {timer : Timer}
    (hmem : timer ∈ s.waiting id) :
    ∃ place', Inv { s with
      timerlists := fun level slot =>
        (s.timerlists level slot).filter fun timer => timer.id ≠ id
      stopped := s.stopped ++ [timer.arming] } place' rest := by
  obtain ⟨hid, level₀, slot₀, hin⟩ := mem_waiting hmem
  have hplace₀ : (place timer.arming).isSome := by
    rw [h.wheel.placed _ _ _ hin]
    rfl
  -- the last arming of a timer is the only one in the wheel
  have honly : ∀ a, (place a).isSome → (a.id = id ↔ a = timer.arming) := by
    intro a ha
    constructor
    · intro hsame
      have hsame' : a.id = timer.arming.id := hsame.trans hid.symm
      have h1 := h.latest _ hplace₀ a (h.mem_armed ha) hsame'
      have h2 := h.latest a ha _ (h.mem_armed hplace₀) hsame'.symm
      cases a
      simp only [Timer.arming] at *
      rw [hsame', le_antisymm h1 h2]
    · rintro rfl
      exact hid
  have hkeep : ∀ a level slot, place a = some (level, slot) → a ≠ timer.arming →
      ∃ timer' ∈ (s.timerlists level slot).filter (fun timer => timer.id ≠ id),
        timer'.arming = a := by
    intro a level slot ha hne
    obtain ⟨timer', htimer', rfl⟩ := h.wheel.found _ _ _ ha
    refine ⟨timer', List.mem_filter.2 ⟨htimer', ?_⟩, rfl⟩
    exact decide_eq_true ((honly timer'.arming (by rw [ha]; rfl)).not.2 hne)
  have hsub : ∀ a level slot, Function.update place timer.arming none a = some (level, slot) →
      a ≠ timer.arming ∧ place a = some (level, slot) := by
    intro a level slot ha
    by_cases heq : a = timer.arming
    · subst heq
      rw [Function.update_self] at ha
      cases ha
    · rw [Function.update_of_ne heq] at ha
      exact ⟨heq, ha⟩
  refine ⟨Function.update place timer.arming none, ⟨?_, ?_, ?_, ?_, ?_, ?_, ?_⟩, ?_, h.nodup, h.ids,
    ?_, h.restNodup, h.rest, h.handed, h.called, h.time, h.asleep, h.quiet⟩
  · intro level slot timer' htimer'
    obtain ⟨htimer', hne⟩ := List.mem_filter.1 htimer'
    have hplace := h.wheel.placed _ _ _ htimer'
    have hother : timer'.arming ≠ timer.arming := by
      intro heq
      exact of_decide_eq_true hne ((honly timer'.arming (by rw [hplace]; rfl)).2 heq)
    rw [Function.update_of_ne hother]
    exact hplace
  · intro a level slot ha
    obtain ⟨hne, ha⟩ := hsub a level slot ha
    exact hkeep a level slot ha hne
  · exact fun a level slot ha => h.wheel.level a level slot (hsub a level slot ha).2
  · exact fun a level slot ha => h.wheel.slot a level slot (hsub a level slot ha).2
  · exact fun a level slot ha => h.wheel.inTime a level slot (hsub a level slot ha).2
  · exact fun level slot => (h.wheel.nodup level slot).sublist (List.filter_sublist.map _)
  · exact fun level slot timer' htimer' =>
      h.wheel.fits level slot timer' (List.mem_filter.1 htimer').1
  · intro a
    have hcount := h.counts a
    simp only [State.handings, List.count_append] at hcount ⊢
    by_cases heq : a = timer.arming
    · subst heq
      rw [if_pos hplace₀] at hcount
      rw [Function.update_self, List.count_singleton_self]
      simp only [Option.isSome_none, Bool.false_eq_true, if_false]
      omega
    · rw [Function.update_of_ne heq, List.count_eq_zero.2 (by simpa using heq : a ∉ [timer.arming])]
      exact hcount
  · intro a ha
    by_cases heq : a = timer.arming
    · subst heq
      rw [Function.update_self] at ha
      cases ha
    · rw [Function.update_of_ne heq] at ha
      exact h.latest a ha

/-- A timely step keeps the invariant. -/
theorem inv_step (h : ∃ place, Inv s place s.timers) (hstep : TimelyStep s s') :
    ∃ place, Inv s' place s'.timers := by
  obtain ⟨place, h⟩ := h
  obtain ⟨op, hallowed, htimely, hexec⟩ := hstep
  cases op with
  | register numsec =>
    cases hexec
    exact h.register hallowed htimely
  | stop id =>
    simp only [exec, timerStop] at hexec
    split at hexec
    · cases hexec
      exact h.stopRunning id
    · split at hexec
      · cases hexec
      · next timer others hwaiting =>
        cases hexec
        exact h.stopWaiting (by rw [hwaiting]; simp)
  | publish now =>
    simp only [exec] at hexec
    split at hexec
    case isFalse => cases hexec
    case isTrue hguard =>
      cases hexec
      have hwheel := h.wheel
      have hcalled := h.called
      simp only [State.drained, State.uncalled, hguard.1] at hwheel hcalled
      have hquiet := h.quiet (by simp [hguard.1])
      exact ⟨place, hwheel, h.counts, h.nodup, h.ids, h.latest, h.restNodup,
        by simp [hquiet], h.handed, hcalled, h.time.trans hguard.2, by simp, fun _ => hquiet⟩
  | drain =>
    simp only [exec] at hexec
    split at hexec
    case isFalse => cases hexec
    case isTrue hphase =>
      cases hexec
      have hquiet := h.quiet (by simp [hphase])
      rw [hquiet] at h
      exact h.drain hphase
  | call =>
    simp only [exec] at hexec
    split at hexec
    case h_2 => cases hexec
    case h_1 n hphase =>
      split at hexec
      case h_2 => cases hexec
      case h_1 timer htimer =>
        cases hexec
        have hwheel := h.wheel
        have hrest := h.rest
        have hcalled := h.called
        simp only [State.drained, State.uncalled, hphase] at hwheel hrest hcalled
        refine ⟨place, hwheel, h.counts, h.nodup, h.ids, h.latest, h.restNodup, hrest, h.handed, ?_,
          h.time, by simp, fun hnot => absurd rfl (hnot (n + 1))⟩
        simp only [State.uncalled]
        obtain ⟨hlt, hget⟩ := List.getElem?_eq_some_iff.1 htimer
        rw [List.drop_eq_getElem_cons hlt, hget, List.map_cons] at hcalled
        rw [hcalled, List.append_assoc]
        rfl
  | rearm =>
    simp only [exec] at hexec
    split at hexec
    case isFalse => cases hexec
    case isTrue hphase =>
      cases hexec
      exact h.rearm hphase
  | next =>
    simp only [exec] at hexec
    split at hexec
    case isFalse => cases hexec
    case isTrue hphase =>
      cases hexec
      have hwheel := h.wheel
      have hcalled := h.called
      simp only [State.drained, State.uncalled, hphase] at hwheel hcalled
      have hquiet := h.quiet (by simp [hphase])
      exact ⟨place, hwheel, h.counts, h.nodup, h.ids, h.latest, h.restNodup,
        by simp [hquiet], h.handed, hcalled, le_rfl, fun _ => rfl, fun _ => hquiet⟩

theorem inv_init (now : Nat) : Inv (init now) (fun _ => none) [] := by
  refine ⟨⟨?_, ?_, ?_, ?_, ?_, ?_, ?_⟩, ?_, ?_, ?_, ?_, ?_, ?_, ?_, ?_, le_rfl, fun _ => rfl,
    fun _ => rfl⟩
  all_goals simp [init, State.handings, State.uncalled]

/-! ## Every run -/

/-- In every run whose registrations are timely, timers are handed over in the drain that covers
their tick, once for each arming. -/
theorem timers_exact {now : Nat} (h : Relation.ReflTransGen TimelyStep (init now) s) :
    s.Exact := by
  have hinv : ∃ place, Inv s place s.timers := by
    induction h with
    | refl => exact ⟨_, inv_init now⟩
    | tail _ hstep ih => exact inv_step ih hstep
  obtain ⟨place, hinv⟩ := hinv
  exact hinv.exact

/-- Timers on all levels.  One is registered at the last interval that the condition allows while a
drain is due, one is stopped in the wheel and one in its callback; the cascade at 4096 moves the
upper ones down. -/
def levels : List Op :=
  [.register 100, .register 4100, .publish 4003, .register 61, .drain, .rearm, .next,
    .register 5, .stop 3, .publish 4100, .drain, .call, .stop 2, .call, .rearm, .next]

theorem timers_exact_levels :
    ∃ s, Relation.ReflTransGen TimelyStep (init 4000) s ∧ s.Exact ∧
      s.handed = [⟨⟨2, 4064⟩, 4003, 4100⟩, ⟨⟨0, 4100⟩, 4003, 4100⟩] ∧ s.stopped = [⟨3, 4008⟩] ∧
      s.armed = [⟨0, 4100⟩, ⟨1, 8100⟩, ⟨2, 4064⟩, ⟨3, 4008⟩, ⟨0, 4200⟩] ∧
      s.timerlists 1 (slotOf 1 8100) = [⟨1, 4100, 2, 8100, false, false⟩] := by
  have h : ((timelyRun levels (init 4000)).map fun s =>
      (s.handed, s.stopped, s.armed, s.timerlists 1 (slotOf 1 8100))) =
      some ([⟨⟨2, 4064⟩, 4003, 4100⟩, ⟨⟨0, 4100⟩, 4003, 4100⟩], [⟨3, 4008⟩],
        [⟨0, 4100⟩, ⟨1, 8100⟩, ⟨2, 4064⟩, ⟨3, 4008⟩, ⟨0, 4200⟩],
        [⟨1, 4100, 2, 8100, false, false⟩]) := by decide +kernel
  obtain ⟨s, hrun, hs⟩ := Option.map_eq_some_iff.mp h
  simp only [Prod.mk.injEq] at hs
  exact ⟨s, reaches_of_timelyRun hrun, timers_exact (reaches_of_timelyRun hrun), hs⟩
/-- A timer of 64 seconds that is registered between the writing of the time and the drain up to
it is handed over at once. -/
theorem timer_before_its_tick :
    ∃ s, Relation.ReflTransGen Step (init 0) s ∧ s.handed = [⟨⟨0, 65⟩, 0, 1⟩] ∧ ¬s.Exact := by
  have hrun : Relation.ReflTransGen Step (init 0) _ :=
    .tail (.tail (.tail .refl ⟨.publish 1, trivial, rfl⟩)
      ⟨.register 64, ⟨by decide, by decide⟩, rfl⟩) ⟨.drain, trivial, rfl⟩
  refine ⟨_, hrun, by decide, fun hexact => ?_⟩
  have hcovered : 0 < 65 ∧ 65 ≤ 1 := hexact.covered ⟨⟨0, 65⟩, 0, 1⟩ (by decide)
  omega

end PcloudClient.Ptimer
