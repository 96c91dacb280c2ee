/-
  Ptimer/Cascade.lean --- one tick of the wheel hands over the timers of that tick.

  A timer waits on one of the levels.  On each level the wheel has a position, the drained time in
  units of that level, and a timer is at most one turn of the level ahead of it.  So the slot of
  a timer names its tick, and the position reaches it once.
-/
import Mathlib.Tactic
import PcloudClient.Ptimer.Wheel

set_option autoImplicit false

namespace PcloudClient.Ptimer

/-- The time in units of a level. -/
def unit (level time : Nat) : Nat := time / timerArraySize ^ level

theorem slotOf_eq (level runat : Nat) : slotOf level runat = unit level runat % timerArraySize := by
  have hpow : 2 ^ (level * timerArraySizeShift) = timerArraySize ^ level := by
    rw [mul_comm, pow_mul]
    norm_num
  rw [slotOf, unit, Nat.shiftRight_eq_div_pow, hpow]

theorem unit_succ (level time : Nat) :
    unit (level + 1) time = unit level time / timerArraySize := by
  rw [unit, unit, Nat.div_div_eq_div_mul, pow_succ]

@[simp] theorem unit_zero (time : Nat) : unit 0 time = time := by simp [unit]

theorem unit_mono (level : Nat) {time time' : Nat} (h : time ≤ time') :
    unit level time ≤ unit level time' := Nat.div_le_div_right h

/-- At most one turn of the level ahead. -/
def InTime (pos level runat : Nat) : Prop :=
  pos < unit level runat ∧ unit level runat ≤ pos + timerArraySize

/-- A timer's level is that of its interval. -/
structure Timer.Fits (timer : Timer) : Prop where
  level : timer.level < timerLevels
  pos : 0 < timer.numsec
  lower : timerArraySize ^ timer.level ≤ timer.numsec
  upper : timer.numsec ≤ timerArraySize ^ (timer.level + 1)

/-- Every timer of the wheel is in the list where `place` says, that of its time on that level. -/
structure Wheel.Ok (w : Wheel) (pos : Nat → Nat) (place : Arming → Option (Nat × Nat)) : Prop where
  placed : ∀ level slot, ∀ timer ∈ w level slot, place timer.arming = some (level, slot)
  found : ∀ a level slot, place a = some (level, slot) →
    ∃ timer ∈ w level slot, timer.arming = a
  level : ∀ a level slot, place a = some (level, slot) → level < timerLevels
  slot : ∀ a level slot, place a = some (level, slot) → slot = slotOf level a.runat
  inTime : ∀ a level slot, place a = some (level, slot) → InTime (pos level) level a.runat
  nodup : ∀ level slot, ((w level slot).map (·.arming)).Nodup
  fits : ∀ level slot, ∀ timer ∈ w level slot, timer.Fits

/-! ## Lists -/

theorem addTail_apply (w : Wheel) (level slot : Nat) (timer : Timer) (level' slot' : Nat) :
    addTail w level slot timer level' slot' =
      w level' slot' ++ if level' = level ∧ slot' = slot then [timer] else [] := by
  by_cases hl : level' = level
  · subst hl
    by_cases hs : slot' = slot
    · subst hs
      simp [addTail]
    · simp [addTail, hs]
  · simp [addTail, hl]

theorem clear_apply (w : Wheel) (level slot level' slot' : Nat) :
    clear w level slot level' slot' =
      if level' = level ∧ slot' = slot then [] else w level' slot' := by
  by_cases hl : level' = level
  · subst hl
    by_cases hs : slot' = slot
    · subst hs
      simp [clear]
    · simp [clear, hs]
  · simp [clear, hl]

theorem moveDown_apply (w : Wheel) (level sh : Nat) (timers : List Timer) (level' slot' : Nat) :
    moveDown w level sh timers level' slot' = w level' slot' ++
      if level' = level then
        timers.filter fun timer => (timer.runat >>> sh) % timerArraySize = slot' else [] := by
  induction timers generalizing w with
  | nil => simp [moveDown]
  | cons timer timers ih =>
    rw [moveDown, List.foldl_cons, ← moveDown, ih, addTail_apply]
    by_cases hl : level' = level
    · by_cases hs : slot' = (timer.runat >>> sh) % timerArraySize
      · simp [hl, ← hs]
      · simp [hl, hs, Ne.symm hs]
    · simp [hl]

/-! ## A level above gives its timers to the level below -/

/-- The list of a level that is moved down. -/
def lower (w : Wheel) (level m : Nat) : Wheel :=
  clear (moveDown w level (level * timerArraySizeShift) (w (level + 1) m)) (level + 1) m

theorem lower_apply (w : Wheel) (level m level' slot' : Nat) :
    lower w level m level' slot' =
      if level' = level + 1 ∧ slot' = m then [] else w level' slot' ++
        if level' = level then
          (w (level + 1) m).filter fun timer => slotOf level timer.runat = slot' else [] := by
  rw [lower, clear_apply, moveDown_apply]
  rfl

/-- The position of the level above has come to the slot `m`, that of the level below is at its
end. -/
theorem Wheel.Ok.lower {w : Wheel} {pos : Nat → Nat} {place : Arming → Option (Nat × Nat)}
    (h : Wheel.Ok w pos place) {level q : Nat} (hupper : pos (level + 1) + 1 = q)
    (hlower : pos level + 1 = timerArraySize * q) (hlevel : level + 1 < timerLevels) :
    Wheel.Ok (lower w level (q % timerArraySize)) (Function.update pos (level + 1) q)
      (fun a => if place a = some (level + 1, q % timerArraySize) then
        some (level, slotOf level a.runat) else place a) := by
  have hmoved : ∀ a, place a = some (level + 1, q % timerArraySize) →
      unit (level + 1) a.runat = q := by
    intro a ha
    have hslot := h.slot a _ _ ha
    obtain ⟨hlt, hle⟩ := h.inTime a _ _ ha
    rw [slotOf_eq] at hslot
    simp only [timerArraySize] at *
    omega
  refine ⟨?_, ?_, ?_, ?_, ?_, ?_, ?_⟩
  · intro level' slot' timer htimer
    rw [lower_apply] at htimer
    split at htimer
    · cases htimer
    · next hnot =>
      rcases List.mem_append.1 htimer with hold | hnew
      · have hplace := h.placed _ _ _ hold
        have hne : place timer.arming ≠ some (level + 1, q % timerArraySize) := by
          rw [hplace]
          intro heq
          cases heq
          exact hnot ⟨rfl, rfl⟩
        rw [if_neg hne]
        exact hplace
      · split at hnew
        · next hl =>
          rw [List.mem_filter, decide_eq_true_eq] at hnew
          rw [if_pos (h.placed _ _ _ hnew.1), hl, ← hnew.2]
          rfl
        · cases hnew
  · intro a level' slot' ha
    rw [lower_apply]
    split at ha
    · next hplace =>
      cases ha
      obtain ⟨timer, htimer, harming⟩ := h.found _ _ _ hplace
      refine ⟨timer, ?_, harming⟩
      rw [if_neg (by simp), if_pos rfl]
      refine List.mem_append_right _ (List.mem_filter.2 ⟨htimer, ?_⟩)
      rw [← harming]
      exact decide_eq_true rfl
    · next hplace =>
      obtain ⟨timer, htimer, harming⟩ := h.found _ _ _ ha
      refine ⟨timer, ?_, harming⟩
      rw [if_neg (by rintro ⟨rfl, rfl⟩; exact hplace ha)]
      exact List.mem_append_left _ htimer
  · intro a level' slot' ha
    split at ha
    · cases ha
      omega
    · exact h.level _ _ _ ha
  · intro a level' slot' ha
    split at ha
    · cases ha
      rfl
    · exact h.slot _ _ _ ha
  · intro a level' slot' ha
    split at ha
    · next hplace =>
      cases ha
      have hunit := hmoved a hplace
      rw [unit_succ] at hunit
      rw [Function.update_of_ne (by omega)]
      simp only [InTime, timerArraySize] at *
      omega
    · next hplace =>
      have hslot := h.slot _ _ _ ha
      obtain ⟨hlt, hle⟩ := h.inTime _ _ _ ha
      by_cases hl : level' = level + 1
      · subst hl
        have hne : unit (level + 1) a.runat ≠ q := by
          intro heq
          rw [slotOf_eq, heq] at hslot
          exact hplace (by rw [ha, hslot])
        rw [Function.update_self]
        simp only [InTime, timerArraySize] at *
        omega
      · rw [Function.update_of_ne hl]
        exact ⟨hlt, hle⟩
  · intro level' slot'
    rw [lower_apply]
    split
    · exact List.nodup_nil
    · next hnot =>
      split
      · next hl =>
        subst hl
        rw [List.map_append, List.nodup_append]
        refine ⟨h.nodup _ _, (h.nodup _ _).sublist (List.filter_sublist.map _), ?_⟩
        intro a ha b hb heq
        subst heq
        obtain ⟨timer, htimer, rfl⟩ := List.mem_map.1 ha
        obtain ⟨timer', htimer', harming⟩ := List.mem_map.1 hb
        have h1 := h.placed _ _ _ htimer
        have h2 := h.placed _ _ _ (List.mem_filter.1 htimer').1
        rw [harming, h1] at h2
        simp at h2
      · rw [List.append_nil]
        exact h.nodup _ _
  · intro level' slot' timer htimer
    rw [lower_apply] at htimer
    split at htimer
    · cases htimer
    · rcases List.mem_append.1 htimer with hold | hnew
      · exact h.fits _ _ _ hold
      · split at hnew
        · exact h.fits _ _ _ (List.mem_filter.1 hnew).1
        · cases hnew

/-! ## A tick -/

section Tick

variable {w : Wheel} {pos pos' : Nat → Nat} {place : Arming → Option (Nat × Nat)}

theorem Wheel.Ok.congr (h : Wheel.Ok w pos place)
    (hpos : ∀ level, level < timerLevels → pos' level = pos level) : Wheel.Ok w pos' place := by
  refine ⟨h.placed, h.found, h.level, h.slot, ?_, h.nodup, h.fits⟩
  intro a level slot ha
  rw [hpos level (h.level a level slot ha)]
  exact h.inTime a level slot ha

/-- What a change of the wheel keeps: the armings that wait. -/
def SameWaiting (place place' : Arming → Option (Nat × Nat)) : Prop :=
  ∀ a, (place' a).isSome = (place a).isSome

theorem sameWaiting_lower (level m : Nat) :
    SameWaiting place fun a => if place a = some (level + 1, m) then
      some (level, slotOf level a.runat) else place a := by
  intro a
  dsimp only
  split
  · next h => rw [h]; rfl
  · rfl

theorem timerCheckUpperLevels_zero (tmdiv level : Nat) :
    timerCheckUpperLevels w tmdiv level (level * timerArraySizeShift) 0 =
      lower w level (tmdiv % timerArraySize) := rfl

theorem timerCheckUpperLevels_succ (tmdiv level upper : Nat) :
    timerCheckUpperLevels w tmdiv level (level * timerArraySizeShift) (upper + 1) =
      lower (if tmdiv % timerArraySize = 0 then
          timerCheckUpperLevels w (tmdiv / timerArraySize) (level + 1)
            ((level + 1) * timerArraySizeShift) upper else w)
        level (tmdiv % timerArraySize) := by
  rw [timerCheckUpperLevels, ← Nat.succ_mul]
  rfl

/-- A tick moves the position of a level when a turn of the levels below ends. -/
theorem unit_tick (level drained : Nat) : unit level (drained + 1) =
    unit level drained + if timerArraySize ^ level ∣ drained + 1 then 1 else 0 :=
  Nat.succ_div

theorem dvd_of_unit_mod {level time : Nat} (hdvd : timerArraySize ^ level ∣ time) :
    timerArraySize ^ (level + 1) ∣ time ↔ unit level time % timerArraySize = 0 := by
  rw [pow_succ, unit, ← Nat.dvd_iff_mod_eq_zero]
  exact (Nat.dvd_div_iff_mul_dvd hdvd).symm

/-- The positions while a tick goes down through the levels: those above `level` have moved. -/
def midPos (drained level l : Nat) : Nat :=
  if l ≤ level then unit l drained else unit l (drained + 1)

/-- The list of a level is moved down at the tick that comes to it. -/
theorem Wheel.Ok.lower_tick {drained level : Nat}
    (h : Wheel.Ok w (midPos drained (level + 1)) place)
    (hlevel : level + 1 < timerLevels) (hdvd : timerArraySize ^ (level + 1) ∣ drained + 1) :
    ∃ place', Wheel.Ok (Ptimer.lower w level (unit (level + 1) (drained + 1) % timerArraySize))
      (midPos drained level) place' ∧ SameWaiting place place' := by
  have hupper : midPos drained (level + 1) (level + 1) + 1 = unit (level + 1) (drained + 1) := by
    rw [midPos, if_pos le_rfl, unit_tick, if_pos hdvd]
  have hlower : midPos drained (level + 1) level + 1 =
      timerArraySize * unit (level + 1) (drained + 1) := by
    have hbelow : timerArraySize ^ level ∣ drained + 1 :=
      (pow_dvd_pow _ (Nat.le_succ level)).trans hdvd
    have hmod := (dvd_of_unit_mod hbelow).1 hdvd
    have htick := unit_tick level drained
    rw [if_pos hbelow] at htick
    rw [midPos, if_pos (Nat.le_succ level), ← htick, unit_succ]
    exact (Nat.mul_div_cancel' (Nat.dvd_of_mod_eq_zero hmod)).symm
  refine ⟨_, (h.lower hupper hlower hlevel).congr fun l hl => ?_, sameWaiting_lower level _⟩
  by_cases hl' : l = level + 1
  · subst hl'
    simp [midPos]
  · rw [Function.update_of_ne hl']
    simp only [midPos]
    grind

/-- `timer_check_upper_levels` at a tick where a turn of the level ends. -/
theorem timerCheckUpperLevels_ok {drained : Nat} (upper : Nat) :
    ∀ {level : Nat} {w : Wheel} {place : Arming → Option (Nat × Nat)},
      level + upper + 2 = timerLevels → Wheel.Ok w (fun l => unit l drained) place →
      timerArraySize ^ (level + 1) ∣ drained + 1 →
      ∃ place', Wheel.Ok (timerCheckUpperLevels w (unit (level + 1) (drained + 1)) level
          (level * timerArraySizeShift) upper) (midPos drained level) place' ∧
        SameWaiting place place' := by
  induction upper with
  | zero =>
    intro level w place hlevel h hdvd
    rw [timerCheckUpperLevels_zero]
    refine Wheel.Ok.lower_tick (h.congr fun l hl => ?_) (by omega) hdvd
    rw [midPos, if_pos (by omega)]
  | succ upper ih =>
    intro level w place hlevel h hdvd
    rw [timerCheckUpperLevels_succ, ← unit_succ]
    by_cases hmod : unit (level + 1) (drained + 1) % timerArraySize = 0
    · have hdvd' := (dvd_of_unit_mod hdvd).2 hmod
      obtain ⟨place₁, hok₁, hsame₁⟩ := @ih (level + 1) w place (by omega) h hdvd'
      obtain ⟨place₂, hok₂, hsame₂⟩ := hok₁.lower_tick (by omega) hdvd
      refine ⟨place₂, ?_, fun a => (hsame₂ a).trans (hsame₁ a)⟩
      rw [if_pos hmod]
      exact hok₂
    · rw [if_neg hmod]
      refine Wheel.Ok.lower_tick (h.congr fun l hl => ?_) (by omega) hdvd
      by_cases hl' : l ≤ level + 1
      · rw [midPos, if_pos hl']
      · have hnot : ¬timerArraySize ^ l ∣ drained + 1 := by
          intro hl
          exact hmod ((dvd_of_unit_mod hdvd).1 ((pow_dvd_pow _ (by omega)).trans hl))
        rw [midPos, if_neg hl', unit_tick, if_neg hnot]
        rfl

/-- The level at the bottom is emptied at its position. -/
theorem Wheel.Ok.clear {drained : Nat} (h : Wheel.Ok w (midPos drained 0) place) :
    ∃ place', Wheel.Ok (clear w 0 ((drained + 1) % timerArraySize))
        (fun l => unit l (drained + 1)) place' ∧
      (∀ a, (place' a).isSome ↔ (place a).isSome ∧ a.runat ≠ drained + 1) ∧
      (∀ a, a ∈ (w 0 ((drained + 1) % timerArraySize)).map (·.arming) ↔
        (place a).isSome ∧ a.runat = drained + 1) := by
  -- the slot of the tick, and no other, has the armings of the tick
  have hslot : ∀ a level slot, place a = some (level, slot) →
      (a.runat = drained + 1 ↔ level = 0 ∧ slot = (drained + 1) % timerArraySize) := by
    intro a level slot ha
    have hslot := h.slot a level slot ha
    obtain ⟨hlt, hle⟩ := h.inTime a level slot ha
    rw [slotOf_eq] at hslot
    by_cases hl : level = 0
    · subst hl
      simp only [midPos, le_refl, if_true, unit_zero, timerArraySize, true_and] at hslot hlt hle ⊢
      omega
    · rw [midPos, if_neg (by omega)] at hlt
      constructor
      · intro heq
        rw [heq] at hlt
        exact absurd hlt (lt_irrefl _)
      · exact fun heq => absurd heq.1 hl
  refine ⟨fun a => if a.runat = drained + 1 then none else place a, ⟨?_, ?_, ?_, ?_, ?_, ?_, ?_⟩,
    ?_, ?_⟩
  · intro level slot timer htimer
    rw [clear_apply] at htimer
    split at htimer
    · cases htimer
    · next hnot =>
      have hplace := h.placed _ _ _ htimer
      rw [if_neg (fun heq => hnot ((hslot _ _ _ hplace).1 heq))]
      exact hplace
  · intro a level slot ha
    split at ha
    · cases ha
    · next hne =>
      rw [clear_apply, if_neg (fun heq => hne ((hslot _ _ _ ha).2 heq))]
      exact h.found _ _ _ ha
  · intro a level slot ha
    split at ha
    · cases ha
    · exact h.level _ _ _ ha
  · intro a level slot ha
    split at ha
    · cases ha
    · exact h.slot _ _ _ ha
  · intro a level slot ha
    split at ha
    · cases ha
    · next hne =>
      obtain ⟨hlt, hle⟩ := h.inTime _ _ _ ha
      by_cases hl : level = 0
      · subst hl
        simp only [InTime, midPos, le_refl, if_true, unit_zero, timerArraySize] at *
        omega
      · rw [midPos, if_neg (by omega)] at hlt hle
        exact ⟨hlt, hle⟩
  · intro level slot
    rw [clear_apply]
    split
    · exact List.nodup_nil
    · exact h.nodup _ _
  · intro level slot timer htimer
    rw [clear_apply] at htimer
    split at htimer
    · cases htimer
    · exact h.fits _ _ _ htimer
  · intro a
    dsimp only
    split
    · next heq => simp [heq]
    · next hne => simp [hne]
  · intro a
    constructor
    · intro ha
      obtain ⟨timer, htimer, rfl⟩ := List.mem_map.1 ha
      have hplace := h.placed _ _ _ htimer
      exact ⟨by rw [hplace]; rfl, (hslot _ _ _ hplace).2 ⟨rfl, rfl⟩⟩
    · rintro ⟨hsome, heq⟩
      obtain ⟨⟨level, slot⟩, hplace⟩ := Option.isSome_iff_exists.1 hsome
      obtain ⟨rfl, rfl⟩ := (hslot _ _ _ hplace).1 heq
      obtain ⟨timer, htimer, rfl⟩ := h.found _ _ _ hplace
      exact List.mem_map.2 ⟨timer, htimer, rfl⟩

/-- What a list of timers that leave the wheel has: those of `due`, each once. -/
structure Leaves (out : List Timer) (due : Arming → Prop) : Prop where
  nodup : (out.map (·.arming)).Nodup
  mem : ∀ a, a ∈ out.map (·.arming) ↔ due a
  fits : ∀ timer ∈ out, timer.Fits

/-- A tick takes the timers of that tick out of the wheel, and no other. -/
theorem prepareTick_ok {drained : Nat} (h : Wheel.Ok w (fun l => unit l drained) place)
    (list : List Timer) :
    ∃ place' out, (prepareTick w list (drained + 1)).2 = list ++ out ∧
      Wheel.Ok (prepareTick w list (drained + 1)).1 (fun l => unit l (drained + 1)) place' ∧
      (∀ a, (place' a).isSome ↔ (place a).isSome ∧ a.runat ≠ drained + 1) ∧
      Leaves out fun a => (place a).isSome ∧ a.runat = drained + 1 := by
  obtain ⟨w₁, hw₁, place₁, hok₁, hsame₁⟩ : ∃ w₁, w₁ = (if (drained + 1) % timerArraySize = 0 then
      timerCheckUpperLevels w ((drained + 1) / timerArraySize) 0 0 (timerLevels - 2) else w) ∧
      ∃ place₁, Wheel.Ok w₁ (midPos drained 0) place₁ ∧ SameWaiting place place₁ := by
    refine ⟨_, rfl, ?_⟩
    split
    · next hmod =>
      have hdvd : timerArraySize ^ (0 + 1) ∣ drained + 1 := by
        rw [dvd_of_unit_mod (by simp), unit_zero]
        exact hmod
      have := @timerCheckUpperLevels_ok drained (timerLevels - 2) 0 w place rfl h hdvd
      simpa [unit] using this
    · next hmod =>
      refine ⟨place, h.congr fun l hl => ?_, fun a => rfl⟩
      by_cases hl' : l ≤ 0
      · rw [midPos, if_pos hl']
      · have hnot : ¬timerArraySize ^ l ∣ drained + 1 := by
          intro hdvd
          have hone : timerArraySize ^ 1 ∣ drained + 1 := (pow_dvd_pow _ (by omega)).trans hdvd
          rw [pow_one] at hone
          exact hmod (Nat.mod_eq_zero_of_dvd hone)
        rw [midPos, if_neg hl', unit_tick, if_neg hnot]
        rfl
  obtain ⟨place₂, hok₂, hsome, hout⟩ := hok₁.clear
  have hmap : ∀ (timers : List Timer),
      (timers.map fun timer => { timer with isRunning := true }).map
      (·.arming) = timers.map (·.arming) := by
    intro timers
    rw [List.map_map]
    rfl
  refine ⟨place₂, (w₁ 0 ((drained + 1) % timerArraySize)).map fun timer =>
    { timer with isRunning := true }, ?_, ?_, ?_, ?_, ?_, ?_⟩
  · rw [hw₁]; rfl
  · rw [hw₁] at hok₂
    exact hok₂
  · intro a
    rw [hsome, hsame₁]
  · rw [hmap]
    exact hok₁.nodup _ _
  · intro a
    rw [hmap, hout, hsame₁]
  · intro timer htimer
    obtain ⟨timer', htimer', rfl⟩ := List.mem_map.1 htimer
    exact ⟨(hok₁.fits _ _ _ htimer').level, (hok₁.fits _ _ _ htimer').pos,
      (hok₁.fits _ _ _ htimer').lower, (hok₁.fits _ _ _ htimer').upper⟩

theorem Wheel.Ok.lt_runat {drained : Nat} (h : Wheel.Ok w (fun l => unit l drained) place)
    {a : Arming} (ha : (place a).isSome) : drained < a.runat := by
  obtain ⟨⟨level, slot⟩, hplace⟩ := Option.isSome_iff_exists.1 ha
  by_contra hle
  have hmono := unit_mono level (Nat.le_of_not_lt hle)
  have hlt := (h.inTime a level slot hplace).1
  omega

/-- `timer_prepare_timers` hands over the timers of its ticks and no other. -/
theorem timerPrepareTimers_ok {count : Nat} : ∀ {drained : Nat} {w : Wheel}
    {place : Arming → Option (Nat × Nat)} {list : List Timer},
    Wheel.Ok w (fun l => unit l drained) place →
    ∃ place' out, (timerPrepareTimers w drained list count).2 = list ++ out ∧
      Wheel.Ok (timerPrepareTimers w drained list count).1
        (fun l => unit l (drained + count)) place' ∧
      (∀ a, (place' a).isSome ↔ (place a).isSome ∧ drained + count < a.runat) ∧
      Leaves out fun a => (place a).isSome ∧ a.runat ≤ drained + count := by
  induction count with
  | zero =>
    intro drained w place list h
    refine ⟨place, [], by simp [timerPrepareTimers], h, ?_, List.nodup_nil, ?_, by simp⟩
    · intro a
      exact ⟨fun ha => ⟨ha, h.lt_runat ha⟩, fun ha => ha.1⟩
    · intro a
      simp only [List.map_nil, List.not_mem_nil, false_iff, not_and]
      intro ha
      have := h.lt_runat ha
      omega
  | succ count ih =>
    intro drained w place list h
    obtain ⟨place₁, out₁, hlist₁, hok₁, hsome₁, hout₁⟩ := prepareTick_ok h list
    obtain ⟨place₂, out₂, hlist₂, hok₂, hsome₂, hout₂⟩ :=
      @ih (drained + 1) _ _ (prepareTick w list (drained + 1)).2 hok₁
    have hcount : drained + 1 + count = drained + (count + 1) := by omega
    rw [hcount] at hok₂ hsome₂ hout₂
    refine ⟨place₂, out₁ ++ out₂, ?_, hok₂, ?_, ?_, ?_, ?_⟩
    · rw [timerPrepareTimers, hlist₂, hlist₁, List.append_assoc]
    · intro a
      rw [hsome₂, hsome₁]
      constructor
      · exact fun ha => ⟨ha.1.1, ha.2⟩
      · exact fun ha => ⟨⟨ha.1, by omega⟩, ha.2⟩
    · rw [List.map_append, List.nodup_append]
      refine ⟨hout₁.nodup, hout₂.nodup, fun a ha b hb heq => ?_⟩
      subst heq
      have h1 := (hout₁.mem a).1 ha
      have h2 := (hout₂.mem a).1 hb
      exact ((hsome₁ a).1 h2.1).2 h1.2
    · intro a
      rw [List.map_append, List.mem_append, hout₁.mem, hout₂.mem, hsome₁]
      have hlt : (place a).isSome → drained < a.runat := h.lt_runat
      constructor
      · rintro (⟨ha, heq⟩ | ⟨⟨ha, -⟩, hle⟩)
        · exact ⟨ha, by omega⟩
        · exact ⟨ha, hle⟩
      · rintro ⟨ha, hle⟩
        by_cases heq : a.runat = drained + 1
        · exact .inl ⟨ha, heq⟩
        · exact .inr ⟨⟨ha, heq⟩, hle⟩
    · intro timer htimer
      rcases List.mem_append.1 htimer with htimer | htimer
      · exact hout₁.fits _ htimer
      · exact hout₂.fits _ htimer

end Tick

end PcloudClient.Ptimer
