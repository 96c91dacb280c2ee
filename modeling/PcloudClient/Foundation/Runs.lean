/-
  Foundation/Runs.lean --- a machine that takes one operation after the other, and what holds in
  its runs when every step meets a condition.
-/
import Mathlib.Data.List.Basic

set_option autoImplicit false

namespace PcloudClient.Runs

variable {σ ι ο ε : Type}

/-- All outputs and the last state, unless a step fails. -/
def run (step : σ → ι → Except ε (ο × σ)) : σ → List ι → Except ε (List ο × σ)
  | s, [] => .ok ([], s)
  | s, i :: is => (step s i).bind fun r => (run step r.2 is).map fun t => (r.1 :: t.1, t.2)

/-- Every step of the run meets the condition in the state in which it is taken. -/
def MeetsAll (step : σ → ι → Except ε (ο × σ)) (cond : σ → ι → Prop) : σ → List ι → Prop
  | _, [] => True
  | s, i :: is => cond s i ∧
    match step s i with
    | .ok r => MeetsAll step cond r.2 is
    | .error _ => True

variable {step : σ → ι → Except ε (ο × σ)} {cond : σ → ι → Prop} {s : σ} {i : ι} {is : List ι}

instance decidableMeetsAll [∀ s i, Decidable (cond s i)] :
    ∀ s is, Decidable (MeetsAll step cond s is)
  | _, [] => .isTrue trivial
  | s, i :: is =>
    have : Decidable (match step s i with
      | .ok r => MeetsAll step cond r.2 is
      | .error _ => True) :=
      match step s i with
      | .ok r => decidableMeetsAll r.2 is
      | .error _ => .isTrue trivial
    inferInstanceAs (Decidable (_ ∧ _))

theorem MeetsAll.head (h : MeetsAll step cond s (i :: is)) : cond s i := h.1

theorem MeetsAll.tail {o : ο} {s' : σ} (h : MeetsAll step cond s (i :: is))
    (hstep : step s i = .ok (o, s')) : MeetsAll step cond s' is := by
  have hrest := h.2
  rwa [hstep] at hrest

theorem MeetsAll.cons (hi : cond s i)
    (his : ∀ o s', step s i = .ok (o, s') → MeetsAll step cond s' is) :
    MeetsAll step cond s (i :: is) := by
  refine ⟨hi, ?_⟩
  split
  · next r hr => exact his r.1 r.2 hr
  · trivial

theorem run_cons {o : ο} {s' : σ} (h : step s i = .ok (o, s')) :
    run step s (i :: is) = (run step s' is).map fun t => (o :: t.1, t.2) := by
  rw [run, h]
  rfl

theorem run_cons_ok {t : List ο × σ} (h : run step s (i :: is) = .ok t) :
    ∃ o s' outs, step s i = .ok (o, s') ∧ run step s' is = .ok (outs, t.2) ∧ t.1 = o :: outs := by
  rw [run] at h
  cases hfirst : step s i with
  | error e =>
    rw [hfirst] at h
    cases h
  | ok r =>
    rw [hfirst, Except.bind] at h
    cases hrest : run step r.2 is with
    | error e =>
      rw [hrest] at h
      cases h
    | ok t' =>
      rw [hrest] at h
      obtain rfl := Except.ok.inj h
      exact ⟨r.1, r.2, t'.1, rfl, hrest, rfl⟩

/-- Where a step that meets the condition keeps `inv` if it succeeds, a run does too. -/
theorem MeetsAll.inv (inv : σ → Prop)
    (hstep : ∀ {s i o s'}, inv s → cond s i → step s i = .ok (o, s') → inv s')
    {t : List ο × σ} (h : MeetsAll step cond s is) (hinv : inv s) (hrun : run step s is = .ok t) :
    inv t.2 := by
  induction is generalizing s t with
  | nil =>
    obtain rfl := Except.ok.inj hrun
    exact hinv
  | cons i is ih =>
    obtain ⟨o, s', outs, hfirst, hrest, -⟩ := run_cons_ok hrun
    exact ih (t := (outs, t.2)) (h.tail hfirst) (hstep hinv h.head hfirst) hrest

/-- Where a step that meets the condition succeeds and keeps `inv`, a relation between the
outputs so far and the state, a run does too. -/
theorem run_keeps (inv : List ο → σ → Prop)
    (hstep : ∀ out s i, inv out s → cond s i →
      ∃ o s', step s i = .ok (o, s') ∧ inv (out ++ [o]) s')
    (out : List ο) (hinv : inv out s) (h : MeetsAll step cond s is) :
    ∃ outs s', run step s is = .ok (outs, s') ∧ inv (out ++ outs) s' := by
  induction is generalizing s out with
  | nil => exact ⟨[], s, rfl, by rwa [List.append_nil]⟩
  | cons i is ih =>
    obtain ⟨o, s₁, hfirst, hinv₁⟩ := hstep out s i hinv h.head
    obtain ⟨outs, s', hrun, hinv'⟩ := ih (out ++ [o]) hinv₁ (h.tail hfirst)
    refine ⟨o :: outs, s', ?_, ?_⟩
    · rw [run_cons hfirst, hrun]
      rfl
    · rwa [List.append_assoc] at hinv'

end PcloudClient.Runs
