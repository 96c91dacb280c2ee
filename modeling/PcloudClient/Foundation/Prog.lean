/-
  Foundation/Prog.lean --- programs with a state that may not return, and triples for them.

  A program that does not return still has a state: that in which it stopped, or that which it
  had when its fuel was used up.  A program also tells at which of some places it came by, and
  in which states.  A triple says something of the state and of whether a place was met in a
  state that is `bad`.
-/
import Mathlib.Logic.Basic

set_option autoImplicit false

namespace PcloudClient.Foundation

/-- A program over the states `σ`, with the places `ι`; `none` when it does not return. -/
def Prog (ι σ α : Type) : Type := σ → Option α × σ × List (ι × σ)

namespace Prog

variable {ι σ α β : Type}

/-- A program that does not return. -/
def stop : Prog ι σ α := fun s => (none, s, [])

/-- A program that comes by no place. -/
def act (m : σ → Option α × σ) : Prog ι σ α := fun s => ((m s).1, (m s).2, [])

/-- A place. -/
def mark (p : ι) : Prog ι σ Unit := fun s => (some (), s, [(p, s)])

instance : Monad (Prog ι σ) where
  pure a := fun s => (some a, s, [])
  bind m k := fun s =>
    match m s with
    | (none, s', l) => (none, s', l)
    | (some a, s', l) => ((k a s').1, (k a s').2.1, l ++ (k a s').2.2)

/-- What a program returns from a state. -/
def value (m : Prog ι σ α) (s : σ) : Option α := (m s).1

/-- The state after a program. -/
def final (m : Prog ι σ α) (s : σ) : σ := (m s).2.1

/-- The places that a program comes by, with its states there. -/
def places (m : Prog ι σ α) (s : σ) : List (ι × σ) := (m s).2.2

/-- `assert(cond)` -/
def assert (cond : Prop) [Decidable cond] : Prog ι σ Unit := if cond then pure () else stop

/-- One of the places was met in a bad state. -/
def Met (bad : ι → σ → Prop) (l : List (ι × σ)) : Prop := ∃ p ∈ l, bad p.1 p.2

@[simp] theorem met_nil (bad : ι → σ → Prop) : ¬Met bad [] := by rintro ⟨p, hp, -⟩; exact nomatch hp

theorem met_append (bad : ι → σ → Prop) (l l' : List (ι × σ)) :
    Met bad (l ++ l') ↔ Met bad l ∨ Met bad l' := by
  constructor
  · rintro ⟨p, hp, hbad⟩
    rcases List.mem_append.mp hp with hp | hp
    · exact Or.inl ⟨p, hp, hbad⟩
    · exact Or.inr ⟨p, hp, hbad⟩
  · rintro (⟨p, hp, hbad⟩ | ⟨p, hp, hbad⟩)
    · exact ⟨p, List.mem_append_left _ hp, hbad⟩
    · exact ⟨p, List.mem_append_right _ hp, hbad⟩

/-- If `pre` holds before the program, `post` holds where it returns and `always` where it
does not; the second argument of each is whether a place was met in a bad state. -/
def Triple (bad : ι → σ → Prop) (always pre : σ → Prop → Prop) (m : Prog ι σ α)
    (post : α → σ → Prop → Prop) : Prop :=
  ∀ s f, pre s f → match m s with
    | (none, s', l) => always s' (f ∨ Met bad l)
    | (some a, s', l) => post a s' (f ∨ Met bad l)

namespace Triple

variable {bad : ι → σ → Prop} {always pre pre' : σ → Prop → Prop} {m : Prog ι σ α}
  {post post' : α → σ → Prop → Prop}

theorem or_met_nil (f : Prop) : (f ∨ Met bad []) = f := by simp

theorem pure {a : α} (h : ∀ s f, pre s f → post a s f) :
    Triple bad always pre (Pure.pure a) post := by
  intro s f hs
  change post a s (f ∨ Met bad [])
  rw [or_met_nil]
  exact h s f hs

theorem stop (h : ∀ s f, pre s f → always s f) :
    Triple bad always pre (Prog.stop : Prog ι σ α) post := by
  intro s f hs
  change always s (f ∨ Met bad [])
  rw [or_met_nil]
  exact h s f hs

theorem act {m : σ → Option α × σ}
    (h : ∀ s f, pre s f → match m s with
      | (none, s') => always s' f
      | (some a, s') => post a s' f) : Triple bad always pre (Prog.act m) post := by
  intro s f hs
  have hrun := h s f hs
  unfold Prog.act
  rcases heq : m s with ⟨_ | a, s'⟩
  · rw [heq] at hrun
    change always s' (f ∨ Met bad [])
    rwa [or_met_nil]
  · rw [heq] at hrun
    change post a s' (f ∨ Met bad [])
    rwa [or_met_nil]

/-- The second program begins where the first returned. -/
theorem bind {mid : α → σ → Prop → Prop} {k : α → Prog ι σ β} {post : β → σ → Prop → Prop}
    (hm : Triple bad always pre m mid) (hk : ∀ a, Triple bad always (mid a) (k a) post) :
    Triple bad always pre (m >>= k) post := by
  intro s f hs
  have hfirst := hm s f hs
  simp only [Bind.bind]
  rcases hrun : m s with ⟨_ | a, s', l⟩
  · rw [hrun] at hfirst
    exact hfirst
  · rw [hrun] at hfirst
    have hsecond := hk a s' (f ∨ Met bad l) hfirst
    have hmet : ∀ l', (f ∨ Met bad (l ++ l')) = ((f ∨ Met bad l) ∨ Met bad l') := by
      intro l'
      rw [met_append, or_assoc]
    rcases hrest : k a s' with ⟨_ | b, s'', l'⟩
    · rw [hrest] at hsecond
      simp only [hrest, hmet]
      exact hsecond
    · rw [hrest] at hsecond
      simp only [hrest, hmet]
      exact hsecond

/-- A program after a place: what it shows of its states without the place, and whether the
place was bad. -/
theorem mark {p : ι} (h : ∀ s f, pre s f → match m s with
    | (none, s', l) => always s' ((f ∨ bad p s) ∨ Met bad l)
    | (some a, s', l) => post a s' ((f ∨ bad p s) ∨ Met bad l)) :
    Triple bad always pre (Prog.mark p >>= fun _ => m) post := by
  intro s f hs
  have hrun := h s f hs
  have hmet : ∀ l, (f ∨ Met bad ((p, s) :: l)) = ((f ∨ bad p s) ∨ Met bad l) := by
    intro l
    have hone : Met bad [(p, s)] ↔ bad p s := by simp [Met]
    rw [← List.singleton_append, met_append, hone, or_assoc]
  simp only [Bind.bind, Prog.mark]
  rcases hm : m s with ⟨_ | a, s', l⟩
  · rw [hm] at hrun
    simp only [List.singleton_append, hmet]
    exact hrun
  · rw [hm] at hrun
    simp only [List.singleton_append, hmet]
    exact hrun

/-- What comes after the step at a place. -/
theorem bindPlace {p : ι} {mid : α → σ → Prop → Prop} {k : α → Prog ι σ β}
    {post : β → σ → Prop → Prop}
    (hm : Triple bad always pre (Prog.mark p >>= fun _ => m) mid)
    (hk : ∀ a, Triple bad always (mid a) (k a) post) :
    Triple bad always pre (Prog.mark p >>= fun _ => m >>= k) post := by
  have hassoc : (Prog.mark p >>= fun _ => m >>= k) = (Prog.mark p >>= fun _ => m) >>= k := by
    funext s
    simp only [Bind.bind, Prog.mark]
    rcases m s with ⟨_ | a, s', l⟩ <;> rfl
  rw [hassoc]
  exact bind hm hk

theorem conseq (h : Triple bad always pre m post) (hpre : ∀ s f, pre' s f → pre s f)
    (hpost : ∀ a s f, post a s f → post' a s f) : Triple bad always pre' m post' := by
  intro s f hs
  have hrun := h s f (hpre s f hs)
  rcases heq : m s with ⟨_ | a, s', l⟩
  · rw [heq] at hrun
    exact hrun
  · rw [heq] at hrun
    exact hpost a s' _ hrun

theorem ite {c : Prop} [Decidable c] {m' : Prog ι σ α} (h : c → Triple bad always pre m post)
    (h' : ¬c → Triple bad always pre m' post) :
    Triple bad always pre (if c then m else m') post := by
  split
  · next hc => exact h hc
  · next hc => exact h' hc

theorem assert {c : Prop} [Decidable c] (h : ∀ s f, pre s f → always s f) :
    Triple bad always pre (Prog.assert c) fun _ => pre := by
  unfold Prog.assert
  exact ite (fun _ => pure fun _ _ hs => hs) fun _ => stop h

end Triple

/-- Every value the program returns has the property. -/
def Returns (m : Prog ι σ α) (good : α → Prop) : Prop := ∀ s a, m.value s = some a → good a

namespace Returns

variable {m m' : Prog ι σ α} {good : α → Prop}

theorem pure {a : α} (h : good a) : Returns (Pure.pure a : Prog ι σ α) good := by
  intro s a' heq
  exact Option.some.inj heq ▸ h

theorem bind {first : β → Prop} {m : Prog ι σ β} {k : β → Prog ι σ α} (hm : Returns m first)
    (h : ∀ b, first b → Returns (k b) good) : Returns (m >>= k) good := by
  intro s a heq
  simp only [value, Bind.bind] at heq
  rcases hrun : m s with ⟨_ | b, s₁, l⟩
  · rw [hrun] at heq
    exact nomatch heq
  · rw [hrun] at heq
    exact h b (hm s b (by rw [value, hrun])) s₁ a heq

theorem after {m : Prog ι σ β} {k : β → Prog ι σ α} (h : ∀ b, Returns (k b) good) :
    Returns (m >>= k) good :=
  bind (fun _ _ _ => trivial) fun b _ => h b

theorem ite {c : Prop} [Decidable c] (h : Returns m good) (h' : Returns m' good) :
    Returns (if c then m else m') good := by
  split
  · exact h
  · exact h'

end Returns

theorem Triple.returns {bad : ι → σ → Prop} {always pre : σ → Prop → Prop} {m : Prog ι σ α}
    {post : α → σ → Prop → Prop} {good : α → Prop} (h : Triple bad always pre m post)
    (hgood : Returns m good) : Triple bad always pre m fun a s f => post a s f ∧ good a := by
  intro s f hs
  have hrun := h s f hs
  rcases heq : m s with ⟨_ | a, s', l⟩
  · rw [heq] at hrun
    exact hrun
  · rw [heq] at hrun
    exact ⟨hrun, hgood s a (by rw [value, heq])⟩

end Prog

end PcloudClient.Foundation
