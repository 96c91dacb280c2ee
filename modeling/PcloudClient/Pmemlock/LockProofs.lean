/-
  Pmemlock/LockProofs.lean --- the lock of a range, with the cleanups that its pages cause.
-/
import PcloudClient.Pmemlock.FreeProofs

set_option autoImplicit false

namespace PcloudClient.Pmemlock

variable {debug : Bool} {pageSize : Option Nat} {s s' : State} {b : Block} {r : Range}
  {extra extra' : Nat → Nat} {p : Nat} {env : Nat → Mlock}

/-- A lock counts on other pages than before. -/
theorem Inv.recount (h : Inv debug pageSize extra s) {pages : Nat → Nat}
    (hpages : ∀ q, pages q + extra q = s.pages q + extra' q) :
    Inv debug pageSize extra' { s with pages := pages } :=
  { apart := h.apart
    sized := h.sized
    separated := h.separated
    tiled := h.tiled
    used := h.used
    blocks := h.blocks
    inside := h.inside
    filled := h.filled
    counted := fun q => by
      have hcounted := h.counted q
      have hq := hpages q
      dsimp only
      omega
    alive := h.alive }

/-- One more on a page. -/
def bump (extra : Nat → Nat) (p : Nat) : Nat → Nat := fun q => extra q + if q = p then 1 else 0

theorem Inv.setPage (h : Inv debug pageSize extra s) {n : Nat} (hn : n = s.pages p + 1) :
    Inv debug pageSize (bump extra p) (s.setPage p n) := by
  refine h.recount fun q => ?_
  unfold bump
  by_cases hq : q = p
  · subst hq
    rw [Function.update_self, if_pos rfl]
    omega
  · rw [Function.update_of_ne hq, if_neg hq]
    omega

theorem Inv.unlockPage (h : Inv debug pageSize (bump extra p) s) :
    Inv debug pageSize extra (s.unlockPage p) := by
  have hcounted := h.counted p
  unfold bump at hcounted
  rw [if_pos rfl] at hcounted
  refine h.recount fun q => ?_
  unfold bump
  by_cases hq : q = p
  · subst hq
    rw [Function.update_self, if_pos rfl]
    omega
  · rw [Function.update_of_ne hq, if_neg hq]
    omega

theorem Shrinks.setPage (h : Shrinks s s') (n : Nat) : Shrinks s (s'.setPage p n) :=
  ⟨h.blocks, h.ranges⟩

/-- The blocks that the cleanups of failing `psync_mlock` leave. -/
def Spares (env : Nat → Mlock) (l : List Nat) (b : Block) : Prop :=
  ∀ p ∈ l, (env p).ok = false → b.ptr ∉ (env p).cleaned

/-- What the lock of pages comes to. -/
structure Locked (debug : Bool) (pageSize : Option Nat) (extra : Nat → Nat) (env : Nat → Mlock)
    (s : State) (l : List Nat) (res : Bool × State) : Prop where
  inv : Inv debug pageSize (fun q => extra q + if res.1 then l.count q else 0) res.2
  shrinks : Shrinks s res.2
  kept : ∀ b ∈ s.blocks, Spares env l b → b ∈ res.2.blocks

theorem count_singleton_eq (q p : Nat) : [p].count q = if q = p then 1 else 0 := by
  rw [List.count_singleton]
  by_cases hqp : q = p
  · simp [hqp]
  · simp [hqp, Ne.symm hqp]

theorem Inv.locked_one (h : Inv debug pageSize (bump extra p) s) :
    Inv debug pageSize (fun q => extra q + if true then [p].count q else 0) s := by
  have heq : (fun q => extra q + if true then [p].count q else 0) = bump extra p := by
    funext q
    rw [if_pos rfl, count_singleton_eq]
    rfl
  rw [heq]
  exact h

theorem Inv.lockPage (h : Inv debug pageSize extra s) (env : Nat → Mlock) (p : Nat) :
    Locked debug pageSize extra env s [p] (s.lockPage debug pageSize env p) := by
  obtain ⟨hinv, hshrinks, hkept⟩ := h.clean (env p).cleaned
  unfold State.lockPage
  by_cases hfound : s.pages p ≠ 0
  · rw [if_pos hfound]
    exact ⟨(h.setPage rfl).locked_one, (Shrinks.refl s).setPage _, fun _ hb _ => hb⟩
  · rw [if_neg hfound]
    by_cases hok : (env p).ok
    · rw [if_pos hok]
      exact ⟨(h.setPage (by omega)).locked_one, (Shrinks.refl s).setPage _, fun _ hb _ => hb⟩
    · rw [if_neg hok]
      have hspared : ∀ b ∈ s.blocks, Spares env [p] b →
          b ∈ (s.cleanCache debug pageSize (env p).cleaned).blocks := fun b hb hspares =>
        hkept b hb (hspares p (List.mem_singleton_self p) (by simpa using hok))
      dsimp only
      split
      · exact ⟨(hinv.setPage rfl).locked_one, hshrinks.setPage _, hspared⟩
      · split
        · exact ⟨(hinv.setPage (by omega)).locked_one, hshrinks.setPage _, hspared⟩
        · exact ⟨hinv, hshrinks, hspared⟩

theorem Inv.lockPages (h : Inv debug pageSize extra s) (env : Nat → Mlock) (l : List Nat) :
    Locked debug pageSize extra env s l (s.lockPages debug pageSize env l) := by
  induction l generalizing s extra with
  | nil => exact ⟨h, Shrinks.refl s, fun _ hb _ => hb⟩
  | cons p l ih =>
    have hone : ∀ {b : Block}, Spares env (p :: l) b → Spares env [p] b ∧ Spares env l b :=
      fun hspares => ⟨fun q hq => hspares q (by simp [List.mem_singleton.mp hq]),
        fun q hq => hspares q (List.mem_cons_of_mem _ hq)⟩
    obtain ⟨hinv₁, hshrinks₁, hkept₁⟩ := h.lockPage env p
    rw [State.lockPages]
    cases hpage : s.lockPage debug pageSize env p with
    | mk ok s₁ =>
      rw [hpage] at hinv₁ hshrinks₁ hkept₁
      cases ok with
      | false => exact ⟨hinv₁, hshrinks₁, fun b hb hspares => hkept₁ b hb (hone hspares).1⟩
      | true =>
        obtain ⟨hinv₂, hshrinks₂, hkept₂⟩ := ih hinv₁
        dsimp only
        cases hpages : s₁.lockPages debug pageSize env l with
        | mk ok s₂ =>
          rw [hpages] at hinv₂ hshrinks₂ hkept₂
          have hkept : ∀ b ∈ s.blocks, Spares env (p :: l) b → b ∈ s₂.blocks :=
            fun b hb hspares => hkept₂ b (hkept₁ b hb (hone hspares).1) (hone hspares).2
          cases ok with
          | false =>
            have hinv : Inv debug pageSize (bump extra p) s₂ := by
              simp only [count_singleton_eq, if_true, Bool.false_eq_true, if_false,
                Nat.add_zero] at hinv₂
              exact hinv₂
            exact ⟨hinv.unlockPage, (hshrinks₁.trans hshrinks₂).setPage _, hkept⟩
          | true =>
            refine ⟨?_, hshrinks₁.trans hshrinks₂, hkept⟩
            convert hinv₂ using 1
            funext q
            rw [List.count_cons, count_singleton_eq]
            simp only [if_true]
            by_cases hqp : q = p
            · simp [hqp]
              omega
            · simp [hqp, Ne.symm hqp]

/-- `psync_mem_lock` of memory counts on its pages, or nowhere. -/
theorem Inv.memLock (h : Inv debug pageSize (fun _ => 0) s) (env : Nat → Mlock) {ptr size : Nat}
    (hend : ptr + size ≤ 2 ^ 64) :
    let res := s.memLock debug pageSize env ptr size
    Inv debug pageSize (fun q => (res.1 && covers pageSize ptr size q).toNat) res.2 ∧
      Shrinks s res.2 ∧
      ∀ b ∈ s.blocks, (∀ q, covers pageSize ptr size q = true → (env q).ok = false →
        b.ptr ∉ (env q).cleaned) → b ∈ res.2.blocks := by
  cases pageSize with
  | none => exact ⟨h, Shrinks.refl s, fun _ hb _ => hb⟩
  | some ps =>
    obtain ⟨hinv, hshrinks, hkept⟩ := h.lockPages env (pagesOf ps ptr size)
    refine ⟨?_, hshrinks, fun b hb hspares => hkept b hb fun q hq => hspares q ?_⟩
    · show Inv debug (some ps) _ (s.lockPages debug (some ps) env (pagesOf ps ptr size)).2
      convert hinv using 1
      funext q
      rw [covers_eq hend, (pagesOf_nodup ps ptr size).count]
      unfold State.memLock
      cases (s.lockPages debug (some ps) env (pagesOf ps ptr size)).1
      · rfl
      · by_cases hq : q ∈ pagesOf ps ptr size <;> simp [hq]
    · rw [covers_eq hend]
      exact decide_eq_true hq

end PcloudClient.Pmemlock
