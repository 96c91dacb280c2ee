/-
  Pfs/LockBalance.lean --- when a call gives the mutex of the open file back.

  A function is locked at its begin and locked or unlocked at its end.  After a wrong answer
  at one of the places this is no longer so, and what follows unlocks a mutex that is not
  locked or gives back a stopper that was not taken.
-/
import PcloudClient.Pfs.Locks

set_option autoImplicit false

namespace PcloudClient.Pfs.Locks

open PcloudClient.Foundation
open PcloudClient.Foundation.Prog (Triple Returns Met)

/-! ## States of a thread -/

/-- The mutex is locked as `b` says and was not unlocked twice, and the call has `k` stoppers. -/
structure At (b : Bool) (k : Int) (t : Thread) : Prop where
  held : t.held = b
  misuse : t.misuse = false
  stoppers : t.stoppers = k

/-- Nothing went wrong. -/
structure Fine (b : Bool) (k : Int) (t : Thread) (failed : Prop) : Prop extends At b k t where
  clean : ¬failed

/-- The mutex was unlocked twice. -/
structure Broken (t : Thread) (failed : Prop) : Prop where
  misuse : t.misuse = true
  failed : failed

/-- Nothing went wrong, or the mutex was unlocked twice. -/
def Sound (b : Bool) (k : Int) (t : Thread) (failed : Prop) : Prop :=
  Fine b k t failed ∨ Broken t failed

/-- The mutex is unlocked where the caller takes it for locked. -/
structure Lost (t : Thread) (failed : Prop) : Prop where
  held : t.held = false
  misuse : t.misuse = false
  failed : failed

/-- A stopper was given back that was not taken. -/
structure Leaked (t : Thread) (failed : Prop) : Prop where
  held : t.held = true
  stoppers : t.stoppers = -1
  misuse : t.misuse = false
  failed : failed

/-- The mutex was not unlocked twice unless a place was met in a bad state. -/
def Safe (t : Thread) (failed : Prop) : Prop := t.misuse = true → failed

section States

variable {b : Bool} {k : Int} {t t' : Thread} {f f' : Prop}

theorem Fine.safe (h : Fine b k t f) : Safe t f :=
  fun hmisuse => absurd (h.misuse.symm.trans hmisuse) (by decide)

theorem Sound.safe (h : Sound b k t f) : Safe t f := by
  rcases h with h | h
  · exact h.safe
  · exact fun _ => h.failed

/-- Whatever else happened. -/
theorem Sound.at_or_broken (h : Sound b k t f) : At b k t ∨ t.misuse = true := by
  rcases h with h | h
  · exact Or.inl h.toAt
  · exact Or.inr h.misuse

end States

/-- The program is locked as `b` says before, and as `c` says after. -/
def Moves (bad : Place → Thread → Prop) (b c : Bool) (k : Int) {α : Type} (m : Call α) : Prop :=
  Triple bad Safe (Sound b k) m fun _ => Sound c k

variable {bad : Place → Thread → Prop}

/-! ## Steps -/

section Rules

variable {α β : Type} {a b c : Bool} {k : Int} {m : Call α}

theorem Moves.bind {n : α → Call β} (hm : Moves bad a b k m) (hn : ∀ x, Moves bad b c k (n x)) :
    Moves bad a c k (m >>= n) := Triple.bind hm hn

theorem Moves.ite {p : Prop} [Decidable p] {m' : Call α} (h : Moves bad a c k m)
    (h' : Moves bad a c k m') : Moves bad a c k (if p then m else m') :=
  Triple.ite (fun _ => h) fun _ => h'

theorem Moves.ret (x : α) : Moves bad b b k (pure x : Call α) := Triple.pure fun _ _ h => h

theorem Moves.stop : Moves bad b c k (Prog.stop : Call α) := Triple.stop fun _ _ => Sound.safe

theorem Moves.assert {p : Prop} [Decidable p] : Moves bad b b k (Prog.assert p : Call Unit) :=
  Triple.assert fun _ _ => Sound.safe

theorem moves_file : Moves bad b b k file := Triple.act fun _ _ h => h

theorem moves_setFile (g : Openfile → Openfile) : Moves bad b b k (setFile g) := by
  refine Triple.act fun t f ht => ?_
  rcases ht with h | h
  · exact Or.inl ⟨⟨h.held, h.misuse, h.stoppers⟩, h.clean⟩
  · exact Or.inr ⟨h.misuse, h.failed⟩

theorem moves_call (w : World) (h : Helper) : Moves bad b b k (call w h) := by
  refine Triple.act fun t f ht => ?_
  rcases ht with ht | ht
  · exact Or.inl ⟨⟨ht.held, ht.misuse, ht.stoppers⟩, ht.clean⟩
  · exact Or.inr ⟨ht.misuse, ht.failed⟩

theorem moves_unlock : Moves bad true false k unlock := by
  refine Triple.act fun t f ht => ?_
  rcases ht with h | h
  · refine Or.inl ?_
    rw [if_pos h.held]
    exact ⟨⟨rfl, h.misuse, h.stoppers⟩, h.clean⟩
  · refine Or.inr ?_
    split
    · exact ⟨h.misuse, h.failed⟩
    · exact ⟨rfl, h.failed⟩

theorem moves_lockFile (w : World) : Moves bad false true k (lockFile w) := by
  refine Triple.act fun t f ht => ?_
  rcases ht with h | h
  · rw [if_neg (by rw [h.held]; decide)]
    exact Or.inl ⟨⟨rfl, h.misuse, h.stoppers⟩, h.clean⟩
  · split
    · next heq =>
      split at heq
      · obtain ⟨-, rfl⟩ := Prod.mk.inj heq
        exact fun _ => h.failed
      · exact nomatch (Prod.mk.inj heq).1
    · next heq =>
      split at heq
      · exact nomatch (Prod.mk.inj heq).1
      · obtain ⟨-, rfl⟩ := Prod.mk.inj heq
        exact Or.inr ⟨h.misuse, h.failed⟩

/-- A place and what comes after it: where the place is met in a bad state, the program still
does to the mutex what it does. -/
theorem triple_place {p : Place} {q : α → Prop} (hm : Moves bad b c k m)
    (hbad : ∀ t x, m.value t = some x → (bad p t ↔ q x)) :
    Triple bad Safe (Sound b k) (place p >>= fun _ => m) fun x t f =>
      (q x → f ∧ (At c k t ∨ t.misuse = true)) ∧ (¬q x → Sound c k t f) := by
  refine Triple.mark fun t f ht => ?_
  have hrun := hm t f ht
  have hvalue := hbad t
  unfold Prog.value at hvalue
  rcases heq : m t with ⟨_ | x, t', l⟩
  · rw [heq] at hrun
    intro hmisuse
    rcases hrun hmisuse with h | h
    · exact Or.inl (Or.inl h)
    · exact Or.inr h
  · rw [heq] at hrun hvalue
    have hiff := hvalue x rfl
    refine ⟨fun hwrong => ⟨Or.inl (Or.inr (hiff.mpr hwrong)), hrun.at_or_broken⟩, fun hright => ?_⟩
    have hsame : ((f ∨ bad p t) ∨ Met bad l) = (f ∨ Met bad l) := by
      rw [eq_false (fun h => hright (hiff.mp h)), or_false]
    rw [hsame]
    exact hrun

theorem moves_unlockRet (ret : Int) : Moves bad true false k (unlockRet ret) :=
  moves_unlock.bind fun _ => .ret ret

theorem moves_condWait (w : World) : Moves bad true true k (condWait w) :=
  moves_unlock.bind fun _ => moves_lockFile w

end Rules

section Functions

variable (w : World) (fuel : Nat) {k : Int}

/-! ## Functions that return locked -/

theorem moves_waitExtenderAfterLocked (offset n : Nat) :
    Moves bad true true k (waitExtenderAfterLocked w offset n) := by
  induction n with
  | zero => exact .stop
  | succ n ih =>
    refine moves_file.bind fun of => ?_
    split
    · exact .ret 0
    · split
      · exact (moves_condWait w).bind fun _ => ih
      · exact .ret _

theorem moves_waitEnd (ret : Int) (n : Nat) : Moves bad true true k (waitEnd w ret n) := by
  induction n with
  | zero => exact .stop
  | succ n ih =>
    refine moves_unlock.bind fun _ => (moves_lockFile w).bind fun _ => moves_file.bind fun of => ?_
    split
    · exact ih
    · exact .ret ret

theorem moves_waitNoExtenderLocked (n : Nat) :
    Moves bad true true k (waitNoExtenderLocked w fuel n) := by
  induction n with
  | zero => exact .stop
  | succ n ih =>
    refine moves_file.bind fun of => ?_
    split
    · exact .ret 0
    · split
      · exact (moves_condWait w).bind fun _ => ih
      · exact moves_waitEnd w _ fuel

theorem moves_growTo (offset : Nat) : Moves bad true true k (growTo offset) := moves_setFile _

theorem moves_writeLast (size offset : Nat) : Moves bad true true k (writeLast w size offset) := by
  unfold writeLast
  split
  · exact .ret 0
  · refine moves_file.bind fun of => Moves.bind (b := true) ?_ fun ret => ?_
    · split
      · exact moves_call w _
      · exact moves_call w _
    · split
      · exact .ret ret
      · exact (moves_growTo _).bind fun _ => .ret 0

theorem moves_writeSectors (wrt size offset n : Nat) :
    Moves bad true true k (writeSectors w wrt size offset n) := by
  induction n generalizing wrt offset with
  | zero =>
    refine (moves_writeLast w size offset).bind fun ret => ?_
    split
    · exact .ret ret
    · refine moves_file.bind fun of => ?_
      split
      · exact (moves_call w _).bind fun _ => .ret _
      · exact .ret _
  | succ n ih =>
    refine (moves_call w _).bind fun ret => ?_
    split
    · exact .ret ret
    · exact (moves_growTo _).bind fun _ => ih _ _

theorem moves_writeBuffer (size offset : Nat) :
    Moves bad true true k (writeBuffer w size offset) := by
  unfold writeBuffer
  dsimp only
  split
  · refine (moves_call w _).bind fun ret => ?_
    split
    · exact .ret ret
    · exact (moves_growTo _).bind fun _ => moves_writeSectors w _ _ _ _
  · exact moves_writeSectors w _ _ _ _

theorem moves_writeNewfileLockedNu (size offset : Nat) (checkextender : Bool) :
    Moves bad true true k (writeNewfileLockedNu w fuel size offset checkextender) := by
  unfold writeNewfileLockedNu
  split
  · exact .ret _
  · split
    · exact .ret 0
    · refine Moves.bind (b := true) ?_ fun ret => ?_
      · split
        · exact moves_waitExtenderAfterLocked w _ fuel
        · exact .ret 0
      · split
        · exact .ret ret
        · refine moves_file.bind fun of => ?_
          split
          · refine (moves_call w _).bind fun ret => ?_
            split
            · exact .ret ret
            · exact moves_file.bind fun of => Moves.assert.bind fun _ => moves_writeBuffer w _ _
          · exact moves_writeBuffer w _ _

theorem moves_lockUnlock : Moves bad false false k (incOfRefcntAndReaders w) :=
  (moves_lockFile w).bind fun _ => moves_unlock

theorem moves_startRead (needed : Prop) [Decidable needed] :
    Moves bad false false k (startRead w needed) := by
  unfold startRead
  split
  · exact moves_lockUnlock w
  · exact .ret ()

theorem moves_waitLoaded (n : Nat) : Moves bad true true k (waitLoaded w n) := by
  induction n with
  | zero => exact .stop
  | succ n ih =>
    refine moves_file.bind fun of => ?_
    split
    · exact (moves_condWait w).bind fun _ => ih
    · exact .ret ()

theorem moves_waitKey (needkey : Bool) (err : Int) :
    Moves bad false false k (waitKey w fuel needkey err) := by
  unfold waitKey
  split
  · exact (moves_lockFile w).bind fun _ => (moves_waitLoaded w fuel).bind fun _ =>
      moves_file.bind fun of => moves_unlock.bind fun _ => .ret _
  · exact .ret 0

theorem moves_readvLocked : Moves bad true false k (readvLocked w fuel) :=
  moves_file.bind fun _ => (moves_setFile _).bind fun _ => moves_unlock.bind fun _ =>
    (moves_call w _).bind fun _ => (moves_startRead w _).bind fun _ =>
      (moves_waitKey w fuel _ _).bind
      fun _ => (moves_call w _).bind fun _ => .ret _

theorem moves_writeRanges (ranges : List (Span Nat)) :
    Moves bad true true k (writeRanges w ranges) := by
  induction ranges with
  | nil => exact .ret _
  | cons range rest ih =>
    refine moves_file.bind fun of => ?_
    split
    · exact .ret none
    · refine (moves_call w _).bind fun bw => ?_
      split
      · exact .ret _
      · exact (moves_setFile _).bind fun _ => ih

/-- A loop of writes that return locked. -/
theorem moves_modfileFillzero {write : Nat → Nat → Call Int}
    (hwrite : ∀ wr off, Moves bad true true k (write wr off)) (size offset n : Nat) :
    Moves bad true true k (modfileFillzero write size offset n) := by
  induction n generalizing size offset with
  | zero => exact .stop
  | succ n ih =>
    unfold modfileFillzero
    split
    · exact .ret 0
    · refine (hwrite _ _).bind fun ret => ?_
      split
      · exact .ret ret
      · exact ih _ _

theorem moves_writeModifiedRetry (size offset : Nat) (checkextender : Bool) (n : Nat) :
    Moves bad true true k (writeModifiedRetry w fuel size offset checkextender n) := by
  induction n generalizing size offset checkextender with
  | zero => exact .stop
  | succ n ih =>
    refine moves_file.bind fun of => Moves.bind (b := true) ?_ fun ret => ?_
    · split
      · refine moves_modfileFillzero (fun wr off => ?_) _ _ _
        split
        · exact .ret _
        · split
          · exact .ret 0
          · exact ih wr off false
      · exact .ret 0
    · split
      · exact .ret ret
      · refine moves_file.bind fun of => ?_
        split
        · exact .stop
        · exact moves_writeNewfileLockedNu w fuel size offset checkextender
        · refine (moves_readvLocked w fuel).bind fun ret => (moves_lockFile w).bind fun _ => ?_
          split
          · exact .ret ret
          · refine (moves_writeRanges w _).bind fun done => ?_
            split
            · exact ih size offset checkextender
            · split
              · exact .ret _
              · exact moves_writeNewfileLockedNu w fuel size offset checkextender

theorem moves_writeModifiedLockedNu (size offset : Nat) (checkextender : Bool) :
    Moves bad true true k (writeModifiedLockedNu w fuel size offset checkextender) := by
  unfold writeModifiedLockedNu
  split
  · exact .ret _
  · refine Moves.bind (b := true) ?_ fun ret => ?_
    · split
      · exact moves_waitExtenderAfterLocked w _ fuel
      · exact .ret 0
    · split
      · exact .ret ret
      · split
        · exact .ret 0
        · exact moves_writeModifiedRetry w fuel size offset checkextender fuel

/-! ## Functions that return unlocked -/

theorem moves_cryptoWriteNewfileLocked (size offset : Nat) :
    Moves bad true false k (cryptoWriteNewfileLocked w fuel size offset) :=
  (moves_writeNewfileLockedNu w fuel size offset true).bind fun ret => moves_unlockRet ret

theorem moves_cryptoWriteModifiedLocked (size offset : Nat) :
    Moves bad true false k (cryptoWriteModifiedLocked w fuel size offset) :=
  (moves_writeModifiedLockedNu w fuel size offset true).bind fun ret => moves_unlockRet ret

theorem moves_readSectors (rd size n : Nat) : Moves bad true false k (readSectors w rd size n) := by
  induction n generalizing rd with
  | zero =>
    unfold readSectors
    split
    · refine (moves_call w _).bind fun ret => ?_
      split
      · exact moves_unlockRet _
      · exact moves_unlockRet _
    · exact moves_unlockRet _
  | succ n ih =>
    refine (moves_call w _).bind fun ret => ?_
    split
    · exact moves_unlockRet _
    · exact ih _

theorem moves_readNewfileLocked (size offset : Nat) :
    Moves bad true false k (readNewfileLocked w fuel size offset) := by
  unfold readNewfileLocked
  split
  · exact moves_unlockRet _
  · refine (moves_waitExtenderAfterLocked w _ fuel).bind fun ret => ?_
    split
    · exact moves_unlockRet _
    · refine moves_file.bind fun of => ?_
      split
      · exact moves_unlockRet _
      · refine Moves.ite ?_ (moves_readSectors w _ _ _)
        exact (moves_call w _).bind fun ret => (moves_unlockRet _).ite (moves_readSectors w _ _ _)

theorem moves_decodePage (ret : Int) : Moves bad false false k (decodePage w ret) := by
  refine (moves_call w _).bind fun auth => ?_
  split
  · exact (moves_lockFile w).bind fun _ => moves_unlock.bind fun _ => (moves_call w _).bind fun _ =>
      .ret _
  · exact (moves_call w _).bind fun _ => .ret _

theorem moves_decodePages (ret : Int) (n : Nat) :
    Moves bad false false k (decodePages w ret n) := by
  induction n generalizing ret with
  | zero => exact .ret ret
  | succ n ih => exact (moves_decodePage w ret).bind fun ret => ih ret

theorem moves_readUnmodifiedEncryptedLocked (size offset : Nat) :
    Moves bad true false k (readUnmodifiedEncryptedLocked w fuel size offset) := by
  refine moves_file.bind fun of => (moves_setFile _).bind fun _ => moves_unlock.bind fun _ => ?_
  split
  · exact .ret 0
  · refine (moves_call w _).bind fun ranges => ?_
    split
    · exact .ret _
    · exact (moves_startRead w _).bind fun _ => (moves_waitKey w fuel _ _).bind fun ret =>
        (moves_decodePages w ret _).bind fun _ => .ret _

theorem moves_readUnmodifiedLocked (offset : Nat) :
    Moves bad true false k (readUnmodifiedLocked w offset) := by
  refine moves_file.bind fun of => moves_unlock.bind fun _ => ?_
  split
  · exact .ret 0
  · exact (moves_call w _).bind fun _ => (moves_startRead w _).bind fun _ => moves_call w _

/-! ## The merge of local and remote sectors -/

/-- Locked, or unlocked by a sector that was not read in full. -/
def Merging (k : Int) (t : Thread) (failed : Prop) : Prop := Sound true k t failed ∨ Lost t failed

theorem merging_file : Triple bad Safe (Merging k) file fun _ => Merging k :=
  Triple.act fun _ _ h => h

/-- The read of a sector. -/
theorem merging_sector (read : Helper) (rd : Nat) :
    Triple (Fails w fuel) Safe (Merging k) (place (.sector read rd) >>= fun _ => call w read)
      fun ret t f => (ret ≠ rd → f) ∧ (¬ret ≠ rd → Merging k t f) := by
  refine Triple.mark fun t f ht => ?_
  change (_ → (f ∨ _) ∨ Met (Fails w fuel) []) ∧ (_ → Merging k _ ((f ∨ _) ∨ Met (Fails w fuel) []))
  rw [Triple.or_met_nil]
  refine ⟨fun hwrong => Or.inr hwrong, fun hright => ?_⟩
  have hsame : (f ∨ Fails w fuel (.sector read rd) t) = f := by
    rw [eq_false (show ¬Fails w fuel (.sector read rd) t from hright), or_false]
  rw [hsame]
  rcases ht with (ht | ht) | ht
  · exact Or.inl (Or.inl ⟨⟨ht.held, ht.misuse, ht.stoppers⟩, ht.clean⟩)
  · exact Or.inl (Or.inr ⟨ht.misuse, ht.failed⟩)
  · exact Or.inr ⟨ht.held, ht.misuse, ht.failed⟩

theorem merging_unlock : Triple bad Safe (fun _ f => f) unlock fun _ => Merging k := by
  refine Triple.act fun t f ht => ?_
  change Merging k (if t.held then { t with held := false } else { t with misuse := true }) f
  split
  · cases hmisuse : t.misuse with
    | false => exact Or.inr ⟨rfl, rfl, ht⟩
    | true => exact Or.inl (Or.inr ⟨rfl, ht⟩)
  · exact Or.inl (Or.inr ⟨rfl, ht⟩)

theorem merging_unlockRet (ret : Int) :
    Triple bad Safe (Merging k) (unlockRet ret) fun _ => Sound false k := by
  have hunlock : Triple bad Safe (Merging k) unlock fun _ => Sound false k := by
    refine Triple.act fun t f ht => ?_
    rcases ht with (ht | ht) | ht
    · refine Or.inl ?_
      rw [if_pos ht.held]
      exact ⟨⟨rfl, ht.misuse, ht.stoppers⟩, ht.clean⟩
    · refine Or.inr ?_
      split
      · exact ⟨ht.misuse, ht.failed⟩
      · exact ⟨rfl, ht.failed⟩
    · refine Or.inr ?_
      rw [if_neg (by rw [ht.held]; decide)]
      exact ⟨rfl, ht.failed⟩
  exact Triple.bind hunlock fun _ => Moves.ret ret

theorem merging_mergeSectors (size offset first last : Nat) (l : List Nat) :
    Triple (Fails w fuel) Safe (Merging k) (mergeSectors w size offset first last l)
      fun _ => Merging k := by
  induction l with
  | nil => exact Triple.pure fun _ _ h => h
  | cons sectorid rest ih =>
    refine merging_file.bind fun of => Triple.ite (fun _ => ih) fun _ => ?_
    refine Triple.bindPlace (merging_sector w fuel _ _) fun ret =>
      Triple.ite (fun hne => ?_) fun heq => ?_
    · exact Triple.bind (merging_unlock.conseq (fun _ _ h => h.1 hne) fun _ _ _ h => h) fun _ => ih
    · exact ih.conseq (fun _ _ h => h.2 heq) fun _ _ _ h => h

theorem moves_readMerged (size offset : Nat) :
    Moves (Fails w fuel) true false k (readMerged w fuel size offset) := by
  refine (moves_readUnmodifiedEncryptedLocked w fuel size offset).bind fun rfr => ?_
  split
  · exact .ret rfr
  · refine (moves_lockFile w).bind fun _ => moves_file.bind fun of => ?_
    split
    · exact moves_unlockRet 0
    · refine Triple.bind ((merging_mergeSectors w fuel _ _ _ _ _).conseq (fun _ _ h => Or.inl h)
        fun _ _ _ h => h) fun _ => merging_unlockRet _

theorem moves_cryptoReadModifiedLocked (size offset : Nat) :
    Moves (Fails w fuel) true false k (cryptoReadModifiedLocked w fuel size offset) := by
  refine moves_file.bind fun of => ?_
  split
  · exact moves_unlockRet _
  · split
    · exact moves_unlockRet _
    · exact (moves_readNewfileLocked w fuel _ _).ite
        ((moves_readUnmodifiedEncryptedLocked w fuel _ _).ite (moves_readMerged w fuel _ _))

/-! ## Functions that fail unlocked -/

/-- Locked, or an error after a wrong answer. -/
def Exits (ret : Int) (t : Thread) (failed : Prop) : Prop :=
  Sound true 0 t failed ∨ ret < 0 ∧ (Lost t failed ∨ Leaked t failed)

/-- The program returns locked, but for wrong answers. -/
def Leaves (bad : Place → Thread → Prop) (m : Call Int) : Prop :=
  Triple bad Safe (Sound true 0) m Exits

section Rules

variable {m m' : Call Int} {n : Int → Call Int}

theorem Moves.leaves (h : Moves bad true true 0 m) : Leaves bad m :=
  h.conseq (fun _ _ ht => ht) fun _ _ _ ht => Or.inl ht

theorem Moves.bindLeaves {α : Type} {m : Call α} {n : α → Call Int} (hm : Moves bad true true 0 m)
    (hn : ∀ x, Leaves bad (n x)) : Leaves bad (m >>= n) := Triple.bind hm hn

theorem Leaves.ite {p : Prop} [Decidable p] (h : Leaves bad m) (h' : Leaves bad m') :
    Leaves bad (if p then m else m') := Triple.ite (fun _ => h) fun _ => h'

/-- What comes after a program that may have failed: a program where it has not, and one that
begins as the failure leaves it. -/
theorem Leaves.bind {post : Int → Thread → Prop → Prop} (hm : Leaves bad m)
    (hok : ∀ ret, Triple bad Safe (Sound true 0) (n ret) post)
    (herr : ∀ ret, ret < 0 → Triple bad Safe (fun t f => Lost t f ∨ Leaked t f) (n ret) post) :
    Triple bad Safe (Sound true 0) (m >>= n) post := by
  refine Triple.bind hm fun ret t f ht => ?_
  rcases ht with ht | ⟨hneg, ht⟩
  · exact hok ret t f ht
  · exact herr ret hneg t f ht

/-- An error is returned as it is. -/
theorem Leaves.bindRet (hm : Leaves bad m) (hok : ∀ ret, Leaves bad (n ret))
    (herr : ∀ ret, ret < 0 → n ret = pure ret) : Leaves bad (m >>= n) := by
  refine hm.bind hok fun ret hneg => ?_
  rw [herr ret hneg]
  exact Triple.pure fun t f ht => Or.inr ⟨hneg, ht⟩

end Rules

theorem value_wrong {m : Call Int} {t : Thread} {x : Int} {q : Int → Prop}
    (hx : m.value t = some x) : (∃ ret, m.value t = some ret ∧ q ret) ↔ q x := by
  rw [hx]
  constructor
  · rintro ⟨ret, hret, hwrong⟩
    exact Option.some.inj hret ▸ hwrong
  · exact fun hwrong => ⟨x, rfl, hwrong⟩

/-- A step at a place that returns unlocked: its error is returned. -/
theorem leaves_place {p : Place} {b : Bool} {m : Call Int} {n : Int → Call Int}
    (hm : Moves bad b false 0 m)
    (hbad : ∀ t x, m.value t = some x → (bad p t ↔ x < 0)) {err : Int → Int}
    (herr : ∀ ret, ret < 0 → err ret < 0)
    (hn : ∀ ret, Triple bad Safe (Sound false 0) (n ret) Exits) :
    Triple bad Safe (Sound b 0)
      (place p >>= fun _ => m >>= fun ret => if ret < 0 then pure (err ret) else n ret) Exits := by
  refine Triple.bindPlace (triple_place hm hbad) fun ret =>
    Triple.ite (fun hneg => ?_) fun hpos => ?_
  · refine Triple.pure fun t f ht => ?_
    obtain ⟨hfailed, hat | hmisuse⟩ := ht.1 hneg
    · exact Or.inr ⟨herr ret hneg, Or.inl ⟨hat.held, hat.misuse, hfailed⟩⟩
    · exact Or.inl (Or.inr ⟨hmisuse, hfailed⟩)
  · exact (hn ret).conseq (fun _ _ ht => ht.2 hpos) fun _ _ _ ht => ht

theorem moves_rewriteLast (size lastsectoff : Nat) :
    Moves bad true true k (rewriteLast w size lastsectoff) := by
  refine (moves_setFile _).bind fun _ => (moves_call w _).bind fun ret => ?_
  exact (Moves.ret ret).ite ((moves_setFile _).bind fun _ => .ret 0)

theorem leaves_ftruncateDownRetry (size lastsectoff old n : Nat) :
    Leaves (Fails w fuel) (ftruncateDownRetry w fuel size lastsectoff old n) := by
  induction n with
  | zero => exact Moves.stop.leaves
  | succ n ih =>
    refine moves_file.bindLeaves fun of => Leaves.ite (Moves.leaves ?_) ?_
    · refine (moves_call w _).bind fun ret => (Moves.ret ret).ite ?_
      exact Moves.assert.bind fun _ => moves_rewriteLast w size lastsectoff
    · refine leaves_place (p := .truncateRead old lastsectoff)
        (moves_cryptoReadModifiedLocked w fuel old lastsectoff) (fun _ _ hx => value_wrong hx)
          (fun _ hneg => hneg) fun ret => ?_
      refine Triple.bind (moves_lockFile w) fun _ => moves_file.bindLeaves fun of' => ih.ite ?_
      refine leaves_place (p := .truncateWrite old lastsectoff)
        (moves_cryptoWriteModifiedLocked w fuel old lastsectoff) (fun _ _ hx => value_wrong hx)
          (fun _ hneg => hneg) fun ret => ?_
      refine Triple.bind (moves_lockFile w) fun _ => moves_file.bindLeaves fun of' => ih.ite ?_
      exact (moves_rewriteLast w size lastsectoff).leaves

theorem leaves_shrink (size : Nat) : Leaves (Fails w fuel) (shrink w fuel size) :=
  moves_file.bindLeaves fun _ => leaves_ftruncateDownRetry w fuel _ _ _ fuel

theorem moves_killExtenderLocked : Moves bad true true k killExtenderLocked := moves_setFile _

theorem leaves_ftruncateDown (size : Nat) : Leaves (Fails w fuel) (ftruncateDown w fuel size) := by
  refine moves_file.bindLeaves fun of => Moves.assert.bindLeaves fun _ => ?_
  split
  · exact leaves_shrink w fuel size
  · refine (Moves.ret _).leaves.ite ((leaves_shrink w fuel size).ite (Leaves.ite ?_ ?_))
    · exact moves_killExtenderLocked.bindLeaves fun _ => leaves_shrink w fuel size
    · exact ((moves_setFile _).bind fun _ => .ret 0).leaves

theorem moves_initLog : Moves bad true true k (initLog w) :=
  (moves_call w _).bind fun _ => (Moves.ret _).ite ((moves_setFile _).bind fun _ => .ret 0)

theorem moves_ftruncateToZero : Moves bad true true k (ftruncateToZero w) := by
  refine (moves_call w _).bind fun err => (Moves.ret _).ite ?_
  refine (moves_initLog w).bind fun ret => (Moves.ret ret).ite ?_
  exact (moves_setFile _).bind fun _ => moves_killExtenderLocked.bind fun _ => .ret 0

theorem moves_runExtender (size : Nat) : Moves bad true true k (runExtender size) :=
  moves_file.bind fun _ => Moves.assert.bind fun _ => Moves.assert.bind fun _ =>
    (moves_setFile _).bind fun _ => .ret 0

theorem moves_fillzero (size offset : Nat) : Moves bad true true k (fillzero w fuel size offset) :=
  moves_modfileFillzero
    (fun wr off => moves_writeModifiedLockedNu w fuel wr off false) size offset fuel

theorem leaves_cryptoFtruncateRetry (size n : Nat) :
    Leaves (Fails w fuel) (cryptoFtruncateRetry w fuel size n) := by
  induction n with
  | zero => exact Moves.stop.leaves
  | succ n ih =>
    refine moves_file.bindLeaves fun of => Leaves.ite ?_ (Leaves.ite ?_ (Moves.ret 0).leaves)
    · split
      · refine Leaves.ite ?_ (Moves.leaves ?_)
        · exact (moves_waitNoExtenderLocked w fuel fuel).bindLeaves fun ret =>
            (Moves.ret ret).leaves.ite ih
        · exact Moves.assert.bind fun _ => (moves_setFile _).bind fun _ => .ret 0
      · refine Moves.leaves (Moves.ite ?_ ((moves_call w _).ite (moves_fillzero w fuel _ _)))
        refine Moves.bind (b := true) ((Moves.ret 0).ite (moves_fillzero w fuel _ _)) fun ret => ?_
        exact (Moves.ret ret).ite (moves_runExtender size)
    · exact (moves_ftruncateToZero w).leaves.ite (leaves_ftruncateDown w fuel size)

theorem leaves_cryptoFtruncate (size : Nat) : Leaves (Fails w fuel) (cryptoFtruncate w fuel size) :=
  moves_file.bindLeaves fun _ => Moves.assert.bindLeaves fun _ =>
    leaves_cryptoFtruncateRetry w fuel size fuel

/-! ## Reopening -/

theorem cryptoErrToErrno_pos (e : Int) : 0 < cryptoErrToErrno e := by
  unfold cryptoErrToErrno
  split <;> decide

theorem moves_openIndex : Moves bad true true k (openIndex w) := by
  refine moves_file.bind fun of => Moves.ite ?_ (.ret 0)
  refine (moves_call w _).bind fun opened => (Moves.ret _).ite ?_
  exact (moves_setFile _).bind fun _ => (moves_call w _).bind fun err => .ret _

theorem moves_openLog : Moves bad true true k (openLog w) := by
  refine moves_file.bind fun of => Moves.ite ?_ (.ret 0)
  refine (moves_call w _).bind fun opened => (Moves.ret _).ite ?_
  exact (moves_setFile _).bind fun _ => moves_initLog w

/-- `open_write_files` where the data file is not open. -/
theorem triple_openWriteFiles {post : Int → Thread → Prop → Prop} {truncate : Call Int}
    (htruncate : Triple bad Safe (Sound true k) truncate post)
    (hpost : ∀ ret t f, Sound true k t f → post ret t f) :
    Triple bad Safe (Sound true k) (openWriteFiles w truncate) post := by
  refine Triple.bind moves_file fun of => Triple.ite (fun _ => htruncate) fun _ => ?_
  have hopen : Moves bad true true k (do
      let opened ← call w .openFile
      if opened < 0 then pure (-FsCrypto.eio)
      else do
        setFile fun of => { of with datafile := true }
        let size ← call w .fileSize
        if size = -1 then pure (-FsCrypto.eio)
        else do
          setFile fun of => { of with
            currentsize := if of.encrypted then FsCrypto.plainSize size.toNat else size.toNat }
          let ret ← openIndex w
          if ret ≠ 0 then pure ret else openLog w) := by
    refine (moves_call w _).bind fun opened => (Moves.ret _).ite ?_
    refine (moves_setFile _).bind fun _ => (moves_call w _).bind fun size => (Moves.ret _).ite ?_
    refine (moves_setFile _).bind fun _ => (moves_openIndex w).bind fun ret => ?_
    exact (Moves.ret ret).ite (moves_openLog w)
  exact hopen.conseq (fun _ _ ht => ht) fun ret t f ht => hpost ret t f ht

theorem returns_initLog : Returns (initLog w) fun ret => ret ≤ 0 :=
  .after fun _ => .ite (.pure (by decide)) (.after fun _ => .pure le_rfl)

/-- The errors of `open_write_files` are negative. -/
theorem returns_openWriteFiles : Returns (openWriteFiles w (pure 0)) fun ret => ret ≤ 0 := by
  have hindex : Returns (openIndex w) fun ret => ret ≤ 0 := by
    refine .after fun of => .ite (.after fun opened => .ite (.pure (by decide)) ?_) (.pure le_rfl)
    refine .after fun _ => .after fun err => .pure ?_
    split <;> decide
  have hlog : Returns (openLog w) fun ret => ret ≤ 0 := by
    refine .after fun of => .ite (.after fun opened => .ite (.pure (by decide)) ?_) (.pure le_rfl)
    exact .after fun _ => returns_initLog w
  refine .after fun of => .ite (.pure le_rfl) (.after fun opened => .ite (.pure (by decide)) ?_)
  refine .after fun _ => .after fun size => .ite (.pure (by decide)) (.after fun _ => ?_)
  exact .bind hindex fun ret hret => .ite (.pure hret) hlog

theorem moves_openWriteFiles : Moves bad true true k (openWriteFiles w (pure 0)) :=
  triple_openWriteFiles w (Moves.ret 0) fun _ _ _ ht => ht

theorem triple_unlockPagesFromCache {b : Bool} :
    Triple bad Safe (Sound b k) unlockPagesFromCache fun _ => Sound b (k - 1) := by
  refine Triple.act fun t f ht => ?_
  rcases ht with ht | ht
  · exact Or.inl ⟨⟨ht.held, ht.misuse, congrArg (· - 1) ht.stoppers⟩, ht.clean⟩
  · exact Or.inr ⟨ht.misuse, ht.failed⟩

/-- The state after a wrong answer for a file that is made a new file; an empty file has no
stopper to give back. -/
def Failing (size : Nat) (t : Thread) (failed : Prop) : Prop :=
  (size = 0 → failed ∧ (At true 0 t ∨ t.misuse = true)) ∧ (size ≠ 0 → Sound true 1 t failed)

/-- An error of the conversion to a new file. -/
theorem triple_releaseFailed (size : Nat) {ret : Int} (hneg : ret < 0) :
    Triple bad Safe (Failing size)
      (do
        unlockPagesFromCache
        pure ret) Exits := by
  rcases eq_or_ne size 0 with rfl | hne
  · have hleak : Triple bad Safe (Failing 0) unlockPagesFromCache fun _ => Exits ret := by
      refine Triple.act fun t f ht => ?_
      obtain ⟨hfailed, hat | hmisuse⟩ := ht.1 rfl
      · exact Or.inr ⟨hneg, Or.inr ⟨hat.held, congrArg (· - 1) hat.stoppers, hat.misuse, hfailed⟩⟩
      · exact Or.inl (Or.inr ⟨hmisuse, hfailed⟩)
    exact Triple.bind hleak fun _ => Triple.pure fun _ _ h => h
  · refine Triple.bind
      (triple_unlockPagesFromCache.conseq (fun _ _ ht => ht.2 hne) fun _ _ _ h => h)
      fun _ => ?_
    exact (Moves.ret ret).leaves

/-- The pages of a file that is not empty are copied, and the stopper is given back. -/
theorem triple_copyPages (size : Nat) :
    Triple bad Safe (Sound true (if size = 0 then 0 else 1))
      (if size ≠ 0 then do
          let err ← call w .copyAllPages
          unlockPagesFromCache
          pure err
        else pure 0) fun _ => Sound true 0 := by
  refine Triple.ite (fun hne => ?_) fun hzero => ?_
  · rw [if_neg hne]
    exact Triple.bind (moves_call w _) fun err => Triple.bind triple_unlockPagesFromCache
      fun _ => Moves.ret err
  · rw [if_pos (not_not.mp hzero)]
    exact Moves.ret 0

theorem leaves_convertToNewfile (size : Nat) :
    Triple (Fails w fuel) Safe (Sound true (if size = 0 then 0 else 1)) (convertToNewfile w size)
      Exits := by
  have hfailing : ∀ {wrong : Prop} {t : Thread} {f : Prop}, wrong →
      (size = 0 ∧ wrong → f ∧ (At true (if size = 0 then 0 else 1) t ∨ t.misuse = true)) ∧
        (¬(size = 0 ∧ wrong) → Sound true (if size = 0 then 0 else 1) t f) → Failing size t f := by
    intro wrong t f hwrong h
    refine ⟨fun hzero => ?_, fun hne => ?_⟩
    · have h1 := h.1 ⟨hzero, hwrong⟩
      rwa [if_pos hzero] at h1
    · have h2 := h.2 fun hzero => hne hzero.1
      rwa [if_neg hne] at h2
  refine Triple.bindPlace (triple_place (q := fun created => size = 0 ∧ created < 0)
    (moves_call w .addCreat) fun t x hx => ?_) fun created =>
      Triple.ite (fun hneg => ?_) fun hpos => ?_
  · obtain rfl := Option.some.inj hx
    exact Iff.rfl
  · exact (triple_releaseFailed size (by decide)).conseq
      (fun t f ht => hfailing hneg ht) fun _ _ _ h => h
  · refine Triple.bind ((moves_setFile _).conseq (fun _ _ ht => ht.2 fun hzero => hpos hzero.2)
      fun _ _ _ h => h) fun _ => ?_
    have hopen : Triple (Fails w fuel) Safe (Sound true (if size = 0 then 0 else 1))
        (place (.writeFiles size) >>= fun _ => openWriteFiles w (pure 0)) fun ret t f =>
          ((size = 0 ∧ ret ≠ 0 → f ∧ (At true (if size = 0 then 0 else 1) t ∨ t.misuse = true)) ∧
            (¬(size = 0 ∧ ret ≠ 0) → Sound true (if size = 0 then 0 else 1) t f)) ∧ ret ≤ 0 := by
      refine (triple_place (q := fun ret => size = 0 ∧ ret ≠ 0) (moves_openWriteFiles w)
        fun t x hx => and_congr_right fun _ => value_wrong hx).returns ?_
      exact .after fun _ => returns_openWriteFiles w
    refine Triple.bindPlace hopen fun ret => Triple.ite (fun hne => ?_) fun hzero => ?_
    · intro t f ht
      exact triple_releaseFailed size (lt_of_le_of_ne ht.2 hne) t f (hfailing hne ht.1)
    · have hend : ∀ ret : Int, Leaves (Fails w fuel) (if ret ≠ 0 then pure (-FsCrypto.eio)
          else do
            setFile fun of => { of with currentsize := of.initialsize }
            pure 1) :=
        fun ret => ((Moves.ret _).ite ((moves_setFile _).bind fun _ => .ret 1)).leaves
      have hcopy := Triple.bind (triple_copyPages w size) hend
      exact hcopy.conseq (fun _ _ ht => ht.1.2 fun h => hzero h.2) fun _ _ _ h => h

theorem moves_convertToModified : Moves bad true true k (convertToModified w) := by
  refine (moves_call w _).bind fun added => (Moves.ret _).ite ?_
  refine (moves_openWriteFiles w).bind fun ret => (Moves.ret ret).ite ?_
  exact (moves_call w _).bind fun err => (Moves.ret _).ite ((moves_setFile _).bind fun _ => .ret 0)

theorem triple_takeStopper {b : Bool} :
    Triple bad Safe (Sound b k) takeStopper fun _ => Sound b (k + 1) := by
  refine Triple.act fun t f ht => ?_
  rcases ht with ht | ht
  · exact Or.inl ⟨⟨ht.held, ht.misuse, congrArg (· + 1) ht.stoppers⟩, ht.clean⟩
  · exact Or.inr ⟨ht.misuse, ht.failed⟩

theorem triple_lockPagesInCache :
    Triple bad Safe (Sound true 0) (lockPagesInCache w) fun ret t f =>
      Sound true (if ret ≠ 0 then 0 else 1) t f := by
  refine Triple.bind (moves_call w _) fun busy => Triple.ite (fun _ => ?_) fun _ => ?_
  · exact Moves.ret (-1)
  · exact Triple.bind triple_takeStopper fun _ => Moves.ret 0

theorem leaves_reopenAs (size : Nat) : Leaves (Fails w fuel) (reopenAs w size) := by
  have hnew := leaves_convertToNewfile w fuel size
  have hmodified : Leaves (Fails w fuel) (convertToModified w) := (moves_convertToModified w).leaves
  refine Triple.ite (fun hzero => ?_) fun hne => hmodified.ite ?_
  · rw [if_pos hzero] at hnew
    exact hnew
  · rw [if_neg hne] at hnew
    refine (moves_call w _).bindLeaves fun all => hmodified.ite ?_
    refine Triple.bind (triple_lockPagesInCache w) fun locked => ?_
    refine Triple.ite (fun hbusy => ?_) fun hlocked => ?_
    · rw [if_pos hbusy]
      exact hmodified
    · rw [if_neg hlocked]
      exact hnew

theorem leaves_withKey : Leaves (Fails w fuel) (reopenLocked.withKey w) := by
  refine moves_file.bindLeaves fun of => Leaves.ite ?_ (leaves_reopenAs w fuel _)
  refine (moves_call w _).bindLeaves fun expired => (Moves.ret _).leaves.ite ?_
  exact (moves_call w _).bindLeaves fun key => (Moves.ret _).leaves.ite (leaves_reopenAs w fuel _)

theorem leaves_reopenLocked : Leaves (Fails w fuel) (reopenLocked w) := by
  refine (moves_call w _).bindLeaves fun busy => Leaves.ite ?_ (leaves_withKey w fuel)
  refine Triple.bind moves_unlock fun _ => Triple.bind (moves_lockFile w) fun _ => ?_
  exact moves_file.bindLeaves fun of => (Moves.ret 1).leaves.ite (leaves_withKey w fuel)

theorem leaves_reopenFileForWriting : Leaves (Fails w fuel) (reopenFileForWriting w) := by
  refine moves_file.bindLeaves fun of => Leaves.ite ?_ (leaves_reopenLocked w fuel)
  refine Triple.bind moves_unlock fun _ =>
    leaves_place (moves_call w .getFileEncoder) (fun t x hx => ?_)
    (fun ret _ => neg_neg_of_pos (cryptoErrToErrno_pos ret)) fun enc => ?_
  · obtain rfl := Option.some.inj hx
    exact Iff.rfl
  · refine Triple.bind (moves_lockFile w) fun _ => ?_
    refine (moves_setFile _).bindLeaves fun _ => moves_file.bindLeaves fun of => ?_
    exact (Moves.ret 1).leaves.ite (leaves_reopenLocked w fuel)

/-! ## Truncation and writes -/

theorem moves_incWriteidLocked : Moves bad true true k (incWriteidLocked w) := by
  refine moves_file.bind fun of => Moves.ite ?_ (moves_setFile _)
  refine (moves_call w _).bind fun busy =>
    Moves.bind (b := true) (Moves.ite ?_ (.ret ())) fun _ => ?_
  · exact moves_unlock.bind fun _ => moves_lockFile w
  · refine moves_file.bind fun of => Moves.bind (b := true) (Moves.ite ?_ (.ret ())) fun _ =>
      moves_setFile _
    exact (moves_setFile _).bind fun _ => (moves_call w _).bind fun _ => .ret ()

theorem moves_modfileCheckSizeOk (size : Nat) :
    Moves bad true true k (modfileCheckSizeOk w size) := by
  refine moves_file.bind fun of => Moves.ite ?_ (.ret 0)
  refine (moves_call w _).bind fun err => (Moves.ret _).ite ((Moves.ret 0).ite ?_)
  exact (moves_call w _).bind fun bw => (Moves.ret _).ite ((moves_setFile _).bind fun _ => .ret 0)

theorem leaves_truncate (size : Nat) :
    Leaves (Fails w fuel) (ftruncateRetry.truncate w fuel size) := by
  refine moves_file.bindLeaves fun of => (leaves_cryptoFtruncate w fuel size).ite (Moves.leaves ?_)
  refine (moves_modfileCheckSizeOk w size).bind fun err => (Moves.ret _).ite ?_
  refine moves_file.bind fun of =>
    Moves.bind (b := true) ((moves_call w _).ite (.ret 0)) fun err => ?_
  exact (Moves.ret _).ite ((moves_setFile _).bind fun _ => .ret 0)

theorem leaves_ftruncateRetry (size n : Nat) :
    Leaves (Fails w fuel) (ftruncateRetry w fuel size n) := by
  induction n with
  | zero => exact Moves.stop.leaves
  | succ n ih =>
    refine moves_file.bindLeaves fun of => Leaves.ite ?_ (leaves_truncate w fuel size)
    refine (leaves_reopenFileForWriting w fuel).bindRet (fun ret => ?_) fun ret hneg => ?_
    · exact ih.ite ((Moves.ret ret).leaves.ite (leaves_truncate w fuel size))
    · rw [if_neg (by omega), if_pos hneg]

theorem leaves_ftruncateOfLocked (size : Nat) :
    Leaves (Fails w fuel) (ftruncateOfLocked w fuel size) := by
  refine moves_file.bindLeaves fun of => (Moves.ret 0).leaves.ite ?_
  exact (moves_incWriteidLocked w).bindLeaves fun _ => leaves_ftruncateRetry w fuel size fuel

theorem leaves_reopenStaticLocked : Leaves (Fails w fuel) (reopenStaticLocked w fuel) := by
  refine (moves_call w _).bindLeaves fun created => (Moves.ret _).leaves.ite ?_
  refine (moves_setFile _).bindLeaves fun _ => ?_
  have hopen : Leaves (Fails w fuel) (openWriteFiles w (ftruncateOfLocked w fuel 0)) :=
    triple_openWriteFiles w (leaves_ftruncateOfLocked w fuel 0) fun _ _ _ ht => Or.inl ht
  refine hopen.bindRet (fun ret => (Moves.ret ret).leaves.ite ?_) fun ret hneg => ?_
  · exact (moves_file.bind fun of => (moves_call w _).bind fun bw => .ret _).leaves
  · rw [if_pos hneg.ne]

theorem leaves_reopenStaticFileForWriting :
    Leaves (Fails w fuel) (reopenStaticFileForWriting w fuel) := by
  refine moves_file.bindLeaves fun of => Moves.assert.bindLeaves fun _ =>
    Moves.assert.bindLeaves fun _ => (moves_call w _).bindLeaves fun busy => ?_
  refine Leaves.ite ?_ (leaves_reopenStaticLocked w fuel)
  refine Triple.bind moves_unlock fun _ => Triple.bind (moves_lockFile w) fun _ => ?_
  exact moves_file.bindLeaves fun of => (leaves_reopenStaticLocked w fuel).ite (Moves.ret 1).leaves

/-- The mutex and the stoppers are as before the call, or a wrong answer made them wrong. -/
def Ended (t : Thread) (failed : Prop) : Prop :=
  Fine false 0 t failed ∨ failed ∧ (t.misuse = true ∨ t.stoppers ≠ 0)

theorem Sound.ended {t : Thread} {f : Prop} (h : Sound false 0 t f) : Ended t f := by
  rcases h with h | h
  · exact Or.inl h
  · exact Or.inr ⟨h.failed, Or.inl h.misuse⟩

/-- The unlock at the end of a call whose error stands for a wrong answer. -/
theorem ended_unlockRet (ret : Int) :
    Triple bad Safe (fun t f => Lost t f ∨ Leaked t f) (unlockRet ret) fun _ => Ended := by
  have hunlock : Triple bad Safe (fun t f => Lost t f ∨ Leaked t f) unlock fun _ => Ended := by
    refine Triple.act fun t f ht => ?_
    rcases ht with ht | ht
    · refine Or.inr ?_
      rw [if_neg (by rw [ht.held]; decide)]
      exact ⟨ht.failed, Or.inl rfl⟩
    · refine Or.inr ?_
      rw [if_pos ht.held]
      exact ⟨ht.failed, Or.inr (by rw [ht.stoppers]; decide)⟩
  exact Triple.bind hunlock fun _ => Triple.pure fun _ _ h => h

/-- A call up to its return. -/
def Ends (bad : Place → Thread → Prop) (m : Call Int) : Prop :=
  Triple bad Safe (Sound true 0) m fun _ => Ended

theorem Moves.ends {m : Call Int} (h : Moves bad true false 0 m) : Ends bad m :=
  h.conseq (fun _ _ ht => ht) fun _ _ _ ht => ht.ended

theorem Ends.ite {p : Prop} [Decidable p] {m m' : Call Int} (h : Ends bad m) (h' : Ends bad m') :
    Ends bad (if p then m else m') := Triple.ite (fun _ => h) fun _ => h'

theorem moves_writeModified (size offset : Nat) :
    Moves bad true true k (writeModified w size offset) := by
  refine (moves_modfileCheckSizeOk w offset).bind fun err => (Moves.ret _).ite ?_
  refine (moves_call w _).bind fun bw => (Moves.ret _).ite ?_
  exact (moves_call w _).bind fun written =>
    (Moves.ret _).ite ((moves_setFile _).bind fun _ => .ret bw)

theorem moves_writeNewfile (size offset : Nat) :
    Moves bad true true k (writeNewfile w size offset) :=
  (moves_call w _).bind fun bw =>
    Moves.bind (b := true) ((moves_growTo _).ite (.ret ())) fun _ => .ret bw

theorem ends_writeToModified (size offset : Nat) {retry : Call Int}
    (hretry : Ends (Fails w fuel) retry) :
    Ends (Fails w fuel) (writeRetry.writeToModified w fuel size offset retry) := by
  refine Triple.bind moves_file fun of => Ends.ite ?_ (Ends.ite ?_ (Moves.ends ?_))
  · exact (moves_cryptoWriteModifiedLocked w fuel size offset).ends
  · refine (leaves_reopenStaticFileForWriting w fuel).bind (fun ret => ?_) fun ret hneg => ?_
    · exact hretry.ite (moves_unlockRet ret).ends
    · rw [if_neg (by omega)]
      exact ended_unlockRet ret
  · exact (moves_writeModified w size offset).bind fun ret => moves_unlockRet ret

theorem ends_writeRetry (size offset n : Nat) :
    Ends (Fails w fuel) (writeRetry w fuel size offset n) := by
  induction n with
  | zero => exact Moves.stop.ends
  | succ n ih =>
    have hmodified := ends_writeToModified w fuel size offset ih
    refine Triple.bind moves_file fun of => Ends.ite (Ends.ite ?_ ?_) (Ends.ite ?_ hmodified)
    · exact (moves_cryptoWriteNewfileLocked w fuel size offset).ends
    · exact ((moves_writeNewfile w size offset).bind fun ret => moves_unlockRet _).ends
    · refine (leaves_reopenFileForWriting w fuel).bind (fun ret => ?_) fun ret hneg => ?_
      · exact ih.ite ((moves_unlockRet ret).ends.ite hmodified)
      · rw [if_neg (by omega), if_pos hneg]
        exact ended_unlockRet ret

theorem moves_throttleWrite (size : Nat) (freed : Bool) :
    Moves bad false true k (throttleWrite w size freed) := by
  refine (moves_call w _).bind fun speed => Moves.bind (b := false) ((moves_call w _).ite (.ret 0))
    fun cached => Moves.ite ?_ ?_
  · exact (moves_lockFile w).bind fun _ => .ret 1
  · exact (moves_call w _).bind fun _ => (moves_lockFile w).bind fun _ => .ret 1

theorem returns_throttleWrite (size : Nat) (freed : Bool) :
    Returns (throttleWrite w size freed) fun ret => ret = 1 :=
  .after fun _ => .after fun _ =>
    .ite (.after fun _ => .pure rfl) (.after fun _ => .after fun _ => .pure rfl)

/-- There is space exactly if it returns locked. -/
theorem triple_doCheckWriteSpace (size : Nat) :
    Triple bad Safe (Sound true 0) (doCheckWriteSpace w size) fun ret =>
      Sound (decide (0 < ret)) 0 := by
  have hthrottle : ∀ freed, Triple bad Safe (Sound false 0) (throttleWrite w size freed)
      fun ret => Sound (decide (0 < ret)) 0 := by
    intro freed
    refine ((moves_throttleWrite w size freed).returns (returns_throttleWrite w size freed)).conseq
      (fun _ _ ht => ht) ?_
    rintro ret t f ⟨ht, rfl⟩
    exact ht
  refine Triple.bind (moves_call w _) fun minlocal => Triple.bind (moves_call w _) fun freespc => ?_
  refine Triple.ite (fun _ => Moves.ret 1) fun _ => Triple.ite (fun _ => ?_) fun _ => ?_
  · exact Triple.bind (moves_setFile _) fun _ => Moves.ret 1
  · refine Triple.bind (moves_setFile _) fun _ => Triple.bind moves_unlock fun _ => ?_
    refine Triple.ite (fun _ => ?_) fun _ => Triple.ite (fun _ => ?_) fun _ => hthrottle false
    · refine Triple.bind (moves_call w _) fun cached => Triple.ite (fun _ => ?_) fun _ =>
        hthrottle true
      exact Moves.ret (-eintr)
    · exact Triple.bind (moves_call w _) fun cached => hthrottle _

theorem triple_checkWriteSpace (size offset : Nat) :
    Triple bad Safe (Sound true 0) (checkWriteSpace w size offset) fun ret =>
      Sound (decide (0 < ret)) 0 := by
  refine Triple.bind moves_file fun of => Triple.ite (fun _ => Moves.ret 1) fun _ => ?_
  exact Triple.ite (fun _ => Moves.ret 1) fun _ => triple_doCheckWriteSpace w size

/-! ## Calls -/

theorem moves_readIntervals (size offset : Nat) (rd : Int) (l : List (Span Nat)) :
    Moves bad true false k (readIntervals w size offset rd l) := by
  induction l generalizing rd with
  | nil => exact moves_unlockRet rd
  | cons fi rest ih =>
    refine Moves.ite (moves_unlockRet rd) ?_
    exact (moves_call w _).bind fun br => (moves_unlockRet _).ite (ih _)

theorem moves_pagecacheReadModifiedLocked (size offset : Nat) :
    Moves bad true false k (pagecacheReadModifiedLocked w size offset) := by
  refine moves_file.bind fun of => Moves.ite ?_ ?_
  · exact (moves_call w _).bind fun br => moves_unlockRet _
  · refine (moves_readUnmodifiedLocked w offset).bind fun rd => (Moves.ret rd).ite ?_
    exact (moves_lockFile w).bind fun _ => moves_file.bind fun of => moves_readIntervals w _ _ _ _

theorem moves_fsRead (size offset : Nat) :
    Moves (Fails w fuel) false false k (fsRead w fuel size offset) := by
  refine (moves_lockFile w).bind fun _ => moves_file.bind fun of => Moves.ite ?_ (Moves.ite ?_ ?_)
  · exact (moves_readNewfileLocked w fuel size offset).ite
      ((moves_cryptoReadModifiedLocked w fuel size offset).ite
        (moves_readUnmodifiedEncryptedLocked w fuel size offset))
  · exact (moves_call w _).bind fun br => moves_unlockRet _
  · exact Moves.ite ((moves_unlockRet _).ite (moves_pagecacheReadModifiedLocked w size offset))
      (moves_readUnmodifiedLocked w offset)

theorem ended_fsWrite (size offset : Nat) :
    Triple (Fails w fuel) Safe (Sound false 0) (fsWrite w fuel size offset) fun _ => Ended := by
  refine Triple.bind (moves_lockFile w) fun _ => Triple.bind (triple_checkWriteSpace w size offset)
    fun ret => Triple.ite (fun hret => ?_) fun hret => ?_
  · rw [decide_eq_false (not_lt.mpr hret)]
    exact Triple.pure fun _ _ ht => ht.ended
  · rw [decide_eq_true (not_le.mp hret)]
    exact Triple.bind (moves_incWriteidLocked w) fun _ => ends_writeRetry w fuel size offset fuel

theorem ended_fsFtruncate (size : Nat) :
    Triple (Fails w fuel) Safe (Sound false 0) (fsFtruncate w fuel size) fun _ => Ended := by
  refine Triple.bind (moves_lockFile w) fun _ => (leaves_ftruncateOfLocked w fuel size).bind
    (fun ret => (moves_unlockRet ret).ends) fun ret _ => ended_unlockRet ret

end Functions

/-- The calls of FUSE on an open file. -/
inductive FuseCall where
  | read (size offset : Nat)
  | write (size offset : Nat)
  | ftruncate (size : Nat)
  deriving DecidableEq, Repr

def FuseCall.exec (w : World) (fuel : Nat) : FuseCall → Call Int
  | read size offset => fsRead w fuel size offset
  | write size offset => fsWrite w fuel size offset
  | ftruncate size => fsFtruncate w fuel size

/-- A thread that FUSE has just called. -/
def enter (of : Openfile) : Thread :=
  { file := of, clock := 0, held := false, misuse := false, stoppers := 0 }

/-- The mutex is unlocked once for each time it was locked, never while it is not, and the
stoppers that were taken are given back. -/
structure Balanced (t : Thread) : Prop where
  held : t.held = false
  misuse : t.misuse = false
  stoppers : t.stoppers = 0

/-- The call comes to a step in a state. -/
def Reaches (w : World) (fuel : Nat) (of : Openfile) (c : FuseCall) (p : Place)
    (t : Thread) : Prop :=
  (p, t) ∈ (c.exec w fuel).places (enter of)

/-- At no step that the call comes to is the answer of the world wrong. -/
def Harmless (w : World) (fuel : Nat) (of : Openfile) (c : FuseCall) : Prop :=
  ∀ p t, Reaches w fuel of c p t → ¬Fails w fuel p t

theorem balanced_iff_of_ended {t : Thread} {f : Prop} (h : Ended t f) : Balanced t ↔ ¬f := by
  rcases h with h | ⟨hfailed, hwrong⟩
  · exact ⟨fun _ => h.clean, fun _ => ⟨h.held, h.misuse, h.stoppers⟩⟩
  · refine ⟨fun hbalanced => ?_, fun hclean => absurd hfailed hclean⟩
    rcases hwrong with hmisuse | hstoppers
    · exact absurd (hbalanced.misuse.symm.trans hmisuse) (by decide)
    · exact absurd hbalanced.stoppers hstoppers

theorem harmless_iff (w : World) (fuel : Nat) (of : Openfile) (c : FuseCall) :
    Harmless w fuel of c ↔ ¬(False ∨ Met (Fails w fuel) ((c.exec w fuel).places (enter of))) := by
  rw [false_or, Met, Harmless]
  constructor
  · rintro h ⟨⟨p, t⟩, hp, hbad⟩
    exact h p t hp hbad
  · intro h p t hp hbad
    exact h ⟨(p, t), hp, hbad⟩

/-- A call that returns has given back the mutex and the stoppers exactly if no answer was wrong
at the steps it came to, and a call that does not return has unlocked the mutex while it was not
locked only after a wrong answer. -/
theorem lock_balance (w : World) (fuel : Nat) (of : Openfile) (c : FuseCall) :
    match (c.exec w fuel).value (enter of) with
    | some _ => Balanced ((c.exec w fuel).final (enter of)) ↔ Harmless w fuel of c
    | none => Harmless w fuel of c → ((c.exec w fuel).final (enter of)).misuse = false := by
  have hstart : Sound false 0 (enter of) False := Or.inl ⟨⟨rfl, rfl, rfl⟩, id⟩
  have htriple : Triple (Fails w fuel) Safe (Sound false 0) (c.exec w fuel) fun _ => Ended := by
    cases c with
    | read size offset =>
      exact (moves_fsRead w fuel size offset).conseq (fun _ _ h => h) fun _ _ _ h => h.ended
    | write size offset => exact ended_fsWrite w fuel size offset
    | ftruncate size => exact ended_fsFtruncate w fuel size
  have hrun := htriple (enter of) False hstart
  rw [harmless_iff, Prog.value, Prog.final, Prog.places]
  rcases heq : c.exec w fuel (enter of) with ⟨_ | ret, t, l⟩
  · rw [heq] at hrun
    intro hclean
    by_contra hmisuse
    exact hclean (hrun (Bool.eq_true_of_not_eq_false hmisuse))
  · rw [heq] at hrun
    exact balanced_iff_of_ended hrun

/-- An encrypted file that is open for reading; its key was not loaded. -/
def encryptedFile : Openfile :=
  { newfile := false, modified := false, staticfile := false, encrypted := true
    encoder := .unloaded
    initialsize := 10000, currentsize := 10000, writeid := 1, throttle := false
    releasedforupload := false, datafile := false, indexfile := false
    logfile := false, logoffset := 0
    writeintervals := [], extender := none }

/-- The client is not connected. -/
def offline : World where
  answer h _ of := (if h = .getFileEncoder then -6 else 0, of)
  others _ of := of

/-- A write to it without a connection returns `ENOTCONN` and unlocks the mutex twice. -/
theorem write_without_key :
    (fsWrite offline 8 100 0).value (enter encryptedFile) = some (-107) ∧
      ((fsWrite offline 8 100 0).final (enter encryptedFile)).misuse = true ∧
      ¬Balanced ((fsWrite offline 8 100 0).final (enter encryptedFile)) := by
  have hmisuse : ((fsWrite offline 8 100 0).final (enter encryptedFile)).misuse = true := by decide
  refine ⟨by decide, hmisuse, fun hbalanced => ?_⟩
  exact absurd (hbalanced.misuse.symm.trans hmisuse) (by decide)

end PcloudClient.Pfs.Locks
