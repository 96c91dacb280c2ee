/-
  Ppathstatus/DriveStatusProofs.lean --- what the status of a path of the drive is, from any cache.
-/
import Mathlib.Tactic.SplitIfs
import PcloudClient.Ppathstatus.DriveAnswer

set_option autoImplicit false

namespace PcloudClient.Ppathstatus.DriveStatus

open PcloudClient.Crypto

namespace World

variable {w : World} {f g : FolderId} {n name : Name} {inner : List Name} {c : PathCache}
  {wrlocked : Bool} {R : FolderId → Name → Prop} {e : CacheEntry} {i : Nat}

/-! ## Encoded names -/

/-- The length is compared with the size of a pointer, which no encoded name is below. -/
theorem moveEncnameToBuff_eq_none (w : World) (f : FolderId) (n : Name) :
    w.moveEncnameToBuff f n = none := by
  have hlen := length_encodeFilename (w.encoder f) n
  have hlong : charPtrSize ≤ (encodeFilename (w.encoder f) n).length :=
    le_trans (show charPtrSize ≤ aes256BlockSize by decide) hlen
  unfold moveEncnameToBuff
  simp only [if_pos hlong]
  split_ifs <;> rfl

theorem stored_of_plain (h : w.encrypted f = false) (n : Name) : w.stored f n = n := by
  simp [stored, h]

theorem length_le_stored (w : World) (f : FolderId) (n : Name) :
    n.length ≤ (w.stored f n).length := by
  unfold stored
  split
  · exact length_le_encodeFilename _ _
  · exact le_refl _

/-! ## The cache -/

/-- What the walk looks up, by folder and name. -/
inductive Reads (w : World) : FolderId → List Name → Name → FolderId → Name → Prop where
  | inner {f : FolderId} {n name : Name} {inner : List Name} : Reads w f (n :: inner) name f n
  | next {f g f' : FolderId} {n name n' : Name} {inner : List Name}
      (row : w.folder f (w.stored f n) = some g) (rest : Reads w g inner name f' n') :
      Reads w f (n :: inner) name f' n'
  | last {f : FolderId} {name : Name} : Reads w f [] name f name

/-- The entry is that of a row with the name as it was looked up.  An entry made for the last
component of a path has lost the flag of encrypted folders. -/
def Matches (w : World) (e : CacheEntry) (f : FolderId) (n : Name) : Prop :=
  if e.folder then
    w.folder f n = some e.itemid ∧ (e.encrypted = true → w.encrypted e.itemid = true)
  else w.file f n = some e.itemid

/-- Whatever of `R` has the hash of an entry is what the entry was made for. -/
def CacheOk (w : World) (R : FolderId → Name → Prop) (c : PathCache) : Prop :=
  ∀ b i, i ∈ c.buckets b → ∀ f n, R f n → (c.entries i).hash = w.hash f n →
    w.Matches (c.entries i) f n

/-- No two of `R` have one hash. -/
def Distinct (w : World) (R : FolderId → Name → Prop) : Prop :=
  ∀ f n f' n', R f n → R f' n' → w.hash f n = w.hash f' n' → f = f' ∧ n = n'

theorem find_some {h : PathHash} {sel : CacheEntry → Bool} (hfind : c.find h sel = some i) :
    i ∈ c.buckets h.bucket ∧ (c.entries i).hash = h ∧ sel (c.entries i) = true := by
  have hmem := List.mem_of_find?_eq_some hfind
  have hsel := List.find?_some hfind
  simp only [Bool.and_eq_true, decide_eq_true_eq] at hsel
  exact ⟨hmem, hsel.1, hsel.2⟩

theorem CacheOk.found (h : w.CacheOk R c) (hR : R f n) {sel : CacheEntry → Bool}
    (hfind : c.find (w.hash f n) sel = some i) : w.Matches (c.entries i) f n := by
  obtain ⟨hmem, hhash, -⟩ := find_some hfind
  exact h _ i hmem f n hR hhash

theorem touch_entries (c : PathCache) (wrlocked : Bool) (i : Nat) :
    (c.touch wrlocked i).entries = c.entries := by
  unfold PathCache.touch
  split <;> rfl

theorem touch_buckets (c : PathCache) (wrlocked : Bool) (i : Nat) :
    (c.touch wrlocked i).buckets = c.buckets := by
  unfold PathCache.touch
  split <;> rfl

theorem CacheOk.touch (h : w.CacheOk R c) (wrlocked : Bool) (i : Nat) :
    w.CacheOk R (c.touch wrlocked i) := by
  intro b j hj
  rw [touch_buckets] at hj
  rw [touch_entries]
  exact h b j hj

/-- An entry of a cache after an insertion is the new one or was there. -/
theorem insert_entries {b j : Nat} (hj : j ∈ (c.insert e).buckets b) :
    (c.insert e).entries j = e ∨
      (j ∈ c.buckets b ∧ (c.insert e).entries j = c.entries j) := by
  unfold PathCache.insert at hj ⊢
  split
  · next hlru =>
    rw [hlru] at hj
    exact .inr ⟨hj, rfl⟩
  · next i rest hlru =>
    rw [hlru] at hj
    simp only [ne_eq, decide_not, List.mem_append, List.mem_filter, Bool.not_eq_eq_eq_not,
      Bool.not_true, decide_eq_false_iff_not] at hj
    by_cases hji : j = i
    · exact .inl (by simp [hji])
    · rcases hj with ⟨hold, -⟩ | hnew
      · exact .inr ⟨hold, Function.update_of_ne hji _ _⟩
      · split at hnew
        · exact absurd (List.mem_singleton.mp hnew) hji
        · simp at hnew

theorem CacheOk.insert (h : w.CacheOk R c) (hdistinct : w.Distinct R) (hR : R f n)
    (hhash : e.hash = w.hash f n) (he : w.Matches e f n) : w.CacheOk R (c.insert e) := by
  intro b j hj f' n' hR' hhash'
  rcases insert_entries hj with hnew | ⟨hold, hkeep⟩
  · rw [hnew] at hhash' ⊢
    obtain ⟨rfl, rfl⟩ := hdistinct f n f' n' hR hR' (hhash.symm.trans hhash')
    exact he
  · rw [hkeep] at hhash' ⊢
    exact h b j hold f' n' hR' hhash'

/-! ## One component -/

/-- What a pass may end with: the status `st₀`, or also `inSync` where `orInSync` holds. -/
def Answers (w : World) (R : FolderId → Name → Prop) (wrlocked : Bool) (st₀ : Status)
    (orInSync : Prop) : Pass → Prop
  | .returns st c => (st = st₀ ∨ (orInSync ∧ st = .inSync)) ∧ w.CacheOk R c
  | .restart => wrlocked = false
  | .useAfterFree => False

theorem Answers.mono {st₀ : Status} {P Q : Prop} {p : Pass} (h : w.Answers R wrlocked st₀ P p)
    (hPQ : P → Q) : w.Answers R wrlocked st₀ Q p := by
  cases p with
  | returns st c => exact ⟨h.1.imp_right fun hP => ⟨hPQ hP.1, hP.2⟩, h.2⟩
  | restart => exact h
  | useAfterFree => exact h

/-- The status of a name without a pending creat or mkdir, from its entry. -/
theorem lastStatus_of_matches (h : w.Marked) (hmkdir : w.raw.mkdir f name = false)
    (hcreat : w.raw.creat f name = false) (he : w.Matches e f name) :
    w.raw.lastStatus f name =
      if e.folder then if w.raw.rmdir f name then .notFound else w.folderStatus e.itemid
      else if w.raw.unlink f name then .notFound else .inSync := by
  unfold lastStatus
  rw [if_neg (by simp [hmkdir, hcreat])]
  unfold Matches at he
  cases hfolder : e.folder with
  | true =>
    rw [hfolder, if_pos rfl] at he
    have hrow : w.raw.folder f (w.raw.stored f name) = some e.itemid := he.1
    rw [hrow]
    rfl
  | false =>
    rw [hfolder, if_neg Bool.false_ne_true] at he
    have hfile : w.raw.file f (w.raw.stored f name) = some e.itemid := he
    have hrow : w.raw.folder f (w.raw.stored f name) = none := by
      by_contra hsome
      obtain ⟨g, hg⟩ := Option.ne_none_iff_exists'.mp hsome
      rw [(raw_marked h).unique f _ g hg] at hfile
      cases hfile
    rw [hrow, hfile]
    simp

theorem lastLookup_answers (h : w.Marked) (hc : w.CacheOk R c) (hdistinct : w.Distinct R)
    (hR : R f name) (hname : name ≠ []) (hmkdir : w.raw.mkdir f name = false)
    (hcreat : w.raw.creat f name = false) :
    w.Answers R wrlocked (w.raw.statusAt f [] name) False
      (w.lastLookup wrlocked f false c name name) := by
  have hrmdir : (w.fstask f).any (·.rmdirs name) = w.raw.rmdir f name := rfl
  have hunlink : (w.fstask f).any (·.unlinks name) = w.raw.unlink f name := rfl
  have hstatus : w.raw.statusAt f [] name = w.raw.lastStatus f name := by
    rw [statusAt, if_neg hname]
  have hno : ¬ (w.raw.mkdir f name = true ∨ w.raw.creat f name = true) := by simp [hmkdir, hcreat]
  simp only [lastLookup, hrmdir, hunlink]
  cases hrow : w.folder f name with
  | some g =>
    have hlast : w.raw.lastStatus f name =
        if w.raw.rmdir f name then .notFound else w.folderStatus g := by
      have hraw : w.raw.folder f (w.raw.stored f name) = some g := hrow
      rw [lastStatus, if_neg hno, hraw]
      rfl
    cases hrm : w.raw.rmdir f name with
    | false =>
      rw [hrm, if_neg Bool.false_ne_true] at hlast
      cases wrlocked with
      | false => exact rfl
      | true =>
        refine ⟨.inl (hstatus.trans hlast).symm, hc.insert hdistinct hR rfl ?_⟩
        exact ⟨hrow, fun henc => absurd henc Bool.false_ne_true⟩
    | true =>
      rw [hrm, if_pos rfl] at hlast
      have hfile := h.unique f name g hrow
      simp only [hfile]
      split
      · exact ⟨.inl (hstatus.trans hlast).symm, hc⟩
      · exact ⟨.inl (hstatus.trans hlast).symm, hc⟩
  | none =>
    have hlast : w.raw.lastStatus f name = if w.raw.unlink f name then .notFound
        else if (w.file f name).isSome then .inSync else .notFound := by
      have hraw : w.raw.folder f (w.raw.stored f name) = none := hrow
      rw [lastStatus, if_neg hno, hraw]
      rfl
    cases hun : w.raw.unlink f name with
    | true =>
      rw [hun, if_pos rfl] at hlast
      exact ⟨.inl (hstatus.trans hlast).symm, hc⟩
    | false =>
      rw [hun, if_neg Bool.false_ne_true] at hlast
      cases hfile : w.file f name with
      | none =>
        rw [hfile] at hlast
        exact ⟨.inl (hstatus.trans hlast).symm, hc⟩
      | some id =>
        rw [hfile] at hlast
        cases wrlocked with
        | false => exact rfl
        | true => exact ⟨.inl (hstatus.trans hlast).symm, hc.insert hdistinct hR rfl hfile⟩

/-- A folder that is taken for an encrypted one may end the pass with `inSync`; else the status is
that of the name as it is. -/
theorem last_answers (h : w.Marked) (hc : w.CacheOk R c) (hdistinct : w.Distinct R) (hR : R f name)
    (enc : Bool) :
    w.Answers R wrlocked (w.raw.statusAt f [] name) (enc = true ∧ name ≠ [])
      (w.last wrlocked f enc c name) := by
  unfold last
  by_cases hname : name = []
  · rw [if_pos hname]
    refine ⟨.inl ?_, hc⟩
    rw [statusAt, if_pos hname]
    rfl
  · rw [if_neg hname]
    have hstatus : w.raw.statusAt f [] name = w.raw.lastStatus f name := by
      rw [statusAt, if_neg hname]
    by_cases hfirst : (w.fstask f).isSome ∧ enc = true
    · simp only [if_pos hfirst, moveEncnameToBuff_eq_none]
      exact ⟨.inr ⟨⟨hfirst.2, hname⟩, rfl⟩, hc⟩
    · simp only [if_neg hfirst]
      change w.Answers R wrlocked _ _ (if w.raw.mkdir f name then _
        else if w.raw.creat f name then _ else _)
      cases hmkdir : w.raw.mkdir f name with
      | true =>
        refine ⟨.inl ?_, hc⟩
        rw [hstatus, lastStatus, if_pos (.inl hmkdir)]
        rfl
      | false =>
        cases hcreat : w.raw.creat f name with
        | true =>
          refine ⟨.inl ?_, hc⟩
          rw [hstatus, lastStatus, if_pos (.inr hcreat)]
          rfl
        | false =>
          simp only [Bool.false_eq_true, if_false]
          cases hfind : c.find (w.hash f name) fun _ => true with
          | some i =>
            have hlast := lastStatus_of_matches h hmkdir hcreat (hc.found hR hfind)
            have hrmdir : (w.fstask f).any (·.rmdirs name) = w.raw.rmdir f name := rfl
            have hunlink : (w.fstask f).any (·.unlinks name) = w.raw.unlink f name := rfl
            simp only [hrmdir, hunlink]
            rw [← hstatus] at hlast
            split_ifs at hlast ⊢
            · exact ⟨.inl hlast.symm, hc.touch wrlocked i⟩
            · exact ⟨.inl hlast.symm, hc.touch wrlocked i⟩
            · exact ⟨.inl hlast.symm, hc.touch wrlocked i⟩
            · exact ⟨.inl hlast.symm, hc.touch wrlocked i⟩
          | none =>
            cases enc with
            | true =>
              have hnone : w.fstask f = none := by simpa using hfirst
              simp only [hnone, Option.isNone_none, and_self, if_true, moveEncnameToBuff_eq_none]
              exact ⟨.inr ⟨⟨trivial, hname⟩, rfl⟩, hc⟩
            | false =>
              simp only [Bool.false_eq_true, and_false, if_false]
              exact (lastLookup_answers h hc hdistinct hR hname hmkdir hcreat).mono False.elim

/-- What a folder's tasks say of a component that a slash follows. -/
theorem innerTasks_eq (hshort : n.length < buffSize) (enc : Bool) :
    w.innerTasks f enc n =
        (if w.raw.mkdir f n then some w.inProg
          else if w.raw.rmdir f n then some .notFound else none) ∨
      (enc = true ∧ w.innerTasks f enc n = some .inSync) := by
  unfold innerTasks
  cases htasks : w.fstask f with
  | none =>
    have hraw : w.raw.fstask f = none := htasks
    exact .inl (by simp [mkdir, rmdir, hraw])
  | some t =>
    simp only [if_neg (Nat.not_le.mpr hshort)]
    cases enc with
    | true =>
      simp only [if_true, moveEncnameToBuff_eq_none]
      exact .inr ⟨trivial, trivial⟩
    | false =>
      have hraw : w.raw.fstask f = some t := htasks
      exact .inl (by simp [mkdir, rmdir, hraw])

/-- The lookup of a component that a slash follows goes on in its folder, by an entry or by a new
one, or ends the pass. -/
theorem innerLookup_spec (hc : w.CacheOk R c) (hdistinct : w.Distinct R) (hR : R f n)
    (enc : Bool) :
    (∃ g enc' c', w.innerLookup wrlocked f enc c n = .ok (g, enc', c') ∧
        w.folder f n = some g ∧ w.busy g = true ∧ (enc' = true → w.encrypted g = true) ∧
        w.CacheOk R c' ∧
        ((∃ i, i ∈ c.buckets (w.hash f n).bucket ∧ (c.entries i).hash = w.hash f n ∧
            (c.entries i).itemid = g ∧ enc' = (c.entries i).encrypted ∧ c' = c.touch wrlocked i) ∨
          (c.find (w.hash f n) (·.folder) = none ∧ enc = false ∧ enc' = w.encrypted g ∧
            c' = c.insert ⟨w.hash f n, g, true, w.encrypted g⟩))) ∨
      ∃ p, w.innerLookup wrlocked f enc c n = .error p ∧
        ((∃ g c', w.folder f n = some g ∧ w.busy g = false ∧ w.CacheOk R c' ∧
            p = .returns .inSync c') ∨
          (w.folder f n = none ∧ p = .returns .notFound c) ∨
          (wrlocked = false ∧ p = .restart) ∨
          (enc = true ∧ p = .returns .inSync c)) := by
  unfold innerLookup
  cases hfind : c.find (w.hash f n) (·.folder) with
  | some i =>
    obtain ⟨hmem, hhash, hfolder⟩ := find_some hfind
    have hmatches := hc.found hR hfind
    rw [Matches, if_pos hfolder] at hmatches
    obtain ⟨hrow, hflag⟩ := hmatches
    cases hbusy : w.busy (c.entries i).itemid with
    | true =>
      refine .inl ⟨_, _, c.touch wrlocked i, ?_, hrow, hbusy, hflag, hc.touch wrlocked i,
        .inl ⟨i, hmem, hhash, rfl, rfl, rfl⟩⟩
      simp [hbusy]
    | false =>
      refine .inr ⟨_, ?_, .inl ⟨_, c.touch wrlocked i, hrow, hbusy, hc.touch wrlocked i, rfl⟩⟩
      simp [hbusy]
  | none =>
    cases enc with
    | true =>
      refine .inr ⟨_, ?_, .inr (.inr (.inr ⟨rfl, rfl⟩))⟩
      simp [moveEncnameToBuff_eq_none]
    | false =>
      cases hrow : w.folder f n with
      | none => exact .inr ⟨_, rfl, .inr (.inl ⟨rfl, rfl⟩)⟩
      | some g =>
        cases wrlocked with
        | false => exact .inr ⟨_, rfl, .inr (.inr (.inl ⟨rfl, rfl⟩))⟩
        | true =>
          have hnew : w.Matches ⟨w.hash f n, g, true, w.encrypted g⟩ f n := by
            rw [Matches, if_pos rfl]
            exact ⟨hrow, id⟩
          have hc' := hc.insert hdistinct hR
            (show (⟨w.hash f n, g, true, w.encrypted g⟩ : CacheEntry).hash = w.hash f n from rfl)
              hnew
          cases hbusy : w.busy g with
          | true =>
            refine .inl ⟨g, _, _, ?_, rfl, hbusy, id, hc', .inr ⟨rfl, rfl, rfl, rfl⟩⟩
            simp [hbusy]
          | false =>
            refine .inr ⟨.returns .inSync (c.insert ⟨w.hash f n, g, true, w.encrypted g⟩), ?_,
              .inl ⟨g, _, rfl, hbusy, hc', rfl⟩⟩
            simp [hbusy]

/-! ## A pass -/

theorem looksAt_inner (hmkdir : w.raw.mkdir f n = false) (hrmdir : w.raw.rmdir f n = false)
    (hrow : w.folder f n = some g) (hbusy : w.busy g = true)
    (hlooks : w.looksAt g inner name = true) :
    w.looksAt f (n :: inner) name = true := by
  cases henc : w.encrypted f with
  | true => exact looksAt_of_encrypted henc
  | false =>
    have hstored := stored_of_plain henc n
    have hmk : w.mkdir f n = false := by rwa [mkdir, hstored]
    have hrm : w.rmdir f n = false := by rwa [rmdir, hstored]
    rw [looksAt_some hmk hrm (by rwa [hstored]), henc, hbusy, hlooks]
    rfl

/-- By induction on the components that a slash follows. -/
theorem walk_answers {enc : Bool} (h : w.Marked) (hdistinct : w.Distinct R) (hc : w.CacheOk R c)
    (henc : enc = true → w.encrypted f = true)
    (hR : ∀ f' n', w.raw.Reads f inner name f' n' → R f' n')
    (hfits : ∀ f' n', w.raw.Reads f inner name f' n' → n'.length < buffSize) :
    w.Answers R wrlocked (w.raw.statusAt f inner name) (w.looksAt f inner name = true)
      (w.walk wrlocked f enc c inner name) := by
  induction inner generalizing f c enc with
  | nil =>
    refine (last_answers h hc hdistinct (hR _ _ .last) enc).mono fun ⟨htrue, hname⟩ => ?_
    simp [looksAt, hname, henc htrue]
  | cons n inner ih =>
    unfold walk
    rcases innerTasks_eq (hfits f n .inner) enc with htasks | ⟨htrue, htasks⟩
    · rw [htasks]
      cases hmkdir : w.raw.mkdir f n with
      | true => exact ⟨.inl (by rw [statusAt, if_pos hmkdir]; rfl), hc⟩
      | false =>
        cases hrmdir : w.raw.rmdir f n with
        | true =>
          exact ⟨.inl (by rw [statusAt, if_neg (by simp [hmkdir]), if_pos hrmdir]), hc⟩
        | false =>
          simp only [Bool.false_eq_true, if_false]
          rcases @innerLookup_spec w f n c wrlocked R hc hdistinct (hR f n .inner) enc with
            ⟨g, enc', c', hlookup, hrow, hbusy, henc', hc', -⟩ | ⟨p, hlookup, hend⟩
          · rw [hlookup, statusAt_some hmkdir hrmdir (show w.raw.folder f _ = some g from hrow),
              if_pos (show w.raw.busy g = true from hbusy)]
            exact (ih hc' henc' (fun f' n' hread => hR f' n' (.next hrow hread))
              (fun f' n' hread => hfits f' n' (.next hrow hread))).mono
                (looksAt_inner hmkdir hrmdir hrow hbusy)
          · rw [hlookup]
            rcases hend with ⟨g, c', hrow, hbusy, hc', rfl⟩ | ⟨hrow, rfl⟩ | ⟨hlock, rfl⟩ |
              ⟨htrue, rfl⟩
            · refine ⟨.inl ?_, hc'⟩
              rw [statusAt_some hmkdir hrmdir (show w.raw.folder f _ = some g from hrow),
                show w.raw.busy g = false from hbusy]
              rfl
            · exact ⟨.inl (statusAt_none hmkdir hrmdir hrow).symm, hc⟩
            · exact hlock
            · exact ⟨.inr ⟨looksAt_of_encrypted (henc htrue), rfl⟩, hc⟩
    · rw [htasks]
      exact ⟨.inr ⟨looksAt_of_encrypted (henc htrue), rfl⟩, hc⟩

/-! ## A cache without encrypted names -/

/-- The entries are of names of `R` in folders that are not encrypted, with their flag. -/
def Cold (w : World) (R : FolderId → Name → Prop) (c : PathCache) : Prop :=
  ∀ b i, i ∈ c.buckets b →
    (∃ f n, R f n ∧ w.encrypted f = false ∧ (c.entries i).hash = w.hash f n) ∧
      (c.entries i).encrypted = w.encrypted (c.entries i).itemid

theorem Cold.touch (h : w.Cold R c) (wrlocked : Bool) (i : Nat) :
    w.Cold R (c.touch wrlocked i) := by
  intro b j hj
  rw [touch_buckets] at hj
  rw [touch_entries]
  exact h b j hj

theorem Cold.insert (h : w.Cold R c) (hR : R f n) (henc : w.encrypted f = false)
    (hhash : e.hash = w.hash f n) (hflag : e.encrypted = w.encrypted e.itemid) :
    w.Cold R (c.insert e) := by
  intro b j hj
  rcases insert_entries hj with hnew | ⟨hold, hkeep⟩
  · rw [hnew]
    exact ⟨⟨f, n, hR, henc, hhash⟩, hflag⟩
  · rw [hkeep]
    exact h b j hold

theorem Cold.find_none (h : w.Cold R c) (hdistinct : w.Distinct R) (hR : R f n)
    (henc : w.encrypted f = true) (sel : CacheEntry → Bool) : c.find (w.hash f n) sel = none := by
  by_contra hsome
  obtain ⟨i, hfind⟩ := Option.ne_none_iff_exists'.mp hsome
  obtain ⟨hmem, hhash, -⟩ := find_some hfind
  obtain ⟨⟨f', n', hR', henc', hhash'⟩, -⟩ := h _ i hmem
  obtain ⟨rfl, -⟩ := hdistinct f n f' n' hR hR' (hhash.symm.trans hhash')
  rw [henc] at henc'
  cases henc'

/-- The first name of an encrypted folder that is looked up ends the pass. -/
theorem walk_cold (hdistinct : w.Distinct R) (hc : w.CacheOk R c) (hcold : w.Cold R c)
    (hR : ∀ f' n', w.raw.Reads f inner name f' n' → R f' n')
    (hfits : ∀ f' n', w.raw.Reads f inner name f' n' → n'.length < buffSize)
    (hlooks : w.looksAt f inner name = true) :
    (∃ c', w.walk wrlocked f (w.encrypted f) c inner name = .returns .inSync c') ∨
      (wrlocked = false ∧ w.walk wrlocked f (w.encrypted f) c inner name = .restart) := by
  induction inner generalizing f c with
  | nil =>
    simp only [looksAt, decide_eq_true_eq] at hlooks
    obtain ⟨hname, henc⟩ := hlooks
    refine .inl ⟨c, ?_⟩
    simp only [walk, last, if_neg hname, henc, and_true, moveEncnameToBuff_eq_none]
    cases htasks : w.fstask f with
    | none => simp [hcold.find_none hdistinct (hR _ _ .last) henc]
    | some t => simp
  | cons n inner ih =>
    have hread := hR f n .inner
    cases henc : w.encrypted f with
    | true =>
      refine .inl ⟨c, ?_⟩
      have hshort : ¬ buffSize ≤ n.length := Nat.not_le.mpr (hfits f n .inner)
      unfold walk innerTasks innerLookup
      simp only [moveEncnameToBuff_eq_none, hcold.find_none hdistinct hread henc, if_true]
      cases w.fstask f with
      | none => rfl
      | some t => simp only [if_neg hshort]
    | false =>
      have hstored := stored_of_plain henc n
      rw [looksAt, henc, Bool.false_or, Bool.and_eq_true, Bool.and_eq_true, hstored] at hlooks
      obtain ⟨⟨hmkdir, hrmdir⟩, hnext⟩ := hlooks
      rw [Bool.not_eq_true', mkdir, hstored] at hmkdir
      rw [Bool.not_eq_true', rmdir, hstored] at hrmdir
      obtain ⟨g, hrow, hbusy, hrest⟩ : ∃ g, w.folder f n = some g ∧
          w.busy g = true ∧ w.looksAt g inner name = true := by
        cases hrow : w.folder f n with
        | none => simp [hrow] at hnext
        | some g =>
          simp only [hrow, Bool.and_eq_true] at hnext
          exact ⟨g, rfl, hnext.1, hnext.2⟩
      have htasks : w.innerTasks f false n = none := by
        rcases @innerTasks_eq w f n (hfits f n .inner) false with htasks | ⟨htrue, -⟩
        · rw [htasks, show w.raw.mkdir f n = false from hmkdir,
            show w.raw.rmdir f n = false from hrmdir]
          rfl
        · cases htrue
      unfold walk
      rw [htasks]
      simp only
      rcases @innerLookup_spec w f n c wrlocked R hc hdistinct hread false with
        ⟨g', enc', c', hlookup, hrow', hbusy', -, hc', hkeeps⟩ | ⟨p, hlookup, hend⟩
      · rw [hlookup]
        obtain rfl : g = g' := Option.some.inj (hrow.symm.trans hrow')
        have hnext : enc' = w.encrypted g ∧ w.Cold R c' := by
          rcases hkeeps with ⟨i, hmem, -, hid, rfl, rfl⟩ | ⟨-, -, rfl, rfl⟩
          · exact ⟨by rw [(hcold _ i hmem).2, hid], hcold.touch wrlocked i⟩
          · exact ⟨rfl, hcold.insert hread henc rfl rfl⟩
        obtain ⟨rfl, hcold'⟩ := hnext
        exact ih hc' hcold' (fun f' n' h => hR f' n' (.next hrow h))
          (fun f' n' h => hfits f' n' (.next hrow h)) hrest
      · rw [hlookup]
        rcases hend with ⟨g', c', hrow', hbusy', -, rfl⟩ | ⟨hrow', rfl⟩ | ⟨hlock, rfl⟩ |
          ⟨htrue, rfl⟩
        · exact .inl ⟨c', rfl⟩
        · rw [hrow] at hrow'
          cases hrow'
        · exact .inr ⟨hlock, rfl⟩
        · cases htrue

/-! ## A cache that has lost the flags -/

/-- The entries for the folders along the names as they are, each as the lookup of a last component
leaves it. -/
def rows (w : World) : FolderId → List Name → List CacheEntry
  | _, [] => []
  | f, n :: inner =>
    match w.folder f n with
    | none => []
    | some g => ⟨w.hash f n, g, true, false⟩ :: rows w g inner

/-- A cache of these entries. -/
def flagless (l : List CacheEntry) : PathCache where
  entries i := l.getD i ⟨⟨0, 0, 0, 0⟩, 0, true, false⟩
  buckets b := (List.range l.length).filter fun i => ∃ e, l[i]? = some e ∧ e.hash.bucket = b
  lru := []

theorem mem_rows {e : CacheEntry} (he : e ∈ w.rows f inner) (name : Name) :
    ∃ f' n' g, w.raw.Reads f inner name f' n' ∧ w.folder f' n' = some g ∧
      e = ⟨w.hash f' n', g, true, false⟩ := by
  induction inner generalizing f with
  | nil => cases he
  | cons n inner ih =>
    unfold rows at he
    cases hrow : w.folder f n with
    | none =>
      rw [hrow] at he
      cases he
    | some g =>
      simp only [hrow] at he
      rcases List.mem_cons.mp he with rfl | he
      · exact ⟨f, n, g, .inner, hrow, rfl⟩
      · obtain ⟨f', n', g', hread, hrow', rfl⟩ := ih he
        exact ⟨f', n', g', .next hrow hread, hrow', rfl⟩

theorem mem_flagless {l : List CacheEntry} {b : Nat} (hi : i ∈ (flagless l).buckets b) :
    (flagless l).entries i ∈ l := by
  obtain ⟨hlt, -⟩ := List.mem_filter.mp hi
  have hlt := List.mem_range.mp hlt
  simp [flagless, List.getD_eq_getElem?_getD, List.getElem?_eq_getElem hlt]

theorem find_flagless {l : List CacheEntry} (he : e ∈ l) (hfolder : ∀ e ∈ l, e.folder = true) :
    ∃ i, (flagless l).find e.hash (·.folder) = some i := by
  obtain ⟨i, hi, rfl⟩ := List.mem_iff_getElem.mp he
  rw [← Option.isSome_iff_exists, PathCache.find, List.find?_isSome]
  refine ⟨i, ?_, ?_⟩
  · exact List.mem_filter.mpr ⟨List.mem_range.mpr hi,
      decide_eq_true ⟨_, List.getElem?_eq_getElem hi, rfl⟩⟩
  · simp [flagless, List.getD_eq_getElem?_getD, List.getElem?_eq_getElem hi, hfolder _ he]

theorem flagless_cacheOk (hdistinct : w.Distinct R)
    (hR : ∀ f' n', w.raw.Reads f inner name f' n' → R f' n') :
    w.CacheOk R (flagless (w.rows f inner)) := by
  intro b i hi f₁ n₁ hR₁ hhash
  obtain ⟨f', n', g, hread, hrow, he⟩ := mem_rows (mem_flagless hi) name
  rw [he] at hhash ⊢
  obtain ⟨rfl, rfl⟩ := hdistinct f' n' f₁ n₁ (hR _ _ hread) hR₁ hhash
  exact ⟨hrow, fun htrue => absurd htrue Bool.false_ne_true⟩

/-- Without flags all names are looked up as they are. -/
theorem walk_flagless (h : w.Marked) (hdistinct : w.Distinct R) (hc : w.CacheOk R c)
    (hflags : ∀ b i, i ∈ c.buckets b → (c.entries i).encrypted = false)
    (hfind : ∀ e ∈ w.rows f inner, ∃ i, c.find e.hash (·.folder) = some i)
    (hR : ∀ f' n', w.raw.Reads f inner name f' n' → R f' n')
    (hfits : ∀ f' n', w.raw.Reads f inner name f' n' → n'.length < buffSize) :
    w.Answers R wrlocked (w.raw.statusAt f inner name) False
      (w.walk wrlocked f false c inner name) := by
  induction inner generalizing f c with
  | nil =>
    exact (last_answers h hc hdistinct (hR _ _ .last) false).mono fun hno =>
      absurd hno.1 Bool.false_ne_true
  | cons n inner ih =>
    unfold walk
    rcases @innerTasks_eq w f n (hfits f n .inner) false with htasks | ⟨htrue, -⟩
    · rw [htasks]
      cases hmkdir : w.raw.mkdir f n with
      | true => exact ⟨.inl (by rw [statusAt, if_pos hmkdir]; rfl), hc⟩
      | false =>
        cases hrmdir : w.raw.rmdir f n with
        | true =>
          exact ⟨.inl (by rw [statusAt, if_neg (by simp [hmkdir]), if_pos hrmdir]), hc⟩
        | false =>
          simp only [Bool.false_eq_true, if_false]
          rcases @innerLookup_spec w f n c wrlocked R hc hdistinct (hR f n .inner) false with
            ⟨g, enc', c', hlookup, hrow, hbusy, -, hc', hkeeps⟩ | ⟨p, hlookup, hend⟩
          · have hrows : w.rows f (n :: inner) =
                ⟨w.hash f n, g, true, false⟩ :: w.rows g inner := by
              rw [rows]
              simp only [hrow]
            rw [hlookup, statusAt_some hmkdir hrmdir (show w.raw.folder f _ = some g from hrow),
              if_pos (show w.raw.busy g = true from hbusy)]
            rcases hkeeps with ⟨i, hmem, -, -, rfl, rfl⟩ | ⟨hnone, -⟩
            · rw [hflags _ i hmem]
              refine ih hc' ?_ ?_ (fun f' n' hread => hR f' n' (.next hrow hread))
                fun f' n' hread => hfits f' n' (.next hrow hread)
              · intro b j hj
                rw [touch_buckets] at hj
                rw [touch_entries]
                exact hflags b j hj
              · intro e he
                obtain ⟨j, hj⟩ := hfind e (by rw [hrows]; exact List.mem_cons_of_mem _ he)
                refine ⟨j, ?_⟩
                rwa [PathCache.find, touch_buckets, touch_entries]
            · obtain ⟨j, hj⟩ := hfind _ (by rw [hrows]; exact List.mem_cons_self ..)
              rw [hnone] at hj
              cases hj
          · rw [hlookup]
            rcases hend with ⟨g, c', hrow, hbusy, hc', rfl⟩ | ⟨hrow, rfl⟩ | ⟨hlock, rfl⟩ |
              ⟨htrue, -⟩
            · refine ⟨.inl ?_, hc'⟩
              rw [statusAt_some hmkdir hrmdir (show w.raw.folder f _ = some g from hrow),
                show w.raw.busy g = false from hbusy]
              rfl
            · exact ⟨.inl (statusAt_none hmkdir hrmdir hrow).symm, hc⟩
            · exact hlock
            · cases htrue
    · cases htrue

end World

end PcloudClient.Ppathstatus.DriveStatus
