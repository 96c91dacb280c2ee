/-
  Pfs/OpenfilesProofs.lean --- the tree of open files is in the order of the ids, and a search
  finds what is there, as long as no difference on the way wraps around.
-/
import PcloudClient.Pfs.Openfiles

set_option autoImplicit false

namespace PcloudClient.Pfs.Openfiles

open Runs

/-! ## The way of a search -/

/-- The id as the signed number it is. -/
def key (fl : Openfile) : Int := fl.fileid.toInt

/-- No difference between `fileid` and the ids on the way of its search wraps around. -/
def Straight (fileid : Fileid) (through : Bool) : Ptree.Tree Openfile → Prop
  | .nil => True
  | .node l fl r _ =>
    fileid.ssubOverflow fl.fileid = false ∧
      if fileid.toInt < key fl then Straight fileid through l
      else if key fl < fileid.toInt ∨ through then Straight fileid through r
      else True

instance Straight.instDecidable (fileid : Fileid) (through : Bool) :
    ∀ t, Decidable (Straight fileid through t)
  | .nil => isTrue trivial
  | .node l fl r _ =>
    have := instDecidable fileid through l
    have := instDecidable fileid through r
    inferInstanceAs (Decidable (fileid.ssubOverflow fl.fileid = false ∧
      if fileid.toInt < key fl then Straight fileid through l
      else if key fl < fileid.toInt ∨ through then Straight fileid through r
      else True))

theorem diff_eq_zero {fileid : Fileid} {fl : Openfile} (h : diff fileid fl = 0) :
    fl.fileid = fileid := by
  have hzero : fileid - fl.fileid = 0#64 := by
    apply BitVec.eq_of_toInt_eq
    rw [BitVec.toInt_zero]
    exact h
  have hadd := congrArg (· + fl.fileid) hzero
  simp only [BitVec.sub_add_cancel, BitVec.zero_add] at hadd
  exact hadd.symm

theorem diff_eq_sub {fileid : Fileid} {fl : Openfile}
    (h : fileid.ssubOverflow fl.fileid = false) : diff fileid fl = fileid.toInt - key fl :=
  BitVec.toInt_sub_of_not_ssubOverflow (by rw [h]; exact Bool.false_ne_true)

theorem Straight.guides {fileid : Fileid} {through : Bool} {t : Ptree.Tree Openfile}
    (h : Straight fileid through t) :
    Ptree.Tree.Guides (diff fileid) key fileid.toInt through t := by
  induction t with
  | nil => trivial
  | node l fl r _ ihl ihr =>
    obtain ⟨hfit, hrest⟩ := h
    have hdiff := diff_eq_sub hfit
    refine ⟨by rw [hdiff]; omega, by rw [hdiff]; omega, ?_⟩
    split
    · next hlt =>
      rw [if_pos hlt] at hrest
      exact ihl hrest
    · next hge =>
      rw [if_neg hge] at hrest
      split
      · next hgo =>
        rw [if_pos hgo] at hrest
        exact ihr hrest
      · trivial

/-! ## The order -/

/-- The tree is in the order of the ids as signed numbers. -/
def Ordered (t : Ptree.Tree Openfile) : Prop := Ptree.Tree.Sorted key t

/-- A search that finds a node finds one with the id, whatever the order. -/
theorem find_some {t : Ptree.Tree Openfile} {fileid : Fileid} {i : Nat}
    (h : find t fileid = some i) :
    ∃ a fl b, t.toList = a ++ fl :: b ∧ a.length = i ∧ fl.fileid = fileid := by
  obtain ⟨a, fl, b, hsplit, hlen, hzero⟩ := Ptree.Tree.searchPos_some h
  exact ⟨a, fl, b, hsplit, hlen, diff_eq_zero hzero⟩

theorem find_none_iff {t : Ptree.Tree Openfile} (h : Ordered t) {fileid : Fileid}
    (hs : Straight fileid false t) :
    find t fileid = none ↔ ∀ fl ∈ t.toList, fl.fileid ≠ fileid := by
  rw [find, Ptree.Tree.searchPos_none_iff_key h hs.guides]
  refine forall₂_congr fun fl _ => not_congr ⟨fun heq => BitVec.eq_of_toInt_eq heq, fun heq => ?_⟩
  rw [key, heq]

theorem placeOf_some {t : Ptree.Tree Openfile} {of i : Nat} (h : placeOf t of = some i) :
    ∃ a fl b, t.toList = a ++ fl :: b ∧ a.length = i := by
  obtain ⟨hlt, -⟩ := List.findIdx?_eq_some_iff_getElem.mp h
  refine ⟨t.toList.take i, t.toList[i], t.toList.drop (i + 1), ?_, ?_⟩
  · rw [← List.drop_eq_getElem_cons hlt, List.take_append_drop]
  · rw [List.length_take]
    omega

theorem getElem?_split {a b : List Openfile} {fl : Openfile} :
    (a ++ fl :: b)[a.length]? = some fl := by
  rw [List.getElem?_append_right (Nat.le_refl _), Nat.sub_self]
  rfl

/-- A change of something else than the id. -/
theorem Ordered.modify {t : Ptree.Tree Openfile} (h : Ordered t) {f : Openfile → Openfile}
    (hf : ∀ fl, (f fl).fileid = fl.fileid) {a b : List Openfile} {fl : Openfile}
    (hsplit : t.toList = a ++ fl :: b) : Ordered (t.modifyAt f a.length) :=
  Ptree.Tree.Sorted.modifyAt h hsplit (by rw [key, key, hf])

/-- A node taken out and put back under another id. -/
theorem Ordered.rekey {t : Ptree.Tree Openfile} (h : Ordered t) {fl' : Openfile}
    {fileid : Fileid} {through : Bool} (hid : fl'.fileid = fileid) {a b : List Openfile}
    {fl : Openfile} (hsplit : t.toList = a ++ fl :: b)
    (hs : Straight fileid through (t.delAt a.length)) :
    Ordered ((t.delAt a.length).addAt fl' ((t.delAt a.length).place (diff fileid) through)) := by
  have hkey : key fl' = fileid.toInt := by rw [key, hid]
  exact (Ptree.Tree.Sorted.addAt_place (Ptree.Tree.Sorted.delAt h hsplit)
    (hkey ▸ hs.guides)).1

/-! ## The functions -/

/-- What a call must meet: no difference on the way of its search or of its insertion wraps
around, and a pointer is one to an open file. -/
def StraightOp (s : State) : Op → Prop
  | .createFile fileid _ _ _ _ _ _ _ => Straight fileid false s.openfiles
  | .creatFake _ _ => Straight s.fakeFileid false s.openfiles
  | .updateOpenfile taskid _ newfileid _ _ _ =>
    Straight (-taskid) false s.openfiles ∧
      ∀ i, find s.openfiles (-taskid) = some i → Straight newfileid false (s.openfiles.delAt i)
  | .updateOpenfileFileid of fileid =>
    ∃ i, placeOf s.openfiles of = some i ∧ Straight fileid true (s.openfiles.delAt i)
  | .renameOpenfile fileid _ _ => Straight fileid false s.openfiles
  | .markOpenfileDeleted taskid => Straight (-taskid) false s.openfiles
  | .getFileWriteid taskid => Straight (-taskid) false s.openfiles
  | .incOfRefcnt of => ∃ i, placeOf s.openfiles of = some i
  | .decOfRefcnt of => ∃ i, placeOf s.openfiles of = some i

section

variable {s : State} (h : Ordered s.openfiles)

include h

theorem createFile_ordered {fileid : Fileid} (hs : Straight fileid false s.openfiles)
    (remotefileid : Fileid) (size hash writeid : Nat) (folder : Int) (name : Bytes)
    (encrypted : Bool) :
    Ordered (s.createFile fileid remotefileid size hash writeid folder name
      encrypted).2.openfiles := by
  unfold State.createFile
  cases hfind : find s.openfiles fileid with
  | some i =>
    obtain ⟨a, fl, b, hsplit, rfl, -⟩ := find_some hfind
    refine h.modify ?_ hsplit
    exact fun _ => rfl
  | none =>
    exact (Ptree.Tree.Sorted.addAt_place h
      (show Ptree.Tree.Guides (diff fileid) key (key (s.newOpenfile fileid remotefileid size hash
        writeid folder name encrypted)) false s.openfiles from hs.guides)).1

theorem creatFake_ordered (hs : Straight s.fakeFileid false s.openfiles) (folder : Int)
    (name : Bytes) : Ordered (s.creatFake folder name).2.openfiles := by
  have hcreate := createFile_ordered (s := { s with fakeFileid := s.fakeFileid + 1 }) h hs 0 0 0 0
    folder name false
  simp only [State.creatFake]
  split
  · next i hplace =>
    obtain ⟨a, fl, b, hsplit, rfl⟩ := placeOf_some hplace
    refine hcreate.modify ?_ hsplit
    exact fun _ => rfl
  · exact hcreate

theorem updateOpenfile_ordered {taskid newfileid : Fileid}
    (hs : ∀ i, find s.openfiles (-taskid) = some i →
      Straight newfileid false (s.openfiles.delAt i)) (writeid hash size : Nat) (ctime : Int) :
    Ordered (s.updateOpenfile taskid writeid newfileid hash size ctime).2.openfiles := by
  unfold State.updateOpenfile
  cases hfind : find s.openfiles (-taskid) with
  | some i =>
    have hstraight := hs i hfind
    obtain ⟨a, fl, b, hsplit, rfl, -⟩ := find_some hfind
    simp only [hsplit, getElem?_split]
    split_ifs
    · exact h.rekey rfl hsplit hstraight
    · exact h
    · exact h
  | none => exact h

theorem updateOpenfileFileid_ordered {of i : Nat} {fileid : Fileid}
    (hplace : placeOf s.openfiles of = some i)
    (hs : Straight fileid true (s.openfiles.delAt i)) :
    ∃ s', s.updateOpenfileFileid of fileid = .ok s' ∧ Ordered s'.openfiles := by
  unfold State.updateOpenfileFileid
  rw [hplace]
  obtain ⟨a, fl, b, hsplit, rfl⟩ := placeOf_some hplace
  simp only [hsplit, getElem?_split]
  exact ⟨_, rfl, h.rekey rfl hsplit hs⟩

theorem renameOpenfile_ordered (fileid : Fileid) (folderid : Int) (name : Bytes) :
    Ordered (s.renameOpenfile fileid folderid name).2.openfiles := by
  unfold State.renameOpenfile
  cases hfind : find s.openfiles fileid with
  | some i =>
    obtain ⟨a, fl, b, hsplit, rfl, -⟩ := find_some hfind
    refine h.modify ?_ hsplit
    exact fun _ => rfl
  | none => exact h

theorem markOpenfileDeleted_ordered (taskid : Fileid) :
    Ordered (s.markOpenfileDeleted taskid).openfiles := by
  unfold State.markOpenfileDeleted
  cases hfind : find s.openfiles (-taskid) with
  | some i =>
    obtain ⟨a, fl, b, hsplit, rfl, -⟩ := find_some hfind
    refine h.modify ?_ hsplit
    exact fun _ => rfl
  | none => exact h

theorem incOfRefcnt_ordered {of i : Nat} (hplace : placeOf s.openfiles of = some i) :
    ∃ s', s.incOfRefcnt of = .ok s' ∧ Ordered s'.openfiles := by
  unfold State.incOfRefcnt
  rw [hplace]
  obtain ⟨a, fl, b, hsplit, rfl⟩ := placeOf_some hplace
  refine ⟨_, rfl, h.modify ?_ hsplit⟩
  exact fun _ => rfl

theorem decOfRefcnt_ordered {of i : Nat} (hplace : placeOf s.openfiles of = some i) :
    ∃ s', s.decOfRefcnt of = .ok s' ∧ Ordered s'.openfiles := by
  unfold State.decOfRefcnt
  rw [hplace]
  obtain ⟨a, fl, b, hsplit, rfl⟩ := placeOf_some hplace
  dsimp only
  split
  · exact ⟨_, rfl, Ptree.Tree.Sorted.delAt h hsplit⟩
  · refine ⟨_, rfl, h.modify ?_ hsplit⟩
    exact fun _ => rfl

theorem step_ordered {op : Op} (hs : StraightOp s op) :
    ∃ out s', step s op = .ok (out, s') ∧ Ordered s'.openfiles := by
  cases op with
  | createFile fileid remotefileid size hash writeid folder name encrypted =>
    exact ⟨_, _, rfl, createFile_ordered h hs _ _ _ _ _ _ _⟩
  | creatFake folder name => exact ⟨_, _, rfl, creatFake_ordered h hs _ _⟩
  | updateOpenfile taskid writeid newfileid hash size ctime =>
    exact ⟨_, _, rfl, updateOpenfile_ordered h hs.2 _ _ _ _⟩
  | updateOpenfileFileid of fileid =>
    obtain ⟨i, hplace, hstraight⟩ := hs
    obtain ⟨s', hs', hordered⟩ := updateOpenfileFileid_ordered h hplace hstraight
    exact ⟨.void, s', by rw [step, hs']; rfl, hordered⟩
  | renameOpenfile fileid folderid name =>
    exact ⟨_, _, rfl, renameOpenfile_ordered h _ _ _⟩
  | markOpenfileDeleted taskid => exact ⟨_, _, rfl, markOpenfileDeleted_ordered h _⟩
  | getFileWriteid taskid => exact ⟨_, _, rfl, h⟩
  | incOfRefcnt of =>
    obtain ⟨i, hplace⟩ := hs
    obtain ⟨s', hs', hordered⟩ := incOfRefcnt_ordered h hplace
    exact ⟨.void, s', by rw [step, hs']; rfl, hordered⟩
  | decOfRefcnt of =>
    obtain ⟨i, hplace⟩ := hs
    obtain ⟨s', hs', hordered⟩ := decOfRefcnt_ordered h hplace
    exact ⟨.void, s', by rw [step, hs']; rfl, hordered⟩

end

/-! ## Runs -/

theorem ordered_init (fstask : Nat → Option Fstask) (fstaskfileid : Nat → Option Nat) :
    Ordered (State.init fstask fstaskfileid).openfiles :=
  List.Pairwise.nil

/-- The calls return, the tree is in the order of the ids, and a search finds a file with the id
exactly where one is open. -/
def TableOk (fstask : Nat → Option Fstask) (fstaskfileid : Nat → Option Nat)
    (ops : List Op) : Prop :=
  ∃ outs s, run step (State.init fstask fstaskfileid) ops = .ok (outs, s) ∧
    Ordered s.openfiles ∧
    ∀ fileid, Straight fileid false s.openfiles →
      ((∃ i, find s.openfiles fileid = some i) ↔ ∃ fl ∈ s.openfiles.toList, fl.fileid = fileid) ∧
      ∀ i, find s.openfiles fileid = some i →
        (s.openfiles.toList[i]?).map (·.fileid) = some fileid

theorem openfiles_tableOk (fstask : Nat → Option Fstask) (fstaskfileid : Nat → Option Nat)
    (ops : List Op) (h : MeetsAll step StraightOp (State.init fstask fstaskfileid) ops) :
    TableOk fstask fstaskfileid ops := by
  obtain ⟨outs, s, hrun, hordered⟩ := run_keeps (fun _ (s : State) => Ordered s.openfiles)
    (fun _ _ _ hinv hs => step_ordered hinv hs)
    [] (ordered_init fstask fstaskfileid) h
  refine ⟨outs, s, hrun, hordered, fun fileid hs => ⟨?_, fun i hfind => ?_⟩⟩
  · rw [← Option.ne_none_iff_exists', Ne, find_none_iff hordered hs]
    push Not
    rfl
  · obtain ⟨a, fl, b, hsplit, rfl, hid⟩ := find_some hfind
    rw [hsplit, getElem?_split, Option.map_some, hid]

/-- A file of the server and a new one. -/
theorem openfiles_tableOk_two : TableOk (fun _ => none) (fun _ => none)
    [.createFile 5 5 0 0 0 0 [] false, .createFile (-1) 0 0 0 0 0 [] false] := by
  refine openfiles_tableOk _ _ _ (.cons trivial fun o s hstep => .cons ?_ fun _ _ _ => trivial)
  obtain ⟨-, rfl⟩ := Prod.mk.inj (Except.ok.inj hstep)
  show Straight (-1) false _
  decide

/-- A file of the server, a fake file and a new one are opened, and the first is closed: the new
one is open and no search finds it. -/
theorem not_tableOk_fake : ¬ TableOk (fun _ => none) (fun _ => none)
    [.createFile 5 5 0 0 0 0 [] false, .creatFake 0 [], .createFile (-1) 0 0 0 0 0 [] false,
      .decOfRefcnt 0] := by
  rintro ⟨outs, s, hrun, -, hfind⟩
  have hs : (run step (State.init (fun _ => none) fun _ => none)
      [.createFile 5 5 0 0 0 0 [] false, .creatFake 0 [], .createFile (-1) 0 0 0 0 0 [] false,
        .decOfRefcnt 0]).map (fun r => (decide (Straight (-1) false r.2.openfiles),
          find r.2.openfiles (-1), r.2.openfiles.toList.any fun fl => fl.fileid = -1)) =
      .ok (true, none, true) := by decide
  rw [hrun] at hs
  have hs := Except.ok.inj hs
  simp only [Prod.mk.injEq] at hs
  obtain ⟨hstraight, hnone, hany⟩ := hs
  obtain ⟨fl, hmem, hid⟩ := List.any_eq_true.mp hany
  obtain ⟨i, hi⟩ := (hfind (-1) (of_decide_eq_true hstraight)).1.mpr
    ⟨fl, hmem, of_decide_eq_true hid⟩
  rw [hnone] at hi
  exact nomatch hi

end PcloudClient.Pfs.Openfiles
