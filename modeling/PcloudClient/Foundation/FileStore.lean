/-
  Foundation/FileStore.lean --- a directory of files and the operations that change it.

  `ι` is the type of file names.  Operations on a file that does not exist change
  nothing, except creation.
-/
import Mathlib.Logic.Function.Basic
import PcloudClient.Foundation.File

set_option autoImplicit false

namespace PcloudClient.FileStore

/-- The files that exist, with their contents. -/
abbrev Store (ι : Type) := ι → Option Bytes

/-- One operation that reaches the disk. -/
inductive FileOp (ι : Type) where
  | pwrite (file : ι) (data : Bytes) (off : Nat)
  | truncate (file : ι) (size : Nat)
  /-- open for writing, create when missing, cut to no bytes -/
  | create (file : ι)
  | rename (old new : ι)
  | delete (file : ι)
  deriving DecidableEq, Repr

/-! ## Crashes -/

section Crashes

variable {ι : Type}

/-- `Reaches ops done`: of the operations `ops`, `done` reach the disk before a crash, which may
tear a write. -/
inductive Reaches : List (FileOp ι) → List (FileOp ι) → Prop
  | stop (ops : List (FileOp ι)) : Reaches ops []
  | torn (f : ι) (b : Bytes) (off p : Nat) (ops : List (FileOp ι)) :
    Reaches (.pwrite f b off :: ops) [.pwrite f (b.take p) off]
  | step (op : FileOp ι) {ops done : List (FileOp ι)} (h : Reaches ops done) :
    Reaches (op :: ops) (op :: done)

namespace Reaches

variable {ops done : List (FileOp ι)}

theorem all (ops : List (FileOp ι)) : Reaches ops ops := by
  induction ops with
  | nil => exact .stop []
  | cons op ops ih => exact .step op ih

theorem forall_mem (h : Reaches ops done) {P : FileOp ι → Prop} (hops : ∀ op ∈ ops, P op)
    (htake : ∀ {f b off}, P (.pwrite f b off) → ∀ p, P (.pwrite f (b.take p) off)) :
    ∀ op ∈ done, P op := by
  induction h with
  | stop => simp
  | torn f b off p ops => simpa using htake (hops _ (List.mem_cons_self ..)) p
  | step op h ih =>
    rw [List.forall_mem_cons] at hops ⊢
    exact ⟨hops.1, ih hops.2⟩

/-- A deletion at the end takes place or it does not. -/
theorem of_delete {f : ι} (h : Reaches (ops ++ [.delete f]) done) :
    Reaches ops done ∨ done = ops ++ [.delete f] := by
  induction ops generalizing done with
  | nil =>
    cases h with
    | stop => exact Or.inl (.stop [])
    | step op h =>
      cases h
      exact Or.inr rfl
  | cons op ops ih =>
    cases h with
    | stop => exact Or.inl (.stop _)
    | torn f b off p => exact Or.inl (.torn f b off p ops)
    | step op h => exact (ih h).imp (.step op) (congrArg _)

end Reaches

end Crashes

variable {ι : Type} [DecidableEq ι]

namespace FileOp

/-- The store after the operation. -/
def apply : FileOp ι → Store ι → Store ι
  | pwrite f b off, s => Function.update s f ((s f).map fun c => File.pwrite c b off)
  | truncate f size, s => Function.update s f ((s f).map fun c => File.truncate c size)
  | create f, s => Function.update s f (some [])
  | rename old new, s =>
    match s old with
    | some c => Function.update (Function.update s new (some c)) old none
    | none => s
  | delete f, s => Function.update s f none

/-- The files an operation may change. -/
def touches : FileOp ι → List ι
  | pwrite f _ _ | truncate f _ | create f | delete f => [f]
  | rename old new => [old, new]

theorem apply_other {op : FileOp ι} {f : ι} (h : f ∉ op.touches) (s : Store ι) :
    op.apply s f = s f := by
  cases op with
  | rename old new =>
    simp only [touches, List.mem_cons, List.not_mem_nil, or_false, not_or] at h
    cases hold : s old with
    | some c =>
      simp only [apply, hold]
      rw [Function.update_of_ne h.1, Function.update_of_ne h.2]
    | none => simp only [apply, hold]
  | pwrite g b off =>
    simp only [touches, List.mem_singleton] at h
    exact Function.update_of_ne h _ _
  | truncate g size =>
    simp only [touches, List.mem_singleton] at h
    exact Function.update_of_ne h _ _
  | create g =>
    simp only [touches, List.mem_singleton] at h
    exact Function.update_of_ne h _ _
  | delete g =>
    simp only [touches, List.mem_singleton] at h
    exact Function.update_of_ne h _ _

end FileOp

/-- The store after a list of operations. -/
def run (ops : List (FileOp ι)) (s : Store ι) : Store ι := ops.foldl (fun s op => op.apply s) s

@[simp] theorem run_cons (op : FileOp ι) (ops : List (FileOp ι)) (s : Store ι) :
    run (op :: ops) s = run ops (op.apply s) := rfl

theorem run_append (ops ops' : List (FileOp ι)) (s : Store ι) :
    run (ops ++ ops') s = run ops' (run ops s) :=
  List.foldl_append ..

theorem run_other {ops : List (FileOp ι)} {f : ι} (h : ∀ op ∈ ops, f ∉ op.touches)
    (s : Store ι) : run ops s f = s f := by
  induction ops generalizing s with
  | nil => rfl
  | cons op ops ih =>
    rw [run_cons, ih (fun o ho => h o (List.mem_cons_of_mem _ ho)),
      FileOp.apply_other (h op (List.mem_cons_self ..))]

/-! ## Writes and truncations -/

namespace FileOp

/-- The operation changes contents only. -/
def Edits : FileOp ι → Prop
  | pwrite .. | truncate .. => True
  | _ => False

/-- What a write or a truncation makes of the content of `f`. -/
def on (f : ι) : FileOp ι → Bytes → Bytes
  | pwrite g b off => if g = f then fun c => File.pwrite c b off else id
  | truncate g size => if g = f then fun c => File.truncate c size else id
  | _ => id

/-- `f` keeps its size of `n` bytes. -/
def Keeps (f : ι) (n : Nat) : FileOp ι → Prop
  | pwrite g b off => g = f → off + b.length ≤ n
  | truncate g size => g = f → size = n
  | _ => True

/-- The byte written at `i` of `f`. -/
def byte? (f : ι) (i : Nat) : FileOp ι → Option UInt8
  | pwrite g b off => if g = f ∧ off ≤ i then b[i - off]? else none
  | _ => none

variable {op : FileOp ι} {f : ι} {n : Nat} {d : Bytes}

theorem apply_edits (h : op.Edits) (s : Store ι) : op.apply s f = (s f).map (op.on f) := by
  cases op with
  | pwrite g b off | truncate g size =>
    by_cases hg : g = f
    · subst hg
      simp [apply, on]
    · simp [apply, on, hg, Function.update_of_ne (Ne.symm hg)]
  | _ => exact h.elim

theorem on_keeps (h : op.Keeps f n) (hd : d.length = n) :
    (op.on f d).length = n ∧ ∀ i, (op.on f d)[i]? = (op.byte? f i).or d[i]? := by
  cases op with
  | pwrite g b off =>
    by_cases hg : g = f
    · have hle := h hg
      rw [on, if_pos hg]
      refine ⟨(File.length_pwrite_of_le (by omega)).trans hd, fun i => ?_⟩
      rcases eq_or_ne b [] with rfl | hb
      · simp [File.pwrite, byte?]
      rw [File.getElem?_pwrite hb, byte?]
      grind
    · simp [on, byte?, hg, hd]
  | truncate g size =>
    by_cases hg : g = f
    · subst hd
      simp [on, byte?, hg, h hg, File.truncate_self]
    · simp [on, byte?, hg, hd]
  | _ => exact ⟨hd, fun i => rfl⟩

end FileOp

/-- The content of `f` after writes and truncations. -/
def edit (f : ι) (ops : List (FileOp ι)) (c : Bytes) : Bytes := ops.foldl (fun c op => op.on f c) c

theorem run_edits {ops : List (FileOp ι)} (h : ∀ op ∈ ops, op.Edits) (s : Store ι) (f : ι) :
    run ops s f = (s f).map (edit f ops) := by
  induction ops generalizing s with
  | nil => exact Option.map_id'.symm
  | cons op ops ih =>
    rw [run_cons, ih fun o ho => h o (List.mem_cons_of_mem _ ho),
      FileOp.apply_edits (h op (List.mem_cons_self ..)), Option.map_map]
    rfl

/-- The byte written last at `i` of `f`. -/
def lastByte? (f : ι) (i : Nat) : List (FileOp ι) → Option UInt8
  | [] => none
  | op :: ops => (lastByte? f i ops).or (op.byte? f i)

variable {f : ι} {n : Nat} {ops done : List (FileOp ι)} {d : Bytes}

/-- Every byte is the one written last, or the old one. -/
theorem edit_keeps (h : ∀ op ∈ ops, op.Keeps f n) (hd : d.length = n) :
    (edit f ops d).length = n ∧ ∀ i, (edit f ops d)[i]? = (lastByte? f i ops).or d[i]? := by
  induction ops generalizing d with
  | nil => exact ⟨hd, fun i => rfl⟩
  | cons op ops ih =>
    obtain ⟨hlen, hbyte⟩ := FileOp.on_keeps (h op (List.mem_cons_self ..)) hd
    obtain ⟨hlen', hbyte'⟩ := ih (fun o ho => h o (List.mem_cons_of_mem _ ho)) hlen
    refine ⟨hlen', fun i => ?_⟩
    rw [lastByte?, Option.or_assoc, ← hbyte]
    exact hbyte' i

namespace Reaches

omit [DecidableEq ι] in
theorem keeps (h : Reaches ops done) (hops : ∀ op ∈ ops, op.Keeps f n) :
    ∀ op ∈ done, op.Keeps f n :=
  h.forall_mem hops fun {_ b off} hop p hg =>
    (Nat.add_le_add_left (List.length_take_le' p b) off).trans (hop hg)

theorem lastByte_none (h : Reaches ops done) {i : Nat} (hops : lastByte? f i ops = none) :
    lastByte? f i done = none := by
  induction h with
  | stop => rfl
  | torn g b off p ops =>
    rw [lastByte?, Option.or_eq_none_iff] at hops
    grind [lastByte?, FileOp.byte?]
  | step op h ih =>
    rw [lastByte?, Option.or_eq_none_iff] at hops ⊢
    exact ⟨ih hops.1, hops.2⟩

/-- Operations that begin with the size can be taken up again from the start. -/
theorem edit_again (h : Reaches (.truncate f n :: ops) done) (hops : ∀ op ∈ ops, op.Keeps f n)
    (c : Bytes) :
    edit f (.truncate f n :: ops) (edit f done c) = edit f (.truncate f n :: ops) c := by
  cases h with
  | stop => rfl
  | @step _ _ done h =>
    obtain ⟨hlen, hdone⟩ := edit_keeps (h.keeps hops) (File.length_truncate c n)
    have hself := File.truncate_self (edit f done (File.truncate c n))
    rw [hlen] at hself
    simp only [edit, List.foldl_cons, FileOp.on, if_true] at hself ⊢
    rw [hself]
    refine List.ext_getElem? fun i => ?_
    refine ((edit_keeps hops hlen).2 i).trans
      (.trans ?_ ((edit_keeps hops (File.length_truncate c n)).2 i).symm)
    rw [hdone]
    cases hlast : lastByte? f i ops with
    | none => rw [h.lastByte_none hlast, Option.none_or]
    | some b => rfl

end Reaches

end PcloudClient.FileStore
