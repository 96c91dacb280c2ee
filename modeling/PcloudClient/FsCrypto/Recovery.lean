/-
  FsCrypto/Recovery.lean --- a closed log survives any number of crashes.

  From the moment the log is closed its operations are applied in full, by the client or by a
  start after it; before that moment none of them is.  What is written reaches the disk in order.
-/
import Mathlib.Logic.Relation
import PcloudClient.FsCrypto.LogRuns

set_option autoImplicit false

namespace PcloudClient.FsCrypto

open PcloudClient.FileStore

/-- One of the two names of a log. -/
abbrev IsLog (name : CacheFile) : Prop := name = .log ∨ name = .finalizedLog

variable {env : Env} {ops done : List (FileOp CacheFile)} {n : Nat} {ifd : Bool}
  {s s' goal : Store CacheFile} {name f : CacheFile}

/-! ## What applying a log does -/

/-- What the application may do when the data file is to have `n` bytes. -/
def LogOp (n : Nat) : FileOp CacheFile → Prop
  | .pwrite .data b off => off + b.length ≤ n
  | .truncate .data size => size = n
  | .pwrite .index _ _ | .truncate .index _ => True
  | _ => False

theorem LogOp.spec {op : FileOp CacheFile} (h : LogOp n op) :
    op.Edits ∧ op.Keeps .data n ∧ ∀ name, IsLog name → name ∉ op.touches := by
  cases op with
  | pwrite g | truncate g =>
    cases g <;> simp_all [LogOp, FileOp.Edits, FileOp.Keeps, FileOp.touches]
  | _ => exact h.elim

theorem logOp_processRecords {lfd : Bytes} {ifd : Bool} {off ioff : Nat}
    {records : List (Nat × Nat)} {a : Applied}
    (h : processRecords lfd n ifd off records ioff = .ok a) : ∀ op ∈ a.1, LogOp n op := by
  fun_induction processRecords lfd n ifd off records ioff generalizing a with
  | case1 =>
    obtain rfl := Except.ok.inj h
    intro op hop
    rcases List.mem_append.mp hop with hop | hop
    · split at hop
      · exact absurd hop List.not_mem_nil
      · rw [List.mem_singleton.mp hop]
        trivial
    · rw [List.mem_singleton.mp hop]
      rfl
  | case2 | case5 =>
    obtain rfl := Except.ok.inj h
    simp
  | case3 =>
    rename_i ih
    obtain ⟨-, -, h⟩ := bind_eq_ok h
    obtain ⟨-, -, h⟩ := bind_eq_ok h
    split at h
    · exact ih h
    · next hfits =>
      simp only at h
      split at h
      · obtain rfl := Except.ok.inj h
        simp
      · next hlen =>
        obtain ⟨rest, hrest, h⟩ := bind_eq_ok h
        obtain rfl := Except.ok.inj h
        rw [not_ne_iff] at hlen
        exact List.forall_mem_cons.mpr ⟨by rw [LogOp]; omega, ih hrest⟩
  | case4 =>
    rename_i ih ih'
    obtain ⟨-, -, h⟩ := bind_eq_ok h
    simp only at h
    split at h
    · obtain ⟨rest, hrest, h⟩ := bind_eq_ok h
      obtain rfl := Except.ok.inj h
      exact List.forall_mem_cons.mpr ⟨trivial, ih hrest⟩
    · exact ih' h

theorem LogOp.reaches (hdone : Reaches ops done) (h : ∀ op ∈ ops, LogOp n op) :
    ∀ op ∈ done, LogOp n op := by
  refine hdone.forall_mem h fun {g b off} hop p => ?_
  have hlen := Nat.add_le_add_left (List.length_take_le' p b) off
  cases g with
  | data => exact hlen.trans hop
  | _ => exact hop

theorem run_logOps (h : ∀ op ∈ ops, LogOp n op) (s : Store CacheFile) (f : CacheFile) :
    run ops s f = (s f).map (edit f ops) :=
  run_edits (fun op hop => (h op hop).spec.1) s f

/-- Operations on the data and index files that can be broken off and taken up again. -/
structure Redo (n : Nat) (ifd : Bool) (ops : List (FileOp CacheFile)) : Prop where
  logOp : ∀ op ∈ ops, LogOp n op
  again : ∀ {s done f}, (s .index).isSome = ifd → Reaches ops done → ¬ IsLog f →
    run ops (run done s) f = run ops s f

theorem Redo.nil : Redo n ifd [] where
  logOp := by simp
  again _ hdone _ := by cases hdone; rfl

theorem Redo.of_records {rest : List (FileOp CacheFile)} (hrest : ∀ op ∈ rest, LogOp n op) :
    Redo n ifd (.truncate .data n :: ((if ifd then [.truncate .index 0] else []) ++ rest)) := by
  have hops : ∀ op ∈ (if ifd then [.truncate .index 0] else []) ++ rest, LogOp n op :=
    List.forall_mem_append.mpr ⟨by cases ifd <;> simp [LogOp], hrest⟩
  have hall := List.forall_mem_cons.mpr ⟨show LogOp n (.truncate .data n) from rfl, hops⟩
  refine ⟨hall, fun {s done f} hindex hdone hf => ?_⟩
  rw [run_logOps hall, run_logOps (LogOp.reaches hdone hall), run_logOps hall, Option.map_map]
  cases f with
  | data =>
    exact congrArg (Option.map · _)
      (funext (hdone.edit_again fun op hop => (hops op hop).spec.2.1))
  | index =>
    cases ifd with
    | true =>
      -- the index file starts from nothing
      refine congrArg (Option.map · _) (funext fun c => ?_)
      simp [edit, FileOp.on, File.truncate]
    | false => simp_all
  | log | finalizedLog => exact absurd (by decide) hf

/-! ## Starts -/

/-- The operations of `psync_fs_crypto_check_log`. -/
def checkLogOps (env : Env) (name : CacheFile) (s : Store CacheFile) :
    Except Abort (List (FileOp CacheFile)) :=
  match s name with
  | none => .ok []
  | some lfd =>
    match s .data with
    | none => .ok [.delete name]
    | some _ => (processLog env lfd (s .index).isSome true).map fun a => a.1 ++ [.delete name]

theorem checkLog_eq_run (env : Env) (name : CacheFile) (s : Store CacheFile) :
    checkLog env name s = (checkLogOps env name s).map fun ops => run ops s := by
  unfold checkLog checkLogOps
  cases s name with
  | none => rfl
  | some lfd =>
    cases s .data with
    | none => rfl
    | some d =>
      simp only
      cases processLog env lfd (s .index).isSome true with
      | error e => rfl
      | ok a => exact congrArg Except.ok (run_append a.1 [.delete name] s).symm

/-- A start that is cut short in `psync_fs_crypto_check_log`; the files it checked before count as
starts of their own. -/
def Interrupted (env : Env) (s s' : Store CacheFile) : Prop :=
  ∃ name ops done, IsLog name ∧ checkLogOps env name s = .ok ops ∧ Reaches ops done ∧
    s' = run done s

/-- Applying the log `c` gives `ops`. -/
def Gives (env : Env) (ifd : Bool) (c : Bytes) (ops : List (FileOp CacheFile)) : Prop :=
  ∃ ret, processLog env c ifd true = .ok (ops, ret)

theorem Gives.unique {c : Bytes} {ops' : List (FileOp CacheFile)} (h : Gives env ifd c ops)
    (h' : Gives env ifd c ops') : ops = ops' := by
  obtain ⟨ret, h⟩ := h
  obtain ⟨ret', h'⟩ := h'
  exact congrArg Prod.fst (Except.ok.inj (h.symm.trans h'))

/-- The data and index files are those of `goal`, or a log gives the operations to them. -/
def Settled (env : Env) (ifd : Bool) (ops : List (FileOp CacheFile)) (goal s : Store CacheFile) :
    Prop :=
  (∀ f, ¬ IsLog f → s f = goal f) ∨ ∃ name c, IsLog name ∧ s name = some c ∧ Gives env ifd c ops

/-- `ops` are still to be applied, and a log says so, or they have been. -/
structure Left (env : Env) (ifd : Bool) (ops : List (FileOp CacheFile))
    (goal s : Store CacheFile) : Prop where
  data : (s .data).isSome
  index : (s .index).isSome = ifd
  logs : ∀ name c, IsLog name → s name = some c → Gives env ifd c ops ∨ Gives env ifd c []
  redo : ∀ f, ¬ IsLog f → run ops s f = goal f
  settled : Settled env ifd ops goal s

namespace Left

/-- After an application that may have been cut short. -/
theorem applied (h : Left env ifd ops goal s) (hredo : Redo n ifd ops) (hdone : Reaches ops done)
    (hlogs : ∀ name c, IsLog name → s' name = some c → s name = some c)
    (hfiles : ∀ f, ¬ IsLog f → s' f = run done s f)
    (hsettled : Settled env ifd ops goal s') : Left env ifd ops goal s' := by
  have hrun := run_logOps (LogOp.reaches hdone hredo.logOp)
  have hisSome : ∀ f, ¬ IsLog f → (s' f).isSome = (s f).isSome := fun f hf => by
    rw [hfiles f hf, hrun, Option.isSome_map]
  refine ⟨(hisSome _ (by decide)).trans h.data, (hisSome _ (by decide)).trans h.index,
    fun name c hname hc => h.logs name c hname (hlogs name c hname hc), fun f hf => ?_, hsettled⟩
  rw [← h.redo f hf, ← hredo.again h.index hdone hf, run_logOps hredo.logOp,
    run_logOps hredo.logOp, hfiles f hf]

theorem step (h : Left env ifd ops goal s) (hredo : Redo n ifd ops) (hname : IsLog name) :
    ∃ l, checkLogOps env name s = .ok l ∧
      (∀ done, Reaches l done → Left env ifd ops goal (run done s)) ∧
      ∀ name', IsLog name' → name' = name ∨ s name' = none → run l s name' = none := by
  unfold checkLogOps
  cases hc : s name with
  | none =>
    refine ⟨[], rfl, fun done hdone => by cases hdone; exact h, ?_⟩
    rintro _ - (rfl | hnone)
    · exact hc
    · exact hnone
  | some c =>
    obtain ⟨d, hd⟩ := Option.isSome_iff_exists.mp h.data
    obtain ⟨l, ⟨ret, hret⟩, hor⟩ : ∃ l, Gives env ifd c l ∧ (l = ops ∨ l = []) :=
      (h.logs name c hname hc).elim (fun hg => ⟨ops, hg, Or.inl rfl⟩) fun hg => ⟨[], hg, Or.inr rfl⟩
    have hsub : ∀ done, Reaches l done → Reaches ops done := by
      rcases hor with rfl | rfl
      · exact fun _ hdone => hdone
      · rintro _ ⟨⟩
        exact .stop ops
    have hlog : ∀ {done nm}, Reaches l done → IsLog nm → run done s nm = s nm :=
      fun hdone hnm => run_other (fun op hop =>
        (LogOp.reaches (hsub _ hdone) hredo.logOp op hop).spec.2.2 _ hnm) s
    have hdel : ∀ g, run (l ++ [.delete name]) s g = if g = name then none else run l s g :=
      fun g => by
        rw [run_append]
        exact Function.update_apply ..
    refine ⟨l ++ [.delete name], by simp only [hd, h.index, hret]; rfl, fun done hdone => ?_,
      fun nm hnm hgone => ?_⟩
    · rcases hdone.of_delete with hpart | rfl
      · refine h.applied hredo (hsub done hpart) (fun nm c hnm hc => (hlog hpart hnm).symm.trans hc)
          (fun _ _ => rfl) ?_
        rcases hor with rfl | rfl
        · exact Or.inr ⟨name, c, hname, (hlog hpart hname).trans hc, ret, hret⟩
        · cases hpart
          exact h.settled
      · have hfile : ∀ f, ¬ IsLog f → run (l ++ [.delete name]) s f = run l s f := fun f hf =>
          (hdel f).trans (if_neg (by rintro rfl; exact hf hname))
        refine h.applied hredo (hsub _ (.all _)) (fun nm c hnm hc => ?_) hfile ?_
        · rw [hdel, hlog (.all _) hnm] at hc
          split at hc
          · cases hc
          · exact hc
        · by_cases hops : l = ops
          · exact Or.inl fun f hf => by rw [hfile f hf, hops, h.redo f hf]
          · obtain rfl := hor.resolve_left hops
            refine h.settled.imp (fun hs f hf => (hfile f hf).trans (hs f hf)) ?_
            rintro ⟨nm, c', hnm, hc', hg⟩
            refine ⟨nm, c', hnm, (hdel nm).trans ((if_neg ?_).trans hc'), hg⟩
            rintro rfl
            obtain rfl := Option.some.inj (hc.symm.trans hc')
            exact hops (Gives.unique ⟨ret, hret⟩ hg)
    · rw [hdel]
      split
      · rfl
      · next hne => exact (hlog (.all _) hnm).trans (hgone.resolve_left hne)

theorem interrupted (h : Left env ifd ops goal s) (hredo : Redo n ifd ops)
    (hruns : Relation.ReflTransGen (Interrupted env) s s') : Left env ifd ops goal s' := by
  induction hruns with
  | refl => exact h
  | tail _ hlast ih =>
    obtain ⟨name, l, done, hname, hl, hdone, rfl⟩ := hlast
    obtain ⟨l', hl', hreach, -⟩ := ih.step hredo hname
    obtain rfl := Except.ok.inj (hl.symm.trans hl')
    exact hreach done hdone

theorem checkLogs (h : Left env ifd ops goal s) (hredo : Redo n ifd ops) (names : List CacheFile) :
    ∃ s', checkLogs env names s = .ok s' ∧ Left env ifd ops goal s' ∧
      ∀ name, IsLog name → name ∈ names ∨ s name = none → s' name = none := by
  induction names generalizing s with
  | nil => exact ⟨s, rfl, h, by simp⟩
  | cons name rest ih =>
    by_cases hname : IsLog name
    · obtain ⟨l, hl, hreach, hgone⟩ := h.step hredo hname
      obtain ⟨s', hs', hleft, hnone⟩ := ih (hreach l (.all l))
      refine ⟨s', ?_, hleft, fun nm hnm hor => hnone nm hnm ?_⟩
      · rw [FsCrypto.checkLogs, if_pos hname, checkLog_eq_run, hl]
        exact hs'
      · rcases hor with hmem | hn
        · exact (List.mem_cons.mp hmem).symm.imp_right fun heq => hgone nm hnm (Or.inl heq)
        · exact Or.inr (hgone nm hnm (Or.inr hn))
    · obtain ⟨s', hs', hleft, hnone⟩ := ih h
      refine ⟨s', ?_, hleft, fun nm hnm hor => hnone nm hnm (hor.imp_left fun hmem => ?_)⟩
      · rw [FsCrypto.checkLogs, if_neg hname]
        exact hs'
      · exact (List.mem_cons.mp hmem).resolve_left (by rintro rfl; exact hname hnm)

end Left

/-- Any number of starts that are cut short and one that is not leave the data and index files of
`goal`, and no log. -/
def Recovers (env : Env) (s goal : Store CacheFile) : Prop :=
  ∀ s₁, Relation.ReflTransGen (Interrupted env) s s₁ → ∀ names, .log ∈ names →
    .finalizedLog ∈ names → ∃ s', checkLogs env names s₁ = .ok s' ∧
      ∀ f, s' f = if IsLog f then none else goal f

theorem Left.recovers (h : Left env ifd ops goal s) (hredo : Redo n ifd ops) :
    Recovers env s goal := by
  intro s₁ hruns names hlog hfinal
  obtain ⟨s', hs', hleft, hnone⟩ := (h.interrupted hredo hruns).checkLogs hredo names
  have hgone : ∀ f, IsLog f → s' f = none := by
    rintro f (rfl | rfl)
    · exact hnone _ (Or.inl rfl) (Or.inl hlog)
    · exact hnone _ (Or.inr rfl) (Or.inl hfinal)
  refine ⟨s', hs', fun f => ?_⟩
  split
  · next hf => exact hgone f hf
  · next hf =>
    rcases hleft.settled with hs | ⟨name, c, hname, hc, -⟩
    · exact hs f hf
    · rw [hgone name hname] at hc
      cases hc

/-! ## The closed log -/

/-- The head of a log that is not closed, or a part of it. -/
theorem gives_of_take {c : Bytes} {m : Nat} (h : c.take 64 = List.replicate m 0xff) :
    Gives env ifd c [] := by
  refine ⟨-1, ?_⟩
  have hraw : File.pread c MasterRecord.size 0 = List.replicate m 0xff := h
  simp only [processLog, hraw, List.length_replicate]
  by_cases hm : m = 64
  · subst hm
    rw [if_neg (by simp), if_pos (by decide)]
  · rw [if_pos hm]

theorem Openfile.isSome_index (of : Openfile) : (of.store .index).isSome = !of.newfile := by
  cases hnew : of.newfile <;> simp [Openfile.store, hnew]

theorem store_applyOps (of : Openfile) (h : ∀ op ∈ ops, LogOp n op) (hf : ¬ IsLog f) :
    (of.applyOps ops).store f = run ops of.store f := by
  rw [run_logOps h]
  cases f with
  | data => simp [Openfile.store, Openfile.applyOps, run_logOps h]
  | index =>
    cases hnew : of.newfile <;> simp [Openfile.store, Openfile.applyOps, run_logOps h, hnew]
  | log | finalizedLog => exact absurd (by decide) hf

theorem logFlushAndProcess_ok {of of' : Openfile} {flog : Bytes}
    (h : logFlushAndProcess env of flog none = .ok (of', 0)) :
    ∃ a, processLog env flog (!of.newfile) false = .ok a ∧ of' = of.applyOps a.1 := by
  obtain ⟨a, ha, h⟩ := bind_eq_ok h
  refine ⟨a, ha, ?_⟩
  by_cases hret : a.2 = 0
  · rw [if_neg (by simp [ApplyFault.cut, hret])] at h
    exact (Prod.mk.inj (Except.ok.inj h)).1.symm
  · rw [if_pos (Or.inr hret)] at h
    exact absurd (Prod.mk.inj (Except.ok.inj h)).2 (by decide)

/-- The operations between the closed log and the new one. -/
def switchOps : List (FileOp CacheFile) :=
  [.rename .log .finalizedLog, .create .log, .pwrite .log logHead 0]

theorem switchLogs_ops {of of' : Openfile} {body : Bytes}
    (hfinal : FinalizedLog env of.logfile n body) (h : switchLogs env of none = .ok (of', 0)) :
    ∃ a, processLog env of.logfile (!of.newfile) true = .ok a ∧ Redo n (!of.newfile) a.1 ∧
      of'.trace = of.trace ++ (switchOps ++ (a.1 ++ [.delete .finalizedLog])) ∧
      ∀ f, ¬ IsLog f → of'.store f = run a.1 of.store f := by
  obtain ⟨⟨of₂, ret⟩, hres, h⟩ := bind_eq_ok h
  obtain ⟨rfl, rfl⟩ := Prod.mk.inj (Except.ok.inj h)
  obtain ⟨a, ha, rfl⟩ := logFlushAndProcess_ok hres
  change processLog env of.logfile (!of.newfile) false = .ok a at ha
  rw [processLog_of_finalized hfinal] at ha
  have htrue := (processLog_of_finalized hfinal (!of.newfile) true).trans ha
  obtain ⟨rest, hrest, rfl⟩ := map_eq_ok ha
  have hredo : Redo n (!of.newfile) _ := Redo.of_records (logOp_processRecords hrest)
  refine ⟨_, htrue, hredo, ?_, fun f hf => ?_⟩
  · change (of.trace ++ [.rename .log .finalizedLog, .create .log] ++ [.pwrite .log logHead 0] ++
      _) ++ [.delete .finalizedLog] = _
    simp [switchOps]
  · have hstore := store_applyOps
      { initLog { of with
          logfile := []
          trace := of.trace ++ [.rename .log .finalizedLog, .create .log] } with
        sectorsinlog := .nil } hredo.logOp hf
    refine hstore.trans ?_
    rw [run_logOps hredo.logOp, run_logOps hredo.logOp]
    cases f with
    | data | index => rfl
    | log | finalizedLog => exact absurd (by decide) hf

/-- The files of an open file with these logs. -/
def Openfile.withLogs (of : Openfile) (log finalizedLog : Option Bytes) : Store CacheFile
  | .log => log
  | .finalizedLog => finalizedLog
  | f => of.store f

/-- From a closed log on. -/
theorem closed_recovers {of of' : Openfile} {body : Bytes}
    (hfinal : FinalizedLog env of.logfile n body) (h : switchLogs env of none = .ok (of', 0)) :
    ∃ T, of'.trace = of.trace ++ T ∧
      ∀ done, Reaches T done → Recovers env (run done of.store) of'.store := by
  obtain ⟨a, ha, hredo, htrace, hstore⟩ := switchLogs_ops hfinal h
  refine ⟨_, htrace, fun done hdone => Left.recovers ?_ hredo⟩
  let Known (x : Option Bytes) : Prop :=
    x = none ∨ x = some of.logfile ∨ ∃ m, x = some (List.replicate m 0xff)
  have hleft : ∀ x y, x = some of.logfile ∨ y = some of.logfile → Known x → Known y →
      Left env (!of.newfile) a.1 of'.store (of.withLogs x y) := by
    intro x y hlog hx hy
    refine ⟨rfl, of.isSome_index, fun nm c hnm hc => ?_, fun f hf => ?_, Or.inr ?_⟩
    · have hknown : Known (some c) := by
        rw [← hc]
        rcases hnm with rfl | rfl
        · exact hx
        · exact hy
      rcases hknown with hnone | hlog | ⟨m, hm⟩
      · cases hnone
      · exact Or.inl ⟨a.2, Option.some.inj hlog ▸ ha⟩
      · exact Or.inr (gives_of_take (Option.some.inj hm ▸ List.take_replicate))
    · rw [hstore f hf, run_logOps hredo.logOp, run_logOps hredo.logOp]
      cases f with
      | data | index => rfl
      | log | finalizedLog => exact absurd (by decide) hf
    · rcases hlog with hx | hy
      · exact ⟨.log, _, Or.inl rfl, hx, a.2, ha⟩
      · exact ⟨.finalizedLog, _, Or.inr rfl, hy, a.2, ha⟩
  have hnew : ∀ {s : Store CacheFile} {m : Nat},
      s = of.withLogs (some (List.replicate m 0xff)) (some of.logfile) →
      Left env (!of.newfile) a.1 of'.store s := by
    rintro _ m rfl
    exact hleft _ _ (Or.inr rfl) (Or.inr (Or.inr ⟨m, rfl⟩)) (Or.inr (Or.inl rfl))
  cases hdone with
  | stop =>
    rw [show run [] of.store = of.withLogs (some of.logfile) none by funext f; cases f <;> rfl]
    exact hleft _ _ (Or.inl rfl) (Or.inr (Or.inl rfl)) (Or.inl rfl)
  | step _ hdone =>
    cases hdone with
    | stop =>
      rw [show run [.rename .log .finalizedLog] of.store = of.withLogs none (some of.logfile) by
        funext f; cases f <;> rfl]
      exact hleft _ _ (Or.inr rfl) (Or.inl rfl) (Or.inr (Or.inl rfl))
    | step _ hdone =>
      cases hdone with
      | stop => exact @hnew _ 0 (by funext f; cases f <;> rfl)
      | torn _ _ _ p =>
        refine @hnew _ (min p 4096) (funext fun f => ?_)
        cases f with
        | log => exact congrArg some ((File.pwrite_nil_zero _).trans List.take_replicate)
        | _ => rfl
      | @step _ _ done hdone =>
        have hs := @hnew (run switchOps of.store) 4096 (funext fun f => by
          cases f with
          | log => exact congrArg some (File.pwrite_nil_zero _)
          | _ => rfl)
        have hold : run switchOps of.store .finalizedLog = some of.logfile := rfl
        obtain ⟨l, hl, hreach, -⟩ := @Left.step _ _ _ _ _ _ .finalizedLog hs hredo (Or.inr rfl)
        obtain ⟨d, hd⟩ := Option.isSome_iff_exists.mp hs.data
        simp only [checkLogOps, hold, hd, hs.index, ha] at hl
        obtain rfl := Except.ok.inj hl
        exact hreach done hdone

/-- The log is closed by one write.  Without it a crash leaves the files as they were, and with it
as they are when the log was applied. -/
theorem finalize_recovers {of of' : Openfile} (hlog : of.logfile = logHead ++ of.loghashctx)
    (hsize : of.logfile.length < 2 ^ 64) (hn : n < 2 ^ 64)
    (h : (markLogFinalized env of n >>= fun of => switchLogs env of none) = .ok (of', 0)) :
    ∃ mark T, of'.trace = of.trace ++ mark :: T ∧ Recovers env of.store of.store ∧
      ∀ done, Reaches T done → Recovers env (run (mark :: done) of.store) of'.store := by
  obtain ⟨lfd, b, hmark, hlfd, hfinal⟩ :=
    @markLogFinalized_eq env of _ _ n hlog length_logHead rfl hsize hn
  rw [hmark, ok_bind] at h
  obtain ⟨T, htrace, hT⟩ := closed_recovers hfinal h
  refine ⟨.pwrite .log b 0, T, by simp [htrace], ?_, fun done hdone => ?_⟩
  · refine Left.recovers ⟨rfl, of.isSome_index, ?_, fun f _ => rfl, Or.inl fun f _ => rfl⟩
      (@Redo.nil n _)
    rintro nm c (rfl | rfl) hc
    · obtain rfl : of.logfile = c := Option.some.inj hc
      refine Or.inr (@gives_of_take env _ _ 64 ?_)
      rw [hlog, List.take_append_of_le_length (by rw [length_logHead]; decide), logHead,
        List.take_replicate]
      rfl
    · cases hc
  · refine (congrArg (Recovers env · _) ?_).mp (hT done hdone)
    refine congrArg (run done) (funext fun f => ?_)
    cases f with
    | log => exact congrArg some hlfd
    | _ => rfl

/-- A byte is written to a new file and flushed, then written over, with a second one behind
it; the tree goes to the log, which is to be closed. -/
def rewritten : Except Abort Openfile := do
  let first ← writeNewfileLockedNu Env.fixed newOpenfile [7] 0 true
  let flushed ← finalizeLog Env.fixed first.1
  let second ← writeNewfileLockedNu Env.fixed flushed.1 [8, 9] 0 true
  let tree ← writeAuthTreeToLog Env.fixed second.1 (offsetsByPlainsize 2)
  return tree.1

/-- The data file has the first byte and its checksum, and the log the sector and the checksum
that are to take their place. -/
theorem finalize_recovers_rewritten : ∃ (of of' : Openfile) (mark : _) (T : _),
    rewritten = .ok of ∧ (of.datafile.length = 33 ∧ of.logfile.length = 4162) ∧
      of'.datafile.length = 34 ∧ of'.trace = of.trace ++ mark :: T ∧
      Recovers Env.fixed of.store of.store ∧
      ∀ done, Reaches T done → Recovers Env.fixed (run (mark :: done) of.store) of'.store := by
  have hend : (rewritten >>= fun of => (markLogFinalized Env.fixed of (cryptoSize 2) >>= fun of =>
      switchLogs Env.fixed of none) >>= fun res => pure (of.datafile.length, of.logfile.length,
        (of.logfile.take 4096).all (· = 0xff), decide (of.logfile.drop 4096 = of.loghashctx),
        res.1.datafile.length, res.2)).toOption = some (33, 4162, true, true, 34, 0) := by
    decide +kernel
  obtain ⟨of, hof, hclose⟩ := bind_eq_ok (toOption_eq_some hend)
  obtain ⟨⟨of', ret⟩, hclose, hends⟩ := bind_eq_ok hclose
  obtain ⟨hdata, hlength, hhead, hctx, hdata', rfl⟩ : _ ∧ _ ∧ _ ∧ _ ∧ _ ∧ _ := by
    simpa only [pure_eq_ok, Except.ok.injEq, Prod.mk.injEq, decide_eq_true_eq] using hends
  have hlog : of.logfile = logHead ++ of.loghashctx := by
    have htake : of.logfile.take 4096 = logHead := List.eq_replicate_iff.mpr
      ⟨by rw [List.length_take, hlength]; decide, fun b hb => by
        simpa using List.all_eq_true.mp hhead b hb⟩
    rw [← htake, ← hctx, List.take_append_drop]
  obtain ⟨mark, T, htrace, hopen, hclosed⟩ :=
    finalize_recovers hlog (by rw [hlength]; decide) (by decide +kernel) hclose
  exact ⟨of, of', mark, T, hof, ⟨hdata, hlength⟩, hdata', htrace, hopen, hclosed⟩

end PcloudClient.FsCrypto
