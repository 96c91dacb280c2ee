/-
  Pdownload/Lifecycle.lean --- every download is freed once and its task settled once, and the
  counters are those of the list.
-/
import PcloudClient.Pdownload.TaskRuns

set_option autoImplicit false

namespace PcloudClient.Pdownload

variable {debug : Bool} {s s' : State} {p : Nat} {k : Code}

/-! ## Steps keep the invariant -/

/-- The results that are handled are as `Handles` says. -/
def HandlesAll (debug : Bool) (s : State) : Act → Prop
  | .callback p res => Handles debug (s.tasks p) res
  | _ => True

theorem Inv.letIn (h : Inv s) (hat : s.place p = .waits) : Inv (s.letIn p) := by
  unfold State.letIn
  split
  · exact h.refuse hat
  · exact h.accept hat _ (taskRunDownloadFile_dutiful _)

/-- A thread goes on with one of the ways through its code. -/
theorem Inv.goes (h : Inv s) {k' : Code} (hat : s.place p = .runs k')
    (hk : k.Dutiful (s.tasks p).indwllist (s.answered p) (s.marked p) (s.settled p) (s.freed p)) :
    Inv (s.setPlace p (.runs k)) :=
  h.setPlace (by rw [hat]; exact Place.noConfusion) (by rw [hat]; exact Place.noConfusion)
    Place.noConfusion ((h.tasks p).runs hk)

theorem Inv.callback (h : Inv s) {existing : Bool} {res : AsyncResult}
    (hat : s.place p = .pending existing) (hres : Handles debug (s.tasks p) res) :
    Inv (State.setPlace { s with answered := Function.update s.answered p true } p
      (.runs (callback existing debug (s.tasks p) res))) := by
  obtain ⟨-, hcounted, hmarked, hsettled, hfreed⟩ := h.owed (.inr ⟨existing, hat⟩)
  refine h.of_task p h.alive (h.listed.frame ⟨rfl, rfl, rfl, rfl, fun _ => rfl, fun _ => rfl, ?_,
    fun _ => rfl⟩) (by rw [hat]; exact Place.noConfusion) rfl ?_ ?_ h.claimed
  · intro q
    by_cases hq : q = p
    · subst hq
      simp [State.setPlace, hat]
    · simp [State.setPlace, Function.update_of_ne hq]
  · intro q hq
    simp [State.view, State.setPlace, Function.update_of_ne hq]
  · have hmarked' : s.marked p = true := hmarked
    have hsettled' : s.settled p = 0 := hsettled
    have hfreed' : s.freed p = 0 := hfreed
    have hcounted' : (s.tasks p).indwllist = true := hcounted
    rw [view_setPlace_self]
    refine ⟨fun _ => hmarked, ?_⟩
    simpa [State.view, hmarked', hsettled', hfreed', hcounted'] using callback_dutiful hres

theorem Inv.step {a : Act} (h : Inv s) (hstep : Step debug s a s') (hres : HandlesAll debug s a) :
    Inv s' := by
  cases hstep with
  | @enlist id row file found idle there => exact h.enlist id row file
  | @drop id row found idle =>
    refine h.tables fun id' row' hrow _ => ?_
    by_cases hid : id' = id
    · subst hid
      rw [Function.update_self] at hrow
      cases hrow
    · rwa [Function.update_of_ne hid] at hrow
  | letIn at_ ready => exact h.letIn at_
  | call at_ => exact h.call at_
  | test result at_ =>
    obtain ⟨hyes, hno⟩ := h.dutiful at_
    cases result with
    | true => exact h.goes at_ hyes
    | false => exact h.goes at_ hno
  | @startAsync p existing failed result at_ =>
    obtain ⟨⟨hanswered, howed⟩, hfailed⟩ := h.dutiful at_
    cases result with
    | true =>
      exact h.setPlace (by rw [at_]; exact Place.noConfusion) (by rw [at_]; exact Place.noConfusion)
        Place.noConfusion ⟨(h.tasks p).marked, hanswered, howed⟩
    | false => exact h.goes at_ hfailed
  | @startThread p at_ =>
    exact h.setPlace (by rw [at_]; exact Place.noConfusion) (by rw [at_]; exact Place.noConfusion)
      Place.noConfusion ⟨(h.tasks p).marked, h.dutiful at_⟩
  | @resize p serversize at_ =>
    exact @Inv.downloading s p h at_ { s.tasks p with size := serversize } rfl
      (h.owed (.inl at_)).2.1 _ _ rfl
  | @receive p rd at_ =>
    refine @Inv.downloading s p h at_
      { s.tasks p with downloadedsize := (s.tasks p).downloadedsize + rd } rfl
      (h.owed (.inl at_)).2.1 _ _ ?_
    exact (sub_add_cancel _ _).symm
  | @downloaded p result at_ =>
    obtain ⟨hanswered, hcounted, hmarked, hsettled, hfreed⟩ := h.owed (.inl at_)
    refine h.setPlace (by rw [at_]; exact Place.noConfusion)
      (by rw [at_]; exact Place.noConfusion) Place.noConfusion ⟨(h.tasks p).marked, ?_⟩
    simpa only [hcounted, hmarked, hsettled, hfreed] using taskRunDownloadFileThread_dutiful result
  | callback res at_ => exact h.callback at_ hres
  | @timer p at_ =>
    obtain ⟨hcounted, hmarked, hsettled, hfreed⟩ := h.owed_of_timer at_
    refine h.setPlace (by rw [at_]; exact Place.noConfusion)
      (by rw [at_]; exact Place.noConfusion) Place.noConfusion ⟨(h.tasks p).marked, ?_⟩
    simpa only [hcounted, hmarked, hsettled, hfreed] using freeTaskTimerThread_dutiful
  | @insertTask id row free idle =>
    refine h.tables fun id' row' hrow hbusy => ?_
    by_cases hid : id' = id
    · subst hid
      rw [Function.update_self] at hrow
      obtain rfl := Option.some.inj hrow
      exact absurd idle hbusy
    · rwa [Function.update_of_ne hid] at hrow
  | deleteTasks sel =>
    refine h.tables fun id row hrow _ => ?_
    exact (Option.filter_eq_some_iff.mp hrow).1
  | setFile id file => exact h.tables fun _ _ hrow _ => hrow
  | deleteDownloadTasksForFile fileid syncid deltemp => exact h.stopDownloads _ _
  | stopFileDownload fileid syncid => exact h.stopDownloads _ _
  | stopSyncDownload syncid => exact h.stopDownloads _ _
  | stopAllDownload => exact h.stopDownloads _ _

/-! ## Runs -/

/-- The states of a process that starts with the given tables, all of whose steps meet the
condition. -/
def Reaches (debug : Bool) (cond : State → Act → Prop) (rows : Nat → Option TaskRow)
    (files : Nat → Option File) (s : State) : Prop :=
  Relation.ReflTransGen (fun s s' => s.aborted = false ∧ ∃ a, Step debug s a s' ∧ cond s a)
    (State.init rows files) s

theorem Reaches.inv {rows : Nat → Option TaskRow} {files : Nat → Option File}
    (h : Reaches debug (HandlesAll debug) rows files s) : Inv s := by
  induction h with
  | refl => exact Inv.init rows files
  | tail _ hlast ih =>
    obtain ⟨-, a, hstep, hres⟩ := hlast
    exact ih.step hstep hres

/-- The thread that has the task, or the timer, goes on. -/
def Goes (debug : Bool) (p : Nat) (s s' : State) : Prop :=
  s.aborted = false ∧
    ∃ a, Step debug s a s' ∧ (a = .call p ∨ (∃ result, a = .test p result) ∨ a = .timer p)

/-- What holds of the downloads at any time. -/
structure LifecycleOk (debug : Bool) (s : State) : Prop where
  alive : s.aborted = false
  started : s.startedDownloads = s.current.length
  files : s.filesdownloading = s.current.length
  bytes : s.bytestodownloadcurrent = (s.current.map fun p => (s.tasks p).size).sum
  /-- No task is freed twice, nor settled twice once it was put in progress. -/
  once : ∀ p, s.freed p ≤ 1 ∧ (s.marked p = true → s.settled p ≤ 1)
  /-- What was handled is freed, and its row deleted or reset. -/
  done : ∀ p, s.place p = .runs .done → s.freed p = 1 ∧ (s.answered p = true → s.settled p = 1)
  /-- Whose callback was called is handled to the end, by itself or through the timer. -/
  finishes : ∀ p, s.answered p = true → ∃ s', Relation.ReflTransGen (Goes debug p) s s' ∧
    s'.place p = .runs .done ∧ s'.freed p = 1 ∧ s'.settled p = 1
  /-- A task that is in progress has a download that will settle it. -/
  inprogress : Claimed s

theorem Code.Dutiful.once {counted answered marked : Bool} {settled freed : Nat}
    (h : k.Dutiful counted answered marked settled freed) :
    freed ≤ 1 ∧ (marked = true → settled ≤ 1) := by
  induction k generalizing marked settled freed with
  | done => exact ⟨h.1.le, fun hm => (h.2 hm).le⟩
  | call c k ih =>
    cases c with
    | setTaskInprogress val =>
      simp only [Code.Dutiful] at h
      split at h
      · obtain ⟨hfreed, hsettled⟩ := ih h
        exact ⟨hfreed, fun hm => by have := hsettled hm; omega⟩
      · obtain ⟨hsettled, hfreed, -⟩ := h
        exact ⟨by omega, fun _ => by omega⟩
    | deleteTask =>
      obtain ⟨hfreed, hsettled⟩ := ih h
      exact ⟨hfreed, fun hm => by have := hsettled hm; omega⟩
    | freeDownloadTask =>
      obtain ⟨hzero, hk⟩ := h
      exact ⟨by omega, (ih hk).2⟩
    | timerRegister =>
      obtain ⟨-, -, hsettled, hfreed⟩ := h
      exact ⟨by omega, fun _ => by omega⟩
    | updateFile size hash => exact ih h
    | fileDelete => exact ih h
    | assert cond => exact ih h.2
  | test t yes no ihyes _ => exact ihyes h.1
  | startsAsync existing failed ih => exact ih h.2
  | startsThread =>
    obtain ⟨-, -, -, hsettled, hfreed⟩ := h
    exact ⟨by omega, fun _ => by omega⟩

theorem Inv.once (h : Inv s) (p : Nat) : s.freed p ≤ 1 ∧ (s.marked p = true → s.settled p ≤ 1) := by
  have hduties := (h.tasks p).duties
  cases hat : s.place p with
  | runs k => exact (h.dutiful hat).once
  | unborn =>
    obtain ⟨-, -, -, hsettled, hfreed⟩ := h.new_of_unborn hat
    exact ⟨hfreed.le.trans (by omega), fun _ => hsettled.le.trans (by omega)⟩
  | waits =>
    obtain ⟨-, -, -, hsettled, hfreed⟩ := h.new_of_waits hat
    exact ⟨hfreed.le.trans (by omega), fun _ => hsettled.le.trans (by omega)⟩
  | downloads =>
    obtain ⟨-, -, -, hsettled, hfreed⟩ := h.owed (.inl hat)
    exact ⟨hfreed.le.trans (by omega), fun _ => hsettled.le.trans (by omega)⟩
  | pending e =>
    obtain ⟨-, -, -, hsettled, hfreed⟩ := h.owed (.inr ⟨e, hat⟩)
    exact ⟨hfreed.le.trans (by omega), fun _ => hsettled.le.trans (by omega)⟩
  | timer =>
    obtain ⟨-, -, hsettled, hfreed⟩ := h.owed_of_timer hat
    exact ⟨hfreed.le.trans (by omega), fun _ => hsettled.le.trans (by omega)⟩

theorem Inv.of_done (h : Inv s) (hat : s.place p = .runs .done) :
    s.freed p = 1 ∧ (s.answered p = true → s.settled p = 1) := by
  obtain ⟨hfreed, hsettled⟩ := h.dutiful hat
  exact ⟨hfreed, fun hanswered => hsettled ((h.tasks p).marked hanswered)⟩

/-! ## The end of the handling -/

theorem call_answered (s : State) (p : Nat) (k : Code) (c : Call) :
    (s.call p k c).answered = s.answered := by
  cases c with
  | setTaskInprogress val =>
    simp only [State.call, State.setTaskInprogress]
    split <;> rfl
  | freeDownloadTask =>
    simp only [State.call, State.freeDownloadTask]
    split <;> rfl
  | assert cond => cases cond <;> rfl
  | _ => rfl

theorem call_place (s : State) (p : Nat) (k : Code) (c : Call) (hc : c ≠ .assert false) :
    (s.call p k c).place p = .runs k ∨ (s.call p k c).place p = .timer := by
  cases c with
  | timerRegister => exact .inr (Function.update_self _ _ _)
  | assert cond =>
    cases cond with
    | true => exact .inl (Function.update_self _ _ _)
    | false => exact absurd rfl hc
  | _ => exact .inl (Function.update_self _ _ _)

/-- By induction on the code; the timer starts code that does not go to the timer again. -/
theorem Inv.finishes_runs (htimer : ∀ s, Inv s → s.answered p = true → s.place p = .timer →
      ∃ s', Relation.ReflTransGen (Goes debug p) s s' ∧ s'.place p = .runs .done ∧ Inv s' ∧
        s'.answered p = true) :
    ∀ s, Inv s → s.answered p = true → s.place p = .runs k →
      ∃ s', Relation.ReflTransGen (Goes debug p) s s' ∧ s'.place p = .runs .done ∧ Inv s' ∧
        s'.answered p = true := by
  induction k with
  | done => exact fun s h hanswered hat => ⟨s, .refl, hat, h, hanswered⟩
  | call c k ih =>
    intro s h hanswered hat
    have hnext := h.call hat
    have hgoes : Goes debug p s (s.call p k c) := ⟨h.alive, .call p, .call hat, .inl rfl⟩
    have hanswered' : (s.call p k c).answered p = true := by rwa [call_answered]
    have hc : c ≠ .assert false := by
      rintro rfl
      exact Bool.false_ne_true (h.dutiful hat).1
    obtain ⟨s', hrun, hend⟩ := (call_place s p k c hc).elim
      (ih (s.call p k c) hnext hanswered') (htimer (s.call p k c) hnext hanswered')
    exact ⟨s', .head hgoes hrun, hend⟩
  | test t yes no ihyes _ =>
    intro s h hanswered hat
    have hgoes : Goes debug p s (s.setPlace p (.runs yes)) :=
      ⟨h.alive, .test p true, .test true hat, .inr (.inl ⟨true, rfl⟩)⟩
    obtain ⟨s', hrun, hend⟩ := ihyes (s.setPlace p (.runs yes)) (h.goes hat (h.dutiful hat).1)
      hanswered (Function.update_self _ _ _)
    exact ⟨s', .head hgoes hrun, hend⟩
  | startsAsync existing failed _ =>
    intro s h hanswered hat
    rw [(h.dutiful hat).1.1] at hanswered
    cases hanswered
  | startsThread =>
    intro s h hanswered hat
    rw [(h.dutiful hat).1] at hanswered
    cases hanswered

/-- The timer fires, and its thread settles and frees the task. -/
theorem Inv.finishes_timer (h : Inv s) (hanswered : s.answered p = true)
    (hat : s.place p = .timer) :
    ∃ s', Relation.ReflTransGen (Goes debug p) s s' ∧ s'.place p = .runs .done ∧ Inv s' ∧
      s'.answered p = true := by
  have hfired : Step debug s (.timer p) (s.setPlace p (.runs freeTaskTimerThread)) := .timer hat
  have h₁ := h.step hfired trivial
  have hat₁ : (s.setPlace p (.runs freeTaskTimerThread)).place p =
      .runs (.call (.setTaskInprogress 0) (.calls [.freeDownloadTask])) :=
    Function.update_self _ _ _
  have h₂ := h₁.call hat₁
  have hat₂ := Function.update_self p (Place.runs (.call .freeDownloadTask .done))
    (((s.setPlace p (.runs freeTaskTimerThread)).setTaskInprogress p 0).place)
  have h₃ := h₂.call hat₂
  refine ⟨_, ?_, Function.update_self _ _ _, h₃, ?_⟩
  · exact .head ⟨h.alive, _, hfired, .inr (.inr rfl)⟩
      (.head ⟨h₁.alive, .call p, .call hat₁, .inl rfl⟩
        (.single ⟨h₂.alive, .call p, .call hat₂, .inl rfl⟩))
  · rw [call_answered, call_answered]
    exact hanswered

theorem Inv.finishes (h : Inv s) (hanswered : s.answered p = true) :
    ∃ s', Relation.ReflTransGen (Goes debug p) s s' ∧ s'.place p = .runs .done ∧
      s'.freed p = 1 ∧ s'.settled p = 1 := by
  have hend : ∃ s', Relation.ReflTransGen (Goes debug p) s s' ∧ s'.place p = .runs .done ∧
      Inv s' ∧ s'.answered p = true := by
    cases hat : s.place p with
    | unborn => exact absurd hanswered (ne_true_of_eq_false (h.new_of_unborn hat).2.2.1)
    | waits => exact absurd hanswered (ne_true_of_eq_false (h.new_of_waits hat).2.2.1)
    | runs k => exact Inv.finishes_runs (fun _ h' => h'.finishes_timer) s h hanswered hat
    | downloads => exact absurd hanswered (ne_true_of_eq_false (h.owed (.inl hat)).1)
    | pending e => exact absurd hanswered (ne_true_of_eq_false (h.owed (.inr ⟨e, hat⟩)).1)
    | timer => exact h.finishes_timer hanswered hat
  obtain ⟨s', hrun, hat, h', hanswered'⟩ := hend
  exact ⟨s', hrun, hat, (h'.of_done hat).1, (h'.of_done hat).2 hanswered'⟩

theorem Inv.lifecycleOk (h : Inv s) : LifecycleOk debug s where
  alive := h.alive
  started := by
    rw [h.listed.counts.started, List.length_map]
  files := by
    rw [h.listed.counts.files, List.length_map]
  bytes := by
    rw [h.listed.counts.bytes, List.map_map]
    rfl
  once := h.once
  done _ hat := h.of_done hat
  finishes _ hanswered := h.finishes hanswered
  inprogress := h.claimed

/-- While no result of a stopped download whose temporary file is to be deleted is a success, and
every file too big to be downloaded so is, the downloads are handled once and counted right. -/
theorem finishAsyncDownload_lifecycleOk (debug : Bool) (rows : Nat → Option TaskRow)
    (files : Nat → Option File) (s : State) (h : Reaches debug (HandlesAll debug) rows files s) :
    LifecycleOk debug s :=
  h.inv.lifecycleOk

/-! ## One download -/

/-- Task 1 downloads file 9 for sync 7. -/
def oneRow : Nat → Option TaskRow := fun id => if id = 1 then some ⟨7, 9, 0⟩ else none

def oneFile : Nat → Option File := fun id => if id = 9 then some ⟨100#64, 5#64⟩ else none

def Act.answers : Act → Bool
  | .callback _ _ => true
  | _ => false

theorem handlesAll_of_answers {a : Act} (h : a.answers = false) : HandlesAll debug s a := by
  cases a with
  | callback p res => cases h
  | _ => trivial

/-- The task is with the asynchronous transfer. -/
theorem reaches_pending {cond : State → Act → Prop}
    (hcond : ∀ s a, a.answers = false → cond s a) :
    ∃ s, Reaches debug cond oneRow oneFile s ∧ s.aborted = false ∧ s.place 0 = .pending false ∧
      s.downloads = [0] ∧ s.tasks 0 = ⟨1, 9, 7, 0, 100, 0, true⟩ ∧ s.freed 0 = 0 := by
  have goes {s s' : State} {a : Act} (h : Reaches debug cond oneRow oneFile s)
      (halive : s.aborted = false) (ha : a.answers = false) (hstep : Step debug s a s') :
      Reaches debug cond oneRow oneFile s' := h.tail ⟨halive, a, hstep, hcond s a ha⟩
  have h₁ := goes .refl rfl rfl (@Step.enlist _ _ 1 _ _ rfl rfl rfl)
  have h₂ := goes h₁ rfl rfl (.letIn (p := 0) rfl (by decide))
  have h₃ := goes h₂ rfl rfl (.test (p := 0) false rfl)
  have h₄ := goes h₃ rfl rfl (.test (p := 0) false rfl)
  have h₅ := goes h₄ rfl rfl (.test (p := 0) true rfl)
  have h₆ := goes h₅ rfl rfl (.test (p := 0) true rfl)
  have h₇ := goes h₆ rfl rfl (.test (p := 0) true rfl)
  have h₈ := goes h₇ rfl rfl (.call (p := 0) rfl)
  have h₉ := goes h₈ rfl rfl (.startAsync (p := 0) true rfl)
  exact ⟨_, h₉, rfl, rfl, rfl, rfl, rfl⟩

/-- The download of a task that was not stopped ends. -/
theorem finishAsyncDownload_lifecycleOk_one :
    ∃ s, s.place 0 = .runs .done ∧ LifecycleOk true s := by
  obtain ⟨s, hreach, halive, hat, -, htask, -⟩ :=
    @reaches_pending true (HandlesAll true) fun _ _ => handlesAll_of_answers
  have hhandles : HandlesAll true s (.callback 0 ⟨0, 0, 100, 5⟩) := by
    rw [HandlesAll, htask]
    exact ⟨fun _ => by decide, fun _ h => absurd h (by decide)⟩
  have h₁ := hreach.tail ⟨halive, _, .callback ⟨0, 0, 100, 5⟩ hat, hhandles⟩
  have hcode : callback false true (s.tasks 0) ⟨0, 0, 100, 5⟩ =
      .test .renameAndCreateLocal (.calls [.deleteTask, .freeDownloadTask])
        (.calls [.timerRegister]) := by
    rw [htask]
    decide
  rw [hcode] at h₁
  have h₂ := h₁.tail ⟨halive, _, .test (p := 0) true rfl, trivial⟩
  have h₃ := h₂.tail ⟨halive, _, .call (p := 0) rfl, trivial⟩
  have h₄ := h₃.tail ⟨halive, _, .call (p := 0) rfl, trivial⟩
  exact ⟨_, rfl, finishAsyncDownload_lifecycleOk true oneRow oneFile _ h₄⟩

/-- The task is deleted with its temporary file while the transfer is under way, which then
succeeds: the callback returns with the task neither freed nor taken from the list. -/
theorem not_lifecycleOk_stopped :
    ¬ ∀ (debug : Bool) (rows : Nat → Option TaskRow) (files : Nat → Option File) (s : State),
      Reaches debug (fun _ _ => True) rows files s → LifecycleOk debug s := by
  intro hall
  obtain ⟨s, hreach, halive, hat, hlist, htask, hfreed⟩ :=
    @reaches_pending false (fun _ _ => True) fun _ _ _ => trivial
  have hstopped : (s.deleteDownloadTasksForFile 9 7 true).tasks 0 =
      ⟨1, 9, 7, 2, 100, 0, true⟩ := by
    simp [State.deleteDownloadTasksForFile, State.stopDownloads, hlist, htask]
  have h₁ := hreach.tail ⟨halive, _, .deleteDownloadTasksForFile 9 7 true, trivial⟩
  have h₂ := h₁.tail ⟨halive, _, .callback ⟨0, 0, 100, 5⟩ hat, trivial⟩
  have hcode : callback false false ((s.deleteDownloadTasksForFile 9 7 true).tasks 0)
      ⟨0, 0, 100, 5⟩ = .calls [.fileDelete] := by
    rw [hstopped]
    decide
  rw [hcode] at h₂
  have h₃ := h₂.tail ⟨halive, _, .call (p := 0) rfl, trivial⟩
  have hdone := (hall false oneRow oneFile _ h₃).done 0 rfl
  have hzero : s.freed 0 = 1 := hdone.1
  omega

end PcloudClient.Pdownload
