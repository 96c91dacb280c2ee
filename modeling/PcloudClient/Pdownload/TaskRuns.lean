/-
  Pdownload/TaskRuns.lean --- the duties of the download tasks along runs.
-/
import PcloudClient.Pdownload.Duties

set_option autoImplicit false

namespace PcloudClient.Pdownload

variable {debug : Bool} {s s' : State} {p q : Nat} {k : Code} {l : Place}

/-! ## The invariant -/

/-- A task in the database that is in progress has a download that will settle it. -/
def Claimed (s : State) : Prop :=
  ∀ id row, s.rows id = some row → row.inprogress ≠ 0 →
    ∃ p, (s.tasks p).taskid = id ∧ s.marked p = true ∧ s.settled p = 0

structure Inv (s : State) : Prop where
  alive : s.aborted = false
  listed : Listed s
  tasks : ∀ p, (s.view p).Ok
  fresh : ∀ p, s.next ≤ p → s.place p = .unborn
  claimed : Claimed s

theorem Inv.init (rows : Nat → Option TaskRow) (files : Nat → Option File) :
    Inv (State.init rows files) where
  alive := rfl
  listed := ⟨List.nodup_nil, fun p => by simp [State.init], ⟨rfl, rfl, rfl⟩⟩
  tasks p := ⟨fun h => by simp [State.view, State.init] at h, ⟨rfl, rfl, rfl, rfl, rfl⟩⟩
  fresh _ _ := rfl
  claimed id row hrow hbusy := by
    simp only [State.init, Option.map_eq_some_iff] at hrow
    obtain ⟨_, -, rfl⟩ := hrow
    exact absurd rfl hbusy

theorem Inv.dutiful (h : Inv s) (hat : s.place p = .runs k) :
    k.Dutiful (s.tasks p).indwllist (s.answered p) (s.marked p) (s.settled p) (s.freed p) := by
  have hduties := (h.tasks p).duties
  simp only [State.view, hat] at hduties
  exact hduties

theorem Inv.owed (h : Inv s) (hat : s.place p = .downloads ∨ ∃ e, s.place p = .pending e) :
    (s.view p).answered = false ∧ (s.view p).Owed := by
  have hduties := (h.tasks p).duties
  rcases hat with hat | ⟨e, hat⟩
  · simpa only [State.view, hat] using hduties
  · simpa only [State.view, hat] using hduties

theorem Inv.owed_of_timer (h : Inv s) (hat : s.place p = .timer) : (s.view p).Owed := by
  have hduties := (h.tasks p).duties
  simpa only [State.view, hat] using hduties

theorem Inv.new_of_waits (h : Inv s) (hat : s.place p = .waits) : (s.view p).New := by
  have hduties := (h.tasks p).duties
  simpa only [State.view, hat] using hduties

theorem Inv.new_of_unborn (h : Inv s) (hat : s.place p = .unborn) : (s.view p).New := by
  have hduties := (h.tasks p).duties
  simpa only [State.view, hat] using hduties

/-! ## What a step leaves alone -/

@[simp] theorem view_setPlace_self (s : State) (p : Nat) (l : Place) :
    (s.setPlace p l).view p = { s.view p with place := l } := by
  simp [State.view, State.setPlace]

theorem view_setPlace_of_ne (s : State) (l : Place) (hq : q ≠ p) :
    (s.setPlace p l).view q = s.view q := by
  simp [State.view, State.setPlace, Function.update_of_ne hq]

theorem Claimed.frame (h : Claimed s)
    (hrows : ∀ id row, s'.rows id = some row → row.inprogress ≠ 0 →
      ∃ row, s.rows id = some row ∧ row.inprogress ≠ 0)
    (htasks : ∀ p, s.marked p = true → s.settled p = 0 →
      (s'.tasks p).taskid = (s.tasks p).taskid ∧ s'.marked p = true ∧ s'.settled p = 0) :
    Claimed s' := by
  intro id row hrow hbusy
  obtain ⟨row', hrow', hbusy'⟩ := hrows id row hrow hbusy
  obtain ⟨p, hid, hmarked, hsettled⟩ := h id row' hrow' hbusy'
  obtain ⟨hid', hmarked', hsettled'⟩ := htasks p hmarked hsettled
  exact ⟨p, hid'.trans hid, hmarked', hsettled'⟩

/-- One task changes. -/
theorem Inv.of_task (h : Inv s) (p : Nat) (alive : s'.aborted = false) (listed : Listed s')
    (hborn : s.place p ≠ .unborn) (hnext : s'.next = s.next)
    (hother : ∀ q, q ≠ p → s'.view q = s.view q) (hp : (s'.view p).Ok) (claimed : Claimed s') :
    Inv s' where
  alive := alive
  listed := listed
  tasks q := by
    by_cases hq : q = p
    · subst hq
      exact hp
    · rw [hother q hq]
      exact h.tasks q
  fresh q hq := by
    rw [hnext] at hq
    have hunborn := h.fresh q hq
    have hne : q ≠ p := by
      rintro rfl
      exact hborn hunborn
    have hplace : (s'.view q).place = (s.view q).place := by rw [hother q hne]
    exact hplace.trans hunborn
  claimed := claimed

/-- A task goes on with its duties as they are. -/
theorem Inv.setPlace (h : Inv s) (hborn : s.place p ≠ .unborn) (hwaits : s.place p ≠ .waits)
    (hl : l ≠ .waits) (hok : ({ s.view p with place := l } : View).Ok) : Inv (s.setPlace p l) := by
  refine h.of_task p h.alive (h.listed.frame ⟨rfl, rfl, rfl, rfl, fun _ => rfl, fun _ => rfl, ?_,
    fun _ => rfl⟩) hborn rfl (fun q hq => view_setPlace_of_ne s l hq) ?_ h.claimed
  · intro q
    by_cases hq : q = p
    · subst hq
      simp [State.setPlace, hl, hwaits]
    · simp [State.setPlace, Function.update_of_ne hq]
  · rw [view_setPlace_self]
    exact hok

theorem View.Ok.runs {v : View} (h : v.Ok)
    (hk : k.Dutiful v.indwllist v.answered v.marked v.settled v.freed) :
    ({ v with place := .runs k } : View).Ok := ⟨h.marked, hk⟩

/-! ## Calls -/

theorem Inv.settled (h : Inv s) {rows : Nat → Option TaskRow}
    (hat : ∃ k, s.place p = .runs k)
    (hrows : ∀ id, id ≠ (s.tasks p).taskid → rows id = s.rows id)
    (hrow : ∀ row, rows (s.tasks p).taskid = some row → row.inprogress = 0)
    (hk : k.Dutiful (s.tasks p).indwllist (s.answered p) (s.marked p) (s.settled p + 1)
      (s.freed p)) :
    Inv (State.setPlace (State.settles { s with rows := rows } p) p (.runs k)) := by
  obtain ⟨k', hat⟩ := hat
  refine h.of_task p h.alive (h.listed.frame ⟨rfl, rfl, rfl, rfl, fun _ => rfl, fun _ => rfl, ?_,
    fun _ => rfl⟩) (by rw [hat]; exact Place.noConfusion) rfl ?_ ?_ ?_
  · intro q
    by_cases hq : q = p
    · subst hq
      simp [State.setPlace, State.settles, hat]
    · simp [State.setPlace, State.settles, Function.update_of_ne hq]
  · intro q hq
    simp [State.view, State.setPlace, State.settles, Function.update_of_ne hq]
  · rw [view_setPlace_self]
    refine ⟨(h.tasks p).marked, ?_⟩
    simpa [State.view, State.settles] using hk
  · intro id row hfound hbusy
    have hfound' : rows id = some row := hfound
    have hid : id ≠ (s.tasks p).taskid := by
      rintro rfl
      exact hbusy (hrow row hfound')
    rw [hrows id hid] at hfound'
    obtain ⟨q, htask, hmarked, hsettled⟩ := h.claimed id row hfound' hbusy
    have hq : q ≠ p := by
      rintro rfl
      exact hid htask.symm
    refine ⟨q, htask, hmarked, ?_⟩
    simpa [State.settles, State.setPlace, Function.update_of_ne hq] using hsettled

theorem Inv.marks (h : Inv s) {val : Nat} (hval : val ≠ 0) (hat : ∃ k, s.place p = .runs k)
    (hk : s.settled p = 0 ∧ s.freed p = 0 ∧
      k.Dutiful (s.tasks p).indwllist (s.answered p) true (s.settled p) (s.freed p)) :
    Inv ((s.setTaskInprogress p val).setPlace p (.runs k)) := by
  obtain ⟨k', hat⟩ := hat
  simp only [State.setTaskInprogress, if_neg hval]
  refine h.of_task p h.alive (h.listed.frame ⟨rfl, rfl, rfl, rfl, fun _ => rfl, fun _ => rfl, ?_,
    fun _ => rfl⟩) (by rw [hat]; exact Place.noConfusion) rfl ?_ ?_ ?_
  · intro q
    by_cases hq : q = p
    · subst hq
      simp [State.setPlace, hat]
    · simp [State.setPlace, Function.update_of_ne hq]
  · intro q hq
    simp [State.view, State.setPlace, Function.update_of_ne hq]
  · rw [view_setPlace_self]
    refine ⟨fun _ => by simp [State.view], ?_⟩
    simpa [State.view] using hk.2.2
  · intro id row hfound hbusy
    by_cases hid : id = (s.tasks p).taskid
    · exact ⟨p, hid.symm, by simp [State.setPlace], hk.1⟩
    · have hfound' : s.rows id = some row := by
        simpa [State.setPlace, Function.update_of_ne hid] using hfound
      obtain ⟨q, htask, hmarked, hsettled⟩ := h.claimed id row hfound' hbusy
      refine ⟨q, htask, ?_, hsettled⟩
      by_cases hq : q = p
      · subst hq
        simp [State.setPlace]
      · simpa [State.setPlace, Function.update_of_ne hq] using hmarked

/-- A task that a thread has is freed. -/
theorem Listed.freed (h : Listed s) (hat : s.place p = .runs k) (hfreed : s.freed p = 0)
    (k' : Code) : Listed ((s.freeDownloadTask p).setPlace p (.runs k')) := by
  have hmem : p ∈ s.downloads ↔ (s.tasks p).indwllist = true := by
    rw [h.mem, hat]
    simp [hfreed]
  unfold State.freeDownloadTask
  cases hin : (s.tasks p).indwllist with
  | true =>
    have hcurrent : p ∈ s.current := mem_current.mpr ⟨hmem.mpr hin, hin⟩
    simp only [if_true]
    refine ⟨h.nodup.erase p, fun q => ?_, ?_⟩
    · by_cases hq : q = p
      · subst hq
        simp [State.setPlace, State.uncount, h.nodup.mem_erase_iff]
      · have hq' := h.mem q
        simpa [State.setPlace, State.uncount, Function.update_of_ne hq, List.mem_erase_of_ne hq]
          using hq'
    · obtain ⟨hstarted, hfiles, hbytes⟩ := h.uncounted hcurrent
      exact ⟨hstarted, hfiles, hbytes⟩
  | false =>
    simp only [Bool.false_eq_true, if_false]
    refine ⟨h.nodup, fun q => ?_, ?_⟩
    · by_cases hq : q = p
      · subst hq
        simp [State.setPlace, hmem, hin]
      · have hq' := h.mem q
        simpa [State.setPlace, Function.update_of_ne hq] using hq'
    · obtain ⟨hstarted, hfiles, hbytes⟩ := h.counts
      exact ⟨hstarted, hfiles, hbytes⟩

theorem freeDownloadTask_rows (s : State) (p : Nat) : (s.freeDownloadTask p).rows = s.rows := by
  unfold State.freeDownloadTask
  split <;> rfl

theorem freeDownloadTask_tasks (s : State) (p : Nat) : (s.freeDownloadTask p).tasks = s.tasks := by
  unfold State.freeDownloadTask
  split <;> rfl

theorem freeDownloadTask_view (s : State) (p q : Nat) :
    (s.freeDownloadTask p).view q =
      { s.view q with freed := Function.update s.freed p (s.freed p + 1) q } := by
  unfold State.freeDownloadTask
  split <;> rfl

theorem Inv.frees (h : Inv s) (hat : s.place p = .runs (.call .freeDownloadTask k)) :
    Inv ((s.freeDownloadTask p).setPlace p (.runs k)) := by
  obtain ⟨hfreed, hk⟩ := h.dutiful hat
  have hghost : (s.freeDownloadTask p).aborted = s.aborted ∧
      (s.freeDownloadTask p).next = s.next ∧ (s.freeDownloadTask p).marked = s.marked ∧
      (s.freeDownloadTask p).settled = s.settled := by
    unfold State.freeDownloadTask
    split <;> exact ⟨rfl, rfl, rfl, rfl⟩
  obtain ⟨halive, hnext, hmarked, hsettled⟩ := hghost
  refine h.of_task p (halive.trans h.alive) (h.listed.freed hat hfreed k)
    (by rw [hat]; exact Place.noConfusion) hnext ?_ ?_ ?_
  · intro q hq
    rw [view_setPlace_of_ne _ _ hq, freeDownloadTask_view, Function.update_of_ne hq]
    rfl
  · rw [view_setPlace_self, freeDownloadTask_view]
    refine ⟨(h.tasks p).marked, ?_⟩
    simpa [State.view] using hk
  · refine h.claimed.frame ?_ ?_
    · intro id row hrow hbusy
      exact ⟨row, by rw [← hrow]; exact (congrFun (freeDownloadTask_rows s p) id).symm, hbusy⟩
    · intro q hq hq'
      exact ⟨congrArg DownloadTask.taskid (congrFun (freeDownloadTask_tasks s p) q),
        (congrFun hmarked q).trans hq, (congrFun hsettled q).trans hq'⟩

theorem Inv.call (h : Inv s) {c : Call} (hat : s.place p = .runs (.call c k)) :
    Inv (s.call p k c) := by
  have hcode := h.dutiful hat
  have hborn : s.place p ≠ .unborn := by
    rw [hat]
    exact Place.noConfusion
  have hwaits : s.place p ≠ .waits := by
    rw [hat]
    exact Place.noConfusion
  have goes (hk : k.Dutiful (s.tasks p).indwllist (s.answered p) (s.marked p) (s.settled p)
      (s.freed p)) :
      Inv (s.setPlace p (.runs k)) :=
    h.setPlace hborn hwaits Place.noConfusion ((h.tasks p).runs hk)
  cases c with
  | setTaskInprogress val =>
    simp only [Code.Dutiful] at hcode
    by_cases hval : val = 0
    · subst hval
      rw [if_pos rfl] at hcode
      refine h.settled ⟨_, hat⟩ (fun id hid => Function.update_of_ne hid _ _) ?_ hcode
      intro row hrow
      rw [Function.update_self, Option.map_eq_some_iff] at hrow
      obtain ⟨_, -, rfl⟩ := hrow
      rfl
    · rw [if_neg hval] at hcode
      exact h.marks hval ⟨_, hat⟩ hcode
  | deleteTask =>
    refine h.settled ⟨_, hat⟩ (fun id hid => Function.update_of_ne hid _ _) ?_ hcode
    intro row hrow
    rw [Function.update_self] at hrow
    cases hrow
  | freeDownloadTask => exact h.frees hat
  | timerRegister => exact h.setPlace hborn hwaits Place.noConfusion ⟨(h.tasks p).marked, hcode⟩
  | updateFile size hash =>
    obtain ⟨halive, hlisted, htasks, hfresh, hclaimed⟩ := goes hcode
    exact ⟨halive, hlisted.frame ⟨rfl, rfl, rfl, rfl, fun _ => rfl, fun _ => rfl, fun _ => Iff.rfl,
      fun _ => rfl⟩, htasks, hfresh, hclaimed⟩
  | fileDelete => exact goes hcode
  | assert cond =>
    obtain ⟨rfl, hk⟩ := hcode
    exact goes hk

/-! ## The download thread -/

theorem Inv.enlist (h : Inv s) (id : Nat) (row : TaskRow) (file : File) :
    Inv (s.enlist id row file) := by
  have hunborn := h.fresh s.next (le_refl _)
  obtain ⟨hin, hmarked, hanswered, hsettled, hfreed⟩ := h.new_of_unborn hunborn
  have hnot : s.next ∉ s.downloads := by
    rw [h.listed.mem, hunborn]
    rintro (hwaits | ⟨hlisted, -⟩)
    · cases hwaits
    · rw [show (s.tasks s.next).indwllist = false from hin] at hlisted
      cases hlisted
  have hne (q : Nat) (hq : q ∈ s.downloads) : q ≠ s.next := by
    rintro rfl
    exact hnot hq
  have hcurrent : (s.enlist id row file).current = s.current := by
    simp only [State.current, State.enlist, List.filter_append]
    have hlast : [s.next].filter (fun p => (Function.update s.tasks s.next
        (⟨id, row.itemid, row.syncid, 0, file.size, 0, false⟩ : DownloadTask) p).indwllist) =
          [] := by
      simp
    rw [hlast, List.append_nil]
    refine List.filter_congr fun q hq => ?_
    rw [Function.update_of_ne (hne q hq)]
  refine ⟨h.alive, ⟨?_, fun q => ?_, ?_⟩, fun q => ?_, fun q hq => ?_, ?_⟩
  · exact List.nodup_append.mpr ⟨h.listed.nodup, List.nodup_singleton _,
      fun a ha b hb => by rw [List.mem_singleton.mp hb]; exact hne a ha⟩
  · by_cases hq : q = s.next
    · subst hq
      simp [State.enlist]
    · have hq' := h.listed.mem q
      simpa [State.enlist, Function.update_of_ne hq, hq] using hq'
  · have hmap : s.current.map (s.enlist id row file).tasks = s.current.map s.tasks :=
      List.map_congr_left fun q hq =>
        Function.update_of_ne (hne q (mem_current.mp hq).1) _ _
    rw [hcurrent, hmap]
    exact ⟨h.listed.counts.started, h.listed.counts.files, h.listed.counts.bytes⟩
  · by_cases hq : q = s.next
    · subst hq
      refine ⟨(h.tasks s.next).marked, ?_⟩
      have hplace : ((s.enlist id row file).view s.next).place = .waits :=
        Function.update_self _ _ _
      rw [hplace]
      refine ⟨?_, hmarked, hanswered, hsettled, hfreed⟩
      simp [State.view, State.enlist]
    · have hview : (s.enlist id row file).view q = s.view q := by
        simp [State.view, State.enlist, Function.update_of_ne hq]
      rw [hview]
      exact h.tasks q
  · have hq' : s.next + 1 ≤ q := hq
    have hne' : q ≠ s.next := by omega
    exact (Function.update_of_ne hne' _ _).trans (h.fresh q (by omega))
  · refine h.claimed.frame (fun _ row hrow hbusy => ⟨row, hrow, hbusy⟩) fun q hq hq' => ?_
    have hne' : q ≠ s.next := by
      rintro rfl
      rw [show s.marked s.next = false from hmarked] at hq
      cases hq
    exact ⟨congrArg DownloadTask.taskid (Function.update_of_ne hne' _ _), hq, hq'⟩

/-- A task that was stopped while it waited. -/
theorem Inv.refuse (h : Inv s) (hat : s.place p = .waits) :
    Inv (State.setPlace { s with downloads := s.downloads.erase p } p
      (.runs (.calls [.freeDownloadTask]))) := by
  obtain ⟨hin, hmarked, hanswered, hsettled, hfreed⟩ := h.new_of_waits hat
  have hin' : (s.tasks p).indwllist = false := hin
  have hcurrent : (s.downloads.erase p).filter (fun q => (s.tasks q).indwllist) = s.current := by
    rw [h.listed.nodup.erase_eq_filter, List.filter_filter]
    refine List.filter_congr fun q _ => ?_
    by_cases hq : q = p
    · subst hq
      simp [hin']
    · simp [hq]
  refine h.of_task p h.alive ⟨h.listed.nodup.erase p, fun q => ?_, ?_⟩
    (by rw [hat]; exact Place.noConfusion) rfl
    (fun q hq => view_setPlace_of_ne _ _ hq) ?_ h.claimed
  · by_cases hq : q = p
    · subst hq
      simp [State.setPlace, h.listed.nodup.mem_erase_iff, hin']
    · have hq' := h.listed.mem q
      simpa [State.setPlace, Function.update_of_ne hq, List.mem_erase_of_ne hq] using hq'
  · obtain ⟨hstarted, hfiles, hbytes⟩ := h.listed.counts
    rw [← hcurrent] at hstarted hfiles hbytes
    exact ⟨hstarted, hfiles, hbytes⟩
  · rw [view_setPlace_self]
    refine ⟨(h.tasks p).marked, ?_⟩
    have hfreed' : s.freed p = 0 := hfreed
    have hmarked' : s.marked p = false := hmarked
    simp [Code.calls, Code.Dutiful, State.view, hfreed', hmarked']

/-- A task is counted. -/
theorem Inv.accept (h : Inv s) (hat : s.place p = .waits) (k : Code)
    (hk : k.Dutiful true false false 0 0) :
    Inv (State.setPlace
      { s.setTask p { s.tasks p with indwllist := true } with
        bytestodownloadcurrent := s.bytestodownloadcurrent + (s.tasks p).size
        filesdownloading := s.filesdownloading + 1
        startedDownloads := s.startedDownloads + 1 } p (.runs k)) := by
  obtain ⟨hin, hmarked, hanswered, hsettled, hfreed⟩ := h.new_of_waits hat
  have hin' : (s.tasks p).indwllist = false := hin
  have hfreed' : s.freed p = 0 := hfreed
  have hmem : p ∈ s.downloads := (h.listed.mem p).mpr (.inl hat)
  refine h.of_task p h.alive ⟨h.listed.nodup, fun q => ?_, ?_⟩
    (by rw [hat]; exact Place.noConfusion) rfl ?_ ?_ ?_
  · by_cases hq : q = p
    · subst hq
      simp [State.setPlace, State.setTask, hmem, hfreed']
    · have hq' := h.listed.mem q
      simpa [State.setPlace, State.setTask, Function.update_of_ne hq] using hq'
  · have hcounts := h.listed.counted hmem hin'
      (show ({ s.tasks p with indwllist := true } : DownloadTask).indwllist = true from rfl)
    refine Counts.perm ⟨?_, ?_, ?_⟩ hcounts.symm
    · exact congrArg (· + 1) h.listed.counts.started
    · exact congrArg (· + 1) h.listed.counts.files
    · simp only [List.map_cons, List.sum_cons]
      rw [← h.listed.counts.bytes]
      exact add_comm _ _
  · intro q hq
    simp [State.view, State.setPlace, State.setTask, Function.update_of_ne hq]
  · rw [view_setPlace_self]
    refine ⟨(h.tasks p).marked, ?_⟩
    have hmarked' : s.marked p = false := hmarked
    have hsettled' : s.settled p = 0 := hsettled
    have hanswered' : s.answered p = false := hanswered
    simpa [State.view, State.setTask, hfreed', hmarked', hanswered', hsettled'] using hk
  · refine h.claimed.frame (fun _ row hrow hbusy => ⟨row, hrow, hbusy⟩) fun q hq hq' =>
      ⟨?_, hq, hq'⟩
    by_cases hqp : q = p
    · subst hqp
      simp [State.setPlace, State.setTask]
    · simp [State.setPlace, State.setTask, Function.update_of_ne hqp]

/-! ## `task_download_file` -/

/-- A task in `task_download_file` changes, and is still counted. -/
theorem Inv.downloading (h : Inv s) (hat : s.place p = .downloads) {dt : DownloadTask}
    (hid : dt.taskid = (s.tasks p).taskid) (hin : dt.indwllist = true) {bytes received : BitVec 64}
    (hbytes : bytes = s.bytestodownloadcurrent - (s.tasks p).size + dt.size) :
    Inv { s.setTask p dt with bytestodownloadcurrent := bytes, bytesdownloaded := received } := by
  obtain ⟨-, hcounted, -, -, hfreed⟩ := h.owed (.inl hat)
  have hcounted' : (s.tasks p).indwllist = true := hcounted
  have hmem : p ∈ s.downloads := (h.listed.mem p).mpr (.inr ⟨hcounted, hfreed⟩)
  have hcurrent : p ∈ s.current := mem_current.mpr ⟨hmem, hcounted⟩
  have hview (q : Nat) : State.view { s.setTask p dt with
      bytestodownloadcurrent := bytes, bytesdownloaded := received } q = s.view q := by
    by_cases hq : q = p
    · subst hq
      simp [State.view, State.setTask, hin, hcounted']
    · simp [State.view, State.setTask, Function.update_of_ne hq]
  refine h.of_task p h.alive ⟨h.listed.nodup, fun q => ?_, ?_⟩
    (by rw [hat]; exact Place.noConfusion) rfl (fun q _ => hview q) ?_ ?_
  · have hq := h.listed.mem q
    have hin' : (Function.update s.tasks p dt q).indwllist = (s.tasks q).indwllist :=
      congrArg View.indwllist (hview q)
    simpa [State.setTask, hin'] using hq
  · have hold := h.listed.counts.perm (current_split hcurrent)
    have hnew : Counts { s.setTask p dt with
        bytestodownloadcurrent := bytes, bytesdownloaded := received }
        (dt :: (s.current.erase p).map s.tasks) := by
      refine ⟨hold.started, hold.files, ?_⟩
      have hsum := hold.bytes
      simp only [List.map_cons, List.sum_cons] at hsum ⊢
      rw [hbytes, hsum, add_sub_cancel_left]
      exact add_comm _ _
    exact hnew.perm (h.listed.changed hcurrent hin).symm
  · rw [hview p]
    exact h.tasks p
  · refine h.claimed.frame (fun _ row hrow hbusy => ⟨row, hrow, hbusy⟩) fun q hq hq' =>
      ⟨?_, hq, hq'⟩
    by_cases hqp : q = p
    · subst hqp
      simpa [State.setTask] using hid
    · simp [State.setTask, Function.update_of_ne hqp]

/-! ## Other threads -/

/-- The tasks in the database change, and none is put in progress. -/
theorem Inv.tables (h : Inv s) {rows : Nat → Option TaskRow} {files : Nat → Option File}
    (hrows : ∀ id row, rows id = some row → row.inprogress ≠ 0 → s.rows id = some row) :
    Inv { s with rows := rows, files := files } := by
  refine ⟨h.alive, h.listed.frame ⟨rfl, rfl, rfl, rfl, fun _ => rfl, fun _ => rfl,
    fun _ => Iff.rfl, fun _ => rfl⟩, h.tasks, h.fresh, ?_⟩
  exact h.claimed.frame (fun id row hrow hbusy => ⟨row, hrows id row hrow hbusy, hbusy⟩)
    fun _ hq hq' => ⟨rfl, hq, hq'⟩

theorem Inv.stopDownloads (h : Inv s) (sel : DownloadTask → Bool) (stop : Nat) :
    Inv (s.stopDownloads sel stop) := by
  have htask (q : Nat) : ((s.stopDownloads sel stop).tasks q).indwllist = (s.tasks q).indwllist ∧
      ((s.stopDownloads sel stop).tasks q).size = (s.tasks q).size ∧
      ((s.stopDownloads sel stop).tasks q).taskid = (s.tasks q).taskid := by
    simp only [State.stopDownloads]
    split <;> exact ⟨rfl, rfl, rfl⟩
  refine ⟨h.alive, h.listed.frame ⟨rfl, rfl, rfl, rfl, fun q => (htask q).1,
    fun q => (htask q).2.1, fun _ => Iff.rfl, fun _ => rfl⟩, fun q => ?_, h.fresh, ?_⟩
  · have hview : (s.stopDownloads sel stop).view q = s.view q := by
      simp only [State.view, (htask q).1]
      rfl
    rw [hview]
    exact h.tasks q
  · exact h.claimed.frame (fun _ row hrow hbusy => ⟨row, hrow, hbusy⟩)
      fun q hq hq' => ⟨(htask q).2.2, hq, hq'⟩

end PcloudClient.Pdownload
