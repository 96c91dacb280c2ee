/-
  Pdownload/Duties.lean --- what every piece of code owes its task: to settle its row once, to
  free it once, and to keep it on the list and in the counters until then.
-/
import Mathlib.Data.List.Perm.Basic
import Mathlib.Algebra.BigOperators.Group.List.Basic
import PcloudClient.Pdownload.Tasks

set_option autoImplicit false

namespace PcloudClient.Pdownload

/-! ## The duties of code -/

/-- Every way through the code frees the task once and, if it was put in progress, settles its
row once, counting what was done before; a task is handed on only with both still to do, and
counted, and not to a download again once it was answered. -/
def Code.Dutiful (counted answered : Bool) : Code → Bool → Nat → Nat → Prop
  | .done, marked, settled, freed => freed = 1 ∧ (marked = true → settled = 1)
  | .call (.setTaskInprogress val) k, marked, settled, freed =>
    if val = 0 then k.Dutiful counted answered marked (settled + 1) freed
    else settled = 0 ∧ freed = 0 ∧ k.Dutiful counted answered true settled freed
  | .call .deleteTask k, marked, settled, freed =>
    k.Dutiful counted answered marked (settled + 1) freed
  | .call .freeDownloadTask k, marked, settled, freed =>
    freed = 0 ∧ k.Dutiful counted answered marked settled (freed + 1)
  | .call .timerRegister _, marked, settled, freed =>
    counted = true ∧ marked = true ∧ settled = 0 ∧ freed = 0
  | .call (.updateFile _ _) k, marked, settled, freed =>
    k.Dutiful counted answered marked settled freed
  | .call .fileDelete k, marked, settled, freed => k.Dutiful counted answered marked settled freed
  | .call (.assert cond) k, marked, settled, freed =>
    cond = true ∧ k.Dutiful counted answered marked settled freed
  | .test _ yes no, marked, settled, freed =>
    yes.Dutiful counted answered marked settled freed ∧
      no.Dutiful counted answered marked settled freed
  | .startsAsync _ failed, marked, settled, freed =>
    (answered = false ∧ counted = true ∧ marked = true ∧ settled = 0 ∧ freed = 0) ∧
      failed.Dutiful counted answered marked settled freed
  | .startsThread, marked, settled, freed =>
    answered = false ∧ counted = true ∧ marked = true ∧ settled = 0 ∧ freed = 0

/-- The result that is handled is no success of a download whose temporary file is to be deleted,
and the assertion on it holds. -/
def Handles (debug : Bool) (dt : DownloadTask) (res : AsyncResult) : Prop :=
  (res.error = 0 → dt.stop ≠ 2) ∧
    (debug = true → res.error = serverErrorTooBig → maxSizeForAsyncDownload < res.size)

variable {debug answered : Bool} {dt : DownloadTask} {res : AsyncResult} {s s' : State} {p q : Nat}

attribute [local simp] Code.calls Code.Dutiful

theorem handleAsyncError_dutiful
    (h : debug = true → res.error = serverErrorTooBig → maxSizeForAsyncDownload < res.size) :
    (handleAsyncError debug res).Dutiful true answered true 0 0 := by
  unfold handleAsyncError
  split
  · next hbig =>
    cases debug with
    | false => simp
    | true => simp [h rfl hbig]
  · split
    · simp
    · simp

theorem finishAsyncDownload_dutiful (h : Handles debug dt res) :
    (finishAsyncDownload debug dt res).Dutiful true answered true 0 0 := by
  unfold finishAsyncDownload
  split
  · exact handleAsyncError_dutiful h.2
  · next herror =>
    rw [if_neg (h.1 (not_not.mp herror))]
    simp

theorem callback_dutiful {existing : Bool} (h : Handles debug dt res) :
    (callback existing debug dt res).Dutiful true answered true 0 0 := by
  unfold callback
  split
  · unfold finishAsyncDownloadExisting
    split
    · simp [finishAsyncDownloadExistingNotMod]
    · exact finishAsyncDownload_dutiful h
  · exact finishAsyncDownload_dutiful h

theorem freeTaskTimerThread_dutiful : freeTaskTimerThread.Dutiful true answered true 0 0 := by
  simp [freeTaskTimerThread]

theorem taskRunDownloadFileThread_dutiful (ret : Bool) :
    (taskRunDownloadFileThread ret).Dutiful true answered true 0 0 := by
  unfold taskRunDownloadFileThread
  split
  · simp
  · simp

theorem checkSpace_dutiful (size : BitVec 64) (existing : Bool) :
    (checkSpace size existing).Dutiful true false false 0 0 := by
  unfold checkSpace startDownload
  split
  · simp
  · simp

theorem keepLocal_dutiful (t : Test) : (keepLocal t).Dutiful true false false 0 0 := by
  simp [keepLocal]

theorem taskRunDownloadFile_dutiful (size : BitVec 64) :
    (taskRunDownloadFile size).Dutiful true false false 0 0 :=
  ⟨keepLocal_dutiful _, ⟨keepLocal_dutiful _, checkSpace_dutiful _ _⟩, checkSpace_dutiful _ _⟩

/-! ## One task -/

/-- What the duties of a task are about. -/
structure View where
  place : Place
  indwllist : Bool
  marked : Bool
  answered : Bool
  settled : Nat
  freed : Nat

def State.view (s : State) (p : Nat) : View :=
  ⟨s.place p, (s.tasks p).indwllist, s.marked p, s.answered p, s.settled p, s.freed p⟩

namespace View

/-- Nothing was done to the task yet. -/
def New (v : View) : Prop :=
  v.indwllist = false ∧ v.marked = false ∧ v.answered = false ∧ v.settled = 0 ∧ v.freed = 0

/-- All duties are still to be done. -/
def Owed (v : View) : Prop :=
  v.indwllist = true ∧ v.marked = true ∧ v.settled = 0 ∧ v.freed = 0

structure Ok (v : View) : Prop where
  marked : v.answered = true → v.marked = true
  duties : match v.place with
    | .unborn | .waits => v.New
    | .runs k => k.Dutiful v.indwllist v.answered v.marked v.settled v.freed
    | .downloads | .pending _ => v.answered = false ∧ v.Owed
    | .timer => v.Owed

end View

/-! ## The list and the counters -/

/-- The counters are those of the tasks. -/
structure Counts (s : State) (dts : List DownloadTask) : Prop where
  started : s.startedDownloads = dts.length
  files : s.filesdownloading = dts.length
  bytes : s.bytestodownloadcurrent = (dts.map DownloadTask.size).sum

theorem Counts.perm {dts dts' : List DownloadTask} (h : Counts s dts) (hp : dts.Perm dts') :
    Counts s dts' where
  started := h.started.trans hp.length_eq
  files := h.files.trans hp.length_eq
  bytes := h.bytes.trans (hp.map _).sum_eq

structure Listed (s : State) : Prop where
  nodup : s.downloads.Nodup
  mem : ∀ p, p ∈ s.downloads ↔
    s.place p = .waits ∨ ((s.tasks p).indwllist = true ∧ s.freed p = 0)
  counts : Counts s (s.current.map s.tasks)

/-- The list, the counters and what they are about did not change. -/
structure SameList (s s' : State) : Prop where
  downloads : s'.downloads = s.downloads
  started : s'.startedDownloads = s.startedDownloads
  files : s'.filesdownloading = s.filesdownloading
  bytes : s'.bytestodownloadcurrent = s.bytestodownloadcurrent
  indwllist : ∀ p, (s'.tasks p).indwllist = (s.tasks p).indwllist
  size : ∀ p, (s'.tasks p).size = (s.tasks p).size
  waits : ∀ p, s'.place p = .waits ↔ s.place p = .waits
  freed : ∀ p, s'.freed p = s.freed p

theorem mem_current : p ∈ s.current ↔ p ∈ s.downloads ∧ (s.tasks p).indwllist = true := by
  simp [State.current]

theorem SameList.current (h : SameList s s') : s'.current = s.current := by
  unfold State.current
  rw [h.downloads]
  exact List.filter_congr fun p _ => h.indwllist p

theorem Listed.frame (h : Listed s) (same : SameList s s') : Listed s' where
  nodup := by
    rw [same.downloads]
    exact h.nodup
  mem p := by
    rw [same.downloads, same.waits, same.indwllist, same.freed]
    exact h.mem p
  counts := by
    have hlen : (s'.current.map s'.tasks).length = (s.current.map s.tasks).length := by
      simp [same.current]
    have hsize : (s'.current.map s'.tasks).map DownloadTask.size =
        (s.current.map s.tasks).map DownloadTask.size := by
      rw [same.current, List.map_map, List.map_map]
      exact List.map_congr_left fun p _ => same.size p
    exact ⟨by rw [hlen, same.started, h.counts.started], by rw [hlen, same.files, h.counts.files],
      by rw [hsize, same.bytes, h.counts.bytes]⟩

/-- A task that is on the list and counted, apart from the others. -/
theorem current_split (hp : p ∈ s.current) :
    (s.current.map s.tasks).Perm (s.tasks p :: (s.current.erase p).map s.tasks) :=
  (List.perm_cons_erase hp).map s.tasks

theorem Listed.current_nodup (h : Listed s) : s.current.Nodup := h.nodup.filter _

theorem Listed.uncount_current (h : Listed s) (p : Nat) :
    (s.uncount p).current = s.current.erase p := by
  have herase : (s.uncount p).current =
      (s.downloads.erase p).filter fun q => (s.tasks q).indwllist := rfl
  rw [herase, h.nodup.erase_eq_filter, State.current, (h.nodup.filter _).erase_eq_filter,
    List.filter_filter, List.filter_filter]
  exact List.filter_congr fun q _ => Bool.and_comm _ _

/-- A task is taken from the list. -/
theorem Listed.uncounted (h : Listed s) (hp : p ∈ s.current) :
    Counts (s.uncount p) ((s.uncount p).current.map s.tasks) := by
  have hcurrent := h.uncount_current p
  have hcounts := h.counts.perm (current_split hp)
  rw [hcurrent]
  refine ⟨?_, ?_, ?_⟩
  · have hstarted := hcounts.started
    simp only [List.length_cons] at hstarted
    simp only [State.uncount]
    omega
  · have hfiles := hcounts.files
    simp only [List.length_cons] at hfiles
    simp only [State.uncount]
    omega
  · have hbytes := hcounts.bytes
    simp only [List.map_cons, List.sum_cons] at hbytes
    simp only [State.uncount]
    rw [hbytes]
    exact add_sub_cancel_left _ _

/-- A task on the list becomes counted. -/
theorem Listed.counted (h : Listed s) (hmem : p ∈ s.downloads)
    (hin : (s.tasks p).indwllist = false) (hdt : dt.indwllist = true) :
    ((s.downloads.filter fun q => (Function.update s.tasks p dt q).indwllist).map
      (Function.update s.tasks p dt)).Perm (dt :: s.current.map s.tasks) := by
  have hother (q : Nat) (hq : q ∈ s.downloads.erase p) :
      Function.update s.tasks p dt q = s.tasks q :=
    Function.update_of_ne (h.nodup.mem_erase_iff.mp hq).1 _ _
  have hnew := (List.perm_cons_erase hmem).filter fun q =>
    (Function.update s.tasks p dt q).indwllist
  have hold := (List.perm_cons_erase hmem).filter fun q => (s.tasks q).indwllist
  have hrest : ((s.downloads.erase p).filter fun q =>
      (Function.update s.tasks p dt q).indwllist) =
        (s.downloads.erase p).filter fun q => (s.tasks q).indwllist :=
    List.filter_congr fun q hq => by rw [hother q hq]
  rw [List.filter_cons_of_pos (by simp [hdt]), hrest] at hnew
  rw [List.filter_cons_of_neg (by simp [hin])] at hold
  refine (hnew.map _).trans ?_
  rw [List.map_cons, Function.update_self,
    List.map_congr_left fun q hq => hother q (List.mem_of_mem_filter hq)]
  exact ((hold.map s.tasks).symm).cons dt

/-- A counted task gets another value. -/
theorem Listed.changed (h : Listed s) (hp : p ∈ s.current)
    (hdt : dt.indwllist = true) :
    ((s.downloads.filter fun q => (Function.update s.tasks p dt q).indwllist).map
      (Function.update s.tasks p dt)).Perm (dt :: (s.current.erase p).map s.tasks) := by
  have hcurrent : (s.downloads.filter fun q => (Function.update s.tasks p dt q).indwllist) =
      s.current := by
    refine List.filter_congr fun q _ => ?_
    by_cases hq : q = p
    · subst hq
      rw [Function.update_self, hdt, (mem_current.mp hp).2]
    · rw [Function.update_of_ne hq]
  have hmap : (s.current.erase p).map (Function.update s.tasks p dt) =
      (s.current.erase p).map s.tasks :=
    List.map_congr_left fun q hq =>
      Function.update_of_ne (h.current_nodup.mem_erase_iff.mp hq).1 _ _
  rw [hcurrent, ← hmap]
  have hsplit := (List.perm_cons_erase hp).map (Function.update s.tasks p dt)
  rwa [List.map_cons, Function.update_self] at hsplit

end PcloudClient.Pdownload
