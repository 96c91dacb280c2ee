/-
  Ppagecache/UrlCacheRuns.lean --- any number of threads at the URL cache.
-/
import PcloudClient.Ppagecache.UrlCacheProofs

set_option autoImplicit false

namespace PcloudClient.Ppagecache.UrlCache

variable {s s' : State}

/-- A search on a guided way, a key that loads where one is needed, and a request that fails while
it is sent only when it is not tried again. -/
def Meets (s : State) : Act → Prop
  | .get i => Guided (s.threads i).hash s.tree
  | .keyFails _ => False
  | .requestFails i => s.mayRetry i = false
  | _ => True

theorem Inv.step {a : Act} (h : Inv s) (hstep : Step s a s') (hmeets : Meets s a) : Inv s' := by
  cases hstep with
  | start hash needkey at_ => exact h.idle rfl (by rw [at_]; rfl) rfl
  | @offline i at_ => exact h.idle (h.even fun v => by rw [at_]; simp) (by rw [at_]; rfl) rfl
  | get at_ => exact h.getUrlsForRequest at_ hmeets
  | wake at_ => exact h.awaitUrls at_
  | fetched res key at_ => exact h.fetched at_ res key
  | keyFails => exact hmeets.elim
  | @keyLoaded i u at_ key =>
    exact h.thread (h.balanced i) (fun _ => rfl) (fun _ => rfl) fun v hv => (h.entry v).used i hv
  | finish at_ key => exact h.releaseUrls at_ rfl
  | requestAgain at_ key again => exact absurd (again.symm.trans hmeets) Bool.noConfusion
  | requestFails at_ key last => exact h.releaseUrls at_ rfl
  | @readAgain i u at_ key again =>
    have hout := @Inv.releaseBadUrls s i u h at_ .retry rfl
    have hplace : (((s.releaseBadUrls u).released i .retry).threads i).place = .retry := by
      simp [State.released, State.setThread]
    exact hout.idle (hout.even fun v => by rw [hplace]; simp) (by rw [hplace]; rfl) rfl
  | readFails at_ key last => exact h.releaseUrls at_ rfl

/-! ## Runs -/

/-- The states of a process all of whose steps meet the condition. -/
def Reaches (cond : State → Act → Prop) (s : State) : Prop :=
  Relation.ReflTransGen (fun s s' => ∃ a, Step s a s' ∧ cond s a) .init s

theorem Reaches.inv (h : Reaches Meets s) : Inv s := by
  induction h with
  | refl => exact .init
  | tail _ hlast ih =>
    obtain ⟨a, hstep, hmeets⟩ := hlast
    exact ih.step hstep hmeets

theorem EntryOk.alive {u : Nat} (h : EntryOk s u) (hlt : u < s.next) :
    s.freed u = 0 ↔ ∃ i, (s.threads i).place.entry = some u := by
  constructor
  · intro hlive
    rcases h.kept hlt hlive with hload | hpos
    · have hfetched := h.fetched
      rw [if_pos ⟨hlive, hload⟩] at hfetched
      obtain ⟨i, hi⟩ := hfetched.exists_of_pos Nat.one_pos
      refine ⟨i, ?_⟩
      by_contra hno
      exact absurd (Place.fetching_false hno) (by rw [hi]; exact Bool.noConfusion)
    · have hcounted := h.counted
      rw [if_pos hlive] at hcounted
      obtain ⟨i, hi⟩ := hcounted.exists_of_pos hpos
      exact ⟨i, Place.entry_of_holds hi⟩
  · rintro ⟨i, hi⟩
    cases hplace : (s.threads i).place with
    | waits v =>
      obtain rfl : v = u := by simpa [hplace, Place.entry] using hi
      exact (h.live (i := i) (by simp [hplace, Place.holds])).1
    | uses v =>
      obtain rfl : v = u := by simpa [hplace, Place.entry] using hi
      exact (h.live (i := i) (by simp [hplace, Place.holds])).1
    | fetches v =>
      obtain rfl : v = u := by simpa [hplace, Place.entry] using hi
      exact (h.loading hplace).1
    | _ => simp [hplace, Place.entry] at hi

theorem Reaches.next {cond : State → Act → Prop} {a : Act} (h : Reaches cond s)
    (hstep : Step s a s')
    (hcond : cond s a) : Reaches cond s' := h.tail ⟨a, hstep, hcond⟩

end PcloudClient.Ppagecache.UrlCache
