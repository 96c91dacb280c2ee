/-
  Ppathstatus/DriveEncrypted.lean --- for which paths of encrypted folders the status is right.
-/
import PcloudClient.Ppathstatus.DriveStatusProofs

set_option autoImplicit false

namespace PcloudClient.Ppathstatus.DriveStatus

open PcloudClient.Bytes PcloudClient.Crypto

namespace World

variable {w : World} {c : PathCache} {path : Bytes} {f f' : FolderId} {n' name : Name}
  {inner : List Name}

/-! ## The call -/

/-- What the path leads over, name by name. -/
def ReadsOf (w : World) (path : Bytes) : FolderId → Name → Prop :=
  w.Reads 0 (components path).1 (components path).2

/-- What a walk may look up for the path: it takes the names as the folders have them, or as they
are. -/
def Looked (w : World) (path : Bytes) (f : FolderId) (n : Name) : Prop :=
  w.ReadsOf path f n ∨ w.raw.ReadsOf path f n

/-- The names fit the buffer as they are stored. -/
def Fits (w : World) (path : Bytes) : Prop :=
  ∀ f n, w.Looked path f n → (w.stored f n).length < buffSize

theorem components_of_slashes (h : path.dropWhile isSlash = []) : components path = ([], []) := by
  rw [components, h]
  rfl

/-- A pass from the top, and the one that it may restart. -/
theorem pathStatusDrive_passes (hbusy : w.busy 0 = true) (c : PathCache) :
    w.pathStatusDrive c path =
      match w.walk false 0 false c (components path).1 (components path).2 with
      | .restart => w.walk true 0 false c (components path).1 (components path).2
      | p => p := by
  unfold pathStatusDrive
  rw [if_neg (by simp [hbusy])]
  split
  · next hslashes =>
    rw [components_of_slashes hslashes]
    rfl
  · rfl

/-- The call ends as its passes do, and does not restart. -/
theorem pathStatusDrive_of_passes {R : FolderId → Name → Prop} {st₀ : Status} {P : Prop}
    (hbusy : w.busy 0 = true)
    (hpass : ∀ wrlocked, w.Answers R wrlocked st₀ P
      (w.walk wrlocked 0 false c (components path).1 (components path).2)) :
    ∃ st c', w.pathStatusDrive c path = .returns st c' ∧ (st = st₀ ∨ (P ∧ st = .inSync)) ∧
      w.CacheOk R c' := by
  rw [pathStatusDrive_passes hbusy]
  have hfirst := hpass false
  have hsecond := hpass true
  cases hwalk : w.walk false 0 false c (components path).1 (components path).2 with
  | returns st c' =>
    rw [hwalk] at hfirst
    exact ⟨st, c', rfl, hfirst⟩
  | restart =>
    cases hwalk' : w.walk true 0 false c (components path).1 (components path).2 with
    | returns st c' =>
      rw [hwalk'] at hsecond
      exact ⟨st, c', rfl, hsecond⟩
    | restart =>
      rw [hwalk'] at hsecond
      cases hsecond
    | useAfterFree =>
      rw [hwalk'] at hsecond
      exact hsecond.elim
  | useAfterFree =>
    rw [hwalk] at hfirst
    exact hfirst.elim

theorem statusOf_of_busy (hbusy : w.busy 0 = true) :
    w.statusOf path = w.statusAt 0 (components path).1 (components path).2 := by
  rw [statusOf, if_pos hbusy]

/-- From any cache, the call returns the status that the path has by its names as they are, or it
takes a name of an encrypted folder for one in sync; and its cache is as those before. -/
theorem pathStatusDrive_answers {R : FolderId → Name → Prop} (h : w.Marked)
    (hdistinct : w.Distinct R) (hR : ∀ f n, w.raw.ReadsOf path f n → R f n) (hfits : w.Fits path)
    (hc : w.CacheOk R c) :
    ∃ st c', w.pathStatusDrive c path = .returns st c' ∧
      (st = w.raw.statusOf path ∨ (w.LooksEncrypted path ∧ st = .inSync)) ∧ w.CacheOk R c' := by
  cases hbusy : w.busy 0 with
  | false =>
    refine ⟨.inSync, c, ?_, .inl ?_, hc⟩
    · simp [pathStatusDrive, hbusy]
    · simp [statusOf, show w.raw.busy 0 = false from hbusy]
  | true =>
    have hshort (f' : FolderId) (n' : Name) (hread : w.raw.ReadsOf path f' n') :
        n'.length < buffSize :=
      (w.length_le_stored f' n').trans_lt (hfits f' n' (.inr hread))
    obtain ⟨st, c', hcall, hst, hc'⟩ := pathStatusDrive_of_passes hbusy fun wrlocked =>
      walk_answers h hdistinct hc (fun htrue => absurd htrue Bool.false_ne_true) hR hshort
    refine ⟨st, c', hcall, ?_, hc'⟩
    rw [statusOf_of_busy (show w.raw.busy 0 = true from hbusy)]
    exact hst.imp_right fun hlooks => ⟨⟨hbusy, hlooks.1⟩, hlooks.2⟩

/-! ## The unencrypted hierarchy -/

theorem plain_statusOf (w : World) (path : Bytes) : w.plain.statusOf path = w.statusOf path := by
  unfold statusOf
  rw [plain_statusAt]
  rfl

theorem plain_reads (h : w.plain.Reads f inner name f' n') : w.Reads f inner name f' n' := by
  induction h with
  | inner => exact .inner
  | next row _ ih => exact .next row ih
  | last => exact .last

/-- Without encryption the status is what it is to be, from any cache. -/
theorem plain_status (h : w.Marked) (hdistinct : w.Distinct (w.Looked path))
    (hfits : w.Fits path) (hc : w.plain.CacheOk (w.Looked path) c) :
    (w.plain.pathStatusDrive c path).status? = some (w.statusOf path) := by
  have hreads (f : FolderId) (n : Name) (hread : w.plain.Looked path f n) : w.Looked path f n :=
    .inl (hread.elim plain_reads fun hraw => plain_reads (w := w) hraw)
  obtain ⟨st, c', hcall, hst, -⟩ := @pathStatusDrive_answers w.plain c path (w.Looked path)
    (plain_marked h) hdistinct (fun f n hread => hreads f n (.inr hread))
    (fun f n hread => (w.length_le_stored f n).trans_lt (hfits f n (hreads f n hread))) hc
  rcases hst with hst | ⟨⟨-, hlooks⟩, -⟩
  · have hraw : w.plain.raw = w.plain := rfl
    rw [hcall, hst, hraw, plain_statusOf]
    rfl
  · rw [plain_looksAt] at hlooks
    cases hlooks

/-! ## Where the status is right -/

/-- From any cache, the path is not in sync while it has a pending creat or mkdir in it or below it,
and its status is the one that it has with unencrypted names. -/
def Right (w : World) (path : Bytes) : Prop :=
  ∀ c c', w.CacheOk (w.Looked path) c → w.plain.CacheOk (w.Looked path) c' →
    (w.Pending 0 (components path).1 (components path).2 →
      (w.pathStatusDrive c path).status? ≠ some .inSync) ∧
    (w.pathStatusDrive c path).status? = (w.plain.pathStatusDrive c' path).status?

theorem init_cacheOk (w : World) (R : FolderId → Name → Prop) : w.CacheOk R .init :=
  fun _ _ hi => absurd hi List.not_mem_nil

/-- With no entry in the cache, a path that leads into an encrypted folder is in sync. -/
theorem pathStatusDrive_init (h : w.Marked) (hdistinct : w.Distinct (w.Looked path))
    (hfits : w.Fits path) (hlooks : w.LooksEncrypted path) :
    (w.pathStatusDrive .init path).status? = some .inSync := by
  have hpass (wrlocked : Bool) := @walk_cold w 0 (components path).2 (components path).1 .init
    wrlocked (w.Looked path) hdistinct (w.init_cacheOk _)
    (fun _ _ hi => absurd hi List.not_mem_nil) (fun _ _ hread => .inr hread)
    (fun f' n' hread => (w.length_le_stored f' n').trans_lt (hfits f' n' (.inr hread))) hlooks.2
  rw [h.top] at hpass
  rw [pathStatusDrive_passes hlooks.1]
  rcases hpass false with ⟨c', hwalk⟩ | ⟨-, hwalk⟩
  · rw [hwalk]
    rfl
  · rw [hwalk]
    rcases hpass true with ⟨c', hwalk'⟩ | ⟨hfalse, -⟩
    · rw [hwalk']
      rfl
    · cases hfalse

/-- With entries that have lost the flag, the names are looked up as they are. -/
theorem pathStatusDrive_flagless (h : w.Marked) (hdistinct : w.Distinct (w.Looked path))
    (hfits : w.Fits path) (hbusy : w.busy 0 = true) :
    (w.pathStatusDrive (flagless (w.rows 0 (components path).1)) path).status? =
      some (w.raw.statusOf path) := by
  have hR (f' : FolderId) (n' : Name) (hread : w.raw.ReadsOf path f' n') : w.Looked path f' n' :=
    .inr hread
  have hrows (e : CacheEntry) (he : e ∈ w.rows 0 (components path).1) :
      e.folder = true ∧ e.encrypted = false := by
    obtain ⟨f', n', g, -, -, rfl⟩ := mem_rows he (components path).2
    exact ⟨rfl, rfl⟩
  obtain ⟨st, c', hcall, hst, -⟩ := pathStatusDrive_of_passes hbusy fun wrlocked =>
    walk_flagless h hdistinct (flagless_cacheOk hdistinct hR)
      (fun b i hi => (hrows _ (mem_flagless hi)).2)
      (fun e he => find_flagless he fun e he => (hrows e he).1) hR
      (fun f' n' hread => (w.length_le_stored f' n').trans_lt (hfits f' n' (.inr hread)))
  rw [hcall, statusOf_of_busy (show w.raw.busy 0 = true from hbusy)]
  exact congrArg some (hst.resolve_right fun hno => hno.1)

theorem statusOf_ne_of_pending (h : w.Marked)
    (hpending : w.Pending 0 (components path).1 (components path).2) :
    w.statusOf path ≠ .inSync := by
  rw [statusOf, if_pos (hpending.busy h)]
  exact hpending.statusAt_ne h

/-- The status is right just if the walk looks up no name of an encrypted folder, or the path is in
sync indeed, by the names that the folders have and by the names as they are. -/
theorem pathStatusDrive_right_iff (w : World) (path : Bytes) (h : w.Marked) (hfits : w.Fits path)
    (hdistinct : w.Distinct (w.Looked path)) :
    w.Right path ↔ ¬ w.LooksEncrypted path ∨
      (w.statusOf path = .inSync ∧ w.raw.statusOf path = .inSync) := by
  have hplain := plain_status h hdistinct hfits (w.plain.init_cacheOk _)
  constructor
  · intro hright
    by_contra hno
    rw [not_or, not_not] at hno
    obtain ⟨hlooks, hne⟩ := hno
    have hcold := (hright .init .init (w.init_cacheOk _) (w.plain.init_cacheOk _)).2
    have hlost := (hright _ .init (flagless_cacheOk hdistinct fun _ _ hread => .inr hread)
      (w.plain.init_cacheOk _)).2
    rw [pathStatusDrive_init h hdistinct hfits hlooks, hplain] at hcold
    rw [pathStatusDrive_flagless h hdistinct hfits hlooks.1, hplain] at hlost
    have hsync : w.statusOf path = .inSync := (Option.some.inj hcold).symm
    exact hne ⟨hsync, (Option.some.inj hlost).trans hsync⟩
  · intro hcond c c' hc hc'
    obtain ⟨st, c₁, hcall, hst, -⟩ := pathStatusDrive_answers h hdistinct
      (fun _ _ hread => .inr hread) hfits hc
    have heq : st = w.statusOf path := by
      rcases hcond with hno | ⟨hsync, hraw⟩
      · rw [hst.resolve_right fun hlooks => hno hlooks.1]
        cases hbusy : w.busy 0 with
        | false => simp [statusOf, hbusy, show w.raw.busy 0 = false from hbusy]
        | true =>
          rw [statusOf_of_busy hbusy, statusOf_of_busy (show w.raw.busy 0 = true from hbusy)]
          refine raw_statusAt (Bool.eq_false_iff.mpr fun hlooks => hno ⟨hbusy, hlooks⟩)
      · rcases hst with hst | ⟨-, hst⟩
        · rw [hst, hraw, hsync]
        · rw [hst, hsync]
    rw [plain_status h hdistinct hfits hc', hcall, heq]
    exact ⟨fun hpending => by simpa [Pass.status?] using statusOf_ne_of_pending h hpending, rfl⟩

end World

/-! ## One encrypted folder -/

/-- A cipher that leaves its blocks as they are. -/
def noCipher : TextEncoder := ⟨Equiv.refl _, fun _ => ⟨zeros 64, rfl⟩, zeros 16, Nat.le_refl 16⟩

/-- Folder 5, of name "c" in the top and encrypted, has a pending creat of the name "a". -/
def oneCreat : World where
  folder f n := if f = 0 ∧ n = [99] then some 5 else none
  file _ _ := none
  encrypted f := f = 5
  encoder _ := noCipher
  unlocked _ := true
  fstask f :=
    if f = 5 then some ⟨fun _ => false, fun n => n = encodeFilename noCipher [97], fun _ => false,
      fun _ => false⟩
    else none
  busy f := f = 0 ∨ f = 5
  statusesOk := true
  seed := 1

theorem oneCreat_row {f g : FolderId} {n : Name} (h : oneCreat.folder f n = some g) :
    f = 0 ∧ n = [99] ∧ g = 5 := by
  simp only [oneCreat, Option.ite_none_right_eq_some, Option.some.injEq] at h
  exact ⟨h.1.1, h.1.2, h.2.symm⟩

theorem oneCreat_marked : oneCreat.Marked where
  top := by decide
  unique _ _ _ _ := rfl
  own f t n ht _ := by
    simp only [oneCreat, Option.ite_none_right_eq_some] at ht
    simp [oneCreat, ht.1]
  up f n g hrow _ := by
    obtain ⟨rfl, -⟩ := oneCreat_row hrow
    decide

/-- "c/a" -/
abbrev creatPath : Bytes := [99, 47, 97]

theorem oneCreat_reads {path : Bytes} (hpath : path = [99] ∨ path = creatPath) {f : FolderId}
    {n : Name} (h : oneCreat.Looked path f n) : (f = 0 ∧ n = [99]) ∨ (f = 5 ∧ n = [97]) := by
  unfold World.Looked World.ReadsOf at h
  rcases hpath with rfl | rfl
  · have hcomponents : components [99] = ([], [99]) := by decide
    rw [hcomponents] at h
    rcases h with h | h
    · cases h
      exact .inl ⟨rfl, rfl⟩
    · cases h
      exact .inl ⟨rfl, rfl⟩
  · have hcomponents : components creatPath = ([[99]], [97]) := by decide
    rw [hcomponents] at h
    rcases h with h | h
    · cases h with
      | inner => exact .inl ⟨rfl, rfl⟩
      | next row rest =>
        obtain ⟨-, -, rfl⟩ := oneCreat_row row
        cases rest
        exact .inr ⟨rfl, rfl⟩
    · cases h with
      | inner => exact .inl ⟨rfl, rfl⟩
      | next row rest =>
        obtain ⟨-, -, rfl⟩ := oneCreat_row (show oneCreat.folder 0 [99] = some _ from row)
        cases rest
        exact .inr ⟨rfl, rfl⟩

theorem oneCreat_distinct {path : Bytes} (hpath : path = [99] ∨ path = creatPath) :
    oneCreat.Distinct (oneCreat.Looked path) := by
  have hne : oneCreat.hash 0 [99] ≠ oneCreat.hash 5 [97] := by decide
  intro f n f' n' hread hread' hhash
  rcases oneCreat_reads hpath hread with ⟨rfl, rfl⟩ | ⟨rfl, rfl⟩
  · rcases oneCreat_reads hpath hread' with ⟨rfl, rfl⟩ | ⟨rfl, rfl⟩
    · exact ⟨rfl, rfl⟩
    · exact absurd hhash hne
  · rcases oneCreat_reads hpath hread' with ⟨rfl, rfl⟩ | ⟨rfl, rfl⟩
    · exact absurd hhash.symm hne
    · exact ⟨rfl, rfl⟩

theorem oneCreat_fits {path : Bytes} (hpath : path = [99] ∨ path = creatPath) :
    oneCreat.Fits path := by
  intro f n hread
  rcases oneCreat_reads hpath hread with ⟨rfl, rfl⟩ | ⟨rfl, rfl⟩
  · rw [World.stored_of_plain (by decide)]
    decide
  · have hstored : oneCreat.stored 5 [97] = base32Encode (noCipher.encodeText [97]) := by
      rw [World.stored, if_pos (by decide)]
      rfl
    have hlen := length_base32Loop_le 0 0 (noCipher.encodeText [97])
    rw [noCipher.length_encodeText_short (by decide)] at hlen
    rw [hstored]
    exact hlen.trans_lt (by decide)

/-- The encrypted folder itself has the status that it is to have. -/
theorem pathStatusDrive_right_iff_folder : oneCreat.Right [99] :=
  (World.pathStatusDrive_right_iff oneCreat [99] oneCreat_marked (oneCreat_fits (.inl rfl))
    (oneCreat_distinct (.inl rfl))).mpr (.inl fun h => Bool.false_ne_true h.2)

/-- The file that is to be created in it is in sync. -/
theorem not_right_creat :
    ¬ ∀ (w : World) (path : Bytes), w.Marked → w.Fits path → w.Distinct (w.Looked path) →
      w.Right path := by
  intro hall
  have hpath : creatPath = [99] ∨ creatPath = creatPath := .inr rfl
  have hright := hall oneCreat creatPath oneCreat_marked (oneCreat_fits hpath)
    (oneCreat_distinct hpath)
  have hlooks : oneCreat.LooksEncrypted creatPath := ⟨rfl, by decide⟩
  refine (hright .init .init (World.init_cacheOk _ _) (World.init_cacheOk _ _)).1 ?_
    (World.pathStatusDrive_init oneCreat_marked (oneCreat_distinct hpath) (oneCreat_fits hpath)
      hlooks)
  have hrow : oneCreat.folder 0 (oneCreat.stored 0 [99]) = some 5 := by
    rw [World.stored_of_plain (by decide)]
    decide
  have hcomponents : components creatPath = ([[99]], [97]) := by decide
  rw [hcomponents]
  exact .inner hrow (.creat (List.cons_ne_nil _ _)
    (by simp [World.creat, oneCreat, World.stored]))

end PcloudClient.Ppathstatus.DriveStatus
