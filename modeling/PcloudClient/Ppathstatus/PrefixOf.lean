/-
  Ppathstatus/PrefixOf.lean --- the tests of `psync_path_status_get` for a path below a root.

  A cursor with its length is what is left of its string.  `*path` behind the last byte of the
  path is the terminator.
-/
import PcloudClient.Pfsfolder.Resolve

set_option autoImplicit false

namespace PcloudClient.Ppathstatus.PrefixOf

open PcloudClient.Pfsfolder (SLASH skipSlashes component rest components EndsInName)

/-- `is_slash` -/
def isSlash (ch : UInt8) : Bool := ch = SLASH

/-- `valid_last_char` -/
def validLastChar (ch : UInt8) : Bool := isSlash ch || ch = 0

/-- What the cursor points to. -/
def peek (path : Bytes) : UInt8 := path.headD 0

/-- The inner loop: both cursors behind what the two have in common up to a slash. -/
def skipCommon : Bytes → Bytes → Bytes × Bytes
  | p :: pfx, c :: path =>
    if !isSlash p && p = c then skipCommon pfx path else (p :: pfx, c :: path)
  | pfx, path => (pfx, path)

theorem skipCommon_eq (pfx path : Bytes) :
    ∃ u, pfx = u ++ (skipCommon pfx path).1 ∧ path = u ++ (skipCommon pfx path).2 ∧ SLASH ∉ u := by
  fun_induction skipCommon pfx path with
  | case1 p pfx c path heq ih =>
    obtain ⟨u, hpfx, hpath, hu⟩ := ih
    simp only [isSlash, Bool.and_eq_true, Bool.not_eq_true', decide_eq_true_eq,
      decide_eq_false_iff_not] at heq
    refine ⟨p :: u, congrArg _ hpfx, heq.2 ▸ congrArg _ hpath, ?_⟩
    rw [List.mem_cons, not_or]
    exact ⟨Ne.symm heq.1, hu⟩
  | case2 => exact ⟨[], rfl, rfl, List.not_mem_nil⟩
  | case3 => exact ⟨[], rfl, rfl, List.not_mem_nil⟩

theorem length_skipSlashes_le (path : Bytes) : (skipSlashes path).length ≤ path.length :=
  (List.dropWhile_sublist _).length_le

theorem length_skipCommon_le (pfx path : Bytes) :
    (skipCommon pfx path).1.length ≤ pfx.length := by
  obtain ⟨u, hpfx, -, -⟩ := skipCommon_eq pfx path
  have := congrArg List.length hpfx
  rw [List.length_append] at this
  omega

/-- The loop of `psync_path_is_prefix_of`: the path from which it returns 1. -/
def prefixLoop (pfx path : Bytes) : Option Bytes :=
  match _h : skipCommon pfx path with
  | ([], path') => if validLastChar (peek path') then some path' else none
  | (_ :: _, []) => none
  | (p :: pfx', c :: path') =>
    if isSlash p != isSlash c then none
    else if isSlash p then
      if skipSlashes pfx' = [] then some (skipSlashes path')
      else if skipSlashes path' = [] then none
      else prefixLoop (skipSlashes pfx') (skipSlashes path')
    else none
termination_by pfx.length
decreasing_by
  have hle := length_skipCommon_le pfx path
  have hskip := length_skipSlashes_le pfx'
  rw [_h, List.length_cons] at hle
  omega

/-- `psync_path_is_prefix_of`, with the caller's path after it. -/
def pathIsPrefixOf (pfx path : Bytes) : Bool × Bytes :=
  match prefixLoop pfx path with
  | some path => (true, path)
  | none => (false, path)

/-! ## Components -/

theorem isSlash_iff (ch : UInt8) : isSlash ch = true ↔ ch = SLASH := by
  rw [isSlash, decide_eq_true_eq]

/-- The string starts with a component. -/
def InWord (path : Bytes) : Prop := ∃ ch tail, path = ch :: tail ∧ ch ≠ SLASH

theorem skipSlashes_slash (path : Bytes) : skipSlashes (SLASH :: path) = skipSlashes path :=
  List.dropWhile_cons_of_pos (by simp)

theorem skipSlashes_word {path : Bytes} (h : InWord path) : skipSlashes path = path := by
  obtain ⟨ch, tail, rfl, hch⟩ := h
  rw [skipSlashes, List.dropWhile_cons_of_neg (by simpa using hch)]

theorem inWord_skipSlashes {path : Bytes} (h : skipSlashes path ≠ []) :
    InWord (skipSlashes path) := by
  obtain ⟨ch, tail, hskip⟩ := List.exists_cons_of_ne_nil h
  have hhead := List.head?_dropWhile_not (· = SLASH) path
  rw [← skipSlashes, hskip] at hhead
  exact ⟨ch, tail, hskip, by simpa using hhead⟩

theorem components_slash (path : Bytes) : components (SLASH :: path) = components path := by
  rw [components.eq_def, components.eq_def path, skipSlashes_slash]

theorem components_skipSlashes (path : Bytes) :
    components (skipSlashes path) = components path := by
  by_cases h : skipSlashes path = []
  · rw [h, Pfsfolder.components_of_skip h, Pfsfolder.components_of_skip rfl]
  · rw [components.eq_def, components.eq_def path, skipSlashes_word (inWord_skipSlashes h)]

theorem components_word {path : Bytes} (h : InWord path) :
    components path = component path :: components (rest path) := by
  have hskip := skipSlashes_word h
  have hne : skipSlashes path ≠ [] := by
    obtain ⟨ch, tail, rfl, -⟩ := h
    rw [hskip]
    exact List.cons_ne_nil _ _
  rw [Pfsfolder.components_of_ne hne, hskip]

theorem component_append {u : Bytes} (hu : SLASH ∉ u) (path : Bytes) :
    component (u ++ path) = u ++ component path := by
  refine List.takeWhile_append_of_pos fun ch hch => decide_eq_true fun heq => hu ?_
  exact heq ▸ hch

theorem rest_append {u : Bytes} (hu : SLASH ∉ u) (path : Bytes) : rest (u ++ path) = rest path := by
  refine List.dropWhile_append_of_pos fun ch hch => decide_eq_true fun heq => hu ?_
  exact heq ▸ hch

theorem component_slash (path : Bytes) : component (SLASH :: path) = [] :=
  List.takeWhile_cons_of_neg (by simp)

theorem rest_slash (path : Bytes) : rest (SLASH :: path) = SLASH :: path :=
  List.dropWhile_cons_of_neg (by simp)

theorem component_cons {ch : UInt8} (hch : ch ≠ SLASH) (path : Bytes) :
    component (ch :: path) = ch :: component path :=
  List.takeWhile_cons_of_pos (by simpa using hch)

/-- Where the last character is a valid one, the component ends there. -/
theorem component_of_valid {path : Bytes} (hzero : 0 ∉ path)
    (hvalid : validLastChar (peek path) = true) : component path = [] ∧ rest path = path := by
  cases path with
  | nil => exact ⟨rfl, rfl⟩
  | cons ch tail =>
    have hslash : ch = SLASH := by
      have hne : ch ≠ 0 := fun h => hzero (h ▸ List.mem_cons_self)
      simpa [validLastChar, peek, isSlash, hne] using hvalid
    rw [hslash]
    exact ⟨component_slash tail, rest_slash tail⟩

theorem component_of_not_valid {path : Bytes} (hvalid : ¬ validLastChar (peek path) = true) :
    component path ≠ [] := by
  cases path with
  | nil => exact absurd rfl hvalid
  | cons ch tail =>
    have hslash : ch ≠ SLASH := by
      rintro rfl
      exact hvalid rfl
    rw [component_cons hslash]
    exact List.cons_ne_nil _ _

theorem EndsInName.of_append {u path : Bytes} (h : EndsInName (u ++ path)) (hne : path ≠ []) :
    EndsInName path := by
  rwa [EndsInName, List.getLast?_append_of_ne_nil _ hne] at h

theorem EndsInName.skipSlashes {ch : UInt8} {path : Bytes} (h : EndsInName (ch :: path))
    (hch : ch = SLASH) : skipSlashes path ≠ [] ∧ EndsInName (skipSlashes path) := by
  have hne : components (ch :: path) ≠ [] := Pfsfolder.components_ne_nil (List.cons_ne_nil _ _) h
  have hskip : Pfsfolder.skipSlashes path ≠ [] := by
    intro hnil
    rw [hch, components_slash, Pfsfolder.components_of_skip hnil] at hne
    exact hne rfl
  have htail : path ≠ [] := by
    rintro rfl
    exact hskip rfl
  have hend : EndsInName path := EndsInName.of_append (u := [ch]) h htail
  exact ⟨hskip, by rwa [EndsInName, Pfsfolder.getLast?_skipSlashes hskip]⟩

/-! ## What the test decides -/

/-- What the loop says of the components. -/
def Answers (pfx path : Bytes) : Option Bytes → Prop
  | some below => components path = components pfx ++ components below
  | none => ¬ components pfx <+: components path

theorem Answers.of_components {pfx path pfx' path' : Bytes} {answer : Option Bytes}
    (h : Answers pfx' path' answer) (hpfx : components pfx = components pfx')
    (hpath : components path = components path') : Answers pfx path answer := by
  cases answer with
  | some below => rwa [Answers, hpfx, hpath]
  | none => rwa [Answers, hpfx, hpath]

/-- The inner loop stops at a slash or at a difference. -/
theorem skipCommon_stops {pfx path pfx' path' : Bytes} {p c : UInt8}
    (h : skipCommon pfx path = (p :: pfx', c :: path')) : p = SLASH ∨ p ≠ c := by
  fun_induction skipCommon pfx path with
  | case1 _ _ _ _ _ ih => exact ih h
  | case2 p' pfx c' path hne =>
    obtain ⟨⟨rfl, -⟩, rfl, -⟩ := Prod.mk.inj h |>.imp List.cons.inj List.cons.inj
    rw [← isSlash_iff]
    simpa [imp_iff_not_or] using hne
  | case3 pfx path hcons =>
    obtain ⟨rfl, rfl⟩ := Prod.mk.inj h
    exact (hcons _ _ _ _ rfl rfl).elim

/-- What two strings with a common part of their first components have as components. -/
theorem components_common {u s : Bytes} (hu : SLASH ∉ u) (h : InWord (u ++ s)) :
    components (u ++ s) = (u ++ component s) :: components (rest s) := by
  rw [components_word h, component_append hu, rest_append hu]

/-- Of a string that is one component. -/
theorem components_single {u : Bytes} (hu : SLASH ∉ u) (h : InWord (u ++ [])) :
    components (u ++ []) = [u] := by
  rw [components_common hu h, show component [] = [] from rfl, show rest [] = [] from rfl,
    Pfsfolder.components_of_skip rfl, List.append_nil]

/-- A slash ends the component. -/
theorem components_first {u s : Bytes} (hu : SLASH ∉ u) (h : InWord (u ++ SLASH :: s)) :
    components (u ++ SLASH :: s) = u :: components s := by
  rw [components_common hu h, component_slash, rest_slash, components_slash, List.append_nil]

theorem not_isPrefix_of_component {u s t : Bytes} {names names' : List Bytes}
    (h : component s ≠ component t) :
    ¬ (u ++ component s) :: names <+: (u ++ component t) :: names' := by
  intro hpre
  exact h (List.append_cancel_left (List.cons_prefix_cons.mp hpre).1)

theorem skipCommon_split {pfx path pfx' path' : Bytes} (h : skipCommon pfx path = (pfx', path')) :
    ∃ u, pfx = u ++ pfx' ∧ path = u ++ path' ∧ SLASH ∉ u := by
  simpa only [h] using skipCommon_eq pfx path

theorem component_ne_of_slash {p c : UInt8} (pfx path : Bytes)
    (h : (isSlash p != isSlash c) = true) :
    component (p :: pfx) ≠ component (c :: path) := by
  by_cases hp : p = SLASH
  · have hc : c ≠ SLASH := by
      rintro rfl
      simp [hp] at h
    rw [hp, component_slash, component_cons hc]
    exact (List.cons_ne_nil _ _).symm
  · have hc : c = SLASH := by
      rw [bne_iff_ne, Ne, Bool.eq_iff_iff, isSlash_iff, isSlash_iff] at h
      simpa [hp] using h
    rw [hc, component_slash, component_cons hp]
    exact List.cons_ne_nil _ _

/-- Of two strings that start with a component. -/
theorem prefixLoop_words {pfx path : Bytes} (hend : EndsInName pfx) (hzero : 0 ∉ path)
    (hpfx : InWord pfx) (hpath : InWord path) : Answers pfx path (prefixLoop pfx path) := by
  fun_induction prefixLoop pfx path with
  | case1 pfx path path' heq hvalid =>
    obtain ⟨u, rfl, rfl, hu⟩ := skipCommon_split heq
    rw [List.mem_append, not_or] at hzero
    obtain ⟨hnil, hrest⟩ := component_of_valid hzero.2 hvalid
    rw [Answers, components_single hu hpfx, components_common hu hpath, hnil, hrest,
      List.append_nil, List.singleton_append]
  | case2 pfx path path' heq hvalid =>
    obtain ⟨u, rfl, rfl, hu⟩ := skipCommon_split heq
    rw [Answers, components_common hu hpfx, components_common hu hpath]
    exact not_isPrefix_of_component (Ne.symm (component_of_not_valid hvalid))
  | case3 pfx path p pfx' heq =>
    obtain ⟨u, rfl, rfl, hu⟩ := skipCommon_split heq
    by_cases hp : p = SLASH
    · subst hp
      have htail := EndsInName.of_append hend (List.cons_ne_nil _ _)
      rw [Answers, components_first hu hpfx, components_single hu hpath]
      intro hpre
      have hnil := List.prefix_nil.mp (List.cons_prefix_cons.mp hpre).2
      rw [← components_slash] at hnil
      exact Pfsfolder.components_ne_nil (List.cons_ne_nil _ _) htail hnil
    · rw [Answers, components_common hu hpfx, components_common hu hpath]
      refine not_isPrefix_of_component ?_
      rw [component_cons hp]
      exact List.cons_ne_nil _ _
  | case4 pfx path p pfx' c path' heq hslash =>
    obtain ⟨u, rfl, rfl, hu⟩ := skipCommon_split heq
    rw [Answers, components_common hu hpfx, components_common hu hpath]
    exact not_isPrefix_of_component (component_ne_of_slash pfx' path' hslash)
  | case5 pfx path p pfx' c path' heq hsame hp hskip =>
    obtain ⟨u, rfl, rfl, hu⟩ := skipCommon_split heq
    exact absurd hskip (EndsInName.skipSlashes
      (EndsInName.of_append hend (List.cons_ne_nil _ _)) ((isSlash_iff p).mp hp)).1
  | case6 pfx path p pfx' c path' heq hsame hp hskip hnil =>
    obtain ⟨u, rfl, rfl, hu⟩ := skipCommon_split heq
    rw [hp, Bool.not_eq_true, bne_eq_false_iff_eq] at hsame
    obtain rfl := (isSlash_iff p).mp hp
    obtain rfl := (isSlash_iff c).mp hsame.symm
    have hrest := (EndsInName.skipSlashes (EndsInName.of_append hend (List.cons_ne_nil _ _)) rfl).1
    rw [Answers, components_first hu hpfx, components_first hu hpath,
      Pfsfolder.components_of_skip hnil]
    intro hpre
    have hempty := List.prefix_nil.mp (List.cons_prefix_cons.mp hpre).2
    rw [Pfsfolder.components_of_ne hrest] at hempty
    exact List.cons_ne_nil _ _ hempty
  | case7 pfx path p pfx' c path' heq hsame hp hskip hnil ih =>
    obtain ⟨u, rfl, rfl, hu⟩ := skipCommon_split heq
    rw [hp, Bool.not_eq_true, bne_eq_false_iff_eq] at hsame
    obtain rfl := (isSlash_iff p).mp hp
    obtain rfl := (isSlash_iff c).mp hsame.symm
    have htail := EndsInName.skipSlashes (EndsInName.of_append hend (List.cons_ne_nil _ _)) rfl
    have hzero' : 0 ∉ skipSlashes path' := fun h => hzero <|
      List.mem_append_right u (List.mem_cons_of_mem _ ((List.dropWhile_sublist _).mem h))
    have hbelow : Answers pfx' path' (prefixLoop (skipSlashes pfx') (skipSlashes path')) :=
      (ih htail.2 hzero' (inWord_skipSlashes hskip) (inWord_skipSlashes hnil)).of_components
        (components_skipSlashes pfx').symm (components_skipSlashes path').symm
    generalize prefixLoop (skipSlashes pfx') (skipSlashes path') = answer at hbelow
    cases answer with
    | some below =>
      rw [Answers] at hbelow
      rw [Answers, components_first hu hpfx, components_first hu hpath, hbelow, List.cons_append]
    | none =>
      rw [Answers] at hbelow
      rw [Answers, components_first hu hpfx, components_first hu hpath, List.cons_prefix_cons]
      exact fun hpre => hbelow hpre.2
  | case8 pfx path p pfx' c path' heq hsame hp =>
    obtain ⟨u, rfl, rfl, hu⟩ := skipCommon_split heq
    have hc : ¬ isSlash c = true := by
      rw [Bool.not_eq_true] at hp
      simpa [hp] using hsame
    rw [isSlash_iff] at hp hc
    have hne := (skipCommon_stops heq).resolve_left hp
    rw [Answers, components_common hu hpfx, components_common hu hpath]
    refine not_isPrefix_of_component ?_
    rw [component_cons hp, component_cons hc]
    exact fun heads => hne (List.cons.inj heads).1

/-- The string starts with a slash. -/
def startsWithSlash (path : Bytes) : Bool := isSlash (peek path)

theorem inWord_of_not_slash {path : Bytes} (hne : path ≠ []) (h : startsWithSlash path = false) :
    InWord path := by
  obtain ⟨ch, tail, rfl⟩ := List.exists_cons_of_ne_nil hne
  refine ⟨ch, tail, rfl, fun hch => ?_⟩
  rw [startsWithSlash, hch] at h
  exact nomatch h

/-- Behind the leading slashes of both strings. -/
theorem prefixLoop_slash (pfx path : Bytes) (hskip : skipSlashes pfx ≠ []) :
    prefixLoop (SLASH :: pfx) (SLASH :: path) =
      if skipSlashes path = [] then none else prefixLoop (skipSlashes pfx) (skipSlashes path) := by
  have hcommon : skipCommon (SLASH :: pfx) (SLASH :: path) = (SLASH :: pfx, SLASH :: path) := by
    rw [skipCommon, if_neg (by simp [isSlash])]
  rw [prefixLoop.eq_def]
  split
  · next heq => simp [hcommon] at heq
  · next heq => simp [hcommon] at heq
  · next p pfx' c path' heq =>
    rw [hcommon] at heq
    simp only [Prod.mk.injEq, List.cons.injEq] at heq
    obtain ⟨⟨rfl, rfl⟩, rfl, rfl⟩ := heq
    rw [if_neg (by simp), if_pos ((isSlash_iff SLASH).mpr rfl), if_neg hskip]

/-- Of two strings of which one starts with a slash. -/
theorem prefixLoop_of_ne (pfx path : Bytes) (hpfx : pfx ≠ [])
    (h : startsWithSlash pfx ≠ startsWithSlash path) : prefixLoop pfx path = none := by
  obtain ⟨p, pfx, rfl⟩ := List.exists_cons_of_ne_nil hpfx
  have hcommon : skipCommon (p :: pfx) path = (p :: pfx, path) := by
    cases path with
    | nil => rfl
    | cons c path =>
      refine if_neg ?_
      simp only [Bool.and_eq_true, Bool.not_eq_true', decide_eq_true_eq]
      rintro ⟨-, rfl⟩
      exact h rfl
  rw [prefixLoop.eq_def]
  split
  · next heq => simp [hcommon] at heq
  · rfl
  · next p' pfx' c path' heq =>
    rw [hcommon] at heq
    simp only [Prod.mk.injEq, List.cons.injEq] at heq
    obtain ⟨⟨rfl, rfl⟩, rfl⟩ := heq
    exact if_pos (bne_iff_ne.mpr h)

theorem prefixLoop_nil {pfx : Bytes} (hpfx : pfx ≠ []) : prefixLoop pfx [] = none := by
  obtain ⟨p, pfx, rfl⟩ := List.exists_cons_of_ne_nil hpfx
  rw [prefixLoop.eq_def]
  split
  · next heq => simp [skipCommon] at heq
  · rfl
  · next heq => simp [skipCommon] at heq

/-- Of two strings that both or neither start with a slash. -/
theorem prefixLoop_answers {pfx path : Bytes} (hpfx : pfx ≠ []) (hend : EndsInName pfx)
    (hzero : 0 ∉ path) (hsame : startsWithSlash pfx = startsWithSlash path) :
    Answers pfx path (prefixLoop pfx path) := by
  have hnames := Pfsfolder.components_ne_nil hpfx hend
  by_cases hpath : path = []
  · rw [hpath, prefixLoop_nil hpfx, Answers,
      show Pfsfolder.components ([] : Bytes) = [] from Pfsfolder.components_of_skip rfl]
    exact fun hpre => hnames (List.prefix_nil.mp hpre)
  cases hslash : startsWithSlash pfx with
  | false =>
    exact prefixLoop_words hend hzero (inWord_of_not_slash hpfx hslash)
      (inWord_of_not_slash hpath (hsame ▸ hslash))
  | true =>
    obtain ⟨p, pfx, rfl⟩ := List.exists_cons_of_ne_nil hpfx
    obtain ⟨c, path, rfl⟩ := List.exists_cons_of_ne_nil hpath
    obtain rfl := (isSlash_iff p).mp hslash
    obtain rfl := (isSlash_iff c).mp (hsame.symm.trans hslash)
    have htail := EndsInName.skipSlashes hend rfl
    rw [prefixLoop_slash pfx path htail.1]
    by_cases hnil : skipSlashes path = []
    · rw [if_pos hnil, Answers, components_slash path, Pfsfolder.components_of_skip hnil]
      exact fun hpre => hnames (List.prefix_nil.mp hpre)
    · have hzero' : 0 ∉ skipSlashes path := fun h =>
        hzero (List.mem_cons_of_mem _ ((List.dropWhile_sublist _).mem h))
      have hwords := prefixLoop_words htail.2 hzero' (inWord_skipSlashes htail.1)
        (inWord_skipSlashes hnil)
      rw [if_neg hnil]
      exact hwords.of_components
        ((components_slash pfx).trans (components_skipSlashes pfx).symm)
        ((components_slash path).trans (components_skipSlashes path).symm)

/-- What `psync_path_is_prefix_of` returns and leaves. -/
theorem pathIsPrefixOf_iff {pfx path : Bytes} (hpfx : pfx ≠ []) (hend : EndsInName pfx)
    (hzero : 0 ∉ path) :
    ((pathIsPrefixOf pfx path).1 = true ↔
      startsWithSlash pfx = startsWithSlash path ∧ components pfx <+: components path) ∧
    ((pathIsPrefixOf pfx path).1 = true →
      components path = components pfx ++ components (pathIsPrefixOf pfx path).2) := by
  by_cases hsame : startsWithSlash pfx = startsWithSlash path
  · have h := prefixLoop_answers hpfx hend hzero hsame
    rw [pathIsPrefixOf]
    cases hloop : prefixLoop pfx path with
    | some below =>
      rw [hloop, Answers] at h
      exact ⟨⟨fun _ => ⟨hsame, h ▸ List.prefix_append _ _⟩, fun _ => rfl⟩, fun _ => h⟩
    | none =>
      rw [hloop, Answers] at h
      exact ⟨⟨nofun, fun hpre => absurd hpre.2 h⟩, nofun⟩
  · rw [pathIsPrefixOf, prefixLoop_of_ne pfx path hpfx hsame]
    exact ⟨⟨nofun, fun hpre => absurd hpre.1 hsame⟩, nofun⟩

theorem pathIsPrefixOf_false {pfx path : Bytes} (h : (pathIsPrefixOf pfx path).1 = false) :
    (pathIsPrefixOf pfx path).2 = path := by
  rw [pathIsPrefixOf] at h ⊢
  split at h
  · exact nomatch h
  · rfl

/-! ## The search of `psync_path_status_get` -/

/-- The exact test, `!memcmp(root, path, root_len)` and the character behind, with the path that is
asked for after it. -/
def exactTest (root path : Bytes) : Bool × Bytes :=
  if root.length ≤ path.length ∧ path.take root.length = root ∧
      validLastChar (peek (path.drop root.length)) then (true, path.drop root.length)
  else (false, path)

/-- The slower test of a sync. -/
def slowerSyncTest (root path : Bytes) : Bool × Bytes :=
  if root.length ≤ path.length then pathIsPrefixOf root path else (false, path)

/-! ## The two tests agree -/

theorem skipCommon_append (root below : Bytes) :
    skipCommon root (root ++ below) = (rest root, rest root ++ below) := by
  induction root with
  | nil => rw [List.nil_append, skipCommon.eq_def]; rfl
  | cons ch tail ih =>
    by_cases hch : ch = SLASH
    · rw [hch, rest_slash, List.cons_append, skipCommon, if_neg (by simp [isSlash])]
    · rw [List.cons_append, skipCommon, if_pos (by simp [isSlash, hch]), ih]
      rw [show rest (ch :: tail) = rest tail from List.dropWhile_cons_of_pos (by simpa using hch)]

/-- What is left behind the component is nothing or starts with a slash. -/
theorem rest_cases (path : Bytes) : rest path = [] ∨ ∃ tail, rest path = SLASH :: tail := by
  cases hrest : rest path with
  | nil => exact .inl rfl
  | cons ch tail =>
    have hhead := List.head?_dropWhile_not (· ≠ SLASH) path
    rw [← rest, hrest] at hhead
    have hch : ch = SLASH := by simpa using hhead
    exact .inr ⟨tail, hch ▸ rfl⟩

theorem skipSlashes_append (path below : Bytes) :
    skipSlashes (path ++ below) =
      if skipSlashes path = [] then skipSlashes below else skipSlashes path ++ below := by
  rw [skipSlashes, List.dropWhile_append, ← skipSlashes]
  simp only [List.isEmpty_iff]
  rfl

/-- Below a root that is a prefix byte by byte the loop gets to the same components. -/
theorem prefixLoop_append {below : Bytes} (hvalid : validLastChar (peek below) = true)
    (root : Bytes) :
    ∃ below', prefixLoop root (root ++ below) = some below' ∧
      components below' = components below := by
  induction hn : root.length using Nat.strong_induction_on generalizing root with
  | _ n ih =>
    have hcommon := skipCommon_append root below
    rw [prefixLoop.eq_def]
    rcases rest_cases root with hrest | ⟨tail, hrest⟩
    · rw [hrest] at hcommon
      split
      · next path' heq =>
        rw [hcommon] at heq
        obtain rfl := (Prod.mk.inj heq).2
        exact ⟨below, if_pos hvalid, rfl⟩
      · next heq => simp [hcommon] at heq
      · next heq => simp [hcommon] at heq
    · rw [hrest] at hcommon
      split
      · next heq => simp [hcommon] at heq
      · next heq => simp [hcommon] at heq
      · next p pfx' c path' heq =>
        rw [hcommon] at heq
        simp only [Prod.mk.injEq, List.cons_append, List.cons.injEq] at heq
        obtain ⟨⟨rfl, rfl⟩, rfl, rfl⟩ := heq
        rw [if_neg (by simp), if_pos ((isSlash_iff SLASH).mpr rfl), skipSlashes_append]
        by_cases hskip : skipSlashes tail = []
        · exact ⟨skipSlashes below, by rw [if_pos hskip, if_pos hskip],
            components_skipSlashes below⟩
        · rw [if_neg hskip, if_neg hskip, if_neg (List.append_ne_nil_of_left_ne_nil hskip below)]
          refine ih _ ?_ (skipSlashes tail) rfl
          have hle := length_skipSlashes_le tail
          have hlen := congrArg List.length (Pfsfolder.component_append_rest root)
          rw [hrest, List.length_append, List.length_cons] at hlen
          omega

/-- A root that the exact test accepts. -/
theorem exactTest_true {root path below : Bytes} (h : exactTest root path = (true, below)) :
    path = root ++ below ∧ validLastChar (peek below) = true := by
  rw [exactTest] at h
  split at h
  · next hexact =>
    obtain rfl := (Prod.mk.inj h).2
    exact ⟨by conv_lhs => rw [← List.take_append_drop root.length path, hexact.2.1], hexact.2.2⟩
  · exact nomatch (Prod.mk.inj h).1

theorem pathIsPrefixOf_of_exact {root path below : Bytes}
    (h : exactTest root path = (true, below)) :
    (pathIsPrefixOf root path).1 = true ∧
      components (pathIsPrefixOf root path).2 = components below := by
  obtain ⟨rfl, hvalid⟩ := exactTest_true h
  obtain ⟨below', hloop, hnames⟩ := prefixLoop_append hvalid root
  rw [pathIsPrefixOf, hloop]
  exact ⟨rfl, hnames⟩

theorem slowerSyncTest_of_exact {root path below : Bytes}
    (h : exactTest root path = (true, below)) :
    slowerSyncTest root path = pathIsPrefixOf root path := by
  obtain ⟨rfl, -⟩ := exactTest_true h
  exact if_pos (List.length_append ▸ Nat.le_add_right _ _)

/-- The prefix test decides by the components, and agrees with the exact test where that accepts a
drive or a sync. -/
theorem pathIsPrefixOf_ok :
    (∀ pfx path : Bytes, pfx ≠ [] → EndsInName pfx → 0 ∉ path →
      ((pathIsPrefixOf pfx path).1 = true ↔
        startsWithSlash pfx = startsWithSlash path ∧ components pfx <+: components path) ∧
      ((pathIsPrefixOf pfx path).1 = true →
        components path = components pfx ++ components (pathIsPrefixOf pfx path).2) ∧
      ((pathIsPrefixOf pfx path).1 = false → (pathIsPrefixOf pfx path).2 = path)) ∧
    ∀ root path below : Bytes, exactTest root path = (true, below) →
      ((pathIsPrefixOf root path).1 = true ∧
        components (pathIsPrefixOf root path).2 = components below) ∧
      ((slowerSyncTest root path).1 = true ∧
        components (slowerSyncTest root path).2 = components below) := by
  refine ⟨fun pfx path hpfx hend hzero => ?_, fun root path below h => ?_⟩
  · have h := pathIsPrefixOf_iff hpfx hend hzero
    exact ⟨h.1, h.2, pathIsPrefixOf_false⟩
  · rw [slowerSyncTest_of_exact h]
    exact ⟨pathIsPrefixOf_of_exact h, pathIsPrefixOf_of_exact h⟩

/-- `/a/b` against `//a///b//c`, and the root `/a` against `/a/c`. -/
theorem pathIsPrefixOf_ok_slashes :
    ((pathIsPrefixOf [47, 97, 47, 98] [47, 47, 97, 47, 47, 47, 98, 47, 47, 99]).1 = true ↔
      startsWithSlash [47, 97, 47, 98] =
          startsWithSlash [47, 47, 97, 47, 47, 47, 98, 47, 47, 99] ∧
        components [47, 97, 47, 98] <+: components [47, 47, 97, 47, 47, 47, 98, 47, 47, 99]) ∧
    (pathIsPrefixOf [47, 97] [47, 97, 47, 99]).1 = true :=
  ⟨(pathIsPrefixOf_ok.1 [47, 97, 47, 98] [47, 47, 97, 47, 47, 47, 98, 47, 47, 99]
      (List.cons_ne_nil _ _) (by decide) (by decide)).1,
    (pathIsPrefixOf_ok.2 [47, 97] [47, 97, 47, 99] [47, 99] (by decide)).1.1⟩

end PcloudClient.Ppathstatus.PrefixOf
