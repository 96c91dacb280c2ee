/-
  Pnetlibs/ChecksumHashProofs.lean --- the hash table of block checksums finds what it has.

  The size of the table is found because there is a prime number up to twice any number; that it is
  one matters to nothing else.  Filling keeps, of every SHA-1, either all blocks or none.
-/
import PcloudClient.Pnetlibs.ChecksumHash
import Mathlib.NumberTheory.Bertrand

set_option autoImplicit false

namespace PcloudClient.Pnetlibs.ChecksumHash

open PcloudClient.Foundation PcloudClient.Foundation.LinearProbing

/-! ## The size of the table -/

theorem isPrimeLoop_of_prime {p : Nat} (hp : p.Prime) {i : Nat} (hi : 2 ≤ i) :
    isPrimeLoop p i = true := by
  induction hk : p + 1 - i using Nat.strongRecOn generalizing i with
  | ind k ih =>
    rw [isPrimeLoop]
    split
    · next hle =>
      have hself := Nat.le_mul_self i
      have hnot : ¬ p % i = 0 := by
        intro hmod
        rcases (Nat.dvd_prime hp).mp (Nat.dvd_of_mod_eq_zero hmod) with rfl | rfl
        · omega
        · have hgrow := Nat.mul_le_mul_left i hi
          omega
      rw [if_neg hnot]
      exact ih _ (by omega) (by omega) rfl
    · rfl

theorem sizeLoop_of_prime {p : Nat} (hp : p.Prime) (hmod : p % 6 = 1 ∨ p % 6 = 5) {fuel cnt : Nat}
    (hcnt : cnt % 6 = 1) (hle : cnt ≤ p) (hfuel : p - cnt < 6 * fuel) :
    ∃ size, sizeLoop fuel cnt = some size ∧ cnt ≤ size ∧ size ≤ p := by
  have hprime : isPrime p = true := isPrimeLoop_of_prime hp (by decide)
  induction fuel generalizing cnt with
  | zero => omega
  | succ fuel ih =>
    rw [sizeLoop]
    split
    · exact ⟨cnt, rfl, le_refl cnt, hle⟩
    · next hnot =>
      have hne : cnt ≠ p := by
        rintro rfl
        exact hnot hprime
      split
      · exact ⟨cnt + 4, rfl, by omega, by omega⟩
      · next hnot' =>
        have hne' : cnt + 4 ≠ p := by
          rintro rfl
          exact hnot' hprime
        obtain ⟨size, hsize, hge, hle'⟩ : ∃ size, sizeLoop fuel (cnt + 4 + 2) = some size ∧
            cnt + 4 + 2 ≤ size ∧ size ≤ p := ih (by omega) (by omega) (by omega)
        exact ⟨size, hsize, by omega, hle'⟩

theorem exists_size {cnt fuel : Nat} (hcnt : cnt % 6 = 1) (hfuel : cnt ≤ fuel) :
    ∃ size, sizeLoop fuel cnt = some size ∧ cnt ≤ size ∧ size ≤ 2 * cnt := by
  rcases Nat.lt_or_ge cnt 7 with hsmall | hlarge
  · have hone : cnt = 1 := by omega
    subst hone
    obtain ⟨fuel, rfl⟩ := Nat.exists_eq_succ_of_ne_zero (show fuel ≠ 0 by omega)
    have hprime : isPrime 1 = true := by
      rw [isPrime, isPrimeLoop, if_neg (by decide)]
    exact ⟨1, by rw [sizeLoop, if_pos hprime], le_refl 1, by decide⟩
  · obtain ⟨p, hp, hlt, hle⟩ := Nat.exists_prime_lt_and_le_two_mul cnt (by omega)
    have htwo : ¬ p % 2 = 0 := fun h =>
      absurd ((Nat.prime_dvd_prime_iff_eq Nat.prime_two hp).mp (Nat.dvd_of_mod_eq_zero h))
        (by omega)
    have hthree : ¬ p % 3 = 0 := fun h => absurd
      ((Nat.prime_dvd_prime_iff_eq Nat.prime_three hp).mp (Nat.dvd_of_mod_eq_zero h)) (by omega)
    obtain ⟨size, hsize, hge, hle'⟩ := sizeLoop_of_prime hp (by omega) hcnt hlt.le
      (show p - cnt < 6 * fuel by omega)
    exact ⟨size, hsize, hge, hle'.trans hle⟩

/-- The sizes that the callers let pass do not wrap around. -/
theorem firstSize_eq {blockcnt : Nat} (h : 28 * blockcnt < 64 * 1024 * 1024) :
    firstSize blockcnt = (blockcnt + 1) / 2 * 6 + 1 := by
  rw [firstSize, Nat.mod_eq_of_lt (show blockcnt + 1 < 2 ^ 32 by omega),
    Nat.mod_eq_of_lt (show (blockcnt + 1) / 2 * 6 < 2 ^ 32 by omega),
    Nat.mod_eq_of_lt (show (blockcnt + 1) / 2 * 6 + 1 < 2 ^ 32 by omega)]

/-! ## Filling -/

/-- The slot at which a search for the element begins. -/
def home (blocks : List BlockChecksum) (cnt idx : Nat) : Nat :=
  (blockAt blocks (idx - 1)).adler % cnt

/-- The SHA-1 of an element. -/
def shaOf (blocks : List BlockChecksum) (idx : Nat) : Sha1 := (blockAt blocks (idx - 1)).sha1

theorem shaOf_succ (blocks : List BlockChecksum) (i : Nat) :
    shaOf blocks (i + 1) = (blockAt blocks i).sha1 := rfl

section

variable {blocks : List BlockChecksum} {cnt : Nat}

/-- How the loop over slots ends, when the slots nearer than `col` were other SHA-1s. -/
theorem place_spec (blocks : List BlockChecksum) (sha1 : Sha1) {elements : Nat → Nat}
    {start col o : Nat} (hstart : start < cnt)
    (ho : o < cnt) (hdist : dist cnt start o = col) (hcol : col ≤ 64)
    (hbefore : ∀ m < cnt,
      dist cnt start m < col → elements m ≠ 0 ∧ shaOf blocks (elements m) ≠ sha1)
    {e : Nat} (he : e < cnt) (hempty : elements e = 0) :
    (place blocks cnt elements sha1 col o = none ∧ ∀ m < cnt, dist cnt start m ≤ 64 →
      elements m ≠ 0 ∧ shaOf blocks (elements m) ≠ sha1) ∨
    ∃ s < cnt, place blocks cnt elements sha1 col o = some (s, elements s) ∧
      dist cnt start s ≤ 64 ∧ (elements s ≠ 0 → shaOf blocks (elements s) = sha1) ∧
      ∀ m < cnt, dist cnt start m < dist cnt start s →
        elements m ≠ 0 ∧ shaOf blocks (elements m) ≠ sha1 := by
  have hmax : MAX_ADLER_COLL = 64 := rfl
  induction hk : 64 - col using Nat.strongRecOn generalizing col o with
  | ind k ih =>
    rw [← hdist] at hbefore
    rw [place]
    by_cases hzero : elements o = 0
    · rw [if_pos hzero]
      refine Or.inr ⟨o, ho, by rw [hzero], hdist.trans_le hcol, fun h => absurd hzero h, hbefore⟩
    · rw [if_neg hzero]
      by_cases hsame : sha1 = (blockAt blocks (elements o - 1)).sha1
      · rw [if_pos hsame]
        exact Or.inr ⟨o, ho, rfl, hdist.trans_le hcol, fun _ => hsame.symm, hbefore⟩
      · rw [if_neg hsame]
        have hsofar : ∀ m < cnt, dist cnt start m < col + 1 →
            elements m ≠ 0 ∧ shaOf blocks (elements m) ≠ sha1 := by
          intro m hm hlt
          rcases eq_or_ne m o with rfl | hne
          · exact ⟨hzero, fun h => hsame h.symm⟩
          · refine hbefore m hm ?_
            have hother : dist cnt start m ≠ dist cnt start o := fun h =>
              hne (dist_inj hm ho hstart h)
            omega
        split
        · next hmany =>
          exact Or.inl ⟨rfl, fun m hm hle => hsofar m hm (by omega)⟩
        · next hfew =>
          -- the loop has not come round, as it would have met the empty slot
          have hnext : next cnt o ≠ start := by
            intro heq
            have hlast : dist cnt start o + 1 = cnt := by
              rw [← heq]
              unfold LinearProbing.dist next
              split_ifs <;> omega
            have hnear := dist_lt hstart he
            exact (hsofar e he (by omega)).1 hempty
          have hstep := dist_next_right hstart ho hnext
          exact ih _ (by omega) (next_lt ho) (by omega) (by omega) hsofar rfl

/-- A chain looks at its own blocks only, which are before its first one. -/
theorem chain_congr {next next' : Nat → Nat} {fuel c : Nat} (hnext : ∀ j ≤ c, next j ≤ j)
    (hsame : ∀ j ≤ c, next' j = next j) : chain next' fuel c = chain next fuel c := by
  induction fuel generalizing c with
  | zero => rfl
  | succ fuel ih =>
    have hc := hnext c (le_refl c)
    rw [chain, chain, hsame c (le_refl c)]
    split
    · rfl
    · rw [ih (fun j hj => hnext j (by omega)) fun j hj => hsame j (by omega)]

/-- The blocks before `i` with a SHA-1, the last one first. -/
def withSha (blocks : List BlockChecksum) (i : Nat) (sha1 : Sha1) : List Nat :=
  (List.range i).reverse.filter fun j => (blockAt blocks j).sha1 = sha1

theorem mem_withSha {i j : Nat} {sha1 : Sha1} :
    j ∈ withSha blocks i sha1 ↔ j < i ∧ (blockAt blocks j).sha1 = sha1 := by
  simp [withSha]

theorem nodup_withSha (i : Nat) (sha1 : Sha1) : (withSha blocks i sha1).Nodup :=
  (List.nodup_reverse.mpr List.nodup_range).filter _

theorem withSha_succ (i : Nat) (sha1 : Sha1) : withSha blocks (i + 1) sha1 =
    if (blockAt blocks i).sha1 = sha1 then i :: withSha blocks i sha1
    else withSha blocks i sha1 := by
  rw [withSha, List.range_succ, List.reverse_append, List.reverse_singleton, List.singleton_append,
    List.filter_cons]
  split_ifs with h₁ h₂ h₂
  · rfl
  · exact absurd (of_decide_eq_true h₁) h₂
  · exact absurd (decide_eq_true h₂) h₁
  · rfl

/-- What holds when the blocks before `i` have been put into the table. -/
structure Built (blocks : List BlockChecksum) (cnt i : Nat) (f : Filled) : Prop where
  entry : ∀ s < cnt, f.elements s ≤ i
  reach : Reach cnt (home blocks cnt) f.elements
  near : ∀ s < cnt, f.elements s ≠ 0 → dist cnt (home blocks cnt (f.elements s)) s ≤ 64
  one : ∀ s < cnt, ∀ s' < cnt, f.elements s ≠ 0 → f.elements s' ≠ 0 →
    shaOf blocks (f.elements s) = shaOf blocks (f.elements s') → s = s'
  back : ∀ j, f.next j ≤ j
  later : ∀ j, i ≤ j → f.next j = 0
  chains : ∀ s < cnt, f.elements s ≠ 0 → ∀ fuel, f.elements s ≤ fuel →
    chain f.next fuel (f.elements s - 1) = some (withSha blocks i (shaOf blocks (f.elements s)))
  kept : ∀ j < i, j ∉ f.dropped →
    ∃ s < cnt, f.elements s ≠ 0 ∧ shaOf blocks (f.elements s) = (blockAt blocks j).sha1
  crowded : ∀ j ∈ f.dropped, j < i ∧ ∀ m < cnt,
    dist cnt ((blockAt blocks j).adler % cnt) m ≤ 64 →
      f.elements m ≠ 0 ∧ shaOf blocks (f.elements m) ≠ (blockAt blocks j).sha1

theorem Built.single {i : Nat} {f : Filled} (h : Built blocks cnt i f) : Single cnt f.elements :=
  fun s hs s' hs' hocc heq => h.one s hs s' hs' hocc (heq ▸ hocc) (by rw [heq])

/-- A slot is left while there are fewer blocks than slots. -/
theorem Built.exists_empty {i : Nat} {f : Filled} (h : Built blocks cnt i f) (hi : i < cnt) :
    ∃ e < cnt, f.elements e = 0 := by
  refine h.single.exists_empty (Finset.Icc 1 i) ?_ fun s hs hocc => ?_
  · rw [Nat.card_Icc]
    omega
  · rw [Finset.mem_Icc]
    exact ⟨Nat.one_le_iff_ne_zero.mpr hocc, h.entry s hs⟩

/-- A block is ignored. -/
theorem Built.drop {i : Nat} {f : Filled} (h : Built blocks cnt i f)
    (hhome : ∀ s < cnt, f.elements s ≠ 0 →
      shaOf blocks (f.elements s) = (blockAt blocks i).sha1 →
        home blocks cnt (f.elements s) = (blockAt blocks i).adler % cnt)
    (hfull : ∀ m < cnt, dist cnt ((blockAt blocks i).adler % cnt) m ≤ 64 →
      f.elements m ≠ 0 ∧ shaOf blocks (f.elements m) ≠ (blockAt blocks i).sha1) :
    Built blocks cnt (i + 1) { f with dropped := f.dropped ++ [i] } where
  entry s hs := (h.entry s hs).trans (Nat.le_succ i)
  reach := h.reach
  near := h.near
  one := h.one
  back := h.back
  later j hj := h.later j (Nat.le_of_succ_le hj)
  chains := by
    intro s hs hocc fuel hfuel
    have hother : ¬ (blockAt blocks i).sha1 = shaOf blocks (f.elements s) := by
      intro hsame
      have hnear := h.near s hs hocc
      rw [hhome s hs hocc hsame.symm] at hnear
      exact (hfull s hs hnear).2 hsame.symm
    rw [withSha_succ, if_neg hother]
    exact h.chains s hs hocc fuel hfuel
  kept := by
    intro j hj hnot
    rw [List.mem_append, List.mem_singleton, not_or] at hnot
    exact h.kept j (by omega) hnot.1
  crowded := by
    intro j hj
    rcases List.mem_append.mp hj with hj | hj
    · exact ⟨(h.crowded j hj).1.trans (Nat.lt_succ_self i), (h.crowded j hj).2⟩
    · obtain rfl := List.mem_singleton.mp hj
      exact ⟨Nat.lt_succ_self j, hfull⟩

/-- A block is put into a slot that is empty or has its SHA-1. -/
theorem Built.put {i : Nat} {f : Filled} (h : Built blocks cnt i f)
    (hsame : ∀ j < i, (blockAt blocks j).sha1 = (blockAt blocks i).sha1 →
      (blockAt blocks j).adler = (blockAt blocks i).adler)
    {s : Nat} (hs : s < cnt) (hnear : dist cnt ((blockAt blocks i).adler % cnt) s ≤ 64)
    (hslot : f.elements s ≠ 0 → shaOf blocks (f.elements s) = (blockAt blocks i).sha1)
    (hway : ∀ m < cnt, dist cnt ((blockAt blocks i).adler % cnt) m <
        dist cnt ((blockAt blocks i).adler % cnt) s →
      f.elements m ≠ 0 ∧ shaOf blocks (f.elements m) ≠ (blockAt blocks i).sha1)
    (hstart : (blockAt blocks i).adler % cnt < cnt) :
    Built blocks cnt (i + 1) { f with
      elements := Function.update f.elements s (i + 1)
      next := if f.elements s = 0 then f.next else Function.update f.next i (f.elements s) } := by
  -- the slot is the only one with this SHA-1
  have honly : ∀ m < cnt, f.elements m ≠ 0 →
      shaOf blocks (f.elements m) = (blockAt blocks i).sha1 → m = s := by
    intro m hm hocc hsha
    have hle := h.entry m hm
    have hhm : home blocks cnt (f.elements m) = (blockAt blocks i).adler % cnt :=
      congrArg (· % cnt) (hsame (f.elements m - 1) (by omega) hsha)
    rcases Nat.lt_trichotomy (dist cnt ((blockAt blocks i).adler % cnt) m)
      (dist cnt ((blockAt blocks i).adler % cnt) s) with hlt | heq | hgt
    · exact absurd hsha (hway m hm hlt).2
    · exact dist_inj hm hs hstart heq
    · have hocc' := h.reach m hm hocc s hs (by rwa [hhm])
      exact h.one m hm s hs hocc hocc' (hsha.trans (hslot hocc').symm)
  have hnext : ∀ j < i, (if f.elements s = 0 then f.next
      else Function.update f.next i (f.elements s)) j = f.next j := by
    intro j hj
    split
    · rfl
    · exact Function.update_of_ne hj.ne _ _
  refine ⟨?_, ?_, ?_, ?_, ?_, ?_, ?_, ?_, ?_⟩
  · intro m hm
    rcases eq_or_ne m s with rfl | hms
    · exact (Function.update_self m (i + 1) f.elements).le
    · exact (Function.update_of_ne hms (i + 1) f.elements).trans_le
        ((h.entry m hm).trans (Nat.le_succ i))
  · refine h.reach.insert (Nat.succ_ne_zero i) fun m hm hlt => ?_
    exact (hway m hm hlt).1
  · intro m hm hocc
    rcases eq_or_ne m s with rfl | hms
    · simp only [Function.update_self]
      exact hnear
    · simp only [Function.update_of_ne hms] at hocc ⊢
      exact h.near m hm hocc
  · intro m hm m' hm' hocc hocc' hsha
    simp only at hocc hocc' hsha
    rcases eq_or_ne m s with rfl | hms
    · rcases eq_or_ne m' m with rfl | hms'
      · rfl
      · rw [Function.update_of_ne hms'] at hocc' hsha
        rw [Function.update_self] at hsha
        exact (honly m' hm' hocc' hsha.symm).symm
    · rw [Function.update_of_ne hms] at hocc hsha
      rcases eq_or_ne m' s with rfl | hms'
      · rw [Function.update_self] at hsha
        exact honly m hm hocc hsha
      · rw [Function.update_of_ne hms'] at hocc' hsha
        exact h.one m hm m' hm' hocc hocc' hsha
  · intro j
    simp only
    split
    · exact h.back j
    · rcases eq_or_ne j i with rfl | hji
      · rw [Function.update_self]
        exact h.entry s hs
      · rw [Function.update_of_ne hji]
        exact h.back j
  · intro j hj
    simp only
    split
    · exact h.later j (Nat.le_of_succ_le hj)
    · rw [Function.update_of_ne (by omega)]
      exact h.later j (Nat.le_of_succ_le hj)
  · intro m hm hocc fuel hfuel
    simp only at hocc hfuel ⊢
    rcases eq_or_ne m s with rfl | hms
    · rw [Function.update_self] at hfuel ⊢
      rw [shaOf_succ, withSha_succ, if_pos rfl, Nat.add_sub_cancel]
      obtain ⟨fuel, rfl⟩ := Nat.exists_eq_succ_of_ne_zero (show fuel ≠ 0 by omega)
      rw [chain]
      by_cases hzero : f.elements m = 0
      · -- there was no block with this SHA-1
        have hnone : withSha blocks i (blockAt blocks i).sha1 = [] := by
          refine List.eq_nil_iff_forall_not_mem.mpr fun j hj => ?_
          obtain ⟨hji, hsha⟩ := mem_withSha.mp hj
          by_cases hdrop : j ∈ f.dropped
          · refine ((h.crowded j hdrop).2 m hm ?_).1 hzero
            rw [hsame j hji hsha]
            exact hnear
          · obtain ⟨m', hm', hocc', hsha'⟩ := h.kept j hji hdrop
            rw [honly m' hm' hocc' (hsha'.trans hsha)] at hocc'
            exact hocc' hzero
        rw [if_pos hzero, if_pos (h.later i (le_refl i)), hnone]
      · have hle := h.entry m hm
        have hchain : chain (Function.update f.next i (f.elements m)) fuel (f.elements m - 1) =
            chain f.next fuel (f.elements m - 1) :=
          chain_congr (fun j _ => h.back j) fun j hj => Function.update_of_ne (by omega) _ _
        rw [if_neg hzero, Function.update_self, if_neg hzero, hchain,
          h.chains m hm hzero fuel (hle.trans (Nat.le_of_succ_le_succ hfuel)), hslot hzero]
        rfl
    · rw [Function.update_of_ne hms] at hocc hfuel ⊢
      have hother : ¬ (blockAt blocks i).sha1 = shaOf blocks (f.elements m) := fun hsha =>
        hms (honly m hm hocc hsha.symm)
      rw [withSha_succ, if_neg hother, ← h.chains m hm hocc fuel hfuel]
      refine chain_congr (fun j _ => h.back j) fun j hj => hnext j ?_
      have hle := h.entry m hm
      omega
  · intro j hj hnot
    simp only at hnot ⊢
    rcases eq_or_ne j i with rfl | hji
    · refine ⟨s, hs, ?_⟩
      rw [Function.update_self]
      exact ⟨Nat.succ_ne_zero j, rfl⟩
    · obtain ⟨m, hm, hocc, hsha⟩ := h.kept j (by omega) hnot
      rcases eq_or_ne m s with rfl | hms
      · refine ⟨m, hm, ?_⟩
        rw [Function.update_self]
        exact ⟨Nat.succ_ne_zero i, (hslot hocc).symm.trans hsha⟩
      · refine ⟨m, hm, ?_⟩
        rw [Function.update_of_ne hms]
        exact ⟨hocc, hsha⟩
  · intro j hj
    obtain ⟨hji, hfull⟩ := h.crowded j hj
    refine ⟨hji.trans (Nat.lt_succ_self i), fun m hm hle => ?_⟩
    simp only
    rcases eq_or_ne m s with rfl | hms
    · obtain ⟨hocc, hsha⟩ := hfull m hm hle
      rw [Function.update_self]
      exact ⟨Nat.succ_ne_zero i, fun heq => hsha ((hslot hocc).trans heq)⟩
    · rw [Function.update_of_ne hms]
      exact hfull m hm hle

theorem built_start {next : Nat → Nat} (hnext : ∀ j, next j = 0) :
    Built blocks cnt 0 ⟨fun _ => 0, next, []⟩ where
  entry _ _ := le_refl 0
  reach := reach_empty
  near _ _ hocc := absurd rfl hocc
  one _ _ _ _ hocc := absurd rfl hocc
  back j := (hnext j).trans_le (Nat.zero_le j)
  later j _ := hnext j
  chains _ _ hocc := absurd rfl hocc
  kept _ hj := absurd hj (Nat.not_lt_zero _)
  crowded _ hj := absurd hj List.not_mem_nil

/-- A round of the loop over blocks. -/
theorem Built.insertBlock {i : Nat} {f : Filled} (h : Built blocks cnt i f) (hi : i < cnt)
    (hsame : ∀ j < i, (blockAt blocks j).sha1 = (blockAt blocks i).sha1 →
      (blockAt blocks j).adler = (blockAt blocks i).adler) :
    Built blocks cnt (i + 1) (insertBlock blocks cnt f i) := by
  have hstart : (blockAt blocks i).adler % cnt < cnt := Nat.mod_lt _ (Nat.zero_lt_of_lt hi)
  obtain ⟨e, he, hempty⟩ := h.exists_empty hi
  rw [ChecksumHash.insertBlock]
  rcases place_spec blocks (blockAt blocks i).sha1 hstart hstart
    (dist_self _ _) (Nat.zero_le 64) (fun _ _ hlt => absurd hlt (Nat.not_lt_zero _)) he hempty with
    ⟨hplace, hfull⟩ | ⟨s, hs, hplace, hnear, hslot, hway⟩
  · rw [hplace]
    refine h.drop (fun m hm hocc hsha => ?_) hfull
    have hle := h.entry m hm
    exact congrArg (· % cnt) (hsame (f.elements m - 1) (by omega) hsha)
  · rw [hplace]
    exact h.put hsame hs hnear hslot hway hstart

theorem built_fill (next : Nat → Nat) (hnext : ∀ j, next j = 0) (hcnt : blocks.length < cnt)
    (hsame : ∀ i < blocks.length, ∀ j < blocks.length,
      (blockAt blocks j).sha1 = (blockAt blocks i).sha1 →
        (blockAt blocks j).adler = (blockAt blocks i).adler) :
    Built blocks cnt blocks.length (fill ⟨blocks, next⟩ cnt) := by
  have hrounds : ∀ k ≤ blocks.length, Built blocks cnt k
      ((List.range k).foldl (ChecksumHash.insertBlock blocks cnt) ⟨fun _ => 0, next, []⟩) := by
    intro k
    induction k with
    | zero => exact fun _ => built_start hnext
    | succ k ih =>
      intro hk
      rw [List.range_succ, List.foldl_append, List.foldl_cons, List.foldl_nil]
      refine (ih (Nat.le_of_succ_le hk)).insertBlock (by omega) fun j hj hsha => ?_
      exact hsame k hk j (by omega) hsha
  exact hrounds blocks.length (le_refl _)

/-! ## Removing -/

/-- The second loop of a removal ends at the next empty slot. -/
theorem shiftLoop_spec (hcnt : 0 < cnt) {limit : Nat} (hlimit : cnt ≤ limit) {fuel : Nat}
    {t : Nat → Nat} {z o : Nat} (h : Gap cnt (home blocks cnt) t z o) {e : Nat} (he : e < cnt)
    (hempty : t e = 0) (hez : e ≠ z) (heo : e ≠ o) (hfuel : dist cnt o e ≤ fuel) :
    ∃ t', shiftLoop limit blocks cnt fuel t z o = some t' ∧ Reach cnt (home blocks cnt) t' ∧
      (∀ v, v ≠ 0 → (Holds cnt t' v ↔ Holds cnt t v)) ∧ (Single cnt t → Single cnt t') := by
  induction fuel generalizing t z o with
  | zero =>
    have hpos := dist_pos h.slot_lt heo.symm
    omega
  | succ fuel ih =>
    have hhome : ∀ idx, home blocks cnt idx < cnt := fun _ => Nat.mod_lt _ hcnt
    have ho' := next_lt h.slot_lt
    rw [dist_next h.slot_lt he heo] at hfuel
    rw [shiftLoop]
    by_cases hocc : t (next cnt o) = 0
    · simp only [hocc, if_true]
      exact ⟨t, rfl, h.close (fun _ _ _ => hhome _) hocc, fun _ _ => Iff.rfl, id⟩
    · have heo' : e ≠ next cnt o := by
        rintro rfl
        exact hocc hempty
      have hzo : z ≠ next cnt o := by
        intro heq
        rw [← heq] at hocc
        exact hocc h.hole
      simp only [hocc, if_false]
      split
      · next hne =>
        -- from its home, the hole comes before the value or not
        obtain ⟨s, hwalk⟩ := exists_walk
          (fun bp => decide (bp = z) || decide (bp = next cnt o)) (hhome (t (next cnt o)))
          ho' (by simp) ((dist_lt (hhome (t (next cnt o))) ho').trans_le hlimit)
        obtain ⟨hs, hstop, hbefore⟩ := walk_eq_some (hhome _) hwalk
        rw [home] at hwalk
        rw [hwalk, Option.bind_some]
        by_cases hsz : s = z
        · subst hsz
          rw [if_pos rfl]
          have hway : dist cnt (home blocks cnt (t (next cnt o))) s <
              dist cnt (home blocks cnt (t (next cnt o))) (next cnt o) := by
            rcases Nat.lt_trichotomy (dist cnt (home blocks cnt (t (next cnt o))) s)
              (dist cnt (home blocks cnt (t (next cnt o))) (next cnt o)) with hlt | heq | hgt
            · exact hlt
            · exact absurd (dist_inj hs ho' (hhome _) heq) hzo
            · have hgo := hbefore _ ho' hgt
              simp at hgo
          have hempty' : Function.update (Function.update t s (t (next cnt o))) (next cnt o) 0 e =
              0 := by
            rw [Function.update_of_ne heo', Function.update_of_ne hez, hempty]
          obtain ⟨t', hloop, hreach, hholds, hsingle⟩ := ih (h.move hway hocc) hempty' heo' heo'
            (Nat.le_of_succ_le_succ hfuel)
          exact ⟨t', hloop, hreach,
            fun v hv => (hholds v hv).trans (holds_move h.hole_lt ho' h.hole hzo hv),
            fun ht => hsingle (ht.move ho' h.hole)⟩
        · rw [if_neg hsz]
          have hway : ¬ dist cnt (home blocks cnt (t (next cnt o))) z <
              dist cnt (home blocks cnt (t (next cnt o))) (next cnt o) := by
            intro hlt
            have hso : s = next cnt o := by
              simpa [hsz] using hstop
            have hgo := hbefore z h.hole_lt (by rwa [hso])
            simp at hgo
          exact ih (h.keep hway hocc) hempty hez heo' (Nat.le_of_succ_le_succ hfuel)
      · next heq =>
        have hway : ¬ dist cnt (home blocks cnt (t (next cnt o))) z <
            dist cnt (home blocks cnt (t (next cnt o))) (next cnt o) := by
          have hat : home blocks cnt (t (next cnt o)) = next cnt o := not_not.mp heq
          rw [hat, dist_self]
          exact Nat.not_lt_zero _
        exact ih (h.keep hway hocc) hempty hez heo' (Nat.le_of_succ_le_succ hfuel)

theorem isPair_iff {b : BlockChecksum} {idx : Nat} :
    isPair blocks b.adler b.sha1 idx = true ↔ blockAt blocks (idx - 1) = b := by
  rw [isPair, Bool.and_eq_true, decide_eq_true_eq, decide_eq_true_eq]
  constructor
  · rintro ⟨hadler, hsha⟩
    exact BlockChecksum.ext hsha hadler
  · intro hb
    rw [hb]
    exact ⟨rfl, rfl⟩

/-- The table after removals, from the one that was filled. -/
structure Live (blocks : List BlockChecksum) (cnt : Nat) (filled : Nat → Nat)
    (removed : List BlockChecksum) (t : Nat → Nat) : Prop where
  reach : Reach cnt (home blocks cnt) t
  single : Single cnt t
  holds : ∀ v, v ≠ 0 →
    (Holds cnt t v ↔ Holds cnt filled v ∧ blockAt blocks (v - 1) ∉ removed)

variable {f : Filled} {removed : List BlockChecksum} {t : Nat → Nat}

theorem Built.live (h : Built blocks cnt blocks.length f) :
    Live blocks cnt f.elements [] f.elements where
  reach := h.reach
  single := h.single
  holds _ _ := by simp

theorem Built.le_of_holds (h : Built blocks cnt blocks.length f) {v : Nat}
    (hv : Holds cnt f.elements v) : v ≤ blocks.length := by
  obtain ⟨s, hs, rfl⟩ := hv
  exact h.entry s hs

theorem Live.exists_empty (h : Live blocks cnt f.elements removed t)
    (hbuilt : Built blocks cnt blocks.length f) (hcnt : blocks.length < cnt) :
    ∃ e < cnt, t e = 0 := by
  refine h.single.exists_empty (Finset.Icc 1 blocks.length) ?_ fun s hs hocc => ?_
  · rw [Nat.card_Icc]
    omega
  · rw [Finset.mem_Icc]
    have hheld := ((h.holds (t s) hocc).mp ⟨s, hs, rfl⟩).1
    exact ⟨Nat.one_le_iff_ne_zero.mpr hocc, hbuilt.le_of_holds hheld⟩

/-- A search for a checksum ends at the element with it, or at an empty slot when there is none. -/
theorem Live.probe (h : Live blocks cnt f.elements removed t)
    (hbuilt : Built blocks cnt blocks.length f) (hcnt : blocks.length < cnt) {p : Nat → Bool}
    {adler fuel : Nat} (hp : ∀ idx, p idx = true → (blockAt blocks (idx - 1)).adler = adler)
    (hfuel : cnt ≤ fuel) :
    ∃ s < cnt, probe fuel ⟨cnt, t⟩ p adler = some s ∧
      (t s = 0 ∧ (∀ m < cnt, t m ≠ 0 → p (t m) = false) ∨ t s ≠ 0 ∧ p (t s) = true) := by
  obtain ⟨e, he, hempty⟩ := h.exists_empty hbuilt hcnt
  refine h.reach.search (Nat.mod_lt adler (Nat.zero_lt_of_lt hcnt)) (fun s _ _ hps => ?_) he hempty
    hfuel
  rw [home, hp (t s) hps]

/-- What is left without a checksum that is in no slot. -/
theorem Live.skip (h : Live blocks cnt f.elements removed t) {b : BlockChecksum}
    (hnone : ∀ m < cnt, t m ≠ 0 → blockAt blocks (t m - 1) ≠ b) :
    Live blocks cnt f.elements (removed ++ [b]) t where
  reach := h.reach
  single := h.single
  holds := by
    intro v hv
    rw [List.mem_append, List.mem_singleton, not_or, ← and_assoc, ← h.holds v hv]
    constructor
    · rintro ⟨s, hs, rfl⟩
      exact ⟨⟨s, hs, rfl⟩, hnone s hs hv⟩
    · exact And.left

theorem Live.hashRemove (h : Live blocks cnt f.elements removed t)
    (hbuilt : Built blocks cnt blocks.length f) (hcnt : blocks.length < cnt) (next : Nat → Nat)
    (b : BlockChecksum) {fuel : Nat} (hfuel : cnt ≤ fuel) :
    ∃ t', hashRemove fuel ⟨cnt, t⟩ ⟨blocks, next⟩ b.adler b.sha1 = some ⟨cnt, t'⟩ ∧
      Live blocks cnt f.elements (removed ++ [b]) t' := by
  obtain ⟨s, hs, hprobe, hend⟩ := h.probe hbuilt hcnt
    (fun idx hidx => congrArg BlockChecksum.adler (isPair_iff.mp hidx)) hfuel
  rw [ChecksumHash.hashRemove, hprobe, Option.bind_some]
  rcases hend with ⟨hzero, hnone⟩ | ⟨hocc, hpair⟩
  · rw [if_pos hzero]
    refine ⟨t, rfl, h.skip fun m hm hocc hb => ?_⟩
    have hno := hnone m hm hocc
    rw [isPair_iff.mpr hb] at hno
    exact absurd hno (by simp)
  · rw [if_neg hocc]
    have hb : blockAt blocks (t s - 1) = b := isPair_iff.mp hpair
    obtain ⟨e, he, hempty⟩ := h.exists_empty hbuilt hcnt
    have hes : e ≠ s := by
      rintro rfl
      exact hocc hempty
    have hempty' : Function.update t s 0 e = 0 := by
      rw [Function.update_of_ne hes, hempty]
    obtain ⟨t', hloop, hreach, hholds, hsingle⟩ := shiftLoop_spec (Nat.zero_lt_of_lt hcnt) hfuel
      (h.reach.erase hs) he hempty' hes hes ((dist_lt hs he).le.trans hfuel)
    rw [hloop, Option.map_some]
    refine ⟨t', rfl, hreach, hsingle h.single.erase, fun v hv => ?_⟩
    rw [hholds v hv, h.single.holds_erase hs hocc hv, h.holds v hv, List.mem_append,
      List.mem_singleton, not_or, and_assoc]
    -- only one element has this checksum
    refine and_congr_right fun hheld => and_congr_right fun _ => not_congr ⟨?_, fun hvb => ?_⟩
    · rintro rfl
      exact hb
    · obtain ⟨s₁, hs₁, rfl⟩ := hheld
      obtain ⟨s₂, hs₂, heq⟩ := ((h.holds (t s) hocc).mp ⟨s, hs, rfl⟩).1
      have hslot : s₁ = s₂ := by
        refine hbuilt.one s₁ hs₁ s₂ hs₂ hv (heq.trans_ne hocc) ?_
        rw [heq, shaOf, shaOf, hvb, hb]
      rw [hslot, heq]

/-! ## Calls -/

theorem exists_copyLoop {next : Nat → Nat} (hnext : ∀ j, next j ≤ j) (action : BlockAction)
    {fuel : Nat} (blockactions : Nat → BlockAction) {cidx : Nat} (hfuel : cidx < fuel) :
    ∃ blockactions', copyLoop next action fuel blockactions cidx = some blockactions' := by
  induction fuel generalizing blockactions cidx with
  | zero => exact absurd hfuel (Nat.not_lt_zero _)
  | succ fuel ih =>
    have hle := hnext cidx
    rw [copyLoop]
    split
    · exact ih _ (by omega)
    · exact ⟨_, rfl⟩

theorem Live.runFound (hbuilt : Built blocks cnt blocks.length f) (hcnt : blocks.length < cnt)
    {fuel : Nat} (hfuel : cnt ≤ fuel) {ms : List Found} (hms : ∀ m ∈ ms, m.idx ≤ blocks.length)
    {s : State} (hsize : s.hash.elementcnt = cnt)
    (h : Live blocks cnt f.elements s.removed s.hash.elements) :
    ∃ s', runFound fuel ⟨blocks, f.next⟩ ms s = some s' ∧ s'.hash.elementcnt = cnt ∧
      Live blocks cnt f.elements s'.removed s'.hash.elements := by
  induction ms generalizing s with
  | nil => exact ⟨s, rfl, hsize, h⟩
  | cons m ms ih =>
    have hrest : ∀ m' ∈ ms, m'.idx ≤ blocks.length :=
      fun m' hm' => hms m' (List.mem_cons_of_mem _ hm')
    rw [ChecksumHash.runFound, blockMatchFound]
    split
    · rw [Option.bind_some]
      exact ih hrest hsize h
    · have hidx : m.idx - 1 < fuel := by
        have hle := hms m (List.mem_cons_self ..)
        omega
      obtain ⟨blockactions, hcopy⟩ := exists_copyLoop hbuilt.back
        ⟨m.fileoffset, m.fileidx, .copy⟩ s.blockactions hidx
      obtain ⟨t', hremove, hlive⟩ := h.hashRemove hbuilt hcnt f.next
        (blockAt blocks (m.idx - 1)) hfuel
      obtain ⟨⟨cnt', t⟩, blockactions', removed'⟩ := s
      obtain rfl : cnt' = cnt := hsize
      simp only at hcopy hremove hlive ⊢
      rw [hcopy, Option.bind_some, hremove, Option.map_some, Option.bind_some]
      exact ih hrest rfl hlive

end

/-! ## Answers -/

section

variable {blocks : List BlockChecksum} {cnt : Nat} {f : Filled} {removed : List BlockChecksum}
  {t : Nat → Nat}

/-- What was put into the table is what was not ignored. -/
theorem Built.holds_iff (h : Built blocks cnt blocks.length f)
    (hsame : ∀ i < blocks.length, ∀ j < blocks.length,
      (blockAt blocks j).sha1 = (blockAt blocks i).sha1 →
        (blockAt blocks j).adler = (blockAt blocks i).adler) {b : BlockChecksum} :
    (∃ v, v ≠ 0 ∧ Holds cnt f.elements v ∧ blockAt blocks (v - 1) = b) ↔
      ∃ i < blocks.length, i ∉ f.dropped ∧ blockAt blocks i = b := by
  constructor
  · rintro ⟨v, hv, ⟨s, hs, rfl⟩, hb⟩
    have hle := h.entry s hs
    refine ⟨f.elements s - 1, by omega, fun hdrop => ?_, hb⟩
    exact ((h.crowded _ hdrop).2 s hs (h.near s hs hv)).2 rfl
  · rintro ⟨i, hi, hnot, rfl⟩
    obtain ⟨s, hs, hocc, hsha⟩ := h.kept i hi hnot
    have hle := h.entry s hs
    refine ⟨f.elements s, hocc, ⟨s, hs, rfl⟩, ?_⟩
    exact BlockChecksum.ext hsha (hsame i hi (f.elements s - 1) (by omega) hsha)

theorem Live.present_iff (h : Live blocks cnt f.elements removed t)
    (hbuilt : Built blocks cnt blocks.length f)
    (hsame : ∀ i < blocks.length, ∀ j < blocks.length,
      (blockAt blocks j).sha1 = (blockAt blocks i).sha1 →
        (blockAt blocks j).adler = (blockAt blocks i).adler) {b : BlockChecksum} :
    Present blocks f.dropped removed b ↔
      ∃ s < cnt, t s ≠ 0 ∧ blockAt blocks (t s - 1) = b := by
  rw [Present, ← hbuilt.holds_iff hsame]
  constructor
  · rintro ⟨⟨v, hv, hheld, rfl⟩, hnot⟩
    obtain ⟨s, hs, rfl⟩ := (h.holds v hv).mpr ⟨hheld, hnot⟩
    exact ⟨s, hs, hv, rfl⟩
  · rintro ⟨s, hs, hocc, rfl⟩
    obtain ⟨hheld, hnot⟩ := (h.holds (t s) hocc).mp ⟨s, hs, rfl⟩
    exact ⟨⟨t s, hocc, hheld, rfl⟩, hnot⟩

theorem Live.answers (hbuilt : Built blocks cnt blocks.length f) (hcnt : blocks.length < cnt)
    (hsame : ∀ i < blocks.length, ∀ j < blocks.length,
      (blockAt blocks j).sha1 = (blockAt blocks i).sha1 →
        (blockAt blocks j).adler = (blockAt blocks i).adler)
    {fuel : Nat} (hfuel : cnt ≤ fuel) {s : State} (hsize : s.hash.elementcnt = cnt)
    (h : Live blocks cnt f.elements s.removed s.hash.elements) :
    Answers fuel ⟨blocks, f.next⟩ f.dropped s := by
  obtain ⟨⟨cnt', t⟩, blockactions, removed⟩ := s
  obtain rfl : cnt' = cnt := hsize
  simp only at h
  constructor
  · intro adler
    obtain ⟨o, ho, hprobe, hend⟩ := h.probe hbuilt hcnt
      (p := fun idx => decide ((blockAt blocks (idx - 1)).adler = adler))
      (fun idx hidx => of_decide_eq_true hidx) hfuel
    rw [hashHasAdler, hprobe, Option.map_some]
    refine ⟨_, rfl, ?_⟩
    simp only [h.present_iff hbuilt hsame]
    rcases hend with ⟨hzero, hnone⟩ | ⟨hocc, hfound⟩
    · rw [if_pos hzero]
      refine iff_of_false (fun hne => hne rfl) ?_
      rintro ⟨b, ⟨m, hm, hocc, rfl⟩, hb⟩
      exact of_decide_eq_false (hnone m hm hocc) hb
    · rw [if_neg hocc]
      exact iff_of_true Nat.one_ne_zero
        ⟨_, ⟨o, ho, hocc, rfl⟩, of_decide_eq_true hfound⟩
  · intro b
    obtain ⟨o, ho, hprobe, hend⟩ := h.probe hbuilt hcnt
      (fun idx hidx => congrArg BlockChecksum.adler (isPair_iff.mp hidx)) hfuel
    rw [hashHasAdlerAndSha1, hprobe, Option.map_some]
    refine ⟨_, rfl, ?_⟩
    simp only [h.present_iff hbuilt hsame]
    rcases hend with ⟨hzero, hnone⟩ | ⟨hocc, hfound⟩
    · refine ⟨iff_of_false (fun hne => hne hzero) ?_, fun hne => absurd hzero hne⟩
      rintro ⟨m, hm, hocc, hb⟩
      have hno := hnone m hm hocc
      rw [isPair_iff.mpr hb] at hno
      exact absurd hno (by simp)
    · have hb := isPair_iff.mp hfound
      refine ⟨iff_of_true hocc ⟨o, ho, hocc, hb⟩, fun _ => ?_⟩
      -- the element was in the table that was filled
      obtain ⟨⟨o', ho', heq⟩, -⟩ := (h.holds (t o) hocc).mp ⟨o, ho, rfl⟩
      have hle := hbuilt.entry o' ho'
      rw [heq] at hle
      refine ⟨hle, hb, withSha blocks blocks.length b.sha1, ?_, nodup_withSha _ _,
        fun j => mem_withSha⟩
      have hchain := hbuilt.chains o' ho' (heq.trans_ne hocc) fuel (by omega)
      rwa [heq, shaOf, hb] at hchain

/-- The table of any blocks, of which those with one SHA-1 have one Adler-32, gets filled; a block
is ignored only where the slots for it are full.  Behind any calls for blocks of the file, every
search in it ends and finds what was not ignored and not removed. -/
theorem checksum_hash (blocks : List BlockChecksum)
    (hsize : 28 * blocks.length < 64 * 1024 * 1024)
    (hsame : ∀ i < blocks.length, ∀ j < blocks.length,
      (blockAt blocks j).sha1 = (blockAt blocks i).sha1 →
        (blockAt blocks j).adler = (blockAt blocks i).adler)
    {fuel : Nat} (hfuel : 6 * blocks.length + 8 ≤ fuel) :
    ∃ h cs dropped, createHash fuel ⟨blocks, fun _ => 0⟩ = some (h, cs, dropped) ∧
      cs.blocks = blocks ∧ (∀ i ∈ dropped, i < blocks.length ∧ Crowded blocks h i) ∧
      ∀ (blockactions : Nat → BlockAction) (ms : List Found),
        (∀ m ∈ ms, 0 < m.idx ∧ m.idx ≤ blocks.length) →
        ∃ s, runFound fuel cs ms ⟨h, blockactions, []⟩ = some s ∧ Answers fuel cs dropped s := by
  have hfirst := firstSize_eq hsize
  obtain ⟨cnt, hcnt, hge, hle⟩ := exists_size
    (show firstSize blocks.length % 6 = 1 by omega) (show firstSize blocks.length ≤ fuel by omega)
  have hroom : blocks.length < cnt := by omega
  have hlimit : cnt ≤ fuel := by omega
  have hbuilt := built_fill (fun _ => 0) (fun _ => rfl) hroom hsame
  refine ⟨⟨cnt, (fill ⟨blocks, fun _ => 0⟩ cnt).elements⟩,
    ⟨blocks, (fill ⟨blocks, fun _ => 0⟩ cnt).next⟩,
    (fill ⟨blocks, fun _ => 0⟩ cnt).dropped, ?_, rfl, hbuilt.crowded, fun blockactions ms hms => ?_⟩
  · rw [createHash, hcnt]
    rfl
  · obtain ⟨s, hrun, hcount, hlive⟩ := Live.runFound hbuilt hroom hlimit
      (fun m hm => (hms m hm).2) (s := ⟨⟨cnt, _⟩, blockactions, []⟩) rfl hbuilt.live
    exact ⟨s, hrun, hlive.answers hbuilt hroom hsame hlimit hcount⟩

/-- Two blocks are the same, and a third one has another SHA-1 but the same Adler-32. -/
def threeBlocks : List BlockChecksum :=
  [⟨Vector.replicate 20 1, 5⟩, ⟨Vector.replicate 20 2, 5⟩, ⟨Vector.replicate 20 1, 5⟩]

theorem checksum_hash_three :
    ∃ h cs, createHash 26 ⟨threeBlocks, fun _ => 0⟩ = some (h, cs, []) ∧ cs.blocks = threeBlocks ∧
      ∀ (blockactions : Nat → BlockAction) (ms : List Found),
        (∀ m ∈ ms, 0 < m.idx ∧ m.idx ≤ 3) →
        ∃ s, runFound 26 cs ms ⟨h, blockactions, []⟩ = some s ∧ Answers 26 cs [] s := by
  have hnone : (createHash 26 ⟨threeBlocks, fun _ => 0⟩).map (fun x => x.2.2) = some [] := by
    decide +kernel
  obtain ⟨h, cs, dropped, hcreate, hblocks, -, hanswers⟩ :=
    @checksum_hash threeBlocks (by decide) (by decide) 26 (le_refl _)
  rw [hcreate] at hnone
  obtain rfl : dropped = [] := Option.some.inj hnone
  exact ⟨h, cs, hcreate, hblocks, hanswers⟩

end

end PcloudClient.Pnetlibs.ChecksumHash
