/-
  FsUpload/Modify.lean --- uploading a modified file.

  What is in the data file is sent, and the server is asked to copy the rest from the revision
  that was modified.
-/
import PcloudClient.Pfs.PlainRuns

set_option autoImplicit false

namespace PcloudClient.FsUpload.Modify

open PcloudClient.Foundation
open PcloudClient.Pfs

def PSYNC_MAX_COPY_FROM_REQ : Nat := 32 * 1024 * 1024

def PSYNC_COPY_BUFFER_SIZE : Nat := 256 * 1024

/-- `upload_writefromfile` with an offset, which is the same in both files, and a count, and
`upload_write` with an offset and the bytes. -/
inductive Request where
  | copyFrom (offset length : Nat)
  | write (offset : Nat) (data : Bytes)
  deriving DecidableEq, Repr

namespace Request

def offset : Request → Nat
  | copyFrom offset _ => offset
  | write offset _ => offset

def length : Request → Nat
  | copyFrom _ length => length
  | write _ data => data.length

/-- What the server does with a request; `upload` is what it has so far. -/
def serve (remote upload : Bytes) : Request → Bytes
  | copyFrom offset length => File.pwrite upload (File.pread remote length offset) offset
  | write offset data => File.pwrite upload data offset

end Request

/-- The loop of `upload_modify_send_local`; `none` is a file that is too short. -/
def sendLocalLoop (fd : Bytes) : Nat → Nat → Nat → Option Bytes
  | _, _, 0 => some []
  | 0, _, _ + 1 => none
  | fuel + 1, pos, length + 1 =>
    let rd :=
      if PSYNC_COPY_BUFFER_SIZE < length + 1 then PSYNC_COPY_BUFFER_SIZE else length + 1
    let buff := File.pread fd rd pos
    if buff = [] then none
    else (sendLocalLoop fd fuel (pos + buff.length) (length + 1 - buff.length)).map (buff ++ ·)

/-- `upload_modify_send_local` -/
def sendLocal (fd : Bytes) (offset length : Nat) : Option Request :=
  (sendLocalLoop fd length offset length).map (.write offset)

/-- The loop of `upload_modify`: the requests from `coff` on.  A broken interval tree ends it. -/
def uploadLoop (fd : Bytes) (fsize : Nat) : Nat → Nat → List (Span Nat) → Option (List Request)
  | 0, coff, _ => if coff < fsize then none else some []
  | fuel + 1, coff, tree =>
    if coff < fsize then
      match tree with
      | cinterval :: rest =>
        if coff < cinterval.start then
          let len := min (min cinterval.start fsize - coff) PSYNC_MAX_COPY_FROM_REQ
          (uploadLoop fd fsize fuel (coff + len) tree).map (.copyFrom coff len :: ·)
        else if coff < cinterval.stop then do
          let request ← sendLocal fd coff (min cinterval.stop fsize - coff)
          let requests ← uploadLoop fd fsize fuel cinterval.stop rest
          return request :: requests
        else some []
      | [] =>
        let len := min (fsize - coff) PSYNC_MAX_COPY_FROM_REQ
        (uploadLoop fd fsize fuel (coff + len) []).map (.copyFrom coff len :: ·)
    else some []

/-- `upload_modify`, with the files that the open file has. -/
def uploadModify (of : Openfile) : Option (List Request) := do
  let records ← of.indexfile
  let tree ← loadIntervalTree records []
  let fd ← of.datafile
  uploadLoop fd fd.length fd.length 0 tree

/-- The requests follow each other from one position to another. -/
inductive Tiles : Nat → Nat → List Request → Prop where
  | done (stop : Nat) : Tiles stop stop []
  | next {start stop : Nat} {r : Request} {rs : List Request} (offset : r.offset = start)
      (positive : 0 < r.length) (rest : Tiles (start + r.length) stop rs) :
      Tiles start stop (r :: rs)

/-- What the server puts together of the requests. -/
def assemble (remote : Bytes) (requests : List Request) : Bytes :=
  requests.foldl (Request.serve remote) []

/-! ## What is sent -/

section

variable {fd content : Bytes} {records : List IndexRecord} {of : Openfile}

theorem sendLocalLoop_eq (fd : Bytes) {fuel pos length : Nat} (hfuel : length ≤ fuel)
    (hin : pos + length ≤ fd.length) :
    sendLocalLoop fd fuel pos length = some (File.pread fd length pos) := by
  induction fuel generalizing pos length with
  | zero =>
    obtain rfl : length = 0 := by omega
    simp [sendLocalLoop, File.pread]
  | succ fuel ih =>
    cases length with
    | zero => simp [sendLocalLoop, File.pread]
    | succ length =>
      rw [sendLocalLoop]
      have hrd : (if PSYNC_COPY_BUFFER_SIZE < length + 1 then PSYNC_COPY_BUFFER_SIZE
          else length + 1) = min PSYNC_COPY_BUFFER_SIZE (length + 1) := by
        split <;> omega
      have hbuffer : 0 < PSYNC_COPY_BUFFER_SIZE := by decide
      rw [hrd]
      generalize hmin : min PSYNC_COPY_BUFFER_SIZE (length + 1) = rd
      have hlen : (File.pread fd rd pos).length = rd := File.length_pread_of_le (by omega)
      have hne : File.pread fd rd pos ≠ [] := by
        rw [← List.length_pos_iff, hlen]
        omega
      rw [if_neg hne, hlen, ih (by omega) (by omega), Option.map_some, File.pread_append_pread,
        show rd + (length + 1 - rd) = length + 1 by omega]

/-- The requests that are left send what is left of the file. -/
structure Sends (of : Openfile) (content : Bytes) (coff : Nat) (requests : List Request) :
    Prop where
  tiles : Tiles (min coff content.length) content.length requests
  inside : ∀ offset length, Request.copyFrom offset length ∈ requests →
    offset + length ≤ of.remote.length ∧ length ≤ PSYNC_MAX_COPY_FROM_REQ
  assembles : requests.foldl (Request.serve of.remote) (content.take coff) = content

/-- Nothing is left. -/
theorem Sends.nil {coff : Nat} (hend : content.length ≤ coff) : Sends of content coff [] := by
  refine ⟨?_, by simp, ?_⟩
  · rw [min_eq_right hend]
    exact .done _
  · rw [List.foldl_nil, List.take_of_length_le hend]

/-- A request that sends the bytes from `coff` to `next`. -/
theorem Sends.cons {coff next : Nat} {r : Request} {rs : List Request}
    (hcoff : coff < content.length)
    (hlt : coff < next) (hoffset : r.offset = coff)
    (hlength : r.length = min next content.length - coff)
    (hcopy : ∀ offset length, r = .copyFrom offset length →
      offset + length ≤ of.remote.length ∧ length ≤ PSYNC_MAX_COPY_FROM_REQ)
    (hserve : r.serve of.remote (content.take coff) =
      File.pwrite (content.take coff) (File.pread content r.length coff) coff)
    (hrs : Sends of content next rs) : Sends of content coff (r :: rs) := by
  refine ⟨?_, ?_, ?_⟩
  · rw [min_eq_left hcoff.le]
    refine .next hoffset (by omega) ?_
    rw [hlength, show coff + (min next content.length - coff) = min next content.length by omega]
    exact hrs.tiles
  · intro offset length hmem
    rcases List.mem_cons.mp hmem with heq | hmem
    · exact hcopy offset length heq.symm
    · exact hrs.inside offset length hmem
  · rw [List.foldl_cons, hserve]
    have htake : (content.take coff).length = coff := by simp; omega
    have happend := File.pwrite_length (content.take coff) (File.pread content r.length coff)
    rw [htake] at happend
    have hbytes : content.take coff ++ File.pread content r.length coff = content.take next := by
      have hboth := File.pread_append_pread content coff r.length 0
      rw [Nat.zero_add] at hboth
      have hfront : File.pread content coff 0 = content.take coff := by simp [File.pread]
      have hall : File.pread content (coff + r.length) 0 = content.take (coff + r.length) := by
        simp [File.pread]
      rw [hfront, hall] at hboth
      rw [hboth, List.take_eq_take_iff]
      omega
    rw [happend, hbytes]
    exact hrs.assembles

/-- A range without a record is the same in the revision. -/
theorem pread_outside (ho : of.Overlay content fd records) {coff len : Nat} (hpos : 0 < len)
    (hin : coff + len ≤ content.length)
    (hout : ∀ x, coff ≤ x → x < coff + len → x ∉ recorded records) :
    File.pread of.remote len coff = File.pread content len coff ∧
      coff + len ≤ of.remote.length := by
  refine ⟨?_, ?_⟩
  · apply List.ext_getElem?
    intro i
    rw [File.getElem?_pread, File.getElem?_pread]
    split
    · next hi => rw [(ho.outside (coff + i) (by omega) (hout _ (by omega) (by omega))).1]
    · rfl
  · have hlast := (ho.outside (coff + len - 1) (by omega) (hout _ (by omega) (by omega))).2
    omega

/-- A range that is recorded is the same in the data file. -/
theorem pread_inside (ho : of.Overlay content fd records) {coff len : Nat}
    (hall : ∀ x, coff ≤ x → x < coff + len → x ∈ recorded records) :
    File.pread fd len coff = File.pread content len coff := by
  apply List.ext_getElem?
  intro i
  rw [File.getElem?_pread, File.getElem?_pread]
  split
  · next hi => rw [ho.inside (coff + i) (hall _ (by omega) (by omega))]
  · rfl

/-- A request to copy. -/
theorem Sends.copyFrom (ho : of.Overlay content fd records) {coff len : Nat} {rs : List Request}
    (hpos : 0 < len) (hin : coff + len ≤ content.length) (hmax : len ≤ PSYNC_MAX_COPY_FROM_REQ)
    (hout : ∀ x, coff ≤ x → x < coff + len → x ∉ recorded records)
    (hrs : Sends of content (coff + len) rs) :
    Sends of content coff (.copyFrom coff len :: rs) := by
  obtain ⟨hbytes, hrange⟩ := pread_outside ho hpos hin hout
  refine Sends.cons (by omega) (by omega) rfl ?_ ?_ ?_ hrs
  · rw [Request.length, min_eq_left hin]
    omega
  · rintro offset length ⟨⟩
    exact ⟨hrange, hmax⟩
  · rw [Request.serve, hbytes, Request.length]

/-- The loop of `upload_modify` sends what is left, if the intervals that are left are those of
the index behind `coff`. -/
theorem uploadLoop_sends (ho : of.Overlay content fd records) {fuel coff : Nat}
    {tree : List (Span Nat)} (hfuel : content.length - coff ≤ fuel)
    (hsep : Intervals.Separated tree) (hbehind : ∀ i ∈ tree, coff < i.stop)
    (hsame : ∀ x, coff ≤ x → (x ∈ recorded records ↔ x ∈ Intervals.union tree)) :
    ∃ rs, uploadLoop fd content.length fuel coff tree = some rs ∧ Sends of content coff rs := by
  induction fuel generalizing coff tree with
  | zero =>
    have hend : ¬coff < content.length := by omega
    refine ⟨[], ?_, Sends.nil (by omega)⟩
    simp only [uploadLoop, if_neg hend]
  | succ fuel ih =>
    unfold uploadLoop
    by_cases hcoff : coff < content.length
    · rw [if_pos hcoff]
      have hreq : 0 < PSYNC_MAX_COPY_FROM_REQ := by decide
      cases tree with
      | nil =>
        dsimp only
        generalize hlen : min (content.length - coff) PSYNC_MAX_COPY_FROM_REQ = len
        obtain ⟨rs, hrs, hsends⟩ := ih (show content.length - (coff + len) ≤ fuel by omega) hsep
          (by simp) fun x hx => hsame x (by omega)
        refine ⟨_, by rw [hrs]; rfl, hsends.copyFrom ho (by omega) (by omega) (by omega) ?_⟩
        intro x hx _
        rw [hsame x hx]
        simp
      | cons cinterval rest =>
        obtain ⟨hne, hrest, hsep'⟩ := Intervals.separated_cons.mp hsep
        have hstop := hbehind cinterval (by simp)
        dsimp only
        split
        · next hstart =>
          generalize hlen :
            min (min cinterval.start content.length - coff) PSYNC_MAX_COPY_FROM_REQ = len
          have hbehind' : ∀ i ∈ cinterval :: rest, coff + len < i.stop := by
            intro i hi
            rcases List.mem_cons.mp hi with rfl | hi
            · omega
            · have hi' := hrest i hi
              have hi'' := hsep'.nonempty i hi
              omega
          obtain ⟨rs, hrs, hsends⟩ := ih (show content.length - (coff + len) ≤ fuel by omega) hsep
            hbehind' fun x hx => hsame x (by omega)
          refine ⟨_, by rw [hrs]; rfl, hsends.copyFrom ho (by omega) (by omega) (by omega) ?_⟩
          intro x hx hlt
          rw [hsame x hx]
          rintro ⟨i, hi, hle, -⟩
          rcases List.mem_cons.mp hi with rfl | hi
          · omega
          · have hi' := hrest i hi
            omega
        · next hstart =>
          have hdata := ho.length_data
          have hbehind' : ∀ i ∈ rest, cinterval.stop < i.stop := by
            intro i hi
            have hi' := hrest i hi
            have hi'' := hsep'.nonempty i hi
            omega
          have hsame' : ∀ x, cinterval.stop ≤ x →
              (x ∈ recorded records ↔ x ∈ Intervals.union rest) := by
            intro x hx
            rw [hsame x (by omega), Intervals.union_cons, Set.mem_union, Set.mem_Ico]
            constructor
            · rintro (hout | hin)
              · omega
              · exact hin
            · exact Or.inr
          obtain ⟨rs, hrs, hsends⟩ := ih (show content.length - cinterval.stop ≤ fuel by omega)
            hsep' hbehind' hsame'
          have hall : ∀ x, coff ≤ x → x < coff + (min cinterval.stop content.length - coff) →
              x ∈ recorded records := fun x hx hlt =>
            (hsame x hx).mpr ⟨cinterval, by simp, by omega, by omega⟩
          have hlocal : sendLocal fd coff (min cinterval.stop content.length - coff) =
              some (.write coff (File.pread content
                (min cinterval.stop content.length - coff) coff)) := by
            rw [sendLocal, sendLocalLoop_eq fd (Nat.le_refl _) (by omega), pread_inside ho hall,
              Option.map_some]
          have hlen : (File.pread content (min cinterval.stop content.length - coff)
              coff).length = min cinterval.stop content.length - coff :=
            File.length_pread_of_le (by omega)
          refine ⟨_, by rw [hlocal, hrs]; rfl, ?_⟩
          refine Sends.cons hcoff hstop rfl hlen ?_ ?_ hsends
          · rintro offset length ⟨⟩
          · rw [Request.serve, Request.length, hlen]
    · rw [if_neg hcoff]
      exact ⟨[], rfl, Sends.nil (by omega)⟩

/-- `upload_modify` sends the bytes of the file. -/
theorem uploadModify_sends (ho : of.Overlay content fd records) :
    ∃ rs, uploadModify of = some rs ∧ Sends of content 0 rs := by
  obtain ⟨tree, hload, hsep, hunion⟩ := loadIntervalTree_eq ho.positive Intervals.separated_nil
  rw [Intervals.union_nil, Set.empty_union] at hunion
  obtain ⟨rs, hrs, hsends⟩ := uploadLoop_sends ho (Nat.sub_le content.length 0) hsep
    (fun i hi => Nat.zero_lt_of_lt (hsep.nonempty i hi)) fun x _ => by rw [hunion]
  refine ⟨rs, ?_, hsends⟩
  simp only [uploadModify, ho.indexfile, Option.bind_eq_bind, Option.bind_some, hload, ho.datafile,
    ho.length_data, hrs]

end

/-- Behind any writes and truncations of a remote file that make it a modified one, its upload
sends requests that follow each other from its start to its end, copies only what the revision has
and not too much at once, and gives the server the bytes of the file. -/
theorem upload_modify_exact (remote : Bytes) (cs : List Change) (hcs : ∀ c ∈ cs, c.Nonempty) :
    ∃ of, runChanges cs (Openfile.create remote) = some of ∧
      ((of.newfile = false ∧ of.modified = true) ↔ Modifies remote.length cs) ∧
      (Modifies remote.length cs →
        ∃ requests, uploadModify of = some requests ∧
          Tiles 0 (cs.foldl Change.apply remote).length requests ∧
          (∀ offset length, Request.copyFrom offset length ∈ requests →
            offset + length ≤ remote.length ∧ length ≤ PSYNC_MAX_COPY_FROM_REQ) ∧
          assemble remote requests = cs.foldl Change.apply remote) := by
  obtain ⟨ht, -⟩ := Openfile.tracks_create remote
  obtain ⟨of, hrun, ht', -, hremote⟩ := ht.runChanges hcs
  have hkind := modified_iff_modifies rfl rfl rfl hrun
  refine ⟨of, hrun, hkind, fun hmodifies => ?_⟩
  obtain ⟨hnew, hmod⟩ := hkind.mpr hmodifies
  rw [show (Openfile.create remote).remote = remote from rfl] at hremote
  cases ht' with
  | clean newfile modified remote initialsize currentsize datafile indexfile =>
    exact absurd hmod (by simp [modified])
  | new newfile datafile currentsize => exact absurd hnew (by simp [newfile])
  | modified newfile modified data records overlay =>
    obtain ⟨requests, hupload, hsends⟩ := uploadModify_sends overlay
    refine ⟨requests, hupload, ?_, ?_, ?_⟩
    · simpa using hsends.tiles
    · exact hremote ▸ hsends.inside
    · exact hremote ▸ hsends.assembles

/-- Two bytes are written, the file is cut behind the first of them and written to again behind its
end: what is in the index is sent, also the gap, and the bytes in front of it are copied. -/
theorem upload_modify_exact_cut :
    ∃ of, runChanges [.ftruncate true 4, .write false [7, 8] 2, .ftruncate false 3,
        .write false [9] 5] (Openfile.create [65, 66, 67, 68]) = some of ∧
      (of.newfile = false ∧ of.modified = true) ∧
      ∃ requests, uploadModify of = some requests ∧
        requests = [.copyFrom 0 2, .write 2 [7, 0, 0, 9]] ∧ Tiles 0 6 requests ∧
        (∀ offset length, Request.copyFrom offset length ∈ requests →
          offset + length ≤ 4 ∧ length ≤ PSYNC_MAX_COPY_FROM_REQ) ∧
        assemble [65, 66, 67, 68] requests = [65, 66, 7, 0, 0, 9] := by
  have hsent : ∀ of ∈ runChanges [.ftruncate true 4, .write false [7, 8] 2, .ftruncate false 3,
      .write false [9] 5] (Openfile.create [65, 66, 67, 68]),
      uploadModify of = some [.copyFrom 0 2, .write 2 [7, 0, 0, 9]] := by
    decide +kernel
  obtain ⟨of, hrun, hkind, hupload⟩ := upload_modify_exact [65, 66, 67, 68]
    [.ftruncate true 4, .write false [7, 8] 2, .ftruncate false 3, .write false [9] 5]
    (by simp [Change.Nonempty])
  have hmodifies : Modifies 4 [.ftruncate true 4, .write false [7, 8] 2, .ftruncate false 3,
      .write false [9] 5] := by
    decide
  obtain ⟨requests, hrequests, htiles, hcopies, hbytes⟩ := hupload hmodifies
  exact ⟨of, hrun, hkind.mpr hmodifies, requests, hrequests,
    Option.some.inj (hrequests.symm.trans (hsent of hrun)), htiles, hcopies, hbytes⟩

end PcloudClient.FsUpload.Modify
