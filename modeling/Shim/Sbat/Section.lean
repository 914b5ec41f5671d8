import Shim.Pe.HashSpec
import Shim.Sbat.Entries

/-!
# The `.sbat` section of an image

`verify_buffer_sbat` looks for the section named `.sbat`, `verify_sbat_section` copies its raw data,
parses the copy and checks the entries against the variable.
-/

namespace Shim.Sbat

open Lib Pe

structure SbatEnv where
  inProtocol : Bool
  atoi : List UInt8 → ℤ
  pool : Pool

def SbatEnv.sbatCopy (e : SbatEnv) (base : Mem) (size : ℕ) : Mem :=
  (e.pool.fresh.copy 0 base 0 size).store size 1 0

def verifySbatSection (e : SbatEnv) (sbatVar : List VarEntry) (data : Option (Mem × ℕ)) : EfiStatus :=
  if sbatVar = [] then .success
  else
    match data with
    | none => if e.inProtocol then .success else .securityViolation
    | some (base, size) =>
      if 2 ^ 64 ≤ size + 1 then .securityViolation
      else if e.pool.copy = false then .outOfResources
      else
        match parseSbatSection e.pool (e.sbatCopy base size) (size + 1) with
        | .error status => status
        | .ok entries => verifySbatHelper e.atoi sbatVar entries

def sbatName : List UInt8 := [0x2e, 0x73, 0x62, 0x61, 0x74, 0, 0, 0]

def dataEnd (f : File) : ℕ := addW 64 f.addr (intSize f.datasize)

structure SbatScan where
  base : ℕ
  size : ℕ

variable {n size : ℕ} {st : SbatScan} {base : Mem}

def sbatStep (f : File) (c : Context) (st : SbatScan) (i : ℕ) : Except EfiStatus SbatScan := do
  reject (dataEnd f < f.addr + c.sectionOffset (i + 1)) .unsupported
  let s := f.row c i
  if s.name ≠ sbatName then return st
  else do
    reject (st.base ≠ 0 ∨ st.size ≠ 0) .unsupported
    reject (s.numberOfRelocations ≠ 0 ∨ s.pointerToRelocations ≠ 0) .unsupported
    if s.sizeOfRawData ≠ 0 ∧ s.virtualSize ≤ s.sizeOfRawData then do
      let base := imageAddress f.addr (intSize f.datasize) s.pointerToRawData
      reject (2 ^ 64 ≤ base + s.sizeOfRawData ∨ dataEnd f < base + s.sizeOfRawData) .unsupported
      return ⟨base, s.sizeOfRawData⟩
    else return st

def sbatData (f : File) (c : Context) : Except EfiStatus (Option (Mem × ℕ)) := do
  let st ← (List.range c.numberOfSections).foldlM (sbatStep f c) ⟨0, 0⟩
  if st.base = 0 ∨ st.size = 0 then return none
  else return some (fun i => f.mem (st.base - f.addr + i), st.size)

def verifyBufferSbat (e : SbatEnv) (sbatVar : List VarEntry) (f : File) (c : Context) : EfiStatus :=
  match sbatData f c with
  | .error status => status
  | .ok data => verifySbatSection e sbatVar data

variable {f : File} {c : Context}

def Found (f : File) (c : Context) (n : ℕ) (st : SbatScan) : Prop :=
  st = ⟨0, 0⟩ ∨ ∃ i < n, ∃ s, s = f.row c i ∧ s.name = sbatName ∧
    s.sizeOfRawData ≠ 0 ∧ s.virtualSize ≤ s.sizeOfRawData ∧
    st = ⟨imageAddress f.addr (intSize f.datasize) s.pointerToRawData, s.sizeOfRawData⟩

lemma sbatStep_found {st' : SbatScan} (hst : Found f c n st)
    (h : sbatStep f c st n = .ok st') : Found f c (n + 1) st' := by
  have hkeep : Found f c (n + 1) st := by
    rcases hst with h0 | ⟨i, hi, hs⟩
    · exact .inl h0
    · exact .inr ⟨i, by omega, hs⟩
  unfold sbatStep at h
  rw [reject_bind_eq_ok] at h
  obtain ⟨_, h⟩ := h
  simp only at h
  split_ifs at h with hname hsize
  · cases h
    exact hkeep
  · simp only [reject_bind_eq_ok] at h
    obtain ⟨_, _, _, h⟩ := h
    cases h
    exact .inr ⟨n, Nat.lt_succ_self n, _, rfl, not_not.mp hname, hsize.1, hsize.2, rfl⟩
  · simp only [reject_bind_eq_ok] at h
    obtain ⟨_, _, h⟩ := h
    cases h
    exact hkeep

lemma sbatScan_found
    (h : (List.range n).foldlM (sbatStep f c) ⟨0, 0⟩ = .ok st) : Found f c n st :=
  foldlM_range_invariant (Found f c) (.inl rfl) (fun _ _ _ hu hv => sbatStep_found hu hv) h

lemma sbatData_eq_some (h : sbatData f c = .ok (some (base, size))) :
    ∃ i < c.numberOfSections, ∃ s, s = f.row c i ∧ s.name = sbatName ∧
      base = (fun j => f.mem (s.pointerToRawData + j)) ∧ size = s.sizeOfRawData ∧ size ≠ 0 := by
  unfold sbatData at h
  rw [bind_eq_ok] at h
  obtain ⟨st, hscan, h⟩ := h
  split_ifs at h with hnone
  · cases h
  cases h
  rcases sbatScan_found hscan with rfl | ⟨i, hi, s, hs, hname, hpos, _, rfl⟩
  · exact absurd (.inl rfl) hnone
  refine ⟨i, hi, s, hs, hname, ?_, rfl, hpos⟩
  have hbase := (imageAddress_ne_zero fun h => hnone (.inl h)).2.2
  funext j
  simp only [hbase, Nat.add_sub_cancel_left]

lemma sbatData_failsWith (f : File) (c : Context) : FailsWith (· ≠ .success) (sbatData f c) := by
  unfold sbatData
  refine .bind (.foldlM (fun st i => ?_) _ _) fun st => ?_
  · unfold sbatStep
    refine .reject_bind (by decide) ?_
    simp only
    split_ifs
    · exact .ok _
    · exact .reject_bind (by decide) <| .reject_bind (by decide) <| .reject_bind (by decide) <| .ok _
    · exact .reject_bind (by decide) <| .reject_bind (by decide) <| .ok _
  · split_ifs
    · exact .ok _
    · exact .ok _

/-! ## The text of the section -/

lemma SbatEnv.sbatCopy_nul (e : SbatEnv) (base : Mem) (size : ℕ) :
    e.sbatCopy base size size = 0 := by
  simp [SbatEnv.sbatCopy, Mem.store]

lemma SbatEnv.slice_sbatCopy (e : SbatEnv) (base : Mem) (size : ℕ) :
    (e.sbatCopy base size).slice 0 size = base.slice 0 size := by
  rw [Mem.slice_eq_iff]
  intro i hi
  have hstore : ¬ (size ≤ 0 + i ∧ 0 + i < size + 1) := by omega
  have hcopy : 0 ≤ 0 + i ∧ 0 + i < 0 + size := by omega
  unfold SbatEnv.sbatCopy Mem.store Mem.copy
  rw [if_neg hstore, if_pos hcopy]
  simp

lemma sbatData_size_lt (hdata : sbatData f c = .ok (some (base, size))) :
    0 < size ∧ size + 1 < 2 ^ 64 := by
  obtain ⟨i, hi, s, hs, hname, hbase, hsize, hpos⟩ := sbatData_eq_some hdata
  have := s.sizeOfRawData_lt
  exact ⟨by omega, by omega⟩

lemma parse_sbatCopy_of_blank (e : SbatEnv) (hdata : sbatData f c = .ok (some (base, size)))
    (hrow : ¬ HasRow false (dropBom (base.slice 0 size))) :
    parseSbatSection e.pool (e.sbatCopy base size) (size + 1) = .ok [] := by
  obtain ⟨hpos, hlt⟩ := sbatData_size_lt hdata
  rw [← e.slice_sbatCopy, ← csvBody_eq hlt hpos (e.sbatCopy_nul base size)] at hrow
  exact parseSbatSection_of_not_hasRow hlt hpos (e.sbatCopy_nul base size) hrow

lemma parse_sbatCopy_of_row {e : SbatEnv} {entries : List SectionEntry}
    (hdata : sbatData f c = .ok (some (base, size)))
    (hrow : HasRow false (dropBom (base.slice 0 size)))
    (hparse : parseSbatSection e.pool (e.sbatCopy base size) (size + 1) = .ok entries) :
    entries ≠ [] := by
  obtain ⟨hpos, hlt⟩ := sbatData_size_lt hdata
  rw [← e.slice_sbatCopy, ← csvBody_eq hlt hpos (e.sbatCopy_nul base size)] at hrow
  exact parseSbatSection_of_hasRow hlt hpos (e.sbatCopy_nul base size) hrow hparse

/-- Outside of the protocol an image that passes has a `.sbat` section with an entry, iff the raw
data of the section that is checked has a row (or cannot be copied). -/
theorem verifyBufferSbat_mandatory_iff {e : SbatEnv} {sbatVar : List VarEntry}
    (hproto : e.inProtocol = false) (hvar : sbatVar ≠ []) :
    (verifyBufferSbat e sbatVar f c = .success →
      ∃ i < c.numberOfSections, ∃ s, s = f.row c i ∧ s.name = sbatName ∧
        sbatData f c = .ok (some (fun j => f.mem (s.pointerToRawData + j), s.sizeOfRawData)) ∧
        ∃ entries, parseSbatSection e.pool
            (e.sbatCopy (fun j => f.mem (s.pointerToRawData + j)) s.sizeOfRawData)
            (s.sizeOfRawData + 1) = .ok entries ∧ entries ≠ []) ↔
    ∀ base size, sbatData f c = .ok (some (base, size)) → e.pool.copy = true →
      HasRow false (dropBom (base.slice 0 size)) := by
  constructor
  · intro hmandatory base size hdata hcopy
    by_contra hrow
    obtain ⟨hpos, hlt⟩ := sbatData_size_lt hdata
    have hparse := parse_sbatCopy_of_blank e hdata hrow
    have hsuccess : verifyBufferSbat e sbatVar f c = .success := by
      unfold verifyBufferSbat verifySbatSection
      rw [hdata]
      simp only [if_neg hvar, hparse, hcopy]
      rw [if_neg (by omega)]
      simp [verifySbatHelper, hvar, verifyEntries]
    obtain ⟨_, _, s', _, _, hdata', entries, hentries, hne⟩ := hmandatory hsuccess
    rw [hdata] at hdata'
    cases hdata'
    rw [hparse] at hentries
    exact hne (Except.ok.inj hentries).symm
  · intro hrow hsuccess
    unfold verifyBufferSbat at hsuccess
    cases hdata : sbatData f c with
    | error status =>
      rw [hdata] at hsuccess
      exact absurd hsuccess (sbatData_failsWith f c status hdata)
    | ok data =>
      rw [hdata] at hsuccess
      simp only [verifySbatSection, if_neg hvar, hproto] at hsuccess
      rcases data with _ | ⟨base, size⟩
      · simp at hsuccess
      obtain ⟨i, hi, s, hs, hname, hbase, hsize, hpos⟩ := sbatData_eq_some hdata
      have hlt := (sbatData_size_lt hdata).2
      simp only at hsuccess
      rw [if_neg (by omega)] at hsuccess
      split_ifs at hsuccess with hcopy
      have hrow' := hrow base size hdata (by simpa using hcopy)
      cases hparse : parseSbatSection e.pool (e.sbatCopy base size) (size + 1) with
      | error status =>
        rw [hparse] at hsuccess
        exact absurd hsuccess (parseSbatSection_failsWith _ _ _ status hparse)
      | ok entries =>
        have hne := parse_sbatCopy_of_row hdata hrow' hparse
        rw [hbase, hsize] at hparse
        exact ⟨i, hi, s, hs, hname, by rw [hbase, hsize], entries, hparse, hne⟩

def blankSbat : File :=
  PeFields.file
    { sizeOfImage := 0x2000
      sizeOfHeaders := 288
      sections := [⟨0x746162732e, 1, 0x1000, 1, 288, 0x40000040⟩]
      body := [(288, 1, 0x0a)] }
    336

def loaderEnv : SbatEnv where
  inProtocol := false
  atoi := fun s => decimal s
  pool := .working

/-- The image is accepted, its section is checked, and the section has no entry. -/
theorem blankSbat_passes : readHeader blankSbat .x64 0 true = .ok (blankSbat.context 64) ∧
      verifyBufferSbat loaderEnv [varEntry "shim" "1"] blankSbat (blankSbat.context 64) = .success ∧
      parseSbatSection loaderEnv.pool (loaderEnv.sbatCopy (fun j => blankSbat.mem (288 + j)) 1) 2 =
        .ok [] := by
  decide +kernel

theorem verifyBufferSbat_mandatory_iff_blankSbat :
    ¬ (verifyBufferSbat loaderEnv [varEntry "shim" "1"] blankSbat (blankSbat.context 64) = .success →
      ∃ i < (blankSbat.context 64).numberOfSections, ∃ s,
        s = blankSbat.row (blankSbat.context 64) i ∧
        s.name = sbatName ∧
        sbatData blankSbat (blankSbat.context 64) =
          .ok (some (fun j => blankSbat.mem (s.pointerToRawData + j), s.sizeOfRawData)) ∧
        ∃ entries, parseSbatSection loaderEnv.pool
            (loaderEnv.sbatCopy (fun j => blankSbat.mem (s.pointerToRawData + j)) s.sizeOfRawData)
            (s.sizeOfRawData + 1) = .ok entries ∧ entries ≠ []) := by
  intro hmandatory
  have hrow := (verifyBufferSbat_mandatory_iff (f := blankSbat) (c := blankSbat.context 64)
    (e := loaderEnv) rfl (by decide)).mp hmandatory (fun j => blankSbat.mem (288 + j)) 1
  have hdata : sbatData blankSbat (blankSbat.context 64) =
      .ok (some (fun j => blankSbat.mem (288 + j), 1)) := by rfl
  exact absurd (hrow hdata rfl) (by decide +kernel)

/-! ## Several sections -/

/-- The scan takes no notice of such a section: it has no raw data, or less than its size. -/
def SbatIgnored (s : SectionHeader) : Prop := s.sizeOfRawData = 0 ∨ s.sizeOfRawData < s.virtualSize

/-- The row `i` is a section that the scan keeps: those of the name in front of it are ignored, and
there is none behind it among the first `n` rows. -/
structure KeptSbat (f : File) (c : Context) (n i : ℕ) : Prop where
  lt : i < n
  name : (f.row c i).name = sbatName
  kept : ¬ SbatIgnored (f.row c i)
  before : ∀ j < i, (f.row c j).name = sbatName →
    SbatIgnored (f.row c j)
  behind : ∀ j, i < j → j < n → (f.row c j).name ≠ sbatName

def Scanned (f : File) (c : Context) (n : ℕ) (st : SbatScan) : Prop :=
  ((∀ i < n, (f.row c i).name = sbatName →
      SbatIgnored (f.row c i)) ∧ st = ⟨0, 0⟩) ∨
    ∃ i, KeptSbat f c n i ∧ st = ⟨imageAddress f.addr (intSize f.datasize)
        (f.row c i).pointerToRawData,
        (f.row c i).sizeOfRawData⟩

lemma Scanned.skip (hst : Scanned f c n st)
    (hrow : (f.row c n).name = sbatName →
      SbatIgnored (f.row c n) ∧ st = ⟨0, 0⟩) :
    Scanned f c (n + 1) st := by
  rcases hst with ⟨hnone, rfl⟩ | ⟨i, hkept, rfl⟩
  · refine .inl ⟨?_, rfl⟩
    rw [Nat.forall_lt_succ_right]
    exact ⟨hnone, fun hname => (hrow hname).1⟩
  have hsize : (f.row c i).sizeOfRawData ≠ 0 := fun h => hkept.kept (.inl h)
  refine .inr ⟨i, ⟨hkept.lt.trans (Nat.lt_succ_self n), hkept.name, hkept.kept, hkept.before, ?_⟩,
    rfl⟩
  intro j hij hj hname
  rcases Nat.lt_succ_iff_lt_or_eq.mp hj with hj | rfl
  · exact hkept.behind j hij hj hname
  · exact hsize (congrArg SbatScan.size (hrow hname).2)

lemma sbatStep_scanned {st' : SbatScan} (hst : Scanned f c n st)
    (h : sbatStep f c st n = .ok st') : Scanned f c (n + 1) st' := by
  unfold sbatStep at h
  rw [reject_bind_eq_ok] at h
  obtain ⟨-, h⟩ := h
  dsimp only at h
  by_cases hname : (f.row c n).name = sbatName
  · rw [if_neg (not_not.mpr hname), reject_bind_eq_ok, reject_bind_eq_ok] at h
    obtain ⟨hfirst, -, h⟩ := h
    rw [not_or, not_not, not_not] at hfirst
    have hstart : st = ⟨0, 0⟩ := by
      obtain ⟨base, size⟩ := st
      obtain ⟨rfl, rfl⟩ := hfirst
      rfl
    split_ifs at h with hsize
    · rw [reject_bind_eq_ok] at h
      cases h.2
      have hnone : ∀ i < n, (f.row c i).name = sbatName →
          SbatIgnored (f.row c i) := by
        rcases hst with ⟨hnone, -⟩ | ⟨i, hkept, hi⟩
        · exact hnone
        · exact absurd (congrArg SbatScan.size (hi.symm.trans hstart)) fun h =>
            hkept.kept (.inl h)
      refine .inr ⟨n, ⟨Nat.lt_succ_self n, hname, ?_, hnone, ?_⟩, rfl⟩
      · rintro (hzero | hshort)
        · exact hsize.1 hzero
        · omega
      · intro j hj hj'
        omega
    · cases h
      refine hst.skip fun _ => ⟨?_, hstart⟩
      unfold SbatIgnored
      omega
  · rw [if_pos hname] at h
    cases h
    exact hst.skip fun h => absurd h hname

lemma sbatScan_scanned
    (h : (List.range n).foldlM (sbatStep f c) ⟨0, 0⟩ = .ok st) : Scanned f c n st := by
  refine foldlM_range_invariant (Scanned f c) (.inl ⟨?_, rfl⟩) ?_ h
  · intro i hi
    exact absurd hi (Nat.not_lt_zero i)
  · intro k u v hu hv
    exact sbatStep_scanned hu hv

/-- The place of raw data that lies in the file is not `NULL`: as an `int`, the size of the file is not
smaller than it is. -/
theorem imageAddress_file_ne_zero {ptr : ℕ} (hptr : ptr < f.datasize) :
    imageAddress f.addr (intSize f.datasize) ptr ≠ 0 := by
  have hpos := f.addr_pos
  have hfits := f.addr_fits
  have hdata := f.datasize_lt
  have hsize : f.datasize ≤ intSize f.datasize := by
    unfold intSize
    rw [Nat.mod_eq_of_lt hdata]
    split_ifs <;> omega
  rw [imageAddress_of_lt (by omega) (by omega)]
  omega

/-- An image that has passed may have several sections named `.sbat`, but each one with another one
behind it is ignored. If the check is enforced, the raw data of the one that is not ignored is
checked. -/
theorem verifyBufferSbat_section {p : Platform} {mokPolicy : ℕ} {checkSecdir : Bool}
    {r : HashResources} {input : HashInput} {e : SbatEnv} {sbatVar : List VarEntry}
    (hread : readHeader f p mokPolicy checkSecdir = .ok c) (hhash : generateHash r f c = .ok input)
    (h : verifyBufferSbat e sbatVar f c = .success) :
    (∀ i j, i < j → j < c.numberOfSections → (f.row c i).name = sbatName →
      (f.row c j).name = sbatName →
        SbatIgnored (f.row c i)) ∧
    (sbatVar ≠ [] → (∃ i < c.numberOfSections, ∃ s, s = f.row c i ∧
        s.name = sbatName ∧ ¬ SbatIgnored s ∧
        s.pointerToRawData + s.sizeOfRawData ≤ f.datasize ∧
        sbatData f c = .ok (some (fun j => f.mem (s.pointerToRawData + j), s.sizeOfRawData))) ∨
      ((∀ i < c.numberOfSections, (f.row c i).name = sbatName →
          SbatIgnored (f.row c i)) ∧
        sbatData f c = .ok none ∧ e.inProtocol = true)) := by
  obtain ⟨-, hhashed⟩ := generateHash_ok hread hhash
  unfold verifyBufferSbat at h
  cases hdata : sbatData f c with
  | error status =>
    rw [hdata] at h
    exact absurd h (sbatData_failsWith f c status hdata)
  | ok data =>
    rw [hdata] at h
    unfold sbatData at hdata
    rw [bind_eq_ok] at hdata
    obtain ⟨st, hscan, hdata⟩ := hdata
    rcases sbatScan_scanned hscan with ⟨hnone, rfl⟩ | ⟨i, hkept, rfl⟩
    · rw [if_pos (.inl rfl)] at hdata
      cases hdata
      refine ⟨fun i j hij hj hi _ => hnone i (hij.trans hj) hi, fun hvar => .inr ⟨hnone, rfl, ?_⟩⟩
      dsimp only [verifySbatSection] at h
      rw [if_neg hvar] at h
      by_contra hproto
      rw [if_neg hproto] at h
      cases h
    have hsize : (f.row c i).sizeOfRawData ≠ 0 := fun h => hkept.kept (.inl h)
    have hraw := hhashed.raw_le _ (List.mem_map.mpr ⟨i, List.mem_range.mpr hkept.lt, rfl⟩) hsize
    have hbase : imageAddress f.addr (intSize f.datasize)
        (f.row c i).pointerToRawData ≠ 0 :=
      imageAddress_file_ne_zero (by omega)
    rw [if_neg (not_or.mpr ⟨hbase, hsize⟩), (imageAddress_ne_zero hbase).2.2,
      Nat.add_sub_cancel_left] at hdata
    cases hdata
    refine ⟨fun k j hkj hj hk hname => ?_, fun _ => .inl ⟨i, hkept.lt, _, rfl, hkept.name,
      hkept.kept, hraw, rfl⟩⟩
    -- the row behind is not behind the one that is kept, so the row in front is in front of it
    have hji : j ≤ i := by
      by_contra hlt
      exact hkept.behind j (Nat.lt_of_not_le hlt) hj hname
    exact hkept.before k (by omega) hk

def sbatImage (sections : List SectionFields) : File :=
  PeFields.file
    { sizeOfImage := 0x3000
      sections := sections
      body := [(328, 15, 0x0a642c632c622c612c312c6d696873)] }
    352

def shortSbat : SectionFields := ⟨0x746162732e, 16, 0x1000, 8, 344, 0x40000040⟩

def fullSbat : SectionFields := ⟨0x746162732e, 15, 0x2000, 15, 328, 0x40000040⟩

/-- Two sections named `.sbat`; and, in the protocol, one that is not checked. -/
theorem sbatImage_two_sections : (let f := sbatImage [shortSbat, fullSbat]
     readHeader f .x64 0 true = .ok (f.context 64) ∧
      (generateHash .ok f (f.context 64)).isOk = true ∧
      verifyBufferSbat loaderEnv [varEntry "shim" "1"] f (f.context 64) = .success ∧
      (f.sections (f.context 64)).map SectionHeader.name = [sbatName, sbatName]) ∧
    (let f := sbatImage [shortSbat]
     let e := { loaderEnv with inProtocol := true }
     readHeader f .x64 0 true = .ok (f.context 64) ∧
      (generateHash .ok f (f.context 64)).isOk = true ∧
      verifyBufferSbat e [varEntry "shim" "1"] f (f.context 64) = .success ∧
      (f.sections (f.context 64)).map SectionHeader.name = [sbatName] ∧
      (sbatData f (f.context 64)).map Option.isSome = .ok false) := by
  decide +kernel

theorem verifyBufferSbat_section_sbatImage :
    let f := sbatImage [shortSbat, fullSbat]
    SbatIgnored (f.row (f.context 64) 0) ∧
      ∃ i < (f.context 64).numberOfSections,
        ¬ SbatIgnored (f.row (f.context 64) i) := by
  intro f
  have hread : readHeader f .x64 0 true = .ok (f.context 64) := by decide +kernel
  have hhash : (generateHash .ok f (f.context 64)).isOk = true := by decide +kernel
  have hpass : verifyBufferSbat loaderEnv [varEntry "shim" "1"] f (f.context 64) = .success := by
    decide +kernel
  obtain ⟨input, hinput⟩ : ∃ input, generateHash .ok f (f.context 64) = .ok input := by
    cases hout : generateHash .ok f (f.context 64) with
    | error status =>
      rw [hout] at hhash
      cases hhash
    | ok input => exact ⟨input, rfl⟩
  obtain ⟨hfirst, hchecked⟩ := verifyBufferSbat_section hread hinput hpass
  refine ⟨hfirst 0 1 (by decide) (by decide +kernel) (by decide +kernel) (by decide +kernel), ?_⟩
  rcases hchecked (by decide) with ⟨i, hi, _, rfl, -, hkept, -⟩ | ⟨-, -, hproto⟩
  · exact ⟨i, hi, hkept⟩
  · cases hproto

end Shim.Sbat
