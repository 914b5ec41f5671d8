import Shim.Pe.SameStream

/-!
# Which bytes of a file are hashed

`generate_hash` counts the bytes it has hashed in a 32-bit `SumOfBytesHashed` and goes on behind the
sections where that count says. For a file it accepts the count does not wrap.
-/

namespace Shim.Pe

open Shim.Lib List

variable {f : File} {c : Context} {input : HashInput}

/-! ## The counters of `generate_hash` -/

def rawSum (sections : List SectionHeader) : ℕ := (sections.map SectionHeader.sizeOfRawData).sum

lemma rawSum_perm {ss ts : List SectionHeader} (h : ss.Perm ts) : rawSum ss = rawSum ts :=
  (h.map _).sum_eq

lemma sortStep_sum (hle : c.sizeOfHeaders ≤ f.datasize) {i : ℕ}
    {st st' : ℕ × List SectionHeader} (hst : c.sizeOfHeaders + st.1 ≤ f.datasize)
    (h : sortStep f c st i = .ok st') :
    st'.1 = st.1 + (f.row c i).sizeOfRawData ∧ c.sizeOfHeaders + st'.1 ≤ f.datasize := by
  have hdata := f.datasize_lt
  unfold sortStep at h
  rw [bind_eq_ok] at h
  obtain ⟨⟨base, size, s⟩, hrow, h⟩ := h
  simp only [reject_bind_eq_ok] at h
  obtain ⟨hfits, h⟩ := h
  have hs : s = f.row c i := getSectionVma_ok hrow
  rw [hs, subW_of_le hdata hle, subW_of_le (by omega) (by omega)] at hfits
  cases h
  have hsum : addW 32 st.1 s.sizeOfRawData = st.1 + (f.row c i).sizeOfRawData := by
    rw [hs]
    exact addW_of_lt (by omega)
  exact ⟨hsum, by simp only [hsum]; omega⟩

lemma sortSections_sum (hle : c.sizeOfHeaders ≤ f.datasize) {n : ℕ} {st : ℕ × List SectionHeader}
    (h : (List.range n).foldlM (sortStep f c) (0, []) = .ok st) :
    st.1 = rawSum ((List.range n).map (f.row c)) ∧ c.sizeOfHeaders + st.1 ≤ f.datasize := by
  refine foldlM_range_invariant (fun n (st : ℕ × List SectionHeader) =>
    st.1 = rawSum ((List.range n).map (f.row c)) ∧ c.sizeOfHeaders + st.1 ≤ f.datasize)
    ?_ ?_ h
  · exact ⟨rfl, hle⟩
  · rintro k u v ⟨hsum, hu⟩ hstep
    obtain ⟨hsum', hv⟩ := sortStep_sum hle hu hstep
    refine ⟨?_, hv⟩
    rw [hsum', hsum, range_succ, map_append]
    simp [rawSum]

lemma hashedSum_eq {table : List SectionHeader} {sum : ℕ} (h : sum + rawSum table < 2 ^ 32) :
    hashedSum table sum = sum + rawSum table := by
  induction table generalizing sum with
  | nil => rfl
  | cons s table ih =>
    have hcons : rawSum (s :: table) = s.sizeOfRawData + rawSum table := by simp [rawSum]
    rw [hcons] at h
    have hstep : hashedSum (s :: table) sum =
        hashedSum table (if s.sizeOfRawData = 0 then sum else addW 32 sum s.sizeOfRawData) := rfl
    rw [hstep, hcons]
    split_ifs with hzero
    · rw [ih (by omega)]
      omega
    · rw [addW_of_lt (by omega), ih (by omega)]
      omega

section

variable {p : Platform} {mokPolicy : ℕ} {checkSecdir : Bool} {r : HashResources}

lemma generateHash_sum (hread : readHeader f p mokPolicy checkSecdir = .ok c)
    (h : generateHash r f c = .ok input) :
    c.sizeOfHeaders + rawSum (f.sections c) ≤ f.datasize := by
  obtain ⟨hlay, hhashed⟩ := generateHash_ok hread h
  unfold generateHash at h
  simp only [reject_bind_eq_ok] at h
  obtain ⟨-, -, -, h⟩ := h
  rw [bind_eq_ok] at h
  obtain ⟨head, -, h⟩ := h
  rw [bind_eq_ok] at h
  obtain ⟨c', hc', h⟩ := h
  obtain rfl := refreshSections_ok hlay hhashed.magic hc'
  rw [reject_bind_eq_ok, bind_eq_ok] at h
  obtain ⟨-, ⟨total, table⟩, hsort, -⟩ := h
  obtain ⟨hsum, hle⟩ := sortSections_sum hhashed.headers_le hsort
  have hsections : f.sections c' = (List.range c'.numberOfSections).map (f.row c') := rfl
  rw [hsections, ← hsum]
  exact hle

end

lemma Hashed.tail_start (h : c.sizeOfHeaders + rawSum (f.sections c) ≤ f.datasize) :
    hashedSum (sortTable (f.sections c)) c.sizeOfHeaders =
      c.sizeOfHeaders + rawSum (f.sections c) := by
  have hdata := f.datasize_lt
  rw [← rawSum_perm (sortTable_perm (f.sections c))] at h ⊢
  exact hashedSum_eq (by omega)

def File.InRaw (f : File) (c : Context) (i : ℕ) : Prop :=
  ∃ s ∈ f.sections c, s.pointerToRawData ≤ i ∧ i < s.pointerToRawData + s.sizeOfRawData

instance (f : File) (c : Context) (i : ℕ) : Decidable (f.InRaw c i) :=
  inferInstanceAs (Decidable (∃ s ∈ f.sections c, _))

lemma mem_rawRanges {table : List SectionHeader} {r : ℕ × ℕ} : r ∈ rawRanges table ↔
      ∃ s ∈ table, s.sizeOfRawData ≠ 0 ∧ (s.pointerToRawData, s.sizeOfRawData) = r := by
  simp [rawRanges, and_assoc]

lemma Hashed.covers_raw (h : Hashed f c input) {i : ℕ} (hi : f.InRaw c i) : input.Covers i := by
  obtain ⟨s, hs, hlo, hhi⟩ := hi
  obtain ⟨tail, hranges, -⟩ := h.ranges
  have hmem : (s.pointerToRawData, s.sizeOfRawData) ∈ rawRanges (sortTable (f.sections c)) :=
    mem_rawRanges.mpr ⟨s, (sortTable_perm _).mem_iff.mpr hs, by omega, rfl⟩
  refine ⟨(s.pointerToRawData, s.sizeOfRawData), ?_, hlo, hhi⟩
  rw [hranges]
  exact mem_append_left _ (mem_append_right _ hmem)

lemma Hashed.covers_header (h : Hashed f c input) {i : ℕ} (hi : i < c.sizeOfHeaders)
    (hskip : ¬ Skipped c i) : input.Covers i := by
  obtain ⟨tail, hranges, -⟩ := h.ranges
  have hhead : ∀ r ∈ headRanges c, r ∈ input.ranges := by
    intro r hr
    rw [hranges]
    exact mem_append_left _ (mem_append_left _ hr)
  unfold Skipped at hskip
  by_cases hcheck : i < c.checkSum
  · exact ⟨(0, c.checkSum), hhead _ (by simp [headRanges]), Nat.zero_le i, by simpa using hcheck⟩
  by_cases hsec : i < c.secDir
  · exact ⟨(c.checkSum + 4, c.secDir - (c.checkSum + 4)), hhead _ (by simp [headRanges]),
      by simp only; omega, by simp only; omega⟩
  · exact ⟨(c.secDir + 8, c.sizeOfHeaders - (c.secDir + 8)), hhead _ (by simp [headRanges]),
      by simp only; omega, by simp only; omega⟩

lemma Hashed.covers_skipped_iff (hlay : Layout f c) (h : Hashed f c input)
    (hsum : c.sizeOfHeaders + rawSum (f.sections c) ≤ f.datasize) {i : ℕ} (hi : Skipped c i) :
    input.Covers i ↔ f.InRaw c i := by
  refine ⟨?_, h.covers_raw⟩
  rintro ⟨r, hr, hlo, hhi⟩
  have hcheck := hlay.checkSum_le
  have hsec := h.secDir_le
  obtain ⟨tail, hranges, htiles, -⟩ := h.ranges
  rw [hranges, mem_append, mem_append] at hr
  unfold Skipped at hi
  rcases hr with (hr | hr) | hr
  · simp only [headRanges, mem_cons, not_mem_nil, or_false] at hr
    rcases hr with rfl | rfl | rfl <;> simp only at hlo hhi <;> omega
  · obtain ⟨s, hs, -, rfl⟩ := mem_rawRanges.mp hr
    exact ⟨s, (sortTable_perm _).mem_iff.mp hs, hlo, hhi⟩
  · have hstart := (htiles.covers ⟨r, hr, hlo, hhi⟩).1
    rw [Hashed.tail_start hsum] at hstart
    omega

end Shim.Pe
