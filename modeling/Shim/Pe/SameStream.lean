import Shim.Pe.HashSpec
import Shim.Pe.LoadSpec

/-!
# Two files with the same digest input

Two files that `generate_hash` feeds to the digest as the same byte stream have the same headers, but
for the twelve bytes of `Skipped`, the same section table and the same raw data.
-/

namespace Shim.Pe

open Shim.Lib List

lemma rangeBytes_append (m : Mem) (rs ts : List (ℕ × ℕ)) :
    rangeBytes m (rs ++ ts) = rangeBytes m rs ++ rangeBytes m ts := by
  simp [rangeBytes]

lemma rangeBytes_append_inj {m n : Mem} {rs : List (ℕ × ℕ)} {x y : List UInt8}
    (h : rangeBytes m rs ++ x = rangeBytes n rs ++ y) :
    (∀ r ∈ rs, ∀ i, r.1 ≤ i → i < r.1 + r.2 → m i = n i) ∧ x = y := by
  induction rs with
  | nil => exact ⟨fun r hr => absurd hr (by simp), h⟩
  | cons r rs ih =>
    have hcons : ∀ p : Mem, rangeBytes p (r :: rs) = p.slice r.1 r.2 ++ rangeBytes p rs :=
      fun p => by simp [rangeBytes]
    rw [hcons, hcons, append_assoc, append_assoc] at h
    obtain ⟨hr, h⟩ := Mem.slice_append_inj h
    obtain ⟨hrs, hrest⟩ := ih h
    refine ⟨?_, hrest⟩
    rw [forall_mem_cons]
    exact ⟨hr, hrs⟩

lemma slice_append_agree {m n : Mem} {o a b i : ℕ} {x y : List UInt8}
    (h : m.slice o a ++ x = n.slice o b ++ y) (hlo : o ≤ i) (ha : i < o + a) (hb : i < o + b) :
    m i = n i := by
  have hsplit : ∀ (p : Mem) (len : ℕ), i < o + len →
      p.slice o len = p.slice o (i - o + 1) ++ p.slice (o + (i - o + 1)) (len - (i - o + 1)) := by
    intro p len hlen
    rw [← Mem.slice_add]
    congr 1
    omega
  rw [hsplit m a ha, hsplit n b hb, append_assoc, append_assoc] at h
  exact (Mem.slice_append_inj h).1 i hlo (by omega)

/-! ## The two files -/

/-- The bytes of the headers that are not hashed: `CheckSum` and the directory entry of the
certificate table. -/
def Skipped (c : Context) (i : ℕ) : Prop :=
  (c.checkSum ≤ i ∧ i < c.checkSum + 4) ∨ (c.secDir ≤ i ∧ i < c.secDir + 8)

instance (c : Context) (i : ℕ) : Decidable (Skipped c i) := inferInstanceAs (Decidable (_ ∨ _))

structure SameHashed (f g : File) (c : Context) (input input' : HashInput) : Prop where
  headers : ∀ i < c.sizeOfHeaders, ¬ Skipped c i → f.mem i = g.mem i
  rows : ∀ i < c.numberOfSections, f.row c i = g.row c i
  relocDir : f.dirVirtualAddress c.relocDir = g.dirVirtualAddress c.relocDir ∧
    f.dirSize c.relocDir = g.dirSize c.relocDir
  raw : ∀ i < c.numberOfSections, (f.row c i).sizeOfRawData ≠ 0 →
    ∀ j, (f.row c i).pointerToRawData ≤ j →
      j < (f.row c i).pointerToRawData + (f.row c i).sizeOfRawData → f.mem j = g.mem j
  covered : ∀ i, input.Covers i → input'.Covers i → f.mem i = g.mem i

variable {f g : File} {c d : Context} {p : Platform} {mokPolicy : ℕ} {checkSecdir : Bool}
  {input input' : HashInput}

lemma Layout.checkSum_le (h : Layout f c) : c.checkSum + 4 ≤ c.secDir := by
  have hsec := h.secDir
  show c.peHdr + 24 + 64 + 4 ≤ c.secDir
  omega

/-- The magic number of the optional header, in front of `CheckSum`, says where the directories
are. -/
theorem secDir_eq_of_agree (hlay : Layout f c) (hlay' : Layout g d) (hpe : d.peHdr = c.peHdr)
    (hagree : ∀ i < c.checkSum, f.mem i = g.mem i) : d.secDir = c.secDir := by
  have hoff : g.peOffset = f.peOffset := by rw [← hlay.peHdr, ← hlay'.peHdr, hpe]
  have hmagic : f.mem.u16 (f.peOffset + 24) = g.mem.u16 (f.peOffset + 24) := by
    apply load_congr hagree
    show f.peOffset + 24 + 2 ≤ c.peHdr + 24 + 64
    rw [hlay.peHdr]
    omega
  have h64 : imageIs64Bit f f.peOffset = imageIs64Bit g g.peOffset := by
    unfold imageIs64Bit
    rw [hoff, hmagic]
  rw [hlay.context, hlay'.context]
  show g.peOffset + 24 + (if imageIs64Bit g g.peOffset then 112 else 96) + 8 * 4 =
    f.peOffset + 24 + (if imageIs64Bit f f.peOffset then 112 else 96) + 8 * 4
  rw [← h64, hoff]

lemma headers_of_stream {p' : Platform} {mokPolicy' : ℕ} {checkSecdir' : Bool}
    (hread : readHeader f p mokPolicy checkSecdir = .ok c)
    (hread' : readHeader g p' mokPolicy' checkSecdir' = .ok d)
    (hlay : Layout f c) (hlay' : Layout g d)
    (hmz : f.eMagic = imageDosSignature) (hmz' : g.eMagic = imageDosSignature) {x y : List UInt8}
    (h : rangeBytes f.mem (headRanges c) ++ x = rangeBytes g.mem (headRanges d) ++ y) :
    d = c ∧ (∀ i < c.sizeOfHeaders, ¬ Skipped c i → f.mem i = g.mem i) ∧ x = y := by
  have hcons : ∀ (q : Mem) (k : Context), rangeBytes q (headRanges k) =
      q.slice 0 k.checkSum ++ (q.slice (k.checkSum + 4) (k.secDir - (k.checkSum + 4)) ++
        q.slice (k.secDir + 8) (k.sizeOfHeaders - (k.secDir + 8))) := by
    intro q k
    simp [rangeBytes, headRanges]
  rw [hcons, hcons] at h
  simp only [append_assoc] at h
  have hcheck : c.checkSum = c.peHdr + 88 := rfl
  have hcheck' : d.checkSum = d.peHdr + 88 := rfl
  have hpe := hlay.pe_le
  have hpe' := hlay'.pe_le
  -- the DOS header comes first in both streams, so the rest is in the same place
  have hdos : ∀ i < 64, f.mem i = g.mem i := fun i hi =>
    slice_append_agree h (Nat.zero_le i) (by omega) (by omega)
  have hlfanew : f.eLfanew = g.eLfanew := load_congr hdos (by omega)
  have hpeEq : d.peHdr = c.peHdr := by
    rw [hlay'.peHdr, hlay.peHdr, File.peOffset, File.peOffset, if_pos hmz, if_pos hmz', hlfanew]
  have hcheckEq : d.checkSum = c.checkSum := by omega
  rw [hcheckEq] at h
  obtain ⟨h₁, h⟩ := Mem.slice_append_inj h
  have hsecEq : d.secDir = c.secDir := secDir_eq_of_agree hlay hlay' hpeEq fun i hi =>
    h₁ i (Nat.zero_le i) (by omega)
  rw [hsecEq] at h
  obtain ⟨h₂, h⟩ := Mem.slice_append_inj h
  have hle := hlay.checkSum_le
  have hctx : d = c := by
    rw [(readHeader_ok hread').1]
    refine context_congr hread fun i hi hskip => ?_
    by_cases hlt : i < c.checkSum
    · exact h₁ i (Nat.zero_le i) (by omega)
    · exact h₂ i (by omega) (by omega)
  rw [hctx] at h
  obtain ⟨h₃, hrest⟩ := Mem.slice_append_inj h
  refine ⟨hctx, fun i hi hskip => ?_, hrest⟩
  unfold Skipped at hskip
  by_cases hlt : i < c.checkSum
  · exact h₁ i (Nat.zero_le i) (by omega)
  · by_cases hlt' : i < c.secDir
    · exact h₂ i (by omega) (by omega)
    · exact h₃ i (by omega) (by omega)

section

variable (hlay : Layout f c) (hheaders : ∀ i < c.sizeOfHeaders, ¬ Skipped c i → f.mem i = g.mem i)
include hlay hheaders

lemma agreeOn_behind : f.mem.AgreeOn g.mem fun i => c.secDir + 8 ≤ i ∧ i < c.sizeOfHeaders := by
  have hcheck := hlay.checkSum_le
  rintro i ⟨hlo, hhi⟩
  apply hheaders i hhi
  unfold Skipped
  omega

lemma row_eq_of_headers (hdirs : 5 < c.numberOfRvaAndSizes) {i : ℕ} (hi : i < c.numberOfSections) :
    f.row c i = g.row c i := by
  have hfirst := hlay.firstSection
  have htable := hlay.sections_headers
  refine sectionAt_congr (agreeOn_behind hlay hheaders) fun j h₁ h₂ => ?_
  unfold Context.sectionOffset sizeofSectionHeader at htable h₁ h₂
  exact ⟨by omega, by omega⟩

lemma relocDir_eq_of_headers (hdirs : 5 < c.numberOfRvaAndSizes) :
    f.dirVirtualAddress c.relocDir = g.dirVirtualAddress c.relocDir ∧
      f.dirSize c.relocDir = g.dirSize c.relocDir := by
  have hrel := hlay.relocDir
  have hfirst := hlay.firstSection
  have htable := hlay.sections_headers
  have hon := agreeOn_behind hlay hheaders
  unfold Context.sectionOffset at htable
  exact ⟨hon.load_eq fun i h₁ h₂ => ⟨by omega, by omega⟩,
    hon.load_eq fun i h₁ h₂ => ⟨by omega, by omega⟩⟩

end

lemma headRanges_agree (hlay : Layout f c) (hsec : c.secDir + 8 ≤ c.sizeOfHeaders)
    (hheaders : ∀ i < c.sizeOfHeaders, ¬ Skipped c i → f.mem i = g.mem i) {q : ℕ × ℕ}
    (hq : q ∈ headRanges c) {i : ℕ} (hlo : q.1 ≤ i) (hhi : i < q.1 + q.2) : f.mem i = g.mem i := by
  have hcheck := hlay.checkSum_le
  simp only [headRanges, mem_cons, not_mem_nil, or_false] at hq
  unfold Skipped at hheaders
  rcases hq with rfl | rfl | rfl
  all_goals
    simp only at hlo hhi
    exact hheaders i (by omega) (by omega)

lemma sameHashed_of_stream {p' : Platform} {mokPolicy' : ℕ} {checkSecdir' : Bool}
    {r r' : HashResources} (hread : readHeader f p mokPolicy checkSecdir = .ok c)
    (hread' : readHeader g p' mokPolicy' checkSecdir' = .ok d)
    (hhash : generateHash r f c = .ok input) (hhash' : generateHash r' g d = .ok input')
    (hstream : input.stream f.mem = input'.stream g.mem) (hdirs : 5 < c.numberOfRvaAndSizes) :
    d = c ∧ SameHashed f g c input input' := by
  obtain ⟨hlay, hhashed⟩ := generateHash_ok hread hhash
  obtain ⟨hlay', hhashed'⟩ := generateHash_ok hread' hhash'
  obtain ⟨tail, hranges, htiles, -⟩ := hhashed.ranges
  obtain ⟨tail', hranges', htiles', -⟩ := hhashed'.ranges
  unfold HashInput.stream at hstream
  simp only [hranges, hranges', rangeBytes_append, append_assoc] at hstream
  obtain ⟨hctx, hheaders, hstream⟩ :=
    headers_of_stream hread hread' hlay hlay' hhashed.magic hhashed'.magic hstream
  subst hctx
  have hrows : ∀ i < d.numberOfSections, f.row d i = g.row d i := fun i hi =>
    row_eq_of_headers hlay hheaders hdirs hi
  have hsections : g.sections d = f.sections d :=
    map_congr_left fun i hi => (hrows i (mem_range.mp hi)).symm
  rw [hsections] at hstream htiles'
  obtain ⟨hraw, hstream⟩ := rangeBytes_append_inj hstream
  rw [htiles.rangeBytes_eq, htiles'.rangeBytes_eq] at hstream
  refine ⟨rfl, hheaders, hrows, relocDir_eq_of_headers hlay hheaders hdirs, ?_, ?_⟩
  · intro i hi hne j h₁ h₂
    refine hraw (_, _) (mem_map.mpr ⟨f.row d i, mem_filter.mpr ⟨?_, by simpa using hne⟩,
      rfl⟩) j h₁ h₂
    exact (sortTable_perm _).mem_iff.mpr (mem_map_of_mem (mem_range.mpr hi))
  · have hknown : ∀ {q : ℕ × ℕ} {i : ℕ}, q ∈ headRanges d ++ rawRanges (sortTable (f.sections d)) →
        q.1 ≤ i ∧ i < q.1 + q.2 → f.mem i = g.mem i := by
      intro q i hq hi
      rcases mem_append.mp hq with hq | hq
      · exact headRanges_agree hlay hhashed.secDir_le hheaders hq hi.1 hi.2
      · exact hraw q hq i hi.1 hi.2
    rintro i ⟨q, hq, hi⟩ ⟨q', hq', hi'⟩
    rw [hranges] at hq
    rw [hranges', hsections] at hq'
    rcases mem_append.mp hq with hq | hq
    · exact hknown hq hi
    rcases mem_append.mp hq' with hq' | hq'
    · exact hknown hq' hi'
    · obtain ⟨hlo, hhi⟩ := htiles.covers ⟨q, hq, hi⟩
      obtain ⟨-, hhi'⟩ := htiles'.covers ⟨q', hq', hi'⟩
      exact slice_append_agree hstream hlo hhi hhi'

end Shim.Pe
