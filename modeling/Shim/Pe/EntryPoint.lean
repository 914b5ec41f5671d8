import Shim.HandleImage

/-!
# The entry point

An entry point should lie in exactly one of the sections that are copied. `handle_image` counts
`found_entry_point` in the loop that copies the sections: before the discardable ones are left out,
and with a comparison that leaves out the last byte of a section.
-/

namespace Shim

open Lib Pe Run Finset SectionHeader

namespace Pe

/-! ## All the tests of loading -/

/-- The tests of `handle_image` behind the allocation, without those of the entry point: the rows,
the directories, the relocation, and the section cache. -/
structure LoadTests (env : LoadEnv) (f : File) (c : Context) (buffer : ℕ) : Prop where
  rows : CopyOk env f c buffer c.numberOfSections
  directories : 5 < c.numberOfRvaAndSizes
  relocates : ∃ img, (relocateStage f c buffer (allCopied env f c)).Yields img
  caches : ∀ i < c.numberOfSections, (f.row c i).cached env.parentVerified = true →
    env.cacheSection i = .success

section

variable {env : LoadEnv} {f : File} {c : Context} {buffer : ℕ} {st : CopyState} {img : Mem}
  {image : LoadedImage} {n i : ℕ}

lemma attrStep_yields {u v : Unit} : (attrStep env f c buffer u i).Yields v ↔
      ((f.row c i).cached env.parentVerified = true → env.cacheSection i = .success) := by
  unfold attrStep
  by_cases hskip : (f.row c i).skipped = true
  · simp [hskip, cached]
  · by_cases hcached : (f.row c i).cached env.parentVerified = true
    · simp [hskip, hcached]
    · simp [hskip, hcached]

lemma attrLoop_yields {u : Unit} : ((List.range n).foldlM (attrStep env f c buffer) ()).Yields u ↔
      ∀ i < n, (f.row c i).cached env.parentVerified = true → env.cacheSection i = .success := by
  induction n with
  | zero => simp
  | succ n ih =>
    rw [yields_foldlM_range_succ, Nat.forall_lt_succ_right, ← ih]
    simp only [attrStep_yields]
    constructor
    · rintro ⟨_, hbefore, hlast⟩
      exact ⟨hbefore, hlast⟩
    · rintro ⟨hbefore, hlast⟩
      exact ⟨(), hbefore, hlast⟩

lemma finishStage_yields_iff : (finishStage env f c buffer st img).Yields image ↔
      (∀ i < c.numberOfSections, (f.row c i).cached env.parentVerified = true →
        env.cacheSection i = .success) ∧ st.found = 1 ∧
        image = ⟨buffer, img, imageAddress buffer c.imageSize c.entryPoint⟩ := by
  unfold finishStage
  simp only [yields_bind, attrLoop_yields, exists_const, and_congr_right_iff]
  intro _
  by_cases hnone : st.found = 0
  · simp [hnone]
  by_cases hmany : 1 < st.found
  · rw [if_neg hnone, if_pos hmany]
    refine iff_of_false (by simp) fun h => ?_
    omega
  · have hone : st.found = 1 := by omega
    simp [hone, eq_comm]

/-- An image is loaded iff its entry point is an address in it that is counted once and it passes
the other tests. -/
theorem loadAt_yields_iff : (∃ image, (loadAt env f c buffer).Yields image) ↔
      LoadTests env f c buffer ∧ imageAddress buffer c.imageSize c.entryPoint ≠ 0 ∧
        (allCopied env f c).found = 1 := by
  simp only [loadAt, yields_bind, Prod.exists, prepareStage_yields, finishStage_yields_iff]
  constructor
  · rintro ⟨image, st, img, ⟨hentry, hok, hdirs, rfl, himg⟩, hcache, hfound, -⟩
    exact ⟨⟨hok, hdirs, ⟨img, himg⟩, hcache⟩, hentry, hfound⟩
  · rintro ⟨⟨hok, hdirs, ⟨img, himg⟩, hcache⟩, hentry, hfound⟩
    exact ⟨_, _, img, ⟨hentry, hok, hdirs, rfl, himg⟩, hcache, hfound, rfl⟩

end

/-! ## Which rows are counted -/

def SectionHeader.Loads (s : SectionHeader) : Prop :=
  s.has scnMemRead = true ∧ s.has scnMemDiscardable = false

def SectionHeader.Covers (s : SectionHeader) (address : ℕ) : Prop :=
  s.virtualAddress ≤ address ∧ address < s.virtualAddress + s.virtualSize

def SectionHeader.CoversInside (s : SectionHeader) (address : ℕ) : Prop :=
  s.virtualAddress ≤ address ∧ address + 1 < s.virtualAddress + s.virtualSize

def SectionHeader.EndsAt (s : SectionHeader) (address : ℕ) : Prop :=
  s.virtualAddress ≤ address ∧ address + 1 = s.virtualAddress + s.virtualSize

def SectionHeader.Counts (s : SectionHeader) (address : ℕ) : Prop :=
  s.skipped = false ∧ s.virtualAddress ≤ address ∧ address < s.lastAddress

instance (s : SectionHeader) : Decidable s.Loads := inferInstanceAs (Decidable (_ ∧ _))

instance (s : SectionHeader) (a : ℕ) : Decidable (s.Covers a) := inferInstanceAs (Decidable (_ ∧ _))

instance (s : SectionHeader) (a : ℕ) : Decidable (s.CoversInside a) :=
  inferInstanceAs (Decidable (_ ∧ _))

instance (s : SectionHeader) (a : ℕ) : Decidable (s.EndsAt a) := inferInstanceAs (Decidable (_ ∧ _))

instance (s : SectionHeader) (a : ℕ) : Decidable (s.Counts a) := inferInstanceAs (Decidable (_ ∧ _))

section

variable {env : LoadEnv} {f : File} {c : Context} {buffer : ℕ} {img : Mem} {n : ℕ}
  {s : SectionHeader}

lemma after_found {st : CopyState} :
    (st.after f c s).found = st.found + if s.Counts c.entryPoint then 1 else 0 := by
  unfold CopyState.after SectionHeader.Counts
  by_cases hskip : s.skipped = true
  · simp [hskip]
  · by_cases hin : s.virtualAddress ≤ c.entryPoint ∧ c.entryPoint < s.lastAddress
    · simp [hskip, hin]
    · simp [hskip, hin]

lemma copied_found : (copied f c img n).found =
      ((Finset.range n).filter fun i => (f.row c i).Counts c.entryPoint).card := by
  induction n with
  | zero => rfl
  | succ n ih =>
    rw [copied, after_found, ih, range_add_one, filter_insert]
    by_cases h : (f.row c n).Counts c.entryPoint
    · rw [if_pos h, if_pos h, card_insert_of_notMem (by simp)]
    · rw [if_neg h, if_neg h, Nat.add_zero]

lemma skipped_of_loads (h : s.Loads) : s.skipped = false := by
  simp [skipped, h.1, h.2]

lemma lastAddress_of_le (hpos : s.virtualSize ≠ 0)
    (h : s.virtualAddress + s.virtualSize ≤ 2 ^ 32) :
    s.lastAddress = s.virtualAddress + s.virtualSize - 1 := by
  unfold lastAddress
  rcases Nat.lt_or_eq_of_le h with hlt | heq
  · rw [addW_of_lt hlt, subW_of_le hlt (by omega)]
  · unfold addW
    rw [heq, Nat.mod_self, subW_of_lt (by decide) (by decide)]
    omega

lemma lastAddress_of_gt (h : 2 ^ 32 < s.virtualAddress + s.virtualSize) :
    s.lastAddress < s.virtualAddress := by
  have hsize := s.virtualSize_lt
  have haddr := s.virtualAddress_lt
  have hmod : (s.virtualAddress + s.virtualSize) % 2 ^ 32 =
      s.virtualAddress + s.virtualSize - 2 ^ 32 := by
    rw [Nat.mod_eq_sub_mod h.le]
    exact Nat.mod_eq_of_lt (by omega)
  unfold lastAddress addW
  rw [hmod, subW_of_le (by omega) (by omega)]
  omega

lemma lastAddress_eq_of_le (hsize : s.lastAddress < 2 ^ 32 - 1)
    (hle : s.virtualAddress ≤ s.lastAddress) :
    s.lastAddress = s.virtualAddress + s.virtualSize - 1 ∧ s.virtualSize ≠ 0 := by
  have haddr := s.virtualAddress_lt
  have hfits : s.virtualAddress + s.virtualSize ≤ 2 ^ 32 := by
    by_contra hgt
    have := lastAddress_of_gt (s := s) (by omega)
    omega
  have hpos : s.virtualSize ≠ 0 := by
    intro hzero
    unfold lastAddress at hle hsize
    rw [hzero, addW_of_lt (by omega), Nat.add_zero] at hle hsize
    by_cases hstart : s.virtualAddress = 0
    · rw [hstart, subW_of_lt (by decide) (by decide)] at hsize
      omega
    · rw [subW_of_le haddr (by omega)] at hle
      omega
  exact ⟨lastAddress_of_le hpos hfits, hpos⟩

lemma ends_inside (hsize : c.imageSize < 2 ^ 32) (hbase : s.base c buffer ≠ 0)
    (hlast : s.last c buffer ≠ 0) (horder : s.base c buffer ≤ s.last c buffer) :
    s.base c buffer = buffer + s.virtualAddress ∧ s.last c buffer = buffer + s.lastAddress ∧
      s.lastAddress = s.virtualAddress + s.virtualSize - 1 ∧ s.virtualSize ≠ 0 ∧
      s.lastAddress < c.imageSize ∧ buffer + s.lastAddress < 2 ^ 64 := by
  unfold SectionHeader.base at hbase horder ⊢
  unfold SectionHeader.last at hlast horder ⊢
  obtain ⟨-, -, hbaseEq⟩ := imageAddress_ne_zero hbase
  obtain ⟨hinside, hword, hlastEq⟩ := imageAddress_ne_zero hlast
  obtain ⟨heq, hpos⟩ := lastAddress_eq_of_le (s := s) (by omega) (by omega)
  exact ⟨hbaseEq, hlastEq, heq, hpos, hinside, hword⟩

section

variable (hok : RowOk env f c buffer s)
include hok

section

variable (hsize : c.imageSize < 2 ^ 32) (hloads : s.Loads)
include hsize hloads

lemma RowOk.lastAddress_eq :
    s.lastAddress = s.virtualAddress + s.virtualSize - 1 ∧ s.virtualSize ≠ 0 ∧
      s.lastAddress < c.imageSize ∧ buffer + s.lastAddress < 2 ^ 64 ∧
      buffer + s.virtualAddress ≠ 0 := by
  have hbase := hok.base hloads.2
  obtain ⟨hbaseEq, -, heq, hpos, hinside, hword⟩ :=
    ends_inside hsize hbase (hok.last hloads.2) hok.order
  exact ⟨heq, hpos, hinside, hword, hbaseEq ▸ hbase⟩

lemma RowOk.entryPoint_ne_zero (hcovers : s.Covers c.entryPoint) :
    imageAddress buffer c.imageSize c.entryPoint ≠ 0 := by
  obtain ⟨heq, hpos, hinside, hword, hbase⟩ := hok.lastAddress_eq hsize hloads
  obtain ⟨hle, hlt⟩ := hcovers
  rw [imageAddress_of_lt (by omega) (by omega)]
  omega

lemma RowOk.counts_iff : s.Counts c.entryPoint ↔ s.CoversInside c.entryPoint := by
  obtain ⟨heq, hpos, -⟩ := hok.lastAddress_eq hsize hloads
  unfold SectionHeader.Counts SectionHeader.CoversInside
  rw [heq, skipped_of_loads hloads]
  constructor
  · rintro ⟨-, hle, hlt⟩
    exact ⟨hle, by omega⟩
  · rintro ⟨hle, hlt⟩
    exact ⟨rfl, hle, by omega⟩

end

end

lemma RowOk.counts_discardable_iff (hok : s.skipped = false → RowOk env f c buffer s)
    (hdisc : s.has scnMemDiscardable = true)
    (hentry : imageAddress buffer c.imageSize c.entryPoint ≠ 0) :
    s.Counts c.entryPoint ↔ s.has scnMemRead = true ∧ s.CoversInside c.entryPoint := by
  obtain ⟨hin, hword, -⟩ := imageAddress_ne_zero hentry
  unfold SectionHeader.Counts SectionHeader.CoversInside
  constructor
  · rintro ⟨hkept, hle, hlt⟩
    have hread : s.has scnMemRead = true := by
      simp [skipped] at hkept
      exact hkept.2
    have hpos : s.virtualSize ≠ 0 := by
      simp [skipped, hdisc] at hkept
      exact hkept.1
    have hfits : s.virtualAddress + s.virtualSize ≤ 2 ^ 32 := by
      by_contra hgt
      have := lastAddress_of_gt (s := s) (by omega)
      omega
    rw [lastAddress_of_le hpos hfits] at hlt
    exact ⟨hread, hle, by omega⟩
  · rintro ⟨hread, hle, hlt⟩
    have hkept : s.skipped = false := by
      have hpos : s.virtualSize ≠ 0 := by omega
      simp [skipped, hread, hpos]
    have horder := (hok hkept).order
    unfold SectionHeader.base SectionHeader.last at horder
    have hbase : imageAddress buffer c.imageSize s.virtualAddress = buffer + s.virtualAddress :=
      imageAddress_of_lt (by omega) (by omega)
    have hfits : s.virtualAddress + s.virtualSize ≤ 2 ^ 32 := by
      by_contra hgt
      have hlast := lastAddress_of_gt (s := s) (by omega)
      rw [hbase, imageAddress_of_lt (by omega) (by omega)] at horder
      omega
    rw [lastAddress_of_le (by omega) hfits]
    exact ⟨hkept, hle, by omega⟩

end

/-! ## Counting -/

section

variable (f : File) (c : Context)

def innerRows : Finset ℕ :=
  (Finset.range c.numberOfSections).filter fun i =>
    (f.row c i).Loads ∧ (f.row c i).CoversInside c.entryPoint

def endingRows : Finset ℕ :=
  (Finset.range c.numberOfSections).filter fun i =>
    (f.row c i).Loads ∧ (f.row c i).EndsAt c.entryPoint

def discardedRows : Finset ℕ :=
  (Finset.range c.numberOfSections).filter fun i =>
    ((f.row c i).has scnMemRead = true ∧ (f.row c i).has scnMemDiscardable = true) ∧
      (f.row c i).CoversInside c.entryPoint

/-- The entry point is no address in the image, or as many rows are left out as are counted too
much. -/
def CountsRight (buffer : ℕ) : Prop :=
  imageAddress buffer c.imageSize c.entryPoint = 0 ∨
    ((innerRows f c).card = 0 → ((discardedRows f c).card = 1 ↔ (endingRows f c).card = 1)) ∧
      ((innerRows f c).card = 1 → ((discardedRows f c).card = 0 ↔ (endingRows f c).card = 0))

end

section

variable {env : LoadEnv} {f : File} {c : Context} {buffer n : ℕ}

lemma card_filter_range_eq_one {p : ℕ → Prop} [DecidablePred p] :
    ((Finset.range n).filter p).card = 1 ↔ ∃! i, i < n ∧ p i := by
  rw [card_eq_one, singleton_iff_unique_mem]
  simp only [mem_filter, mem_range]

lemma covering_card : ((Finset.range c.numberOfSections).filter fun i =>
      (f.row c i).Loads ∧ (f.row c i).Covers c.entryPoint).card =
      (innerRows f c).card + (endingRows f c).card := by
  unfold innerRows endingRows
  rw [← card_union_of_disjoint, ← filter_or]
  · congr 1
    ext i
    simp only [mem_filter, ← and_or_left]
    refine and_congr_right fun _ => and_congr_right fun _ => ?_
    unfold SectionHeader.Covers SectionHeader.CoversInside SectionHeader.EndsAt
    omega
  · rw [disjoint_filter]
    rintro i - ⟨-, -, hinside⟩ ⟨-, -, hends⟩
    omega

lemma counted_card (hok : CopyOk env f c buffer c.numberOfSections)
    (hsize : c.imageSize < 2 ^ 32) (hentry : imageAddress buffer c.imageSize c.entryPoint ≠ 0) :
    ((Finset.range c.numberOfSections).filter fun i => (f.row c i).Counts c.entryPoint).card =
      (innerRows f c).card + (discardedRows f c).card := by
  unfold innerRows discardedRows
  rw [← card_union_of_disjoint, ← filter_or]
  · congr 1
    ext i
    simp only [mem_filter, mem_range]
    refine and_congr_right fun hi => ?_
    have hrow := hok.rows i hi
    unfold SectionHeader.Loads
    cases hdisc : (f.row c i).has scnMemDiscardable with
    | true => simpa using RowOk.counts_discardable_iff hrow hdisc hentry
    | false =>
      cases hread : (f.row c i).has scnMemRead with
      | true =>
        have hloads : (f.row c i).Loads := ⟨hread, hdisc⟩
        simpa using (hrow (skipped_of_loads hloads)).counts_iff hsize hloads
      | false => simp [SectionHeader.Counts, skipped, hread]
  · rw [disjoint_filter]
    rintro i - ⟨⟨-, hloads⟩, -⟩ ⟨⟨-, hdisc⟩, -⟩
    rw [hloads] at hdisc
    cases hdisc

end

end Pe

section

variable {env : HandleEnv} {f : File} {c : Context} {addr : ℕ}

lemma handleImage_yields_iff (hcheck : checkImage env f = .ok c)
    (halloc : env.load.allocatePages (allocPages c) = some addr) (image : LoadedImage) :
    (handleImage env f).Yields image ↔ (loadAt env.load f c (imageBuffer c addr)).Yields image := by
  unfold handleImage loadImage
  simp only [yields_bind, yields_lift, hcheck, Except.ok.injEq, exists_eq_left',
    yields_mapError, halloc, yields_onError]

/-- An image that passes the other tests is accepted exactly if one of the copied sections covers
its entry point iff the discardable sections that cover it make up for the copied ones that end
there. -/
theorem handleImage_entryPoint_iff (hcheck : checkImage env f = .ok c)
    (halloc : env.load.allocatePages (allocPages c) = some addr)
    (htests : LoadTests env.load f c (imageBuffer c addr)) :
    ((∃ image, (handleImage env f).Yields image) ↔
      ∃! i, i < c.numberOfSections ∧ (f.row c i).Loads ∧ (f.row c i).Covers c.entryPoint) ↔
      CountsRight f c (imageBuffer c addr) := by
  have hsize := checkImage_imageSize_lt hcheck
  simp only [handleImage_yields_iff hcheck halloc]
  rw [loadAt_yields_iff, copied_found, ← card_filter_range_eq_one, covering_card]
  unfold CountsRight
  by_cases hentry : imageAddress (imageBuffer c addr) c.imageSize c.entryPoint = 0
  · -- no copied section covers such an entry point
    have hnone : (innerRows f c).card + (endingRows f c).card ≠ 1 := by
      rw [← covering_card]
      intro hone
      obtain ⟨i, ⟨hi, hloads, hcovers⟩, -⟩ := card_filter_range_eq_one.mp hone
      have hrow := htests.rows.rows i hi (skipped_of_loads hloads)
      exact hrow.entryPoint_ne_zero hsize hloads hcovers hentry
    simp [hentry, hnone]
  · rw [counted_card htests.rows hsize hentry]
    simp only [htests, hentry, ne_eq, not_false_eq_true, true_and, false_or]
    omega

end

def entryImage (entryPoint characteristics : ℕ) : File :=
  PeFields.file
    { sizeOfImage := 0x2000
      sizeOfHeaders := 288
      addressOfEntryPoint := entryPoint
      sections := [⟨nameText, 16, 0x1000, 64, 288, characteristics⟩] }
    352

/-- An image with its entry point at the start of its only section, which is code. -/
def codeImage : File := entryImage 0x1000 0x60000020

/-- The entry point is the last byte of the only section, and the image is refused. It is in the
only section, which is discardable, and the image is accepted without it. -/
theorem handleImage_entryPoint_miscounted :
    let short := entryImage 0x100f 0x60000020
    let discarded := entryImage 0x1000 0x62000020
    ((∃! i, i < (short.context 64).numberOfSections ∧ (short.row (short.context 64) i).Loads ∧
        (short.row (short.context 64) i).Covers 0x100f) ∧
      ¬ ∃ image, (handleImage (insecureEnv false) short).Yields image) ∧
    (∀ i < (discarded.context 64).numberOfSections,
        ¬ (discarded.row (discarded.context 64) i).Loads) ∧
      ∃ image, (handleImage (insecureEnv false) discarded).Yields image := by
  intro short discarded
  have hone : (short.context 64).numberOfSections = 1 := by decide +kernel
  have hrefused : (handleImage (insecureEnv false) short).out.isOk = false := by decide +kernel
  refine ⟨⟨⟨0, by decide +kernel, ?_⟩, ?_⟩, by decide +kernel,
    exists_yields_of_isOk (by decide +kernel)⟩
  · rintro j ⟨hj, -⟩
    omega
  · rintro ⟨image, himage⟩
    unfold Run.Yields at himage
    rw [himage] at hrefused
    cases hrefused

theorem handleImage_entryPoint_start :
    (∃ image, (handleImage (insecureEnv false) codeImage).Yields image) ↔
      ∃! i, i < (codeImage.context 64).numberOfSections ∧
        (codeImage.row (codeImage.context 64) i).Loads ∧
        (codeImage.row (codeImage.context 64) i).Covers (codeImage.context 64).entryPoint := by
  have hcheck : checkImage (insecureEnv false) codeImage = .ok (codeImage.context 64) := by
    decide +kernel
  have hloaded : ∃ image, (loadAt (insecureEnv false).load codeImage (codeImage.context 64)
      (imageBuffer (codeImage.context 64) 0x100000)).Yields image :=
    exists_yields_of_isOk (by decide +kernel)
  refine (handleImage_entryPoint_iff hcheck rfl (loadAt_yields_iff.mp hloaded).1).mpr ?_
  unfold CountsRight
  decide +kernel

end Shim
