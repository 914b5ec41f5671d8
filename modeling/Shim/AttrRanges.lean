import Shim.Loader.Protocol

/-!
# The ranges whose attributes are set and whose digests are cached

`handle_image` hands ranges of addresses to `update_mem_attrs` and `cache_section`: the buffer of the
image, with the length of the whole allocation but behind the gap that aligning has left, and one
range for each section. That of a discardable section beyond the image starts at a null pointer.
-/

namespace Shim

open Lib Pe Loader Run

/-! ## The ranges -/

def rangeOf? : LoadEvent → Option (ℕ × ℕ)
  | .updateMemAttrs addr size _ _ => some (addr, size)
  | .cacheSection _ addr size => some (addr, size)
  | _ => none

def InPages (addr pages : ℕ) (r : ℕ × ℕ) : Prop :=
  addr ≤ r.1 ∧ r.1 + r.2 ≤ addr + pages * pageSize

def RangesInside {ε α : Type} (x : Run LoadEvent ε α) (addr pages : ℕ) : Prop :=
  ∀ e, x.Emits e → ∀ r ∈ rangeOf? e, InPages addr pages r

/-- The attribute loop gets to the row `i`: the copy loop and the relocation succeed, and the
digests of the rows in front are recorded. -/
structure AttrReached (env : LoadEnv) (f : File) (c : Context) (buffer i : ℕ) : Prop where
  entryPoint : imageAddress buffer c.imageSize c.entryPoint ≠ 0
  rows : CopyOk env f c buffer c.numberOfSections
  directories : 5 < c.numberOfRvaAndSizes
  relocated : ∃ img, (relocateStage f c buffer (allCopied env f c)).Yields img
  recorded : ∀ j < i, (f.row c j).cached env.parentVerified = true → env.cacheSection j = .success

section

variable {env : LoadEnv} {f : File} {c : Context} {buffer i : ℕ} {e : LoadEvent} {r : ℕ × ℕ}
  {u : Unit}

lemma attrStep_range (h : (attrStep env f c buffer u i).Emits e) (hr : rangeOf? e = some r) :
    (f.row c i).skipped = false ∧ r.1 = (f.row c i).base c buffer ∧
      (r.2 = alignUp 64 (rawLength c buffer (f.row c i)) pageSize ∨
        r.2 = rawLength c buffer (f.row c i)) := by
  rcases attrStep_emits.mp h with rfl | ⟨hkept, rfl | ⟨-, rfl⟩⟩
  · cases hr
  · cases hr
    exact ⟨hkept, rfl, .inl rfl⟩
  · cases hr
    exact ⟨hkept, rfl, .inr rfl⟩

lemma prepareStage_range (h : (prepareStage env f c buffer).Emits e) (hr : rangeOf? e = some r) :
    r = (buffer, allocSize c) := by
  have haccess : ¬ ∃ a, e = .access a := by
    rintro ⟨a, rfl⟩
    cases hr
  rcases prepareStage_emits.mp h with rfl | rfl | rfl | ⟨-, rfl | h | ⟨-, -, h⟩⟩
  · cases hr
    rfl
  · cases hr
  · cases hr
  · cases hr
  · obtain ⟨i, -, u, -, h⟩ := emits_foldlM_range.mp h
    exact absurd (copyStep_accesses h) haccess
  · exact absurd (relocateStage_accesses h) haccess

lemma attrReached_iff : AttrReached env f c buffer i ↔
      (∃ p, (prepareStage env f c buffer).Yields p) ∧
        ((List.range i).foldlM (attrStep env f c buffer) ()).Yields () := by
  rw [attrLoop_yields]
  constructor
  · rintro ⟨hentry, hrows, hdirs, ⟨img, himg⟩, hrecorded⟩
    exact ⟨⟨(_, img), prepareStage_yields.mpr ⟨hentry, hrows, hdirs, rfl, himg⟩⟩, hrecorded⟩
  · rintro ⟨⟨⟨st, img⟩, hp⟩, hrecorded⟩
    obtain ⟨hentry, hrows, hdirs, rfl, himg⟩ := prepareStage_yields.mp hp
    exact ⟨hentry, hrows, hdirs, ⟨img, himg⟩, hrecorded⟩

lemma loadAt_range (h : (loadAt env f c buffer).Emits e) (hr : rangeOf? e = some r) :
    r = (buffer, allocSize c) ∨
      ∃ i < c.numberOfSections, AttrReached env f c buffer i ∧ (f.row c i).skipped = false ∧
        r.1 = (f.row c i).base c buffer ∧
        (r.2 = alignUp 64 (rawLength c buffer (f.row c i)) pageSize ∨
          r.2 = rawLength c buffer (f.row c i)) := by
  rcases emits_bind.mp h with h | ⟨p, hp, h⟩
  · exact .inl (prepareStage_range h hr)
  · rcases finishStage_emits h with rfl | ⟨i, hi, hloop, hstep⟩
    · cases hr
    · exact .inr ⟨i, hi, attrReached_iff.mpr ⟨⟨p, hp⟩, hloop⟩, attrStep_range hstep hr⟩

lemma exists_loadAt_emits (hi : i < c.numberOfSections) (hreached : AttrReached env f c buffer i)
    (hkept : (f.row c i).skipped = false) :
    ∃ e, (loadAt env f c buffer).Emits e ∧ rangeOf? e =
      some ((f.row c i).base c buffer, alignUp 64 (rawLength c buffer (f.row c i)) pageSize) := by
  obtain ⟨⟨p, hp⟩, hloop⟩ := attrReached_iff.mp hreached
  refine ⟨_, emits_bind.mpr (.inr ⟨p, hp, emits_bind.mpr (.inl (emits_foldlM_range.mpr
    ⟨i, hi, (), hloop, attrStep_emits.mpr (.inr ⟨hkept, .inl rfl⟩)⟩))⟩), rfl⟩

end

/-! ## Ranges in the allocated pages -/

section

variable {env : LoadEnv} {f : File} {c : Context} {addr : ℕ} {s : SectionHeader}

/-- With both ends of the section in the image, its whole pages are in the allocation; else the
allocation starts at zero. -/
def PageFits (c : Context) (addr : ℕ) (s : SectionHeader) : Prop :=
  if s.virtualAddress < c.imageSize ∧ s.lastAddress < c.imageSize then
    s.virtualAddress + alignUp 64 s.virtualSize pageSize ≤ allocPages c * pageSize
  else
    addr = 0 ∧ alignUp 64 (imageAddress 0 c.imageSize s.lastAddress + 1) pageSize ≤
      allocPages c * pageSize

instance (c : Context) (addr : ℕ) (s : SectionHeader) : Decidable (PageFits c addr s) := by
  unfold PageFits
  infer_instance

lemma rawLength_of_inside (hsize : c.imageSize < 2 ^ 32) (hok : RowOk env f c addr s)
    (hstart : s.virtualAddress < c.imageSize) (hend : s.lastAddress < c.imageSize)
    (hword : addr + s.virtualAddress < 2 ^ 64) :
    s.base c addr = addr + s.virtualAddress ∧ rawLength c addr s = s.virtualSize := by
  have hbase : s.base c addr = addr + s.virtualAddress := imageAddress_of_lt hstart hword
  have horder := hok.order
  obtain ⟨hlast, hwrap⟩ : s.last c addr = addr + s.lastAddress ∧ addr + s.lastAddress < 2 ^ 64 := by
    by_cases hwrap : addr + s.lastAddress < 2 ^ 64
    · exact ⟨imageAddress_of_lt hend hwrap, hwrap⟩
    have hzero : s.last c addr = 0 := by
      by_contra hne
      exact hwrap (imageAddress_ne_zero hne).2.1
    omega
  obtain ⟨heq, hpos⟩ := lastAddress_eq_of_le (s := s) (by omega) (by omega)
  have hvsize := s.virtualSize_lt
  refine ⟨hbase, ?_⟩
  unfold rawLength
  rw [hbase, hlast, subW_of_le (by omega) (by omega), addW_of_lt (by omega)]
  omega

lemma base_eq_zero_of_not_inside (hok : RowOk env f c addr s)
    (hout : ¬ (s.virtualAddress < c.imageSize ∧ s.lastAddress < c.imageSize)) :
    s.base c addr = 0 := by
  by_contra hbase
  have horder := hok.order
  have hlast : s.last c addr ≠ 0 := by omega
  exact hout ⟨(imageAddress_ne_zero hbase).1, (imageAddress_ne_zero hlast).1⟩

section

variable (hsize : c.imageSize < 2 ^ 32)
include hsize

lemma last_lt_of_zero (s : SectionHeader) : s.last c 0 < 2 ^ 32 := by
  by_cases hzero : s.last c 0 = 0
  · omega
  · obtain ⟨hlt, -, heq⟩ := imageAddress_ne_zero hzero
    exact (heq.trans (Nat.zero_add _)).trans_lt (hlt.trans hsize)

lemma rawLength_le (hok : RowOk env f c addr s)
    (hle : addr ≤ s.base c addr) : rawLength c addr s ≤ 2 ^ 32 := by
  have horder := hok.order
  unfold rawLength
  by_cases hbase : s.base c addr = 0
  · obtain rfl : addr = 0 := by omega
    have hlast := last_lt_of_zero hsize s
    rw [subW_of_le (by omega) horder, addW_of_lt (by omega)]
    omega
  · obtain ⟨hb, hl, -, -, hin, hword⟩ := ends_inside hsize hbase (by omega) horder
    rw [subW_of_le (by omega) horder, addW_of_lt (by omega)]
    omega

lemma rowRange_inside_iff
    (hfits : addr + allocPages c * pageSize ≤ 2 ^ 64) (hok : RowOk env f c addr s)
    (hkept : s.skipped = false) :
    InPages addr (allocPages c) (s.base c addr, alignUp 64 (rawLength c addr s) pageSize) ↔
      PageFits c addr s := by
  have hround := (alignUp_page (v := s.virtualSize) (by have := s.virtualSize_lt; omega)).1
  unfold InPages PageFits
  dsimp only
  by_cases hin : s.virtualAddress < c.imageSize ∧ s.lastAddress < c.imageSize
  · rw [if_pos hin]
    constructor
    · rintro ⟨hlo, hhi⟩
      have hword : addr + s.virtualAddress < 2 ^ 64 := by
        by_cases hbase : s.base c addr = 0
        · have := s.virtualAddress_lt
          omega
        · exact (imageAddress_ne_zero hbase).2.1
      obtain ⟨hbase, hlength⟩ := rawLength_of_inside hsize hok hin.1 hin.2 hword
      rw [hbase, hlength] at hhi
      omega
    · intro hend
      have hword : addr + s.virtualAddress < 2 ^ 64 := by
        by_cases hloaded : s.has scnMemDiscardable = false
        · exact (imageAddress_ne_zero (hok.base hloaded)).2.1
        have hpos : s.virtualSize ≠ 0 := by
          intro hzero
          simp [SectionHeader.skipped, hzero, hloaded] at hkept
        omega
      obtain ⟨hbase, hlength⟩ := rawLength_of_inside hsize hok hin.1 hin.2 hword
      rw [hbase, hlength]
      exact ⟨by omega, by omega⟩
  · have hbase := base_eq_zero_of_not_inside hok hin
    rw [if_neg hin, hbase, Nat.le_zero]
    refine and_congr_right fun hzero => ?_
    subst hzero
    have hlength : rawLength c 0 s = imageAddress 0 c.imageSize s.lastAddress + 1 := by
      have hlast := last_lt_of_zero hsize s
      unfold rawLength
      rw [hbase, subW_of_le (by omega) (Nat.zero_le _), addW_of_lt (by omega)]
      rfl
    rw [hlength, Nat.zero_add, Nat.zero_add]

lemma allocPages_mul (halign : c.sectionAlignment < 2 ^ 32) :
    allocPages c * pageSize = allocSize c := by
  have hsum : addW 64 c.imageSize c.sectionAlignment = c.imageSize + c.sectionAlignment :=
    addW_of_lt (by omega)
  obtain ⟨-, -, k, hk⟩ := alignUp_page (v := c.imageSize + c.sectionAlignment) (by omega)
  apply Nat.div_mul_cancel
  unfold allocSize
  rw [hsum, hk]
  unfold pageSize
  omega

lemma bufferRange_inside_iff (halign : c.sectionAlignment < 2 ^ 32) {buffer : ℕ} :
    InPages addr (allocPages c) (buffer, allocSize c) ↔ buffer = addr := by
  unfold InPages
  rw [allocPages_mul hsize halign]
  omega

end

lemma InPages.of_le {pages a n m : ℕ} (h : InPages addr pages (a, m)) (hle : n ≤ m) :
    InPages addr pages (a, n) :=
  ⟨h.1, (Nat.add_le_add_left hle a).trans h.2⟩

end

/-! ## The ranges of `handle_image` -/

/-- The allocated address is aligned as the image asks for, and the sections that the loop gets to
fit in the pages. -/
structure RangesFit (env : LoadEnv) (f : File) (c : Context) (addr : ℕ) : Prop where
  aligned : imageBuffer c addr = addr
  rows : ∀ i < c.numberOfSections, AttrReached env f c addr i → (f.row c i).skipped = false →
    PageFits c addr (f.row c i)

section

variable {env : HandleEnv} {f : File} {c : Context} {addr : ℕ} {r : ℕ × ℕ}

lemma handleImage_range {e : LoadEvent} (hr : rangeOf? e = some r) : (handleImage env f).Emits e ↔
      ∃ c addr, checkImage env f = .ok c ∧ env.load.allocatePages (allocPages c) = some addr ∧
        (loadAt env.load f c (imageBuffer c addr)).Emits e := by
  apply handleImage_emits_of_ne
  rintro addr pages rfl
  cases hr

lemma loadAt_ranges_iff (hcheck : checkImage env f = .ok c)
    (hfits : addr + allocPages c * pageSize ≤ 2 ^ 64) :
    RangesInside (loadAt env.load f c (imageBuffer c addr)) addr (allocPages c) ↔
      RangesFit env.load f c addr := by
  have hsize := checkImage_imageSize_lt hcheck
  have halign := checkImage_sectionAlignment_lt hcheck
  constructor
  · intro h
    have haligned : imageBuffer c addr = addr := by
      refine (bufferRange_inside_iff hsize halign).mp
        (h (.updateMemAttrs _ _ (memAttrR + memAttrW) memAttrX) ?_ _ rfl)
      exact emits_bind.mpr (.inl (prepareStage_emits.mpr (.inl rfl)))
    refine ⟨haligned, ?_⟩
    rw [haligned] at h
    intro i hi hreached hkept
    obtain ⟨e, hemits, hr⟩ := exists_loadAt_emits hi hreached hkept
    exact (rowRange_inside_iff hsize hfits (hreached.rows.rows i hi hkept) hkept).mp
      (h e hemits _ hr)
  · rintro ⟨haligned, hrows⟩ e hemits r hr
    rw [haligned] at hemits
    rcases loadAt_range hemits hr with rfl | ⟨i, hi, hreached, hkept, hstart, hlength⟩
    · exact (bufferRange_inside_iff hsize halign).mpr rfl
    have hpages := (rowRange_inside_iff hsize hfits (hreached.rows.rows i hi hkept) hkept).mpr
      (hrows i hi hreached hkept)
    obtain ⟨a, n⟩ := r
    obtain rfl : a = _ := hstart
    rcases hlength with rfl | rfl
    · exact hpages
    · have hlength := rawLength_le hsize (hreached.rows.rows i hi hkept) hpages.1
      exact hpages.of_le (alignUp_page (by omega)).1

/-- The ranges that `handle_image` hands to `update_mem_attrs` and `cache_section` lie in the
allocated pages iff their address is aligned for the image and each section that the loop gets to
fits. -/
theorem handleImage_ranges_iff (env : HandleEnv) (f : File)
    (hpages : ∀ c addr, checkImage env f = .ok c →
      env.load.allocatePages (allocPages c) = some addr → addr + allocPages c * pageSize ≤ 2 ^ 64) :
    (∀ e, (handleImage env f).Emits e → ∀ r ∈ rangeOf? e, ∃ c addr, checkImage env f = .ok c ∧
        env.load.allocatePages (allocPages c) = some addr ∧ InPages addr (allocPages c) r) ↔
      ∀ c addr, checkImage env f = .ok c → env.load.allocatePages (allocPages c) = some addr →
        RangesFit env.load f c addr := by
  constructor
  · intro h c addr hcheck halloc
    refine (loadAt_ranges_iff hcheck (hpages c addr hcheck halloc)).mp fun e hemits r hr => ?_
    obtain ⟨c', addr', hcheck', halloc', hinside⟩ :=
      h e ((handleImage_range hr).mpr ⟨c, addr, hcheck, halloc, hemits⟩) r hr
    obtain rfl : c = c' := Except.ok.inj (hcheck.symm.trans hcheck')
    obtain rfl : addr = addr' := Option.some.inj (halloc.symm.trans halloc')
    exact hinside
  · intro h e hemits r hr
    obtain ⟨c, addr, hcheck, halloc, hemits⟩ := (handleImage_range hr).mp hemits
    have hinside := (loadAt_ranges_iff hcheck (hpages c addr hcheck halloc)).mpr
      (h c addr hcheck halloc)
    exact ⟨c, addr, hcheck, halloc, hinside e hemits r hr⟩

end

def attrImage (debug : ℕ) : File :=
  PeFields.file
    { sizeOfImage := 0x6000
      sectionAlignment := 0x2000
      addressOfEntryPoint := 0x2000
      sections := [⟨nameText, 16, 0x2000, 8, 328, 0x60000020⟩,
        ⟨0x67756265642e, 16, debug, 8, 336, 0x42000040⟩] }
    344

def allocEnv (addr : ℕ) : HandleEnv :=
  { insecureEnv false with
    load := { (insecureEnv false).load with allocatePages := fun _ => some addr } }

/-- Of eight pages at an odd page the attributes of the page behind them are set; for a discardable
section beyond the image, those of the page at zero. -/
theorem handleImage_ranges_outside : allocPages ((attrImage 0x4000).context 64) = 8 ∧
      (handleImage (allocEnv 0x101000) (attrImage 0x4000)).Emits
        (.updateMemAttrs 0x102000 0x8000 (memAttrR + memAttrW) memAttrX) ∧
      ¬ InPages 0x101000 8 (0x102000, 0x8000) ∧
    allocPages ((attrImage 0x8000).context 64) = 8 ∧
      (handleImage (allocEnv 0x100000) (attrImage 0x8000)).Emits
        (.updateMemAttrs 0 0x1000 memAttrR (memAttrW + memAttrX)) ∧
      (handleImage (allocEnv 0x100000) (attrImage 0x8000)).Emits
        (.cacheSection [0x2e, 0x64, 0x65, 0x62, 0x75, 0x67, 0, 0] 0 1) ∧
      ¬ InPages 0x100000 8 (0, 0x1000) := by
  unfold InPages
  decide +kernel

theorem handleImage_ranges_aligned :
    let env := allocEnv 0x100000
    let f := attrImage 0x4000
    checkImage env f = .ok (f.context 64) ∧
    ∀ e, (handleImage env f).Emits e → ∀ r ∈ rangeOf? e,
      ∃ c addr, checkImage env f = .ok c ∧ env.load.allocatePages (allocPages c) = some addr ∧
        InPages addr (allocPages c) r := by
  intro env f
  have hcheck : checkImage (allocEnv 0x100000) (attrImage 0x4000) =
      .ok ((attrImage 0x4000).context 64) := by decide +kernel
  have hrows : ∀ i < ((attrImage 0x4000).context 64).numberOfSections,
      PageFits ((attrImage 0x4000).context 64) 0x100000
        ((attrImage 0x4000).row ((attrImage 0x4000).context 64) i) := by decide +kernel
  refine ⟨hcheck,
    (handleImage_ranges_iff _ _ fun c addr hc haddr => ?_).mpr fun c addr hc haddr => ?_⟩
  · obtain rfl := Except.ok.inj (hcheck.symm.trans hc)
    obtain rfl := Option.some.inj haddr
    decide +kernel
  · obtain rfl := Except.ok.inj (hcheck.symm.trans hc)
    obtain rfl := Option.some.inj haddr
    exact ⟨by decide +kernel, fun i hi _ _ => hrows i hi⟩

end Shim
