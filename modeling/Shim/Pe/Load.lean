import Shim.Pe.Hash
import Shim.Pe.Relocate

/-!
# Loading an image: the second half of `handle_image`

`loadImage env f c` is `handle_image` from the allocation on. The events are the accesses to the file
and to the image (by offset), and the calls of `update_mem_attrs`, `cache_section` and `FreePages`.
Every failure frees the pages again, so that is written once, around `loadAt`.

* `loadBuffer_fits_iff` — when the image lies in the pages that are allocated for it.
-/

namespace Shim.Pe

open Shim.Lib

/-! ## The allocation -/

/-- `PAGE_SIZE` -/
def pageSize : ℕ := 4096

/-- `alloc_alignment` -/
def allocAlignment (c : Context) : ℕ := if c.sectionAlignment = 0 then 4096 else c.sectionAlignment

/-- `alloc_size`, an `unsigned int`. -/
def allocSize (c : Context) : ℕ :=
  alignUp 64 (addW 64 c.imageSize c.sectionAlignment) pageSize % 2 ^ 32

/-- `alloc_pages` -/
def allocPages (c : Context) : ℕ := allocSize c / pageSize

/-- `buffer`: the aligned address in the allocated pages. -/
def imageBuffer (c : Context) (allocAddress : ℕ) : ℕ := alignUp 64 allocAddress (allocAlignment c)

section

variable {f : File} {p : Platform} {mokPolicy : ℕ} {checkSecdir : Bool} {c : Context}

lemma File.sectionAlignment_pos (f : File) (pe : ℕ) : 0 < f.sectionAlignment pe := by
  unfold File.sectionAlignment
  dsimp only
  split_ifs
  · omega
  · omega
  · omega
  · omega

lemma File.sectionAlignment_lt (f : File) (pe : ℕ) : f.sectionAlignment pe < 2 ^ 32 := by
  have h₁ := f.mem.u32_lt (pe + 56)
  have h₂ := f.mem.u32_lt (pe + 60)
  unfold File.sectionAlignment File.fileAlignment
  dsimp only
  split_ifs
  all_goals omega

lemma alignUp_page {v : ℕ} (h : v < 2 ^ 34) :
    v ≤ alignUp 64 v pageSize ∧ alignUp 64 v pageSize ≤ v + 4095 ∧ 4096 ∣ alignUp 64 v pageSize := by
  have hb := alignUp_bounds (w := 64) (a := pageSize) (v := v) (by unfold pageSize; omega)
  have hd := dvd_alignUp_pow_two (w := 64) (k := 12) (v := v) (by omega) (by omega)
  unfold pageSize at hb ⊢
  exact ⟨hb.1, hb.2, hd⟩

/-- If the aligned sum is too large for an `unsigned int`, less is allocated by nearly `2 ^ 32`. -/
theorem allocSize_of_overflow (hI : c.imageSize < 2 ^ 32) (hA : c.sectionAlignment < 2 ^ 32)
    (h : 2 ^ 32 - 4096 < c.imageSize + c.sectionAlignment) :
    allocSize c + 2 ^ 32 ≤ c.imageSize + c.sectionAlignment + 4095 := by
  have hsum : addW 64 c.imageSize c.sectionAlignment = c.imageSize + c.sectionAlignment :=
    addW_of_lt (by omega)
  obtain ⟨hge, hle, k, hk⟩ := alignUp_page (v := c.imageSize + c.sectionAlignment) (by omega)
  unfold allocSize
  rw [hsum]
  omega

lemma allocSize_of_fits (h : c.imageSize + c.sectionAlignment ≤ 2 ^ 32 - 4096) :
    c.imageSize + c.sectionAlignment ≤ allocPages c * 4096 ∧ allocPages c * 4096 < 2 ^ 32 := by
  have hsum : addW 64 c.imageSize c.sectionAlignment = c.imageSize + c.sectionAlignment :=
    addW_of_lt (by omega)
  obtain ⟨hge, hle, k, hk⟩ := alignUp_page (v := c.imageSize + c.sectionAlignment) (by omega)
  have hlt : alignUp 64 (c.imageSize + c.sectionAlignment) pageSize < 2 ^ 32 := by omega
  have hpages : allocPages c * 4096 = alignUp 64 (c.imageSize + c.sectionAlignment) pageSize := by
    unfold allocPages allocSize
    rw [hsum, Nat.mod_eq_of_lt hlt]
    exact Nat.div_mul_cancel ⟨k, hk⟩
  omega

lemma exists_gap {a : ℕ} (ha : 2 ^ 32 - 4096 < a) (ha' : a < 2 ^ 32) :
    ∃ addr, 4096 ∣ addr ∧ addr < 2 ^ 32 ∧ addr + 4096 ≤ alignUp 64 addr a := by
  -- one page below the multiple of the page size under `a`, bit 12 is set in both operands
  refine ⟨4096 * (a / 4096 - 1), Dvd.intro _ rfl, by omega, ?_⟩
  have hsub : subW 64 a (4096 * (a / 4096 - 1)) = 4096 + a % 4096 := by
    rw [subW_of_le (by omega) (by omega)]
    omega
  have hbit₁ : (4096 + a % 4096).testBit 12 = true := by
    rw [Nat.testBit_eq_decide_div_mod_eq]
    simp only [decide_eq_true_eq]
    omega
  have hbit₂ : (a - 1).testBit 12 = true := by
    rw [Nat.testBit_eq_decide_div_mod_eq]
    simp only [decide_eq_true_eq]
    omega
  have hgap : 4096 ≤ (4096 + a % 4096) &&& (a - 1) := by
    apply Nat.ge_two_pow_of_testBit (i := 12)
    rw [Nat.testBit_and, hbit₁, hbit₂]
    rfl
  have hle : (4096 + a % 4096) &&& (a - 1) ≤ a - 1 := Nat.and_le_right
  unfold alignUp
  rw [hsub, addW_of_lt (by omega)]
  omega

/-- The image lies in the allocated pages, at whatever page-aligned address they are, iff the sum of
`ImageSize` and `SectionAlignment` is a page below `2 ^ 32`. -/
theorem loadBuffer_fits_iff (h : readHeader f p mokPolicy checkSecdir = .ok c) :
    (∀ addr, 4096 ∣ addr → addr + allocPages c * 4096 ≤ 2 ^ 64 → addr ≤ imageBuffer c addr ∧
          imageBuffer c addr + c.imageSize ≤ addr + allocPages c * 4096) ↔
      c.imageSize + c.sectionAlignment ≤ 2 ^ 32 - 4096 := by
  obtain ⟨rfl, hok⟩ := readHeader_ok h
  have hsize : (f.context f.peOffset).imageSize = f.mem.u32 (f.peOffset + 80) := rfl
  have halignment : (f.context f.peOffset).sectionAlignment = f.sectionAlignment f.peOffset := by
    dsimp only [File.context]
  set c := f.context f.peOffset
  have hI : c.imageSize < 2 ^ 32 := by
    rw [hsize]
    exact f.mem.u32_lt _
  have hpos : 40 ≤ c.imageSize := by
    have := hok.table_image
    omega
  have hA : c.sectionAlignment < 2 ^ 32 := by
    rw [halignment]
    exact f.sectionAlignment_lt f.peOffset
  have hA₀ : 0 < c.sectionAlignment := by
    rw [halignment]
    exact f.sectionAlignment_pos f.peOffset
  have halign : allocAlignment c = c.sectionAlignment := if_neg (by omega)
  constructor
  · intro hfits
    by_contra hlarge
    have hsize := allocSize_of_overflow hI hA (by omega)
    have hpages : allocPages c * 4096 ≤ allocSize c := Nat.div_mul_le_self _ _
    by_cases hnear : c.sectionAlignment + 4096 ≤ 2 ^ 32
    · have := hfits 4096 (dvd_refl _) (by omega)
      omega
    obtain ⟨addr, hdvd, hlt, hgap⟩ := exists_gap (a := c.sectionAlignment) (by omega) hA
    have := (hfits addr hdvd (by omega)).2
    unfold imageBuffer at this
    rw [halign] at this
    omega
  · intro hsum addr hdvd hend
    obtain ⟨hpages, -⟩ := allocSize_of_fits hsum
    have hbounds := alignUp_bounds (w := 64) (a := c.sectionAlignment) (v := addr) (by omega)
    unfold imageBuffer
    rw [halign]
    omega

/-- An image whose pages are counted modulo `2 ^ 32`. -/
def hugeImage : File :=
  PeFields.file
    { sizeOfImage := 0xfffff000
      sectionAlignment := 0x2000
      addressOfEntryPoint := 0x2000
      sections := [] }
    328

/-- The image is accepted, and one page is allocated for it. -/
theorem hugeImage_overflows :
    let c := hugeImage.context 64
    readHeader hugeImage .x64 0 true = .ok c ∧ allocPages c = 1 ∧
      0x100000 + allocPages c * 4096 < imageBuffer c 0x100000 + c.imageSize := by
  decide +kernel

theorem loadBuffer_fits_iff_hugeImage :
    let c := hugeImage.context 64
    ¬ (c.imageSize + c.sectionAlignment ≤ 2 ^ 32 - 4096) ∧
      ¬ ∀ addr, 4096 ∣ addr → addr + allocPages c * 4096 ≤ 2 ^ 64 → addr ≤ imageBuffer c addr ∧
          imageBuffer c addr + c.imageSize ≤ addr + allocPages c * 4096 := by
  intro c
  have hlarge : ¬ (c.imageSize + c.sectionAlignment ≤ 2 ^ 32 - 4096) := by decide +kernel
  have hread : readHeader hugeImage .x64 0 true = .ok c := by decide +kernel
  exact ⟨hlarge, fun hfits => hlarge ((loadBuffer_fits_iff hread).mp hfits)⟩

end

/-- What happens while an image is loaded. Reads are of the file and writes of the image, both by
offset. -/
inductive LoadEvent where
  | access (a : Access)
  | updateMemAttrs (addr size setAttrs clearAttrs : ℕ)
  | cacheSection (name : List UInt8) (addr size : ℕ)
  | flushCachedSections
  | freePages (addr pages : ℕ)
  deriving DecidableEq

/-- The policy, and what the calls return. -/
structure LoadEnv where
  mokPolicy : ℕ
  parentVerified : Bool
  /-- `AllocatePages`: the address for a number of pages, if there are that many. -/
  allocatePages : ℕ → Option ℕ
  /-- What is in the allocated pages before, by offset from the image. -/
  pages : Mem
  /-- What `cache_section` returns for the section of an index. -/
  cacheSection : ℕ → EfiStatus

/-- What `handle_image` returns. -/
structure LoadedImage where
  buffer : ℕ
  /-- The image, by offset from the buffer. -/
  img : Mem
  entryPoint : ℕ

/-- `MEM_ATTR_R` -/
def memAttrR : ℕ := 4

/-- `MEM_ATTR_W` -/
def memAttrW : ℕ := 2

/-- `MEM_ATTR_X` -/
def memAttrX : ℕ := 1

/-! ## Copying the sections -/

/-- `.reloc` -/
def relocName : List UInt8 := [0x2e, 0x72, 0x65, 0x6c, 0x6f, 0x63, 0, 0]

/-- The loops pass over the section: empty and discardable, or not readable. -/
def SectionHeader.skipped (s : SectionHeader) : Bool :=
  (s.has scnMemDiscardable && s.virtualSize = 0) || !s.has scnMemRead

/-- The variables of the copy loop: the image, `found_entry_point` and `RelocSection`. -/
structure CopyState where
  img : Mem
  found : ℕ
  reloc : Option SectionHeader

section

variable (env : LoadEnv) (f : File) (c : Context) (buffer : ℕ)

/-- `RelocBase` -/
def relocBase : ℕ := imageAddress buffer c.imageSize (f.dirVirtualAddress c.relocDir)

/-- `RelocBaseEnd` -/
def relocBaseEnd : ℕ :=
  imageAddress buffer c.imageSize
    (subW 32 (addW 32 (f.dirVirtualAddress c.relocDir) (f.dirSize c.relocDir)) 1)

/-- `base` -/
def SectionHeader.base (s : SectionHeader) : ℕ := imageAddress buffer c.imageSize s.virtualAddress

/-- `end` -/
def SectionHeader.last (s : SectionHeader) : ℕ := imageAddress buffer c.imageSize s.lastAddress

/-- The test for "we believe in this section table": nonzero sizes, both ends in the image, and the
place that the relocation directory gives. -/
def Believable (s : SectionHeader) : Prop :=
  s.sizeOfRawData ≠ 0 ∧ s.virtualSize ≠ 0 ∧ s.base c buffer ≠ 0 ∧ s.last c buffer ≠ 0 ∧
    relocBase f c buffer = s.base c buffer ∧ relocBaseEnd f c buffer ≤ s.last c buffer

instance (s : SectionHeader) : Decidable (Believable f c buffer s) :=
  inferInstanceAs (Decidable (_ ∧ _))

/-- What is copied of a section and cleared behind it. -/
def copySection (s : SectionHeader) (img : Mem) : Run LoadEvent EfiStatus Mem :=
  if s.has scnCntUninitializedData then do
    .emit (.access (.write s.virtualAddress s.virtualSize))
    return img.fill s.virtualAddress s.virtualSize 0
  else do
    let size := min s.virtualSize s.sizeOfRawData
    let img ←
      if 0 < size then do
        .emit (.access (.read s.pointerToRawData size))
        .emit (.access (.write s.virtualAddress size))
        pure (img.copy s.virtualAddress f.mem s.pointerToRawData size)
      else pure img
    if size < s.virtualSize then
      .emit (.access (.write (s.virtualAddress + size) (s.virtualSize - size)))
      return img.fill (s.virtualAddress + size) (s.virtualSize - size) 0
    else return img

/-- A round of the copy loop. -/
def copyStep (st : CopyState) (i : ℕ) : Run LoadEvent EfiStatus CopyState := do
  .emit (.access (.read (c.sectionOffset i) sizeofSectionHeader))
  let s := f.row c i
  if s.skipped then return st
  else
    .check (s.has scnMemDiscardable = false ∧ s.has scnMemWrite ∧ s.has scnMemExecute ∧
      env.mokPolicy &&& mokPolicyRequireNx ≠ 0) .unsupported
    .check (s.last c buffer < s.base c buffer) .unsupported
    let found :=
      if s.virtualAddress ≤ c.entryPoint ∧ c.entryPoint < s.lastAddress then st.found + 1
      else st.found
    .check (s.name = relocName ∧ st.reloc.isSome) .unsupported
    .check (s.name = relocName ∧ ¬ Believable f c buffer s) .unsupported
    let reloc := if s.name = relocName then some s else st.reloc
    if s.has scnMemDiscardable then return ⟨st.img, found, reloc⟩
    else
      .check (s.base c buffer = 0) .unsupported
      .check (s.last c buffer = 0) .unsupported
      .check (s.has scnCntUninitializedData = false ∧
        (s.virtualAddress < c.sizeOfHeaders ∨ s.pointerToRawData < c.sizeOfHeaders)) .unsupported
      let img ← copySection f s st.img
      return ⟨img, found, reloc⟩

/-- `length = end - base + 1` -/
def rawLength (s : SectionHeader) : ℕ := addW 64 (subW 64 (s.last c buffer) (s.base c buffer)) 1

/-- `set_attrs` -/
def SectionHeader.setAttrs (s : SectionHeader) : ℕ :=
  memAttrR + (if s.has scnMemWrite then memAttrW else 0) +
    (if s.has scnMemExecute then memAttrX else 0)

/-- `clear_attrs` -/
def SectionHeader.clearAttrs (s : SectionHeader) : ℕ :=
  (if s.has scnMemWrite then 0 else memAttrW) + (if s.has scnMemExecute then 0 else memAttrX)

/-- The digest of the section is kept. -/
def SectionHeader.cached (s : SectionHeader) (parentVerified : Bool) : Bool :=
  !s.skipped && (s.has scnCntCode || s.has scnCntInitializedData) && s.has scnMemRead &&
    !parentVerified

/-- A round of the loop that sets the page attributes. -/
def attrStep (_ : Unit) (i : ℕ) : Run LoadEvent EfiStatus Unit := do
  .emit (.access (.read (c.sectionOffset i) sizeofSectionHeader))
  let s := f.row c i
  if s.skipped then return ()
  else
    .emit (.updateMemAttrs (s.base c buffer) (alignUp 64 (rawLength c buffer s) pageSize)
      s.setAttrs s.clearAttrs)
    if s.cached env.parentVerified then
      .emit (.cacheSection s.name (s.base c buffer) (rawLength c buffer s))
      .check (env.cacheSection i ≠ .success) (env.cacheSection i)
    else return ()

/-- The call of `relocate_coff`. -/
def relocateStage (st : CopyState) : Run LoadEvent EfiStatus Mem :=
  match st.reloc with
  | some s =>
    if f.dirSize c.relocDir ≠ 0 then (relocateCoff f c s buffer st.img).via .access
    else pure st.img
  | none => pure st.img

/-- Up to the relocation. -/
def prepareStage : Run LoadEvent EfiStatus (CopyState × Mem) := do
  .emit (.updateMemAttrs buffer (allocSize c) (memAttrR + memAttrW) memAttrX)
  .emit (.access (.read 0 c.sizeOfHeaders))
  .emit (.access (.write 0 c.sizeOfHeaders))
  .check (imageAddress buffer c.imageSize c.entryPoint = 0) .unsupported
  .emit (.access (.read c.relocDir 8))
  let st ← (List.range c.numberOfSections).foldlM (copyStep env f c buffer)
    ⟨env.pages.copy 0 f.mem 0 c.sizeOfHeaders, 0, none⟩
  .check (c.numberOfRvaAndSizes ≤ 5) .unsupported
  let img ← relocateStage f c buffer st
  return (st, img)

/-- The page attributes, and the count of the entry points. -/
def finishStage (st : CopyState) (img : Mem) : Run LoadEvent EfiStatus LoadedImage := do
  (List.range c.numberOfSections).foldlM (attrStep env f c buffer) ()
  if st.found = 0 then do
    .emit .flushCachedSections
    .fail .unsupported
  else if 1 < st.found then do
    .emit .flushCachedSections
    .fail .unsupported
  else return ⟨buffer, img, imageAddress buffer c.imageSize c.entryPoint⟩

/-- `handle_image` behind the allocation. -/
def loadAt : Run LoadEvent EfiStatus LoadedImage := do
  let p ← prepareStage env f c buffer
  finishStage env f c buffer p.1 p.2

/-- `handle_image` from the allocation on. -/
def loadImage : Run LoadEvent EfiStatus LoadedImage :=
  match env.allocatePages (allocPages c) with
  | none => .fail .outOfResources
  | some addr => (loadAt env f c (imageBuffer c addr)).onError (.freePages addr (allocPages c))

end

end Shim.Pe
