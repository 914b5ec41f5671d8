import Shim.Efi
import Shim.Lib.Check
import Shim.Lib.Mem
import Shim.Lib.Word

/-!
# PE files: the buffer, its headers and `read_header`

* `readHeader_ok` — what a file that `read_header` accepts has passed.
* `readHeader_inside` — its tables lie in the file and its headers in the image.
-/

namespace Shim.Pe

open Shim.Lib

/-- A file in memory. `addr` is the pointer `data`; it is not zero, and no pointer computed from it
wraps around. -/
structure File where
  addr : ℕ
  datasize : ℕ
  /-- The memory at the buffer, by offset. -/
  mem : Mem
  addr_pos : 0 < addr
  addr_fits : addr + 2 ^ 34 ≤ 2 ^ 64
  datasize_lt : datasize < 2 ^ 32

/-- `ImageAddress`: zero outside the image or on overflow. -/
def imageAddress (image size address : ℕ) : ℕ :=
  if size ≤ address then 0
  else if 2 ^ 64 ≤ image + address then 0
  else image + address

lemma imageAddress_of_lt {image size address : ℕ} (h : address < size)
    (hw : image + address < 2 ^ 64) : imageAddress image size address = image + address := by
  unfold imageAddress
  rw [if_neg (by omega), if_neg (by omega)]

lemma imageAddress_ne_zero {image size address : ℕ} (h : imageAddress image size address ≠ 0) :
    address < size ∧ image + address < 2 ^ 64 ∧
      imageAddress image size address = image + address := by
  unfold imageAddress at h ⊢
  split_ifs at h ⊢ with h₁ h₂
  · exact absurd rfl h
  · exact absurd rfl h
  · exact ⟨by omega, by omega, rfl⟩

lemma imageAddress_eq_zero_iff (f : File) {size address : ℕ}
    (h : size < 2 ^ 32 ∨ address < 2 ^ 32) :
    imageAddress f.addr size address = 0 ↔ size ≤ address := by
  have hpos := f.addr_pos
  have hfits := f.addr_fits
  unfold imageAddress
  split_ifs <;> omega

/-- A size that has passed through an `int`, as in `int size = context->ImageSize`, back in 64 bits:
`2 ^ 31` and more become negative. -/
def intSize (size : ℕ) : ℕ :=
  if size % 2 ^ 32 < 2 ^ 31 then size % 2 ^ 32 else size % 2 ^ 32 + (2 ^ 64 - 2 ^ 32)

/-- `EFI_IMAGE_SECTION_HEADER`, with the widths of its fields. -/
structure SectionHeader where
  name : List UInt8
  virtualSize : ℕ
  virtualAddress : ℕ
  sizeOfRawData : ℕ
  pointerToRawData : ℕ
  pointerToRelocations : ℕ
  numberOfRelocations : ℕ
  characteristics : ℕ
  virtualSize_lt : virtualSize < 2 ^ 32
  virtualAddress_lt : virtualAddress < 2 ^ 32
  sizeOfRawData_lt : sizeOfRawData < 2 ^ 32
  pointerToRawData_lt : pointerToRawData < 2 ^ 32

/-- A flag of `Characteristics`. -/
def SectionHeader.has (s : SectionHeader) (flag : ℕ) : Bool := s.characteristics &&& flag != 0

/-- `EFI_IMAGE_SCN_CNT_CODE` -/
def scnCntCode : ℕ := 0x00000020

/-- `EFI_IMAGE_SCN_CNT_INITIALIZED_DATA` -/
def scnCntInitializedData : ℕ := 0x00000040

/-- `EFI_IMAGE_SCN_CNT_UNINITIALIZED_DATA` -/
def scnCntUninitializedData : ℕ := 0x00000080

/-- `EFI_IMAGE_SCN_MEM_DISCARDABLE` -/
def scnMemDiscardable : ℕ := 0x02000000

/-- `EFI_IMAGE_SCN_MEM_EXECUTE` -/
def scnMemExecute : ℕ := 0x20000000

/-- `EFI_IMAGE_SCN_MEM_READ` -/
def scnMemRead : ℕ := 0x40000000

/-- `EFI_IMAGE_SCN_MEM_WRITE` -/
def scnMemWrite : ℕ := 0x80000000

/-- `EFI_IMAGE_SIZEOF_SECTION_HEADER` -/
def sizeofSectionHeader : ℕ := 40

/-- The section header at an offset. -/
def sectionAt (m : Mem) (off : ℕ) : SectionHeader where
  name := m.slice off 8
  virtualSize := m.u32 (off + 8)
  virtualAddress := m.u32 (off + 12)
  sizeOfRawData := m.u32 (off + 16)
  pointerToRawData := m.u32 (off + 20)
  pointerToRelocations := m.u32 (off + 24)
  numberOfRelocations := m.u16 (off + 32)
  characteristics := m.u32 (off + 36)
  virtualSize_lt := m.u32_lt _
  virtualAddress_lt := m.u32_lt _
  sizeOfRawData_lt := m.u32_lt _
  pointerToRawData_lt := m.u32_lt _

lemma sectionAt_congr {m n : Mem} {S : ℕ → Prop} (h : m.AgreeOn n S) {off : ℕ}
    (hS : ∀ i, off ≤ i → i < off + 40 → S i) : sectionAt m off = sectionAt n off := by
  have hslice : m.slice off 8 = n.slice off 8 := h.slice_eq fun i h₁ h₂ => hS i h₁ (by omega)
  have hload : ∀ k w, k + w ≤ 40 → m.load (off + k) w = n.load (off + k) w := fun k w hkw =>
    h.load_eq fun i h₁ h₂ => hS i (by omega) (by omega)
  unfold sectionAt Mem.u32 Mem.u16
  simp only [hslice, hload _ 4 (by decide : 8 + 4 ≤ 40), hload _ 4 (by decide : 12 + 4 ≤ 40),
    hload _ 4 (by decide : 16 + 4 ≤ 40), hload _ 4 (by decide : 20 + 4 ≤ 40),
    hload _ 4 (by decide : 24 + 4 ≤ 40), hload _ 2 (by decide : 32 + 2 ≤ 40),
    hload _ 4 (by decide : 36 + 4 ≤ 40)]

/-- `PE_COFF_LOADER_IMAGE_CONTEXT`. The pointers are offsets from the start of the file. -/
structure Context where
  imageAddress : ℕ
  imageSize : ℕ
  entryPoint : ℕ
  sizeOfHeaders : ℕ
  numberOfSections : ℕ
  sectionAlignment : ℕ
  firstSection : ℕ
  relocDir : ℕ
  secDir : ℕ
  numberOfRvaAndSizes : ℕ
  dllCharacteristics : ℕ
  peHdr : ℕ
  deriving DecidableEq

/-- `VirtualAddress` of the data directory at `dir`. -/
def File.dirVirtualAddress (f : File) (dir : ℕ) : ℕ := f.mem.u32 dir

/-- `Size` of the data directory at `dir`. -/
def File.dirSize (f : File) (dir : ℕ) : ℕ := f.mem.u32 (dir + 4)

/-- `&context->FirstSection[i]` -/
def Context.sectionOffset (c : Context) (i : ℕ) : ℕ := c.firstSection + sizeofSectionHeader * i

/-- The row `i` of the section table. -/
def File.row (f : File) (c : Context) (i : ℕ) : SectionHeader := sectionAt f.mem (c.sectionOffset i)

/-- The section table. -/
def File.sections (f : File) (c : Context) : List SectionHeader :=
  (List.range c.numberOfSections).map fun i => f.row c i

/-! ## `read_header` -/

section

variable (f : File)

/-- `DosHdr->e_magic` -/
def File.eMagic : ℕ := f.mem.u16 0

/-- `DosHdr->e_lfanew` -/
def File.eLfanew : ℕ := f.mem.u32 60

/-- `EFI_IMAGE_DOS_SIGNATURE`, `MZ`. -/
def imageDosSignature : ℕ := 0x5a4d

/-- `sizeof (EFI_IMAGE_DOS_HEADER)` -/
def sizeofDosHeader : ℕ := 64

/-- `dos_sz`, which is also the offset of `PEHdr`: `e_lfanew` with an `MZ` header, else zero. -/
def File.peOffset : ℕ := if f.eMagic = imageDosSignature then f.eLfanew else 0

/-- `image_is_64_bit`: the magic of PE32+. -/
def imageIs64Bit (pe : ℕ) : Bool := f.mem.u16 (pe + 24) = 0x20b

/-- `image_is_loadable` -/
def imageIsLoadable (p : Platform) (pe : ℕ) : Bool :=
  let machine := f.mem.u16 (pe + 4)
  let magic := f.mem.u16 (pe + 24)
  -- a foreign machine type is only let through for x64 images on an i386 build
  (machine = p.machineType || (p.machineType = 0x014c && machine = 0x8664 && p.allow64Bit)) &&
    (magic = 0x20b || magic = 0x10b) &&
    if imageIs64Bit f pe then p.allow64Bit else p.allow32Bit

/-- `MOK_POLICY_REQUIRE_NX` -/
def mokPolicyRequireNx : ℕ := 1

/-- `OptionalHeader.NumberOfRvaAndSizes` -/
def File.numberOfRvaAndSizes (pe : ℕ) : ℕ :=
  f.mem.u32 (pe + 24 + if imageIs64Bit f pe then 108 else 92)

/-- The offset of `DataDirectory[i]`. -/
def File.dataDirectory (pe i : ℕ) : ℕ := pe + 24 + (if imageIs64Bit f pe then 112 else 96) + 8 * i

/-- `FileAlignment`, with its default of 0x200. -/
def File.fileAlignment (pe : ℕ) : ℕ :=
  if f.mem.u32 (pe + 60) = 0 then 0x200 else f.mem.u32 (pe + 60)

/-- `context->SectionAlignment` after its defaults: a zero becomes a page, and it is at least the
file alignment. -/
def File.sectionAlignment (pe : ℕ) : ℕ :=
  let a := if f.mem.u32 (pe + 56) = 0 then 4096 else f.mem.u32 (pe + 56)
  if a < f.fileAlignment pe then f.fileAlignment pe else a

/-- The context `read_header` fills in. Both formats have `SizeOfImage`, `SizeOfHeaders` and
`DllCharacteristics` at the same offsets. -/
def File.context (pe : ℕ) : Context where
  imageAddress := if imageIs64Bit f pe then f.mem.u64 (pe + 48) else f.mem.u32 (pe + 52)
  imageSize := f.mem.u32 (pe + 80)
  entryPoint := f.mem.u32 (pe + 40)
  sizeOfHeaders := f.mem.u32 (pe + 84)
  numberOfSections := f.mem.u16 (pe + 6)
  sectionAlignment := f.sectionAlignment pe
  firstSection := pe + f.mem.u16 (pe + 20) + 4 + 20
  relocDir := f.dataDirectory pe 5
  secDir := f.dataDirectory pe 4
  numberOfRvaAndSizes := f.numberOfRvaAndSizes pe
  dllCharacteristics := f.mem.u16 (pe + 94)
  peHdr := pe

/-- `read_header`. The tests stand in the order of the source; the context is the one the source
has filled in when the last of them is passed. -/
def readHeader (p : Platform) (mokPolicy : ℕ) (checkSecdir : Bool) : Except EfiStatus Context := do
  reject (f.datasize < sizeofDosHeader) .unsupported
  reject (f.eMagic = imageDosSignature ∧
    (f.eLfanew < sizeofDosHeader ∨ f.datasize - 4 < f.eLfanew)) .unsupported
  let pe := f.peOffset
  reject (f.datasize - pe < 248) .unsupported
  reject (imageIs64Bit f pe ∧ f.datasize - pe < 264) .unsupported
  reject (imageIsLoadable f p pe = false) .unsupported
  let c := f.context pe
  let sizeOfOptionalHeader := f.mem.u16 (pe + 20)
  reject (f.mem.u32 (pe + 60) % 2 ≠ 0) .unsupported
  reject (16 < c.numberOfRvaAndSizes) .unsupported
  -- the optional header without its sixteen directories, then as many as it says it has
  let headerWithoutDataDir := if imageIs64Bit f pe then 240 - 8 * 16 else 224 - 8 * 16
  reject (sizeOfOptionalHeader < headerWithoutDataDir ∨
    sizeOfOptionalHeader - headerWithoutDataDir ≠ c.numberOfRvaAndSizes * 8) .unsupported
  -- `e_lfanew` is read here even when there is no `MZ` header
  let sectionHeaderOffset := f.eLfanew + 4 + 20 + sizeOfOptionalHeader
  reject (c.imageSize < sectionHeaderOffset ∨
    (c.imageSize - sectionHeaderOffset) / 40 ≤ c.numberOfSections) .unsupported
  reject (c.sizeOfHeaders < sectionHeaderOffset ∨
    (c.sizeOfHeaders - sectionHeaderOffset) / 40 < c.numberOfSections) .unsupported
  reject (f.datasize < c.numberOfSections * 40 + sectionHeaderOffset) .unsupported
  reject (f.datasize < pe + 264) .unsupported
  -- `Te.Signature` is 16 bits wide
  reject (f.mem.u16 pe ≠ 0x4550) .unsupported
  reject (f.mem.u16 (pe + 22) &&& 1 ≠ 0) .unsupported
  reject (mokPolicy &&& mokPolicyRequireNx ≠ 0 ∧ c.dllCharacteristics &&& 0x100 = 0) .unsupported
  reject (f.datasize < c.firstSection) .unsupported
  reject (c.imageSize < c.sizeOfHeaders) .unsupported
  reject (f.datasize - 8 < c.secDir) .unsupported
  reject (checkSecdir = true ∧ (f.datasize < f.dirVirtualAddress c.secDir ∨
    (f.dirVirtualAddress c.secDir = f.datasize ∧ 0 < f.dirSize c.secDir))) .invalidParameter
  return c

/-- What the tests of `read_header` say about a file that passes them. -/
structure HeaderOk (p : Platform) (mokPolicy : ℕ) (checkSecdir : Bool) : Prop where
  lfanew : f.eMagic = imageDosSignature → sizeofDosHeader ≤ f.eLfanew
  pe_le : f.peOffset + 264 ≤ f.datasize
  loadable : imageIsLoadable f p f.peOffset = true
  fileAlignment : f.mem.u32 (f.peOffset + 60) % 2 = 0
  directories : f.numberOfRvaAndSizes f.peOffset ≤ 16
  optionalHeader : f.mem.u16 (f.peOffset + 20) =
    (if imageIs64Bit f f.peOffset then 112 else 96) + f.numberOfRvaAndSizes f.peOffset * 8
  table_image : f.eLfanew + 24 + f.mem.u16 (f.peOffset + 20) +
    40 * (f.mem.u16 (f.peOffset + 6) + 1) ≤ f.mem.u32 (f.peOffset + 80)
  table_headers : f.eLfanew + 24 + f.mem.u16 (f.peOffset + 20) +
    40 * f.mem.u16 (f.peOffset + 6) ≤ f.mem.u32 (f.peOffset + 84)
  table_file : f.eLfanew + 24 + f.mem.u16 (f.peOffset + 20) +
    40 * f.mem.u16 (f.peOffset + 6) ≤ f.datasize
  signature : f.mem.u16 f.peOffset = 0x4550
  nx : mokPolicy &&& mokPolicyRequireNx ≠ 0 → f.mem.u16 (f.peOffset + 94) &&& 0x100 ≠ 0
  headers_image : f.mem.u32 (f.peOffset + 84) ≤ f.mem.u32 (f.peOffset + 80)
  secDir : checkSecdir = true → f.dirVirtualAddress (f.dataDirectory f.peOffset 4) ≤ f.datasize ∧
      (f.dirVirtualAddress (f.dataDirectory f.peOffset 4) = f.datasize →
        f.dirSize (f.dataDirectory f.peOffset 4) = 0)

variable {f}

lemma readHeader_ok {p : Platform} {mokPolicy : ℕ} {checkSecdir : Bool} {c : Context}
    (h : readHeader f p mokPolicy checkSecdir = .ok c) :
    c = f.context f.peOffset ∧ HeaderOk f p mokPolicy checkSecdir := by
  unfold readHeader at h
  simp only [reject_bind_eq_ok, Bool.not_eq_false] at h
  obtain ⟨hdos, hmz, -, -, hload, halign, hdirs, hopt, himg, hhead, hfile, hunion, hsig, -, hnx, -,
    hheadimg, -, hsec, hc⟩ := h
  refine ⟨(Except.ok.inj hc).symm, ?_⟩
  have hhwd : (if imageIs64Bit f f.peOffset then 240 - 8 * 16 else 224 - 8 * 16) =
      if imageIs64Bit f f.peOffset then 112 else 96 := rfl
  rw [hhwd] at hopt
  have hdiv₁ := Nat.lt_of_not_le fun h => himg (.inr h)
  have hdiv₂ := Nat.le_of_not_lt fun h => hhead (.inr h)
  have hle₁ : 40 * (f.mem.u16 (f.peOffset + 6) + 1) ≤ f.mem.u32 (f.peOffset + 80) -
      (f.eLfanew + 4 + 20 + f.mem.u16 (f.peOffset + 20)) :=
    (Nat.mul_le_mul_left 40 hdiv₁).trans (Nat.mul_div_le _ _)
  have hle₂ : 40 * f.mem.u16 (f.peOffset + 6) ≤ f.mem.u32 (f.peOffset + 84) -
      (f.eLfanew + 4 + 20 + f.mem.u16 (f.peOffset + 20)) :=
    (Nat.mul_le_mul_left 40 hdiv₂).trans (Nat.mul_div_le _ _)
  constructor
  · intro hmagic
    exact Nat.le_of_not_lt fun hlt => hmz ⟨hmagic, .inl hlt⟩
  · omega
  · exact hload
  · omega
  · exact Nat.le_of_not_lt hdirs
  · have : ¬ f.mem.u16 (f.peOffset + 20) < (if imageIs64Bit f f.peOffset then 112 else 96) :=
      fun hlt => hopt (.inl hlt)
    have : f.mem.u16 (f.peOffset + 20) - (if imageIs64Bit f f.peOffset then 112 else 96) =
        f.numberOfRvaAndSizes f.peOffset * 8 := by
      by_contra hne
      exact hopt (.inr hne)
    omega
  · have : ¬ f.mem.u32 (f.peOffset + 80) < f.eLfanew + 4 + 20 + f.mem.u16 (f.peOffset + 20) :=
      fun hlt => himg (.inl hlt)
    omega
  · have : ¬ f.mem.u32 (f.peOffset + 84) < f.eLfanew + 4 + 20 + f.mem.u16 (f.peOffset + 20) :=
      fun hlt => hhead (.inl hlt)
    omega
  · have : f.mem.u16 (f.peOffset + 6) * 40 + (f.eLfanew + 4 + 20 + f.mem.u16 (f.peOffset + 20)) ≤
        f.datasize := Nat.le_of_not_lt hfile
    omega
  · exact not_not.mp hsig
  · intro hpolicy hzero
    exact hnx ⟨hpolicy, hzero⟩
  · exact Nat.le_of_not_lt hheadimg
  · intro hcheck
    refine ⟨Nat.le_of_not_lt fun hlt => hsec ⟨hcheck, .inl hlt⟩, fun heq => ?_⟩
    by_contra hne
    exact hsec ⟨hcheck, .inr ⟨heq, Nat.pos_of_ne_zero hne⟩⟩

end

/-- A file that is zero except for its fields `(offset, width, value)`; the first field that covers
a byte decides it. -/
def File.ofFields (datasize : ℕ) (fields : List (ℕ × ℕ × ℕ)) : File where
  addr := 0x70000000
  datasize := datasize % 2 ^ 32
  mem := fields.foldr (fun x m => m.store x.1 x.2.1 x.2.2) fun _ => 0
  addr_pos := by decide
  addr_fits := by decide
  datasize_lt := Nat.mod_lt _ (by decide)

lemma File.ofFields_mem_eq_zero {datasize n i : ℕ} {fields : List (ℕ × ℕ × ℕ)}
    (hend : ∀ x ∈ fields, x.1 + x.2.1 ≤ n) (hi : n ≤ i) :
    (File.ofFields datasize fields).mem i = 0 := by
  show fields.foldr (fun x (m : Mem) => m.store x.1 x.2.1 x.2.2) (fun _ => 0) i = 0
  induction fields with
  | nil => rfl
  | cons x fields ih =>
    have hx := hend x List.mem_cons_self
    rw [List.foldr_cons, Mem.store, if_neg (by omega)]
    exact ih fun y hy => hend y (List.mem_cons_of_mem _ hy)

/-- The fields of a section header that vary in the images below. -/
structure SectionFields where
  name : ℕ
  virtualSize : ℕ
  virtualAddress : ℕ
  sizeOfRawData : ℕ
  pointerToRawData : ℕ
  characteristics : ℕ

/-- `.text` as a number. -/
def nameText : ℕ := 0x747865742e

/-- `.reloc` as a number. -/
def nameReloc : ℕ := 0x636f6c65722e

/-- What varies in the x64 images below: they have the PE header at 64, six data directories and
the section table at 248. -/
structure PeFields where
  sizeOfImage : ℕ
  sizeOfHeaders : ℕ := 328
  sectionAlignment : ℕ := 0x1000
  addressOfEntryPoint : ℕ := 0x1000
  /-- `DataDirectory[4]`, the certificate table: its offset and its size. -/
  security : ℕ × ℕ := (0, 0)
  /-- `DataDirectory[5]`, the relocation table: its address and its size. -/
  baseReloc : ℕ × ℕ := (0, 0)
  sections : List SectionFields
  body : List (ℕ × ℕ × ℕ) := []

/-- The section header at `off`. -/
def SectionFields.fields (s : SectionFields) (off : ℕ) : List (ℕ × ℕ × ℕ) :=
  [(off, 8, s.name), (off + 8, 4, s.virtualSize), (off + 12, 4, s.virtualAddress),
    (off + 16, 4, s.sizeOfRawData), (off + 20, 4, s.pointerToRawData),
    (off + 36, 4, s.characteristics)]

/-- The image with these fields. -/
def PeFields.file (p : PeFields) (datasize : ℕ) : File :=
  .ofFields datasize <| [(0, 2, imageDosSignature), (60, 4, 64), (64, 4, 0x4550), (68, 2, 0x8664),
      (70, 2, p.sections.length), (84, 2, 160), (88, 2, 0x20b), (104, 4, p.addressOfEntryPoint),
      (120, 4, p.sectionAlignment), (144, 4, p.sizeOfImage), (148, 4, p.sizeOfHeaders),
      (196, 4, 6), (232, 4, p.security.1), (236, 4, p.security.2), (240, 4, p.baseReloc.1),
      (244, 4, p.baseReloc.2)] ++
    (p.sections.zipIdx.flatMap fun s => s.1.fields (248 + 40 * s.2)) ++ p.body

/-- The union of the header formats, the entry of the certificate table and the section table lie in
the file, and the headers in the image. -/
structure HeaderInside (f : File) (c : Context) : Prop where
  header : c.peHdr + 264 ≤ f.datasize
  secDir : c.secDir + 8 ≤ f.datasize
  sections : ∀ i < c.numberOfSections, c.sectionOffset i + sizeofSectionHeader ≤ f.datasize
  headers_table : c.sectionOffset c.numberOfSections ≤ c.sizeOfHeaders
  headers_image : c.sizeOfHeaders ≤ c.imageSize
  directories : c.numberOfRvaAndSizes ≤ 16
  optionalHeader : f.mem.u16 (c.peHdr + 20) =
    (if imageIs64Bit f c.peHdr then 112 else 96) + 8 * c.numberOfRvaAndSizes

lemma File.peOffset_le (f : File) : f.peOffset ≤ f.eLfanew := by
  unfold File.peOffset
  split_ifs
  · exact le_rfl
  · exact Nat.zero_le _

/-- A file that `read_header` accepts, with an `MZ` header or without, has its tables where they
belong. -/
theorem readHeader_inside {f : File} {p : Platform} {mokPolicy : ℕ} {checkSecdir : Bool}
    {c : Context} (h : readHeader f p mokPolicy checkSecdir = .ok c) : HeaderInside f c := by
  obtain ⟨rfl, hok⟩ := readHeader_ok h
  have hpe := f.peOffset_le
  have hfile := hok.table_file
  have hheaders := hok.table_headers
  have hopt := hok.optionalHeader
  have hunion := hok.pe_le
  have hrow : ∀ i, (f.context f.peOffset).sectionOffset i =
      f.peOffset + f.mem.u16 (f.peOffset + 20) + 4 + 20 + 40 * i := fun _ => rfl
  have hsec : (f.context f.peOffset).secDir =
      f.peOffset + 24 + (if imageIs64Bit f f.peOffset then 112 else 96) + 32 := rfl
  constructor
  · exact hunion
  · rw [hsec]
    split_ifs <;> omega
  · intro i hi
    have hi' : i < f.mem.u16 (f.peOffset + 6) := hi
    rw [hrow, sizeofSectionHeader]
    omega
  · show (f.context f.peOffset).sectionOffset (f.mem.u16 (f.peOffset + 6)) ≤
      f.mem.u32 (f.peOffset + 84)
    rw [hrow]
    omega
  · exact hok.headers_image
  · exact hok.directories
  · rw [Nat.mul_comm 8]
    exact hopt

/-- An image without an `MZ` header. -/
def bareImage : File :=
  .ofFields 736
    [(0, 4, 0x4550), (4, 2, 0x8664), (6, 2, 1), (20, 2, 160), (24, 2, 0x20b), (40, 4, 0x1000),
      (56, 4, 0x1000), (60, 4, 0x200), (80, 4, 0x2000), (84, 4, 736), (132, 4, 6)]

theorem readHeader_inside_bareImage : bareImage.eMagic ≠ imageDosSignature ∧
      readHeader bareImage .x64 0 true = .ok (bareImage.context 0) ∧
      HeaderInside bareImage (bareImage.context 0) := by
  have hread : readHeader bareImage .x64 0 true = .ok (bareImage.context 0) := by decide +kernel
  exact ⟨by decide +kernel, hread, readHeader_inside hread⟩

end Shim.Pe
