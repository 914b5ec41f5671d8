import Shim.Pe.EntryPoint

/-!
# The content of an image before it is relocated

What a section leaves in the pages of an image is a list of bytes (`sectionContent`): as much raw data
as there is room for and zeroes behind it. Sections may overlap, so the image is the fold of these
writes in the order of the section table (`loadedContent`).
-/

namespace Shim

open Lib Pe List Run

def sectionContent (f : File) (s : SectionHeader) : List UInt8 :=
  if s.has scnCntUninitializedData then List.replicate s.virtualSize 0
  else
    let size := min s.virtualSize s.sizeOfRawData
    f.mem.slice s.pointerToRawData size ++ List.replicate (s.virtualSize - size) 0

def loadedContent (pages : Mem) (f : File) (c : Context) : Mem :=
  ((f.sections c).filter fun s => s.Loads).foldl
    (fun img s => img.write s.virtualAddress (sectionContent f s))
    (pages.write 0 (f.mem.slice 0 c.sizeOfHeaders))

def copyLoop (env : LoadEnv) (f : File) (c : Context) (buffer : ℕ) :
    Run LoadEvent EfiStatus CopyState :=
  (List.range c.numberOfSections).foldlM (copyStep env f c buffer)
    ⟨env.pages.copy 0 f.mem 0 c.sizeOfHeaders, 0, none⟩

structure LoadedRow (c : Context) (buffer : ℕ) (s : SectionHeader) : Prop where
  base : s.base c buffer = buffer + s.virtualAddress
  inside : s.virtualAddress + s.virtualSize ≤ c.imageSize
  fits : buffer + s.virtualAddress + s.virtualSize ≤ 2 ^ 64

section

variable {env : LoadEnv} {f : File} {c : Context} {buffer : ℕ} {s : SectionHeader} {st : CopyState}
  {img : Mem} {n i off len : ℕ}

lemma sectionImage_eq_write :
    sectionImage f s img = img.write s.virtualAddress (sectionContent f s) := by
  unfold sectionImage sectionContent
  split_ifs
  · exact Mem.fill_eq_write _ _ _ _
  have hlen := Mem.length_slice f.mem s.pointerToRawData (min s.virtualSize s.sizeOfRawData)
  have hjoin := img.write_write s.virtualAddress
    (f.mem.slice s.pointerToRawData (min s.virtualSize s.sizeOfRawData))
    (List.replicate (s.virtualSize - min s.virtualSize s.sizeOfRawData) 0)
  rw [hlen] at hjoin
  rw [Mem.copy_eq_write, Mem.fill_eq_write, hjoin]

lemma loads_iff : s.Loads ↔ s.skipped = false ∧ s.has scnMemDiscardable = false := by
  constructor
  · exact fun h => ⟨skipped_of_loads h, h.2⟩
  · rintro ⟨hkept, hloaded⟩
    refine ⟨?_, hloaded⟩
    simpa [SectionHeader.skipped, hloaded] using hkept

lemma Pe.CopyState.after_img : (st.after f c s).img =
      if s.Loads then st.img.write s.virtualAddress (sectionContent f s) else st.img := by
  simp only [loads_iff]
  unfold CopyState.after
  by_cases hskip : s.skipped = true
  · simp [hskip]
  · by_cases hdisc : s.has scnMemDiscardable = true
    · simp [hskip, hdisc]
    · simp [hskip, hdisc, sectionImage_eq_write]

lemma copied_img : (copied f c img n).img =
      (((List.range n).map (f.row c)).filter fun s => s.Loads).foldl
        (fun img s => img.write s.virtualAddress (sectionContent f s)) img := by
  induction n with
  | zero => rfl
  | succ n ih =>
    rw [copied, CopyState.after_img, ih, range_succ, map_append, filter_append,
      foldl_append]
    by_cases hloads : (f.row c n).Loads
    · simp [hloads]
    · simp [hloads]

/-! ## Where the sections are written -/

lemma copySection_writes (h : (copySection f s img).Emits (.access (.write off len))) :
    s.virtualAddress ≤ off ∧ off + len ≤ s.virtualAddress + s.virtualSize := by
  rcases copySection_emits.mp h with ⟨-, h⟩ | ⟨-, ⟨-, h | h⟩ | ⟨-, h⟩⟩
  · cases h
    omega
  · cases h
  · cases h
    omega
  · cases h
    omega

lemma Pe.RowOk.loadedRow (hok : RowOk env f c buffer s) (hsize : c.imageSize < 2 ^ 32)
    (hloads : s.Loads) : LoadedRow c buffer s := by
  obtain ⟨hbase, -, heq, hpos, hinside, hword⟩ :=
    ends_inside hsize (hok.base hloads.2) (hok.last hloads.2) hok.order
  exact ⟨hbase, by omega, by omega⟩

lemma copyStep_writes (h : (copyStep env f c buffer st i).Emits (.access (.write off len))) :
    (f.row c i).Loads ∧ RowOk env f c buffer (f.row c i) ∧ (f.row c i).virtualAddress ≤ off ∧
      off + len ≤ (f.row c i).virtualAddress + (f.row c i).virtualSize := by
  rcases copyStep_emits.mp h with h | ⟨hkept, hloaded, ⟨st', hst'⟩, h⟩
  · cases h
  · exact ⟨loads_iff.mpr ⟨hkept, hloaded⟩, (copyStep_yields.mp hst').1.1 hkept, copySection_writes h⟩

lemma copyLoop_writes (hsize : c.imageSize < 2 ^ 32)
    (h : (copyLoop env f c buffer).Emits (.access (.write off len))) : off + len ≤ c.imageSize := by
  obtain ⟨i, -, u, -, hstep⟩ := emits_foldlM_range.mp h
  obtain ⟨hloads, hok, -, hend⟩ := copyStep_writes hstep
  exact le_trans hend (hok.loadedRow hsize hloads).inside

lemma loadAt_writes (h : (loadAt env f c buffer).Emits (.access (.write off len))) :
    (off = 0 ∧ len = c.sizeOfHeaders) ∨ (copyLoop env f c buffer).Emits (.access (.write off len)) ∨
      ∃ st, (copyLoop env f c buffer).Yields st ∧
        (relocateStage f c buffer st).Emits (.access (.write off len)) := by
  rcases emits_bind.mp h with h | ⟨p, -, h⟩
  · rcases prepareStage_emits.mp h with h | h | h | ⟨-, h | h | ⟨hok, -, h⟩⟩
    · cases h
    · cases h
    · cases h
      exact .inl ⟨rfl, rfl⟩
    · cases h
    · exact .inr (.inl h)
    · exact .inr (.inr ⟨_, copyLoop_yields.mpr ⟨hok, rfl⟩, h⟩)
  · rcases finishStage_emits h with h | ⟨i, -, -, h⟩
    · cases h
    · simp [attrStep_emits] at h

end

/-! ## An image that is accepted -/

structure Prepared (env : LoadEnv) (f : File) (c : Context) (buffer : ℕ) (st : CopyState) : Prop where
  copies : (copyLoop env f c buffer).Yields st
  headers : c.sizeOfHeaders ≤ c.imageSize
  rows : ∀ s ∈ f.sections c, s.Loads → LoadedRow c buffer s
  writes : ∀ off len, (copyLoop env f c buffer).Emits (.access (.write off len)) →
    off + len ≤ c.imageSize
  content : st.img = loadedContent env.pages f c

/-- Just before an image that `handle_image` accepts is relocated it holds the headers and the
sections, which were written inside of it. Nothing else is written but the relocations. -/
theorem handleImage_content {env : HandleEnv} {f : File} {image : LoadedImage}
    (h : (handleImage env f).Yields image) :
    ∃ c st, checkImage env f = .ok c ∧ Prepared env.load f c image.buffer st ∧
      (relocateStage f c image.buffer st).Yields image.img ∧
      ∀ off len, (handleImage env f).Emits (.access (.write off len)) →
        (off = 0 ∧ len = c.sizeOfHeaders) ∨
          (copyLoop env.load f c image.buffer).Emits (.access (.write off len)) ∨
          (relocateStage f c image.buffer st).Emits (.access (.write off len)) := by
  obtain ⟨c, addr, hcheck, halloc, hload⟩ := handleImage_yields h
  obtain ⟨-, hok, -, hbuffer, -, hreloc⟩ := loadAt_yields hload
  obtain ⟨hread, -⟩ := checkImage_ok hcheck
  obtain ⟨hc, hheader⟩ := readHeader_ok hread
  have hsize : c.imageSize < 2 ^ 32 := by
    rw [hc]
    exact f.mem.u32_lt _
  have hheaders : c.sizeOfHeaders ≤ c.imageSize := by
    rw [hc]
    exact hheader.headers_image
  rw [← hbuffer] at hok hreloc
  have hcopies : (copyLoop env.load f c image.buffer).Yields
      (copied f c (env.load.pages.copy 0 f.mem 0 c.sizeOfHeaders) c.numberOfSections) :=
    copyLoop_yields.mpr ⟨hok, rfl⟩
  refine ⟨c, _, hcheck, ⟨hcopies, hheaders, ?_, fun off len => copyLoop_writes hsize, ?_⟩, hreloc, ?_⟩
  · intro s hs hloads
    obtain ⟨i, hi, rfl⟩ := mem_map.mp hs
    exact (hok.rows i (mem_range.mp hi) (skipped_of_loads hloads)).loadedRow hsize hloads
  · rw [copied_img, Mem.copy_eq_write]
    rfl
  · intro off len hwrite
    obtain ⟨c', addr', hcheck', halloc', hwrite⟩ := handleImage_emits.mp hwrite
    obtain rfl : c = c' := Except.ok.inj (hcheck.symm.trans hcheck')
    obtain rfl : addr = addr' := Option.some.inj (halloc.symm.trans halloc')
    rw [← hbuffer] at hwrite
    rcases loadAt_writes hwrite with hw | hw | ⟨st, hst, hw⟩
    · exact .inl hw
    · exact .inr (.inl hw)
    · rw [hst.unique hcopies] at hw
      exact .inr (.inr hw)

def overlapImage : File :=
  PeFields.file
    { sizeOfImage := 0x2000
      sizeOfHeaders := 368
      sections := [⟨nameText, 16, 0x1000, 4, 368, 0x60000020⟩,
        ⟨0x617461642e, 8, 0x1008, 8, 372, 0xc0000040⟩, ⟨0x7373622e, 4, 0x100c, 0, 0, 0xc0000080⟩]
      body := [(368, 4, 0x04030201), (372, 8, 0x1817161514131211)] }
    380

theorem handleImage_content_overlapImage :
    ∃ image, (handleImage (insecureEnv false) overlapImage).Yields image ∧
      image.img.slice 0x1000 16 = [1, 2, 3, 4, 0, 0, 0, 0, 0x11, 0x12, 0x13, 0x14, 0, 0, 0, 0] ∧
      ∃ c st, checkImage (insecureEnv false) overlapImage = .ok c ∧
        Prepared (insecureEnv false).load overlapImage c image.buffer st := by
  have hout : (handleImage (insecureEnv false) overlapImage).out.map
      (fun image => image.img.slice 0x1000 16) =
        .ok [1, 2, 3, 4, 0, 0, 0, 0, 0x11, 0x12, 0x13, 0x14, 0, 0, 0, 0] := by
    decide +kernel
  cases himage : (handleImage (insecureEnv false) overlapImage).out with
  | error e =>
    rw [himage] at hout
    cases hout
  | ok image =>
    rw [himage] at hout
    obtain ⟨c, st, hcheck, hprepared, -⟩ := handleImage_content himage
    exact ⟨image, himage, Except.ok.inj hout, c, st, hcheck, hprepared⟩

end Shim
