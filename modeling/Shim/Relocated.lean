import Shim.HandleImage

/-!
# Whether a loaded image has been relocated

The relocation directory of an image names a table of blocks, and each block lists places to fix up.
`handle_image` finds the table through the section called `.reloc`, and `relocate_coff` walks it.
-/

namespace Shim

open Lib Pe List Run

namespace Pe.RelocTable

variable (t : RelocTable)

def last : ℕ := t.start + t.dirSize - 1

def fixups (b n : ℕ) : List Fixup := (List.range n).filterMap fun k => (t.entry b k).join

def IsBlocks : ℕ → List ℕ → Prop
  | b, [] => t.last ≤ b
  | b, b' :: blocks => b' = b ∧ b < t.last ∧ IsBlocks (b + t.sizeOfBlock b) blocks

/-- A block that can be applied: its size and its page are right, and all of its entries are of a
known type. -/
structure BlockOk (b : ℕ) : Prop where
  size : t.SizeOk b
  page : t.PageOk b
  known : t.KnownBefore b (t.entryCount b)

def Applied (img m : Mem) : Prop :=
  ∃ blocks, t.IsBlocks t.start blocks ∧ (∀ b ∈ blocks, t.BlockOk b) ∧
    m = (blocks.flatMap fun b => t.fixups b (t.entryCount b)).foldl (fun m x => x.apply m) img

variable {t} {b n : ℕ} {img m : Mem}

lemma fixups_succ : t.fixups b (n + 1) = t.fixups b n ++ ((t.entry b n).join).toList := by
  unfold fixups
  rw [range_succ, filterMap_append]
  cases h : (t.entry b n).join <;> simp [h]

lemma entries_applied (h : ((List.range n).foldlM (t.stepEntry b) img).Yields m) :
    m = (t.fixups b n).foldl (fun m x => x.apply m) img := by
  induction n generalizing m with
  | zero =>
    simp only [range_zero, foldlM_nil, yields_pure] at h
    exact h.symm
  | succ n ih =>
    rw [yields_foldlM_range_succ] at h
    obtain ⟨u, hu, hstep⟩ := h
    rw [fixups_succ, foldl_append, ← ih hu]
    rcases stepEntry_yields.mp hstep with ⟨hentry, rfl⟩ | ⟨x, hentry, rfl⟩
    · simp [hentry]
    · simp [hentry]

lemma walk_applied (hstop : t.stop = t.last) (hn : t.stop - b ≤ n)
    (h : (t.walk n b img).Yields m) :
    ∃ blocks, t.IsBlocks b blocks ∧ (∀ b ∈ blocks, t.BlockOk b) ∧
      m = (blocks.flatMap fun b => t.fixups b (t.entryCount b)).foldl (fun m x => x.apply m) img := by
  induction n generalizing b img with
  | zero =>
    rw [walk, yields_pure] at h
    exact ⟨[], by rw [IsBlocks]; omega, fun b hb => absurd hb not_mem_nil, h.symm⟩
  | succ n ih =>
    rw [walk] at h
    by_cases hlt : b < t.stop
    · rw [if_pos hlt, yields_bind] at h
      obtain ⟨⟨b', u⟩, hstep, hrest⟩ := h
      obtain ⟨hsize, hpage, hentries, rfl⟩ := stepBlock_yields_iff.mp hstep
      have hpos : t.sizeOfBlock b ≠ 0 := hsize.1
      obtain ⟨blocks, hblocks, hok, hm⟩ := ih (by omega) hrest
      refine ⟨b :: blocks, ⟨rfl, by omega, hblocks⟩, ?_, ?_⟩
      · intro d hd
        rcases mem_cons.1 hd with rfl | hd
        · exact ⟨hsize, hpage, (entries_yields img).mp ⟨u, hentries⟩⟩
        · exact hok d hd
      · rw [hm, entries_applied hentries, flatMap_cons, foldl_append]
    · rw [if_neg hlt, yields_pure] at h
      exact ⟨[], by rw [IsBlocks]; omega, fun b hb => absurd hb not_mem_nil, h.symm⟩

lemma Applied.eq_of_block (h : t.Applied img m) (hlt : t.start < t.last)
    (hone : t.last ≤ t.start + t.sizeOfBlock t.start) :
    m = (t.fixups t.start (t.entryCount t.start)).foldl (fun m x => x.apply m) img := by
  obtain ⟨blocks, hblocks, -, rfl⟩ := h
  cases blocks with
  | nil =>
    rw [IsBlocks] at hblocks
    omega
  | cons b blocks =>
    obtain ⟨rfl, -, hrest⟩ := hblocks
    cases blocks with
    | nil => simp
    | cons d blocks =>
      obtain ⟨rfl, hlt', -⟩ := hrest
      omega

end Pe.RelocTable

/-! ## What a load does about it -/

section

variable {env : HandleEnv} {f : File} {c : Context} {buffer : ℕ} {image : LoadedImage}

def copiedImage (env : LoadEnv) (f : File) (c : Context) : Mem := (allCopied env f c).img

/-- There is a section at the address of the directory, and the loaded image is the copied one with
all fixups of the table in its raw data. -/
def DirectoryApplied (env : LoadEnv) (f : File) (c : Context) (buffer : ℕ) (img : Mem) : Prop :=
  ∃ j < c.numberOfSections, (f.row c j).virtualAddress = f.dirVirtualAddress c.relocDir ∧
    (RelocTable.of f c (f.row c j) buffer).Applied (copiedImage env f c) img

/-- There is a `.reloc` section that is not skipped, its raw data starts below the size of the
image, and the end of its table does not wrap. -/
def WalksDirectory (f : File) (c : Context) (buffer : ℕ) : Prop :=
  ∃ j < c.numberOfSections, (f.row c j).IsReloc ∧
    imageAddress f.addr (RelocTable.of f c (f.row c j) buffer).size
      (f.row c j).pointerToRawData ≠ 0 ∧
    (f.row c j).pointerToRawData + f.dirSize c.relocDir ≤ 2 ^ 32

lemma readHeader_imageAddress_lt {p : Platform} {mokPolicy : ℕ} {checkSecdir : Bool}
    (h : readHeader f p mokPolicy checkSecdir = .ok c) : c.imageAddress < 2 ^ 64 := by
  obtain ⟨rfl, -⟩ := readHeader_ok h
  show (if imageIs64Bit f f.peOffset then f.mem.u64 (f.peOffset + 48)
    else f.mem.u32 (f.peOffset + 52)) < 2 ^ 64
  split_ifs
  · exact Mem.u64_lt _ _
  · exact (Mem.u32_lt _ _).trans (by decide)

lemma stop_eq_last {s : SectionHeader} (hsize : f.dirSize c.relocDir ≠ 0)
    (hwrap : s.pointerToRawData + f.dirSize c.relocDir ≤ 2 ^ 32) :
    (RelocTable.of f c s buffer).stop = (RelocTable.of f c s buffer).last := by
  show subW 32 (addW 32 s.pointerToRawData (f.dirSize c.relocDir)) 1 =
    s.pointerToRawData + f.dirSize c.relocDir - 1
  rcases Nat.lt_or_ge (s.pointerToRawData + f.dirSize c.relocDir) (2 ^ 32) with hlt | hge
  · rw [addW_of_lt hlt, subW_of_le hlt (by omega)]
  have heq : s.pointerToRawData + f.dirSize c.relocDir = 2 ^ 32 := by omega
  unfold addW
  rw [heq]
  decide

lemma stop_le_start (buffer : ℕ) {s : SectionHeader}
    (hwrap : ¬ s.pointerToRawData + f.dirSize c.relocDir ≤ 2 ^ 32) :
    (RelocTable.of f c s buffer).stop ≤ (RelocTable.of f c s buffer).start := by
  show subW 32 (addW 32 s.pointerToRawData (f.dirSize c.relocDir)) 1 ≤ s.pointerToRawData
  have hptr := s.pointerToRawData_lt
  have hdir : f.dirSize c.relocDir < 2 ^ 32 := Mem.u32_lt _ _
  have hadd : addW 32 s.pointerToRawData (f.dirSize c.relocDir) =
      s.pointerToRawData + f.dirSize c.relocDir - 2 ^ 32 := by
    unfold addW
    omega
  rw [hadd, subW_of_le (by omega) (by omega)]
  omega

lemma relocateCoff_applied {s : SectionHeader} {img m : Mem}
    (hsize : f.dirSize c.relocDir ≠ 0) (hadjust : subW 64 buffer c.imageAddress ≠ 0)
    (h : (relocateCoff f c s buffer img).Yields m) :
    if imageAddress f.addr (RelocTable.of f c s buffer).size s.pointerToRawData ≠ 0 ∧
        s.pointerToRawData + f.dirSize c.relocDir ≤ 2 ^ 32 then
      (RelocTable.of f c s buffer).Applied img m
    else m = img := by
  rcases (relocateCoff_yields rfl hadjust).mp h with ⟨hbase, -, rfl⟩ | ⟨hbase, -, hwalk⟩
  · rw [if_neg (fun h => h.1 hbase)]
  by_cases hwrap : s.pointerToRawData + f.dirSize c.relocDir ≤ 2 ^ 32
  · rw [if_pos ⟨hbase, hwrap⟩]
    exact RelocTable.walk_applied (stop_eq_last hsize hwrap) le_rfl hwalk
  · rw [if_neg (fun h => hwrap h.2)]
    have hle := stop_le_start buffer hwrap
    rw [Nat.sub_eq_zero_of_le hle, RelocTable.walk, yields_pure] at hwalk
    exact hwalk.symm

lemma loadAt_applied (hload : (loadAt env.load f c buffer).Yields image)
    (hsize : f.dirSize c.relocDir ≠ 0) (hadjust : subW 64 buffer c.imageAddress ≠ 0) :
    (WalksDirectory f c buffer → DirectoryApplied env.load f c buffer image.img) ∧
      (¬ WalksDirectory f c buffer → image.img = copiedImage env.load f c) := by
  obtain ⟨-, hok, -, -, -, hstage⟩ := loadAt_yields hload
  unfold relocateStage at hstage
  cases hreloc : (copied f c (env.load.pages.copy 0 f.mem 0 c.sizeOfHeaders)
      c.numberOfSections).reloc with
  | none =>
    rw [hreloc] at hstage
    refine ⟨?_, fun _ => (yields_pure.mp hstage).symm⟩
    rintro ⟨j, hj, hrow, -⟩
    exact absurd hrow (copied_reloc_none.mp hreloc j hj)
  | some s =>
    rw [hreloc] at hstage
    simp only [if_pos hsize, yields_via] at hstage
    obtain ⟨j, hj, hrow, rfl⟩ := copied_reloc_some hreloc
    have happlied := relocateCoff_applied hsize hadjust hstage
    constructor
    · rintro ⟨k, hk, hrow', hbase, hwrap⟩
      obtain rfl := hok.reloc k hk j hj hrow' hrow
      rw [if_pos ⟨hbase, hwrap⟩] at happlied
      refine ⟨k, hk, ?_, happlied⟩
      -- the section has been believed in: it is at the address of the directory
      obtain ⟨-, -, hne, -, hplace, -⟩ := (hok.rows k hk hrow.1).believable hrow.2
      have hbase' := imageAddress_ne_zero hne
      have hdir := imageAddress_ne_zero (hplace ▸ hne)
      unfold relocBase SectionHeader.base at hplace
      rw [hbase'.2.2, hdir.2.2] at hplace
      omega
    · intro hnot
      rw [if_neg fun h => hnot ⟨j, hj, hrow, h⟩] at happlied
      exact happlied

end

/-- An image that is loaded away from its `ImageBase` has all its fixups applied exactly if the
table is walked, or would change nothing. -/
theorem handleImage_relocates_iff {env : HandleEnv} {f : File} {c : Context} {image : LoadedImage}
    (hcheck : checkImage env f = .ok c) (hload : (handleImage env f).Yields image)
    (hsize : f.dirSize c.relocDir ≠ 0) (haddress : image.buffer ≠ c.imageAddress) :
    DirectoryApplied env.load f c image.buffer image.img ↔ WalksDirectory f c image.buffer ∨
        DirectoryApplied env.load f c image.buffer (copiedImage env.load f c) := by
  obtain ⟨c', addr, hcheck', -, hat⟩ := handleImage_yields hload
  obtain rfl := Except.ok.inj (hcheck.symm.trans hcheck')
  have hbuffer : image.buffer = imageBuffer c addr := (loadAt_yields hat).2.2.2.1
  rw [← hbuffer] at hat
  have hadjust : subW 64 image.buffer c.imageAddress ≠ 0 := by
    have hlt : image.buffer < 2 ^ 64 := by
      rw [hbuffer]
      exact addW_lt
    have hlt' : c.imageAddress < 2 ^ 64 := readHeader_imageAddress_lt (checkImage_ok hcheck).1
    rcases Nat.lt_or_ge image.buffer c.imageAddress with h | h
    · rw [subW_of_lt hlt' h]
      omega
    · rw [subW_of_le hlt h]
      omega
  obtain ⟨hwalks, hstays⟩ := loadAt_applied hat hsize hadjust
  by_cases h : WalksDirectory f c image.buffer
  · exact iff_of_true (hwalks h) (.inl h)
  · rw [hstays h]
    exact ⟨Or.inr, fun h' => h'.resolve_left h⟩

/-! ## Images that are not relocated -/

def nameData : ℕ := 0x617461642e

def fixupImage (name ptr : ℕ) : File :=
  PeFields.file
    { sizeOfImage := 0x3000
      baseReloc := (0x2000, 12)
      sections := [⟨nameText, 16, 0x1000, 8, 328, 0x60000020⟩,
        ⟨name, 12, 0x2000, 24, ptr, 0x42000040⟩]
      body := [(ptr, 4, 0x1000), (ptr + 4, 4, 12), (ptr + 8, 2, 0x3000)] }
    (ptr + 24)

def secondTable (f : File) : RelocTable :=
  RelocTable.of f (f.context 64) (f.row (f.context 64) 1) 0x100000

structure HasFixup (f : File) : Prop where
  directory : f.dirSize (f.context 64).relocDir ≠ 0
  rows : ∀ j < (f.context 64).numberOfSections,
    (f.row (f.context 64) j).virtualAddress = f.dirVirtualAddress (f.context 64).relocDir → j = 1
  start : (secondTable f).start < (secondTable f).last
  block : (secondTable f).last ≤
    (secondTable f).start + (secondTable f).sizeOfBlock (secondTable f).start
  changes : ((secondTable f).fixups (secondTable f).start
      ((secondTable f).entryCount (secondTable f).start)).foldl (fun m x => x.apply m)
        (copiedImage (insecureEnv false).load f (f.context 64)) 0x1002 ≠
    copiedImage (insecureEnv false).load f (f.context 64) 0x1002

instance (f : File) (c : Context) (buffer : ℕ) : Decidable (WalksDirectory f c buffer) := by
  unfold WalksDirectory
  infer_instance

lemma HasFixup.not_applied {f : File} (h : HasFixup f)
    (hrun : (handleImage (insecureEnv false) f).out.isOk = true)
    (hcheck : checkImage (insecureEnv false) f = .ok (f.context 64))
    (hbase : (f.context 64).imageAddress = 0)
    (hbuffer : imageBuffer (f.context 64) 0x100000 = 0x100000)
    (hwalks : ¬ WalksDirectory f (f.context 64) 0x100000) :
    ∃ image, (handleImage (insecureEnv false) f).Yields image ∧
      image.buffer ≠ (f.context 64).imageAddress ∧
      ¬ DirectoryApplied (insecureEnv false).load f (f.context 64) image.buffer image.img := by
  obtain ⟨image, hload⟩ := exists_yields_of_isOk hrun
  obtain ⟨c, addr, hcheck', halloc, hat⟩ := handleImage_yields hload
  obtain rfl := Except.ok.inj (hcheck.symm.trans hcheck')
  obtain rfl : 0x100000 = addr := Option.some.inj halloc
  rw [hbuffer] at hat
  have hbuf : image.buffer = 0x100000 := (loadAt_yields hat).2.2.2.1
  have hadjust : subW 64 0x100000 (f.context 64).imageAddress ≠ 0 := by
    rw [hbase]
    decide
  have himg := (loadAt_applied hat h.directory hadjust).2 hwalks
  refine ⟨image, hload, by rw [hbuf, hbase]; decide, ?_⟩
  rw [hbuf, himg]
  rintro ⟨j, hj, hrow, happlied⟩
  obtain rfl := h.rows j hj hrow
  have heq := RelocTable.Applied.eq_of_block happlied h.start h.block
  exact h.changes (congrFun heq 0x1002).symm

/-- A table in a section that is not called `.reloc`, and one with raw data at `0x3000`, the size of
the image. -/
theorem handleImage_skips_fixups :
    let env := insecureEnv false
    let f := fixupImage nameData 336
    let g := fixupImage nameReloc 0x3000
    (∃ image, (handleImage env f).Yields image ∧ image.buffer ≠ (f.context 64).imageAddress ∧
      ¬ DirectoryApplied env.load f (f.context 64) image.buffer image.img) ∧
    ∃ image, (handleImage env g).Yields image ∧ image.buffer ≠ (g.context 64).imageAddress ∧
      ¬ DirectoryApplied env.load g (g.context 64) image.buffer image.img := by
  constructor
  · have hfixup : HasFixup (fixupImage nameData 336) := by
      constructor <;> decide +kernel
    exact hfixup.not_applied (by decide +kernel) (by decide +kernel) (by decide +kernel)
      (by decide +kernel) (by decide +kernel)
  · have hfixup : HasFixup (fixupImage nameReloc 0x3000) := by
      constructor <;> decide +kernel
    exact hfixup.not_applied (by decide +kernel) (by decide +kernel) (by decide +kernel)
      (by decide +kernel) (by decide +kernel)

theorem handleImage_relocates_fixupImage :
    let env := insecureEnv false
    let f := fixupImage nameReloc 336
    ∃ image, (handleImage env f).Yields image ∧ image.buffer ≠ (f.context 64).imageAddress ∧
      DirectoryApplied env.load f (f.context 64) image.buffer image.img := by
  intro env f
  have hrun : (handleImage (insecureEnv false)
      (fixupImage nameReloc 336)).out.map LoadedImage.buffer = .ok 0x100000 := by
    decide +kernel
  cases hout : (handleImage (insecureEnv false) (fixupImage nameReloc 336)).out with
  | error stop =>
    rw [hout] at hrun
    cases hrun
  | ok image =>
    rw [hout] at hrun
    have hbuffer : image.buffer = 0x100000 := Except.ok.inj hrun
    have hbase : image.buffer ≠ ((fixupImage nameReloc 336).context 64).imageAddress := by
      rw [hbuffer]
      decide +kernel
    refine ⟨image, hout, hbase, ?_⟩
    refine (handleImage_relocates_iff (by decide +kernel) hout (by decide +kernel) hbase).2
      (.inl ?_)
    rw [hbuffer]
    decide +kernel

end Shim
