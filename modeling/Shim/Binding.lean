import Shim.HandleImage
import Shim.Pe.SameStream

/-!
# What the hash of an image binds

Two files that are hashed to the same byte stream are loaded to the same image, outside of the
twelve header bytes that are not hashed, as long as their relocation tables lie in what is hashed.
-/

namespace Shim

open Lib Pe Verify Sbat Run RelocTable

/-! ## Two walks of a relocation table -/

structure Pe.RelocTable.ReadsOnly (t : RelocTable) (P : ℕ → Prop) : Prop where
  blocks : ∀ b, t.Reached b → ∀ i, b ≤ i → i < b + 8 → P i
  entries : ∀ b k, t.EntryReached b k → ∀ i, b + 8 + 2 * k ≤ i → i < b + 8 + 2 * k + 2 → P i

/-- No fixup of the walk has a byte of `D` below a byte that is not in `D`, so that no carry leaves
`D`. -/
def Pe.RelocTable.KeepsIn (t : RelocTable) (D : ℕ → Prop) : Prop :=
  ∀ b k x, t.EntryReached b k → t.entry b k = some (some x) →
    ∀ i j, x.offset ≤ i → i < j → j < x.offset + x.width → D i → D j

section

variable {t t' : RelocTable} {P Q D : ℕ → Prop} {b n : ℕ} {img img' m m' : Mem}

lemma entries_agree (hentry : ∀ k < n, t'.entry b k = t.entry b k)
    (hkeep : ∀ k < n, ∀ x, t.entry b k = some (some x) →
      ∀ i j, x.offset ≤ i → i < j → j < x.offset + x.width → D i → D j)
    (hagree : img.AgreeOn img' (fun i => ¬ D i))
    (hm : ((List.range n).foldlM (t.stepEntry b) img).Yields m)
    (hm' : ((List.range n).foldlM (t'.stepEntry b) img').Yields m') :
    m.AgreeOn m' (fun i => ¬ D i) := by
  induction n generalizing m m' with
  | zero =>
    rw [List.range_zero, List.foldlM_nil, yields_pure] at hm hm'
    rwa [← hm, ← hm']
  | succ n ih =>
    obtain ⟨u, hu, hstep⟩ := yields_foldlM_range_succ.mp hm
    obtain ⟨u', hu', hstep'⟩ := yields_foldlM_range_succ.mp hm'
    have hprev := ih (fun k hk => hentry k (by omega)) (fun k hk => hkeep k (by omega)) hu hu'
    rw [stepEntry_yields] at hstep hstep'
    rw [hentry n (by omega)] at hstep'
    rcases hstep with ⟨hnone, rfl⟩ | ⟨x, hx, rfl⟩
    · rcases hstep' with ⟨-, rfl⟩ | ⟨x, hx, -⟩
      · exact hprev
      · rw [hnone] at hx
        cases hx
    · rcases hstep' with ⟨hnone, -⟩ | ⟨x', hx', rfl⟩
      · rw [hx] at hnone
        cases hnone
      · rw [hx] at hx'
        cases hx'
        refine hprev.store_add _ fun i j h₁ h₂ h₃ hi hj => hi ?_
        exact hkeep n (by omega) x hx j i h₁ h₂ h₃ hj

lemma Pe.RelocTable.walk_agree (hstop : t'.stop = t.stop) (hadjust : t'.adjust = t.adjust)
    (hlive : t.Live) (hlive' : t'.Live) (hsame : ∀ i, P i → Q i → t.mem i = t'.mem i)
    (hreads : t.ReadsOnly P) (hreads' : t'.ReadsOnly Q) (hkeep : t.KeepsIn D)
    (hb : Relation.ReflTransGen t.Next t.start b) (hb' : Relation.ReflTransGen t'.Next t'.start b)
    (hagree : img.AgreeOn img' (fun i => ¬ D i)) (hm : (t.walk n b img).Yields m)
    (hm' : (t'.walk n b img').Yields m') : m.AgreeOn m' (fun i => ¬ D i) := by
  induction n generalizing b img img' with
  | zero =>
    unfold walk at hm hm'
    rw [yields_pure] at hm hm'
    rwa [← hm, ← hm']
  | succ n ih =>
    unfold walk at hm hm'
    rw [hstop] at hm'
    by_cases hlt : b < t.stop
    · rw [if_pos hlt] at hm hm'
      obtain ⟨⟨d, u⟩, hu, hm⟩ := yields_bind.mp hm
      obtain ⟨⟨d', u'⟩, hu', hm'⟩ := yields_bind.mp hm'
      have hreach : t.Reached b := ⟨hlive, hb, hlt⟩
      have hreach' : t'.Reached b := ⟨hlive', hb', hstop ▸ hlt⟩
      have hnext := (stepBlock_yields img hlt).mp ⟨u, hu⟩
      have hnext' := (stepBlock_yields img' (hstop ▸ hlt : b < t'.stop)).mp ⟨u', hu'⟩
      have hheader : t.mem.AgreeOn t'.mem (fun i => b ≤ i ∧ i < b + 8) := fun i hi =>
        hsame i (hreads.blocks b hreach i hi.1 hi.2) (hreads'.blocks b hreach' i hi.1 hi.2)
      have hsize : t'.sizeOfBlock b = t.sizeOfBlock b :=
        (hheader.load_eq fun i h₁ h₂ => ⟨by omega, by omega⟩).symm
      have hva : t'.virtualAddress b = t.virtualAddress b :=
        (hheader.load_eq fun i h₁ h₂ => ⟨by omega, by omega⟩).symm
      have hcount : t'.entryCount b = t.entryCount b := by
        unfold entryCount
        rw [hsize]
      have hentered : ∀ k < t.entryCount b, t.EntryReached b k := fun k hk =>
        ⟨hreach, hnext.sizeOk, hnext.pageOk, hk, fun j hj => hnext.known j (by omega)⟩
      have hentered' : ∀ k < t.entryCount b, t'.EntryReached b k := fun k hk =>
        ⟨hreach', hnext'.sizeOk, hnext'.pageOk, by omega, fun j hj => hnext'.known j (by omega)⟩
      have hentry : ∀ k < t.entryCount b, t'.entry b k = t.entry b k := by
        intro k hk
        have hon : t.mem.AgreeOn t'.mem
            (fun i => b + 8 + 2 * k ≤ i ∧ i < b + 8 + 2 * k + 2) := fun i hi =>
          hsame i (hreads.entries b k (hentered k hk) i hi.1 hi.2)
            (hreads'.entries b k (hentered' k hk) i hi.1 hi.2)
        have hword : t'.word b k = t.word b k := (hon.load_eq fun i h₁ h₂ => ⟨h₁, h₂⟩).symm
        unfold entry
        rw [hadjust, hva, hword]
      have hfold := (stepBlock_yields_iff.mp hu).2.2.1
      have hfold' := (stepBlock_yields_iff.mp hu').2.2.1
      rw [hcount] at hfold'
      have hblock := entries_agree hentry
        (fun k hk x hx => hkeep b k x (hentered k hk) hx) hagree hfold hfold'
      obtain rfl : d' = d := by rw [hnext.eq, hnext'.eq, hsize]
      exact ih (hb.tail hnext) (hb'.tail hnext') hblock hm hm'
    · rw [if_neg hlt] at hm hm'
      rw [yields_pure] at hm hm'
      rwa [← hm, ← hm']

end

section

variable {f g : File} {c : Context} {s : SectionHeader} {data : ℕ} {P Q D : ℕ → Prop}
  {img img' m m' : Mem}

lemma relocateCoff_agree (hs : s.pointerToRawData < 2 ^ 32)
    (hsize : g.dirSize c.relocDir = f.dirSize c.relocDir)
    (hsame : ∀ i, P i → Q i → f.mem i = g.mem i)
    (hreads : (RelocTable.of f c s data).ReadsOnly P)
    (hreads' : (RelocTable.of g c s data).ReadsOnly Q) (hkeep : (RelocTable.of f c s data).KeepsIn D)
    (hagree : img.AgreeOn img' (fun i => ¬ D i)) (hm : (relocateCoff f c s data img).Yields m)
    (hm' : (relocateCoff g c s data img').Yields m') : m.AgreeOn m' (fun i => ¬ D i) := by
  unfold relocateCoff at hm hm'
  set t := RelocTable.of f c s data
  set t' := RelocTable.of g c s data
  have hstop : t.stop < 2 ^ 32 := subW_lt
  have hstart : t.start < 2 ^ 32 := hs
  have hstop' : t'.stop = t.stop := by
    simp only [t', t, RelocTable.of, hsize]
  have hstart' : t'.start = t.start := rfl
  have hadjust' : t'.adjust = t.adjust := rfl
  have hsize' : t'.size = t.size := rfl
  simp only [hstop', hstart', hadjust', hsize', imageAddress_eq_zero_iff f (.inr hstop),
    imageAddress_eq_zero_iff f (.inr hstart), imageAddress_eq_zero_iff g (.inr hstop),
    imageAddress_eq_zero_iff g (.inr hstart)] at hm hm'
  split_ifs at hm hm' with h₁ h₂ h₃
  · rw [yields_pure] at hm hm'
    rwa [← hm, ← hm']
  · exact absurd hm yields_fail
  · rw [yields_pure] at hm hm'
    rwa [← hm, ← hm']
  · rw [not_or] at h₂
    have hlive : t.Live :=
      ⟨fun h => h₂.1 ((imageAddress_eq_zero_iff f (.inr hstart)).mp h),
        fun h => h₂.2 ((imageAddress_eq_zero_iff f (.inr hstop)).mp h), h₃⟩
    have hlive' : t'.Live :=
      ⟨fun h => h₂.1 ((imageAddress_eq_zero_iff g (.inr hstart)).mp h),
        fun h => h₂.2 ((imageAddress_eq_zero_iff g (.inr hstop)).mp (hstop' ▸ h)), h₃⟩
    exact walk_agree hstop' hadjust' hlive hlive' hsame hreads hreads' hkeep .refl
      .refl hagree hm hm'

end

section

variable {f g : File} {c : Context} {input input' : HashInput} {n : ℕ} {img img' : Mem}

lemma copied_agree (h : SameHashed f g c input input') (hn : n ≤ c.numberOfSections)
    (hagree : img.AgreeOn img' (fun i => ¬ Skipped c i)) :
    (copied f c img n).img.AgreeOn (copied g c img' n).img (fun i => ¬ Skipped c i) ∧
      (copied f c img n).reloc = (copied g c img' n).reloc := by
  induction n with
  | zero => exact ⟨hagree, rfl⟩
  | succ n ih =>
    obtain ⟨himg, hreloc⟩ := ih (by omega)
    have hrow := h.rows n (by omega)
    have hraw := h.raw n (by omega)
    constructor
    · rw [copied, copied, ← hrow]
      generalize f.row c n = s at hraw
      unfold CopyState.after
      by_cases hskip : s.skipped = true
      · rw [if_pos hskip, if_pos hskip]
        exact himg
      rw [if_neg hskip, if_neg hskip]
      by_cases hdisc : s.has scnMemDiscardable = true
      · simp only [if_pos hdisc]
        exact himg
      simp only [if_neg hdisc]
      unfold sectionImage
      by_cases huninit : s.has scnCntUninitializedData = true
      · rw [if_pos huninit, if_pos huninit]
        exact himg.fill _ _ _
      · rw [if_neg huninit, if_neg huninit]
        refine (himg.copy fun i hi _ => ?_).fill _ _ _
        exact hraw (by omega) _ (by omega) (by omega)
    · rw [copied, copied, CopyState.after_reloc, CopyState.after_reloc, ← hrow, hreloc]

end

/-! ## The two images -/

def RelocsHashed (env : HandleEnv) (f : File) (c : Context) (input : HashInput) : Prop :=
  ∀ addr, env.load.allocatePages (allocPages c) = some addr →
    ∀ s, RelocatedBy env.load f c (imageBuffer c addr) s →
      (RelocTable.of f c s (imageBuffer c addr)).ReadsOnly input.Covers

def FixupsApart (env : HandleEnv) (f : File) (c : Context) : Prop :=
  ∀ addr, env.load.allocatePages (allocPages c) = some addr →
    ∀ s, RelocatedBy env.load f c (imageBuffer c addr) s →
      (RelocTable.of f c s (imageBuffer c addr)).KeepsIn (Skipped c)

/-- Two files that are hashed to one stream and loaded at one address are one image, outside of
`CheckSum` and `SecDir`, with one entry point, if the relocation tables are hashed and no fixup lets
a carry out of the two fields. -/
theorem handleImage_binds {env env' : HandleEnv} {f g : File} {c d : Context}
    {r r' : HashResources} {input input' : HashInput} {image image' : LoadedImage}
    (halloc : env.load.allocatePages = env'.load.allocatePages)
    (hpages : env.load.pages = env'.load.pages)
    (hread : readHeader f env.platform env.load.mokPolicy true = .ok c)
    (hread' : readHeader g env'.platform env'.load.mokPolicy true = .ok d)
    (hhash : generateHash r f c = .ok input) (hhash' : generateHash r' g d = .ok input')
    (hstream : input.stream f.mem = input'.stream g.mem)
    (hrun : (handleImage env f).Yields image) (hrun' : (handleImage env' g).Yields image')
    (hrelocs : RelocsHashed env f c input) (hrelocs' : RelocsHashed env' g d input')
    (hapart : FixupsApart env f c) :
    image.img.AgreeOn image'.img (fun i => ¬ Skipped c i) ∧ image.buffer = image'.buffer ∧
      image.entryPoint = image'.entryPoint := by
  obtain ⟨c₁, addr, hcheck, haddr, hload⟩ := handleImage_yields hrun
  obtain ⟨d₁, addr', hcheck', haddr', hload'⟩ := handleImage_yields hrun'
  obtain rfl : c₁ = c := Except.ok.inj ((checkImage_ok hcheck).1.symm.trans hread)
  obtain rfl : d₁ = d := Except.ok.inj ((checkImage_ok hcheck').1.symm.trans hread')
  obtain ⟨hentry, hok, hdirs, hbuffer, hpoint, hstage⟩ := loadAt_yields hload
  obtain ⟨hentry', hok', -, hbuffer', hpoint', hstage'⟩ := loadAt_yields hload'
  obtain ⟨hctx, hsame⟩ := sameHashed_of_stream hread hread' hhash hhash' hstream hdirs
  subst hctx
  obtain rfl : addr = addr' := by
    rw [halloc, haddr'] at haddr
    exact (Option.some.inj haddr).symm
  refine ⟨?_, by rw [hbuffer, hbuffer'], by rw [hpoint, hpoint']⟩
  have hstart : (env.load.pages.copy 0 f.mem 0 d₁.sizeOfHeaders).AgreeOn
      (env'.load.pages.copy 0 g.mem 0 d₁.sizeOfHeaders) (fun i => ¬ Skipped d₁ i) :=
    Mem.AgreeOn.copy (fun i _ => congrFun hpages i) fun i hi hskip =>
      hsame.headers (0 + i) (by omega) hskip
  obtain ⟨hsections, hreloc⟩ := copied_agree hsame le_rfl hstart
  unfold relocateStage at hstage hstage'
  rw [← hreloc, ← hsame.relocDir.2] at hstage'
  cases hrow : (copied f d₁ (env.load.pages.copy 0 f.mem 0 d₁.sizeOfHeaders)
      d₁.numberOfSections).reloc with
  | none =>
    rw [hrow, yields_pure] at hstage hstage'
    rwa [← hstage, ← hstage']
  | some s =>
    rw [hrow] at hstage hstage'
    dsimp only at hstage hstage'
    split_ifs at hstage hstage' with hsize
    · obtain ⟨j, hj, hisReloc, rfl⟩ := copied_reloc_some hrow
      have hrows := hsame.rows j hj
      have hby : RelocatedBy env.load f d₁ (imageBuffer d₁ addr) (f.row d₁ j) :=
        ⟨hentry, hok, hdirs, hsize, j, hj, hisReloc, rfl⟩
      have hby' : RelocatedBy env'.load g d₁ (imageBuffer d₁ addr) (f.row d₁ j) :=
        ⟨hentry, hok', hdirs, hsame.relocDir.2 ▸ hsize, j, hj, hrows ▸ hisReloc, hrows⟩
      exact relocateCoff_agree (f.mem.u32_lt _) hsame.relocDir.2.symm hsame.covered
        (hrelocs addr haddr _ hby) (hrelocs' addr haddr' _ hby') (hapart addr haddr _ hby)
        hsections hstage hstage'
    · rw [yields_pure] at hstage hstage'
      rwa [← hstage, ← hstage']

section

variable {t : RelocTable} {P D : ℕ → Prop} {b : ℕ}

section

variable (hone : t.stop ≤ t.start + t.sizeOfBlock t.start)
include hone

lemma Pe.RelocTable.Reached.eq_start (hb : t.Reached b) : b = t.start := by
  obtain ⟨-, hpath, hlt⟩ := hb
  rcases hpath.cases_head with hstart | ⟨d, hd, hrest⟩
  · exact hstart.symm
  have hend := hd.eq
  rcases hrest.cases_head with rfl | ⟨d', hd', -⟩
  · omega
  · have hlt' := hd'.lt
    omega

lemma Pe.RelocTable.readsOnly_of_block
    (hP : ∀ i, t.start ≤ i → i < t.start + 8 + 2 * t.entryCount t.start → P i) : t.ReadsOnly P := by
  constructor
  · intro b hb i hlo hhi
    rw [hb.eq_start hone] at hlo hhi
    exact hP i hlo (by omega)
  · intro b k hk i hlo hhi
    have hlt := hk.lt
    rw [hk.reached.eq_start hone] at hlo hhi hlt
    exact hP i (by omega) (by omega)

lemma Pe.RelocTable.keepsIn_of_block
    (hD : ∀ i, D i → i < t.virtualAddress t.start) : t.KeepsIn D := by
  intro b k x hk hx i j hlo _ _ hi
  obtain ⟨-, hoff, -⟩ := (relocEntry_eq_fixup _ _ _).mp ⟨x, hx, rfl, rfl⟩
  rw [hk.reached.eq_start hone] at hoff
  have hlt := hD i hi
  omega

end

end

/-! ## A relocation table that reaches into the certificate table -/

def relocImage (raw certData : ℕ) : File :=
  PeFields.file
    { sizeOfImage := 0x3000
      security := (336 + raw, 16)
      baseReloc := (0x2000, 18)
      sections := [⟨nameText, 16, 0x1000, 8, 328, 0x60000020⟩,
        ⟨nameReloc, 18, 0x2000, raw, 336, 0x42000040⟩]
      body := [(336, 4, 0x1000), (340, 4, 18), (336 + raw, 4, 10), (340 + raw, 2, 0x200),
        (342 + raw, 2, 2), (344 + raw, 2, certData), (352, 2, 0x3000)] }
    (352 + raw)

def secureEnv (hash : List UInt8) : HandleEnv :=
  { insecureEnv false with secureMode := true, verify := plainEnv (some (hashDb hash)) [] }

def relocImageInput (raw : ℕ) : HashInput where
  ranges := [(0, 152), (156, 76), (240, 88), (328, 8), (336, raw), (336 + raw, 0)]
  pad := 0

lemma relocImageInput_stream {raw : ℕ} {f g : File}
    (hbytes : ∀ i < 336 + raw, f.mem i = g.mem i) :
    (relocImageInput raw).stream f.mem = (relocImageInput raw).stream g.mem := by
  apply HashInput.stream_congr
  intro r hr i hlo hhi
  apply hbytes
  simp only [relocImageInput, List.mem_cons, List.not_mem_nil, or_false] at hr
  rcases hr with rfl | rfl | rfl | rfl | rfl | rfl <;> simp only at hlo hhi <;> omega

/-- With eight bytes of raw data the last entry of the block lies in the certificate: two verified
files with the same hashed stream are loaded to different images. -/
theorem certTable_decides_image :
    let f := relocImage 8 0x3000
    let g := relocImage 8 0x3004
    let env := secureEnv (f.mem.slice 312 32)
    readHeader f .x64 0 true = .ok (f.context 64) ∧ readHeader g .x64 0 true = .ok (g.context 64) ∧
      generateHash .ok f (f.context 64) = .ok (relocImageInput 8) ∧
      generateHash .ok g (g.context 64) = .ok (relocImageInput 8) ∧
      (relocImageInput 8).stream f.mem = (relocImageInput 8).stream g.mem ∧
      (handleImage env f).out.map (fun image => image.img 0x1002) = .ok 0x10 ∧
      (handleImage env g).out.map (fun image => image.img 0x1002) = .ok 0 ∧
      ¬ Skipped (f.context 64) 0x1002 := by
  refine ⟨by decide +kernel, by decide +kernel, by decide +kernel, by decide +kernel,
    relocImageInput_stream (by decide +kernel), by decide +kernel, by decide +kernel,
    by decide +kernel⟩

structure BlockInRaw (f : File) : Prop where
  sections : (f.context 64).numberOfSections = 2
  text : ¬ (f.row (f.context 64) 0).IsReloc
  start : (f.row (f.context 64) 1).pointerToRawData = 336
  size : f.dirSize (f.context 64).relocDir = 18
  page : f.mem.u32 336 = 0x1000
  block : f.mem.u32 340 = 18
  skipped : (f.context 64).secDir ≤ 232 ∧ (f.context 64).checkSum ≤ 152

lemma BlockInRaw.relocs {env : LoadEnv} {f : File} {buffer : ℕ} {s : SectionHeader}
    (h : BlockInRaw f) (hby : RelocatedBy env f (f.context 64) buffer s) :
    (RelocTable.of f (f.context 64) s buffer).ReadsOnly (relocImageInput 24).Covers ∧
      (RelocTable.of f (f.context 64) s buffer).KeepsIn (Skipped (f.context 64)) := by
  obtain ⟨j, hj, hreloc, rfl⟩ := hby.row
  have hj' : j = 1 := by
    rw [h.sections] at hj
    interval_cases j
    · exact absurd hreloc h.text
    · rfl
  subst hj'
  set t := RelocTable.of f (f.context 64) (f.row (f.context 64) 1) buffer with ht
  have hstart : t.start = 336 := h.start
  have hstop : t.stop = 353 := by
    show subW 32 (addW 32 (f.row (f.context 64) 1).pointerToRawData
      (f.dirSize (f.context 64).relocDir)) 1 = 353
    rw [h.start, h.size]
    decide
  have hblock : t.sizeOfBlock 336 = 18 := h.block
  have hpage : t.virtualAddress 336 = 0x1000 := h.page
  have hone : t.stop ≤ t.start + t.sizeOfBlock t.start := by
    rw [hstop, hstart, hblock]
    decide
  constructor
  · refine readsOnly_of_block hone fun i hlo hhi => ?_
    have hcount : t.entryCount 336 = 5 := by
      unfold entryCount
      rw [hblock]
    rw [hstart] at hlo hhi
    rw [hcount] at hhi
    exact ⟨(336, 24), by simp [relocImageInput], hlo, by omega⟩
  · refine keepsIn_of_block hone fun i hi => ?_
    have hskipped := h.skipped
    rw [hstart, hpage]
    unfold Skipped at hi
    omega

theorem handleImage_binds_relocImage :
    let f := relocImage 24 1
    let g := relocImage 24 2
    let env := secureEnv (f.mem.slice 328 32)
    f.mem 368 ≠ g.mem 368 ∧ ∃ image image', (handleImage env f).Yields image ∧
      (handleImage env g).Yields image' ∧
      image.img.AgreeOn image'.img (fun i => ¬ Skipped (f.context 64) i) ∧
      image.entryPoint = image'.entryPoint := by
  intro f g env
  have hf : BlockInRaw f := by constructor <;> decide +kernel
  have hg : BlockInRaw g := by constructor <;> decide +kernel
  have hrun : (handleImage env f).out.isOk = true := by decide +kernel
  have hrun' : (handleImage env g).out.isOk = true := by decide +kernel
  obtain ⟨image, himage⟩ := exists_yields_of_isOk hrun
  obtain ⟨image', himage'⟩ := exists_yields_of_isOk hrun'
  refine ⟨by decide +kernel, image, image', himage, himage', ?_⟩
  obtain ⟨hagree, -, hentry⟩ := handleImage_binds (f := f) (g := g) (c := f.context 64)
    (d := g.context 64) (r := .ok) rfl rfl (by decide +kernel) (by decide +kernel)
    (by decide +kernel : generateHash .ok f (f.context 64) = .ok (relocImageInput 24))
    (by decide +kernel : generateHash .ok g (g.context 64) = .ok (relocImageInput 24))
    (relocImageInput_stream (by decide +kernel)) himage himage'
    (fun _ _ _ hby => (hf.relocs hby).1) (fun _ _ _ hby => (hg.relocs hby).1)
    (fun _ _ _ hby => (hf.relocs hby).2)
  exact ⟨hagree, hentry⟩

end Shim
