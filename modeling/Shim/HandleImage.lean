import Shim.Pe.LoadSpec
import Shim.Sbat.Section
import Shim.Verify.Verdict

/-!
# `handle_image`

`checkImage env f` is `handle_image` up to the allocation: the header is read, the image is verified
in secure mode, and hashed and measured unless its parent has been. `handleImage env f` goes on to
load what is admitted.
-/

namespace Shim

open Lib Pe Verify Sbat Run

inductive Stop where
  | status (s : EfiStatus)
  | fault (x : Fault)
  deriving DecidableEq

/-- What `handle_image` depends on besides the file. `parent_verified` and `mok_policy` are in
`load`. -/
structure HandleEnv where
  platform : Platform
  secureMode : Bool
  verify : VerifyEnv
  sbat : SbatEnv
  sbatVar : List VarEntry
  resources : HashResources
  /-- What `tpm_log_pe` returns; `EFI_SUCCESS` in a build without `REQUIRE_TPM`. -/
  tpmLogPe : EfiStatus
  load : LoadEnv

def verifyBuffer (env : HandleEnv) (f : File) (c : Context) (parentVerified : Bool) :
    Except Fault EfiStatus := do
  let status ← verifyBufferAuthenticode env.verify f c parentVerified
  if status ≠ .success then return status
  else return verifyBufferSbat env.sbat env.sbatVar f c

def verifyStage (env : HandleEnv) (f : File) (c : Context) : Except Stop Unit :=
  if env.secureMode then do
    let status ← (verifyBuffer env f c env.load.parentVerified).mapError .fault
    reject (status ≠ .success) (.status status)
  else .ok ()

def measureStage (env : HandleEnv) (f : File) (c : Context) : Except Stop Unit :=
  if env.load.parentVerified then .ok ()
  else do
    let _ ← (generateHash env.resources f c).mapError .status
    reject (env.tpmLogPe ≠ .success) (.status env.tpmLogPe)

def checkImage (env : HandleEnv) (f : File) : Except Stop Context := do
  let c ← (readHeader f env.platform env.load.mokPolicy true).mapError .status
  verifyStage env f c
  measureStage env f c
  return c

def handleImage (env : HandleEnv) (f : File) : Run LoadEvent Stop LoadedImage := do
  let c ← .lift (checkImage env f)
  (loadImage env.load f c).mapError .status

variable {env : HandleEnv} {f : File} {c : Context}

lemma verifyBuffer_authenticode {parentVerified : Bool}
    (h : verifyBuffer env f c parentVerified = .ok .success) :
    verifyBufferAuthenticode env.verify f c parentVerified = .ok .success := by
  unfold verifyBuffer at h
  rw [bind_eq_ok] at h
  obtain ⟨status, hstatus, h⟩ := h
  by_cases hbad : status ≠ .success
  · rw [if_pos hbad] at h
    exact absurd (Except.ok.inj h) hbad
  · rwa [not_not.mp hbad] at hstatus

section

variable (h : checkImage env f = .ok c)
include h

lemma checkImage_ok : readHeader f env.platform env.load.mokPolicy true = .ok c ∧
      (env.secureMode = true ∨ env.load.parentVerified = false →
        ∃ r input, generateHash r f c = .ok input) := by
  unfold checkImage at h
  rw [bind_eq_ok] at h
  obtain ⟨c', hread, h⟩ := h
  rw [bind_eq_ok] at h
  obtain ⟨_, hverify, h⟩ := h
  rw [bind_eq_ok] at h
  obtain ⟨_, hmeasure, h⟩ := h
  cases h
  refine ⟨mapError_eq_ok.mp hread, ?_⟩
  rintro (hsecure | hparent)
  · unfold verifyStage at hverify
    rw [if_pos hsecure, bind_eq_ok] at hverify
    obtain ⟨status, hstatus, hsuccess⟩ := hverify
    have hgood : status = .success := by
      by_contra hbad
      rw [reject, if_pos hbad] at hsuccess
      cases hsuccess
    rw [mapError_eq_ok, hgood] at hstatus
    exact ⟨_, (verifyBufferAuthenticode_hashed (verifyBuffer_authenticode hstatus)).2⟩
  · unfold measureStage at hmeasure
    rw [if_neg (by simp [hparent]), bind_eq_ok] at hmeasure
    obtain ⟨input, hinput, -⟩ := hmeasure
    exact ⟨_, input, mapError_eq_ok.mp hinput⟩

lemma checkImage_imageSize_lt : c.imageSize < 2 ^ 32 := by
  obtain ⟨rfl, -⟩ := readHeader_ok (checkImage_ok h).1
  exact f.mem.u32_lt _

lemma checkImage_sectionAlignment_lt : c.sectionAlignment < 2 ^ 32 := by
  obtain ⟨rfl, -⟩ := readHeader_ok (checkImage_ok h).1
  exact f.sectionAlignment_lt f.peOffset

end

lemma readHeader_rows_le {p : Platform} {mokPolicy : ℕ} {checkSecdir : Bool}
    (h : readHeader f p mokPolicy checkSecdir = .ok c) :
    c.relocDir + 8 ≤ f.datasize ∧
      ∀ i < c.numberOfSections, c.sectionOffset i + sizeofSectionHeader ≤ f.datasize := by
  obtain ⟨rfl, hok⟩ := readHeader_ok h
  have hpe := hok.pe_le
  have htable := hok.table_file
  have hoff := f.peOffset_le
  constructor
  · show f.peOffset + 24 + (if imageIs64Bit f f.peOffset then 112 else 96) + 8 * 5 + 8 ≤ f.datasize
    split_ifs <;> omega
  · intro i hi
    have hi : i < f.mem.u16 (f.peOffset + 6) := hi
    show f.peOffset + f.mem.u16 (f.peOffset + 20) + 4 + 20 + 40 * i + 40 ≤ f.datasize
    omega

lemma generateHash_inside {p : Platform} {mokPolicy : ℕ} {checkSecdir : Bool} {r : HashResources}
    {input : HashInput} (hread : readHeader f p mokPolicy checkSecdir = .ok c)
    (hhash : generateHash r f c = .ok input) :
    c.sizeOfHeaders ≤ f.datasize ∧ ∀ i < c.numberOfSections, (f.row c i).IsCopied →
      (f.row c i).pointerToRawData + min (f.row c i).virtualSize (f.row c i).sizeOfRawData ≤
        f.datasize := by
  obtain ⟨-, hhashed⟩ := generateHash_ok hread hhash
  refine ⟨hhashed.headers_le, fun i hi hcopied => ?_⟩
  have hsize := hcopied.size
  have hmem : f.row c i ∈ f.sections c := List.mem_map_of_mem (List.mem_range.mpr hi)
  have hraw := hhashed.raw_le _ hmem (by omega)
  omega

/-! ## The reads of the file -/

/-- With secure mode off and a verified parent nothing bounds the headers and the raw data; nothing
ever bounds the relocation table. -/
structure FileHolds (env : HandleEnv) (f : File) (c : Context) (buffer : ℕ) : Prop where
  unhashed : env.secureMode = false → env.load.parentVerified = true →
    c.sizeOfHeaders ≤ f.datasize ∧
      (imageAddress buffer c.imageSize c.entryPoint ≠ 0 → ∀ i < c.numberOfSections,
        CopyOk env.load f c buffer (i + 1) → (f.row c i).IsCopied →
          (f.row c i).pointerToRawData + min (f.row c i).virtualSize (f.row c i).sizeOfRawData ≤
            f.datasize)
  relocs : ∀ s, RelocatedBy env.load f c buffer s →
    (RelocTable.of f c s buffer).ReadsInside f.datasize

lemma loadReadsInside_iff {buffer : ℕ} (h : checkImage env f = .ok c) :
    LoadReadsInside env.load f c buffer ↔ FileHolds env f c buffer := by
  obtain ⟨hread, hhash⟩ := checkImage_ok h
  constructor
  · rintro ⟨hheaders, hsections, hrelocs⟩
    exact ⟨fun _ _ => ⟨hheaders, hsections⟩, hrelocs⟩
  · rintro ⟨hunhashed, hrelocs⟩
    by_cases hskip : env.secureMode = false ∧ env.load.parentVerified = true
    · obtain ⟨hheaders, hsections⟩ := hunhashed hskip.1 hskip.2
      exact ⟨hheaders, hsections, hrelocs⟩
    obtain ⟨r, input, hinput⟩ := hhash (by
      cases hsecure : env.secureMode <;> simp_all)
    obtain ⟨hheaders, hsections⟩ := generateHash_inside hread hinput
    exact ⟨hheaders, fun _ i hi _ hcopied => hsections i hi hcopied, hrelocs⟩

lemma handleImage_emits_of_ne {e : LoadEvent} (hne : ∀ addr pages, e ≠ .freePages addr pages) :
    (handleImage env f).Emits e ↔
      ∃ c addr, checkImage env f = .ok c ∧ env.load.allocatePages (allocPages c) = some addr ∧
        (loadAt env.load f c (imageBuffer c addr)).Emits e := by
  unfold handleImage
  simp only [emits_bind, emits_lift, yields_lift, emits_mapError, false_or]
  refine exists_congr fun c => ?_
  unfold loadImage
  cases halloc : env.load.allocatePages (allocPages c) with
  | none => simp
  | some addr =>
    simp only [emits_onError (hne addr (allocPages c)), Option.some.injEq]
    constructor
    · rintro ⟨hcheck, hemits⟩
      exact ⟨addr, hcheck, rfl, hemits⟩
    · rintro ⟨addr', hcheck, rfl, hemits⟩
      exact ⟨hcheck, hemits⟩

lemma handleImage_emits {a : Access} : (handleImage env f).Emits (.access a) ↔
      ∃ c addr, checkImage env f = .ok c ∧ env.load.allocatePages (allocPages c) = some addr ∧
        (loadAt env.load f c (imageBuffer c addr)).Emits (.access a) := by
  apply handleImage_emits_of_ne
  intro addr pages heq
  cases heq

lemma handleImage_yields {image : LoadedImage} (h : (handleImage env f).Yields image) :
    ∃ c addr, checkImage env f = .ok c ∧ env.load.allocatePages (allocPages c) = some addr ∧
      (loadAt env.load f c (imageBuffer c addr)).Yields image := by
  unfold handleImage at h
  simp only [yields_bind, yields_lift, yields_mapError] at h
  obtain ⟨c, hcheck, h⟩ := h
  unfold loadImage at h
  cases halloc : env.load.allocatePages (allocPages c) with
  | none =>
    rw [halloc] at h
    exact absurd h yields_fail
  | some addr =>
    rw [halloc] at h
    exact ⟨c, addr, hcheck, halloc, yields_onError.mp h⟩

/-- The reads of `handle_image` lie in the file iff it holds what the walk of the relocation table
reads and, with secure mode off and a verified parent, its headers and the raw data that is copied.
-/
theorem handleImage_reads_inside_iff (env : HandleEnv) (f : File) :
    (∀ off len, (handleImage env f).Emits (.access (.read off len)) → off + len ≤ f.datasize) ↔
      ∀ c addr, checkImage env f = .ok c → env.load.allocatePages (allocPages c) = some addr →
        FileHolds env f c (imageBuffer c addr) := by
  constructor
  · intro h c addr hcheck halloc
    obtain ⟨hdir, htable⟩ := readHeader_rows_le (checkImage_ok hcheck).1
    refine (loadReadsInside_iff hcheck).mp ((loadAt_reads_inside_iff hdir htable).mp ?_)
    intro off len hread
    exact h off len (handleImage_emits.mpr ⟨c, addr, hcheck, halloc, hread⟩)
  · intro h off len hread
    obtain ⟨c, addr, hcheck, halloc, hread⟩ := handleImage_emits.mp hread
    obtain ⟨hdir, htable⟩ := readHeader_rows_le (checkImage_ok hcheck).1
    have hinside := (loadReadsInside_iff hcheck).mpr (h c addr hcheck halloc)
    exact (loadAt_reads_inside_iff hdir htable).mpr hinside off len hread

def shortReloc (datasize : ℕ) : File :=
  PeFields.file
    { sizeOfImage := 0x3000
      baseReloc := (0x2000, 10)
      sections := [⟨nameText, 16, 0x1000, 8, 328, 0x60000020⟩,
        ⟨nameReloc, 10, 0x2000, 8, 336, 0x42000040⟩]
      body := [(336, 4, 0x1000), (340, 4, 10)] }
    datasize

def insecureEnv (parentVerified : Bool) : HandleEnv where
  platform := .x64
  secureMode := false
  verify := plainEnv none []
  sbat := loaderEnv
  sbatVar := []
  resources := .ok
  tpmLogPe := .success
  load :=
    { mokPolicy := 0
      parentVerified := parentVerified
      allocatePages := fun _ => some 0x100000
      pages := fun _ => 0
      cacheSection := fun _ => .success }

/-- The walk reads an entry behind the end of a file that has passed all checks; with a verified
parent, the copy of `.text` reads behind the end. -/
theorem handleImage_reads_behind_file :
    (handleImage (insecureEnv false) (shortReloc 344)).Emits (.access (.read 344 2)) ∧
      (handleImage (insecureEnv true) (shortReloc 330)).Emits
        (.access (.read 328 8)) := by
  decide +kernel

/-! ## `shim_verify` -/

/-- The platform while `in_protocol` is set: an `i386` build then lets 64-bit images pass, an `x64`
build with `ALLOW_32BIT_KERNEL_ON_X64` 32-bit ones. -/
def Platform.protocol (p : Platform) (allow32BitKernelOnX64 : Bool) : Platform :=
  { p with
    allow64Bit := p.allow64Bit || p.machineType = 0x014c
    allow32Bit := p.allow32Bit || (p.machineType = 0x8664 && allow32BitKernelOnX64) }

def HandleEnv.protocol (env : HandleEnv) (allow32BitKernelOnX64 : Bool) : HandleEnv :=
  { env with
    platform := env.platform.protocol allow32BitKernelOnX64
    sbat := { env.sbat with inProtocol := true }
    load := { env.load with parentVerified := false } }

/-- The protocol that other loaders verify an image with: it is measured first and not loaded. -/
def shimVerify (env : HandleEnv) (allow32BitKernelOnX64 : Bool) (f : File) : Except Stop Unit := do
  let env := env.protocol allow32BitKernelOnX64
  reject (2 ^ 31 ≤ f.datasize) (.status .invalidParameter)
  let c ← (readHeader f env.platform env.load.mokPolicy true).mapError .status
  measureStage env f c
  verifyStage env f c

lemma checkImage_eq_ok : checkImage env f = .ok c ↔
    readHeader f env.platform env.load.mokPolicy true = .ok c ∧ verifyStage env f c = .ok () ∧
      measureStage env f c = .ok () := by
  unfold checkImage
  simp only [bind_eq_ok, mapError_eq_ok]
  constructor
  · rintro ⟨c', hread, ⟨⟩, hverify, ⟨⟩, hmeasure, hc⟩
    cases hc
    exact ⟨hread, hverify, hmeasure⟩
  · rintro ⟨hread, hverify, hmeasure⟩
    exact ⟨c, hread, (), hverify, (), hmeasure, rfl⟩

variable {kernel32 : Bool}

lemma shimVerify_eq_ok : shimVerify env kernel32 f = .ok () ↔ f.datasize < 2 ^ 31 ∧
    ∃ c, checkImage (env.protocol kernel32) f = .ok c := by
  unfold shimVerify
  rw [reject_bind_eq_ok, not_le]
  simp only [bind_eq_ok, mapError_eq_ok, checkImage_eq_ok]
  refine and_congr_right fun _ => exists_congr fun c => and_congr_right fun _ => ?_
  exact ⟨fun ⟨_, hmeasure, hverify⟩ => ⟨hverify, hmeasure⟩, fun h => ⟨(), h.symm⟩⟩

lemma imageIsLoadable_protocol {p : Platform} {pe : ℕ} (h : imageIsLoadable f p pe = true) :
    imageIsLoadable f (p.protocol kernel32) pe = true := by
  unfold imageIsLoadable at h ⊢
  simp only [Bool.and_eq_true, Bool.or_eq_true, decide_eq_true_eq] at h ⊢
  obtain ⟨⟨hmachine, hmagic⟩, hwidth⟩ := h
  have h64 (h : p.allow64Bit = true) : (p.protocol kernel32).allow64Bit = true := by
    simp [Platform.protocol, h]
  refine ⟨⟨hmachine.imp_right (And.imp_right h64), hmagic⟩, ?_⟩
  split at hwidth <;> rename_i hbits
  · rw [if_pos hbits, h64 hwidth]
  · rw [if_neg hbits]
    simp [Platform.protocol, hwidth]

lemma readHeader_protocol {p : Platform} {mokPolicy : ℕ} :
    readHeader f p mokPolicy true = .ok c ↔
      readHeader f (p.protocol kernel32) mokPolicy true = .ok c ∧
        imageIsLoadable f p f.peOffset = true := by
  -- the platform is only read to tell whether the image is loadable
  have hsame (h : imageIsLoadable f p f.peOffset = true) :
      readHeader f p mokPolicy true = readHeader f (p.protocol kernel32) mokPolicy true := by
    simp only [readHeader, h, imageIsLoadable_protocol h]
  constructor
  · intro h
    have hload := (readHeader_ok h).2.loadable
    exact ⟨hsame hload ▸ h, hload⟩
  · rintro ⟨h, hload⟩
    rw [hsame hload, h]

lemma verifyBuffer_eq_success {parentVerified : Bool} :
    verifyBuffer env f c parentVerified = .ok .success ↔
      verifyBufferAuthenticode env.verify f c parentVerified = .ok .success ∧
        verifyBufferSbat env.sbat env.sbatVar f c = .success := by
  have hrest (h : verifyBufferAuthenticode env.verify f c parentVerified = .ok .success) :
      verifyBuffer env f c parentVerified = .ok (verifyBufferSbat env.sbat env.sbatVar f c) := by
    unfold verifyBuffer
    rw [h, ok_bind, if_neg (not_not.mpr rfl)]
    rfl
  constructor
  · intro h
    have hauth := verifyBuffer_authenticode h
    exact ⟨hauth, Except.ok.inj ((hrest hauth).symm.trans h)⟩
  · rintro ⟨hauth, hsbat⟩
    rw [hrest hauth, hsbat]

lemma verifyStage_eq_ok : verifyStage env f c = .ok () ↔ (env.secureMode = true →
    verifyBuffer env f c env.load.parentVerified = .ok .success) := by
  unfold verifyStage
  by_cases hsecure : env.secureMode = true
  · rw [if_pos hsecure, bind_eq_ok]
    simp only [mapError_eq_ok, hsecure, true_imp_iff]
    constructor
    · rintro ⟨status, hstatus, hsuccess⟩
      by_cases hbad : status ≠ .success
      · rw [reject, if_pos hbad] at hsuccess
        cases hsuccess
      · rwa [not_not.mp hbad] at hstatus
    · intro h
      exact ⟨.success, h, rfl⟩
  · simp [hsecure]

/-- In the protocol a section `.sbat` is not asked for. -/
theorem verifyBufferSbat_protocol (hprotocol : env.sbat.inProtocol = false) :
    verifyBufferSbat env.sbat env.sbatVar f c = .success ↔
      verifyBufferSbat (env.protocol kernel32).sbat env.sbatVar f c = .success ∧
        (env.sbatVar ≠ [] → sbatData f c ≠ .ok none) := by
  unfold verifyBufferSbat
  cases hdata : sbatData f c with
  | error status => simp
  | ok data =>
    cases data with
    | none =>
      by_cases hvar : env.sbatVar = [] <;>
        simp [verifySbatSection, HandleEnv.protocol, hvar, hprotocol]
    | some data =>
      have hsame : verifySbatSection (env.protocol kernel32).sbat env.sbatVar (some data) =
          verifySbatSection env.sbat env.sbatVar (some data) := rfl
      simp [hsame]

lemma checkImage_protocol (hparent : env.load.parentVerified = false)
    (hprotocol : env.sbat.inProtocol = false) :
    checkImage env f = .ok c ↔ checkImage (env.protocol kernel32) f = .ok c ∧
      imageIsLoadable f env.platform f.peOffset = true ∧
      (env.secureMode = true → env.sbatVar ≠ [] → sbatData f c ≠ .ok none) := by
  have hmeasure : measureStage (env.protocol kernel32) f c = measureStage env f c := by
    unfold measureStage
    rw [hparent]
    rfl
  have hverify : verifyStage env f c = .ok () ↔ verifyStage (env.protocol kernel32) f c = .ok () ∧
      (env.secureMode = true → env.sbatVar ≠ [] → sbatData f c ≠ .ok none) := by
    have hmode : (env.protocol kernel32).secureMode = env.secureMode := rfl
    rw [verifyStage_eq_ok, verifyStage_eq_ok, hparent, hmode, ← imp_and]
    refine imp_congr_right fun _ => ?_
    rw [verifyBuffer_eq_success, verifyBufferSbat_protocol hprotocol, ← and_assoc]
    exact and_congr_left fun _ =>
      (@verifyBuffer_eq_success (env.protocol kernel32) f c false).symm
  rw [checkImage_eq_ok, checkImage_eq_ok, hmeasure, hverify]
  exact (and_congr_left fun _ => readHeader_protocol).trans (by tauto)

/-- What `handle_image` admits for an image that no parent has verified, against `shim_verify`. -/
theorem shimVerify_iff (hparent : env.load.parentVerified = false)
    (hprotocol : env.sbat.inProtocol = false) :
    (f.datasize < 2 ^ 31 ∧ ∃ c, checkImage env f = .ok c) ↔
      shimVerify env kernel32 f = .ok () ∧ imageIsLoadable f env.platform f.peOffset = true ∧
        (env.secureMode = true → env.sbatVar ≠ [] → sbatData f (f.context f.peOffset) ≠ .ok none) := by
  rw [shimVerify_eq_ok, and_assoc]
  refine and_congr_right fun _ => ?_
  -- both read the context that the file itself gives
  have hcontext {env : HandleEnv} {c : Context} (h : checkImage env f = .ok c) :
      c = f.context f.peOffset := (readHeader_ok (checkImage_eq_ok.mp h).1).1
  constructor
  · rintro ⟨c, hcheck⟩
    cases hcontext hcheck
    obtain ⟨hshim, hrest⟩ := (checkImage_protocol hparent hprotocol).mp hcheck
    exact ⟨⟨_, hshim⟩, hrest⟩
  · rintro ⟨⟨c, hshim⟩, hrest⟩
    cases hcontext hshim
    exact ⟨_, (checkImage_protocol hparent hprotocol).mpr ⟨hshim, hrest⟩⟩

theorem shimVerify_iff_shortReloc :
    let f := shortReloc 344
    shimVerify (insecureEnv false) true f = .ok () ∧
      ∃ c, checkImage (insecureEnv false) f = .ok c := by
  intro f
  have hverify : shimVerify (insecureEnv false) true f = .ok () := by decide +kernel
  exact ⟨hverify, ((shimVerify_iff rfl rfl).mpr
    ⟨hverify, by decide +kernel, fun h => absurd h (by decide)⟩).2⟩

end Shim
