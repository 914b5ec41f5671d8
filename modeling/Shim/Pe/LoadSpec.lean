import Shim.Pe.Load

/-!
# What loading does, row by row

`RowOk` has the tests of the copy loop for one row of the section table and `CopyOk` those for the rows
before one; `CopyState.after` is what a row does to the loop's variables.

* `copyLoop_yields`, `copyLoop_reads` — when the loop gets through, with what, and what it reads.
* `loadAt_reads_inside_iff` — when all that is read lies in the file.
-/

namespace Shim.Pe

open Shim.Lib Run CopyState

section

variable (env : LoadEnv) (f : File) (c : Context) (buffer : ℕ)

/-- The row passes the tests of the copy loop. -/
structure RowOk (s : SectionHeader) : Prop where
  nx : ¬ (s.has scnMemDiscardable = false ∧ s.has scnMemWrite ∧ s.has scnMemExecute ∧
    env.mokPolicy &&& mokPolicyRequireNx ≠ 0)
  order : s.base c buffer ≤ s.last c buffer
  believable : s.name = relocName → Believable f c buffer s
  base : s.has scnMemDiscardable = false → s.base c buffer ≠ 0
  last : s.has scnMemDiscardable = false → s.last c buffer ≠ 0
  behind : s.has scnMemDiscardable = false → s.has scnCntUninitializedData = false →
    c.sizeOfHeaders ≤ s.virtualAddress ∧ c.sizeOfHeaders ≤ s.pointerToRawData

/-- The section is taken for `.reloc`. -/
def SectionHeader.IsReloc (s : SectionHeader) : Prop := s.skipped = false ∧ s.name = relocName

instance (s : SectionHeader) : Decidable s.IsReloc := inferInstanceAs (Decidable (_ ∧ _))

/-- Bytes of the file are copied for the section. -/
structure SectionHeader.IsCopied (s : SectionHeader) : Prop where
  kept : s.skipped = false
  loaded : s.has scnMemDiscardable = false
  initialized : s.has scnCntUninitializedData = false
  size : 0 < min s.virtualSize s.sizeOfRawData

/-- The first `n` rows pass, and at most one of them is `.reloc`. -/
structure CopyOk (n : ℕ) : Prop where
  rows : ∀ j < n, (f.row c j).skipped = false → RowOk env f c buffer (f.row c j)
  reloc : ∀ j < n, ∀ k < n, (f.row c j).IsReloc → (f.row c k).IsReloc → j = k

/-- The image with the section copied into it. -/
def sectionImage (s : SectionHeader) (img : Mem) : Mem :=
  if s.has scnCntUninitializedData then img.fill s.virtualAddress s.virtualSize 0
  else
    (img.copy s.virtualAddress f.mem s.pointerToRawData (min s.virtualSize s.sizeOfRawData)).fill
      (s.virtualAddress + min s.virtualSize s.sizeOfRawData)
      (s.virtualSize - min s.virtualSize s.sizeOfRawData) 0

/-- What a row that passes does to the variables of the loop. -/
def CopyState.after (st : CopyState) (s : SectionHeader) : CopyState :=
  if s.skipped then st
  else
    { img := if s.has scnMemDiscardable then st.img else sectionImage f s st.img
      found :=
        if s.virtualAddress ≤ c.entryPoint ∧ c.entryPoint < s.lastAddress then st.found + 1
        else st.found
      reloc := if s.name = relocName then some s else st.reloc }

/-- The variables behind the first `n` rows. -/
def copied (img : Mem) : ℕ → CopyState
  | 0 => ⟨img, 0, none⟩
  | n + 1 => (copied img n).after f c (f.row c n)

/-- The state behind the copy loop. -/
abbrev allCopied : CopyState :=
  copied f c (env.pages.copy 0 f.mem 0 c.sizeOfHeaders) c.numberOfSections

end

/-! ## One round -/

section

variable {env : LoadEnv} {f : File} {c : Context} {buffer : ℕ} {s : SectionHeader} {st st' : CopyState}
  {img m : Mem} {n i off len : ℕ}

lemma copySection_yields : (copySection f s img).Yields m ↔ m = sectionImage f s img := by
  unfold copySection sectionImage
  by_cases hu : s.has scnCntUninitializedData = true
  · simp [hu, eq_comm]
  rw [if_neg hu, if_neg hu]
  by_cases hsize : 0 < min s.virtualSize s.sizeOfRawData
  · by_cases hrest : min s.virtualSize s.sizeOfRawData < s.virtualSize
    · simp [hsize, hrest, eq_comm]
    · have hzero : s.virtualSize - min s.virtualSize s.sizeOfRawData = 0 := by omega
      simp only [if_pos hsize, if_neg hrest, hzero, Mem.fill_zero]
      simp [eq_comm]
  · have hnone : min s.virtualSize s.sizeOfRawData = 0 := by omega
    simp only [hnone, Mem.copy_zero]
    by_cases hrest : 0 < s.virtualSize
    · simp [hrest, eq_comm]
    · have hzero : s.virtualSize = 0 := by omega
      simp [hzero, eq_comm]

lemma copySection_emits {e : LoadEvent} : (copySection f s img).Emits e ↔
    s.has scnCntUninitializedData = true ∧ e = .access (.write s.virtualAddress s.virtualSize) ∨
    s.has scnCntUninitializedData = false ∧
      (0 < min s.virtualSize s.sizeOfRawData ∧
        (e = .access (.read s.pointerToRawData (min s.virtualSize s.sizeOfRawData)) ∨
          e = .access (.write s.virtualAddress (min s.virtualSize s.sizeOfRawData))) ∨
      min s.virtualSize s.sizeOfRawData < s.virtualSize ∧
        e = .access (.write (s.virtualAddress + min s.virtualSize s.sizeOfRawData)
          (s.virtualSize - min s.virtualSize s.sizeOfRawData))) := by
  unfold copySection
  by_cases hu : s.has scnCntUninitializedData = true
  · simp [hu]
  by_cases hsize : 0 < min s.virtualSize s.sizeOfRawData
  · by_cases hrest : min s.virtualSize s.sizeOfRawData < s.virtualSize
    · simp [hu, hsize, hrest, or_assoc]
    · simp [hu, hsize, hrest]
  · by_cases hrest : min s.virtualSize s.sizeOfRawData < s.virtualSize
    · simp [hu, hsize, hrest]
    · simp [hu, hsize, hrest]

lemma copySection_accesses {e : LoadEvent} (h : (copySection f s img).Emits e) :
    ∃ a, e = .access a := by
  rcases copySection_emits.mp h with ⟨-, rfl⟩ | ⟨-, ⟨-, rfl | rfl⟩ | ⟨-, rfl⟩⟩
  all_goals exact ⟨_, rfl⟩

lemma relocTests_iff :
    (¬ (s.name = relocName ∧ st.reloc.isSome) ∧ ¬ (s.name = relocName ∧ ¬ Believable f c buffer s)) ↔
      (s.name = relocName → st.reloc = none) ∧ (s.name = relocName → Believable f c buffer s) := by
  rw [not_and, not_and, not_not, Bool.not_eq_true, Option.isSome_eq_false_iff,
    Option.isNone_iff_eq_none]

lemma loadedTests_iff (hloaded : s.has scnMemDiscardable = false) :
    (¬ (s.has scnMemDiscardable = false ∧ s.has scnMemWrite ∧ s.has scnMemExecute ∧
        env.mokPolicy &&& mokPolicyRequireNx ≠ 0) ∧
      ¬ s.last c buffer < s.base c buffer ∧
      ¬ (s.name = relocName ∧ st.reloc.isSome) ∧
      ¬ (s.name = relocName ∧ ¬ Believable f c buffer s) ∧
      ¬ s.base c buffer = 0 ∧ ¬ s.last c buffer = 0 ∧
      ¬ (s.has scnCntUninitializedData = false ∧
        (s.virtualAddress < c.sizeOfHeaders ∨ s.pointerToRawData < c.sizeOfHeaders))) ↔
      RowOk env f c buffer s ∧ (s.name = relocName → st.reloc = none) := by
  constructor
  · rintro ⟨hnx, horder, hmany, hreloc, hbase, hlast, hbehind⟩
    obtain ⟨hmany, hreloc⟩ := relocTests_iff.mp ⟨hmany, hreloc⟩
    refine ⟨⟨hnx, by omega, hreloc, fun _ => hbase, fun _ => hlast, fun _ hinit => ?_⟩, hmany⟩
    have hnot : ¬ (s.virtualAddress < c.sizeOfHeaders ∨ s.pointerToRawData < c.sizeOfHeaders) :=
      fun h => hbehind ⟨hinit, h⟩
    omega
  · rintro ⟨hok, hmany⟩
    obtain ⟨hmany, hreloc⟩ := relocTests_iff.mpr ⟨hmany, hok.believable⟩
    refine ⟨hok.nx, Nat.not_lt.mpr hok.order, hmany, hreloc, hok.base hloaded, hok.last hloaded, ?_⟩
    rintro ⟨hinit, h⟩
    have hbehind := hok.behind hloaded hinit
    omega

lemma copyStep_yields : (copyStep env f c buffer st i).Yields st' ↔
      (((f.row c i).skipped = false → RowOk env f c buffer (f.row c i)) ∧
        ((f.row c i).IsReloc → st.reloc = none)) ∧ st' = st.after f c (f.row c i) := by
  unfold copyStep after SectionHeader.IsReloc
  generalize f.row c i = s
  by_cases hskip : s.skipped = true
  · simp [hskip, eq_comm]
  have hkept : s.skipped = false := by simpa using hskip
  by_cases hdisc : s.has scnMemDiscardable = true
  · simp only [if_neg hskip, if_pos hdisc, yields_bind, yields_emit, yields_check,
      yields_pure, true_and, exists_const]
    constructor
    · rintro ⟨hnx, horder, hmany, hreloc, rfl⟩
      obtain ⟨hmany, hreloc⟩ := relocTests_iff.mp ⟨hmany, hreloc⟩
      refine ⟨⟨fun _ => ⟨hnx, by omega, hreloc, ?_, ?_, ?_⟩, fun h => hmany h.2⟩, rfl⟩
      all_goals simp [hdisc]
    · rintro ⟨⟨hok, hmany⟩, rfl⟩
      have hok := hok hkept
      obtain ⟨hmany, hreloc⟩ := relocTests_iff.mpr ⟨fun h => hmany ⟨hkept, h⟩, hok.believable⟩
      exact ⟨hok.nx, Nat.not_lt.mpr hok.order, hmany, hreloc, rfl⟩
  · have hloaded : s.has scnMemDiscardable = false := by simpa using hdisc
    simp only [if_neg hskip, if_neg hdisc, yields_bind, yields_emit, yields_check,
      yields_pure, copySection_yields, true_and, exists_const, exists_eq_left]
    constructor
    · rintro ⟨h₁, h₂, h₃, h₄, h₅, h₆, h₇, rfl⟩
      obtain ⟨hok, hmany⟩ := (loadedTests_iff hloaded).mp ⟨h₁, h₂, h₃, h₄, h₅, h₆, h₇⟩
      exact ⟨⟨fun _ => hok, fun h => hmany h.2⟩, rfl⟩
    · rintro ⟨⟨hok, hmany⟩, rfl⟩
      obtain ⟨h₁, h₂, h₃, h₄, h₅, h₆, h₇⟩ :=
        (loadedTests_iff hloaded).mpr ⟨hok hkept, fun h => hmany ⟨hkept, h⟩⟩
      exact ⟨h₁, h₂, h₃, h₄, h₅, h₆, h₇, rfl⟩

/-- What a round does to the outside: the row is read, and if it passes, it is copied. -/
lemma copyStep_emits {e : LoadEvent} : (copyStep env f c buffer st i).Emits e ↔
    e = .access (.read (c.sectionOffset i) sizeofSectionHeader) ∨
      (f.row c i).skipped = false ∧ (f.row c i).has scnMemDiscardable = false ∧
        (∃ st', (copyStep env f c buffer st i).Yields st') ∧
        (copySection f (f.row c i) st.img).Emits e := by
  simp only [copyStep_yields, exists_eq_right]
  unfold copyStep SectionHeader.IsReloc
  simp only [emits_bind, emits_emit, yields_emit, exists_const, true_and]
  refine or_congr_right ?_
  generalize f.row c i = s
  by_cases hskip : s.skipped = true
  · simp [hskip]
  have hkept : s.skipped = false := by simpa using hskip
  by_cases hdisc : s.has scnMemDiscardable = true
  · simp [hkept, hdisc]
  have hloaded : s.has scnMemDiscardable = false := by simpa using hdisc
  simp only [if_neg hskip, if_neg hdisc, emits_bind, emits_check, yields_check,
    emits_pure, false_or, or_false, and_false, exists_const]
  constructor
  · rintro ⟨h₁, h₂, h₃, h₄, h₅, h₆, h₇, h⟩
    obtain ⟨hok, hmany⟩ := (loadedTests_iff hloaded).mp ⟨h₁, h₂, h₃, h₄, h₅, h₆, h₇⟩
    exact ⟨hkept, hloaded, ⟨fun _ => hok, fun h => hmany h.2⟩, h⟩
  · rintro ⟨-, -, ⟨hok, hmany⟩, h⟩
    obtain ⟨h₁, h₂, h₃, h₄, h₅, h₆, h₇⟩ :=
      (loadedTests_iff hloaded).mpr ⟨hok hkept, fun h => hmany ⟨hkept, h⟩⟩
    exact ⟨h₁, h₂, h₃, h₄, h₅, h₆, h₇, h⟩

lemma copyStep_accesses {e : LoadEvent} (h : (copyStep env f c buffer st i).Emits e) :
    ∃ a, e = .access a := by
  rcases copyStep_emits.mp h with rfl | ⟨-, -, -, h⟩
  · exact ⟨_, rfl⟩
  · exact copySection_accesses h

lemma copyStep_reads : (copyStep env f c buffer st i).Emits (.access (.read off len)) ↔
      (off = c.sectionOffset i ∧ len = sizeofSectionHeader) ∨
        ((f.row c i).IsCopied ∧ (∃ st', (copyStep env f c buffer st i).Yields st') ∧
          off = (f.row c i).pointerToRawData ∧
          len = min (f.row c i).virtualSize (f.row c i).sizeOfRawData) := by
  rw [copyStep_emits, copySection_emits]
  simp only [LoadEvent.access.injEq, Access.read.injEq, reduceCtorEq, and_false, or_false, false_or]
  refine or_congr_right ⟨?_, ?_⟩
  · rintro ⟨hkept, hloaded, hyields, hinit, hsize, hrange⟩
    exact ⟨⟨hkept, hloaded, hinit, hsize⟩, hyields, hrange⟩
  · rintro ⟨hcopied, hyields, hrange⟩
    exact ⟨hcopied.kept, hcopied.loaded, hyields, hcopied.initialized, hcopied.size, hrange⟩

/-! ## The loop -/

lemma CopyState.after_reloc :
    (st.after f c s).reloc = if s.IsReloc then some s else st.reloc := by
  unfold after SectionHeader.IsReloc
  by_cases hskip : s.skipped = true
  · simp [hskip]
  · by_cases hname : s.name = relocName <;> simp [hskip, hname]

lemma copied_reloc_none : (copied f c img n).reloc = none ↔ ∀ j < n, ¬ (f.row c j).IsReloc := by
  induction n with
  | zero => simp [copied]
  | succ n ih =>
    rw [Nat.forall_lt_succ_right, ← ih, copied, after_reloc]
    by_cases hrow : (f.row c n).IsReloc <;> simp [hrow]

lemma copied_reloc_some (h : (copied f c img n).reloc = some s) :
    ∃ j < n, (f.row c j).IsReloc ∧ s = f.row c j := by
  induction n with
  | zero => cases h
  | succ n ih =>
    rw [copied, after_reloc] at h
    by_cases hrow : (f.row c n).IsReloc
    · rw [if_pos hrow] at h
      exact ⟨n, by omega, hrow, (Option.some.inj h).symm⟩
    · rw [if_neg hrow] at h
      obtain ⟨j, hj, hs⟩ := ih h
      exact ⟨j, by omega, hs⟩

lemma copyOk_succ (hok : CopyOk env f c buffer n) : CopyOk env f c buffer (n + 1) ↔
      ((f.row c n).skipped = false → RowOk env f c buffer (f.row c n)) ∧
        ((f.row c n).IsReloc → (copied f c img n).reloc = none) := by
  rw [copied_reloc_none]
  constructor
  · rintro ⟨hrows, hreloc⟩
    refine ⟨hrows n (by omega), fun hn j hj hrow => ?_⟩
    have := hreloc j (by omega) n (by omega) hrow hn
    omega
  · rintro ⟨hrow, hnone⟩
    refine ⟨?_, fun j hj k hk hrowj hrowk => ?_⟩
    · rw [Nat.forall_lt_succ_right]
      exact ⟨hok.rows, hrow⟩
    · rcases Nat.lt_succ_iff_lt_or_eq.mp hj with hj | rfl
      · rcases Nat.lt_succ_iff_lt_or_eq.mp hk with hk | rfl
        · exact hok.reloc j hj k hk hrowj hrowk
        · exact absurd hrowj (hnone hrowk j hj)
      · rcases Nat.lt_succ_iff_lt_or_eq.mp hk with hk | rfl
        · exact absurd hrowk (hnone hrowj k hk)
        · rfl

lemma CopyOk.mono {m : ℕ} (hok : CopyOk env f c buffer n) (hle : m ≤ n) :
    CopyOk env f c buffer m :=
  ⟨fun j hj => hok.rows j (by omega), fun j hj k hk => hok.reloc j (by omega) k (by omega)⟩

lemma copyLoop_yields :
    ((List.range n).foldlM (copyStep env f c buffer) ⟨img, 0, none⟩).Yields st ↔
      CopyOk env f c buffer n ∧ st = copied f c img n := by
  induction n generalizing st with
  | zero =>
    have hok : CopyOk env f c buffer 0 := by
      constructor
      · intro j hj
        omega
      · intro j hj
        omega
    simp only [List.range_zero, List.foldlM_nil, yields_pure, hok, true_and, copied]
    exact eq_comm
  | succ n ih =>
    rw [yields_foldlM_range_succ]
    constructor
    · rintro ⟨u, hu, hstep⟩
      obtain ⟨hok, rfl⟩ := ih.mp hu
      obtain ⟨htests, rfl⟩ := copyStep_yields.mp hstep
      exact ⟨(copyOk_succ hok).mpr htests, rfl⟩
    · rintro ⟨hok, rfl⟩
      have hok' := hok.mono (Nat.le_succ n)
      exact ⟨_, ih.mpr ⟨hok', rfl⟩, copyStep_yields.mpr ⟨(copyOk_succ hok').mp hok, rfl⟩⟩

lemma copyLoop_reads : ((List.range n).foldlM (copyStep env f c buffer) ⟨img, 0, none⟩).Emits
        (.access (.read off len)) ↔
      ∃ i < n, (CopyOk env f c buffer i ∧ off = c.sectionOffset i ∧ len = sizeofSectionHeader) ∨
        (CopyOk env f c buffer (i + 1) ∧ (f.row c i).IsCopied ∧ off = (f.row c i).pointerToRawData ∧
          len = min (f.row c i).virtualSize (f.row c i).sizeOfRawData) := by
  rw [emits_foldlM_range]
  refine exists_congr fun i => and_congr_right fun _ => ?_
  constructor
  · rintro ⟨u, hu, hread⟩
    rcases copyStep_reads.mp hread with hrow | ⟨hcopied, ⟨st', hst'⟩, hrange⟩
    · exact .inl ⟨(copyLoop_yields.mp hu).1, hrow⟩
    · have hnext := yields_foldlM_range_succ.mpr ⟨u, hu, hst'⟩
      exact .inr ⟨(copyLoop_yields.mp hnext).1, hcopied, hrange⟩
  · rintro (⟨hok, hrow⟩ | ⟨hok, hcopied, hrange⟩)
    · exact ⟨_, copyLoop_yields.mpr ⟨hok, rfl⟩, copyStep_reads.mpr (.inl hrow)⟩
    · obtain ⟨u, hu, hstep⟩ := yields_foldlM_range_succ.mp (copyLoop_yields.mpr ⟨hok, rfl⟩)
      exact ⟨u, hu, copyStep_reads.mpr (.inr ⟨hcopied, ⟨_, hstep⟩, hrange⟩)⟩

end

/-! ## The reads -/

/-- What the walk reads lies in the first `size` bytes. -/
def RelocTable.ReadsInside (t : RelocTable) (size : ℕ) : Prop :=
  ∀ b, t.Reached b → b + 8 ≤ size ∧ ∀ k, t.EntryReached b k → b + 8 + 2 * k + 2 ≤ size

lemma relocateCoff_reads_inside_iff {f : File} {c : Context} {s : SectionHeader} {data size : ℕ}
    (img : Mem) :
    (∀ off len, (relocateCoff f c s data img).Emits (.read off len) → off + len ≤ size) ↔
      (RelocTable.of f c s data).ReadsInside size := by
  constructor
  · intro h b hb
    refine ⟨h (b + 4) 4 (relocateCoff_reads_iff.mpr ⟨b, hb, .inl ⟨rfl, rfl⟩⟩), fun k hk => ?_⟩
    exact h _ 2 (relocateCoff_reads_iff.mpr ⟨b, hb, .inr (.inr ⟨k, hk, rfl, rfl⟩)⟩)
  · intro h off len hread
    obtain ⟨b, hb, hrange⟩ := relocateCoff_reads_iff.mp hread
    have hblock := (h b hb).1
    rcases hrange with ⟨rfl, rfl⟩ | ⟨-, rfl, rfl⟩ | ⟨k, hk, rfl, rfl⟩
    · omega
    · omega
    · exact (h b hb).2 k hk

section

variable (env : LoadEnv) (f : File) (c : Context) (buffer : ℕ)

/-- `handle_image` gets to `relocate_coff`, with the section `s`. -/
structure RelocatedBy (s : SectionHeader) : Prop where
  entryPoint : imageAddress buffer c.imageSize c.entryPoint ≠ 0
  rows : CopyOk env f c buffer c.numberOfSections
  directories : 5 < c.numberOfRvaAndSizes
  size : f.dirSize c.relocDir ≠ 0
  row : ∃ j < c.numberOfSections, (f.row c j).IsReloc ∧ s = f.row c j

/-- What has to lie in the file: the headers, the raw data of the sections that are copied, and the
part of the relocation table that is walked. -/
structure LoadReadsInside : Prop where
  headers : c.sizeOfHeaders ≤ f.datasize
  sections : imageAddress buffer c.imageSize c.entryPoint ≠ 0 → ∀ i < c.numberOfSections,
    CopyOk env f c buffer (i + 1) → (f.row c i).IsCopied →
      (f.row c i).pointerToRawData + min (f.row c i).virtualSize (f.row c i).sizeOfRawData ≤
        f.datasize
  relocs : ∀ s, RelocatedBy env f c buffer s → (RelocTable.of f c s buffer).ReadsInside f.datasize

variable {env f c buffer} {off len : ℕ}

section

variable {st : CopyState} {img : Mem} {e : LoadEvent}

lemma prepareStage_yields :
    (prepareStage env f c buffer).Yields (st, img) ↔
      imageAddress buffer c.imageSize c.entryPoint ≠ 0 ∧
        CopyOk env f c buffer c.numberOfSections ∧ 5 < c.numberOfRvaAndSizes ∧
        st = allCopied env f c ∧ (relocateStage f c buffer st).Yields img := by
  unfold prepareStage
  simp only [yields_bind, yields_emit, yields_check, exists_const, true_and,
    copyLoop_yields, yields_pure, Prod.mk.injEq]
  constructor
  · rintro ⟨hentry, st', ⟨hok, rfl⟩, hdirs, img', himg, rfl, rfl⟩
    exact ⟨hentry, hok, Nat.not_le.mp hdirs, rfl, himg⟩
  · rintro ⟨hentry, hok, hdirs, rfl, himg⟩
    exact ⟨hentry, _, ⟨hok, rfl⟩, Nat.not_le.mpr hdirs, img, himg, rfl, rfl⟩

lemma relocateStage_accesses (h : (relocateStage f c buffer st).Emits e) : ∃ a, e = .access a := by
  unfold relocateStage at h
  split at h
  · split at h
    · obtain ⟨a, -, rfl⟩ := emits_via.mp h
      exact ⟨a, rfl⟩
    · exact absurd h emits_pure
  · exact absurd h emits_pure

/-- What a round of the attribute loop does to the outside. -/
lemma attrStep_emits {u : Unit} {i : ℕ} :
    (attrStep env f c buffer u i).Emits e ↔
      e = .access (.read (c.sectionOffset i) sizeofSectionHeader) ∨ (f.row c i).skipped = false ∧
        (e = .updateMemAttrs ((f.row c i).base c buffer)
            (alignUp 64 (rawLength c buffer (f.row c i)) pageSize) (f.row c i).setAttrs
            (f.row c i).clearAttrs ∨
          (f.row c i).cached env.parentVerified = true ∧
            e = .cacheSection (f.row c i).name ((f.row c i).base c buffer)
              (rawLength c buffer (f.row c i))) := by
  unfold attrStep
  simp only [emits_bind, emits_emit, yields_emit, exists_const, true_and]
  by_cases hskip : (f.row c i).skipped = true
  · simp [hskip]
  · by_cases hcached : (f.row c i).cached env.parentVerified = true
    · simp [hskip, hcached]
    · simp [hskip, hcached]

lemma finishStage_emits (h : (finishStage env f c buffer st img).Emits e) :
    e = .flushCachedSections ∨ ∃ i < c.numberOfSections,
      ((List.range i).foldlM (attrStep env f c buffer) ()).Yields () ∧
        (attrStep env f c buffer () i).Emits e := by
  rcases emits_bind.mp h with h | ⟨_, -, h⟩
  · obtain ⟨i, hi, _, hloop, h⟩ := emits_foldlM_range.mp h
    exact .inr ⟨i, hi, hloop, h⟩
  left
  split_ifs at h
  · simpa using h
  · simpa using h
  · exact absurd h emits_pure

/-- What loading does to the outside, up to the attribute loop. -/
lemma prepareStage_emits : (prepareStage env f c buffer).Emits e ↔
    e = .updateMemAttrs buffer (allocSize c) (memAttrR + memAttrW) memAttrX ∨
    e = .access (.read 0 c.sizeOfHeaders) ∨ e = .access (.write 0 c.sizeOfHeaders) ∨
    imageAddress buffer c.imageSize c.entryPoint ≠ 0 ∧ (e = .access (.read c.relocDir 8) ∨
      ((List.range c.numberOfSections).foldlM (copyStep env f c buffer)
        ⟨env.pages.copy 0 f.mem 0 c.sizeOfHeaders, 0, none⟩).Emits e ∨
      CopyOk env f c buffer c.numberOfSections ∧ 5 < c.numberOfRvaAndSizes ∧
        (relocateStage f c buffer (allCopied env f c)).Emits e) := by
  simp only [prepareStage, emits_bind, emits_emit, yields_emit, emits_check, yields_check,
    emits_pure, exists_const, true_and, false_or, or_false, and_false, copyLoop_yields, and_assoc,
    exists_and_left, exists_eq_left, Nat.not_le, ne_eq]

lemma relocateStage_reads (hok : CopyOk env f c buffer c.numberOfSections) :
    (relocateStage f c buffer (copied f c img c.numberOfSections)).Emits (.access (.read off len)) ↔
      ∃ s, (∃ j < c.numberOfSections, (f.row c j).IsReloc ∧ s = f.row c j) ∧
        f.dirSize c.relocDir ≠ 0 ∧ (relocateCoff f c s buffer
          (copied f c img c.numberOfSections).img).Emits (.read off len) := by
  unfold relocateStage
  cases hreloc : (copied f c img c.numberOfSections).reloc with
  | none =>
    have hnone := copied_reloc_none.mp hreloc
    refine iff_of_false emits_pure ?_
    rintro ⟨s, ⟨j, hj, hrow, -⟩, -⟩
    exact hnone j hj hrow
  | some s =>
    obtain ⟨j, hj, hrow, rfl⟩ := copied_reloc_some hreloc
    dsimp only
    constructor
    · intro h
      split_ifs at h with hsize
      · obtain ⟨r, hr, heq⟩ := emits_via.mp h
        cases heq
        exact ⟨_, ⟨j, hj, hrow, rfl⟩, hsize, hr⟩
      · exact absurd h emits_pure
    · rintro ⟨s, ⟨k, hk, hrow', rfl⟩, hsize, h⟩
      obtain rfl := hok.reloc j hj k hk hrow hrow'
      rw [if_pos hsize]
      exact emits_via.mpr ⟨_, h, rfl⟩

end

/-- The headers, the raw data that is copied and the walked part of the relocation table lie in the
file. -/
theorem loadAt_reads_inside_iff (hdir : c.relocDir + 8 ≤ f.datasize)
    (htable : ∀ i < c.numberOfSections, c.sectionOffset i + sizeofSectionHeader ≤ f.datasize) :
    (∀ off len, (loadAt env f c buffer).Emits (.access (.read off len)) → off + len ≤ f.datasize) ↔
      LoadReadsInside env f c buffer := by
  constructor
  · intro h
    have hprepare : ∀ off len, (prepareStage env f c buffer).Emits (.access (.read off len)) →
        off + len ≤ f.datasize := fun off len hread => h off len (emits_bind.mpr (.inl hread))
    simp only [prepareStage_emits] at hprepare
    constructor
    · have := hprepare 0 c.sizeOfHeaders (.inr (.inl rfl))
      omega
    · intro hentry i hi hok hcopied
      exact hprepare _ _ (.inr (.inr (.inr ⟨hentry, .inr (.inl (copyLoop_reads.mpr
        ⟨i, hi, .inr ⟨hok, hcopied, rfl, rfl⟩⟩))⟩)))
    · intro s hs
      refine (relocateCoff_reads_inside_iff (allCopied env f c).img).mp
        fun off len hread => hprepare off len ?_
      exact .inr (.inr (.inr ⟨hs.entryPoint, .inr (.inr ⟨hs.rows, hs.directories,
        (relocateStage_reads hs.rows).mpr ⟨s, hs.row, hs.size, hread⟩⟩)⟩))
  · rintro ⟨hheaders, hsections, hrelocs⟩ off len h
    rcases emits_bind.mp h with h | ⟨p, -, h⟩
    · rcases prepareStage_emits.mp h with
        h | h | h | ⟨hentry, h | hcopy | ⟨hok, hdirs, hreloc⟩⟩
      · cases h
      · cases h
        omega
      · cases h
      · cases h
        exact hdir
      · obtain ⟨i, hi, ⟨-, rfl, rfl⟩ | ⟨hok, hcopied, rfl, rfl⟩⟩ := copyLoop_reads.mp hcopy
        · exact htable i hi
        · exact hsections hentry i hi hok hcopied
      · obtain ⟨s, hrow, hsize, hread⟩ := (relocateStage_reads hok).mp hreloc
        exact (relocateCoff_reads_inside_iff _).mpr
          (hrelocs s ⟨hentry, hok, hdirs, hsize, hrow⟩) off len hread
    · rcases finishStage_emits h with h | ⟨i, hi, -, h⟩
      · cases h
      · simp only [attrStep_emits, LoadEvent.access.injEq, Access.read.injEq, reduceCtorEq,
          and_false, or_false] at h
        obtain ⟨rfl, rfl⟩ := h
        exact htable i hi

end

section

variable {env : LoadEnv} {f : File} {c : Context} {buffer : ℕ} {st : CopyState} {img : Mem}
  {image : LoadedImage}

lemma finishStage_yields (h : (finishStage env f c buffer st img).Yields image) :
    image = ⟨buffer, img, imageAddress buffer c.imageSize c.entryPoint⟩ := by
  unfold finishStage at h
  rw [yields_bind] at h
  obtain ⟨_, -, h⟩ := h
  split_ifs at h
  · simp at h
  · simp at h
  · exact (yields_pure.mp h).symm

lemma loadAt_yields (h : (loadAt env f c buffer).Yields image) :
    imageAddress buffer c.imageSize c.entryPoint ≠ 0 ∧
      CopyOk env f c buffer c.numberOfSections ∧ 5 < c.numberOfRvaAndSizes ∧
      image.buffer = buffer ∧ image.entryPoint = imageAddress buffer c.imageSize c.entryPoint ∧
      (relocateStage f c buffer (allCopied env f c)).Yields image.img := by
  obtain ⟨⟨st, img⟩, hprepare, hfinish⟩ := yields_bind.mp h
  obtain ⟨hentry, hok, hdirs, rfl, himg⟩ := prepareStage_yields.mp hprepare
  obtain rfl := finishStage_yields hfinish
  exact ⟨hentry, hok, hdirs, rfl, rfl, himg⟩

end

end Shim.Pe
