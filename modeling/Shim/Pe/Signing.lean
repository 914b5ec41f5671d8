import Shim.Pe.Coverage

/-!
# Signing a file does not change its hash

A file is signed by filling it up with zeros to a multiple of eight bytes, appending a certificate
table and entering the table in `SecDir`; `CheckSum` may change as well. `generate_hash` should see
the same bytes as before: `generateHash_signed_iff` says when it does.
-/

namespace Shim.Pe

open Shim.Lib List File HashInput SectionHeader

variable {f g : File} {c : Context}

/-! ## `generate_hash` up to the end of the sections -/

/-- What `get_section_vma` asks of a row. -/
structure RowVma (c : Context) (s : SectionHeader) : Prop where
  inside : s.has scnMemDiscardable = false →
    s.virtualAddress < c.imageSize ∧ s.lastAddress < c.imageSize
  behind : s.has scnCntUninitializedData = false →
    c.sizeOfHeaders ≤ s.virtualAddress ∧ c.sizeOfHeaders ≤ s.pointerToRawData
  order : s.virtualAddress < c.imageSize →
    s.lastAddress < c.imageSize ∧ s.virtualAddress ≤ s.lastAddress

lemma vmaOk_iff (himage : c.imageSize < 2 ^ 32) {i : ℕ} :
    VmaOk f c i ↔ i < c.numberOfSections ∧ RowVma c (f.row c i) := by
  have hpos := f.addr_pos
  have hfits := f.addr_fits
  have hrow : sectionAt f.mem (c.sectionOffset i) = f.row c i := rfl
  -- the two addresses, with `NULL` for an address outside of the image
  have haddr : ∀ a, imageAddress f.addr c.imageSize a =
      if a < c.imageSize then f.addr + a else 0 := by
    intro a
    unfold imageAddress
    split_ifs <;> omega
  unfold VmaOk getSectionVma
  simp only [reject_bind_eq_ok, hrow, imageAddress_eq_zero_iff f (.inl himage)]
  constructor
  · rintro ⟨_, hi, hbase, hlast, hheaders, horder, -⟩
    rw [haddr, haddr] at horder
    refine ⟨by omega, ⟨fun hdisc => ?_, fun huninit => ?_, fun hin => ?_⟩⟩
    · exact ⟨Nat.lt_of_not_le fun h => hbase ⟨hdisc, h⟩, Nat.lt_of_not_le fun h => hlast ⟨hdisc, h⟩⟩
    · exact ⟨Nat.le_of_not_lt fun h => hheaders ⟨huninit, .inl h⟩,
        Nat.le_of_not_lt fun h => hheaders ⟨huninit, .inr h⟩⟩
    · rw [if_pos hin] at horder
      split_ifs at horder <;> omega
  · rintro ⟨hi, hrowVma⟩
    refine ⟨_, by omega, fun h => ?_, fun h => ?_, fun h => ?_, ?_, rfl⟩
    · have := (hrowVma.inside h.1).1
      omega
    · have := (hrowVma.inside h.1).2
      omega
    · have := hrowVma.behind h.1
      omega
    · have := hrowVma.order
      rw [haddr, haddr]
      split_ifs <;> omega

/-- `generate_hash` gets behind the sections. -/
structure Hashable (f : File) (c : Context) : Prop where
  magic : f.eMagic = imageDosSignature
  secDir_le : c.secDir + 8 ≤ c.sizeOfHeaders
  sum_le : c.sizeOfHeaders + rawSum (f.sections c) ≤ f.datasize
  first_lt : c.numberOfSections = 0 → c.firstSection < f.datasize
  rows : ∀ i < c.numberOfSections, VmaOk f c i
  raw_le : ∀ s ∈ f.sections c, s.sizeOfRawData ≠ 0 →
    s.pointerToRawData + s.sizeOfRawData ≤ f.datasize

lemma hashHeaders_eq (hlay : Layout f c) (hsec : c.secDir + 8 ≤ c.sizeOfHeaders)
    (hle : c.sizeOfHeaders ≤ f.datasize) : hashHeaders f c = .ok (headRanges c) := by
  have hdata := f.datasize_lt
  have hdir := hlay.secDir
  have hcheck : c.checkSum = c.peHdr + 88 := rfl
  unfold hashHeaders
  simp only [checkSize_bind_eq_ok, reject_bind_eq_ok, Nat.mod_eq_of_lt (by omega : c.checkSum < 2 ^ 32),
    subW_of_le (by omega : c.secDir < 2 ^ 32) (by omega : c.checkSum + 4 ≤ c.secDir),
    subW_of_le (by omega : c.sizeOfHeaders < 2 ^ 32) hsec]
  exact ⟨by omega, by omega, by omega, by omega, rfl⟩

lemma refreshSections_eq_ok_iff (hlay : Layout f c) (hmz : f.eMagic = imageDosSignature) :
    refreshSections f c = .ok c ↔ (c.numberOfSections = 0 → c.firstSection < f.datasize) := by
  have hdata := f.datasize_lt
  have hdir := hlay.secDir
  have hle := hlay.secDir_le
  have hpe : f.peOffset = f.eLfanew := if_pos hmz
  have hsections : f.mem.u16 (c.peHdr + 6) = c.numberOfSections := by rw [hlay.context]; rfl
  have hfirst : f.eLfanew + 4 + 20 + f.mem.u16 (c.peHdr + 20) = c.firstSection := by
    have hsize : c.firstSection = f.peOffset + f.mem.u16 (f.peOffset + 20) + 4 + 20 := by
      rw [hlay.context]
      rfl
    rw [hlay.peHdr, hsize, hpe]
    omega
  unfold refreshSections
  split_ifs with hzero
  · rw [hsections, hfirst]
    have hback : subW 64 (c.firstSection + sizeofSectionHeader * c.numberOfSections)
        sizeofSectionHeader = (c.firstSection + 2 ^ 64 - 40) % 2 ^ 64 := by
      rw [hzero]
      unfold sizeofSectionHeader subW
      omega
    simp only [reject_bind_eq_ok, imageAddress_eq_zero_iff f (.inl hdata), hback]
    constructor
    · rintro ⟨hlt, -⟩ -
      omega
    · intro hlt
      have := hlt hzero
      exact ⟨by omega, by omega, rfl⟩
  · exact ⟨fun _ h => absurd h hzero, fun _ => rfl⟩

lemma sortStep_eq {i : ℕ} {st : ℕ × List SectionHeader} (hrow : VmaOk f c i)
    (hsum : c.sizeOfHeaders + (st.1 + (f.row c i).sizeOfRawData) ≤ f.datasize) :
    sortStep f c st i = .ok (st.1 + (f.row c i).sizeOfRawData,
      st.2.insertIdx (insertPos st.2 (f.row c i) st.2.length) (f.row c i)) := by
  have hdata := f.datasize_lt
  obtain ⟨⟨base, size, s⟩, hs⟩ := hrow
  obtain rfl : s = f.row c i := getSectionVma_ok hs
  have hroom : subW 32 (subW 32 f.datasize c.sizeOfHeaders) st.1 =
      f.datasize - c.sizeOfHeaders - st.1 := by
    rw [subW_of_le hdata (by omega)]
    exact subW_of_le (by omega) (by omega)
  have hfits : ¬ subW 32 (subW 32 f.datasize c.sizeOfHeaders) st.1 < (f.row c i).sizeOfRawData := by
    rw [hroom]
    omega
  have hadd : addW 32 st.1 (f.row c i).sizeOfRawData = st.1 + (f.row c i).sizeOfRawData :=
    addW_of_lt (by omega)
  unfold sortStep
  simp only [hs, ok_bind]
  rw [reject_of_not hfits, ok_bind, hadd]
  rfl

lemma sortSections_eq {n : ℕ} (hrows : ∀ i < n, VmaOk f c i)
    (hsum : c.sizeOfHeaders + rawSum ((List.range n).map (f.row c)) ≤ f.datasize) :
    (List.range n).foldlM (sortStep f c) (0, []) =
      .ok (rawSum ((List.range n).map (f.row c)), sortTable ((List.range n).map (f.row c))) := by
  induction n with
  | zero => rfl
  | succ n ih =>
    have hlist : (List.range (n + 1)).map (f.row c) =
        (List.range n).map (f.row c) ++ [f.row c n] := by
      rw [range_succ, map_append, map_singleton]
    have hsucc : ∀ rows, rawSum (rows ++ [f.row c n]) =
        rawSum rows + (f.row c n).sizeOfRawData := by
      intro rows
      simp [rawSum]
    rw [hlist, hsucc] at hsum
    rw [hlist, hsucc, sortTable_concat]
    exact foldlM_range_succ_eq_ok.mpr ⟨_, ih (fun i hi => hrows i (by omega)) (by omega),
      sortStep_eq (hrows n (Nat.lt_succ_self n)) hsum⟩

lemma hashStep_eq {st : ℕ × List (ℕ × ℕ)} {s : SectionHeader}
    (hraw : s.sizeOfRawData ≠ 0 → s.pointerToRawData + s.sizeOfRawData ≤ f.datasize) :
    hashStep f st s = .ok (if s.sizeOfRawData = 0 then st.1 else addW 32 st.1 s.sizeOfRawData,
      st.2 ++ rawRanges [s]) := by
  have hdata := f.datasize_lt
  unfold hashStep checkSize
  split_ifs with hzero
  · simp [rawRanges, hzero]
  have hin := hraw hzero
  rw [reject_of_not (by rw [imageAddress_eq_zero_iff f (.inl hdata)]; omega), ok_bind,
    subW_of_le hdata (by omega), reject_of_not (by omega), ok_bind, reject_of_not (by omega),
    ok_bind, reject_of_not (by omega), ok_bind]
  simp [rawRanges, hzero]
  rfl

lemma hashSections_eq {table : List SectionHeader} {sum₀ : ℕ} {body₀ : List (ℕ × ℕ)}
    (hraw : ∀ s ∈ table, s.sizeOfRawData ≠ 0 → s.pointerToRawData + s.sizeOfRawData ≤ f.datasize) :
    table.foldlM (hashStep f) (sum₀, body₀) =
      .ok (hashedSum table sum₀, body₀ ++ rawRanges table) := by
  induction table generalizing sum₀ body₀ with
  | nil => simp [hashedSum, rawRanges]; rfl
  | cons s table ih =>
    rw [forall_mem_cons] at hraw
    rw [foldlM_cons, hashStep_eq hraw.1, ok_bind, ih hraw.2]
    have hcons : rawRanges (s :: table) = rawRanges [s] ++ rawRanges table := by
      unfold rawRanges
      rw [← map_append, ← filter_append, singleton_append]
    rw [hcons, append_assoc]
    rfl

/-- The ranges of the headers and of the sections. -/
def File.hashedRanges (f : File) (c : Context) : List (ℕ × ℕ) :=
  headRanges c ++ rawRanges (sortTable (f.sections c))

/-- What `generate_hash` does behind the sections. -/
def hashTail (f : File) (c : Context) : Except EfiStatus HashInput := do
  let (sum, toTable) ← hashToTable f c (c.sizeOfHeaders + rawSum (f.sections c))
  let rest ← hashRemaining f c sum
  return ⟨f.hashedRanges c ++ toTable ++ rest.ranges, rest.pad⟩

lemma generateHash_eq (hlay : Layout f c) (h : Hashable f c) : generateHash .ok f c = hashTail f c := by
  have hsum := h.sum_le
  have hpe := hlay.pe_file
  have hle := hlay.pe_le
  unfold generateHash sizeofDosHeader
  rw [reject_of_not (by simp only [h.magic]; omega), ok_bind, reject_of_not (by decide), ok_bind,
    reject_of_not (by decide), ok_bind, hashHeaders_eq hlay h.secDir_le (by omega), ok_bind,
    (refreshSections_eq_ok_iff hlay h.magic).mpr h.first_lt, ok_bind,
    reject_of_not (by decide), ok_bind]
  have hsort : sortSections f c = .ok (rawSum (f.sections c), sortTable (f.sections c)) :=
    sortSections_eq h.rows hsum
  have hsections : hashSections f c (sortTable (f.sections c)) =
      .ok (c.sizeOfHeaders + rawSum (f.sections c), rawRanges (sortTable (f.sections c))) := by
    unfold hashSections
    rw [hashSections_eq fun s hs => h.raw_le s ((sortTable_perm _).mem_iff.mp hs),
      Hashed.tail_start hsum]
    rfl
  simp only [hsort, ok_bind, hsections]
  rfl

lemma hashable_of_generateHash {p : Platform} {mokPolicy : ℕ} {checkSecdir : Bool}
    {r : HashResources} {input : HashInput} (hread : readHeader f p mokPolicy checkSecdir = .ok c)
    (h : generateHash r f c = .ok input) : r = .ok ∧ Layout f c ∧ Hashable f c := by
  obtain ⟨hlay, hhashed⟩ := generateHash_ok hread h
  have hsum := generateHash_sum hread h
  unfold generateHash at h
  simp only [reject_bind_eq_ok] at h
  obtain ⟨-, hcontexts, hdigest, h⟩ := h
  rw [bind_eq_ok] at h
  obtain ⟨_, -, h⟩ := h
  rw [bind_eq_ok] at h
  obtain ⟨c', hc', h⟩ := h
  obtain rfl := refreshSections_ok hlay hhashed.magic hc'
  rw [reject_bind_eq_ok] at h
  obtain ⟨htable, -⟩ := h
  refine ⟨?_, hlay, hhashed.magic, hhashed.secDir_le, hsum,
    (refreshSections_eq_ok_iff hlay hhashed.magic).mp hc', hhashed.rows, hhashed.raw_le⟩
  obtain ⟨contexts, digest, table⟩ := r
  simp only [Bool.not_eq_false] at hcontexts hdigest htable
  rw [hcontexts, hdigest, htable]
  rfl

/-- The size, filled up to a multiple of eight. -/
def File.padded (f : File) : ℕ := (f.datasize + 7) / 8 * 8

lemma alignUp_datasize (h : f.datasize + 7 < 2 ^ 32) : alignUp 32 f.datasize 8 = f.padded := by
  obtain ⟨hge, hlt⟩ := alignUp_bounds (a := 8) h
  obtain ⟨k, hk⟩ : 2 ^ 3 ∣ alignUp 32 f.datasize (2 ^ 3) :=
    dvd_alignUp_pow_two (by omega) (by omega)
  have hk' : alignUp 32 f.datasize 8 = 8 * k := hk
  unfold padded
  omega

lemma hashTail_unsigned (hzero : f.dirSize c.secDir = 0) (hpad : f.datasize + 7 < 2 ^ 32)
    (hsum : c.sizeOfHeaders + rawSum (f.sections c) ≤ f.datasize) :
    hashTail f c = .ok (if c.sizeOfHeaders + rawSum (f.sections c) < f.datasize then
        ⟨f.hashedRanges c ++ [(c.sizeOfHeaders + rawSum (f.sections c),
            f.datasize - (c.sizeOfHeaders + rawSum (f.sections c)))], f.padded - f.datasize⟩
      else ⟨f.hashedRanges c, 0⟩) := by
  have hge : f.datasize ≤ f.padded := by unfold padded; omega
  have hlt : f.padded < 2 ^ 32 := by unfold padded; omega
  unfold hashTail hashToTable hashRemaining
  rw [if_neg (by simp [hzero])]
  simp only [ok_bind, hzero]
  rw [addW_of_lt (by omega), Nat.add_zero]
  split_ifs with hrest
  · rw [subW_of_le (by omega) hsum, bind_assoc, checkSize_bind_eq_ok]
    refine ⟨by omega, ?_⟩
    rw [addW_of_lt (by omega), Nat.add_sub_cancel' hsum, alignUp_datasize hpad, subW_of_le hlt hge]
    simp
    rfl
  · simp

lemma hashTail_table (hne : f.dirSize c.secDir ≠ 0)
    (hend : f.dirVirtualAddress c.secDir + f.dirSize c.secDir = f.datasize)
    (hsum : c.sizeOfHeaders + rawSum (f.sections c) ≤ f.dirVirtualAddress c.secDir) :
    hashTail f c = .ok ⟨f.hashedRanges c ++ [(c.sizeOfHeaders + rawSum (f.sections c),
        f.dirVirtualAddress c.secDir - (c.sizeOfHeaders + rawSum (f.sections c)))], 0⟩ := by
  have hdata := f.datasize_lt
  unfold hashTail
  set start := c.sizeOfHeaders + rawSum (f.sections c)
  have hsize : subW 32 (subW 32 f.datasize (f.dirSize c.secDir)) start =
      f.dirVirtualAddress c.secDir - start := by
    rw [subW_of_le hdata (by omega), subW_of_le (by omega) (by omega)]
    omega
  have htable : hashToTable f c start = .ok (f.dirVirtualAddress c.secDir,
      [(start, f.dirVirtualAddress c.secDir - start)]) := by
    unfold hashToTable
    rw [if_pos ⟨by omega, hne⟩]
    simp only [hsize]
    rw [addW_of_lt (by omega), Nat.add_sub_cancel' hsum,
      reject_of_not (by rw [subW_of_le hdata (by omega)]; omega), ok_bind, checkSize_bind_eq_ok]
    exact ⟨by omega, rfl⟩
  simp only [htable, ok_bind]
  unfold hashRemaining
  rw [addW_of_lt (by omega), if_neg (by omega), ok_bind, append_nil]
  rfl

/-- `read_header` accepts a longer file with the same headers in front of the directories, `CheckSum`
apart, if its certificate table starts in the file. -/
theorem readHeader_grow {p : Platform} {mokPolicy : ℕ} {checkSecdir : Bool}
    (hread : readHeader f p mokPolicy checkSecdir = .ok c)
    (hsize : f.datasize ≤ g.datasize)
    (hagree : ∀ i, i + 32 < c.secDir → ¬ (c.checkSum ≤ i ∧ i < c.checkSum + 4) → f.mem i = g.mem i)
    (hdir : g.dirVirtualAddress c.secDir < g.datasize) :
    readHeader g p mokPolicy checkSecdir = .ok c := by
  have hcontext := context_congr hread hagree
  obtain ⟨rfl, hok⟩ := readHeader_ok hread
  have hsec : (f.context f.peOffset).secDir =
      f.peOffset + 24 + (if imageIs64Bit f f.peOffset then 112 else 96) + 8 * 4 := rfl
  have hcheck : (f.context f.peOffset).checkSum = f.peOffset + 24 + 64 := rfl
  rw [hsec, hcheck] at hagree
  have hload : ∀ off w, off + w ≤ f.peOffset + 88 → g.mem.load off w = f.mem.load off w := by
    intro off w hend
    have hon : f.mem.AgreeOn g.mem (fun i => i < f.peOffset + 88) := by
      intro i hi
      exact hagree i (by split_ifs <;> omega) (by omega)
    exact (hon.load_eq fun i _ hi => by omega).symm
  have hmagic : g.eMagic = f.eMagic := hload 0 2 (by omega)
  have hlfanew : g.eLfanew = f.eLfanew := hload 60 4 (by omega)
  have hoffset : g.peOffset = f.peOffset := by
    unfold peOffset
    rw [hmagic, hlfanew]
  have h16 : ∀ k, k + 2 ≤ 88 → g.mem.u16 (f.peOffset + k) = f.mem.u16 (f.peOffset + k) :=
    fun k hk => hload _ 2 (by omega)
  have h32 : ∀ k, k + 4 ≤ 88 → g.mem.u32 (f.peOffset + k) = f.mem.u32 (f.peOffset + k) :=
    fun k hk => hload _ 4 (by omega)
  have h64 : imageIs64Bit g f.peOffset = imageIs64Bit f f.peOffset := by
    unfold imageIs64Bit
    rw [h16 24 (by decide)]
  have hloadable : imageIsLoadable g p f.peOffset = imageIsLoadable f p f.peOffset := by
    unfold imageIsLoadable
    simp only [h16 4 (by decide), h16 24 (by decide), h64]
  have hsignature : g.mem.u16 f.peOffset = f.mem.u16 f.peOffset := h16 0 (by decide)
  rw [hoffset] at hcontext
  unfold readHeader at hread ⊢
  simp only [reject_bind_eq_ok, hmagic, hlfanew, hoffset, h64, hloadable, hcontext, hsignature,
    h16 20 (by decide), h16 22 (by decide), h32 60 (by decide)] at hread ⊢
  obtain ⟨t₁, t₂, t₃, t₄, t₅, t₆, t₇, t₈, t₉, t₁₀, t₁₁, t₁₂, t₁₃, t₁₄, t₁₅, t₁₆, t₁₇, t₁₈, -, -⟩ := hread
  refine ⟨by omega, ?_, by omega, ?_, t₅, t₆, t₇, t₈, t₉, t₁₀, by omega, by omega, t₁₃, t₁₄, t₁₅,
    by omega, t₁₇, by omega, ?_, rfl⟩
  · rintro ⟨hmz, hbad⟩
    exact t₂ ⟨hmz, by omega⟩
  · rintro ⟨hbit, hbad⟩
    exact t₄ ⟨hbit, by omega⟩
  · rintro ⟨-, hbad⟩
    omega

/-! ## Signing -/

/-- `g` is `f` filled up to a multiple of eight, with a certificate table of `size` bytes appended
and entered in `SecDir`. `CheckSum` and the content of the table are open. -/
structure SignedAs (f : File) (c : Context) (g : File) (size : ℕ) : Prop where
  size_pos : 0 < size
  size_dvd : 8 ∣ size
  datasize : g.datasize = f.padded + size
  table_at : g.dirVirtualAddress c.secDir = f.padded
  table_size : g.dirSize c.secDir = size
  kept : ∀ i < f.datasize, ¬ Skipped c i → g.mem i = f.mem i
  pad : ∀ i, f.datasize ≤ i → i < f.padded → g.mem i = 0

variable {size : ℕ}

lemma File.datasize_le_padded (f : File) : f.datasize ≤ f.padded := by
  unfold padded
  omega

lemma SignedAs.load_eq (h : SignedAs f c g size) {off w : ℕ} (hend : off + w ≤ f.datasize)
    (hskip : ∀ i, off ≤ i → i < off + w → ¬ Skipped c i) : g.mem.load off w = f.mem.load off w := by
  have hon : g.mem.AgreeOn f.mem (fun i => off ≤ i ∧ i < off + w) :=
    fun i hi => h.kept i (by omega) (hskip i hi.1 hi.2)
  exact hon.load_eq fun i hlo hhi => ⟨hlo, hhi⟩

/-- The fields of a row that are hashed or checked are kept. -/
structure SameRow (s t : SectionHeader) : Prop where
  virtualSize : s.virtualSize = t.virtualSize
  virtualAddress : s.virtualAddress = t.virtualAddress
  sizeOfRawData : s.sizeOfRawData = t.sizeOfRawData
  pointerToRawData : s.pointerToRawData = t.pointerToRawData
  characteristics : s.characteristics = t.characteristics ∨ t.characteristics = 0

lemma SameRow.rowVma {s t : SectionHeader} (h : SameRow s t) (ht : RowVma c t) : RowVma c s := by
  have hlast : s.lastAddress = t.lastAddress := by
    unfold lastAddress
    rw [h.virtualAddress, h.virtualSize]
  have hflag : ∀ flag, s.has flag = false → t.has flag = false := by
    intro flag hs
    unfold has at hs ⊢
    rcases h.characteristics with heq | hzero
    · rwa [← heq]
    · simp [hzero]
  constructor
  · intro hdisc
    rw [h.virtualAddress, hlast]
    exact ht.inside (hflag _ hdisc)
  · intro huninit
    rw [h.virtualAddress, h.pointerToRawData]
    exact ht.behind (hflag _ huninit)
  · rw [h.virtualAddress, hlast]
    exact ht.order

lemma RowVma.not_empty_at_zero {s : SectionHeader} (himage : 0 < c.imageSize)
    (hlt : c.imageSize < 2 ^ 32) (h : RowVma c s) : ¬ (s.virtualAddress = 0 ∧ s.virtualSize = 0) := by
  rintro ⟨haddr, hsize⟩
  have hlast := (h.order (by omega)).1
  unfold lastAddress at hlast
  rw [haddr, hsize] at hlast
  have hwrap : subW 32 (addW 32 0 0) 1 = 2 ^ 32 - 1 := by decide
  omega

/-- `SecDir` may be two fields of the first row, which then cannot both have been zero. -/
theorem SignedAs.sameRow (h : SignedAs f c g size) (hlay : Layout f c) (hhash : Hashable f c)
    (himage : c.imageSize < 2 ^ 32)
    (hunsigned : f.dirVirtualAddress c.secDir = 0 ∧ f.dirSize c.secDir = 0)
    (htwo : c.numberOfRvaAndSizes ≠ 2) {i : ℕ} (hi : i < c.numberOfSections) :
    SameRow (g.row c i) (f.row c i) := by
  have hsec := hlay.secDir
  have hfirst := hlay.firstSection
  have hle := hlay.secDir_le
  have htable := hlay.sections_headers
  have hsum := hhash.sum_le
  have hcheck : c.checkSum = c.peHdr + 88 := rfl
  have hrow : c.sectionOffset i = c.firstSection + 40 * i := rfl
  have hend : c.sectionOffset c.numberOfSections = c.firstSection + 40 * c.numberOfSections := rfl
  -- a field that does not meet the eight bytes
  have hfield : ∀ k, k + 4 ≤ 40 →
      (i = 0 → c.firstSection + k + 4 ≤ c.secDir ∨ c.secDir + 8 ≤ c.firstSection + k) →
      g.mem.u32 (c.sectionOffset i + k) = f.mem.u32 (c.sectionOffset i + k) := by
    intro k hk hapart
    refine h.load_eq (by omega) fun j hlo hhi hskip => ?_
    rcases hskip with hskip | hskip <;> rcases Nat.eq_zero_or_pos i with hzero | hpos
    · omega
    · omega
    · have := hapart hzero
      omega
    · omega
  have hthree : i = 0 → c.numberOfRvaAndSizes ≠ 3 := by
    rintro rfl hthree
    have hvma := ((vmaOk_iff himage).mp (hhash.rows 0 hi)).2
    have haddr : c.secDir = c.sectionOffset 0 + 8 := by
      show c.secDir = c.firstSection + 40 * 0 + 8
      omega
    rw [haddr] at hunsigned
    have hhead := hlay.headers_image
    exact hvma.not_empty_at_zero (by omega) himage ⟨hunsigned.2, hunsigned.1⟩
  constructor
  · exact hfield 8 (by decide) fun hzero => by have := hthree hzero; omega
  · exact hfield 12 (by decide) fun hzero => by have := hthree hzero; omega
  · exact hfield 16 (by decide) fun hzero => by omega
  · exact hfield 20 (by decide) fun hzero => by omega
  · by_cases hnone : i = 0 ∧ c.numberOfRvaAndSizes = 0
    · right
      obtain ⟨rfl, hnone⟩ := hnone
      have haddr : c.secDir + 4 = c.sectionOffset 0 + 36 := by
        show c.secDir + 4 = c.firstSection + 40 * 0 + 36
        omega
      have := hunsigned.2
      unfold dirSize at this
      rwa [haddr] at this
    · left
      exact hfield 36 (by decide) fun hzero => by
        have : c.numberOfRvaAndSizes ≠ 0 := fun h => hnone ⟨hzero, h⟩
        omega

/-- The range of the raw data. -/
def SectionHeader.raw (s : SectionHeader) : ℕ × ℕ := (s.pointerToRawData, s.sizeOfRawData)

lemma insertPos_congr {table table' : List SectionHeader} {s s' : SectionHeader}
    (htable : table.map raw = table'.map raw) (hs : s.raw = s'.raw)
    (pos : ℕ) : insertPos table s pos = insertPos table' s' pos := by
  induction pos with
  | zero => rfl
  | succ pos ih =>
    have hpos : (table[pos]?).map raw = (table'[pos]?).map raw := by
      rw [← getElem?_map, ← getElem?_map, htable]
    have hplace : s.pointerToRawData = s'.pointerToRawData := congrArg Prod.fst hs
    unfold insertPos
    cases ht : table[pos]? with
    | none =>
      cases ht' : table'[pos]? with
      | none => rfl
      | some t' => simp [ht, ht'] at hpos
    | some t =>
      cases ht' : table'[pos]? with
      | none => simp [ht, ht'] at hpos
      | some t' =>
        rw [ht, ht', Option.map_some, Option.map_some, Option.some.injEq] at hpos
        have hplace' : t.pointerToRawData = t'.pointerToRawData := congrArg Prod.fst hpos
        simp only [hplace, hplace', ih]

lemma sortTable_map_raw {ss ts : List SectionHeader}
    (h : ss.map raw = ts.map raw) :
    (sortTable ss).map raw = (sortTable ts).map raw := by
  induction ss using reverseRecOn generalizing ts with
  | nil =>
    rw [map_nil, eq_comm, map_eq_nil_iff] at h
    rw [h]
  | append_singleton ss s ih =>
    rcases eq_nil_or_concat' ts with rfl | ⟨ts, t, rfl⟩
    · simp at h
    rw [map_append, map_append] at h
    obtain ⟨hss, hs⟩ := append_inj' h rfl
    have hs : s.raw = t.raw := by simpa using hs
    have htable := ih hss
    have hlength : (sortTable ss).length = (sortTable ts).length := by
      simpa using congrArg List.length htable
    rw [sortTable_concat, sortTable_concat, map_insertIdx, map_insertIdx, htable, hs,
      insertPos_congr htable hs, hlength]

lemma rawRanges_eq (table : List SectionHeader) :
    rawRanges table = (table.map raw).filter fun r => r.2 ≠ 0 := by
  unfold rawRanges
  rw [filter_map]
  rfl

lemma rawSum_eq (table : List SectionHeader) :
    rawSum table = ((table.map raw).map Prod.snd).sum := by
  unfold rawSum
  rw [map_map]
  rfl

/-! ## The two streams -/

lemma length_rangeBytes (m : Mem) (rs : List (ℕ × ℕ)) :
    (rangeBytes m rs).length = (rs.map Prod.snd).sum := by
  simp [rangeBytes, length_flatMap]

lemma sum_rawRanges (table : List SectionHeader) :
    ((rawRanges table).map Prod.snd).sum = rawSum table := by
  induction table with
  | nil => rfl
  | cons s table ih =>
    by_cases hzero : s.sizeOfRawData = 0
    · simpa [rawRanges, rawSum, hzero] using ih
    · simpa [rawRanges, rawSum, hzero] using ih

lemma rangeBytes_append_eq_iff {m n : Mem} {rs : List (ℕ × ℕ)} {x y : List UInt8} :
    rangeBytes m rs ++ x = rangeBytes n rs ++ y ↔
      (∀ r ∈ rs, ∀ i, r.1 ≤ i → i < r.1 + r.2 → m i = n i) ∧ x = y := by
  refine ⟨rangeBytes_append_inj, ?_⟩
  rintro ⟨hagree, rfl⟩
  congr 1
  unfold rangeBytes
  exact flatMap_congr fun r hr =>
    Mem.slice_eq_iff.mpr fun i hi => hagree r hr _ (by omega) (by omega)

/-- What lies behind the sections, filled up to a multiple of eight. -/
def File.paddedTail (f : File) (c : Context) : List UInt8 :=
  f.mem.slice (c.sizeOfHeaders + rawSum (f.sections c))
      (f.datasize - (c.sizeOfHeaders + rawSum (f.sections c))) ++
    List.replicate (f.padded - f.datasize) 0

lemma SignedAs.slice_eq (h : SignedAs f c g size) {start : ℕ} (hle : start ≤ f.datasize)
    (hskip : ∀ i, start ≤ i → ¬ Skipped c i)
    (hstart : start = c.sizeOfHeaders + rawSum (f.sections c)) :
    g.mem.slice start (f.padded - start) = f.paddedTail c := by
  unfold paddedTail
  rw [← hstart]
  have hpad := f.datasize_le_padded
  have hsplit : f.padded - start = (f.datasize - start) + (f.padded - f.datasize) := by omega
  rw [hsplit, Mem.slice_add]
  congr 1
  · exact Mem.slice_eq_iff.mpr fun i hi => h.kept _ (by omega) (hskip _ (by omega))
  · rw [eq_replicate_iff]
    refine ⟨by simp, ?_⟩
    intro b hb
    obtain ⟨i, hi, rfl⟩ := mem_map.mp hb
    have hi := mem_range.mp hi
    exact h.pad _ (by omega) (by omega)

/-- The bytes of the headers and of the raw data are the same iff no section covers a byte of the two
fields that has changed. -/
theorem SignedAs.ranges_agree_iff (h : SignedAs f c g size) (hlay : Layout f c)
    (hhash : Hashable f c) :
    (∀ r ∈ f.hashedRanges c, ∀ i, r.1 ≤ i → i < r.1 + r.2 → g.mem i = f.mem i) ↔
      ∀ i, f.InRaw c i → Skipped c i → g.mem i = f.mem i := by
  have hcheck := hlay.checkSum_le
  have hsec := hhash.secDir_le
  have hsum := hhash.sum_le
  constructor
  · rintro hagree i ⟨s, hs, hlo, hhi⟩ -
    refine hagree (s.pointerToRawData, s.sizeOfRawData) (mem_append_right _ ?_) i hlo hhi
    exact mem_rawRanges.mpr ⟨s, (sortTable_perm _).mem_iff.mpr hs, by omega, rfl⟩
  · intro hraw r hr i hlo hhi
    rcases mem_append.mp hr with hr | hr
    · have hkept : i < f.datasize ∧ ¬ Skipped c i := by
        unfold Skipped
        simp only [headRanges, mem_cons, not_mem_nil, or_false] at hr
        rcases hr with rfl | rfl | rfl <;> simp only at hlo hhi <;> omega
      exact h.kept i hkept.1 hkept.2
    · obtain ⟨s, hs, hne, rfl⟩ := mem_rawRanges.mp hr
      have hmem := (sortTable_perm _).mem_iff.mp hs
      simp only at hlo hhi
      by_cases hskip : Skipped c i
      · exact hraw i ⟨s, hmem, hlo, hhi⟩ hskip
      · have := hhash.raw_le s hmem hne
        exact h.kept i (by omega) hskip

/-- `SecDir` is in no row that is hashed, sections that reach to the end fill a multiple of eight,
and none covers a byte that changes. -/
structure KeepsHash (f : File) (c : Context) (g : File) : Prop where
  rows : c.numberOfRvaAndSizes = 2 → c.numberOfSections = 0
  aligned : c.sizeOfHeaders + rawSum (f.sections c) = f.datasize → 8 ∣ f.datasize
  raw : ∀ i, f.InRaw c i → Skipped c i → g.mem i = f.mem i

lemma stream_unsigned (hzero : f.dirSize c.secDir = 0) (hpad : f.datasize + 7 < 2 ^ 32)
    (hlay : Layout f c) (hhash : Hashable f c) {input : HashInput}
    (h : generateHash .ok f c = .ok input) :
    input.stream f.mem = rangeBytes f.mem (f.hashedRanges c) ++
      if c.sizeOfHeaders + rawSum (f.sections c) < f.datasize then f.paddedTail c else [] := by
  rw [generateHash_eq hlay hhash, hashTail_unsigned hzero hpad hhash.sum_le] at h
  rw [← Except.ok.inj h]
  unfold stream paddedTail
  split_ifs
  · rw [rangeBytes_append, append_assoc]
    simp [rangeBytes]
  · simp

lemma stream_table (hne : f.dirSize c.secDir ≠ 0)
    (hend : f.dirVirtualAddress c.secDir + f.dirSize c.secDir = f.datasize) (hlay : Layout f c)
    (hhash : Hashable f c)
    (hsum : c.sizeOfHeaders + rawSum (f.sections c) ≤ f.dirVirtualAddress c.secDir) :
    ∃ input, generateHash .ok f c = .ok input ∧
      input.stream f.mem = rangeBytes f.mem (f.hashedRanges c) ++
        f.mem.slice (c.sizeOfHeaders + rawSum (f.sections c))
          (f.dirVirtualAddress c.secDir - (c.sizeOfHeaders + rawSum (f.sections c))) := by
  refine ⟨_, (generateHash_eq hlay hhash).trans (hashTail_table hne hend hsum), ?_⟩
  unfold stream
  rw [rangeBytes_append]
  simp [rangeBytes]

lemma Hashed.length_stream {input : HashInput} (h : Hashed f c input) :
    ((headRanges c).map Prod.snd).sum + rawSum (f.sections c) ≤ (input.stream f.mem).length := by
  obtain ⟨tail, hranges, -⟩ := h.ranges
  unfold stream
  rw [length_append, length_rangeBytes, hranges, map_append, map_append,
    sum_append, sum_append, sum_rawRanges, rawSum_perm (sortTable_perm _)]
  omega

/-- With two data directories the first section of the signed file has all of the padded file as its
raw data. -/
theorem SignedAs.rawSum_two (h : SignedAs f c g size) (hlay : Layout f c) (hhash : Hashable f c)
    (hunsigned : f.dirVirtualAddress c.secDir = 0) (htwo : c.numberOfRvaAndSizes = 2)
    (hpos : 0 < c.numberOfSections) :
    rawSum (g.sections c) = f.padded + rawSum (f.sections c) := by
  have hsec := hlay.secDir
  have hfirst := hlay.firstSection
  have hsum := hhash.sum_le
  have htable := hlay.sections_headers
  have hcheck : c.checkSum = c.peHdr + 88 := rfl
  have hend : c.sectionOffset c.numberOfSections = c.firstSection + 40 * c.numberOfSections := rfl
  obtain ⟨n, hn⟩ : ∃ n, c.numberOfSections = n + 1 := ⟨c.numberOfSections - 1, by omega⟩
  have hcons : ∀ q : File, rawSum (q.sections c) = (q.row c 0).sizeOfRawData +
      ((List.range n).map fun i => (q.row c (i + 1)).sizeOfRawData).sum := by
    intro q
    unfold rawSum File.sections
    rw [hn, range_succ_eq_map]
    simp only [map_cons, map_map, sum_cons]
    rfl
  have hsize : ∀ q : File, (q.row c 0).sizeOfRawData = q.dirVirtualAddress c.secDir := by
    intro q
    show q.mem.u32 (c.firstSection + 40 * 0 + 16) = q.mem.u32 c.secDir
    congr 1
    omega
  have hrest : ∀ i ∈ List.range n,
      (g.row c (i + 1)).sizeOfRawData = (f.row c (i + 1)).sizeOfRawData := by
    intro i hi
    have hi := mem_range.mp hi
    have hrow : c.sectionOffset (i + 1) = c.firstSection + 40 * (i + 1) := rfl
    refine h.load_eq (by omega) fun j hlo hhi hskip => ?_
    unfold Skipped at hskip
    omega
  rw [hcons, hcons, hsize, hsize, h.table_at, hunsigned, map_congr_left hrest]
  omega

section

variable {p : Platform} {mokPolicy : ℕ} {checkSecdir : Bool} {r : HashResources} {input : HashInput}

section

variable (h : SignedAs f c g size)
include h

lemma SignedAs.readHeader_eq
    (hread : readHeader f p mokPolicy checkSecdir = .ok c) (hhash : Hashable f c) :
    readHeader g p mokPolicy checkSecdir = .ok c := by
  have hdata := h.datasize
  have hpad := f.datasize_le_padded
  have hpos := h.size_pos
  have hsec := hhash.secDir_le
  have hsum := hhash.sum_le
  refine readHeader_grow hread (by omega) (fun i hi hskip => ?_) (by rw [h.table_at]; omega)
  refine (h.kept i (by omega) fun hbad => ?_).symm
  unfold Skipped at hbad
  omega

lemma SignedAs.hashable (hlay : Layout f c) (hhash : Hashable f c)
    (hrows : ∀ i < c.numberOfSections, SameRow (g.row c i) (f.row c i)) :
    (g.sections c).map raw = (f.sections c).map raw ∧ Hashable g c := by
  have hdata := h.datasize
  have hpad := f.datasize_le_padded
  have hsum := hhash.sum_le
  have hsec := hhash.secDir_le
  have hpe := hlay.pe_le
  have hdir := hlay.secDir
  have hcheck : c.checkSum = c.peHdr + 88 := rfl
  have himage := hlay.imageSize_lt
  have hraw : (g.sections c).map raw = (f.sections c).map raw := by
    unfold File.sections
    rw [map_map, map_map]
    refine map_congr_left fun i hi => ?_
    have hrow := hrows i (mem_range.mp hi)
    exact Prod.ext hrow.pointerToRawData hrow.sizeOfRawData
  refine ⟨hraw, ?_, hsec, ?_, ?_, ?_, ?_⟩
  · have hmagic : g.eMagic = f.eMagic := by
      refine h.load_eq (by omega) fun i hlo hhi hskip => ?_
      unfold Skipped at hskip
      omega
    rw [hmagic]
    exact hhash.magic
  · rw [rawSum_eq, hraw, ← rawSum_eq]
    omega
  · intro hzero
    have := hhash.first_lt hzero
    omega
  · intro i hi
    exact (vmaOk_iff himage).mpr
      ⟨hi, (hrows i hi).rowVma ((vmaOk_iff himage).mp (hhash.rows i hi)).2⟩
  · intro s hs hne
    obtain ⟨i, hi, rfl⟩ := mem_map.mp hs
    have hrow := hrows i (mem_range.mp hi)
    have hmem : f.row c i ∈ f.sections c := mem_map_of_mem hi
    show (g.row c i).pointerToRawData + (g.row c i).sizeOfRawData ≤ g.datasize
    have hne : (g.row c i).sizeOfRawData ≠ 0 := hne
    rw [hrow.sizeOfRawData] at hne
    have := hhash.raw_le _ hmem hne
    rw [hrow.pointerToRawData, hrow.sizeOfRawData]
    omega

section

variable (hread : readHeader f p mokPolicy checkSecdir = .ok c) (hlay : Layout f c)
  (hhash : Hashable f c)
include hread hlay hhash

lemma SignedAs.not_same_two (hinput : generateHash .ok f c = .ok input)
    (hunsigned : f.dirVirtualAddress c.secDir = 0 ∧ f.dirSize c.secDir = 0)
    (htwo : c.numberOfRvaAndSizes = 2) (hpos : 0 < c.numberOfSections) {input' : HashInput}
    (hinput' : generateHash .ok g c = .ok input') : input'.stream g.mem ≠ input.stream f.mem := by
  intro heq
  have hdata := g.datasize_lt
  have hsize := h.datasize
  have hle := f.datasize_le_padded
  have hlt := h.size_pos
  obtain ⟨k, hk⟩ := h.size_dvd
  have hsec := hhash.secDir_le
  have hpe := hlay.pe_file
  have hlong := (generateHash_ok (h.readHeader_eq hread hhash) hinput').2.length_stream
  rw [heq, stream_unsigned hunsigned.2 (by omega) hlay hhash hinput, length_append,
    length_rangeBytes, hashedRanges, map_append, sum_append, sum_rawRanges,
    rawSum_perm (sortTable_perm _), h.rawSum_two hlay hhash hunsigned.1 htwo hpos] at hlong
  split_ifs at hlong
  · simp only [paddedTail, length_append, Mem.length_slice, length_replicate] at hlong
    omega
  · simp only [length_nil] at hlong
    omega

lemma SignedAs.stream_signed (hrows : ∀ i < c.numberOfSections, SameRow (g.row c i) (f.row c i)) :
    ∃ input, generateHash .ok g c = .ok input ∧
      input.stream g.mem = rangeBytes g.mem (f.hashedRanges c) ++ f.paddedTail c := by
  obtain ⟨hraw, hhash'⟩ := h.hashable hlay hhash hrows
  have hlay' := layout_of_readHeader (h.readHeader_eq hread hhash) hhash'.magic
  have hranges : g.hashedRanges c = f.hashedRanges c := by
    unfold hashedRanges
    rw [rawRanges_eq, sortTable_map_raw hraw, ← rawRanges_eq]
  have hsums : rawSum (g.sections c) = rawSum (f.sections c) := by
    rw [rawSum_eq, hraw, ← rawSum_eq]
  have hsize := h.datasize
  have hle := f.datasize_le_padded
  have hpos := h.size_pos
  have hsec := hhash.secDir_le
  have hcheck := hlay.checkSum_le
  have hsum := hhash.sum_le
  obtain ⟨input, hinput, hstream⟩ := stream_table (f := g) (c := c)
    (by rw [h.table_size]; omega) (by rw [h.table_at, h.table_size]; omega) hlay' hhash'
    (by rw [hsums, h.table_at]; omega)
  rw [hranges, hsums, h.table_at, h.slice_eq hsum (fun i hi hskip => by
    unfold Skipped at hskip; omega) rfl] at hstream
  exact ⟨input, hinput, hstream⟩

end

end

lemma tail_eq_iff (hsum : c.sizeOfHeaders + rawSum (f.sections c) ≤ f.datasize) :
    (f.paddedTail c =
        if c.sizeOfHeaders + rawSum (f.sections c) < f.datasize then f.paddedTail c else []) ↔
      (c.sizeOfHeaders + rawSum (f.sections c) = f.datasize → 8 ∣ f.datasize) := by
  have hle := f.datasize_le_padded
  have hpadded : f.padded = f.datasize ↔ 8 ∣ f.datasize := by
    unfold padded
    omega
  split_ifs with hrest
  · exact iff_of_true rfl fun hend => absurd hend hrest.ne
  · have hend : c.sizeOfHeaders + rawSum (f.sections c) = f.datasize := by omega
    rw [paddedTail, hend, Nat.sub_self, Mem.slice_zero, nil_append, replicate_eq_nil_iff, ← hpadded]
    omega

/-- For a file without a certificate table that `read_header` and `generate_hash` accept, and a
signed file made from it: the signed file is accepted and hashed to the same stream iff `KeepsHash`. -/
theorem generateHash_signed_iff (hread : readHeader f p mokPolicy checkSecdir = .ok c)
    (hinput : generateHash r f c = .ok input)
    (hunsigned : f.dirVirtualAddress c.secDir = 0 ∧ f.dirSize c.secDir = 0)
    (hsigned : SignedAs f c g size) :
    (∃ c' input', readHeader g p mokPolicy checkSecdir = .ok c' ∧
        generateHash r g c' = .ok input' ∧ input'.stream g.mem = input.stream f.mem) ↔
      KeepsHash f c g := by
  obtain ⟨rfl, hlay, hhash⟩ := hashable_of_generateHash hread hinput
  have hread' := hsigned.readHeader_eq hread hhash
  by_cases htwo : c.numberOfRvaAndSizes = 2 ∧ 0 < c.numberOfSections
  · constructor
    · rintro ⟨c', input', hc', hinput', heq⟩
      obtain rfl : c' = c := Except.ok.inj (hc'.symm.trans hread')
      exact absurd heq
        (hsigned.not_same_two hread hlay hhash hinput hunsigned htwo.1 htwo.2 hinput')
    · intro hkeeps
      have := hkeeps.rows htwo.1
      omega
  have hrows : ∀ i < c.numberOfSections, SameRow (g.row c i) (f.row c i) := fun i hi =>
    hsigned.sameRow hlay hhash hlay.imageSize_lt hunsigned (fun h => htwo ⟨h, by omega⟩) hi
  obtain ⟨input', hinput', hstream'⟩ := hsigned.stream_signed hread hlay hhash hrows
  have hiff : (∃ c' input', readHeader g p mokPolicy checkSecdir = .ok c' ∧
      generateHash .ok g c' = .ok input' ∧ input'.stream g.mem = input.stream f.mem) ↔
      input'.stream g.mem = input.stream f.mem := by
    constructor
    · rintro ⟨c', input'', hc', hinput'', heq⟩
      obtain rfl : c' = c := Except.ok.inj (hc'.symm.trans hread')
      obtain rfl : input'' = input' := Except.ok.inj (hinput''.symm.trans hinput')
      exact heq
    · intro heq
      exact ⟨c, input', hread', hinput', heq⟩
  have hpad : f.datasize + 7 < 2 ^ 32 := by
    have hdata := g.datasize_lt
    have hsize := hsigned.datasize
    have hle := f.datasize_le_padded
    have hpos := hsigned.size_pos
    obtain ⟨k, hk⟩ := hsigned.size_dvd
    omega
  rw [hiff, hstream', stream_unsigned hunsigned.2 hpad hlay hhash hinput,
    rangeBytes_append_eq_iff, hsigned.ranges_agree_iff hlay hhash, tail_eq_iff hhash.sum_le]
  constructor
  · rintro ⟨hagree, haligned⟩
    exact ⟨fun h => by omega, haligned, hagree⟩
  · rintro ⟨-, haligned, hagree⟩
    exact ⟨hagree, haligned⟩

end

/-! ## A file whose sections reach to its end -/

/-- An image with one section, signed or not. -/
def textImage (raw datasize : ℕ) (security : ℕ × ℕ) (checkSum : ℕ) : File :=
  PeFields.file
    { sizeOfImage := 0x2000
      security := security
      sections := [⟨nameText, 16, 0x1000, raw, 328, 0x60000020⟩]
      body := [(152, 4, checkSum), (328, 4, 0x11223344)] }
    datasize

lemma signedAs_of_fields (hfields : c.checkSum = 152 ∧ c.secDir = 232) (hpos : 0 < size)
    (hdvd : 8 ∣ size) (hdata : g.datasize = f.padded + size)
    (hdir : g.dirVirtualAddress 232 = f.padded ∧ g.dirSize 232 = size)
    (hkept : ∀ i < f.datasize, ¬ ((152 ≤ i ∧ i < 156) ∨ (232 ≤ i ∧ i < 240)) → g.mem i = f.mem i)
    (hpad : ∀ i, f.datasize ≤ i → i < f.padded → g.mem i = 0) : SignedAs f c g size := by
  refine ⟨hpos, hdvd, hdata, ?_, ?_, fun i hi hskip => hkept i hi ?_, hpad⟩
  · rw [hfields.2]
    exact hdir.1
  · rw [hfields.2]
    exact hdir.2
  · unfold Skipped at hskip
    rwa [hfields.1, hfields.2] at hskip

/-- What is hashed of the unsigned file. -/
def textImageInput : HashInput where
  ranges := [(0, 152), (156, 76), (240, 88), (328, 10)]
  pad := 0

/-- What is hashed of the signed one. -/
def signedImageInput : HashInput where
  ranges := textImageInput.ranges ++ [(338, 6)]
  pad := 0

/-- A file of 338 bytes that ends with its only section is hashed without padding, and with six more
bytes when it is signed. -/
theorem generateHash_signed_differs :
    let f := textImage 10 338 (0, 0) 0
    let g := textImage 10 352 (344, 8) 0x1234
    let c := f.context 64
    readHeader f .x64 0 true = .ok c ∧ generateHash .ok f c = .ok textImageInput ∧
      f.dirVirtualAddress c.secDir = 0 ∧ f.dirSize c.secDir = 0 ∧ SignedAs f c g 8 ∧
      readHeader g .x64 0 true = .ok (g.context 64) ∧
      generateHash .ok g (g.context 64) = .ok signedImageInput ∧
      signedImageInput.stream g.mem ≠ textImageInput.stream f.mem := by
  refine ⟨by decide +kernel, by decide +kernel, by decide +kernel, by decide +kernel, ?_,
    by decide +kernel, by decide +kernel, fun h => ?_⟩
  · apply signedAs_of_fields <;> decide +kernel
  · have hlength := congrArg List.length h
    simp [stream, length_rangeBytes, signedImageInput, textImageInput] at hlength

theorem generateHash_signed_textImage :
    let f := textImage 8 338 (0, 0) 0
    let g := textImage 8 352 (344, 8) 0x1234
    ∃ input input', generateHash .ok f (f.context 64) = .ok input ∧
      generateHash .ok g (g.context 64) = .ok input' ∧ g.mem 152 ≠ f.mem 152 ∧
      input'.stream g.mem = input.stream f.mem := by
  intro f g
  have hread : readHeader f .x64 0 true = .ok (f.context 64) := by decide +kernel
  have hread' : readHeader g .x64 0 true = .ok (g.context 64) := by decide +kernel
  obtain ⟨input, hinput⟩ : ∃ input, generateHash .ok f (f.context 64) = .ok input :=
    ⟨⟨[(0, 152), (156, 76), (240, 88), (328, 8), (336, 2)], 6⟩, by decide +kernel⟩
  have hsigned : SignedAs f (f.context 64) g 8 := by
    apply signedAs_of_fields <;> decide +kernel
  have hkeeps : KeepsHash f (f.context 64) g := by
    refine ⟨by decide +kernel, by decide +kernel, ?_⟩
    rintro i ⟨s, hs, hlo, -⟩ hskip
    have hplace : ∀ s ∈ f.sections (f.context 64), 328 ≤ s.pointerToRawData := by decide +kernel
    have hfields : (f.context 64).checkSum = 152 ∧ (f.context 64).secDir = 232 := by decide +kernel
    have := hplace s hs
    unfold Skipped at hskip
    omega
  obtain ⟨c', input', hc', hinput', heq⟩ :=
    (generateHash_signed_iff hread hinput (by decide +kernel) hsigned).mpr hkeeps
  obtain rfl : c' = g.context 64 := Except.ok.inj (hc'.symm.trans hread')
  exact ⟨input, input', hinput, hinput', by decide +kernel, heq⟩

end Shim.Pe
