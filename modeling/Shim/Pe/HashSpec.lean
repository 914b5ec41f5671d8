import Shim.Pe.Hash

/-!
# What `generate_hash` has checked and what it hashes

A file that `generate_hash` accepts has its headers and the raw data of every section inside of the
file, and the digest sees the headers without the twelve bytes of `CheckSum` and of the certificate
table's directory entry, the raw data by its place in the file, and a tail without the certificates.
-/

namespace Shim.Pe

open Shim.Lib List File

variable {f g : File} {c : Context}

lemma checkSize_bind_eq_ok {α : Type} {base size : ℕ} {k : Unit → Except EfiStatus α} {r : α} :
    (checkSize f base size >>= k) = .ok r ↔ base + size ≤ f.datasize ∧ k () = .ok r := by
  unfold checkSize
  rw [bind_assoc, reject_bind_eq_ok]
  constructor
  · rintro ⟨_, h⟩
    unfold reject at h
    split_ifs at h with hsize
    · cases h
    · exact ⟨by omega, h⟩
  · rintro ⟨hsize, h⟩
    refine ⟨by omega, ?_⟩
    rw [reject_of_not (by omega)]
    exact h

structure Layout (f : File) (c : Context) : Prop where
  context : c = f.context f.peOffset
  peHdr : c.peHdr = f.peOffset
  pe_le : 64 ≤ c.peHdr
  pe_file : c.peHdr + 264 ≤ f.datasize
  secDir : c.secDir = c.peHdr + 152 ∨ c.secDir = c.peHdr + 168
  relocDir : c.relocDir = c.secDir + 8
  firstSection : c.firstSection = c.secDir + 8 * c.numberOfRvaAndSizes - 32
  secDir_le : c.secDir ≤ c.firstSection + 32
  sections_headers : c.sectionOffset c.numberOfSections ≤ c.sizeOfHeaders
  headers_image : c.sizeOfHeaders ≤ c.imageSize

lemma layout_of_readHeader {p : Platform} {mokPolicy : ℕ} {checkSecdir : Bool}
    (h : readHeader f p mokPolicy checkSecdir = .ok c) (hmz : f.eMagic = imageDosSignature) :
    Layout f c := by
  obtain ⟨rfl, hok⟩ := readHeader_ok h
  have hlfanew := hok.lfanew hmz
  have hpe : f.peOffset = f.eLfanew := if_pos hmz
  have hopt := hok.optionalHeader
  have htable := hok.table_headers
  set c := f.context f.peOffset
  have hfirst : c.firstSection = f.peOffset + f.mem.u16 (f.peOffset + 20) + 24 := rfl
  have hsec : c.secDir =
      f.peOffset + 24 + (if imageIs64Bit f f.peOffset then 112 else 96) + 32 := rfl
  have hrel : c.relocDir =
      f.peOffset + 24 + (if imageIs64Bit f f.peOffset then 112 else 96) + 40 := rfl
  have hrva : c.numberOfRvaAndSizes = f.numberOfRvaAndSizes f.peOffset := rfl
  have hhdr : c.peHdr = f.peOffset := rfl
  have hsections : c.sectionOffset c.numberOfSections = c.firstSection + 40 * f.mem.u16 (f.peOffset + 6) := rfl
  have hsize : c.sizeOfHeaders = f.mem.u32 (f.peOffset + 84) := rfl
  unfold sizeofDosHeader at hlfanew
  constructor
  · rfl
  · exact hhdr
  · omega
  · rw [hhdr]
    exact hok.pe_le
  · rw [hsec, hhdr]
    split_ifs <;> omega
  · omega
  · rw [hfirst, hsec, hrva, hopt]
    omega
  · rw [hfirst, hsec, hopt]
    omega
  · rw [hsections, hfirst, hsize]
    omega
  · exact hok.headers_image

lemma Layout.imageSize_lt (h : Layout f c) : c.imageSize < 2 ^ 32 := by
  rw [h.context]
  exact f.mem.u32_lt _

def headRanges (c : Context) : List (ℕ × ℕ) :=
  [(0, c.checkSum), (c.checkSum + 4, c.secDir - (c.checkSum + 4)),
    (c.secDir + 8, c.sizeOfHeaders - (c.secDir + 8))]

lemma hashHeaders_ok (hlay : Layout f c) {head : List (ℕ × ℕ)} (h : hashHeaders f c = .ok head) :
    c.secDir + 8 ≤ c.sizeOfHeaders ∧ c.sizeOfHeaders ≤ f.datasize ∧ head = headRanges c := by
  have hdata := f.datasize_lt
  have hpe := hlay.pe_file
  have hsec := hlay.secDir
  have hfirst := hlay.secDir_le
  have htable : c.firstSection ≤ c.sizeOfHeaders := by
    have := hlay.sections_headers
    unfold Context.sectionOffset at this
    omega
  have hsize : c.sizeOfHeaders < 2 ^ 32 := by
    rw [hlay.context]
    exact f.mem.u32_lt _
  have hcheck : c.checkSum = c.peHdr + 88 := rfl
  have h₁ : c.checkSum % 2 ^ 32 = c.checkSum := Nat.mod_eq_of_lt (by omega)
  have h₂ : subW 32 c.secDir (c.checkSum + 4) = c.secDir - (c.checkSum + 4) :=
    subW_of_le (by omega) (by omega)
  unfold hashHeaders at h
  simp only [checkSize_bind_eq_ok, reject_bind_eq_ok, h₁, h₂] at h
  obtain ⟨_, _, hle, hin, hhead⟩ := h
  have hwrap : c.secDir + 8 ≤ c.sizeOfHeaders := by
    by_contra hlt
    rw [subW_of_lt (by omega) (by omega)] at hin
    omega
  rw [subW_of_le hsize hwrap] at hin hhead
  refine ⟨hwrap, by omega, ?_⟩
  cases hhead
  rfl

lemma refreshSections_ok (hlay : Layout f c) (hmz : f.eMagic = imageDosSignature) {c' : Context}
    (h : refreshSections f c = .ok c') : c' = c := by
  unfold refreshSections at h
  split_ifs at h with hzero
  · simp only [reject_bind_eq_ok] at h
    obtain ⟨_, _, h⟩ := h
    cases h
    have hpe : f.peOffset = f.eLfanew := if_pos hmz
    obtain ⟨hc⟩ := hlay
    have hsections : f.mem.u16 (c.peHdr + 6) = c.numberOfSections := by rw [hc]; rfl
    have hfirst : f.eLfanew + 4 + 20 + f.mem.u16 (c.peHdr + 20) = c.firstSection := by
      rw [hc]
      show _ = f.peOffset + f.mem.u16 (f.peOffset + 20) + 4 + 20
      have : (f.context f.peOffset).peHdr = f.peOffset := rfl
      rw [this, hpe]
      omega
    rw [hsections, hfirst]
  · cases h
    rfl

/-! ## The sections -/

def sortTable (sections : List SectionHeader) : List SectionHeader :=
  sections.foldl (fun table s => table.insertIdx (insertPos table s table.length) s) []

lemma sortTable_concat (sections : List SectionHeader) (s : SectionHeader) :
    sortTable (sections ++ [s]) =
      (sortTable sections).insertIdx (insertPos (sortTable sections) s (sortTable sections).length)
        s := by
  unfold sortTable
  rw [foldl_append]
  rfl

lemma insertPos_le (table : List SectionHeader) (s : SectionHeader) (pos : ℕ) :
    insertPos table s pos ≤ pos := by
  induction pos with
  | zero => exact le_rfl
  | succ pos ih =>
    unfold insertPos
    split
    · split_ifs
      · omega
      · exact le_rfl
    · exact le_rfl

lemma sortTable_perm (sections : List SectionHeader) : (sortTable sections).Perm sections := by
  have hfold : ∀ (ss table : List SectionHeader),
      (ss.foldl (fun table s => table.insertIdx (insertPos table s table.length) s) table).Perm
        (ss ++ table) := by
    intro ss
    induction ss with
    | nil =>
      intro table
      exact List.Perm.refl _
    | cons s ss ih =>
      intro table
      have hinsert := perm_insertIdx s table (insertPos_le table s table.length)
      calc (s :: ss).foldl _ table
          = ss.foldl _ (table.insertIdx (insertPos table s table.length) s) := rfl
        _ |>.Perm (ss ++ table.insertIdx (insertPos table s table.length) s) := ih _
        _ |>.Perm (ss ++ s :: table) := hinsert.append_left ss
        _ |>.Perm (s :: ss ++ table) := perm_middle
  simpa [sortTable] using hfold sections []

def VmaOk (f : File) (c : Context) (i : ℕ) : Prop := ∃ r, getSectionVma f.mem f.addr c i = .ok r

lemma getSectionVma_ok {m : Mem} {buffer i : ℕ} {r : ℕ × ℕ × SectionHeader}
    (h : getSectionVma m buffer c i = .ok r) : r.2.2 = sectionAt m (c.sectionOffset i) := by
  unfold getSectionVma at h
  simp only [reject_bind_eq_ok] at h
  obtain ⟨_, _, _, _, _, h⟩ := h
  cases h
  rfl

lemma sortSections_ok {n sum : ℕ} {table : List SectionHeader}
    (h : (List.range n).foldlM (sortStep f c) (0, []) = .ok (sum, table)) :
    table = sortTable ((List.range n).map fun i => f.row c i) ∧
      ∀ i < n, VmaOk f c i := by
  refine foldlM_range_invariant (fun n (st : ℕ × List SectionHeader) =>
    st.2 = sortTable ((List.range n).map fun i => f.row c i) ∧
      ∀ i < n, VmaOk f c i) ?_ ?_ h
  · exact ⟨rfl, fun i hi => absurd hi (Nat.not_lt_zero i)⟩
  · rintro n ⟨sum, table⟩ v ⟨htable, hrows⟩ hv
    unfold sortStep at hv
    rw [bind_eq_ok] at hv
    obtain ⟨⟨base, size, s⟩, hrow, hv⟩ := hv
    simp only [reject_bind_eq_ok] at hv
    obtain ⟨_, hv⟩ := hv
    cases hv
    have hs : s = f.row c n := getSectionVma_ok hrow
    constructor
    · rw [range_succ, map_append, hs, show table = _ from htable]
      exact (sortTable_concat _ _).symm
    · intro i hi
      rcases Nat.lt_succ_iff_lt_or_eq.mp hi with hi | rfl
      · exact hrows i hi
      · exact ⟨_, hrow⟩

def rawRanges (table : List SectionHeader) : List (ℕ × ℕ) :=
  (table.filter fun s => s.sizeOfRawData ≠ 0).map fun s => (s.pointerToRawData, s.sizeOfRawData)

def hashedSum (table : List SectionHeader) (sum : ℕ) : ℕ :=
  table.foldl (fun sum s => if s.sizeOfRawData = 0 then sum else addW 32 sum s.sizeOfRawData) sum

lemma hashSections_ok {table : List SectionHeader} {sum₀ sum : ℕ} {body₀ body : List (ℕ × ℕ)}
    (h : table.foldlM (hashStep f) (sum₀, body₀) = .ok (sum, body)) :
    sum = hashedSum table sum₀ ∧ body = body₀ ++ rawRanges table ∧
      ∀ s ∈ table, s.sizeOfRawData ≠ 0 → s.pointerToRawData + s.sizeOfRawData ≤ f.datasize := by
  induction table generalizing sum₀ body₀ with
  | nil =>
    cases h
    exact ⟨rfl, by simp [rawRanges], fun s hs => absurd hs (by simp)⟩
  | cons s table ih =>
    rw [foldlM_cons, bind_eq_ok] at h
    obtain ⟨⟨sum₁, body₁⟩, hstep, h⟩ := h
    obtain ⟨hsum, hbody, hin⟩ := ih h
    unfold hashStep at hstep
    split_ifs at hstep with hzero
    · cases hstep
      refine ⟨by simpa [hashedSum, hzero] using hsum,
        by simp [rawRanges, hzero] at hbody ⊢; exact hbody, ?_⟩
      rw [forall_mem_cons]
      exact ⟨fun hne => absurd hzero hne, hin⟩
    · simp only [reject_bind_eq_ok, checkSize_bind_eq_ok] at hstep
      obtain ⟨_, _, hsize, hstep⟩ := hstep
      cases hstep
      refine ⟨by simpa [hashedSum, hzero] using hsum,
        by simp [rawRanges, hzero] at hbody ⊢; exact hbody, ?_⟩
      rw [forall_mem_cons]
      exact ⟨fun _ => hsize, hin⟩

def Tiles : ℕ → List (ℕ × ℕ) → Prop
  | _, [] => True
  | start, r :: rs => r.1 = start ∧ Tiles (start + r.2) rs

lemma Tiles.rangeBytes_eq {start : ℕ} {rs : List (ℕ × ℕ)} (h : Tiles start rs) (m : Mem) :
    rangeBytes m rs = m.slice start (rs.map Prod.snd).sum := by
  induction rs generalizing start with
  | nil => rfl
  | cons r rs ih =>
    obtain ⟨rfl, h⟩ := h
    rw [map_cons, sum_cons, Mem.slice_add, ← ih h]
    rfl

lemma Tiles.covers {start i : ℕ} {rs : List (ℕ × ℕ)} (h : Tiles start rs)
    (hi : ∃ r ∈ rs, r.1 ≤ i ∧ i < r.1 + r.2) :
    start ≤ i ∧ i < start + (rs.map Prod.snd).sum := by
  induction rs generalizing start with
  | nil => simp at hi
  | cons r rs ih =>
    obtain ⟨rfl, h⟩ := h
    rw [map_cons, sum_cons]
    obtain ⟨q, hq, hin⟩ := hi
    rcases mem_cons.mp hq with rfl | hq
    · omega
    · have := ih h ⟨q, hq, hin⟩
      omega

section

variable {sum sum' : ℕ} {toTable : List (ℕ × ℕ)} {rest : HashInput}
  (h₁ : hashToTable f c sum = .ok (sum', toTable)) (h₂ : hashRemaining f c sum' = .ok rest)
include h₁ h₂

lemma hashTail_tiles : Tiles sum (toTable ++ rest.ranges) := by
  have hdata := f.datasize_lt
  have hrest : Tiles sum' rest.ranges := by
    unfold hashRemaining at h₂
    split_ifs at h₂
    · rw [checkSize_bind_eq_ok] at h₂
      cases h₂.2
      exact ⟨rfl, trivial⟩
    · cases h₂
      trivial
  unfold hashToTable at h₁
  split_ifs at h₁
  · simp only [reject_bind_eq_ok, checkSize_bind_eq_ok] at h₁
    obtain ⟨_, hin, h₁⟩ := h₁
    rw [addW_of_lt (by omega)] at h₁
    cases h₁
    exact ⟨rfl, hrest⟩
  · cases h₁
    exact hrest

lemma hashTail_ok (hne : f.dirSize c.secDir ≠ 0) :
    ∀ r ∈ toTable ++ rest.ranges, r.2 = 0 ∨ r.1 + r.2 ≤ f.dirVirtualAddress c.secDir := by
  have hdata := f.datasize_lt
  unfold hashToTable at h₁
  split_ifs at h₁ with htable
  · simp only [reject_bind_eq_ok, checkSize_bind_eq_ok] at h₁
    obtain ⟨hbad, _, h₁⟩ := h₁
    have hfits : f.dirSize c.secDir ≤ subW 32 f.datasize sum :=
      Nat.le_of_not_lt fun h => hbad (.inl h)
    have hend : addW 32 sum (subW 32 (subW 32 f.datasize (f.dirSize c.secDir)) sum) =
        f.dirVirtualAddress c.secDir := by
      by_contra h
      exact hbad (.inr h)
    rw [subW_of_le hdata (by omega)] at hfits
    rw [subW_of_le hdata (by omega), subW_of_le (by omega) (by omega), addW_of_lt (by omega)] at hend
    rw [subW_of_le hdata (by omega), subW_of_le (by omega) (by omega), addW_of_lt (by omega)] at h₁
    cases h₁
    unfold hashRemaining at h₂
    rw [addW_of_lt (by omega), if_neg (by omega)] at h₂
    cases h₂
    intro r hr
    rw [append_nil, mem_singleton] at hr
    rw [hr]
    exact .inr (by simp only; omega)
  · cases h₁
    have hsum : f.datasize ≤ sum := by
      by_contra h
      exact htable ⟨by omega, hne⟩
    unfold hashRemaining at h₂
    split_ifs at h₂
    · rw [checkSize_bind_eq_ok] at h₂
      obtain ⟨hin, h₂⟩ := h₂
      cases h₂
      intro r hr
      rw [nil_append, mem_singleton] at hr
      rw [hr]
      exact .inl (by simp only; omega)
    · cases h₂
      exact fun r hr => absurd hr (by simp)

end

/-! ## The whole -/

/-- What a file that `generate_hash` accepts has been checked for, and what the digest sees. -/
structure Hashed (f : File) (c : Context) (input : HashInput) : Prop where
  magic : f.eMagic = imageDosSignature
  secDir_le : c.secDir + 8 ≤ c.sizeOfHeaders
  headers_le : c.sizeOfHeaders ≤ f.datasize
  rows : ∀ i < c.numberOfSections, VmaOk f c i
  raw_le : ∀ s ∈ f.sections c, s.sizeOfRawData ≠ 0 →
    s.pointerToRawData + s.sizeOfRawData ≤ f.datasize
  ranges : ∃ tail, input.ranges = headRanges c ++ rawRanges (sortTable (f.sections c)) ++ tail ∧
    Tiles (hashedSum (sortTable (f.sections c)) c.sizeOfHeaders) tail ∧
    (f.dirSize c.secDir ≠ 0 → ∀ r ∈ tail, r.2 = 0 ∨ r.1 + r.2 ≤ f.dirVirtualAddress c.secDir)

lemma generateHash_ok {p : Platform} {mokPolicy : ℕ} {checkSecdir : Bool} {r : HashResources}
    {input : HashInput} (hread : readHeader f p mokPolicy checkSecdir = .ok c)
    (h : generateHash r f c = .ok input) : Layout f c ∧ Hashed f c input := by
  unfold generateHash at h
  simp only [reject_bind_eq_ok] at h
  obtain ⟨hmagic, _, _, h⟩ := h
  have hmz : f.eMagic = imageDosSignature := by
    by_contra hne
    exact hmagic (.inr hne)
  have hlay := layout_of_readHeader hread hmz
  rw [bind_eq_ok] at h
  obtain ⟨head, hhead, h⟩ := h
  obtain ⟨hsec, hheaders, rfl⟩ := hashHeaders_ok hlay hhead
  rw [bind_eq_ok] at h
  obtain ⟨c', hc', h⟩ := h
  obtain rfl := refreshSections_ok hlay hmz hc'
  rw [reject_bind_eq_ok, bind_eq_ok] at h
  obtain ⟨_, ⟨total, table⟩, hsort, h⟩ := h
  obtain ⟨rfl, hrows⟩ := sortSections_ok hsort
  rw [bind_eq_ok] at h
  obtain ⟨⟨sum, body⟩, hbody, h⟩ := h
  obtain ⟨rfl, rfl, hraw⟩ := hashSections_ok hbody
  rw [bind_eq_ok] at h
  obtain ⟨⟨sum', toTable⟩, htable, h⟩ := h
  rw [bind_eq_ok] at h
  obtain ⟨rest, hrest, h⟩ := h
  cases h
  refine ⟨hlay, hmz, hsec, hheaders, hrows, ?_, toTable ++ rest.ranges, ?_,
    hashTail_tiles htable hrest, hashTail_ok htable hrest⟩
  · intro s hs
    exact hraw s ((sortTable_perm _).mem_iff.mpr hs)
  · simp [File.sections]

lemma checkSize_failsWith (base size : ℕ) : FailsWith (· ≠ .success) (checkSize f base size) :=
  .reject_bind (by decide) <| .of_reject (by decide)

lemma checkSize_bind_failsWith {α : Type} {base size : ℕ} {k : Unit → Except EfiStatus α}
    (hk : FailsWith (· ≠ .success) (k ())) :
    FailsWith (· ≠ .success) (checkSize f base size >>= k) :=
  .bind (checkSize_failsWith _ _) fun _ => hk

lemma generateHash_failsWith (r : HashResources) (f : File) (c : Context) :
    FailsWith (· ≠ .success) (generateHash r f c) := by
  unfold generateHash
  refine .reject_bind (by decide) <| .reject_bind (by decide) <| .reject_bind (by decide) <|
    .bind ?head fun head => .bind ?refresh fun c => .reject_bind (by decide) <|
    .bind ?sort fun table => .bind ?sections fun body => .bind ?toTable fun toTable =>
    .bind ?remaining fun rest => .ok _
  case head =>
    exact checkSize_bind_failsWith <| checkSize_bind_failsWith <| .reject_bind (by decide) <|
      checkSize_bind_failsWith <| .ok _
  case refresh =>
    unfold refreshSections
    split_ifs
    · exact .reject_bind (by decide) <| .reject_bind (by decide) <| .ok _
    · exact .ok _
  case sort =>
    refine .foldlM (fun st i => ?_) _ _
    refine .bind ?_ fun row => .reject_bind (by decide) <| .ok _
    unfold getSectionVma
    exact .reject_bind (by decide) <| .reject_bind (by decide) <| .reject_bind (by decide) <|
      .reject_bind (by decide) <| .reject_bind (by decide) <| .ok _
  case sections =>
    refine .foldlM (fun st s => ?_) _ _
    unfold hashStep
    split_ifs
    · exact .ok _
    · exact .reject_bind (by decide) <| .reject_bind (by decide) <| checkSize_bind_failsWith <| .ok _
  case toTable =>
    unfold hashToTable
    split_ifs
    · exact .reject_bind (by decide) <| checkSize_bind_failsWith <| .ok _
    · exact .ok _
  case remaining =>
    unfold hashRemaining
    split_ifs
    · exact checkSize_bind_failsWith <| .ok _
    · exact .ok _

/-! ## Two files with the same headers -/

section

variable {p : Platform} {mokPolicy : ℕ} {checkSecdir : Bool}

lemma load_congr {n : ℕ} (hagree : ∀ i < n, f.mem i = g.mem i) {off w : ℕ} (h : off + w ≤ n) :
    f.mem.load off w = g.mem.load off w := by
  have hon : f.mem.AgreeOn g.mem (· < n) := hagree
  exact hon.load_eq fun i _ hi => by omega

lemma secDir_le_headers (hread : readHeader f p mokPolicy checkSecdir = .ok c) :
    c.secDir ≤ c.sizeOfHeaders + 32 := by
  obtain ⟨rfl, hok⟩ := readHeader_ok hread
  have htable := hok.table_headers
  have hopt := hok.optionalHeader
  have hpe := f.peOffset_le
  show f.peOffset + 24 + (if imageIs64Bit f f.peOffset then 112 else 96) + 8 * 4 ≤
    f.mem.u32 (f.peOffset + 84) + 32
  omega

lemma context_congr (hread : readHeader f p mokPolicy checkSecdir = .ok c)
    (hagree : ∀ i, i + 32 < c.secDir → ¬ (c.checkSum ≤ i ∧ i < c.checkSum + 4) →
      f.mem i = g.mem i) : g.context g.peOffset = c := by
  obtain ⟨rfl, hok⟩ := readHeader_ok hread
  have hsec : (f.context f.peOffset).secDir =
      f.peOffset + 24 + (if imageIs64Bit f f.peOffset then 112 else 96) + 8 * 4 := rfl
  have hcheck : (f.context f.peOffset).checkSum = f.peOffset + 24 + 64 := rfl
  rw [hsec, hcheck] at hagree
  have hdirs : 96 ≤ if imageIs64Bit f f.peOffset then 112 else 96 := by split_ifs <;> omega
  have hload : ∀ off w, (off + w ≤ f.peOffset + 88 ∨ f.peOffset + 92 ≤ off) →
      off + w ≤ f.peOffset + 24 + (if imageIs64Bit f f.peOffset then 112 else 96) →
      g.mem.load off w = f.mem.load off w := by
    intro off w hskip hend
    have hon : f.mem.AgreeOn g.mem (fun i => off ≤ i ∧ i < off + w) :=
      fun i hi => hagree i (by omega) (by omega)
    exact (hon.load_eq fun i h₁ h₂ => ⟨h₁, h₂⟩).symm
  have hlow : ∀ k w, k + w ≤ 88 →
      g.mem.load (f.peOffset + k) w = f.mem.load (f.peOffset + k) w := fun k w hk =>
    hload _ w (.inl (by omega)) (by omega)
  have hlfanew : g.eLfanew = f.eLfanew := hload 60 4 (.inl (by omega)) (by omega)
  have hmagic : g.eMagic = f.eMagic := hload 0 2 (.inl (by omega)) (by omega)
  have hoffset : g.peOffset = f.peOffset := by
    unfold peOffset
    rw [hmagic, hlfanew]
  have h64 : imageIs64Bit g f.peOffset = imageIs64Bit f f.peOffset := by
    unfold imageIs64Bit Mem.u16
    rw [hlow 24 2 (by decide)]
  have hrva : g.numberOfRvaAndSizes f.peOffset = f.numberOfRvaAndSizes f.peOffset := by
    unfold numberOfRvaAndSizes
    rw [h64]
    refine hload _ 4 (.inr ?_) ?_
    · split_ifs <;> omega
    · split_ifs <;> omega
  have hdll : g.mem.load (f.peOffset + 94) 2 = f.mem.load (f.peOffset + 94) 2 :=
    hload _ 2 (.inr (by omega)) (by omega)
  rw [hoffset]
  unfold context sectionAlignment fileAlignment dataDirectory
  rw [h64, hrva]
  unfold Mem.u16 Mem.u32 Mem.u64
  simp only [hlow _ _ (by decide : 48 + 8 ≤ 88), hlow _ _ (by decide : 52 + 4 ≤ 88),
    hlow _ _ (by decide : 80 + 4 ≤ 88), hlow _ _ (by decide : 40 + 4 ≤ 88),
    hlow _ _ (by decide : 84 + 4 ≤ 88), hlow _ _ (by decide : 6 + 2 ≤ 88),
    hlow _ _ (by decide : 56 + 4 ≤ 88), hlow _ _ (by decide : 60 + 4 ≤ 88),
    hlow _ _ (by decide : 20 + 2 ≤ 88), hdll]

structure SameHeaders (f g : File) (c : Context) : Prop where
  addr : f.addr = g.addr
  datasize : f.datasize = g.datasize
  agree : ∀ i < c.sizeOfHeaders, f.mem i = g.mem i

namespace SameHeaders

section

variable (h : SameHeaders f g c)
include h

lemma load_eq {off w : ℕ} (hend : off + w ≤ c.sizeOfHeaders) :
    g.mem.load off w = f.mem.load off w :=
  (load_congr h.agree hend).symm

lemma checkSize_eq (base size : ℕ) : checkSize g base size = checkSize f base size := by
  unfold checkSize
  rw [h.datasize]

lemma hashHeaders_eq : hashHeaders g c = hashHeaders f c := by
  unfold hashHeaders
  simp only [h.checkSize_eq, h.datasize]

lemma refreshSections_eq (hlay : Layout f c)
    (hsec : c.secDir + 8 ≤ c.sizeOfHeaders) :
    refreshSections g c = refreshSections f c := by
  have hpe := hlay.pe_le
  have hdirs := hlay.secDir
  have hnumber : g.mem.u16 (c.peHdr + 6) = f.mem.u16 (c.peHdr + 6) := h.load_eq (by omega)
  have hoptional : g.mem.u16 (c.peHdr + 20) = f.mem.u16 (c.peHdr + 20) := h.load_eq (by omega)
  have hlfanew : g.eLfanew = f.eLfanew := h.load_eq (by omega)
  unfold refreshSections
  rw [hnumber, hoptional, hlfanew, h.addr, h.datasize]

lemma sortSections_eq (hlay : Layout f c) : sortSections g c = sortSections f c := by
  have hrow : ∀ i < c.numberOfSections,
      sectionAt g.mem (c.sectionOffset i) = sectionAt f.mem (c.sectionOffset i) := by
    intro i hi
    have hon : f.mem.AgreeOn g.mem (· < c.sizeOfHeaders) := h.agree
    refine (sectionAt_congr hon fun j _ hj => ?_).symm
    have hin := hlay.sections_headers
    unfold Context.sectionOffset sizeofSectionHeader at hin hj
    omega
  unfold sortSections
  refine foldlM_congr_mem (fun i hi st => ?_) _
  unfold sortStep getSectionVma
  rw [hrow i (mem_range.mp hi), h.addr, h.datasize]

lemma hashStep_eq : hashStep g = hashStep f := by
  funext st s
  unfold hashStep
  simp only [h.checkSize_eq, h.addr, h.datasize]

lemma hashToTable_eq (hsec : c.secDir + 8 ≤ c.sizeOfHeaders) (sum : ℕ) :
    hashToTable g c sum = hashToTable f c sum := by
  have haddress : g.dirVirtualAddress c.secDir = f.dirVirtualAddress c.secDir :=
    h.load_eq (by omega)
  have hsize : g.dirSize c.secDir = f.dirSize c.secDir := h.load_eq (by omega)
  unfold hashToTable
  simp only [h.checkSize_eq, h.datasize, haddress, hsize]

lemma hashRemaining_eq (hsec : c.secDir + 8 ≤ c.sizeOfHeaders) (sum : ℕ) :
    hashRemaining g c sum = hashRemaining f c sum := by
  have hsize : g.dirSize c.secDir = f.dirSize c.secDir := h.load_eq (by omega)
  unfold hashRemaining
  simp only [h.checkSize_eq, h.datasize, hsize]

end

end SameHeaders

lemma generateHash_congr (r : HashResources) (haddr : f.addr = g.addr)
    (hdata : f.datasize = g.datasize) (hread : readHeader f p mokPolicy checkSecdir = .ok c)
    (hagree : ∀ i < c.sizeOfHeaders, f.mem i = g.mem i) :
    generateHash r f c = generateHash r g c := by
  have hsame : SameHeaders f g c := ⟨haddr, hdata, hagree⟩
  have hmagic : g.eMagic = f.eMagic := by
    obtain ⟨rfl, hok⟩ := readHeader_ok hread
    have htable := hok.table_headers
    exact hsame.load_eq (by show 0 + 2 ≤ f.mem.u32 (f.peOffset + 84); omega)
  unfold generateHash
  rw [← hdata, hmagic]
  refine reject_bind_congr fun hmz => reject_bind_congr fun _ => reject_bind_congr fun _ => ?_
  have hlay := layout_of_readHeader hread (not_not.mp (not_or.mp hmz).2)
  rw [hsame.hashHeaders_eq]
  refine bind_congr_ok fun head hhead => ?_
  obtain ⟨hsec, -, -⟩ := hashHeaders_ok hlay hhead
  rw [hsame.refreshSections_eq hlay hsec]
  refine bind_congr_ok fun c' hc' => reject_bind_congr fun _ => ?_
  obtain rfl := refreshSections_ok hlay (not_not.mp (not_or.mp hmz).2) hc'
  rw [hsame.sortSections_eq hlay]
  refine bind_congr_ok fun sorted _ => ?_
  unfold hashSections
  rw [hsame.hashStep_eq]
  refine bind_congr_ok fun hashed _ => ?_
  simp only [hsame.hashToTable_eq hsec]
  refine bind_congr_ok fun tail _ => ?_
  simp only [hsame.hashRemaining_eq hsec]

end

lemma HashInput.stream_congr {h : HashInput} {m n : Mem}
    (hagree : ∀ r ∈ h.ranges, ∀ i, r.1 ≤ i → i < r.1 + r.2 → m i = n i) :
    h.stream m = h.stream n := by
  unfold HashInput.stream rangeBytes
  congr 1
  refine flatMap_congr fun r hr => ?_
  exact Mem.slice_eq_iff.mpr fun i hi => hagree r hr _ (by omega) (by omega)

end Shim.Pe
