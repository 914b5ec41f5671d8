import Shim.Binding
import Shim.Pe.Coverage

/-!
# Certificates and revocations from files

`load_cert_file` and `load_revocations_file` read a PE file, have it verified by `verify_image` and
then take data out of its sections: certificates from every `.db` section, and the payloads of six
revocation sections. What they read should be what has been hashed.
-/

namespace Shim

open Lib Pe Verify Sbat List Run

def HandleEnv.unverifiedParent (env : HandleEnv) : HandleEnv :=
  { env with load := { env.load with parentVerified := false } }

def verifyImage (env : HandleEnv) (f : File) : Except Stop Context :=
  checkImage env.unverifiedParent f

lemma verifyImage_ok {env : HandleEnv} {f : File} {c : Context} (h : verifyImage env f = .ok c) :
    readHeader f env.platform env.load.mokPolicy true = .ok c ∧
      ∃ r input, generateHash r f c = .ok input := by
  obtain ⟨hread, hhash⟩ := checkImage_ok h
  exact ⟨hread, hhash (.inr rfl)⟩

/-! ## `load_cert_file` -/

inductive UserCertPointer where
  | null
  | live (data : List UInt8)
  | freed
  deriving DecidableEq

def UserCertPointer.data : UserCertPointer → List UInt8
  | .live data => data
  | .null | .freed => []

/-- The first `size` bytes of a larger buffer from `ReallocatePool`: the old ones, as far as there
are any. What is behind them is zero here. -/
def UserCertPointer.kept (p : UserCertPointer) (size : ℕ) : List UInt8 :=
  p.data.take size ++ List.replicate (size - p.data.length) 0

/-- The pointer after a `ReallocatePool` that finds no memory: the old buffer is gone. -/
def UserCertPointer.release : UserCertPointer → UserCertPointer
  | .null => .null
  | .live _ | .freed => .freed

structure UserCert where
  size : ℕ
  pointer : UserCertPointer
  deriving DecidableEq

inductive CertStop where
  | refused (s : Stop)
  | outOfResources
  /-- `ReallocatePool` is handed a pointer that it has freed before. -/
  | useAfterFree
  deriving DecidableEq

def dbName : List UInt8 := [0x2e, 0x64, 0x62, 0, 0, 0, 0, 0]

/-- Append a range of the file to `user_cert`. `size` is `user_cert_size` after the addition, which
has been made before the memory is asked for. -/
def appendCerts (alloc : ℕ → Bool) (f : File) (pointer listSize : ℕ) (user : UserCert) :
    Run Access (UserCert × CertStop) UserCert :=
  let size := user.size + listSize
  if user.pointer = .freed then .fail ({ user with size := size }, .useAfterFree)
  else if alloc size = false then .fail (⟨size, user.pointer.release⟩, .outOfResources)
  else do
    .emit (.read pointer listSize)
    return ⟨size, .live (user.pointer.kept user.size ++ f.mem.slice pointer listSize)⟩

/-- One round of the loop over the signature lists of a `.db` section, on `(offset, user_cert)`. The
row of the section table is at `row`. -/
def dbRound (alloc : ℕ → Bool) (f : File) (row secSize : ℕ) (st : ℕ × UserCert) :
    Run Access (UserCert × CertStop) ((ℕ × UserCert) ⊕ UserCert) :=
  if subW 32 secSize st.1 < sizeofSignatureList then return .inr st.2
  else do
    .emit (.read (row + 20) 4)
    let pointer := addW 32 (sectionAt f.mem row).pointerToRawData st.1
    if imageAddress f.addr (intSize f.datasize) pointer = 0 then return .inr st.2
    else do
      .emit (.read (pointer + 16) 4)
      let listSize := f.mem.u32 (pointer + 16)
      if listSize < sizeofSignatureList ∨ 2 ^ 32 ≤ st.1 + listSize ∨ secSize < st.1 + listSize then
        return .inr st.2
      else if 2 ^ 32 ≤ st.2.size + listSize then
        -- `checked_add` stores the sum also when it has wrapped
        return .inr { st.2 with size := addW 32 st.2.size listSize }
      else do
        let user ← appendCerts alloc f pointer listSize st.2
        return .inl (st.1 + listSize, user)

def certStep (alloc : ℕ → Bool) (f : File) (c : Context) (user : UserCert) (i : ℕ) :
    Run Access (UserCert × CertStop) UserCert := do
  let s := f.row c i
  .emit (.read (c.sectionOffset i + 8) 4)
  .emit (.read (c.sectionOffset i + 16) 4)
  let secSize := min s.virtualSize s.sizeOfRawData
  .emit (.read (c.sectionOffset i) 8)
  if s.name ≠ dbName then return user
  else do
    let out ← Run.loop (dbRound alloc f (c.sectionOffset i) secSize) (secSize + 1) (0, user)
    return out.getD user

def loadCertFile (env : HandleEnv) (alloc : ℕ → Bool) (f : File) (user : UserCert) :
    Run Access (UserCert × CertStop) UserCert := do
  let c ← .lift ((verifyImage env f).mapError fun e => (user, .refused e))
  (List.range c.numberOfSections).foldlM (certStep alloc f c) user

inductive RevSection where
  | sbatAutomatic
  | sbatLatest
  | sspvAutomatic
  | sspsAutomatic
  | sspvLatest
  | sspsLatest
  deriving DecidableEq, Repr

namespace RevSection

def all : List RevSection :=
  [sbatAutomatic, sbatLatest, sspvAutomatic, sspsAutomatic, sspvLatest, sspsLatest]

def name : RevSection → List UInt8
  | sbatAutomatic => [0x2e, 0x73, 0x62, 0x61, 0x74, 0x61, 0, 0]
  | sbatLatest => [0x2e, 0x73, 0x62, 0x61, 0x74, 0x6c, 0, 0]
  | sspvAutomatic => [0x2e, 0x73, 0x73, 0x70, 0x76, 0x61, 0, 0]
  | sspsAutomatic => [0x2e, 0x73, 0x73, 0x70, 0x73, 0x61, 0, 0]
  | sspvLatest => [0x2e, 0x73, 0x73, 0x70, 0x76, 0x6c, 0, 0]
  | sspsLatest => [0x2e, 0x73, 0x73, 0x70, 0x73, 0x6c, 0, 0]

end RevSection

abbrev RevRows := RevSection → Option SectionHeader

/-- `check_section_helper`. The pointer is set before the size is looked at, and the test of
`minsize` that follows decides only what is printed. -/
def checkSectionHelper (f : File) (row : ℕ) (rows : RevRows) (x : RevSection) :
    Run Access Stop RevRows := do
  let s := sectionAt f.mem row
  .emit (.read row 8)
  if s.name ≠ x.name then return rows
  else do
    .emit (.read (row + 20) 4)
    .emit (.read (row + 16) 4)
    return Function.update rows x (some s)

def revStep (f : File) (c : Context) (rows : RevRows) (i : ℕ) : Run Access Stop RevRows :=
  RevSection.all.foldlM (checkSectionHelper f (c.sectionOffset i)) rows

def revPointer (f : File) : Option SectionHeader → ℕ
  | none => 0
  | some s => imageAddress f.addr (intSize f.datasize) s.pointerToRawData

def handOver (f : File) (rows : List (Option SectionHeader)) : Run Access Stop Unit where
  trace := (rows.filter fun s => revPointer f s != 0).filterMap fun s =>
    s.map fun s => .read s.pointerToRawData s.sizeOfRawData
  out := .ok ()

structure RevCalls where
  pointer : RevSection → ℕ
  setSbat : Bool
  setSsp : Bool

def loadRevocationsFile (env : HandleEnv) (f : File) : Run Access Stop RevCalls := do
  let c ← .lift (verifyImage env f)
  let rows ← (List.range c.numberOfSections).foldlM (revStep f c) fun _ => none
  let pointer := fun x => revPointer f (rows x)
  let setSbat := pointer .sbatLatest != 0 && pointer .sbatAutomatic != 0
  let setSsp := (pointer .sspvAutomatic != 0 && pointer .sspsAutomatic != 0) ||
    (pointer .sspvLatest != 0 && pointer .sspsLatest != 0)
  handOver f (if setSbat then [rows .sbatAutomatic, rows .sbatLatest] else [])
  handOver f (if setSsp then [rows .sspvAutomatic, rows .sspsAutomatic, rows .sspvLatest,
    rows .sspsLatest] else [])
  return ⟨pointer, setSbat, setSsp⟩

/-! ## The reads of `load_cert_file` -/

section

variable {alloc : ℕ → Bool} {f : File} {c : Context} {row secSize i off len : ℕ}
  {st st' : ℕ × UserCert} {user : UserCert}

lemma dbRound_continues (h : Run.Continues (dbRound alloc f row secSize) st st') :
    st.1 < st'.1 ∧ st'.1 ≤ secSize := by
  unfold Run.Continues dbRound at h
  split at h
  · cases yields_pure.mp h
  simp only [yields_bind, yields_emit] at h
  obtain ⟨-, -, h⟩ := h
  split at h
  · cases yields_pure.mp h
  simp only [yields_bind, yields_emit] at h
  obtain ⟨-, -, h⟩ := h
  split at h
  · cases yields_pure.mp h
  case isFalse hlist =>
    split at h
    · cases yields_pure.mp h
    obtain ⟨user, -, h⟩ := yields_bind.mp h
    cases yields_pure.mp h
    unfold sizeofSignatureList at hlist
    exact ⟨by simp only; omega, by simp only; omega⟩

lemma dbLoop_returns :
    ¬ (Run.loop (dbRound alloc f row secSize) (secSize + 1) (0, user)).Yields none := by
  apply not_loop_yields_none (μ := fun st => secSize - st.1)
  · intro st st' h
    obtain ⟨hlt, hle⟩ := dbRound_continues h
    show secSize - st'.1 < secSize - st.1
    omega
  · show secSize - 0 < secSize + 1
    omega

lemma dbRound_reaches (h : Run.Reaches (dbRound alloc f row secSize) (0, user) st) :
    st.1 ≤ secSize := by
  rcases h.cases_tail with heq | ⟨u, -, hstep⟩
  · rw [heq]
    exact Nat.zero_le _
  · exact (dbRound_continues hstep).2

lemma appendCerts_emits {pointer listSize : ℕ} {a : Access}
    (h : (appendCerts alloc f pointer listSize user).Emits a) : a = .read pointer listSize := by
  unfold appendCerts at h
  simp only at h
  split at h
  · exact absurd h emits_fail
  split at h
  · exact absurd h emits_fail
  · simpa using h

lemma dbRound_reads {s : SectionHeader} (hs : sectionAt f.mem row = s)
    (hst : st.1 ≤ secSize) (hraw : secSize ≤ s.sizeOfRawData)
    (hfits : s.sizeOfRawData ≠ 0 → s.pointerToRawData + s.sizeOfRawData ≤ f.datasize)
    (h : (dbRound alloc f row secSize st).Emits (.read off len)) :
    sizeofSignatureList ≤ secSize ∧ ((off = row + 20 ∧ len = 4) ∨
      (s.pointerToRawData ≤ off ∧ off + len ≤ s.pointerToRawData + s.sizeOfRawData)) := by
  have hdata := f.datasize_lt
  have hlt := s.sizeOfRawData_lt
  unfold dbRound at h
  rw [hs] at h
  split at h
  · exact absurd h emits_pure
  case isFalse hroom =>
    rw [subW_of_le (by omega) hst] at hroom
    unfold sizeofSignatureList at hroom ⊢
    have hsum := hfits (by omega)
    rw [addW_of_lt (by omega)] at h
    refine ⟨by omega, ?_⟩
    simp only [emits_bind, emits_emit] at h
    rcases h with h | ⟨-, -, h⟩
    · cases h
      exact .inl ⟨rfl, rfl⟩
    right
    split at h
    · exact absurd h emits_pure
    simp only [emits_bind, emits_emit] at h
    rcases h with h | ⟨-, -, h⟩
    · cases h
      exact ⟨by omega, by omega⟩
    split at h
    · exact absurd h emits_pure
    case isFalse hlist =>
      split at h
      · exact absurd h emits_pure
      rcases emits_bind.mp h with h | ⟨user, _, h⟩
      · cases appendCerts_emits h
        exact ⟨by omega, by omega⟩
      · exact absurd h emits_pure

def Pe.SectionHeader.DbPointerRead (s : SectionHeader) : Prop :=
  s.name = dbName ∧ sizeofSignatureList ≤ min s.virtualSize s.sizeOfRawData

lemma certStep_reads (hfits : (f.row c i).sizeOfRawData ≠ 0 →
      (f.row c i).pointerToRawData + (f.row c i).sizeOfRawData ≤ f.datasize)
    (h : (certStep alloc f c user i).Emits (.read off len)) :
    (off = c.sectionOffset i + 8 ∧ len = 4) ∨ (off = c.sectionOffset i + 16 ∧ len = 4) ∨
      (off = c.sectionOffset i ∧ len = 8) ∨
      ((f.row c i).DbPointerRead ∧ off = c.sectionOffset i + 20 ∧ len = 4) ∨
      ((f.row c i).pointerToRawData ≤ off ∧
        off + len ≤ (f.row c i).pointerToRawData + (f.row c i).sizeOfRawData) := by
  unfold certStep at h
  simp only [emits_bind, emits_emit, yields_emit, true_and, Access.read.injEq] at h
  rcases h with h | ⟨_, h | ⟨_, h | ⟨_, h⟩⟩⟩
  · exact .inl h
  · exact .inr (.inl h)
  · exact .inr (.inr (.inl h))
  right; right; right
  split at h
  · exact absurd h emits_pure
  case isFalse hname =>
    rcases emits_bind.mp h with h | ⟨_, _, h⟩
    · obtain ⟨st, hreach, h⟩ := reaches_of_loop_emits h
      obtain ⟨hsize, hread⟩ :=
        dbRound_reads rfl (dbRound_reaches hreach) (Nat.min_le_right _ _) hfits h
      exact hread.imp_left fun hrow => ⟨⟨not_not.mp hname, hsize⟩, hrow⟩
    · exact absurd h emits_pure

lemma certStep_emits_name : (certStep alloc f c user i).Emits (.read (c.sectionOffset i) 8) := by
  unfold certStep
  simp

lemma certStep_emits_sizes : (certStep alloc f c user i).Emits (.read (c.sectionOffset i + 8) 4) ∧
      (certStep alloc f c user i).Emits (.read (c.sectionOffset i + 16) 4) := by
  unfold certStep
  simp

lemma certStep_emits_pointer (h : (f.row c i).DbPointerRead) :
    (certStep alloc f c user i).Emits (.read (c.sectionOffset i + 20) 4) := by
  obtain ⟨hname, hsize⟩ := h
  have hlt := (f.row c i).sizeOfRawData_lt
  have hround : (dbRound alloc f (c.sectionOffset i)
      (min (f.row c i).virtualSize (f.row c i).sizeOfRawData) (0, user)).Emits
        (.read (c.sectionOffset i + 20) 4) := by
    unfold dbRound
    rw [subW_of_le (by omega) (Nat.zero_le _), if_neg (by omega)]
    simp
  unfold certStep
  simp only [emits_bind, emits_emit, yields_emit, true_and]
  refine .inr ⟨(), .inr ⟨(), .inr ⟨(), ?_⟩⟩⟩
  rw [if_neg (not_not.mpr hname), emits_bind]
  exact .inl (loop_emits_succ.mpr (.inl hround))

end

section

variable {f : File} {c : Context} {rows rows' : RevRows} {i off len : ℕ}

def Pe.SectionHeader.IsRevocation (s : SectionHeader) : Prop := ∃ x ∈ RevSection.all, s.name = x.name

lemma checkSectionHelper_yields {row : ℕ} {x : RevSection} :
    (checkSectionHelper f row rows x).Yields rows' ↔
      rows' = if (sectionAt f.mem row).name ≠ x.name then rows
        else Function.update rows x (some (sectionAt f.mem row)) := by
  unfold checkSectionHelper
  by_cases hname : (sectionAt f.mem row).name = x.name
  · simp [hname, eq_comm]
  · simp [hname, eq_comm]

lemma checkSectionHelper_emits {row : ℕ} {x : RevSection} :
    (checkSectionHelper f row rows x).Emits (.read off len) ↔
      (off = row ∧ len = 8) ∨ ((sectionAt f.mem row).name = x.name ∧
        ((off = row + 20 ∧ len = 4) ∨ (off = row + 16 ∧ len = 4))) := by
  unfold checkSectionHelper
  by_cases hname : (sectionAt f.mem row).name = x.name
  · simp [hname]
  · simp [hname]

lemma exists_checkSectionHelper_yields {row : ℕ} (rows : RevRows) (x : RevSection) :
    ∃ rows', (checkSectionHelper f row rows x).Yields rows' :=
  ⟨_, checkSectionHelper_yields.mpr rfl⟩

lemma revStep_emits : (revStep f c rows i).Emits (.read off len) ↔
      (off = c.sectionOffset i ∧ len = 8) ∨ ((f.row c i).IsRevocation ∧
        ((off = c.sectionOffset i + 20 ∧ len = 4) ∨ (off = c.sectionOffset i + 16 ∧ len = 4))) := by
  have hemits : ∀ rows x,
      (checkSectionHelper f (c.sectionOffset i) rows x).Emits (.read off len) ↔ _ :=
    fun rows x => checkSectionHelper_emits
  refine (emits_foldlM_iff exists_checkSectionHelper_yields hemits RevSection.all).trans ⟨?_, ?_⟩
  · rintro ⟨x, hx, h | ⟨hname, h⟩⟩
    · exact .inl h
    · exact .inr ⟨⟨x, hx, hname⟩, h⟩
  · rintro (h | ⟨⟨x, hx, hname⟩, h⟩)
    · exact ⟨.sbatAutomatic, by simp [RevSection.all], .inl h⟩
    · exact ⟨x, hx, .inr ⟨hname, h⟩⟩

lemma revRows_mem
    (h : ((List.range c.numberOfSections).foldlM (revStep f c) fun _ => none).Yields rows)
    {x : RevSection} {s : SectionHeader} (hs : rows x = some s) : s ∈ f.sections c := by
  obtain ⟨k, hk, rfl⟩ : ∃ k < c.numberOfSections, s = f.row c k := by
    refine yields_foldlM_range_invariant
      (fun n (rows : RevRows) => ∀ x s, rows x = some s → ∃ k < n, s = f.row c k)
      ?_ ?_ h x s hs
    · intro x s hs
      cases hs
    · intro n u v hu hv
      refine yields_foldlM_invariant
        (fun rows : RevRows => ∀ x s, rows x = some s → ∃ k < n + 1, s = f.row c k) ?_ ?_ hv
      · intro rows rows' y hrows hstep x s hs
        rw [checkSectionHelper_yields] at hstep
        rw [hstep] at hs
        split_ifs at hs with hname
        · exact hrows x s hs
        by_cases hxy : x = y
        · rw [hxy, Function.update_self] at hs
          cases hs
          exact ⟨n, Nat.lt_succ_self n, rfl⟩
        · rw [Function.update_of_ne hxy] at hs
          exact hrows x s hs
      · intro x s hs
        obtain ⟨k, hk, hrow⟩ := hu x s hs
        exact ⟨k, by omega, hrow⟩
  exact mem_map_of_mem (mem_range.mpr hk)

lemma handOver_emits {ss : List (Option SectionHeader)}
    (h : (handOver f ss).Emits (.read off len)) :
    ∃ s, some s ∈ ss ∧ off = s.pointerToRawData ∧ len = s.sizeOfRawData := by
  obtain ⟨s, hs, heq⟩ := mem_filterMap.mp h
  obtain ⟨s, rfl, heq⟩ := Option.map_eq_some_iff.mp heq
  cases heq
  exact ⟨s, (mem_filter.mp hs).1, rfl, rfl⟩

end

/-! ## What is read is hashed -/

section

variable {env : HandleEnv} {alloc : ℕ → Bool} {f : File} {c : Context} {user : UserCert}
  {i j off len : ℕ}

def Pe.SectionHeader.PointerRead (s : SectionHeader) : Prop := s.DbPointerRead ∨ s.IsRevocation

instance (s : SectionHeader) : Decidable s.PointerRead :=
  inferInstanceAs (Decidable ((_ ∧ _) ∨ ∃ x ∈ RevSection.all, _))

def FieldRead (f : File) (c : Context) (i off len : ℕ) : Prop :=
  (off = c.sectionOffset i + 8 ∧ len = 4) ∨ (off = c.sectionOffset i + 16 ∧ len = 4) ∨
    (off = c.sectionOffset i ∧ len = 8) ∨
    ((f.row c i).PointerRead ∧ off = c.sectionOffset i + 20 ∧ len = 4)

def TrustRead (env : HandleEnv) (alloc : ℕ → Bool) (f : File) (user : UserCert) (off len : ℕ) :
    Prop :=
  (loadCertFile env alloc f user).Emits (.read off len) ∨
    (loadRevocationsFile env f).Emits (.read off len)

section

variable (h : verifyImage env f = .ok c)
include h

lemma loadCertFile_emits {a : Access} :
    (loadCertFile env alloc f user).Emits a ↔
      ((List.range c.numberOfSections).foldlM (certStep alloc f c) user).Emits a := by
  unfold loadCertFile
  simp [h, Except.mapError]

lemma loadRevocationsFile_rows {a : Access}
    (hrows : ((List.range c.numberOfSections).foldlM (revStep f c) fun _ => none).Emits a) :
    (loadRevocationsFile env f).Emits a := by
  unfold loadRevocationsFile
  simp only [emits_bind, yields_lift, h]
  exact .inr ⟨c, rfl, .inl hrows⟩

lemma loadRevocationsFile_reads (hread : (loadRevocationsFile env f).Emits (.read off len)) :
    (∃ i < c.numberOfSections, FieldRead f c i off len) ∨
      ∃ s ∈ f.sections c, off = s.pointerToRawData ∧ len = s.sizeOfRawData := by
  unfold loadRevocationsFile at hread
  simp only [emits_bind, yields_lift, emits_lift, h, false_or] at hread
  obtain ⟨c', hc', hread⟩ := hread
  cases hc'
  rcases hread with hread | ⟨rows, hrows, hread⟩
  · obtain ⟨i, hi, u, -, hread⟩ := emits_foldlM_range.mp hread
    refine .inl ⟨i, hi, ?_⟩
    rcases revStep_emits.mp hread with hname | ⟨hrev, hpointer | hsize⟩
    · exact .inr (.inr (.inl hname))
    · exact .inr (.inr (.inr ⟨.inr hrev, hpointer⟩))
    · exact .inr (.inl hsize)
  right
  have hmem : ∀ ss : List (Option SectionHeader), (∀ s ∈ ss, ∃ x, s = rows x) →
      (handOver f ss).Emits (.read off len) →
        ∃ s ∈ f.sections c, off = s.pointerToRawData ∧ len = s.sizeOfRawData := by
    intro ss hss hread
    obtain ⟨s, hs, hrange⟩ := handOver_emits hread
    obtain ⟨x, hx⟩ := hss _ hs
    exact ⟨s, revRows_mem hrows hx.symm, hrange⟩
  rcases hread with hread | ⟨_, _, hread | ⟨_, _, hread⟩⟩
  · refine hmem _ (fun s hs => ?_) hread
    split_ifs at hs <;> simp at hs
    rcases hs with rfl | rfl <;> exact ⟨_, rfl⟩
  · refine hmem _ (fun s hs => ?_) hread
    split_ifs at hs <;> simp at hs
    rcases hs with rfl | rfl | rfl | rfl <;> exact ⟨_, rfl⟩
  · exact absurd hread emits_pure

lemma trustRead_cases (hraw : ∀ s ∈ f.sections c, s.sizeOfRawData ≠ 0 →
      s.pointerToRawData + s.sizeOfRawData ≤ f.datasize)
    (hread : TrustRead env alloc f user off len) :
    (∃ i < c.numberOfSections, FieldRead f c i off len) ∨
      ∃ s ∈ f.sections c, s.pointerToRawData ≤ off ∧
        off + len ≤ s.pointerToRawData + s.sizeOfRawData := by
  rcases hread with hread | hread
  · obtain ⟨i, hi, u, -, hread⟩ := emits_foldlM_range.mp ((loadCertFile_emits h).mp hread)
    have hmem : f.row c i ∈ f.sections c := mem_map_of_mem (mem_range.mpr hi)
    rcases certStep_reads (hraw _ hmem) hread with hsize | hsize | hname | ⟨hdb, hpointer⟩ | hdata
    · exact .inl ⟨i, hi, .inl hsize⟩
    · exact .inl ⟨i, hi, .inr (.inl hsize)⟩
    · exact .inl ⟨i, hi, .inr (.inr (.inl hname))⟩
    · exact .inl ⟨i, hi, .inr (.inr (.inr ⟨.inl hdb, hpointer⟩))⟩
    · exact .inr ⟨_, hmem, hdata⟩
  · refine (loadRevocationsFile_reads h hread).imp_right ?_
    rintro ⟨s, hs, rfl, rfl⟩
    exact ⟨s, hs, le_rfl, le_rfl⟩

lemma trustRead_first (hpos : 0 < c.numberOfSections)
    (hfield : FieldRead f c 0 off len) : TrustRead env alloc f user off len := by
  have hcert : (certStep alloc f c user 0).Emits (.read off len) → TrustRead env alloc f user off len :=
    fun hread => .inl ((loadCertFile_emits h).mpr
      (emits_foldlM_range.mpr ⟨0, hpos, user, yields_pure.mpr rfl, hread⟩))
  rcases hfield with ⟨rfl, rfl⟩ | ⟨rfl, rfl⟩ | ⟨rfl, rfl⟩ | ⟨hdb | hrev, rfl, rfl⟩
  · exact hcert certStep_emits_sizes.1
  · exact hcert certStep_emits_sizes.2
  · exact hcert certStep_emits_name
  · exact hcert (certStep_emits_pointer hdb)
  · refine .inr (loadRevocationsFile_rows h (emits_foldlM_range.mpr
      ⟨0, hpos, _, yields_pure.mpr rfl, ?_⟩))
    exact revStep_emits.mpr (.inr ⟨hrev, .inl ⟨rfl, rfl⟩⟩)

end

/-- How many of the eight bytes at `SecDir` are fields of the first row that are read, by the number
of data directories. -/
def skippedRead (f : File) (c : Context) : ℕ :=
  if c.numberOfRvaAndSizes = 4 then 8
  else if c.numberOfRvaAndSizes = 3 then 4
  else if c.numberOfRvaAndSizes = 2 then if (f.row c 0).PointerRead then 8 else 4
  else 0

lemma FieldRead.byte (hlay : Layout f c) (hi : i < c.numberOfSections)
    (h : FieldRead f c i off len) (hlo : off ≤ j) (hhi : j < off + len) :
    j < c.sizeOfHeaders ∧ (Skipped c j → c.secDir ≤ j ∧ j < c.secDir + skippedRead f c) := by
  have hsec := hlay.secDir
  have hfirst := hlay.firstSection
  have hle := hlay.secDir_le
  have htable := hlay.sections_headers
  have hcheck : c.checkSum = c.peHdr + 88 := rfl
  have hrow : c.sectionOffset i = c.firstSection + 40 * i := rfl
  have hend : c.sectionOffset c.numberOfSections = c.firstSection + 40 * c.numberOfSections := rfl
  have hin : c.sectionOffset i ≤ j ∧ j < c.sectionOffset i + 24 := by
    rcases h with h | h | h | ⟨-, h⟩ <;> omega
  refine ⟨by omega, fun hskip => ?_⟩
  have hdir : c.secDir ≤ j ∧ j < c.secDir + 8 := by
    rcases hskip with hskip | hskip
    · omega
    · exact hskip
  -- the second row starts behind the eight bytes
  obtain rfl : i = 0 := by omega
  refine ⟨hdir.1, ?_⟩
  unfold skippedRead
  split_ifs with h₄ h₃ h₂ hpointer
  · exact hdir.2
  · rcases h with h | h | h | ⟨-, h⟩ <;> omega
  · exact hdir.2
  · rcases h with h | h | h | ⟨hread, -⟩
    · omega
    · omega
    · omega
    · exact absurd hread hpointer
  · rcases h with h | h | h | ⟨-, h⟩ <;> omega

lemma fieldRead_of_lt (hlay : Layout f c) (hj : j < skippedRead f c) :
    ∃ off len, FieldRead f c 0 off len ∧ off ≤ c.secDir + j ∧ c.secDir + j < off + len := by
  have hsec := hlay.secDir
  have hfirst := hlay.firstSection
  have hrow : c.sectionOffset 0 = c.firstSection := rfl
  unfold skippedRead at hj
  split_ifs at hj with h₄ h₃ h₂ hpointer
  · exact ⟨_, _, .inr (.inr (.inl ⟨rfl, rfl⟩)), by omega, by omega⟩
  · exact ⟨_, _, .inl ⟨rfl, rfl⟩, by omega, by omega⟩
  · by_cases hj₄ : j < 4
    · exact ⟨_, _, .inr (.inl ⟨rfl, rfl⟩), by omega, by omega⟩
    · exact ⟨_, _, .inr (.inr (.inr ⟨hpointer, rfl, rfl⟩)), by omega, by omega⟩
  · exact ⟨_, _, .inr (.inl ⟨rfl, rfl⟩), by omega, by omega⟩
  · omega

/-- Every byte that is read of a file that `verify_image` accepts is hashed, exactly if it has no
section, or the bytes of its first row that are read in place of `SecDir` are raw data as well. -/
theorem trustFiles_reads_hashed_iff {r : HashResources} {input : HashInput} (alloc : ℕ → Bool)
    (user : UserCert) (hverify : verifyImage env f = .ok c)
    (hhash : generateHash r f c = .ok input) :
    (∀ off len, TrustRead env alloc f user off len →
        ∀ j, off ≤ j → j < off + len → input.Covers j) ↔
      (0 < c.numberOfSections → ∀ j < skippedRead f c, f.InRaw c (c.secDir + j)) := by
  obtain ⟨hread, -⟩ := verifyImage_ok hverify
  obtain ⟨hlay, hhashed⟩ := generateHash_ok hread hhash
  have hsum := generateHash_sum hread hhash
  constructor
  · intro h hpos j hj
    obtain ⟨off, len, hfield, hlo, hhi⟩ := fieldRead_of_lt hlay hj
    have hskip : Skipped c (c.secDir + j) := by
      refine .inr ⟨by omega, ?_⟩
      unfold skippedRead at hj
      split_ifs at hj <;> omega
    rw [← hhashed.covers_skipped_iff hlay hsum hskip]
    exact h off len (trustRead_first hverify hpos hfield) _ hlo hhi
  · intro h off len hread j hlo hhi
    rcases trustRead_cases hverify hhashed.raw_le hread with ⟨i, hi, hfield⟩ | ⟨s, hs, hdata⟩
    · obtain ⟨hheader, hskipped⟩ := hfield.byte hlay hi hlo hhi
      by_cases hskip : Skipped c j
      · obtain ⟨hge, hlt⟩ := hskipped hskip
        have hraw := h (by omega) (j - c.secDir) (by omega)
        rw [Nat.add_sub_cancel' hge] at hraw
        exact hhashed.covers_raw hraw
      · exact hhashed.covers_header hheader hskip
    · exact hhashed.covers_raw ⟨s, hs, by omega, by omega⟩

end

def nameDb : ℕ := 0x62642e

def certFile (dirs virtualSize : ℕ) : File :=
  .ofFields 344 <|
    [(0, 2, imageDosSignature), (60, 4, 64), (64, 4, 0x4550), (68, 2, 0x8664), (70, 2, 1),
      (84, 2, 112 + 8 * dirs), (88, 2, 0x20b), (144, 4, 0x2000), (148, 4, 288), (196, 4, dirs)] ++
    SectionFields.fields ⟨nameDb, virtualSize, 0x1000, 56, 288, 0x40000040⟩ (200 + 8 * dirs) ++
    [(304, 4, 28), (332, 4, 28)]

def certFileInput : HashInput where
  ranges := [(0, 152), (156, 76), (240, 48), (288, 56)]
  pad := 0

/-- With three data directories `VirtualSize` of the first row is not hashed: one certificate is
loaded from the one file, two from the other. -/
theorem loadCertFile_reads_unhashed :
    let f := certFile 3 28
    let g := certFile 3 56
    let env := secureEnv (f.mem.slice 312 32)
    verifyImage env f = .ok (f.context 64) ∧ verifyImage env g = .ok (g.context 64) ∧
      generateHash .ok f (f.context 64) = .ok certFileInput ∧
      generateHash .ok g (g.context 64) = .ok certFileInput ∧
      certFileInput.stream f.mem = certFileInput.stream g.mem ∧
      (loadCertFile env (fun _ => true) f ⟨0, .null⟩).Emits (.read 232 4) ∧
      ¬ certFileInput.Covers 232 ∧
      (loadCertFile env (fun _ => true) f ⟨0, .null⟩).out.map UserCert.size = .ok 28 ∧
      (loadCertFile env (fun _ => true) g ⟨0, .null⟩).out.map UserCert.size = .ok 56 := by
  refine ⟨by decide +kernel, by decide +kernel, by decide +kernel, by decide +kernel, ?_,
    by decide +kernel, by simp [HashInput.Covers, certFileInput], by decide +kernel,
    by decide +kernel⟩
  apply HashInput.stream_congr
  decide +kernel

theorem trustFiles_reads_hashed_certFile :
    let f := certFile 6 56
    let env := secureEnv (f.mem.slice 312 32)
    verifyImage env f = .ok (f.context 64) ∧ generateHash .ok f (f.context 64) = .ok certFileInput ∧
      (loadCertFile env (fun _ => true) f ⟨0, .null⟩).Emits (.read 256 4) ∧
      ∀ off len, TrustRead env (fun _ => true) f ⟨0, .null⟩ off len →
        ∀ j, off ≤ j → j < off + len → certFileInput.Covers j := by
  intro f env
  have hverify : verifyImage env f = .ok (f.context 64) := by decide +kernel
  have hhash : generateHash .ok f (f.context 64) = .ok certFileInput := by decide +kernel
  have hnone : skippedRead f (f.context 64) = 0 := by decide +kernel
  refine ⟨hverify, hhash, by decide +kernel, ?_⟩
  apply (trustFiles_reads_hashed_iff (fun _ => true) ⟨0, .null⟩ hverify hhash).mpr
  intro _ j hj
  rw [hnone] at hj
  exact absurd hj (Nat.not_lt_zero j)

end Shim
